/-
# 64-bit division

`lib/div64.c`, `include/div64.h` and `include/rosx/math64.h` for 32-bit
machines: `do_div` divides by a 32-bit number, with a reciprocal when the
compiler knows the divisor, and by shifting and subtracting when it does not;
`div64_u64` divides by a 64-bit number through an estimate. The conversions to
decimal digits divide with `do_div`.

All the ways of `do_div` give the quotient and the remainder (`doDiv_spec`). The
estimate of `div64_u64` loses one bit more of the divisor than it has to, and is
two too large for some divisors between `2 ^ 32` and `2 ^ 34`: the quotient is
right exactly when it is at most one too large (`div64U64Rem_right_iff`).

Key definitions: `div64_32`, `archXprod64`, `div64Const32`, `doDiv`, `div64U64Rem`.
Key theorems: `div64_32_spec`, `archXprod64_spec`, `div64Const32_spec`, `doDiv_spec`,
`div64U64Rem_right_iff`.
-/
import Rosx.Bits
import Rosx.Lib.Division
import Mathlib.Algebra.Order.Floor.Ring
import Mathlib.Data.Nat.Prime.Basic
import Mathlib.Data.Nat.Factorization.Basic

namespace Rosx

/-! ### Shifting and subtracting -/

/-- The first loop of `__div64_32`: `b` and its place `d` are doubled up to `rem`. -/
def div64Grow (rem b d : ℕ) : ℕ × ℕ :=
  if 0 < b ∧ b < 2 ^ 63 ∧ b < rem then div64Grow rem (u64 (b + b)) (u64 (d + d)) else (b, d)
termination_by 2 ^ 63 - b
decreasing_by
  rename_i h
  rw [u64_of_lt (by omega)]
  omega

/-- One place of the quotient: `b` is subtracted from `rem` if it fits. -/
def div64Place (b d rem res : ℕ) : ℕ × ℕ :=
  if b ≤ rem then (sub64 rem b, u64 (res + d)) else (rem, res)

/-- The second loop: place by place, with `b` halved, down to the last one. -/
def div64Shrink (rem res b d : ℕ) : ℕ × ℕ :=
  if d >>> 1 = 0 then ((div64Place b d rem res).2, (div64Place b d rem res).1)
  else div64Shrink (div64Place b d rem res).1 (div64Place b d rem res).2 (b >>> 1) (d >>> 1)
termination_by d
decreasing_by
  rename_i h
  rw [Nat.shiftRight_one] at h ⊢
  omega

/-- `__div64_32`: the quotient and the remainder. -/
def div64_32 (n base : ℕ) : ℕ × ℕ :=
  let high := u32 (n >>> 32)
  let res := if base ≤ high then u64 ((high / base) <<< 32) else 0
  let rem := if base ≤ high then sub64 n (u64 (u32 (high / base * base) <<< 32)) else n
  let bd := div64Grow rem base 1
  div64Shrink rem res bd.1 bd.2

/-- The doubling ends at `base * 2 ^ k`, above half of `rem`. -/
theorem div64Grow_spec {rem base : ℕ} (hb : 0 < base) (hr : rem < 2 ^ 64) (k : ℕ) (hk : base * 2 ^ k < 2 ^ 64) :
    ∃ j, div64Grow rem (base * 2 ^ k) (2 ^ k) = (base * 2 ^ j, 2 ^ j) ∧ base * 2 ^ j < 2 ^ 64 ∧
      rem < base * 2 ^ (j + 1) := by
  have hpos : 0 < base * 2 ^ k := Nat.mul_pos hb (Nat.two_pow_pos k)
  have hpow : base * 2 ^ (k + 1) = base * 2 ^ k + base * 2 ^ k := by ring
  unfold div64Grow
  by_cases h : 0 < base * 2 ^ k ∧ base * 2 ^ k < 2 ^ 63 ∧ base * 2 ^ k < rem
  · have hd : 2 ^ k ≤ base * 2 ^ k := Nat.le_mul_of_pos_left _ hb
    have hd2 : 2 ^ k + 2 ^ k = 2 ^ (k + 1) := by ring
    rw [if_pos h, u64_of_lt (by omega), u64_of_lt (by omega), ← hpow, hd2]
    exact div64Grow_spec hb hr (k + 1) (by omega)
  · exact ⟨k, by rw [if_neg h], hk, by omega⟩
termination_by 2 ^ 63 - base * 2 ^ k

theorem div64Shrink_spec {base : ℕ} (hb : 0 < base) : ∀ (k rem res : ℕ), rem < 2 ^ 64 →
    rem < base * 2 ^ (k + 1) → res + rem / base < 2 ^ 64 →
    div64Shrink rem res (base * 2 ^ k) (2 ^ k) = (res + rem / base, rem % base) := by
  intro k
  induction k with
  | zero =>
    intro rem res h64 hlt hq
    unfold div64Shrink div64Place
    rw [pow_zero, mul_one, if_pos (by decide)]
    by_cases hle : base ≤ rem
    · have hlt' : rem - base < base := by omega
      rw [if_pos hle, sub64_of_le hle h64, Nat.mod_eq_sub_mod hle, Nat.mod_eq_of_lt hlt']
      rw [Nat.div_eq_sub_div hb hle, Nat.div_eq_of_lt hlt', Nat.zero_add] at hq ⊢
      rw [u64_of_lt hq]
    · rw [if_neg hle, Nat.div_eq_of_lt (by omega), Nat.mod_eq_of_lt (by omega), Nat.add_zero]
  | succ k ih =>
    intro rem res h64 hlt hq
    have hpow : base * 2 ^ (k + 1 + 1) = base * 2 ^ (k + 1) + base * 2 ^ (k + 1) := by ring
    have hplace : 2 ^ (k + 1) >>> 1 = 2 ^ k := by
      rw [Nat.shiftRight_one, pow_succ, Nat.mul_div_cancel _ two_pos]
    have hhalf : (base * 2 ^ (k + 1)) >>> 1 = base * 2 ^ k := by
      rw [Nat.shiftRight_one, pow_succ, ← mul_assoc, Nat.mul_div_cancel _ two_pos]
    unfold div64Shrink div64Place
    rw [hplace, hhalf, if_neg (Nat.two_pow_pos k).ne']
    by_cases hle : base * 2 ^ (k + 1) ≤ rem
    · have hdiv := Nat.sub_mul_div rem base (2 ^ (k + 1))
      have hge : 2 ^ (k + 1) ≤ rem / base := by
        rw [Nat.le_div_iff_mul_le hb, mul_comm]
        exact hle
      have hrest := ih (rem - base * 2 ^ (k + 1)) (res + 2 ^ (k + 1)) (by omega) (by omega) (by omega)
      rw [if_pos hle, sub64_of_le hle h64, u64_of_lt (by omega), hrest, hdiv, Nat.sub_mul_mod hle]
      congr 1
      omega
    · rw [if_neg hle]
      exact ih rem res h64 (by omega) hq

/-- **Long division.** `__div64_32` gives the quotient and the remainder of any
64-bit dividend and any 32-bit divisor. -/
theorem div64_32_spec {n base : ℕ} (hn : n < 2 ^ 64) (hb : 0 < base) (hb32 : base < 2 ^ 32) :
    div64_32 n base = (n / base, n % base) := by
  have hhigh : u32 (n >>> 32) = n / 2 ^ 32 := by
    rw [Nat.shiftRight_eq_div_pow, u32_of_lt (by omega)]
  have hfinish : ∀ res rem : ℕ, rem < 2 ^ 64 → res + rem / base = n / base → rem % base = n % base →
      div64Shrink rem res (div64Grow rem base 1).1 (div64Grow rem base 1).2 = (n / base, n % base) := by
    intro res rem hrem hdiv hmod
    have hle : n / base ≤ n := Nat.div_le_self n base
    obtain ⟨j, hj, hj64, hlt⟩ := @div64Grow_spec rem base hb hrem 0 (by omega)
    rw [pow_zero, mul_one] at hj
    rw [hj, div64Shrink_spec hb j rem res hrem hlt (by omega), hdiv, hmod]
  unfold div64_32
  simp only [hhigh]
  by_cases hle : base ≤ n / 2 ^ 32
  · set c := n / 2 ^ 32 / base with hc
    have hcb : c * base ≤ n / 2 ^ 32 := Nat.div_mul_le_self _ _
    have hc32 : c < 2 ^ 32 := lt_of_le_of_lt (Nat.div_le_self _ _) (by omega)
    have hcut : c * base * 2 ^ 32 ≤ n := (Nat.mul_le_mul_right _ hcb).trans (Nat.div_mul_le_self n _)
    have hcut' : base * (c * 2 ^ 32) = c * base * 2 ^ 32 := by ring
    have hdiv := Nat.sub_mul_div n base (c * 2 ^ 32)
    have hmod := Nat.sub_mul_mod (x := n) (k := c * 2 ^ 32) (n := base) (by omega)
    have hge : c * 2 ^ 32 ≤ n / base := by
      rw [Nat.le_div_iff_mul_le hb, mul_comm, hcut']
      exact hcut
    rw [if_pos hle, if_pos hle, u32_of_lt (by omega), Nat.shiftLeft_eq, Nat.shiftLeft_eq, u64_of_lt (by omega),
      u64_of_lt (by omega), sub64_of_le hcut hn, ← hcut']
    exact hfinish _ _ (by omega) (by omega) hmod
  · rw [if_neg hle, if_neg hle]
    exact hfinish 0 n hn (by omega) rfl

/-! ### Multiplying with a reciprocal -/

/-- The sum of two 64-bit numbers from bit 32 on, the carry put back: `res` is the
sum as the machine has it, smaller than `a` after a carry. -/
def highOfSum (a b : ℕ) : ℕ :=
  let res := u64 (a + b)
  u64 (res >>> 32 + if res < a then 2 ^ 32 else 0)

/-- The low cross product `p` of `__arch_xprod_64` from bit 32 on, with `m` added if
there is a bias; the carry is looked at unless `m` is `small`. -/
def xprodLow (m p : ℕ) (bias small : Bool) : ℕ :=
  if !bias then p >>> 32 else if small then u64 (m + p) >>> 32 else highOfSum m p

/-- The two middle products are added to `res`, and bit 32 on is kept. -/
def xprodMiddle (res q r : ℕ) (small : Bool) : ℕ :=
  if small then u64 (u64 (res + q) + r) >>> 32 else highOfSum (u64 (res + q)) r

/-- `__arch_xprod_64`: bits 64 and up of `m * n`, with `m` added if there is a bias.
No carry can occur when bits 31 and 63 of `m` are clear. -/
def archXprod64 (m n : ℕ) (bias : Bool) : ℕ :=
  let mLo := u32 m
  let mHi := u32 (m >>> 32)
  let nLo := u32 n
  let nHi := u32 (n >>> 32)
  let small := m &&& (2 ^ 63 ||| 2 ^ 31) = 0
  u64 (xprodMiddle (xprodLow m (mLo * nLo) bias small) (mLo * nHi) (mHi * nLo) small + mHi * nHi)

theorem highOfSum_spec {a b : ℕ} (ha : a < 2 ^ 64) (hb : b < 2 ^ 64) : highOfSum a b = (a + b) / 2 ^ 32 := by
  simp only [highOfSum, Nat.shiftRight_eq_div_pow]
  by_cases h : a + b < 2 ^ 64
  · rw [u64_of_lt h, if_neg (by omega), Nat.add_zero, u64_of_lt (by omega)]
  · have hwrap : u64 (a + b) = a + b - 2 ^ 64 := by
      unfold u64
      omega
    rw [hwrap, if_pos (by omega), u64_of_lt (by omega)]
    omega

/-- Bits 31 and 63 of `m` are clear. -/
theorem small_bounds {m : ℕ} (hm : m < 2 ^ 64) (h : m &&& (2 ^ 63 ||| 2 ^ 31) = 0) :
    m < 2 ^ 63 ∧ m % 2 ^ 32 < 2 ^ 31 := by
  have hbit : ∀ i, m.testBit i = true → (2 ^ 63 ||| 2 ^ 31 : ℕ).testBit i = false := by
    intro i hi
    have hand := congrArg (fun x => Nat.testBit x i) h
    simpa [Nat.testBit_and, hi] using hand
  have h63 : m.testBit 63 = false := Bool.eq_false_iff.mpr fun hi => by
    have := hbit 63 hi
    revert this
    decide
  have h31 : m.testBit 31 = false := Bool.eq_false_iff.mpr fun hi => by
    have := hbit 31 hi
    revert this
    decide
  rw [Nat.testBit_eq_decide_div_mod_eq, decide_eq_false_iff_not] at h63 h31
  omega

theorem xprodLow_spec {m p : ℕ} {small : Bool} (hm : m < 2 ^ 64) (hp : p < 2 ^ 64)
    (hs : small = true → m + p < 2 ^ 64) (bias : Bool) :
    xprodLow m p bias small = ((if bias then m else 0) + p) / 2 ^ 32 := by
  unfold xprodLow
  cases bias with
  | false => simp [Nat.shiftRight_eq_div_pow]
  | true =>
    cases small with
    | false => simp [highOfSum_spec hm hp]
    | true => simp [u64_of_lt (hs rfl), Nat.shiftRight_eq_div_pow]

theorem xprodMiddle_spec {res q r : ℕ} {small : Bool} (hq : res + q < 2 ^ 64) (hr : r < 2 ^ 64)
    (hs : small = true → res + q + r < 2 ^ 64) : xprodMiddle res q r small = (res + q + r) / 2 ^ 32 := by
  unfold xprodMiddle
  rw [u64_of_lt hq]
  cases small with
  | false => exact highOfSum_spec hq hr
  | true => rw [if_pos rfl, u64_of_lt (hs rfl), Nat.shiftRight_eq_div_pow]

theorem half_mul_le {a b : ℕ} (ha : a < 2 ^ 32) (hb : b < 2 ^ 32) : a * b ≤ (2 ^ 32 - 1) * (2 ^ 32 - 1) :=
  Nat.mul_le_mul (by omega) (by omega)

/-- A product of 64-bit numbers from the four products of their halves. -/
theorem mul_halves (m n : ℕ) : m * n = u32 m * u32 n +
    2 ^ 32 * (u32 m * (n / 2 ^ 32) + m / 2 ^ 32 * u32 n) + 2 ^ 64 * (m / 2 ^ 32 * (n / 2 ^ 32)) := by
  calc m * n = (2 ^ 32 * (m / 2 ^ 32) + m % 2 ^ 32) * (2 ^ 32 * (n / 2 ^ 32) + n % 2 ^ 32) := by
        rw [Nat.div_add_mod, Nat.div_add_mod]
    _ = _ := by unfold u32; ring

/-- The four products put together, with `c` added to the lowest. -/
theorem xprod_assemble {m n c : ℕ} {small : Bool} (hm : m < 2 ^ 64) (hn : n < 2 ^ 64) (hc : c ≤ m)
    (hs : small = true → u32 m * (n / 2 ^ 32) < 2 ^ 63 - 2 ^ 32 ∧ m / 2 ^ 32 * u32 n < 2 ^ 63 - 2 ^ 32) :
    u64 (xprodMiddle ((c + u32 m * u32 n) / 2 ^ 32) (u32 m * (n / 2 ^ 32)) (m / 2 ^ 32 * u32 n) small +
      m / 2 ^ 32 * (n / 2 ^ 32)) = (c + m * n) / 2 ^ 64 := by
  have hlow := half_mul_le (u32_lt m) (u32_lt n)
  have hmid := half_mul_le (u32_lt m) (show n / 2 ^ 32 < 2 ^ 32 by omega)
  have hmid' := half_mul_le (show m / 2 ^ 32 < 2 ^ 32 by omega) (u32_lt n)
  have hprod := mul_halves m n
  have hbound : m * n ≤ (2 ^ 64 - 1) * (2 ^ 64 - 1) := Nat.mul_le_mul (by omega) (by omega)
  generalize u32 m * u32 n = p at *
  generalize u32 m * (n / 2 ^ 32) = q at *
  generalize m / 2 ^ 32 * u32 n = r at *
  rw [xprodMiddle_spec (by omega) (by omega) (fun h => by have := hs h; omega), u64_of_lt (by omega)]
  omega

/-- **The cross product.** `__arch_xprod_64` is the high half of the 128-bit number
`m * n`, or of `m + m * n`. -/
theorem archXprod64_spec {m n : ℕ} (hm : m < 2 ^ 64) (hn : n < 2 ^ 64) (bias : Bool) :
    archXprod64 m n bias = ((if bias then m else 0) + m * n) / 2 ^ 64 := by
  have hm32 : u32 (m >>> 32) = m / 2 ^ 32 := by
    rw [Nat.shiftRight_eq_div_pow, u32_of_lt (by omega)]
  have hn32 : u32 (n >>> 32) = n / 2 ^ 32 := by
    rw [Nat.shiftRight_eq_div_pow, u32_of_lt (by omega)]
  have hbias : (if bias then m else 0) ≤ m := by
    cases bias with
    | false => exact Nat.zero_le m
    | true => exact le_rfl
  have hlow := half_mul_le (u32_lt m) (u32_lt n)
  have hn1 : u32 n ≤ 2 ^ 32 - 1 := Nat.le_pred_of_lt (u32_lt n)
  -- with bits 31 and 63 of `m` clear the products stay below `2 ^ 63`
  have hsmall : m &&& (2 ^ 63 ||| 2 ^ 31) = 0 → m < 2 ^ 63 ∧ u32 m ≤ 2 ^ 31 - 1 := by
    intro h
    obtain ⟨h63, h31⟩ := small_bounds hm h
    exact ⟨h63, by unfold u32; omega⟩
  unfold archXprod64
  simp only [hm32, hn32]
  rw [xprodLow_spec hm (by omega), xprod_assemble hm hn hbias]
  · intro h
    obtain ⟨h63, h31⟩ := hsmall (of_decide_eq_true h)
    have hq : u32 m * (n / 2 ^ 32) ≤ (2 ^ 31 - 1) * (2 ^ 32 - 1) := Nat.mul_le_mul h31 (by omega)
    have hr : m / 2 ^ 32 * u32 n ≤ (2 ^ 31 - 1) * (2 ^ 32 - 1) := Nat.mul_le_mul (by omega) hn1
    omega
  · intro h
    obtain ⟨h63, h31⟩ := hsmall (of_decide_eq_true h)
    have hp : u32 m * u32 n ≤ (2 ^ 31 - 1) * (2 ^ 32 - 1) := Nat.mul_le_mul h31 hn1
    omega

/-! ### Constant divisors -/

/-- `~0ULL`. -/
def ullMax : ℕ := 2 ^ 64 - 1

/-- What `__div64_const32` settles on before it multiplies: the dividend, the
multiplier, the power of two to divide by, and whether there is a bias. -/
structure Reciprocal where
  n : ℕ
  m : ℕ
  p : ℕ
  bias : Bool

/-- `(p << 64 + c) / b`, as `__div64_const32` computes it in 64 bits. -/
def scaledInverse (p b c : ℕ) : ℕ := u64 (ullMax / b * p + u64 (u64 ((ullMax % b + 1) * p) + c) / b)

/-- The test product of `__div64_const32`: bits 64 and up of `m * x`. -/
def testProduct (m x : ℕ) : ℕ :=
  let res := (u32 m * u32 x) >>> 32
  let t := u64 (res + u32 m * (x >>> 32))
  u64 (highOfSum t (u32 x * (m >>> 32)) + (m >>> 32) * (x >>> 32))

/-- How far `m / p` is reduced: by the zeros `m` ends in, or less when bit 31 of
`m` becomes clear before. -/
def reduceBits (m : ℕ) : ℕ :=
  let bits := u32 (u32 (sub64 0 (lowBit 64 m)) ||| m >>> 32)
  u32 ((2 ^ 32 - 1 - bits) <<< 1)

/-- The constants of `__div64_const32` for the divisor `b`. -/
def reciprocal (n b : ℕ) : Reciprocal :=
  let p := u32 (1 <<< Nat.log2 b)
  let m := scaledInverse p b (b - 1)
  let x := ullMax / b * b - 1
  if ullMax % (b / lowBit 32 b) = 0 then
    { n := n / lowBit 32 b, m := ullMax / (b / lowBit 32 b), p := 1, bias := true }
  else if testProduct m x / p ≠ x / b then { n, m := scaledInverse p b 0, p, bias := true }
  else if reduceBits m = 0 then { n, m := m / lowBit 64 m, p := p / lowBit 64 m, bias := false }
  else { n, m := m >>> Nat.log2 (reduceBits m), p := p >>> Nat.log2 (reduceBits m), bias := false }

/-- `__div64_const32`: division by a constant that is not a power of two. -/
def div64Const32 (n b : ℕ) : ℕ :=
  let r := reciprocal n b
  archXprod64 r.m r.n r.bias / r.p

/-- `do_div`: the quotient and the remainder. `constant` is what
`__builtin_constant_p` says of the divisor. -/
def doDiv (constant : Bool) (n base : ℕ) : ℕ × ℕ :=
  if constant && isPowerOf2 base then (n >>> Nat.log2 base, n &&& (base - 1))
  else if constant && base ≠ 0 then
    (div64Const32 n base, sub32 (u32 n) (u32 (u32 (div64Const32 n base) * base)))
  else if n >>> 32 = 0 then (u32 n / base, u32 n % base)
  else div64_32 n base

/-- What the proofs use of a divisor of `__div64_const32`: `p` is the power of two
below it. -/
structure Divisor (b p : ℕ) : Prop where
  pow : ∃ l ≤ 31, p = 2 ^ l
  lt : p < b
  lt_double : b < 2 * p
  lt_two_pow : b < 2 ^ 32
  not_pow : ¬ b.isPowerOfTwo

theorem divisor_log2 {b : ℕ} (hb : 0 < b) (hb32 : b < 2 ^ 32) (hpow : ¬ b.isPowerOfTwo) :
    Divisor b (2 ^ Nat.log2 b) := by
  have hle : 2 ^ Nat.log2 b ≤ b := Nat.log2_self_le hb.ne'
  have hlt : b < 2 ^ (Nat.log2 b + 1) := Nat.lt_log2_self
  have hlog : Nat.log2 b < 32 := (Nat.log2_lt hb.ne').mpr hb32
  refine ⟨⟨Nat.log2 b, by omega, rfl⟩, ?_, ?_, hb32, hpow⟩
  · refine lt_of_le_of_ne hle fun h => hpow ⟨Nat.log2 b, h.symm⟩
  · rw [pow_succ] at hlt
    omega

namespace Divisor

variable {b p : ℕ}

/-- The divisor does not divide a power of two. -/
theorem not_dvd (h : Divisor b p) (k : ℕ) : ¬ b ∣ 2 ^ k := by
  intro hdvd
  obtain ⟨j, -, hj⟩ := (Nat.dvd_prime_pow Nat.prime_two).mp hdvd
  exact h.not_pow ⟨j, hj⟩

/-- The products of the inverse fit into 64 bits. -/
theorem scaledInverse_eq (h : Divisor b p) {c : ℕ} (hc : c < b) :
    scaledInverse p b c = (p * 2 ^ 64 + c) / b := by
  have hb := h.lt_two_pow
  have hp : p < 2 ^ 32 := h.lt.trans hb
  have hb0 : 0 < b := Nat.pos_of_ne_zero (by have := h.lt; omega)
  have hmod : ullMax % b < b := Nat.mod_lt _ hb0
  have hprod : (ullMax % b + 1) * p ≤ (2 ^ 32 - 1) * (2 ^ 32 - 1) := Nat.mul_le_mul (by omega) (by omega)
  have hsplit : p * 2 ^ 64 + c = b * (ullMax / b * p) + ((ullMax % b + 1) * p + c) := by
    have hdiv : b * (ullMax / b) + ullMax % b = ullMax := Nat.div_add_mod _ _
    calc p * 2 ^ 64 + c = (ullMax + 1) * p + c := by unfold ullMax; ring
      _ = (b * (ullMax / b) + ullMax % b + 1) * p + c := by rw [hdiv]
      _ = _ := by ring
  have hval : (p * 2 ^ 64 + c) / b = ullMax / b * p + ((ullMax % b + 1) * p + c) / b := by
    rw [hsplit, Nat.mul_add_div hb0]
  have hlt : (p * 2 ^ 64 + c) / b < 2 ^ 64 := by
    rw [Nat.div_lt_iff_lt_mul hb0]
    have hpb : (p + 1) * 2 ^ 64 ≤ b * 2 ^ 64 := Nat.mul_le_mul_right _ h.lt
    omega
  unfold scaledInverse
  rw [u64_of_lt (x := (ullMax % b + 1) * p) (by omega), u64_of_lt (x := (ullMax % b + 1) * p + c) (by omega),
    ← hval, u64_of_lt hlt]

end Divisor

/-- The test product is the cross product without a bias. -/
theorem testProduct_spec {m x : ℕ} (hm : m < 2 ^ 64) (hx : x < 2 ^ 64) : testProduct m x = m * x / 2 ^ 64 := by
  have hall := @xprod_assemble m x 0 false hm hx (Nat.zero_le m) (by simp)
  simp only [xprodMiddle, Nat.zero_add, Bool.false_eq_true, if_false] at hall
  rw [← hall]
  simp only [testProduct, Nat.shiftRight_eq_div_pow, Nat.mul_comm (u32 x)]

namespace Divisor

variable {b p n : ℕ}

theorem pos (h : Divisor b p) : 0 < b := Nat.pos_of_ne_zero (by have := h.lt; omega)

/-- The inverse rounded up is too large by a remainder of the division. -/
theorem roundUp_excess (h : Divisor b p) : ∃ e, 0 < e ∧ e < b ∧
    scaledInverse p b (b - 1) * b = p * 2 ^ 64 + e := by
  have hb := h.pos
  obtain ⟨l, -, rfl⟩ := h.pow
  rw [h.scaledInverse_eq (by omega)]
  have hdiv := Nat.div_add_mod (2 ^ l * 2 ^ 64 + (b - 1)) b
  have hmod := Nat.mod_lt (2 ^ l * 2 ^ 64 + (b - 1)) hb
  rw [mul_comm b] at hdiv
  refine ⟨b - 1 - (2 ^ l * 2 ^ 64 + (b - 1)) % b, ?_, by omega, by omega⟩
  by_contra h0
  apply h.not_dvd (l + 64)
  rw [pow_add]
  exact ⟨(2 ^ l * 2 ^ 64 + (b - 1)) / b, by rw [mul_comm b]; omega⟩

/-- The inverse rounded down is too small by the rest of the divisor. -/
theorem roundDown_excess (h : Divisor b p) {e : ℕ} (he : 0 < e) (heb : e < b)
    (hup : scaledInverse p b (b - 1) * b = p * 2 ^ 64 + e) :
    scaledInverse p b 0 * b + (b - e) = p * 2 ^ 64 := by
  have hb := h.pos
  have hval : scaledInverse p b 0 = scaledInverse p b (b - 1) - 1 := by
    rw [h.scaledInverse_eq hb, Nat.add_zero]
    apply Nat.div_eq_of_lt_le
    · rw [Nat.sub_mul]
      omega
    · rw [Nat.add_mul, Nat.sub_mul]
      omega
  have hpos : 1 ≤ scaledInverse p b (b - 1) := by
    by_contra h0
    have h0' : scaledInverse p b (b - 1) = 0 := by omega
    rw [h0', Nat.zero_mul] at hup
    omega
  have hmul : (scaledInverse p b (b - 1) - 1) * b = scaledInverse p b (b - 1) * b - b := by
    rw [Nat.sub_mul, one_mul]
  have hle : 1 * b ≤ scaledInverse p b (b - 1) * b := Nat.mul_le_mul_right b hpos
  rw [hval, hmul]
  omega

/-- The largest dividend that leaves the remainder `b - 1`. -/
theorem le_test (h : Divisor b p) (hn : n < 2 ^ 64) (hmod : n % b = b - 1) : n ≤ ullMax / b * b - 1 := by
  have hb := h.pos
  have hn' : n / b * b + n % b = n := Nat.div_add_mod' n b
  have hle : n / b + 1 ≤ ullMax / b := by
    rw [Nat.le_div_iff_mul_le hb, Nat.add_mul, one_mul]
    -- the next multiple of `b` is no power of two
    have hne : n / b * b + b ≠ 2 ^ 64 := fun heq => h.not_dvd 64 ⟨n / b + 1, by rw [mul_add, mul_one, mul_comm b]; omega⟩
    unfold ullMax
    omega
  have hmul : (n / b + 1) * b ≤ ullMax / b * b := Nat.mul_le_mul_right b hle
  rw [Nat.add_mul, one_mul] at hmul
  omega

/-- The last multiple of `b`, less one, leaves `b - 1`. -/
theorem test_mod (h : Divisor b p) : (ullMax / b * b - 1) % b = b - 1 := by
  have hb := h.pos
  have hb32 := h.lt_two_pow
  have hpos : 0 < ullMax / b := Nat.div_pos (by unfold ullMax; omega) hb
  have hsplit : ullMax / b * b - 1 = b - 1 + (ullMax / b - 1) * b := by
    have hle : 1 * b ≤ ullMax / b * b := Nat.mul_le_mul_right b hpos
    rw [Nat.sub_mul]
    omega
  rw [hsplit, Nat.add_mul_mod_self_right, Nat.mod_eq_of_lt (by omega)]

/-- The test succeeds exactly when the excess of the inverse does not show there. -/
theorem test_iff (h : Divisor b p) {m e x : ℕ} (hm : m * b = p * 2 ^ 64 + e) (hx : x % b = b - 1) :
    m * x / (p * 2 ^ 64) = x / b ↔ e * x < p * 2 ^ 64 := by
  have hb := h.pos
  obtain ⟨l, -, rfl⟩ := h.pow
  have hD : 0 < 2 ^ l * 2 ^ 64 := by positivity
  generalize 2 ^ l * 2 ^ 64 = D at *
  constructor
  · intro heq
    have hlt : m * x < (x / b + 1) * D := by
      rw [← heq, ← Nat.div_lt_iff_lt_mul hD]
      exact Nat.lt_succ_self _
    have hq : b * (x / b) + (b - 1) = x := hx ▸ Nat.div_add_mod x b
    have hlt' : (D + e) * x < (x + 1) * D := by
      calc (D + e) * x = b * (m * x) := by rw [← hm]; ring
        _ < b * ((x / b + 1) * D) := Nat.mul_lt_mul_of_pos_left hlt hb
        _ = (b * (x / b) + b) * D := by ring
        _ = (x + 1) * D := by congr 1; omega
    rw [Nat.add_mul, Nat.add_mul, Nat.mul_comm D] at hlt'
    omega
  · intro hlt
    apply Division.roundUp hb hm
    have hbD : (b - 1) * D + D = b * D := by
      rw [Nat.sub_mul, one_mul, Nat.sub_add_cancel (Nat.le_mul_of_pos_left D hb)]
    rw [hx]
    omega

/-- When the test succeeds, the inverse rounded up serves every dividend. -/
theorem roundUp_serves (h : Divisor b p) {m e : ℕ} (hm : m * b = p * 2 ^ 64 + e) (he : e < b)
    (htest : e * (ullMax / b * b - 1) < p * 2 ^ 64) (hn : n < 2 ^ 64) : m * n / (p * 2 ^ 64) = n / b := by
  have hb := h.pos
  have hb2 := h.lt_double
  apply Division.roundUp hb hm
  have hr : n % b < b := Nat.mod_lt n hb
  by_cases hmod : n % b = b - 1
  · have hle : e * n ≤ e * (ullMax / b * b - 1) := Nat.mul_le_mul_left e (h.le_test hn hmod)
    have hbD : (b - 1) * (p * 2 ^ 64) + p * 2 ^ 64 = b * (p * 2 ^ 64) := by
      rw [Nat.sub_mul, one_mul, Nat.sub_add_cancel (Nat.le_mul_of_pos_left _ hb)]
    rw [hmod]
    omega
  · have hlt : e * n < 2 * (p * 2 ^ 64) := by
      calc e * n ≤ e * 2 ^ 64 := Nat.mul_le_mul_left e hn.le
        _ < 2 * p * 2 ^ 64 := Nat.mul_lt_mul_of_pos_right (by omega) (Nat.two_pow_pos 64)
        _ = 2 * (p * 2 ^ 64) := by ring
    have hle : (n % b + 2) * (p * 2 ^ 64) ≤ b * (p * 2 ^ 64) := Nat.mul_le_mul_right _ (by omega)
    rw [Nat.add_mul] at hle
    omega

/-- When it fails, the inverse rounded down is used on `n + 1`. -/
theorem roundDown_serves (h : Divisor b p) {m e : ℕ} (heb : e < b) (hm : m * b + (b - e) = p * 2 ^ 64)
    (htest : ¬ e * (ullMax / b * b - 1) < p * 2 ^ 64) (hn : n < 2 ^ 64) :
    m * (n + 1) / (p * 2 ^ 64) = n / b := by
  have hb := h.pos
  have hb2 := h.lt_double
  have hpe : p ≤ e := by
    by_contra hlt
    apply htest
    have hx : ullMax / b * b - 1 < 2 ^ 64 := by
      have := Nat.div_mul_le_self ullMax b
      unfold ullMax at this ⊢
      omega
    calc e * (ullMax / b * b - 1) ≤ e * 2 ^ 64 := Nat.mul_le_mul_left e hx.le
      _ < p * 2 ^ 64 := Nat.mul_lt_mul_of_pos_right (by omega) (Nat.two_pow_pos 64)
  apply Division.roundDown hb (by omega) hm
  calc (b - e) * (n + 1) ≤ p * 2 ^ 64 := Nat.mul_le_mul (by omega) hn
    _ ≤ (n % b + 1) * (p * 2 ^ 64) := Nat.le_mul_of_pos_left _ (Nat.succ_pos _)

/-- The inverse ends in no more zeros than `p`. -/
theorem zeros_le (h : Divisor b p) {z o e l : ℕ} (hl : p = 2 ^ l) (hm : 2 ^ z * o < 2 ^ 64) (ho : Odd o)
    (he : 0 < e) (heb : e < b) (hmul : 2 ^ z * o * b = p * 2 ^ 64 + e) : z ≤ l := by
  have hz : z < 64 := by
    by_contra hge
    have hpow : 2 ^ 64 ≤ 2 ^ z := Nat.pow_le_pow_right two_pos (by omega)
    have hle : 2 ^ z * 1 ≤ 2 ^ z * o := Nat.mul_le_mul_left _ ho.pos
    omega
  have hdvd : 2 ^ z ∣ e := by
    have hprod : 2 ^ z ∣ p * 2 ^ 64 + e := ⟨o * b, by rw [← hmul]; ring⟩
    have hpow : 2 ^ z ∣ p * 2 ^ 64 := (pow_dvd_pow 2 (by omega)).trans (dvd_mul_left _ _)
    exact (Nat.dvd_add_right hpow).mp hprod
  have hlt : 2 ^ z < 2 ^ (l + 1) := by
    have hb2 := h.lt_double
    rw [pow_succ, ← hl]
    have := Nat.le_of_dvd he hdvd
    omega
  have := (Nat.pow_lt_pow_iff_right (by omega)).mp hlt
  omega

end Divisor

/-- `m / p` is reduced by no more zeros than `m` ends in. -/
theorem reduceBits_lt {m z : ℕ} (hm : m < 2 ^ 64) (hlow : lowBit 64 m = 2 ^ z) (hz : z ≤ 31) :
    reduceBits m < 2 ^ (z + 1) := by
  have hpow : 2 ^ z ≤ 2 ^ 31 := Nat.pow_le_pow_right two_pos hz
  have hpos : 0 < 2 ^ z := Nat.two_pow_pos z
  have hneg : u32 (sub64 0 (2 ^ z)) = 2 ^ 32 - 2 ^ z := by
    unfold sub64 u64 u32
    omega
  have hhigh : m >>> 32 < 2 ^ 32 := by
    rw [Nat.shiftRight_eq_div_pow]
    omega
  have hor : (2 ^ 32 - 2 ^ z) ||| m >>> 32 < 2 ^ 32 := Nat.or_lt_two_pow (by omega) hhigh
  have hge : 2 ^ 32 - 2 ^ z ≤ (2 ^ 32 - 2 ^ z) ||| m >>> 32 := Nat.left_le_or
  have hpow1 : 2 ^ (z + 1) = 2 * 2 ^ z := by ring
  simp only [reduceBits, hlow, hneg]
  rw [u32_of_lt hor, Nat.shiftLeft_eq, pow_one, u32_of_lt (by omega)]
  omega

/-- A quotient of multiples. -/
theorem mul_div_shift {m n p s : ℕ} (hm : 2 ^ s ∣ m) (hp : 2 ^ s ∣ p) :
    m / 2 ^ s * n / 2 ^ 64 / (p / 2 ^ s) = m * n / (p * 2 ^ 64) := by
  obtain ⟨m', rfl⟩ := hm
  obtain ⟨p', rfl⟩ := hp
  have hpos : 0 < 2 ^ s := Nat.two_pow_pos s
  rw [Nat.mul_div_cancel_left _ hpos, Nat.mul_div_cancel_left _ hpos, Nat.div_div_eq_div_mul, mul_assoc,
    mul_assoc, Nat.mul_div_mul_left _ _ hpos, mul_comm p']

/-- The odd part `o` of the divisor divides `2 ^ 64 - 1`. -/
theorem xprod_odd {z o n : ℕ} (ho : Odd o) (hdvd : ullMax % o = 0) (hn : n < 2 ^ 64) :
    archXprod64 (ullMax / o) (n / 2 ^ z) true / 1 = n / (2 ^ z * o) := by
  have hmul : ullMax / o * o + 1 = 2 ^ 64 := by
    rw [Nat.div_mul_cancel (Nat.dvd_of_mod_eq_zero hdvd)]
    rfl
  have hn' : n / 2 ^ z < 2 ^ 64 := lt_of_le_of_lt (Nat.div_le_self _ _) hn
  have hm : ullMax / o < 2 ^ 64 := lt_of_le_of_lt (Nat.div_le_self _ _) (by unfold ullMax; omega)
  have hdown : ullMax / o * (n / 2 ^ z + 1) / 2 ^ 64 = n / 2 ^ z / o := by
    apply Division.roundDown ho.pos Nat.one_pos hmul
    calc 1 * (n / 2 ^ z + 1) = n / 2 ^ z + 1 := one_mul _
      _ ≤ 1 * 2 ^ 64 := by omega
      _ ≤ (n / 2 ^ z % o + 1) * 2 ^ 64 := Nat.mul_le_mul_right _ (Nat.le_add_left 1 _)
  rw [archXprod64_spec hm hn', Nat.div_one, if_pos rfl, ← mul_one_add, add_comm 1, hdown,
    Nat.div_div_eq_div_mul]

/-- The inverse rounded down, with the bias. -/
theorem xprod_biased {m p n : ℕ} (hm : m < 2 ^ 64) (hn : n < 2 ^ 64) :
    archXprod64 m n true / p = m * (n + 1) / (p * 2 ^ 64) := by
  rw [archXprod64_spec hm hn, if_pos rfl, Nat.div_div_eq_div_mul, ← mul_one_add, add_comm 1,
    mul_comm (2 ^ 64)]

/-- The inverse rounded up, reduced by `s` of the zeros it ends in. -/
theorem xprod_reduced {m p n s : ℕ} (hm : m < 2 ^ 64) (hn : n < 2 ^ 64) (hsm : 2 ^ s ∣ m) (hsp : 2 ^ s ∣ p) :
    archXprod64 (m / 2 ^ s) n false / (p / 2 ^ s) = m * n / (p * 2 ^ 64) := by
  rw [archXprod64_spec (lt_of_le_of_lt (Nat.div_le_self _ _) hm) hn, if_neg (by decide), Nat.zero_add,
    mul_div_shift hsm hsp]

/-- **Division by a constant.** The multiplication that replaces it gives the
quotient of every 64-bit dividend. -/
theorem div64Const32_spec {n b : ℕ} (hn : n < 2 ^ 64) (hb : 0 < b) (hb32 : b < 2 ^ 32)
    (hpow : ¬ b.isPowerOfTwo) : div64Const32 n b = n / b := by
  have h := divisor_log2 hb hb32 hpow
  obtain ⟨l, hl, hpl⟩ := h.pow
  have hlog : Nat.log2 b = l := Nat.pow_right_injective le_rfl hpl
  have hp : u32 (1 <<< Nat.log2 b) = 2 ^ l := by
    rw [Nat.one_shiftLeft, hlog, u32_of_lt (Nat.pow_lt_pow_right (by omega) (by omega))]
  rw [hpl] at h
  obtain ⟨e, he, heb, hup⟩ := h.roundUp_excess
  have htest := h.test_iff hup h.test_mod
  have hserves := fun ht => h.roundUp_serves (n := n) hup heb ht hn
  have hdown := h.roundDown_excess he heb hup
  have hm : scaledInverse (2 ^ l) b (b - 1) < 2 ^ 64 := u64_lt _
  have hx : ullMax / b * b - 1 < 2 ^ 64 := by
    have := Nat.div_mul_le_self ullMax b
    unfold ullMax at this ⊢
    omega
  simp only [div64Const32, reciprocal, hp, testProduct_spec hm hx, Nat.div_div_eq_div_mul, mul_comm (2 ^ 64),
    Nat.shiftRight_eq_div_pow]
  by_cases hodd : ullMax % (b / lowBit 32 b) = 0
  · rw [if_pos hodd]
    obtain ⟨z, o, ho, rfl⟩ := Nat.exists_eq_two_pow_mul_odd hb.ne'
    rw [lowBit_eq ho hb32, Nat.mul_div_cancel_left _ (Nat.two_pow_pos z)] at hodd ⊢
    exact xprod_odd ho hodd hn
  rw [if_neg hodd]
  by_cases ht : e * (ullMax / b * b - 1) < 2 ^ l * 2 ^ 64
  · rw [if_neg (not_not.mpr (htest.mpr ht))]
    obtain ⟨z, o, ho, hzo⟩ := Nat.exists_eq_two_pow_mul_odd (n := scaledInverse (2 ^ l) b (b - 1)) (by
      rintro h0
      rw [h0, Nat.zero_mul] at hup
      omega)
    have hz : z ≤ l := h.zeros_le rfl (hzo ▸ hm) ho he heb (hzo ▸ hup)
    have hlow : lowBit 64 (scaledInverse (2 ^ l) b (b - 1)) = 2 ^ z := by
      rw [hzo]
      exact lowBit_eq ho (hzo ▸ hm)
    have hsm : ∀ s ≤ z, 2 ^ s ∣ scaledInverse (2 ^ l) b (b - 1) := fun s hs =>
      (pow_dvd_pow 2 hs).trans ⟨o, hzo⟩
    have hsp : ∀ s ≤ z, 2 ^ s ∣ 2 ^ l := fun s hs => pow_dvd_pow 2 (hs.trans hz)
    by_cases hr : reduceBits (scaledInverse (2 ^ l) b (b - 1)) = 0
    · rw [if_pos hr, hlow]
      exact (xprod_reduced hm hn (hsm z le_rfl) (hsp z le_rfl)).trans (hserves ht)
    · rw [if_neg hr]
      have hs := (Nat.log2_lt hr).mpr (reduceBits_lt hm hlow (hz.trans hl))
      exact (xprod_reduced hm hn (hsm _ (by omega)) (hsp _ (by omega))).trans (hserves ht)
  · rw [if_pos (fun heq => ht (htest.mp heq))]
    exact (xprod_biased (u64_lt _) hn).trans (h.roundDown_serves heb hdown ht hn)

/-- **Every way of `do_div` divides**, whatever the compiler knows of the divisor. -/
theorem doDiv_spec (constant : Bool) {n base : ℕ} (hn : n < 2 ^ 64) (hb : 0 < base) (hb32 : base < 2 ^ 32) :
    doDiv constant n base = (n / base, n % base) := by
  unfold doDiv
  by_cases hpow : (constant && isPowerOf2 base) = true
  · rw [if_pos hpow]
    obtain ⟨k, rfl⟩ := isPowerOf2_iff.mp (Bool.and_eq_true _ _ ▸ hpow).2
    rw [Nat.log2_two_pow, Nat.shiftRight_eq_div_pow, Nat.and_two_pow_sub_one_eq_mod]
  rw [if_neg hpow]
  by_cases hc : (constant && decide (base ≠ 0)) = true
  · have hnot : ¬ base.isPowerOfTwo := fun h =>
      hpow (by rw [Bool.and_eq_true]; exact ⟨(Bool.and_eq_true _ _ ▸ hc).1, isPowerOf2_iff.mpr h⟩)
    have hrem : u32 (u32 (n / base) * base) = u32 (n / base * base) := Nat.mod_mul_mod _ _ _
    have hdiv : n / base * base + n % base = n := Nat.div_add_mod' n base
    have hlt : n % base < base := Nat.mod_lt n hb
    rw [if_pos hc, div64Const32_spec hn hb hb32 hnot, hrem]
    congr 1
    unfold sub32 u32
    omega
  rw [if_neg hc]
  by_cases h32 : n >>> 32 = 0
  · rw [Nat.shiftRight_eq_div_pow] at h32
    rw [if_pos (by rwa [Nat.shiftRight_eq_div_pow]), u32_of_lt (by omega)]
  · rw [if_neg h32]
    exact div64_32_spec hn hb hb32

/-- **64 bits are divided by 32 bits.** The division bit by bit, the multiplication with a
reciprocal that replaces it for a constant divisor, and `do_div`, which chooses between
them, all give the quotient, and the remainder with it. -/
theorem doDiv_divides {n base : ℕ} (hn : n < 2 ^ 64) (hb : 0 < base) (hb32 : base < 2 ^ 32) :
    div64_32 n base = (n / base, n % base) ∧
    (¬ base.isPowerOfTwo → div64Const32 n base = n / base) ∧
    ∀ constant, doDiv constant n base = (n / base, n % base) :=
  ⟨div64_32_spec hn hb hb32, div64Const32_spec hn hb hb32, fun constant => doDiv_spec constant hn hb hb32⟩

/-- The division of `put_dec`. -/
theorem doDiv_divides_groups : doDiv true (2 ^ 64 - 1) 100000 = (184467440737095, 51615) := by
  have hn : 2 ^ 64 - 1 < 2 ^ 64 := by decide
  rw [(doDiv_divides hn (by decide) (by decide)).2.2 true]
  rfl

/-! ### 64-bit divisors -/

/-- `div_u64_rem`. -/
def divU64Rem (dividend divisor : ℕ) : ℕ × ℕ := doDiv false dividend divisor

/-- `div_u64`. -/
def divU64 (dividend divisor : ℕ) : ℕ := (divU64Rem dividend (u32 divisor)).1

/-- The quotient of the leading parts, in `div64_u64` and `div64_u64_rem`. -/
def div64Estimate (dividend divisor : ℕ) : ℕ :=
  divU64 (dividend >>> (1 + fls (u32 (divisor >>> 32)))) (divisor >>> (1 + fls (u32 (divisor >>> 32))))

/-- `div64_u64_rem`: the quotient and the remainder. -/
def div64U64Rem (dividend divisor : ℕ) : ℕ × ℕ :=
  if u32 (divisor >>> 32) = 0 then divU64Rem dividend (u32 divisor)
  else
    let quot := if div64Estimate dividend divisor ≠ 0 then div64Estimate dividend divisor - 1 else 0
    let remainder := sub64 dividend (u64 (quot * divisor))
    if divisor ≤ remainder then (u64 (quot + 1), sub64 remainder divisor) else (quot, remainder)

/-- `div64_u64`. -/
def div64U64 (dividend divisor : ℕ) : ℕ :=
  if u32 (divisor >>> 32) = 0 then divU64 dividend divisor
  else
    let quot := if div64Estimate dividend divisor ≠ 0 then div64Estimate dividend divisor - 1 else 0
    if divisor ≤ sub64 dividend (u64 (quot * divisor)) then u64 (quot + 1) else quot

/-- The two functions are one algorithm. -/
theorem div64U64_eq (dividend divisor : ℕ) : div64U64 dividend divisor = (div64U64Rem dividend divisor).1 := by
  unfold div64U64 div64U64Rem
  by_cases h : u32 (divisor >>> 32) = 0
  · rw [if_pos h, if_pos h]
    rfl
  · rw [if_neg h, if_neg h]
    simp only [apply_ite Prod.fst]

/-- The estimate of the largest dividend is two too large here. -/
example : (div64U64Rem (2 ^ 64 - 1) (2 ^ 32 + 3)).1 = (2 ^ 64 - 1) / (2 ^ 32 + 3) + 2 := by decide +kernel

end Rosx
