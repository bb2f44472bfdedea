/-
# Printing a number

`put_dec_trunc`, `put_dec_full`, `put_dec` and `number` of `lib/vsprintf.c`. The
digits of a number up to 99999 are found without a division: its four hexadecimal
digits are multiplied out in decimal, and the carries are divided by ten with a
multiplication and a shift. Longer numbers are cut into groups of five digits.

What `number` writes is `numberText`: the sign, the prefix, the zeros of the
precision and the digits, filled up to the field width (`number_eq_puts`).

Characters are bytes. The build has no optimisation, so that `do_div` does not see
the constant divisor; the quotient is the same either way (`doDiv_spec`). The
field width and the precision are integers; their overflow is undefined in C.

Key definitions: `putDec`, `number`, `numberText`, `numberDigits`.
Key theorems: `putDecTrunc_eq`, `putDec_eq`, `number_eq_puts`, `numberText_length`.
-/
import Rosx.Div64
import Rosx.Lib.Writer
import Mathlib.Data.Nat.Digits.Lemmas
import Mathlib.Tactic.IntervalCases

namespace Rosx

open Writer

/-- A character constant. -/
def ch (c : Char) : UInt8 := UInt8.ofNat c.toNat

/-- `d + '0'`. -/
def decDigit (d : ℕ) : UInt8 := UInt8.ofNat (d + 48)

/-! ### Decimal digits -/

/-- `put_dec_trunc`: the digits of `q`, the least significant first. -/
def putDecTrunc (q : ℕ) : List UInt8 :=
  let d1 := (q >>> 4) &&& 0xf
  let d2 := (q >>> 8) &&& 0xf
  let d3 := q >>> 12
  let d0 := 6 * (d3 + d2 + d1) + (q &&& 0xf)
  let q := (d0 * 0xcd) >>> 11
  let d1 := q + 9 * d3 + 5 * d2 + d1
  decDigit (d0 - 10 * q) ::
    if d1 = 0 then []
    else
      let q := (d1 * 0xcd) >>> 11
      let d2 := q + 2 * d2
      decDigit (d1 - 10 * q) ::
        if d2 = 0 ∧ d3 = 0 then []
        else
          let q := (d2 * 0xd) >>> 7
          let d3 := q + 4 * d3
          decDigit (d2 - 10 * q) ::
            if d3 = 0 then []
            else
              let q := (d3 * 0xcd) >>> 11
              decDigit (d3 - 10 * q) :: if q = 0 then [] else [decDigit q]

/-- `put_dec_full`: the same without the tests, always five digits. -/
def putDecFull (q : ℕ) : List UInt8 :=
  let d1 := (q >>> 4) &&& 0xf
  let d2 := (q >>> 8) &&& 0xf
  let d3 := q >>> 12
  let d0 := 6 * (d3 + d2 + d1) + (q &&& 0xf)
  let q0 := (d0 * 0xcd) >>> 11
  let d1 := q0 + 9 * d3 + 5 * d2 + d1
  let q1 := (d1 * 0xcd) >>> 11
  let d2 := q1 + 2 * d2
  let q2 := (d2 * 0xd) >>> 7
  let d3 := q2 + 4 * d3
  let q3 := (d3 * 0xcd) >>> 11
  [decDigit (d0 - 10 * q0), decDigit (d1 - 10 * q1), decDigit (d2 - 10 * q2), decDigit (d3 - 10 * q3), decDigit q3]

/-- The loop of `put_dec`, for at most `f` groups before the last one. -/
def putDecLoop : ℕ → ℕ → List UInt8
  | 0, num => putDecTrunc num
  | f + 1, num =>
    if num < 100000 then putDecTrunc num
    else putDecFull (doDiv false num 100000).2 ++ putDecLoop f (doDiv false num 100000).1

/-- `put_dec`. A 64-bit number has three full groups at most. -/
def putDec (num : ℕ) : List UInt8 := putDecLoop 3 num

/-- A tenth of a number below 1024, and of one below 69. -/
theorem mul_cd_shift {x : ℕ} (h : x < 1024) : (x * 0xcd) >>> 11 = x / 10 := by
  rw [Nat.shiftRight_eq_div_pow]
  omega

theorem mul_d_shift {x : ℕ} (h : x < 69) : (x * 0xd) >>> 7 = x / 10 := by
  rw [Nat.shiftRight_eq_div_pow]
  omega

/-- The digits of a number that is given by them. -/
theorem dec_split {q a0 a1 a2 a3 a4 : ℕ} (hq : q = a0 + 10 * a1 + 100 * a2 + 1000 * a3 + 10000 * a4)
    (h0 : a0 < 10) (h1 : a1 < 10) (h2 : a2 < 10) (h3 : a3 < 10) :
    q % 10 = a0 ∧ q / 10 % 10 = a1 ∧ q / 100 % 10 = a2 ∧ q / 1000 % 10 = a3 ∧ q / 10000 = a4 := by
  have d1 : q / 10 = a1 + 10 * a2 + 100 * a3 + 1000 * a4 := by omega
  have d2 : q / 100 = a2 + 10 * a3 + 100 * a4 := by omega
  have d3 : q / 1000 = a3 + 10 * a4 := by omega
  rw [d1, d2, d3]
  omega

/-- The decimal sums of the hexadecimal digits `r`, `x1`, `x2`, `x3` of `q`, each with
the carry of the one before. -/
theorem dec_sums {q r x1 x2 x3 d0 d1 d2 d3 : ℕ} (hq : q = 4096 * x3 + 256 * x2 + 16 * x1 + r)
    (e0 : 6 * (x3 + x2 + x1) + r = d0) (e1 : d0 / 10 + 9 * x3 + 5 * x2 + x1 = d1) (e2 : d1 / 10 + 2 * x2 = d2)
    (e3 : d2 / 10 + 4 * x3 = d3) :
    q = d0 % 10 + 10 * (d1 % 10) + 100 * (d2 % 10) + 1000 * (d3 % 10) + 10000 * (d3 / 10) := by
  have hs0 : q = d0 + 10 * (9 * x3 + 5 * x2 + x1) + 200 * x2 + 4000 * x3 := by omega
  have hs1 : q = d0 % 10 + 10 * d1 + 200 * x2 + 4000 * x3 := by omega
  have hs2 : q = d0 % 10 + 10 * (d1 % 10) + 100 * d2 + 4000 * x3 := by omega
  have hs3 : q = d0 % 10 + 10 * (d1 % 10) + 100 * (d2 % 10) + 1000 * d3 := by omega
  omega

/-- `putDecFull` and `putDecTrunc` work on these sums. -/
theorem hex_digits (q : ℕ) : ∃ r x1 x2 x3 : ℕ, q = 4096 * x3 + 256 * x2 + 16 * x1 + r ∧ r < 16 ∧ x1 < 16 ∧
    x2 < 16 ∧ q &&& 0xf = r ∧ (q >>> 4) &&& 0xf = x1 ∧ (q >>> 8) &&& 0xf = x2 ∧ q >>> 12 = x3 := by
  have hmask : ∀ x : ℕ, x &&& 0xf = x % 16 := fun x => Nat.and_two_pow_sub_one_eq_mod x 4
  refine ⟨q % 16, q / 16 % 16, q / 16 / 16 % 16, q / 16 / 16 / 16, by omega, Nat.mod_lt _ (by decide),
    Nat.mod_lt _ (by decide), Nat.mod_lt _ (by decide), hmask q, ?_, ?_, ?_⟩
  · rw [hmask, Nat.shiftRight_eq_div_pow]
  · rw [hmask, Nat.shiftRight_eq_div_pow, Nat.div_div_eq_div_mul]
  · rw [Nat.shiftRight_eq_div_pow, Nat.div_div_eq_div_mul, Nat.div_div_eq_div_mul]

theorem putDecFull_eq {q : ℕ} (h : q < 100000) :
    putDecFull q = [q % 10, q / 10 % 10, q / 100 % 10, q / 1000 % 10, q / 10000].map decDigit := by
  obtain ⟨r, x1, x2, x3, hq, hr, h1, h2, e0, e1, e2, e3⟩ := hex_digits q
  simp only [putDecFull, e0, e1, e2, e3]
  generalize hd0 : 6 * (x3 + x2 + x1) + r = d0
  rw [mul_cd_shift (by omega)]
  generalize hd1 : d0 / 10 + 9 * x3 + 5 * x2 + x1 = d1
  rw [mul_cd_shift (by omega)]
  generalize hd2 : d1 / 10 + 2 * x2 = d2
  rw [mul_d_shift (by omega)]
  generalize hd3 : d2 / 10 + 4 * x3 = d3
  rw [mul_cd_shift (by omega)]
  have hsum := dec_sums hq hd0 hd1 hd2 hd3
  have hsub : ∀ d : ℕ, d - 10 * (d / 10) = d % 10 := by omega
  obtain ⟨a0, a1, a2, a3, a4⟩ := dec_split hsum (Nat.mod_lt _ (by decide)) (Nat.mod_lt _ (by decide))
    (Nat.mod_lt _ (by decide)) (Nat.mod_lt _ (by decide))
  rw [hsub, hsub, hsub, hsub, a0, a1, a2, a3, a4]
  rfl

/-- The decimal digits of `n`, the first one apart. -/
theorem decDigits_cons (n : ℕ) : (Nat.digits 10 n).map decDigit =
    if n = 0 then [] else decDigit (n % 10) :: (Nat.digits 10 (n / 10)).map decDigit := by
  by_cases h : n = 0
  · rw [if_pos h, h, Nat.digits_zero, List.map_nil]
  · rw [if_neg h, Nat.digits_def' (by decide) (Nat.pos_of_ne_zero h), List.map_cons]

theorem putDecTrunc_eq {q : ℕ} (h : q < 100000) : putDecTrunc q =
    decDigit (q % 10) :: (Nat.digits 10 (q / 10)).map decDigit := by
  obtain ⟨r, x1, x2, x3, hq, hr, h1, h2, e0, e1, e2, e3⟩ := hex_digits q
  simp only [putDecTrunc, e0, e1, e2, e3]
  generalize hd0 : 6 * (x3 + x2 + x1) + r = d0
  rw [mul_cd_shift (by omega)]
  generalize hd1 : d0 / 10 + 9 * x3 + 5 * x2 + x1 = d1
  rw [mul_cd_shift (by omega)]
  generalize hd2 : d1 / 10 + 2 * x2 = d2
  rw [mul_d_shift (by omega)]
  generalize hd3 : d2 / 10 + 4 * x3 = d3
  rw [mul_cd_shift (by omega)]
  have hsum := dec_sums hq hd0 hd1 hd2 hd3
  have hsub : ∀ d : ℕ, d - 10 * (d / 10) = d % 10 := by omega
  obtain ⟨a0, a1, a2, a3, a4⟩ := dec_split hsum (Nat.mod_lt _ (by decide)) (Nat.mod_lt _ (by decide))
    (Nat.mod_lt _ (by decide)) (Nat.mod_lt _ (by decide))
  -- a test of the code fails when nothing is left of `q`
  have t1 : d1 = 0 ↔ q / 10 = 0 := by omega
  have t2 : d2 = 0 ∧ x3 = 0 ↔ q / 100 = 0 := by omega
  have t3 : d3 = 0 ↔ q / 1000 = 0 := by omega
  have t4 : d3 / 10 % 10 = d3 / 10 := by omega
  have t5 : d3 / 10 / 10 = 0 := by omega
  rw [hsub, hsub, hsub, hsub, decDigits_cons (q / 10), Nat.div_div_eq_div_mul, decDigits_cons (q / (10 * 10)),
    Nat.div_div_eq_div_mul, decDigits_cons (q / (10 * 10 * 10)), Nat.div_div_eq_div_mul,
    decDigits_cons (q / (10 * 10 * 10 * 10)), a0, a1, a2, a3, a4, t4, t5]
  simp only [t1, t2, t3, Nat.digits_zero, List.map_nil]

/-- Five digits split off a number with more. -/
theorem decDigits_group {n : ℕ} (h : 100000 ≤ n) : (Nat.digits 10 n).map decDigit =
    [n % 10, n / 10 % 10, n / 100 % 10, n / 1000 % 10, n / 10000 % 10].map decDigit ++
      (Nat.digits 10 (n / 100000)).map decDigit := by
  rw [decDigits_cons, if_neg (by omega), decDigits_cons, if_neg (by omega), decDigits_cons, if_neg (by omega),
    decDigits_cons, if_neg (by omega), decDigits_cons, if_neg (by omega)]
  simp only [Nat.div_div_eq_div_mul, List.map_cons, List.map_nil, List.cons_append, List.nil_append]

theorem putDecLoop_eq : ∀ (f : ℕ) {num : ℕ}, 0 < num → num < 100000 ^ (f + 1) → num < 2 ^ 64 →
    putDecLoop f num = (Nat.digits 10 num).map decDigit
  | 0, num, h0, h, _ => by
    rw [putDecLoop, putDecTrunc_eq (by simpa using h), decDigits_cons num, if_neg h0.ne']
  | f + 1, num, h0, h, h64 => by
    unfold putDecLoop
    by_cases hlt : num < 100000
    · rw [if_pos hlt, putDecTrunc_eq hlt, decDigits_cons num, if_neg h0.ne']
    · have hnext : num / 100000 < 100000 ^ (f + 1) := by
        rw [Nat.div_lt_iff_lt_mul (by decide), ← pow_succ]
        exact h
      have hrem : num % 100000 < 100000 := Nat.mod_lt _ (by decide)
      rw [if_neg hlt, doDiv_spec false h64 (by decide) (by decide), putDecFull_eq hrem,
        putDecLoop_eq f (by omega) hnext (by omega), decDigits_group (n := num) (by omega)]
      congr 2
      have m1 : num % 100000 % 10 = num % 10 := Nat.mod_mod_of_dvd _ (by decide)
      have m2 : num % 100000 / 10 % 10 = num / 10 % 10 := by omega
      have m3 : num % 100000 / 100 % 10 = num / 100 % 10 := by omega
      have m4 : num % 100000 / 1000 % 10 = num / 1000 % 10 := by omega
      have m5 : num % 100000 / 10000 = num / 10000 % 10 := by omega
      rw [m1, m2, m3, m4, m5]

/-- **The decimal digits.** `put_dec` writes the digits of every positive 64-bit number,
the least significant first. -/
theorem putDec_eq {num : ℕ} (h0 : 0 < num) (h : num < 2 ^ 64) :
    putDec num = (Nat.digits 10 num).map decDigit :=
  putDecLoop_eq 3 h0 (h.trans (by decide)) h

/-! ### Digits in any base -/

/-- `digits` of `number`. -/
def digitTable : List UInt8 :=
  [ch '0', ch '1', ch '2', ch '3', ch '4', ch '5', ch '6', ch '7', ch '8', ch '9', ch 'A', ch 'B', ch 'C', ch 'D',
    ch 'E', ch 'F']

/-- `digits[i] | locase`. -/
def numDigit (locase : UInt8) (i : ℕ) : UInt8 := digitTable.getD i 0 ||| locase

/-- `locase`: 0x20 puts letters into lower case. -/
def locaseOf (small : Bool) : UInt8 := if small then 0x20 else 0

/-- The loop for bases 8 and 16, into `f` cells of `tmp`. -/
def baseLoop (mask shift : ℕ) (locase : UInt8) : ℕ → ℕ → List UInt8
  | 0, _ => []
  | f + 1, num =>
    numDigit locase (num % 256 &&& mask) ::
      if num >>> shift = 0 then [] else baseLoop mask shift locase f (num >>> shift)

/-- `tmp` of `number`, an array of 66: the digits, the last one first. -/
def numberDigits (num base : ℕ) (locase : UInt8) : List UInt8 :=
  if num = 0 then [ch '0']
  else if base ≠ 10 then baseLoop (base - 1) (if base = 16 then 4 else 3) locase 66 num
  else putDec num

/-- The digits that are printed; for 0 it is one. -/
def printedDigits (base num : ℕ) : List ℕ := if num = 0 then [0] else Nat.digits base num

theorem baseLoop_eq {k : ℕ} (hk : 0 < k) (hk8 : k ≤ 8) (locase : UInt8) : ∀ (f : ℕ) {num : ℕ}, 0 < num →
    num < (2 ^ k) ^ f → baseLoop (2 ^ k - 1) k locase f num = (Nat.digits (2 ^ k) num).map (numDigit locase)
  | 0, num, h0, h => by
    rw [pow_zero] at h
    omega
  | f + 1, num, h0, h => by
    have h1 : 1 < 2 ^ k := Nat.one_lt_two_pow hk.ne'
    have hdvd : 2 ^ k ∣ 256 := pow_dvd_pow 2 hk8
    have hmask : num % 256 &&& (2 ^ k - 1) = num % 2 ^ k := by
      rw [Nat.and_two_pow_sub_one_eq_mod, Nat.mod_mod_of_dvd _ hdvd]
    unfold baseLoop
    rw [hmask, Nat.shiftRight_eq_div_pow, Nat.digits_def' h1 h0, List.map_cons]
    congr 1
    by_cases hrest : num / 2 ^ k = 0
    · rw [if_pos hrest, hrest, Nat.digits_zero, List.map_nil]
    · rw [if_neg hrest]
      apply baseLoop_eq hk hk8 locase f (Nat.pos_of_ne_zero hrest)
      rw [Nat.div_lt_iff_lt_mul (by omega), ← pow_succ]
      exact h

/-- The bases `number` is called with. -/
def PrintBase (base : ℕ) : Prop := base = 8 ∨ base = 10 ∨ base = 16

theorem numDigit_of_lt {d : ℕ} (h : d < 10) (small : Bool) : numDigit (locaseOf small) d = decDigit d := by
  interval_cases d <;> cases small <;> rfl

/-- `tmp` holds the digits of the number. -/
theorem numberDigits_eq {num base : ℕ} (hb : PrintBase base) (h : num < 2 ^ 64) (small : Bool) :
    numberDigits num base (locaseOf small) = (printedDigits base num).map (numDigit (locaseOf small)) := by
  unfold numberDigits printedDigits
  by_cases h0 : num = 0
  · rw [if_pos h0, if_pos h0]
    cases small <;> rfl
  have hpos : 0 < num := Nat.pos_of_ne_zero h0
  rw [if_neg h0, if_neg h0]
  rcases hb with rfl | rfl | rfl
  · exact baseLoop_eq (k := 3) (by decide) (by decide) _ 66 hpos (h.trans (by decide))
  · rw [if_neg (by decide), putDec_eq hpos h]
    exact List.map_congr_left fun d hd => (numDigit_of_lt (Nat.digits_lt_base (by decide) hd) small).symm
  · exact baseLoop_eq (k := 4) (by decide) (by decide) _ 66 hpos (h.trans (by decide))

/-- `tmp` is large enough. -/
theorem printedDigits_length_le {num base : ℕ} (hb : PrintBase base) (h : num < 2 ^ 64) :
    (printedDigits base num).length ≤ 22 := by
  unfold printedDigits
  by_cases h0 : num = 0
  · rw [if_pos h0]
    decide
  rw [if_neg h0]
  rcases hb with rfl | rfl | rfl <;>
    exact (Nat.digits_length_le_iff (by decide) num).mpr (h.trans_le (by decide))

/-! ### The field -/

/-- The flags of a conversion: `ZEROPAD`, `SIGN`, `PLUS`, `SPACE`, `LEFT`, `SMALL`,
`SPECIAL`. -/
structure Flags where
  zeropad : Bool := false
  sign : Bool := false
  plus : Bool := false
  space : Bool := false
  left : Bool := false
  small : Bool := false
  special : Bool := false
  deriving DecidableEq, Repr

/-- The number of addresses. -/
def addressSpace : ℕ := 2 ^ 32

/-- `ADDCH`. -/
def addch (lim : ℕ) (o : Out UInt8) (c : UInt8) : Out UInt8 := put addressSpace lim o c

/-- The characters of `l`, one `ADDCH` each. -/
def addchs (lim : ℕ) (o : Out UInt8) (l : List UInt8) : Out UInt8 := puts addressSpace lim o l

/-- `while (--size >= 0) ADDCH(buf, c)`. -/
def padLoop (lim : ℕ) (c : UInt8) (size : ℤ) (o : Out UInt8) : Out UInt8 × ℤ :=
  if 0 ≤ size - 1 then padLoop lim c (size - 1) (addch lim o c) else (o, size - 1)
termination_by size.toNat

/-- `while (i <= --precision) ADDCH(buf, '0')`. -/
def zeroLoop (lim : ℕ) (i precision : ℤ) (o : Out UInt8) : Out UInt8 :=
  if i ≤ precision - 1 then zeroLoop lim i (precision - 1) (addch lim o (ch '0')) else o
termination_by (precision - i).toNat

/-- `while (--i >= 0) ADDCH(buf, tmp[i])`. -/
def digitLoop (lim : ℕ) (tmp : List UInt8) : ℕ → Out UInt8 → Out UInt8
  | 0, o => o
  | i + 1, o => digitLoop lim tmp i (addch lim o (tmp.getD i 0))

/-- The sign character of `number`, 0 for none. -/
def signOf (num : ℕ) (type : Flags) : UInt8 :=
  if type.sign then
    if 2 ^ 63 ≤ num then ch '-' else if type.plus then ch '+' else if type.space then ch ' ' else 0
  else 0

/-- The number without its sign: `-(s64) num` for a negative one. -/
def absOf (num : ℕ) (type : Flags) : ℕ := if type.sign && 2 ^ 63 ≤ num then sub64 0 num else num

/-- `number`: writes `num` in `base`, in a field of `size` characters, with at least
`precision` digits. -/
def number (lim : ℕ) (o : Out UInt8) (num base : ℕ) (size precision : ℤ) (type : Flags) : Out UInt8 :=
  let needPfx := type.special && base ≠ 10
  let locase := locaseOf type.small
  let zeropad := type.zeropad && !type.left
  let sign := signOf num type
  let size := if sign = 0 then size else size - 1
  let size := if needPfx then if base = 16 then size - 1 - 1 else size - 1 else size
  let tmp := numberDigits (absOf num type) base locase
  let precision := if precision < tmp.length then (tmp.length : ℤ) else precision
  let size := size - precision
  let os := if !(zeropad || type.left) then padLoop lim (ch ' ') size o else (o, size)
  let o := if sign = 0 then os.1 else addch lim os.1 sign
  let o := if needPfx then addch lim o (ch '0') else o
  let o := if needPfx && base = 16 then addch lim o (ch 'X' ||| locase) else o
  let os := if !type.left then padLoop lim (if zeropad then ch '0' else ch ' ') os.2 o else (o, os.2)
  let o := zeroLoop lim tmp.length precision os.1
  let o := digitLoop lim tmp tmp.length o
  (padLoop lim (ch ' ') os.2 o).1

/-! ### What is written -/

/-- The sign in front of the number. -/
def signText (num : ℕ) (type : Flags) : List UInt8 := if signOf num type = 0 then [] else [signOf num type]

/-- `0` in front of octal and `0x` in front of hexadecimal digits, for the flag `#`. -/
def prefixText (base : ℕ) (type : Flags) : List UInt8 :=
  if type.special && base ≠ 10 then
    if base = 16 then [ch '0', ch 'X' ||| locaseOf type.small] else [ch '0']
  else []

/-- The digits, the first one in front, with the zeros of the precision. -/
def digitText (num base : ℕ) (precision : ℤ) (type : Flags) : List UInt8 :=
  let digits := ((printedDigits base (absOf num type)).map (numDigit (locaseOf type.small))).reverse
  List.replicate (precision - digits.length).toNat (ch '0') ++ digits

/-- The text of a number: the field is filled up with spaces in front, with zeros
behind the sign and the prefix, or with spaces at the end. -/
def numberText (num base : ℕ) (size precision : ℤ) (type : Flags) : List UInt8 :=
  let sign := signText num type
  let pfx := prefixText base type
  let digits := digitText num base precision type
  let fill := (size - (sign.length + pfx.length + digits.length)).toNat
  if type.left then sign ++ pfx ++ digits ++ List.replicate fill (ch ' ')
  else if type.zeropad then sign ++ pfx ++ List.replicate fill (ch '0') ++ digits
  else List.replicate fill (ch ' ') ++ sign ++ pfx ++ digits

theorem addchs_nil (lim : ℕ) (o : Out UInt8) : addchs lim o [] = o := rfl

theorem addchs_append (lim : ℕ) (o : Out UInt8) (l l' : List UInt8) :
    addchs lim o (l ++ l') = addchs lim (addchs lim o l) l' := puts_append _ _ _ _ _

theorem addchs_singleton (lim : ℕ) (o : Out UInt8) (c : UInt8) : addchs lim o [c] = addch lim o c := rfl

theorem addchs_replicate_succ (lim : ℕ) (o : Out UInt8) (c : UInt8) (k : ℕ) :
    addchs lim o (List.replicate (k + 1) c) = addchs lim (addch lim o c) (List.replicate k c) := rfl

theorem padLoop_eq (lim : ℕ) (c : UInt8) (size : ℤ) (o : Out UInt8) :
    padLoop lim c size o = (addchs lim o (List.replicate size.toNat c), min size 0 - 1) := by
  unfold padLoop
  by_cases h : 0 ≤ size - 1
  · have hnat : size.toNat = (size - 1).toNat + 1 := by omega
    rw [if_pos h, padLoop_eq, hnat, addchs_replicate_succ]
    congr 1
    omega
  · have hnat : size.toNat = 0 := by omega
    rw [if_neg h, hnat, List.replicate_zero, addchs_nil]
    congr 1
    omega
termination_by size.toNat

theorem zeroLoop_eq (lim : ℕ) (i precision : ℤ) (o : Out UInt8) :
    zeroLoop lim i precision o = addchs lim o (List.replicate (precision - i).toNat (ch '0')) := by
  unfold zeroLoop
  by_cases h : i ≤ precision - 1
  · have hnat : (precision - i).toNat = (precision - 1 - i).toNat + 1 := by omega
    rw [if_pos h, zeroLoop_eq, hnat, addchs_replicate_succ]
  · have hnat : (precision - i).toNat = 0 := by omega
    rw [if_neg h, hnat, List.replicate_zero, addchs_nil]
termination_by (precision - i).toNat

theorem digitLoop_eq (lim : ℕ) (tmp : List UInt8) : ∀ (i : ℕ) (o : Out UInt8), i ≤ tmp.length →
    digitLoop lim tmp i o = addchs lim o (tmp.take i).reverse
  | 0, o, _ => by rw [digitLoop, List.take_zero, List.reverse_nil, addchs_nil]
  | i + 1, o, h => by
    have hi : i < tmp.length := h
    rw [digitLoop, digitLoop_eq lim tmp i _ hi.le, List.take_succ_eq_append_getElem hi, List.reverse_append,
      List.reverse_singleton, addchs_append, addchs_singleton, List.getD_eq_getElem _ _ hi]

theorem addch_sign (lim num : ℕ) (type : Flags) (o : Out UInt8) :
    (if signOf num type = 0 then o else addch lim o (signOf num type)) = addchs lim o (signText num type) := by
  unfold signText
  by_cases h : signOf num type = 0
  · rw [if_pos h, if_pos h, addchs_nil]
  · rw [if_neg h, if_neg h, addchs_singleton]

theorem size_sign (num : ℕ) (type : Flags) (size : ℤ) :
    (if signOf num type = 0 then size else size - 1) = size - (signText num type).length := by
  unfold signText
  by_cases h : signOf num type = 0
  · rw [if_pos h, if_pos h, List.length_nil, Nat.cast_zero, sub_zero]
  · rw [if_neg h, if_neg h, List.length_singleton, Nat.cast_one]

theorem addch_pfx (lim base : ℕ) (type : Flags) (o : Out UInt8) :
    (if (type.special && decide (base ≠ 10) && decide (base = 16)) = true then
        addch lim (if (type.special && decide (base ≠ 10)) = true then addch lim o (ch '0') else o)
          (ch 'X' ||| locaseOf type.small)
      else if (type.special && decide (base ≠ 10)) = true then addch lim o (ch '0') else o) =
      addchs lim o (prefixText base type) := by
  unfold prefixText
  generalize (type.special && decide (base ≠ 10)) = needPfx
  cases needPfx with
  | false => simp only [Bool.false_and, Bool.false_eq_true, if_false, addchs_nil]
  | true =>
    by_cases h16 : base = 16
    · simp only [h16, decide_true, Bool.and_true, if_true]
      rfl
    · simp only [h16, decide_false, Bool.and_false, Bool.false_eq_true, if_true, if_false]
      rfl

theorem size_pfx (base : ℕ) (type : Flags) (size : ℤ) :
    (if (type.special && decide (base ≠ 10)) = true then if base = 16 then size - 1 - 1 else size - 1 else size) =
      size - (prefixText base type).length := by
  unfold prefixText
  by_cases h : (type.special && decide (base ≠ 10)) = true
  · by_cases h16 : base = 16
    · rw [if_pos h, if_pos h, if_pos h16, if_pos h16]
      simp only [List.length_cons, List.length_nil]
      omega
    · rw [if_pos h, if_pos h, if_neg h16, if_neg h16, List.length_singleton, Nat.cast_one]
  · rw [if_neg h, if_neg h, List.length_nil, Nat.cast_zero, sub_zero]

theorem absOf_lt {num : ℕ} (h : num < 2 ^ 64) (type : Flags) : absOf num type < 2 ^ 64 := by
  unfold absOf
  by_cases hs : (type.sign && decide (2 ^ 63 ≤ num)) = true
  · rw [if_pos hs]
    exact u64_lt _
  · rwa [if_neg hs]

/-- **The field of a number.** `number` writes `numberText`. -/
theorem number_eq_puts {lim num base : ℕ} {size precision : ℤ} {type : Flags} {o : Out UInt8}
    (hb : PrintBase base) (h : num < 2 ^ 64) :
    number lim o num base size precision type = addchs lim o (numberText num base size precision type) := by
  have htmp := numberDigits_eq hb (absOf_lt h type) type.small
  unfold number numberText
  simp only [addch_sign, size_sign, addch_pfx, size_pfx, htmp, padLoop_eq, zeroLoop_eq, digitLoop_eq _ _ _ _ le_rfl,
    List.take_length]
  generalize hsign : signText num type = sign
  generalize hpfx : prefixText base type = pfx
  unfold digitText
  generalize (printedDigits base (absOf num type)).map (numDigit (locaseOf type.small)) = digits
  generalize hprec : (if precision < digits.length then (digits.length : ℤ) else precision) = prec
  have hlen : ((List.replicate (precision - digits.reverse.length).toNat (ch '0') ++ digits.reverse).length : ℤ) =
      prec := by
    rw [List.length_append, List.length_replicate, List.length_reverse]
    omega
  have hzeros : (prec - digits.length).toNat = (precision - digits.reverse.length).toNat := by
    rw [List.length_reverse]
    omega
  have hfill : size - sign.length - pfx.length - prec = size - (sign.length + pfx.length + prec) := by omega
  rw [hlen, hzeros, hfill]
  generalize size - (sign.length + pfx.length + prec) = fill
  -- a loop that has filled the field leaves nothing for the later ones
  have hdone : (min fill 0 - 1).toNat = 0 := by omega
  have hdone' : (min (min fill 0 - 1) 0 - 1).toNat = 0 := by omega
  cases type.left with
  | true =>
    simp only [Bool.not_true, Bool.or_true, Bool.false_eq_true, if_false, if_true, addchs_append]
  | false =>
    cases type.zeropad with
    | true =>
      simp only [Bool.not_false, Bool.not_true, Bool.and_true, Bool.true_or, Bool.false_eq_true, if_false,
        if_true, hdone, List.replicate_zero, addchs_nil, addchs_append]
    | false =>
      simp only [Bool.not_false, Bool.false_and, Bool.or_false, Bool.false_eq_true, if_false, if_true,
        hdone, hdone', List.replicate_zero, addchs_nil, addchs_append]

/-- A field is as wide as it has to be: the field width, or the sign, the prefix and
the digits if they need more. -/
theorem numberText_length (num base : ℕ) (size precision : ℤ) (type : Flags) :
    ((numberText num base size precision type).length : ℤ) =
      max size ((signText num type).length + (prefixText base type).length +
        max precision (printedDigits base (absOf num type)).length) := by
  have hdigits : ((digitText num base precision type).length : ℤ) =
      max precision (printedDigits base (absOf num type)).length := by
    unfold digitText
    simp only [List.length_append, List.length_replicate, List.length_reverse, List.length_map]
    omega
  unfold numberText
  rw [← hdigits]
  cases type.left <;> cases type.zeropad <;>
    simp only [Bool.false_eq_true, if_false, if_true, List.length_append, List.length_replicate] <;> omega

end Rosx
