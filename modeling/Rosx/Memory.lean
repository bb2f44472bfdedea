/-
# Filling and copying memory

`memset`, `memcpy`, `memmove` and `memcmp` of `lib/string.c`. Areas that
begin at addresses divisible by four are filled and copied in words of four bytes, the
rest byte by byte. `memcpy` goes from the front in either case, and so it repeats
what is in front of a target that begins inside the source (`memory_copies`).

The areas end in front of the last address, so that no address wraps.

Key definitions: `memset`, `memcpy`, `memmove`, `memcmp`.
Key theorems: `memset_eq`, `memcpy_eq`, `memmove_eq`, `memory_copies`.
-/
import Rosx.Bits
import Rosx.Lib.Area
import Mathlib.Tactic.IntervalCases

namespace Rosx

open Area

/-! ### Words -/

/-- The word at `a`, the least significant byte first. -/
def readWord (m : ℕ → UInt8) (a : ℕ) : ℕ :=
  (m a).toNat + (m (a + 1)).toNat * 2 ^ 8 + (m (a + 2)).toNat * 2 ^ 16 + (m (a + 3)).toNat * 2 ^ 24

/-- The word `w` is put at `a`. -/
def storeWord (m : ℕ → UInt8) (a w : ℕ) : ℕ → UInt8 := fun i =>
  if a ≤ i ∧ i < a + 4 then UInt8.ofNat (w >>> (8 * (i - a))) else m i

/-! ### `memset` -/

/-- `cl`: a word with `c` in each byte, after `n` rounds of the loop. -/
def fillWord (c : ℕ) : ℕ → ℕ
  | 0 => 0
  | n + 1 => u32 (fillWord c n <<< 8) ||| (c &&& 0xff)

/-- `while (count >= sizeof(*sl)) *sl++ = cl`: the memory, `sl` and `count`. -/
def wordFill (cl : ℕ) (m : ℕ → UInt8) (sl count : ℕ) : (ℕ → UInt8) × ℕ × ℕ :=
  if 4 ≤ count then wordFill cl (storeWord m sl cl) (sl + 4) (count - 4) else (m, sl, count)
termination_by count

/-- `while (count--) *s8++ = c`. -/
def byteFill (c : ℕ) : (ℕ → UInt8) → ℕ → ℕ → ℕ → UInt8
  | m, _, 0 => m
  | m, s8, count + 1 => byteFill c (Function.update m s8 (UInt8.ofNat c)) (s8 + 1) count

/-- `memset`. -/
def memset (m : ℕ → UInt8) (s c count : ℕ) : ℕ → UInt8 :=
  let r := if s &&& 3 = 0 then wordFill (fillWord c 4) m s count else (m, s, count)
  byteFill c r.1 r.2.1 r.2.2

/-! ### `memcpy` and `memmove` -/

/-- `while (count >= sizeof(*dl)) *dl++ = *sl++`: the memory, `dl`, `sl` and `count`. -/
def wordCopy (m : ℕ → UInt8) (dl sl count : ℕ) : (ℕ → UInt8) × ℕ × ℕ × ℕ :=
  if 4 ≤ count then wordCopy (storeWord m dl (readWord m sl)) (dl + 4) (sl + 4) (count - 4) else (m, dl, sl, count)
termination_by count

/-- `while (count--) *d8++ = *s8++`. -/
def byteCopy : (ℕ → UInt8) → ℕ → ℕ → ℕ → ℕ → UInt8
  | m, _, _, 0 => m
  | m, d8, s8, count + 1 => byteCopy (Function.update m d8 (m s8)) (d8 + 1) (s8 + 1) count

/-- `while (count--) *--tmp = *--s`. -/
def backCopy : (ℕ → UInt8) → ℕ → ℕ → ℕ → ℕ → UInt8
  | m, _, _, 0 => m
  | m, dest, src, count + 1 => backCopy (Function.update m (dest + count) (m (src + count))) dest src count

/-- `memcpy`. -/
def memcpy (m : ℕ → UInt8) (dest src count : ℕ) : ℕ → UInt8 :=
  if src = dest then m
  else
    let r := if (dest ||| src) &&& 3 = 0 then wordCopy m dest src count else (m, dest, src, count)
    byteCopy r.1 r.2.1 r.2.2.1 r.2.2.2

/-- `memmove`. -/
def memmove (m : ℕ → UInt8) (dest src count : ℕ) : ℕ → UInt8 :=
  if src = dest then m else if dest ≤ src then byteCopy m dest src count else backCopy m dest src count

/-! ### `memcmp` -/

/-- `memcmp`: the difference of the first two bytes that differ. -/
def memcmp (m : ℕ → UInt8) : ℕ → ℕ → ℕ → ℤ
  | _, _, 0 => 0
  | cs, ct, count + 1 =>
    let res : ℤ := (m cs).toNat - (m ct).toNat
    if res ≠ 0 then res else memcmp m (cs + 1) (ct + 1) count

section Words

variable {m : ℕ → UInt8} {a d s n count : ℕ}

theorem fillWord_four (c : ℕ) : fillWord c 4 = c % 256 * (1 + 2 ^ 8 + 2 ^ 16 + 2 ^ 24) := by
  have hstep : ∀ {w : ℕ}, w < 2 ^ 24 → u32 (w <<< 8) ||| (c &&& 0xff) = w * 256 + c % 256 := by
    intro w hw
    have hmask : c &&& 0xff = c % 256 := Nat.and_two_pow_sub_one_eq_mod c 8
    have hlow : c % 256 < 2 ^ 8 := Nat.mod_lt _ (by decide)
    rw [hmask, Nat.shiftLeft_eq, u32_of_lt (by omega), Nat.mul_comm w, ← Nat.two_pow_add_eq_or_of_lt hlow, Nat.mul_comm]
  have hc : c % 256 < 256 := Nat.mod_lt _ (by decide)
  have h0 : fillWord c 0 = 0 := rfl
  have h1 : fillWord c 1 = c % 256 := by rw [fillWord, h0, hstep (by decide), Nat.zero_mul, Nat.zero_add]
  have h2 : fillWord c 2 = c % 256 * 257 := by
    rw [fillWord, h1, hstep (by omega)]
    omega
  have h3 : fillWord c 3 = c % 256 * 65793 := by
    rw [fillWord, h2, hstep (by omega)]
    omega
  rw [fillWord, h3, hstep (by omega)]
  omega

/-- The bytes of a word. -/
theorem shiftRight_bytes {w b0 b1 b2 b3 i : ℕ} (hw : w = b0 + b1 * 2 ^ 8 + b2 * 2 ^ 16 + b3 * 2 ^ 24)
    (h0 : b0 < 256) (h1 : b1 < 256) (h2 : b2 < 256) (hi : i < 4) :
    w >>> (8 * i) % 256 = [b0, b1, b2, b3].getD i 0 % 256 := by
  rw [Nat.shiftRight_eq_div_pow]
  interval_cases i
  · show w / 1 % 256 = b0 % 256
    omega
  · show w / 2 ^ 8 % 256 = b1 % 256
    omega
  · show w / 2 ^ 16 % 256 = b2 % 256
    omega
  · show w / 2 ^ 24 % 256 = b3 % 256
    omega

/-- A word of four equal bytes. -/
theorem storeWord_fill (c : ℕ) : storeWord m d (fillWord c 4) = fill d 4 (UInt8.ofNat c) m := by
  funext a
  unfold storeWord fill
  by_cases h : d ≤ a ∧ a < d + 4
  · rw [if_pos h, if_pos h]
    apply UInt8.toNat_inj.mp
    have hc : c % 256 < 256 := Nat.mod_lt _ (by decide)
    have hw : fillWord c 4 = c % 256 + c % 256 * 2 ^ 8 + c % 256 * 2 ^ 16 + c % 256 * 2 ^ 24 := by
      rw [fillWord_four]
      omega
    have hi : a - d < 4 := by omega
    rw [UInt8.toNat_ofNat', UInt8.toNat_ofNat']
    refine (shiftRight_bytes hw hc hc hc hi).trans ?_
    generalize a - d = i at hi
    interval_cases i <;> exact Nat.mod_mod _ _
  · rw [if_neg h, if_neg h]

/-- A word that is read and stored. -/
theorem storeWord_copy : storeWord m d (readWord m s) = copy d s 4 m := by
  funext a
  unfold storeWord copy
  by_cases h : d ≤ a ∧ a < d + 4
  · rw [if_pos h, if_pos h]
    apply UInt8.toNat_inj.mp
    have hi : a - d < 4 := by omega
    rw [UInt8.toNat_ofNat']
    refine (shiftRight_bytes (w := readWord m s) rfl (m s).toNat_lt (m (s + 1)).toNat_lt (m (s + 2)).toNat_lt hi).trans ?_
    generalize a - d = i at hi
    interval_cases i <;> exact Nat.mod_eq_of_lt (UInt8.toNat_lt _)
  · rw [if_neg h, if_neg h]

/-! ### The loops -/

theorem byteFill_eq (c : ℕ) : ∀ {m : ℕ → UInt8} {s8 : ℕ} (count : ℕ),
    byteFill c m s8 count = fill s8 count (UInt8.ofNat c) m
  | m, s8, 0 => fill_zero.symm
  | m, s8, count + 1 => by
    rw [byteFill, byteFill_eq c count, ← fill_one, fill_front, Nat.add_comm]

/-- The words and the bytes behind them. -/
theorem wordFill_eq (c : ℕ) (m : ℕ → UInt8) (sl count : ℕ) :
    byteFill c (wordFill (fillWord c 4) m sl count).1 (wordFill (fillWord c 4) m sl count).2.1
      (wordFill (fillWord c 4) m sl count).2.2 = fill sl count (UInt8.ofNat c) m := by
  unfold wordFill
  by_cases h : 4 ≤ count
  · rw [if_pos h, wordFill_eq, storeWord_fill, fill_front, Nat.add_sub_cancel' h]
  · rw [if_neg h]
    exact byteFill_eq c count
termination_by count

/-- `memset` fills the area. -/
theorem memset_eq (m : ℕ → UInt8) (s c count : ℕ) : memset m s c count = fill s count (UInt8.ofNat c) m := by
  unfold memset
  by_cases h : s &&& 3 = 0
  · rw [if_pos h]
    exact wordFill_eq c m s count
  · rw [if_neg h]
    exact byteFill_eq c count

/-- What a copy from the front does. -/
def frontCopy (d s n : ℕ) (m : ℕ → UInt8) : ℕ → UInt8 := if s < d then repeated d s n m else copy d s n m

theorem frontCopy_front {k : ℕ} : frontCopy (d + k) (s + k) n (frontCopy d s k m) = frontCopy d s (k + n) m := by
  unfold frontCopy
  by_cases h : s < d
  · rw [if_pos h, if_pos h, if_pos (by omega), repeated_front h]
  · rw [if_neg h, if_neg h, if_neg (by omega), copy_front (Or.inl (by omega))]

theorem frontCopy_one : frontCopy d s 1 m = Function.update m d (m s) := by
  unfold frontCopy
  by_cases h : s < d
  · rw [if_pos h, repeated_eq_copy (by omega), copy_one]
  · rw [if_neg h, copy_one]

theorem byteCopy_eq : ∀ {m : ℕ → UInt8} {d8 s8 : ℕ} (count : ℕ), byteCopy m d8 s8 count = frontCopy d8 s8 count m
  | m, d8, s8, 0 => by
    unfold frontCopy
    by_cases h : s8 < d8
    · rw [if_pos h, repeated_zero, byteCopy]
    · rw [if_neg h, copy_zero, byteCopy]
  | m, d8, s8, count + 1 => by
    rw [byteCopy, byteCopy_eq count, ← frontCopy_one, frontCopy_front, Nat.add_comm]

/-- A word is copied at once: where the target begins behind the source, it is four
bytes or more. -/
theorem storeWord_front (h : d % 4 = s % 4) : storeWord m d (readWord m s) = frontCopy d s 4 m := by
  rw [storeWord_copy]
  unfold frontCopy
  by_cases hlt : s < d
  · rw [if_pos hlt, repeated_eq_copy (by omega)]
  · rw [if_neg hlt]

theorem wordCopy_eq (m : ℕ → UInt8) {dl sl count : ℕ} (h : dl % 4 = sl % 4) :
    byteCopy (wordCopy m dl sl count).1 (wordCopy m dl sl count).2.1 (wordCopy m dl sl count).2.2.1
      (wordCopy m dl sl count).2.2.2 = frontCopy dl sl count m := by
  unfold wordCopy
  by_cases h4 : 4 ≤ count
  · rw [if_pos h4, wordCopy_eq _ (by omega), storeWord_front h, frontCopy_front, Nat.add_sub_cancel' h4]
  · rw [if_neg h4]
    exact byteCopy_eq count
termination_by count

/-- Both addresses are divisible by four. -/
theorem aligned (h : (d ||| s) &&& 3 = 0) : d % 4 = s % 4 := by
  have hmask : ∀ x : ℕ, x &&& 3 = x % 4 := fun x => Nat.and_two_pow_sub_one_eq_mod x 2
  rw [Nat.and_or_distrib_right, Nat.or_eq_zero_iff, hmask, hmask] at h
  omega

/-- `memcpy` copies from the front. -/
theorem memcpy_eq (m : ℕ → UInt8) (dest src count : ℕ) : memcpy m dest src count = frontCopy dest src count m := by
  unfold memcpy
  by_cases he : src = dest
  · rw [if_pos he, he, frontCopy, if_neg (lt_irrefl _), copy_self]
  rw [if_neg he]
  by_cases h : (dest ||| src) &&& 3 = 0
  · rw [if_pos h]
    exact wordCopy_eq m (aligned h)
  · rw [if_neg h]
    exact byteCopy_eq count

theorem backCopy_eq (h : s ≤ d) : ∀ {m : ℕ → UInt8} (count : ℕ), backCopy m d s count = copy d s count m
  | m, 0 => copy_zero.symm
  | m, count + 1 => by
    rw [backCopy, backCopy_eq h count, ← copy_one, copy_back (Or.inl h)]

/-- `memmove` copies the area, however the two overlap. -/
theorem memmove_eq (m : ℕ → UInt8) (dest src count : ℕ) : memmove m dest src count = copy dest src count m := by
  unfold memmove
  by_cases he : src = dest
  · rw [if_pos he, he, copy_self]
  rw [if_neg he]
  by_cases hle : dest ≤ src
  · rw [if_pos hle, byteCopy_eq, frontCopy, if_neg (not_lt.mpr hle)]
  · rw [if_neg hle, backCopy_eq (by omega)]

end Words

/-- **Memory is filled and copied**, with words or without. `memset` fills its area and
changes nothing else; `memmove` copies the bytes as they were before, however the two
areas overlap; and so does `memcpy`, unless the target begins behind the start of the
source: then it repeats the bytes from there up to the target, which is a copy as
well if the areas do not overlap. -/
theorem memory_copies (m : ℕ → UInt8) (dest src c count : ℕ) :
    memset m dest c count = fill dest count (UInt8.ofNat c) m ∧
    memmove m dest src count = copy dest src count m ∧
    memcpy m dest src count = (if src < dest then repeated dest src count m else copy dest src count m) ∧
    (src + count ≤ dest → memcpy m dest src count = copy dest src count m) := by
  refine ⟨memset_eq m dest c count, memmove_eq m dest src count, memcpy_eq m dest src count, fun h => ?_⟩
  rw [memcpy_eq, frontCopy]
  by_cases hlt : src < dest
  · rw [if_pos hlt, repeated_eq_copy (by omega)]
  · rw [if_neg hlt]

/-! ### Comparing -/

/-- `memcmp` is 0 for equal areas, and else the difference at the first place where
they differ. -/
theorem memcmp_eq (m : ℕ → UInt8) : ∀ {cs ct : ℕ} (count : ℕ),
    (memcmp m cs ct count = 0 ∧ ∀ i < count, m (cs + i) = m (ct + i)) ∨
      ∃ i < count, (∀ j < i, m (cs + j) = m (ct + j)) ∧ m (cs + i) ≠ m (ct + i) ∧
        memcmp m cs ct count = (m (cs + i)).toNat - (m (ct + i)).toNat
  | _, _, 0 => Or.inl ⟨rfl, fun i hi => absurd hi (Nat.not_lt_zero i)⟩
  | cs, ct, count + 1 => by
    unfold memcmp
    by_cases h : ((m cs).toNat : ℤ) - (m ct).toNat ≠ 0
    · have hne : m cs ≠ m ct := fun he => h (by rw [he, sub_self])
      rw [if_pos h]
      exact Or.inr ⟨0, Nat.succ_pos count, fun j hj => absurd hj (Nat.not_lt_zero j), hne, rfl⟩
    · have he : m cs = m ct := UInt8.toNat_inj.mp (by omega)
      have hsucc : ∀ p i : ℕ, p + 1 + i = p + (i + 1) := by omega
      -- the areas agree at their first place, so that they agree as far as the rest does
      have hcons : ∀ {n : ℕ}, (∀ i < n, m (cs + 1 + i) = m (ct + 1 + i)) → ∀ i < n + 1, m (cs + i) = m (ct + i) := by
        intro n hall i hi
        cases i with
        | zero => exact he
        | succ i =>
          rw [← hsucc cs, ← hsucc ct]
          exact hall i (by omega)
      rw [if_neg h]
      rcases @memcmp_eq m (cs + 1) (ct + 1) count with ⟨h0, hall⟩ | ⟨i, hi, hall, hne, hres⟩
      · exact Or.inl ⟨h0, hcons hall⟩
      · rw [hsucc, hsucc] at hne hres
        exact Or.inr ⟨i + 1, by omega, hcons hall, hne, hres⟩

end Rosx
