/-
# UTF-16 and UTF-8

`lib/charset.c`. `utf16_to_utf8` is given a number of 16-bit units, and keeps a high
surrogate until the next unit; `utf8_to_utf16` is given a number of bytes, and
collects the continuation bytes of a character in an inner loop. Both put a `?` for
what is ill-formed.

The texts are the characters of `Char`, whose UTF-8 is `String.utf8EncodeChar`; their
UTF-16 is `utf16EncodeChar`. The conversions take the one to the other and back
(`utf16ToUtf8_encode`, `utf8ToUtf16_encode`), and on any input at all they write no
more than their callers provide for: three bytes a unit (`MAX_UTF8_PER_UTF16`), one
unit a byte.

Key definitions: `utf16ToUtf8`, `utf8ToUtf16`, `utf16EncodeChar`.
Key theorems: `utf16ToUtf8_encode`, `utf8ToUtf16_encode`, `utf16ToUtf8Loop_length_le`.
-/
import Mathlib.Data.List.Basic
import Mathlib.Data.List.Flatten
import Mathlib.Algebra.Order.Group.Nat
import Mathlib.Algebra.Group.Nat.Defs
import Mathlib.Tactic.SplitIfs

namespace Rosx

/-- `utf16_strnlen`: the units before the NUL, `count` at most. -/
def utf16Strnlen (l : List UInt16) (count : ℕ) : ℕ := ((l.takeWhile (· ≠ 0)).take count).length

/-- The lead byte of a character: the bits of `code` from `shift` on behind `mark`. -/
def leadByte (mark shift code : ℕ) : UInt8 := UInt8.ofNat ((code >>> shift) ||| mark)

/-- A continuation byte: six bits of `code`. -/
def nextByte (shift code : ℕ) : UInt8 := UInt8.ofNat (((code >>> shift) &&& 0x3F) ||| 0x80)

/-- Four bytes. -/
def utf8Four (code : ℕ) : List UInt8 :=
  [leadByte 0xF0 18 code, nextByte 12 code, nextByte 6 code, nextByte 0 code]

/-- What `utf16_to_utf8` writes for a unit that is no surrogate. -/
def utf8OfUnit (code : ℕ) : List UInt8 :=
  if code ≤ 0x7F then [UInt8.ofNat code]
  else if code ≤ 0x7FF then [leadByte 0xC0 6 code, nextByte 0 code]
  else if code < 0x10000 then [leadByte 0xE0 12 code, nextByte 6 code, nextByte 0 code]
  else utf8Four code

/-- `?`. -/
def questionMark : UInt8 := 63

/-- The loop of `utf16_to_utf8`: `size` units are still to be read, `codeHigh` is a high
surrogate or 0. The source is as long as `size` says. -/
def utf16ToUtf8Loop : ℕ → ℕ → List UInt16 → List UInt8
  | 0, _, _ => []
  | _ + 1, _, [] => []
  | size + 1, codeHigh, unit :: src =>
    let code := unit.toNat
    if codeHigh ≠ 0 then
      if 0xDC00 ≤ code ∧ code ≤ 0xDFFF then
        utf8Four ((codeHigh - 0xD800) <<< 10 + (code - 0xDC00) + 0x10000) ++ utf16ToUtf8Loop size 0 src
      else questionMark :: utf16ToUtf8Loop size 0 (unit :: src)
    else if 0xD800 ≤ code ∧ code ≤ 0xDBFF then utf16ToUtf8Loop size code src
    else if 0xDC00 ≤ code ∧ code ≤ 0xDFFF then questionMark :: utf16ToUtf8Loop size 0 src
    else utf8OfUnit code ++ utf16ToUtf8Loop size 0 src

/-- `utf16_to_utf8`. -/
def utf16ToUtf8 (src : List UInt16) : List UInt8 := utf16ToUtf8Loop src.length 0 src

/-- The continuation bytes of a character in `utf8_to_utf16`: the code, and what is
left of the size and of the source. -/
def extensionLoop : ℕ → ℕ → ℕ → List UInt8 → ℕ × ℕ × List UInt8
  | 0, size, code, src => (code, size, src)
  | _ + 1, 0, code, src => (code, 0, src)
  | _ + 1, size + 1, code, [] => (code, size + 1, [])
  | ext + 1, size + 1, code, b :: src =>
    if b.toNat &&& 0xC0 = 0x80 then extensionLoop ext size ((code <<< 6) ||| (b.toNat &&& 0x3F)) src
    else (63, size, src)

/-- The code and the number of continuation bytes that the lead byte `b` announces, and
whether it is taken from the source. -/
def leadOf (b : ℕ) : ℕ × ℕ × Bool :=
  if b ≤ 0x7F then (b, 0, true)
  else if b ≤ 0xBF then (63, 0, false)
  else if b ≤ 0xDF then (b &&& 0x1F, 1, true)
  else if b ≤ 0xEF then (b &&& 0x0F, 2, true)
  else if b ≤ 0xF7 then (b &&& 0x07, 3, true)
  else (63, 0, false)

/-- The units of a code. -/
def utf16OfCode (code : ℕ) : List UInt16 :=
  if code < 0x10000 then [UInt16.ofNat code]
  else [UInt16.ofNat (code >>> 10 + 0xD7C0), UInt16.ofNat ((code &&& 0x3FF) ||| 0xDC00)]

theorem extensionLoop_size_le : ∀ (ext size code : ℕ) (src : List UInt8),
    (extensionLoop ext size code src).2.1 ≤ size
  | 0, _, _, _ => le_rfl
  | _ + 1, 0, _, _ => le_rfl
  | _ + 1, _ + 1, _, [] => le_rfl
  | ext + 1, size + 1, code, b :: src => by
    unfold extensionLoop
    by_cases h : b.toNat &&& 0xC0 = 0x80
    · rw [if_pos h]
      exact (extensionLoop_size_le ext size _ src).trans (Nat.le_succ size)
    · rw [if_neg h]
      exact Nat.le_succ size

/-- The size after the lead byte: a NUL byte ends the conversion. -/
def sizeAfter (b : UInt8) (size : ℕ) : ℕ := if b = 0 then 0 else size

theorem sizeAfter_le (b : UInt8) (size : ℕ) : sizeAfter b size ≤ size := by
  unfold sizeAfter
  by_cases h : b = 0
  · rw [if_pos h]
    exact Nat.zero_le size
  · rw [if_neg h]

/-- The loop of `utf8_to_utf16`, with `size` bytes still to be read. -/
def utf8ToUtf16Loop : ℕ → List UInt8 → List UInt16
  | 0, _ => []
  | _ + 1, [] => []
  | size + 1, b :: src =>
    let lead := leadOf b.toNat
    let rest := extensionLoop lead.2.1 (sizeAfter b size) lead.1 (if lead.2.2 then src else b :: src)
    utf16OfCode rest.1 ++ utf8ToUtf16Loop rest.2.1 rest.2.2
termination_by size => size
decreasing_by
  exact Nat.lt_succ_of_le ((extensionLoop_size_le _ _ _ _).trans (sizeAfter_le _ _))

/-- `utf8_to_utf16`. -/
def utf8ToUtf16 (src : List UInt8) : List UInt16 := utf8ToUtf16Loop src.length src

/-- The UTF-16 of a character. -/
def utf16EncodeChar (c : Char) : List UInt16 :=
  if c.toNat < 0x10000 then [UInt16.ofNat c.toNat]
  else [UInt16.ofNat (0xD800 + (c.toNat - 0x10000) / 1024), UInt16.ofNat (0xDC00 + (c.toNat - 0x10000) % 1024)]

/-! ### From UTF-16 to UTF-8 -/

theorem leadByte_eq {mark shift code k : ℕ} (t : ℕ) (hmark : mark = 2 ^ k * t) (h : code / 2 ^ shift < 2 ^ k) :
    leadByte mark shift code = UInt8.ofNat (code / 2 ^ shift + mark) := by
  unfold leadByte
  rw [Nat.shiftRight_eq_div_pow, Nat.or_comm, hmark, ← Nat.two_pow_add_eq_or_of_lt h, Nat.add_comm]

theorem nextByte_eq (shift code : ℕ) : nextByte shift code = UInt8.ofNat (code / 2 ^ shift % 64 + 128) := by
  have hmask : (code >>> shift) &&& 0x3F = code / 2 ^ shift % 64 := by
    rw [Nat.shiftRight_eq_div_pow]
    exact Nat.and_two_pow_sub_one_eq_mod _ 6
  have hor := Nat.two_pow_add_eq_or_of_lt (show code / 2 ^ shift % 64 < 2 ^ 6 from Nat.mod_lt _ (by decide)) 2
  unfold nextByte
  rw [hmask, Nat.or_comm]
  exact congrArg UInt8.ofNat (hor.symm.trans (Nat.add_comm _ _))

theorem char_lt (c : Char) : c.toNat < 0x110000 ∧ ¬ (0xD800 ≤ c.toNat ∧ c.toNat ≤ 0xDFFF) := by
  rcases c.valid with h | ⟨h, h'⟩
  · exact ⟨lt_of_lt_of_le h (by decide), fun hs => absurd (lt_of_lt_of_le h hs.1) (lt_irrefl _)⟩
  · exact ⟨h', fun hs => absurd (lt_of_lt_of_le h hs.2) (lt_irrefl _)⟩

/-- The bytes written are the UTF-8 of the character. -/
theorem utf8OfUnit_eq (c : Char) : utf8OfUnit c.toNat = String.utf8EncodeChar c := by
  obtain ⟨hlt, -⟩ := char_lt c
  have hval : c.val.toNat = c.toNat := rfl
  unfold utf8OfUnit String.utf8EncodeChar
  simp only [hval, utf8Four]
  generalize c.toNat = v at *
  by_cases h1 : v ≤ 0x7F
  · rw [if_pos h1, if_pos h1]
  rw [if_neg h1, if_neg h1]
  by_cases h2 : v ≤ 0x7FF
  · have hlead : leadByte 0xC0 6 v = UInt8.ofNat (v / 2 ^ 6 + 0xC0) := leadByte_eq (k := 5) 6 rfl (by omega)
    have hmod : v / 64 % 32 = v / 2 ^ 6 := by omega
    rw [if_pos h2, if_pos h2, hlead, nextByte_eq, hmod, pow_zero, Nat.div_one]
  rw [if_neg h2, if_neg h2]
  by_cases h3 : v < 0x10000
  · have hlead : leadByte 0xE0 12 v = UInt8.ofNat (v / 2 ^ 12 + 0xE0) := leadByte_eq (k := 4) 14 rfl (by omega)
    have hmod : v / 4096 % 16 = v / 2 ^ 12 := by omega
    rw [if_pos h3, if_pos (by omega), hlead, nextByte_eq, nextByte_eq, hmod, pow_zero, Nat.div_one]
    rfl
  · have hlead : leadByte 0xF0 18 v = UInt8.ofNat (v / 2 ^ 18 + 0xF0) := leadByte_eq (k := 3) 30 rfl (by omega)
    have hmod : v / 262144 % 8 = v / 2 ^ 18 := by omega
    rw [if_neg h3, if_neg (by omega), hlead, nextByte_eq, nextByte_eq, nextByte_eq, hmod, pow_zero, Nat.div_one]
    rfl

/-- One character: its units are read, and its bytes written. -/
theorem utf16ToUtf8Loop_char (c : Char) (size : ℕ) (src : List UInt16) :
    utf16ToUtf8Loop ((utf16EncodeChar c).length + size) 0 (utf16EncodeChar c ++ src) =
      String.utf8EncodeChar c ++ utf16ToUtf8Loop size 0 src := by
  obtain ⟨hlt, hsur⟩ := char_lt c
  have hbytes := utf8OfUnit_eq c
  have hunit : ∀ {x : ℕ}, x < 65536 → (UInt16.ofNat x).toNat = x := fun h => Nat.mod_eq_of_lt h
  unfold utf16EncodeChar
  generalize c.toNat = v at *
  by_cases h : v < 0x10000
  · rw [if_pos h, List.length_singleton, Nat.add_comm 1, List.singleton_append, utf16ToUtf8Loop]
    simp only [hunit h, ne_eq, not_true_eq_false, if_false]
    rw [if_neg (by omega), if_neg (by omega), hbytes]
  · have hhigh := hunit (x := 0xD800 + (v - 0x10000) / 1024) (by omega)
    have hlow := hunit (x := 0xDC00 + (v - 0x10000) % 1024) (by omega)
    have hcode : (0xD800 + (v - 0x10000) / 1024 - 0xD800) <<< 10 + (0xDC00 + (v - 0x10000) % 1024 - 0xDC00) +
        0x10000 = v := by
      rw [Nat.shiftLeft_eq]
      omega
    rw [if_neg h, List.length_cons, List.length_singleton, Nat.add_comm (1 + 1), List.cons_append,
      List.singleton_append, utf16ToUtf8Loop]
    simp only [hhigh, ne_eq, not_true_eq_false, if_false]
    rw [if_pos (by omega), utf16ToUtf8Loop]
    simp only [hlow]
    rw [if_pos (by omega), if_pos (by omega), hcode, ← hbytes]
    unfold utf8OfUnit
    rw [if_neg (by omega), if_neg (by omega), if_neg h]

theorem utf16ToUtf8_append (cs : List Char) (size : ℕ) (src : List UInt16) :
    utf16ToUtf8Loop ((cs.flatMap utf16EncodeChar).length + size) 0 (cs.flatMap utf16EncodeChar ++ src) =
      cs.flatMap String.utf8EncodeChar ++ utf16ToUtf8Loop size 0 src := by
  induction cs with
  | nil => rw [List.flatMap_nil, List.flatMap_nil, List.length_nil, Nat.zero_add, List.nil_append, List.nil_append]
  | cons c cs ih =>
    rw [List.flatMap_cons, List.flatMap_cons, List.length_append, Nat.add_assoc, List.append_assoc,
      utf16ToUtf8Loop_char, ih, List.append_assoc]

/-- **From UTF-16 to UTF-8.** The units of any text are converted to its bytes. -/
theorem utf16ToUtf8_encode (cs : List Char) :
    utf16ToUtf8 (cs.flatMap utf16EncodeChar) = cs.flatMap String.utf8EncodeChar := by
  have h := utf16ToUtf8_append cs 0 []
  rw [Nat.add_zero, List.append_nil, utf16ToUtf8Loop, List.append_nil] at h
  exact h

/-- Whatever the units are, a unit makes three bytes at most; a pending surrogate is
paid for already. -/
theorem utf16ToUtf8Loop_length_le : ∀ (size codeHigh : ℕ) (src : List UInt16),
    (utf16ToUtf8Loop size codeHigh src).length ≤ 3 * size + if codeHigh = 0 then 0 else 3
  | 0, _, _ => by simp [utf16ToUtf8Loop]
  | _ + 1, _, [] => by simp [utf16ToUtf8Loop]
  | size + 1, codeHigh, unit :: src => by
    have hunit : (utf8OfUnit unit.toNat).length ≤ 3 := by
      have hlt : unit.toNat < 0x10000 := unit.toNat_lt
      unfold utf8OfUnit
      by_cases h1 : unit.toNat ≤ 0x7F
      · rw [if_pos h1]
        exact Nat.le_add_left 1 2
      rw [if_neg h1]
      by_cases h2 : unit.toNat ≤ 0x7FF
      · rw [if_pos h2]
        exact Nat.le_add_left 2 1
      · rw [if_neg h2, if_pos hlt]
        exact le_rfl
    have hrest := utf16ToUtf8Loop_length_le size 0 src
    have hback := utf16ToUtf8Loop_length_le size 0 (unit :: src)
    have hnext := utf16ToUtf8Loop_length_le size unit.toNat src
    rw [if_pos rfl] at hrest hback
    have hpend : (if unit.toNat = 0 then 0 else 3) ≤ 3 := by
      by_cases h : unit.toNat = 0
      · rw [if_pos h]; decide
      · rw [if_neg h]
    rw [utf16ToUtf8Loop]
    by_cases hh : codeHigh = 0
    · rw [if_pos hh, if_neg (not_not.mpr hh)]
      by_cases h1 : 0xD800 ≤ unit.toNat ∧ unit.toNat ≤ 0xDBFF
      · rw [if_pos h1]
        omega
      rw [if_neg h1]
      by_cases h2 : 0xDC00 ≤ unit.toNat ∧ unit.toNat ≤ 0xDFFF
      · rw [if_pos h2, List.length_cons]
        omega
      · rw [if_neg h2, List.length_append]
        omega
    · rw [if_neg hh, if_pos hh]
      by_cases h1 : 0xDC00 ≤ unit.toNat ∧ unit.toNat ≤ 0xDFFF
      · rw [if_pos h1, List.length_append]
        have hfour : ∀ code : ℕ, (utf8Four code).length = 4 := fun _ => rfl
        rw [hfour]
        omega
      · rw [if_neg h1, List.length_cons]
        omega

/-! ### And back -/

theorem toNat_ofNat {x : ℕ} (h : x < 256) : (UInt8.ofNat x).toNat = x := Nat.mod_eq_of_lt h

/-- A continuation byte adds six bits to the code. -/
theorem extensionLoop_next {y : ℕ} (hy : y < 64) (ext size code : ℕ) (src : List UInt8) :
    extensionLoop (ext + 1) (size + 1) code (UInt8.ofNat (y + 128) :: src) =
      extensionLoop ext size (code * 64 + y) src := by
  have hmark : ∀ z < 64, (z + 128) &&& 0xC0 = 0x80 := by decide
  have hbits : (y + 128) &&& 0x3F = y := by
    rw [Nat.and_two_pow_sub_one_eq_mod _ 6]
    omega
  have hcode : (code <<< 6) ||| y = code * 64 + y := by
    rw [← Nat.shiftLeft_add_eq_or_of_lt hy, Nat.shiftLeft_eq]
  rw [extensionLoop, toNat_ofNat (by omega), if_pos (hmark y hy), hbits, hcode]

theorem utf16OfCode_eq (c : Char) : utf16OfCode c.toNat = utf16EncodeChar c := by
  obtain ⟨hlt, -⟩ := char_lt c
  unfold utf16OfCode utf16EncodeChar
  generalize c.toNat = v at *
  by_cases h : v < 0x10000
  · rw [if_pos h, if_pos h]
  · have hhigh : v >>> 10 + 0xD7C0 = 0xD800 + (v - 0x10000) / 1024 := by
      rw [Nat.shiftRight_eq_div_pow]
      omega
    have hor := Nat.two_pow_add_eq_or_of_lt (show v % 1024 < 2 ^ 10 from Nat.mod_lt _ (by decide)) 55
    have hlow : (v &&& 0x3FF) ||| 0xDC00 = 0xDC00 + (v - 0x10000) % 1024 := by
      rw [Nat.and_two_pow_sub_one_eq_mod _ 10, Nat.or_comm]
      calc 0xDC00 ||| v % 1024 = 2 ^ 10 * 55 + v % 1024 := hor.symm
        _ = 0xDC00 + (v - 0x10000) % 1024 := by omega
    rw [if_neg h, if_neg h, hhigh, hlow]

/-- The lead byte of a character of several bytes: the low bits `x` behind `mark`. -/
theorem utf8ToUtf16Loop_lead {x mark ext size : ℕ} {src : List UInt8} (h0 : 0 < mark) (h : x + mark < 256)
    (hlead : leadOf (x + mark) = (x, ext, true)) :
    utf8ToUtf16Loop (size + 1) (UInt8.ofNat (x + mark) :: src) =
      utf16OfCode (extensionLoop ext size x src).1 ++
        utf8ToUtf16Loop (extensionLoop ext size x src).2.1 (extensionLoop ext size x src).2.2 := by
  have hne : UInt8.ofNat (x + mark) ≠ 0 := by
    intro h0'
    have := congrArg UInt8.toNat h0'
    rw [toNat_ofNat h] at this
    change x + mark = 0 at this
    omega
  rw [utf8ToUtf16Loop]
  simp only [toNat_ofNat h, hlead, sizeAfter, if_neg hne, if_true]

/-- The lead bytes of two, three and four bytes. -/
theorem leadOf_mark (x : ℕ) : (x < 32 → leadOf (x + 0xC0) = (x, 1, true)) ∧
    (x < 16 → leadOf (x + 0xE0) = (x, 2, true)) ∧ (x < 8 → leadOf (x + 0xF0) = (x, 3, true)) := by
  refine ⟨fun h => ?_, fun h => ?_, fun h => ?_⟩
  · have hand : (x + 0xC0) &&& 0x1F = x := by
      rw [Nat.and_two_pow_sub_one_eq_mod _ 5]
      omega
    unfold leadOf
    rw [if_neg (by omega), if_neg (by omega), if_pos (by omega), hand]
  · have hand : (x + 0xE0) &&& 0x0F = x := by
      rw [Nat.and_two_pow_sub_one_eq_mod _ 4]
      omega
    unfold leadOf
    rw [if_neg (by omega), if_neg (by omega), if_neg (by omega), if_pos (by omega), hand]
  · have hand : (x + 0xF0) &&& 0x07 = x := by
      rw [Nat.and_two_pow_sub_one_eq_mod _ 3]
      omega
    unfold leadOf
    rw [if_neg (by omega), if_neg (by omega), if_neg (by omega), if_neg (by omega), if_pos (by omega), hand]

/-- One character: its bytes are read, and its units written. -/
theorem utf8ToUtf16Loop_char {c : Char} (hc : c.toNat ≠ 0) (size : ℕ) (src : List UInt8) :
    utf8ToUtf16Loop ((String.utf8EncodeChar c).length + size) (String.utf8EncodeChar c ++ src) =
      utf16EncodeChar c ++ utf8ToUtf16Loop size src := by
  obtain ⟨hlt, -⟩ := char_lt c
  have hval : c.val.toNat = c.toNat := rfl
  rw [← utf16OfCode_eq]
  unfold String.utf8EncodeChar
  simp only [hval]
  generalize c.toNat = v at *
  by_cases h1 : v ≤ 0x7F
  · have hne : UInt8.ofNat v ≠ 0 := by
      intro h0
      have := congrArg UInt8.toNat h0
      rw [toNat_ofNat (by omega)] at this
      exact hc this
    have hlead : leadOf v = (v, 0, true) := if_pos h1
    rw [if_pos h1, List.length_singleton, Nat.add_comm 1, List.singleton_append, utf8ToUtf16Loop]
    simp only [toNat_ofNat (show v < 256 by omega), hlead, sizeAfter, if_neg hne, if_true, extensionLoop]
  rw [if_neg h1]
  by_cases h2 : v ≤ 0x7FF
  · have hx : v / 64 % 32 * 64 + v % 64 = v := by omega
    rw [if_pos h2, List.length_cons, List.length_singleton, Nat.add_comm (1 + 1), List.cons_append,
      List.singleton_append, utf8ToUtf16Loop_lead (by decide) (by omega) ((leadOf_mark _).1 (by omega)),
      extensionLoop_next (by omega), extensionLoop, hx]
  rw [if_neg h2]
  by_cases h3 : v ≤ 0xFFFF
  · have hx : (v / 4096 % 16 * 64 + v / 64 % 64) * 64 + v % 64 = v := by omega
    rw [if_pos h3, List.length_cons, List.length_cons, List.length_singleton, Nat.add_comm (1 + 1 + 1),
      List.cons_append, List.cons_append, List.singleton_append,
      utf8ToUtf16Loop_lead (by decide) (by omega) ((leadOf_mark _).2.1 (by omega)),
      extensionLoop_next (by omega), extensionLoop_next (by omega), extensionLoop, hx]
  · have hx : ((v / 262144 % 8 * 64 + v / 4096 % 64) * 64 + v / 64 % 64) * 64 + v % 64 = v := by omega
    rw [if_neg h3, List.length_cons, List.length_cons, List.length_cons, List.length_singleton,
      Nat.add_comm (1 + 1 + 1 + 1), List.cons_append, List.cons_append, List.cons_append, List.singleton_append,
      utf8ToUtf16Loop_lead (by decide) (by omega) ((leadOf_mark _).2.2 (by omega)),
      extensionLoop_next (by omega), extensionLoop_next (by omega), extensionLoop_next (by omega), extensionLoop, hx]

theorem utf8ToUtf16_append (size : ℕ) (src : List UInt8) : ∀ {cs : List Char}, (∀ c ∈ cs, c.toNat ≠ 0) →
    utf8ToUtf16Loop ((cs.flatMap String.utf8EncodeChar).length + size) (cs.flatMap String.utf8EncodeChar ++ src) =
      cs.flatMap utf16EncodeChar ++ utf8ToUtf16Loop size src
  | [], _ => by rw [List.flatMap_nil, List.flatMap_nil, List.length_nil, Nat.zero_add, List.nil_append, List.nil_append]
  | c :: cs, h => by
    have hrest := utf8ToUtf16_append size src fun d hd => h d (List.mem_cons_of_mem _ hd)
    rw [List.flatMap_cons, List.flatMap_cons, List.length_append, Nat.add_assoc, List.append_assoc,
      utf8ToUtf16Loop_char (h c List.mem_cons_self), hrest, List.append_assoc]

/-- **Round trip.** The units of any text become its bytes; the bytes of a text without
NUL become its units again, up to a NUL byte if one follows. -/
theorem charset_round_trip {cs : List Char} (h : ∀ c ∈ cs, c.toNat ≠ 0) (tail : List UInt8) :
    utf16ToUtf8 (cs.flatMap utf16EncodeChar) = cs.flatMap String.utf8EncodeChar ∧
      utf8ToUtf16 (utf16ToUtf8 (cs.flatMap utf16EncodeChar)) = cs.flatMap utf16EncodeChar ∧
      utf8ToUtf16 (cs.flatMap String.utf8EncodeChar ++ 0 :: tail) = cs.flatMap utf16EncodeChar ++ [0] := by
  have hall := utf8ToUtf16_append 0 [] h
  have hnul := utf8ToUtf16_append (tail.length + 1) (0 :: tail) h
  refine ⟨utf16ToUtf8_encode cs, ?_, ?_⟩
  · rw [Nat.add_zero, List.append_nil, utf8ToUtf16Loop, List.append_nil] at hall
    rw [utf16ToUtf8_encode]
    exact hall
  · have hend : utf8ToUtf16Loop (tail.length + 1) (0 :: tail) = [0] := by
      rw [utf8ToUtf16Loop]
      simp only [sizeAfter, if_true]
      rw [show leadOf (0 : UInt8).toNat = (0, 0, true) from rfl, extensionLoop, utf8ToUtf16Loop]
      rfl
    unfold utf8ToUtf16
    rw [List.length_append, List.length_cons, hnul, hend]

theorem charset_round_trip_euro : utf16ToUtf8 (['a', '€'].flatMap utf16EncodeChar) = [0x61, 0xE2, 0x82, 0xAC] ∧
    utf8ToUtf16 (utf16ToUtf8 (['a', '€'].flatMap utf16EncodeChar)) = ['a', '€'].flatMap utf16EncodeChar := by
  have hchars : ∀ c ∈ ['a', '€'], c.toNat ≠ 0 := by
    rw [List.forall_mem_cons, List.forall_mem_singleton]
    decide
  obtain ⟨h1, h2, -⟩ := charset_round_trip hchars []
  exact ⟨h1.trans (by decide), h2⟩

/-- The code changes only when a byte is consumed. -/
theorem extensionLoop_code : ∀ (ext size code : ℕ) (src : List UInt8),
    (extensionLoop ext size code src).1 = code ∨ (extensionLoop ext size code src).2.1 < size
  | 0, _, _, _ => Or.inl rfl
  | _ + 1, 0, _, _ => Or.inl rfl
  | _ + 1, _ + 1, _, [] => Or.inl rfl
  | ext + 1, size + 1, code, b :: src => by
    right
    unfold extensionLoop
    by_cases h : b.toNat &&& 0xC0 = 0x80
    · rw [if_pos h]
      exact Nat.lt_succ_of_le (extensionLoop_size_le ext size _ src)
    · rw [if_neg h]
      exact Nat.lt_succ_self size

theorem leadOf_code_lt (b : UInt8) : (leadOf b.toNat).1 < 0x10000 := by
  have hb := b.toNat_lt
  have hand : ∀ m : ℕ, b.toNat &&& m ≤ b.toNat := fun m => Nat.and_le_left
  have h1 := hand 0x1F
  have h2 := hand 0x0F
  have h3 := hand 0x07
  unfold leadOf
  generalize b.toNat = x at *
  split_ifs <;> simp only <;> omega

theorem utf8ToUtf16Loop_length_le (size : ℕ) (src : List UInt8) : (utf8ToUtf16Loop size src).length ≤ size := by
  match size, src with
  | 0, _ => rw [utf8ToUtf16Loop]; exact le_rfl
  | _ + 1, [] => rw [utf8ToUtf16Loop]; exact Nat.zero_le _
  | size + 1, b :: src =>
    rw [utf8ToUtf16Loop]
    simp only [List.length_append]
    generalize hx : (if (leadOf b.toNat).2.2 = true then src else b :: src) = rest
    have hle := extensionLoop_size_le (leadOf b.toNat).2.1 (sizeAfter b size) (leadOf b.toNat).1 rest
    have hcode := extensionLoop_code (leadOf b.toNat).2.1 (sizeAfter b size) (leadOf b.toNat).1 rest
    have hlead := leadOf_code_lt b
    have hsize := sizeAfter_le b size
    generalize extensionLoop (leadOf b.toNat).2.1 (sizeAfter b size) (leadOf b.toNat).1 rest = e at *
    have ih := utf8ToUtf16Loop_length_le e.2.1 e.2.2
    -- two units are written only for a character whose continuation bytes have been read
    have hunits : (utf16OfCode e.1).length + e.2.1 ≤ size + 1 := by
      unfold utf16OfCode
      by_cases h : e.1 < 0x10000
      · rw [if_pos h, List.length_singleton]
        omega
      · rw [if_neg h, List.length_cons, List.length_singleton]
        omega
    omega
termination_by size

/-- **No conversion writes too much**, well-formed input or not: `MAX_UTF8_PER_UTF16` bytes
a unit, one unit a byte. -/
theorem conversions_bounded (units : List UInt16) (bytes : List UInt8) :
    (utf16ToUtf8 units).length ≤ 3 * units.length ∧ (utf8ToUtf16 bytes).length ≤ bytes.length :=
  ⟨utf16ToUtf8Loop_length_le units.length 0 units, utf8ToUtf16Loop_length_le bytes.length bytes⟩

end Rosx
