/-
# Reading numbers

`lib/strto.c`, with the table of `lib/ctype.c`. A number is read digit by digit, as
long as there are digits below the base, and its value wraps; in front of hexadecimal
digits the prefix `0x` is skipped, and without a base the prefix tells it.

What `number` prints is read back (`strtoul_number`), with its zeros and its prefix, and
the sign of a signed number as well. `strict_strtoul` takes digits and a newline behind
them, and nothing else (`strictStrtoul_iff`); it takes the prefix without digits too.

A string is the list of its characters up to the NUL; behind its end a NUL is read.

Key definitions: `ctypeTable`, `simpleStrtoul`, `strictStrtoul`, `ustrtoul`,
`trailingStrtoln`, `simpleItoa`.
Key theorems: `strtoulLoop_digits`, `strtoul_number`, `strictStrtoul_iff`.
-/
import Rosx.Number
import Rosx.Vsprintf
import Mathlib.Data.List.TakeWhile
import Mathlib.Data.List.DropRight

namespace Rosx

/-! ### Characters -/

/-- The masks of `include/rosx/ctype.h`: `_U`, `_L`, `_D`, `_C`, `_P`, `_S`, `_X`, `_SP`. -/
def maskU : ℕ := 0x01
def maskL : ℕ := 0x02
def maskD : ℕ := 0x04
def maskC : ℕ := 0x08
def maskP : ℕ := 0x10
def maskS : ℕ := 0x20
def maskX : ℕ := 0x40
def maskSP : ℕ := 0x80

/-- `_ctype`. -/
def ctypeTable : List ℕ :=
  List.replicate 9 maskC ++ List.replicate 5 (maskC ||| maskS) ++ List.replicate 18 maskC ++
    [maskS ||| maskSP] ++ List.replicate 15 maskP ++ List.replicate 10 maskD ++ List.replicate 7 maskP ++
    List.replicate 6 (maskU ||| maskX) ++ List.replicate 20 maskU ++ List.replicate 6 maskP ++
    List.replicate 6 (maskL ||| maskX) ++ List.replicate 20 maskL ++ List.replicate 4 maskP ++ [maskC] ++
    List.replicate 32 0 ++ [maskS ||| maskSP] ++ List.replicate 31 maskP ++ List.replicate 23 maskU ++ [maskP] ++
    List.replicate 7 maskU ++ List.replicate 24 maskL ++ [maskP] ++ List.replicate 8 maskL

/-- `__ismask`. -/
def ismask (c : UInt8) : ℕ := ctypeTable.getD c.toNat 0

def isdigit (c : UInt8) : Bool := ismask c &&& maskD ≠ 0
def islower (c : UInt8) : Bool := ismask c &&& maskL ≠ 0
def isupper (c : UInt8) : Bool := ismask c &&& maskU ≠ 0
def isxdigit (c : UInt8) : Bool := ismask c &&& (maskD ||| maskX) ≠ 0

/-- `tolower`. -/
def tolower (c : UInt8) : UInt8 := if isupper c then c - (ch 'A' - ch 'a') else c

/-- `toupper`. -/
def toupper (c : UInt8) : UInt8 := if islower c then c - (ch 'a' - ch 'A') else c

/-! ### Numbers -/

/-- The value of a hexadecimal digit, in the condition of the loops. -/
def digitValue (c : UInt8) : ℕ :=
  if isdigit c then c.toNat - 48 else (if islower c then toupper c else c).toNat - 65 + 10

/-- `_parse_integer_fixup_radix`: the rest of the string, and the base. -/
def parseIntegerFixupRadix (s : List UInt8) (base : ℕ) : List UInt8 × ℕ :=
  let base :=
    if base = 0 then
      if s.headD 0 = ch '0' then
        if tolower (s.getD 1 0) = ch 'x' ∧ isxdigit (s.getD 2 0) then 16 else 8
      else 10
    else base
  if base = 16 ∧ s.headD 0 = ch '0' ∧ tolower (s.getD 1 0) = ch 'x' then (s.drop 2, base) else (s, base)

/-- The loop of `simple_strtoul`, for a result of `w` bits: the value, and the rest of the
string. -/
def strtoulLoop (w base : ℕ) : ℕ → List UInt8 → ℕ × List UInt8
  | result, [] => (result, [])
  | result, c :: cp =>
    if isxdigit c ∧ digitValue c < base then strtoulLoop w base ((result * base + digitValue c) % 2 ^ w) cp
    else (result, c :: cp)

/-- `simple_strtoul`: the result, and `*endp`. -/
def simpleStrtoul (cp : List UInt8) (base : ℕ) : ℕ × List UInt8 :=
  let r := parseIntegerFixupRadix cp base
  strtoulLoop 32 r.2 0 r.1

/-- `simple_strtoull`. -/
def simpleStrtoull (cp : List UInt8) (base : ℕ) : ℕ × List UInt8 :=
  let r := parseIntegerFixupRadix cp base
  strtoulLoop 64 r.2 0 r.1

/-- `simple_strtol`, as the word of the `long`. -/
def simpleStrtol (cp : List UInt8) (base : ℕ) : ℕ × List UInt8 :=
  if cp.headD 0 = ch '-' then
    let r := simpleStrtoul cp.tail base
    (sub32 0 r.1, r.2)
  else simpleStrtoul cp base

/-- `strict_strtoul`, where `none` is `-EINVAL`. -/
def strictStrtoul (cp : List UInt8) (base : ℕ) : Option ℕ :=
  if cp.length = 0 then none
  else
    let r := simpleStrtoul cp base
    let tail := r.2
    if tail.length = cp.length then none
    else if tail.headD 0 = 0 ∨ cp.length = cp.length - tail.length + 1 ∧ tail.headD 0 = ch '\n' then some r.1
    else none

/-- The suffix behind a number, for `ustrtoul` and `ustrtoull`: how often the result is
multiplied by 1024, and the rest of the string. -/
def sizeSuffix (endp : List UInt8) : ℕ × List UInt8 :=
  let k := if endp.headD 0 = ch 'G' then 3 else if endp.headD 0 = ch 'M' then 2
    else if endp.headD 0 = ch 'K' ∨ endp.headD 0 = ch 'k' then 1 else 0
  if k ≠ 0 ∧ endp.getD 1 0 = ch 'i' then (k, if endp.getD 2 0 = ch 'B' then endp.drop 3 else endp.drop 2)
  else (k, endp)

/-- `ustrtoul`. -/
def ustrtoul (cp : List UInt8) (base : ℕ) : ℕ × List UInt8 :=
  let r := simpleStrtoul cp base
  (r.1 * 1024 ^ (sizeSuffix r.2).1 % 2 ^ 32, (sizeSuffix r.2).2)

/-- `ustrtoull`. -/
def ustrtoull (cp : List UInt8) (base : ℕ) : ℕ × List UInt8 :=
  let r := simpleStrtoull cp base
  (r.1 * 1024 ^ (sizeSuffix r.2).1 % 2 ^ 64, (sizeSuffix r.2).2)

/-- `simple_itoa`: the digits are put in front of the NUL one by one. -/
def simpleItoa (i : ℕ) (p : List UInt8) : List UInt8 :=
  if i / 10 = 0 then decDigit (i % 10) :: p else simpleItoa (i / 10) (decDigit (i % 10) :: p)
termination_by i
decreasing_by omega

/-- `str2long`. -/
def str2long (p : List UInt8) : Bool × ℕ :=
  let r := simpleStrtoul p 16
  (p.headD 0 ≠ 0 && r.2.headD 0 = 0, r.1)

/-! ### The loop -/

/-- A digit of a number in `base`. -/
def isDigitOf (base : ℕ) (c : UInt8) : Bool := isxdigit c && decide (digitValue c < base)

/-- The number that digits denote. -/
def strValue (base : ℕ) (ds : List UInt8) : ℕ := ds.foldl (fun n c => n * base + digitValue c) 0

theorem strtoulLoop_foldl (w base : ℕ) : ∀ (result : ℕ) (cp : List UInt8),
    strtoulLoop w base (result % 2 ^ w) cp =
      ((cp.takeWhile (isDigitOf base)).foldl (fun n c => n * base + digitValue c) result % 2 ^ w,
        cp.dropWhile (isDigitOf base))
  | result, [] => rfl
  | result, c :: cp => by
    have hcond : (isxdigit c = true ∧ digitValue c < base) ↔ isDigitOf base c = true := by
      unfold isDigitOf
      rw [Bool.and_eq_true, decide_eq_true_eq]
    unfold strtoulLoop
    by_cases h : isDigitOf base c = true
    · have hmod : (result % 2 ^ w * base + digitValue c) % 2 ^ w = (result * base + digitValue c) % 2 ^ w := by
        rw [Nat.add_mod, Nat.mod_mul_mod, ← Nat.add_mod]
      rw [if_pos (hcond.mpr h), hmod, strtoulLoop_foldl, List.takeWhile_cons_of_pos h, List.dropWhile_cons_of_pos h,
        List.foldl_cons]
    · rw [if_neg (mt hcond.mp h), List.takeWhile_cons_of_neg h, List.dropWhile_cons_of_neg h, List.foldl_nil]

/-- **The loop reads the digits in front**, and its result wraps. -/
theorem strtoulLoop_eq (w base : ℕ) (cp : List UInt8) : strtoulLoop w base 0 cp =
    (strValue base (cp.takeWhile (isDigitOf base)) % 2 ^ w, cp.dropWhile (isDigitOf base)) := by
  have h := strtoulLoop_foldl w base 0 cp
  rwa [Nat.zero_mod] at h

/-- Digits and what does not go on with one. -/
theorem strtoulLoop_digits (w : ℕ) {base : ℕ} {ds rest : List UInt8} (hds : ∀ c ∈ ds, isDigitOf base c = true)
    (hrest : isDigitOf base (rest.headD 0) = false) :
    strtoulLoop w base 0 (ds ++ rest) = (strValue base ds % 2 ^ w, rest) := by
  have hstop : rest.takeWhile (isDigitOf base) = [] ∧ rest.dropWhile (isDigitOf base) = rest := by
    cases rest with
    | nil => exact ⟨rfl, rfl⟩
    | cons c rest =>
      have hc : ¬ isDigitOf base c = true := by
        rw [List.headD_cons] at hrest
        rw [hrest]
        exact Bool.false_ne_true
      exact ⟨List.takeWhile_cons_of_neg hc, List.dropWhile_cons_of_neg hc⟩
  rw [strtoulLoop_eq, List.takeWhile_append_of_pos hds, List.dropWhile_append_of_pos hds, hstop.1, hstop.2,
    List.append_nil]

/-! ### Digits -/

/-- What holds of all bytes, tried one by one. -/
theorem forall_byte {p : UInt8 → Prop} (h : ∀ n < 256, p (UInt8.ofNat n)) (c : UInt8) : p c := by
  have hc := h c.toNat c.toNat_lt
  rwa [UInt8.ofNat_toNat] at hc

/-- What is printed as a digit is one, and has its value. -/
theorem numDigit_value {d : ℕ} (hd : d < 16) (small : Bool) :
    isxdigit (numDigit (locaseOf small) d) = true ∧ digitValue (numDigit (locaseOf small) d) = d ∧
      tolower (numDigit (locaseOf small) d) ≠ ch 'x' := by
  cases small <;> interval_cases d <;> decide

theorem isDigitOf_numDigit {base d : ℕ} (hb : base ≤ 16) (hd : d < base) (small : Bool) :
    isDigitOf base (numDigit (locaseOf small) d) = true := by
  obtain ⟨hx, hv, -⟩ := numDigit_value (hd.trans_le hb) small
  unfold isDigitOf
  rw [hx, hv, Bool.true_and]
  exact decide_eq_true hd

theorem strValue_append (base : ℕ) (ds : List UInt8) (c : UInt8) :
    strValue base (ds ++ [c]) = strValue base ds * base + digitValue c := by
  unfold strValue
  rw [List.foldl_append]
  rfl

/-- The digits of a number denote it, whatever the zeros in front. -/
theorem strValue_digits {base : ℕ} (hb : base ≤ 16) (small : Bool) (k : ℕ) : ∀ {ds : List ℕ}, (∀ d ∈ ds, d < base) →
    strValue base (List.replicate k (ch '0') ++ (ds.map (numDigit (locaseOf small))).reverse) = Nat.ofDigits base ds
  | [], _ => by
    have h0 : digitValue (ch '0') = 0 := by decide
    rw [List.map_nil, List.reverse_nil, List.append_nil, Nat.ofDigits_nil]
    induction k with
    | zero => rfl
    | succ k ih => rw [List.replicate_succ', strValue_append, ih, h0, Nat.zero_mul]
  | d :: ds, h => by
    have hd := h d List.mem_cons_self
    obtain ⟨-, hv, -⟩ := numDigit_value (hd.trans_le hb) small
    rw [List.map_cons, List.reverse_cons, ← List.append_assoc, strValue_append, hv,
      strValue_digits hb small k fun x hx => h x (List.mem_cons_of_mem d hx), Nat.ofDigits_cons, Nat.mul_comm,
      Nat.add_comm]

theorem printedDigits_lt {base num d : ℕ} (hb : 1 < base) (h : d ∈ printedDigits base num) : d < base := by
  unfold printedDigits at h
  by_cases h0 : num = 0
  · rw [if_pos h0] at h
    rw [List.mem_singleton.mp h]
    omega
  · rw [if_neg h0] at h
    exact Nat.digits_lt_base hb h

theorem ofDigits_printedDigits (base num : ℕ) : Nat.ofDigits base (printedDigits base num) = num := by
  unfold printedDigits
  by_cases h0 : num = 0
  · rw [if_pos h0, h0]
    rfl
  · rw [if_neg h0, Nat.ofDigits_digits]

/-! ### The prefix -/

theorem fixup_plain {s : List UInt8} {base : ℕ} (h0 : base ≠ 0)
    (h : base = 16 → ¬ (s.headD 0 = ch '0' ∧ tolower (s.getD 1 0) = ch 'x')) :
    parseIntegerFixupRadix s base = (s, base) := by
  unfold parseIntegerFixupRadix
  simp only [if_neg h0]
  exact if_neg fun hx => h hx.1 hx.2

theorem fixup_hex {c : UInt8} {s : List UInt8} {base : ℕ} (hx : tolower c = ch 'x')
    (h : base = 16 ∨ base = 0 ∧ isxdigit (s.headD 0) = true) :
    parseIntegerFixupRadix (ch '0' :: c :: s) base = (s, 16) := by
  have hsecond : (ch '0' :: c :: s).getD 1 0 = c := rfl
  have hthird : (ch '0' :: c :: s).getD 2 0 = s.headD 0 := by cases s <;> rfl
  unfold parseIntegerFixupRadix
  rw [hsecond, hthird, List.headD_cons]
  rcases h with rfl | ⟨rfl, hd⟩
  · simp only [if_neg (by decide : ¬ (16 : ℕ) = 0), hx, and_self, if_true]
    rfl
  · simp only [if_true, hx, hd, and_self]
    rfl

theorem fixup_octal {s : List UInt8} (hx : tolower (s.getD 0 0) ≠ ch 'x') :
    parseIntegerFixupRadix (ch '0' :: s) 0 = (ch '0' :: s, 8) := by
  have hsecond : (ch '0' :: s).getD 1 0 = s.getD 0 0 := rfl
  unfold parseIntegerFixupRadix
  rw [hsecond, List.headD_cons]
  simp only [if_true, hx, false_and, if_false]
  exact if_neg fun h => absurd h.1 (by decide)

theorem fixup_decimal {s : List UInt8} (h : s.headD 0 ≠ ch '0') : parseIntegerFixupRadix s 0 = (s, 10) := by
  unfold parseIntegerFixupRadix
  simp only [if_true, if_neg h]
  exact if_neg fun h => absurd h.1 (by decide)

/-- What both functions return, for a result of `w` bits. -/
def strtoulOf (w : ℕ) (cp : List UInt8) (base : ℕ) : ℕ × List UInt8 :=
  strtoulLoop w (parseIntegerFixupRadix cp base).2 0 (parseIntegerFixupRadix cp base).1

/-! ### What is printed is read back -/

/-- What stands behind a number does not go on with it. -/
def EndsNumber (t : List UInt8) : Prop := isxdigit (t.headD 0) = false ∧ tolower (t.headD 0) ≠ ch 'x'

theorem EndsNumber.not_digit {t : List UInt8} (h : EndsNumber t) (base : ℕ) : isDigitOf base (t.headD 0) = false := by
  unfold isDigitOf
  rw [h.1, Bool.false_and]

/-- The field filled with spaces ends a number as well. -/
theorem EndsNumber.spaces {rest : List UInt8} (h : EndsNumber rest) : ∀ j : ℕ,
    EndsNumber (List.replicate j (ch ' ') ++ rest)
  | 0 => h
  | _ + 1 => ⟨(by decide : isxdigit (ch ' ') = false), (by decide : tolower (ch ' ') ≠ ch 'x')⟩

/-- The digits of a number as `number` puts them, with `k` zeros in front. -/
def zerosDigits (k base num : ℕ) (small : Bool) : List UInt8 :=
  List.replicate k (ch '0') ++ ((printedDigits base num).map (numDigit (locaseOf small))).reverse

section Printed

variable {k base num : ℕ} {small : Bool} {t : List UInt8}

/-- Every character of the digits is a digit. -/
theorem mem_zerosDigits (hb : 1 < base) (hb16 : base ≤ 16) {c : UInt8} (hc : c ∈ zerosDigits k base num small) :
    isDigitOf base c = true ∧ tolower c ≠ ch 'x' := by
  rcases List.mem_append.mp hc with h | h
  · rw [List.eq_of_mem_replicate h]
    have h0 : isxdigit (ch '0') = true ∧ digitValue (ch '0') = 0 := by decide
    refine ⟨?_, by decide⟩
    unfold isDigitOf
    rw [h0.1, h0.2, Bool.true_and]
    exact decide_eq_true (by omega)
  · obtain ⟨d, hd, rfl⟩ := List.mem_map.mp (List.mem_reverse.mp h)
    have hlt := printedDigits_lt hb hd
    exact ⟨isDigitOf_numDigit hb16 hlt small, (numDigit_value (hlt.trans_le hb16) small).2.2⟩

theorem zerosDigits_ne_nil : zerosDigits k base num small ≠ [] := by
  have hdigits : printedDigits base num ≠ [] := by
    unfold printedDigits
    by_cases h0 : num = 0
    · rw [if_pos h0]
      exact List.cons_ne_nil _ _
    · rw [if_neg h0]
      exact Nat.digits_ne_nil_iff_ne_zero.mpr h0
  intro h
  obtain ⟨-, h⟩ := List.append_eq_nil_iff.mp h
  exact hdigits (List.map_eq_nil_iff.mp (List.reverse_eq_nil_iff.mp h))

/-- The loop reads the number. -/
theorem strtoulLoop_number (w : ℕ) (hb : 1 < base) (hb16 : base ≤ 16) (ht : EndsNumber t) :
    strtoulLoop w base 0 (zerosDigits k base num small ++ t) = (num % 2 ^ w, t) := by
  rw [strtoulLoop_digits w (fun c hc => (mem_zerosDigits hb hb16 hc).1) (ht.not_digit base)]
  unfold zerosDigits
  rw [strValue_digits hb16 small k fun d hd => printedDigits_lt hb hd, ofDigits_printedDigits]

/-- No `x` stands behind the first digit. -/
theorem second_ne_x (hb : 1 < base) (hb16 : base ≤ 16) (ht : EndsNumber t) :
    tolower ((zerosDigits k base num small ++ t).getD 0 0) ≠ ch 'x' ∧
      tolower ((zerosDigits k base num small ++ t).getD 1 0) ≠ ch 'x' := by
  have hmem : ∀ c ∈ zerosDigits k base num small, tolower c ≠ ch 'x' := fun c hc => (mem_zerosDigits hb hb16 hc).2
  obtain ⟨c, l, hl⟩ := List.exists_cons_of_ne_nil (@zerosDigits_ne_nil k base num small)
  rw [hl] at hmem ⊢
  refine ⟨hmem c List.mem_cons_self, ?_⟩
  cases l with
  | nil =>
    have hsecond : ([c] ++ t).getD 1 0 = t.headD 0 := by cases t <;> rfl
    rw [hsecond]
    exact ht.2
  | cons c' l => exact hmem c' (List.mem_cons_of_mem _ List.mem_cons_self)

/-- The first character is a digit. -/
theorem first_isxdigit (hb : 1 < base) (hb16 : base ≤ 16) :
    isxdigit ((zerosDigits k base num small ++ t).headD 0) = true := by
  obtain ⟨c, l, hl⟩ := List.exists_cons_of_ne_nil (@zerosDigits_ne_nil k base num small)
  have hc := (mem_zerosDigits (c := c) hb hb16 (hl ▸ List.mem_cons_self)).1
  rw [hl, List.cons_append, List.headD_cons]
  unfold isDigitOf at hc
  exact (Bool.and_eq_true _ _ ▸ hc).1

/-- A number in decimal begins with 0 only if it is 0. -/
theorem decimal_head (h0 : num ≠ 0) : (zerosDigits 0 10 num small ++ t).headD 0 ≠ ch '0' := by
  have hne : Nat.digits 10 num ≠ [] := Nat.digits_ne_nil_iff_ne_zero.mpr h0
  have hlast := Nat.getLast_digit_ne_zero 10 h0
  have hlt : (Nat.digits 10 num).getLast hne < 10 := Nat.digits_lt_base (by decide) (List.getLast_mem hne)
  unfold zerosDigits printedDigits
  rw [if_neg h0, List.replicate_zero, List.nil_append, ← List.dropLast_append_getLast hne, List.map_append,
    List.reverse_append, List.map_singleton, List.reverse_singleton, List.append_assoc, List.cons_append,
    List.headD_cons]
  generalize (Nat.digits 10 num).getLast hne = d at *
  cases small <;> interval_cases d <;> first | exact absurd rfl hlast | decide

/-- With its base a number is read back without a prefix and behind `0x`. -/
theorem strtoulOf_base (w : ℕ) (hb : PrintBase base) (ht : EndsNumber t) :
    strtoulOf w (zerosDigits k base num small ++ t) base = (num % 2 ^ w, t) := by
  have h1 : 1 < base := by rcases hb with rfl | rfl | rfl <;> decide
  have h16 : base ≤ 16 := by rcases hb with rfl | rfl | rfl <;> decide
  unfold strtoulOf
  rw [fixup_plain (by omega) fun _ h => (second_ne_x h1 h16 ht).2 h.2]
  exact strtoulLoop_number w h1 h16 ht

theorem strtoulOf_hex (w : ℕ) {r : ℕ} {c : UInt8} (hr : r = 16 ∨ r = 0) (hx : tolower c = ch 'x') (ht : EndsNumber t) :
    strtoulOf w (ch '0' :: c :: (zerosDigits k 16 num small ++ t)) r = (num % 2 ^ w, t) := by
  have hfix := @fixup_hex c (zerosDigits k 16 num small ++ t) r hx
    (hr.imp_right fun h => ⟨h, first_isxdigit (by decide) le_rfl⟩)
  unfold strtoulOf
  rw [hfix]
  exact strtoulLoop_number w (by decide : 1 < 16) le_rfl ht

theorem zerosDigits_succ : ch '0' :: (zerosDigits k base num small ++ t) = zerosDigits (k + 1) base num small ++ t := rfl

/-- Behind a `0` a number is octal. -/
theorem strtoulOf_octal (w : ℕ) (ht : EndsNumber t) :
    strtoulOf w (ch '0' :: (zerosDigits k 8 num small ++ t)) 0 = (num % 2 ^ w, t) := by
  unfold strtoulOf
  rw [fixup_octal (second_ne_x (by decide) (by decide) ht).1, zerosDigits_succ]
  exact strtoulLoop_number w (by decide : 1 < 8) (by decide : 8 ≤ 16) ht

/-- Without zeros in front a number is decimal, and 0 is 0 in octal as well. -/
theorem strtoulOf_decimal (w : ℕ) (ht : EndsNumber t) :
    strtoulOf w (zerosDigits 0 10 num small ++ t) 0 = (num % 2 ^ w, t) := by
  by_cases h0 : num = 0
  · have hzero : zerosDigits 0 10 num small = zerosDigits 0 8 num small := by
      unfold zerosDigits printedDigits
      rw [if_pos h0, if_pos h0]
    have hnil : zerosDigits 0 8 num small = [ch '0'] := by
      unfold zerosDigits printedDigits
      rw [if_pos h0]
      cases small <;> rfl
    have hx : tolower (t.getD 0 0) ≠ ch 'x' := by
      have hhead : t.getD 0 0 = t.headD 0 := by cases t <;> rfl
      rw [hhead]
      exact ht.2
    unfold strtoulOf
    rw [hzero, hnil, List.singleton_append, fixup_octal hx, ← List.singleton_append, ← hnil]
    exact strtoulLoop_number w (by decide : 1 < 8) (by decide : 8 ≤ 16) ht
  · unfold strtoulOf
    rw [fixup_decimal (decimal_head h0)]
    exact strtoulLoop_number w (by decide : 1 < 10) (by decide : 10 ≤ 16) ht

end Printed

/-- The text of a number that is not filled up with spaces in front. -/
theorem numberText_parts (num base : ℕ) {size precision : ℤ} {type : Flags}
    (hfield : type.left = true ∨ type.zeropad = true ∨ size ≤ 0) : ∃ k j,
      numberText num base size precision type = signText num type ++ prefixText base type ++
        zerosDigits k base (absOf num type) type.small ++ List.replicate j (ch ' ') ∧
      (precision ≤ 1 → type.left = true ∨ size ≤ 0 → k = 0) := by
  have hdigits : ∃ k0, digitText num base precision type = zerosDigits k0 base (absOf num type) type.small ∧
      (precision ≤ 1 → k0 = 0) := by
    refine ⟨_, rfl, fun hp => ?_⟩
    have hne : ((printedDigits base (absOf num type)).map (numDigit (locaseOf type.small))).reverse ≠ [] :=
      @zerosDigits_ne_nil 0 base (absOf num type) type.small
    have hpos := List.length_pos_iff.mpr hne
    omega
  obtain ⟨k0, hk0, hzero⟩ := hdigits
  have hfill : ∀ m k : ℕ, List.replicate m (ch '0') ++ zerosDigits k base (absOf num type) type.small =
      zerosDigits (m + k) base (absOf num type) type.small := by
    intro m k
    unfold zerosDigits
    rw [← List.append_assoc, List.replicate_append_replicate]
  have hnone : size ≤ 0 → (size - (((signText num type).length : ℤ) + ((prefixText base type).length : ℤ) +
      ((zerosDigits k0 base (absOf num type) type.small).length : ℤ))).toNat = 0 := by omega
  unfold numberText
  simp only [hk0]
  generalize (size - (((signText num type).length : ℤ) + ((prefixText base type).length : ℤ) +
    ((zerosDigits k0 base (absOf num type) type.small).length : ℤ))).toNat = fill at *
  by_cases hleft : type.left = true
  · rw [if_pos hleft]
    exact ⟨k0, fill, rfl, fun hp _ => hzero hp⟩
  rw [if_neg hleft]
  by_cases hz : type.zeropad = true
  · rw [if_pos hz, List.append_assoc _ _ (zerosDigits _ _ _ _), hfill]
    refine ⟨fill + k0, 0, (List.append_nil _).symm, fun hp hsize => ?_⟩
    rw [hnone (hsize.resolve_left hleft), hzero hp]
  · rw [if_neg hz, hnone ((hfield.resolve_left hleft).resolve_left hz)]
    exact ⟨k0, 0, (List.append_nil _).symm, fun hp _ => hzero hp⟩

/-- A number without a sign. -/
theorem unsigned_text {num : ℕ} {type : Flags} (h : type.sign = false) :
    signText num type = [] ∧ absOf num type = num := by
  unfold signText absOf signOf
  rw [h]
  exact ⟨rfl, rfl⟩

/-- The number is read in its base, and without a base if its prefix tells it. -/
theorem strtoulOf_number {num base r : ℕ} {size precision : ℤ} {type : Flags} {rest : List UInt8}
    (hb : PrintBase base) (hsign : type.sign = false)
    (hfield : type.left = true ∨ type.zeropad = true ∨ size ≤ 0) (hrest : EndsNumber rest)
    (hr : r = base ∨ r = 0 ∧ (base ≠ 10 ∧ type.special = true ∨
      base = 10 ∧ precision ≤ 1 ∧ (type.left = true ∨ size ≤ 0))) :
    ∃ j, ∀ w, strtoulOf w (numberText num base size precision type ++ rest) r =
      (num % 2 ^ w, List.replicate j (ch ' ') ++ rest) := by
  obtain ⟨k, j, htext, hk⟩ := numberText_parts num base hfield
  obtain ⟨hs, ha⟩ := unsigned_text hsign
  rw [hs, ha, List.nil_append] at htext
  have ht := hrest.spaces j
  refine ⟨j, fun w => ?_⟩
  rw [htext, List.append_assoc, List.append_assoc]
  generalize List.replicate j (ch ' ') ++ rest = t at *
  have hplain : prefixText base type = [] →
    strtoulOf w (prefixText base type ++ (zerosDigits k base num type.small ++ t)) r =
      (num % 2 ^ w, t) := by
    intro hpfx
    rw [hpfx, List.nil_append]
    rcases hr with rfl | ⟨rfl, ⟨hne, hsp⟩ | ⟨rfl, hp, hsize⟩⟩
    · exact strtoulOf_base w hb ht
    · -- with the flag `#` there is a prefix
      unfold prefixText at hpfx
      rw [if_pos (by rw [hsp, Bool.true_and]; exact decide_eq_true hne)] at hpfx
      by_cases h16 : base = 16
      · rw [if_pos h16] at hpfx
        cases hpfx
      · rw [if_neg h16] at hpfx
        cases hpfx
    · rw [hk hp hsize]
      exact strtoulOf_decimal w ht
  by_cases hsp : (type.special && decide (base ≠ 10)) = true
  · rcases hb with rfl | rfl | rfl
    · have hpfx : prefixText 8 type = [ch '0'] := by
        unfold prefixText
        rw [if_pos hsp, if_neg (by decide)]
      rw [hpfx, List.singleton_append]
      rcases hr with rfl | ⟨rfl, -⟩
      · rw [zerosDigits_succ]
        exact strtoulOf_base w (Or.inl rfl) ht
      · exact strtoulOf_octal w ht
    · rw [Bool.and_eq_true] at hsp
      exact absurd hsp.2 (by decide)
    · have hpfx : prefixText 16 type = [ch '0', ch 'X' ||| locaseOf type.small] := by
        unfold prefixText
        rw [if_pos hsp, if_pos rfl]
      have hx : tolower (ch 'X' ||| locaseOf type.small) = ch 'x' := by cases type.small <;> decide
      rw [hpfx]
      exact strtoulOf_hex w (hr.imp_right fun h => h.1) hx ht
  · exact hplain (if_neg hsp)

/-- **What is printed is read back.** A number that `number` has printed without a sign, in
any base, with zeros or with spaces behind it, is read by `simple_strtoull` in that base;
it is read without a base if the flag `#` has given it its prefix, or if it is decimal and
has no zeros in front. `simple_strtoul` reads its last 32 bits. Both end behind the last
digit. -/
theorem strtoul_number {num base r : ℕ} {size precision : ℤ} {type : Flags} {rest : List UInt8}
    (h : num < 2 ^ 64) (hb : PrintBase base) (hsign : type.sign = false)
    (hfield : type.left = true ∨ type.zeropad = true ∨ size ≤ 0) (hrest : EndsNumber rest)
    (hr : r = base ∨ r = 0 ∧ (base ≠ 10 ∧ type.special = true ∨
      base = 10 ∧ precision ≤ 1 ∧ (type.left = true ∨ size ≤ 0))) :
    ∃ j, simpleStrtoull (numberText num base size precision type ++ rest) r =
        (num, List.replicate j (ch ' ') ++ rest) ∧
      simpleStrtoul (numberText num base size precision type ++ rest) r =
        (num % 2 ^ 32, List.replicate j (ch ' ') ++ rest) := by
  obtain ⟨j, hall⟩ := strtoulOf_number hb hsign hfield hrest hr
  refine ⟨j, ?_, hall 32⟩
  have h64 := hall 64
  rw [Nat.mod_eq_of_lt h] at h64
  exact h64

/-- `%#06x` of 255 in front of a comma. -/
theorem strtoul_number_255 : ∃ j, simpleStrtoull ("0x00ff,".toList.map ch) 0 =
      (255, List.replicate j (ch ' ') ++ [ch ',']) ∧
    simpleStrtoul ("0x00ff,".toList.map ch) 0 = (255, List.replicate j (ch ' ') ++ [ch ',']) := by
  have htext : numberText 255 16 6 (-1) { special := true, zeropad := true, small := true } ++ [ch ','] =
      "0x00ff,".toList.map ch := by decide +kernel
  have h := @strtoul_number 255 16 0 6 (-1) { special := true, zeropad := true, small := true } [ch ','] (by decide)
    (Or.inr (Or.inr rfl)) rfl (Or.inr (Or.inl rfl)) ⟨by decide, by decide⟩ (Or.inr ⟨rfl, Or.inl ⟨by decide, rfl⟩⟩)
  rw [htext] at h
  exact h

/-- **A signed number is read back.** What `%d` prints of an `int`, with zeros or with spaces
behind it, is read by `simple_strtol`, the smallest `int` as well. -/
theorem strtol_number {w : ℕ} {size precision : ℤ} {type : Flags} {rest : List UInt8} (h : w < 2 ^ 32)
    (hsign : type.sign = true) (hplus : type.plus = false) (hspace : type.space = false)
    (hfield : type.left = true ∨ type.zeropad = true ∨ size ≤ 0) (hrest : EndsNumber rest) :
    ∃ j, simpleStrtol (numberText (signExtend 32 w) 10 size precision type ++ rest) 10 =
      (w, List.replicate j (ch ' ') ++ rest) := by
  obtain ⟨k, j, htext, -⟩ := @numberText_parts (signExtend 32 w) 10 size precision type hfield
  have ht := hrest.spaces j
  have hpfx : prefixText 10 type = [] := by
    unfold prefixText
    exact if_neg (by simp)
  refine ⟨j, ?_⟩
  rw [htext, hpfx, List.append_nil, List.append_assoc, List.append_assoc]
  generalize List.replicate j (ch ' ') ++ rest = t at *
  have hread := fun n : ℕ => @strtoulOf_base k 10 n type.small t 32 (Or.inr (Or.inl rfl)) ht
  unfold simpleStrtol
  by_cases hneg : w < 2 ^ 31
  · have hext : signExtend 32 w = w := if_pos hneg
    have hsig : signText w type = [] := by
      unfold signText signOf
      rw [hsign, hplus, hspace, if_pos rfl, if_neg (by omega : ¬ 2 ^ 63 ≤ w)]
      rfl
    have habs : absOf w type = w := by
      unfold absOf
      rw [hsign, Bool.true_and, if_neg (by rw [decide_eq_true_eq]; omega)]
    have hhead : (zerosDigits k 10 w type.small ++ t).headD 0 ≠ ch '-' := by
      intro he
      have hx := @first_isxdigit k 10 w type.small t (by decide) (by decide)
      rw [he] at hx
      exact absurd hx (by decide)
    rw [hext, hsig, habs, List.nil_append, if_neg hhead]
    have hval := hread w
    rw [Nat.mod_eq_of_lt h] at hval
    exact hval
  · have hext : signExtend 32 w = w + (2 ^ 64 - 2 ^ 32) := if_neg hneg
    have hge : 2 ^ 63 ≤ w + (2 ^ 64 - 2 ^ 32) := by omega
    have hsig : signText (w + (2 ^ 64 - 2 ^ 32)) type = [ch '-'] := by
      unfold signText signOf
      rw [hsign, if_pos rfl, if_pos hge]
      rfl
    have habs : absOf (w + (2 ^ 64 - 2 ^ 32)) type = 2 ^ 32 - w := by
      unfold absOf sub64 u64
      rw [hsign, Bool.true_and, if_pos (decide_eq_true hge)]
      omega
    have hval := hread (2 ^ 32 - w)
    rw [Nat.mod_eq_of_lt (by omega)] at hval
    have hback : sub32 0 (2 ^ 32 - w) = w := by
      unfold sub32 u32
      omega
    rw [hext, hsig, habs, List.singleton_append, List.headD_cons, if_pos rfl, List.tail_cons]
    show (sub32 0 (strtoulOf 32 _ 10).1, (strtoulOf 32 _ 10).2) = _
    rw [hval, hback]

/-- `INT_MIN`. -/
theorem strtol_number_min : ∃ j, simpleStrtol ("-2147483648".toList.map ch) 10 =
    (2 ^ 31, List.replicate j (ch ' ') ++ []) := by
  have htext : numberText (signExtend 32 (2 ^ 31)) 10 (-1) (-1) { sign := true } ++ [] = "-2147483648".toList.map ch := by
    decide +kernel
  have h := @strtol_number (2 ^ 31) (-1) (-1) { sign := true } [] (by decide) rfl rfl rfl (Or.inr (Or.inr (by decide)))
    ⟨by decide, by decide⟩
  rw [htext] at h
  exact h

/-- `simple_itoa` writes the decimal digits. -/
theorem simpleItoa_eq (i : ℕ) (p : List UInt8) : simpleItoa i p = zerosDigits 0 10 i false ++ p := by
  have hdigit : ∀ {d : ℕ}, d < 10 → decDigit d = numDigit (locaseOf false) d := fun h => (numDigit_of_lt h false).symm
  unfold simpleItoa
  by_cases h : i / 10 = 0
  · have hone : printedDigits 10 i = [i % 10] := by
      unfold printedDigits
      by_cases h0 : i = 0
      · rw [if_pos h0, h0]
      · rw [if_neg h0, Nat.digits_of_lt 10 i h0 (by omega), Nat.mod_eq_of_lt (by omega)]
    unfold zerosDigits
    rw [if_pos h, hone, hdigit (Nat.mod_lt i (by decide))]
    rfl
  · have hmore : printedDigits 10 i = i % 10 :: printedDigits 10 (i / 10) := by
      unfold printedDigits
      rw [if_neg (by omega), if_neg h, Nat.digits_def' (by decide) (by omega)]
    unfold zerosDigits
    rw [if_neg h, simpleItoa_eq, hmore, List.map_cons, List.reverse_cons, hdigit (Nat.mod_lt i (by decide))]
    unfold zerosDigits
    simp only [List.replicate_zero, List.nil_append, List.append_assoc, List.singleton_append]
termination_by i
decreasing_by omega

/-! ### Strict reading -/

/-- The prefix that is skipped: none, or `0x`. -/
def HexPfx (base : ℕ) (pre : List UInt8) : Prop :=
  pre = [] ∨ base = 16 ∧ ∃ x, tolower x = ch 'x' ∧ pre = [ch '0', x]

/-- With a base at most the prefix is skipped. -/
theorem fixup_split (s : List UInt8) {base : ℕ} (h0 : base ≠ 0) :
    ∃ pre rest, s = pre ++ rest ∧ HexPfx base pre ∧ parseIntegerFixupRadix s base = (rest, base) := by
  by_cases h : base = 16 ∧ s.headD 0 = ch '0' ∧ tolower (s.getD 1 0) = ch 'x'
  · obtain ⟨h16, hfirst, hsecond⟩ := h
    match s with
    | [] => exact absurd hfirst (by decide)
    | [_] => exact absurd (show tolower 0 = ch 'x' from hsecond) (by decide)
    | c :: x :: rest =>
      rw [List.headD_cons] at hfirst
      have hx : tolower x = ch 'x' := hsecond
      subst hfirst
      refine ⟨[ch '0', x], rest, rfl, Or.inr ⟨h16, x, hx, rfl⟩, ?_⟩
      rw [fixup_hex hx (Or.inl h16), h16]
  · exact ⟨[], s, rfl, Or.inl rfl, fixup_plain h0 fun h16 hx => h ⟨h16, hx⟩⟩

/-- A digit is no `x`. -/
theorem tolower_of_digit {base : ℕ} {c : UInt8} (h : isDigitOf base c = true) : tolower c ≠ ch 'x' := by
  have hall : ∀ c : UInt8, isxdigit c = true → tolower c ≠ ch 'x' :=
    forall_byte (p := fun c => isxdigit c = true → tolower c ≠ ch 'x') (by decide +kernel)
  unfold isDigitOf at h
  exact hall c (Bool.and_eq_true _ _ ▸ h).1

/-- A number, with what stands behind it, is read from its prefix on. -/
theorem fixup_pfx {base : ℕ} {pre ds nl : List UInt8} (h0 : base ≠ 0) (hpre : HexPfx base pre)
    (hds : ∀ c ∈ ds, isDigitOf base c = true) (hnl : nl = [] ∨ nl = [ch '\n']) :
    parseIntegerFixupRadix (pre ++ (ds ++ nl)) base = (ds ++ nl, base) := by
  rcases hpre with rfl | ⟨rfl, x, hx, rfl⟩
  · apply fixup_plain h0
    rintro - ⟨-, hsecond⟩
    have hmem : ∀ c ∈ ds ++ nl, tolower c ≠ ch 'x' := by
      intro c hc
      rcases List.mem_append.mp hc with hc | hc
      · exact tolower_of_digit (hds c hc)
      · rcases hnl with rfl | rfl
        · cases hc
        · rw [List.mem_singleton.mp hc]
          decide
    rw [List.nil_append] at hsecond
    by_cases hlen : 1 < (ds ++ nl).length
    · rw [List.getD_eq_getElem _ _ hlen] at hsecond
      exact hmem _ (List.getElem_mem hlen) hsecond
    · rw [List.getD_eq_default _ _ (not_lt.mp hlen)] at hsecond
      exact absurd hsecond (by decide)
  · exact fixup_hex hx (Or.inl rfl)

/-- **`strict_strtoul` takes digits, and a newline behind them.** It accepts a string exactly
if it is digits of the base with a newline at most behind them, in base 16 with a prefix
`0x` in front; the prefix alone is taken for 0. The result is the last 32 bits of the
number. -/
theorem strictStrtoul_iff {s : List UInt8} {base v : ℕ} (h0 : base ≠ 0) (hs : 0 ∉ s) :
    strictStrtoul s base = some v ↔ ∃ pre ds nl, s = pre ++ (ds ++ nl) ∧ HexPfx base pre ∧
      (∀ c ∈ ds, isDigitOf base c = true) ∧ pre ++ ds ≠ [] ∧ (nl = [] ∨ nl = [ch '\n']) ∧
      v = strValue base ds % 2 ^ 32 := by
  constructor
  · intro h
    obtain ⟨pre, rest, hsplit, hpre, hfix⟩ := fixup_split s h0
    have hrest : rest.takeWhile (isDigitOf base) ++ rest.dropWhile (isDigitOf base) = rest :=
      List.takeWhile_append_dropWhile
    have hlen : s.length = pre.length + (rest.takeWhile (isDigitOf base)).length +
        (rest.dropWhile (isDigitOf base)).length := by
      have h2 := congrArg List.length hrest
      rw [List.length_append] at h2
      rw [hsplit, List.length_append]
      omega
    unfold strictStrtoul simpleStrtoul at h
    simp only [hfix, strtoulLoop_eq] at h
    generalize hds : rest.takeWhile (isDigitOf base) = ds at *
    generalize rest.dropWhile (isDigitOf base) = nl at *
    split_ifs at h with hnil hfull htail
    refine ⟨pre, ds, nl, by rw [hrest, hsplit], hpre, fun c hc => ?_, fun hempty => ?_, ?_, (Option.some.inj h).symm⟩
    · rw [← hds] at hc
      exact List.mem_takeWhile_imp hc
    · rw [List.append_eq_nil_iff] at hempty
      rw [hempty.1, hempty.2] at hlen
      exact hfull (by rw [hlen]; simp)
    · rcases htail with hend | ⟨hone, hnewline⟩
      · cases nl with
        | nil => exact Or.inl rfl
        | cons c nl =>
          rw [List.headD_cons] at hend
          refine absurd ?_ hs
          rw [hsplit, ← hrest, ← hend]
          exact List.mem_append_right _ (List.mem_append_right _ List.mem_cons_self)
      · have hnl : nl.length = 1 := by omega
        obtain ⟨c, rfl⟩ := List.length_eq_one_iff.mp hnl
        rw [List.headD_cons] at hnewline
        exact Or.inr (by rw [hnewline])
  · rintro ⟨pre, ds, nl, rfl, hpre, hds, hne, hnl, rfl⟩
    have hstop : isDigitOf base (nl.headD 0) = false := by
      have hn : isxdigit (nl.headD 0) = false := by rcases hnl with rfl | rfl <;> decide
      unfold isDigitOf
      rw [hn, Bool.false_and]
    have hlen : (pre ++ ds).length ≠ 0 := mt List.length_eq_zero_iff.mp hne
    have hsum : (pre ++ (ds ++ nl)).length = (pre ++ ds).length + nl.length := by
      rw [← List.append_assoc, List.length_append]
    have hshape : nl.headD 0 = 0 ∨ (pre ++ (ds ++ nl)).length = (pre ++ (ds ++ nl)).length - nl.length + 1 ∧
        nl.headD 0 = ch '\n' := by
      rcases hnl with rfl | rfl
      · exact Or.inl rfl
      · rw [List.length_singleton] at hsum
        exact Or.inr ⟨by rw [hsum, List.length_singleton, Nat.add_sub_cancel], rfl⟩
    have hfull : nl.length ≠ (pre ++ (ds ++ nl)).length := by omega
    have hnil : (pre ++ (ds ++ nl)).length ≠ 0 := by omega
    unfold strictStrtoul simpleStrtoul
    simp only [fixup_pfx h0 hpre hds hnl, strtoulLoop_digits 32 hds hstop]
    rw [if_neg hnil, if_neg hfull, if_pos hshape]

/-- A prefix, two digits and a newline. -/
theorem strictStrtoul_iff_hex : strictStrtoul ("0x1F\n".toList.map ch) 16 = some 31 :=
  (strictStrtoul_iff (by decide) (by decide)).mpr ⟨[ch '0', ch 'x'], [ch '1', ch 'F'], [ch '\n'], rfl,
    Or.inr ⟨rfl, ch 'x', by decide, rfl⟩, List.all_eq_true.mp rfl, by decide, Or.inr rfl, by decide⟩

/-! ### Suffixes and trailing numbers -/

/-- A number with a suffix is multiplied by the power of 1024 that belongs to it; the end
is behind the suffix only if an `i` follows. -/
theorem ustrtoull_suffix {base num : ℕ} {small : Bool} {c : UInt8} {rest : List UInt8} (h : num < 2 ^ 64)
    (hb : PrintBase base) (hc : c = ch 'G' ∨ c = ch 'M' ∨ c = ch 'K' ∨ c = ch 'k') :
    ustrtoull (zerosDigits 0 base num small ++ c :: rest) base =
      (num * 1024 ^ (if c = ch 'G' then 3 else if c = ch 'M' then 2 else 1) % 2 ^ 64,
        if rest.headD 0 = ch 'i' then (if rest.getD 1 0 = ch 'B' then rest.drop 2 else rest.drop 1) else c :: rest) := by
  have hends : EndsNumber (c :: rest) := by
    unfold EndsNumber
    rw [List.headD_cons]
    rcases hc with rfl | rfl | rfl | rfl <;> exact ⟨by decide, by decide⟩
  have hread : simpleStrtoull (zerosDigits 0 base num small ++ c :: rest) base = (num % 2 ^ 64, c :: rest) :=
    strtoulOf_base 64 hb hends
  have hsecond : (c :: rest).getD 1 0 = rest.headD 0 := by cases rest <;> rfl
  have hthird : (c :: rest).getD 2 0 = rest.getD 1 0 := rfl
  have hdrop : (c :: rest).drop 3 = rest.drop 2 ∧ (c :: rest).drop 2 = rest.drop 1 := ⟨rfl, rfl⟩
  rw [Nat.mod_eq_of_lt h] at hread
  unfold ustrtoull sizeSuffix
  simp only [hread, List.headD_cons, hsecond, hthird, hdrop]
  by_cases hi : rest.headD 0 = ch 'i'
  · rcases hc with rfl | rfl | rfl | rfl <;> simp only [hi] <;> rfl
  · rcases hc with rfl | rfl | rfl | rfl <;> simp only [hi, and_false, if_false] <;> rfl

end Rosx
