/-
# Formatted printing

`vsnprintf_internal` of `lib/vsprintf.c`, and what calls it. The format is read
character by character; behind a `%` come the flags, the field width, the precision
and the qualifier, and then the conversion. Every character goes out through
`ADDCH`, which writes it only in front of the end of the buffer.

What a format denotes is its text (`formatText`), which knows of no buffer. The
functions write a prefix of it: `vsnprintf` returns the length of the text, and
leaves in the buffer as much of it as fits in front of a NUL (`vsnprintf_spec`).

An argument is one or two words from the place the list of arguments points to. The
strings that arguments point to, and the integers that `%n` stores, are elsewhere than
the buffer. The addresses have 32 bits and the position wraps; the results are about
texts that end in front of the last address.

Key definitions: `Directive`, `readDirective`, `convert`, `printLoop`, `vsnprintf`,
`formatText`.
Key theorems: `printLoop_eq`, `vsnprintf_spec`.
-/
import Rosx.Number
import Rosx.Charset

namespace Rosx

open Writer

/-- The arguments: their words, and the strings they point to, up to the NUL. -/
structure VaList where
  word : ℕ → ℕ
  text : ℕ → List UInt8 := fun _ => []
  text16 : ℕ → List UInt16 := fun _ => []

/-- An `int` from its word. -/
def asInt (w : ℕ) : ℤ := if u32 w < 2 ^ 31 then u32 w else u32 w - 2 ^ 32

/-- A signed number of `w` bits as an `u64`. -/
def signExtend (w x : ℕ) : ℕ := if x < 2 ^ (w - 1) then x else x + (2 ^ 64 - 2 ^ w)

/-! ### Reading a directive -/

/-- `is_digit`. -/
def isDigit (c : UInt8) : Bool := ch '0' ≤ c && c ≤ ch '9'

/-- `skip_atoi`. -/
def skipAtoi (i : ℤ) : List UInt8 → ℤ × List UInt8
  | [] => (i, [])
  | c :: s => if isDigit c then skipAtoi (i * 10 + (c.toNat - (ch '0').toNat)) s else (i, c :: s)

/-- The flags behind a `%`. -/
def readFlags (flags : Flags) : List UInt8 → Flags × List UInt8
  | [] => (flags, [])
  | c :: fmt =>
    if c = ch '-' then readFlags { flags with left := true } fmt
    else if c = ch '+' then readFlags { flags with plus := true } fmt
    else if c = ch ' ' then readFlags { flags with space := true } fmt
    else if c = ch '#' then readFlags { flags with special := true } fmt
    else if c = ch '0' then readFlags { flags with zeropad := true } fmt
    else (flags, c :: fmt)

/-- What stands between a `%` and its conversion character, the next argument, and the
format from that character on. -/
structure Directive where
  flags : Flags := {}
  width : ℤ := -1
  precision : ℤ := -1
  qualifier : UInt8 := 0
  ap : ℕ
  fmt : List UInt8

/-- The field width: digits, or the next argument for a `*`, where a negative one means
the flag `-`. -/
def readWidth (va : VaList) (d : Directive) : Directive :=
  if isDigit (d.fmt.headD 0) then
    { d with width := (skipAtoi 0 d.fmt).1, fmt := (skipAtoi 0 d.fmt).2 }
  else if d.fmt.headD 0 = ch '*' then
    let width := asInt (va.word d.ap)
    if width < 0 then
      { d with width := -width, flags := { d.flags with left := true }, ap := d.ap + 1, fmt := d.fmt.tail }
    else { d with width, ap := d.ap + 1, fmt := d.fmt.tail }
  else d

/-- The precision behind a point: digits, or the next argument; none and a negative one
are 0. -/
def readPrecision (va : VaList) (d : Directive) : Directive :=
  if d.fmt.headD 0 = ch '.' then
    let fmt := d.fmt.tail
    if isDigit (fmt.headD 0) then { d with precision := max (skipAtoi 0 fmt).1 0, fmt := (skipAtoi 0 fmt).2 }
    else if fmt.headD 0 = ch '*' then
      { d with precision := max (asInt (va.word d.ap)) 0, ap := d.ap + 1, fmt := fmt.tail }
    else { d with precision := 0, fmt }
  else d

/-- The qualifier; `ll` is `L`. -/
def readQualifier (d : Directive) : Directive :=
  let c := d.fmt.headD 0
  if c = ch 'h' ∨ c = ch 'l' ∨ c = ch 'L' ∨ c = ch 'Z' ∨ c = ch 'z' ∨ c = ch 't' then
    if c = ch 'l' ∧ d.fmt.tail.headD 0 = ch 'l' then { d with qualifier := ch 'L', fmt := d.fmt.tail.tail }
    else { d with qualifier := c, fmt := d.fmt.tail }
  else d

/-- The directive behind a `%`. -/
def readDirective (va : VaList) (ap : ℕ) (fmt : List UInt8) : Directive :=
  readQualifier (readPrecision va (readWidth va
    { flags := (readFlags {} fmt).1, ap, fmt := (readFlags {} fmt).2 }))

/-- The conversion character. -/
def Directive.char (d : Directive) : UInt8 := d.fmt.headD 0

/-! ### The conversions -/

/-- The base and the flags of an integer conversion. -/
def Directive.integer (d : Directive) : Option (ℕ × Flags) :=
  if d.char = ch 'o' then some (8, d.flags)
  else if d.char = ch 'x' then some (16, { d.flags with small := true })
  else if d.char = ch 'X' then some (16, d.flags)
  else if d.char = ch 'd' ∨ d.char = ch 'i' then some (10, { d.flags with sign := true })
  else if d.char = ch 'u' then some (10, d.flags)
  else none

/-- The number of an integer conversion, and the argument after it. -/
def Directive.num (va : VaList) (d : Directive) (sign : Bool) : ℕ × ℕ :=
  let w := u32 (va.word d.ap)
  if d.qualifier = ch 'L' then (w + u32 (va.word (d.ap + 1)) * 2 ^ 32, d.ap + 2)
  else if d.qualifier = ch 'l' then (if sign then signExtend 32 w else w, d.ap + 1)
  else if d.qualifier = ch 'Z' ∨ d.qualifier = ch 'z' then (w, d.ap + 1)
  else if d.qualifier = ch 't' then (signExtend 32 w, d.ap + 1)
  else if d.qualifier = ch 'h' then
    (if sign then signExtend 16 (w % 2 ^ 16) else w % 2 ^ 16, d.ap + 1)
  else (if sign then signExtend 32 w else w, d.ap + 1)

/-- `while (--field_width > 0) ADDCH(str, ' ')`. -/
def charPad (lim : ℕ) (width : ℤ) (o : Out UInt8) : Out UInt8 × ℤ :=
  if 0 < width - 1 then charPad lim (width - 1) (addch lim o (ch ' ')) else (o, width - 1)
termination_by width.toNat

/-- The conversion `%c`. -/
def charField (lim : ℕ) (o : Out UInt8) (c : UInt8) (width : ℤ) (flags : Flags) : Out UInt8 :=
  let ow := if !flags.left then charPad lim width o else (o, width)
  (charPad lim ow.2 (addch lim ow.1 c)).1

/-- `while (len < field_width--) ADDCH(buf, ' ')`. -/
def fieldPad (lim : ℕ) (len width : ℤ) (o : Out UInt8) : Out UInt8 × ℤ :=
  if len < width then fieldPad lim len (width - 1) (addch lim o (ch ' ')) else (o, width - 1)
termination_by (width - len).toNat

/-- What `string` and `string16` do with the bytes they have found. -/
def stringField (lim : ℕ) (o : Out UInt8) (s : List UInt8) (width : ℤ) (flags : Flags) : Out UInt8 :=
  let ow := if !flags.left then fieldPad lim s.length width o else (o, width)
  (fieldPad lim s.length ow.2 (s.foldl (addch lim) ow.1)).1

/-- The bytes `string` prints: `strnlen(s, precision)` of them. -/
def stringBytes (va : VaList) (p : ℕ) (precision : ℤ) : List UInt8 :=
  let s := if p = 0 then [ch '<', ch 'N', ch 'U', ch 'L', ch 'L', ch '>'] else (va.text p).takeWhile (· ≠ 0)
  s.take (precision % 2 ^ 32).toNat

/-- The bytes `string16` prints. `L"<NULL>"` has 32-bit characters, so that read as 16-bit
units it ends after the first. -/
def string16Bytes (va : VaList) (p : ℕ) (precision : ℤ) : List UInt8 :=
  let s := if p = 0 then [60] else va.text16 p
  utf16ToUtf8 (s.take (utf16Strnlen s (precision % 2 ^ 32).toNat))

/-- The state of the loop: the output, the next argument, and what `%n` has stored
where. -/
structure Printer where
  out : Out UInt8
  ap : ℕ
  stored : List (ℕ × ℤ) := []

/-- The format behind a directive: the conversion character is skipped unless the
format ends there. -/
def Directive.rest (d : Directive) : List UInt8 := if d.char = 0 then d.fmt else d.fmt.tail

/-- One directive. -/
def convert (va : VaList) (lim buf : ℕ) (p : Printer) (d : Directive) : Printer :=
  if d.char = ch 'c' then
    { p with out := charField lim p.out (UInt8.ofNat (va.word d.ap)) d.width d.flags, ap := d.ap + 1 }
  else if d.char = ch 's' then
    let s := if d.qualifier = ch 'l' then string16Bytes va (va.word d.ap) d.precision
      else stringBytes va (va.word d.ap) d.precision
    { p with out := stringField lim p.out s d.width d.flags, ap := d.ap + 1 }
  else if d.char = ch 'n' then
    { p with ap := d.ap + 1, stored := p.stored ++ [(va.word d.ap, asInt (sub32 p.out.pos buf))] }
  else if d.char = ch '%' then { p with out := addch lim p.out (ch '%'), ap := d.ap }
  else
    match d.integer with
    | some (base, flags) =>
      { p with
        out := number lim p.out (d.num va flags.sign).1 base d.width d.precision flags
        ap := (d.num va flags.sign).2 }
    | none =>
      let o := addch lim p.out (ch '%')
      { p with out := if d.char = 0 then o else addch lim o d.char, ap := d.ap }

/-! ### Directives are read from the front -/

theorem skipAtoi_length_le : ∀ (s : List UInt8) (i : ℤ), (skipAtoi i s).2.length ≤ s.length
  | [], _ => le_rfl
  | c :: s, i => by
    unfold skipAtoi
    by_cases h : isDigit c = true
    · rw [if_pos h]
      exact (skipAtoi_length_le s _).trans (Nat.le_succ _)
    · rw [if_neg h]

theorem readFlags_length_le : ∀ (fmt : List UInt8) (flags : Flags), (readFlags flags fmt).2.length ≤ fmt.length
  | [], _ => le_rfl
  | c :: fmt, flags => by
    have hskip : ∀ f : Flags, (readFlags f fmt).2.length ≤ (c :: fmt).length := fun f =>
      (readFlags_length_le fmt f).trans (Nat.le_succ _)
    unfold readFlags
    split_ifs
    · exact hskip _
    · exact hskip _
    · exact hskip _
    · exact hskip _
    · exact hskip _
    · exact le_rfl

theorem tail_length_le (fmt : List UInt8) : fmt.tail.length ≤ fmt.length := by
  rw [List.length_tail]
  exact Nat.sub_le _ 1

theorem readWidth_length_le (va : VaList) (d : Directive) : (readWidth va d).fmt.length ≤ d.fmt.length := by
  unfold readWidth
  dsimp only
  split_ifs
  · exact skipAtoi_length_le _ _
  · exact tail_length_le _
  · exact tail_length_le _
  · exact le_rfl

theorem readPrecision_length_le (va : VaList) (d : Directive) : (readPrecision va d).fmt.length ≤ d.fmt.length := by
  have htail := tail_length_le d.fmt
  unfold readPrecision
  dsimp only
  split_ifs
  · exact (skipAtoi_length_le _ _).trans htail
  · exact (tail_length_le _).trans htail
  · exact htail
  · exact le_rfl

theorem readQualifier_length_le (d : Directive) : (readQualifier d).fmt.length ≤ d.fmt.length := by
  have htail := tail_length_le d.fmt
  unfold readQualifier
  dsimp only
  split_ifs
  · exact (tail_length_le _).trans htail
  · exact htail
  · exact le_rfl

theorem readDirective_length_le (va : VaList) (ap : ℕ) (fmt : List UInt8) :
    (readDirective va ap fmt).fmt.length ≤ fmt.length :=
  (readQualifier_length_le _).trans ((readPrecision_length_le va _).trans ((readWidth_length_le va _).trans
    (readFlags_length_le fmt _)))

theorem Directive.rest_length_le (d : Directive) : d.rest.length ≤ d.fmt.length := by
  unfold Directive.rest
  by_cases h : d.char = 0
  · rw [if_pos h]
  · rw [if_neg h]
    exact tail_length_le _

/-- The loop of `vsnprintf_internal`: characters are copied up to the next `%`. -/
def printLoop (va : VaList) (lim buf : ℕ) (p : Printer) : List UInt8 → Printer
  | [] => p
  | c :: fmt =>
    if c = 0 then p
    else if c ≠ ch '%' then printLoop va lim buf { p with out := addch lim p.out c } fmt
    else
      printLoop va lim buf (convert va lim buf p (readDirective va p.ap fmt)) (readDirective va p.ap fmt).rest
termination_by fmt => fmt.length
decreasing_by
  · exact Nat.lt_succ_self _
  · exact Nat.lt_succ_of_le ((Directive.rest_length_le _).trans (readDirective_length_le va p.ap fmt))

/-! ### The text of a format -/

/-- The bytes of a string in its field. -/
def fieldText (s : List UInt8) (width : ℤ) (flags : Flags) : List UInt8 :=
  let fill := List.replicate (width - s.length).toNat (ch ' ')
  if flags.left then s ++ fill else fill ++ s

/-- What a directive prints. -/
def Directive.text (va : VaList) (d : Directive) : List UInt8 :=
  if d.char = ch 'c' then fieldText [UInt8.ofNat (va.word d.ap)] d.width d.flags
  else if d.char = ch 's' then
    if d.qualifier = ch 'l' then fieldText (string16Bytes va (va.word d.ap) d.precision) d.width d.flags
    else fieldText (stringBytes va (va.word d.ap) d.precision) d.width d.flags
  else if d.char = ch 'n' then []
  else if d.char = ch '%' then [ch '%']
  else
    match d.integer with
    | some (base, flags) => numberText (d.num va flags.sign).1 base d.width d.precision flags
    | none => if d.char = 0 then [ch '%'] else [ch '%', d.char]

/-- The argument after those of a directive. -/
def Directive.next (va : VaList) (d : Directive) : ℕ :=
  if d.char = ch 'c' ∨ d.char = ch 's' ∨ d.char = ch 'n' then d.ap + 1
  else
    match d.integer with
    | some (_, flags) => (d.num va flags.sign).2
    | none => d.ap

/-- What a directive stores in an `int`, when `n` characters are in front of it. -/
def Directive.stores (va : VaList) (d : Directive) (n : ℕ) : List (ℕ × ℤ) :=
  if d.char = ch 'n' then [(va.word d.ap, asInt n)] else []

/-- The text that a format denotes, with the arguments from `ap` on. -/
def formatText (va : VaList) (ap : ℕ) : List UInt8 → List UInt8
  | [] => []
  | c :: fmt =>
    if c = 0 then []
    else if c ≠ ch '%' then c :: formatText va ap fmt
    else
      (readDirective va ap fmt).text va ++
        formatText va ((readDirective va ap fmt).next va) (readDirective va ap fmt).rest
termination_by fmt => fmt.length
decreasing_by
  · exact Nat.lt_succ_self _
  · exact Nat.lt_succ_of_le ((Directive.rest_length_le _).trans (readDirective_length_le va ap fmt))

/-- What `%n` directives store, when `n` characters are in front of the format: the
count of the characters up to the directive. -/
def formatStores (va : VaList) (ap n : ℕ) : List UInt8 → List (ℕ × ℤ)
  | [] => []
  | c :: fmt =>
    if c = 0 then []
    else if c ≠ ch '%' then formatStores va ap (n + 1) fmt
    else
      (readDirective va ap fmt).stores va n ++
        formatStores va ((readDirective va ap fmt).next va) (n + ((readDirective va ap fmt).text va).length)
          (readDirective va ap fmt).rest
termination_by fmt => fmt.length
decreasing_by
  · exact Nat.lt_succ_self _
  · exact Nat.lt_succ_of_le ((Directive.rest_length_le _).trans (readDirective_length_le va ap fmt))

/-! ### The loop writes the text -/

theorem charPad_eq (lim : ℕ) (width : ℤ) (o : Out UInt8) :
    charPad lim width o = (addchs lim o (List.replicate (width - 1).toNat (ch ' ')), min width 1 - 1) := by
  unfold charPad
  by_cases h : 0 < width - 1
  · have hnat : (width - 1).toNat = (width - 1 - 1).toNat + 1 := by omega
    rw [if_pos h, charPad_eq, hnat, addchs_replicate_succ]
    congr 1
    omega
  · have hnat : (width - 1).toNat = 0 := by omega
    rw [if_neg h, hnat, List.replicate_zero, addchs_nil]
    congr 1
    omega
termination_by width.toNat

theorem fieldPad_eq (lim : ℕ) (len width : ℤ) (o : Out UInt8) :
    fieldPad lim len width o = (addchs lim o (List.replicate (width - len).toNat (ch ' ')), min width len - 1) := by
  unfold fieldPad
  by_cases h : len < width
  · have hnat : (width - len).toNat = (width - 1 - len).toNat + 1 := by omega
    rw [if_pos h, fieldPad_eq, hnat, addchs_replicate_succ]
    congr 1
    omega
  · have hnat : (width - len).toNat = 0 := by omega
    rw [if_neg h, hnat, List.replicate_zero, addchs_nil]
    congr 1
    omega
termination_by (width - len).toNat

theorem stringField_eq (lim : ℕ) (o : Out UInt8) (s : List UInt8) (width : ℤ) (flags : Flags) :
    stringField lim o s width flags = addchs lim o (fieldText s width flags) := by
  have hloop : ∀ o, s.foldl (addch lim) o = addchs lim o s := fun _ => rfl
  have hdone : (min width s.length - 1 - s.length).toNat = 0 := by omega
  unfold stringField fieldText
  simp only [fieldPad_eq, hloop]
  cases flags.left with
  | true => simp only [Bool.not_true, Bool.false_eq_true, if_false, if_true, addchs_append]
  | false =>
    simp only [Bool.not_false, Bool.false_eq_true, if_false, if_true, hdone, List.replicate_zero, addchs_nil,
      addchs_append]

/-- A character in its field. -/
theorem charField_eq (lim : ℕ) (o : Out UInt8) (c : UInt8) (width : ℤ) (flags : Flags) :
    charField lim o c width flags = addchs lim o (fieldText [c] width flags) := by
  have hdone : (min width 1 - 1 - 1).toNat = 0 := by omega
  unfold charField fieldText
  simp only [charPad_eq, List.length_singleton, Nat.cast_one]
  cases flags.left with
  | true =>
    simp only [Bool.not_true, Bool.false_eq_true, if_false, if_true, addchs_append, addchs_singleton]
  | false =>
    simp only [Bool.not_false, Bool.false_eq_true, if_false, if_true, hdone, List.replicate_zero, addchs_nil,
      addchs_append, addchs_singleton]

theorem signExtend_lt {w x : ℕ} (hw : w ≤ 32) (hx : x < 2 ^ w) : signExtend w x < 2 ^ 64 := by
  have hpow : 2 ^ w ≤ 2 ^ 32 := Nat.pow_le_pow_right two_pos hw
  unfold signExtend
  by_cases h : x < 2 ^ (w - 1)
  · rw [if_pos h]
    omega
  · rw [if_neg h]
    omega

/-- The number of a conversion has 64 bits. -/
theorem Directive.num_lt (va : VaList) (d : Directive) (sign : Bool) : (d.num va sign).1 < 2 ^ 64 := by
  have hw := u32_lt (va.word d.ap)
  have hw' := u32_lt (va.word (d.ap + 1))
  have hext := signExtend_lt le_rfl hw
  have hmod : u32 (va.word d.ap) % 2 ^ 16 < 2 ^ 16 := Nat.mod_lt _ (Nat.two_pow_pos 16)
  have hext' := signExtend_lt (by decide) hmod
  unfold Directive.num
  dsimp only
  split_ifs <;> dsimp only <;> omega

theorem Directive.integer_base {d : Directive} {base : ℕ} {flags : Flags} (h : d.integer = some (base, flags)) :
    PrintBase base := by
  unfold Directive.integer at h
  split_ifs at h <;> obtain ⟨rfl, -⟩ := Prod.mk.inj (Option.some.inj h)
  · exact Or.inl rfl
  · exact Or.inr (Or.inr rfl)
  · exact Or.inr (Or.inr rfl)
  · exact Or.inr (Or.inl rfl)
  · exact Or.inr (Or.inl rfl)

/-- A directive writes its text. -/
theorem convert_out (va : VaList) (lim buf : ℕ) (p : Printer) (d : Directive) :
    (convert va lim buf p d).out = addchs lim p.out (d.text va) := by
  unfold convert Directive.text
  by_cases hc : d.char = ch 'c'
  · rw [if_pos hc, if_pos hc]
    exact charField_eq lim p.out _ d.width d.flags
  rw [if_neg hc, if_neg hc]
  by_cases hs : d.char = ch 's'
  · rw [if_pos hs, if_pos hs]
    by_cases hl : d.qualifier = ch 'l'
    · rw [if_pos hl, if_pos hl]
      exact stringField_eq _ _ _ _ _
    · rw [if_neg hl, if_neg hl]
      exact stringField_eq _ _ _ _ _
  rw [if_neg hs, if_neg hs]
  by_cases hn : d.char = ch 'n'
  · rw [if_pos hn, if_pos hn]
    rfl
  rw [if_neg hn, if_neg hn]
  by_cases hp : d.char = ch '%'
  · rw [if_pos hp, if_pos hp]
    rfl
  rw [if_neg hp, if_neg hp]
  cases hi : d.integer with
  | some bf => exact number_eq_puts (Directive.integer_base hi) (Directive.num_lt va d _)
  | none =>
    by_cases h0 : d.char = 0
    · rw [if_pos h0]
      exact if_pos h0
    · rw [if_neg h0]
      exact if_neg h0

theorem convert_ap (va : VaList) (lim buf : ℕ) (p : Printer) (d : Directive) :
    (convert va lim buf p d).ap = d.next va := by
  unfold convert Directive.next
  by_cases hc : d.char = ch 'c'
  · rw [if_pos hc, if_pos (Or.inl hc)]
  rw [if_neg hc]
  by_cases hs : d.char = ch 's'
  · rw [if_pos hs, if_pos (Or.inr (Or.inl hs))]
  rw [if_neg hs]
  by_cases hn : d.char = ch 'n'
  · rw [if_pos hn, if_pos (Or.inr (Or.inr hn))]
  have hnone : ¬ (d.char = ch 'c' ∨ d.char = ch 's' ∨ d.char = ch 'n') := by
    rintro (h | h | h)
    · exact hc h
    · exact hs h
    · exact hn h
  rw [if_neg hn, if_neg hnone]
  by_cases hp : d.char = ch '%'
  · have hi : d.integer = none := by
      unfold Directive.integer
      rw [hp, if_neg (by decide), if_neg (by decide), if_neg (by decide), if_neg (by decide), if_neg (by decide)]
    rw [if_pos hp, hi]
  rw [if_neg hp]
  cases d.integer <;> rfl

/-- **The loop writes the text of the format**, whatever the buffer. -/
theorem printLoop_eq (va : VaList) (lim buf : ℕ) (p : Printer) (fmt : List UInt8) :
    (printLoop va lim buf p fmt).out = addchs lim p.out (formatText va p.ap fmt) := by
  match fmt with
  | [] =>
    rw [printLoop, formatText]
    rfl
  | c :: fmt =>
    rw [printLoop, formatText]
    by_cases h0 : c = 0
    · rw [if_pos h0, if_pos h0]
      rfl
    rw [if_neg h0, if_neg h0]
    by_cases hp : c ≠ ch '%'
    · rw [if_pos hp, if_pos hp, printLoop_eq]
      rfl
    · rw [if_neg hp, if_neg hp, printLoop_eq, convert_out, convert_ap, addchs_append]
termination_by fmt.length
decreasing_by
  · exact Nat.lt_succ_self _
  · exact Nat.lt_succ_of_le ((Directive.rest_length_le _).trans (readDirective_length_le va p.ap fmt))

theorem addchs_pos {lim : ℕ} {o : Out UInt8} {l : List UInt8} (h : o.pos + l.length < 2 ^ 32) :
    (addchs lim o l).pos = o.pos + l.length := puts_pos h

theorem convert_stored {va : VaList} {lim buf : ℕ} {p : Printer} {d : Directive} {n : ℕ} (hn : buf + n = p.out.pos)
    (hpos : p.out.pos < 2 ^ 32) : (convert va lim buf p d).stored = p.stored ++ d.stores va n := by
  have hsub : sub32 p.out.pos buf = n := by
    rw [sub32_of_le (by omega) hpos]
    omega
  unfold convert Directive.stores
  by_cases hc : d.char = ch 'c'
  · have hd : d.char ≠ ch 'n' := by
      rw [hc]
      decide
    rw [if_pos hc, if_neg hd, List.append_nil]
  rw [if_neg hc]
  by_cases hs : d.char = ch 's'
  · have hd : d.char ≠ ch 'n' := by
      rw [hs]
      decide
    rw [if_pos hs, if_neg hd, List.append_nil]
  rw [if_neg hs]
  by_cases hd : d.char = ch 'n'
  · rw [if_pos hd, if_pos hd, hsub]
  rw [if_neg hd, if_neg hd, List.append_nil]
  by_cases hp : d.char = ch '%'
  · rw [if_pos hp]
  rw [if_neg hp]
  cases d.integer <;> rfl

/-- The `%n` directives store how many characters are in front of them. -/
theorem printLoop_stored (va : VaList) (lim buf : ℕ) {p : Printer} {fmt : List UInt8} {n : ℕ}
    (hn : buf + n = p.out.pos) (h : p.out.pos + (formatText va p.ap fmt).length < 2 ^ 32) :
    (printLoop va lim buf p fmt).stored = p.stored ++ formatStores va p.ap n fmt := by
  match fmt with
  | [] => rw [printLoop, formatStores, List.append_nil]
  | c :: fmt =>
    rw [formatText] at h
    rw [printLoop, formatStores]
    by_cases h0 : c = 0
    · rw [if_pos h0, if_pos h0, List.append_nil]
    rw [if_neg h0] at h
    rw [if_neg h0, if_neg h0]
    by_cases hp : c ≠ ch '%'
    · rw [if_pos hp, List.length_cons] at h
      rw [if_pos hp, if_pos hp]
      have hpos : (addch lim p.out c).pos = p.out.pos + 1 := put_pos (show p.out.pos + 1 < 2 ^ 32 by omega)
      have hlen : (addch lim p.out c).pos + (formatText va p.ap fmt).length < 2 ^ 32 := by omega
      exact printLoop_stored va lim buf (p := { p with out := addch lim p.out c }) (by rw [hpos]; omega) hlen
    · rw [if_neg hp, List.length_append] at h
      rw [if_neg hp, if_neg hp]
      have hpos := @addchs_pos lim p.out ((readDirective va p.ap fmt).text va) (by omega)
      have hout := convert_out va lim buf p (readDirective va p.ap fmt)
      have hap := convert_ap va lim buf p (readDirective va p.ap fmt)
      rw [printLoop_stored va lim buf (n := n + ((readDirective va p.ap fmt).text va).length) (by rw [hout, hpos]; omega)
        (by rw [hout, hpos, hap]; omega), convert_stored hn (by omega), hap, List.append_assoc]
termination_by fmt.length
decreasing_by
  · exact Nat.lt_succ_self _
  · exact Nat.lt_succ_of_le ((Directive.rest_length_le _).trans (readDirective_length_le va p.ap fmt))

/-! ### The functions -/

/-- What a print leaves behind: the memory, the return value, and what `%n` has
stored. -/
structure Printed where
  mem : ℕ → UInt8
  ret : ℤ
  stored : List (ℕ × ℤ)

/-- `vsnprintf_internal`, with `buf` and `size` as numbers of 32 bits. An end behind the
last address is moved there. -/
def vsnprintfInternal (va : VaList) (mem : ℕ → UInt8) (buf size : ℕ) (fmt : List UInt8) : Printed :=
  let wraps := u32 (buf + size) < buf
  let lim := if wraps then 2 ^ 32 - 1 else u32 (buf + size)
  let size := if wraps then lim - buf else size
  let p := printLoop va lim buf { out := { mem, pos := buf }, ap := 0 } fmt
  if 0 < size then
    let o := addch lim p.out 0
    let mem := if lim < o.pos then Function.update o.mem (lim - 1) 0 else o.mem
    { mem, ret := asInt (sub32 (sub32 o.pos 1) buf), stored := p.stored }
  else { mem := p.out.mem, ret := asInt (sub32 p.out.pos buf), stored := p.stored }

/-- `vsnprintf`. -/
def vsnprintf (va : VaList) (mem : ℕ → UInt8) (buf size : ℕ) (fmt : List UInt8) : Printed :=
  vsnprintfInternal va mem buf size fmt

/-- `vsprintf`: the size is `INT_MAX`. -/
def vsprintf (va : VaList) (mem : ℕ → UInt8) (buf : ℕ) (fmt : List UInt8) : Printed :=
  vsnprintfInternal va mem buf (2 ^ 31 - 1) fmt

/-- `vscnprintf`: the length of what is in the buffer. The comparison is unsigned. -/
def vscnprintf (va : VaList) (mem : ℕ → UInt8) (buf size : ℕ) (fmt : List UInt8) : Printed :=
  let r := vsnprintf va mem buf size fmt
  if r.ret % 2 ^ 32 < size then r
  else if size ≠ 0 then { r with ret := (size : ℤ) - 1 }
  else { r with ret := 0 }

/-- The end of the buffer: `buf + size`, or the last address. -/
def bufferEnd (buf size : ℕ) : ℕ := min (buf + size) (2 ^ 32 - 1)

/-- As much of the text as goes into the buffer, and its NUL. -/
def inBuffer (buf size : ℕ) (text : List UInt8) : List UInt8 := text.take (bufferEnd buf size - buf - 1) ++ [0]

theorem asInt_of_lt {n : ℕ} (h : n < 2 ^ 31) : asInt n = n := by
  unfold asInt
  rw [u32_of_lt (by omega), if_pos h]

/-- The end that `vsnprintf_internal` works with, and the size that goes with it. -/
theorem buffer_end {buf size : ℕ} (hb : buf < 2 ^ 32) (hs : size < 2 ^ 32) :
    (if u32 (buf + size) < buf then 2 ^ 32 - 1 else u32 (buf + size)) = bufferEnd buf size ∧
      (if u32 (buf + size) < buf then bufferEnd buf size - buf else size) = bufferEnd buf size - buf := by
  unfold bufferEnd u32
  by_cases h : buf + size < 2 ^ 32
  · rw [Nat.mod_eq_of_lt h, if_neg (by omega), if_neg (by omega)]
    omega
  · have hwrap : (buf + size) % 2 ^ 32 = buf + size - 2 ^ 32 := by omega
    rw [hwrap, if_pos (by omega), if_pos (by omega)]
    omega

/-- A text written with its NUL into a buffer, the last byte of which is made NUL if it
does not fit. -/
theorem blit_truncated {lim buf : ℕ} {text : List UInt8} {mem : ℕ → UInt8} (hlim : buf < lim) :
    (if lim < buf + text.length + 1 then Function.update (blit lim buf (text ++ [0]) mem) (lim - 1) 0
      else blit lim buf (text ++ [0]) mem) = blit lim buf (text.take (lim - buf - 1) ++ [0]) mem := by
  by_cases h : lim < buf + text.length + 1
  · rw [if_pos h]
    funext a
    have hlen : (text.take (lim - buf - 1)).length = lim - buf - 1 := by
      rw [List.length_take]
      omega
    by_cases ha : a = lim - 1
    · rw [ha, Function.update_self, blit, if_pos (by rw [List.length_append, hlen, List.length_singleton]; omega),
        List.getD_append_right _ _ _ _ (by omega), hlen]
      have h0 : lim - 1 - buf - (lim - buf - 1) = 0 := by omega
      rw [h0, List.getD_cons_zero]
    · rw [Function.update_of_ne ha]
      unfold blit
      rw [List.length_append, List.length_append, hlen, List.length_singleton]
      by_cases hin : buf ≤ a ∧ a < lim
      · rw [if_pos (by omega), if_pos (by omega), List.getD_append _ _ _ _ (by omega),
          List.getD_append _ _ _ _ (by rw [hlen]; omega), List.getD_eq_getElem _ _ (by omega),
          List.getD_eq_getElem _ _ (by rw [hlen]; omega), List.getElem_take]
      · rw [if_neg (by omega), if_neg (by omega)]
  · rw [if_neg h, List.take_of_length_le (by omega)]

/-- What `vsnprintf_internal` leaves behind, its end of the buffer taken as it is. -/
theorem vsnprintf_text {va : VaList} {mem : ℕ → UInt8} {buf size : ℕ} {fmt : List UInt8} (hs : size < 2 ^ 32)
    (hlen : (formatText va 0 fmt).length < 2 ^ 31) (hend : buf + (formatText va 0 fmt).length + 1 < 2 ^ 32) :
    vsnprintfInternal va mem buf size fmt =
      { mem := blit (bufferEnd buf size) buf (inBuffer buf size (formatText va 0 fmt)) mem
        ret := (formatText va 0 fmt).length
        stored := formatStores va 0 0 fmt } := by
  have hbuf : buf < 2 ^ 32 := by omega
  obtain ⟨he, hsz⟩ := buffer_end hbuf hs
  unfold vsnprintfInternal
  simp only [he, hsz]
  generalize hlimd : bufferEnd buf size = lim
  have hout := printLoop_eq va lim buf { out := { mem, pos := buf }, ap := 0 } fmt
  have hstored := @printLoop_stored va lim buf { out := { mem, pos := buf }, ap := 0 } fmt 0 (Nat.add_zero buf)
    (show buf + (formatText va 0 fmt).length < 2 ^ 32 by omega)
  rw [List.nil_append] at hstored
  generalize printLoop va lim buf { out := { mem, pos := buf }, ap := 0 } fmt = p at *
  unfold inBuffer
  rw [hlimd]
  generalize hText : formatText va 0 fmt = text at *
  have hpos : p.out.pos = buf + text.length := by
    rw [hout]
    exact addchs_pos (show buf + text.length < 2 ^ 32 by omega)
  have hret : asInt (sub32 (buf + text.length) buf) = text.length := by
    rw [sub32_of_le (by omega) (by omega), Nat.add_sub_cancel_left, asInt_of_lt hlen]
  by_cases hsize : 0 < lim - buf
  · have hnul : addch lim p.out 0 = addchs lim { mem, pos := buf } (text ++ [0]) := by
      rw [addchs_append, ← hout]
      rfl
    have hnpos : (addchs lim { mem, pos := buf } (text ++ [0])).pos = buf + text.length + 1 := by
      rw [addchs_pos (by rw [List.length_append, List.length_singleton]; show buf + (text.length + 1) < 2 ^ 32; omega),
        List.length_append, List.length_singleton]
      rfl
    have hnmem : (addchs lim { mem, pos := buf } (text ++ [0])).mem = blit lim buf (text ++ [0]) mem :=
      puts_mem (by rw [List.length_append, List.length_singleton]; show buf + (text.length + 1) < 2 ^ 32; omega)
    rw [if_pos hsize, hnul, hnpos, hnmem, blit_truncated (by omega), hstored,
      sub32_of_le (a := buf + text.length + 1) (by omega) (by omega), Nat.add_sub_cancel, hret]
  · have hmem : p.out.mem = blit lim buf text mem := by
      rw [hout]
      exact puts_mem (show buf + text.length < 2 ^ 32 by omega)
    rw [if_neg hsize, hpos, hret, hstored, hmem]
    congr 1
    -- there is no buffer
    funext a
    unfold blit
    rw [if_neg (by omega), if_neg (by omega)]

/-- Where the text ends in front of the last address, it does not matter that the end of
the buffer is moved there. -/
theorem blit_inBuffer {buf size : ℕ} {text : List UInt8} {mem : ℕ → UInt8} (hend : buf + text.length + 1 < 2 ^ 32) :
    blit (bufferEnd buf size) buf (inBuffer buf size text) mem =
      blit (buf + size) buf (text.take (size - 1) ++ [0]) mem := by
  have htake : text.take (bufferEnd buf size - buf - 1) = text.take (size - 1) := by
    unfold bufferEnd
    by_cases h : buf + size ≤ 2 ^ 32 - 1
    · rw [Nat.min_eq_left h, Nat.add_sub_cancel_left]
    · rw [Nat.min_eq_right (by omega), List.take_of_length_le (by omega), List.take_of_length_le (by omega)]
  have hlen : (text.take (size - 1) ++ [0]).length ≤ text.length + 1 := by
    rw [List.length_append, List.length_singleton, List.length_take]
    omega
  unfold inBuffer
  rw [htake]
  unfold blit bufferEnd
  funext a
  by_cases h : buf ≤ a ∧ a < buf + (text.take (size - 1) ++ [0]).length ∧ a < buf + size
  · rw [if_pos h, if_pos (by omega)]
  · rw [if_neg h, if_neg (by omega)]

/-- What a print into a buffer of `size` bytes leaves behind, if its text is `text`. -/
def printed (mem : ℕ → UInt8) (buf size : ℕ) (text : List UInt8) (ret : ℤ) (stored : List (ℕ × ℤ)) : Printed where
  mem := blit (buf + size) buf (text.take (size - 1) ++ [0]) mem
  ret
  stored

theorem vsnprintfInternal_eq {va : VaList} {mem : ℕ → UInt8} {buf size : ℕ} {fmt : List UInt8} (hs : size < 2 ^ 32)
    (hlen : (formatText va 0 fmt).length < 2 ^ 31) (hend : buf + (formatText va 0 fmt).length + 1 < 2 ^ 32) :
    vsnprintfInternal va mem buf size fmt =
      printed mem buf size (formatText va 0 fmt) (formatText va 0 fmt).length (formatStores va 0 0 fmt) := by
  rw [vsnprintf_text hs hlen hend, blit_inBuffer hend]
  rfl

/-- **What fits is printed.** For every format, every arguments and every buffer, the
memory changes only in the buffer, where as much of the text as fits stands in front of
a NUL, and the `%n` directives store their positions in the text. `vsnprintf` returns
the length of the text, whatever the size, and `vscnprintf` of what is in the buffer. -/
theorem vsnprintf_spec {va : VaList} {mem : ℕ → UInt8} {buf size : ℕ} {fmt : List UInt8} (hs : size < 2 ^ 32)
    (hlen : (formatText va 0 fmt).length < 2 ^ 31) (hend : buf + (formatText va 0 fmt).length + 1 < 2 ^ 32) :
    vsnprintf va mem buf size fmt =
      printed mem buf size (formatText va 0 fmt) (formatText va 0 fmt).length (formatStores va 0 0 fmt) ∧
    vscnprintf va mem buf size fmt =
      printed mem buf size (formatText va 0 fmt) ((formatText va 0 fmt).take (size - 1)).length
        (formatStores va 0 0 fmt) := by
  have hv : vsnprintf va mem buf size fmt = _ := vsnprintfInternal_eq hs hlen hend
  refine ⟨hv, ?_⟩
  unfold vscnprintf
  rw [hv, List.length_take]
  generalize (formatText va 0 fmt).length = n at *
  have hret : ∀ {t : List UInt8} {st : List (ℕ × ℤ)}, (printed mem buf size t n st).ret % 2 ^ 32 = n := by
    intro t st
    unfold printed
    dsimp only
    omega
  dsimp only
  by_cases hfits : (n : ℤ) < size
  · rw [hret, if_pos hfits, Nat.min_eq_right (by omega)]
  · rw [hret, if_neg hfits, Nat.min_eq_left (by omega)]
    by_cases h0 : size ≠ 0
    · rw [if_pos h0]
      unfold printed
      congr 1
      omega
    · rw [if_neg h0, not_not.mp h0]
      rfl

/-- `%n` counts what does not fit as well. -/
theorem vsnprintf_spec_count :
    let va : VaList := { word := fun _ => 7 }
    let fmt := "n=%03d%n".toList.map ch
    vsnprintf va (fun _ => 1) 100 4 fmt = printed (fun _ => 1) 100 4 ("n=007".toList.map ch) 5 [(7, 5)] ∧
      vscnprintf va (fun _ => 1) 100 4 fmt = printed (fun _ => 1) 100 4 ("n=007".toList.map ch) 3 [(7, 5)] := by
  intro va fmt
  have htext : formatText va 0 fmt = "n=007".toList.map ch := by decide +kernel
  have hst : formatStores va 0 0 fmt = [(7, 5)] := by decide +kernel
  have h := @vsnprintf_spec va (fun _ => 1) 100 4 fmt (by decide)
    (by rw [htext]; decide) (by rw [htext]; decide)
  rw [htext, hst] at h
  exact h
end Rosx
