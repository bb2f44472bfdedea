/-
# Strings

The functions of `lib/string.c` that look at terminated strings, compare them, copy them
and search in them. Their loops end at the NUL; where there is none they leave the
memory, and the call does not return.

`strcpy` and `strcat` write the string they read, and they do not return exactly if the
target begins inside the source, behind its start: then the NUL is written over before it
is read (`strcpy_eq`, `strcat_appends`). `strcmp` keeps the difference of two
characters in a `signed char`, so that it orders strings of 7-bit characters, and others
only up to a difference of 128 (`strcmp_orders`). `strstr` finds the first place
where the string is (`strstr_first`).

Key definitions: `CStr`, `strlen`, `strspn`, `strpbrk`, `strcpy`, `strcat`, `strncat`,
`strcmp`, `strstr`.
Key theorems: `strcpy_eq`, `strcat_appends`, `strncat_appends`, `strcmp_orders`,
`strstr_first`.
-/
import Rosx.Memory
import Rosx.Strto
import Rosx.Lib.Linked
import Rosx.Lib.Terminated

namespace Rosx

open Linked Terminated

/-! ### Lengths -/

/-- All addresses are below it. -/
def memTop : ℕ := 0x100000000

/-- `while (p(*s)) ++s`: a loop that goes on to the first byte that does not pass `p`. -/
def skipWhile (p : UInt8 → Bool) (m : ℕ → UInt8) (s : ℕ) : Res ℕ :=
  match scan p m (memTop - s) s with
  | some s => .ok s
  | none => .error .hang

/-- `strlen`. -/
def strlen (m : ℕ → UInt8) (s : ℕ) : Res ℕ := do
  let sc ← skipWhile (fun c => c ≠ 0) m s
  return sc - s

/-- The loop of `strnlen`. -/
def strnlenLoop (m : ℕ → UInt8) : ℕ → ℕ → ℕ
  | 0, sc => sc
  | count + 1, sc => if m sc ≠ 0 then strnlenLoop m count (sc + 1) else sc

/-- `strnlen`. -/
def strnlen (m : ℕ → UInt8) (s count : ℕ) : ℕ := strnlenLoop m count s - s

/-! ### Characters in a string -/

/-- The inner loops of `strspn` and `strpbrk`: to the character `c`, or to the NUL. -/
def skipTo (c : UInt8) : (ℕ → UInt8) → ℕ → Res ℕ := skipWhile fun x => x ≠ 0 && x ≠ c

/-- The loop of `strspn`. -/
def strspnLoop (m : ℕ → UInt8) (accept : ℕ) : ℕ → ℕ → ℕ → Res ℕ
  | 0, _, _ => .error .hang
  | n + 1, p, count =>
    if m p ≠ 0 then do
      let a ← skipTo (m p) m accept
      if m a = 0 then return count else strspnLoop m accept n (p + 1) (count + 1)
    else .ok count

/-- `strspn`. -/
def strspn (m : ℕ → UInt8) (s accept : ℕ) : Res ℕ := strspnLoop m accept (memTop - s) s 0

/-- The loop of `strpbrk`. -/
def strpbrkLoop (m : ℕ → UInt8) (ct : ℕ) : ℕ → ℕ → Res (Option ℕ)
  | 0, _ => .error .hang
  | n + 1, sc1 =>
    if m sc1 ≠ 0 then do
      let sc2 ← skipTo (m sc1) m ct
      if m sc2 = 0 then strpbrkLoop m ct n (sc1 + 1) else return some sc1
    else .ok none

/-- `strpbrk`. -/
def strpbrk (m : ℕ → UInt8) (cs ct : ℕ) : Res (Option ℕ) := strpbrkLoop m ct (memTop - cs) cs

/-- `strchr`. -/
def strchr (m : ℕ → UInt8) (s c : ℕ) : Res (Option ℕ) := do
  let s ← skipTo (UInt8.ofNat c) m s
  return if m s = UInt8.ofNat c then some s else none

/-- The loop of `strrchr`, for a string that does not begin at the address 0. -/
def strrchrLoop (m : ℕ → UInt8) (c : UInt8) (s : ℕ) : ℕ → Option ℕ
  | 0 => none
  | p + 1 => if m (p + 1) = c then some (p + 1) else if s ≤ p then strrchrLoop m c s p else none

/-- `strrchr`. -/
def strrchr (m : ℕ → UInt8) (s c : ℕ) : Res (Option ℕ) := do
  let len ← strlen m s
  return strrchrLoop m (UInt8.ofNat c) s (s + len)

/-- `memscan`: the first byte that is `c`, or the end of the area. -/
def memscan (m : ℕ → UInt8) : ℕ → ℕ → ℕ → ℕ
  | p, _, 0 => p
  | p, c, size + 1 => if (m p).toNat = c then p else memscan m (p + 1) c size

/-- `memchr`. -/
def memchr (m : ℕ → UInt8) : ℕ → ℕ → ℕ → Option ℕ
  | _, _, 0 => none
  | p, c, n + 1 => if UInt8.ofNat c = m p then some p else memchr m (p + 1) c n

/-! ### Copies -/

/-- `while ((*dest++ = *src++) != '\0')`. -/
def strcpyLoop : ℕ → (ℕ → UInt8) → ℕ → ℕ → Res (ℕ → UInt8)
  | 0, _, _, _ => .error .hang
  | n + 1, m, dest, src =>
    let c := m src
    if c ≠ 0 then strcpyLoop n (Function.update m dest c) (dest + 1) (src + 1) else .ok (Function.update m dest c)

/-- `strcpy`. -/
def strcpy (m : ℕ → UInt8) (dest src : ℕ) : Res (ℕ → UInt8) := strcpyLoop (memTop - max dest src) m dest src

/-- `strncpy`. -/
def strncpy : (ℕ → UInt8) → ℕ → ℕ → ℕ → ℕ → UInt8
  | m, _, _, 0 => m
  | m, dest, src, count + 1 =>
    let c := m src
    if c ≠ 0 then strncpy (Function.update m dest c) (dest + 1) (src + 1) count else Function.update m dest c

/-- `strcat`. -/
def strcat (m : ℕ → UInt8) (dest src : ℕ) : Res (ℕ → UInt8) := do
  let dest ← skipWhile (fun c => c ≠ 0) m dest
  strcpy m dest src

/-- The loop of `strncat`, for a count that is not 0. -/
def strncatLoop : (ℕ → UInt8) → ℕ → ℕ → ℕ → ℕ → UInt8
  | m, _, _, 0 => m
  | m, dest, src, count + 1 =>
    let c := m src
    let m := Function.update m dest c
    if c ≠ 0 then
      if count = 0 then Function.update m (dest + 1) 0 else strncatLoop m (dest + 1) (src + 1) count
    else m

/-- `strncat`. -/
def strncat (m : ℕ → UInt8) (dest src count : ℕ) : Res (ℕ → UInt8) :=
  if count ≠ 0 then do
    let dest ← skipWhile (fun c => c ≠ 0) m dest
    return strncatLoop m dest src count
  else .ok m

/-! ### Comparing -/

/-- A `signed char`. -/
def signedChar (c : UInt8) : ℤ := if c.toNat < 128 then c.toNat else c.toNat - 256

/-- The loop of `strcmp`. -/
def strcmpLoop (m : ℕ → UInt8) : ℕ → ℕ → ℕ → Res ℤ
  | 0, _, _ => .error .hang
  | n + 1, cs, ct =>
    let res := signedChar (m cs - m ct)
    if res ≠ 0 ∨ m cs = 0 then .ok res else strcmpLoop m n (cs + 1) (ct + 1)

/-- `strcmp`. -/
def strcmp (m : ℕ → UInt8) (cs ct : ℕ) : Res ℤ := strcmpLoop m (memTop - max cs ct) cs ct

/-- `strncmp`. -/
def strncmp (m : ℕ → UInt8) : ℕ → ℕ → ℕ → ℤ
  | _, _, 0 => 0
  | cs, ct, count + 1 =>
    let res := signedChar (m cs - m ct)
    if res ≠ 0 ∨ m cs = 0 then res else strncmp m (cs + 1) (ct + 1) count

/-- The loop of `strstr`, with the rounds that are left until `l1` is below `l2`. -/
def strstrLoop (m : ℕ → UInt8) (s2 l2 : ℕ) : ℕ → ℕ → Option ℕ
  | 0, _ => none
  | n + 1, s1 => if memcmp m s1 s2 l2 = 0 then some s1 else strstrLoop m s2 l2 n (s1 + 1)

/-- `strstr`. The lengths are kept as an `int`. -/
def strstr (m : ℕ → UInt8) (s1 s2 : ℕ) : Res (Option ℕ) := do
  let l2 ← strlen m s2
  if l2 = 0 then return some s1
  else
    let l1 ← strlen m s1
    return strstrLoop m s2 l2 (asInt l1 + 1 - asInt l2).toNat s1

/-! ### Strings in the memory -/

/-- At `a` there is the string `s`, with its NUL. -/
structure CStr (m : ℕ → UInt8) (a : ℕ) (s : List UInt8) : Prop extends Str 0 m a s where
  bound : a + s.length < memTop

/-- A memory with some bytes from the address 16 on. -/
def memoryOf (bs : List UInt8) : ℕ → UInt8 := fun a => if 16 ≤ a then bs.getD (a - 16) 0 else 0

/-- The strings `ab` at 16 and `bc` at 21. -/
def abMemory : ℕ → UInt8 := memoryOf [97, 98, 0, 0, 0, 98, 99, 0]

theorem abMemory_strings : CStr abMemory 16 [97, 98] ∧ CStr abMemory 21 [98, 99] :=
  ⟨⟨⟨⟨by decide, by decide, trivial⟩, by decide, by simp⟩, by decide⟩,
    ⟨⟨⟨by decide, by decide, trivial⟩, by decide, by simp⟩, by decide⟩⟩

section Spec

variable {m m' : ℕ → UInt8} {a b n : ℕ} {s t : List UInt8} {c : UInt8}

theorem CStr.congr (h : CStr m a s) (heq : ∀ i ≤ s.length, m' (a + i) = m (a + i)) : CStr m' a s :=
  ⟨h.toStr.congr heq, h.bound⟩

theorem CStr.suffix (h : CStr m a (s ++ t)) : CStr m (a + s.length) t := by
  refine ⟨h.toStr.suffix, ?_⟩
  have hb := h.bound
  rw [List.length_append] at hb
  omega

/-- **The loops stop inside the string.** -/
theorem skipWhile_eq {p : UInt8 → Bool} (h : CStr m a s) (hp : p 0 = false) :
    skipWhile p m a = .ok (a + (s.takeWhile p).length) := by
  have hb := h.bound
  unfold skipWhile
  rw [scan_str h.toStr hp (by omega)]

theorem takeWhile_ne_zero (h : ∀ c ∈ s, c ≠ 0) : s.takeWhile (fun c => c ≠ 0) = s :=
  List.takeWhile_eq_self_iff.mpr fun c hc => decide_eq_true (h c hc)

theorem skipWhile_stop (h : CStr m a s) : skipWhile (fun c => c ≠ 0) m a = .ok (a + s.length) := by
  rw [skipWhile_eq h rfl, takeWhile_ne_zero h.inner]

theorem strlen_eq (h : CStr m a s) : strlen m a = .ok s.length := by
  unfold strlen
  rw [skipWhile_stop h]
  show Except.ok (a + s.length - a) = _
  rw [Nat.add_sub_cancel_left]

theorem strnlenLoop_eq : ∀ {a : ℕ} {s : List UInt8} (count : ℕ), Str 0 m a s →
    strnlenLoop m count a = a + min s.length count
  | a, s, 0, _ => by rw [strnlenLoop, Nat.min_zero, Nat.add_zero]
  | a, [], count + 1, h => by
    rw [strnlenLoop, if_neg (not_not.mpr (str_nil.mp h)), List.length_nil, Nat.zero_min, Nat.add_zero]
  | a, c :: s, count + 1, h => by
    obtain ⟨hc, hne, hs⟩ := str_cons.mp h
    rw [strnlenLoop, if_pos (by rwa [hc]), strnlenLoop_eq count hs, List.length_cons, Nat.succ_min_succ]
    omega

/-- `strnlen` does not need the NUL if it is not among the first `count` bytes. -/
theorem strnlen_eq (h : Str 0 m a s) (count : ℕ) : strnlen m a count = min s.length count := by
  rw [strnlen, strnlenLoop_eq count h, Nat.add_sub_cancel_left]

/-- The search for a character. -/
theorem skipTo_eq (h : CStr m a s) (c : UInt8) : skipTo c m a = .ok (a + s.idxOf c) := by
  have htake : ∀ {s : List UInt8}, (∀ x ∈ s, x ≠ 0) → (s.takeWhile fun x => x ≠ 0 && x ≠ c).length = s.idxOf c := by
    intro s hs
    induction s with
    | nil => rfl
    | cons x s ih =>
      have hx := hs x List.mem_cons_self
      by_cases he : x = c
      · rw [List.takeWhile_cons_of_neg (by simp [he]), List.idxOf_cons_eq s he]
        rfl
      · rw [List.takeWhile_cons_of_pos (by simp [hx, he]), List.length_cons, List.idxOf_cons_ne s he,
          ih fun y hy => hs y (List.mem_cons_of_mem x hy)]
  unfold skipTo
  rw [skipWhile_eq h (by rfl), htake h.inner]

/-- It ends at the NUL if the character is not there. -/
theorem skipTo_found (h : CStr m a s) : m (a + s.idxOf c) = 0 ↔ c ∉ s := by
  constructor
  · intro h0 hmem
    have hlt := List.idxOf_lt_length_of_mem hmem
    exact h.ne_stop hlt h0
  · intro hmem
    rw [List.idxOf_eq_length hmem]
    exact h.stop

/-- `strspn` counts the characters in front that are accepted. -/
theorem strspnLoop_eq {acc : List UInt8} (hacc : CStr m b acc) : ∀ {s : List UInt8} {n a : ℕ} (count : ℕ), Str 0 m a s →
    s.length < n → strspnLoop m b n a count = .ok (count + (s.takeWhile (· ∈ acc)).length)
  | [], n + 1, a, count, h, _ => by
    rw [strspnLoop, if_neg (not_not.mpr (str_nil.mp h))]
    rfl
  | c :: s, n + 1, a, count, h, hn => by
    obtain ⟨hc, hne, hs⟩ := str_cons.mp h
    have hskip : skipTo (m a) m b = .ok (b + acc.idxOf c) := by rw [hc, skipTo_eq hacc]
    rw [strspnLoop, if_pos (by rwa [hc]), hskip]
    show (if m (b + acc.idxOf c) = 0 then .ok count else strspnLoop m b n (a + 1) (count + 1)) = _
    by_cases hmem : c ∈ acc
    · rw [if_neg (mt (skipTo_found hacc).mp (not_not.mpr hmem)),
        List.takeWhile_cons_of_pos (p := fun x => decide (x ∈ acc)) (decide_eq_true hmem),
        strspnLoop_eq hacc (count + 1) hs (Nat.lt_of_succ_lt_succ hn), List.length_cons]
      congr 1
      omega
    · rw [if_pos ((skipTo_found hacc).mpr hmem),
        List.takeWhile_cons_of_neg (p := fun x => decide (x ∈ acc)) (by rwa [decide_eq_true_eq])]
      rfl

theorem strspn_eq {acc : List UInt8} (h : CStr m a s) (hacc : CStr m b acc) :
    strspn m a b = .ok (s.takeWhile (· ∈ acc)).length := by
  have hb := h.bound
  unfold strspn
  rw [strspnLoop_eq hacc 0 h.toStr (by omega), Nat.zero_add]

/-- `strpbrk` finds the first of the characters. -/
theorem strpbrkLoop_eq {ct : List UInt8} (hct : CStr m b ct) : ∀ {s : List UInt8} {n a : ℕ}, Str 0 m a s →
    s.length < n → strpbrkLoop m b n a = .ok ((s.findIdx? (· ∈ ct)).map (a + ·))
  | [], n + 1, a, h, _ => by
    rw [strpbrkLoop, if_neg (not_not.mpr (str_nil.mp h))]
    rfl
  | c :: s, n + 1, a, h, hn => by
    obtain ⟨hc, hne, hs⟩ := str_cons.mp h
    have hskip : skipTo (m a) m b = .ok (b + ct.idxOf c) := by rw [hc, skipTo_eq hct]
    rw [strpbrkLoop, if_pos (by rwa [hc]), hskip]
    show (if m (b + ct.idxOf c) = 0 then strpbrkLoop m b n (a + 1) else .ok (some a)) = _
    by_cases hmem : c ∈ ct
    · rw [if_neg (mt (skipTo_found hct).mp (not_not.mpr hmem)), List.findIdx?_cons, if_pos (decide_eq_true hmem)]
      rfl
    · rw [if_pos ((skipTo_found hct).mpr hmem), strpbrkLoop_eq hct hs (Nat.lt_of_succ_lt_succ hn),
        List.findIdx?_cons, if_neg (by rwa [decide_eq_true_eq]), Option.map_map]
      congr 2
      funext i
      exact (Nat.add_right_comm a i 1).symm

theorem strpbrk_eq {ct : List UInt8} (h : CStr m a s) (hct : CStr m b ct) :
    strpbrk m a b = .ok ((s.findIdx? (· ∈ ct)).map (a + ·)) := by
  have hb := h.bound
  unfold strpbrk
  exact strpbrkLoop_eq hct h.toStr (by omega)

/-- `strchr` finds the first place of the character; that of the NUL is the end. -/
theorem strchr_eq (h : CStr m a s) (c : ℕ) : strchr m a c =
    .ok (if UInt8.ofNat c ∈ s ++ [0] then some (a + s.idxOf (UInt8.ofNat c)) else none) := by
  unfold strchr
  rw [skipTo_eq h]
  show Except.ok (if m (a + s.idxOf (UInt8.ofNat c)) = UInt8.ofNat c then some (a + s.idxOf (UInt8.ofNat c))
    else none) = _
  generalize UInt8.ofNat c = d
  by_cases hmem : d ∈ s
  · have hlt := List.idxOf_lt_length_of_mem hmem
    have hget : m (a + s.idxOf d) = d := by
      rw [h.text.get hlt]
      exact List.getElem_idxOf hlt
    rw [if_pos hget, if_pos (List.mem_append_left _ hmem)]
  · have hstop : m (a + s.idxOf d) = 0 := by
      rw [List.idxOf_eq_length hmem]
      exact h.stop
    rw [hstop]
    by_cases h0 : d = 0
    · rw [if_pos h0.symm, if_pos (by rw [h0]; exact List.mem_append_right _ List.mem_cons_self)]
    · have hnot : d ∉ s ++ [0] := by
        rw [List.mem_append, List.mem_singleton]
        rintro (hd | hd)
        · exact hmem hd
        · exact h0 hd
      rw [if_neg (Ne.symm h0), if_neg hnot]

/-- `strrchr` finds the last place. -/
theorem strrchrLoop_spec (c : UInt8) (ha : 0 < a) : ∀ p, a ≤ p →
    (strrchrLoop m c a p = none ∧ ∀ q, a ≤ q → q ≤ p → m q ≠ c) ∨
      ∃ q, strrchrLoop m c a p = some q ∧ a ≤ q ∧ q ≤ p ∧ m q = c ∧ ∀ r, q < r → r ≤ p → m r ≠ c
  | 0, hp => absurd (ha.trans_le hp) (lt_irrefl 0)
  | p + 1, hp => by
    by_cases hc : m (p + 1) = c
    · rw [strrchrLoop, if_pos hc]
      exact Or.inr ⟨p + 1, rfl, hp, le_rfl, hc, fun r hr hle => absurd hle (not_le.mpr hr)⟩
    rw [strrchrLoop, if_neg hc]
    by_cases hle : a ≤ p
    · rw [if_pos hle]
      rcases strrchrLoop_spec c ha p hle with ⟨hnone, hall⟩ | ⟨q, hq, haq, hqp, hmq, hall⟩
      · refine Or.inl ⟨hnone, fun q haq hqp => ?_⟩
        rcases Nat.lt_or_eq_of_le hqp with hlt | rfl
        · exact hall q haq (Nat.le_of_lt_succ hlt)
        · exact hc
      · refine Or.inr ⟨q, hq, haq, hqp.trans (Nat.le_succ p), hmq, fun r hr hrp => ?_⟩
        rcases Nat.lt_or_eq_of_le hrp with hlt | rfl
        · exact hall r hr (Nat.le_of_lt_succ hlt)
        · exact hc
    · rw [if_neg hle]
      refine Or.inl ⟨rfl, fun q haq hqp => ?_⟩
      obtain rfl : q = p + 1 := by omega
      exact hc

theorem strrchr_spec (h : CStr m a s) (ha : 0 < a) (c : ℕ) :
    (strrchr m a c = .ok none ∧ UInt8.ofNat c ∉ s ++ [0]) ∨
      ∃ i ≤ s.length, strrchr m a c = .ok (some (a + i)) ∧ s.getD i 0 = UInt8.ofNat c ∧
        ∀ j, i < j → j ≤ s.length → s.getD j 0 ≠ UInt8.ofNat c := by
  have hcall : strrchr m a c = .ok (strrchrLoop m (UInt8.ofNat c) a (a + s.length)) := by
    unfold strrchr
    rw [strlen_eq h]
    rfl
  rw [hcall]
  rcases strrchrLoop_spec (m := m) (UInt8.ofNat c) ha (a + s.length) (Nat.le_add_right _ _) with
    ⟨hnone, hall⟩ | ⟨q, hq, haq, hqp, hmq, hall⟩
  · rw [hnone]
    refine Or.inl ⟨rfl, fun hmem => ?_⟩
    obtain ⟨i, hi, hget⟩ := List.getElem_of_mem hmem
    rw [List.length_append, List.length_singleton] at hi
    have htext : Text m a (s ++ [0]) := text_append.mpr ⟨h.text, h.stop, trivial⟩
    refine hall (a + i) (Nat.le_add_right _ _) (by omega) ?_
    rw [htext.get (by rw [List.length_append, List.length_singleton]; exact hi), hget]
  · obtain ⟨i, rfl⟩ := Nat.exists_eq_add_of_le haq
    have hi : i ≤ s.length := Nat.le_of_add_le_add_left hqp
    refine Or.inr ⟨i, hi, by rw [hq], by rw [← h.get hi, hmq], fun j hij hj => ?_⟩
    rw [← h.get hj]
    exact hall (a + j) (by omega) (by omega)

/-- `memscan` ends at the first byte that is `c`, or behind the area. -/
theorem memscan_spec (c : ℕ) : ∀ p size, ∃ i ≤ size, memscan m p c size = p + i ∧
    (∀ j < i, (m (p + j)).toNat ≠ c) ∧ (i < size → (m (p + i)).toNat = c)
  | p, 0 => ⟨0, le_rfl, rfl, fun j hj => absurd hj (Nat.not_lt_zero j), fun h => absurd h (lt_irrefl 0)⟩
  | p, size + 1 => by
    by_cases hc : (m p).toNat = c
    · rw [memscan, if_pos hc]
      exact ⟨0, Nat.zero_le _, rfl, fun j hj => absurd hj (Nat.not_lt_zero j), fun _ => hc⟩
    · rw [memscan, if_neg hc]
      obtain ⟨i, hi, hres, hall, hat⟩ := memscan_spec c (p + 1) size
      have hsucc : ∀ j, p + 1 + j = p + (j + 1) := by omega
      refine ⟨i + 1, Nat.succ_le_succ hi, by rw [hres, hsucc], fun j hj => ?_, fun hlt => ?_⟩
      · cases j with
        | zero => exact hc
        | succ j =>
          rw [← hsucc]
          exact hall j (Nat.lt_of_succ_lt_succ hj)
      · rw [← hsucc]
        exact hat (Nat.lt_of_succ_lt_succ hlt)

/-- `memchr` finds what `memscan` does. -/
theorem memchr_eq (c : ℕ) (hc : c < 256) :
    ∀ p n, memchr m p c n = if memscan m p c n = p + n then none else some (memscan m p c n)
  | p, 0 => (if_pos rfl).symm
  | p, n + 1 => by
    have hiff : UInt8.ofNat c = m p ↔ (m p).toNat = c := by
      rw [← UInt8.toNat_inj, UInt8.toNat_ofNat', Nat.mod_eq_of_lt hc, eq_comm]
    rw [memchr, memscan]
    by_cases h : (m p).toNat = c
    · rw [if_pos (hiff.mpr h), if_pos h, if_neg (by omega)]
    · rw [if_neg (mt hiff.mp h), if_neg h, memchr_eq c hc (p + 1) n, Nat.add_right_comm, Nat.add_assoc]

/-! ### Copies of strings -/

theorem strcpyLoop_eq : ∀ {n : ℕ} {m : ℕ → UInt8} {d p : ℕ},
    strcpyLoop n m d p = (copyUntil 0 n m d p).elim (.error .hang) .ok
  | 0, _, _, _ => rfl
  | n + 1, m, d, p => by
    rw [strcpyLoop, copyUntil]
    by_cases h : m p = 0
    · rw [if_neg (not_not.mpr h), if_pos h, h]
      rfl
    · rw [if_pos h, if_neg h]
      exact strcpyLoop_eq

/-- `strcpy` copies the string with its NUL, or does not return. -/
theorem strcpy_eq {d : ℕ} (h : CStr m a s) (hd : d + s.length < memTop) :
    strcpy m d a = if a < d ∧ d ≤ a + s.length then .error .hang else .ok (Area.copy d a (s.length + 1) m) := by
  have hb := h.bound
  unfold strcpy
  rw [strcpyLoop_eq]
  by_cases hin : a < d ∧ d ≤ a + s.length
  · have hne : ∀ i, a ≤ i → i < d → m i ≠ 0 := by
      intro i hai hid
      obtain ⟨k, rfl⟩ := Nat.exists_eq_add_of_le hai
      exact h.ne_stop (by omega)
    rw [if_pos hin, copyUntil_overlap hin.1 hne]
    rfl
  · rw [if_neg hin, copyUntil_eq h.toStr (by omega) (by omega)]
    rfl

/-- **`strcat` appends the string**, and changes nothing else; but it does not return if
the first string ends inside the second one, behind its start. -/
theorem strcat_appends {d : ℕ} (hd : CStr m d t) (hs : CStr m a s) (hb : d + t.length + s.length < memTop) :
    (a < d + t.length ∧ d + t.length ≤ a + s.length → strcat m d a = .error .hang) ∧
    (¬ (a < d + t.length ∧ d + t.length ≤ a + s.length) → ∃ m', strcat m d a = .ok m' ∧ CStr m' d (t ++ s) ∧
      ∀ x, ¬ (d + t.length ≤ x ∧ x ≤ d + t.length + s.length) → m' x = m x) := by
  have hcall : strcat m d a = strcpy m (d + t.length) a := by
    unfold strcat
    rw [skipWhile_stop hd]
    rfl
  rw [hcall, strcpy_eq hs hb]
  refine ⟨fun hin => if_pos hin, fun hin => ⟨_, if_neg hin, ⟨Str.of_text ?_ ?_ hd.inner, ?_⟩, fun x hx => ?_⟩⟩
  · exact hd.text.congr fun i hi => if_neg (by omega)
  · apply hs.toStr.congr
    intro i hi
    unfold Area.copy
    rw [if_pos (by omega), Nat.add_sub_cancel_left]
  · rw [List.length_append]
    omega
  · exact if_neg (by omega)

theorem strcat_appends_ab : ∃ m', strcat abMemory 16 21 = .ok m' ∧ CStr m' 16 [97, 98, 98, 99] ∧
    ∀ x, ¬ (18 ≤ x ∧ x ≤ 20) → m' x = abMemory x :=
  (strcat_appends abMemory_strings.1 abMemory_strings.2 (by decide)).2 (by decide)

/-- `strncpy` copies the string with its NUL, but no more than `count` bytes. -/
theorem strncpy_eq : ∀ {s : List UInt8} (count : ℕ) {m : ℕ → UInt8} {d a : ℕ}, Str 0 m a s → d ≤ a ∨ a + s.length < d →
    strncpy m d a count = Area.copy d a (min count (s.length + 1)) m
  | _, 0, m, d, a, _, _ => by rw [strncpy, Nat.zero_min, Area.copy_zero]
  | [], count + 1, m, d, a, h, _ => by
    have hmin : min (count + 1) (([] : List UInt8).length + 1) = 1 := by rw [List.length_nil]; omega
    rw [strncpy, if_neg (not_not.mpr (str_nil.mp h)), hmin, Area.copy_one]
  | c :: s, count + 1, m, d, a, h, hd => by
    rw [List.length_cons] at hd
    obtain ⟨hc, hne, hs⟩ := str_cons.mp h
    have hs : Str 0 (Function.update m d (m a)) (a + 1) s := hs.congr fun i hi => Function.update_of_ne (by omega) _ _
    have hmin : min (count + 1) ((c :: s).length + 1) = 1 + min count (s.length + 1) := by
      rw [List.length_cons]
      omega
    rw [strncpy, if_pos (by rwa [hc]), strncpy_eq count hs (by omega), hmin, ← Area.copy_one, Area.copy_front (by omega)]

/-- The loop of `strncat` copies no more than `count` bytes, and puts the NUL behind them. -/
theorem strncatLoop_eq : ∀ {s : List UInt8} {count : ℕ} {m : ℕ → UInt8} {d a : ℕ}, Str 0 m a s → count ≠ 0 →
    d ≤ a ∨ a + s.length < d → strncatLoop m d a count =
      Function.update (Area.copy d a (min count s.length) m) (d + min count s.length) 0
  | [], count + 1, m, d, a, h, _, _ => by
    have h0 : m a = 0 := str_nil.mp h
    rw [strncatLoop, if_neg (not_not.mpr h0), List.length_nil, Nat.min_zero, Area.copy_zero, h0, Nat.add_zero]
  | c :: s, count + 1, m, d, a, h, _, hd => by
    rw [List.length_cons] at hd
    obtain ⟨hc, hne, hs⟩ := str_cons.mp h
    have hs : Str 0 (Function.update m d (m a)) (a + 1) s := hs.congr fun i hi => Function.update_of_ne (by omega) _ _
    have hmin : min (count + 1) (c :: s).length = 1 + min count s.length := by
      rw [List.length_cons]
      omega
    rw [strncatLoop, if_pos (by rwa [hc]), hmin]
    by_cases h0 : count = 0
    · rw [if_pos h0, h0, Nat.zero_min, Nat.add_zero, Area.copy_one]
    · rw [if_neg h0, strncatLoop_eq hs h0 (by omega), ← Area.copy_one, Area.copy_front (by omega), Nat.add_assoc]

/-- **`strncat` appends `count` characters at most**, and the NUL behind them always. -/
theorem strncat_appends {d : ℕ} (hd : CStr m d t) (hs : CStr m a s) (count : ℕ)
    (hb : d + t.length + s.length < memTop) (hapart : d + t.length ≤ a ∨ a + s.length < d + t.length) :
    ∃ m', strncat m d a count = .ok m' ∧ CStr m' d (t ++ s.take count) ∧
      ∀ x, ¬ (d + t.length ≤ x ∧ x ≤ d + t.length + min count s.length) → m' x = m x := by
  by_cases h0 : count = 0
  · refine ⟨m, if_neg (not_not.mpr h0), ?_, fun _ _ => rfl⟩
    rw [h0, List.take_zero, List.append_nil]
    exact hd
  have hcall : strncat m d a count = .ok (strncatLoop m (d + t.length) a count) := by
    unfold strncat
    rw [if_pos h0, skipWhile_stop hd]
    rfl
  rw [hcall, strncatLoop_eq hs.toStr h0 hapart]
  have hlen : (s.take count).length = min count s.length := List.length_take
  refine ⟨_, rfl, ⟨Str.of_text ?_ ⟨?_, ?_, fun c hc => hs.inner c (List.mem_of_mem_take hc)⟩ hd.inner, ?_⟩,
    fun x hx => ?_⟩
  · apply hd.text.congr
    intro i hi
    rw [Function.update_of_ne (by omega)]
    exact if_neg (by omega)
  · have hprefix : Text m a (s.take count) := by
      have htext := hs.text
      rw [← List.take_append_drop count s] at htext
      exact (text_append.mp htext).1
    apply hprefix.congr
    intro i hi
    rw [Function.update_of_ne (by omega)]
    unfold Area.copy
    rw [if_pos (by omega), Nat.add_sub_cancel_left]
  · rw [hlen, Function.update_self]
  · rw [List.length_append, hlen]
    omega
  · rw [Function.update_of_ne (by omega)]
    exact if_neg (by omega)

theorem strncat_appends_ab : ∃ m', strncat abMemory 16 21 1 = .ok m' ∧ CStr m' 16 [97, 98, 98] ∧
    ∀ x, ¬ (18 ≤ x ∧ x ≤ 19) → m' x = abMemory x :=
  strncat_appends abMemory_strings.1 abMemory_strings.2 1 (by decide) (by decide)

/-! ### Comparing strings -/

/-- What `strcmp` returns: the difference of the first two characters that differ, where
the NUL is the last of a string. -/
def charDiff : List UInt8 → List UInt8 → ℤ
  | [], [] => 0
  | [], d :: _ => signedChar (0 - d)
  | c :: _, [] => signedChar (c - 0)
  | c :: s, d :: t => if c = d then charDiff s t else signedChar (c - d)

theorem signedChar_eq_zero : signedChar c = 0 ↔ c = 0 := by
  have hlt := c.toNat_lt
  rw [← UInt8.toNat_inj]
  unfold signedChar
  show (if c.toNat < 128 then (c.toNat : ℤ) else c.toNat - 256) = 0 ↔ c.toNat = 0
  by_cases h : c.toNat < 128
  · rw [if_pos h]
    exact Int.natCast_eq_zero
  · rw [if_neg h]
    omega

theorem sub_eq_zero_iff {d : UInt8} : c - d = 0 ↔ c = d := by
  rw [← UInt8.toNat_inj, ← UInt8.toNat_inj, UInt8.toNat_sub]
  have hc := c.toNat_lt
  have hd := d.toNat_lt
  show _ = 0 ↔ _
  omega

/-- Both `strcmp` and `strncmp` go on as long as the characters are the same. -/
theorem strcmpLoop_eq : ∀ {s t : List UInt8} {n a b : ℕ}, Str 0 m a s → Str 0 m b t → s.length < n ∨ t.length < n →
    strcmpLoop m n a b = .ok (charDiff s t)
  | _, _, 0, _, _, _, _, hn => absurd hn (by omega)
  | [], [], n + 1, a, b, hs, ht, _ => by
    rw [strcmpLoop, str_nil.mp hs, str_nil.mp ht]
    rfl
  | [], d :: t, n + 1, a, b, hs, ht, _ => by
    rw [strcmpLoop, str_nil.mp hs, ht.text.1, if_pos (Or.inr rfl)]
    rfl
  | c :: s, [], n + 1, a, b, hs, ht, _ => by
    have hne : signedChar (c - 0) ≠ 0 := by
      rw [Ne, signedChar_eq_zero, sub_eq_zero_iff]
      exact (str_cons.mp hs).2.1
    rw [strcmpLoop, hs.text.1, str_nil.mp ht, if_pos (Or.inl hne)]
    rfl
  | c :: s, d :: t, n + 1, a, b, hs, ht, hn => by
    obtain ⟨hc, hne, hs⟩ := str_cons.mp hs
    obtain ⟨hd, -, ht⟩ := str_cons.mp ht
    rw [strcmpLoop, hc, hd, charDiff]
    have hiff : signedChar (c - d) ≠ 0 ∨ c = 0 ↔ ¬ c = d := by
      rw [Ne, signedChar_eq_zero, sub_eq_zero_iff]
      exact or_iff_left hne
    by_cases h : c = d
    · rw [if_neg (mt hiff.mp (not_not.mpr h)), if_pos h]
      exact strcmpLoop_eq hs ht (by rw [List.length_cons, List.length_cons] at hn; omega)
    · rw [if_pos (hiff.mpr h), if_neg h]

theorem strcmp_eq (hs : CStr m a s) (ht : CStr m b t) : strcmp m a b = .ok (charDiff s t) := by
  have hsb := hs.bound
  have htb := ht.bound
  unfold strcmp
  exact strcmpLoop_eq hs.toStr ht.toStr (by omega)

theorem strncmp_eq : ∀ (count : ℕ) {s t : List UInt8} {a b : ℕ}, Str 0 m a s → Str 0 m b t →
    strncmp m a b count = charDiff (s.take count) (t.take count)
  | 0, _, _, _, _, _, _ => rfl
  | count + 1, [], [], a, b, hs, ht => by
    rw [strncmp, str_nil.mp hs, str_nil.mp ht]
    rfl
  | count + 1, [], d :: t, a, b, hs, ht => by
    rw [strncmp, str_nil.mp hs, ht.text.1, if_pos (Or.inr rfl)]
    rfl
  | count + 1, c :: s, [], a, b, hs, ht => by
    have hne : signedChar (c - 0) ≠ 0 := by
      rw [Ne, signedChar_eq_zero, sub_eq_zero_iff]
      exact (str_cons.mp hs).2.1
    rw [strncmp, hs.text.1, str_nil.mp ht, if_pos (Or.inl hne)]
    rfl
  | count + 1, c :: s, d :: t, a, b, hs, ht => by
    obtain ⟨hc, hne, hs⟩ := str_cons.mp hs
    obtain ⟨hd, -, ht⟩ := str_cons.mp ht
    rw [strncmp, hc, hd, List.take_succ_cons, List.take_succ_cons, charDiff]
    have hiff : signedChar (c - d) ≠ 0 ∨ c = 0 ↔ ¬ c = d := by
      rw [Ne, signedChar_eq_zero, sub_eq_zero_iff]
      exact or_iff_left hne
    by_cases h : c = d
    · rw [if_neg (mt hiff.mp (not_not.mpr h)), if_pos h]
      exact strncmp_eq count hs ht
    · rw [if_pos (hiff.mpr h), if_neg h]

theorem charDiff_eq_zero : ∀ {s t : List UInt8}, (∀ c ∈ s, c ≠ 0) → (∀ c ∈ t, c ≠ 0) → (charDiff s t = 0 ↔ s = t)
  | [], [], _, _ => iff_of_true rfl rfl
  | [], d :: t, _, ht => by
    have hd := ht d List.mem_cons_self
    rw [charDiff, signedChar_eq_zero, sub_eq_zero_iff]
    exact iff_of_false (Ne.symm hd) (List.cons_ne_nil d t).symm
  | c :: s, [], hs, _ => by
    have hc := hs c List.mem_cons_self
    rw [charDiff, signedChar_eq_zero, sub_eq_zero_iff]
    exact iff_of_false hc (List.cons_ne_nil c s)
  | c :: s, d :: t, hs, ht => by
    rw [charDiff, List.cons.injEq]
    by_cases h : c = d
    · rw [if_pos h, charDiff_eq_zero (fun x hx => hs x (List.mem_cons_of_mem c hx))
        fun x hx => ht x (List.mem_cons_of_mem d hx)]
      exact (and_iff_right h).symm
    · rw [if_neg h, signedChar_eq_zero, sub_eq_zero_iff]
      exact iff_of_false h fun he => h he.1

/-- The sign of a difference that is kept in a `signed char`. -/
theorem signedChar_sub_neg {d : UInt8} (hne : c ≠ d) :
    (signedChar (c - d) < 0 ↔ c < d) ↔ c.toNat < d.toNat + 128 ∧ d.toNat ≤ c.toNat + 128 := by
  have hc := c.toNat_lt
  have hd := d.toNat_lt
  have hnat : c.toNat ≠ d.toNat := fun h => hne (UInt8.toNat_inj.mp h)
  have hneg : signedChar (c - d) < 0 ↔ 128 ≤ (c - d).toNat := by
    have hlt := (c - d).toNat_lt
    unfold signedChar
    by_cases h : (c - d).toNat < 128
    · rw [if_pos h]
      omega
    · rw [if_neg h]
      omega
  rw [hneg, UInt8.toNat_sub, UInt8.lt_iff_toNat_lt]
  omega

/-- Where two strings differ first. -/
theorem charDiff_neg : ∀ {i : ℕ} {s t : List UInt8}, s.take i = t.take i → s.getD i 0 ≠ t.getD i 0 →
    (∀ c ∈ s, c ≠ 0) → (∀ c ∈ t, c ≠ 0) →
    ((charDiff s t < 0 ↔ s < t) ↔
      (s.getD i 0).toNat < (t.getD i 0).toNat + 128 ∧ (t.getD i 0).toNat ≤ (s.getD i 0).toNat + 128)
  | _, [], [], _, hne, _, _ => absurd rfl hne
  | i + 1, [], d :: t, htake, _, _, _ => by
    rw [List.take_nil, List.take_succ_cons] at htake
    exact absurd htake.symm (List.cons_ne_nil d _)
  | i + 1, c :: s, [], htake, _, _, _ => by
    rw [List.take_nil, List.take_succ_cons] at htake
    exact absurd htake (List.cons_ne_nil c _)
  | 0, [], d :: t, _, hne, _, ht => by
    have hlt : (([] : List UInt8) < d :: t) ↔ (0 : UInt8) < d := by
      have hd := ht d List.mem_cons_self
      refine iff_of_true (List.nil_lt_cons d t) ?_
      rw [UInt8.lt_iff_toNat_lt]
      exact Nat.pos_of_ne_zero fun h0 => hd (UInt8.toNat_inj.mp h0)
    rw [hlt, charDiff]
    exact signedChar_sub_neg hne
  | 0, c :: s, [], _, hne, _, _ => by
    have hlt : (c :: s < ([] : List UInt8)) ↔ c < (0 : UInt8) := by
      refine iff_of_false (List.not_lt_nil (c :: s)) ?_
      rw [UInt8.lt_iff_toNat_lt]
      exact Nat.not_lt_zero _
    rw [hlt, charDiff]
    exact signedChar_sub_neg hne
  | 0, c :: s, d :: t, _, hne, _, _ => by
    have hcd : c ≠ d := hne
    have hlt : (c :: s < d :: t) ↔ c < d := by
      rw [List.cons_lt_cons_iff]
      exact or_iff_left fun he => hcd he.1
    rw [hlt, charDiff, if_neg hcd]
    exact signedChar_sub_neg hcd
  | i + 1, c :: s, d :: t, htake, hne, hs, ht => by
    rw [List.take_succ_cons, List.take_succ_cons] at htake
    obtain ⟨rfl, htail⟩ := List.cons.inj htake
    have hlt : (c :: s < c :: t) ↔ s < t := List.cons_lt_cons_self
    rw [hlt, charDiff, if_pos rfl]
    exact charDiff_neg htail hne (fun x hx => hs x (List.mem_cons_of_mem c hx)) fun x hx =>
      ht x (List.mem_cons_of_mem c hx)

/-- Strings that are not the same differ somewhere first. -/
theorem exists_first_difference : ∀ {s t : List UInt8}, (∀ c ∈ s, c ≠ 0) → (∀ c ∈ t, c ≠ 0) → s ≠ t →
    ∃ i, s.take i = t.take i ∧ s.getD i 0 ≠ t.getD i 0
  | [], [], _, _, hne => absurd rfl hne
  | [], d :: t, _, ht, _ => ⟨0, rfl, (ht d List.mem_cons_self).symm⟩
  | c :: s, [], hs, _, _ => ⟨0, rfl, hs c List.mem_cons_self⟩
  | c :: s, d :: t, hs, ht, hne => by
    by_cases h : c = d
    · have hst : s ≠ t := fun he => hne (by rw [h, he])
      obtain ⟨i, htake, hget⟩ := exists_first_difference (fun x hx => hs x (List.mem_cons_of_mem c hx))
        (fun x hx => ht x (List.mem_cons_of_mem d hx)) hst
      exact ⟨i + 1, by rw [List.take_succ_cons, List.take_succ_cons, h, htake], hget⟩
    · exact ⟨0, rfl, h⟩

/-- **`strcmp` tells strings apart**, and orders them as long as the first characters
that differ are not further apart than a `signed char` can tell; strings of 7-bit
characters are always in their order. -/
theorem strcmp_orders (hs : CStr m a s) (ht : CStr m b t) : ∃ r, strcmp m a b = .ok r ∧ (r = 0 ↔ s = t) ∧
    (∀ i, s.take i = t.take i → s.getD i 0 ≠ t.getD i 0 → ((r < 0 ↔ s < t) ↔
      (s.getD i 0).toNat < (t.getD i 0).toNat + 128 ∧ (t.getD i 0).toNat ≤ (s.getD i 0).toNat + 128)) ∧
    ((∀ c ∈ s ++ t, c.toNat < 128) → (r < 0 ↔ s < t)) := by
  refine ⟨charDiff s t, strcmp_eq hs ht, charDiff_eq_zero hs.inner ht.inner, fun i htake hne =>
    charDiff_neg htake hne hs.inner ht.inner, fun h7 => ?_⟩
  by_cases he : s = t
  · rw [(charDiff_eq_zero hs.inner ht.inner).mpr he, he]
    exact iff_of_false (lt_irrefl 0) (List.lt_irrefl t)
  · obtain ⟨i, htake, hne⟩ := exists_first_difference hs.inner ht.inner he
    have hsmall : ∀ {l : List UInt8}, (∀ c ∈ l, c.toNat < 128) → (l.getD i 0).toNat < 128 := by
      intro l hl
      by_cases hi : i < l.length
      · rw [List.getD_eq_getElem l 0 hi]
        exact hl _ (List.getElem_mem hi)
      · rw [List.getD_eq_default l 0 (not_lt.mp hi)]
        decide
    have hsi := hsmall fun c hc => h7 c (List.mem_append_left t hc)
    have hti := hsmall fun c hc => h7 c (List.mem_append_right s hc)
    exact (charDiff_neg htake hne hs.inner ht.inner).mpr ⟨by omega, by omega⟩

theorem strcmp_orders_ab : ∃ r, strcmp abMemory 16 21 = .ok r ∧ r < 0 := by
  obtain ⟨r, hr, -, -, hlt⟩ := strcmp_orders abMemory_strings.1 abMemory_strings.2
  exact ⟨r, hr, (hlt (by simp)).mpr (by decide)⟩

/-! ### A string in a string -/

/-- `memcmp` finds the second string in front. -/
theorem memcmp_front (hs : Text m a s) (ht : Text m b t) (hle : t.length ≤ s.length) :
    memcmp m a b t.length = 0 ↔ t <+: s := by
  have hget : ∀ i (hi : i < t.length), m (a + i) = m (b + i) ↔ s.get ⟨i, hi.trans_le hle⟩ = t[i] := by
    intro i hi
    rw [hs.get (hi.trans_le hle), ht.get hi]
    rfl
  rw [List.prefix_iff_eq_take]
  rcases @memcmp_eq m a b t.length with ⟨h0, hall⟩ | ⟨i, hi, -, hne, hres⟩
  · refine iff_of_true h0 ?_
    apply List.ext_getElem
    · rw [List.length_take_of_le hle]
    · intro i hi _
      rw [List.getElem_take]
      exact ((hget i hi).mp (hall i hi)).symm
  · have hnot : ¬ memcmp m a b t.length = 0 := by
      rw [hres]
      intro h0
      exact hne (UInt8.toNat_inj.mp (by omega))
    refine iff_of_false hnot fun he => hne ((hget i hi).mpr ?_)
    have hlt : i < (s.take t.length).length := by rwa [← he]
    have hit : t[i] = (s.take t.length)[i] := List.getElem_of_eq he hi
    rw [hit, List.getElem_take]
    rfl

/-- The loop tries the places one by one. -/
theorem strstrLoop_spec (ht : Text m b t) (hne : t ≠ []) : ∀ {s : List UInt8} {n a : ℕ}, Text m a s →
    n = s.length + 1 - t.length →
    (strstrLoop m b t.length n a = none ∧ ¬ t <:+: s) ∨
      ∃ u v, s = u ++ t ++ v ∧ strstrLoop m b t.length n a = some (a + u.length) ∧
        ∀ u' v', s = u' ++ t ++ v' → u.length ≤ u'.length
  | s, 0, a, _, hn => by
    refine Or.inl ⟨rfl, fun hin => ?_⟩
    have hle := hin.length_le
    omega
  | [], n + 1, a, _, hn => by
    have hpos := List.length_pos_iff.mpr hne
    rw [List.length_nil] at hn
    omega
  | c :: s, n + 1, a, hs, hn => by
    have hle : t.length ≤ (c :: s).length := by omega
    rw [strstrLoop]
    by_cases hpre : t <+: c :: s
    · rw [if_pos ((memcmp_front hs ht hle).mpr hpre)]
      obtain ⟨v, hv⟩ := hpre
      exact Or.inr ⟨[], v, hv.symm, rfl, fun _ _ _ => Nat.zero_le _⟩
    · rw [if_neg (mt (memcmp_front hs ht hle).mp hpre)]
      -- a place of the string is not the first one, and so it is in the rest
      have hrest : ∀ {u' v'}, c :: s = u' ++ t ++ v' → ∃ u'', u' = c :: u'' ∧ s = u'' ++ t ++ v' := by
        intro u' v' h
        cases u' with
        | nil => exact absurd ⟨v', h.symm⟩ hpre
        | cons d u'' =>
          obtain ⟨rfl, htail⟩ := List.cons.inj h
          exact ⟨u'', rfl, htail⟩
      rw [List.length_cons] at hn
      rcases strstrLoop_spec ht hne hs.2 (n := n) (by omega) with ⟨hnone, hnot⟩ | ⟨u, v, huv, hres, hfirst⟩
      · refine Or.inl ⟨hnone, fun ⟨u', v', h⟩ => ?_⟩
        obtain ⟨u'', -, htail⟩ := hrest h.symm
        exact hnot ⟨u'', v', htail.symm⟩
      · refine Or.inr ⟨c :: u, v, by rw [huv]; rfl, ?_, fun u' v' h => ?_⟩
        · rw [hres, List.length_cons]
          congr 1
          omega
        · obtain ⟨u'', rfl, htail⟩ := hrest h
          rw [List.length_cons, List.length_cons]
          exact Nat.succ_le_succ (hfirst u'' v' htail)

/-- **`strstr` finds the first place of the string**, or that there is none. -/
theorem strstr_first (hs : CStr m a s) (ht : CStr m b t) (hsl : s.length < 2 ^ 31) (htl : t.length < 2 ^ 31) :
    (strstr m a b = .ok none ∧ ¬ t <:+: s) ∨
      ∃ u v, s = u ++ t ++ v ∧ strstr m a b = .ok (some (a + u.length)) ∧
        ∀ u' v', s = u' ++ t ++ v' → u.length ≤ u'.length := by
  have hcall : strstr m a b =
      if t.length = 0 then .ok (some a) else .ok (strstrLoop m b t.length (s.length + 1 - t.length) a) := by
    have hrounds : (asInt s.length + 1 - asInt t.length).toNat = s.length + 1 - t.length := by
      rw [asInt_of_lt hsl, asInt_of_lt htl]
      omega
    unfold strstr
    rw [strlen_eq ht]
    show (if t.length = 0 then _ else _) = _
    by_cases h0 : t.length = 0
    · rw [if_pos h0, if_pos h0]
      rfl
    · rw [if_neg h0, if_neg h0, strlen_eq hs, ← hrounds]
      rfl
  rw [hcall]
  by_cases h0 : t.length = 0
  · rw [if_pos h0, List.length_eq_zero_iff.mp h0]
    exact Or.inr ⟨[], s, rfl, rfl, fun _ _ _ => Nat.zero_le _⟩
  · rw [if_neg h0]
    have hne : t ≠ [] := fun h => h0 (by rw [h]; rfl)
    rcases strstrLoop_spec ht.text hne hs.text rfl with ⟨hnone, hnot⟩ | ⟨u, v, huv, hres, hfirst⟩
    · rw [hnone]
      exact Or.inl ⟨rfl, hnot⟩
    · rw [hres]
      exact Or.inr ⟨u, v, huv, rfl, hfirst⟩

theorem strstr_first_ab : strstr abMemory 16 21 = .ok none := by
  rcases strstr_first abMemory_strings.1 abMemory_strings.2 (by norm_num) (by norm_num)
    with ⟨hnone, -⟩ | ⟨u, v, huv, -, -⟩
  · exact hnone
  · exact absurd ⟨u, v, huv.symm⟩ (by decide : ¬ [98, 99] <:+: ([97, 98] : List UInt8))

end Spec

end Rosx
