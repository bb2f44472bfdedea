/-
# Terminated strings in a memory

A memory gives every address its item. A string is the items from an address up to the
first one that is the terminator (`Str`): the memory determines it (`Str.unique`), what is
behind some of its items is a string as well (`Str.suffix`), and a terminator in
the middle cuts it in two (`Str.cut`).

`scan` looks for the first item that does not pass a test, and `copyUntil` copies item by
item up to a terminator. Both run on fuel, the items they may look at. A copy whose
target begins inside its source, behind the start, writes over the terminator before it is
there (`copyUntil_overlap`); all others return (`copyUntil_eq`).

Key definitions: `Terminated.Text`, `Terminated.Str`, `Terminated.scan`,
`Terminated.copyUntil`.
Key theorems: `Terminated.Str.cut`, `Terminated.scan_str`, `Terminated.copyUntil_eq`,
`Terminated.copyUntil_overlap`.
-/
import Rosx.Lib.Area
import Mathlib.Data.List.GetD
import Mathlib.Data.List.TakeWhile

namespace Terminated

variable {α : Type*} {z c : α} {m m' : ℕ → α} {a n : ℕ} {s t : List α}

/-- The items from `a` on begin with `s`. -/
def Text (m : ℕ → α) : ℕ → List α → Prop
  | _, [] => True
  | a, c :: s => m a = c ∧ Text m (a + 1) s

/-- The items at `a` are `s`, and then the terminator. -/
structure Str (z : α) (m : ℕ → α) (a : ℕ) (s : List α) : Prop where
  text : Text m a s
  stop : m (a + s.length) = z
  inner : ∀ c ∈ s, c ≠ z

theorem text_append : ∀ {a : ℕ} {s : List α}, Text m a (s ++ t) ↔ Text m a s ∧ Text m (a + s.length) t
  | _, [] => iff_of_eq (true_and _).symm
  | a, c :: s => by
    have hlen : a + (c :: s).length = a + 1 + s.length := by rw [List.length_cons]; omega
    rw [hlen, List.cons_append]
    show m a = c ∧ Text m (a + 1) (s ++ t) ↔ (m a = c ∧ Text m (a + 1) s) ∧ _
    rw [text_append, and_assoc]

theorem Text.get : ∀ {a : ℕ} {s : List α}, Text m a s → ∀ {i : ℕ} (hi : i < s.length), m (a + i) = s[i]
  | _, _ :: _, h, 0, _ => h.1
  | a, _ :: s, h, i + 1, hi => by
    have hget := h.2.get (Nat.lt_of_succ_lt_succ hi)
    rwa [Nat.add_right_comm] at hget

/-- The same items, there or in another place. -/
theorem Text.congr : ∀ {a b : ℕ} {s : List α}, Text m a s → (∀ i < s.length, m' (b + i) = m (a + i)) → Text m' b s
  | _, _, [], _, _ => trivial
  | a, b, c :: s, h, heq => by
    refine ⟨(heq 0 (Nat.succ_pos _)).trans h.1, h.2.congr fun i hi => ?_⟩
    have hsucc := heq (i + 1) (Nat.succ_lt_succ hi)
    rwa [← Nat.add_assoc, ← Nat.add_assoc, Nat.add_right_comm b, Nat.add_right_comm a] at hsucc

theorem str_nil : Str z m a [] ↔ m a = z :=
  ⟨fun h => h.stop, fun h => ⟨trivial, h, fun _ hc => absurd hc List.not_mem_nil⟩⟩

theorem str_cons : Str z m a (c :: s) ↔ m a = c ∧ c ≠ z ∧ Str z m (a + 1) s := by
  have hlen : a + (c :: s).length = a + 1 + s.length := by rw [List.length_cons]; omega
  constructor
  · intro h
    refine ⟨h.text.1, h.inner c List.mem_cons_self, h.text.2, ?_, fun d hd => h.inner d (List.mem_cons_of_mem c hd)⟩
    rw [← hlen]
    exact h.stop
  · rintro ⟨hc, hne, h⟩
    refine ⟨⟨hc, h.text⟩, by rw [hlen]; exact h.stop, fun d hd => ?_⟩
    rcases List.mem_cons.mp hd with rfl | hd
    · exact hne
    · exact h.inner d hd

namespace Str

/-- Where the terminator is known, a string is what is in front of it. -/
theorem head_eq (h : Str z m a s) : m a = s.headD z := by
  cases s with
  | nil => exact h.stop
  | cons c s => exact h.text.1

theorem get (h : Str z m a s) {i : ℕ} (hi : i ≤ s.length) : m (a + i) = s.getD i z := by
  by_cases hlt : i < s.length
  · rw [List.getD_eq_getElem s z hlt]
    exact h.text.get hlt
  · have he : i = s.length := by omega
    rw [List.getD_eq_default s z (by omega), he]
    exact h.stop

/-- In front of the terminator there is none. -/
theorem ne_stop (h : Str z m a s) {i : ℕ} (hi : i < s.length) : m (a + i) ≠ z := by
  rw [h.text.get hi]
  exact h.inner _ (List.getElem_mem hi)

/-- The memory has one string at an address. -/
theorem unique : ∀ {a : ℕ} {s t : List α}, Str z m a s → Str z m a t → s = t
  | _, [], [], _, _ => rfl
  | _, [], d :: t, hs, ht => absurd (ht.text.1.symm.trans (str_nil.mp hs)) (str_cons.mp ht).2.1
  | _, c :: s, [], hs, ht => absurd (hs.text.1.symm.trans (str_nil.mp ht)) (str_cons.mp hs).2.1
  | _, c :: s, d :: t, hs, ht => by
    obtain ⟨hc, -, hs⟩ := str_cons.mp hs
    obtain ⟨hd, -, ht⟩ := str_cons.mp ht
    rw [← hc, ← hd, hs.unique ht]

theorem congr {b : ℕ} (h : Str z m a s) (heq : ∀ i ≤ s.length, m' (b + i) = m (a + i)) : Str z m' b s :=
  ⟨h.text.congr fun i hi => heq i hi.le, (heq _ le_rfl).trans h.stop, h.inner⟩

/-- What is behind some items of a string. -/
theorem suffix (h : Str z m a (s ++ t)) : Str z m (a + s.length) t := by
  refine ⟨(text_append.mp h.text).2, ?_, fun c hc => h.inner c (List.mem_append_right s hc)⟩
  rw [Nat.add_assoc, ← List.length_append]
  exact h.stop

theorem drop (h : Str z m a s) {k : ℕ} (hk : k ≤ s.length) : Str z m (a + k) (s.drop k) := by
  have hlen : (s.take k).length = k := List.length_take_of_le hk
  rw [← List.take_append_drop k s] at h
  have hsuf := h.suffix
  rwa [hlen] at hsuf

/-- A terminator that is put into the string cuts it there. -/
theorem cut (h : Str z m a (s ++ t)) : Str z (Function.update m (a + s.length) z) a s := by
  refine ⟨(text_append.mp h.text).1.congr fun i hi => ?_, Function.update_self _ _ _, fun d hd => ?_⟩
  · exact Function.update_of_ne (by omega) _ _
  · exact h.inner d (List.mem_append_left _ hd)

/-- What is behind the cut stays. -/
theorem rest (h : Str z m a (s ++ c :: t)) : Str z (Function.update m (a + s.length) z) (a + s.length + 1) t := by
  have hsuf := (str_cons.mp h.suffix).2.2
  exact hsuf.congr fun i _ => Function.update_of_ne (by omega) _ _

/-- Text and a terminator make a string, also with other text in front. -/
theorem of_text (h : Text m a s) (ht : Str z m (a + s.length) t) (hs : ∀ c ∈ s, c ≠ z) : Str z m a (s ++ t) := by
  refine ⟨text_append.mpr ⟨h, ht.text⟩, ?_, fun c hc => ?_⟩
  · rw [List.length_append, ← Nat.add_assoc]
    exact ht.stop
  · rcases List.mem_append.mp hc with hc | hc
    · exact hs c hc
    · exact ht.inner c hc

end Str

/-! ### Looking for an item -/

/-- The first of `n` addresses from `a` on whose item does not pass `p`. -/
def scan (p : α → Bool) (m : ℕ → α) : ℕ → ℕ → Option ℕ
  | 0, _ => none
  | n + 1, a => if p (m a) then scan p m n (a + 1) else some a

theorem scan_text {p : α → Bool} : ∀ {s : List α} {n a : ℕ}, Text m a s → (∀ c ∈ s, p c = true) →
    p (m (a + s.length)) = false → s.length < n → scan p m n a = some (a + s.length)
  | [], n + 1, a, _, _, hstop, _ => by
    have hno : ¬ p (m a) = true := by
      rw [List.length_nil, Nat.add_zero] at hstop
      rw [hstop]
      exact Bool.false_ne_true
    rw [scan, if_neg hno]
    rfl
  | c :: s, n + 1, a, h, hp, hstop, hn => by
    have hlen : a + (c :: s).length = a + 1 + s.length := by rw [List.length_cons]; omega
    have hc : p (m a) = true := by
      rw [h.1]
      exact hp c List.mem_cons_self
    rw [hlen] at hstop ⊢
    rw [scan, if_pos hc]
    exact scan_text h.2 (fun d hd => hp d (List.mem_cons_of_mem c hd)) hstop (Nat.lt_of_succ_lt_succ hn)

/-- **A test that the terminator fails** ends the search inside the string. -/
theorem scan_str {p : α → Bool} (h : Str z m a s) (hz : p z = false) (hn : s.length < n) :
    scan p m n a = some (a + (s.takeWhile p).length) := by
  have hsplit := List.takeWhile_append_dropWhile (p := p) (l := s)
  have hle : (s.takeWhile p).length ≤ s.length := (List.takeWhile_prefix p).length_le
  rw [← hsplit] at h
  refine scan_text (text_append.mp h.text).1 (fun c hc => List.mem_takeWhile_imp hc) ?_ (hle.trans_lt hn)
  rw [h.suffix.head_eq]
  cases hd : s.dropWhile p with
  | nil => exact hz
  | cons c t =>
    have hne : s.dropWhile p ≠ [] := by rw [hd]; exact List.cons_ne_nil c t
    have hhead := List.head_dropWhile_not p hne
    simpa only [hd, List.head_cons, List.headD_cons] using hhead

/-! ### Copying a string -/

/-- The items from `s` on are copied from `d` on, up to a terminator. -/
def copyUntil [DecidableEq α] (z : α) : ℕ → (ℕ → α) → ℕ → ℕ → Option (ℕ → α)
  | 0, _, _, _ => none
  | n + 1, m, d, s =>
    if m s = z then some (Function.update m d z) else copyUntil z n (Function.update m d (m s)) (d + 1) (s + 1)

section Copy

variable [DecidableEq α] {d p : ℕ}

/-- **A target that is not inside the source**, behind its start, gets the string. -/
theorem copyUntil_eq : ∀ {s : List α} {n d p : ℕ} {m : ℕ → α}, Str z m p s → d ≤ p ∨ p + s.length < d → s.length < n →
    copyUntil z n m d p = some (Area.copy d p (s.length + 1) m)
  | [], n + 1, d, p, m, h, _, _ => by
    have hp : m p = z := str_nil.mp h
    rw [copyUntil, if_pos hp, List.length_nil, Nat.zero_add, Area.copy_one, hp]
  | c :: s, n + 1, d, p, m, h, hd, hn => by
    rw [List.length_cons] at hd hn
    obtain ⟨hc, hne, hs⟩ := str_cons.mp h
    have hp : ¬ m p = z := by
      rw [hc]
      exact hne
    -- the item that is written is none that is still to be read
    have hs : Str z (Function.update m d (m p)) (p + 1) s := hs.congr fun i hi => Function.update_of_ne (by omega) _ _
    rw [copyUntil, if_neg hp, copyUntil_eq hs (by omega) (by omega), ← Area.copy_one, Area.copy_front (by omega),
      List.length_cons, Nat.add_comm 1]

/-- **A target inside the source**, behind its start, never gets a terminator: each
item that is read is one of those in front of the target. -/
theorem copyUntil_overlap : ∀ {n d p : ℕ} {m : ℕ → α}, p < d → (∀ i, p ≤ i → i < d → m i ≠ z) → copyUntil z n m d p = none
  | 0, _, _, _, _, _ => rfl
  | n + 1, d, p, m, hlt, h => by
    rw [copyUntil, if_neg (h p le_rfl hlt)]
    apply copyUntil_overlap (Nat.succ_lt_succ hlt)
    intro i hpi hid
    by_cases hi : i = d
    · rw [hi, Function.update_self]
      exact h p le_rfl hlt
    · rw [Function.update_of_ne hi]
      exact h i (by omega) (by omega)

end Copy

end Terminated
