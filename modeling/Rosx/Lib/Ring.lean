/-
# Circular buffers with two cursors

`c` slots, a cursor `h` where the next item goes and a cursor `t` at the
oldest item, both below `c`. Where the cursors meet the buffer is full or
empty, which a flag tells apart; where they differ the flag means nothing.
`len` is the number of items, `contents` the items, oldest first.

An item is added by moving `h` and raising the flag if `h` then meets `t`; one
is taken by moving `t` and lowering the flag if `t` then meets `h`. `len_push`
and `len_pop` say that this counts the items as long as there is room, or an
item; `len_push_full` says what happens to a full buffer: all items but the new
one are gone. One slot is enough.
-/
import Mathlib.Data.List.Basic

namespace Ring

variable {α : Type*}

/-- The cursor after `i`. -/
def succ (c i : ℕ) : ℕ := if i + 1 < c then i + 1 else 0

/-- The slot `i` places after `t`. -/
def slotAt (c t i : ℕ) : ℕ := if t + i < c then t + i else t + i - c

/-- The number of items. -/
def len (c h t : ℕ) (full : Bool) : ℕ :=
  if h = t then if full then c else 0
  else if t < h then h - t else h + c - t

/-- The items, oldest first. -/
def contents (c : ℕ) (slot : ℕ → α) (t : ℕ) (l : ℕ) : List α := (List.range l).map fun i => slot (slotAt c t i)

@[simp] theorem length_contents (c : ℕ) (slot : ℕ → α) (t l : ℕ) : (contents c slot t l).length = l := by
  simp [contents]

theorem succ_lt {c : ℕ} (i : ℕ) (hc : 0 < c) : succ c i < c := by
  unfold succ
  split_ifs <;> omega

section Cursors

variable {c h t l : ℕ} {full : Bool}

theorem len_le (hh : h < c) (ht : t < c) : len c h t full ≤ c := by
  unfold len
  split_ifs <;> omega

/-- The next item goes behind the last one. -/
theorem slotAt_len (hh : h < c) (ht : t < c) : slotAt c t (len c h t full) = h := by
  unfold slotAt len
  split_ifs <;> omega

theorem len_eq_zero (ht : t < c) : len c h t full = 0 ↔ h = t ∧ full = false := by
  unfold len
  cases full <;> simp <;> split_ifs <;> omega

theorem len_eq_full (hh : h < c) (ht : t < c) : len c h t full = c ↔ h = t ∧ full = true := by
  unfold len
  cases full <;> simp <;> split_ifs <;> omega

/-- One more item. -/
theorem len_push (hh : h < c) (ht : t < c) (hl : len c h t full < c) :
    len c (succ c h) t (full || decide (succ c h = t)) = len c h t full + 1 := by
  unfold len at hl ⊢
  unfold succ
  cases full <;> simp at hl ⊢ <;> split_ifs at hl ⊢ <;> omega

/-- Of a full buffer only the new item is left. -/
theorem len_push_full (hh : h < c) (hl : len c h t full = c) (ht : t < c) :
    len c (succ c h) t (full || decide (succ c h = t)) = 1 := by
  obtain ⟨rfl, rfl⟩ := (len_eq_full hh ht).mp hl
  unfold len succ
  simp only [Bool.true_or, if_true]
  split_ifs <;> omega

/-- One item less. -/
theorem len_pop (hh : h < c) (ht : t < c) (hl : 0 < len c h t full) :
    len c h (succ c t) (full && !decide (h = succ c t)) + 1 = len c h t full := by
  unfold len at hl ⊢
  unfold succ
  cases full <;> simp at hl ⊢ <;> split_ifs at hl ⊢ <;> omega

theorem slotAt_ne {i j : ℕ} (hi : i < c) (hj : j < c) (hij : i ≠ j) : slotAt c t i ≠ slotAt c t j := by
  unfold slotAt
  split_ifs <;> omega

theorem slotAt_lt (ht : t < c) {i : ℕ} (hi : i < c) : slotAt c t i < c := by
  unfold slotAt
  split_ifs <;> omega

theorem slotAt_succ (ht : t < c) {i : ℕ} (hi : i + 1 ≤ c) : slotAt c (succ c t) i = slotAt c t (i + 1) := by
  unfold slotAt succ
  split_ifs <;> omega

end Cursors

/-- A new item behind the others. -/
theorem contents_push {c t l : ℕ} (slot slot' : ℕ → α) (ht : t < c) (hl : l < c)
    (hs : ∀ j < c, j ≠ slotAt c t l → slot' j = slot j) :
    contents c slot' t (l + 1) = contents c slot t l ++ [slot' (slotAt c t l)] := by
  unfold contents
  rw [List.range_succ, List.map_append]
  congr 1
  apply List.map_congr_left
  intro i hi
  have hi' : i < l := List.mem_range.mp hi
  exact hs _ (slotAt_lt ht (by omega)) (slotAt_ne (by omega) hl (by omega))

/-- The oldest item goes. -/
theorem contents_pop {c t l : ℕ} (slot : ℕ → α) (ht : t < c) (hl : l < c) :
    contents c slot t (l + 1) = slot t :: contents c slot (succ c t) l := by
  unfold contents
  rw [List.range_succ_eq_map, List.map_cons, List.map_map]
  congr 1
  · simp [slotAt, ht]
  · apply List.map_congr_left
    intro i hi
    have hi' : i < l := List.mem_range.mp hi
    rw [slotAt_succ ht (by omega)]
    rfl

end Ring
