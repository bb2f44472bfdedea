/-
# Areas of a memory

A memory gives every address its item. To fill an area puts one item everywhere in
it; to copy an area puts the items of another one there, all of them as they were
before, also where the two overlap. Both can be done piece by piece: a fill from the
front, a copy from the front or from the back, if no piece writes over what a later
one has to read (`copy_front`, `copy_back`). A copy from the front to a target behind the
start of the source repeats the items in front of the target (`repeated_front`).

Key definitions: `Area.fill`, `Area.copy`, `Area.repeated`.
Key theorems: `Area.fill_front`, `Area.copy_front`, `Area.copy_back`,
`Area.repeated_front`.
-/
import Mathlib.Logic.Function.Basic
import Mathlib.Algebra.Order.Group.Nat

namespace Area

variable {α : Type*} {d s n k : ℕ} {c : α} {m : ℕ → α}

/-- The item `c` at the `n` addresses from `d` on. -/
def fill (d n : ℕ) (c : α) (m : ℕ → α) : ℕ → α := fun a => if d ≤ a ∧ a < d + n then c else m a

/-- The items of the `n` addresses from `s` on, from `d` on. -/
def copy (d s n : ℕ) (m : ℕ → α) : ℕ → α := fun a => if d ≤ a ∧ a < d + n then m (s + (a - d)) else m a

/-- The items from `s` up to `d`, over and over, at the `n` addresses from `d` on. -/
def repeated (d s n : ℕ) (m : ℕ → α) : ℕ → α := fun a =>
  if d ≤ a ∧ a < d + n then m (s + (a - d) % (d - s)) else m a

theorem fill_zero : fill d 0 c m = m := by
  funext a
  exact if_neg (by omega)

theorem fill_one : fill d 1 c m = Function.update m d c := by
  funext a
  unfold fill
  by_cases ha : a = d
  · rw [if_pos (by omega), ha, Function.update_self]
  · rw [if_neg (by omega), Function.update_of_ne ha]

/-- The first `k` addresses are filled first. -/
theorem fill_front : fill (d + k) n c (fill d k c m) = fill d (k + n) c m := by
  funext a
  unfold fill
  by_cases hall : d ≤ a ∧ a < d + (k + n)
  · rw [if_pos hall]
    by_cases hrest : d + k ≤ a ∧ a < d + k + n
    · rw [if_pos hrest]
    · rw [if_neg hrest, if_pos (by omega)]
  · rw [if_neg hall, if_neg (by omega), if_neg (by omega)]

theorem copy_zero : copy d s 0 m = m := by
  funext a
  exact if_neg (by omega)

theorem copy_self : copy d d n m = m := by
  funext a
  unfold copy
  by_cases h : d ≤ a ∧ a < d + n
  · rw [if_pos h, Nat.add_sub_cancel' h.1]
  · rw [if_neg h]

theorem copy_one : copy d s 1 m = Function.update m d (m s) := by
  funext a
  unfold copy
  by_cases ha : a = d
  · rw [if_pos (by omega), ha, Function.update_self, Nat.sub_self, Nat.add_zero]
  · rw [if_neg (by omega), Function.update_of_ne ha]

/-- The first `k` items are copied first: the target is not inside the source, behind
its start. -/
theorem copy_front (h : d ≤ s ∨ s + (k + n) ≤ d) : copy (d + k) (s + k) n (copy d s k m) = copy d s (k + n) m := by
  funext a
  unfold copy
  by_cases hrest : d + k ≤ a ∧ a < d + k + n
  · have hsrc : s + k + (a - (d + k)) = s + (a - d) := by omega
    have hkept : ¬ (d ≤ s + (a - d) ∧ s + (a - d) < d + k) := by omega
    rw [if_pos hrest, hsrc, if_neg hkept, if_pos (by omega)]
  · rw [if_neg hrest]
    by_cases hfirst : d ≤ a ∧ a < d + k
    · rw [if_pos hfirst, if_pos (by omega)]
    · rw [if_neg hfirst, if_neg (by omega)]

/-- The last `k` items are copied first: the source is not inside the target, behind
its start. -/
theorem copy_back (h : s ≤ d ∨ d + (n + k) ≤ s) : copy d s n (copy (d + n) (s + n) k m) = copy d s (n + k) m := by
  funext a
  unfold copy
  by_cases hrest : d ≤ a ∧ a < d + n
  · have hkept : ¬ (d + n ≤ s + (a - d) ∧ s + (a - d) < d + n + k) := by omega
    rw [if_pos hrest, if_neg hkept, if_pos (by omega)]
  · rw [if_neg hrest]
    by_cases hlast : d + n ≤ a ∧ a < d + n + k
    · have hsrc : s + n + (a - (d + n)) = s + (a - d) := by omega
      rw [if_pos hlast, if_pos (by omega), hsrc]
    · rw [if_neg hlast, if_neg (by omega)]

theorem repeated_zero : repeated d s 0 m = m := by
  funext a
  exact if_neg (by omega)

/-- What fits in front of the target is only copied. -/
theorem repeated_eq_copy (h : n ≤ d - s) : repeated d s n m = copy d s n m := by
  funext a
  unfold repeated copy
  by_cases ha : d ≤ a ∧ a < d + n
  · rw [if_pos ha, if_pos ha, Nat.mod_eq_of_lt (by omega)]
  · rw [if_neg ha, if_neg ha]

/-- The first `k` items are copied first. -/
theorem repeated_front (h : s < d) :
    repeated (d + k) (s + k) n (repeated d s k m) = repeated d s (k + n) m := by
  funext a
  have hgap : d + k - (s + k) = d - s := by omega
  unfold repeated
  rw [hgap]
  by_cases hrest : d + k ≤ a ∧ a < d + k + n
  · obtain ⟨i, rfl⟩ : ∃ i, a = d + k + i := ⟨a - (d + k), by omega⟩
    have hi : d + k + i - (d + k) = i := by omega
    have hki : d + k + i - d = k + i := by omega
    have hlt : i % (d - s) < d - s := Nat.mod_lt i (by omega)
    rw [if_pos hrest, hi, if_pos (by omega : d ≤ d + k + i ∧ d + k + i < d + (k + n)), hki,
      ← Nat.add_mod_mod k i]
    generalize i % (d - s) = j at *
    by_cases hin : d ≤ s + k + j ∧ s + k + j < d + k
    · -- the item read is one of the first `k`
      have hsub : s + k + j - d = k + j - (d - s) := by omega
      rw [if_pos hin, hsub, Nat.mod_eq_sub_mod (by omega : d - s ≤ k + j)]
    · rw [if_neg hin, Nat.mod_eq_of_lt (by omega : k + j < d - s), Nat.add_assoc]
  · rw [if_neg hrest]
    by_cases hfirst : d ≤ a ∧ a < d + k
    · rw [if_pos hfirst, if_pos (by omega)]
    · rw [if_neg hfirst, if_neg (by omega)]

end Area
