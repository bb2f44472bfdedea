/-
# Round robin with weights

A queue is served one unit at a time. The head takes its turn: it gets as many
units in a row as its weight, then it goes to the end of the queue and the next
one has its turn. `Turns` is the queue with the units the head still has to get.

The units ahead are the cyclic list `plan`: serving one unit takes its head and
puts it at the end (`plan_serve`). So the `i`-th unit from the start of a turn
goes to the `i`-th of the list in which each member of the queue stands as many
times as its weight (`getElem?_served`).

Key definitions: `Turns.serve`, `Turns.plan`, `Turns.served`.
-/
import Mathlib.Data.List.Rotate

variable {α : Type*}

/-- A queue, and what is left of the turn of its head. -/
structure Turns (α : Type*) where
  queue : List α
  left : ℕ

namespace Turns

/-- The members of `q`, each as many times as it weighs. -/
def cycle (w : α → ℕ) (q : List α) : List α := q.flatMap fun t => List.replicate (w t) t

variable (w : α → ℕ)

/-- One unit of service. -/
def serve (x : Turns α) : Turns α :=
  match x.queue with
  | [] => x
  | t :: l => if x.left = 1 then ⟨l ++ [t], w (l.headD t)⟩ else ⟨t :: l, x.left - 1⟩

/-- Who gets the next units: the rest of the turn, the turns of the others,
what the head has had of its turn. -/
def plan (x : Turns α) : List α :=
  match x.queue with
  | [] => []
  | t :: l => List.replicate x.left t ++ cycle w l ++ List.replicate (w t - x.left) t

/-- Who gets the first `m` units. -/
def served : ℕ → Turns α → List α
  | 0, _ => []
  | m + 1, x => x.queue.head?.toList ++ served m (x.serve w)

/-- Somebody is served, and every turn has a unit at least. -/
structure Valid (x : Turns α) : Prop where
  queue : x.queue ≠ []
  weight : ∀ t ∈ x.queue, 1 ≤ w t
  pos : 1 ≤ x.left
  le : ∀ t, x.queue.head? = some t → x.left ≤ w t

variable {w} {x : Turns α}

/-- The last unit of a turn. -/
theorem serve_last {t : α} {l : List α} (hq : x.queue = t :: l) (h1 : x.left = 1) :
    x.serve w = ⟨l ++ [t], w (l.headD t)⟩ := by
  simp only [serve, hq, if_pos h1]

/-- Any other unit. -/
theorem serve_next {t : α} {l : List α} (hq : x.queue = t :: l) (h1 : x.left ≠ 1) :
    x.serve w = ⟨t :: l, x.left - 1⟩ := by
  simp only [serve, hq, if_neg h1]

theorem Valid.exists_head (h : Valid w x) : ∃ t l, x.queue = t :: l :=
  List.exists_cons_of_ne_nil h.queue

theorem head?_append_singleton (l : List α) (t : α) : (l ++ [t]).head? = some (l.headD t) := by
  cases l <;> rfl

/-- The turn of the head ends. -/
theorem Valid.next_turn {t : α} {l : List α} (h : Valid w x) (hq : x.queue = t :: l) :
    Valid w ⟨l ++ [t], w (l.headD t)⟩ := by
  have hhead := head?_append_singleton l t
  have hmem : ∀ u ∈ l ++ [t], 1 ≤ w u := by
    intro u hu
    apply h.weight u
    rw [hq]
    simpa [or_comm] using hu
  refine ⟨by simp, hmem, hmem _ (List.mem_of_head? hhead), fun u hu => ?_⟩
  obtain rfl := Option.some.inj (hhead.symm.trans hu)
  exact Nat.le_refl _

theorem Valid.serve (h : Valid w x) : Valid w (x.serve w) := by
  obtain ⟨t, l, hq⟩ := h.exists_head
  have hpos := h.pos
  have hle := h.le t (by rw [hq]; rfl)
  by_cases h1 : x.left = 1
  · rw [serve_last hq h1]
    exact h.next_turn hq
  · rw [serve_next hq h1]
    refine ⟨by simp, hq ▸ h.weight, by show 1 ≤ x.left - 1; omega, fun u hu => ?_⟩
    obtain rfl : t = u := Option.some.inj hu
    show x.left - 1 ≤ w t
    omega

/-- One unit of service: the plan goes round by one. -/
theorem plan_serve (h : Valid w x) : (x.serve w).plan w = (x.plan w).rotate 1 := by
  obtain ⟨t, l, hq⟩ := h.exists_head
  have hpos := h.pos
  have hle := h.le t (by rw [hq]; rfl)
  obtain ⟨c, hc⟩ : ∃ c, x.left = c + 1 := ⟨x.left - 1, by omega⟩
  have hback : List.replicate (w t - c) t = List.replicate (w t - (c + 1)) t ++ [t] := by
    rw [show w t - c = w t - (c + 1) + 1 by omega, List.replicate_succ']
  by_cases h1 : x.left = 1
  · -- the turn ends: the others come first now, and the whole turn of `t` last
    obtain rfl : c = 0 := by omega
    rw [Nat.sub_zero] at hback
    rw [serve_last hq h1]
    simp only [plan, hq, h1]
    cases l with
    | nil => simp [cycle, hback]
    | cons b l => simp [cycle, hback]
  · rw [serve_next hq h1]
    simp [plan, hq, hc, List.replicate_succ, hback]

theorem plan_head (h : Valid w x) : (x.plan w).head? = x.queue.head? := by
  obtain ⟨t, l, hq⟩ := h.exists_head
  obtain ⟨c, hc⟩ : ∃ c, x.left = c + 1 := ⟨x.left - 1, by have := h.pos; omega⟩
  simp [plan, hq, hc, List.replicate_succ]

theorem Valid.plan_length (h : Valid w x) : 0 < (x.plan w).length := by
  apply List.length_pos_of_ne_nil
  intro hnil
  have hhead := plan_head h
  rw [hnil] at hhead
  exact h.queue (List.head?_eq_none_iff.mp hhead.symm)

/-- **Who is served.** The `i`-th unit goes to the `i`-th of the plan, which is
gone through again and again. -/
theorem getElem?_served {m i : ℕ} (h : Valid w x) (hi : i < m) :
    (served w m x)[i]? = (x.plan w)[i % (x.plan w).length]? := by
  induction m generalizing x i with
  | zero => omega
  | succ m ih =>
    obtain ⟨t, l, hq⟩ := h.exists_head
    have hlen := h.plan_length
    simp only [served, hq, List.head?_cons, Option.toList_some, List.singleton_append]
    cases i with
    | zero =>
      rw [Nat.zero_mod, List.getElem?_cons_zero, ← List.head?_eq_getElem?, plan_head h, hq]
      rfl
    | succ i =>
      rw [List.getElem?_cons_succ, ih h.serve (by omega), plan_serve h, List.length_rotate,
        List.getElem?_rotate (Nat.mod_lt _ hlen), Nat.mod_add_mod]

/-- At the start of a turn. -/
theorem plan_start {t : α} {l : List α} : plan w ⟨t :: l, w t⟩ = cycle w (t :: l) := by
  simp [plan, cycle]

end Turns
