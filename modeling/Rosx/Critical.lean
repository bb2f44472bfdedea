/-
# Critical sections do not nest

`rx_enter_critical` does nothing inside a critical section, and
`rx_exit_critical` restores the saved signal mask whenever `__critical` is
set: the port keeps a flag, not a depth, and ignores the key. So a kernel
call made inside a critical section ends it: `__rx_add_to_ready_q` called
with interrupts masked returns with interrupts unmasked
(`rxAddToReadyQ_unmasks`), as it does inside `rx_mutex_unlock`.

A sequence of calls is a list of `Bracket`s. In a well-nested one interrupts
are masked exactly inside the outermost pairs if and only if no pair is
opened inside another (`masked_inside_iff_depth_le_one`).
-/
import Rosx.ReadyQueue

namespace Rosx

open Linked

/-- A call of the port. -/
inductive Bracket where
  | enter
  | exit
  deriving DecidableEq, Repr

/-- What the call does. -/
def Bracket.exec (p : Port) : Bracket → Port
  | .enter => p.disableIrqGlobal
  | .exit => p.restoreIrqGlobal

/-- The port after a sequence of calls. -/
def brackets (p : Port) (w : List Bracket) : Port := w.foldl Bracket.exec p

/-- The number of pairs open after `w`. -/
def depth : List Bracket → ℤ
  | [] => 0
  | .enter :: w => depth w + 1
  | .exit :: w => depth w - 1

/-- No exit without its enter, and every pair is closed at the end. -/
def WellNested (w : List Bracket) : Prop := (∀ u, u <+: w → 0 ≤ depth u) ∧ depth w = 0

/-- Task context, outside any critical section, interrupts unmasked. -/
def Port.Open (p : Port) : Prop := p.context = false ∧ p.critical = false ∧ p.masked = false

instance (p : Port) : Decidable p.Open := inferInstanceAs (Decidable (_ ∧ _ ∧ _))

/-- Task context, inside a critical section entered with interrupts unmasked. -/
def Port.Closed (p : Port) : Prop :=
  p.context = false ∧ p.critical = true ∧ p.masked = true ∧ p.origMask = false

theorem Port.Open.enter {p : Port} (h : p.Open) : p.disableIrqGlobal.Closed := by
  obtain ⟨h1, h2, h3⟩ := h
  simp [Port.disableIrqGlobal, Port.Closed, h1, h2, h3]

theorem Port.Open.exit {p : Port} (h : p.Open) : p.restoreIrqGlobal.Open := by
  obtain ⟨h1, h2, h3⟩ := h
  simp [Port.restoreIrqGlobal, Port.Open, h1, h2, h3]

theorem Port.Closed.enter {p : Port} (h : p.Closed) : p.disableIrqGlobal.Closed := by
  obtain ⟨h1, h2, h3, h4⟩ := h
  simp [Port.disableIrqGlobal, Port.Closed, h1, h2, h3, h4]

theorem Port.Closed.exit {p : Port} (h : p.Closed) : p.restoreIrqGlobal.Open := by
  obtain ⟨h1, h2, h3, h4⟩ := h
  simp [Port.restoreIrqGlobal, Port.Open, h1, h2, h4]

theorem brackets_append (p : Port) (u v : List Bracket) : brackets p (u ++ v) = brackets (brackets p u) v :=
  List.foldl_append

theorem depth_append : ∀ u v : List Bracket, depth (u ++ v) = depth u + depth v
  | [], v => by simp [depth]
  | .enter :: u, v => by simp only [List.cons_append, depth, depth_append u v]; omega
  | .exit :: u, v => by simp only [List.cons_append, depth, depth_append u v]; omega

theorem brackets_open_or_closed {p : Port} (hp : p.Open) (w : List Bracket) :
    (brackets p w).Open ∨ (brackets p w).Closed := by
  induction w using List.reverseRecOn with
  | nil => exact Or.inl hp
  | append_singleton w b ih =>
    rw [brackets_append]
    rcases ih with ih | ih <;> cases b
    · exact Or.inr ih.enter
    · exact Or.inl ih.exit
    · exact Or.inr ih.enter
    · exact Or.inl ih.exit

/-- Interrupts are masked after an enter, whatever came before. -/
theorem masked_enter {p : Port} (hp : p.Open) (w : List Bracket) :
    (brackets p (w ++ [.enter])).masked = true := by
  rw [brackets_append]
  rcases brackets_open_or_closed hp w with h | h
  · exact h.enter.2.2.1
  · exact h.enter.2.2.1

/-- Interrupts are unmasked after an exit, however many pairs are open. -/
theorem unmasked_exit {p : Port} (hp : p.Open) (w : List Bracket) :
    (brackets p (w ++ [.exit])).masked = false := by
  rw [brackets_append]
  rcases brackets_open_or_closed hp w with h | h
  · exact h.exit.2.2
  · exact h.exit.2.2

/-- From depth 2 on, the next exit is inside an outermost pair. -/
theorem exists_inner_exit : ∀ (v u : List Bracket), 2 ≤ depth u → depth (u ++ v) = 0 →
    ∃ x, x ++ [.exit] <+: u ++ v ∧ 0 < depth (x ++ [.exit])
  | [], u, hu, h0 => by simp at h0; omega
  | .exit :: v, u, hu, _ => by
    refine ⟨u, ⟨v, by simp⟩, ?_⟩
    rw [depth_append]
    simp only [depth]
    omega
  | .enter :: v, u, hu, h0 => by
    have hd : depth (u ++ [.enter]) = depth u + 1 := by rw [depth_append]; simp [depth]
    obtain ⟨x, hx, hpos⟩ := exists_inner_exit v (u ++ [.enter]) (by omega) (by simpa using h0)
    exact ⟨x, by simpa using hx, hpos⟩

/-- **Masking and nesting.** In a well-nested sequence of critical sections
interrupts are masked at every point inside an outermost pair, and only
there, if and only if no pair is opened inside another. -/
theorem masked_inside_iff_depth_le_one {p : Port} (hp : p.Open) {w : List Bracket} (hw : WellNested w) :
    (∀ u, u <+: w → ((brackets p u).masked = true ↔ 0 < depth u)) ↔ ∀ u, u <+: w → depth u ≤ 1 := by
  constructor
  · rintro h u ⟨v, rfl⟩
    by_contra hu
    obtain ⟨x, hx, hpos⟩ := exists_inner_exit v u (by omega) hw.2
    have := (h _ hx).mpr hpos
    rw [unmasked_exit hp] at this
    cases this
  · intro h u hu
    rcases List.eq_nil_or_concat u with rfl | ⟨v, b, rfl⟩
    · simp [brackets, depth, hp.2.2]
    · rw [List.concat_eq_append] at *
      have hv : v <+: w := (List.prefix_append v [b]).trans hu
      have h0 := hw.1 v hv
      have h1 := h v hv
      cases b with
      | enter =>
        have hd : depth (v ++ [.enter]) = depth v + 1 := by rw [depth_append]; simp [depth]
        rw [masked_enter hp, hd]
        exact ⟨fun _ => by omega, fun _ => rfl⟩
      | exit =>
        have hd : depth (v ++ [.exit]) = depth v - 1 := by rw [depth_append]; simp [depth]; omega
        rw [unmasked_exit hp, hd]
        exact ⟨fun hm => Bool.noConfusion hm, fun hd => by omega⟩

/-- Two sections one after the other. -/
def flatSections : List Bracket := [.enter, .exit, .enter, .exit]

theorem masked_inside_flatSections : WellNested flatSections ∧
    ∀ u, u <+: flatSections → ((brackets {} u).masked = true ↔ 0 < depth u) := by
  have hall : ∀ u ∈ flatSections.inits, 0 ≤ depth u ∧ depth u ≤ 1 := by decide
  have hw : WellNested flatSections := ⟨fun u hu => (hall u ((List.mem_inits _ _).mpr hu)).1, rfl⟩
  exact ⟨hw, (masked_inside_iff_depth_le_one ⟨rfl, rfl, rfl⟩ hw).mpr fun u hu =>
    (hall u ((List.mem_inits _ _).mpr hu)).2⟩

/-- The critical sections of `rx_mutex_unlock` by an owner that inherited a
priority: its own, and inside it those of `__rx_remove_from_ready_q` and
`__rx_add_to_ready_q`. -/
def unlockSections : List Bracket := [.enter, .enter, .exit, .enter, .exit, .exit]

/-- Between the two inner calls interrupts are unmasked. -/
theorem unmasked_inside_unlockSections : Port.Open {} ∧ WellNested unlockSections ∧
    ¬ ∀ u, u <+: unlockSections → ((brackets {} u).masked = true ↔ 0 < depth u) := by
  have hall : ∀ u ∈ unlockSections.inits, 0 ≤ depth u := by decide
  refine ⟨⟨rfl, rfl, rfl⟩, ⟨fun u hu => hall u ((List.mem_inits _ _).mpr hu), rfl⟩, fun h => ?_⟩
  exact absurd (h [.enter, .enter, .exit] ⟨[.enter, .exit, .exit], rfl⟩) (by decide)

/-! ### The kernel's own nested calls -/

/-- A call of `__rx_add_to_ready_q` inside a critical section ends it. -/
theorem rxAddToReadyQ_unmasks {n : ℕ} {k k' : Kernel n} {new : Fin n} {l : List (Fin n)}
    (hl : Chain k.next k.readyHead l) (hn : new ∉ l) (hs : (k.tcb new).state.runnable = true)
    (hc : k.port.Closed) (hk : rxAddToReadyQ k new = .ok (.osOk, k')) : k'.port.Open := by
  obtain ⟨k1, he, hport, _⟩ := rxAddToReadyQ_spec hl hn hs
  obtain ⟨-, rfl⟩ := Prod.mk.inj (Except.ok.inj (he.symm.trans hk))
  rw [hport]
  exact hc.enter.exit

/-- So does one of `__rx_remove_from_ready_q`. -/
theorem rxRemoveFromReadyQ_unmasks {n : ℕ} {k k' : Kernel n} {rmv : Fin n} {l : List (Fin n)}
    (hl : Chain k.next k.readyHead l) (hc : k.port.Closed) (hk : rxRemoveFromReadyQ k rmv = .ok k') :
    k'.port.Open := by
  by_cases hm : rmv ∈ l
  · obtain ⟨k1, he, hport, _⟩ := rxRemoveFromReadyQ_mem hl hm
    obtain rfl := Except.ok.inj (he.symm.trans hk)
    rw [hport]
    exact hc.enter.exit
  · by_cases hne : l = []
    · subst hne
      rw [rxRemoveFromReadyQ_empty hl] at hk
      cases hk
    · rw [rxRemoveFromReadyQ_notMem hl hm hne] at hk
      obtain rfl := Except.ok.inj hk
      exact hc.enter.exit

end Rosx
