/-
# The time slice along whole runs

A tick is charged to the running task: its `ticks` go down by one, at zero the
task goes behind the tasks of its priority, and the next dispatch reloads the
slice. Both the end of a slice and the reload are tests for exactly zero. The
reschedule that the last tick of a slice requests runs only after the
interrupt (`TaskCall.preempt`, then `TaskCall.sched`), so another tick may come
first, and it is charged to the same task.

`SliceOK` says that no task has less than nothing or more than a slice left.
Along a run it holds in all states exactly if every tick finds the running
task with ticks left (`SliceLeft`); and then a task's slice ends with its
`timeSlice`-th charged tick at the latest (`slicesEnd_iff_sliceLeft`).

Key definitions: `SliceOK`, `SliceLeft`, `charges`, `SlicesEnd`.
-/
import Rosx.TaskRun

namespace Rosx

open Linked

variable {n : ℕ}

/-- Every created task with a time slice has between nothing and a whole slice
left. -/
def SliceOK (s : TaskSys n) : Prop :=
  ∀ t ∈ s.created, 0 < (s.k.tcb t).timeSlice →
    0 ≤ (s.k.tcb t).ticks ∧ (s.k.tcb t).ticks ≤ (s.k.tcb t).timeSlice

/-- A tick finds the running task with ticks left. -/
def SliceLeft (s : TaskSys n) : TaskCall n → Prop
  | .tick => s.k.curr ∈ s.created → 0 < (s.k.tcb s.k.curr).timeSlice → (s.k.tcb s.k.curr).ticks ≠ 0
  | _ => True

/-- The call is a tick that is charged to `t`. -/
def ChargedTo (t : Fin n) (s : TaskSys n) (c : TaskCall n) : Prop :=
  c = .tick ∧ s.k.curr = t ∧ 0 < (s.k.tcb t).timeSlice

/-- It is the last tick of the slice. -/
def EndsSlice (t : Fin n) (s : TaskSys n) (c : TaskCall n) : Prop :=
  ChargedTo t s c ∧ (s.k.tcb t).ticks = 1

instance : ∀ c : TaskCall n, Decidable (c = .tick)
  | .tick => .isTrue rfl
  | .create _ _ | .suspend _ | .resume _ | .setPrio _ _ | .abort _ | .complete _ | .sched | .preempt =>
    .isFalse nofun

instance (t : Fin n) (s : TaskSys n) (c : TaskCall n) : Decidable (ChargedTo t s c) :=
  inferInstanceAs (Decidable (_ ∧ _ ∧ _))

/-- The number of ticks of a run that are charged to `t`. -/
def charges (t : Fin n) : TaskSys n → List (TaskCall n × TaskSys n) → ℕ
  | _, [] => 0
  | s, (c, s') :: tr => (if ChargedTo t s c then 1 else 0) + charges t s' tr

/-- No part of the run in which the slice of a task does not end has
`timeSlice` ticks charged to the task. -/
def SlicesEnd (s : TaskSys n) (tr : List (TaskCall n × TaskSys n)) : Prop :=
  ∀ a b d, tr = a ++ b ++ d → ∀ t ∈ (Run.final s a).created, 0 < ((Run.final s a).k.tcb t).timeSlice →
    Run.Guarded (fun x c => ¬ EndsSlice t x c) (Run.final s a) b →
    (charges t (Run.final s a) b : ℤ) < ((Run.final s a).k.tcb t).timeSlice

/-! ### What the calls do to the ticks -/

/-- The time slice and what is left of it. -/
def Tcb.slice (c : Tcb n) : ℤ × ℤ := (c.timeSlice, c.ticks)

/-- The tasks keep their slices, and no ticks change but spent ones that are
reloaded. -/
def Reloads (k k' : Kernel n) : Prop := ∀ t,
  (k'.tcb t).timeSlice = (k.tcb t).timeSlice ∧
    ((k'.tcb t).ticks = (k.tcb t).ticks ∨ (k.tcb t).ticks = 0 ∧ (k'.tcb t).ticks = (k.tcb t).timeSlice)

section Ticks

variable {k k' k'' : Kernel n} {t : Fin n} {r : OsErr}

theorem Reloads.of_eq (h : ∀ t, (k'.tcb t).slice = (k.tcb t).slice) : Reloads k k' :=
  fun t => ⟨(Prod.mk.inj (h t)).1, Or.inl (Prod.mk.inj (h t)).2⟩

theorem Reloads.refl (k : Kernel n) : Reloads k k := .of_eq fun _ => rfl

theorem Relinked.slice (h : Relinked k k') (t : Fin n) : (k'.tcb t).slice = (k.tcb t).slice := by
  rw [h.tcb t]
  rfl

theorem Relinked.reloads (h : Relinked k k') : Reloads k k' := .of_eq h.slice

theorem reloads_setTcb (k : Kernel n) (t : Fin n) {c : Tcb n} (hc : c.slice = (k.tcb t).slice) :
    Reloads k (k.setTcb t c) :=
  .of_eq fun u => k.setTcb_keeps t u Tcb.slice hc

theorem reloads_setState (k : Kernel n) (t : Fin n) (v : TaskState) : Reloads k (k.setState t v) :=
  reloads_setTcb k t rfl

theorem reloads_setPrio (k : Kernel n) (t : Fin n) (p : ℤ) : Reloads k (k.setPrio t p) :=
  reloads_setTcb k t rfl

/-- A reload after which the ticks are those of a task without a slice, or not
zero, is the last one. -/
theorem Reloads.trans (h : Reloads k k') (h' : Reloads k' k'') : Reloads k k'' := by
  intro t
  obtain ⟨hs, ht⟩ := h t
  obtain ⟨hs', ht'⟩ := h' t
  refine ⟨hs'.trans hs, ?_⟩
  rcases ht with ht | ⟨h0, ht⟩ <;> rcases ht' with ht' | ⟨h0', ht'⟩
  · exact Or.inl (ht'.trans ht)
  · exact Or.inr ⟨by omega, by omega⟩
  · exact Or.inr ⟨h0, by omega⟩
  · exact Or.inr ⟨h0, by omega⟩

theorem rxSched_reloads (hk : rxSched k = .ok k') : Reloads k k' := by
  rcases rxSched_cases hk with ⟨rfl, -⟩ | ⟨h, -, -, rfl⟩
  · exact Reloads.refl k'
  · intro t
    show (Function.update k.tcb h (switchTcb (k.tcb h)) t).timeSlice = _ ∧ _
    by_cases ht : t = h
    · subst ht
      simp only [Function.update_self, switchTcb, true_and]
      split_ifs with h0
      · exact Or.inr ⟨h0.2, rfl⟩
      · exact Or.inl rfl
    · simp only [Function.update_of_ne ht, true_and]
      exact Or.inl trivial

theorem rxSuspendTask_reloads {o : Option (Fin n)} (hk : rxSuspendTask k o = .ok (r, k')) : Reloads k k' := by
  cases o with
  | none =>
    obtain ⟨k1, hrem, hk⟩ := bind_eq_ok.mp hk
    obtain ⟨k2, hsched, hk⟩ := bind_eq_ok.mp hk
    obtain ⟨-, rfl⟩ := Prod.mk.inj (Except.ok.inj hk)
    have h1 := (rxRemoveFromReadyQ_relinked hrem).reloads
    exact (h1.trans (reloads_setState _ _ _)).trans (rxSched_reloads hsched)
  | some t =>
    simp only [rxSuspendTask] at hk
    split_ifs at hk
    · obtain ⟨k1, hrem, hk⟩ := bind_eq_ok.mp hk
      obtain ⟨-, rfl⟩ := Prod.mk.inj (Except.ok.inj hk)
      exact (rxRemoveFromReadyQ_relinked hrem).reloads.trans (reloads_setState _ _ _)
    · obtain ⟨-, rfl⟩ := Prod.mk.inj (Except.ok.inj hk)
      exact Reloads.refl k

theorem rxResumeTask_reloads (hk : rxResumeTask k t = .ok (r, k')) : Reloads k k' := by
  unfold rxResumeTask at hk
  split_ifs at hk
  · obtain ⟨-, rfl⟩ := Prod.mk.inj (Except.ok.inj hk)
    exact Reloads.refl k
  · obtain ⟨⟨e, k1⟩, hadd, hk⟩ := bind_eq_ok.mp hk
    obtain ⟨-, rfl⟩ := Prod.mk.inj (Except.ok.inj hk)
    exact (reloads_setState k t _).trans (rxAddToReadyQ_relinked hadd).reloads

theorem rxSetTaskPrio_reloads {p : ℤ} (hk : rxSetTaskPrio k t p = .ok (r, k')) : Reloads k k' := by
  unfold rxSetTaskPrio at hk
  dsimp only at hk
  split_ifs at hk
  · obtain ⟨-, rfl⟩ := Prod.mk.inj (Except.ok.inj hk)
    exact Reloads.refl k
  · obtain ⟨k1, hrem, hk⟩ := bind_eq_ok.mp hk
    obtain ⟨⟨e, k2⟩, hadd, hk⟩ := bind_eq_ok.mp hk
    obtain ⟨-, rfl⟩ := Prod.mk.inj (Except.ok.inj hk)
    have h1 := (reloads_setPrio k t p).trans (rxRemoveFromReadyQ_relinked hrem).reloads
    exact h1.trans (rxAddToReadyQ_relinked hadd).reloads
  · obtain ⟨-, rfl⟩ := Prod.mk.inj (Except.ok.inj hk)
    exact reloads_setPrio k t p

theorem rxAbortTask_reloads (hk : rxAbortTask k t = .ok (r, k')) : Reloads k k' := by
  unfold rxAbortTask at hk
  split_ifs at hk
  · obtain ⟨-, rfl⟩ := Prod.mk.inj (Except.ok.inj hk)
    exact Reloads.refl k
  · obtain ⟨k1, hrem, hk⟩ := bind_eq_ok.mp hk
    obtain ⟨-, rfl⟩ := Prod.mk.inj (Except.ok.inj hk)
    exact (rxRemoveFromReadyQ_relinked hrem).reloads.trans (reloads_setState _ _ _)
  · obtain ⟨k1, hk1, hk⟩ := bind_eq_ok.mp hk
    obtain rfl := Except.ok.inj hk1
    obtain ⟨-, rfl⟩ := Prod.mk.inj (Except.ok.inj hk)
    exact reloads_setState _ _ _

theorem rxCompleteTask_reloads (hk : rxCompleteTask k t = .ok (r, k')) : Reloads k k' := by
  unfold rxCompleteTask at hk
  split_ifs at hk
  · obtain ⟨-, rfl⟩ := Prod.mk.inj (Except.ok.inj hk)
    exact Reloads.refl k
  · obtain ⟨k1, hrem, hk⟩ := bind_eq_ok.mp hk
    obtain ⟨k2, hsched, hk⟩ := bind_eq_ok.mp hk
    obtain ⟨-, rfl⟩ := Prod.mk.inj (Except.ok.inj hk)
    have h1 := (rxRemoveFromReadyQ_relinked hrem).reloads
    exact (h1.trans (reloads_setState _ _ _)).trans (rxSched_reloads hsched)

theorem preempt_reloads (k : Kernel n) : Reloads k (preempt k) := by
  unfold preempt
  split_ifs
  · exact reloads_setState { k with needResched := false } k.curr .ready
  · exact Reloads.refl k

/-- The new task gets a whole slice, the others keep their ticks. -/
theorem rxCreateTask_ticks {a : TaskArgs} (hk : rxCreateTask k t a = .ok (r, k')) :
    (∀ u, u ≠ t → (k'.tcb u).slice = (k.tcb u).slice) ∧
      (r = .osOk → (k'.tcb t).ticks = (k'.tcb t).timeSlice) := by
  rcases rxCreateTask_frame hk with ⟨rfl, hk'⟩ | ⟨-, stack, -, -, htcb⟩
  · rw [hk']
    exact ⟨fun _ _ => rfl, nofun⟩
  · refine ⟨fun u hu => ?_, fun _ => ?_⟩
    · rw [htcb u, if_neg hu]
      rfl
    · rw [htcb t, if_pos rfl]
      rfl

/-- A tick is charged to the running task if it has a slice; the last one of a
slice leaves none or, if nobody takes over, a new slice. -/
theorem timeSliceTick_ticks (hk : timeSliceTick k = .ok k') :
    k'.curr = k.curr ∧ (∀ t, t ≠ k.curr ∨ (k.tcb t).timeSlice ≤ 0 → (k'.tcb t).slice = (k.tcb t).slice) ∧
    (0 < (k.tcb k.curr).timeSlice → (k'.tcb k.curr).timeSlice = (k.tcb k.curr).timeSlice ∧
      ((k'.tcb k.curr).ticks = (k.tcb k.curr).ticks - 1 ∨
        (k.tcb k.curr).ticks = 1 ∧ (k'.tcb k.curr).ticks = (k.tcb k.curr).timeSlice)) := by
  unfold timeSliceTick at hk
  dsimp only at hk
  set c := k.tcb k.curr with hc
  set k1 := k.setTcb k.curr { c with ticks := c.ticks - 1 } with hk1
  have ht1 : ∀ t, t ≠ k.curr → (k1.tcb t).slice = (k.tcb t).slice := fun t ht => by simp [hk1, ht]
  have hcur1 : (k1.tcb k.curr).slice = (c.timeSlice, c.ticks - 1) := by simp [hk1, Tcb.slice]
  have hother : c.timeSlice > 0 → ∀ t, t ≠ k.curr ∨ (k.tcb t).timeSlice ≤ 0 → t ≠ k.curr := by
    rintro hpos t (ht | ht) rfl
    · exact ht rfl
    · exact absurd ht (not_le.mpr hpos)
  split_ifs at hk with hpos hzero
  · obtain ⟨k2, hrem, hk⟩ := bind_eq_ok.mp hk
    obtain ⟨⟨e, k3⟩, hadd, hk⟩ := bind_eq_ok.mp hk
    have hr2 := rxRemoveFromReadyQ_relinked hrem
    have hr3 := rxAddToReadyQ_relinked hadd
    have hcurr3 : k3.curr = k.curr := hr3.curr.trans hr2.curr
    have hs3 : ∀ t, (k3.tcb t).slice = (k1.tcb t).slice := by
      intro t
      calc (k3.tcb t).slice = ((k2.setState k2.curr .ready).tcb t).slice := hr3.slice t
        _ = (k2.tcb t).slice := k2.setTcb_keeps k2.curr t Tcb.slice rfl
        _ = (k1.tcb t).slice := hr2.slice t
    dsimp only at hk
    split_ifs at hk with hhead
    · obtain rfl := Except.ok.inj hk
      refine ⟨hcurr3, fun t ht => (hs3 t).trans (ht1 t (hother hpos t ht)), fun _ => ?_⟩
      obtain ⟨hs, ht⟩ := Prod.mk.inj ((hs3 k.curr).trans hcur1)
      exact ⟨hs, Or.inl ht⟩
    · -- nobody else of its priority: the slice is reloaded at once
      obtain rfl := Except.ok.inj hk
      refine ⟨hcurr3, fun t ht => ?_, fun _ => ?_⟩
      · have hne : t ≠ k3.curr := by rw [hcurr3]; exact hother hpos t ht
        rw [Kernel.setTcb_tcb, Function.update_of_ne hne, hs3, ht1 t (hother hpos t ht)]
      · have hs : (k3.tcb k.curr).timeSlice = c.timeSlice := (Prod.mk.inj ((hs3 k.curr).trans hcur1)).1
        rw [Kernel.setTcb_tcb, hcurr3, Function.update_self]
        exact ⟨hs, Or.inr ⟨by omega, hs⟩⟩
  · obtain rfl := Except.ok.inj hk
    refine ⟨rfl, fun t ht => ht1 t (hother hpos t ht), fun _ => ?_⟩
    · obtain ⟨hs, ht⟩ := Prod.mk.inj hcur1
      exact ⟨hs, Or.inl ht⟩
  · obtain rfl := Except.ok.inj hk
    exact ⟨rfl, fun _ _ => rfl, fun h => absurd h hpos⟩

end Ticks

/-! ### What a step does to the ticks -/

section Step

variable {s s' : TaskSys n} {c : TaskCall n}

/-- A call other than a tick or a creation. -/
theorem exec_reloads {k k' : Kernel n} {r : OsErr} (hc : c ≠ .tick) (hnew : ∀ t a, c ≠ .create t a)
    (hk : c.exec k = .ok (r, k')) : Reloads k k' := by
  cases c with
  | create t a => exact absurd rfl (hnew t a)
  | suspend o => exact rxSuspendTask_reloads hk
  | resume t => exact rxResumeTask_reloads hk
  | setPrio t p => exact rxSetTaskPrio_reloads hk
  | abort t => exact rxAbortTask_reloads hk
  | complete t => exact rxCompleteTask_reloads hk
  | sched =>
    obtain ⟨k1, hsched, he⟩ := map_eq_ok.mp hk
    obtain ⟨-, rfl⟩ := Prod.mk.inj he
    exact rxSched_reloads hsched
  | tick => exact absurd rfl hc
  | preempt =>
    obtain ⟨-, rfl⟩ := Prod.mk.inj (Except.ok.inj hk)
    exact preempt_reloads k

/-- What a step does to a created task: a charged tick is taken off, the last
one of a slice may bring a new slice at once; any other step leaves the ticks
or reloads spent ones. -/
structure Spends (s s' : TaskSys n) (c : TaskCall n) (t : Fin n) : Prop where
  slice : (s'.k.tcb t).timeSlice = (s.k.tcb t).timeSlice
  charged : ChargedTo t s c → (s'.k.tcb t).ticks = (s.k.tcb t).ticks - 1 ∨
    (s.k.tcb t).ticks = 1 ∧ (s'.k.tcb t).ticks = (s.k.tcb t).timeSlice
  other : ¬ ChargedTo t s c → (s'.k.tcb t).ticks = (s.k.tcb t).ticks ∨
    (s.k.tcb t).ticks = 0 ∧ (s'.k.tcb t).ticks = (s.k.tcb t).timeSlice

theorem Spends.of_reloads {t : Fin n} (h : Reloads s.k s'.k) (hc : ¬ ChargedTo t s c) : Spends s s' c t :=
  ⟨(h t).1, fun h => absurd h hc, fun _ => (h t).2⟩

theorem tick_spends (hk : TaskCall.tick.exec s.k = .ok (.osOk, s'.k)) (t : Fin n) : Spends s s' .tick t := by
  obtain ⟨k1, htick, he⟩ := map_eq_ok.mp hk
  have hk' : s'.k = irqExit k1 := (Prod.mk.inj he).2.symm
  obtain ⟨-, hkeep, hcur⟩ := timeSliceTick_ticks htick
  by_cases hch : ChargedTo t s .tick
  · obtain ⟨-, rfl, hpos⟩ := hch
    obtain ⟨hs, ht⟩ := hcur hpos
    rw [← show s'.k.tcb = k1.tcb by rw [hk']; rfl] at hs ht
    exact ⟨hs, fun _ => ht, fun h => absurd ⟨rfl, rfl, hpos⟩ h⟩
  · have hne : t ≠ s.k.curr ∨ (s.k.tcb t).timeSlice ≤ 0 := by
      by_contra hno
      simp only [not_or, not_not, not_le] at hno
      exact hch ⟨rfl, hno.1.symm, hno.2⟩
    obtain ⟨hs, ht⟩ := Prod.mk.inj (hkeep t hne)
    rw [← show s'.k.tcb = k1.tcb by rw [hk']; rfl] at hs ht
    exact ⟨hs, fun h => absurd h hch, fun _ => Or.inl ht⟩

/-- A created task stays created. -/
theorem mem_created {C : List (Fin n)} {t : Fin n} {r : OsErr} (ht : t ∈ C) : t ∈ c.created C r := by
  unfold TaskCall.created
  split
  · exact List.mem_append_left _ ht
  · exact ht

theorem created_eq {C : List (Fin n)} {r : OsErr} (hc : ∀ t a, c ≠ .create t a) : c.created C r = C := by
  unfold TaskCall.created
  split
  · exact absurd rfl (hc _ _)
  · rfl

/-- What a step does to the ticks of the created tasks, and those of a task it
creates. -/
theorem step_spends (hst : s.Step c s') :
    (∀ t ∈ s.created, t ∈ s'.created ∧ Spends s s' c t) ∧
      ∀ t ∈ s'.created, t ∈ s.created ∨ (s'.k.tcb t).ticks = (s'.k.tcb t).timeSlice := by
  obtain ⟨hadm, r, hex, hC⟩ := step_eq hst
  have hmem : ∀ t ∈ s.created, t ∈ s'.created := fun t ht => hC ▸ mem_created ht
  by_cases hnew : ∀ t a, c ≠ .create t a
  · have hsame : s'.created = s.created := hC.trans (created_eq hnew)
    refine ⟨fun t ht => ⟨hmem t ht, ?_⟩, fun t ht => Or.inl (hsame ▸ ht)⟩
    by_cases hc : c = .tick
    · subst hc
      obtain ⟨k1, -, he⟩ := map_eq_ok.mp hex
      obtain rfl := (Prod.mk.inj he).1
      exact tick_spends hex t
    · exact .of_reloads (exec_reloads hc hnew hex) fun h => hc h.1
  · obtain ⟨u, a, rfl⟩ : ∃ u a, c = .create u a := by
      by_contra hno
      exact hnew fun t a h => hno ⟨t, a, h⟩
    obtain ⟨hkeep, hfresh⟩ := rxCreateTask_ticks hex
    refine ⟨fun t ht => ⟨hmem t ht, ?_⟩, fun t ht => ?_⟩
    · have hne : t ≠ u := ne_of_mem_of_not_mem ht hadm.1
      obtain ⟨hs, hticks⟩ := Prod.mk.inj (hkeep t hne)
      exact ⟨hs, nofun, fun _ => Or.inl hticks⟩
    · rw [hC] at ht
      cases r with
      | osOk =>
        rcases List.mem_append.mp ht with ht | ht
        · exact Or.inl ht
        · rw [List.mem_singleton.mp ht]
          exact Or.inr (hfresh rfl)
      | osErr | eOsTimeout | eOsBusy | eOsUnavail | eOsQDel => exact Or.inl ht

/-- The steps that keep the ticks in their bounds. -/
theorem step_sliceOK (h : SliceOK s) (hc : SliceLeft s c) (hst : s.Step c s') : SliceOK s' := by
  obtain ⟨hold, hnew⟩ := step_spends hst
  intro t ht hpos
  rcases hnew t ht with htC | hfresh
  · obtain ⟨-, hsp⟩ := hold t htC
    have hs := hsp.slice
    obtain ⟨h0, hle⟩ := h t htC (by omega)
    by_cases hch : ChargedTo t s c
    · have hne : (s.k.tcb t).ticks ≠ 0 := by
        obtain ⟨rfl, rfl, hpos⟩ := hch
        exact hc htC hpos
      rcases hsp.charged hch with hticks | ⟨-, hticks⟩ <;> omega
    · rcases hsp.other hch with hticks | ⟨-, hticks⟩ <;> omega
  · omega

/-- A tick charged to a task that has none left. -/
theorem step_not_sliceOK (hc : ¬ SliceLeft s c) (hst : s.Step c s') : ¬ SliceOK s' := by
  intro hok
  cases c with
  | tick =>
    simp only [SliceLeft, Classical.not_imp, not_not] at hc
    obtain ⟨hC, hpos, h0⟩ := hc
    obtain ⟨hmem, hsp⟩ := (step_spends hst).1 _ hC
    have hs := hsp.slice
    have hneg := (hok _ hmem (by omega)).1
    rcases hsp.charged ⟨rfl, rfl, hpos⟩ with hticks | ⟨h1, -⟩ <;> omega
  | create | suspend | resume | setPrio | abort | complete | sched | preempt => exact hc trivial

/-- As long as its slice does not end, a task is charged less than the ticks it
has left, or than a whole slice if it has none. -/
theorem charges_lt {tr : List (TaskCall n × TaskSys n)} (h : Run.Exec TaskSys.Step s tr) {t : Fin n}
    (ht : t ∈ s.created) (hpos : 0 < (s.k.tcb t).timeSlice) (hok : SliceOK s) (hg : Run.Guarded SliceLeft s tr)
    (hend : Run.Guarded (fun x c => ¬ EndsSlice t x c) s tr) :
    (charges t s tr : ℤ) < if (s.k.tcb t).ticks = 0 then (s.k.tcb t).timeSlice else (s.k.tcb t).ticks := by
  induction h with
  | nil s =>
    have := hok t ht hpos
    simp only [charges]
    split_ifs <;> omega
  | @cons s s' c tr hst _ ih =>
    obtain ⟨ht', hsp⟩ := (step_spends hst).1 t ht
    have hs := hsp.slice
    have hlt := ih ht' (by omega) (step_sliceOK hok hg.1 hst) hg.2 hend.2
    obtain ⟨h0, hle⟩ := hok t ht hpos
    simp only [charges]
    by_cases hch : ChargedTo t s c
    · have hne : (s.k.tcb t).ticks ≠ 0 := by
        obtain ⟨rfl, rfl, -⟩ := hch
        exact hg.1 ht hpos
      have h1 : (s.k.tcb t).ticks ≠ 1 := fun h1 => hend.1 ⟨hch, h1⟩
      have hticks := (hsp.charged hch).resolve_right fun h => h1 h.1
      rw [if_neg (by omega)] at hlt
      rw [if_pos hch, if_neg hne]
      omega
    · rw [if_neg hch, Nat.zero_add]
      rcases hsp.other hch with hticks | ⟨hz, hticks⟩
      · rwa [hticks, hs] at hlt
      · rw [if_neg (by omega), hticks] at hlt
        rwa [if_pos hz]

end Step

/-! ### Whole runs -/

/-- **Slices end.** Along a run from a state with all ticks in their bounds,
the ticks stay in their bounds and every slice ends in time, if and only if
every tick finds the running task with ticks left. -/
theorem slicesEnd_iff_sliceLeft {s : TaskSys n} (hok : SliceOK s) {tr : List (TaskCall n × TaskSys n)}
    (h : Run.Exec TaskSys.Step s tr) :
    ((∀ x ∈ Run.states s tr, SliceOK x) ∧ SlicesEnd s tr) ↔ Run.Guarded SliceLeft s tr := by
  have hiff := h.guarded_iff SliceOK (fun _ hs => hs) (fun _ _ _ hs hc hst => step_sliceOK hs hc hst)
    (fun _ _ _ _ hc hst => step_not_sliceOK hc hst) hok
  refine ⟨fun hx => hiff.mpr hx.1, fun hg => ⟨hiff.mp hg, ?_⟩⟩
  rintro a b d rfl t ht hpos hend
  obtain ⟨hab, -⟩ := Run.exec_append.mp h
  obtain ⟨ha, hb⟩ := Run.exec_append.mp hab
  obtain ⟨hga, hgb⟩ := Run.guarded_append.mp (Run.guarded_append.mp hg).1
  have hoka : SliceOK (Run.final s a) :=
    ha.invariant_of_guarded SliceOK (fun _ _ _ hs hc hst => step_sliceOK hs hc hst) hga hok _ (Run.final_mem_states s a)
  have hle := (hoka t ht hpos).2
  calc (charges t (Run.final s a) b : ℤ)
      < if ((Run.final s a).k.tcb t).ticks = 0 then ((Run.final s a).k.tcb t).timeSlice
        else ((Run.final s a).k.tcb t).ticks := charges_lt hb ht hpos hoka hgb hend
    _ ≤ ((Run.final s a).k.tcb t).timeSlice := by split_ifs <;> omega

theorem bootSys_sliceOK : SliceOK bootSys := by
  intro t ht hpos
  rw [List.mem_singleton.mp ht] at hpos ⊢
  exact absurd hpos (by decide)

instance (s : TaskSys n) : ∀ c : TaskCall n, Decidable (SliceLeft s c)
  | .tick => inferInstanceAs (Decidable (_ → _ → _))
  | .create _ _ | .suspend _ | .resume _ | .setPrio _ _ | .abort _ | .complete _ | .sched | .preempt =>
    inferInstanceAs (Decidable True)

theorem slicesEnd_rotatingRun : SliceOK bootSys ∧ ∃ tr, Run.Exec TaskSys.Step bootSys tr ∧ tr.length = 11 ∧
    Run.Guarded SliceLeft bootSys tr ∧ (∀ x ∈ Run.states bootSys tr, SliceOK x) ∧ SlicesEnd bootSys tr := by
  refine ⟨bootSys_sliceOK, ?_⟩
  have hrun := TaskSys.exists_run bootSys rotatingRun
    (fun tr => decide (tr.length = 11 ∧ Run.Guarded SliceLeft bootSys tr)) (by decide +kernel)
  obtain ⟨tr, hex, hp⟩ := hrun
  obtain ⟨hlen, hg⟩ := of_decide_eq_true hp
  exact ⟨tr, hex, hlen, hg, (slicesEnd_iff_sliceLeft bootSys_sliceOK hex).mpr hg⟩

/-- The slice of task 1 ends, and a second tick comes before the reschedule:
the task has less than nothing left, and no later tick finds exactly zero. -/
theorem tick_before_reschedule : Booted bootSys 0 ∧ ∃ tr, Run.Exec TaskSys.Step bootSys tr ∧
    ¬ ∀ x ∈ Run.states bootSys tr, SliceOK x := by
  refine ⟨bootSys_booted, ?_⟩
  have hrun := TaskSys.exists_run bootSys
    [.create 1 { prio := 5, state := .ready, timeSlice := 1 }, .sched,
      .create 2 { prio := 5, state := .ready, timeSlice := 1 }, .tick, .preempt, .tick, .sched]
    (fun tr => decide (∃ x ∈ Run.states bootSys tr, 1 ∈ x.created ∧ (x.k.tcb 1).timeSlice = 1 ∧
      (x.k.tcb 1).ticks = -1)) (by decide +kernel)
  obtain ⟨tr, hex, hp⟩ := hrun
  obtain ⟨x, hx, hC, hslice, hticks⟩ := of_decide_eq_true hp
  refine ⟨tr, hex, fun hall => ?_⟩
  have := (hall x hx 1 hC (by omega)).1
  omega

end Rosx
