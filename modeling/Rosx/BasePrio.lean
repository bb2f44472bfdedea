/-
# The base priority of a task

A task has its priority twice: `prio`, which the scheduler reads, and
`orig_prio`, to which an unlock of a mutex goes back. `rx_create_task` writes
both, `rx_set_task_prio` writes `prio` only. A run is any sequence of
`rx_set_task_prio` on one task and of locks and unlocks by that task of mutexes
that nobody waits on, with anything in between that leaves the two priorities
alone. The value last set is kept next to the kernel.

`orig_prio` is the priority the task was created with, in every state
(`origPrio_of_run`). So the priority is the one last set as long as the task
only unlocks its mutexes while that is the priority it was created with, and no
longer (`prio_iff`).

Key definitions: `PrioSys.exec`, `PrioSys.Init`, `PrioSys.AtBase`.
-/
import Rosx.Mutex
import Rosx.TaskRun

namespace Rosx

open Linked

variable {n : ℕ}

/-- The two priorities of a task. -/
def Tcb.prios (c : Tcb n) : ℤ × ℤ := (c.prio, c.origPrio)

/-! ### What leaves the priorities alone -/

/-- The tasks have the same priorities. -/
def SamePrios (k k' : Kernel n) : Prop := ∀ u, (k'.tcb u).prios = (k.tcb u).prios

namespace SamePrios

variable {k k' k'' : Kernel n} {t : Fin n} {r : OsErr}

theorem refl (k : Kernel n) : SamePrios k k := fun _ => rfl

theorem trans (h : SamePrios k k') (h' : SamePrios k' k'') : SamePrios k k'' := fun u => (h' u).trans (h u)

theorem of_relinked (h : Relinked k k') : SamePrios k k' := by
  intro u
  rw [h.tcb u]
  rfl

theorem modTcb (k : Kernel n) (t : Fin n) {f : Tcb n → Tcb n} (hf : ∀ c, (f c).prios = c.prios) :
    SamePrios k (k.modTcb t f) := fun u => Kernel.modTcb_keeps k t u Tcb.prios hf

theorem sched (h : rxSched k = .ok k') : SamePrios k k' := by
  rcases rxSched_cases h with ⟨rfl, -⟩ | ⟨t, -, -, rfl⟩
  · exact refl _
  · exact fun u => Kernel.modTcb_keeps k t u Tcb.prios (f := switchTcb) fun _ => rfl

theorem suspend (h : rxSuspendTask k none = .ok (r, k')) : SamePrios k k' := by
  obtain ⟨k1, hrem, h⟩ := bind_eq_ok.mp h
  obtain ⟨k2, hsched, h⟩ := bind_eq_ok.mp h
  obtain ⟨-, rfl⟩ := Prod.mk.inj (Except.ok.inj h)
  have h1 := of_relinked (rxRemoveFromReadyQ_relinked hrem)
  have h2 : SamePrios k1 (k1.setState k1.curr .suspend) :=
    modTcb k1 k1.curr (f := fun c => { c with state := .suspend }) fun _ => rfl
  exact (h1.trans h2).trans (sched hsched)

theorem mutexTimeout {ticks : Word} {tm : ℕ} (h : rxMutexTimeout k ticks tm = .ok k') : SamePrios k k' := by
  obtain ⟨⟨r, k1⟩, hs, h⟩ := bind_eq_ok.mp h
  obtain rfl := Except.ok.inj h
  have h1 : SamePrios k ((k.rxInitTimer tm .mutexHandler k.curr ticks).rxStartTimer tm) := by
    intro u
    rw [rxStartTimer_tcb, rxInitTimer_tcb]
  exact (h1.trans (modTcb _ _ (f := fun c => { c with timer := some tm }) fun _ => rfl)).trans (suspend hs)

theorem lockSleep {timeout : ℤ} {tm : ℕ} (h : rxMutexLockSleep k timeout tm = .ok k') : SamePrios k k' := by
  unfold rxMutexLockSleep at h
  split_ifs at h
  · exact mutexTimeout h
  · exact sched h

end SamePrios

section Calls

variable {k k' : Kernel n} {t o : Fin n} {m : ℕ}

/-- A task that inherits from itself keeps its priority; if another one does,
that is its own affair. -/
theorem inheritFrom_prios (h : inheritFrom k o t = .ok k') : (k'.tcb t).prios = (k.tcb t).prios := by
  unfold inheritFrom at h
  split_ifs at h with hgt
  · have hot : t ≠ o := by
      rintro rfl
      exact lt_irrefl _ hgt
    have h1 : ((k.setPrio o (k.tcb t).prio).tcb t).prios = (k.tcb t).prios := by simp [Kernel.setPrio, hot]
    unfold requeueIfReady at h
    split_ifs at h
    · obtain ⟨k1, hrem, h⟩ := bind_eq_ok.mp h
      obtain ⟨⟨e, k2⟩, hadd, h⟩ := bind_eq_ok.mp h
      obtain rfl := Except.ok.inj h
      have h2 := SamePrios.of_relinked ((rxRemoveFromReadyQ_relinked hrem).trans (rxAddToReadyQ_relinked hadd))
      exact (h2 t).trans h1
    · obtain rfl := Except.ok.inj h
      exact h1
  · obtain rfl := Except.ok.inj h
    rfl

/-- A lock leaves the priorities of the caller alone, whether it gets the mutex
or not. -/
theorem rxMutexLock_prios {timeout : ℤ} {tm : ℕ} {r : Option OsErr} (h : rxMutexLock k m timeout tm = .ok (r, k')) :
    (k'.tcb k.curr).prios = (k.tcb k.curr).prios := by
  rw [rxMutexLock_eq] at h
  obtain ⟨⟨r1, k1⟩, hchain, h⟩ := bind_eq_ok.mp h
  have h1 : (k1.tcb k.curr).prios = (k.tcb k.curr).prios := by
    unfold rxMutexLockChain at hchain
    dsimp only at hchain
    split_ifs at hchain
    · obtain ⟨-, rfl⟩ := Prod.mk.inj (Except.ok.inj hchain)
      rfl
    · obtain ⟨-, rfl⟩ := Prod.mk.inj (Except.ok.inj hchain)
      rfl
    · obtain ⟨k2, hrem, hchain⟩ := bind_eq_ok.mp hchain
      obtain ⟨⟨head, k3⟩, happ, hchain⟩ := bind_eq_ok.mp hchain
      split at hchain
      · cases hchain
      · rename_i o ho
        obtain ⟨k4, hinh, hchain⟩ := bind_eq_ok.mp hchain
        obtain ⟨-, rfl⟩ := Prod.mk.inj (Except.ok.inj hchain)
        have h2 : SamePrios k k2 := by
          refine SamePrios.trans (SamePrios.of_relinked (Relinked.enterCritical k)) ?_
          refine SamePrios.trans ?_ (SamePrios.of_relinked (rxRemoveFromReadyQ_relinked hrem))
          exact SamePrios.modTcb _ _ (f := fun c => { c with state := .suspend, mutex := some m }) fun _ => rfl
        have h3 : SamePrios k2 k3 :=
          .of_relinked ((Relinked.setNext k2 k.curr none).trans (appendWaiter_relinked happ))
        exact (inheritFrom_prios hinh).trans ((h2.trans h3) k.curr)
  dsimp only at h
  split_ifs at h
  · obtain ⟨-, rfl⟩ := Prod.mk.inj (Except.ok.inj h)
    exact h1
  · obtain ⟨k2, hsleep, h⟩ := bind_eq_ok.mp h
    obtain ⟨-, rfl⟩ := Prod.mk.inj (Except.ok.inj h)
    exact (SamePrios.lockSleep hsleep k.curr).trans h1

/-- The owner goes back to `orig_prio`. -/
theorem restorePrio_prios (h : restorePrio k o = .ok k') :
    (k'.tcb o).prios = ((k.tcb o).origPrio, (k.tcb o).origPrio) ∧ k'.mutexes = k.mutexes := by
  unfold restorePrio at h
  split_ifs at h with hne
  · obtain ⟨k1, hrem, h⟩ := bind_eq_ok.mp h
    obtain ⟨⟨e, k2⟩, hadd, h⟩ := bind_eq_ok.mp h
    obtain rfl := Except.ok.inj h
    have h1 := (rxRemoveFromReadyQ_relinked hrem).trans (rxAddToReadyQ_relinked hadd)
    refine ⟨(SamePrios.of_relinked h1 o).trans ?_, h1.mutexes⟩
    simp [Tcb.prios, Kernel.setPrio]
  · obtain rfl := Except.ok.inj h
    refine ⟨?_, rfl⟩
    unfold Tcb.prios
    rw [not_not.mp hne]

/-- An unlock of a mutex that nobody waits on: the owner goes back to
`orig_prio`, and nothing happens to the priorities of anybody else. -/
theorem rxMutexUnlock_prios {r : OsErr} (hw : (k.mutexes m).task = none) (h : rxMutexUnlock k m = .ok (r, k')) :
    (k'.tcb k.curr).prios =
      if (k.mutexes m).lock = .locked ∧ (k.mutexes m).owner = some k.curr then
        ((k.tcb k.curr).origPrio, (k.tcb k.curr).origPrio)
      else (k.tcb k.curr).prios := by
  unfold rxMutexUnlock at h
  dsimp only at h
  split_ifs at h with hl
  · split at h
    · cases h
    · rename_i o ho
      have ho' : (k.mutexes m).owner = some o := ho
      by_cases hoc : o = k.curr
      · subst hoc
        obtain ⟨k1, hres, h⟩ := bind_eq_ok.mp ((if_neg (not_not.mpr rfl)).symm.trans h)
        obtain ⟨hp, hm⟩ := restorePrio_prios hres
        have hw1 : (k1.mutexes m).task = none := by
          rw [hm, Kernel.setMutex_mutexes]
          exact hw
        simp only [hw1] at h
        obtain ⟨-, rfl⟩ := Prod.mk.inj (Except.ok.inj h)
        rw [if_pos ⟨hl, ho'⟩]
        exact hp
      · obtain ⟨-, rfl⟩ := Prod.mk.inj (Except.ok.inj ((if_pos hoc).symm.trans h))
        rw [if_neg fun hc => hoc (Option.some.inj (ho'.symm.trans hc.2))]
        rfl
  · obtain ⟨-, rfl⟩ := Prod.mk.inj (Except.ok.inj h)
    rw [if_neg fun hc => hl hc.1]
    rfl

/-- A priority that is set is `prio`, unless the call does nothing. -/
theorem rxSetTaskPrio_prios {p : ℤ} {r : OsErr} (h : rxSetTaskPrio k t p = .ok (r, k')) :
    (k'.tcb t).prios =
      if (k.tcb t).prio = TaskState.complete.code ∨ (k.tcb t).prio = TaskState.abort.code then (k.tcb t).prios
      else (p, (k.tcb t).origPrio) := by
  unfold rxSetTaskPrio at h
  dsimp only at h
  have h1 : ((k.setPrio t p).tcb t).prios = (p, (k.tcb t).origPrio) := by simp [Tcb.prios, Kernel.setPrio]
  by_cases hcode : (k.tcb t).prio = TaskState.complete.code ∨ (k.tcb t).prio = TaskState.abort.code
  · rw [if_pos (Or.inr hcode)] at h
    obtain ⟨-, rfl⟩ := Prod.mk.inj (Except.ok.inj h)
    rw [if_pos hcode]
  · rw [if_neg hcode]
    split_ifs at h with hnoop
    · obtain ⟨-, rfl⟩ := Prod.mk.inj (Except.ok.inj h)
      rw [hnoop.resolve_right hcode]
      rfl
    · obtain ⟨k1, hrem, h⟩ := bind_eq_ok.mp h
      obtain ⟨⟨e, k2⟩, hadd, h⟩ := bind_eq_ok.mp h
      obtain ⟨-, rfl⟩ := Prod.mk.inj (Except.ok.inj h)
      have h2 := (rxRemoveFromReadyQ_relinked hrem).trans (rxAddToReadyQ_relinked hadd)
      exact (SamePrios.of_relinked h2 t).trans h1
    · obtain ⟨-, rfl⟩ := Prod.mk.inj (Except.ok.inj h)
      exact h1

/-- A new task has the same priority twice. -/
theorem rxCreateTask_prios {a : TaskArgs} (h : rxCreateTask k t a = .ok (.osOk, k')) :
    (k'.tcb t).origPrio = (k'.tcb t).prio := by
  rcases rxCreateTask_cases h with ⟨hr, -⟩ | ⟨stack, k1, k3, k4, -, hk3, hk4, -, rfl⟩
  · cases hr
  · obtain ⟨h3, -⟩ := addIfReady_relinked hk3
    obtain ⟨-, h4⟩ := addToTaskList_frame hk4
    show (k4.tcb t).origPrio = (k4.tcb t).prio
    rw [h4 t, h3.tcb t]
    simp [initTcb]

end Calls

/-! ### Runs -/

/-- The kernel, and the priority last set of the task in question. -/
structure PrioSys (n : ℕ) where
  k : Kernel n
  set : ℤ

/-- A step of a run. -/
inductive PrioCall (n : ℕ) where
  | setPrio (prio : ℤ)
  | lock (m : ℕ) (timeout : ℤ) (tm : ℕ)
  | unlock (m : ℕ)
  | other (k' : Kernel n)

namespace PrioSys

/-- `rx_set_task_prio` takes effect: `prio` is not the code of one of two task
states. -/
def TakesEffect (s : PrioSys n) (t : Fin n) : Prop :=
  ¬ ((s.k.tcb t).prio = TaskState.complete.code ∨ (s.k.tcb t).prio = TaskState.abort.code)

instance (s : PrioSys n) (t : Fin n) : Decidable (s.TakesEffect t) := inferInstanceAs (Decidable (¬ _))

/-- What a step computes, for task `t`. -/
def exec (t : Fin n) (s : PrioSys n) : PrioCall n → Res (Option OsErr × PrioSys n)
  | .setPrio p => (rxSetTaskPrio s.k t p).map fun x => (some x.1, ⟨x.2, if s.TakesEffect t then p else s.set⟩)
  | .lock m timeout tm => (rxMutexLock s.k m timeout tm).map fun x => (x.1, { s with k := x.2 })
  | .unlock m => (rxMutexUnlock s.k m).map fun x => (some x.1, { s with k := x.2 })
  | .other k' => .ok (none, { s with k := k' })

/-- The task locks and unlocks while it runs, and nobody waits on the mutexes.
Anything else leaves its priorities alone. -/
def Admissible (t : Fin n) (s : PrioSys n) : PrioCall n → Prop
  | .setPrio _ => True
  | .lock m _ _ | .unlock m => s.k.curr = t ∧ (s.k.mutexes m).task = none
  | .other k' => (k'.tcb t).prios = (s.k.tcb t).prios

instance (t : Fin n) (s : PrioSys n) : ∀ c, Decidable (s.Admissible t c)
  | .setPrio _ => inferInstanceAs (Decidable True)
  | .lock m _ _ => inferInstanceAs (Decidable (s.k.curr = t ∧ (s.k.mutexes m).task = none))
  | .unlock m => inferInstanceAs (Decidable (s.k.curr = t ∧ (s.k.mutexes m).task = none))
  | .other k' => inferInstanceAs (Decidable ((k'.tcb t).prios = (s.k.tcb t).prios))

/-- One step of a run, labelled with the call and what it returns; a lock that
blocks returns nothing. -/
def Step (t : Fin n) (s : PrioSys n) (c : PrioCall n × Option OsErr) (s' : PrioSys n) : Prop :=
  s.Admissible t c.1 ∧ s.exec t c.1 = .ok (c.2, s')

/-- The task has just been created. -/
structure Init (t : Fin n) (s : PrioSys n) : Prop where
  created : ∃ k a, rxCreateTask k t a = .ok (.osOk, s.k)
  set : s.set = (s.k.tcb t).prio

/-- The priority of the task is the one last set. -/
def PrioOK (t : Fin n) (s : PrioSys n) : Prop := (s.k.tcb t).prio = s.set

/-- If the task unlocks one of its mutexes, the priority last set is
`orig_prio`. -/
def AtBase (t : Fin n) (s : PrioSys n) (c : PrioCall n × Option OsErr) : Prop :=
  match c.1 with
  | .unlock m => (s.k.mutexes m).lock = .locked ∧ (s.k.mutexes m).owner = some t → s.set = (s.k.tcb t).origPrio
  | .setPrio _ | .lock _ _ _ | .other _ => True

instance (t : Fin n) (s : PrioSys n) : ∀ c, Decidable (s.AtBase t c)
  | (.unlock m, _) => inferInstanceAs (Decidable
      ((s.k.mutexes m).lock = .locked ∧ (s.k.mutexes m).owner = some t → s.set = (s.k.tcb t).origPrio))
  | (.setPrio _, _) | (.lock _ _ _, _) | (.other _, _) => inferInstanceAs (Decidable True)

section Steps

variable {t : Fin n} {s s' : PrioSys n} {c : PrioCall n × Option OsErr}

/-- What a step does to the priorities of the task and to the one last set:
nothing or the same to both, but for an unlock of one of the mutexes of the
task. -/
theorem step_prios (hst : Step t s c s') : (s'.k.tcb t).origPrio = (s.k.tcb t).origPrio ∧
    (AtBase t s c ∧ (PrioOK t s → PrioOK t s') ∨
      (AtBase t s c ↔ s.set = (s.k.tcb t).origPrio) ∧ (s'.k.tcb t).prio = (s.k.tcb t).origPrio ∧ s'.set = s.set) := by
  obtain ⟨c, r⟩ := c
  obtain ⟨ha, he⟩ := hst
  have hsame : (s'.k.tcb t).prios = (s.k.tcb t).prios → s'.set = s.set →
      (s'.k.tcb t).origPrio = (s.k.tcb t).origPrio ∧ (PrioOK t s → PrioOK t s') := by
    intro hp hset
    obtain ⟨h1, h2⟩ := Prod.mk.inj hp
    exact ⟨h2, fun h => h1.trans (h.trans hset.symm)⟩
  cases c with
  | setPrio p =>
    obtain ⟨⟨r', k'⟩, hk, he⟩ := map_eq_ok.mp he
    obtain ⟨-, rfl⟩ := Prod.mk.inj he
    have hp := rxSetTaskPrio_prios hk
    by_cases hcode : s.TakesEffect t
    · rw [if_neg hcode] at hp
      obtain ⟨h1, h2⟩ := Prod.mk.inj hp
      exact ⟨h2, Or.inl ⟨trivial, fun _ => h1.trans (if_pos hcode).symm⟩⟩
    · rw [if_pos (not_not.mp hcode)] at hp
      obtain ⟨h1, h2⟩ := hsame hp (if_neg hcode)
      exact ⟨h1, Or.inl ⟨trivial, h2⟩⟩
  | lock m timeout tm =>
    obtain ⟨⟨r', k'⟩, hk, he⟩ := map_eq_ok.mp he
    obtain ⟨-, rfl⟩ := Prod.mk.inj he
    have hp := rxMutexLock_prios hk
    rw [ha.1] at hp
    obtain ⟨h1, h2⟩ := hsame hp rfl
    exact ⟨h1, Or.inl ⟨trivial, h2⟩⟩
  | unlock m =>
    obtain ⟨⟨r', k'⟩, hk, he⟩ := map_eq_ok.mp he
    obtain ⟨-, rfl⟩ := Prod.mk.inj he
    have hp := rxMutexUnlock_prios ha.2 hk
    rw [ha.1] at hp
    by_cases hown : (s.k.mutexes m).lock = .locked ∧ (s.k.mutexes m).owner = some t
    · rw [if_pos hown] at hp
      obtain ⟨h1, h2⟩ := Prod.mk.inj hp
      exact ⟨h2, Or.inr ⟨⟨fun hbase => hbase hown, fun hset _ => hset⟩, h1, rfl⟩⟩
    · rw [if_neg hown] at hp
      obtain ⟨h1, h2⟩ := hsame hp rfl
      exact ⟨h1, Or.inl ⟨fun hc => absurd hc hown, h2⟩⟩
  | other k' =>
    obtain ⟨-, rfl⟩ := Prod.mk.inj (Except.ok.inj he)
    obtain ⟨h1, h2⟩ := hsame ha rfl
    exact ⟨h1, Or.inl ⟨trivial, h2⟩⟩

theorem Init.ok (h : Init t s) : PrioOK t s := h.set.symm

/-- Along every run `orig_prio` is the priority the task was created with. -/
theorem origPrio_of_run (hi : Init t s) {tr : List ((PrioCall n × Option OsErr) × PrioSys n)}
    (h : Run.Exec (Step t) s tr) : ∀ x ∈ Run.states s tr, (x.k.tcb t).origPrio = (s.k.tcb t).prio := by
  obtain ⟨k, a, hk⟩ := hi.created
  exact h.invariant (fun x => (x.k.tcb t).origPrio = (s.k.tcb t).prio)
    (fun _ _ _ hs hst => (step_prios hst).1.trans hs) (rxCreateTask_prios hk)

/-- **Along a run the priority of the task is the one last set, if and only if
it unlocks its mutexes only while that is `orig_prio`.** -/
theorem prio_iff (hi : Init t s) {tr : List ((PrioCall n × Option OsErr) × PrioSys n)} (h : Run.Exec (Step t) s tr) :
    (∀ x ∈ Run.states s tr, PrioOK t x) ↔ Run.Guarded (AtBase t) s tr := by
  refine (h.guarded_iff (PrioOK t) (fun _ h => h) (fun s c s' hs hc hst => ?_) (fun s c s' hs hc hst hs' => ?_)
    hi.ok).symm
  · rcases (step_prios hst).2 with ⟨-, hok⟩ | ⟨hbase, hprio, hset⟩
    · exact hok hs
    · exact hprio.trans ((hbase.mp hc).symm.trans hset.symm)
  · rcases (step_prios hst).2 with ⟨hbase, -⟩ | ⟨hbase, hprio, hset⟩
    · exact hc hbase
    · exact hc (hbase.mpr (hset.symm.trans (hs'.symm.trans hprio)))

end Steps

/-- Task `t` has been created with priority 5. -/
def created (t : Fin n) : PrioSys n where
  k := ((rxCreateTask (bareKernel t) t { prio := 5, stackSize := 8192, state := .ready }).toOption.map (·.2)).getD
    (bareKernel t)
  set := 5

theorem created_init : Init (1 : Fin 3) (created 1) :=
  ⟨⟨bareKernel 1, { prio := 5, stackSize := 8192, state := .ready }, rfl⟩, by decide +kernel⟩

/-- Its priority is set to 2 and back to 5 while it holds two mutexes. -/
theorem prio_created : Init (1 : Fin 3) (created 1) ∧ ∃ tr, Run.Exec (Step (1 : Fin 3)) (created 1) tr ∧ tr.length = 6 ∧
    ∀ x ∈ Run.states (created 1) tr, PrioOK (1 : Fin 3) x := by
  refine ⟨created_init, ?_⟩
  obtain ⟨tr, hex, hp⟩ := Run.exists_exec (f := Run.attempt (Admissible (1 : Fin 3)) (exec (1 : Fin 3)))
    (fun _ _ _ => Run.step_of_attempt) (s := created (1 : Fin 3))
    [(.lock 0 0 0, some .osOk), (.lock 1 0 0, some .osOk), (.setPrio 2, some .osOk), (.setPrio 5, some .osOk),
      (.unlock 1, some .osOk), (.unlock 0, some .osOk)]
    (fun tr => decide (tr.length = 6 ∧ Run.Guarded (AtBase (1 : Fin 3)) (created 1) tr)) (by decide +kernel)
  obtain ⟨hlen, hg⟩ := of_decide_eq_true hp
  exact ⟨tr, hex, hlen, (prio_iff created_init hex).mpr hg⟩

/-- Its priority is set to 7; a lock and an unlock later it is 5 again. -/
theorem unlock_resets : Init (1 : Fin 3) (created 1) ∧ ∃ tr, Run.Exec (Step (1 : Fin 3)) (created 1) tr ∧
    ¬ ∀ x ∈ Run.states (created 1) tr, PrioOK (1 : Fin 3) x := by
  refine ⟨created_init, ?_⟩
  obtain ⟨tr, hex, hp⟩ := Run.exists_exec (f := Run.attempt (Admissible (1 : Fin 3)) (exec (1 : Fin 3)))
    (fun _ _ _ => Run.step_of_attempt) (s := created (1 : Fin 3))
    [(.setPrio 7, some .osOk), (.lock 0 0 0, some .osOk), (.unlock 0, some .osOk)]
    (fun tr => decide ((Run.final (created 1) tr).set = 7
      ∧ ((Run.final (created 1) tr).k.tcb 1).prio = 5)) (by decide +kernel)
  obtain ⟨hset, hprio⟩ := of_decide_eq_true hp
  refine ⟨tr, hex, fun hall => ?_⟩
  have hok : ((Run.final (created 1) tr).k.tcb 1).prio = _ := hall _ (Run.final_mem_states _ _)
  rw [hset, hprio] at hok
  cases hok

end PrioSys

end Rosx
