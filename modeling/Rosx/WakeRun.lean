/-
# Aborted and suspended tasks

`rx_abort_task` and `rx_suspend_task` take a task off the ready queue if it is
READY, and off no other list: the first has a TODO for the wait queues, the
second does nothing at all for a task that is not READY. So a task that waits
for a semaphore or a mutex or sleeps on a timer stays where the next post,
unlock or expiry finds it, and that makes it ready again; and a task that has
given up the processor by `rx_sched` still is RUNNING and stays on the ready
queue.

`OnlyReady` excludes exactly these: nothing leads to the task, or nothing but the
ready queue, and then it is READY. Along the runs in which both calls are made on
such tasks only, a task that was aborted or suspended stays out
(`aborted_stays_out`, `suspended_stays_out`).

Key definitions: `WakeCall`, `OnlyReady`, `AbortSafe`, `SuspendSafe`.
-/
import Rosx.Detached
import Rosx.MutexRun

namespace Rosx

open Linked

variable {n : ℕ}

/-! ### The runs -/

/-- The expiry of timer `tm`, by the timer thread. -/
def Kernel.expireTimer (k : Kernel n) (tm : ℕ) : Res (Kernel n) :=
  match (k.timers tm).handler, (k.timers tm).priv with
  | none, _ => expireSleeper k tm
  | some .semHandler, some t => do
    let k ← rxSemHandler (k.enterCritical.disarm tm) t
    return k.exitCritical
  | some .mutexHandler, some _ => expireMutexTimer k tm
  | some .waitHandler, some t => .ok (rxWaitHandler (k.enterCritical.disarm tm) t).exitCritical
  | _, _ => .error .null

/-- A step of a run: a task operation, `rx_sched` or a tick, a call of a
semaphore or a mutex service or of `rx_msleep`, or the expiry of a timer. -/
inductive WakeCall (n : ℕ) where
  | task (c : TaskCall n)
  | semWait (m : ℕ) (timeout : ℤ) (tm : ℕ)
  | semPost (m : ℕ)
  | mutexLock (m : ℕ) (timeout : ℤ) (tm : ℕ)
  | mutexUnlock (m : ℕ)
  | sleep (time : Word) (tm : ℕ)
  | expire (tm : ℕ)

namespace WakeCall

/-- What the call computes, with the code it returns unless it blocks. -/
def exec (k : Kernel n) : WakeCall n → Res (Option OsErr × Kernel n)
  | .task c => (c.exec k).map fun x => (some x.1, x.2)
  | .semWait m timeout tm => rxSemaphoreWait k m timeout tm
  | .semPost m => (rxSemaphorePost k m).map fun x => (some x.1, x.2)
  | .mutexLock m timeout tm => rxMutexLock k m timeout tm
  | .mutexUnlock m => (rxMutexUnlock k m).map fun x => (some x.1, x.2)
  | .sleep time tm => k.rxMsleep time tm
  | .expire tm => (k.expireTimer tm).map fun k => (none, k)

/-- A timeout is an `int`, and only a timer on the active list expires. -/
def Admissible (k : Kernel n) : WakeCall n → Prop
  | .semWait _ timeout _ | .mutexLock _ timeout _ => timeout < 2 ^ 31
  | .expire tm => tm ∈ k.active
  | .task _ | .semPost _ | .mutexUnlock _ | .sleep _ _ => True

instance (k : Kernel n) : ∀ c : WakeCall n, Decidable (c.Admissible k)
  | .semWait _ timeout _ | .mutexLock _ timeout _ => inferInstanceAs (Decidable (timeout < 2 ^ 31))
  | .expire tm => inferInstanceAs (Decidable (tm ∈ k.active))
  | .task _ | .semPost _ | .mutexUnlock _ | .sleep _ _ => inferInstanceAs (Decidable True)

/-- The step of a call and the code it returns. -/
def Step (k : Kernel n) (c : WakeCall n × Option OsErr) (k' : Kernel n) : Prop :=
  c.1.Admissible k ∧ c.1.exec k = .ok (c.2, k')

/-- The call is an `rx_create_task` of `t`. -/
def Creates (t : Fin n) : WakeCall n → Prop
  | .task (.create u _) => u = t
  | _ => False

/-- The call is an `rx_resume_task` of `t`. -/
def Resumes (t : Fin n) : WakeCall n → Prop
  | .task (.resume u) => u = t
  | _ => False

end WakeCall

/-! ### A task that stays out -/

section Frame

variable {Q : TaskState → Prop} {k k' : Kernel n} {t : Fin n}

/-- A task operation that is not meant for the task. -/
theorem Detached.taskCall (h : Detached Q t k) (hQ : Q .abort) {c : TaskCall n} (hc : ¬ (WakeCall.task c).Creates t)
    (hr : ¬ (WakeCall.task c).Resumes t ∨ ¬ Q .suspend) {r : OsErr} (hk : c.exec k = .ok (r, k')) : Detached Q t k' := by
  cases c with
  | create u a => exact h.create hc hk
  | suspend o => exact h.suspend hk
  | resume u =>
    by_cases hu : u = t
    · subst hu
      exact h.resume_self (hr.resolve_left fun hn => hn rfl) hk
    · exact h.resume hu hk
  | setPrio u p => exact h.setTaskPrio hk
  | abort u => exact h.abort hQ hk
  | complete u => exact h.complete hk
  | sched =>
    obtain ⟨k1, hs, he⟩ := map_eq_ok.mp hk
    obtain ⟨-, rfl⟩ := Prod.mk.inj he
    exact h.rxSched hs
  | tick =>
    obtain ⟨k1, ht, he⟩ := map_eq_ok.mp hk
    obtain ⟨-, rfl⟩ := Prod.mk.inj he
    have h1 : Detached Q t (irqEnter k) := h.of_eq rfl rfl rfl rfl rfl rfl rfl
    exact (h1.tick ht).of_eq rfl rfl rfl rfl rfl rfl rfl
  | preempt =>
    obtain ⟨-, rfl⟩ := Prod.mk.inj (Except.ok.inj hk)
    exact h.preempt

/-- The expiry of an armed timer. -/
theorem Detached.expireTimer (h : Detached Q t k) {tm : ℕ} (htm : tm ∈ k.active) (hk : k.expireTimer tm = .ok k') :
    Detached Q t k' := by
  have h0 := h.enter.disarm tm
  have hno := h.timers tm htm
  unfold TimerWakes at hno
  unfold Kernel.expireTimer at hk
  split at hk
  · exact h.expireSleeper htm hk
  · rename_i u hhandler hpriv
    obtain ⟨k1, hsem, hk⟩ := bind_eq_ok.mp hk
    obtain rfl := Except.ok.inj hk
    by_cases hu : u = t
    · -- the wait of the task itself has ended, so its timer does nothing
      subst hu
      rw [hhandler] at hno
      have hs : (k.tcb u).sem = none := not_not.mp fun hs => hno ⟨hpriv, hs⟩
      have hs' : ((k.enterCritical.disarm tm).tcb u).sem = none := hs
      simp only [Rosx.rxSemHandler, hs'] at hsem
      obtain rfl := Except.ok.inj hsem
      exact h0.exit
    · exact (h0.rxSemHandler hu hsem).exit
  · rename_i u hhandler hpriv
    rw [expireMutexTimer_eq hhandler hpriv] at hk
    obtain ⟨k1, hmut, hk⟩ := bind_eq_ok.mp hk
    obtain rfl := Except.ok.inj hk
    by_cases hu : u = t
    · subst hu
      rw [hhandler] at hno
      have hs : (k.tcb u).mutex = none := not_not.mp fun hs => hno ⟨hpriv, hs⟩
      have hs' : ((k.enterCritical.disarm tm).tcb u).mutex = none := hs
      simp only [Rosx.rxMutexHandler, hs'] at hmut
      cases hmut
    · exact (h0.rxMutexHandler hu hmut).exit
  · obtain rfl := Except.ok.inj hk
    exact (h0.rxWaitHandler _).exit
  · cases hk

/-- Every step leaves it out, unless it creates the task anew or resumes it
from a suspension. -/
theorem Detached.step (h : Detached Q t k) (hQ : Q .abort) {c : WakeCall n × Option OsErr} (hc : ¬ c.1.Creates t)
    (hr : ¬ c.1.Resumes t ∨ ¬ Q .suspend) (hst : WakeCall.Step k c k') : Detached Q t k' := by
  obtain ⟨c, r⟩ := c
  obtain ⟨hadm, hk⟩ := hst
  cases c with
  | task c =>
    obtain ⟨x, hx, he⟩ := map_eq_ok.mp hk
    obtain ⟨-, rfl⟩ := Prod.mk.inj he
    exact h.taskCall hQ hc hr hx
  | semWait m timeout tm => exact h.rxSemaphoreWait hadm hk
  | semPost m =>
    obtain ⟨x, hx, he⟩ := map_eq_ok.mp hk
    obtain ⟨-, rfl⟩ := Prod.mk.inj he
    exact h.rxSemaphorePost hx
  | mutexLock m timeout tm => exact h.rxMutexLock hadm hk
  | mutexUnlock m =>
    obtain ⟨x, hx, he⟩ := map_eq_ok.mp hk
    obtain ⟨-, rfl⟩ := Prod.mk.inj he
    exact h.rxMutexUnlock hx
  | sleep time tm => exact h.sleep hk
  | expire tm =>
    obtain ⟨x, hx, he⟩ := map_eq_ok.mp hk
    obtain ⟨-, rfl⟩ := Prod.mk.inj he
    exact h.expireTimer hadm hx

end Frame

/-! ### Aborting and suspending -/

/-- No semaphore, mutex or timer will wake the task; on the ready queue it is
only if it is READY, and no link but those of the queue leads to it. -/
structure OnlyReady (k : Kernel n) (t : Fin n) : Prop where
  notRunning : (k.tcb t).state ≠ .running
  ready : (k.tcb t).state = .ready →
    ∃ l, Chain k.next k.readyHead l ∧ t ∈ l ∧ ∀ u, k.next u = some t → u ∈ l
  off : (k.tcb t).state ≠ .ready → k.readyHead ≠ some t ∧ ∀ u, u ≠ t → k.next u ≠ some t
  sems : ∀ m, (k.sems m).task ≠ some t
  mutexes : ∀ m, (k.mutexes m).task ≠ some t
  timers : ∀ tm ∈ k.active, ¬ TimerWakes k t tm

/-- An `rx_abort_task` that does not fail is of a task on nothing but the ready
queue. -/
def AbortSafe (k : Kernel n) (c : WakeCall n × Option OsErr) : Prop :=
  ∀ t, c.1 = .task (.abort t) → t ≠ k.curr → OnlyReady k t

/-- An `rx_suspend_task` of another task is of a task on nothing but the ready
queue. -/
def SuspendSafe (k : Kernel n) (c : WakeCall n × Option OsErr) : Prop :=
  ∀ t, c.1 = .task (.suspend (some t)) → t ≠ k.curr → OnlyReady k t

namespace OnlyReady

variable {Q : TaskState → Prop} {k k' : Kernel n} {t : Fin n}

/-- A task that is not READY stays out as it is. -/
theorem detached_of_off (h : OnlyReady k t) (hc : t ≠ k.curr) (hs : (k.tcb t).state ≠ .ready)
    (hQ : Q (k.tcb t).state) : Detached Q t k := by
  refine ⟨?_, hQ, hc.symm, (h.off hs).2, (h.off hs).1, h.sems, h.mutexes, h.timers⟩
  have hr := h.notRunning
  cases hst : (k.tcb t).state with
  | ready => exact absurd hst hs
  | running => exact absurd hst hr
  | _ => rfl

/-- A task that is READY is taken off the ready queue, and nothing leads to it
any more. -/
theorem detached_of_removed (h : OnlyReady k t) (hc : t ≠ k.curr) (hs : (k.tcb t).state = .ready) {v : TaskState}
    (hv : v.runnable = false) (hQ : Q v) (hk : rxRemoveFromReadyQ k t = .ok k') :
    Detached Q t (k'.setState t v) := by
  obtain ⟨l, hl, htl, hin⟩ := h.ready hs
  obtain ⟨k1, hk1, -, -, -, hq⟩ := rxRemoveFromReadyQ_mem hl htl
  obtain rfl : k1 = k' := Except.ok.inj (hk1.symm.trans hk)
  have hnot : t ∉ l.erase t := hl.nodup.not_mem_erase
  have hst : ((k1.setState t v).tcb t).state = v := by simp [Kernel.setState]
  refine ⟨by rw [hst]; exact hv, by rw [hst]; exact hQ, ?_, fun u hu => ?_, fun hr => ?_, ?_, ?_, fun tm htm hw => ?_⟩
  · show k1.curr ≠ t
    rw [hq.toRelinked.curr]
    exact hc.symm
  · rw [Kernel.next_setState]
    by_cases hul : u ∈ l
    · intro hnext
      have hue : u ∈ l.erase t := (List.mem_erase_of_ne hu).mpr hul
      exact hnot (Chain.next_mem hq.chain hue hnext)
    · rw [hq.frame u hul]
      exact fun hnext => hul (hin u hnext)
  · exact hnot (hq.chain.reaches_iff.mp ⟨[], hr⟩)
  · show ∀ m, (k1.sems m).task ≠ some t
    rw [hq.toRelinked.sems]
    exact h.sems
  · show ∀ m, (k1.mutexes m).task ≠ some t
    rw [hq.toRelinked.mutexes]
    exact h.mutexes
  · have hact : k1.active = k.active := by rw [hq.toRelinked.rest]
    have htim : k1.timers = k.timers := by rw [hq.toRelinked.rest]
    have hsem : ((k1.setState t v).tcb t).sem = (k1.tcb t).sem := k1.setTcb_keeps t t Tcb.sem rfl
    have hmut : ((k1.setState t v).tcb t).mutex = (k1.tcb t).mutex := k1.setTcb_keeps t t Tcb.mutex rfl
    have htm' : tm ∈ k1.active := htm
    apply h.timers tm (hact ▸ htm')
    unfold TimerWakes at hw ⊢
    rw [hsem, hmut, hq.toRelinked.sem, hq.toRelinked.mutex] at hw
    rw [← htim]
    exact hw

/-- The task is aborted for good. -/
theorem abort (h : OnlyReady k t) (hc : t ≠ k.curr) {r : OsErr} (hk : rxAbortTask k t = .ok (r, k')) :
    Detached (· = .abort) t k' := by
  rw [rxAbortTask, if_neg hc] at hk
  split_ifs at hk with hs
  · obtain ⟨k1, hrem, hk⟩ := bind_eq_ok.mp hk
    obtain ⟨-, rfl⟩ := Prod.mk.inj (Except.ok.inj hk)
    exact h.detached_of_removed hc hs rfl rfl hrem
  · obtain ⟨k1, hk1, hk⟩ := bind_eq_ok.mp hk
    obtain rfl := Except.ok.inj hk1
    obtain ⟨-, rfl⟩ := Prod.mk.inj (Except.ok.inj hk)
    have hd : Detached (fun _ => True) t k := h.detached_of_off hc hs trivial
    have ha := hd.setState_self (v := .abort) rfl trivial
    have hst : ((k.setState t .abort).tcb t).state = .abort := by simp [Kernel.setState]
    exact ⟨ha.idle, hst, ha.curr, ha.next, ha.ready, ha.sems, ha.mutexes, ha.timers⟩

/-- The task is suspended, or was out already. -/
theorem suspend (h : OnlyReady k t) (hc : t ≠ k.curr) {r : OsErr} (hk : rxSuspendTask k (some t) = .ok (r, k')) :
    Detached (fun _ => True) t k' := by
  simp only [rxSuspendTask] at hk
  split_ifs at hk with hs
  · obtain ⟨k1, hrem, hk⟩ := bind_eq_ok.mp hk
    obtain ⟨-, rfl⟩ := Prod.mk.inj (Except.ok.inj hk)
    exact h.detached_of_removed hc hs rfl trivial hrem
  · obtain ⟨-, rfl⟩ := Prod.mk.inj (Except.ok.inj hk)
    exact h.detached_of_off hc hs trivial

end OnlyReady

namespace WakeCall

variable {Q : TaskState → Prop} {k k1 : Kernel n} {t : Fin n} {tr a b : List ((WakeCall n × Option OsErr) × Kernel n)}

/-- A task that is out stays out, until it is created anew or resumed from a
suspension. -/
theorem detached_run (hQ : Q .abort) (h : Run.Exec Step k b) (hd : Detached Q t k)
    (hb : ∀ x ∈ b, ¬ x.1.1.Creates t ∧ (¬ x.1.1.Resumes t ∨ ¬ Q .suspend)) :
    ∀ x ∈ Run.states k b, Detached Q t x := by
  induction h with
  | nil k =>
    intro x hx
    rw [List.mem_singleton.mp hx]
    exact hd
  | cons hst _ ih =>
    intro x hx
    rcases List.mem_cons.mp hx with rfl | hx
    · exact hd
    · obtain ⟨hc, hr⟩ := hb _ List.mem_cons_self
      exact ih (hd.step hQ hc hr hst) (fun y hy => hb y (List.mem_cons_of_mem _ hy)) x hx

/-- **Aborted tasks.** In every run in which `rx_abort_task` is called only on
tasks that nothing but the ready queue leads to, a task for which it has
returned `OS_OK` is neither READY nor RUNNING and not dispatched in any state
from there on, unless it is created again. -/
theorem aborted_stays_out (h : Run.Exec Step k tr) (hg : Run.Guarded AbortSafe k tr)
    (htr : tr = a ++ ((.task (.abort t), some .osOk), k1) :: b) (hb : ∀ x ∈ b, ¬ x.1.1.Creates t) :
    ∀ x ∈ Run.states k1 b, (x.tcb t).state ≠ .ready ∧ (x.tcb t).state ≠ .running ∧ x.curr ≠ t := by
  subst htr
  obtain ⟨hadm, hk⟩ := h.step_of_append
  obtain ⟨-, hsafe, -⟩ := Run.guarded_append.mp hg
  obtain ⟨⟨r, k2⟩, hab, he⟩ := map_eq_ok.mp hk
  obtain ⟨hr, rfl⟩ := Prod.mk.inj he
  have hcur : t ≠ (Run.final k a).curr := by
    intro hc
    have hab' : rxAbortTask (Run.final k a) t = .ok (r, k2) := hab
    rw [rxAbortTask, if_pos hc] at hab'
    obtain ⟨rfl, -⟩ := Prod.mk.inj (Except.ok.inj hab')
    cases hr
  have hd := (hsafe t rfl hcur).abort hcur hab
  obtain ⟨-, hrest⟩ := Run.exec_append.mp h
  intro x hx
  have hxd : Detached (· = .abort) t x := by
    cases hrest with
    | cons _ hrest => exact detached_run (Q := (· = .abort)) rfl hrest hd (fun y hy => ⟨hb y hy, Or.inr nofun⟩) x hx
  refine ⟨?_, ?_, hxd.curr⟩
  · rw [hxd.state]
    nofun
  · rw [hxd.state]
    nofun

/-- **Suspended tasks.** In every run in which `rx_suspend_task` is called only
on tasks that nothing but the ready queue leads to, a task other than the caller
for which it has returned `OS_OK` does not run in any state from there on, as
long as it is not resumed and not created anew. -/
theorem suspended_stays_out (h : Run.Exec Step k tr) (hg : Run.Guarded SuspendSafe k tr)
    (htr : tr = a ++ ((.task (.suspend (some t)), some .osOk), k1) :: b) (ht : t ≠ (Run.final k a).curr)
    (hb : ∀ x ∈ b, ¬ x.1.1.Creates t ∧ ¬ x.1.1.Resumes t) : ∀ x ∈ Run.states k1 b, x.curr ≠ t := by
  subst htr
  obtain ⟨hadm, hk⟩ := h.step_of_append
  obtain ⟨-, hsafe, -⟩ := Run.guarded_append.mp hg
  obtain ⟨⟨r, k2⟩, hsus, he⟩ := map_eq_ok.mp hk
  obtain ⟨-, rfl⟩ := Prod.mk.inj he
  have hd := (hsafe t rfl ht).suspend ht hsus
  obtain ⟨-, hrest⟩ := Run.exec_append.mp h
  intro x hx
  cases hrest with
  | cons _ hrest => exact (detached_run trivial hrest hd (fun y hy => ⟨(hb y hy).1, Or.inl (hb y hy).2⟩) x hx).curr

/-! ### Runs -/

instance (t : Fin n) : ∀ c : WakeCall n, Decidable (c.Creates t)
  | .task (.create u _) => inferInstanceAs (Decidable (u = t))
  | .task (.suspend _) | .task (.resume _) | .task (.setPrio _ _) | .task (.abort _) | .task (.complete _)
  | .task .sched | .task .tick | .task .preempt | .semWait _ _ _ | .semPost _ | .mutexLock _ _ _ | .mutexUnlock _
  | .sleep _ _ | .expire _ => inferInstanceAs (Decidable False)

instance (t : Fin n) : ∀ c : WakeCall n, Decidable (c.Resumes t)
  | .task (.resume u) => inferInstanceAs (Decidable (u = t))
  | .task (.create _ _) | .task (.suspend _) | .task (.setPrio _ _) | .task (.abort _) | .task (.complete _)
  | .task .sched | .task .tick | .task .preempt | .semWait _ _ _ | .semPost _ | .mutexLock _ _ _ | .mutexUnlock _
  | .sleep _ _ | .expire _ => inferInstanceAs (Decidable False)

/-- A run on the labels `is`, then `c` and then `js`. -/
theorem exists_run_at (k : Kernel n) (is : List (WakeCall n × Option OsErr)) (c : WakeCall n × Option OsErr)
    (js : List (WakeCall n × Option OsErr))
    (p : List ((WakeCall n × Option OsErr) × Kernel n) → Kernel n →
      List ((WakeCall n × Option OsErr) × Kernel n) → Bool)
    (h : ((Run.trace (Run.attempt Admissible exec) k is).bind fun a =>
      (Run.attempt Admissible exec (Run.final k a) c).bind fun k' =>
        (Run.trace (Run.attempt Admissible exec) k' js).map (p a k')) = some true) :
    ∃ a k' b, Run.Exec Step k (a ++ (c, k') :: b) ∧ a.map (·.1) = is ∧ b.map (·.1) = js ∧ p a k' b = true :=
  Run.exists_exec_at (f := Run.attempt Admissible exec) (fun _ _ _ => Run.step_of_attempt) is c js p h

/-- Three tasks and a semaphore with one permit. -/
def oneSem : Kernel 3 := (rxCreateSemaphore (Kernel.allReady 2) 0 1).2

/-- Task 1 is READY and on nothing but the ready queue. -/
theorem oneSem_onlyReady : OnlyReady oneSem 1 where
  notRunning := by decide
  ready _ := ⟨[0, 1, 2], by decide, by decide, by decide⟩
  off h := absurd (by decide) h
  sems m := by
    show (Function.update (fun _ => ({} : Semaphore 3)) 0 _ m).task ≠ some 1
    by_cases hm : m = 0
    · rw [hm, Function.update_self]
      nofun
    · rw [Function.update_of_ne hm]
      nofun
  mutexes _ := nofun
  timers _ h := by cases h

/-- Task 1 is aborted while it is READY; a resume of it fails, and the post and
the wait of the others pass it by. -/
theorem aborted_stays_out_oneSem : ∃ a k1 b, Run.Exec Step oneSem (a ++ ((.task (.abort 1), some .osOk), k1) :: b) ∧
    Run.Guarded AbortSafe oneSem (a ++ ((.task (.abort 1), some .osOk), k1) :: b) ∧ b.length = 5 ∧
    ∀ x ∈ Run.states k1 b, (x.tcb 1).state ≠ .ready ∧ (x.tcb 1).state ≠ .running ∧ x.curr ≠ 1 := by
  have hrun := exists_run_at oneSem [] (.task (.abort 1), some .osOk)
    [(.semWait 0 (-1) 0, some .osOk), (.semWait 0 (-1) 0, none), (.task (.resume 1), some .osErr),
      (.semPost 0, some .osOk), (.task (.suspend none), some .osOk)]
    (fun _ _ b => decide (∀ x ∈ b, ¬ x.1.1.Creates 1)) (by decide +kernel)
  obtain ⟨a, k1, b, hex, ha, hb, hp⟩ := hrun
  obtain rfl : a = [] := List.map_eq_nil_iff.mp ha
  have hg : Run.Guarded AbortSafe oneSem ([] ++ ((.task (.abort 1), some .osOk), k1) :: b) := by
    refine ⟨fun t ht _ => ?_, Run.guarded_of_labels fun x hx k t ht => ?_⟩
    · obtain rfl : 1 = t := by injections
      exact oneSem_onlyReady
    · have hmem := List.mem_map_of_mem (f := (·.1)) hx
      rw [hb] at hmem
      simp only [List.mem_cons, List.not_mem_nil, or_false] at hmem
      rcases hmem with h | h | h | h | h
      all_goals
        rw [h] at ht
        cases ht
  refine ⟨[], k1, b, hex, hg, ?_, aborted_stays_out hex hg rfl (of_decide_eq_true hp)⟩
  have hlen := congrArg List.length hb
  rwa [List.length_map] at hlen

/-- Task 0 waits for the semaphore and is aborted; the next post makes it READY,
and it is dispatched. -/
theorem posted_after_abort : ∃ a k1 b, Run.Exec Step oneSem (a ++ ((.task (.abort 0), some .osOk), k1) :: b) ∧
    (∀ x ∈ b, ¬ x.1.1.Creates 0) ∧ ¬ ∀ x ∈ Run.states k1 b,
      (x.tcb 0).state ≠ .ready ∧ (x.tcb 0).state ≠ .running ∧ x.curr ≠ 0 := by
  have hrun := exists_run_at oneSem [(.semWait 0 (-1) 0, some .osOk), (.semWait 0 (-1) 0, none)]
    (.task (.abort 0), some .osOk) [(.semPost 0, some .osOk), (.task .sched, some .osOk)]
    (fun _ k1 b => decide ((∀ x ∈ b, ¬ x.1.1.Creates 0) ∧ (Run.final k1 b).curr = 0)) (by decide +kernel)
  obtain ⟨a, k1, b, hex, -, -, hp⟩ := hrun
  obtain ⟨hb, hcur⟩ := of_decide_eq_true hp
  exact ⟨a, k1, b, hex, hb, fun hall => (hall _ (Run.final_mem_states k1 b)).2.2 hcur⟩

/-- Task 1 is suspended while it is READY, and the post and the wait of the
others pass it by. -/
theorem suspended_stays_out_oneSem :
    ∃ a k1 b, Run.Exec Step oneSem (a ++ ((.task (.suspend (some 1)), some .osOk), k1) :: b) ∧
    Run.Guarded SuspendSafe oneSem (a ++ ((.task (.suspend (some 1)), some .osOk), k1) :: b) ∧ b.length = 4 ∧
    ∀ x ∈ Run.states k1 b, x.curr ≠ 1 := by
  have hrun := exists_run_at oneSem [] (.task (.suspend (some 1)), some .osOk)
    [(.semWait 0 (-1) 0, some .osOk), (.semWait 0 (-1) 0, none), (.semPost 0, some .osOk),
      (.task .sched, some .osOk)]
    (fun _ _ b => decide (∀ x ∈ b, ¬ x.1.1.Creates 1 ∧ ¬ x.1.1.Resumes 1)) (by decide +kernel)
  obtain ⟨a, k1, b, hex, ha, hb, hp⟩ := hrun
  obtain rfl : a = [] := List.map_eq_nil_iff.mp ha
  have hg : Run.Guarded SuspendSafe oneSem ([] ++ ((.task (.suspend (some 1)), some .osOk), k1) :: b) := by
    refine ⟨fun t ht _ => ?_, Run.guarded_of_labels fun x hx k t ht => ?_⟩
    · obtain rfl : 1 = t := by injections
      exact oneSem_onlyReady
    · have hmem := List.mem_map_of_mem (f := (·.1)) hx
      rw [hb] at hmem
      simp only [List.mem_cons, List.not_mem_nil, or_false] at hmem
      rcases hmem with h | h | h | h
      all_goals
        rw [h] at ht
        cases ht
  refine ⟨[], k1, b, hex, hg, ?_, suspended_stays_out hex hg rfl (by decide) (of_decide_eq_true hp)⟩
  have hlen := congrArg List.length hb
  rwa [List.length_map] at hlen

/-- Task 0 waits for the semaphore, task 1 suspends it and posts: it is
dispatched again, and nobody has resumed it. -/
theorem posted_after_suspend :
    ∃ a k1 b, Run.Exec Step oneSem (a ++ ((.task (.suspend (some 0)), some .osOk), k1) :: b) ∧
    (Run.final oneSem a).curr ≠ 0 ∧ (∀ x ∈ b, ¬ x.1.1.Creates 0 ∧ ¬ x.1.1.Resumes 0) ∧
      ¬ ∀ x ∈ Run.states k1 b, x.curr ≠ 0 := by
  have hrun := exists_run_at oneSem [(.semWait 0 (-1) 0, some .osOk), (.semWait 0 (-1) 0, none)]
    (.task (.suspend (some 0)), some .osOk) [(.semPost 0, some .osOk), (.task .sched, some .osOk)]
    (fun a k1 b => decide ((Run.final oneSem a).curr ≠ 0 ∧ (∀ x ∈ b, ¬ x.1.1.Creates 0 ∧ ¬ x.1.1.Resumes 0) ∧
      (Run.final k1 b).curr = 0)) (by decide +kernel)
  obtain ⟨a, k1, b, hex, -, -, hp⟩ := hrun
  obtain ⟨hcaller, hb, hcur⟩ := of_decide_eq_true hp
  exact ⟨a, k1, b, hex, hcaller, hb, fun hall => hall _ (Run.final_mem_states k1 b) hcur⟩

end WakeCall

end Rosx
