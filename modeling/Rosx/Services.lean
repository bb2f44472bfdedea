/-
# Every service leaves the interrupts unmasked

The services a task may call, all in one type: tasks, mutexes, semaphores,
message queues, event groups, wait queues, timers, block pools and tasklets.
A call that gives up the processor goes on from a `Rest` once its task is
switched to again, which only another task's `rx_sched` does.

A service that is called with the interrupts unmasked returns with the
interrupts unmasked, on every path, but for one slip (`Leaks`):
`rx_delete_queue` has its `rx_exit_critical` behind its `return`. It shows only
if nobody waits on the queue: each task that is woken is put on the ready queue,
and `__rx_add_to_ready_q` ends the critical section on its way
(`returns_open_iff`). `rx_release_block` has no exit on its error return either,
but it reports the error there, and `pr_error` has a critical section of its
own.

The functions that have no effect here but to wait (`rx_ndelay` and the like)
are left out, and so is `rx_wait_queue_timeout`, which does not compile:
`struct wait_queue` has no `timeout`.

Key definitions: `System`, `Service`, `Rest`, `Returns`, `Service.Leaks`.
-/
import Rosx.Masking
import Rosx.Tasklet

namespace Rosx

open Linked

variable {n l : ℕ}

/-! ### The services -/

/-- The kernel, the block pools and the tasklets. -/
structure System (n l : ℕ) where
  k : Kernel n
  blocks : BlockMem n
  tasklets : Tasklets l

/-- A service call. The timer of a call is a local variable of the source, named
here. The condition of `rx_wait_queue` is known by the values that it takes. -/
inductive Service (n l : ℕ) where
  | createTask (t : Fin n) (a : TaskArgs)
  | deleteTask (t : Fin n)
  | completeTask (t : Fin n)
  | setTaskPrio (t : Fin n) (prio : ℤ)
  | suspendTask (t : Option (Fin n))
  | resumeTask (t : Fin n)
  | abortTask (t : Fin n)
  | sched
  | createMutex (m : ℕ)
  | deleteMutex (m : ℕ)
  | mutexUnlock (m : ℕ)
  | mutexLock (m : ℕ) (timeout : ℤ) (tm : ℕ)
  | createSemaphore (m : ℕ) (val : ℤ)
  | deleteSemaphore (m : ℕ)
  | semaphorePost (m : ℕ)
  | semaphoreWait (m : ℕ) (timeout : ℤ) (tm : ℕ)
  | createQueue (m : ℕ) (sizeOfBlock numOfBlocks queueStart : ℤ) (flag : Word)
  | deleteQueue (m : ℕ)
  | readFromQueue (mq : Option ℕ) (buffer : Bool) (size timeout : ℤ) (tm : ℕ)
  | writeToQueue (mq : Option ℕ) (msg : Option (List UInt8)) (size timeout : ℤ) (tm : ℕ)
  | createEventGroup (g : ℕ)
  | deleteEventGroup (g : ℕ)
  | setEventFlag (flag : Word)
  | clearEventFlag (flag : Word)
  | waitEventGroup (g : ℕ) (flag : Word)
  | notifyEvent (m : ℕ) (event : List UInt8) (tm : ℕ)
  | waitQueue (wq : ℕ) (cond : ℕ → Bool)
  | waitOn (wq : ℕ)
  | waitOnTimeout (wq : ℕ) (timeout : ℤ) (tm : ℕ)
  | wakeup (wq : ℕ)
  | initTimer (tm : ℕ) (h : Option Handler) (priv : Fin n) (ticks : Word)
  | createTimer (tm : ℕ) (h : Option Handler) (priv : Fin n) (ticks : Word)
  | deleteTimer (tm : ℕ)
  | startTimer (tm : Option ℕ)
  | stopTimer (tm : ℕ)
  | modTimer (tm : Option ℕ) (delay : Word)
  | msleep (time : Word) (tm : ℕ)
  | ssleep (time : Word) (tm : ℕ)
  | createBlockPool (p : ℕ) (name : List Char) (blockSize : Word) (start : ℕ) (poolSize : Word)
  | deleteBlockPool (p : ℕ)
  | allocateBlock (p : ℕ) (flags : ℤ)
  | releaseBlock (blockPtr : ℕ)
  | prioritizeBlockPool (p : ℕ)
  | initTasklet (t : Option (Fin l)) (func : Option ℕ) (data : ℕ)
  | enableTasklet (t : Option (Fin l))
  | disableTasklet (t : Option (Fin l))
  | scheduleTasklet (t : Option (Fin l))

/-- What is left of a call that waits in `rx_sched`: its return, the end of a
read or a write, the next look at the condition of `rx_wait_queue`, or
`__rx_finish_wait`. -/
inductive Rest where
  | ret
  | read (m : ℕ) (timed : Bool)
  | write (m : ℕ) (msg : List UInt8) (timed : Bool)
  | waitQueue (wq : ℕ) (cond : ℕ → Bool) (i : ℕ)
  | finishWait

namespace System

variable (s : System n l)

/-- A call of the kernel that returns a code, or waits. -/
def call {β : Type} (r : Res (β × Kernel n)) (f : β → Option Rest) : Res (Option Rest × System n l) :=
  r.map fun x => (f x.1, { s with k := x.2 })

/-- A call of the kernel that returns nothing. -/
def run (r : Res (Kernel n)) (o : Option Rest) : Res (Option Rest × System n l) :=
  r.map fun k => (o, { s with k := k })

/-- A call on a tasklet, in a critical section unless the pointer is NULL. -/
def onTasklet (t : Option (Fin l)) (r : Res (Tasklets l)) : Res (Option Rest × System n l) :=
  match t with
  | none => .ok (none, s)
  | some _ => r.map fun x => (none, { s with k := s.k.enterCritical.exitCritical, tasklets := x })

/-- The task joins a wait queue and gives up the processor. -/
def wait (fuel wq : ℕ) (v : TaskState) (timeout : ℤ) (tm : ℕ) (o : Rest) : Res (Option Rest × System n l) :=
  s.run (rxAddToWaitQueue fuel s.k wq v timeout tm >>= rxSched) (some o)

end System

/-- A call up to its return (`none`) or to the `rx_sched` it waits in. -/
def Service.exec (fuel : ℕ) (s : System n l) : Service n l → Res (Option Rest × System n l)
  | .createTask t a => s.call (rxCreateTask s.k t a) fun _ => none
  | .deleteTask t => s.call (rxDeleteTask s.k t) fun _ => none
  | .completeTask t => s.call (rxCompleteTask s.k t) fun r => if r = .osOk then some .ret else none
  | .setTaskPrio t p => s.call (rxSetTaskPrio s.k t p) fun _ => none
  | .suspendTask o => s.call (rxSuspendTask s.k o) fun _ => if o = none then some .ret else none
  | .resumeTask t => s.call (rxResumeTask s.k t) fun _ => none
  | .abortTask t => s.call (rxAbortTask s.k t) fun _ => none
  | .sched => s.run (rxSched s.k) (some .ret)
  | .createMutex m => s.call (.ok (rxCreateMutex s.k m)) fun _ => none
  | .deleteMutex m => s.run (rxDeleteMutex s.k m) none
  | .mutexUnlock m => s.call (rxMutexUnlock s.k m) fun _ => none
  | .mutexLock m timeout tm => s.call (rxMutexLock s.k m timeout tm) fun r => if r = none then some .ret else none
  | .createSemaphore m val => s.call (.ok (rxCreateSemaphore s.k m val)) fun _ => none
  | .deleteSemaphore m => s.run (rxDeleteSemaphore s.k m) none
  | .semaphorePost m => s.call (rxSemaphorePost s.k m) fun _ => none
  | .semaphoreWait m timeout tm =>
    s.call (rxSemaphoreWait s.k m timeout tm) fun r => if r = none then some .ret else none
  | .createQueue m size num start flag => s.call (.ok (rxCreateQueue s.k m size num start flag)) fun _ => none
  | .deleteQueue m => s.call (rxDeleteQueue s.k m) fun _ => none
  | .readFromQueue mq buffer size timeout tm =>
    s.call (rxReadFromQueue s.k mq buffer size timeout tm) fun r =>
      if r = none then mq.map fun m => .read m (timeout ≠ 0) else none
  | .writeToQueue mq msg size timeout tm =>
    s.call (rxWriteToQueue s.k mq msg size timeout tm) fun r =>
      if r = none then mq.map fun m => .write m (msg.getD []) (timeout ≠ 0) else none
  | .createEventGroup g => s.call (.ok (rxCreateEventGroup s.k g)) fun _ => none
  | .deleteEventGroup g => s.run (rxDeleteEventGroup s.k g) none
  | .setEventFlag flag => s.call (.ok (rxSetEventFlag s.k flag)) fun _ => none
  | .clearEventFlag flag => s.call (.ok (rxClearEventFlag s.k flag)) fun _ => none
  | .waitEventGroup g flag => s.run (rxWaitEventGroup s.k g flag) (some .ret)
  | .notifyEvent m event tm =>
    s.call (rxNotifyEvent s.k m event tm) fun r => if r = none then some (.write m event true) else none
  | .waitQueue wq cond =>
    if cond 0 then .ok (none, s) else s.wait fuel wq .interruptible 0 0 (.waitQueue wq cond 1)
  | .waitOn wq => s.wait fuel wq .uninterruptible 0 0 .finishWait
  | .waitOnTimeout wq timeout tm => s.wait fuel wq .uninterruptible timeout tm .finishWait
  | .wakeup wq => s.run (rxWakeup s.k wq) none
  | .initTimer tm (some h) priv ticks => s.run (.ok (s.k.rxInitTimer tm h priv ticks)) none
  | .initTimer tm none priv ticks =>
    s.run (s.k.rxInitSleep tm (some priv) ticks) (if ticks = 0 then none else some .ret)
  | .createTimer tm (some h) priv ticks => s.run (.ok (s.k.rxCreateTimer tm h priv ticks)) none
  | .createTimer tm none priv ticks =>
    s.run (s.k.rxCreateSleep tm (some priv) ticks) (if ticks = 0 then none else some .ret)
  | .deleteTimer tm => s.run (.ok (s.k.rxDeleteTimer tm)) none
  | .startTimer (some tm) => s.run (.ok (s.k.rxStartTimer tm)) none
  | .startTimer none => .ok (none, s)
  | .stopTimer tm => s.run (s.k.rxStopTimer tm) none
  | .modTimer tm delay => s.run (.ok (s.k.rxModTimer tm delay)) none
  | .msleep time tm => s.call (s.k.rxMsleep time tm) fun r => if r = none then some .ret else none
  | .ssleep time tm => s.call (s.k.rxSsleep time tm) fun r => if r = none then some .ret else none
  | .createBlockPool p name blockSize start poolSize =>
    .ok (none, { s with blocks := (s.blocks.rxCreateBlockPool p name blockSize start poolSize).2 })
  | .deleteBlockPool p =>
    let x := s.blocks.rxDeleteBlockPool s.k p
    .ok (none, { s with k := x.2.2, blocks := x.2.1 })
  | .allocateBlock p flags =>
    (s.blocks.rxAllocateBlock s.k p flags).map fun x => (none, { s with k := x.2.2, blocks := x.2.1 })
  | .releaseBlock ptr =>
    (s.blocks.rxReleaseBlock s.k ptr).map fun x => (none, { s with k := x.2.2, blocks := x.2.1 })
  | .prioritizeBlockPool p => .ok (none, { s with blocks := (s.blocks.rxPrioritizeBlockPool p).2 })
  | .initTasklet t func data => .ok (none, { s with tasklets := (s.tasklets.rxInitTasklet t func data).2 })
  | .enableTasklet t => s.onTasklet t (.ok (s.tasklets.rxEnableTasklet t))
  | .disableTasklet t => s.onTasklet t (.ok (s.tasklets.rxDisableTasklet t))
  | .scheduleTasklet t => s.onTasklet t (s.tasklets.rxScheduleTasklet t)

/-- The rest of a call, up to its return or to the next `rx_sched` it waits in. -/
def Rest.exec (fuel : ℕ) (s : System n l) : Rest → Res (Option Rest × System n l)
  | .ret => .ok (none, s)
  | .read m timed => s.call (rxReadFromQueueResume s.k m timed) fun _ => none
  | .write m msg timed => s.call (rxWriteToQueueResume s.k m msg timed) fun _ => none
  | .waitQueue wq cond i =>
    if cond i then s.call (.ok (rxFinishWait s.k)) fun _ => none
    else s.wait fuel wq .interruptible 0 0 (.waitQueue wq cond (i + 1))
  | .finishWait => s.call (.ok (rxFinishWait s.k)) fun _ => none

/-- The task `t`, which waits in `rx_sched`, goes on: it was not switched away
from, or another task has switched to it. -/
def Resumed (t : Fin n) (s s' : System n l) : Prop :=
  (s' = s ∧ s.k.curr = t) ∨ ∃ k0, k0.port.InTask ∧ k0.curr ≠ t ∧ rxSched k0 = .ok s'.k ∧ s'.k.curr = t

/-- The rest of a call returns, waiting any number of times. -/
inductive Rest.Returns (fuel : ℕ) (t : Fin n) : Rest → System n l → System n l → Prop
  | last {r : Rest} {s s' : System n l} : r.exec fuel s = .ok (none, s') → Rest.Returns fuel t r s s'
  | wait {r r' : Rest} {s s1 s2 s' : System n l} : r.exec fuel s = .ok (some r', s1) → Resumed t s1 s2 →
      Rest.Returns fuel t r' s2 s' → Rest.Returns fuel t r s s'

/-- The call returns: at once, or from the `rx_sched` it waits in. -/
def Service.Returns (fuel : ℕ) (c : Service n l) (s s' : System n l) : Prop :=
  c.exec fuel s = .ok (none, s') ∨
    ∃ r s1 s2, c.exec fuel s = .ok (some r, s1) ∧ Resumed s.k.curr s1 s2 ∧ r.Returns fuel s.k.curr s2 s'

/-- The one way to return from inside a critical section: `rx_delete_queue`
where nobody waits on the queue. -/
def Service.Leaks (s : System n l) : Service n l → Prop
  | .deleteQueue m => (s.k.queues m).writeTask = none ∧ (s.k.queues m).readTask = none
  | _ => False

/-! ### One part of a call -/

section Parts

variable {s s' : System n l} {o : Option Rest} {fuel : ℕ}

theorem System.call_balanced {β : Type} {r : Res (β × Kernel n)} {f : β → Option Rest}
    (h : s.call r f = .ok (o, s')) (hr : ∀ x k', r = .ok (x, k') → Balanced s.k.port k'.port) :
    Balanced s.k.port s'.k.port := by
  obtain ⟨⟨x, k'⟩, hx, he⟩ := map_eq_ok.mp h
  obtain ⟨-, rfl⟩ := Prod.mk.inj he
  exact hr x k' hx

theorem System.run_balanced {r : Res (Kernel n)} {f : Option Rest} (h : s.run r f = .ok (o, s'))
    (hr : ∀ k', r = .ok k' → Balanced s.k.port k'.port) : Balanced s.k.port s'.k.port := by
  obtain ⟨k', hx, he⟩ := map_eq_ok.mp h
  obtain ⟨-, rfl⟩ := Prod.mk.inj he
  exact hr k' hx

theorem System.wait_balanced {wq tm : ℕ} {v : TaskState} {timeout : ℤ} {r : Rest}
    (h : s.wait fuel wq v timeout tm r = .ok (o, s')) : Balanced s.k.port s'.k.port := by
  refine s.run_balanced h fun k' hk => ?_
  obtain ⟨k1, hadd, hs⟩ := bind_eq_ok.mp hk
  exact (Balanced.rxAddToWaitQueue hadd).trans (Balanced.rxSched hs)

theorem System.onTasklet_balanced {t : Option (Fin l)} {r : Res (Tasklets l)}
    (h : s.onTasklet t r = .ok (o, s')) : Balanced s.k.port s'.k.port := by
  cases t with
  | none =>
    obtain ⟨-, rfl⟩ := Prod.mk.inj (Except.ok.inj h)
    exact Balanced.refl _
  | some t =>
    obtain ⟨x, -, he⟩ := map_eq_ok.mp h
    obtain ⟨-, rfl⟩ := Prod.mk.inj he
    exact (Balanced.refl _).critical.balanced

/-- What a call computes that always returns. -/
theorem ok_balanced {β : Type} {x : β × Kernel n} (h : Balanced s.k.port x.2.port) (y : β) (k' : Kernel n)
    (he : (Except.ok x : Res (β × Kernel n)) = .ok (y, k')) : Balanced s.k.port k'.port := by
  obtain rfl : x = (y, k') := Except.ok.inj he
  exact h

theorem ok_balanced_run {k : Kernel n} (h : Balanced s.k.port k.port) (k' : Kernel n)
    (he : (Except.ok k : Res (Kernel n)) = .ok k') : Balanced s.k.port k'.port := by
  obtain rfl : k = k' := Except.ok.inj he
  exact h

/-- Every service but the one with the slip. -/
theorem Service.exec_balanced {c : Service n l} (hq : ∀ m, c ≠ .deleteQueue m)
    (h : c.exec fuel s = .ok (o, s')) : Balanced s.k.port s'.k.port := by
  unfold Service.exec at h
  cases c with
  | createTask t a => exact s.call_balanced h fun _ _ => Balanced.rxCreateTask
  | deleteTask t => exact s.call_balanced h fun _ _ => Balanced.rxDeleteTask
  | completeTask t => exact s.call_balanced h fun _ _ => Balanced.rxCompleteTask
  | setTaskPrio t p => exact s.call_balanced h fun _ _ => Balanced.rxSetTaskPrio
  | suspendTask o => exact s.call_balanced h fun _ _ => Balanced.rxSuspendTask
  | resumeTask t => exact s.call_balanced h fun _ _ => Balanced.rxResumeTask
  | abortTask t => exact s.call_balanced h fun _ _ => Balanced.rxAbortTask
  | sched => exact s.run_balanced h fun _ => Balanced.rxSched
  | createMutex m => exact s.call_balanced h (ok_balanced (Balanced.rxCreateMutex s.k m))
  | deleteMutex m => exact s.run_balanced h fun _ => Balanced.rxDeleteMutex
  | mutexUnlock m => exact s.call_balanced h fun _ _ => Balanced.rxMutexUnlock
  | mutexLock m timeout tm => exact s.call_balanced h fun _ _ => Balanced.rxMutexLock
  | createSemaphore m val => exact s.call_balanced h (ok_balanced (Balanced.rxCreateSemaphore s.k m val))
  | deleteSemaphore m => exact s.run_balanced h fun _ => Balanced.rxDeleteSemaphore
  | semaphorePost m => exact s.call_balanced h fun _ _ => Balanced.rxSemaphorePost
  | semaphoreWait m timeout tm => exact s.call_balanced h fun _ _ => Balanced.rxSemaphoreWait
  | createQueue m size num start flag =>
    exact s.call_balanced h (ok_balanced (Balanced.rxCreateQueue s.k m size num start flag))
  | deleteQueue m => exact absurd rfl (hq m)
  | readFromQueue mq buffer size timeout tm => exact s.call_balanced h fun _ _ => Balanced.rxReadFromQueue
  | writeToQueue mq msg size timeout tm => exact s.call_balanced h fun _ _ => Balanced.rxWriteToQueue
  | createEventGroup g => exact s.call_balanced h (ok_balanced (Balanced.rxCreateEventGroup s.k g))
  | deleteEventGroup g => exact s.run_balanced h fun _ => Balanced.rxDeleteEventGroup
  | setEventFlag flag => exact s.call_balanced h (ok_balanced (Balanced.refl s.k.port))
  | clearEventFlag flag => exact s.call_balanced h (ok_balanced (Balanced.refl s.k.port))
  | waitEventGroup g flag => exact s.run_balanced h fun _ => Balanced.rxWaitEventGroup
  | notifyEvent m event tm => exact s.call_balanced h fun _ _ => Balanced.rxWriteToQueue
  | waitQueue wq cond =>
    dsimp only at h
    split_ifs at h
    · obtain ⟨-, rfl⟩ := Prod.mk.inj (Except.ok.inj h)
      exact Balanced.refl _
    · exact s.wait_balanced h
  | waitOn wq => exact s.wait_balanced h
  | waitOnTimeout wq timeout tm => exact s.wait_balanced h
  | wakeup wq => exact s.run_balanced h fun _ => Balanced.rxWakeup
  | initTimer tm hd priv ticks =>
    cases hd with
    | some hd => exact s.run_balanced h (ok_balanced_run (Balanced.rxInitTimer s.k tm hd priv ticks))
    | none => exact s.run_balanced h fun _ => Balanced.rxInitSleep
  | createTimer tm hd priv ticks =>
    cases hd with
    | some hd => exact s.run_balanced h (ok_balanced_run (Balanced.rxInitTimer s.k tm hd priv ticks))
    | none => exact s.run_balanced h fun _ => Balanced.rxCreateSleep
  | deleteTimer tm => exact s.run_balanced h (ok_balanced_run (Balanced.refl s.k.port))
  | startTimer tm =>
    cases tm with
    | some tm => exact s.run_balanced h (ok_balanced_run (Balanced.rxStartTimer s.k tm))
    | none =>
      obtain ⟨-, rfl⟩ := Prod.mk.inj (Except.ok.inj h)
      exact Balanced.refl _
  | stopTimer tm => exact s.run_balanced h fun _ => Balanced.rxStopTimer
  | modTimer tm delay => exact s.run_balanced h (ok_balanced_run (Balanced.rxModTimer s.k tm delay))
  | msleep time tm => exact s.call_balanced h fun _ _ => Balanced.rxMsleep
  | ssleep time tm => exact s.call_balanced h fun _ _ => Balanced.rxSsleep
  | createBlockPool p name blockSize start poolSize =>
    obtain ⟨-, rfl⟩ := Prod.mk.inj (Except.ok.inj h)
    exact Balanced.refl _
  | deleteBlockPool p =>
    obtain ⟨-, rfl⟩ := Prod.mk.inj (Except.ok.inj h)
    exact Balanced.rxDeleteBlockPool s.blocks s.k p
  | allocateBlock p flags =>
    obtain ⟨⟨x, b, k'⟩, hx, he⟩ := map_eq_ok.mp h
    obtain ⟨-, rfl⟩ := Prod.mk.inj he
    exact Balanced.rxAllocateBlock hx
  | releaseBlock ptr =>
    obtain ⟨⟨x, b, k'⟩, hx, he⟩ := map_eq_ok.mp h
    obtain ⟨-, rfl⟩ := Prod.mk.inj he
    exact Balanced.rxReleaseBlock hx
  | prioritizeBlockPool p =>
    obtain ⟨-, rfl⟩ := Prod.mk.inj (Except.ok.inj h)
    exact Balanced.refl _
  | initTasklet t func data =>
    obtain ⟨-, rfl⟩ := Prod.mk.inj (Except.ok.inj h)
    exact Balanced.refl _
  | enableTasklet t => exact s.onTasklet_balanced h
  | disableTasklet t => exact s.onTasklet_balanced h
  | scheduleTasklet t => exact s.onTasklet_balanced h

theorem Rest.exec_balanced {r : Rest} (h : r.exec fuel s = .ok (o, s')) : Balanced s.k.port s'.k.port := by
  unfold Rest.exec at h
  cases r with
  | ret =>
    obtain ⟨-, rfl⟩ := Prod.mk.inj (Except.ok.inj h)
    exact Balanced.refl _
  | read m timed => exact s.call_balanced h fun _ _ => Balanced.rxReadFromQueueResume
  | write m msg timed => exact s.call_balanced h fun _ _ => Balanced.rxWriteToQueueResume
  | waitQueue wq cond i =>
    dsimp only at h
    split_ifs at h
    · exact s.call_balanced h (ok_balanced (Balanced.rxFinishWait s.k))
    · exact s.wait_balanced h
  | finishWait => exact s.call_balanced h (ok_balanced (Balanced.rxFinishWait s.k))

end Parts

/-! ### The slip -/

section Slip

variable {k k' : Kernel n} {m : ℕ} {r : OsErr}

/-- A writer that is woken ends the critical section. -/
theorem Ends.deleteWriter {t : Fin n} (h : deleteWriter m k t = .ok k') : Ends k.port k'.port := by
  obtain ⟨k0, hstop, h⟩ := bind_eq_ok.mp h
  obtain ⟨⟨e, k1⟩, hadd, h⟩ := bind_eq_ok.mp h
  obtain rfl := Except.ok.inj h
  have h1 := Balanced.stopTaskTimer hstop
  have h2 := Ends.rxAddToReadyQ (by simp [Kernel.setQueue]) hadd
  exact h1.ends h2

theorem Ends.deleteReader {t : Fin n} (ht : (k.queues m).readTask = some t) (h : deleteReader m k = .ok k') :
    Ends k.port k'.port := by
  unfold Rosx.deleteReader at h
  rw [ht] at h
  obtain ⟨k0, hstop, h⟩ := bind_eq_ok.mp h
  obtain ⟨⟨e, k1⟩, hadd, h⟩ := bind_eq_ok.mp h
  obtain rfl := Except.ok.inj h
  have h1 := Balanced.stopTaskTimer hstop
  have h2 := Ends.rxAddToReadyQ (by simp) hadd
  exact h1.ends h2

theorem Balanced.deleteReader (h : deleteReader m k = .ok k') : Balanced k.port k'.port := by
  cases ht : (k.queues m).readTask with
  | none =>
    unfold Rosx.deleteReader at h
    rw [ht] at h
    obtain rfl := Except.ok.inj h
    exact Balanced.refl _
  | some t => exact (Ends.deleteReader ht h).balanced

/-- `rx_delete_queue` unmasks the interrupts if and only if somebody waits on
the queue. -/
theorem rxDeleteQueue_open_iff (ho : k.port.Open) (h : rxDeleteQueue k m = .ok (r, k')) :
    k'.port.Open ↔ ¬ ((k.queues m).writeTask = none ∧ (k.queues m).readTask = none) := by
  obtain ⟨k1, hdrain, h⟩ := bind_eq_ok.mp h
  obtain ⟨k2, hread, h⟩ := bind_eq_ok.mp h
  obtain ⟨-, rfl⟩ := Prod.mk.inj (Except.ok.inj h)
  have hclosed : k.enterCritical.port.InTask := Or.inr ho.enter
  unfold drainLoop at hdrain
  cases hw : (k.queues m).writeTask with
  | some t =>
    have hw' : (k.enterCritical.queues m).writeTask = some t := hw
    rw [hw'] at hdrain
    obtain ⟨k0, hfirst, hrest⟩ := bind_eq_ok.mp hdrain
    have h1 := (Ends.deleteWriter hfirst).trans
      (Balanced.drainLoop (fun _ _ _ hk => (Ends.deleteWriter hk).balanced) hrest)
    have h2 := h1.trans (Balanced.deleteReader hread)
    exact ⟨fun _ hn => absurd hn.1 (by simp), fun _ => h2 hclosed⟩
  | none =>
    have hw' : (k.enterCritical.queues m).writeTask = none := hw
    rw [hw'] at hdrain
    obtain rfl := Except.ok.inj hdrain
    cases hr : (k.queues m).readTask with
    | some t =>
      have hr' : (k.enterCritical.queues m).readTask = some t := hr
      exact ⟨fun _ hn => absurd hn.2 (by simp), fun _ => Ends.deleteReader hr' hread hclosed⟩
    | none =>
      have hr' : (k.enterCritical.queues m).readTask = none := hr
      unfold deleteReader at hread
      rw [hr'] at hread
      obtain rfl := Except.ok.inj hread
      refine iff_of_false (fun hopen => ?_) fun hn => hn ⟨rfl, rfl⟩
      have hcrit := ho.enter.2.1
      rw [show k.port.disableIrqGlobal.critical = false from hopen.2.1] at hcrit
      cases hcrit

end Slip

/-! ### Whole calls -/

section Calls

variable {s s' : System n l} {fuel : ℕ}

/-- A task that is switched to goes on with the interrupts unmasked. -/
theorem Resumed.opened {t : Fin n} (h : Resumed t s s') (ho : s.k.port.Open) : s'.k.port.Open := by
  rcases h with ⟨rfl, -⟩ | ⟨k0, htask, hne, hsched, hcur⟩
  · exact ho
  · rcases rxSched_cases hsched with ⟨he, -⟩ | ⟨x, -, -, he⟩
    · rw [he] at hcur
      exact absurd hcur hne
    · rw [he]
      exact htask.enter.exit

theorem Rest.Returns.opened {t : Fin n} {r : Rest} (h : r.Returns fuel t s s') (ho : s.k.port.Open) :
    s'.k.port.Open := by
  induction h with
  | last hx => exact (Rest.exec_balanced hx).opened ho
  | wait hx hres _ ih => exact ih (hres.opened ((Rest.exec_balanced hx).opened ho))

/-- **The interrupts are unmasked on return.** Every service that is called by
a task with the interrupts unmasked has them unmasked on every path on which it
returns, unless it deletes a queue on which nobody waits; and then they stay
masked. -/
theorem returns_open_iff {c : Service n l} (ho : s.k.port.Open) (h : c.Returns fuel s s') :
    s'.k.port.Open ↔ ¬ c.Leaks s := by
  by_cases hq : ∃ m, c = .deleteQueue m
  · obtain ⟨m, rfl⟩ := hq
    rcases h with h | ⟨r, s1, s2, h, -, -⟩
    · obtain ⟨⟨x, k'⟩, hx, he⟩ := map_eq_ok.mp h
      obtain ⟨-, rfl⟩ := Prod.mk.inj he
      exact rxDeleteQueue_open_iff ho hx
    · obtain ⟨x, -, he⟩ := map_eq_ok.mp h
      cases (Prod.mk.inj he).1
  have hq' : ∀ m, c ≠ .deleteQueue m := fun m he => hq ⟨m, he⟩
  have hno : ¬ c.Leaks s := by
    intro hl
    cases c with
    | deleteQueue m => exact hq' m rfl
    | _ => exact hl
  refine iff_of_true ?_ hno
  rcases h with h | ⟨r, s1, s2, h, hres, hret⟩
  · exact (Service.exec_balanced hq' h).opened ho
  · exact hret.opened (hres.opened ((Service.exec_balanced hq' h).opened ho))

end Calls

/-! ### Two deletions of a queue -/

/-- Two tasks, and a queue of two blocks on which they may block. -/
def oneQueue : System 2 0 where
  k := (rxCreateQueue (Kernel.allReady 1) 0 4 2 0 rxQBlock).2
  blocks := ⟨fun _ => {}, fun _ => {}⟩
  tasklets := { tasklet := fun t => t.elim0 }

/-- Task 0 waits for a message. -/
def readerWaits : System 2 0 :=
  { oneQueue with k := ((rxReadFromQueue oneQueue.k (some 0) true 4 0 0).toOption.map (·.2)).getD oneQueue.k }

/-- A call that does not wait, by its value. -/
theorem returns_of_call (fuel : ℕ) (c : Service n l) (s : System n l) {β : Type} {r : Res (β × Kernel n)}
    (hc : c.exec fuel s = s.call r fun _ => none) (hr : r.toOption.isSome = true) :
    ∃ x k', r = .ok (x, k') ∧ c.Returns fuel s { s with k := k' } := by
  cases r with
  | error e => cases hr
  | ok x => exact ⟨x.1, x.2, rfl, Or.inl hc⟩

/-- The deletion of a queue that a task waits to read from. -/
theorem deleteQueue_unmasks_reader : readerWaits.k.port.Open ∧
    ∃ s', (Service.deleteQueue 0).Returns 0 readerWaits s' ∧ s'.k.port.Open := by
  have ho : readerWaits.k.port.Open := by decide +kernel
  obtain ⟨r, k', -, hret⟩ := returns_of_call 0 (.deleteQueue 0) readerWaits rfl
    (show (rxDeleteQueue readerWaits.k 0).toOption.isSome = true by decide +kernel)
  refine ⟨ho, _, hret, (returns_open_iff ho hret).mpr ?_⟩
  show ¬ ((readerWaits.k.queues 0).writeTask = none ∧ (readerWaits.k.queues 0).readTask = none)
  decide +kernel

/-- Nobody waits on the queue that is deleted: the call returns with the
interrupts masked. -/
theorem deleteQueue_masks : oneQueue.k.port.Open ∧
    ∃ s', (Service.deleteQueue 0).Returns 0 oneQueue s' ∧ ¬ s'.k.port.Open := by
  obtain ⟨r, k', hk, hret⟩ := returns_of_call 0 (.deleteQueue 0) oneQueue rfl
    (show (rxDeleteQueue oneQueue.k 0).toOption.isSome = true by decide +kernel)
  refine ⟨by decide, _, hret, fun hopen => ?_⟩
  exact (rxDeleteQueue_open_iff (by decide) hk).mp hopen (by decide)

end Rosx
