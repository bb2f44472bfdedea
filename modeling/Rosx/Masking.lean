/-
# What the kernel's operations do to the critical section

In task context the port is either open (`Port.Open`: `__critical` is 0 and
the interrupts are unmasked) or inside a critical section (`Port.Closed`).
An operation of the kernel that is called inside a critical section may end
it, since its own `rx_exit_critical` does not know of the outer one; what it
must not do is leave a section open that it found closed. `Balanced k k'` is
this; `Ends k k'` says that the port is open afterwards in any case.

One lemma for each operation follows, for every path on which it returns and
whatever the lists look like. The services are put together from them in
`Rosx/Services.lean`.

Key definitions: `Port.InTask`, `Balanced`, `Ends`.
-/
import Rosx.Critical
import Rosx.Semaphore
import Rosx.Mutex
import Rosx.Event
import Rosx.BlockAlloc

namespace Rosx

open Linked

/-- Task context, outside or inside a critical section. -/
def Port.InTask (p : Port) : Prop := p.Open ∨ p.Closed

theorem Port.InTask.enter {p : Port} (h : p.InTask) : p.disableIrqGlobal.InTask := by
  rcases h with h | h
  · exact Or.inr h.enter
  · exact Or.inr h.enter

theorem Port.InTask.exit {p : Port} (h : p.InTask) : p.restoreIrqGlobal.Open := by
  rcases h with h | h
  · exact h.exit
  · exact h.exit

/-- An open port stays open, and task context stays task context. -/
structure Balanced (p q : Port) : Prop where
  opened : p.Open → q.Open
  task : p.InTask → q.InTask

/-- The port is open afterwards. -/
def Ends (p q : Port) : Prop := p.InTask → q.Open

section

variable {p q r : Port}

theorem Ends.balanced (h : Ends p q) : Balanced p q := ⟨fun ho => h (Or.inl ho), fun ht => Or.inl (h ht)⟩

theorem Ends.trans (h : Ends p q) (h' : Balanced q r) : Ends p r := fun ht => h'.opened (h ht)

theorem Balanced.refl (p : Port) : Balanced p p := ⟨id, id⟩

theorem Balanced.of_eq (h : q = p) : Balanced p q := h ▸ Balanced.refl p

theorem Balanced.trans (h : Balanced p q) (h' : Balanced q r) : Balanced p r :=
  ⟨fun ho => h'.opened (h.opened ho), fun ht => h'.task (h.task ht)⟩

theorem Balanced.ends (h : Balanced p q) (h' : Ends q r) : Ends p r := fun ht => h' (h.task ht)

theorem Balanced.exit (h : Balanced p q) : Ends p q.restoreIrqGlobal := fun ht => (h.task ht).exit

/-- A critical section around it. -/
theorem Balanced.critical (h : Balanced p.disableIrqGlobal q) : Ends p q.restoreIrqGlobal :=
  fun ht => (h.task ht.enter).exit

end

variable {n : ℕ} {k k' k'' : Kernel n}

/-! ### The ready queue and the scheduler -/

/-- A ready task is put on the queue, and the critical section is left. -/
theorem Ends.rxAddToReadyQ {new : Fin n} {r : OsErr} (hs : (k.tcb new).state.runnable = true)
    (h : rxAddToReadyQ k new = .ok (r, k')) : Ends k.port k'.port := by
  intro ht
  rw [Rosx.rxAddToReadyQ, if_neg (by simp [hs])] at h
  dsimp only at h
  split at h
  · obtain ⟨-, rfl⟩ := Prod.mk.inj (Except.ok.inj h)
    exact ht.enter.exit
  · obtain ⟨k1, hk1, h⟩ := bind_eq_ok.mp h
    have hp : k1.port = k.port.disableIrqGlobal := congrArg Kernel.port (addLoop_rest hk1)
    have hopen : k1.port.restoreIrqGlobal.Open := by
      rw [hp]
      exact ht.enter.exit
    obtain ⟨-, rfl⟩ := Prod.mk.inj (Except.ok.inj h)
    split_ifs
    · exact hopen
    · exact hopen

namespace Balanced

variable {t u : Fin n} {m tm : ℕ} {r : OsErr}

theorem rxAddToReadyQ (h : rxAddToReadyQ k t = .ok (r, k')) : Balanced k.port k'.port := by
  by_cases hs : (k.tcb t).state.runnable = true
  · exact (Ends.rxAddToReadyQ hs h).balanced
  · rw [Rosx.rxAddToReadyQ, if_pos (by simpa using hs)] at h
    obtain ⟨-, rfl⟩ := Prod.mk.inj (Except.ok.inj h)
    exact refl _

theorem rxRemoveFromReadyQ (h : rxRemoveFromReadyQ k t = .ok k') : Balanced k.port k'.port := by
  rw [rxRemoveFromReadyQ_port h]
  exact (refl _).critical.balanced

theorem rxSched (h : rxSched k = .ok k') : Balanced k.port k'.port := by
  rcases rxSched_cases h with ⟨rfl, -⟩ | ⟨x, -, -, rfl⟩
  · exact refl _
  · exact ⟨fun ho => Port.InTask.exit (Or.inr ho.enter), fun ht => Or.inl ht.enter.exit⟩

theorem requeue (hrem : Rosx.rxRemoveFromReadyQ k t = .ok k') (hadd : Rosx.rxAddToReadyQ k' u = .ok (r, k'')) :
    Balanced k.port k''.port :=
  (rxRemoveFromReadyQ hrem).trans (rxAddToReadyQ hadd)

/-! ### Timers -/

theorem rxAddToActiveTimerList (k : Kernel n) (tm : ℕ) : Balanced k.port (k.rxAddToActiveTimerList tm).port :=
  (refl _).critical.balanced

theorem rxStartTimer (k : Kernel n) (tm : ℕ) : Balanced k.port (k.rxStartTimer tm).port := by
  unfold Kernel.rxStartTimer
  split_ifs
  · exact refl _
  · exact rxAddToActiveTimerList k tm

theorem disarm (k : Kernel n) (tm : ℕ) : Balanced k.port (k.disarm tm).port := (refl _).critical.balanced

theorem timerStopped (k : Kernel n) (tm : ℕ) : Balanced k.port (k.timerStopped tm).port := by
  unfold Kernel.timerStopped
  split_ifs
  · exact disarm k tm
  · exact refl _

theorem rxStopTimer (h : k.rxStopTimer tm = .ok k') : Balanced k.port k'.port := by
  rw [Kernel.rxStopTimer_ok h]
  exact timerStopped k tm

theorem timerRemoved (k : Kernel n) (tm : ℕ) : Balanced k.port (k.timerRemoved tm).port :=
  (refl _).critical.balanced

theorem rxInitTimer (k : Kernel n) (tm : ℕ) (hd : Handler) (priv : Fin n) (ticks : Word) :
    Balanced k.port (k.rxInitTimer tm hd priv ticks).port := by
  unfold Kernel.rxInitTimer
  split_ifs
  · exact refl _
  · exact refl _

theorem rxAddTimer {delay : Word} (h : k.rxAddTimer tm delay t = .ok k') : Balanced k.port k'.port := by
  obtain ⟨k1, hrem, hs⟩ := bind_eq_ok.mp h
  have h1 := rxAddToActiveTimerList (k.setSleepTimer tm delay t) tm
  have h2 := rxRemoveFromReadyQ hrem
  exact (h1.trans h2).trans (rxSched hs)

theorem rxInitSleep {priv : Option (Fin n)} {ticks : Word} (h : k.rxInitSleep tm priv ticks = .ok k') :
    Balanced k.port k'.port := by
  unfold Kernel.rxInitSleep at h
  dsimp only at h
  split_ifs at h
  · obtain rfl := Except.ok.inj h
    exact refl _
  · have h1 := rxAddTimer h
    exact h1

theorem rxCreateSleep {priv : Option (Fin n)} {ticks : Word} (h : k.rxCreateSleep tm priv ticks = .ok k') :
    Balanced k.port k'.port := by
  unfold Kernel.rxCreateSleep at h
  dsimp only at h
  split_ifs at h
  · obtain rfl := Except.ok.inj h
    exact refl _
  · have h1 := rxAddTimer h
    exact h1

theorem rxMsleep {time : Word} {o : Option OsErr} (h : k.rxMsleep time tm = .ok (o, k')) : Balanced k.port k'.port := by
  unfold Kernel.rxMsleep at h
  dsimp only at h
  split_ifs at h
  · obtain ⟨-, rfl⟩ := Prod.mk.inj (Except.ok.inj h)
    exact refl _
  all_goals
    obtain ⟨k1, hadd, he⟩ := map_eq_ok.mp h
    obtain ⟨-, rfl⟩ := Prod.mk.inj he
    exact rxAddTimer hadd

theorem rxSsleep {time : Word} {o : Option OsErr} (h : k.rxSsleep time tm = .ok (o, k')) : Balanced k.port k'.port := by
  unfold Kernel.rxSsleep at h
  split_ifs at h
  · obtain ⟨-, rfl⟩ := Prod.mk.inj (Except.ok.inj h)
    exact refl _
  · obtain ⟨k1, hadd, he⟩ := map_eq_ok.mp h
    obtain ⟨-, rfl⟩ := Prod.mk.inj he
    exact rxAddTimer hadd

theorem rxModTimer (k : Kernel n) (o : Option ℕ) (delay : Word) : Balanced k.port (k.rxModTimer o delay).port := by
  unfold Kernel.rxModTimer
  split
  · exact refl _
  · split_ifs
    · exact refl _
    · exact refl _
    · rename_i tm _ _
      have h1 := rxStartTimer
        { k with timers := Function.update k.timers tm { k.timers tm with delay := delay * (1000 / Kernel.configHz) } } tm
      exact h1

theorem taskTimerStopped (k : Kernel n) (t : Fin n) : Balanced k.port (taskTimerStopped k t).port := by
  unfold Rosx.taskTimerStopped
  split
  · exact (timerStopped k _)
  · exact refl _

theorem stopTaskTimer (h : stopTaskTimer k t = .ok k') : Balanced k.port k'.port := by
  rw [(stopTaskTimer_ok h).2]
  exact taskTimerStopped k t

theorem dropTimer (k : Kernel n) (t : Fin n) : Balanced k.port (dropTimer k t).port := by
  unfold Rosx.dropTimer
  split
  · exact refl _
  · exact (timerRemoved k _)

/-! ### Wait chains -/

theorem appendWaiter {head head' : Option (Fin n)} (h : appendWaiter k head t = .ok (head', k')) :
    k'.port = k.port := by
  cases head with
  | none =>
    obtain ⟨-, rfl⟩ := Prod.mk.inj (Except.ok.inj h)
    rfl
  | some x =>
    obtain ⟨last, -, h⟩ := bind_eq_ok.mp h
    obtain ⟨-, rfl⟩ := Prod.mk.inj (Except.ok.inj h)
    rfl

/-- A chain is emptied by steps that are balanced. -/
theorem drainLoop {head : Kernel n → Option (Fin n)} {body : Kernel n → Fin n → Res (Kernel n)}
    (hbody : ∀ k t k', body k t = .ok k' → Balanced k.port k'.port) {f : ℕ} (h : drainLoop head body f k = .ok k') :
    Balanced k.port k'.port := by
  induction f generalizing k with
  | zero => cases h
  | succ f ih =>
    unfold Rosx.drainLoop at h
    split at h
    · obtain rfl := Except.ok.inj h
      exact refl _
    · obtain ⟨k1, h1, h⟩ := bind_eq_ok.mp h
      exact (hbody _ _ _ h1).trans (ih h)

/-! ### Tasks -/

theorem addToTaskList (h : addToTaskList k t = .ok k') : k'.port = k.port := by
  rw [(addToTaskList_frame h).1]

theorem rxCreateTask {a : TaskArgs} (h : rxCreateTask k t a = .ok (r, k')) : Balanced k.port k'.port := by
  rcases rxCreateTask_cases h with ⟨-, rfl | ⟨-, rfl⟩⟩ | ⟨stack, k1, k3, k4, halloc, hk3, hk4, -, rfl⟩
  · exact refl _
  · exact (Balanced.critical (refl _)).balanced
  · have h1 : k1.port = k.enterCritical.port := by rw [allocStack_frame halloc]
    have h3 : Balanced k1.port k3.port := by
      unfold addIfReady at hk3
      split_ifs at hk3
      · obtain ⟨⟨e, x⟩, hadd, rfl⟩ := map_eq_ok.mp hk3
        have h2 := rxAddToReadyQ hadd
        exact h2
      · obtain rfl := Except.ok.inj hk3
        exact refl _
    have h4 : Balanced k.enterCritical.port k4.port := by
      rw [← h1, addToTaskList hk4]
      exact h3
    exact h4.critical.balanced

theorem rxAbortTask (h : rxAbortTask k t = .ok (r, k')) : Balanced k.port k'.port := by
  unfold Rosx.rxAbortTask at h
  split_ifs at h
  · obtain ⟨-, rfl⟩ := Prod.mk.inj (Except.ok.inj h)
    exact refl _
  · obtain ⟨k1, hrem, h⟩ := bind_eq_ok.mp h
    obtain ⟨-, rfl⟩ := Prod.mk.inj (Except.ok.inj h)
    show Balanced k.port k1.port
    exact rxRemoveFromReadyQ hrem
  · obtain ⟨k1, hk1, h⟩ := bind_eq_ok.mp h
    obtain rfl := Except.ok.inj hk1
    obtain ⟨-, rfl⟩ := Prod.mk.inj (Except.ok.inj h)
    exact refl _

theorem rxCompleteTask (h : rxCompleteTask k t = .ok (r, k')) : Balanced k.port k'.port := by
  unfold Rosx.rxCompleteTask at h
  split_ifs at h
  · obtain ⟨-, rfl⟩ := Prod.mk.inj (Except.ok.inj h)
    exact refl _
  · obtain ⟨k1, hrem, h⟩ := bind_eq_ok.mp h
    obtain ⟨k2, hs, h⟩ := bind_eq_ok.mp h
    obtain ⟨-, rfl⟩ := Prod.mk.inj (Except.ok.inj h)
    have h1 := rxRemoveFromReadyQ hrem
    have h2 := rxSched hs
    exact h1.trans h2

theorem rxSetTaskPrio {p : ℤ} (h : rxSetTaskPrio k t p = .ok (r, k')) : Balanced k.port k'.port := by
  unfold Rosx.rxSetTaskPrio at h
  dsimp only at h
  split_ifs at h
  · obtain ⟨-, rfl⟩ := Prod.mk.inj (Except.ok.inj h)
    exact refl _
  · obtain ⟨k1, hrem, h⟩ := bind_eq_ok.mp h
    obtain ⟨⟨e, k2⟩, hadd, h⟩ := bind_eq_ok.mp h
    obtain ⟨-, rfl⟩ := Prod.mk.inj (Except.ok.inj h)
    have h1 := requeue hrem hadd
    exact h1
  · obtain ⟨-, rfl⟩ := Prod.mk.inj (Except.ok.inj h)
    exact refl _

theorem rxDeleteTask (h : rxDeleteTask k t = .ok (r, k')) : Balanced k.port k'.port := by
  unfold Rosx.rxDeleteTask at h
  split_ifs at h
  · obtain ⟨-, rfl⟩ := Prod.mk.inj (Except.ok.inj h)
    exact refl _
  · obtain ⟨-, rfl⟩ := Prod.mk.inj (Except.ok.inj h)
    exact refl _
  · split at h
    · cases h
    · obtain ⟨tmp, -, h⟩ := bind_eq_ok.mp h
      split at h
      · cases h
      · obtain ⟨-, rfl⟩ := Prod.mk.inj (Except.ok.inj h)
        exact refl _

theorem rxSuspendTask {o : Option (Fin n)} (h : rxSuspendTask k o = .ok (r, k')) : Balanced k.port k'.port := by
  cases o with
  | none =>
    obtain ⟨k1, hrem, h⟩ := bind_eq_ok.mp h
    obtain ⟨k2, hs, h⟩ := bind_eq_ok.mp h
    obtain ⟨-, rfl⟩ := Prod.mk.inj (Except.ok.inj h)
    have h1 := rxRemoveFromReadyQ hrem
    have h2 := rxSched hs
    exact h1.trans h2
  | some u =>
    simp only [Rosx.rxSuspendTask] at h
    split_ifs at h
    · obtain ⟨k1, hrem, h⟩ := bind_eq_ok.mp h
      obtain ⟨-, rfl⟩ := Prod.mk.inj (Except.ok.inj h)
      show Balanced k.port k1.port
      exact rxRemoveFromReadyQ hrem
    · obtain ⟨-, rfl⟩ := Prod.mk.inj (Except.ok.inj h)
      exact refl _

theorem rxResumeTask (h : rxResumeTask k t = .ok (r, k')) : Balanced k.port k'.port := by
  unfold Rosx.rxResumeTask at h
  split_ifs at h
  · obtain ⟨-, rfl⟩ := Prod.mk.inj (Except.ok.inj h)
    exact refl _
  · obtain ⟨⟨e, k1⟩, hadd, h⟩ := bind_eq_ok.mp h
    obtain ⟨-, rfl⟩ := Prod.mk.inj (Except.ok.inj h)
    have h1 := rxAddToReadyQ hadd
    exact h1

/-! ### Semaphores -/

theorem rxCreateSemaphore (k : Kernel n) (m : ℕ) (val : ℤ) : Balanced k.port (rxCreateSemaphore k m val).2.port := by
  unfold Rosx.rxCreateSemaphore
  split_ifs
  · exact refl _
  · exact (refl _).critical.balanced

theorem rxSemaphorePost (h : rxSemaphorePost k m = .ok (r, k')) : Balanced k.port k'.port := by
  unfold Rosx.rxSemaphorePost at h
  dsimp only at h
  split at h
  · obtain ⟨-, rfl⟩ := Prod.mk.inj (Except.ok.inj h)
    exact (refl _).critical.balanced
  · obtain ⟨⟨e, k1⟩, hadd, h⟩ := bind_eq_ok.mp h
    obtain ⟨-, rfl⟩ := Prod.mk.inj (Except.ok.inj h)
    have h1 := rxAddToReadyQ hadd
    exact (critical (p := k.port) h1).balanced

theorem deleteSemWaiter (h : deleteSemWaiter m k t = .ok k') : Balanced k.port k'.port := by
  obtain ⟨⟨e, k1⟩, hadd, h⟩ := bind_eq_ok.mp h
  obtain rfl := Except.ok.inj h
  have h1 := dropTimer (k.modTcb t fun c => { c with state := .ready, sem := none }) t
  have h2 := rxAddToReadyQ hadd
  exact h1.trans h2

theorem rxDeleteSemaphore (h : rxDeleteSemaphore k m = .ok k') : Balanced k.port k'.port := by
  obtain ⟨k1, hk1, h⟩ := bind_eq_ok.mp h
  obtain rfl := Except.ok.inj h
  have h1 := drainLoop (fun _ _ _ => deleteSemWaiter) hk1
  exact (critical (p := k.port) h1).balanced

theorem rxSemTimeout {timeout : Word} (h : rxSemTimeout k timeout tm = .ok k') : Balanced k.port k'.port := by
  obtain ⟨⟨e, k1⟩, hsus, h⟩ := bind_eq_ok.mp h
  obtain rfl := Except.ok.inj h
  have h1 := rxInitTimer k tm .semHandler k.curr timeout
  have h2 := rxStartTimer (k.rxInitTimer tm .semHandler k.curr timeout) tm
  have h3 := rxSuspendTask hsus
  exact (h1.trans h2).trans h3

theorem rxSemWaitChain {timeout : ℤ} {o : Option OsErr} (h : rxSemWaitChain k m timeout = .ok (o, k')) :
    Balanced k.port k'.port := by
  unfold Rosx.rxSemWaitChain at h
  dsimp only at h
  split_ifs at h
  · obtain ⟨-, rfl⟩ := Prod.mk.inj (Except.ok.inj h)
    exact (refl _).critical.balanced
  · obtain ⟨-, rfl⟩ := Prod.mk.inj (Except.ok.inj h)
    exact (refl _).critical.balanced
  · obtain ⟨k2, hrem, h⟩ := bind_eq_ok.mp h
    obtain ⟨⟨head, k3⟩, happ, h⟩ := bind_eq_ok.mp h
    obtain ⟨-, rfl⟩ := Prod.mk.inj (Except.ok.inj h)
    have h1 := rxRemoveFromReadyQ hrem
    have h2 := of_eq (appendWaiter happ)
    exact (critical (p := k.port) (h1.trans h2)).balanced

theorem rxSemaphoreWait {timeout : ℤ} {o : Option OsErr} (h : rxSemaphoreWait k m timeout tm = .ok (o, k')) :
    Balanced k.port k'.port := by
  rw [rxSemaphoreWait_eq] at h
  obtain ⟨⟨o1, k1⟩, hchain, h⟩ := bind_eq_ok.mp h
  have h1 := rxSemWaitChain hchain
  dsimp only at h
  split_ifs at h
  · obtain ⟨-, rfl⟩ := Prod.mk.inj (Except.ok.inj h)
    exact h1
  · obtain ⟨k2, hsleep, h⟩ := bind_eq_ok.mp h
    obtain ⟨-, rfl⟩ := Prod.mk.inj (Except.ok.inj h)
    unfold rxSemSleep at hsleep
    split_ifs at hsleep
    · exact h1.trans (rxSemTimeout hsleep)
    · exact h1.trans (rxSched hsleep)

/-! ### Mutexes -/

theorem rxCreateMutex (k : Kernel n) (m : ℕ) : Balanced k.port (rxCreateMutex k m).2.port :=
  (refl _).critical.balanced

theorem requeueIfReady (h : requeueIfReady k t = .ok k') : Balanced k.port k'.port := by
  unfold Rosx.requeueIfReady at h
  split_ifs at h
  · obtain ⟨k1, hrem, h⟩ := bind_eq_ok.mp h
    obtain ⟨⟨e, k2⟩, hadd, h⟩ := bind_eq_ok.mp h
    obtain rfl := Except.ok.inj h
    exact requeue hrem hadd
  · obtain rfl := Except.ok.inj h
    exact refl _

theorem inheritFrom (h : inheritFrom k t u = .ok k') : Balanced k.port k'.port := by
  unfold Rosx.inheritFrom at h
  split_ifs at h
  · have h1 := requeueIfReady h
    exact h1
  · obtain rfl := Except.ok.inj h
    exact refl _

theorem inheritLoop {f : ℕ} {start : Option (Fin n)} (h : inheritLoop k t f start = .ok k') : k'.port = k.port := by
  induction f generalizing k start with
  | zero => cases h
  | succ f ih =>
    cases start with
    | none =>
      obtain rfl := Except.ok.inj h
      rfl
    | some u =>
      simp only [Rosx.inheritLoop] at h
      split_ifs at h
      · have h1 := ih h
        exact h1
      · exact ih h

theorem restorePrio (h : restorePrio k t = .ok k') : Balanced k.port k'.port := by
  unfold Rosx.restorePrio at h
  dsimp only at h
  split_ifs at h
  · obtain ⟨k1, hrem, h⟩ := bind_eq_ok.mp h
    obtain ⟨⟨e, k2⟩, hadd, h⟩ := bind_eq_ok.mp h
    obtain rfl := Except.ok.inj h
    have h1 := requeue hrem hadd
    exact h1
  · obtain rfl := Except.ok.inj h
    exact refl _

theorem grantMutex (h : grantMutex k m t = .ok k') : Balanced k.port k'.port := by
  obtain ⟨k2, hinh, h⟩ := bind_eq_ok.mp h
  obtain ⟨⟨e, k3⟩, hadd, h⟩ := bind_eq_ok.mp h
  obtain rfl := Except.ok.inj h
  have h1 := taskTimerStopped (k.setMutex m { k.mutexes m with task := (k.tcb t).next }) t
  have h2 := of_eq (inheritLoop hinh)
  have h3 := rxAddToReadyQ hadd
  exact (h1.trans h2).trans h3

theorem rxMutexUnlock (h : rxMutexUnlock k m = .ok (r, k')) : Balanced k.port k'.port := by
  unfold Rosx.rxMutexUnlock at h
  dsimp only at h
  split_ifs at h
  · split at h
    · cases h
    · split_ifs at h
      · obtain ⟨-, rfl⟩ := Prod.mk.inj (Except.ok.inj h)
        exact (refl _).critical.balanced
      · obtain ⟨k1, hrest, h⟩ := bind_eq_ok.mp h
        have h1 := restorePrio hrest
        split at h
        · obtain ⟨-, rfl⟩ := Prod.mk.inj (Except.ok.inj h)
          exact (critical (p := k.port) h1).balanced
        · obtain ⟨k2, hgrant, h⟩ := bind_eq_ok.mp h
          obtain ⟨-, rfl⟩ := Prod.mk.inj (Except.ok.inj h)
          exact (critical (p := k.port) (h1.trans (grantMutex hgrant))).balanced
  · obtain ⟨-, rfl⟩ := Prod.mk.inj (Except.ok.inj h)
    exact (refl _).critical.balanced

theorem deleteWaiter (h : deleteWaiter m k t = .ok k') : Balanced k.port k'.port := by
  obtain ⟨⟨e, k1⟩, hadd, h⟩ := bind_eq_ok.mp h
  obtain rfl := Except.ok.inj h
  have h1 := taskTimerStopped (k.modTcb t fun c => { c with state := .ready, mutex := none }) t
  have h2 := rxAddToReadyQ hadd
  exact h1.trans h2

theorem rxDeleteMutex (h : rxDeleteMutex k m = .ok k') : Balanced k.port k'.port := by
  obtain ⟨k1, hk1, h⟩ := bind_eq_ok.mp h
  obtain rfl := Except.ok.inj h
  have h1 := drainLoop (fun _ _ _ => deleteWaiter) hk1
  exact (critical (p := k.port) h1).balanced

theorem rxMutexTimeout {timeout : Word} (h : rxMutexTimeout k timeout tm = .ok k') : Balanced k.port k'.port := by
  obtain ⟨⟨e, k1⟩, hsus, h⟩ := bind_eq_ok.mp h
  obtain rfl := Except.ok.inj h
  have h1 := rxInitTimer k tm .mutexHandler k.curr timeout
  have h2 := rxStartTimer (k.rxInitTimer tm .mutexHandler k.curr timeout) tm
  have h3 := rxSuspendTask hsus
  exact (h1.trans h2).trans h3

theorem rxMutexLockChain {timeout : ℤ} {o : Option OsErr} (h : rxMutexLockChain k m timeout = .ok (o, k')) :
    Balanced k.port k'.port := by
  unfold Rosx.rxMutexLockChain at h
  dsimp only at h
  split_ifs at h
  · obtain ⟨-, rfl⟩ := Prod.mk.inj (Except.ok.inj h)
    exact (refl _).critical.balanced
  · obtain ⟨-, rfl⟩ := Prod.mk.inj (Except.ok.inj h)
    exact (refl _).critical.balanced
  · obtain ⟨k2, hrem, h⟩ := bind_eq_ok.mp h
    obtain ⟨⟨head, k3⟩, happ, h⟩ := bind_eq_ok.mp h
    have h1 := rxRemoveFromReadyQ hrem
    have h2 := of_eq (appendWaiter happ)
    dsimp only at h
    split at h
    · cases h
    · obtain ⟨k5, hinh, h⟩ := bind_eq_ok.mp h
      obtain ⟨-, rfl⟩ := Prod.mk.inj (Except.ok.inj h)
      have h3 := inheritFrom hinh
      exact (critical (p := k.port) ((h1.trans h2).trans h3)).balanced

theorem rxMutexLock {timeout : ℤ} {o : Option OsErr} (h : rxMutexLock k m timeout tm = .ok (o, k')) :
    Balanced k.port k'.port := by
  rw [rxMutexLock_eq] at h
  obtain ⟨⟨o1, k1⟩, hchain, h⟩ := bind_eq_ok.mp h
  have h1 := rxMutexLockChain hchain
  dsimp only at h
  split_ifs at h
  · obtain ⟨-, rfl⟩ := Prod.mk.inj (Except.ok.inj h)
    exact h1
  · obtain ⟨k2, hsleep, h⟩ := bind_eq_ok.mp h
    obtain ⟨-, rfl⟩ := Prod.mk.inj (Except.ok.inj h)
    unfold rxMutexLockSleep at hsleep
    split_ifs at hsleep
    · exact h1.trans (rxMutexTimeout hsleep)
    · exact h1.trans (rxSched hsleep)

/-! ### Message queues -/

theorem rxCreateQueue (k : Kernel n) (m : ℕ) (size num start : ℤ) (flag : Word) :
    Balanced k.port (rxCreateQueue k m size num start flag).2.port := by
  unfold Rosx.rxCreateQueue
  split_ifs
  · exact refl _
  · exact refl _

theorem wakeWriter (h : wakeWriter k m = .ok k') : Balanced k.port k'.port := by
  unfold Rosx.wakeWriter at h
  split at h
  · obtain rfl := Except.ok.inj h
    exact refl _
  · obtain ⟨⟨e, k1⟩, hadd, h⟩ := bind_eq_ok.mp h
    obtain rfl := Except.ok.inj h
    have h1 := rxAddToReadyQ hadd
    exact (dropTimer k _).trans h1

theorem wakeReader (h : wakeReader k m = .ok k') : Balanced k.port k'.port := by
  unfold Rosx.wakeReader at h
  split at h
  · obtain rfl := Except.ok.inj h
    exact refl _
  · obtain ⟨⟨e, k1⟩, hadd, h⟩ := bind_eq_ok.mp h
    obtain rfl := Except.ok.inj h
    have h1 := rxAddToReadyQ hadd
    exact (dropTimer k _).trans h1

end Balanced

/-- The copy at the end of a read leaves the critical section. -/
theorem Ends.readCopy {m : ℕ} {r : Ret} (h : readCopy k m = .ok (r, k')) : Ends k.port k'.port := by
  obtain ⟨k1, hwake, h⟩ := bind_eq_ok.mp h
  obtain ⟨-, rfl⟩ := Prod.mk.inj (Except.ok.inj h)
  have h1 := Balanced.wakeWriter hwake
  exact h1.exit

theorem Ends.writeCopy {m : ℕ} {msg : List UInt8} {r : Ret} (h : writeCopy k m msg = .ok (r, k')) :
    Ends k.port k'.port := by
  obtain ⟨k1, hwake, h⟩ := bind_eq_ok.mp h
  obtain ⟨-, rfl⟩ := Prod.mk.inj (Except.ok.inj h)
  have h1 := Balanced.wakeReader hwake
  exact h1.exit

theorem Ends.blockReader {m tm : ℕ} {timeout : ℤ} (h : blockReader k m timeout tm = .ok k') :
    Ends k.port k'.port := by
  unfold Rosx.blockReader at h
  dsimp only at h
  split_ifs at h
  · obtain ⟨k1, hrem, h⟩ := bind_eq_ok.mp h
    have h1 := Balanced.rxRemoveFromReadyQ hrem
    have h2 := Balanced.rxSched h
    exact (Balanced.exit h1).trans h2
  · have h1 := Balanced.rxAddTimer h
    exact (Balanced.exit (Balanced.refl _)).trans h1

theorem Ends.blockWriter {m tm : ℕ} {timeout : ℤ} (h : blockWriter k m timeout tm = .ok k') :
    Ends k.port k'.port := by
  obtain ⟨k1, hrem, h⟩ := bind_eq_ok.mp h
  obtain ⟨⟨head, k2⟩, happ, h⟩ := bind_eq_ok.mp h
  have h1 := Balanced.rxRemoveFromReadyQ hrem
  have h2 := h1.trans (Balanced.of_eq (Balanced.appendWaiter happ))
  dsimp only at h
  split_ifs at h
  · have h3 := Balanced.rxSched h
    exact (Balanced.exit h2).trans h3
  · have h3 := Balanced.rxAddTimer h
    exact (Balanced.exit h2).trans h3

/-- What is done between entering and leaving the critical section. -/
theorem Balanced.of_ends (h : Ends k.enterCritical.port k'.port) : Balanced k.port k'.port :=
  ⟨fun ho => h (Or.inr ho.enter), fun ht => Or.inl (h ht.enter)⟩

namespace Balanced

variable {t : Fin n} {m tm : ℕ} {r : OsErr}

theorem rxReadFromQueue {mq : Option ℕ} {buffer : Bool} {size timeout : ℤ} {o : Option Ret}
    (h : rxReadFromQueue k mq buffer size timeout tm = .ok (o, k')) : Balanced k.port k'.port := by
  unfold Rosx.rxReadFromQueue at h
  split at h
  · obtain ⟨-, rfl⟩ := Prod.mk.inj (Except.ok.inj h)
    exact refl _
  · dsimp only at h
    split_ifs at h
    · obtain ⟨-, rfl⟩ := Prod.mk.inj (Except.ok.inj h)
      exact refl _
    · obtain ⟨-, rfl⟩ := Prod.mk.inj (Except.ok.inj h)
      exact (refl _).critical.balanced
    · obtain ⟨k1, hblock, he⟩ := map_eq_ok.mp h
      obtain ⟨-, rfl⟩ := Prod.mk.inj he
      exact of_ends (Ends.blockReader hblock)
    · obtain ⟨-, rfl⟩ := Prod.mk.inj (Except.ok.inj h)
      exact (refl _).critical.balanced
    · obtain ⟨⟨r, k1⟩, hcopy, he⟩ := map_eq_ok.mp h
      obtain ⟨-, rfl⟩ := Prod.mk.inj he
      exact of_ends (Ends.readCopy hcopy)

theorem rxReadFromQueueResume {timed : Bool} {r : Ret} (h : rxReadFromQueueResume k m timed = .ok (r, k')) :
    Balanced k.port k'.port := by
  unfold Rosx.rxReadFromQueueResume at h
  dsimp only at h
  split_ifs at h
  · obtain ⟨-, rfl⟩ := Prod.mk.inj (Except.ok.inj h)
    exact (refl _).critical.balanced
  · exact of_ends (Ends.readCopy h)
  · obtain ⟨-, rfl⟩ := Prod.mk.inj (Except.ok.inj h)
    exact (refl _).critical.balanced
  · exact of_ends (Ends.readCopy h)

theorem rxWriteToQueue {mq : Option ℕ} {msg : Option (List UInt8)} {size timeout : ℤ} {o : Option Ret}
    (h : rxWriteToQueue k mq msg size timeout tm = .ok (o, k')) : Balanced k.port k'.port := by
  unfold Rosx.rxWriteToQueue at h
  split at h
  · dsimp only at h
    split_ifs at h
    · obtain ⟨-, rfl⟩ := Prod.mk.inj (Except.ok.inj h)
      exact refl _
    · obtain ⟨k1, hblock, he⟩ := map_eq_ok.mp h
      obtain ⟨-, rfl⟩ := Prod.mk.inj he
      exact of_ends (Ends.blockWriter hblock)
    · obtain ⟨-, rfl⟩ := Prod.mk.inj (Except.ok.inj h)
      exact (refl _).critical.balanced
    · obtain ⟨⟨r, k1⟩, hcopy, he⟩ := map_eq_ok.mp h
      obtain ⟨-, rfl⟩ := Prod.mk.inj he
      exact of_ends (Ends.writeCopy hcopy)
  · obtain ⟨-, rfl⟩ := Prod.mk.inj (Except.ok.inj h)
    exact refl _

theorem rxWriteToQueueResume {msg : List UInt8} {timed : Bool} {r : Ret}
    (h : rxWriteToQueueResume k m msg timed = .ok (r, k')) : Balanced k.port k'.port := by
  unfold Rosx.rxWriteToQueueResume at h
  dsimp only at h
  split_ifs at h
  · obtain ⟨-, rfl⟩ := Prod.mk.inj (Except.ok.inj h)
    exact (refl _).critical.balanced
  · exact of_ends (Ends.writeCopy h)
  · obtain ⟨-, rfl⟩ := Prod.mk.inj (Except.ok.inj h)
    exact (refl _).critical.balanced
  · exact of_ends (Ends.writeCopy h)

/-! ### Event groups -/

theorem rxCreateEventGroup (k : Kernel n) (g : ℕ) : Balanced k.port (rxCreateEventGroup k g).2.port :=
  (refl _).critical.balanced

theorem deleteEventWaiter {g : ℕ} (h : deleteEventWaiter g k t = .ok k') : Balanced k.port k'.port := by
  obtain ⟨⟨e, k1⟩, hadd, h⟩ := bind_eq_ok.mp h
  obtain rfl := Except.ok.inj h
  have h1 := rxAddToReadyQ hadd
  exact h1

theorem rxDeleteEventGroup {g : ℕ} (h : rxDeleteEventGroup k g = .ok k') : Balanced k.port k'.port := by
  obtain ⟨k1, hk1, h⟩ := bind_eq_ok.mp h
  obtain rfl := Except.ok.inj h
  have h1 := drainLoop (fun _ _ _ => deleteEventWaiter) hk1
  exact (critical (p := k.port) h1).balanced

theorem rxWaitEventGroup {g : ℕ} {flag : Word} (h : rxWaitEventGroup k g flag = .ok k') :
    Balanced k.port k'.port := by
  obtain ⟨k1, hrem, h⟩ := bind_eq_ok.mp h
  obtain ⟨k2, hlink, h⟩ := bind_eq_ok.mp h
  have h1 := rxRemoveFromReadyQ hrem
  have h2 : Balanced k1.port k2.port := by
    unfold linkEventWaiter at hlink
    split at hlink
    · obtain rfl := Except.ok.inj hlink
      exact refl _
    · obtain ⟨x, -, rfl⟩ := map_eq_ok.mp hlink
      exact refl _
  have h3 := rxSched h
  exact ((critical (p := k.port) (h1.trans h2)).trans h3).balanced

/-! ### Wait queues -/

theorem joinQueue {wq : ℕ} {v : TaskState} (h : joinQueue k wq v = .ok k') : Balanced k.port k'.port := by
  obtain ⟨k1, hrem, h⟩ := bind_eq_ok.mp h
  obtain ⟨⟨head, k2⟩, happ, h⟩ := bind_eq_ok.mp h
  obtain rfl := Except.ok.inj h
  have h1 := rxRemoveFromReadyQ hrem
  have h2 := of_eq (appendWaiter happ)
  exact h1.trans h2

theorem addQueue {fuel wq : ℕ} (h : addQueue fuel k wq = .ok k') : k'.port = k.port := by
  unfold Rosx.addQueue at h
  split at h
  · obtain rfl := Except.ok.inj h
    rfl
  · obtain ⟨ride, -, rfl⟩ := map_eq_ok.mp h
    split_ifs
    · rfl
    · rfl

theorem rxWaitTimeout (k : Kernel n) (timer : ℕ) : Balanced k.port (rxWaitTimeout k timer).port := by
  have h1 := rxInitTimer k timer .waitHandler k.curr (BitVec.ofInt 32 (k.tcb k.curr).timeout)
  set k1 := k.rxInitTimer timer .waitHandler k.curr (BitVec.ofInt 32 (k.tcb k.curr).timeout)
  have h2 := rxStartTimer (k1.modTcb k1.curr fun c => { c with timer := some timer }) timer
  exact h1.trans h2

theorem waitTimer (k : Kernel n) (timeout : ℤ) (timer : ℕ) : Balanced k.port (waitTimer k timeout timer).port := by
  unfold Rosx.waitTimer
  split_ifs
  · have h1 := rxWaitTimeout (k.modTcb k.curr fun c => { c with timeout := timeout }) timer
    exact h1
  · exact refl _

theorem rxAddToWaitQueue {fuel wq timer : ℕ} {v : TaskState} {timeout : ℤ}
    (h : rxAddToWaitQueue fuel k wq v timeout timer = .ok k') : Balanced k.port k'.port := by
  obtain ⟨k1, hjoin, h⟩ := bind_eq_ok.mp h
  obtain ⟨k2, hadd, h⟩ := bind_eq_ok.mp h
  obtain rfl := Except.ok.inj h
  have h1 := joinQueue hjoin
  have h2 := of_eq (addQueue hadd)
  have h3 := waitTimer k2 timeout timer
  exact (critical (p := k.port) ((h1.trans h2).trans h3)).balanced

theorem rxFinishWait (k : Kernel n) : Balanced k.port (rxFinishWait k).2.port := by
  unfold Rosx.rxFinishWait
  dsimp only
  split
  · rename_i tm _
    have h1 := timerRemoved k.enterCritical tm
    exact (critical (p := k.port) h1).balanced
  · exact (refl _).critical.balanced

theorem wakeAll {f : ℕ} {o : Option (Fin n)} (h : wakeAll f k o = .ok k') : Balanced k.port k'.port := by
  induction f generalizing k o with
  | zero =>
    cases o with
    | none =>
      obtain rfl := Except.ok.inj h
      exact refl _
    | some t => cases h
  | succ f ih =>
    cases o with
    | none =>
      obtain rfl := Except.ok.inj h
      exact refl _
    | some t =>
      obtain ⟨⟨e, k1⟩, hadd, h⟩ := bind_eq_ok.mp h
      have h1 := rxAddToReadyQ hadd
      exact h1.trans (ih h)

theorem passHead (k : Kernel n) (wq : ℕ) : (passHead k wq).port = k.port := by
  unfold Rosx.passHead clearPrev
  split
  · rfl
  · rfl

theorem dropLater {ride : ℕ} (h : dropLater k ride = .ok k') : k'.port = k.port := by
  unfold Rosx.dropLater at h
  split at h
  · cases h
  · dsimp only at h
    split at h
    · cases h
    · obtain rfl := Except.ok.inj h
      rfl

theorem rxWakeup {wq : ℕ} (h : rxWakeup k wq = .ok k') : Balanced k.port k'.port := by
  obtain ⟨k1, hall, h⟩ := bind_eq_ok.mp h
  obtain ⟨k2, hleave, h⟩ := bind_eq_ok.mp h
  obtain rfl := Except.ok.inj h
  have h1 := wakeAll hall
  have h2 : k2.port = k1.port := by
    unfold leaveSysList at hleave
    split_ifs at hleave
    · obtain rfl := Except.ok.inj hleave
      exact passHead _ wq
    · have h3 := dropLater hleave
      exact h3
  exact (critical (p := k.port) (h1.trans (of_eq h2))).balanced

/-! ### Block pools -/

variable {b b' : BlockMem n} {p : ℕ}

theorem rxDeleteBlockPool (b : BlockMem n) (k : Kernel n) (p : ℕ) :
    Balanced k.port (b.rxDeleteBlockPool k p).2.2.port := by
  unfold BlockMem.rxDeleteBlockPool
  dsimp only
  split_ifs
  · exact (refl _).critical.balanced
  · exact (refl _).critical.balanced

theorem joinPool (h : b.joinPool k p = .ok (b', k')) : Balanced k.port k'.port := by
  obtain ⟨k1, hrem, h⟩ := bind_eq_ok.mp h
  obtain ⟨⟨head, k2⟩, happ, h⟩ := bind_eq_ok.mp h
  obtain ⟨-, rfl⟩ := Prod.mk.inj (Except.ok.inj h)
  have h1 := rxRemoveFromReadyQ hrem
  have h2 := of_eq (appendWaiter happ)
  exact h1.trans h2

theorem rxAllocateBlock {flags : ℤ} {x : OsErr × Option ℕ} (h : b.rxAllocateBlock k p flags = .ok (x, b', k')) :
    Balanced k.port k'.port := by
  unfold BlockMem.rxAllocateBlock at h
  dsimp only at h
  split at h
  · obtain ⟨-, rfl⟩ := Prod.mk.inj (Prod.mk.inj (Except.ok.inj h)).2
    exact (refl _).critical.balanced
  · split at h
    · split at h
      · obtain ⟨-, rfl⟩ := Prod.mk.inj (Prod.mk.inj (Except.ok.inj h)).2
        exact (refl _).critical.balanced
      · obtain ⟨⟨b1, k1⟩, hjoin, h⟩ := bind_eq_ok.mp h
        obtain ⟨-, rfl⟩ := Prod.mk.inj (Prod.mk.inj (Except.ok.inj h)).2
        have h1 := joinPool hjoin
        exact (critical (p := k.port) h1).balanced
    · obtain ⟨-, rfl⟩ := Prod.mk.inj (Prod.mk.inj (Except.ok.inj h)).2
      exact (refl _).critical.balanced

theorem wakePool (h : b.wakePool k p = .ok (b', k')) : Balanced k.port k'.port := by
  unfold BlockMem.wakePool at h
  split at h
  · obtain ⟨-, rfl⟩ := Prod.mk.inj (Except.ok.inj h)
    exact refl _
  · obtain ⟨⟨e, k1⟩, hadd, h⟩ := bind_eq_ok.mp h
    obtain ⟨-, rfl⟩ := Prod.mk.inj (Except.ok.inj h)
    have h1 := rxAddToReadyQ hadd
    exact h1

/-- On the error return of `rx_release_block` the section of `pr_error` ends the
call's own one. -/
theorem rxReleaseBlock {ptr : ℕ} (h : b.rxReleaseBlock k ptr = .ok (r, b', k')) : Balanced k.port k'.port := by
  unfold BlockMem.rxReleaseBlock at h
  dsimp only at h
  split at h
  · cases h
  · split at h
    · obtain ⟨-, rfl⟩ := Prod.mk.inj (Prod.mk.inj (Except.ok.inj h)).2
      have hpr : Ends k.port.disableIrqGlobal k.enterCritical.prError.port := (refl _).critical
      exact ⟨fun ho => hpr (Or.inr ho.enter), fun ht => Or.inl (hpr ht.enter)⟩
    · obtain ⟨⟨b1, k1⟩, hwake, h⟩ := bind_eq_ok.mp h
      obtain ⟨-, rfl⟩ := Prod.mk.inj (Prod.mk.inj (Except.ok.inj h)).2
      have h1 := wakePool hwake
      exact (critical (p := k.port) h1).balanced

end Balanced

end Rosx
