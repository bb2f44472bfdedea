/-
# Timers armed by the kernel's own services

`rx_init_timer`, `rx_start_timer`, `rx_stop_timer` and the handler branch of
the expiry loop (`kernel/rx_timer.c`) on the kernel's list of armed timers.
The list is taken at its value here: a started timer goes where its expiry
puts it, a stopped or expired one is taken out. `Rosx/TimerList.lean` has the
links, and when their updates do this.

Removing a timer follows a NULL link if it is the last one of several
(`CanRemove`, and `TimerList.Good.stop` for the links). `rxRemoveFromTimerList`
and `rxStopTimer` fault there. `timerRemoved`, `timerStopped` and what is built
on them are the kernel that these calls leave where they return. Most services
that stop the timer of a waiting task go on with that kernel: their runs are
those of the source, and those that go on where the source faults. The deletion
of a message queue has the fault.
-/
import Rosx.WaitList
import Rosx.Lib.DoublyLinked
import Mathlib.Data.List.Sort
import Mathlib.Algebra.Group.Int.Defs

namespace Rosx

open Linked

variable {n : ℕ} {ι : Type*}

/-- `OS_NO_WAIT`. -/
def osNoWait : ℤ := 0

/-- `OS_WAIT_FOREVER`. -/
def osWaitForever : ℤ := -1

/-- A positive `int` is a positive number of ticks. -/
theorem ticks_ne_zero {timeout : ℤ} (h0 : timeout > 0) (h1 : timeout < 2 ^ 31) : BitVec.ofInt 32 timeout ≠ 0 := by
  intro h
  have h2 := congrArg BitVec.toNat h
  rw [BitVec.toNat_ofInt] at h2
  simp at h2
  omega

/-- A timer set up with a handler, not started. -/
def Timer.init (h : Handler) (priv task : Fin n) (ticks : Word) : Timer n :=
  { timeExpiry := 0, delay := ticks, enabled := false, handler := some h, priv := some priv, task := some task }

namespace Kernel

/-- `rx_init_timer` of a timer with a handler. -/
def rxInitTimer (k : Kernel n) (tm : ℕ) (h : Handler) (priv : Fin n) (ticks : Word) : Kernel n :=
  if ticks = 0 then k
  else { k with timers := Function.update k.timers tm (Timer.init h priv k.curr ticks) }

/-- `rx_create_timer` of a timer with a handler: only `rx_init_timer` clears
the other bits of `flag`. -/
def rxCreateTimer (k : Kernel n) (tm : ℕ) (h : Handler) (priv : Fin n) (ticks : Word) : Kernel n :=
  k.rxInitTimer tm h priv ticks

/-- The timer as `__rx_add_to_active_timer_list` leaves it. -/
def armed (k : Kernel n) (tm : ℕ) : Timer n :=
  { k.timers tm with timeExpiry := (k.timers tm).delay + k.jiffies, enabled := true }

/-- `__rx_add_to_active_timer_list`. -/
def rxAddToActiveTimerList (k : Kernel n) (tm : ℕ) : Kernel n :=
  { k.enterCritical with
    timers := Function.update k.timers tm (k.armed tm)
    active := k.active.orderedInsert
      (fun _ u => (k.armed tm).timeExpiry ≤ (k.timers u).timeExpiry) tm }.exitCritical

/-- `rx_start_timer`. -/
def rxStartTimer (k : Kernel n) (tm : ℕ) : Kernel n :=
  if (k.timers tm).enabled then k else k.rxAddToActiveTimerList tm

/-- The timer is taken off the active list and its flag cleared. -/
def disarm (k : Kernel n) (tm : ℕ) : Kernel n :=
  { k.enterCritical with
    timers := Function.update k.timers tm { k.timers tm with enabled := false }
    active := k.active.erase tm }.exitCritical

/-- What `__rx_remove_from_timer_list` of the active list leaves: the flag
stays. -/
def timerRemoved (k : Kernel n) (tm : ℕ) : Kernel n :=
  { k.enterCritical with active := k.active.erase tm }.exitCritical

/-- `__rx_remove_from_timer_list` of the active list. -/
def rxRemoveFromTimerList (k : Kernel n) (tm : ℕ) : Res (Kernel n) :=
  if CanRemove k.active tm then .ok (k.timerRemoved tm) else .error .null

/-- `rx_stop_timer`. -/
def rxStopTimer (k : Kernel n) (tm : ℕ) : Res (Kernel n) :=
  if (k.timers tm).enabled then
    (k.rxRemoveFromTimerList tm).map fun k =>
      { k with timers := Function.update k.timers tm { k.timers tm with enabled := false } }
  else .ok k

/-- What `rx_stop_timer` leaves. -/
def timerStopped (k : Kernel n) (tm : ℕ) : Kernel n :=
  if (k.timers tm).enabled then k.disarm tm else k

/-- `rx_stop_timer` returns, unless the timer is enabled and cannot be removed. -/
theorem rxStopTimer_eq (k : Kernel n) (tm : ℕ) : k.rxStopTimer tm =
    if (k.timers tm).enabled = true ∧ ¬ CanRemove k.active tm then .error .null else .ok (k.timerStopped tm) := by
  unfold rxStopTimer timerStopped rxRemoveFromTimerList
  by_cases hen : (k.timers tm).enabled = true
  · by_cases hcan : CanRemove k.active tm
    · rw [if_pos hen, if_pos hcan, if_neg (fun h => h.2 hcan), if_pos hen]
      rfl
    · rw [if_pos hen, if_neg hcan, if_pos ⟨hen, hcan⟩]
      rfl
  · rw [if_neg hen, if_neg (fun h => hen h.1), if_neg hen]

theorem rxStopTimer_ok {k k' : Kernel n} {tm : ℕ} (h : k.rxStopTimer tm = .ok k') : k' = k.timerStopped tm := by
  rw [rxStopTimer_eq] at h
  split_ifs at h
  exact (Except.ok.inj h).symm

/-- The timer `__rx_add_timer` sets up for a task that sleeps on it. -/
def setSleepTimer (k : Kernel n) (tm : ℕ) (delay : Word) (t : Fin n) : Kernel n :=
  let c := { k.timers tm with delay := delay, timeExpiry := 0, task := some t, handler := none }
  { k with timers := Function.update k.timers tm c }

/-- `__rx_add_timer` without a handler, up to the switch: the task sleeps until
the timer thread wakes it. -/
def rxAddTimer (k : Kernel n) (tm : ℕ) (delay : Word) (t : Fin n) : Res (Kernel n) := do
  let k := (k.setSleepTimer tm delay t).rxAddToActiveTimerList tm
  let k := k.modTcb t fun c => { c with timer := some tm, state := .suspend }
  let k ← rxRemoveFromReadyQ k t
  rxSched k

/-- `rx_init_timer` without a handler: the caller sleeps on the timer. -/
def rxInitSleep (k : Kernel n) (tm : ℕ) (priv : Option (Fin n)) (ticks : Word) : Res (Kernel n) :=
  if ticks = 0 then .ok k
  else
    let c := { k.timers tm with priv := priv, enabled := false }
    { k with timers := Function.update k.timers tm c }.rxAddTimer tm ticks k.curr

/-- `rx_create_timer` without a handler; it leaves the flag. -/
def rxCreateSleep (k : Kernel n) (tm : ℕ) (priv : Option (Fin n)) (ticks : Word) : Res (Kernel n) :=
  if ticks = 0 then .ok k
  else
    let c := { k.timers tm with priv := priv }
    { k with timers := Function.update k.timers tm c }.rxAddTimer tm ticks k.curr

/-- `CONFIG_HZ`. -/
def configHz : Word := 100

/-- `rx_msleep` up to its return, with the code it returns, or up to the switch
to another task; then it returns `OS_OK`. -/
def rxMsleep (k : Kernel n) (time : Word) (tm : ℕ) : Res (Option OsErr × Kernel n) :=
  if time > 100000 ∨ time = 0 then .ok (some .osErr, k)
  else
    let time := if time / configHz = 0 then 1 else time / configHz
    (k.rxAddTimer tm time k.curr).map fun k => (none, k)

/-- `rx_ssleep`, in the same way. -/
def rxSsleep (k : Kernel n) (time : Word) (tm : ℕ) : Res (Option OsErr × Kernel n) :=
  if time = 0 then .ok (some .osErr, k)
  else (k.rxAddTimer tm (time * 1000 / configHz) k.curr).map fun k => (none, k)

/-- `rx_mod_timer`: a stopped timer gets a new delay and is started. -/
def rxModTimer (k : Kernel n) (tm : Option ℕ) (delay : Word) : Kernel n :=
  match tm with
  | none => k
  | some tm =>
    if (k.timers tm).enabled then k
    else if (k.timers tm).delay = 0 then k
    else
      let c := { k.timers tm with delay := delay * (1000 / configHz) }
      { k with timers := Function.update k.timers tm c }.rxStartTimer tm

/-- `rx_delete_timer` only complains about a timer that is not stopped. -/
def rxDeleteTimer (k : Kernel n) (_tm : ℕ) : Kernel n := k

end Kernel

/-- `if (t->timer) { rx_stop_timer(t->timer); t->timer = NULL; }` -/
def stopTaskTimer (k : Kernel n) (t : Fin n) : Res (Kernel n) :=
  match (k.tcb t).timer with
  | some tm => (k.rxStopTimer tm).map fun k => k.modTcb t fun c => { c with timer := none }
  | none => .ok k

/-- What it leaves. -/
def taskTimerStopped (k : Kernel n) (t : Fin n) : Kernel n :=
  match (k.tcb t).timer with
  | some tm => (k.timerStopped tm).modTcb t fun c => { c with timer := none }
  | none => k

/-- Stopping a task's timer follows no NULL link. -/
def Stoppable (k : Kernel n) (t : Fin n) : Prop :=
  ∀ tm, (k.tcb t).timer = some tm → (k.timers tm).enabled = true → CanRemove k.active tm

theorem stopTaskTimer_of_stoppable {k : Kernel n} {t : Fin n} (h : Stoppable k t) :
    stopTaskTimer k t = .ok (taskTimerStopped k t) := by
  unfold stopTaskTimer taskTimerStopped
  cases ht : (k.tcb t).timer with
  | none => rfl
  | some tm =>
    dsimp only
    rw [Kernel.rxStopTimer_eq, if_neg fun hc => hc.2 (h tm ht hc.1)]
    rfl

theorem stopTaskTimer_of_not_stoppable {k : Kernel n} {t : Fin n} (h : ¬ Stoppable k t) :
    stopTaskTimer k t = .error .null := by
  simp only [Stoppable, not_forall] at h
  obtain ⟨tm, ht, hen, hcan⟩ := h
  unfold stopTaskTimer
  rw [ht]
  dsimp only
  rw [Kernel.rxStopTimer_eq, if_pos ⟨hen, hcan⟩]
  rfl

theorem stopTaskTimer_ok {k k' : Kernel n} {t : Fin n} (h : stopTaskTimer k t = .ok k') :
    Stoppable k t ∧ k' = taskTimerStopped k t := by
  by_cases hs : Stoppable k t
  · rw [stopTaskTimer_of_stoppable hs] at h
    exact ⟨hs, (Except.ok.inj h).symm⟩
  · rw [stopTaskTimer_of_not_stoppable hs] at h
    cases h

/-- What the removal of the timer of a task that is woken before it expires
leaves. -/
def dropTimer (k : Kernel n) (t : Fin n) : Kernel n :=
  match (k.tcb t).timer with
  | none => k
  | some tm => (k.timerRemoved tm).modTcb t fun c => { c with timer := none }

section Fields

variable (k : Kernel n) (tm : ℕ)

@[simp] theorem rxInitTimer_tcb (h : Handler) (priv : Fin n) (ticks : Word) :
    (k.rxInitTimer tm h priv ticks).tcb = k.tcb := by unfold Kernel.rxInitTimer; split_ifs <;> rfl

@[simp] theorem rxInitTimer_mutexes (h : Handler) (priv : Fin n) (ticks : Word) :
    (k.rxInitTimer tm h priv ticks).mutexes = k.mutexes := by unfold Kernel.rxInitTimer; split_ifs <;> rfl

@[simp] theorem rxInitTimer_sems (h : Handler) (priv : Fin n) (ticks : Word) :
    (k.rxInitTimer tm h priv ticks).sems = k.sems := by unfold Kernel.rxInitTimer; split_ifs <;> rfl

@[simp] theorem rxInitTimer_active (h : Handler) (priv : Fin n) (ticks : Word) :
    (k.rxInitTimer tm h priv ticks).active = k.active := by unfold Kernel.rxInitTimer; split_ifs <;> rfl

@[simp] theorem rxInitTimer_curr (h : Handler) (priv : Fin n) (ticks : Word) :
    (k.rxInitTimer tm h priv ticks).curr = k.curr := by unfold Kernel.rxInitTimer; split_ifs <;> rfl

@[simp] theorem rxStartTimer_tcb : (k.rxStartTimer tm).tcb = k.tcb := by
  unfold Kernel.rxStartTimer; split_ifs <;> rfl

@[simp] theorem rxStartTimer_mutexes : (k.rxStartTimer tm).mutexes = k.mutexes := by
  unfold Kernel.rxStartTimer; split_ifs <;> rfl

@[simp] theorem rxStartTimer_sems : (k.rxStartTimer tm).sems = k.sems := by
  unfold Kernel.rxStartTimer; split_ifs <;> rfl

@[simp] theorem rxStartTimer_curr : (k.rxStartTimer tm).curr = k.curr := by
  unfold Kernel.rxStartTimer; split_ifs <;> rfl

@[simp] theorem timerStopped_tcb : (k.timerStopped tm).tcb = k.tcb := by
  unfold Kernel.timerStopped; split_ifs <;> rfl

@[simp] theorem timerStopped_sems : (k.timerStopped tm).sems = k.sems := by
  unfold Kernel.timerStopped; split_ifs <;> rfl

@[simp] theorem timerStopped_mutexes : (k.timerStopped tm).mutexes = k.mutexes := by
  unfold Kernel.timerStopped; split_ifs <;> rfl

@[simp] theorem timerStopped_curr : (k.timerStopped tm).curr = k.curr := by
  unfold Kernel.timerStopped; split_ifs <;> rfl

end Fields

section Start

variable {k : Kernel n} {tm : ℕ} {ticks : Word} (h : Handler) (priv : Fin n)

theorem rxInitTimer_timers (ht : ticks ≠ 0) : (k.rxInitTimer tm h priv ticks).timers =
    Function.update k.timers tm (Timer.init h priv k.curr ticks) := by
  rw [Kernel.rxInitTimer, if_neg ht]

theorem rxStartTimer_perm (hen : (k.timers tm).enabled = false) :
    (k.rxStartTimer tm).active.Perm (tm :: k.active) := by
  rw [Kernel.rxStartTimer, if_neg (by simp [hen])]
  exact List.perm_orderedInsert _ tm k.active

theorem rxStartTimer_timers (hen : (k.timers tm).enabled = false) :
    (k.rxStartTimer tm).timers = Function.update k.timers tm (k.armed tm) := by
  rw [Kernel.rxStartTimer, if_neg (by simp [hen])]
  rfl

/-- A timer that is set up and started joins the active list. -/
theorem start_init_perm (ht : ticks ≠ 0) :
    ((k.rxInitTimer tm h priv ticks).rxStartTimer tm).active.Perm (tm :: k.active) := by
  have hen : ((k.rxInitTimer tm h priv ticks).timers tm).enabled = false := by
    rw [rxInitTimer_timers h priv ht, Function.update_self]
    rfl
  simpa using rxStartTimer_perm hen

theorem start_init_port (hk : k.port = {}) : ((k.rxInitTimer tm h priv ticks).rxStartTimer tm).port = {} := by
  have h1 : (k.rxInitTimer tm h priv ticks).port = {} := by
    unfold Kernel.rxInitTimer
    split_ifs
    · exact hk
    · exact hk
  unfold Kernel.rxStartTimer
  split_ifs
  · exact h1
  · show (k.rxInitTimer tm h priv ticks).port.disableIrqGlobal.restoreIrqGlobal = {}
    rw [h1]
    rfl

theorem rxInitTimer_jiffies (ticks : Word) : (k.rxInitTimer tm h priv ticks).jiffies = k.jiffies := by
  unfold Kernel.rxInitTimer
  split_ifs <;> rfl

/-- A timer that is set up and started is due after its ticks. -/
theorem start_init_timers_eq (ht : ticks ≠ 0) : ((k.rxInitTimer tm h priv ticks).rxStartTimer tm).timers =
    Function.update k.timers tm
      { Timer.init h priv k.curr ticks with timeExpiry := ticks + k.jiffies, enabled := true } := by
  have hen : ((k.rxInitTimer tm h priv ticks).timers tm).enabled = false := by
    rw [rxInitTimer_timers h priv ht, Function.update_self]
    rfl
  rw [rxStartTimer_timers hen, Kernel.armed, rxInitTimer_timers h priv ht, Function.update_self,
    Function.update_idem, rxInitTimer_jiffies]
  rfl

theorem start_init_timers (ht : ticks ≠ 0) : ∃ x, ((k.rxInitTimer tm h priv ticks).rxStartTimer tm).timers =
    Function.update k.timers tm { Timer.init h priv k.curr ticks with timeExpiry := x, enabled := true } :=
  ⟨_, start_init_timers_eq h priv ht⟩

/-- It goes somewhere into the list. -/
theorem start_init_active (ht : ticks ≠ 0) :
    ∃ a b, k.active = a ++ b ∧ ((k.rxInitTimer tm h priv ticks).rxStartTimer tm).active = a ++ tm :: b := by
  have hen : ((k.rxInitTimer tm h priv ticks).timers tm).enabled = false := by
    rw [rxInitTimer_timers h priv ht, Function.update_self]
    rfl
  set e := k.rxInitTimer tm h priv ticks with he
  have hact : e.active = k.active := rxInitTimer_active k tm h priv ticks
  set r : ℕ → ℕ → Prop := fun _ u => (e.armed tm).timeExpiry ≤ (e.timers u).timeExpiry with hr
  refine ⟨k.active.takeWhile fun u => ¬ r tm u, k.active.dropWhile fun u => ¬ r tm u,
    List.takeWhile_append_dropWhile.symm, ?_⟩
  rw [Kernel.rxStartTimer, if_neg (by simp [hen])]
  show e.active.orderedInsert r tm = _
  rw [hact, List.orderedInsert_eq_take_drop]

end Start

section DropTimer

variable (k : Kernel n) (t u : Fin n)

/-- A field other than the timer. -/
theorem dropTimer_keeps {β : Type*} (g : Tcb n → β) (hg : ∀ c, g { c with timer := none } = g c) :
    g ((dropTimer k t).tcb u) = g (k.tcb u) := by
  unfold dropTimer
  cases (k.tcb t).timer with
  | none => rfl
  | some tm => exact (k.timerRemoved tm).modTcb_keeps t u g hg

@[simp] theorem dropTimer_state : ((dropTimer k t).tcb u).state = (k.tcb u).state :=
  dropTimer_keeps k t u Tcb.state fun _ => rfl

@[simp] theorem dropTimer_err : ((dropTimer k t).tcb u).err = (k.tcb u).err :=
  dropTimer_keeps k t u Tcb.err fun _ => rfl

@[simp] theorem dropTimer_curr : (dropTimer k t).curr = k.curr := by
  unfold dropTimer
  cases (k.tcb t).timer <;> rfl

@[simp] theorem dropTimer_mutexes : (dropTimer k t).mutexes = k.mutexes := by
  unfold dropTimer
  cases (k.tcb t).timer <;> rfl

@[simp] theorem dropTimer_sems : (dropTimer k t).sems = k.sems := by
  unfold dropTimer
  cases (k.tcb t).timer <;> rfl

@[simp] theorem dropTimer_events : (dropTimer k t).events = k.events := by
  unfold dropTimer
  cases (k.tcb t).timer <;> rfl

@[simp] theorem dropTimer_sysWaitList : (dropTimer k t).sysWaitList = k.sysWaitList := by
  unfold dropTimer
  cases (k.tcb t).timer <;> rfl

end DropTimer

namespace Lists

variable {e k : Kernel n} {lr : List (Fin n)} {w : ι → Option (Fin n)} {lw : ι → List (Fin n)}

theorem setTimers (h : Lists e k lr w lw) (T : ℕ → Timer n) (A : List ℕ) :
    Lists { e with timers := T, active := A } { k with timers := T, active := A } lr w lw := by
  refine h.map (fun x => { x with timers := T, active := A }) (fun x y hxy => ⟨hxy.tcb, ?_⟩) rfl rfl rfl
  exact congrArg (fun z : Kernel n => { z with timers := T, active := A }) hxy.rest

theorem setTimer (h : Lists e k lr w lw) (T : ℕ → Timer n) :
    Lists { e with timers := T } { k with timers := T } lr w lw := by
  refine h.map (fun x => { x with timers := T }) (fun x y hxy => ⟨hxy.tcb, ?_⟩) rfl rfl rfl
  exact congrArg (fun z : Kernel n => { z with timers := T }) hxy.rest

/-- The data may be given up to links. -/
theorem of_data (h : Lists e k lr w lw) {e' : Kernel n} (he : Relinked e' e) : Lists e' k lr w lw :=
  ⟨he.trans h.data, h.port, h.ready, h.wait, h.notReady, h.apart⟩

theorem rxInitTimer (h : Lists e k lr w lw) (tm : ℕ) (hd : Handler) (priv : Fin n) (ticks : Word) :
    Lists (e.rxInitTimer tm hd priv ticks) (k.rxInitTimer tm hd priv ticks) lr w lw := by
  unfold Kernel.rxInitTimer
  split_ifs
  · exact h
  · have hT : Function.update k.timers tm (Timer.init hd priv k.curr ticks) =
        Function.update e.timers tm (Timer.init hd priv e.curr ticks) := by
      rw [h.data.timers, h.data.curr]
    rw [hT]
    exact h.setTimer _

theorem disarm (h : Lists e k lr w lw) (tm : ℕ) : Lists (e.disarm tm) (k.disarm tm) lr w lw := by
  unfold Kernel.disarm
  rw [h.data.timers, h.data.active]
  apply ((h.enter.setTimers _ _).exit).of_data
  exact ⟨fun _ => rfl, rfl⟩

theorem timerStopped (h : Lists e k lr w lw) (tm : ℕ) :
    Lists (e.timerStopped tm) (k.timerStopped tm) lr w lw := by
  unfold Kernel.timerStopped
  rw [h.data.timers]
  split_ifs
  · exact h.disarm tm
  · exact h

theorem rxAddToActiveTimerList (h : Lists e k lr w lw) (tm : ℕ) :
    Lists (e.rxAddToActiveTimerList tm) (k.rxAddToActiveTimerList tm) lr w lw := by
  have harm : k.armed tm = e.armed tm := by
    have hj : k.jiffies = e.jiffies := by rw [h.data.rest]
    simp only [Kernel.armed, h.data.timers, hj]
  unfold Kernel.rxAddToActiveTimerList
  rw [harm, h.data.timers, h.data.active]
  apply ((h.enter.setTimers _ _).exit).of_data
  exact ⟨fun _ => rfl, rfl⟩

theorem rxStartTimer (h : Lists e k lr w lw) (tm : ℕ) :
    Lists (e.rxStartTimer tm) (k.rxStartTimer tm) lr w lw := by
  unfold Kernel.rxStartTimer
  rw [h.data.timers]
  split_ifs
  · exact h
  · exact h.rxAddToActiveTimerList tm

theorem dropTimer (h : Lists e k lr w lw) (t : Fin n) : Lists (dropTimer e t) (dropTimer k t) lr w lw := by
  unfold Rosx.dropTimer
  rw [h.data.timer]
  cases (e.tcb t).timer with
  | none => exact h
  | some tm =>
    have h1 : Lists (e.timerRemoved tm) (k.timerRemoved tm) lr w lw := by
      unfold Kernel.timerRemoved
      rw [h.data.active]
      refine ((h.enter.setTimers k.timers (e.active.erase tm)).exit).of_data ⟨fun _ => rfl, ?_⟩
      rw [h.data.timers]
      rfl
    exact h1.modTcb t fun _ _ => rfl

end Lists

end Rosx
