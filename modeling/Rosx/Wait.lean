/-
# Wait queues (`kernel/rx_wait.c`)

A task that waits is put on the chain of its wait queue, and the wait queue
on the system list of the queues that tasks wait on (`__rx_sys_wait_list`).
`rx_wakeup` wakes all tasks of one queue. `__rx_wake`, which the event thread
runs, walks the system list, wakes the tasks that may be woken and takes the
queues off the list that are empty then.

The number of wait queues is not bounded by the number of tasks, so the walks
along their list have a fuel of their own.
-/
import Rosx.Timer

namespace Rosx

open Linked

variable {n : ℕ}

/-- The `next` links of the wait queues. -/
def Kernel.queueNext (k : Kernel n) (q : ℕ) : Option ℕ := (k.waitQueues q).next

/-- Their `prev` links. -/
def Kernel.queuePrev (k : Kernel n) (q : ℕ) : Option ℕ := (k.waitQueues q).prev

/-! ### Waiting -/

/-- `__rx_wait_timeout`: the running task arms its timer. -/
def rxWaitTimeout (k : Kernel n) (timer : ℕ) : Kernel n :=
  let k := k.rxCreateTimer timer .waitHandler k.curr (BitVec.ofInt 32 (k.tcb k.curr).timeout)
  let k := k.modTcb k.curr fun c => { c with timer := some timer }
  let k := k.rxStartTimer timer
  k.modTcb k.curr fun c => { c with timeout := rxTimerOn }

/-- `__rx_wait_handler`, called when the timer of task `t` expires. -/
def rxWaitHandler (k : Kernel n) (t : Fin n) : Kernel n :=
  k.modTcb t fun c => { c with timeout := OsErr.eOsTimeout.code, timer := none }

/-- The wait queue at the end of the system list, if it is not on it yet. -/
def addQueue (fuel : ℕ) (k : Kernel n) (wq : ℕ) : Res (Kernel n) :=
  match k.sysWaitList with
  | none => .ok { k with sysWaitList := some wq }
  | some h =>
    (lastNodeOr k.queueNext wq fuel h).map fun ride =>
      if ride = wq then k
      else
        let k := k.setWaitQueue ride { k.waitQueues ride with next := some wq }
        k.setWaitQueue wq { k.waitQueues wq with prev := some ride }

/-- The timer of a wait with a timeout is armed, unless one already is. -/
def waitTimer (k : Kernel n) (timeout : ℤ) (timer : ℕ) : Kernel n :=
  if timeout > 0 ∧ (k.tcb k.curr).timeout = rxTimerOff then
    rxWaitTimeout (k.modTcb k.curr fun c => { c with timeout := timeout }) timer
  else k

/-- The running task leaves the ready queue for the chain of its wait queue. -/
def joinQueue (k : Kernel n) (wq : ℕ) (taskState : TaskState) : Res (Kernel n) := do
  let k := k.modTcb k.curr fun c => { c with state := taskState, wq := some wq }
  let k ← rxRemoveFromReadyQ k k.curr
  let k := k.setNext k.curr none
  let (head, k) ← appendWaiter k (k.waitQueues wq).task k.curr
  return k.setWaitQueue wq { k.waitQueues wq with task := head }

/-- `__rx_add_to_wait_queue`. -/
def rxAddToWaitQueue (fuel : ℕ) (k : Kernel n) (wq : ℕ) (taskState : TaskState) (timeout : ℤ) (timer : ℕ) :
    Res (Kernel n) := do
  let k ← joinQueue k.enterCritical wq taskState
  let k ← addQueue fuel k wq
  return (waitTimer k timeout timer).exitCritical

/-- `__rx_finish_wait`. -/
def rxFinishWait (k : Kernel n) : ℤ × Kernel n :=
  let k := k.enterCritical
  let k := match (k.tcb k.curr).timer with
    | some tm => (k.timerRemoved tm).modTcb k.curr fun c => { c with timer := none }
    | none => k
  let ret := if (k.tcb k.curr).timeout = OsErr.eOsTimeout.code then OsErr.eOsTimeout.code else 0
  (ret, (k.modTcb k.curr fun c => { c with timeout := rxTimerOff, wq := none }).exitCritical)

/-! ### Waking -/

/-- The loop of `rx_wake_task_in_the_queue` from `tn` on, `tp` before it. -/
def wakeLoop (q : ℕ) : ℕ → Kernel n → Option (Fin n) → Option (Fin n) → Res (Kernel n)
  | _, k, _, none => .ok k
  | 0, _, _, some _ => .error .hang
  | f + 1, k, tp, some tn =>
    if (k.tcb tn).state = .interruptible ∨ (k.tcb tn).timeout = OsErr.eOsTimeout.code then
      let k := k.setState tn .ready
      let next := k.next tn
      if (k.waitQueues q).task = some tn then do
        let (_, k) ← rxAddToReadyQ (k.setWaitQueue q { k.waitQueues q with task := next }) tn
        wakeLoop q f k next next
      else
        match tp with
        | none => .error .null
        | some p => do
          let (_, k) ← rxAddToReadyQ (k.setNext p next) tn
          wakeLoop q f k tp next
    else wakeLoop q f k (some tn) (k.next tn)

/-- `rx_wake_task_in_the_queue`. -/
def rxWakeTaskInTheQueue (k : Kernel n) (q : ℕ) : Res (Kernel n) :=
  wakeLoop q n k (k.waitQueues q).task (k.waitQueues q).task

/-- An empty queue at the head of the list is taken off it. -/
def dropFirst (k : Kernel n) (ride : ℕ) : Kernel n :=
  let k := { k with sysWaitList := (k.waitQueues ride).next }
  let k := k.setWaitQueue ride { k.waitQueues ride with prev := none, next := none }
  match k.sysWaitList with
  | none => k
  | some h => k.setWaitQueue h { k.waitQueues h with prev := none }

/-- A queue further on is taken off the list; both its neighbours are written
to. -/
def dropLater (k : Kernel n) (ride : ℕ) : Res (Kernel n) :=
  match (k.waitQueues ride).prev with
  | none => .error .null
  | some p =>
    let k := k.setWaitQueue p { k.waitQueues p with next := (k.waitQueues ride).next }
    match (k.waitQueues ride).next with
    | none => .error .null
    | some x =>
      let k := k.setWaitQueue x { k.waitQueues x with prev := (k.waitQueues ride).prev }
      .ok (k.setWaitQueue ride { k.waitQueues ride with prev := none, next := none })

/-- The loop of `rx_wakeup` from `t` on. -/
def wakeAll : ℕ → Kernel n → Option (Fin n) → Res (Kernel n)
  | _, k, none => .ok k
  | 0, _, some _ => .error .hang
  | f + 1, k, some t => do
    let k := k.setState t .ready
    let next := k.next t
    let (_, k) ← rxAddToReadyQ k t
    wakeAll f k next

/-- The first queue of the list has none before it. -/
def clearPrev (k : Kernel n) : Kernel n :=
  match k.sysWaitList with
  | none => k
  | some h => k.setWaitQueue h { k.waitQueues h with prev := none }

/-- A queue at the head of the list is taken off it by `rx_wakeup`, which
leaves the queue's own links. -/
def passHead (k : Kernel n) (wq : ℕ) : Kernel n := clearPrev { k with sysWaitList := (k.waitQueues wq).next }

/-- The queue is taken off the system list by `rx_wakeup`. -/
def leaveSysList (k : Kernel n) (wq : ℕ) : Res (Kernel n) :=
  if some wq = k.sysWaitList then .ok (passHead k wq) else dropLater k wq

/-- `rx_wakeup`. -/
def rxWakeup (k : Kernel n) (wq : ℕ) : Res (Kernel n) := do
  let k := k.enterCritical
  let k ← wakeAll n k (k.waitQueues wq).task
  let k := k.setWaitQueue wq { k.waitQueues wq with task := none }
  let k ← leaveSysList k wq
  return k.exitCritical

/-- The loop of `__rx_wake` from `ride` on. -/
def wakeQueues : ℕ → Kernel n → Option ℕ → Res (Kernel n)
  | _, k, none => .ok k
  | 0, _, some _ => .error .hang
  | f + 1, k, some ride => do
    let first := k.sysWaitList = some ride
    let k ← rxWakeTaskInTheQueue k ride
    let k ← if (k.waitQueues ride).task = none then if first then .ok (dropFirst k ride) else dropLater k ride
      else .ok k
    wakeQueues f k (k.waitQueues ride).next

/-- `__rx_wake`. -/
def rxWake (fuel : ℕ) (k : Kernel n) : Res (Kernel n) := wakeQueues fuel k k.sysWaitList

/-- With nobody on a wait queue there is nothing to do. -/
theorem rxWake_of_none (fuel : ℕ) {k : Kernel n} (h : k.sysWaitList = none) : rxWake fuel k = .ok k := by
  rw [rxWake, h]
  cases fuel <;> rfl

end Rosx
