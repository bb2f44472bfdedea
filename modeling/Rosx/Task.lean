/-
# Tasks and the scheduler

`kernel/rx_task.c`, `kernel/rx_sched.c` and the time-slice part of the timer
interrupt (`kernel/rx_timer.c`), as configured by `apps/rx_defines.h`:
dynamic stacks, time slices and priority inheritance are on. A function
returns the kernel it leaves, or the fault that stops it. The walks along a
list have fuel for one visit of every control block and the final NULL.
-/
import Rosx.Kernel

namespace Rosx

open Linked

variable {n : ℕ}

/-- `RX_TASK_STR_LEN`. -/
def rxTaskStrLen : ℕ := 8

/-- `RX_TASK_LEAST_PRIO`: `CONFIG_MAX_TASK - 1`. -/
def rxTaskLeastPrio : ℤ := 31

/-- `CONFIG_SYSTEM_STACK_SIZE`. -/
def systemStackSize : ℤ := 8192 * 10

/-- `__RX_TIMER_OFF`. -/
def rxTimerOff : ℤ := 0

/-- `__RX_TIMER_ON`. -/
def rxTimerOn : ℤ := 1

/-! ### The ready queue -/

/-- The loop of `__rx_add_to_ready_q`, at node `start` with the node before
it in `prev`. -/
def addLoop (k : Kernel n) (new : Fin n) (prio : ℤ) : ℕ → Option (Fin n) → Option (Fin n) → Res (Kernel n)
  | 0, _, _ => .error .hang
  | _ + 1, prev, none =>
    match prev with
    | none => .error .null
    | some p => .ok (k.setNext p (some new))
  | f + 1, prev, some start =>
    if (k.tcb start).prio ≥ prio then
      if (k.tcb start).prio = prio then
        -- same priority: behind the last task of that priority
        match (k.tcb start).next with
        | some nx =>
          if (k.tcb nx).prio ≠ prio then .ok ((k.setNext new (some nx)).setNext start (some new))
          else addLoop k new prio f (some start) (some nx)
        | none => .ok ((k.setNext new none).setNext start (some new))
      else if some start = k.readyHead then
        .ok { k.setNext new (some start) with readyHead := some new }
      else
        match prev with
        | none => .error .null
        | some p => .ok ((k.setNext new (some start)).setNext p (some new))
    else addLoop k new prio f (some start) (k.tcb start).next

/-- `__rx_add_to_ready_q`. -/
def rxAddToReadyQ (k : Kernel n) (new : Fin n) : Res (OsErr × Kernel n) :=
  if !(k.tcb new).state.runnable then .ok (.osErr, k)
  else
    let k := (k.setNext new none).enterCritical
    match k.readyHead with
    | none => .ok (.osOk, { k with readyHead := some new }.exitCritical)
    | some start => do
      let k ← addLoop k new (k.tcb new).prio (n + 1) none (some start)
      let k := if some k.curr ≠ k.readyHead then { k with needResched := true } else k
      return (.osOk, k.exitCritical)

/-- The loop of `__rx_remove_from_ready_q`. Past the end, the last node's
link and `rmv`'s are cleared. -/
def removeLoop (k : Kernel n) (rmv : Fin n) : ℕ → Option (Fin n) → Option (Fin n) → Res (Kernel n)
  | 0, _, _ => .error .hang
  | _ + 1, prev, none =>
    match prev with
    | none => .error .null
    | some p => .ok ((k.setNext p none).setNext rmv none)
  | f + 1, prev, some start =>
    if start = rmv then
      if some start = k.readyHead then .ok ({ k with readyHead := (k.tcb start).next }.setNext rmv none)
      else
        match prev with
        | none => .error .null
        | some p => .ok ((k.setNext p (k.tcb start).next).setNext rmv none)
    else removeLoop k rmv f (some start) (k.tcb start).next

/-- `__rx_remove_from_ready_q`. -/
def rxRemoveFromReadyQ (k : Kernel n) (rmv : Fin n) : Res (Kernel n) := do
  let k := k.enterCritical
  let k ← removeLoop k rmv (n + 1) none k.readyHead
  return k.exitCritical

/-! ### The scheduler -/

/-- The control block of a task that is switched to: running, with a spent
time slice reloaded. -/
def switchTcb (c : Tcb n) : Tcb n :=
  { c with
    state := .running
    ticks := if c.timeSlice ≠ 0 ∧ c.ticks = 0 then c.timeSlice else c.ticks }

/-- `__rx_switch_to`: the head of the ready queue runs. -/
def rxSwitchTo (k : Kernel n) : Res (Kernel n) :=
  match k.readyHead with
  | none => .error .null
  | some h => .ok ({ k with curr := h }.setTcb h (switchTcb (k.tcb h))).exitCritical

/-- `rx_sched`. -/
def rxSched (k : Kernel n) : Res (Kernel n) :=
  if some k.curr ≠ k.readyHead then rxSwitchTo { k with needResched := false }.enterCritical
  else .ok k

/-- The switch of `rx_sched`: the head of the queue runs. -/
theorem rxSwitchTo_cases {k k' : Kernel n} (hk : rxSwitchTo k.enterCritical = .ok k') :
    ∃ h, k.readyHead = some h ∧
      k' = { k with
        curr := h, tcb := Function.update k.tcb h (switchTcb (k.tcb h)),
        port := k.port.disableIrqGlobal.restoreIrqGlobal } := by
  unfold rxSwitchTo at hk
  split at hk
  · cases hk
  · rename_i h hh
    exact ⟨h, hh, (Except.ok.inj hk).symm⟩

/-- `rx_sched` leaves the kernel alone, or switches to the head of the queue. -/
theorem rxSched_cases {k k' : Kernel n} (hk : rxSched k = .ok k') :
    (k' = k ∧ k.readyHead = some k.curr) ∨
    ∃ h, k.readyHead = some h ∧ h ≠ k.curr ∧
      k' = { k with
        curr := h, needResched := false, tcb := Function.update k.tcb h (switchTcb (k.tcb h)),
        port := k.port.disableIrqGlobal.restoreIrqGlobal } := by
  unfold rxSched at hk
  split_ifs at hk with hne
  · obtain ⟨h, hh, rfl⟩ := rxSwitchTo_cases hk
    have hh' : k.readyHead = some h := hh
    exact Or.inr ⟨h, hh', fun he => hne (by rw [hh', he]), rfl⟩
  · left
    exact ⟨(Except.ok.inj hk).symm, (not_not.mp hne).symm⟩

/-- `rx_sched` returns if some task is ready. -/
theorem rxSched_ok {k : Kernel n} {t : Fin n} (h : k.readyHead = some t) : ∃ k', rxSched k = .ok k' := by
  unfold rxSched
  split_ifs
  · have hh : ({ k with needResched := false } : Kernel n).enterCritical.readyHead = some t := h
    unfold rxSwitchTo
    simp only [hh]
    exact ⟨_, rfl⟩
  · exact ⟨k, rfl⟩

/-! ### The task services -/

/-- The arguments of `rx_create_task`, the control block apart. -/
structure TaskArgs where
  name : List UInt8 := []
  prio : ℤ
  stackPtr : Option ℤ := none
  stackSize : ℤ := 0
  state : TaskState
  timeSlice : ℤ := 0

/-- The stack `rx_create_task` gives the task: the caller's, or the next of
the system stack if it still fits. -/
def allocStack (k : Kernel n) (a : TaskArgs) : Option (ℤ × Kernel n) :=
  match a.stackPtr with
  | some p => some (p + a.stackSize, k)
  | none =>
    if k.stackStartPtr - systemStackSize > k.currStackPtr - a.stackSize then none
    else some (k.currStackPtr, { k with currStackPtr := k.currStackPtr - (a.stackSize + 4) })

/-- The control block `rx_create_task` fills in. -/
def initTcb (c : Tcb n) (a : TaskArgs) (stack : ℤ) : Tcb n :=
  let prio := if a.prio > rxTaskLeastPrio then rxTaskLeastPrio else a.prio
  { c with
    stackStartPtr := stack, prio := prio, origPrio := prio, stackSize := a.stackSize, state := a.state,
    timeout := rxTimerOff, timeSlice := a.timeSlice, ticks := a.timeSlice, timer := none, list := none }

/-- `if (task_state == RX_TASK_READY) __rx_add_to_ready_q(tcb);` -/
def addIfReady (k : Kernel n) (t : Fin n) (state : TaskState) : Res (Kernel n) :=
  if state = .ready then (rxAddToReadyQ k t).map (·.2) else .ok k

/-- The new task at the end of the global list of tasks. -/
def addToTaskList (k : Kernel n) (t : Fin n) : Res (Kernel n) :=
  match k.taskListHead with
  | none => .ok { k with taskListHead := some t }
  | some h => do
    let last ← lastNode k.listNext n h
    return k.setTcb last { k.tcb last with list := some t }

/-- `rx_create_task`. -/
def rxCreateTask (k : Kernel n) (t : Fin n) (a : TaskArgs) : Res (OsErr × Kernel n) :=
  if a.name.length > rxTaskStrLen then .ok (.osErr, k)
  else
    let k := k.enterCritical
    match allocStack k a with
    | none => .ok (.osErr, k.exitCritical)
    | some (stack, k) => do
      let k := k.setTcb t (initTcb (k.tcb t) a stack)
      let k ← addIfReady k t a.state
      let k ← addToTaskList k t
      return (.osOk, { k with numTask := k.numTask + 1 }.exitCritical)

/-- A call is refused, for the name or for lack of stack space, or its parts
follow one another. -/
theorem rxCreateTask_cases {k k' : Kernel n} {t : Fin n} {a : TaskArgs} {r : OsErr}
    (hk : rxCreateTask k t a = .ok (r, k')) :
    (r = .osErr ∧ (k' = k ∨ allocStack k.enterCritical a = none ∧ k' = k.enterCritical.exitCritical)) ∨
    ∃ stack k1 k3 k4, allocStack k.enterCritical a = some (stack, k1) ∧
      addIfReady (k1.setTcb t (initTcb (k1.tcb t) a stack)) t a.state = .ok k3 ∧ addToTaskList k3 t = .ok k4 ∧
      r = .osOk ∧ k' = { k4 with numTask := k4.numTask + 1 }.exitCritical := by
  unfold rxCreateTask at hk
  split_ifs at hk
  · obtain ⟨rfl, rfl⟩ := Prod.mk.inj (Except.ok.inj hk)
    exact Or.inl ⟨rfl, Or.inl rfl⟩
  · dsimp only at hk
    split at hk
    · rename_i halloc
      obtain ⟨rfl, rfl⟩ := Prod.mk.inj (Except.ok.inj hk)
      exact Or.inl ⟨rfl, Or.inr ⟨halloc, rfl⟩⟩
    · rename_i stack k1 halloc
      obtain ⟨k3, hk3, hk⟩ := bind_eq_ok.mp hk
      obtain ⟨k4, hk4, hk⟩ := bind_eq_ok.mp hk
      obtain ⟨rfl, rfl⟩ := Prod.mk.inj (Except.ok.inj hk)
      exact Or.inr ⟨stack, k1, k3, k4, halloc, hk3, hk4, rfl, rfl⟩

/-- Only the allocator moves. -/
theorem allocStack_frame {k k' : Kernel n} {a : TaskArgs} {stack : ℤ} (hk : allocStack k a = some (stack, k')) :
    k' = { k with currStackPtr := k'.currStackPtr } := by
  unfold allocStack at hk
  split at hk
  · obtain ⟨-, rfl⟩ := Prod.mk.inj (Option.some.inj hk)
    rfl
  · split_ifs at hk
    obtain ⟨-, rfl⟩ := Prod.mk.inj (Option.some.inj hk)
    rfl

/-- Only the links of the list and its head change. -/
theorem addToTaskList_frame {k k' : Kernel n} {t : Fin n} (hk : addToTaskList k t = .ok k') :
    k' = { k with tcb := k'.tcb, taskListHead := k'.taskListHead } ∧
      ∀ u, k'.tcb u = { k.tcb u with list := k'.listNext u } := by
  unfold addToTaskList at hk
  split at hk
  · obtain rfl := Except.ok.inj hk
    exact ⟨rfl, fun _ => rfl⟩
  · obtain ⟨last, -, hk⟩ := bind_eq_ok.mp hk
    obtain rfl := Except.ok.inj hk
    refine ⟨rfl, fun u => ?_⟩
    by_cases hu : u = last
    · subst hu; simp [Kernel.listNext]
    · simp [Kernel.listNext, hu]

/-- The new task is the last of the list. -/
theorem addToTaskList_chain {k k' : Kernel n} {t : Fin n} {C : List (Fin n)}
    (hl : Chain k.listNext k.taskListHead C) (ht : t ∉ C) (hnone : (k.tcb t).list = none)
    (hk : addToTaskList k t = .ok k') : Chain k'.listNext k'.taskListHead (C ++ [t]) := by
  unfold addToTaskList at hk
  split at hk
  · rename_i hh
    obtain rfl := Except.ok.inj hk
    have hC : C = [] := by
      rw [hh] at hl
      cases C with
      | nil => rfl
      | cons a C => cases hl.1
    subst hC
    exact ⟨rfl, hnone⟩
  · rename_i h0 hh
    obtain ⟨C', p, rfl⟩ : ∃ C' p, C = C' ++ [p] := by
      rcases List.eq_nil_or_concat C with rfl | ⟨C', p, hp⟩
      · rw [hh] at hl; cases hl
      · exact ⟨C', p, by simpa using hp⟩
    obtain ⟨C1, hC1⟩ : ∃ C1, C' ++ [p] = h0 :: C1 := by
      have := Seg.head hl
      rw [hh] at this
      cases hcc : C' ++ [p] with
      | nil => simp at hcc
      | cons a C1 => rw [hcc] at this; cases this; exact ⟨C1, rfl⟩
    have hlast : lastNode k.listNext n h0 = .ok p := by
      have hc : Chain k.listNext (some h0) (h0 :: C1) := by rw [← hC1, ← hh]; exact hl
      have hlen := hc.length_le
      simp only [List.length_cons, Fintype.card_fin] at hlen
      rw [lastNode_eq hc (by omega)]
      simp [← hC1]
    obtain ⟨p', hp', hk⟩ := bind_eq_ok.mp hk
    obtain rfl : p = p' := Except.ok.inj (hlast.symm.trans hp')
    obtain rfl := Except.ok.inj hk
    have hpn : k.listNext p = none := hl.next_eq
    have hlnext : (k.setTcb p { k.tcb p with list := some t }).listNext =
        Function.update (Function.update k.listNext t (k.listNext p)) p (some t) := by
      funext x
      by_cases hx : x = p
      · subst hx; simp [Kernel.listNext]
      · by_cases hxt : x = t
        · subst hxt
          have hx0 : k.listNext x = none := hnone
          simp only [Function.update_of_ne hx, Function.update_self, hpn]
          rw [← hx0]
          simp [Kernel.listNext, hx]
        · simp [Kernel.listNext, hx, hxt]
    rw [hlnext, List.append_assoc]
    exact Chain.insertAfter (m := []) hl ht

/-- `rx_abort_task`. -/
def rxAbortTask (k : Kernel n) (t : Fin n) : Res (OsErr × Kernel n) :=
  if t = k.curr then .ok (.osErr, k)
  else do
    let k ← if (k.tcb t).state = .ready then rxRemoveFromReadyQ k t else .ok k
    return (.osOk, k.setState t .abort)

/-- `rx_complete_task`. -/
def rxCompleteTask (k : Kernel n) (t : Fin n) : Res (OsErr × Kernel n) :=
  if t ≠ k.curr then .ok (.osErr, k)
  else do
    let k ← rxRemoveFromReadyQ k t
    let k ← rxSched (k.setState t .complete)
    return (.osOk, k)

/-- `rx_set_task_prio`. The guard compares the priority with the codes of two
task states, as the source does. -/
def rxSetTaskPrio (k : Kernel n) (t : Fin n) (prio : ℤ) : Res (OsErr × Kernel n) :=
  if prio = (k.tcb t).prio ∨ (k.tcb t).prio = TaskState.complete.code ∨
      (k.tcb t).prio = TaskState.abort.code then .ok (.osOk, k)
  else
    let k := k.setPrio t prio
    if (k.tcb t).state = .ready then do
      let k ← rxRemoveFromReadyQ k t
      let (_, k) ← rxAddToReadyQ k t
      return (.osOk, k)
    else .ok (.osOk, k)

/-- `rx_delete_task`: the task is taken off the global list of tasks. The count
of the tasks stays. -/
def rxDeleteTask (k : Kernel n) (t : Fin n) : Res (OsErr × Kernel n) :=
  if (k.tcb t).state = .suspend ∨ (k.tcb t).state = .ready then .ok (.osErr, k)
  else if k.taskListHead = some t then .ok (.osOk, { k with taskListHead := (k.tcb t).list })
  else
    match k.taskListHead with
    | none => .error .null
    | some h => do
      let tmp ← nodeBefore k.listNext t n h
      match (k.tcb tmp).list with
      | none => .error .null
      | some x => return (.osOk, k.setTcb tmp { k.tcb tmp with list := (k.tcb x).list })

/-- `rx_suspend_task`; `none` is `MYSELF`. -/
def rxSuspendTask (k : Kernel n) : Option (Fin n) → Res (OsErr × Kernel n)
  | none => do
    let k ← rxRemoveFromReadyQ k k.curr
    let k ← rxSched (k.setState k.curr .suspend)
    return (.osOk, k)
  | some t =>
    if (k.tcb t).state = .ready then do
      let k ← rxRemoveFromReadyQ k t
      return (.osOk, k.setState t .suspend)
    else .ok (.osOk, k)

/-- `rx_resume_task`. -/
def rxResumeTask (k : Kernel n) (t : Fin n) : Res (OsErr × Kernel n) :=
  if (k.tcb t).state ≠ .suspend then .ok (.osErr, k)
  else do
    let (_, k) ← rxAddToReadyQ (k.setState t .ready) t
    return (.osOk, k)

/-! ### The time slice -/

/-- The `CONFIG_TIME_SLICE` part of `__rx_timer_tick_irq_handler`. -/
def timeSliceTick (k : Kernel n) : Res (Kernel n) :=
  let c := k.tcb k.curr
  if c.timeSlice > 0 then
    let k := k.setTcb k.curr { c with ticks := c.ticks - 1 }
    if c.ticks - 1 = 0 then do
      let k ← rxRemoveFromReadyQ k k.curr
      let (_, k) ← rxAddToReadyQ (k.setState k.curr .ready) k.curr
      if some k.curr ≠ k.readyHead then return { k with needResched := true }
      else
        let c := k.tcb k.curr
        return k.setTcb k.curr { c with ticks := c.timeSlice, state := .running }
    else .ok k
  else .ok k

/-- The end of `sig_handler`: a requested reschedule marks the interrupted
task ready; the `rx_sched` it is redirected to runs after the interrupt. -/
def preempt (k : Kernel n) : Kernel n :=
  if k.needResched then { k with needResched := false }.setState k.curr .ready else k

/-- `__context = __IRQ` at the entry of `sig_handler`. -/
def irqEnter (k : Kernel n) : Kernel n := { k with port := { k.port with context := true } }

/-- `__context = __USER` at its end. -/
def irqExit (k : Kernel n) : Kernel n := { k with port := { k.port with context := false } }

end Rosx
