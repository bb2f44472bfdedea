/-
# The kernel's data

The control blocks of `kernel/include/` and the globals of the kernel, as one
record. Memory holds `n` task control blocks, for any `n`; a pointer to one is
an `Option (Fin n)`, `none` for NULL. Mutexes, semaphores, event groups,
wait queues, message queues and timers are addressed by number. Fields no modelled
function reads (names, saved registers, entry points) are left out.

The active timer list is here the list of the armed timers in list order;
`Rosx/TimerList.lean` has its links.

The port (`arch/x86/osport.c`) masks the one simulated interrupt signal.
Every kernel service calls `rx_enter_critical` and `rx_exit_critical`, which
`kernel/include/rx_irq.h` defines as the port's two functions.
-/
import Rosx.Lib.Linked

namespace Rosx

open Linked

/-- `unsigned int`. -/
abbrev Word := BitVec 32

/-- System wide error codes (`OS_ERR_TYPE`). -/
inductive OsErr where
  | osOk
  | osErr
  | eOsTimeout
  | eOsBusy
  | eOsUnavail
  | eOsQDel
  deriving DecidableEq, Repr

/-- The `int` of an error code. -/
def OsErr.code : OsErr → ℤ
  | .osOk => 0
  | .osErr => -1
  | .eOsTimeout => -2
  | .eOsBusy => -3
  | .eOsUnavail => -4
  | .eOsQDel => -8

/-- `RX_TASK_STATE`, in the order of the enumeration. -/
inductive TaskState where
  | suspend
  | ready
  | running
  | complete
  | abort
  | interruptible
  | uninterruptible
  deriving DecidableEq, Repr

/-- The `int` of a task state. -/
def TaskState.code : TaskState → ℤ
  | .suspend => 0
  | .ready => 1
  | .running => 2
  | .complete => 3
  | .abort => 4
  | .interruptible => 5
  | .uninterruptible => 6

/-- The two states whose tasks belong on the ready queue. -/
def TaskState.runnable (s : TaskState) : Bool := s = .ready || s = .running

@[simp] theorem TaskState.runnable_ready : TaskState.ready.runnable = true := rfl
@[simp] theorem TaskState.runnable_running : TaskState.running.runnable = true := rfl
@[simp] theorem TaskState.runnable_suspend : TaskState.suspend.runnable = false := rfl
@[simp] theorem TaskState.runnable_complete : TaskState.complete.runnable = false := rfl
@[simp] theorem TaskState.runnable_abort : TaskState.abort.runnable = false := rfl

/-- `struct __rx_task_control_block`; a static control block is zeroed. -/
structure Tcb (n : ℕ) where
  stackStartPtr : ℤ := 0
  stackSize : ℤ := 0
  prio : ℤ := 0
  origPrio : ℤ := 0
  state : TaskState := .suspend
  timeSlice : ℤ := 0
  ticks : ℤ := 0
  eventFlag : Word := 0
  eventRecv : Word := 0
  timeout : ℤ := 0
  timer : Option ℕ := none
  sem : Option ℕ := none
  mutex : Option ℕ := none
  event : Option ℕ := none
  wq : Option ℕ := none
  mq : Option ℕ := none
  bpool : Option ℕ := none
  next : Option (Fin n) := none
  list : Option (Fin n) := none
  err : OsErr := .osOk

/-- The interrupt state of the x86 port: `__context` and `__critical`, whether
the interrupt signal is in the process's signal mask, and whether it was in
the mask saved in `orig_mask`. -/
structure Port where
  context : Bool := false
  critical : Bool := false
  masked : Bool := false
  origMask : Bool := false
  deriving DecidableEq, Repr

/-- `__disable_irq_global`: nothing in interrupt context or in a critical
section; else the mask is saved and the signal blocked. -/
def Port.disableIrqGlobal (p : Port) : Port :=
  if p.context || p.critical then p
  else { p with origMask := p.masked, masked := true, critical := true }

/-- `__restore_irq_global`: nothing in interrupt context or outside a critical
section; else the saved mask is restored. The key is not used. -/
def Port.restoreIrqGlobal (p : Port) : Port :=
  if p.context || !p.critical then p
  else { p with masked := p.origMask, critical := false }

/-- The functions a kernel timer can call. -/
inductive Handler where
  | mutexHandler
  | semHandler
  | waitHandler
  | application
  deriving DecidableEq, Repr

/-- `struct timer_list` without its links; `enabled` is `__RX_TIMER_ENABLED`
of `flag`. The `priv` of the kernel's own handlers is a task. -/
structure Timer (n : ℕ) where
  timeExpiry : Word := 0
  delay : Word := 0
  enabled : Bool := false
  handler : Option Handler := none
  priv : Option (Fin n) := none
  task : Option (Fin n) := none

/-- `_RX_MUTEX_LOCK`. -/
inductive MutexLock where
  | locked
  | unlocked
  deriving DecidableEq, Repr

/-- `struct mutex`. -/
structure Mutex (n : ℕ) where
  lock : MutexLock := .unlocked
  owner : Option (Fin n) := none
  task : Option (Fin n) := none

/-- `struct semaphore`. -/
structure Semaphore (n : ℕ) where
  initVal : ℤ := 0
  currVal : ℤ := 0
  task : Option (Fin n) := none

/-- `struct event_group`. -/
structure EventGroup (n : ℕ) where
  task : Option (Fin n) := none

/-- `struct wait_queue`; `next` and `prev` link the queues that tasks wait on. -/
structure WaitQueue (n : ℕ) where
  task : Option (Fin n) := none
  next : Option ℕ := none
  prev : Option ℕ := none

/-- `struct msg_queue`. -/
structure MsgQueue (n : ℕ) where
  start : ℤ := 0
  head : ℤ := 0
  tail : ℤ := 0
  flag : Word := 0
  sizeOfBlock : ℤ := 0
  numOfBlocks : ℤ := 0
  writeTask : Option (Fin n) := none
  readTask : Option (Fin n) := none

/-- The kernel's memory and globals. `copies` records the address and length
of every `memcpy` to or from a message queue. -/
structure Kernel (n : ℕ) where
  tcb : Fin n → Tcb n := fun _ => {}
  curr : Fin n
  readyHead : Option (Fin n) := none
  taskListHead : Option (Fin n) := none
  numTask : ℕ := 0
  needResched : Bool := false
  stackStartPtr : ℤ := 0
  currStackPtr : ℤ := 0
  port : Port := {}
  jiffies : Word := 0
  timers : ℕ → Timer n := fun _ => {}
  active : List ℕ := []
  mutexes : ℕ → Mutex n := fun _ => {}
  sems : ℕ → Semaphore n := fun _ => {}
  events : ℕ → EventGroup n := fun _ => {}
  waitQueues : ℕ → WaitQueue n := fun _ => {}
  sysWaitList : Option ℕ := none
  queues : ℕ → MsgQueue n := fun _ => {}
  mem : ℤ → UInt8 := fun _ => 0
  copies : List (ℤ × ℤ) := []

namespace Kernel

variable {n : ℕ}

/-- `rx_enter_critical`. -/
def enterCritical (k : Kernel n) : Kernel n := { k with port := k.port.disableIrqGlobal }

/-- `rx_exit_critical`. -/
def exitCritical (k : Kernel n) : Kernel n := { k with port := k.port.restoreIrqGlobal }

/-- `pr_error` (`__rx_printk_to_buffer` in `rx_logger.c`): the text goes to the
print buffer in a critical section of its own. -/
def prError (k : Kernel n) : Kernel n := k.enterCritical.exitCritical

/-- Task `t`'s control block is replaced. -/
def setTcb (k : Kernel n) (t : Fin n) (c : Tcb n) : Kernel n :=
  { k with tcb := Function.update k.tcb t c }

/-- Task `t`'s control block is updated by `f`. -/
def modTcb (k : Kernel n) (t : Fin n) (f : Tcb n → Tcb n) : Kernel n := k.setTcb t (f (k.tcb t))

/-- Mutex `m` is replaced. -/
def setMutex (k : Kernel n) (m : ℕ) (c : Mutex n) : Kernel n :=
  { k with mutexes := Function.update k.mutexes m c }

/-- Semaphore `m` is replaced. -/
def setSem (k : Kernel n) (m : ℕ) (c : Semaphore n) : Kernel n :=
  { k with sems := Function.update k.sems m c }

/-- Event group `g` is replaced. -/
def setEvent (k : Kernel n) (g : ℕ) (c : EventGroup n) : Kernel n :=
  { k with events := Function.update k.events g c }

/-- Wait queue `q` is replaced. -/
def setWaitQueue (k : Kernel n) (q : ℕ) (c : WaitQueue n) : Kernel n :=
  { k with waitQueues := Function.update k.waitQueues q c }

/-- `t->next = v`. -/
def setNext (k : Kernel n) (t : Fin n) (v : Option (Fin n)) : Kernel n :=
  k.setTcb t { k.tcb t with next := v }

/-- `t->state = v`. -/
def setState (k : Kernel n) (t : Fin n) (v : TaskState) : Kernel n :=
  k.setTcb t { k.tcb t with state := v }

/-- `t->prio = v`. -/
def setPrio (k : Kernel n) (t : Fin n) (v : ℤ) : Kernel n :=
  k.setTcb t { k.tcb t with prio := v }

/-- The `next` links, as the heap of `Linked`. -/
def next (k : Kernel n) (t : Fin n) : Option (Fin n) := (k.tcb t).next

/-- The `list` links of the global task list. -/
def listNext (k : Kernel n) (t : Fin n) : Option (Fin n) := (k.tcb t).list

@[simp] theorem setTcb_tcb (k : Kernel n) (t : Fin n) (c : Tcb n) :
    (k.setTcb t c).tcb = Function.update k.tcb t c := rfl

@[simp] theorem modTcb_self (k : Kernel n) (t : Fin n) (f : Tcb n → Tcb n) :
    (k.modTcb t f).tcb t = f (k.tcb t) := by simp [modTcb]

theorem modTcb_of_ne (k : Kernel n) {t u : Fin n} (h : u ≠ t) (f : Tcb n → Tcb n) :
    (k.modTcb t f).tcb u = k.tcb u := by simp [modTcb, h]

/-- A field that the new control block of `t` keeps is kept in every one. -/
theorem setTcb_keeps {β : Type*} (k : Kernel n) (t u : Fin n) {c : Tcb n} (g : Tcb n → β)
    (hc : g c = g (k.tcb t)) : g ((k.setTcb t c).tcb u) = g (k.tcb u) := by
  by_cases h : u = t
  · subst h
    rw [setTcb_tcb, Function.update_self, hc]
  · rw [setTcb_tcb, Function.update_of_ne h]

theorem modTcb_keeps {β : Type*} (k : Kernel n) (t u : Fin n) {f : Tcb n → Tcb n} (g : Tcb n → β)
    (hf : ∀ c, g (f c) = g c) : g ((k.modTcb t f).tcb u) = g (k.tcb u) :=
  setTcb_keeps k t u g (hf _)

@[simp] theorem modTcb_mutexes (k : Kernel n) (t : Fin n) (f : Tcb n → Tcb n) :
    (k.modTcb t f).mutexes = k.mutexes := rfl

@[simp] theorem modTcb_sems (k : Kernel n) (t : Fin n) (f : Tcb n → Tcb n) :
    (k.modTcb t f).sems = k.sems := rfl

@[simp] theorem modTcb_timers (k : Kernel n) (t : Fin n) (f : Tcb n → Tcb n) :
    (k.modTcb t f).timers = k.timers := rfl

@[simp] theorem modTcb_active (k : Kernel n) (t : Fin n) (f : Tcb n → Tcb n) :
    (k.modTcb t f).active = k.active := rfl

@[simp] theorem modTcb_curr (k : Kernel n) (t : Fin n) (f : Tcb n → Tcb n) :
    (k.modTcb t f).curr = k.curr := rfl

@[simp] theorem setMutex_tcb (k : Kernel n) (m : ℕ) (c : Mutex n) : (k.setMutex m c).tcb = k.tcb := rfl

@[simp] theorem setMutex_mutexes (k : Kernel n) (m : ℕ) (c : Mutex n) : (k.setMutex m c).mutexes m = c := by
  simp [setMutex]

@[simp] theorem setMutex_sems (k : Kernel n) (m : ℕ) (c : Mutex n) : (k.setMutex m c).sems = k.sems := rfl

@[simp] theorem setMutex_timers (k : Kernel n) (m : ℕ) (c : Mutex n) : (k.setMutex m c).timers = k.timers := rfl

@[simp] theorem setMutex_active (k : Kernel n) (m : ℕ) (c : Mutex n) : (k.setMutex m c).active = k.active := rfl

@[simp] theorem setMutex_curr (k : Kernel n) (m : ℕ) (c : Mutex n) : (k.setMutex m c).curr = k.curr := rfl

@[simp] theorem setSem_tcb (k : Kernel n) (m : ℕ) (c : Semaphore n) : (k.setSem m c).tcb = k.tcb := rfl

@[simp] theorem setSem_sems (k : Kernel n) (m : ℕ) (c : Semaphore n) : (k.setSem m c).sems m = c := by
  simp [setSem]

@[simp] theorem setSem_mutexes (k : Kernel n) (m : ℕ) (c : Semaphore n) : (k.setSem m c).mutexes = k.mutexes := rfl

@[simp] theorem setSem_curr (k : Kernel n) (m : ℕ) (c : Semaphore n) : (k.setSem m c).curr = k.curr := rfl

@[simp] theorem setSem_setSem (k : Kernel n) (m : ℕ) (c d : Semaphore n) :
    (k.setSem m c).setSem m d = k.setSem m d := by
  simp [setSem]

@[simp] theorem modTcb_setSem (k : Kernel n) (m : ℕ) (c : Semaphore n) (t : Fin n) (f : Tcb n → Tcb n) :
    (k.setSem m c).modTcb t f = (k.modTcb t f).setSem m c := rfl

/-- Updates of one control block, one after the other. -/
@[simp] theorem modTcb_modTcb (k : Kernel n) (t : Fin n) (f g : Tcb n → Tcb n) :
    (k.modTcb t f).modTcb t g = k.modTcb t fun c => g (f c) := by
  simp [modTcb, setTcb]

@[simp] theorem setMutex_setMutex (k : Kernel n) (m : ℕ) (c d : Mutex n) :
    (k.setMutex m c).setMutex m d = k.setMutex m d := by
  simp [setMutex]

@[simp] theorem modTcb_setMutex (k : Kernel n) (m : ℕ) (c : Mutex n) (t : Fin n) (f : Tcb n → Tcb n) :
    (k.setMutex m c).modTcb t f = (k.modTcb t f).setMutex m c := rfl

theorem setPrio_eq_modTcb (k : Kernel n) (t : Fin n) (p : ℤ) :
    k.setPrio t p = k.modTcb t fun c => { c with prio := p } := rfl

theorem setPrio_keeps {β : Type*} (k : Kernel n) (t u : Fin n) (p : ℤ) (g : Tcb n → β)
    (hg : ∀ c, g { c with prio := p } = g c) : g ((k.setPrio t p).tcb u) = g (k.tcb u) :=
  modTcb_keeps k t u g hg

@[simp] theorem next_setNext (k : Kernel n) (t : Fin n) (v : Option (Fin n)) :
    (k.setNext t v).next = Function.update k.next t v := by
  funext u
  by_cases h : u = t
  · subst h; simp [next, setNext]
  · simp [next, setNext, h]

@[simp] theorem setNext_readyHead (k : Kernel n) (t : Fin n) (v : Option (Fin n)) :
    (k.setNext t v).readyHead = k.readyHead := rfl

@[simp] theorem next_setState (k : Kernel n) (t : Fin n) (v : TaskState) :
    (k.setState t v).next = k.next := by
  funext u
  by_cases h : u = t
  · subst h; simp [next, setState]
  · simp [next, setState, h]

@[simp] theorem next_setPrio (k : Kernel n) (t : Fin n) (v : ℤ) : (k.setPrio t v).next = k.next := by
  funext u
  by_cases h : u = t
  · subst h; simp [next, setPrio]
  · simp [next, setPrio, h]

end Kernel

theorem state_setState {n : ℕ} (k : Kernel n) (t u : Fin n) (v : TaskState) :
    ((k.setState t v).tcb u).state = if u = t then v else (k.tcb u).state := by
  by_cases h : u = t
  · subst h; simp [Kernel.setState]
  · simp [Kernel.setState, h]

end Rosx
