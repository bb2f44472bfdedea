/-
# Mutexes and the tick interrupt

After its last `rx_exit_critical`, `rx_mutex_lock` is on the wait chain and off
the ready queue, but the caller still runs: it calls `rx_sched`, or it starts
its timer, stores the timer's address and suspends itself
(`rxMutexTimeout_eq`). Interrupts are unmasked in this window, and the tick
handler does not look whether the running task is suspended: at the end of its
time slice it puts it on the ready queue, and a preemption sets it to
`RX_TASK_READY`.

Any number of tasks share any number of mutexes. A step of a run is a critical
section, or a statement between two of them: `rx_mutex_lock` up to the window,
a step in the window, an unlock, a deletion, an expiry, a return; a statement
of `rx_suspend_task`, `rx_resume_task` or `rx_sched`; or a tick. `rx_sched` is
called by the window, by `rx_suspend_task`, by a task of its own, and by
`sig_handler` for a task that it preempts, which may be in an `rx_sched` already.
The points inside a critical section where a nested `rx_exit_critical` has
unmasked interrupts (`Rosx/Critical.lean`) are not points of a run here.

This file has the system, its invariant, and the calls that put tasks on the
chains or take them off; `Rosx/MutexTickRun.lean` has the rest and the runs.

Key definitions: `TickSys.exec`, `TickSys.WaitersSuspended`, `TickSys.KeepsWaiting`,
`TickSys.ReturnsToOwner`, `TickSys.TickSafe`.
-/
import Rosx.MutexRun
import Rosx.Tick

namespace Rosx

open Linked

variable {n : ℕ}

/-! ### The window -/

/-- The timer of a timed call is set up and started. -/
def lockStart (k : Kernel n) (timeout : Word) (tm : ℕ) : Kernel n :=
  (k.rxInitTimer tm .mutexHandler k.curr timeout).rxStartTimer tm

/-- `__rx_curr_running_task->timer = &timer;` -/
def lockPoint (k : Kernel n) (tm : ℕ) : Kernel n := k.modTcb k.curr fun c => { c with timer := some tm }

/-- The steps one after the other are `__rx_mutex_timeout` up to the switch. -/
theorem rxMutexTimeout_eq (k : Kernel n) (timeout : Word) (tm : ℕ) :
    rxMutexTimeout k timeout tm =
      rxRemoveFromReadyQ (lockPoint (lockStart k timeout tm) tm) (lockStart k timeout tm).curr >>= fun k =>
        rxSched (k.setState k.curr .suspend) := by
  simp only [rxMutexTimeout, rxSuspendTask, lockStart, lockPoint, bind_assoc, pure_bind]
  refine bind_congr fun k' => ?_
  rw [bind_pure]

/-- The steps that a task in the window has taken; at the end of it the task is
in `rx_sched`, having started a timer or not. -/
inductive LockStage where
  | chained
  | started
  | pointed
  | unqueued
  | waiting (timed : Bool)
  deriving DecidableEq, Repr

/-- Where a task is: outside; in the window of a lock call; past it, blocked or
woken, with a timeout or not; in `rx_suspend_task(MYSELF)`, off the ready queue
and then marked `RX_TASK_SUSPEND`; in `rx_resume_task(t)`, past the test and
then with `t` marked `RX_TASK_READY`. -/
inductive LockPc (n : ℕ) where
  | out
  | window (stage : LockStage) (m : ℕ) (timeout : ℤ) (tm : ℕ)
  | asleep (m : ℕ) (timed : Bool)
  | suspending (marked : Bool)
  | resuming (t : Fin n) (marked : Bool)
  deriving DecidableEq, Repr

namespace LockPc

/-- In the window, or between two steps of `rx_suspend_task` or
`rx_resume_task`. -/
def midCall : LockPc n → Bool
  | .out | .asleep .. => false
  | .window .. | .suspending _ | .resuming .. => true

/-- How many calls of `rx_sched` are part of the place. -/
def depth : LockPc n → ℕ
  | .window (.waiting _) .. | .suspending true => 1
  | _ => 0

/-- The place once this call has returned. -/
def returned : LockPc n → LockPc n
  | .window (.waiting timed) m _ _ => .asleep m timed
  | .suspending true => .out
  | p => p

/-- The task that is ready or running but not on the ready queue, when the
running task `c` is at the place. -/
def loose (c : Fin n) : LockPc n → Option (Fin n)
  | .suspending false => some c
  | .resuming t true => some t
  | _ => none

theorem eq_out_or_asleep {p : LockPc n} (hp : p.midCall = false) : p = .out ∨ ∃ m timed, p = .asleep m timed := by
  cases p with
  | out => exact Or.inl rfl
  | asleep m timed => exact Or.inr ⟨m, timed, rfl⟩
  | window st m timeout tm => cases hp
  | suspending marked => cases hp
  | resuming t marked => cases hp

theorem loose_of_not_midCall {p : LockPc n} (hp : p.midCall = false) (c : Fin n) : p.loose c = none := by
  obtain rfl | ⟨m, timed, rfl⟩ := eq_out_or_asleep hp
  · rfl
  · rfl

theorem returned_of_not_midCall {p : LockPc n} (hp : p.midCall = false) : p.returned = p := by
  obtain rfl | ⟨m, timed, rfl⟩ := eq_out_or_asleep hp
  · rfl
  · rfl

end LockPc

/-- Where a call of `rx_sched` is: before its test, past it, and past the reset
of `__rx_need_resched`. -/
inductive SchedStage where
  | called
  | tested
  | cleared
  deriving DecidableEq, Repr

/-- The kernel, where each task is, the calls of `rx_sched` it is in, the
innermost first, and which mutexes have been deleted. -/
structure TickSys (n : ℕ) where
  k : Kernel n
  pc : Fin n → LockPc n
  scheds : Fin n → List SchedStage
  deleted : ℕ → Bool

/-- A step of a run. A tick carries the task that its event makes ready. -/
inductive TickCall (n : ℕ) where
  | lock (m : ℕ) (timeout : ℤ) (tm : ℕ)
  | advance
  | unlock (m : ℕ)
  | delete (m : ℕ)
  | expire (tm : ℕ)
  | ret
  | sched
  | suspend
  | resume (t : Fin n)
  | tick (wakes : Option (Fin n))

namespace TickSys

/-- The kernel becomes `k'`, with the running task at `p` and in the calls `l` of
`rx_sched`. -/
def goto (s : TickSys n) (p : LockPc n) (l : List SchedStage) (k' : Kernel n) : TickSys n where
  k := k'
  pc := Function.update s.pc s.k.curr p
  scheds := Function.update s.scheds s.k.curr l
  deleted := s.deleted

/-- The kernel becomes `k'`, and mutex `m` is deleted. -/
def drop (s : TickSys n) (m : ℕ) (k' : Kernel n) : TickSys n where
  k := k'
  pc := s.pc
  scheds := s.scheds
  deleted := Function.update s.deleted m true

/-- `__rx_need_resched = 0;` -/
def clearResched (k : Kernel n) : Kernel n := { k with needResched := false }

/-- The innermost `rx_sched` of the running task returns, or switches and will
return; the calls `l` go on. -/
def schedReturn (s : TickSys n) (l : List SchedStage) (k' : Kernel n) : TickSys n :=
  s.goto (if l.isEmpty then (s.pc s.k.curr).returned else s.pc s.k.curr) l k'

/-- The next step of the innermost `rx_sched` of the running task. -/
def schedStep (s : TickSys n) (l : List SchedStage) : SchedStage → Res (TickSys n)
  | .called =>
    if some s.k.curr ≠ s.k.readyHead then .ok (s.goto (s.pc s.k.curr) (.tested :: l) s.k)
    else .ok (s.schedReturn l s.k)
  | .tested => .ok (s.goto (s.pc s.k.curr) (.cleared :: l) (clearResched s.k))
  | .cleared => (rxSwitchTo s.k.enterCritical).map (s.schedReturn l)

/-- Uninterrupted, the steps of an `rx_sched` are `rxSched`. -/
theorem schedSteps_eq (s : TickSys n) (l : List SchedStage) :
    (s.schedStep l .called >>= fun s1 =>
      if some s.k.curr ≠ s.k.readyHead then s1.schedStep l .tested >>= fun s2 => s2.schedStep l .cleared else .ok s1) =
      (rxSched s.k).map (s.schedReturn l) := by
  unfold rxSched
  by_cases hne : some s.k.curr ≠ s.k.readyHead
  · have hret : ∀ k', ((s.goto (s.pc s.k.curr) (.tested :: l) s.k).goto (s.pc s.k.curr) (.cleared :: l)
        (clearResched s.k)).schedReturn l k' = s.schedReturn l k' := by
      intro k'
      simp [schedReturn, goto, clearResched]
    simp only [schedStep, if_pos hne, bind, Except.bind]
    show Except.map _ (rxSwitchTo (clearResched s.k).enterCritical) = _
    simp only [goto, Function.update_self] at hret ⊢
    exact congrArg (Except.map · _) (funext hret)
  · simp only [schedStep, if_neg hne, bind, Except.bind]
    rfl

/-- The next step of the running task's call, outside `rx_sched`. -/
def callStep (s : TickSys n) : Res (TickSys n) :=
  match s.pc s.k.curr with
  | .window .chained m timeout tm =>
    if timeout > 0 then .ok (s.goto (.window .started m timeout tm) [] (lockStart s.k (BitVec.ofInt 32 timeout) tm))
    else .ok (s.goto (.window (.waiting false) m timeout tm) [.called] s.k)
  | .window .started m timeout tm => .ok (s.goto (.window .pointed m timeout tm) [] (lockPoint s.k tm))
  | .window .pointed m timeout tm =>
    (rxRemoveFromReadyQ s.k s.k.curr).map (s.goto (.window .unqueued m timeout tm) [])
  | .window .unqueued m timeout tm =>
    .ok (s.goto (.window (.waiting true) m timeout tm) [.called] (s.k.setState s.k.curr .suspend))
  | .suspending false => .ok (s.goto (.suspending true) [.called] (s.k.setState s.k.curr .suspend))
  | .resuming t false => .ok (s.goto (.resuming t true) [] (s.k.setState t .ready))
  | .resuming t true => (rxAddToReadyQ s.k t).map fun x => s.goto .out [] x.2
  | _ => .ok s

/-- The next step of the running task. -/
def advance (s : TickSys n) : Res (TickSys n) :=
  match s.scheds s.k.curr with
  | st :: l => s.schedStep l st
  | [] => s.callStep

/-- The end of `sig_handler`, in the kernel that the tick handler leaves. A task
that is preempted is sent to `rx_sched`. -/
def sigReturn (s : TickSys n) (k' : Kernel n) : TickSys n :=
  s.goto (s.pc s.k.curr)
    (if k'.needResched then .called :: s.scheds s.k.curr else s.scheds s.k.curr) (irqExit (preempt k'))

/-- What a step computes: the code a call of a mutex service returns, if it
returns, and the system it leaves. -/
def exec (s : TickSys n) : TickCall n → Res (Option OsErr × TickSys n)
  | .lock m timeout tm => do
    let (r, k) ← rxMutexLockChain s.k m timeout
    match r with
    | some _ => return (r, { s with k := k })
    | none => return (r, s.goto (.window .chained m timeout tm) [] k)
  | .advance => s.advance.map (none, ·)
  | .unlock m => do
    let (r, k) ← rxMutexUnlock s.k m
    return (some r, { s with k := k })
  | .delete m => (rxDeleteMutex s.k m).map fun k => (none, s.drop m k)
  | .expire tm => (expireMutexTimer s.k tm).map fun k => (none, { s with k := k })
  | .ret =>
    match s.pc s.k.curr with
    | .asleep m timed => .ok (some (rxMutexLockRet s.k m timed), s.goto .out [] s.k)
    | _ => .ok (none, s)
  | .sched => .ok (none, s.goto .out [.called] s.k)
  | .suspend => (rxRemoveFromReadyQ s.k s.k.curr).map fun k => (none, s.goto (.suspending false) [] k)
  | .resume t =>
    if (s.k.tcb t).state ≠ .suspend then .ok (none, s) else .ok (none, s.goto (.resuming t false) [] s.k)
  | .tick wakes => (rxTimerTickIrqHandler (irqEnter s.k) wakes).map fun k => (none, s.sigReturn k)

/-- The running task is in no call. -/
def Free (s : TickSys n) : Prop := s.pc s.k.curr = .out ∧ s.scheds s.k.curr = []

/-- Who may make a step: a task in no call, with any `int` as timeout and a timer
of its own, and the timer thread is one of these; a task in a call goes on in
it. Only tasks outside are resumed or woken by an event, and a tick comes only
when the signal is not masked. -/
def Admissible (s : TickSys n) : TickCall n → Prop
  | .lock _ timeout tm => s.Free ∧ timeout < 2 ^ 31 ∧ tm ∉ s.k.active
  | .advance => (s.pc s.k.curr).midCall = true ∨ s.scheds s.k.curr ≠ []
  | .unlock _ | .delete _ | .sched | .suspend => s.Free
  | .expire tm => s.Free ∧ tm ∈ s.k.active
  | .ret => s.pc s.k.curr ≠ .out ∧ (s.pc s.k.curr).midCall = false ∧ s.scheds s.k.curr = []
  | .resume t => s.Free ∧ s.pc t = .out
  | .tick wakes => s.k.port.masked = false ∧ ∀ t, wakes = some t → s.pc t = .out ∧ (s.k.tcb t).state = .suspend

/-- The step relation; its label has the code that was returned. -/
def Step (s : TickSys n) (c : TickCall n × Option OsErr) (s' : TickSys n) : Prop :=
  s.Admissible c.1 ∧ s.exec c.1 = .ok (c.2, s')

/-- The task is on the wait chain of mutex `m`. -/
def OnChain (s : TickSys n) (m : ℕ) (t : Fin n) : Prop := t ∈ nodes s.k.next n (s.k.mutexes m).task

/-- The task is on the ready queue. -/
def OnReady (s : TickSys n) (t : Fin n) : Prop := t ∈ nodes s.k.next n s.k.readyHead

instance (s : TickSys n) (m : ℕ) (t : Fin n) : Decidable (s.OnChain m t) :=
  inferInstanceAs (Decidable (t ∈ nodes s.k.next n (s.k.mutexes m).task))

instance (s : TickSys n) (t : Fin n) : Decidable (s.OnReady t) :=
  inferInstanceAs (Decidable (t ∈ nodes s.k.next n s.k.readyHead))

/-- A task on a wait chain is suspended and not on the ready queue. -/
def WaitersSuspended (s : TickSys n) : Prop :=
  ∀ m t, s.OnChain m t → ¬ s.OnReady t ∧ (s.k.tcb t).state = .suspend

/-- A task stays on its chain until its mutex is unlocked or deleted or the
timer of its call expires. -/
def KeepsWaiting (s : TickSys n) (c : TickCall n) (s' : TickSys n) : Prop :=
  ∀ m t, s.OnChain m t → s'.OnChain m t ∨ c = .unlock m ∨ c = .delete m ∨
    ∃ tm, c = .expire tm ∧ (s.k.tcb t).timer = some tm ∧ s.pc t = .asleep m true

/-- A lock call that returns `OS_OK` at once, or after a wait without a timeout
for a mutex that has not been deleted, leaves its task the owner. -/
def ReturnsToOwner (s : TickSys n) (c : TickCall n) (r : Option OsErr) (s' : TickSys n) : Prop :=
  match c with
  | .lock m _ _ => r = some .osOk → (s'.k.mutexes m).owner = some s.k.curr
  | .ret => ∀ m, s.pc s.k.curr = .asleep m false → s.deleted m = false → r = some .osOk →
      (s'.k.mutexes m).owner = some s.k.curr
  | _ => True

/-- A tick in the window, or inside `rx_suspend_task` or `rx_resume_task`, only
counts: nobody is woken, no preemption has been requested, and the time slice
does not end. -/
def TickSafe (s : TickSys n) (c : TickCall n × Option OsErr) : Prop :=
  match c.1 with
  | .tick wakes => (s.pc s.k.curr).midCall = true → wakes = none ∧ s.k.needResched = false ∧
      ¬ ((s.k.tcb s.k.curr).timeSlice > 0 ∧ (s.k.tcb s.k.curr).ticks - 1 = 0)
  | _ => True

/-- New mutexes, no timer active; the ready queue holds the tasks that are
ready or running. -/
structure Init (s : TickSys n) : Prop where
  mutexes : ∀ m, s.k.mutexes m = {}
  ready : ∃ lr, Chain s.k.next s.k.readyHead lr ∧ ∀ t, t ∈ lr ↔ (s.k.tcb t).state.runnable = true
  curr : (s.k.tcb s.k.curr).state.runnable = true
  port : s.k.port = {}
  active : s.k.active = []
  pc : ∀ t, s.pc t = .out
  scheds : ∀ t, s.scheds t = []
  deleted : ∀ m, s.deleted m = false

/-! ### The invariant -/

/-- What holds of a task at each place, with the ready queue `lr` and the wait
chains `lw`. Only the running task is in the window, at the end of the chain, or
in the midst of a call; past the window a task is on the chain until it is
woken. -/
def At (s : TickSys n) (lr : List (Fin n)) (lw : ℕ → List (Fin n)) (t : Fin n) : LockPc n → Prop
  | .out => ∀ m, t ∉ lw m
  | .window st m timeout tm => t = s.k.curr ∧ (∃ l, lw m = l ++ [t]) ∧ (s.k.tcb t).state = .suspend ∧
      (s.k.tcb t).mutex = some m ∧ (st = .chained → tm ∉ s.k.active ∧ timeout < 2 ^ 31)
  | .asleep m timed => (t ∈ lw m ∧ (s.k.tcb t).state = .suspend ∧ (s.k.tcb t).mutex = some m) ∨
      (t ∈ lr ∧ (timed = false → s.deleted m = false →
        (s.k.mutexes m).lock = .locked ∧ (s.k.mutexes m).owner = some t))
  | .suspending marked => t = s.k.curr ∧ (∀ m, t ∉ lw m) ∧ (marked = true → (s.k.tcb t).state = .suspend)
  | .resuming u marked => t = s.k.curr ∧ (∀ m, t ∉ lw m) ∧ t ∈ lr ∧ (∀ m, u ∉ lw m) ∧
      (s.k.tcb u).state = if marked then .ready else .suspend

/-- The task is in a call whose timer is `tm`. -/
def Owns (k : Kernel n) (lw : ℕ → List (Fin n)) (t : Fin n) (tm : ℕ) : LockPc n → Prop
  | .out | .suspending _ | .resuming .. => False
  | .window .chained .. | .window (.waiting false) .. => False
  | .window .started _ _ tm' => tm' = tm
  | .window .pointed _ _ tm' | .window .unqueued _ _ tm' | .window (.waiting true) _ _ tm' =>
    tm' = tm ∧ (k.tcb t).timer = some tm
  | .asleep m timed => timed = true ∧ t ∈ lw m ∧ (k.tcb t).timer = some tm

structure Inv (s : TickSys n) (lr : List (Fin n)) (lw : ℕ → List (Fin n)) : Prop where
  lists : Lists s.k s.k lr (fun m => (s.k.mutexes m).task) lw
  port : s.k.port = {}
  queue : ∀ t, t ∈ lr ↔ (s.k.tcb t).state.runnable = true ∧ (s.pc s.k.curr).loose s.k.curr ≠ some t
  curr : (s.pc s.k.curr).midCall = false → s.k.curr ∈ lr
  depth : (s.pc s.k.curr).midCall = true → (s.scheds s.k.curr).length = (s.pc s.k.curr).depth
  tasks : ∀ t, At s lr lw t (s.pc t)
  active : s.k.active.Nodup
  armed : ∀ tm ∈ s.k.active, (s.k.timers tm).enabled = true ∧ (s.k.timers tm).handler = some .mutexHandler ∧
    ∃ t, (s.k.timers tm).priv = some t ∧ Owns s.k lw t tm (s.pc t)

/-- A task in the midst of no call whose own data stay is where it was. -/
theorem At.keep {s s' : TickSys n} {lr lr' : List (Fin n)} {lw lw' : ℕ → List (Fin n)} {t : Fin n} {p : LockPc n}
    (h : At s lr lw t p) (hw : p.midCall = false) (hlw : ∀ j, t ∈ lw' j ↔ t ∈ lw j)
    (hlr : p ≠ .out → t ∈ lr → t ∈ lr') (hst : ∀ j, t ∈ lw j → (s'.k.tcb t).state = (s.k.tcb t).state)
    (hmut : (s'.k.tcb t).mutex = (s.k.tcb t).mutex) (hdel : s'.deleted = s.deleted)
    (hmtx : ∀ j, (s'.k.mutexes j).lock = (s.k.mutexes j).lock ∧ (s'.k.mutexes j).owner = (s.k.mutexes j).owner) :
    At s' lr' lw' t p := by
  obtain rfl | ⟨j, timed, rfl⟩ := LockPc.eq_out_or_asleep hw
  · exact fun j hj => h j ((hlw j).mp hj)
  · rcases h with ⟨hj, hs, hm⟩ | ⟨hr, ho⟩
    · exact Or.inl ⟨(hlw j).mpr hj, (hst j hj).trans hs, hmut.trans hm⟩
    · refine Or.inr ⟨hlr (by simp) hr, ?_⟩
      rw [hdel, (hmtx j).1, (hmtx j).2]
      exact ho

/-- Only the running task is in the midst of a call. -/
theorem At.eq_curr {s : TickSys n} {lr : List (Fin n)} {lw : ℕ → List (Fin n)} {t : Fin n} {p : LockPc n}
    (h : At s lr lw t p) (hp : p.midCall = true) : t = s.k.curr := by
  cases p with
  | out => cases hp
  | asleep m timed => cases hp
  | window st m timeout tm => exact h.1
  | suspending marked => exact h.1
  | resuming u marked => exact h.1

/-- Where also the timers that are active stay, so is a task in the midst of
one. -/
theorem At.same {s s' : TickSys n} {lr : List (Fin n)} {lw : ℕ → List (Fin n)} {t : Fin n} {p : LockPc n}
    (h : At s lr lw t p) (hst : ∀ u, (s'.k.tcb u).state = (s.k.tcb u).state) (hi : Idle s.k s'.k)
    (hcurr : s'.k.curr = s.k.curr) (hdel : s'.deleted = s.deleted) : At s' lr lw t p := by
  cases p with
  | out => exact h
  | window st j timeout tm =>
    obtain ⟨hc, hl, hs, hm, hch⟩ := h
    exact ⟨hc.trans hcurr.symm, hl, (hst t).trans hs, (hi.mutex t).trans hm, fun he => hi.active ▸ hch he⟩
  | suspending marked =>
    obtain ⟨hc, hl, hs⟩ := h
    exact ⟨hc.trans hcurr.symm, hl, fun he => (hst t).trans (hs he)⟩
  | resuming u marked =>
    obtain ⟨hc, hl, hr, hu, hs⟩ := h
    exact ⟨hc.trans hcurr.symm, hl, hr, hu, (hst u).trans hs⟩
  | asleep j timed =>
    refine At.keep (p := .asleep j timed) h rfl (fun _ => Iff.rfl) (fun _ hr => hr) (fun _ _ => hst t) (hi.mutex t) hdel
      fun i => ?_
    rw [hi.mutexes]
    exact ⟨rfl, rfl⟩

theorem Owns.keep {k k' : Kernel n} {lw lw' : ℕ → List (Fin n)} {t : Fin n} {tm : ℕ} {p : LockPc n}
    (h : Owns k lw t tm p) (hw : p.midCall = false) (hlw : ∀ j, t ∈ lw' j ↔ t ∈ lw j)
    (htm : (k'.tcb t).timer = (k.tcb t).timer) : Owns k' lw' t tm p := by
  obtain rfl | ⟨j, timed, rfl⟩ := LockPc.eq_out_or_asleep hw
  · exact h
  · exact ⟨h.1, (hlw j).mpr h.2.1, htm.trans h.2.2⟩

theorem Owns.same {k k' : Kernel n} {lw : ℕ → List (Fin n)} {t : Fin n} {tm : ℕ} {p : LockPc n} (h : Owns k lw t tm p)
    (htm : (k'.tcb t).timer = (k.tcb t).timer) : Owns k' lw t tm p := by
  cases p with
  | out => exact h
  | suspending marked => exact h
  | resuming u marked => exact h
  | asleep j timed => exact ⟨h.1, h.2.1, htm.trans h.2.2⟩
  | window st j timeout tm' =>
    cases st with
    | chained => exact h
    | started => exact h
    | pointed => exact ⟨h.1, htm.trans h.2⟩
    | unqueued => exact ⟨h.1, htm.trans h.2⟩
    | waiting timed =>
      cases timed with
      | false => exact h
      | true => exact ⟨h.1, htm.trans h.2⟩

theorem Init.inv {s : TickSys n} (h : Init s) : ∃ lr, Inv s lr (fun _ => []) := by
  obtain ⟨lr, hc, hr⟩ := h.ready
  refine ⟨lr, ⟨Relinked.refl _, Or.inl h.port, hc, fun m => ?_, ?_, ?_⟩, h.port, fun t => ?_,
    fun _ => (hr _).mpr h.curr, fun hm => ?_, fun t => ?_, ?_, ?_⟩
  · show Chain s.k.next (s.k.mutexes m).task []
    rw [h.mutexes]
    rfl
  · simp
  · simp
  · rw [hr, h.pc]
    simp [LockPc.loose]
  · rw [h.pc] at hm
    cases hm
  · rw [h.pc]
    simp [At]
  · simp [h.active]
  · simp [h.active]

section Calls

variable {s s' : TickSys n} {lr lr' : List (Fin n)} {lw : ℕ → List (Fin n)} {m : ℕ} {t : Fin n} {k' : Kernel n}

theorem Inv.onChain_iff (h : Inv s lr lw) (m : ℕ) (t : Fin n) : s.OnChain m t ↔ t ∈ lw m := by
  rw [OnChain, (h.lists.wait m).nodes_eq]

theorem Inv.onReady_iff (h : Inv s lr lw) (t : Fin n) : s.OnReady t ↔ t ∈ lr := by
  rw [OnReady, h.lists.ready.nodes_eq]

theorem Inv.runnable (h : Inv s lr lw) (ht : t ∈ lr) : (s.k.tcb t).state.runnable = true := ((h.queue t).mp ht).1

/-- In the midst of no `rx_suspend_task` or `rx_resume_task` the ready queue
holds the tasks that are ready or running. -/
theorem Inv.ready (h : Inv s lr lw) (hl : (s.pc s.k.curr).loose s.k.curr = none) (t : Fin n) :
    t ∈ lr ↔ (s.k.tcb t).state.runnable = true := by
  rw [h.queue, hl]
  simp

/-- A task on a chain waits there, in the window or past it. -/
theorem Inv.waits_of_mem (h : Inv s lr lw) (ht : t ∈ lw m) :
    (s.k.tcb t).state = .suspend ∧ (s.k.tcb t).mutex = some m ∧
      ((∃ st timeout tm, s.pc t = .window st m timeout tm ∧ t = s.k.curr) ∨ ∃ timed, s.pc t = .asleep m timed) := by
  have hat := h.tasks t
  cases hpc : s.pc t with
  | out =>
    rw [hpc] at hat
    exact absurd ht (hat m)
  | window st m' timeout tm =>
    rw [hpc] at hat
    obtain ⟨hc, ⟨l, hl⟩, hs, hm, -⟩ := hat
    obtain rfl : m' = m := h.lists.apart m' m t (by rw [hl]; simp) ht
    exact ⟨hs, hm, Or.inl ⟨st, timeout, tm, rfl, hc⟩⟩
  | asleep m' timed =>
    rw [hpc] at hat
    rcases hat with ⟨hl, hs, hm⟩ | ⟨hr, -⟩
    · obtain rfl : m' = m := h.lists.apart m' m t hl ht
      exact ⟨hs, hm, Or.inr ⟨timed, rfl⟩⟩
    · exact absurd hr (h.lists.notReady m t ht)
  | suspending marked =>
    rw [hpc] at hat
    exact absurd ht (hat.2.1 m)
  | resuming u marked =>
    rw [hpc] at hat
    exact absurd ht (hat.2.1 m)

theorem Inv.notMidCall (h : Inv s lr lw) (ht : t ≠ s.k.curr) : (s.pc t).midCall = false := by
  by_contra hmid
  exact ht ((h.tasks t).eq_curr (by simpa using hmid))

/-- Nobody is in the midst of a call when the running task is not. -/
theorem Inv.noMidCall (h : Inv s lr lw) (hout : (s.pc s.k.curr).midCall = false) (t : Fin n) :
    (s.pc t).midCall = false := by
  by_cases ht : t = s.k.curr
  · rw [ht]
    exact hout
  · exact h.notMidCall ht

/-- With the running task outside, a task that is not outside is past the
window. -/
theorem Inv.out_or_asleep (h : Inv s lr lw) (hpc : s.pc s.k.curr = .out) (t : Fin n) :
    s.pc t = .out ∨ ∃ m timed, s.pc t = .asleep m timed := by
  apply LockPc.eq_out_or_asleep
  apply h.noMidCall
  rw [hpc]
  rfl

theorem Inv.waitersSuspended (h : Inv s lr lw) : s.WaitersSuspended := by
  intro m t ht
  rw [h.onChain_iff] at ht
  exact ⟨fun hr => h.lists.notReady m t ht ((h.onReady_iff t).mp hr), (h.waits_of_mem ht).1⟩

/-! ### Calls that wake tasks -/

/-- From `k` to `k'` the tasks `l` become ready and their timers are stopped. -/
structure Wakes (k k' : Kernel n) (l : List (Fin n)) : Prop where
  state : ∀ u, (k'.tcb u).state = if u ∈ l then .ready else (k.tcb u).state
  mutex : ∀ u, u ∉ l → (k'.tcb u).mutex = (k.tcb u).mutex
  timer : ∀ u, u ∉ l → (k'.tcb u).timer = (k.tcb u).timer
  active : k'.active.Nodup
  timers : ∀ tm ∈ k'.active, tm ∈ k.active ∧ k'.timers tm = k.timers tm ∧ ∀ u ∈ l, (k.tcb u).timer ≠ some tm
  curr : k'.curr = k.curr

/-- Nothing changes but mutexes, priorities and links. -/
theorem Wakes.nobody {k k' : Kernel n} (hnd : k'.active.Nodup) (hst : ∀ u, (k'.tcb u).state = (k.tcb u).state)
    (hm : ∀ u, (k'.tcb u).mutex = (k.tcb u).mutex) (ht : ∀ u, (k'.tcb u).timer = (k.tcb u).timer)
    (htm : ∀ tm ∈ k'.active, tm ∈ k.active ∧ k'.timers tm = k.timers tm) (hc : k'.curr = k.curr) : Wakes k k' [] :=
  ⟨fun u => by rw [if_neg List.not_mem_nil, hst], fun u _ => hm u, fun u _ => ht u, hnd,
    fun tm h => ⟨(htm tm h).1, (htm tm h).2, fun u hu => absurd hu List.not_mem_nil⟩, hc⟩

theorem Wakes.cons {k k1 k' : Kernel n} {l : List (Fin n)} (h : Wakes k k1 [t]) (h' : Wakes k1 k' l) :
    Wakes k k' (t :: l) := by
  have hne : ∀ u, u ∉ t :: l → u ∉ [t] ∧ u ∉ l := by simp
  refine ⟨fun u => ?_, fun u hu => ?_, fun u hu => ?_, h'.active, fun tm htm => ?_, h'.curr.trans h.curr⟩
  · rw [h'.state, h.state]
    by_cases hut : u = t
    · simp [hut]
    · by_cases hul : u ∈ l
      · simp [hul]
      · simp [hut, hul]
  · rw [h'.mutex u (hne u hu).2, h.mutex u (hne u hu).1]
  · rw [h'.timer u (hne u hu).2, h.timer u (hne u hu).1]
  · obtain ⟨h1, h2, h3⟩ := h'.timers tm htm
    obtain ⟨h4, h5, h6⟩ := h.timers tm h1
    refine ⟨h4, h2.trans h5, fun u hu => ?_⟩
    by_cases hut : u = t
    · exact h6 u (by simp [hut])
    · have hul : u ∈ l := (List.mem_cons.mp hu).resolve_left hut
      rw [← h.timer u (by simp [hut])]
      exact h3 u hul

/-- The timers of other tasks than `l` are active still, and those of `l` are
theirs no more. -/
structure Stops (k k' : Kernel n) (l : List (Fin n)) : Prop where
  active : ∀ tm ∈ k.active, (∀ u ∈ l, (k.tcb u).timer ≠ some tm) → tm ∈ k'.active
  cleared : ∀ u ∈ l, (k'.tcb u).timer = none

theorem Stops.cons {k k1 k' : Kernel n} {l : List (Fin n)} (h : Stops k k1 [t]) (hw : Wakes k k1 [t])
    (hw' : Wakes k1 k' l) (h' : Stops k1 k' l) : Stops k k' (t :: l) := by
  have ht : (k'.tcb t).timer = none := by
    by_cases htl : t ∈ l
    · exact h'.cleared t htl
    · rw [hw'.timer t htl]
      exact h.cleared t List.mem_cons_self
  refine ⟨fun tm htm hne => h'.active tm (h.active tm htm fun u hu => ?_) fun u hu => ?_, fun u hu => ?_⟩
  · rw [List.mem_singleton.mp hu]
    exact hne t List.mem_cons_self
  · by_cases hut : u = t
    · rw [hut, h.cleared t List.mem_cons_self]
      simp
    · rw [hw.timer u (by simpa using hut)]
      exact hne u (List.mem_cons_of_mem _ hu)
  · rcases List.mem_cons.mp hu with rfl | hu
    · exact ht
    · exact h'.cleared u hu

theorem mem_stopTimerOf_of_ne {k : Kernel n} {tm : ℕ} (htm : tm ∈ k.active) (hne : (k.tcb t).timer ≠ some tm) :
    tm ∈ (stopTimerOf k t).active := by
  unfold stopTimerOf
  cases ht : (k.tcb t).timer with
  | none => exact htm
  | some tm' =>
    rw [ht] at hne
    dsimp only
    unfold Kernel.timerStopped
    by_cases hen : (k.timers tm').enabled = true
    · rw [if_pos hen]
      exact (List.mem_erase_of_ne fun he => hne (congrArg some he.symm)).mpr htm
    · rw [if_neg hen]
      exact htm

/-- The tasks `l` are taken off the chain of mutex `m`, which is now `r`. -/
theorem Inv.wake {l r : List (Fin n)} (h : Inv s lr lw) (s' : TickSys n) (hpc : s.pc s.k.curr = .out)
    (hw : Wakes s.k s'.k l) (hpc' : s'.pc = s.pc)
    (hl : Lists s'.k s'.k lr' (fun j => (s'.k.mutexes j).task) (Function.update lw m r))
    (hport : s'.k.port = {}) (hlr : ∀ u, u ∈ lr' ↔ u ∈ l ∨ u ∈ lr) (hr : ∀ u, u ∈ r ↔ u ∈ lw m ∧ u ∉ l)
    (hsub : ∀ u ∈ l, u ∈ lw m)
    (hown : ∀ j u, s.pc u = .asleep j false → s'.deleted j = false →
      (u ∈ l ∨ (s.deleted j = false → (s.k.mutexes j).lock = .locked ∧ (s.k.mutexes j).owner = some u)) →
      (s'.k.mutexes j).lock = .locked ∧ (s'.k.mutexes j).owner = some u) :
    Inv s' lr' (Function.update lw m r) := by
  have hmem : ∀ j u, u ∈ Function.update lw m r j ↔ u ∈ lw j ∧ u ∉ l := by
    intro j u
    by_cases hj : j = m
    · subst hj
      rw [Function.update_self, hr]
    · rw [Function.update_of_ne hj]
      exact ⟨fun hu => ⟨hu, fun hul => hj (h.lists.apart j m u hu (hsub u hul))⟩, fun hu => hu.1⟩
  have hpcc : s'.pc s'.k.curr = .out := by rw [hw.curr, hpc', hpc]
  refine ⟨hl, hport, fun u => ?_, fun _ => ?_, fun hm => ?_, fun u => ?_, hw.active, fun tm htm => ?_⟩
  · rw [hpcc, hlr, hw.state, h.ready (by rw [hpc]; rfl)]
    simp only [LockPc.loose, ne_eq, reduceCtorEq, not_false_eq_true, and_true]
    split_ifs with hu
    · exact iff_of_true (Or.inl hu) rfl
    · exact or_iff_right hu
  · rw [hw.curr, hlr]
    exact Or.inr (h.curr (by rw [hpc]; rfl))
  · rw [hpcc] at hm
    cases hm
  · rw [hpc']
    have hat := h.tasks u
    rcases h.out_or_asleep hpc u with hp | ⟨j, timed, hp⟩
    · rw [hp] at hat ⊢
      exact fun j hj => hat j ((hmem j u).mp hj).1
    · rw [hp] at hat ⊢
      by_cases hu : u ∈ l
      · refine Or.inr ⟨(hlr u).mpr (Or.inl hu), ?_⟩
        rintro rfl hd
        exact hown j u hp hd (Or.inl hu)
      · rcases hat with ⟨hj, hs, hm⟩ | ⟨hru, ho⟩
        · exact Or.inl ⟨(hmem j u).mpr ⟨hj, hu⟩, by rw [hw.state, if_neg hu]; exact hs, (hw.mutex u hu).trans hm⟩
        · refine Or.inr ⟨(hlr u).mpr (Or.inr hru), ?_⟩
          rintro rfl hd
          exact hown j u hp hd (Or.inr (ho rfl))
  · obtain ⟨h1, h2, h3⟩ := hw.timers tm htm
    obtain ⟨hen, hhd, u, hpr, ho⟩ := h.armed tm h1
    rw [h2, hpc']
    refine ⟨hen, hhd, u, hpr, ?_⟩
    rcases h.out_or_asleep hpc u with hp | ⟨j, timed, hp⟩
    · rw [hp] at ho ⊢
      exact ho
    · rw [hp] at ho ⊢
      obtain ⟨rfl, hj, htu⟩ := ho
      have hu : u ∉ l := fun hu => h3 u hu htu
      exact ⟨rfl, (hmem j u).mpr ⟨hj, hu⟩, (hw.timer u hu).trans htu⟩

/-- The heads of the chains after an update of one mutex. -/
theorem heads_of_update {k : Kernel n} {c : Mutex n} {v : Option (Fin n)}
    (hm : k'.mutexes = Function.update k.mutexes m c) (hv : c.task = v) (j : ℕ) :
    (k'.mutexes j).task = Function.update (fun j => (k.mutexes j).task) m v j := by
  rw [hm]
  by_cases hj : j = m
  · subst hj; simp [hv]
  · rw [Function.update_of_ne hj, Function.update_of_ne hj]

/-- The owners after an update of one mutex that keeps its owner. -/
theorem owner_of_update {k : Kernel n} {c : Mutex n} (hm : k'.mutexes = Function.update k.mutexes m c)
    (hc : c.owner = (k.mutexes m).owner) (j : ℕ) : (k'.mutexes j).owner = (k.mutexes j).owner := by
  rw [hm]
  by_cases hj : j = m
  · subst hj
    rw [Function.update_self, hc]
  · rw [Function.update_of_ne hj]

/-- Where nobody is woken and the chains stay, only the mutexes count. -/
theorem Inv.of_mutexes (h : Inv s lr lw) (hpc : s.pc s.k.curr = .out) (hw : Wakes s.k k' [])
    (hl : Lists k' k' lr' (fun j => (k'.mutexes j).task) lw) (hport : k'.port = {}) (hlr : ∀ u, u ∈ lr' ↔ u ∈ lr)
    (hown : ∀ j u, s.pc u = .asleep j false → (s.k.mutexes j).lock = .locked → (s.k.mutexes j).owner = some u →
      (k'.mutexes j).lock = .locked ∧ (k'.mutexes j).owner = some u) : Inv { s with k := k' } lr' lw := by
  have hself : Function.update lw 0 (lw 0) = lw := Function.update_eq_self 0 lw
  have := h.wake { s with k := k' } (m := 0) (r := lw 0) hpc hw rfl (by rw [hself]; exact hl) hport
    (fun u => by simp [hlr u]) (by simp) (by simp) fun j u hp hd ho => ?_
  · rw [hself] at this
    exact this
  · obtain ⟨h1, h2⟩ := ho.resolve_left List.not_mem_nil hd
    exact hown j u hp h1 h2

/-- A free mutex is taken. -/
theorem Inv.lock_free (h : Inv s lr lw) (hpc : s.pc s.k.curr = .out) (hl : (s.k.mutexes m).lock = .unlocked) :
    Inv { s with k := (s.k.enterCritical.setMutex m
      { s.k.mutexes m with lock := .locked, owner := some s.k.curr }).exitCritical } lr lw := by
  set c : Mutex n := { s.k.mutexes m with lock := .locked, owner := some s.k.curr } with hc
  have hls := (h.lists.enter.setMutex m c).exit
  have hw : Wakes s.k (s.k.enterCritical.setMutex m c).exitCritical [] :=
    Wakes.nobody h.active (fun _ => rfl) (fun _ => rfl) (fun _ => rfl) (fun tm htm => ⟨htm, rfl⟩) rfl
  apply h.of_mutexes hpc hw
  · apply hls.self.congr_heads
    intro j
    have hm : (s.k.enterCritical.setMutex m c).exitCritical.mutexes = Function.update s.k.mutexes m c := rfl
    rw [heads_of_update hm (v := (s.k.mutexes m).task) rfl]
    exact congrFun (Function.update_eq_self m fun j => (s.k.mutexes j).task) j
  · exact h.lists.port.enter.exit
  · exact fun _ => Iff.rfl
  · intro j u hp hlock howner
    show (Function.update s.k.mutexes m c j).lock = _ ∧ (Function.update s.k.mutexes m c j).owner = _
    have hj : j ≠ m := by
      rintro rfl
      rw [hl] at hlock
      cases hlock
    rw [Function.update_of_ne hj]
    exact ⟨hlock, howner⟩

theorem mem_update_concat {j : ℕ} {c u : Fin n} :
    u ∈ Function.update lw m (lw m ++ [c]) j ↔ u ∈ lw j ∨ u = c ∧ j = m := by
  by_cases hj : j = m
  · subst hj
    simp
  · rw [Function.update_of_ne hj]
    simp [hj]

/-- The running task joins the chain and is in the window. -/
theorem Inv.lock_blocks (h : Inv s lr lw) (hpc : s.pc s.k.curr = .out) (hl : (s.k.mutexes m).lock = .locked) {o : Fin n}
    (ho : (s.k.mutexes m).owner = some o) {timeout : ℤ} (h0 : timeout ≠ osNoWait) (h1 : timeout < 2 ^ 31) {tm : ℕ}
    (htm : tm ∉ s.k.active) (hk : rxMutexLockChain s.k m timeout = .ok (none, k')) :
    (∃ lr', Inv (s.goto (.window .chained m timeout tm) [] k') lr' (Function.update lw m (lw m ++ [s.k.curr]))) ∧
      (∀ j, (k'.mutexes j).owner = (s.k.mutexes j).owner) ∧ k'.active = s.k.active ∧ k'.timers = s.k.timers ∧
      ∀ u, (k'.tcb u).timer = (s.k.tcb u).timer := by
  have hcr : s.k.curr ∈ lr := h.curr (by rw [hpc]; rfl)
  have hr := h.ready (by rw [hpc]; rfl)
  have hor : (s.k.tcb o).state = .ready → o ∈ lr := fun hs => (hr o).mpr (by rw [hs]; rfl)
  obtain ⟨k1, lr', hrun, hport, hmem, hls⟩ := rxMutexLockChain_blocks (i := m) h.lists rfl hl ho hor hcr h0
  obtain ⟨-, rfl⟩ := Prod.mk.inj (Except.ok.inj (hrun.symm.trans hk))
  have hcurr : k1.curr = s.k.curr := hls.data.curr
  have hst : ∀ u, (k1.tcb u).state = if u = s.k.curr then .suspend else (s.k.tcb u).state := by
    intro u
    rw [hls.data.state, blockedOn_state]
  have hmut : ∀ u, (k1.tcb u).mutex = if u = s.k.curr then some m else (s.k.tcb u).mutex := by
    intro u
    rw [hls.data.mutex, blockedOn_mutex]
  have htimer : ∀ u, (k1.tcb u).timer = (s.k.tcb u).timer := by
    intro u
    rw [hls.data.timer, blockedOn_timer]
  have hmtx : k1.mutexes = Function.update s.k.mutexes m
      { s.k.mutexes m with task := (lw m ++ [s.k.curr]).head? } := hls.data.mutexes
  have hactive : k1.active = s.k.active := hls.data.active
  have htimers : k1.timers = s.k.timers := hls.data.timers
  have hmemw : ∀ j u, u ≠ s.k.curr → (u ∈ Function.update lw m (lw m ++ [s.k.curr]) j ↔ u ∈ lw j) := by
    intro j u hu
    rw [mem_update_concat]
    exact or_iff_left fun hc => hu hc.1
  have hnw : (s.goto (.window .chained m timeout tm) [] k1).pc (s.goto (.window .chained m timeout tm) [] k1).k.curr =
      .window .chained m timeout tm := by
    show Function.update s.pc s.k.curr _ k1.curr = _
    rw [hcurr, Function.update_self]
  have howner : ∀ j, (k1.mutexes j).lock = (s.k.mutexes j).lock ∧ (k1.mutexes j).owner = (s.k.mutexes j).owner := by
    intro j
    rw [hmtx]
    by_cases hj : j = m
    · subst hj
      rw [Function.update_self]
      exact ⟨rfl, rfl⟩
    · rw [Function.update_of_ne hj]
      exact ⟨rfl, rfl⟩
  refine ⟨⟨lr', hls.self.congr_heads fun j => ?_, hport, fun u => ?_, fun hw => ?_, fun _ => ?_, fun u => ?_, ?_,
    fun tm' htm' => ?_⟩, fun j => (howner j).2, hactive, htimers, htimer⟩
  · exact heads_of_update hmtx rfl j
  · rw [hnw, hmem, hr]
    show _ ↔ (k1.tcb u).state.runnable = true ∧ none ≠ some u
    rw [hst]
    split_ifs with hu
    · exact iff_of_false (fun hn => hn.1 hu) (by simp)
    · exact ⟨fun hn => ⟨hn.2, by simp⟩, fun hn => ⟨hu, hn.1⟩⟩
  · rw [hnw] at hw
    cases hw
  · rw [hnw]
    show (Function.update s.scheds s.k.curr [] k1.curr).length = 0
    rw [hcurr, Function.update_self]
    rfl
  · show At _ _ _ u (Function.update s.pc s.k.curr _ u)
    by_cases hu : u = s.k.curr
    · subst hu
      rw [Function.update_self]
      refine ⟨hcurr.symm, ⟨lw m, by rw [Function.update_self]⟩, ?_, ?_, fun _ => ⟨?_, h1⟩⟩
      · exact (hst _).trans (if_pos rfl)
      · exact (hmut _).trans (if_pos rfl)
      · show tm ∉ k1.active
        rw [hactive]
        exact htm
    · rw [Function.update_of_ne hu]
      refine (h.tasks u).keep (h.notMidCall hu) (fun j => hmemw j u hu) (fun _ hr => (hmem u).mpr ⟨hu, hr⟩)
        (fun j _ => (hst u).trans (if_neg hu)) ((hmut u).trans (if_neg hu)) rfl howner
  · show k1.active.Nodup
    rw [hactive]
    exact h.active
  · change tm' ∈ k1.active at htm'
    rw [hactive] at htm'
    obtain ⟨hen, hhd, u, hpr, hown⟩ := h.armed tm' htm'
    show (k1.timers tm').enabled = true ∧ (k1.timers tm').handler = _ ∧ ∃ u, (k1.timers tm').priv = some u ∧
      Owns k1 _ u tm' (Function.update s.pc s.k.curr _ u)
    rw [htimers]
    have hu : u ≠ s.k.curr := by
      rintro rfl
      rw [hpc] at hown
      exact hown
    refine ⟨hen, hhd, u, hpr, ?_⟩
    rw [Function.update_of_ne hu]
    exact hown.keep (h.notMidCall hu) (fun j => hmemw j u hu) (htimer u)

/-- A release wakes nobody. -/
theorem wakes_of_released (h : Inv s lr lw) (hr : Relinked (released s.k m) k') : Wakes s.k k' [] := by
  have hactive : k'.active = s.k.active := hr.active
  have htimers : k'.timers = s.k.timers := hr.timers
  apply Wakes.nobody
  · rw [hactive]
    exact h.active
  · exact fun u => (hr.state u).trans (released_state _ _ _)
  · exact fun u => (hr.mutex u).trans (released_mutex _ _ _)
  · exact fun u => (hr.timer u).trans (released_timer _ _ _)
  · intro tm htm
    rw [hactive] at htm
    exact ⟨htm, congrFun htimers tm⟩
  · exact hr.curr

/-- The owner unlocks, and nobody waits. -/
theorem Inv.release (h : Inv s lr lw) (hpc : s.pc s.k.curr = .out) (ho : (s.k.mutexes m).owner = some s.k.curr)
    (hls : Lists (released s.k m) k' lr' (fun j => (s.k.mutexes j).task) lw) (hport : k'.port = {})
    (hlr : ∀ u, u ∈ lr' ↔ u ∈ lr) : Inv { s with k := k' } lr' lw := by
  have hmtx : k'.mutexes = Function.update s.k.mutexes m { s.k.mutexes m with lock := .unlocked } := hls.data.mutexes
  apply h.of_mutexes hpc (wakes_of_released h hls.data)
  · apply hls.self.congr_heads
    intro j
    rw [heads_of_update hmtx (v := (s.k.mutexes m).task) rfl]
    exact congrFun (Function.update_eq_self m fun j => (s.k.mutexes j).task) j
  · exact hport
  · exact hlr
  · intro j u hp hlock howner
    have hj : j ≠ m := by
      rintro rfl
      obtain rfl := Option.some.inj (ho.symm.trans howner)
      rw [hpc] at hp
      cases hp
    rw [hmtx, Function.update_of_ne hj]
    exact ⟨hlock, howner⟩

/-- A grant wakes the task that gets the mutex. -/
theorem wakes_of_granted (h : Inv s lr lw) {l : List (Fin n)} (hr : Relinked (granted (released s.k m) m t l) k') :
    Wakes s.k k' [t] := by
  refine ⟨fun u => ?_, fun u hu => ?_, fun u hu => ?_, ?_, fun tm htm => ?_, ?_⟩
  · rw [hr.state, granted_state, released_state]
    simp
  · rw [hr.mutex, granted_mutex, released_mutex, if_neg (by simpa using hu)]
  · rw [hr.timer, granted_timer, released_timer, if_neg (by simpa using hu)]
  · rw [hr.active]
    exact granted_active_nodup _ _ _ _ h.active
  · rw [hr.active] at htm
    have hen : ∀ tm ∈ (released s.k m).active, ((released s.k m).timers tm).enabled = true :=
      fun tm htm => (h.armed tm htm).1
    obtain ⟨h1, h2, h3⟩ := mem_active_granted (e := released s.k m) m l h.active hen htm
    refine ⟨h1, ?_, fun u hu => ?_⟩
    · rw [hr.timers, h3]
      rfl
    · rw [List.mem_singleton.mp hu, ← released_timer s.k m t]
      exact h2
  · exact hr.curr.trans (granted_curr _ _ _ _)

theorem stops_of_granted {l : List (Fin n)} (hr : Relinked (granted (released s.k m) m t l) k') :
    Stops s.k k' [t] := by
  have hactive : k'.active = (stopTimerOf (released s.k m) t).active := hr.active
  refine ⟨fun tm htm hne => ?_, fun u hu => ?_⟩
  · rw [hactive]
    apply mem_stopTimerOf_of_ne (k := released s.k m) htm
    rw [released_timer]
    exact hne t List.mem_cons_self
  · rw [List.mem_singleton.mp hu, hr.timer, granted_timer, if_pos rfl]

theorem mutexes_of_granted {l : List (Fin n)} (hr : Relinked (granted (released s.k m) m t l) k') :
    k'.mutexes = Function.update s.k.mutexes m { lock := .locked, owner := some t, task := l.head? } := by
  rw [hr.mutexes]
  simp [granted, released, Kernel.setMutex, Kernel.setPrio, Kernel.setTcb]

/-- The owner unlocks, and the first waiter gets the mutex. -/
theorem Inv.grant (h : Inv s lr lw) (hpc : s.pc s.k.curr = .out) (ho : (s.k.mutexes m).owner = some s.k.curr)
    {l : List (Fin n)} (hm : lw m = t :: l)
    (hls : Lists (granted (released s.k m) m t l) k' lr' (Function.update (fun j => (s.k.mutexes j).task) m l.head?)
      (Function.update lw m l)) (hport : k'.port = {}) (hlr : ∀ u, u ∈ lr' ↔ u = t ∨ u ∈ lr) :
    Inv { s with k := k' } lr' (Function.update lw m l) := by
  have htm : t ∈ lw m := by rw [hm]; exact List.mem_cons_self
  have hnd : (t :: l).Nodup := hm ▸ (h.lists.wait m).nodup
  have hmtx := mutexes_of_granted hls.data
  apply h.wake { s with k := k' } hpc (wakes_of_granted h hls.data) rfl
    (hls.self.congr_heads (heads_of_update hmtx rfl)) hport
  · intro u
    rw [hlr, List.mem_singleton]
  · intro u
    rw [hm, List.mem_singleton]
    obtain ⟨htl, -⟩ := List.nodup_cons.mp hnd
    refine ⟨fun hu => ⟨List.mem_cons_of_mem t hu, fun hut => htl (hut ▸ hu)⟩, fun hu => ?_⟩
    exact (List.mem_cons.mp hu.1).resolve_left hu.2
  · intro u hu
    rw [List.mem_singleton.mp hu]
    exact htm
  · intro j u hp hd hcase
    show (k'.mutexes j).lock = _ ∧ (k'.mutexes j).owner = _
    rw [hmtx]
    rcases hcase with hu | hu
    · -- the task that got the mutex
      rw [List.mem_singleton.mp hu] at hp ⊢
      have hj : j = m := by
        rcases (h.waits_of_mem htm).2.2 with ⟨_, _, _, hp', -⟩ | ⟨_, hp'⟩
        · rw [hp] at hp'
          cases hp'
        · rw [hp] at hp'
          cases hp'
          rfl
      rw [hj, Function.update_self]
      exact ⟨rfl, rfl⟩
    · obtain ⟨hlock, howner⟩ := hu hd
      have hj : j ≠ m := by
        rintro rfl
        obtain rfl := Option.some.inj (ho.symm.trans howner)
        rw [hpc] at hp
        cases hp
      rw [Function.update_of_ne hj]
      exact ⟨hlock, howner⟩

/-- An unlock changes nothing, or the owner releases the mutex or hands it to the
first waiter. -/
theorem Inv.unlock_cases (h : Inv s lr lw) (hpc : s.pc s.k.curr = .out) {r : OsErr}
    (hk : rxMutexUnlock s.k m = .ok (r, k')) :
    k' = s.k ∨ (s.k.mutexes m).owner = some s.k.curr ∧ k'.port = {} ∧ ∃ lr',
      ((Lists (released s.k m) k' lr' (fun j => (s.k.mutexes j).task) lw ∧ lw m = [] ∧ ∀ u, u ∈ lr' ↔ u ∈ lr) ∨
        ∃ t l, Lists (granted (released s.k m) m t l) k' lr'
            (Function.update (fun j => (s.k.mutexes j).task) m l.head?) (Function.update lw m l) ∧ lw m = t :: l ∧
          ∀ u, u ∈ lr' ↔ u = t ∨ u ∈ lr) := by
  have hcr : s.k.curr ∈ lr := h.curr (by rw [hpc]; rfl)
  cases hl : (s.k.mutexes m).lock with
  | unlocked =>
    rw [rxMutexUnlock_free hl, enter_exit h.port] at hk
    exact Or.inl (Prod.mk.inj (Except.ok.inj hk)).2.symm
  | locked =>
    cases ho : (s.k.mutexes m).owner with
    | none =>
      have hl' : (s.k.enterCritical.mutexes m).lock = .locked := hl
      have ho' : (s.k.enterCritical.mutexes m).owner = none := ho
      simp [rxMutexUnlock, hl', ho'] at hk
    | some o =>
      by_cases hoc : o = s.k.curr
      · subst hoc
        obtain ⟨k1, lr', hrun, hport, hcase⟩ := rxMutexUnlock_owner (i := m) h.lists rfl hl ho hcr (h.runnable hcr)
        obtain ⟨-, rfl⟩ := Prod.mk.inj (Except.ok.inj (hrun.symm.trans hk))
        refine Or.inr ⟨rfl, hport, lr', ?_⟩
        rcases hcase with ⟨hnil, hls, hlr⟩ | ⟨t, l, hm, hlr, hls⟩
        · exact Or.inl ⟨hls, hnil, hlr⟩
        · exact Or.inr ⟨t, l, hls, hm, hlr⟩
      · rw [rxMutexUnlock_refused hl ho hoc, enter_exit h.port] at hk
        exact Or.inl (Prod.mk.inj (Except.ok.inj hk)).2.symm

/-- An unlock, by whatever task: only the first waiter of `m` leaves a chain. -/
theorem Inv.unlock (h : Inv s lr lw) (hpc : s.pc s.k.curr = .out) {r : OsErr} (hk : rxMutexUnlock s.k m = .ok (r, k')) :
    ∃ lr' l, Inv { s with k := k' } lr' (Function.update lw m l) := by
  rcases h.unlock_cases hpc hk with rfl | ⟨ho, hport, lr', ⟨hls, -, hlr⟩ | ⟨t, l, hls, hm, hlr⟩⟩
  · exact ⟨lr, lw m, by rw [Function.update_eq_self]; exact h⟩
  · exact ⟨lr', lw m, by rw [Function.update_eq_self]; exact h.release hpc ho hls hport hlr⟩
  · exact ⟨lr', l, h.grant hpc ho hm hls hport hlr⟩

section Expire

variable {tm : ℕ}

/-- An active timer, while the running task is outside, is that of a task that
waits with it. -/
theorem Inv.waits_of_active (h : Inv s lr lw) (hpc : s.pc s.k.curr = .out) (htm : tm ∈ s.k.active) :
    ∃ t m, (s.k.timers tm).handler = some .mutexHandler ∧ (s.k.timers tm).priv = some t ∧ s.pc t = .asleep m true ∧
      t ∈ lw m ∧ (s.k.tcb t).timer = some tm := by
  obtain ⟨-, hhd, t, hpr, hown⟩ := h.armed tm htm
  rcases h.out_or_asleep hpc t with hp | ⟨j, timed, hp⟩
  · rw [hp] at hown
    exact hown.elim
  · rw [hp] at hown
    obtain ⟨rfl, hj, htt⟩ := hown
    exact ⟨t, j, hhd, hpr, hp, hj, htt⟩

/-- The other timers stay as they are. -/
theorem Inv.disarm_timers (h : Inv s lr lw) {tm' : ℕ} (htm : tm' ∈ s.k.active.erase tm) :
    tm' ∈ s.k.active ∧ (s.k.disarm tm).timers tm' = s.k.timers tm' ∧ tm' ≠ tm := by
  obtain ⟨hne, hmem⟩ := h.active.mem_erase_iff.mp htm
  refine ⟨hmem, ?_, hne⟩
  show Function.update s.k.timers tm _ tm' = _
  rw [Function.update_of_ne hne]

/-- An expiry wakes the task whose timer it was. -/
theorem wakes_of_timedOut (h : Inv s lr lw) (htt : (s.k.tcb t).timer = some tm) {o : Fin n} {p : ℤ} {l : List (Fin n)}
    (hr : Relinked (timedOut (s.k.disarm tm) m t o p l) k') : Wakes s.k k' [t] := by
  refine ⟨fun u => ?_, fun u hu => ?_, fun u hu => ?_, ?_, fun tm' htm' => ?_, hr.curr⟩
  · rw [hr.state, timedOut_state]
    simp only [List.mem_singleton]
    rfl
  · rw [hr.mutex, timedOut_mutex, if_neg (by simpa using hu)]
    rfl
  · rw [hr.timer, timedOut_timer, if_neg (by simpa using hu)]
    rfl
  · rw [hr.active]
    exact h.active.erase tm
  · rw [hr.active] at htm'
    obtain ⟨h1, h2, h3⟩ := h.disarm_timers htm'
    refine ⟨h1, by rw [hr.timers]; exact h2, fun u hu => ?_⟩
    rw [List.mem_singleton.mp hu, htt]
    exact fun he => h3 (Option.some.inj he).symm

theorem stops_of_timedOut (htt : (s.k.tcb t).timer = some tm) {o : Fin n} {p : ℤ} {l : List (Fin n)}
    (hr : Relinked (timedOut (s.k.disarm tm) m t o p l) k') : Stops s.k k' [t] := by
  have hactive : k'.active = s.k.active.erase tm := hr.active
  refine ⟨fun tm' htm' hne => ?_, fun u hu => ?_⟩
  · rw [hactive]
    have hne' := hne t List.mem_cons_self
    rw [htt] at hne'
    exact (List.mem_erase_of_ne fun he => hne' (congrArg some he.symm)).mpr htm'
  · rw [List.mem_singleton.mp hu, hr.timer, timedOut_timer, if_pos rfl]

theorem mutexes_of_timedOut {o : Fin n} {p : ℤ} {l : List (Fin n)}
    (hr : Relinked (timedOut (s.k.disarm tm) m t o p l) k') :
    k'.mutexes = Function.update s.k.mutexes m { s.k.mutexes m with task := l.head? } := hr.mutexes

/-- The handler has taken `t` out of the chain of `m`. -/
theorem Inv.timeout (h : Inv s lr lw) (hpc : s.pc s.k.curr = .out) (hp : s.pc t = .asleep m true) (ht : t ∈ lw m)
    (htt : (s.k.tcb t).timer = some tm) {o : Fin n} {p : ℤ} (hlr : ∀ u, u ∈ lr' ↔ u = t ∨ u ∈ lr)
    (hls : Lists (timedOut (s.k.disarm tm) m t o p ((lw m).erase t)) k' lr'
      (Function.update (fun j => (s.k.mutexes j).task) m ((lw m).erase t).head?)
      (Function.update lw m ((lw m).erase t))) (hport : k'.port = {}) :
    Inv { s with k := k' } lr' (Function.update lw m ((lw m).erase t)) := by
  have hmtx := mutexes_of_timedOut hls.data
  apply h.wake { s with k := k' } hpc (wakes_of_timedOut h htt hls.data) rfl
    (hls.self.congr_heads (heads_of_update hmtx rfl)) hport
  · intro u
    rw [hlr, List.mem_singleton]
  · intro u
    rw [(h.lists.wait m).nodup.mem_erase_iff, List.mem_singleton, and_comm]
  · intro u hu
    rw [List.mem_singleton.mp hu]
    exact ht
  · intro j u hpu hd hcase
    show (k'.mutexes j).lock = _ ∧ (k'.mutexes j).owner = _
    rcases hcase with hu | hu
    · rw [List.mem_singleton.mp hu, hp] at hpu
      cases hpu
    · rw [hmtx]
      by_cases hj : j = m
      · subst hj
        rw [Function.update_self]
        exact hu hd
      · rw [Function.update_of_ne hj]
        exact hu hd

/-- The handler of a task that owns the mutex it waits for does nothing. -/
theorem Inv.expire_owner (h : Inv s lr lw) (hhd : (s.k.timers tm).handler = some .mutexHandler)
    (hpr : (s.k.timers tm).priv = some t) (ht : t ∈ lw m) (ho : (s.k.mutexes m).owner = some t) :
    expireMutexTimer s.k tm = .ok (s.k.enterCritical.disarm tm).exitCritical := by
  have hm : ((s.k.enterCritical.disarm tm).tcb t).mutex = some m := (h.waits_of_mem ht).2.1
  have ho' : ((s.k.enterCritical.disarm tm).mutexes m).owner = some t := ho
  rw [expireMutexTimer_eq hhd hpr]
  simp only [rxMutexHandler, hm, ho', if_true]
  rfl

/-- That of another task takes it out of the chain. -/
theorem Inv.expire_other (h : Inv s lr lw) (hpc : s.pc s.k.curr = .out)
    (hhd : (s.k.timers tm).handler = some .mutexHandler)
    (hpr : (s.k.timers tm).priv = some t) (ht : t ∈ lw m) {o : Fin n} (ho : (s.k.mutexes m).owner = some o)
    (hot : o ≠ t) :
    ∃ p k' lr', expireMutexTimer s.k tm = .ok k' ∧ k'.port = {} ∧ (∀ u, u ∈ lr' ↔ u = t ∨ u ∈ lr) ∧
      Lists (timedOut (s.k.disarm tm) m t o p ((lw m).erase t)) k' lr'
        (Function.update (fun j => (s.k.mutexes j).task) m ((lw m).erase t).head?)
        (Function.update lw m ((lw m).erase t)) := by
  have hl1 : Lists (s.k.disarm tm) (s.k.enterCritical.disarm tm) lr (fun j => (s.k.mutexes j).task) lw :=
    h.lists.enter.disarm tm
  have hor : ((s.k.disarm tm).tcb o).state = .ready → o ∈ lr := by
    intro hs
    rw [h.ready (by rw [hpc]; rfl), show (s.k.tcb o).state = _ from hs]
    rfl
  obtain ⟨p, k2, lr', hrun, hlr, hls⟩ :=
    rxMutexHandler_expires (m := m) (i := m) hl1 rfl ht (h.waits_of_mem ht).2.1 ho hor hot
  refine ⟨p, k2.exitCritical, lr', ?_, hls.port.exit, hlr, hls.exit⟩
  rw [expireMutexTimer_eq hhd hpr, hrun]
  rfl

/-- The task whose timer expires leaves its chain, unless it owns the mutex
that it waits for. -/
theorem Inv.expire (h : Inv s lr lw) (hpc : s.pc s.k.curr = .out) (htm : tm ∈ s.k.active)
    (hk : expireMutexTimer s.k tm = .ok k') :
    ∃ t m lr' l, (s.k.tcb t).timer = some tm ∧ s.pc t = .asleep m true ∧
      Inv { s with k := k' } lr' (Function.update lw m l) ∧ ∀ u ∈ lw m, u ∈ l ∨ u = t := by
  obtain ⟨t, m, hhd, hpr, hp, ht, htt⟩ := h.waits_of_active hpc htm
  have hl1 : Lists (s.k.disarm tm) (s.k.enterCritical.disarm tm) lr (fun j => (s.k.mutexes j).task) lw :=
    h.lists.enter.disarm tm
  cases ho : (s.k.mutexes m).owner with
  | none =>
    rw [expireMutexTimer_eq hhd hpr,
      rxMutexHandler_unowned (m := m) (i := m) hl1 rfl ht (h.waits_of_mem ht).2.1 ho] at hk
    cases hk
  | some o =>
    by_cases hot : o = t
    · subst hot
      obtain rfl := Except.ok.inj ((h.expire_owner hhd hpr ht ho).symm.trans hk)
      have hw : Wakes s.k (s.k.enterCritical.disarm tm).exitCritical [] :=
        Wakes.nobody (h.active.erase tm) (fun _ => rfl) (fun _ => rfl) (fun _ => rfl)
          (fun tm' htm' => ⟨(h.disarm_timers htm').1, (h.disarm_timers htm').2.1⟩) rfl
      refine ⟨o, m, lr, lw m, htt, hp, ?_, fun u hu => Or.inl hu⟩
      rw [Function.update_eq_self]
      exact h.of_mutexes hpc hw hl1.exit.self hl1.port.exit (fun _ => Iff.rfl) fun j u _ h1 h2 => ⟨h1, h2⟩
    · obtain ⟨p, k2, lr', hrun, hport, hlr, hls⟩ := h.expire_other hpc hhd hpr ht ho hot
      obtain rfl := Except.ok.inj (hrun.symm.trans hk)
      refine ⟨t, m, lr', (lw m).erase t, htt, hp, h.timeout hpc hp ht htt hlr hls hport, fun u hu => ?_⟩
      by_cases hut : u = t
      · exact Or.inr hut
      · exact Or.inl ((h.lists.wait m).nodup.mem_erase_iff.mpr ⟨hut, hu⟩)

end Expire

/-- One round of a deletion. -/
theorem wakes_of_dropped {k : Kernel n} {l : List (Fin n)} (hr : Relinked (dropped k m t l) k') (hnd : k.active.Nodup)
    (hen : ∀ tm ∈ k.active, (k.timers tm).enabled = true) : Wakes k k' [t] := by
  have hactive : k'.active = (stopTimerOf k t).active := hr.active
  refine ⟨fun u => ?_, fun u hu => ?_, fun u hu => ?_, ?_, fun tm htm => ?_, ?_⟩
  · rw [hr.state, dropped_state]
    simp
  · rw [hr.mutex, dropped_mutex, if_neg (by simpa using hu)]
  · rw [hr.timer, dropped_timer, if_neg (by simpa using hu)]
  · rw [hactive]
    exact stopTimerOf_active_nodup k t hnd
  · rw [hactive] at htm
    obtain ⟨h1, h2, h3⟩ := mem_active_stopTimerOf hnd hen htm
    refine ⟨h1, by rw [hr.timers]; exact h3, fun u hu => ?_⟩
    rw [List.mem_singleton.mp hu]
    exact h2
  · rw [hr.curr]
    simp [dropped]

theorem stops_of_dropped {k : Kernel n} {l : List (Fin n)} (hr : Relinked (dropped k m t l) k') : Stops k k' [t] := by
  have hactive : k'.active = (stopTimerOf k t).active := hr.active
  refine ⟨fun tm htm hne => ?_, fun u hu => ?_⟩
  · rw [hactive]
    exact mem_stopTimerOf_of_ne htm (hne t List.mem_cons_self)
  · rw [List.mem_singleton.mp hu, hr.timer, dropped_timer, if_pos rfl]

/-- The loop of a deletion makes every waiter ready. -/
theorem deleteWaiters_spec (l : List (Fin n)) : ∀ {k : Kernel n} {lr : List (Fin n)}
    {w : ℕ → Option (Fin n)} {lw : ℕ → List (Fin n)} {f : ℕ}, Lists k k lr w lw → (∀ j, (k.mutexes j).task = w j) →
    lw m = l → l.length < f → k.active.Nodup → (∀ tm ∈ k.active, (k.timers tm).enabled = true) →
    ∃ k' lr', drainLoop (fun k => (k.mutexes m).task) (deleteWaiter m) f k = .ok k' ∧ Wakes k k' l ∧ Stops k k' l ∧
      Lists k' k' lr' (Function.update w m none) (Function.update lw m []) ∧ (∀ u, u ∈ lr' ↔ u ∈ l ∨ u ∈ lr) ∧
      k'.mutexes = Function.update k.mutexes m { k.mutexes m with task := none } := by
  induction l with
  | nil =>
    intro k lr w lw f h hw hm hf hnd _
    obtain ⟨f, rfl⟩ : ∃ g, f = g + 1 := ⟨f - 1, by simp at hf; omega⟩
    have hwm : w m = none := by
      have := h.wait m
      rw [hm] at this
      exact this
    have htask : (k.mutexes m).task = none := (hw m).trans hwm
    refine ⟨k, lr, by simp only [drainLoop, htask], Wakes.nobody hnd (fun _ => rfl) (fun _ => rfl) (fun _ => rfl)
      (fun tm htm => ⟨htm, rfl⟩) rfl, ⟨fun _ htm _ => htm, by simp⟩, ?_, by simp, ?_⟩
    · rw [← hwm, ← hm, Function.update_eq_self, Function.update_eq_self]
      exact h
    · rw [← htask, Function.update_eq_self]
  | cons t l ih =>
    intro k lr w lw f h hw hm hf hnd hen
    obtain ⟨f, rfl⟩ : ∃ g, f = g + 1 := ⟨f - 1, by simp at hf; omega⟩
    have hwm : w m = some t := by
      have := h.wait m
      rw [hm] at this
      exact this.1
    have htask : (k.mutexes m).task = some t := (hw m).trans hwm
    obtain ⟨k1, lr1, hrun1, hlr1, h1⟩ := deleteWaiter_spec (m := m) h hm
    have hw1 := wakes_of_dropped h1.data hnd hen
    have hmtx1 : k1.mutexes = Function.update k.mutexes m { k.mutexes m with task := l.head? } := by
      rw [h1.data.mutexes]
      simp [dropped, Kernel.setMutex]
    have hen1 : ∀ tm ∈ k1.active, (k1.timers tm).enabled = true := by
      intro tm htm
      obtain ⟨hmem, heq, -⟩ := hw1.timers tm htm
      rw [heq]
      exact hen tm hmem
    have hheads : ∀ j, (k1.mutexes j).task = Function.update w m l.head? j := by
      intro j
      rw [heads_of_update hmtx1 rfl]
      simp only [hw]
    obtain ⟨k2, lr2, hrun2, hw2, hs2, h2, hlr2, hmtx2⟩ := ih (f := f) h1.self hheads (Function.update_self m l lw)
      (by simpa using hf) hw1.active hen1
    refine ⟨k2, lr2, ?_, hw1.cons hw2, (stops_of_dropped h1.data).cons hw1 hw2 hs2, ?_, fun u => ?_, ?_⟩
    · simp only [drainLoop, htask, hrun1, bind, Except.bind, hrun2]
    · rw [Function.update_idem, Function.update_idem] at h2
      exact h2
    · rw [hlr2, hlr1, List.mem_cons]
      exact or_left_comm.trans or_assoc.symm
    · rw [hmtx2, hmtx1, Function.update_idem, Function.update_self]

/-- A deletion wakes the tasks on the chain of `m` and empties it. -/
theorem Inv.delete (h : Inv s lr lw) (hpc : s.pc s.k.curr = .out) (hk : rxDeleteMutex s.k m = .ok k') :
    ∃ lr', Inv (s.drop m k') lr' (Function.update lw m []) ∧ Wakes s.k k' (lw m) ∧ Stops s.k k' (lw m) ∧
      (k'.mutexes m).owner = none ∧ ∀ j, j ≠ m → k'.mutexes j = s.k.mutexes j := by
  have hlen := (h.lists.wait m).length_le_fin
  obtain ⟨k1, lr', hrun, hw, hstop, hls, hlr, hmtx⟩ := deleteWaiters_spec (lw m) (f := n + 1)
    h.lists.enter.self (fun _ => rfl) rfl (by omega) h.active fun tm htm => (h.armed tm htm).1
  obtain ⟨k2, hrun', hk⟩ := bind_eq_ok.mp hk
  obtain rfl : k1 = k2 := Except.ok.inj (hrun.symm.trans hrun')
  obtain rfl := Except.ok.inj hk
  set c : Mutex n := { k1.mutexes m with owner := none } with hc
  have hmtx' : (k1.setMutex m c).exitCritical.mutexes = Function.update s.k.mutexes m c := by
    show Function.update k1.mutexes m c = _
    rw [hmtx, Function.update_idem]
    rfl
  have hctask : c.task = none := by
    rw [hc, hmtx, Function.update_self]
  have hls' : Lists (k1.setMutex m c).exitCritical (k1.setMutex m c).exitCritical lr'
      (fun j => ((k1.setMutex m c).exitCritical.mutexes j).task) (Function.update lw m []) :=
    ((hls.setMutex m c).exit.self).congr_heads (heads_of_update hmtx' hctask)
  have hw' : Wakes s.k (k1.setMutex m c).exitCritical (lw m) :=
    ⟨hw.state, hw.mutex, hw.timer, hw.active, hw.timers, hw.curr⟩
  refine ⟨lr', h.wake _ (l := lw m) (r := []) hpc hw' rfl hls' hls.port.exit hlr (by simp) (fun _ hu => hu)
    fun j u hp hd hcase => ?_, hw', ⟨hstop.active, hstop.cleared⟩, ?_, fun j hj => ?_⟩
  rotate_left
  · rw [hmtx', Function.update_self]
  · rw [hmtx', Function.update_of_ne hj]
  have hj : j ≠ m := by
    rintro rfl
    simp [drop] at hd
  have hd' : s.deleted j = false := by
    simpa [drop, hj] using hd
  rcases hcase with hu | hu
  · -- a woken waiter waited for the deleted mutex
    rcases (h.waits_of_mem hu).2.2 with ⟨_, _, _, hp', -⟩ | ⟨_, hp'⟩
    · rw [hp] at hp'
      cases hp'
    · rw [hp] at hp'
      cases hp'
      exact absurd rfl hj
  · show ((k1.setMutex m c).exitCritical.mutexes j).lock = _ ∧ ((k1.setMutex m c).exitCritical.mutexes j).owner = _
    rw [hmtx', Function.update_of_ne hj]
    exact hu hd'

end Calls

end TickSys

end Rosx
