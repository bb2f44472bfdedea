/-
# Event groups

`kernel/rx_event.c`. A task waits for the events of its `event_flag` on the
group's chain; `rx_notify_event` puts an event into a message queue and the
event thread, which reads them, calls `rx_process_event` to wake the tasks
the event is for.

`rx_wait_event_group` is cut where it gives up the processor; what is left of
the call is the return of `event_recv`. The second task to wait walks past the
end of the chain and is linked nowhere (`rxWaitEventGroup_spec`).
`rx_process_event` clears the link of a task it wakes before it reads it.
-/
import Rosx.QueueWait
import Rosx.Wait

namespace Rosx

open Linked

variable {n : ℕ}

/-- `rx_create_event_group`. -/
def rxCreateEventGroup (k : Kernel n) (g : ℕ) : OsErr × Kernel n :=
  (.osOk, (k.enterCritical.setEvent g { task := none }).exitCritical)

/-- The body of the loop of `rx_delete_event_group`: the task `t` at the head of
the chain is made ready. -/
def deleteEventWaiter (g : ℕ) (k : Kernel n) (t : Fin n) : Res (Kernel n) := do
  let k := k.modTcb t fun c => { c with state := .ready, event := none }
  let k := k.setEvent g { k.events g with task := (k.tcb t).next }
  let (_, k) ← rxAddToReadyQ k t
  return k

/-- `rx_delete_event_group`. -/
def rxDeleteEventGroup (k : Kernel n) (g : ℕ) : Res (Kernel n) := do
  let k ← drainLoop (fun k => (k.events g).task) (deleteEventWaiter g) (n + 1) k.enterCritical
  return k.exitCritical

/-- `rx_set_event_flag`. -/
def rxSetEventFlag (k : Kernel n) (flag : Word) : OsErr × Kernel n :=
  (.osOk, k.modTcb k.curr fun c => { c with eventFlag := c.eventFlag ||| flag })

/-- `rx_clear_event_flag`. -/
def rxClearEventFlag (k : Kernel n) (flag : Word) : OsErr × Kernel n :=
  (.osOk, k.modTcb k.curr fun c =>
    { c with eventFlag := c.eventFlag &&& ~~~flag, eventRecv := c.eventRecv &&& ~~~flag })

/-- The waiting task is put on the group's chain if that is empty. Otherwise
the walk ends with `tmp == NULL`, and `tmp = t` links nothing. -/
def linkEventWaiter (k : Kernel n) (g : ℕ) (t : Fin n) : Res (Kernel n) :=
  match (k.events g).task with
  | none => .ok (k.setEvent g { k.events g with task := some t })
  | some h => (walkEnd k.next n (some h)).map fun _ => k

/-- `rx_wait_event_group` up to the switch to another task. -/
def rxWaitEventGroup (k : Kernel n) (g : ℕ) (flag : Word) : Res (Kernel n) := do
  let t := k.curr
  let k := k.enterCritical.modTcb t fun c =>
    { c with eventFlag := c.eventFlag ||| flag, state := .suspend, event := some g }
  let k ← rxRemoveFromReadyQ k t
  let k ← linkEventWaiter (k.setNext t none) g t
  rxSched k.exitCritical

/-- What a wait returns once its task runs again. -/
def rxWaitEventGroupRet (k : Kernel n) : Word := (k.tcb k.curr).eventRecv

/-- The loop of `rx_process_event` from `start` on, `prev` before it. -/
def processLoop (g : ℕ) (flag : Word) : ℕ → Kernel n → Option (Fin n) → Option (Fin n) → Res (Kernel n)
  | _, k, _, none => .ok k
  | 0, _, _, some _ => .error .hang
  | f + 1, k, prev, some start =>
    if (k.tcb start).eventFlag &&& flag ≠ 0#32 then
      let k := k.modTcb start fun c => { c with eventRecv := flag, state := .ready, event := none, next := none }
      if (k.events g).task = some start then do
        let (_, k) ← rxAddToReadyQ (k.setEvent g { k.events g with task := k.next start }) start
        match (k.events g).task with
        | none => .ok k
        | some h => processLoop g flag f k (some h) (k.next h)
      else
        match prev with
        | none => .error .null
        | some p => do
          let (_, k) ← rxAddToReadyQ (k.setNext p (k.next start)) start
          processLoop g flag f k (some p) (k.next p)
    else processLoop g flag f k (some start) (k.next start)

/-- `rx_process_event`. -/
def rxProcessEvent (fuel : ℕ) (k : Kernel n) (head : Option ℕ) (flag : Word) : Res (OsErr × Kernel n) := do
  let k ← rxWake fuel k.enterCritical
  match head with
  | none => return (.osErr, k.exitCritical)
  | some g =>
    let k ← processLoop g flag n k (k.events g).task (k.events g).task
    return (.osOk, k.exitCritical)

/-- `rx_notify_event`: the bytes of the `struct event` go into the event queue
`m`. -/
def rxNotifyEvent (k : Kernel n) (m : ℕ) (event : List UInt8) (tm : ℕ) : Res (Option Ret × Kernel n) :=
  rxWriteToQueue k (some m) (some event) event.length osWaitForever tm

/-- The read of the event thread. -/
def rxEventThreadRead (k : Kernel n) (m : ℕ) (size : ℤ) (tm : ℕ) : Res (Option Ret × Kernel n) :=
  rxReadFromQueue k (some m) true size osNoWait tm

namespace Kernel

@[simp] theorem setEvent_events (k : Kernel n) (g : ℕ) (c : EventGroup n) : (k.setEvent g c).events g = c := by
  simp [setEvent]

/-- The link of a task that has none is cleared. -/
theorem setNext_none {k : Kernel n} {t : Fin n} (h : k.next t = none) : k.setNext t none = k := by
  have hc : ({ k.tcb t with next := none } : Tcb n) = k.tcb t := by
    rw [← h]
    rfl
  unfold setNext setTcb
  rw [hc, Function.update_eq_self]

end Kernel

theorem Lists.setEvent {ι : Type*} {e k : Kernel n} {lr : List (Fin n)} {w : ι → Option (Fin n)}
    {lw : ι → List (Fin n)} (h : Lists e k lr w lw) (g : ℕ) (c : EventGroup n) :
    Lists (e.setEvent g c) (k.setEvent g c) lr w lw := by
  refine h.map (fun x => x.setEvent g c) (fun x y hxy => ⟨hxy.tcb, ?_⟩) rfl rfl rfl
  exact congrArg (fun z : Kernel n => z.setEvent g c) hxy.rest

section Calls

variable {g : ℕ} {flag : Word} {k k' : Kernel n} {lr lw : List (Fin n)}

/-- The task leaves the ready queue. It is on the group's chain then only if
nobody else was. -/
theorem rxWaitEventGroup_spec (h : Waiting k lr (fun _ : Unit => (k.events g).task) (fun _ => lw))
    (he : rxWaitEventGroup k g flag = .ok k') :
    Waiting k' (lr.erase k.curr) (fun _ : Unit => (k'.events g).task) (fun _ => if lw = [] then [k.curr] else lw) ∧
      k'.queues = k.queues ∧ k'.sysWaitList = k.sysWaitList := by
  set e := k.modTcb k.curr fun c =>
    { c with eventFlag := c.eventFlag ||| flag, state := .suspend, event := some g } with hedef
  have h1 : Lists e _ lr _ _ := h.lists.enter.modTcb k.curr
    (f := fun c => { c with eventFlag := c.eventFlag ||| flag, state := .suspend, event := some g }) fun _ _ => rfl
  obtain ⟨k1, hrem, hnone, h2⟩ := h1.removeReady h.curr
  have hst := state_modTcb k k.curr (f := fun c =>
    { c with eventFlag := c.eventFlag ||| flag, state := .suspend, event := some g }) fun _ => rfl
  have hev : k1.events = k.events := h2.data.events
  have hchain : Chain k1.next (k.events g).task lw := h2.wait ()
  unfold rxWaitEventGroup at he
  dsimp only at he
  change (rxRemoveFromReadyQ (k.enterCritical.modTcb k.curr _) k.curr >>= _) = _ at he
  rw [hrem] at he
  change (linkEventWaiter (k1.setNext k.curr none) g k.curr >>= _) = _ at he
  rw [Kernel.setNext_none hnone, linkEventWaiter, hev] at he
  cases lw with
  | nil =>
    have htask : (k.events g).task = none := hchain
    rw [htask] at he
    obtain ⟨k2, happ, -, h3⟩ := h2.appendWaiter () h.lists.ready.nodup.not_mem_erase (by simp) hnone
    obtain rfl : k1 = k2 := by
      rw [htask] at happ
      exact (Prod.mk.inj (Except.ok.inj happ)).2
    obtain ⟨hw, -, hq, hs⟩ := h.sched (h3.setEvent g { k.events g with task := some k.curr }).exit rfl hst he
    refine ⟨hw.single ?_, hq, hs.sysWaitList⟩
    rw [hs.events, Kernel.setEvent_events]
    rfl
  | cons u l =>
    have htask : (k.events g).task = some u := hchain.1
    rw [htask] at he hchain
    have hwalk : walkEnd k1.next n (some u) = .ok () :=
      walkEnd_eq hchain (by simpa using hchain.length_le)
    dsimp only at he
    rw [hwalk] at he
    obtain ⟨hw, -, hq, hs⟩ := h.sched h2.exit rfl hst he
    refine ⟨hw.congr_heads fun _ => ?_, hq, hs.sysWaitList⟩
    rw [hs.events]
    rfl

variable (fuel : ℕ)

/-- An event that nobody waits for changes nothing. -/
theorem rxProcessEvent_idle (h : Waiting k lr (fun _ : Unit => (k.events g).task) (fun _ => lw))
    (hwait : k.sysWaitList = none) (hlw : lw.length ≤ 1) (hf : ∀ t ∈ lw, (k.tcb t).eventFlag &&& flag = 0#32) :
    rxProcessEvent fuel k (some g) flag = .ok (.osOk, k) := by
  have hchain : Chain k.next (k.events g).task lw := h.lists.wait ()
  have hloop : processLoop g flag n k.enterCritical (k.events g).task (k.events g).task = .ok k.enterCritical := by
    match lw, hchain, hlw, hf with
    | [], hchain, _, _ =>
      rw [show (k.events g).task = none from hchain, processLoop]
    | [t], hchain, _, hf =>
      have hflag : (k.enterCritical.tcb t).eventFlag &&& flag = 0#32 := hf t (by simp)
      have hnext : k.enterCritical.next t = none := hchain.2
      have hone : ∀ d, 0 < d → processLoop g flag d k.enterCritical (some t) (some t) = .ok k.enterCritical :=
        fun d hd => by
          obtain ⟨d, rfl⟩ := Nat.exists_eq_succ_of_ne_zero hd.ne'
          rw [processLoop, if_neg (by simp [hflag]), hnext, processLoop]
      rw [hchain.1]
      exact hone n t.pos
  unfold rxProcessEvent
  rw [rxWake_of_none fuel (show k.enterCritical.sysWaitList = none from hwait)]
  show (processLoop g flag n k.enterCritical (k.events g).task (k.events g).task >>= _) = _
  rw [hloop]
  exact congrArg (fun x => Except.ok (OsErr.osOk, x)) (enter_exit h.port)

/-- The only task on the chain is woken by an event it waits for. -/
theorem rxProcessEvent_wakes {t : Fin n} (h : Waiting k lr (fun _ : Unit => (k.events g).task) (fun _ => [t]))
    (hwait : k.sysWaitList = none) (hf : (k.tcb t).eventFlag &&& flag ≠ 0#32) :
    ∃ k' lr', rxProcessEvent fuel k (some g) flag = .ok (.osOk, k') ∧
      Waiting k' lr' (fun _ : Unit => (k'.events g).task) (fun _ => []) ∧ (∀ u, u ∈ lr' ↔ u = t ∨ u ∈ lr) ∧
      (∀ u, (k'.tcb u).state = if u = t then .ready else (k.tcb u).state) ∧ k'.queues = k.queues ∧
      k'.sysWaitList = k.sysWaitList := by
  obtain ⟨hwi, hnx, htr, htw, h1⟩ := h.lists.enter.popWaiter () (t := t) (l := []) rfl
  set f : Tcb n → Tcb n := fun c => { c with eventRecv := flag, state := .ready, event := none } with hfdef
  set e := (k.modTcb t f).setEvent g { k.events g with task := none } with hedef
  have h2 : Lists e ((k.enterCritical.modTcb t f).setEvent g { k.events g with task := none }) lr _ _ :=
    (h1.modTcb t (f := f) fun _ _ => rfl).setEvent g _
  have hst : ∀ u, (e.tcb u).state = if u = t then .ready else (k.tcb u).state := state_modTcb k t fun _ => rfl
  obtain ⟨k3, hadd, h3⟩ := h2.addReady htr htw (by rw [hst, if_pos rfl]; rfl)
  have hstate : ∀ u, (k3.exitCritical.tcb u).state = if u = t then .ready else (k.tcb u).state := by
    intro u
    rw [h3.exit.data.state, hst]
  have hgroup : k3.events g = { k.events g with task := none } := by
    rw [h3.data.events, hedef, Kernel.setEvent_events]
  have hmem : ∀ u, u ∈ insertReady (fun u => (e.tcb u).prio) (e.tcb t).prio t lr ↔ u = t ∨ u ∈ lr :=
    fun u => mem_insertReady
  -- the link that is cleared is clear already
  have hclear : k.enterCritical.modTcb t (fun c =>
      { c with eventRecv := flag, state := .ready, event := none, next := none }) = k.enterCritical.modTcb t f := by
    have hc : (k.enterCritical.tcb t).next = none := hnx
    unfold Kernel.modTcb
    rw [hfdef]
    dsimp only
    rw [hc]
  have hwi' : (k.events g).task = some t := hwi
  have hloop : ∀ d, 0 < d → processLoop g flag d k.enterCritical (some t) (some t) = .ok k3 := by
    intro d hd
    obtain ⟨d, rfl⟩ := Nat.exists_eq_succ_of_ne_zero hd.ne'
    have hflag : (k.enterCritical.tcb t).eventFlag &&& flag ≠ 0#32 := hf
    rw [processLoop, if_pos hflag]
    dsimp only
    rw [hclear, if_pos (show ((k.enterCritical.modTcb t f).events g).task = some t from hwi')]
    have hnext : (k.enterCritical.modTcb t f).next t = none := by
      rw [LinkFree.next_modTcb (fun _ _ => rfl)]
      exact hnx
    rw [hnext]
    show (rxAddToReadyQ ((k.enterCritical.modTcb t f).setEvent g { k.events g with task := none }) t >>= _) = _
    rw [hadd]
    dsimp only [bind, Except.bind]
    rw [hgroup]
  have herr : ∀ u, (k3.exitCritical.tcb u).err = (k.tcb u).err := by
    intro u
    rw [h3.exit.data.err]
    by_cases hu : u = t
    · subst hu
      simp [hedef, hfdef, Kernel.setEvent]
    · simp [hedef, Kernel.setEvent, Kernel.modTcb_of_ne _ hu]
  obtain ⟨hready, hcurr⟩ := h.ready_of_woke ⟨hstate, herr, h3.exit.data.curr⟩ hmem
  refine ⟨k3.exitCritical, _, ?_, ⟨h3.exit.single ?_, h3.port.exit, hready, hcurr⟩, hmem, hstate,
    h3.exit.data.queues, h3.exit.data.sysWaitList⟩
  · unfold rxProcessEvent
    rw [rxWake_of_none fuel (show k.enterCritical.sysWaitList = none from hwait)]
    show (processLoop g flag n k.enterCritical (k.events g).task (k.events g).task >>= _) = _
    rw [hwi', hloop n t.pos]
    rfl
  · rw [show k3.exitCritical.events g = k3.events g from rfl, hgroup]
    rfl

end Calls

end Rosx
