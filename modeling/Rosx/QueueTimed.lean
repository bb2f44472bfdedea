/-
# Timed waits at a queue

A read or write with a timeout that has to wait puts its task into
`mq->read_task` or on the chain at `mq->write_task` and then calls
`__rx_add_timer`, with interrupts unmasked: until the task has left the ready
queue and given up the processor, another one may be dispatched between any
two steps. The task is woken by the other side of the queue, which takes it
out of `read_task` or off the chain, or by the timer thread, which knows
nothing about the queue and leaves it there.

`clear_of_run` says when the queue is left behind by every call that has
returned: in every run in which no timer expires for a task that still is at
the queue or already on the ready queue, and no write wakes a reader that has
not left the ready queue yet. In these runs no wake-up comes for a task on the
ready queue, either.

Key definitions: `TimedQueue.exec`, `TimedQueue.Clear`, `TimedQueue.WaitSafe`.
-/
import Rosx.QueueRun
import Rosx.QueueWait

namespace Rosx

open Linked

variable {n : ℕ}

/-! ### The steps of a timed wait -/

/-- `rx_read_from_queue` from the empty queue on to the end of the critical
section: the running task becomes the reader. -/
def joinReader (k : Kernel n) (m : ℕ) : Kernel n :=
  (k.setQueue m { k.queues m with readTask := some k.curr }).exitCritical

/-- A call of `rx_read_from_queue` with a timeout up to its return or to its
`__rx_add_timer`. -/
def readTimed (k : Kernel n) (m : ℕ) (size : ℤ) : Res (Option Ret × Kernel n) :=
  if size ≠ (k.queues m).sizeOfBlock then .ok (some ⟨.osErr, []⟩, k)
  else
    let k := k.enterCritical
    if (k.queues m).readTask.isSome then .ok (some ⟨.eOsBusy, []⟩, k.exitCritical)
    else if (k.queues m).isEmpty then
      if (k.queues m).block then .ok (none, joinReader k m) else .ok (some ⟨.eOsUnavail, []⟩, k.exitCritical)
    else (readCopy k m).map fun (r, k) => (some r, k)

/-- A call of `rx_write_to_queue` with a timeout, in the same way. -/
def writeTimed (k : Kernel n) (m : ℕ) (msg : List UInt8) : Res (Option Ret × Kernel n) :=
  if (msg.length : ℤ) ≠ (k.queues m).sizeOfBlock then .ok (some ⟨.osErr, []⟩, k)
  else
    let k := k.enterCritical
    if (k.queues m).isFull && !(k.queues m).cyclic then
      if (k.queues m).block then (joinWriter k m).map fun k => (none, k)
      else .ok (some ⟨.eOsUnavail, []⟩, k.exitCritical)
    else (writeCopy k m msg).map fun (r, k) => (some r, k)

/-- The timer of `__rx_add_timer` is set up and put on the active list. -/
def sleepStart (k : Kernel n) (tm : ℕ) (delay : Word) : Kernel n :=
  (k.setSleepTimer tm delay k.curr).rxAddToActiveTimerList tm

/-- `tid->timer = p;` -/
def sleepPoint (k : Kernel n) (tm : ℕ) : Kernel n := k.modTcb k.curr fun c => { c with timer := some tm }

/-- `tid->state = RX_TASK_SUSPEND;` -/
def sleepMark (k : Kernel n) : Kernel n := k.modTcb k.curr fun c => { c with state := .suspend }

/-- `__rx_remove_from_ready_q(tid);` -/
def sleepUnqueue (k : Kernel n) : Res (Kernel n) := rxRemoveFromReadyQ k k.curr

section Steps

variable (k : Kernel n) (m : ℕ) {timeout : ℤ} (tm : ℕ)

/-- The steps one after the other are `__rx_add_timer` up to the switch. -/
theorem rxAddTimer_eq (delay : Word) :
    k.rxAddTimer tm delay k.curr = sleepUnqueue (sleepMark (sleepPoint (sleepStart k tm delay) tm)) >>= rxSched := by
  have hdata : sleepMark (sleepPoint (sleepStart k tm delay) tm) =
      (sleepStart k tm delay).modTcb k.curr fun c => { c with timer := some tm, state := .suspend } :=
    Kernel.modTcb_modTcb _ _ _ _
  rw [hdata]
  rfl

/-- A read with a timeout is its first part, and then it sleeps. -/
theorem rxReadFromQueue_timed (size : ℤ) (h : timeout ≠ 0) :
    rxReadFromQueue k (some m) true size timeout tm = readTimed k m size >>= fun (r, k') =>
      if r.isSome then .ok (r, k')
      else (k'.rxAddTimer tm (BitVec.ofInt 32 timeout + k.jiffies) k.curr).map fun k => (none, k) := by
  have hblock : blockReader k.enterCritical m timeout tm =
      (joinReader k.enterCritical m).rxAddTimer tm (BitVec.ofInt 32 timeout + k.jiffies) k.curr := by
    unfold blockReader
    dsimp only
    rw [if_neg h]
    rfl
  unfold rxReadFromQueue readTimed
  simp only [reduceCtorEq, false_or, hblock]
  split_ifs
  · rfl
  · rfl
  · rfl
  · rfl
  · cases readCopy k.enterCritical m <;> rfl

/-- A write with a timeout is its first part, and then it sleeps. -/
theorem rxWriteToQueue_timed (msg : List UInt8) (h : timeout ≠ 0) :
    rxWriteToQueue k (some m) (some msg) msg.length timeout tm = writeTimed k m msg >>= fun (r, k') =>
      if r.isSome then .ok (r, k')
      else (k'.rxAddTimer tm (BitVec.ofInt 32 timeout + k'.jiffies) k.curr).map fun k => (none, k) := by
  unfold rxWriteToQueue writeTimed
  simp only [blockWriter_eq, if_neg h]
  split_ifs
  · rfl
  · cases joinWriter k.enterCritical m <;> rfl
  · rfl
  · cases writeCopy k.enterCritical m msg <;> rfl

end Steps

section Cases

variable {k k' : Kernel n} {m : ℕ} {r : Option Ret}

/-- A read takes a message, joins, or returns an error. -/
theorem readTimed_cases {size : ℤ} (h : readTimed k m size = .ok (r, k')) :
    (∃ x, r = some x ∧ readCopy k.enterCritical m = .ok (x, k')) ∨
    (r = none ∧ (k.queues m).readTask = none ∧ k' = joinReader k.enterCritical m) ∨
    (r.isSome = true ∧ (k' = k ∨ k' = k.enterCritical.exitCritical)) := by
  unfold readTimed at h
  dsimp only at h
  split_ifs at h with hsize hbusy hempty hblock
  · obtain ⟨rfl, rfl⟩ := Prod.mk.inj (Except.ok.inj h)
    exact .inr (.inr ⟨rfl, .inl rfl⟩)
  · obtain ⟨rfl, rfl⟩ := Prod.mk.inj (Except.ok.inj h)
    exact .inr (.inr ⟨rfl, .inr rfl⟩)
  · obtain ⟨rfl, rfl⟩ := Prod.mk.inj (Except.ok.inj h)
    have hnone : (k.queues m).readTask = none := Option.not_isSome_iff_eq_none.mp hbusy
    exact .inr (.inl ⟨rfl, hnone, rfl⟩)
  · obtain ⟨rfl, rfl⟩ := Prod.mk.inj (Except.ok.inj h)
    exact .inr (.inr ⟨rfl, .inr rfl⟩)
  · obtain ⟨⟨x, k1⟩, hc, h1⟩ := map_eq_ok.mp h
    obtain ⟨rfl, rfl⟩ := Prod.mk.inj h1
    exact .inl ⟨x, rfl, hc⟩

/-- A write adds its message, joins, or returns an error. -/
theorem writeTimed_cases {msg : List UInt8} (h : writeTimed k m msg = .ok (r, k')) :
    (writeFits k m msg.length = true ∧ ∃ x, r = some x ∧ writeCopy k.enterCritical m msg = .ok (x, k')) ∨
    (r = none ∧ joinWriter k.enterCritical m = .ok k') ∨
    (r.isSome = true ∧ (k' = k ∨ k' = k.enterCritical.exitCritical)) := by
  unfold writeTimed at h
  dsimp only at h
  split_ifs at h with hsize hfull hblock
  · obtain ⟨rfl, rfl⟩ := Prod.mk.inj (Except.ok.inj h)
    exact .inr (.inr ⟨rfl, .inl rfl⟩)
  · obtain ⟨k1, hj, h1⟩ := map_eq_ok.mp h
    obtain ⟨rfl, rfl⟩ := Prod.mk.inj h1
    exact .inr (.inl ⟨rfl, hj⟩)
  · obtain ⟨rfl, rfl⟩ := Prod.mk.inj (Except.ok.inj h)
    exact .inr (.inr ⟨rfl, .inr rfl⟩)
  · obtain ⟨⟨x, k1⟩, hc, h1⟩ := map_eq_ok.mp h
    obtain ⟨rfl, rfl⟩ := Prod.mk.inj h1
    have hfits : writeFits k m msg.length = true := by
      have hq : k.enterCritical.queues m = k.queues m := rfl
      rw [hq, Bool.not_eq_true] at hfull
      rw [writeFits, hfull, decide_eq_true (not_not.mp hsize)]
      rfl
    exact .inl ⟨hfits, x, rfl, hc⟩

end Cases

/-! ### Runs -/

/-- A call that waits. -/
inductive PendingCall where
  | read
  | write (msg : List UInt8)
  deriving DecidableEq, Repr

/-- The steps of `__rx_add_timer` that a task has taken. -/
inductive SleepStage where
  | joined
  | started
  | pointed
  | marked
  | unqueued
  deriving DecidableEq, Repr

/-- Where a task is: in no call, between its last `rx_exit_critical` and the
end of its `rx_sched`, or past that. -/
inductive TimedPc where
  | out
  | window (stage : SleepStage) (call : PendingCall) (delay : Word) (tm : ℕ)
  | asleep (call : PendingCall)
  deriving DecidableEq, Repr

namespace TimedPc

def inWindow : TimedPc → Bool
  | .window .. => true
  | _ => false

/-- The task has not left the ready queue yet if it reads. -/
def early : TimedPc → Bool
  | .window stage _ _ _ => stage ≠ .unqueued
  | _ => false

/-- The pending call, if there is one. -/
def call : TimedPc → Option PendingCall
  | .out => none
  | .window _ c _ _ | .asleep c => some c

theorem early_inWindow {p : TimedPc} (h : p.inWindow = false) : p.early = false := by
  cases p with
  | out => rfl
  | window st c delay tm => cases h
  | asleep c => rfl

end TimedPc

/-- The kernel, and where each task is. -/
structure TimedQueue (n : ℕ) where
  k : Kernel n
  pc : Fin n → TimedPc

namespace TimedQueue

/-- The kernel becomes `k'`, with the running task at `p`. -/
def goto (s : TimedQueue n) (p : TimedPc) (k' : Kernel n) : TimedQueue n where
  k := k'
  pc := Function.update s.pc s.k.curr p

/-- The next step of the running task in the window. -/
def advance (s : TimedQueue n) : Res (TimedQueue n) :=
  match s.pc s.k.curr with
  | .window .joined c delay tm => .ok (s.goto (.window .started c delay tm) (sleepStart s.k tm delay))
  | .window .started c delay tm => .ok (s.goto (.window .pointed c delay tm) (sleepPoint s.k tm))
  | .window .pointed c delay tm => .ok (s.goto (.window .marked c delay tm) (sleepMark s.k))
  | .window .marked c delay tm => (sleepUnqueue s.k).map (s.goto (.window .unqueued c delay tm))
  | .window .unqueued c _ _ => (rxSched s.k).map (s.goto (.asleep c))
  | _ => .ok s

/-- What a step computes on queue `m`: what a call returns, if it returns, and
the system it leaves. The pending call of the running task goes on by one step
in the window, and to its return after it. -/
def exec (m : ℕ) (s : TimedQueue n) : QueueCall n → Res (Option Ret × TimedQueue n)
  | .write msg timeout tm => do
    let (r, k) ← writeTimed s.k m msg
    let pc := if r.isSome then .out else .window .joined (.write msg) (BitVec.ofInt 32 timeout + k.jiffies) tm
    return (r, s.goto pc k)
  | .read size timeout tm => do
    let (r, k) ← readTimed s.k m size
    let pc := if r.isSome then .out else .window .joined .read (BitVec.ofInt 32 timeout + s.k.jiffies) tm
    return (r, s.goto pc k)
  | .resume =>
    match s.pc s.k.curr with
    | .out => .error .null
    | .window .. => s.advance.map (none, ·)
    | .asleep .read => do
      let (r, k) ← rxReadFromQueueResume s.k m true
      return (some r, s.goto .out k)
    | .asleep (.write msg) => do
      let (r, k) ← rxWriteToQueueResume s.k m msg true
      return (some r, s.goto .out k)
  | .expire tm => do
    let k ← expireSleeper s.k tm
    return (none, { s with k := k })
  | .dispatch t preempted => .ok (none, { s with k := s.k.dispatch t preempted })

/-- A task without a pending call makes one, with a positive timeout, and a
task with one goes on with it. The timer thread, which is one without, finds
an active timer expired; a task on the ready queue is dispatched. -/
def Admissible (s : TimedQueue n) : QueueCall n → Prop
  | .write _ timeout _ | .read _ timeout _ => s.pc s.k.curr = .out ∧ 0 < timeout ∧ timeout < 2 ^ 31
  | .resume => s.pc s.k.curr ≠ .out
  | .expire tm => s.pc s.k.curr = .out ∧ tm ∈ s.k.active
  | .dispatch t _ => t ∈ nodes s.k.next n s.k.readyHead

instance (s : TimedQueue n) : ∀ c, Decidable (s.Admissible c)
  | .write _ timeout _ | .read _ timeout _ =>
    inferInstanceAs (Decidable (s.pc s.k.curr = .out ∧ 0 < timeout ∧ timeout < 2 ^ 31))
  | .resume => inferInstanceAs (Decidable (s.pc s.k.curr ≠ .out))
  | .expire tm => inferInstanceAs (Decidable (s.pc s.k.curr = .out ∧ tm ∈ s.k.active))
  | .dispatch t _ => inferInstanceAs (Decidable (t ∈ nodes s.k.next n s.k.readyHead))

/-- The step relation; its label has what the call returned. -/
def Step (m : ℕ) (s : TimedQueue n) (c : QueueCall n × Option Ret) (s' : TimedQueue n) : Prop :=
  s.Admissible c.1 ∧ s.exec m c.1 = .ok (c.2, s')

/-- The reader that the step wakes. -/
def wakes (m : ℕ) (s : TimedQueue n) : QueueCall n → Option (Fin n)
  | .write msg _ _ => if writeFits s.k m msg.length then (s.k.queues m).readTask else none
  | .resume =>
    match s.pc s.k.curr with
    | .asleep (.write _) => if writeResumes s.k m true then (s.k.queues m).readTask else none
    | _ => none
  | _ => none

/-- The task whose timer expires. -/
def expires (s : TimedQueue n) : QueueCall n → Option (Fin n)
  | .expire tm => (s.k.timers tm).task
  | _ => none

/-- A reader is woken once it has left the ready queue, and a timer expires
for a task that is neither at the queue nor on the ready queue. -/
structure WaitSafe (m : ℕ) (s : TimedQueue n) (c : QueueCall n × Option Ret) : Prop where
  wake : ∀ t, s.wakes m c.1 = some t → (s.pc t).early = false
  expire : ∀ t, s.expires c.1 = some t → (s.k.queues m).readTask ≠ some t ∧
    t ∉ nodes s.k.next n (s.k.queues m).writeTask ∧ t ∉ nodes s.k.next n s.k.readyHead

instance (m : ℕ) (s : TimedQueue n) (c : QueueCall n × Option Ret) : Decidable (WaitSafe m s c) :=
  decidable_of_iff ((∀ t, s.wakes m c.1 = some t → (s.pc t).early = false) ∧
    ∀ t, s.expires c.1 = some t → (s.k.queues m).readTask ≠ some t ∧
      t ∉ nodes s.k.next n (s.k.queues m).writeTask ∧ t ∉ nodes s.k.next n s.k.readyHead)
    ⟨fun h => ⟨h.1, h.2⟩, fun h => ⟨h.wake, h.expire⟩⟩

/-- The ready queue is `lr` and the writers' chain `lw`; a task without a
pending call is not at the queue, and a task at the queue is not on the ready
queue, unless it is a reader that is about to leave it. -/
structure Clear (m : ℕ) (s : TimedQueue n) (lr lw : List (Fin n)) : Prop where
  ready : Chain s.k.next s.k.readyHead lr
  write : Chain s.k.next (s.k.queues m).writeTask lw
  returned : ∀ t, s.pc t = .out → (s.k.queues m).readTask ≠ some t ∧ t ∉ lw
  reader : ∀ t, (s.k.queues m).readTask = some t → t ∈ lr → (s.pc t).early = true
  writers : ∀ t ∈ lw, t ∉ lr

/-- The reader that the step wakes is not on the ready queue. -/
def WakesOff (m : ℕ) (s : TimedQueue n) (c : QueueCall n × Option Ret) : Prop :=
  ∀ t, s.wakes m c.1 = some t → t ∉ nodes s.k.next n s.k.readyHead

/-- A queue that nobody is at. -/
structure Start (m : ℕ) (s : TimedQueue n) : Prop where
  reader : (s.k.queues m).readTask = none
  writer : (s.k.queues m).writeTask = none
  ready : ∃ l, Chain s.k.next s.k.readyHead l ∧ s.k.curr ∈ l
  port : s.k.port = {}
  pc : ∀ t, s.pc t = .out

/-! ### The invariant -/

/-- The lists, who is at the queue, and where the running task is. -/
structure Inv (m : ℕ) (s : TimedQueue n) (lr lw : List (Fin n)) : Prop where
  lists : Lists s.k s.k lr (fun _ : Unit => (s.k.queues m).writeTask) (fun _ => lw)
  port : s.k.port = {}
  reader : ∀ t, (s.k.queues m).readTask = some t → (s.pc t).call = some .read ∧ (t ∈ lr → (s.pc t).early = true)
  writers : ∀ t ∈ lw, ∃ msg, (s.pc t).call = some (.write msg)
  curr : s.k.curr ∈ lr ∨ ((s.pc s.k.curr).inWindow = true ∧ s.k.next s.k.curr = none)

theorem Start.inv {m : ℕ} {s : TimedQueue n} (h : Start m s) : ∃ lr, Inv m s lr [] := by
  obtain ⟨lr, hl, hc⟩ := h.ready
  refine ⟨lr, ⟨Relinked.refl _, Or.inl h.port, hl, fun _ => h.writer, ?_, ?_⟩, h.port, fun t ht => ?_, ?_, Or.inl hc⟩
  · simp
  · simp
  · rw [h.reader] at ht
    cases ht
  · simp

theorem Inv.clear {m : ℕ} {s : TimedQueue n} {lr lw : List (Fin n)} (h : Inv m s lr lw) : Clear m s lr lw := by
  refine ⟨h.lists.ready, h.lists.wait (), fun t ht => ⟨fun hr => ?_, fun hw => ?_⟩, fun t ht => (h.reader t ht).2,
    h.lists.notReady ()⟩
  · have hcall := (h.reader t hr).1
    rw [ht] at hcall
    cases hcall
  · obtain ⟨msg, hcall⟩ := h.writers t hw
    rw [ht] at hcall
    cases hcall

section Calls

variable {m : ℕ} {s : TimedQueue n} {lr lr' lw : List (Fin n)} {k' : Kernel n} {r : Ret}

/-- Outside the window the running task is on the ready queue and not at the
message queue. -/
theorem Inv.curr_free (h : Inv m s lr lw) (hp : (s.pc s.k.curr).inWindow = false) :
    s.k.curr ∈ lr ∧ (s.k.queues m).readTask ≠ some s.k.curr ∧ s.k.curr ∉ lw := by
  have hc : s.k.curr ∈ lr := h.curr.resolve_right fun hw => by rw [hp] at hw; exact Bool.noConfusion hw.1
  refine ⟨hc, fun hr => ?_, fun hw => h.lists.notReady () _ hw hc⟩
  have he := (h.reader _ hr).2 hc
  rw [TimedPc.early_inWindow hp] at he
  cases he

/-- The reader is not on the chain. -/
theorem Inv.reader_notMem (h : Inv m s lr lw) {t : Fin n} (ht : (s.k.queues m).readTask = some t) : t ∉ lw := by
  intro hw
  obtain ⟨msg, hcall⟩ := h.writers t hw
  rw [(h.reader t ht).1] at hcall
  cases hcall

/-- The place of the running task changes, that of the others stays. -/
theorem goto_of_ne {t : Fin n} (ht : t ≠ s.k.curr) (p : TimedPc) (k' : Kernel n) : (s.goto p k').pc t = s.pc t :=
  Function.update_of_ne ht _ _

theorem goto_curr (p : TimedPc) (k' : Kernel n) : (s.goto p k').pc s.k.curr = p := Function.update_self _ _ _

/-- The running task, which is not at the message queue, ends its call; the
tasks at the queue afterwards were there before. -/
theorem Inv.ends (h : Inv m s lr lw) (hp : (s.pc s.k.curr).inWindow = false) {lw' : List (Fin n)}
    (hl : Lists k' k' lr' (fun _ : Unit => (k'.queues m).writeTask) (fun _ => lw')) (hport : k'.port = {})
    (hread : ∀ t, (k'.queues m).readTask = some t → (s.k.queues m).readTask = some t ∧ (t ∈ lr' → t ∈ lr))
    (hw : ∀ t ∈ lw', t ∈ lw) (hc : k'.curr ∈ lr') : Inv m (s.goto .out k') lr' lw' := by
  obtain ⟨-, hcr, hcw⟩ := h.curr_free hp
  refine ⟨hl, hport, fun t ht => ?_, fun t ht => ?_, Or.inl hc⟩
  · obtain ⟨hr, hm⟩ := hread t ht
    have hne : t ≠ s.k.curr := by
      rintro rfl
      exact hcr hr
    rw [goto_of_ne hne]
    exact ⟨(h.reader t hr).1, fun hr' => (h.reader t hr).2 (hm hr')⟩
  · have hne : t ≠ s.k.curr := by
      rintro rfl
      exact hcw (hw _ ht)
    rw [goto_of_ne hne]
    exact h.writers t (hw t ht)

/-- A call returns without having done anything. -/
theorem Inv.returned (h : Inv m s lr lw) (hp : (s.pc s.k.curr).inWindow = false)
    (hk : k' = s.k ∨ k' = s.k.enterCritical.exitCritical) : Inv m (s.goto .out k') lr lw := by
  obtain rfl : k' = s.k := hk.elim id fun hk => hk.trans (enter_exit h.port)
  exact h.ends hp h.lists h.port (fun t ht => ⟨ht, id⟩) (fun t ht => ht) (h.curr_free hp).1

/-- A message is written, and the reader, which has left the ready queue, is
woken. -/
theorem Inv.wrote (h : Inv m s lr lw) (hp : (s.pc s.k.curr).inWindow = false) {msg : List UInt8}
    (hsafe : ∀ t, (s.k.queues m).readTask = some t → (s.pc t).early = false)
    (he : writeCopy s.k.enterCritical m msg = .ok (r, k')) : ∃ lr', Inv m (s.goto .out k') lr' lw := by
  have hoff : ∀ t, (s.k.queues m).readTask = some t → t ∉ lr := fun t ht hm => by
    have hearly := (h.reader t ht).2 hm
    rw [hsafe t ht] at hearly
    cases hearly
  obtain ⟨lr', hl, hm, hk, hr, hw, -⟩ := h.lists.wrote (m := m)
    (fun t ht => ⟨hoff t ht, fun _ => h.reader_notMem ht⟩) he
  refine ⟨lr', h.ends hp (hl.congr_heads fun _ => hw) hk.port (fun t ht => ?_) (fun t ht => ht) ?_⟩
  · rw [hr] at ht
    cases ht
  · rw [hk.curr, hm]
    exact Or.inr (h.curr_free hp).1

/-- A message is read, and the first writer is woken. -/
theorem Inv.took (h : Inv m s lr lw) (hp : (s.pc s.k.curr).inWindow = false)
    (he : readCopy s.k.enterCritical m = .ok (r, k')) : ∃ lr', Inv m (s.goto .out k') lr' lw.tail := by
  have hc := (h.curr_free hp).1
  have hhead : Chain s.k.next (s.k.queues m).writeTask lw := h.lists.wait ()
  cases hlw : lw with
  | nil =>
    rw [hlw] at hhead
    have hnone : (s.k.queues m).writeTask = none := hhead
    obtain ⟨hl, hk, hr, hw, -⟩ := h.lists.took_of_none hnone he
    have hl' : Lists k' k' lr (fun _ : Unit => (k'.queues m).writeTask) (fun _ => []) := by
      rw [hlw] at hl
      exact hl.congr_heads fun _ => hw.trans hnone.symm
    refine ⟨lr, h.ends hp hl' hk.port (fun t ht => ⟨hr.symm.trans ht, id⟩) (by simp) ?_⟩
    rw [hk.curr]
    exact hc
  | cons t l =>
    obtain ⟨lr', hl, hm, hk, hr, hw⟩ := h.lists.took_of_cons (i := ()) rfl hlw he
    have htw : t ∈ lw := by rw [hlw]; exact List.mem_cons_self
    refine ⟨lr', h.ends hp (hl.single hw) hk.port (fun u hu => ⟨hr.symm.trans hu, fun hu' => ?_⟩) (fun u hu => ?_) ?_⟩
    · -- the writer that was woken is not the reader
      refine ((hm u).mp hu').resolve_left ?_
      rintro rfl
      exact h.reader_notMem (hr.symm.trans hu) htw
    · rw [hlw]
      exact List.mem_cons_of_mem _ hu
    · rw [hk.curr, hm]
      exact Or.inr hc

/-- The running task becomes the reader. -/
theorem Inv.joinReader (h : Inv m s lr lw) (hp : s.pc s.k.curr = .out) (delay : Word) (tm : ℕ) :
    Inv m (s.goto (.window .joined .read delay tm) (joinReader s.k.enterCritical m)) lr lw := by
  obtain ⟨hc, -, hcw⟩ := h.curr_free (by rw [hp]; rfl)
  have hl := (h.lists.enter.setQueue m { s.k.queues m with readTask := some s.k.curr }).exit.self
  have hq : (Rosx.joinReader s.k.enterCritical m).queues m = { s.k.queues m with readTask := some s.k.curr } :=
    Kernel.setQueue_queues ..
  refine ⟨hl.congr_heads fun _ => congrArg (·.writeTask) hq, h.lists.port.enter.exit, fun t ht => ?_, fun t ht => ?_,
    Or.inl hc⟩
  · replace ht : ((Rosx.joinReader s.k.enterCritical m).queues m).readTask = some t := ht
    rw [hq] at ht
    obtain rfl := Option.some.inj ht
    rw [goto_curr]
    exact ⟨rfl, fun _ => rfl⟩
  · have hne : t ≠ s.k.curr := by
      rintro rfl
      exact hcw ht
    rw [goto_of_ne hne]
    exact h.writers t ht

/-- The running task joins the writers. -/
theorem Inv.joinWriter (h : Inv m s lr lw) (hp : s.pc s.k.curr = .out) (msg : List UInt8) (delay : Word) (tm : ℕ)
    (he : joinWriter s.k.enterCritical m = .ok k') :
    Inv m (s.goto (.window .joined (.write msg) delay tm) k') (lr.erase s.k.curr) (lw ++ [s.k.curr]) := by
  obtain ⟨hc, hcr, -⟩ := h.curr_free (by rw [hp]; rfl)
  obtain ⟨k1, hj, hport, hnone, hl⟩ := h.lists.joinWriter (m := m) (i := ()) rfl hc
  obtain rfl : k1 = k' := Except.ok.inj (hj.symm.trans he)
  have hq : k1.queues m = { s.k.queues m with writeTask := (lw ++ [s.k.curr]).head? } := by
    rw [hl.data.queues]
    exact Kernel.setQueue_queues ..
  have hcurr : k1.curr = s.k.curr := hl.data.curr
  refine ⟨hl.single (congrArg (·.writeTask) hq), hport, fun t ht => ?_, fun t ht => ?_, Or.inr ⟨?_, ?_⟩⟩
  · replace ht : (k1.queues m).readTask = some t := ht
    rw [hq] at ht
    have hne : t ≠ s.k.curr := by
      rintro rfl
      exact hcr ht
    rw [goto_of_ne hne]
    exact ⟨(h.reader t ht).1, fun hm => (h.reader t ht).2 (List.mem_of_mem_erase hm)⟩
  · by_cases hne : t = s.k.curr
    · subst hne
      rw [goto_curr]
      exact ⟨msg, rfl⟩
    · rw [goto_of_ne hne]
      exact h.writers t ((List.mem_append.mp ht).resolve_right fun hm => hne (List.mem_singleton.mp hm))
  · show ((s.goto _ k1).pc k1.curr).inWindow = true
    rw [hcurr, goto_curr]
    rfl
  · show k1.next k1.curr = none
    rw [hcurr]
    exact hnone

/-! ### The steps between the calls -/

section Window

variable {st st' : SleepStage} {c : PendingCall} {delay : Word} {tm : ℕ}

/-- The running task goes on in the window; those at the queue stay. -/
theorem Inv.window (h : Inv m s lr lw) (hpc : s.pc s.k.curr = .window st c delay tm) {p : TimedPc}
    (hp : p.call = some c) (hl : Lists k' k' lr' (fun _ : Unit => (s.k.queues m).writeTask) (fun _ => lw))
    (hport : k'.port = {}) (hq : k'.queues = s.k.queues) (hm : ∀ t, t ∈ lr' → t ∈ lr)
    (hearly : s.k.curr ∈ lr' → (s.k.queues m).readTask = some s.k.curr → p.early = true)
    (hc : k'.curr ∈ lr' ∨ (k'.curr = s.k.curr ∧ p.inWindow = true ∧ k'.next k'.curr = none)) :
    Inv m (s.goto p k') lr' lw := by
  refine ⟨hl.congr_heads fun _ => by rw [← hq]; rfl, hport, fun t ht => ?_, fun t ht => ?_, ?_⟩
  · replace ht : (k'.queues m).readTask = some t := ht
    rw [hq] at ht
    obtain ⟨hcall, hr⟩ := h.reader t ht
    by_cases hne : t = s.k.curr
    · subst hne
      rw [goto_curr]
      rw [hpc] at hcall
      exact ⟨hp.trans hcall, fun hm' => hearly hm' ht⟩
    · rw [goto_of_ne hne]
      exact ⟨hcall, fun hm' => hr (hm t hm')⟩
  · by_cases hne : t = s.k.curr
    · subst hne
      obtain ⟨msg, hcall⟩ := h.writers _ ht
      rw [goto_curr]
      rw [hpc] at hcall
      exact ⟨msg, hp.trans hcall⟩
    · rw [goto_of_ne hne]
      exact h.writers t ht
  · rcases hc with hc | ⟨hcurr, hwin, hnone⟩
    · exact Or.inl hc
    · right
      refine ⟨?_, hnone⟩
      show ((s.goto p k').pc k'.curr).inWindow = true
      rw [hcurr, goto_curr]
      exact hwin

/-- A step of the window that keeps the links. -/
theorem Inv.keep (h : Inv m s lr lw) (hpc : s.pc s.k.curr = .window st c delay tm) (hst : st' ≠ .unqueued)
    (hl : Lists k' k' lr (fun _ : Unit => (s.k.queues m).writeTask) (fun _ => lw)) (hport : k'.port = {})
    (hq : k'.queues = s.k.queues) (hnext : k'.next = s.k.next) (hcurr : k'.curr = s.k.curr) :
    Inv m (s.goto (.window st' c delay tm) k') lr lw := by
  refine h.window hpc rfl hl hport hq (fun _ => id) (fun _ _ => decide_eq_true hst) ?_
  rw [hcurr, hnext]
  exact h.curr.imp_right fun hc => ⟨rfl, rfl, hc.2⟩

/-- The task leaves the ready queue, unless it has left it. -/
theorem Inv.unqueue (h : Inv m s lr lw) (hpc : s.pc s.k.curr = .window st c delay tm)
    (he : sleepUnqueue s.k = .ok k') : Inv m (s.goto (.window .unqueued c delay tm) k') (lr.erase s.k.curr) lw := by
  have hport : k'.port = {} := by
    rw [rxRemoveFromReadyQ_port he, h.port]
    rfl
  obtain ⟨hnone, hl⟩ : k'.next s.k.curr = none ∧
      Lists s.k k' (lr.erase s.k.curr) (fun _ : Unit => (s.k.queues m).writeTask) (fun _ => lw) := by
    by_cases hc : s.k.curr ∈ lr
    · obtain ⟨k1, hrem, hnone, hl⟩ := h.lists.removeReady hc
      obtain rfl : k1 = k' := Except.ok.inj (hrem.symm.trans he)
      exact ⟨hnone, hl⟩
    · have hnone := (h.curr.resolve_left hc).2
      have hne : lr ≠ [] := by
        rintro rfl
        rw [sleepUnqueue, rxRemoveFromReadyQ_empty h.lists.ready] at he
        cases he
      obtain ⟨k1, hrem, hl⟩ := h.lists.removeReady_of_notMem hc hne hnone
      obtain rfl : k1 = k' := Except.ok.inj (hrem.symm.trans he)
      rw [List.erase_of_not_mem hc]
      rw [sleepUnqueue, rxRemoveFromReadyQ_notMem h.lists.ready hc hne] at he
      obtain rfl := Except.ok.inj he
      exact ⟨by simp [Kernel.next, Kernel.setNext, Kernel.exitCritical], hl⟩
  have hcurr : k'.curr = s.k.curr := hl.data.curr
  refine h.window hpc rfl hl.self hport hl.data.queues (fun t ht => List.mem_of_mem_erase ht) (fun hm _ => ?_)
    (Or.inr ⟨hcurr, rfl, by rw [hcurr]; exact hnone⟩)
  exact absurd hm h.lists.ready.nodup.not_mem_erase

/-- The task gives up the processor. -/
theorem Inv.sleep (h : Inv m s lr lw) (hpc : s.pc s.k.curr = .window .unqueued c delay tm)
    (he : rxSched s.k = .ok k') : Inv m (s.goto (.asleep c) k') lr lw := by
  obtain ⟨hl, hc⟩ := h.lists.sched_keeps he
  have hq := (OffQueue.rxSched he).queues
  have hport : k'.port = {} := by
    rcases rxSched_cases he with ⟨rfl, -⟩ | ⟨x, -, -, rfl⟩
    · exact h.port
    · exact h.lists.port.enter.exit
  refine h.window hpc rfl hl hport hq (fun _ => id) (fun hm hr => ?_) (Or.inl hc)
  have hearly := (h.reader _ hr).2 hm
  rw [hpc] at hearly
  cases hearly

/-- A step of the running task in the window. -/
theorem advance_inv (h : Inv m s lr lw) {s' : TimedQueue n} (hw : s.pc s.k.curr = .window st c delay tm)
    (he : s.advance = .ok s') : ∃ lr', Inv m s' lr' lw := by
  unfold TimedQueue.advance at he
  rw [hw] at he
  cases st with
  | joined =>
    obtain rfl := Except.ok.inj he
    refine ⟨lr, h.keep hw (by decide) ?_ ?_ rfl rfl rfl⟩
    · exact ((h.lists.setTimer _).rxAddToActiveTimerList tm).self
    · exact h.lists.port.enter.exit
  | started =>
    obtain rfl := Except.ok.inj he
    exact ⟨lr, h.keep hw (by decide) (h.lists.modTcb s.k.curr fun _ _ => rfl).self h.port rfl
      (LinkFree.next_modTcb (fun _ _ => rfl) _ _) rfl⟩
  | pointed =>
    obtain rfl := Except.ok.inj he
    exact ⟨lr, h.keep hw (by decide) (h.lists.modTcb s.k.curr fun _ _ => rfl).self h.port rfl
      (LinkFree.next_modTcb (fun _ _ => rfl) _ _) rfl⟩
  | marked =>
    obtain ⟨k1, hrem, rfl⟩ := map_eq_ok.mp he
    exact ⟨_, h.unqueue hw hrem⟩
  | unqueued =>
    obtain ⟨k1, hs, rfl⟩ := map_eq_ok.mp he
    exact ⟨lr, h.sleep hw hs⟩

end Window

/-- A sleeper that is neither at the queue nor ready is made ready. -/
theorem expire_inv (h : Inv m s lr lw) (hp : s.pc s.k.curr = .out) {tm : ℕ}
    (hsafe : ∀ t, (s.k.timers tm).task = some t → (s.k.queues m).readTask ≠ some t ∧ t ∉ lw ∧ t ∉ lr)
    (he : expireSleeper s.k tm = .ok k') : ∃ lr', Inv m { s with k := k' } lr' lw := by
  have hc := (h.curr_free (by rw [hp]; rfl)).1
  unfold expireSleeper at he
  split at he
  · rename_i t _ htask
    obtain ⟨hr, hw, hnot⟩ := hsafe t htask
    have h1 := h.lists.enter.setState t .ready
    obtain ⟨k1, hadd, h2⟩ := h1.addReady hnot (fun _ => hw) (by simp [Kernel.setState])
    obtain ⟨⟨e, k2⟩, hadd', he⟩ := bind_eq_ok.mp he
    obtain ⟨-, rfl⟩ := Prod.mk.inj (Except.ok.inj (hadd.symm.trans hadd'))
    obtain rfl := Except.ok.inj he
    have h3 := h2.modTcb t (f := fun c => { c with timer := none }) fun _ _ => rfl
    have h4 := (h3.enter.setTimers k1.timers (k1.active.erase tm)).exit
    have hq : k1.queues = s.k.queues := h2.data.queues
    have hcurr : k1.curr = s.k.curr := h2.data.curr
    refine ⟨_, h4.exit.self.congr_heads fun _ => by rw [← hq]; rfl, h4.port.exit, fun u hu => ?_, h.writers, Or.inl ?_⟩
    · replace hu : (k1.queues m).readTask = some u := hu
      rw [hq] at hu
      refine ⟨(h.reader u hu).1, fun hm => (h.reader u hu).2 ((mem_insertReady.mp hm).resolve_left ?_)⟩
      rintro rfl
      exact hr hu
    · show k1.curr ∈ _
      rw [hcurr]
      exact mem_insertReady.mpr (Or.inr hc)
  · cases he

theorem dispatch_inv (h : Inv m s lr lw) {t : Fin n} (ht : t ∈ lr) (p : Bool) :
    Inv m { s with k := s.k.dispatch t p } lr lw := by
  have hq : (s.k.dispatch t p).queues = s.k.queues := (OffQueue.dispatch s.k t p).queues
  have hport : (s.k.dispatch t p).port = s.k.port := by rw [Kernel.dispatch_rest]
  refine ⟨(h.lists.dispatch t p).congr_heads fun _ => by rw [← hq], hport.trans h.port, fun u hu => ?_, h.writers,
    Or.inl ht⟩
  replace hu : ((s.k.dispatch t p).queues m).readTask = some u := hu
  rw [hq] at hu
  exact h.reader u hu

end Calls

/-! ### Whole runs -/

section Run

variable {m : ℕ} {s s' : TimedQueue n} {lr lw : List (Fin n)} {c : QueueCall n × Option Ret}

theorem Inv.nodes_ready (h : Inv m s lr lw) : nodes s.k.next n s.k.readyHead = lr := by
  exact h.lists.ready.nodes_eq

theorem Inv.nodes_write (h : Inv m s lr lw) : nodes s.k.next n (s.k.queues m).writeTask = lw := by
  have hchain : Chain s.k.next (s.k.queues m).writeTask lw := h.lists.wait ()
  exact hchain.nodes_eq

theorem step_inv (h : ∃ lr lw, Inv m s lr lw) (hsafe : WaitSafe m s c) (hst : Step m s c s') :
    ∃ lr lw, Inv m s' lr lw := by
  obtain ⟨lr, lw, h⟩ := h
  obtain ⟨c, r⟩ := c
  obtain ⟨ha, he⟩ := hst
  cases c with
  | write msg timeout tm =>
    obtain ⟨hpc, -⟩ := ha
    have hp : (s.pc s.k.curr).inWindow = false := by rw [hpc]; rfl
    obtain ⟨⟨r1, k1⟩, hw, he⟩ := bind_eq_ok.mp he
    obtain ⟨rfl, rfl⟩ := Prod.mk.inj (Except.ok.inj he)
    rcases writeTimed_cases hw with ⟨hfits, x, rfl, hcopy⟩ | ⟨rfl, hj⟩ | ⟨hr, hk⟩
    · have hwake : ∀ t, (s.k.queues m).readTask = some t → (s.pc t).early = false := fun t ht =>
        hsafe.wake t ((if_pos hfits).trans ht)
      obtain ⟨lr', h'⟩ := h.wrote hp hwake hcopy
      exact ⟨lr', lw, h'⟩
    · exact ⟨_, _, h.joinWriter hpc msg _ tm hj⟩
    · rw [if_pos hr]
      exact ⟨lr, lw, h.returned hp hk⟩
  | read size timeout tm =>
    obtain ⟨hpc, -⟩ := ha
    have hp : (s.pc s.k.curr).inWindow = false := by rw [hpc]; rfl
    obtain ⟨⟨r1, k1⟩, hr, he⟩ := bind_eq_ok.mp he
    obtain ⟨rfl, rfl⟩ := Prod.mk.inj (Except.ok.inj he)
    rcases readTimed_cases hr with ⟨x, rfl, hcopy⟩ | ⟨rfl, -, rfl⟩ | ⟨hr, hk⟩
    · obtain ⟨lr', h'⟩ := h.took hp hcopy
      exact ⟨lr', _, h'⟩
    · exact ⟨lr, lw, h.joinReader hpc _ tm⟩
    · rw [if_pos hr]
      exact ⟨lr, lw, h.returned hp hk⟩
  | resume =>
    cases hpc : s.pc s.k.curr with
    | out => exact absurd hpc ha
    | window st c delay tm =>
      simp only [exec, hpc] at he
      obtain ⟨s1, hadv, he⟩ := map_eq_ok.mp he
      obtain ⟨-, rfl⟩ := Prod.mk.inj he
      obtain ⟨lr', h'⟩ := advance_inv h hpc hadv
      exact ⟨lr', lw, h'⟩
    | asleep c =>
      have hp : (s.pc s.k.curr).inWindow = false := by rw [hpc]; rfl
      cases c with
      | read =>
        simp only [exec, hpc] at he
        obtain ⟨⟨r1, k1⟩, hr, he⟩ := bind_eq_ok.mp he
        obtain ⟨rfl, rfl⟩ := Prod.mk.inj (Except.ok.inj he)
        rcases rxReadFromQueueResume_split hr with ⟨-, hcopy⟩ | ⟨-, hk, -⟩
        · obtain ⟨lr', h'⟩ := h.took hp hcopy
          exact ⟨lr', _, h'⟩
        · exact ⟨lr, lw, h.returned hp (Or.inr hk)⟩
      | write msg =>
        simp only [exec, hpc] at he
        obtain ⟨⟨r1, k1⟩, hw, he⟩ := bind_eq_ok.mp he
        obtain ⟨rfl, rfl⟩ := Prod.mk.inj (Except.ok.inj he)
        rcases rxWriteToQueueResume_split hw with ⟨hres, hcopy⟩ | ⟨-, hk, -⟩
        · have hwake : ∀ t, (s.k.queues m).readTask = some t → (s.pc t).early = false := fun t ht => by
            apply hsafe.wake t
            simp only [wakes, hpc]
            rw [if_pos hres]
            exact ht
          obtain ⟨lr', h'⟩ := h.wrote hp hwake hcopy
          exact ⟨lr', lw, h'⟩
        · exact ⟨lr, lw, h.returned hp (Or.inr hk)⟩
  | expire tm =>
    obtain ⟨k1, hexp, he⟩ := bind_eq_ok.mp he
    obtain ⟨-, rfl⟩ := Prod.mk.inj (Except.ok.inj he)
    have hsleep := hsafe.expire
    rw [h.nodes_ready, h.nodes_write] at hsleep
    obtain ⟨lr', h'⟩ := expire_inv h ha.1 (fun t ht => hsleep t ht) hexp
    exact ⟨lr', lw, h'⟩
  | dispatch t p =>
    obtain ⟨-, rfl⟩ := Prod.mk.inj (Except.ok.inj he)
    have ht : t ∈ nodes s.k.next n s.k.readyHead := ha
    rw [h.nodes_ready] at ht
    exact ⟨lr, lw, dispatch_inv h ht p⟩

/-- The reader that is woken was the one at the queue. -/
theorem wakes_reader {c : QueueCall n} {t : Fin n} (h : s.wakes m c = some t) : (s.k.queues m).readTask = some t := by
  cases c with
  | write msg timeout tm =>
    simp only [wakes, Option.ite_none_right_eq_some] at h
    exact h.2
  | resume =>
    simp only [wakes] at h
    split at h
    · simp only [Option.ite_none_right_eq_some] at h
      exact h.2
    · cases h
  | read size timeout tm => cases h
  | expire tm => cases h
  | dispatch t p => cases h

/-- **A call that has returned has left the queue.** In every run of reads and
writes with timeouts in which no timer expires for a task that is still at the
queue, or already on the ready queue, and no reader is woken before it has
left the ready queue: a task without a pending call is neither `read_task` nor
on the writers' chain, and no task that is woken is on the ready queue. -/
theorem clear_of_run (hi : Start m s) {tr : List ((QueueCall n × Option Ret) × TimedQueue n)}
    (h : Run.Exec (Step m) s tr) (hg : Run.Guarded (WaitSafe m) s tr) :
    (∀ x ∈ Run.states s tr, ∃ lr lw, Clear m x lr lw) ∧ Run.Guarded (WakesOff m) s tr := by
  obtain ⟨lr, hinv⟩ := hi.inv
  refine ⟨fun x hx => ?_, ?_⟩
  · obtain ⟨lr', lw', hx⟩ := h.invariant_of_guarded (fun s => ∃ lr lw, Inv m s lr lw) (fun _ _ _ => step_inv) hg
      ⟨lr, _, hinv⟩ x hx
    exact ⟨lr', lw', hx.clear⟩
  · refine h.guarded_of_guarded (fun s => ∃ lr lw, Inv m s lr lw) (fun _ _ _ => step_inv) (fun x c _ hx hc _ t ht => ?_)
      hg ⟨lr, _, hinv⟩
    obtain ⟨lr', lw', hx⟩ := hx
    rw [hx.nodes_ready]
    intro hm
    have hearly := (hx.reader t (wakes_reader ht)).2 hm
    rw [hc.wake t ht] at hearly
    cases hearly

end Run

/-- Three ready tasks and an empty `RX_Q_BLOCK` queue of two slots; task 0
runs. -/
def emptyQueue : TimedQueue 3 where
  k := (rxCreateQueue (Kernel.allReady 2) 0 1 1 100 rxQBlock).2
  pc := fun _ => .out

theorem emptyQueue_start : Start 0 emptyQueue where
  reader := rfl
  writer := rfl
  ready := ⟨[0, 1, 2], by decide, by decide⟩
  port := rfl
  pc := fun _ => rfl

/-- Task 0 waits to read, and task 1 writes what it waits for. Then task 0
fills the queue and waits to write, but it is preempted before it sleeps: task
2 takes a message and wakes it, and it goes to sleep all the same. -/
theorem clear_preemptedWriter : Start 0 emptyQueue ∧ ∃ tr, Run.Exec (Step 0) emptyQueue tr ∧
    Run.Guarded (WaitSafe 0) emptyQueue tr ∧ tr.length = 20 ∧
    (∀ x ∈ Run.states emptyQueue tr, ∃ lr lw, Clear 0 x lr lw) ∧ Run.Guarded (WakesOff 0) emptyQueue tr := by
  refine ⟨emptyQueue_start, ?_⟩
  have hrun := Run.exists_exec (f := Run.attempt Admissible (exec 0)) (fun _ _ _ => Run.step_of_attempt) (s := emptyQueue)
    [(.read 1 5 9, none), (.resume, none), (.resume, none), (.resume, none), (.resume, none), (.resume, none),
      (.write [7] 5 8, some ⟨.osOk, []⟩), (.dispatch 0 true, none), (.resume, some ⟨.osOk, [7]⟩),
      (.write [1] 5 9, some ⟨.osOk, []⟩), (.write [2] 5 9, some ⟨.osOk, []⟩), (.write [3] 5 9, none), (.resume, none),
      (.dispatch 2 true, none), (.read 1 5 7, some ⟨.osOk, [1]⟩), (.dispatch 0 true, none), (.resume, none),
      (.resume, none), (.resume, none), (.resume, none)]
    (fun tr => decide (Run.Guarded (WaitSafe 0) emptyQueue tr ∧ tr.length = 20)) (by decide +kernel)
  obtain ⟨tr, hex, hp⟩ := hrun
  obtain ⟨hg, hlen⟩ := of_decide_eq_true hp
  exact ⟨tr, hex, hg, hlen, clear_of_run emptyQueue_start hex hg⟩

/-- The timer of task 0, which waits to read, expires. The call returns
`E_OS_TIMEOUT` and leaves task 0 in `read_task`, so that task 1 is refused with
`E_OS_BUSY` although nobody waits. -/
theorem timed_out_reader_stays : Start 0 emptyQueue ∧ ∃ tr, Run.Exec (Step 0) emptyQueue tr ∧
    (∃ x ∈ Run.states emptyQueue tr, x.pc 0 = .out ∧ (x.k.queues 0).readTask = some 0) ∧
    ¬ ∀ x ∈ Run.states emptyQueue tr, ∃ lr lw, Clear 0 x lr lw := by
  refine ⟨emptyQueue_start, ?_⟩
  have hrun := Run.exists_exec (f := Run.attempt Admissible (exec 0)) (fun _ _ _ => Run.step_of_attempt) (s := emptyQueue)
    [(.read 1 5 9, none), (.resume, none), (.resume, none), (.resume, none), (.resume, none), (.resume, none),
      (.expire 9, none), (.dispatch 0 true, none), (.resume, some ⟨.eOsTimeout, []⟩), (.dispatch 1 true, none),
      (.read 1 5 8, some ⟨.eOsBusy, []⟩)]
    (fun tr => decide (∃ x ∈ Run.states emptyQueue tr, x.pc 0 = .out ∧ (x.k.queues 0).readTask = some 0))
    (by decide +kernel)
  obtain ⟨tr, hex, hp⟩ := hrun
  obtain ⟨x, hx, hpc, hr⟩ := of_decide_eq_true hp
  refine ⟨tr, hex, ⟨x, hx, hpc, hr⟩, fun hall => ?_⟩
  obtain ⟨lr, lw, hclear⟩ := hall x hx
  exact (hclear.returned 0 hpc).1 hr

end TimedQueue

end Rosx
