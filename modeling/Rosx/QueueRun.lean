/-
# Runs of one message queue

Any number of tasks use one queue. A step of a run is a call of
`rx_write_to_queue` or `rx_read_from_queue` by the running task, up to its
return or to the point where it blocks; the rest of a blocked call, once its
task runs again; the expiry of a sleeper's timer; or the dispatch of any ready
task. Next to the kernel a run keeps the blocked calls and the log of the
messages written and read.

`step_cases` says what a step can do to the queue: write a message at `head`,
take the one at `tail`, or leave the ring alone. Which of these it does is
decided by the state before it (`written`, `takes`). Everything about the
order of the messages and about the copies is derived from it, in particular
that the unread messages are those accepted and not yet delivered, in order,
exactly as long as no message is written to a full ring and none taken from an
empty one (`fifo_iff`).
-/
import Rosx.Queue
import Rosx.Lib.Run

namespace Rosx

open Linked

variable {n : ℕ}

/-- The pending call of a task, if it has one. -/
inductive QueuePhase where
  | out
  | writing (msg : List UInt8) (timed : Bool)
  | reading (timed : Bool)
  deriving DecidableEq, Repr

/-- A message was accepted by a write, or returned by a read. -/
inductive QueueEvent where
  | wrote (msg : List UInt8)
  | got (msg : List UInt8)
  deriving DecidableEq, Repr

/-- The messages accepted by writes. -/
def accepted (log : List QueueEvent) : List (List UInt8) :=
  log.filterMap fun
    | .wrote msg => some msg
    | .got _ => none

/-- The messages returned by reads. -/
def delivered (log : List QueueEvent) : List (List UInt8) :=
  log.filterMap fun
    | .wrote _ => none
    | .got msg => some msg

section Log

variable (log : List QueueEvent) (msg : List UInt8)

@[simp] theorem accepted_wrote : accepted (log ++ [.wrote msg]) = accepted log ++ [msg] := by simp [accepted]

@[simp] theorem accepted_got : accepted (log ++ [.got msg]) = accepted log := by simp [accepted]

@[simp] theorem delivered_wrote : delivered (log ++ [.wrote msg]) = delivered log := by simp [delivered]

@[simp] theorem delivered_got : delivered (log ++ [.got msg]) = delivered log ++ [msg] := by simp [delivered]

end Log

/-- The reference queue: a write appends its message and drops the oldest one
if more than `N` are unread, a read returns the oldest one. `none` once a read
has returned anything else. -/
def refStep (N : ℕ) : Option (List (List UInt8)) → QueueEvent → Option (List (List UInt8))
  | some l, .wrote msg => if (l ++ [msg]).length > N then some (l ++ [msg]).tail else some (l ++ [msg])
  | some (x :: l), .got msg => if msg = x then some l else none
  | some [], .got _ => none
  | none, _ => none

/-- The contents of the reference queue after the log. -/
def refQueue (N : ℕ) (log : List QueueEvent) : Option (List (List UInt8)) := log.foldl (refStep N) (some [])

theorem refQueue_append (N : ℕ) (log : List QueueEvent) (e : QueueEvent) :
    refQueue N (log ++ [e]) = refStep N (refQueue N log) e := by
  simp [refQueue]

/-- The kernel, the pending calls and the log. -/
structure QueueSys (n : ℕ) where
  k : Kernel n
  phase : Fin n → QueuePhase
  log : List QueueEvent

/-- A step of a run. -/
inductive QueueCall (n : ℕ) where
  | write (msg : List UInt8) (timeout : ℤ) (tm : ℕ)
  | read (size timeout : ℤ) (tm : ℕ)
  | resume
  | expire (tm : ℕ)
  | dispatch (t : Fin n) (preempted : Bool)

namespace QueueSys

/-- The call of the running task becomes `p`. -/
def setPhase (s : QueueSys n) (p : QueuePhase) : QueueSys n :=
  { s with phase := Function.update s.phase s.k.curr p }

/-- A write of `msg` has returned `r`, or blocked. -/
def afterWrite (s : QueueSys n) (msg : List UInt8) (timed : Bool) (k : Kernel n) : Option Ret → QueueSys n
  | none => { s.setPhase (.writing msg timed) with k := k }
  | some r => { s.setPhase .out with k := k, log := if r.err = .osOk then s.log ++ [.wrote msg] else s.log }

/-- A read has returned `r`, or blocked. -/
def afterRead (s : QueueSys n) (timed : Bool) (k : Kernel n) : Option Ret → QueueSys n
  | none => { s.setPhase (.reading timed) with k := k }
  | some r => { s.setPhase .out with k := k, log := if r.err = .osOk then s.log ++ [.got r.msg] else s.log }

/-- What a step computes on queue `m`: what a call returns, if it returns, and
the system it leaves. -/
def exec (m : ℕ) (s : QueueSys n) : QueueCall n → Res (Option Ret × QueueSys n)
  | .write msg timeout tm => do
    let (r, k) ← rxWriteToQueue s.k (some m) (some msg) msg.length timeout tm
    return (r, s.afterWrite msg (timeout ≠ 0) k r)
  | .read size timeout tm => do
    let (r, k) ← rxReadFromQueue s.k (some m) true size timeout tm
    return (r, s.afterRead (timeout ≠ 0) k r)
  | .resume =>
    match s.phase s.k.curr with
    | .out => .error .null
    | .writing msg timed => do
      let (r, k) ← rxWriteToQueueResume s.k m msg timed
      return (some r, s.afterWrite msg timed k (some r))
    | .reading timed => do
      let (r, k) ← rxReadFromQueueResume s.k m timed
      return (some r, s.afterRead timed k (some r))
  | .expire tm => do
    let k ← expireSleeper s.k tm
    return (none, { s with k := k })
  | .dispatch t preempted => .ok (none, { s with k := s.k.dispatch t preempted })

/-- A task without a pending call makes one, a task with one goes on with it;
an armed timer expires, a ready task is dispatched. -/
def Admissible (s : QueueSys n) : QueueCall n → Prop
  | .write _ _ _ | .read _ _ _ => s.phase s.k.curr = .out
  | .resume => s.phase s.k.curr ≠ .out
  | .expire tm => tm ∈ s.k.active
  | .dispatch t _ => (s.k.tcb t).state.runnable = true

instance (s : QueueSys n) : ∀ c, Decidable (s.Admissible c)
  | .write _ _ _ | .read _ _ _ => inferInstanceAs (Decidable (s.phase s.k.curr = .out))
  | .resume => inferInstanceAs (Decidable (s.phase s.k.curr ≠ .out))
  | .expire tm => inferInstanceAs (Decidable (tm ∈ s.k.active))
  | .dispatch t _ => inferInstanceAs (Decidable ((s.k.tcb t).state.runnable = true))

/-- The step relation; its label has what the call returned. -/
def Step (m : ℕ) (s : QueueSys n) (c : QueueCall n × Option Ret) (s' : QueueSys n) : Prop :=
  s.Admissible c.1 ∧ s.exec m c.1 = .ok (c.2, s')

/-- The message the step writes into the queue, if it writes one. -/
def written (m : ℕ) (s : QueueSys n) : QueueCall n → Option (List UInt8)
  | .write msg _ _ => if writeFits s.k m msg.length then some msg else none
  | .resume =>
    match s.phase s.k.curr with
    | .writing msg timed => if writeResumes s.k m timed then some msg else none
    | _ => none
  | _ => none

/-- The step takes a message out of the queue. -/
def takes (m : ℕ) (s : QueueSys n) : QueueCall n → Bool
  | .read size _ _ => readTakes s.k m size
  | .resume =>
    match s.phase s.k.curr with
    | .reading timed => readResumes s.k m timed
    | _ => false
  | _ => false

/-- The unread messages. -/
def unread (m : ℕ) (s : QueueSys n) : List (List UInt8) := (s.k.queues m).unread s.k.mem

/-- The message at `tail`. -/
def oldest (m : ℕ) (s : QueueSys n) : List UInt8 := bytesAt s.k.mem (s.k.queues m).tail (s.k.queues m).sizeOfBlock

/-- What a step can do to the queue. -/
inductive Effect (m : ℕ) (s : QueueSys n) (c : QueueCall n) (r : Option Ret) (s' : QueueSys n) : Prop
  | push (msg : List UInt8) (hw : s.written m c = some msg) (ht : s.takes m c = false) (hr : r = some ⟨.osOk, []⟩)
      (hlog : s'.log = s.log ++ [.wrote msg]) (hk : Pushed m msg s.k s'.k)
  | pop (hw : s.written m c = none) (ht : s.takes m c = true) (hr : r = some ⟨.osOk, s.oldest m⟩)
      (hlog : s'.log = s.log ++ [.got (s.oldest m)]) (hk : Popped m s.k s'.k)
  | idle (hw : s.written m c = none) (ht : s.takes m c = false) (hr : ∀ x, r = some x → x.err ≠ .osOk)
      (hlog : s'.log = s.log) (hk : SameRing m s.k s'.k)
      (hoff : r ≠ none ∨ (s.k.queues m).block = false → OffQueue s.k s'.k)

/-- Every step writes a message at `head`, takes the one at `tail`, or leaves
the ring alone. -/
theorem step_cases {m : ℕ} {s s' : QueueSys n} {c : QueueCall n} {r : Option Ret} (h : Step m s (c, r) s') :
    Effect m s c r s' := by
  obtain ⟨ha, he⟩ := h
  cases c with
  | write msg timeout tm =>
    obtain ⟨⟨r', k'⟩, h1, h2⟩ := bind_eq_ok.mp he
    obtain ⟨rfl, rfl⟩ := Prod.mk.inj (Except.ok.inj h2)
    rcases rxWriteToQueue_cases h1 with ⟨hf, rfl, hk⟩ | ⟨hf, rfl, hb, -, hk⟩ | ⟨hf, hk, ⟨rfl, -⟩ | ⟨rfl, -⟩⟩
    · exact .push msg (by simp [written, hf]) rfl rfl (by simp [afterWrite]) hk
    · exact .idle (by simp [written, hf]) rfl (by simp) rfl hk (by simp [hb])
    · exact .idle (by simp [written, hf]) rfl (by simp) (by simp [afterWrite]) (.of_off hk) fun _ => hk
    · exact .idle (by simp [written, hf]) rfl (by simp) (by simp [afterWrite]) (.of_off hk) fun _ => hk
  | read size timeout tm =>
    obtain ⟨⟨r', k'⟩, h1, h2⟩ := bind_eq_ok.mp he
    obtain ⟨rfl, rfl⟩ := Prod.mk.inj (Except.ok.inj h2)
    rcases rxReadFromQueue_cases h1 with ⟨hf, rfl, hk⟩ | ⟨hf, rfl, hb, hk⟩ |
      ⟨hf, hk, ⟨rfl, -⟩ | ⟨rfl, -⟩ | ⟨rfl, -⟩⟩
    · exact .pop rfl hf rfl (by simp [afterRead, oldest]) hk
    · exact .idle rfl hf (by simp) rfl hk (by simp [hb])
    · exact .idle rfl hf (by simp) (by simp [afterRead]) (.of_off hk) fun _ => hk
    · exact .idle rfl hf (by simp) (by simp [afterRead]) (.of_off hk) fun _ => hk
    · exact .idle rfl hf (by simp) (by simp [afterRead]) (.of_off hk) fun _ => hk
  | resume =>
    cases hp : s.phase s.k.curr with
    | out => exact absurd hp ha
    | writing msg timed =>
      simp only [exec, hp] at he
      obtain ⟨⟨r', k'⟩, h1, h2⟩ := bind_eq_ok.mp he
      obtain ⟨rfl, rfl⟩ := Prod.mk.inj (Except.ok.inj h2)
      rcases rxWriteToQueueResume_cases h1 with ⟨hf, rfl, hk⟩ | ⟨hf, hk, hr⟩
      · exact .push msg (by simp [written, hp, hf]) (by simp [takes, hp]) rfl (by simp [afterWrite]) hk
      · exact .idle (by simp [written, hp, hf]) (by simp [takes, hp]) (by simpa using hr)
          (by simp [afterWrite, hr]) (.of_off hk) fun _ => hk
    | reading timed =>
      simp only [exec, hp] at he
      obtain ⟨⟨r', k'⟩, h1, h2⟩ := bind_eq_ok.mp he
      obtain ⟨rfl, rfl⟩ := Prod.mk.inj (Except.ok.inj h2)
      rcases rxReadFromQueueResume_cases h1 with ⟨hf, rfl, hk⟩ | ⟨hf, hk, hr⟩
      · exact .pop (by simp [written, hp]) (by simp [takes, hp, hf]) rfl (by simp [afterRead, oldest]) hk
      · exact .idle (by simp [written, hp]) (by simp [takes, hp, hf]) (by simpa using hr)
          (by simp [afterRead, hr]) (.of_off hk) fun _ => hk
  | expire tm =>
    obtain ⟨k', h1, h2⟩ := bind_eq_ok.mp he
    obtain ⟨rfl, rfl⟩ := Prod.mk.inj (Except.ok.inj h2)
    have hk := OffQueue.expireSleeper h1
    exact .idle rfl rfl (by simp) rfl (.of_off hk) fun _ => hk
  | dispatch t p =>
    obtain ⟨rfl, rfl⟩ := Prod.mk.inj (Except.ok.inj he)
    have hk := OffQueue.dispatch s.k t p
    exact .idle rfl rfl (by simp) rfl (.of_off hk) fun _ => hk

/-! ### The ring -/

/-- The cursors stand on blocks, and the pending messages fit a block. -/
structure RingInv (m : ℕ) (s : QueueSys n) : Prop where
  placed : ∃ h t, (s.k.queues m).Placed h t
  msgs : ∀ t msg timed, s.phase t = .writing msg timed → (msg.length : ℤ) = (s.k.queues m).sizeOfBlock

section Ring

variable {m : ℕ} {s s' : QueueSys n} {c : QueueCall n} {r : Option Ret}

theorem written_length (h : RingInv m s) {msg : List UInt8} (hw : s.written m c = some msg) :
    (msg.length : ℤ) = (s.k.queues m).sizeOfBlock := by
  cases c with
  | write msg' timeout tm =>
    simp only [written, Option.ite_none_right_eq_some, Option.some.injEq] at hw
    obtain ⟨hf, rfl⟩ := hw
    simp only [writeFits, Bool.and_eq_true, decide_eq_true_eq] at hf
    exact hf.1
  | resume =>
    cases hp : s.phase s.k.curr with
    | writing msg' timed =>
      simp only [written, hp, Option.ite_none_right_eq_some, Option.some.injEq] at hw
      obtain ⟨-, rfl⟩ := hw
      exact h.msgs _ _ _ hp
    | out => simp [written, hp] at hw
    | reading timed => simp [written, hp] at hw
  | read size timeout tm => cases hw
  | expire tm => cases hw
  | dispatch t p => cases hw

/-- The fixed fields of the control block stay. -/
theorem Effect.fixed (h : Effect m s c r s') : (s'.k.queues m).start = (s.k.queues m).start ∧
    (s'.k.queues m).sizeOfBlock = (s.k.queues m).sizeOfBlock ∧
    (s'.k.queues m).numOfBlocks = (s.k.queues m).numOfBlocks := by
  have hof : ∀ q : MsgQueue n, (s'.k.queues m).ring = q.ring → (s'.k.queues m).start = q.start ∧
      (s'.k.queues m).sizeOfBlock = q.sizeOfBlock ∧ (s'.k.queues m).numOfBlocks = q.numOfBlocks := fun q hr =>
    ⟨congrArg (·.start) hr, congrArg (·.sizeOfBlock) hr, congrArg (·.numOfBlocks) hr⟩
  cases h with
  | push _ _ _ _ _ hk => exact hof (s.k.queues m).pushed hk.ring
  | pop _ _ _ _ hk => exact hof (s.k.queues m).popped hk.ring
  | idle _ _ _ _ hk _ => exact hof _ hk.ring

/-- Neither do the properties the queue was created with change. -/
theorem Effect.flags (h : Effect m s c r s') : (s'.k.queues m).cyclic = (s.k.queues m).cyclic ∧
    (s'.k.queues m).block = (s.k.queues m).block := by
  have hof : ∀ q : MsgQueue n, (s'.k.queues m).ring = q.ring → (s'.k.queues m).cyclic = q.cyclic ∧
      (s'.k.queues m).block = q.block := fun q hr => ⟨congrArg (·.cyclic) hr, congrArg (·.block) hr⟩
  cases h with
  | push _ _ _ _ _ hk => simpa using hof (s.k.queues m).pushed hk.ring
  | pop _ _ _ _ hk => simpa using hof (s.k.queues m).popped hk.ring
  | idle _ _ _ _ hk _ => exact hof _ hk.ring

/-- A call that begins to wait has checked the size of its message. -/
theorem step_phase (h : Step m s (c, r) s') {t : Fin n} {msg : List UInt8} {timed : Bool}
    (ht : s'.phase t = .writing msg timed) :
    s.phase t = .writing msg timed ∨ (msg.length : ℤ) = (s.k.queues m).sizeOfBlock := by
  obtain ⟨-, he⟩ := h
  -- the phase of the running task is the only one that can change
  have hset : ∀ {p : QueuePhase}, (s.setPhase p).phase t = .writing msg timed → p = .out ∨ (∃ b, p = .reading b) →
      s.phase t = .writing msg timed := fun {p} h1 hp => by
    by_cases htc : t = s.k.curr
    · subst htc
      have h2 : p = .writing msg timed := by simpa [setPhase] using h1
      rcases hp with rfl | ⟨b, rfl⟩ <;> cases h2
    · simpa [setPhase, htc] using h1
  cases c with
  | write msg' timeout tm =>
    obtain ⟨⟨r', k'⟩, h1, h2⟩ := bind_eq_ok.mp he
    obtain ⟨rfl, rfl⟩ := Prod.mk.inj (Except.ok.inj h2)
    cases r' with
    | some r' => exact .inl (hset ht (.inl rfl))
    | none =>
      by_cases htc : t = s.k.curr
      · right
        subst htc
        simp only [afterWrite, setPhase, Function.update_self, QueuePhase.writing.injEq] at ht
        obtain ⟨rfl, -⟩ := ht
        rcases rxWriteToQueue_cases h1 with ⟨-, hr, -⟩ | ⟨-, -, -, hsize, -⟩ | ⟨-, -, ⟨hr, -⟩ | ⟨hr, -⟩⟩
        · cases hr
        · exact hsize
        · cases hr
        · cases hr
      · left
        simpa [afterWrite, setPhase, htc] using ht
  | read size timeout tm =>
    obtain ⟨⟨r', k'⟩, h1, h2⟩ := bind_eq_ok.mp he
    obtain ⟨rfl, rfl⟩ := Prod.mk.inj (Except.ok.inj h2)
    cases r' with
    | some r' => exact .inl (hset ht (.inl rfl))
    | none => exact .inl (hset ht (.inr ⟨_, rfl⟩))
  | resume =>
    cases hp : s.phase s.k.curr with
    | out => simp [exec, hp] at he
    | writing msg' timed' =>
      simp only [exec, hp] at he
      obtain ⟨⟨r', k'⟩, h1, h2⟩ := bind_eq_ok.mp he
      obtain ⟨rfl, rfl⟩ := Prod.mk.inj (Except.ok.inj h2)
      exact .inl (hset ht (.inl rfl))
    | reading timed' =>
      simp only [exec, hp] at he
      obtain ⟨⟨r', k'⟩, h1, h2⟩ := bind_eq_ok.mp he
      obtain ⟨rfl, rfl⟩ := Prod.mk.inj (Except.ok.inj h2)
      exact .inl (hset ht (.inl rfl))
  | expire tm =>
    obtain ⟨k', h1, h2⟩ := bind_eq_ok.mp he
    obtain ⟨rfl, rfl⟩ := Prod.mk.inj (Except.ok.inj h2)
    exact .inl ht
  | dispatch t' p =>
    obtain ⟨rfl, rfl⟩ := Prod.mk.inj (Except.ok.inj he)
    exact .inl ht

/-- Every step keeps the cursors on blocks. -/
theorem step_ringInv (h : RingInv m s) (hst : Step m s (c, r) s') : RingInv m s' := by
  have heff := step_cases hst
  obtain ⟨x, y, hp⟩ := h.placed
  refine ⟨?_, fun t msg timed ht => ?_⟩
  · cases heff with
    | push _ _ _ _ _ hk => exact ⟨_, _, hp.pushed.of_ring hk.ring⟩
    | pop _ _ _ _ hk => exact ⟨_, _, hp.popped.of_ring hk.ring⟩
    | idle _ _ _ _ hk _ => exact ⟨_, _, hp.of_ring hk.ring⟩
  · rw [heff.fixed.2.1]
    exact (step_phase hst ht).elim (h.msgs t msg timed) id

/-! ### First in, first out -/

/-- The unread messages are those accepted and not yet delivered. -/
def Fifo (m : ℕ) (s : QueueSys n) : Prop := accepted s.log = delivered s.log ++ s.unread m

instance (m : ℕ) (s : QueueSys n) : Decidable (Fifo m s) :=
  inferInstanceAs (Decidable (accepted s.log = delivered s.log ++ s.unread m))

/-- No message is written to a full ring, none is taken from an empty one. -/
def FifoSafe (m : ℕ) (s : QueueSys n) (c : QueueCall n × Option Ret) : Prop :=
  (s.written m c.1 ≠ none → (s.k.queues m).isFull = false) ∧
  (s.takes m c.1 = true → (s.k.queues m).isEmpty = false)

/-- What a push does to the unread messages. -/
theorem unread_push {msg : List UInt8} (h : RingInv m s) (hw : s.written m c = some msg)
    (hk : Pushed m msg s.k s'.k) (hroom : (s.k.queues m).isFull = false) :
    s'.unread m = s.unread m ++ [msg] := by
  obtain ⟨x, y, hp⟩ := h.placed
  have hc : (s.k.queues m).count < (s.k.queues m).slots := by
    have hle := hp.count_le
    have hne : (s.k.queues m).count ≠ (s.k.queues m).slots := by
      intro he
      rw [hp.isFull_iff.mpr he] at hroom
      cases hroom
    omega
  rw [unread, unread, MsgQueue.unread_of_ring hk.ring, hk.mem]
  exact hp.unread_pushed s.k.mem hc (written_length h hw)

theorem unread_push_full {msg : List UInt8} (h : RingInv m s) (hk : Pushed m msg s.k s'.k)
    (hfull : (s.k.queues m).isFull = true) : (s.unread m).length = (s.k.queues m).slots ∧ (s'.unread m).length = 1 := by
  obtain ⟨x, y, hp⟩ := h.placed
  have hc := hp.isFull_iff.mp hfull
  rw [unread, unread, MsgQueue.unread_of_ring hk.ring]
  exact ⟨by simp [hc], hp.unread_pushed_full _ hc⟩

/-- What a pop does to the unread messages. -/
theorem unread_pop (h : RingInv m s) (hk : Popped m s.k s'.k) (hne : (s.k.queues m).isEmpty = false) :
    s.unread m = s.oldest m :: s'.unread m := by
  obtain ⟨x, y, hp⟩ := h.placed
  have hc : 0 < (s.k.queues m).count := by
    apply Nat.pos_of_ne_zero
    intro he
    rw [hp.isEmpty_iff.mpr he] at hne
    cases hne
  rw [unread, unread, MsgQueue.unread_of_ring hk.ring, hk.mem]
  exact hp.unread_popped s.k.mem hc

theorem unread_of_empty (h : RingInv m s) : (s.k.queues m).isEmpty = true ↔ s.unread m = [] := by
  obtain ⟨x, y, hp⟩ := h.placed
  rw [hp.isEmpty_iff, ← List.length_eq_zero_iff, unread, MsgQueue.length_unread]

theorem unread_idle (hk : SameRing m s.k s'.k) : s'.unread m = s.unread m := by
  rw [unread, unread, MsgQueue.unread_of_ring hk.ring, hk.mem]

theorem step_fifo (h : RingInv m s) (hf : Fifo m s) (hsafe : FifoSafe m s (c, r)) (hst : Step m s (c, r) s') :
    Fifo m s' := by
  unfold Fifo at hf ⊢
  cases step_cases hst with
  | push msg hw ht hr hlog hk =>
    rw [hlog, unread_push h hw hk (hsafe.1 (by simp [hw]))]
    simp [hf]
  | pop hw ht hr hlog hk =>
    rw [hlog, accepted_got, delivered_got, hf, unread_pop h hk (hsafe.2 ht)]
    simp
  | idle hw ht hr hlog hk _ => rw [hlog, unread_idle hk, hf]

/-- A write to the full ring loses messages; a message taken from the empty
one was never written. -/
theorem step_not_fifo (h : RingInv m s) (hf : Fifo m s) (hbreak : ¬ FifoSafe m s (c, r))
    (hst : Step m s (c, r) s') : ¬ Fifo m s' := by
  unfold Fifo at hf ⊢
  obtain ⟨x, y, hp⟩ := h.placed
  intro hf'
  cases step_cases hst with
  | push msg hw ht hr hlog hk =>
    have hfull : (s.k.queues m).isFull = true := by
      by_contra hne
      exact hbreak ⟨fun _ => by simpa using hne, by simp [ht]⟩
    obtain ⟨h1, h2⟩ := unread_push_full h hk hfull
    rw [hlog, accepted_wrote, delivered_wrote, hf, List.append_assoc] at hf'
    have hlen := congrArg List.length (List.append_cancel_left hf')
    rw [List.length_append, h1, h2] at hlen
    simp [MsgQueue.slots] at hlen
  | pop hw ht hr hlog hk =>
    have hempty : (s.k.queues m).isEmpty = true := by
      by_contra hne
      exact hbreak ⟨by simp [hw], fun _ => by simpa using hne⟩
    rw [(unread_of_empty h).mp hempty, List.append_nil] at hf
    rw [hlog, accepted_got, delivered_got, hf, List.append_assoc] at hf'
    have hlen := congrArg List.length hf'
    simp at hlen
  | idle hw ht hr hlog hk _ => exact hbreak ⟨by simp [hw], by simp [ht]⟩

/-- **First in, first out.** -/
theorem fifo_iff (h : RingInv m s) (hf : Fifo m s) {tr : List ((QueueCall n × Option Ret) × QueueSys n)}
    (hex : Run.Exec (Step m) s tr) : Run.Guarded (FifoSafe m) s tr ↔ ∀ x ∈ Run.states s tr, Fifo m x :=
  hex.guarded_iff (fun s => RingInv m s ∧ Fifo m s) (fun _ hx => hx.2)
    (fun _ (_, _) _ hx hc hst => ⟨step_ringInv hx.1 hst, step_fifo hx.1 hx.2 hc hst⟩)
    (fun _ (_, _) _ hx hc hst => step_not_fifo hx.1 hx.2 hc hst) ⟨h, hf⟩

end Ring

end QueueSys

end Rosx
