/-
# A queue from its creation on

Runs that start with a queue from `rx_create_queue`, over a control block
whose `RX_QUEUE_FULL` bit was clear (`rx_create_queue` leaves that bit as it
finds it). `N` stands for `num_of_blocks`.

The ring has one slot more than the buffer has blocks. A cyclic queue is
therefore not the queue that keeps the last `N` messages: it keeps `N + 1`,
and the next write leaves only its own message (`reference_iff`). The slot
too many lies behind the buffer, and the `N + 1`st message is copied there
(`inBounds_iff`). A queue that stops when full is a first in, first out queue
all the same, of capacity `N + 1` (`stopOK_of_run`).
-/
import Rosx.QueueRun

namespace Rosx

open Linked

variable {n : ℕ}

namespace QueueSys

/-- A queue from `rx_create_queue` that nobody has used yet. -/
structure Created (m : ℕ) (size num start : ℤ) (flag : Word) (s : QueueSys n) : Prop where
  create : ∃ k : Kernel n, (k.queues m).fullBit = false ∧ rxCreateQueue k m size num start flag = (.osOk, s.k)
  phase : s.phase = fun _ => .out
  log : s.log = []
  copies : s.k.copies = []

section Created

variable {m : ℕ} {size num start : ℤ} {flag : Word} {s : QueueSys n}

theorem Created.queue (h : Created m size num start flag s) :
    ∃ f : Word, f &&& rxQueueFull = 0#32 ∧ 0 < size ∧ s.k.queues m =
      { start := start, head := start, tail := start, flag := f ||| (rxQueueEmpty &&& flag), sizeOfBlock := size,
        numOfBlocks := num, writeTask := none, readTask := none } := by
  obtain ⟨k, hf, hk⟩ := h.create
  unfold rxCreateQueue at hk
  split_ifs at hk with hp
  · cases hk
  · have hk' := (Prod.mk.inj hk).2
    refine ⟨(k.queues m).flag, by simpa [MsgQueue.fullBit] using hf, by omega, ?_⟩
    rw [← hk']
    simp [Kernel.setQueue]

theorem Created.fullBit (h : Created m size num start flag s) : (s.k.queues m).fullBit = false := by
  obtain ⟨f, hf, -, hq⟩ := h.queue
  have h0 : rxQueueEmpty &&& flag &&& rxQueueFull = 0#32 := by
    rw [BitVec.and_comm rxQueueEmpty, BitVec.and_assoc]
    exact BitVec.and_zero
  rw [hq]
  simp only [MsgQueue.fullBit, ne_eq, decide_not, Bool.not_eq_false', decide_eq_true_eq]
  rw [BitVec.and_comm, BitVec.and_or_distrib_left, BitVec.and_comm, hf, BitVec.and_comm, h0]
  rfl

theorem Created.placed (h : Created m size num start flag s) : (s.k.queues m).Placed 0 0 := by
  obtain ⟨f, -, hs, hq⟩ := h.queue
  rw [hq]
  exact ⟨hs, by simp, by simp, by simp [MsgQueue.slots], by simp [MsgQueue.slots]⟩

theorem Created.ringInv (h : Created m size num start flag s) : RingInv m s := by
  refine ⟨⟨0, 0, h.placed⟩, fun t msg timed ht => ?_⟩
  rw [h.phase] at ht
  cases ht

theorem Created.unread (h : Created m size num start flag s) : s.unread m = [] := by
  rw [← unread_of_empty h.ringInv]
  obtain ⟨f, -, -, hq⟩ := h.queue
  have hf := h.fullBit
  rw [MsgQueue.isEmpty, hf, hq]
  simp

theorem Created.fifo (h : Created m size num start flag s) : Fifo m s := by
  rw [Fifo, h.log, h.unread]
  rfl

theorem Created.blocks (h : Created m size num start flag s) : (s.k.queues m).numOfBlocks = num := by
  obtain ⟨f, -, -, hq⟩ := h.queue
  rw [hq]

end Created

/-! ### The cyclic queue -/

section Cyclic

variable {m N : ℕ} {s s' : QueueSys n} {c : QueueCall n} {r : Option Ret}

/-- Every read so far has returned what the reference queue returns, and both
hold the same messages. -/
def Reference (m N : ℕ) (s : QueueSys n) : Prop := refQueue N s.log = some (s.unread m)

/-- No message is written while `N` are unread, none is taken from an empty
queue. -/
def ReferenceSafe (m N : ℕ) (s : QueueSys n) (c : QueueCall n × Option Ret) : Prop :=
  (s.written m c.1 ≠ none → (s.unread m).length < N) ∧
  (s.takes m c.1 = true → (s.k.queues m).isEmpty = false)

/-- The ring has `N + 1` slots. -/
structure RingOf (m N : ℕ) (s : QueueSys n) : Prop where
  inv : RingInv m s
  num : (s.k.queues m).numOfBlocks = N

theorem step_ringOf (h : RingOf m N s) (hst : Step m s (c, r) s') : RingOf m N s' :=
  ⟨step_ringInv h.inv hst, (step_cases hst).fixed.2.2.trans h.num⟩

theorem RingOf.isFull_iff (h : RingOf m N s) : (s.k.queues m).isFull = true ↔ (s.unread m).length = N + 1 := by
  obtain ⟨x, y, hp⟩ := h.inv.placed
  rw [hp.isFull_iff, QueueSys.unread, MsgQueue.length_unread, MsgQueue.slots, h.num]
  simp

theorem step_reference (h : RingOf m N s) (hr : Reference m N s) (hsafe : ReferenceSafe m N s (c, r))
    (hst : Step m s (c, r) s') : Reference m N s' := by
  unfold Reference at hr ⊢
  cases step_cases hst with
  | push msg hw ht _ hlog hk =>
    have hlt := hsafe.1 (by simp [hw])
    have hroom : (s.k.queues m).isFull = false := by
      by_contra hne
      have := h.isFull_iff.mp (by simpa using hne)
      omega
    rw [hlog, refQueue_append, hr, unread_push h.inv hw hk hroom, refStep, if_neg]
    rw [List.length_append]
    simp only [List.length_singleton]
    omega
  | pop hw ht _ hlog hk =>
    have hpop := unread_pop h.inv hk (hsafe.2 ht)
    rw [hlog, refQueue_append, hr, hpop]
    simp [refStep]
  | idle hw ht _ hlog hk _ => rw [hlog, unread_idle hk, hr]

/-- The reference queue never holds more than `N` messages. -/
theorem refStep_length {l l' : List (List UInt8)} {e : QueueEvent} (hl : l.length ≤ N)
    (h : refStep N (some l) e = some l') : l'.length ≤ N := by
  cases e with
  | wrote msg =>
    simp only [refStep] at h
    split_ifs at h with hlen
    · obtain rfl := Option.some.inj h
      rw [List.length_tail, List.length_append, List.length_singleton]
      omega
    · obtain rfl := Option.some.inj h
      omega
  | got msg =>
    cases l with
    | nil => cases h
    | cons x l =>
      simp only [refStep] at h
      split_ifs at h with hx
      obtain rfl := Option.some.inj h
      simp only [List.length_cons] at hl
      omega

theorem step_not_reference (h : RingOf m N s) (hr : Reference m N s) (hlen : (s.unread m).length ≤ N)
    (hbreak : ¬ ReferenceSafe m N s (c, r)) (hst : Step m s (c, r) s') : ¬ Reference m N s' := by
  unfold Reference at hr ⊢
  intro hr'
  cases step_cases hst with
  | push msg hw ht _ hlog hk =>
    have hfull : (s.unread m).length = N := by
      by_contra hne
      exact hbreak ⟨fun _ => by omega, by simp [ht]⟩
    have hroom : (s.k.queues m).isFull = false := by
      by_contra hne
      have := h.isFull_iff.mp (by simpa using hne)
      omega
    -- the ring keeps all `N + 1` messages, the reference queue drops one
    rw [hlog, refQueue_append, hr] at hr'
    have h1 := refStep_length hlen hr'
    rw [unread_push h.inv hw hk hroom, List.length_append, List.length_singleton] at h1
    omega
  | pop hw ht _ hlog hk =>
    have hempty : (s.k.queues m).isEmpty = true := by
      by_contra hne
      exact hbreak ⟨by simp [hw], fun _ => by simpa using hne⟩
    rw [hlog, refQueue_append, hr, (unread_of_empty h.inv).mp hempty] at hr'
    cases hr'
  | idle hw ht _ hlog hk _ => exact hbreak ⟨by simp [hw], by simp [ht]⟩

/-- A write of a block to a cyclic queue is accepted. -/
theorem write_cyclic (hc : (s.k.queues m).cyclic = true) {msg : List UInt8} {timeout : ℤ} {tm : ℕ}
    (hst : Step m s (.write msg timeout tm, r) s') (hl : (msg.length : ℤ) = (s.k.queues m).sizeOfBlock) :
    r = some ⟨.osOk, []⟩ := by
  have hw : s.written m (.write msg timeout tm) = some msg := by simp [written, writeFits, hl, hc]
  cases step_cases hst with
  | push _ _ _ hr _ _ => exact hr
  | pop hw' _ _ _ _ => rw [hw] at hw'; cases hw'
  | idle hw' _ _ _ _ _ => rw [hw] at hw'; cases hw'

/-- A step of a cyclic queue's run that is a write of a block is accepted. -/
def Accepts (m : ℕ) (s : QueueSys n) (c : QueueCall n × Option Ret) : Prop :=
  match c.1 with
  | .write msg _ _ => (msg.length : ℤ) = (s.k.queues m).sizeOfBlock → c.2 = some ⟨.osOk, []⟩
  | _ => True

theorem accepts_of_run {tr : List ((QueueCall n × Option Ret) × QueueSys n)} (h : Run.Exec (Step m) s tr)
    (hc : (s.k.queues m).cyclic = true) : Run.Guarded (Accepts m) s tr := by
  refine h.guarded_of_guarded (fun s => (s.k.queues m).cyclic = true) (fun s c s' hx _ hst => ?_)
    (fun s c s' hx _ hst => ?_) (Run.guarded_true s tr) hc
  · exact (step_cases hst).flags.1.trans hx
  · obtain ⟨c, r⟩ := c
    cases c with
    | write msg timeout tm => exact fun hl => write_cyclic hx hst hl
    | read size timeout tm => trivial
    | resume => trivial
    | expire tm => trivial
    | dispatch t p => trivial

/-- **The cyclic queue and the queue that drops its oldest message.** Writes
of a block are always accepted. The queue is the reference queue of `N`
messages along a run if and only if no message is written while `N` are
unread, and no blocked reader goes on when another one has emptied the
queue. -/
theorem reference_iff {size num start : ℤ} {flag : Word} (hi : Created m size num start flag s) (hN : num = N)
    (hcyc : (s.k.queues m).cyclic = true) {tr : List ((QueueCall n × Option Ret) × QueueSys n)}
    (h : Run.Exec (Step m) s tr) :
    Run.Guarded (Accepts m) s tr ∧
    ((∀ x ∈ Run.states s tr, Reference m N x) ↔ Run.Guarded (ReferenceSafe m N) s tr) := by
  refine ⟨accepts_of_run h hcyc, ?_⟩
  have hinit : RingOf m N s ∧ Reference m N s ∧ (s.unread m).length ≤ N := by
    refine ⟨⟨hi.ringInv, hi.blocks.trans hN⟩, ?_, by simp [hi.unread]⟩
    rw [Reference, hi.log, hi.unread]
    rfl
  refine (h.guarded_iff (fun s => RingOf m N s ∧ Reference m N s ∧ (s.unread m).length ≤ N) (fun _ hx => hx.2.1)
    (fun s c s' hx hc hst => ?_) (fun s c s' hx hc hst => ?_) hinit).symm
  · obtain ⟨c, r⟩ := c
    have hr := step_reference hx.1 hx.2.1 hc hst
    refine ⟨step_ringOf hx.1 hst, hr, ?_⟩
    -- the new contents are those of the reference queue
    cases step_cases hst with
    | push msg _ _ _ hlog _ =>
      unfold Reference at hr
      rw [hlog, refQueue_append, hx.2.1] at hr
      exact refStep_length hx.2.2 hr
    | pop _ _ _ hlog _ =>
      unfold Reference at hr
      rw [hlog, refQueue_append, hx.2.1] at hr
      exact refStep_length hx.2.2 hr
    | idle _ _ _ _ hk _ => rw [unread_idle hk]; exact hx.2.2
  · obtain ⟨c, r⟩ := c
    exact step_not_reference hx.1 hx.2.1 hx.2.2 hc hst

instance (s : QueueSys n) (c : QueueCall n × Option Ret) : Decidable (ReferenceSafe m N s c) :=
  inferInstanceAs (Decidable (_ ∧ _))

end Cyclic

/-! ### The bounds of the buffer -/

section Bounds

variable {m N : ℕ} {s s' : QueueSys n} {c : QueueCall n} {r : Option Ret}

/-- Every copy so far was inside the buffer. -/
def InBounds (m : ℕ) (s : QueueSys n) : Prop :=
  ∀ a ∈ s.k.copies, (s.k.queues m).start ≤ a.1 ∧
    a.1 + a.2 ≤ (s.k.queues m).start + (s.k.queues m).sizeOfBlock * (s.k.queues m).numOfBlocks

instance (s : QueueSys n) : Decidable (InBounds m s) := inferInstanceAs (Decidable (∀ _ ∈ _, _))

/-- Fewer than `N` messages have been written when one is written, fewer than
`N` have been taken when one is taken. -/
def CountSafe (m N : ℕ) (s : QueueSys n) (c : QueueCall n × Option Ret) : Prop :=
  (s.written m c.1 ≠ none → (accepted s.log).length < N) ∧
  (s.takes m c.1 = true → (delivered s.log).length < N)

instance (s : QueueSys n) (c : QueueCall n × Option Ret) : Decidable (CountSafe m N s c) :=
  inferInstanceAs (Decidable (_ ∧ _))

/-- The cursors have not come round yet. -/
structure FirstLap (m N : ℕ) (s : QueueSys n) : Prop where
  num : (s.k.queues m).numOfBlocks = N
  placed : (s.k.queues m).Placed (accepted s.log).length (delivered s.log).length
  inBounds : InBounds m s

/-- A block of the buffer is inside it, the slot behind the last is not. -/
theorem block_inBounds {q : MsgQueue n} {x y i : ℕ} (hp : q.Placed x y) (hN : q.numOfBlocks = N) :
    q.start ≤ q.start + q.sizeOfBlock * i ∧
    (q.start + q.sizeOfBlock * i + q.sizeOfBlock ≤ q.start + q.sizeOfBlock * q.numOfBlocks ↔ i < N) := by
  have hs := hp.size
  have h0 : 0 ≤ q.sizeOfBlock * (i : ℤ) := mul_nonneg hs.le (by omega)
  have h1 : q.sizeOfBlock * (i : ℤ) + q.sizeOfBlock = q.sizeOfBlock * (i + 1) := by ring
  refine ⟨by omega, ?_⟩
  rw [hN]
  constructor
  · intro h
    have h2 : q.sizeOfBlock * ((i : ℤ) + 1) ≤ q.sizeOfBlock * N := by omega
    have h3 := le_of_mul_le_mul_left h2 hs
    omega
  · intro h
    have h2 : q.sizeOfBlock * ((i : ℤ) + 1) ≤ q.sizeOfBlock * N := mul_le_mul_of_nonneg_left (by omega) hs.le
    omega

/-- The copies of a step, in the buffer of the queue after it. -/
theorem inBounds_append (hf : (s'.k.queues m).start = (s.k.queues m).start ∧
      (s'.k.queues m).sizeOfBlock = (s.k.queues m).sizeOfBlock ∧
      (s'.k.queues m).numOfBlocks = (s.k.queues m).numOfBlocks) {l : List (ℤ × ℤ)}
    (hc : s'.k.copies = s.k.copies ++ l) : InBounds m s' ↔ InBounds m s ∧ ∀ a ∈ l, (s.k.queues m).start ≤ a.1 ∧
      a.1 + a.2 ≤ (s.k.queues m).start + (s.k.queues m).sizeOfBlock * (s.k.queues m).numOfBlocks := by
  unfold InBounds
  rw [hf.1, hf.2.1, hf.2.2, hc]
  exact List.forall_mem_append

theorem step_firstLap (h : FirstLap m N s) (hsafe : CountSafe m N s (c, r)) (hst : Step m s (c, r) s') :
    FirstLap m N s' := by
  have heff := step_cases hst
  have hfix := heff.fixed
  have hslots : (s.k.queues m).slots = N + 1 := by rw [MsgQueue.slots, h.num]; simp
  refine ⟨hfix.2.2.trans h.num, ?_, ?_⟩
  · cases heff with
    | push msg hw ht _ hlog hk =>
      have hlt := hsafe.1 (by simp [hw])
      have hp := h.placed.pushed.of_ring hk.ring
      rw [hslots, Ring.succ, if_pos (by omega)] at hp
      rw [hlog]
      simpa using hp
    | pop hw ht _ hlog hk =>
      have hlt := hsafe.2 ht
      have hp := h.placed.popped.of_ring hk.ring
      rw [hslots, Ring.succ, if_pos (by omega)] at hp
      rw [hlog]
      simpa using hp
    | idle hw ht _ hlog hk _ =>
      rw [hlog]
      exact h.placed.of_ring hk.ring
  · cases heff with
    | push msg hw ht _ hlog hk =>
      have hlt := hsafe.1 (by simp [hw])
      have hb := block_inBounds (i := (accepted s.log).length) h.placed h.num
      rw [inBounds_append hfix hk.copies, List.forall_mem_singleton, h.placed.head]
      exact ⟨h.inBounds, hb.1, hb.2.mpr hlt⟩
    | pop hw ht _ hlog hk =>
      have hlt := hsafe.2 ht
      have hb := block_inBounds (i := (delivered s.log).length) h.placed h.num
      rw [inBounds_append hfix hk.copies, List.forall_mem_singleton, h.placed.tail]
      exact ⟨h.inBounds, hb.1, hb.2.mpr hlt⟩
    | idle hw ht _ hlog hk _ =>
      rw [inBounds_append hfix (by rw [hk.copies, List.append_nil])]
      exact ⟨h.inBounds, by simp⟩

/-- The message after the `N`th is copied behind the buffer. -/
theorem step_outOfBounds (h : FirstLap m N s) (hbreak : ¬ CountSafe m N s (c, r)) (hst : Step m s (c, r) s') :
    ¬ InBounds m s' := by
  have heff := step_cases hst
  have hfix := heff.fixed
  cases heff with
  | push msg hw ht _ hlog hk =>
    have hge : ¬ (accepted s.log).length < N := fun hlt => hbreak ⟨fun _ => hlt, by simp [ht]⟩
    have hb := block_inBounds (i := (accepted s.log).length) h.placed h.num
    rw [inBounds_append hfix hk.copies, List.forall_mem_singleton, h.placed.head]
    exact fun hin => hge (hb.2.mp hin.2.2)
  | pop hw ht _ hlog hk =>
    have hge : ¬ (delivered s.log).length < N := fun hlt => hbreak ⟨by simp [hw], fun _ => hlt⟩
    have hb := block_inBounds (i := (delivered s.log).length) h.placed h.num
    rw [inBounds_append hfix hk.copies, List.forall_mem_singleton, h.placed.tail]
    exact fun hin => hge (hb.2.mp hin.2.2)
  | idle hw ht _ hlog hk _ => exact absurd ⟨by simp [hw], by simp [ht]⟩ hbreak

end Bounds

/-! ### The queue that stops when full -/

section Stop

variable {m : ℕ} {s s' : QueueSys n} {c : QueueCall n} {r : Option Ret}

/-- A queue that is neither cyclic nor blocking; no task has a pending call. -/
structure StopInv (m : ℕ) (s : QueueSys n) : Prop where
  ring : RingInv m s
  fifo : Fifo m s
  cyclic : (s.k.queues m).cyclic = false
  block : (s.k.queues m).block = false
  readTask : (s.k.queues m).readTask = none
  writeTask : (s.k.queues m).writeTask = none
  phase : ∀ t, s.phase t = .out

theorem Created.stopInv {size num start : ℤ} {flag : Word} (h : Created m size num start flag s)
    (hc : (s.k.queues m).cyclic = false) (hb : (s.k.queues m).block = false) : StopInv m s := by
  obtain ⟨f, -, -, hq⟩ := h.queue
  exact ⟨h.ringInv, h.fifo, hc, hb, by rw [hq], by rw [hq], fun t => by rw [h.phase]⟩

/-- Such a queue refuses what does not fit. -/
theorem StopInv.fifoSafe (h : StopInv m s) (c : QueueCall n × Option Ret) : FifoSafe m s c := by
  obtain ⟨c, r⟩ := c
  cases c with
  | write msg timeout tm =>
    refine ⟨fun hw => ?_, by simp [takes]⟩
    have hf : writeFits s.k m msg.length = true := by
      by_contra hne
      simp [written, hne] at hw
    simp only [writeFits, h.cyclic, Bool.and_eq_true] at hf
    simpa using hf.2
  | read size timeout tm =>
    refine ⟨by simp [written], fun ht => ?_⟩
    simp only [takes, readTakes, Bool.and_eq_true] at ht
    simpa using ht.2
  | resume => exact ⟨by simp [written, h.phase], by simp [takes, h.phase]⟩
  | expire tm => exact ⟨by simp [written], by simp [takes]⟩
  | dispatch t p => exact ⟨by simp [written], by simp [takes]⟩

/-- No call blocks. -/
theorem StopInv.step_phase (h : StopInv m s) (hst : Step m s (c, r) s') (t : Fin n) : s'.phase t = .out := by
  have hset : (s.setPhase .out).phase t = .out := by
    by_cases ht : t = s.k.curr
    · subst ht; simp [setPhase]
    · simp [setPhase, ht, h.phase]
  obtain ⟨-, he⟩ := hst
  cases c with
  | write msg timeout tm =>
    obtain ⟨⟨r', k'⟩, h1, h2⟩ := bind_eq_ok.mp he
    obtain ⟨rfl, rfl⟩ := Prod.mk.inj (Except.ok.inj h2)
    cases r' with
    | some r' => exact hset
    | none =>
      rcases rxWriteToQueue_cases h1 with ⟨-, hr, -⟩ | ⟨-, -, hb, -⟩ | ⟨-, -, ⟨hr, -⟩ | ⟨hr, -⟩⟩
      · cases hr
      · rw [h.block] at hb; cases hb
      · cases hr
      · cases hr
  | read size timeout tm =>
    obtain ⟨⟨r', k'⟩, h1, h2⟩ := bind_eq_ok.mp he
    obtain ⟨rfl, rfl⟩ := Prod.mk.inj (Except.ok.inj h2)
    cases r' with
    | some r' => exact hset
    | none =>
      rcases rxReadFromQueue_cases h1 with ⟨-, hr, -⟩ | ⟨-, -, hb, -⟩ | ⟨-, -, ⟨hr, -⟩ | ⟨hr, -⟩ | ⟨hr, -⟩⟩
      · cases hr
      · rw [h.block] at hb; cases hb
      · cases hr
      · cases hr
      · cases hr
  | resume => simp [exec, h.phase] at he
  | expire tm =>
    obtain ⟨k', h1, h2⟩ := bind_eq_ok.mp he
    obtain ⟨rfl, rfl⟩ := Prod.mk.inj (Except.ok.inj h2)
    exact h.phase t
  | dispatch t' p =>
    obtain ⟨rfl, rfl⟩ := Prod.mk.inj (Except.ok.inj he)
    exact h.phase t

theorem step_stopInv (h : StopInv m s) (hst : Step m s (c, r) s') : StopInv m s' := by
  have heff := step_cases hst
  have htasks : (s'.k.queues m).readTask = none ∧ (s'.k.queues m).writeTask = none := by
    cases heff with
    | push _ _ _ _ _ hk => exact hk.waits h.readTask h.writeTask
    | pop _ _ _ _ hk => exact hk.waits h.readTask h.writeTask
    | idle _ _ _ _ _ hoff =>
      rw [(hoff (.inr h.block)).queues]
      exact ⟨h.readTask, h.writeTask⟩
  exact ⟨step_ringInv h.ring hst, step_fifo h.ring h.fifo (h.fifoSafe (c, r)) hst, heff.flags.1.trans h.cyclic,
    heff.flags.2.trans h.block, htasks.1, htasks.2, h.step_phase hst⟩

/-- A write of a block is refused exactly when `N` messages are unread. -/
def RefusesAt (m N : ℕ) (s : QueueSys n) (c : QueueCall n × Option Ret) : Prop :=
  match c.1 with
  | .write msg _ _ => (msg.length : ℤ) = (s.k.queues m).sizeOfBlock →
      (c.2 = some ⟨.eOsUnavail, []⟩ ↔ (accepted s.log).length = (delivered s.log).length + N)
  | _ => True

instance (N : ℕ) (s : QueueSys n) : ∀ c : QueueCall n × Option Ret, Decidable (RefusesAt m N s c)
  | (.write msg _ _, r) => inferInstanceAs (Decidable ((msg.length : ℤ) = (s.k.queues m).sizeOfBlock →
      (r = some ⟨.eOsUnavail, []⟩ ↔ (accepted s.log).length = (delivered s.log).length + N)))
  | (.read _ _ _, _) | (.resume, _) | (.expire _, _) | (.dispatch _ _, _) => inferInstanceAs (Decidable True)

/-- On the first lap no write is refused, and none is made with `N` messages
unread. -/
theorem refusesAt_firstLap {N : ℕ} (h : StopInv m s) (hl : FirstLap m N s) (hsafe : CountSafe m N s (c, r))
    (hst : Step m s (c, r) s') : RefusesAt m N s (c, r) := by
  cases c with
  | read size timeout tm => trivial
  | resume => trivial
  | expire tm => trivial
  | dispatch t p => trivial
  | write msg timeout tm =>
    intro hsize
    have hroom : (s.k.queues m).isFull = false := by
      by_contra hne
      have hfull : (s.k.queues m).isFull = true := by simpa using hne
      have hlen := (RingOf.isFull_iff (N := N) ⟨h.ring, hl.num⟩).mp hfull
      have hacc := congrArg List.length h.fifo
      have hlt := hl.placed.head_lt
      rw [MsgQueue.slots, hl.num] at hlt
      rw [List.length_append] at hacc
      simp only [Int.toNat_natCast] at hlt
      omega
    have hw : s.written m (.write msg timeout tm) = some msg := by simp [written, writeFits, hsize, hroom]
    have hlt := hsafe.1 (by simp [hw])
    refine iff_of_false ?_ (by omega)
    cases step_cases hst with
    | push _ _ _ hr _ _ => rw [hr]; simp
    | pop hw' _ _ _ _ => rw [hw] at hw'; cases hw'
    | idle hw' _ _ _ _ _ => rw [hw] at hw'; cases hw'

/-- **The bounds of the buffer.** Every copy of a run is inside the buffer
and, on a queue that is neither cyclic nor blocking, a write is refused
exactly when `N` messages are unread, if and only if no message is written
after `N` have been and none is read after `N` have been. -/
theorem inBounds_iff {size num start : ℤ} {flag : Word} {N : ℕ} (hi : Created m size num start flag s) (hN : num = N)
    {tr : List ((QueueCall n × Option Ret) × QueueSys n)} (h : Run.Exec (Step m) s tr) :
    ((∀ x ∈ Run.states s tr, InBounds m x) ∧ ((s.k.queues m).cyclic = false → (s.k.queues m).block = false →
      Run.Guarded (RefusesAt m N) s tr)) ↔ Run.Guarded (CountSafe m N) s tr := by
  have hinit : FirstLap m N s := by
    refine ⟨hi.blocks.trans hN, ?_, ?_⟩
    · rw [hi.log]
      exact hi.placed
    · rw [InBounds, hi.copies]
      simp
  have hiff := h.guarded_iff (FirstLap m N) (fun _ hx => hx.inBounds)
    (fun _ (_, _) _ hx hc hst => step_firstLap hx hc hst)
    (fun _ (_, _) _ hx hc hst => step_outOfBounds hx hc hst) hinit
  refine ⟨fun hp => hiff.mpr hp.1, fun hg => ⟨hiff.mp hg, fun hc hb => ?_⟩⟩
  refine h.guarded_of_guarded (fun x => FirstLap m N x ∧ StopInv m x) (fun _ (_, _) _ hx hc hst => ?_)
    (fun _ (_, _) _ hx hc hst => ?_) hg ⟨hinit, hi.stopInv hc hb⟩
  · exact ⟨step_firstLap hx.1 hc hst, step_stopInv hx.2 hst⟩
  · exact refusesAt_firstLap hx.2 hx.1 hc hst

/-! ### First in, first out, with refusals -/

/-- What is to be expected of a queue that stops when full. -/
structure StopOK (m : ℕ) (s : QueueSys n) : Prop where
  /-- The messages read are the first of those accepted, and the others are
  in the queue. -/
  fifo : accepted s.log = delivered s.log ++ s.unread m
  delivered : delivered s.log <+: accepted s.log
  /-- Every call returns. -/
  returnsWrite : ∀ msg timeout tm, ∃ r s', Step m s (.write msg timeout tm, some r) s'
  returnsRead : ∀ size timeout tm, ∃ r s', Step m s (.read size timeout tm, some r) s'
  /-- A read fails exactly when every accepted message has been read. -/
  read : ∀ timeout tm r s', Step m s (.read (s.k.queues m).sizeOfBlock timeout tm, r) s' →
    (r = some ⟨.eOsUnavail, []⟩ ↔ accepted s.log = Rosx.delivered s.log)
  /-- Otherwise it returns the first one that has not been read. -/
  next : ∀ timeout tm r s', Step m s (.read (s.k.queues m).sizeOfBlock timeout tm, r) s' →
    accepted s.log ≠ Rosx.delivered s.log → ∃ msg, r = some ⟨.osOk, msg⟩ ∧
      Rosx.delivered s.log ++ [msg] <+: accepted s.log
  /-- Failed calls leave the queue and the memory unchanged. -/
  failed : ∀ c r s', Step m s (c, some r) s' → r.err ≠ .osOk →
    s'.k.queues m = s.k.queues m ∧ s'.k.mem = s.k.mem ∧ s'.log = s.log

theorem StopInv.write_returns (h : StopInv m s) (msg : List UInt8) (timeout : ℤ) (tm : ℕ) :
    ∃ r s', Step m s (.write msg timeout tm, some r) s' := by
  have hq : s.k.enterCritical.queues m = s.k.queues m := rfl
  obtain ⟨r, k', hrun⟩ : ∃ r k', rxWriteToQueue s.k (some m) (some msg) msg.length timeout tm = .ok (some r, k') := by
    unfold rxWriteToQueue
    simp only [hq]
    by_cases hsize : (msg.length : ℤ) ≠ (s.k.queues m).sizeOfBlock
    · exact ⟨_, _, if_pos hsize⟩
    by_cases hfull : ((s.k.queues m).isFull && !(s.k.queues m).cyclic) = true
    · rw [if_neg hsize, if_pos hfull, if_neg (by simp [h.block])]
      exact ⟨_, _, rfl⟩
    · obtain ⟨r, k', hc⟩ := writeCopy_returns (k := s.k.enterCritical) (m := m) h.readTask msg
      rw [if_neg hsize, if_neg hfull, hc]
      exact ⟨_, _, rfl⟩
  exact ⟨r, s.afterWrite msg (timeout ≠ 0) k' (some r), h.phase _, by
    simp only [exec, hrun, bind, Except.bind, pure, Except.pure]⟩

theorem StopInv.read_returns (h : StopInv m s) (size timeout : ℤ) (tm : ℕ) :
    ∃ r s', Step m s (.read size timeout tm, some r) s' := by
  have hq : s.k.enterCritical.queues m = s.k.queues m := rfl
  obtain ⟨r, k', hrun⟩ : ∃ r k', rxReadFromQueue s.k (some m) true size timeout tm = .ok (some r, k') := by
    unfold rxReadFromQueue
    simp only [hq]
    by_cases hsize : true = false ∨ size ≠ (s.k.queues m).sizeOfBlock
    · exact ⟨_, _, if_pos hsize⟩
    rw [if_neg hsize, if_neg (by simp [h.readTask])]
    by_cases hempty : (s.k.queues m).isEmpty = true
    · rw [if_pos hempty, if_neg (by simp [h.block])]
      exact ⟨_, _, rfl⟩
    · obtain ⟨r, k', hc⟩ := readCopy_returns (k := s.k.enterCritical) (m := m) h.writeTask
      rw [if_neg hempty, hc]
      exact ⟨_, _, rfl⟩
  exact ⟨r, s.afterRead (timeout ≠ 0) k' (some r), h.phase _, by
    simp only [exec, hrun, bind, Except.bind, pure, Except.pure]⟩

/-- A read of a block, on a queue nobody waits at. -/
theorem StopInv.read_cases (h : StopInv m s) {timeout : ℤ} {tm : ℕ}
    (hst : Step m s (.read (s.k.queues m).sizeOfBlock timeout tm, r) s') :
    (s.unread m = [] ∧ r = some ⟨.eOsUnavail, []⟩) ∨
    ∃ msg l, s.unread m = msg :: l ∧ r = some ⟨.osOk, msg⟩ := by
  cases hempty : (s.k.queues m).isEmpty with
  | true =>
    left
    refine ⟨(unread_of_empty h.ring).mp hempty, ?_⟩
    obtain ⟨⟨r', k'⟩, h1, h2⟩ := bind_eq_ok.mp hst.2
    obtain ⟨rfl, -⟩ := Prod.mk.inj (Except.ok.inj h2)
    rcases rxReadFromQueue_cases h1 with ⟨hf, -⟩ | ⟨-, -, hb, -⟩ | ⟨-, -, ⟨-, hne⟩ | ⟨-, hbusy⟩ | ⟨rfl, -⟩⟩
    · simp [readTakes, hempty] at hf
    · rw [h.block] at hb; cases hb
    · exact absurd rfl hne
    · rw [h.readTask] at hbusy; cases hbusy
    · rfl
  | false =>
    right
    have ht : s.takes m (.read (s.k.queues m).sizeOfBlock timeout tm) = true := by
      simp [takes, readTakes, h.readTask, hempty]
    cases step_cases hst with
    | push _ _ ht' _ _ _ => rw [ht] at ht'; cases ht'
    | pop _ _ hr _ hk => exact ⟨_, _, unread_pop h.ring hk hempty, hr⟩
    | idle _ ht' _ _ _ _ => rw [ht] at ht'; cases ht'

theorem StopInv.stopOK (h : StopInv m s) : StopOK m s := by
  have hall : accepted s.log = Rosx.delivered s.log ↔ s.unread m = [] := by
    rw [h.fifo]
    exact List.append_right_eq_self
  refine ⟨h.fifo, ⟨s.unread m, h.fifo.symm⟩, h.write_returns, h.read_returns, fun timeout tm r s' hst => ?_,
    fun timeout tm r s' hst hne => ?_, fun c r s' hst herr => ?_⟩
  · rw [hall]
    rcases h.read_cases hst with ⟨hu, rfl⟩ | ⟨msg, l, hu, rfl⟩
    · exact iff_of_true rfl hu
    · exact iff_of_false (by simp) (by simp [hu])
  · rcases h.read_cases hst with ⟨hu, -⟩ | ⟨msg, l, hu, rfl⟩
    · exact absurd (hall.mpr hu) hne
    · refine ⟨msg, rfl, l, ?_⟩
      rw [h.fifo, hu, List.append_assoc]
      rfl
  · cases step_cases hst with
    | push _ _ _ hr _ _ => exact absurd (congrArg (·.err) (Option.some.inj hr)) herr
    | pop _ _ hr _ _ => exact absurd (congrArg (·.err) (Option.some.inj hr)) herr
    | idle _ _ _ hlog _ hoff =>
      have hk := hoff (.inl (by simp))
      exact ⟨by rw [hk.queues], hk.mem, hlog⟩

/-- **A queue that stops when full.** In every state of every run of a queue
created with neither `RX_Q_CYCLIC_FULL` nor `RX_Q_BLOCK` the reads have
returned the first of the accepted messages in order, a read fails exactly
when all have been read, and failed calls change nothing. -/
theorem stopOK_of_run {size num start : ℤ} {flag : Word} (hi : Created m size num start flag s)
    (hc : (s.k.queues m).cyclic = false) (hb : (s.k.queues m).block = false)
    {tr : List ((QueueCall n × Option Ret) × QueueSys n)} (h : Run.Exec (Step m) s tr) :
    ∀ x ∈ Run.states s tr, StopOK m x := fun x hx =>
  (h.invariant (StopInv m) (fun _ (_, _) _ hi hst => step_stopInv hi hst) (hi.stopInv hc hb) x hx).stopOK

end Stop

/-- One task and a new queue of two one-byte blocks. -/
def newQueue (flag : Word) : QueueSys 1 where
  k := (rxCreateQueue { tcb := fun _ => { state := .running }, curr := 0, readyHead := some 0 } 0 1 2 100 flag).2
  phase := fun _ => .out
  log := []

theorem newQueue_created (flag : Word) : Created 0 1 2 100 flag (newQueue flag) where
  create := ⟨_, rfl, rfl⟩
  phase := rfl
  log := rfl
  copies := rfl

theorem reference_shortRun : Created 0 1 2 100 rxQCyclicFull (newQueue rxQCyclicFull) ∧ ∃ tr,
    Run.Exec (Step 0) (newQueue rxQCyclicFull) tr ∧ tr.length = 7 ∧
    ∀ x ∈ Run.states (newQueue rxQCyclicFull) tr, Reference 0 2 x := by
  refine ⟨newQueue_created _, ?_⟩
  obtain ⟨tr, hex, hp⟩ := Run.exists_exec (f := Run.attempt Admissible (exec 0)) (fun _ _ _ => Run.step_of_attempt)
    (s := newQueue rxQCyclicFull)
    [(.write [1] 0 0, some ⟨.osOk, []⟩), (.write [2] 0 0, some ⟨.osOk, []⟩), (.read 1 0 0, some ⟨.osOk, [1]⟩),
      (.write [3] 0 0, some ⟨.osOk, []⟩), (.read 1 0 0, some ⟨.osOk, [2]⟩), (.read 1 0 0, some ⟨.osOk, [3]⟩),
      (.read 1 0 0, some ⟨.eOsUnavail, []⟩)]
    (fun tr => decide (tr.length = 7 ∧ Run.Guarded (ReferenceSafe 0 2) (newQueue rxQCyclicFull) tr)) (by decide +kernel)
  obtain ⟨hlen, hg⟩ := of_decide_eq_true hp
  exact ⟨tr, hex, hlen, ((reference_iff (newQueue_created _) rfl (by decide) hex).2).mpr hg⟩

/-- Three messages to two blocks, and a read: the queue returns the first
message, which the reference queue has dropped. A fourth write instead of the
read leaves its own message alone. -/
theorem cyclic_queue_keeps_oldest : Created 0 1 2 100 rxQCyclicFull (newQueue rxQCyclicFull) ∧
    (∃ tr, Run.Exec (Step 0) (newQueue rxQCyclicFull) tr ∧
      (Run.final (newQueue rxQCyclicFull) tr).log = [.wrote [1], .wrote [2], .wrote [3], .got [1]] ∧
      refQueue 2 (Run.final (newQueue rxQCyclicFull) tr).log = none) ∧
    ∃ tr, Run.Exec (Step 0) (newQueue rxQCyclicFull) tr ∧
      (Run.final (newQueue rxQCyclicFull) tr).unread 0 = [[4]] ∧
      refQueue 2 (Run.final (newQueue rxQCyclicFull) tr).log = some [[3], [4]] := by
  refine ⟨newQueue_created _, ?_, ?_⟩
  · obtain ⟨tr, hex, hp⟩ := Run.exists_exec (f := Run.attempt Admissible (exec 0)) (fun _ _ _ => Run.step_of_attempt)
      (s := newQueue rxQCyclicFull)
      [(.write [1] 0 0, some ⟨.osOk, []⟩), (.write [2] 0 0, some ⟨.osOk, []⟩), (.write [3] 0 0, some ⟨.osOk, []⟩),
        (.read 1 0 0, some ⟨.osOk, [1]⟩)]
      (fun tr => decide ((Run.final (newQueue rxQCyclicFull) tr).log =
        [.wrote [1], .wrote [2], .wrote [3], .got [1]] ∧
        refQueue 2 (Run.final (newQueue rxQCyclicFull) tr).log = none)) (by decide +kernel)
    exact ⟨tr, hex, of_decide_eq_true hp⟩
  · obtain ⟨tr, hex, hp⟩ := Run.exists_exec (f := Run.attempt Admissible (exec 0)) (fun _ _ _ => Run.step_of_attempt)
      (s := newQueue rxQCyclicFull)
      [(.write [1] 0 0, some ⟨.osOk, []⟩), (.write [2] 0 0, some ⟨.osOk, []⟩), (.write [3] 0 0, some ⟨.osOk, []⟩),
        (.write [4] 0 0, some ⟨.osOk, []⟩)]
      (fun tr => decide ((Run.final (newQueue rxQCyclicFull) tr).unread 0 = [[4]] ∧
        refQueue 2 (Run.final (newQueue rxQCyclicFull) tr).log = some [[3], [4]])) (by decide +kernel)
    exact ⟨tr, hex, of_decide_eq_true hp⟩

theorem inBounds_firstLap : Created 0 1 2 100 0#32 (newQueue 0#32) ∧ ∃ tr,
    Run.Exec (Step 0) (newQueue 0#32) tr ∧ tr.length = 5 ∧ (∀ x ∈ Run.states (newQueue 0#32) tr, InBounds 0 x) ∧
    Run.Guarded (RefusesAt 0 2) (newQueue 0#32) tr := by
  refine ⟨newQueue_created _, ?_⟩
  obtain ⟨tr, hex, hp⟩ := Run.exists_exec (f := Run.attempt Admissible (exec 0)) (fun _ _ _ => Run.step_of_attempt)
    (s := newQueue 0#32)
    [(.write [1] 0 0, some ⟨.osOk, []⟩), (.write [2] 0 0, some ⟨.osOk, []⟩), (.read 1 0 0, some ⟨.osOk, [1]⟩),
      (.read 1 0 0, some ⟨.osOk, [2]⟩), (.read 1 0 0, some ⟨.eOsUnavail, []⟩)]
    (fun tr => decide (tr.length = 5 ∧ Run.Guarded (CountSafe 0 2) (newQueue 0#32) tr)) (by decide +kernel)
  obtain ⟨hlen, hg⟩ := of_decide_eq_true hp
  have hall := (inBounds_iff (newQueue_created 0#32) rfl hex).mpr hg
  exact ⟨tr, hex, hlen, hall.1, hall.2 (by decide) (by decide)⟩

/-- A third message to two blocks is accepted, and copied to the byte behind
the buffer. -/
theorem third_message_outOfBounds : Created 0 1 2 100 0#32 (newQueue 0#32) ∧ ∃ tr,
    Run.Exec (Step 0) (newQueue 0#32) tr ∧
    (Run.final (newQueue 0#32) tr).log = [.wrote [1], .wrote [2], .wrote [3]] ∧
    (Run.final (newQueue 0#32) tr).k.copies = [(100, 1), (101, 1), (102, 1)] ∧
    ¬ InBounds 0 (Run.final (newQueue 0#32) tr) ∧ ¬ Run.Guarded (RefusesAt 0 2) (newQueue 0#32) tr := by
  refine ⟨newQueue_created _, ?_⟩
  obtain ⟨tr, hex, hp⟩ := Run.exists_exec (f := Run.attempt Admissible (exec 0)) (fun _ _ _ => Run.step_of_attempt)
    (s := newQueue 0#32)
    [(.write [1] 0 0, some ⟨.osOk, []⟩), (.write [2] 0 0, some ⟨.osOk, []⟩), (.write [3] 0 0, some ⟨.osOk, []⟩)]
    (fun tr => decide ((Run.final (newQueue 0#32) tr).log = [.wrote [1], .wrote [2], .wrote [3]] ∧
      (Run.final (newQueue 0#32) tr).k.copies = [(100, 1), (101, 1), (102, 1)] ∧
      ¬ InBounds 0 (Run.final (newQueue 0#32) tr) ∧ ¬ Run.Guarded (RefusesAt 0 2) (newQueue 0#32) tr))
    (by decide +kernel)
  exact ⟨tr, hex, of_decide_eq_true hp⟩

theorem stopOK_fullRun : Created 0 1 2 100 0#32 (newQueue 0#32) ∧ ∃ tr, Run.Exec (Step 0) (newQueue 0#32) tr ∧
    tr.length = 6 ∧ ∀ x ∈ Run.states (newQueue 0#32) tr, StopOK 0 x := by
  refine ⟨newQueue_created _, ?_⟩
  obtain ⟨tr, hex, hp⟩ := Run.exists_exec (f := Run.attempt Admissible (exec 0)) (fun _ _ _ => Run.step_of_attempt)
    (s := newQueue 0#32)
    [(.write [1] 0 0, some ⟨.osOk, []⟩), (.write [2] 0 0, some ⟨.osOk, []⟩), (.write [3] 0 0, some ⟨.osOk, []⟩),
      (.write [4] 0 0, some ⟨.eOsUnavail, []⟩), (.read 1 0 0, some ⟨.osOk, [1]⟩), (.write [5] 0 0, some ⟨.osOk, []⟩)]
    (fun tr => decide (tr.length = 6)) (by decide +kernel)
  exact ⟨tr, hex, of_decide_eq_true hp, stopOK_of_run (newQueue_created 0#32) (by decide) (by decide) hex⟩

end QueueSys

end Rosx
