/-
# Queues that are created over old contents

`rx_create_queue` sets all of a control block but its flag: it keeps the old
bits and adds those of its argument (`mq->flag |= ...`). The calls read three
bits of the flag. They commute with clearing the others (`exec_maskFlag`), so
that two queues that agree on the three return the same in every run
(`results_maskFlag`). That each of the three shows is told by short runs: a
read of the empty queue (`fresh_results_read`), and one write more than the
queue has room for (`fresh_results_fill`).

Key definitions: `QueueSys.fresh`, `QueueSys.QueueIndependent`, `Kernel.maskFlag`.
Key theorem: `queueFresh_iff`.
-/
import Rosx.QueueRun
import Rosx.Lib.Results

namespace Rosx

open Linked Run

variable {n : ℕ}

/-! ### The calls that leave the queues alone -/

/-- The kernel with other message queues. -/
def Kernel.mapQueues (g : (ℕ → MsgQueue n) → ℕ → MsgQueue n) (k : Kernel n) : Kernel n :=
  { k with queues := g k.queues }

section MapQueues

variable (g : (ℕ → MsgQueue n) → ℕ → MsgQueue n) (k : Kernel n)

theorem addLoop_mapQueues (new : Fin n) (prio : ℤ) (f : ℕ) (prev start : Option (Fin n)) :
    addLoop (k.mapQueues g) new prio f prev start = (addLoop k new prio f prev start).map (Kernel.mapQueues g) := by
  induction f generalizing prev start with
  | zero => rfl
  | succ f ih =>
    cases start with
    | none => cases prev <;> rfl
    | some t =>
      unfold addLoop
      show (if (k.tcb t).prio ≥ prio then if (k.tcb t).prio = prio then _ else if some t = k.readyHead then _ else _
        else _) = _
      split_ifs with h1 h2 h3
      · rw [show ((k.mapQueues g).tcb t).next = (k.tcb t).next from rfl]
        cases (k.tcb t).next with
        | none => rfl
        | some nx =>
          show (if (k.tcb nx).prio ≠ prio then _ else _) = _
          dsimp only
          split_ifs
          · rfl
          · exact ih _ _
      · rfl
      · cases prev <;> rfl
      · exact ih _ _

theorem removeLoop_mapQueues (rmv : Fin n) (f : ℕ) (prev start : Option (Fin n)) :
    removeLoop (k.mapQueues g) rmv f prev start = (removeLoop k rmv f prev start).map (Kernel.mapQueues g) := by
  induction f generalizing prev start with
  | zero => rfl
  | succ f ih =>
    cases start with
    | none => cases prev <;> rfl
    | some t =>
      unfold removeLoop
      show (if t = rmv then if some t = k.readyHead then _ else _ else _) = _
      split_ifs
      · rfl
      · cases prev <;> rfl
      · exact ih _ _

theorem rxAddToReadyQ_mapQueues (t : Fin n) :
    rxAddToReadyQ (k.mapQueues g) t = (rxAddToReadyQ k t).map (Prod.map id (Kernel.mapQueues g)) := by
  unfold rxAddToReadyQ
  show (if !(k.tcb t).state.runnable then _ else _) = _
  split_ifs
  · rfl
  · set k1 := (k.setNext t none).enterCritical with hk1
    have hk1' : ((k.mapQueues g).setNext t none).enterCritical = k1.mapQueues g := rfl
    dsimp only
    rw [hk1', show (k1.mapQueues g).readyHead = k.readyHead from rfl, show k1.readyHead = k.readyHead from rfl]
    cases k.readyHead with
    | none => rfl
    | some start =>
      refine bind_natural (addLoop_mapQueues g k1 t _ (n + 1) none (some start)) fun k2 => ?_
      show Except.ok (OsErr.osOk, (if some k2.curr ≠ k2.readyHead then _ else k2.mapQueues g).exitCritical) = _
      split_ifs <;> rfl

theorem rxRemoveFromReadyQ_mapQueues (t : Fin n) :
    rxRemoveFromReadyQ (k.mapQueues g) t = (rxRemoveFromReadyQ k t).map (Kernel.mapQueues g) :=
  bind_natural (removeLoop_mapQueues g k.enterCritical t (n + 1) none k.readyHead) fun _ => rfl

theorem rxSwitchTo_mapQueues : rxSwitchTo (k.mapQueues g) = (rxSwitchTo k).map (Kernel.mapQueues g) := by
  unfold rxSwitchTo
  rw [show (k.mapQueues g).readyHead = k.readyHead from rfl]
  cases k.readyHead <;> rfl

theorem rxSched_mapQueues : rxSched (k.mapQueues g) = (rxSched k).map (Kernel.mapQueues g) := by
  unfold rxSched
  show (if some k.curr ≠ k.readyHead then _ else _) = _
  split_ifs
  · exact rxSwitchTo_mapQueues g { k with needResched := false }.enterCritical
  · rfl

theorem appendWaiter_mapQueues (head : Option (Fin n)) (t : Fin n) :
    appendWaiter (k.mapQueues g) head t = (appendWaiter k head t).map (Prod.map id (Kernel.mapQueues g)) := by
  unfold appendWaiter
  cases head with
  | none => rfl
  | some h =>
    show (lastNode k.next n h >>= _) =
      (lastNode k.next n h >>= fun last => pure (some h, k.setNext last (some t))).map _
    cases lastNode k.next n h <;> rfl

theorem dropTimer_mapQueues (t : Fin n) : dropTimer (k.mapQueues g) t = (dropTimer k t).mapQueues g := by
  unfold dropTimer
  rw [show ((k.mapQueues g).tcb t).timer = (k.tcb t).timer from rfl]
  cases (k.tcb t).timer <;> rfl

theorem rxAddTimer_mapQueues (tm : ℕ) (delay : Word) (t : Fin n) :
    (k.mapQueues g).rxAddTimer tm delay t = (k.rxAddTimer tm delay t).map (Kernel.mapQueues g) :=
  bind_natural (rxRemoveFromReadyQ_mapQueues g
    (((k.setSleepTimer tm delay t).rxAddToActiveTimerList tm).modTcb t fun c =>
      { c with timer := some tm, state := .suspend }) t) fun k' => rxSched_mapQueues g k'

theorem expireSleeper_mapQueues (tm : ℕ) :
    expireSleeper (k.mapQueues g) tm = (expireSleeper k tm).map (Kernel.mapQueues g) := by
  unfold expireSleeper
  rw [show (k.mapQueues g).timers = k.timers from rfl]
  cases (k.timers tm).handler with
  | some hd => rfl
  | none =>
    cases (k.timers tm).task with
    | none => rfl
    | some t => exact bind_natural (rxAddToReadyQ_mapQueues g (k.enterCritical.setState t .ready) t) fun _ => rfl

theorem dispatch_mapQueues (t : Fin n) (p : Bool) : (k.mapQueues g).dispatch t p = (k.dispatch t p).mapQueues g := by
  cases p <;> rfl

end MapQueues

/-! ### The calls read three bits of the flag -/

/-- The bits of the flag that are read. -/
def usedBits : Word := rxQueueFull ||| rxQCyclicFull ||| rxQBlock

namespace MsgQueue

/-- The control block without the other bits. -/
def masked (q : MsgQueue n) : MsgQueue n := { q with flag := q.flag &&& usedBits }

variable (q : MsgQueue n)

theorem masked_flag_and {b : Word} (hb : usedBits &&& b = b) : q.masked.flag &&& b = q.flag &&& b := by
  show q.flag &&& usedBits &&& b = q.flag &&& b
  rw [BitVec.and_assoc, hb]

@[simp] theorem fullBit_masked : q.masked.fullBit = q.fullBit := by
  simp only [fullBit, masked_flag_and q (b := rxQueueFull) rfl]

@[simp] theorem cyclic_masked : q.masked.cyclic = q.cyclic := by
  simp only [cyclic, masked_flag_and q (b := rxQCyclicFull) rfl]

@[simp] theorem block_masked : q.masked.block = q.block := by
  simp only [block, masked_flag_and q (b := rxQBlock) rfl]

@[simp] theorem isEmpty_masked : q.masked.isEmpty = q.isEmpty := by
  rw [isEmpty, isEmpty, fullBit_masked]
  rfl

@[simp] theorem isFull_masked : q.masked.isFull = q.isFull := by
  rw [isFull, isFull, fullBit_masked]
  rfl

theorem pushed_masked : q.masked.pushed = q.pushed.masked := by
  have hflag : (if q.rollOver q.head = q.tail then q.flag &&& usedBits ||| rxQueueFull else q.flag &&& usedBits) =
      (if q.rollOver q.head = q.tail then q.flag ||| rxQueueFull else q.flag) &&& usedBits := by
    split_ifs
    · rw [BitVec.and_comm (q.flag ||| rxQueueFull), BitVec.and_or_distrib_left, BitVec.and_comm usedBits]
      rfl
    · rfl
  exact congrArg (fun f => { q with head := q.rollOver q.head, flag := f }) hflag

theorem popped_masked : q.masked.popped = q.popped.masked := by
  have hflag : (if q.head = q.rollOver q.tail then q.flag &&& usedBits &&& rxQueueEmpty else q.flag &&& usedBits) =
      (if q.head = q.rollOver q.tail then q.flag &&& rxQueueEmpty else q.flag) &&& usedBits := by
    split_ifs
    · rw [BitVec.and_assoc, BitVec.and_comm usedBits, BitVec.and_assoc]
    · rfl
  exact congrArg (fun f => { q with tail := q.rollOver q.tail, flag := f }) hflag

end MsgQueue

/-- The queues with queue `m` masked. -/
def maskAt (m : ℕ) (qs : ℕ → MsgQueue n) : ℕ → MsgQueue n := Function.update qs m (qs m).masked

/-- The kernel without the other bits of the flag of queue `m`. -/
def Kernel.maskFlag (m : ℕ) : Kernel n → Kernel n := Kernel.mapQueues (maskAt m)

section MaskFlag

variable (m : ℕ) (k : Kernel n)

@[simp] theorem maskFlag_queues : (k.maskFlag m).queues m = (k.queues m).masked := by
  simp [Kernel.maskFlag, Kernel.mapQueues, maskAt]

theorem setQueue_maskFlag (c : MsgQueue n) : (k.maskFlag m).setQueue m c.masked = (k.setQueue m c).maskFlag m := by
  simp [Kernel.maskFlag, Kernel.mapQueues, maskAt, Kernel.setQueue]

theorem dropTimer_modTcb_maskFlag (t : Fin n) (f : Tcb n → Tcb n) :
    (dropTimer (k.maskFlag m) t).modTcb t f = ((dropTimer k t).modTcb t f).maskFlag m := by
  rw [Kernel.maskFlag, dropTimer_mapQueues]
  rfl

theorem wakeWriter_maskFlag : wakeWriter (k.maskFlag m) m = (wakeWriter k m).map (Kernel.maskFlag m) := by
  unfold wakeWriter
  rw [maskFlag_queues, show (k.queues m).masked.writeTask = (k.queues m).writeTask from rfl]
  cases (k.queues m).writeTask with
  | none => rfl
  | some t =>
    dsimp only
    rw [dropTimer_modTcb_maskFlag, maskFlag_queues]
    set k1 := (dropTimer k t).modTcb t fun c => { c with state := .ready, mq := none }
    have h2 : (k1.maskFlag m).setQueue m { (k1.queues m).masked with writeTask := ((k1.maskFlag m).tcb t).next } =
        (k1.setQueue m { k1.queues m with writeTask := (k1.tcb t).next }).maskFlag m :=
      setQueue_maskFlag m k1 { k1.queues m with writeTask := (k1.tcb t).next }
    rw [h2]
    exact bind_natural (rxAddToReadyQ_mapQueues (maskAt m) _ t) fun _ => rfl

theorem wakeReader_maskFlag : wakeReader (k.maskFlag m) m = (wakeReader k m).map (Kernel.maskFlag m) := by
  unfold wakeReader
  rw [maskFlag_queues, show (k.queues m).masked.readTask = (k.queues m).readTask from rfl]
  cases (k.queues m).readTask with
  | none => rfl
  | some t =>
    dsimp only
    rw [dropTimer_modTcb_maskFlag]
    refine bind_natural (rxAddToReadyQ_mapQueues (maskAt m) _ t) fun x => ?_
    obtain ⟨r, k2⟩ := x
    show Except.ok ((k2.maskFlag m).setQueue m { (k2.maskFlag m).queues m with readTask := none }) = _
    rw [maskFlag_queues]
    exact congrArg Except.ok (setQueue_maskFlag m k2 { k2.queues m with readTask := none })

theorem readCopy_maskFlag : readCopy (k.maskFlag m) m = (readCopy k m).map (Prod.map id (Kernel.maskFlag m)) := by
  set k1 := (k.copyOut (k.queues m).tail (k.queues m).sizeOfBlock).2 with hk1
  have h1 : ((k.maskFlag m).copyOut (k.queues m).tail (k.queues m).sizeOfBlock).2.setQueue m
      (k.queues m).masked.popped = (k1.setQueue m (k.queues m).popped).maskFlag m := by
    rw [MsgQueue.popped_masked]
    exact setQueue_maskFlag m k1 (k.queues m).popped
  have h2 := (congrArg (wakeWriter · m) h1).trans (wakeWriter_maskFlag m _)
  unfold readCopy
  rw [maskFlag_queues]
  exact bind_natural h2 fun _ => rfl

theorem writeCopy_maskFlag (msg : List UInt8) :
    writeCopy (k.maskFlag m) m msg = (writeCopy k m msg).map (Prod.map id (Kernel.maskFlag m)) := by
  set k1 := k.copyIn (k.queues m).head msg (k.queues m).sizeOfBlock with hk1
  have h1 : ((k.maskFlag m).copyIn (k.queues m).head msg (k.queues m).sizeOfBlock).setQueue m
      (k.queues m).masked.pushed = (k1.setQueue m (k.queues m).pushed).maskFlag m := by
    rw [MsgQueue.pushed_masked]
    exact setQueue_maskFlag m k1 (k.queues m).pushed
  have h2 := (congrArg (wakeReader · m) h1).trans (wakeReader_maskFlag m _)
  unfold writeCopy
  rw [maskFlag_queues]
  exact bind_natural h2 fun _ => rfl

theorem blockReader_maskFlag (timeout : ℤ) (tm : ℕ) :
    blockReader (k.maskFlag m) m timeout tm = (blockReader k m timeout tm).map (Kernel.maskFlag m) := by
  set k1 := k.setQueue m { k.queues m with readTask := some k.curr } with hk1
  have h1 : (k.maskFlag m).setQueue m { (k.maskFlag m).queues m with readTask := some k.curr } = k1.maskFlag m := by
    rw [maskFlag_queues]
    exact setQueue_maskFlag m k { k.queues m with readTask := some k.curr }
  by_cases h0 : timeout = 0
  · have h2 : (k.maskFlag m).curr = k.curr := rfl
    simp only [blockReader, if_pos h0]
    rw [h2, h1]
    exact bind_natural (rxRemoveFromReadyQ_mapQueues (maskAt m) (k1.modTcb k.curr fun c => { c with
      state := .suspend, err := .osOk }) k.curr) fun k2 => rxSched_mapQueues (maskAt m) k2.exitCritical
  · have h2 : (k.maskFlag m).curr = k.curr := rfl
    simp only [blockReader, if_neg h0]
    rw [h2, h1]
    exact rxAddTimer_mapQueues (maskAt m) k1.exitCritical tm _ k.curr

theorem blockWriter_maskFlag (timeout : ℤ) (tm : ℕ) :
    blockWriter (k.maskFlag m) m timeout tm = (blockWriter k m timeout tm).map (Kernel.maskFlag m) := by
  unfold blockWriter
  refine bind_natural (rxRemoveFromReadyQ_mapQueues (maskAt m) (k.modTcb k.curr fun c => { c with
    state := .suspend, err := .osOk }) k.curr) fun k1 => ?_
  have h1 : appendWaiter (k1.maskFlag m) ((k1.maskFlag m).queues m).writeTask k.curr =
      (appendWaiter k1 (k1.queues m).writeTask k.curr).map (Prod.map id (Kernel.maskFlag m)) := by
    rw [maskFlag_queues]
    exact appendWaiter_mapQueues (maskAt m) k1 _ k.curr
  refine bind_natural h1 fun x => ?_
  obtain ⟨head, k2⟩ := x
  set k3 := k2.setQueue m { k2.queues m with writeTask := head } with hk3
  have h2 : (k2.maskFlag m).setQueue m { (k2.maskFlag m).queues m with writeTask := head } = k3.maskFlag m := by
    rw [maskFlag_queues]
    exact setQueue_maskFlag m k2 { k2.queues m with writeTask := head }
  dsimp only [Prod.map_apply, id_eq]
  rw [h2]
  by_cases h0 : timeout = 0
  · simp only [if_pos h0]
    exact rxSched_mapQueues (maskAt m) k3.exitCritical
  · simp only [if_neg h0]
    exact rxAddTimer_mapQueues (maskAt m) k3.exitCritical tm _ k.curr

theorem rxReadFromQueue_maskFlag (size timeout : ℤ) (tm : ℕ) :
    rxReadFromQueue (k.maskFlag m) (some m) true size timeout tm =
      (rxReadFromQueue k (some m) true size timeout tm).map (Prod.map id (Kernel.maskFlag m)) := by
  have hq : ((k.maskFlag m).enterCritical.queues m) = (k.enterCritical.queues m).masked := maskFlag_queues m k
  have hk : (k.maskFlag m).enterCritical = k.enterCritical.maskFlag m := rfl
  unfold rxReadFromQueue
  simp only [Bool.true_eq_false, false_or]
  rw [hq, maskFlag_queues, MsgQueue.isEmpty_masked, MsgQueue.block_masked, hk]
  show (if size ≠ (k.queues m).sizeOfBlock then _ else
    if (k.enterCritical.queues m).readTask.isSome then _ else _) = _
  split_ifs
  · rfl
  · rfl
  · exact map_natural (blockReader_maskFlag m k.enterCritical timeout tm) fun _ => rfl
  · rfl
  · exact map_natural (readCopy_maskFlag m k.enterCritical) fun _ => rfl

theorem rxWriteToQueue_maskFlag (msg : List UInt8) (size timeout : ℤ) (tm : ℕ) :
    rxWriteToQueue (k.maskFlag m) (some m) (some msg) size timeout tm =
      (rxWriteToQueue k (some m) (some msg) size timeout tm).map (Prod.map id (Kernel.maskFlag m)) := by
  have hq : ((k.maskFlag m).enterCritical.queues m) = (k.enterCritical.queues m).masked := maskFlag_queues m k
  have hk : (k.maskFlag m).enterCritical = k.enterCritical.maskFlag m := rfl
  unfold rxWriteToQueue
  dsimp only
  rw [hq, maskFlag_queues, MsgQueue.isFull_masked, MsgQueue.cyclic_masked, MsgQueue.block_masked, hk]
  show (if size ≠ (k.queues m).sizeOfBlock then _ else _) = _
  split_ifs
  · rfl
  · exact map_natural (blockWriter_maskFlag m k.enterCritical timeout tm) fun _ => rfl
  · rfl
  · exact map_natural (writeCopy_maskFlag m k.enterCritical msg) fun _ => rfl

theorem rxReadFromQueueResume_maskFlag (timed : Bool) : rxReadFromQueueResume (k.maskFlag m) m timed =
    (rxReadFromQueueResume k m timed).map (Prod.map id (Kernel.maskFlag m)) := by
  have hk : (k.maskFlag m).enterCritical = k.enterCritical.maskFlag m := rfl
  unfold rxReadFromQueueResume
  dsimp only
  rw [hk, maskFlag_queues, MsgQueue.isEmpty_masked]
  show (if timed = true then _ else if (k.enterCritical.tcb k.enterCritical.curr).err ≠ .osOk then _ else _) = _
  split_ifs
  · rfl
  · exact readCopy_maskFlag m k.enterCritical
  · rfl
  · exact readCopy_maskFlag m k.enterCritical

theorem rxWriteToQueueResume_maskFlag (msg : List UInt8) (timed : Bool) :
    rxWriteToQueueResume (k.maskFlag m) m msg timed =
      (rxWriteToQueueResume k m msg timed).map (Prod.map id (Kernel.maskFlag m)) := by
  have hk : (k.maskFlag m).enterCritical = k.enterCritical.maskFlag m := rfl
  unfold rxWriteToQueueResume
  dsimp only
  rw [hk, maskFlag_queues, MsgQueue.isFull_masked]
  show (if timed = true then _ else if (k.enterCritical.tcb k.enterCritical.curr).err ≠ .osOk then _ else _) = _
  split_ifs
  · rfl
  · exact writeCopy_maskFlag m k.enterCritical msg
  · rfl
  · exact writeCopy_maskFlag m k.enterCritical msg

end MaskFlag

namespace QueueSys

section Runs

variable {m : ℕ} {s s' : QueueSys n}

/-- The system without the other bits of the flag of queue `m`. -/
def maskFlag (m : ℕ) (s : QueueSys n) : QueueSys n := { s with k := s.k.maskFlag m }

theorem admissible_maskFlag (s : QueueSys n) (c : QueueCall n) : (s.maskFlag m).Admissible c ↔ s.Admissible c := by
  cases c <;> rfl

theorem exec_maskFlag (s : QueueSys n) (c : QueueCall n) :
    exec m (s.maskFlag m) c = (exec m s c).map (Prod.map id (maskFlag m)) := by
  cases c with
  | write msg timeout tm =>
    refine bind_natural (rxWriteToQueue_maskFlag m s.k msg msg.length timeout tm) fun x => ?_
    obtain ⟨r, k⟩ := x
    cases r <;> rfl
  | read size timeout tm =>
    refine bind_natural (rxReadFromQueue_maskFlag m s.k size timeout tm) fun x => ?_
    obtain ⟨r, k⟩ := x
    cases r <;> rfl
  | resume =>
    unfold exec
    rw [show (s.maskFlag m).phase (s.maskFlag m).k.curr = s.phase s.k.curr from rfl]
    cases s.phase s.k.curr with
    | out => rfl
    | writing msg timed => exact bind_natural (rxWriteToQueueResume_maskFlag m s.k msg timed) fun _ => rfl
    | reading timed => exact bind_natural (rxReadFromQueueResume_maskFlag m s.k timed) fun _ => rfl
  | expire tm => exact bind_natural (expireSleeper_mapQueues (maskAt m) s.k tm) fun _ => rfl
  | dispatch t p =>
    exact congrArg (fun k => Except.ok (none, { s with k := k })) (dispatch_mapQueues (maskAt m) s.k t p)

/-- The calls return the same for two queues that agree on the three bits. -/
theorem results_maskFlag (h : s.maskFlag m = s'.maskFlag m) (cs : List (QueueCall n)) :
    results Admissible (exec m) s cs = results Admissible (exec m) s' cs :=
  results_eq_of_map admissible_maskFlag exec_maskFlag h cs

end Runs

/-! ### A queue on which nobody waits -/

section Idle

variable {m : ℕ} {s s' : QueueSys n}

/-- Nobody waits on the queue, and the running task can call. -/
structure Idle (m : ℕ) (s : QueueSys n) : Prop where
  phase : s.phase s.k.curr = .out
  readTask : (s.k.queues m).readTask = none
  placed : ∃ h t, (s.k.queues m).Placed h t

/-- A read of an empty queue says whether it may wait. -/
theorem Idle.results_read (hi : Idle m s) (he : (s.k.queues m).isEmpty = true) :
    results Admissible (exec m) s [.read (s.k.queues m).sizeOfBlock 0 0] = [some (some ⟨.eOsUnavail, []⟩)] ↔
      (s.k.queues m).block = false := by
  have ha : s.Admissible (.read (s.k.queues m).sizeOfBlock 0 0) := hi.phase
  have hr : (s.k.enterCritical.queues m).readTask.isSome = false := congrArg Option.isSome hi.readTask
  have he' : (s.k.enterCritical.queues m).isEmpty = true := he
  by_cases hb : (s.k.queues m).block = true
  · have hb' : (s.k.enterCritical.queues m).block = true := hb
    have h1 : rxReadFromQueue s.k (some m) true (s.k.queues m).sizeOfBlock 0 0 =
        (blockReader s.k.enterCritical m 0 0).map fun k => (none, k) := by
      simp [rxReadFromQueue, hr, he', hb']
    cases h2 : blockReader s.k.enterCritical m 0 0 with
    | ok k =>
      have h3 : exec m s (.read (s.k.queues m).sizeOfBlock 0 0) = .ok (none, s.afterRead false k none) := by
        simp only [exec, h1, h2]
        rfl
      rw [results_ok ha h3, results]
      simp [hb]
    | error e =>
      have h3 : exec m s (.read (s.k.queues m).sizeOfBlock 0 0) = .error e := by
        simp only [exec, h1, h2]
        rfl
      rw [results_error ha h3]
      simp [hb]
  · rw [Bool.not_eq_true] at hb
    have hb' : (s.k.enterCritical.queues m).block = false := hb
    have h1 : rxReadFromQueue s.k (some m) true (s.k.queues m).sizeOfBlock 0 0 =
        .ok (some ⟨.eOsUnavail, []⟩, s.k.enterCritical.exitCritical) := by
      simp [rxReadFromQueue, hr, he', hb']
    have h3 : exec m s (.read (s.k.queues m).sizeOfBlock 0 0) =
        .ok (some ⟨.eOsUnavail, []⟩, s.afterRead false s.k.enterCritical.exitCritical (some ⟨.eOsUnavail, []⟩)) := by
      simp only [exec, h1]
      rfl
    rw [results_ok ha h3, results]
    simp [hb]

/-- A copy with no reader to be woken returns. -/
theorem writeCopy_idle {k : Kernel n} (h : (k.queues m).readTask = none) (msg : List UInt8) :
    ∃ k', writeCopy k m msg = .ok (⟨.osOk, []⟩, k') ∧ k'.queues m = (k.queues m).pushed ∧ k'.curr = k.curr := by
  set k1 := (k.copyIn (k.queues m).head msg (k.queues m).sizeOfBlock).setQueue m (k.queues m).pushed with hk1
  have hq : k1.queues m = (k.queues m).pushed := by rw [hk1, Kernel.setQueue_queues]
  have hw : wakeReader k1 m = .ok k1 := wakeReader_none (by rw [hq]; exact h)
  refine ⟨k1.exitCritical, ?_, hq, rfl⟩
  simp only [writeCopy, ← hk1, hw]
  rfl

/-- A write with room returns, and nobody waits after it. -/
theorem Idle.write (hi : Idle m s) {msg : List UInt8} (hl : (msg.length : ℤ) = (s.k.queues m).sizeOfBlock)
    (hroom : ((s.k.queues m).isFull && !(s.k.queues m).cyclic) = false) :
    ∃ s', exec m s (.write msg 0 0) = .ok (some ⟨.osOk, []⟩, s') ∧ Idle m s' ∧
      s'.k.queues m = (s.k.queues m).pushed := by
  have hr : (s.k.enterCritical.queues m).readTask = none := hi.readTask
  have hroom' : ((s.k.enterCritical.queues m).isFull && !(s.k.enterCritical.queues m).cyclic) = false := hroom
  obtain ⟨k1, h1, hq, hc⟩ := writeCopy_idle hr msg
  have h3 : rxWriteToQueue s.k (some m) (some msg) msg.length 0 0 = .ok (some ⟨.osOk, []⟩, k1) := by
    simp only [rxWriteToQueue, hroom', h1, hl, ne_eq, not_true_eq_false, if_false, Bool.false_eq_true]
    rfl
  refine ⟨s.afterWrite msg false k1 (some ⟨.osOk, []⟩), ?_, ⟨?_, ?_, ?_⟩, hq⟩
  · simp only [exec, h3]
    rfl
  · show Function.update s.phase s.k.curr QueuePhase.out k1.curr = .out
    rw [hc]
    exact Function.update_self _ _ _
  · rw [show (s.afterWrite msg false k1 (some ⟨.osOk, []⟩)).k.queues m = _ from hq]
    exact hi.readTask
  · obtain ⟨h, t, hp⟩ := hi.placed
    exact ⟨_, _, (congrArg (fun q => MsgQueue.Placed q _ _) hq).mpr hp.pushed⟩

/-- A write to a full queue is accepted if it is cyclic. -/
theorem Idle.results_write (hi : Idle m s) {msg : List UInt8} (hl : (msg.length : ℤ) = (s.k.queues m).sizeOfBlock)
    (hf : (s.k.queues m).isFull = true) :
    results Admissible (exec m) s [.write msg 0 0] = [some (some ⟨.osOk, []⟩)] ↔ (s.k.queues m).cyclic = true := by
  have ha : s.Admissible (.write msg 0 0) := hi.phase
  by_cases hc : (s.k.queues m).cyclic = true
  · obtain ⟨s', he, -, -⟩ := hi.write hl (by simp [hc])
    rw [results_ok ha he, results]
    simp [hc]
  · rw [Bool.not_eq_true] at hc
    have hfull : ((s.k.enterCritical.queues m).isFull && !(s.k.enterCritical.queues m).cyclic) = true := by
      show ((s.k.queues m).isFull && !(s.k.queues m).cyclic) = true
      rw [hf, hc]
      rfl
    have h1 : ∀ {r k'}, rxWriteToQueue s.k (some m) (some msg) msg.length 0 0 = .ok (r, k') → r ≠ some ⟨.osOk, []⟩ := by
      intro r k' h
      simp only [rxWriteToQueue, hfull, if_true, hl, ne_eq, not_true_eq_false, if_false] at h
      split_ifs at h
      · obtain ⟨k2, -, h2⟩ := map_eq_ok.mp h
        obtain ⟨rfl, -⟩ := Prod.mk.inj h2
        simp
      · obtain ⟨rfl, -⟩ := Prod.mk.inj (Except.ok.inj h)
        simp
    cases he : exec m s (.write msg 0 0) with
    | ok x =>
      obtain ⟨r, s'⟩ := x
      obtain ⟨y, h2, h3⟩ := bind_eq_ok.mp he
      obtain ⟨rfl, -⟩ := Prod.mk.inj (Except.ok.inj h3)
      rw [results_ok ha he, results]
      simp [hc, h1 h2]
    | error e =>
      rw [results_error ha he]
      simp [hc]

/-- One write more than the queue has room for tells whether it is cyclic. -/
theorem Idle.results_fill {msg : List UInt8} : ∀ (j : ℕ) {s : QueueSys n}, Idle m s →
    (msg.length : ℤ) = (s.k.queues m).sizeOfBlock → (s.k.queues m).count + j = (s.k.queues m).slots →
    (results Admissible (exec m) s (List.replicate (j + 1) (.write msg 0 0)) =
      List.replicate (j + 1) (some (some ⟨.osOk, []⟩)) ↔ (s.k.queues m).cyclic = true)
  | 0, s, hi, hl, hj => by
    obtain ⟨h, t, hp⟩ := hi.placed
    exact hi.results_write hl (hp.isFull_iff.mpr hj)
  | j + 1, s, hi, hl, hj => by
    obtain ⟨h, t, hp⟩ := hi.placed
    have hroom : (s.k.queues m).isFull = false := by
      by_contra hne
      have := hp.isFull_iff.mp (by simpa using hne)
      omega
    obtain ⟨s', he, hi', hq⟩ := hi.write hl (by simp [hroom])
    have hcount : (s'.k.queues m).count + j = (s'.k.queues m).slots := by
      rw [hq, hp.count_pushed (by omega), show (s.k.queues m).pushed.slots = (s.k.queues m).slots from rfl]
      omega
    have ih := Idle.results_fill j hi' (hl.trans (by rw [hq]; rfl)) hcount
    rw [hq, MsgQueue.cyclic_pushed] at ih
    have ha : s.Admissible (.write msg 0 0) := hi.phase
    show results Admissible (exec m) s (.write msg 0 0 :: List.replicate (j + 1) (.write msg 0 0)) =
      some (some ⟨.osOk, []⟩) :: List.replicate (j + 1) (some (some ⟨.osOk, []⟩)) ↔ _
    rw [results_ok ha he, List.cons.injEq, ih]
    exact and_iff_right rfl

end Idle

/-! ### Created over old contents -/

section Fresh

variable {k : Kernel n} {m : ℕ} {size num start : ℤ} {flag : Word} {q q' : MsgQueue n}

/-- After `rx_create_queue` over the contents `q`. -/
def fresh (k : Kernel n) (m : ℕ) (size num start : ℤ) (flag : Word) (q : MsgQueue n) : QueueSys n where
  k := (rxCreateQueue (k.setQueue m q) m size num start flag).2
  phase := fun _ => .out
  log := []

/-- Over both contents the queue is empty, and all later calls return the same. -/
def QueueIndependent (k : Kernel n) (m : ℕ) (size num start : ℤ) (flag : Word) (q q' : MsgQueue n) : Prop :=
  ((fresh k m size num start flag q).k.queues m).isEmpty = true ∧
  ((fresh k m size num start flag q').k.queues m).isEmpty = true ∧
  ∀ cs, results Admissible (exec m) (fresh k m size num start flag q) cs =
    results Admissible (exec m) (fresh k m size num start flag q') cs

/-- The flag that `rx_create_queue` leaves. -/
def createdFlag (old flag : Word) : Word := old ||| (rxQueueEmpty &&& flag)

theorem createdFlag_full (old : Word) : createdFlag old flag &&& rxQueueFull = old &&& rxQueueFull := by
  have h0 : rxQueueFull &&& rxQueueEmpty = 0#32 := rfl
  rw [createdFlag, BitVec.and_comm, BitVec.and_or_distrib_left, ← BitVec.and_assoc, h0, BitVec.zero_and,
    BitVec.or_zero, BitVec.and_comm]

/-- Any other bit is kept, or set by the argument. -/
theorem createdFlag_bit (old : Word) {b : Word} (hb : b &&& rxQueueEmpty = b) :
    createdFlag old flag &&& b = (old &&& b) ||| (flag &&& b) := by
  rw [createdFlag, BitVec.and_comm, BitVec.and_or_distrib_left, ← BitVec.and_assoc, hb, BitVec.and_comm b old,
    BitVec.and_comm b flag]

/-- A bit is one of two words. -/
theorem and_twoPow_eq {f g : Word} (i : ℕ) (h : f &&& BitVec.twoPow 32 i ≠ 0#32 ↔ g &&& BitVec.twoPow 32 i ≠ 0#32)
    (hi : BitVec.twoPow 32 i ≠ 0#32) : f &&& BitVec.twoPow 32 i = g &&& BitVec.twoPow 32 i := by
  rw [BitVec.and_twoPow, BitVec.and_twoPow] at h ⊢
  cases hf : f.getLsbD i <;> cases hg : g.getLsbD i
  · rfl
  · simp [hf, hg, hi] at h
  · simp [hf, hg, hi] at h
  · rfl

/-- A bit that the argument sets, or that is the same in both old flags. -/
theorem createdFlag_bit_eq {old old' : Word} (i : ℕ) (he : BitVec.twoPow 32 i &&& rxQueueEmpty = BitVec.twoPow 32 i)
    (hi : BitVec.twoPow 32 i ≠ 0#32)
    (h : flag &&& BitVec.twoPow 32 i = 0#32 →
      (old &&& BitVec.twoPow 32 i ≠ 0#32 ↔ old' &&& BitVec.twoPow 32 i ≠ 0#32)) :
    createdFlag old flag &&& BitVec.twoPow 32 i = createdFlag old' flag &&& BitVec.twoPow 32 i := by
  apply and_twoPow_eq i _ hi
  rw [createdFlag_bit old he, createdFlag_bit old' he, ne_eq, ne_eq, BitVec.or_eq_zero_iff, BitVec.or_eq_zero_iff]
  by_cases hg : flag &&& BitVec.twoPow 32 i = 0#32
  · rw [and_iff_left hg, and_iff_left hg]
    exact h hg
  · rw [and_iff_right_of_imp fun h => absurd h hg, and_iff_right_of_imp fun h => absurd h hg]

/-- The bits that are read of the flag that the call leaves. -/
theorem createdFlag_usedBits {old old' : Word} (hf : old &&& rxQueueFull ≠ 0#32 ↔ old' &&& rxQueueFull ≠ 0#32)
    (hc : flag &&& rxQCyclicFull = 0#32 → (old &&& rxQCyclicFull ≠ 0#32 ↔ old' &&& rxQCyclicFull ≠ 0#32))
    (hb : flag &&& rxQBlock = 0#32 → (old &&& rxQBlock ≠ 0#32 ↔ old' &&& rxQBlock ≠ 0#32)) :
    createdFlag old flag &&& usedBits = createdFlag old' flag &&& usedBits := by
  have hfull : createdFlag old flag &&& rxQueueFull = createdFlag old' flag &&& rxQueueFull := by
    rw [createdFlag_full, createdFlag_full]
    exact and_twoPow_eq 0 hf (by decide)
  have hcyc : createdFlag old flag &&& rxQCyclicFull = createdFlag old' flag &&& rxQCyclicFull :=
    createdFlag_bit_eq 1 (by decide) (by decide) hc
  have hblk : createdFlag old flag &&& rxQBlock = createdFlag old' flag &&& rxQBlock :=
    createdFlag_bit_eq 3 (by decide) (by decide) hb
  calc createdFlag old flag &&& usedBits
      = (createdFlag old flag &&& rxQueueFull ||| createdFlag old flag &&& rxQCyclicFull) |||
        createdFlag old flag &&& rxQBlock := by
        rw [usedBits, BitVec.and_or_distrib_left, BitVec.and_or_distrib_left]
    _ = (createdFlag old' flag &&& rxQueueFull ||| createdFlag old' flag &&& rxQCyclicFull) |||
        createdFlag old' flag &&& rxQBlock := by rw [hfull, hcyc, hblk]
    _ = createdFlag old' flag &&& usedBits := by
        rw [usedBits, BitVec.and_or_distrib_left, BitVec.and_or_distrib_left]

theorem fresh_queue (hok : (rxCreateQueue k m size num start flag).1 = .osOk) (q : MsgQueue n) :
    0 < size ∧ fresh k m size num start flag q = ⟨k.setQueue m
      { start := start, head := start, tail := start, flag := createdFlag q.flag flag, sizeOfBlock := size,
        numOfBlocks := num, writeTask := none, readTask := none }, fun _ => .out, []⟩ := by
  unfold rxCreateQueue at hok
  split_ifs at hok with hv
  refine ⟨by omega, ?_⟩
  simp [fresh, rxCreateQueue, hv, Kernel.setQueue, createdFlag]

section Accepted

variable (hok : (rxCreateQueue k m size num start flag).1 = .osOk) (q : MsgQueue n)

include hok

theorem fresh_queues : (fresh k m size num start flag q).k.queues m =
    { start := start, head := start, tail := start, flag := createdFlag q.flag flag, sizeOfBlock := size,
      numOfBlocks := num, writeTask := none, readTask := none } := by
  rw [(fresh_queue hok q).2]
  exact Kernel.setQueue_queues k m _

theorem fresh_isEmpty : ((fresh k m size num start flag q).k.queues m).isEmpty = !q.fullBit := by
  rw [fresh_queues hok q]
  simp [MsgQueue.isEmpty, MsgQueue.fullBit, createdFlag_full]

theorem fresh_cyclic : ((fresh k m size num start flag q).k.queues m).cyclic = true ↔
    q.cyclic = true ∨ flag &&& rxQCyclicFull ≠ 0#32 := by
  rw [fresh_queues hok q]
  simp only [MsgQueue.cyclic, createdFlag_bit q.flag (b := rxQCyclicFull) rfl, ne_eq, BitVec.or_eq_zero_iff,
    decide_eq_true_eq]
  exact not_and_or

theorem fresh_block : ((fresh k m size num start flag q).k.queues m).block = true ↔
    q.block = true ∨ flag &&& rxQBlock ≠ 0#32 := by
  rw [fresh_queues hok q]
  simp only [MsgQueue.block, createdFlag_bit q.flag (b := rxQBlock) rfl, ne_eq, BitVec.or_eq_zero_iff,
    decide_eq_true_eq]
  exact not_and_or

theorem fresh_idle : Idle m (fresh k m size num start flag q) := by
  refine ⟨rfl, ?_, 0, 0, ?_⟩
  · rw [fresh_queues hok q]
  · rw [fresh_queues hok q]
    exact ⟨(fresh_queue hok q).1, by simp, by simp, by simp [MsgQueue.slots], by simp [MsgQueue.slots]⟩

/-- What the calls return tells whether the queue is cyclic. -/
theorem fresh_results_fill (hf : q.fullBit = false) :
    results Admissible (exec m) (fresh k m size num start flag q)
        (List.replicate (num.toNat + 1 + 1) (.write (List.replicate size.toNat 0) 0 0)) =
      List.replicate (num.toNat + 1 + 1) (some (some ⟨.osOk, []⟩)) ↔
    q.cyclic = true ∨ flag &&& rxQCyclicFull ≠ 0#32 := by
  have hi := fresh_idle hok q
  have hs := (fresh_queue hok q).1
  obtain ⟨h, t, hp⟩ := hi.placed
  have hcount : ((fresh k m size num start flag q).k.queues m).count = 0 := by
    rw [← hp.isEmpty_iff, fresh_isEmpty hok q, hf]
    rfl
  rw [← fresh_cyclic hok q]
  refine hi.results_fill (num.toNat + 1) ?_ ?_
  · rw [fresh_queues hok q, List.length_replicate]
    exact Int.toNat_of_nonneg hs.le
  · rw [hcount, Nat.zero_add, fresh_queues hok q]
    rfl

/-- What the calls return tells whether they may wait. -/
theorem fresh_results_read (hf : q.fullBit = false) :
    results Admissible (exec m) (fresh k m size num start flag q) [.read size 0 0] =
      [some (some ⟨.eOsUnavail, []⟩)] ↔ ¬ (q.block = true ∨ flag &&& rxQBlock ≠ 0#32) := by
  have h := (fresh_idle hok q).results_read (by rw [fresh_isEmpty hok q, hf]; rfl)
  rw [← fresh_block hok q, Bool.not_eq_true, ← h, fresh_queues hok q]

/-- Two queues with the same bits in use. -/
theorem fresh_maskFlag (q' : MsgQueue n) (hf : q.fullBit = q'.fullBit)
    (hc : flag &&& rxQCyclicFull = 0#32 → q.cyclic = q'.cyclic) (hb : flag &&& rxQBlock = 0#32 → q.block = q'.block) :
    (fresh k m size num start flag q).maskFlag m = (fresh k m size num start flag q').maskFlag m := by
  have hused := createdFlag_usedBits (decide_eq_decide.mp hf) (fun h => decide_eq_decide.mp (hc h))
    (fun h => decide_eq_decide.mp (hb h))
  rw [(fresh_queue hok q).2, (fresh_queue hok q').2, maskFlag, maskFlag]
  dsimp only
  rw [← setQueue_maskFlag, ← setQueue_maskFlag, MsgQueue.masked, MsgQueue.masked, hused]

end Accepted

/-- The old bits that the argument does not set stay. -/
theorem queueFresh_iff (hok : (rxCreateQueue k m size num start flag).1 = .osOk) :
    QueueIndependent k m size num start flag q q' ↔ q.fullBit = false ∧ q'.fullBit = false ∧
      (flag &&& rxQCyclicFull = 0#32 → q.cyclic = q'.cyclic) ∧ (flag &&& rxQBlock = 0#32 → q.block = q'.block) := by
  unfold QueueIndependent
  rw [fresh_isEmpty hok q, fresh_isEmpty hok q', Bool.not_eq_true', Bool.not_eq_true']
  constructor
  · rintro ⟨hf, hf', h⟩
    have hc := (fresh_results_fill hok q hf).symm.trans ((Iff.of_eq (congrArg (· = _) (h _))).trans
      (fresh_results_fill hok q' hf'))
    have hb := (fresh_results_read hok q hf).symm.trans ((Iff.of_eq (congrArg (· = _) (h _))).trans
      (fresh_results_read hok q' hf'))
    refine ⟨hf, hf', fun h0 => ?_, fun h0 => ?_⟩
    · rw [Bool.eq_iff_iff]
      simpa [h0] using hc
    · rw [Bool.eq_iff_iff]
      simpa [h0, not_iff_not] using hb
  · rintro ⟨hf, hf', hc, hb⟩
    exact ⟨hf, hf', results_maskFlag (fresh_maskFlag hok q q' (hf.trans hf'.symm) hc hb)⟩

end Fresh

end QueueSys

end Rosx
