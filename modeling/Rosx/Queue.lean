/-
# Message queues

`kernel/rx_queue.c`. The control block points into the caller's buffer:
`head` is where the next message goes, `tail` the oldest one, and
`RX_QUEUE_FULL` tells full from empty where they meet. Memory is a function
from addresses to bytes, and every `memcpy` to or from the buffer is recorded
in `copies`, whether or not it stays inside the buffer.

A call that blocks is cut where it gives up the processor:
`rxReadFromQueue` and `rxWriteToQueue` are the calls up to their return or to
the switch to another task, `rxReadFromQueueResume` and
`rxWriteToQueueResume` what is left of a blocked call. The resumed half of a
call without timeout copies without looking at the queue again.

The roll over test lets a cursor stand one block behind the last one of the
buffer, so that the ring has `num_of_blocks + 1` slots (`rollOver_slot`).
-/
import Rosx.Timer
import Rosx.Lib.Ring
import Mathlib.Algebra.Order.Ring.Int
import Mathlib.Tactic.Ring

namespace Rosx

open Linked

variable {n : ℕ}

/-- `RX_QUEUE_FULL`. -/
def rxQueueFull : Word := 1#32

/-- `RX_QUEUE_EMPTY`. -/
def rxQueueEmpty : Word := ~~~ rxQueueFull

/-- `RX_Q_CYCLIC_FULL`. -/
def rxQCyclicFull : Word := 2#32

/-- `RX_Q_BLOCK`. -/
def rxQBlock : Word := 8#32

namespace MsgQueue

/-- `mq->flag & RX_QUEUE_FULL`. -/
def fullBit (q : MsgQueue n) : Bool := q.flag &&& rxQueueFull ≠ 0#32

/-- `mq->flag & RX_Q_CYCLIC_FULL`. -/
def cyclic (q : MsgQueue n) : Bool := q.flag &&& rxQCyclicFull ≠ 0#32

/-- `mq->flag & RX_Q_BLOCK`. -/
def block (q : MsgQueue n) : Bool := q.flag &&& rxQBlock ≠ 0#32

/-- `(mq->head == mq->tail) && (!(mq->flag & RX_QUEUE_FULL))`. -/
def isEmpty (q : MsgQueue n) : Bool := q.head = q.tail && !q.fullBit

/-- `(mq->head == mq->tail) && (mq->flag & RX_QUEUE_FULL)`. -/
def isFull (q : MsgQueue n) : Bool := q.head = q.tail && q.fullBit

/-- A cursor one block further, or at the start if that is past the end. -/
def rollOver (q : MsgQueue n) (p : ℤ) : ℤ :=
  if p + q.sizeOfBlock > q.start + q.sizeOfBlock * q.numOfBlocks then q.start else p + q.sizeOfBlock

/-- The control block after a message has been written at `head`. -/
def pushed (q : MsgQueue n) : MsgQueue n :=
  let head := q.rollOver q.head
  { q with head := head, flag := if head = q.tail then q.flag ||| rxQueueFull else q.flag }

/-- The control block after the message at `tail` has been read. -/
def popped (q : MsgQueue n) : MsgQueue n :=
  let tail := q.rollOver q.tail
  { q with tail := tail, flag := if q.head = tail then q.flag &&& rxQueueEmpty else q.flag }

end MsgQueue

/-- The `len` bytes at `addr`. -/
def bytesAt (mem : ℤ → UInt8) (addr len : ℤ) : List UInt8 := (List.range len.toNat).map fun i : ℕ => mem (addr + i)

/-- Memory with `len` bytes of `msg` at `addr`. -/
def storeAt (mem : ℤ → UInt8) (addr : ℤ) (msg : List UInt8) (len : ℤ) (a : ℤ) : UInt8 :=
  if addr ≤ a ∧ a < addr + len then msg.getD (a - addr).toNat 0 else mem a

namespace Kernel

/-- Queue `m` is replaced. -/
def setQueue (k : Kernel n) (m : ℕ) (c : MsgQueue n) : Kernel n :=
  { k with queues := Function.update k.queues m c }

@[simp] theorem setQueue_tcb (k : Kernel n) (m : ℕ) (c : MsgQueue n) : (k.setQueue m c).tcb = k.tcb := rfl

@[simp] theorem setQueue_curr (k : Kernel n) (m : ℕ) (c : MsgQueue n) : (k.setQueue m c).curr = k.curr := rfl

@[simp] theorem setQueue_queues (k : Kernel n) (m : ℕ) (c : MsgQueue n) : (k.setQueue m c).queues m = c := by
  simp [setQueue]

/-- `memcpy(msg_buffer, addr, len)`. -/
def copyOut (k : Kernel n) (addr len : ℤ) : List UInt8 × Kernel n :=
  (bytesAt k.mem addr len, { k with copies := k.copies ++ [(addr, len)] })

/-- `memcpy(addr, msg_buffer, len)`. -/
def copyIn (k : Kernel n) (addr : ℤ) (msg : List UInt8) (len : ℤ) : Kernel n :=
  { k with mem := storeAt k.mem addr msg len, copies := k.copies ++ [(addr, len)] }

end Kernel

/-- What a call returns: the code, and for a read the bytes it has copied. -/
structure Ret where
  err : OsErr
  msg : List UInt8 := []
  deriving DecidableEq, Repr

/-- `rx_create_queue`. -/
def rxCreateQueue (k : Kernel n) (m : ℕ) (sizeOfBlock numOfBlocks queueStart : ℤ) (flag : Word) : OsErr × Kernel n :=
  if sizeOfBlock > 64 ∨ sizeOfBlock ≤ 0 ∨ numOfBlocks = 0 then (.osErr, k)
  else
    let q := k.queues m
    (.osOk, k.setQueue m { q with
      start := queueStart, sizeOfBlock := sizeOfBlock, numOfBlocks := numOfBlocks, head := queueStart,
      tail := queueStart, flag := q.flag ||| (rxQueueEmpty &&& flag), writeTask := none, readTask := none })

/-- The end of `rx_read_from_queue`: the first waiting writer is made ready. -/
def wakeWriter (k : Kernel n) (m : ℕ) : Res (Kernel n) :=
  match (k.queues m).writeTask with
  | none => .ok k
  | some t => do
    let k := (dropTimer k t).modTcb t fun c => { c with state := .ready, mq := none }
    let k := k.setQueue m { k.queues m with writeTask := (k.tcb t).next }
    let (_, k) ← rxAddToReadyQ k t
    return k

/-- The end of `rx_write_to_queue`: the waiting reader is made ready. -/
def wakeReader (k : Kernel n) (m : ℕ) : Res (Kernel n) :=
  match (k.queues m).readTask with
  | none => .ok k
  | some t => do
    let k := (dropTimer k t).modTcb t fun c => { c with state := .ready, mq := none }
    let (_, k) ← rxAddToReadyQ k t
    return k.setQueue m { k.queues m with readTask := none }

/-- The body of the loop of `rx_delete_queue`: the first waiting writer is made
ready. -/
def deleteWriter (m : ℕ) (k : Kernel n) (t : Fin n) : Res (Kernel n) := do
  let k ← stopTaskTimer k t
  let k := k.modTcb t fun c => { c with state := .ready, mq := none }
  let k := k.setQueue m { k.queues m with writeTask := (k.tcb t).next }
  let (_, k) ← rxAddToReadyQ k t
  return k

/-- The rest of it: the waiting reader is made ready, and stays in
`mq->read_task`. -/
def deleteReader (m : ℕ) (k : Kernel n) : Res (Kernel n) :=
  match (k.queues m).readTask with
  | none => .ok k
  | some t => do
    let k ← stopTaskTimer k t
    let k := k.modTcb t fun c => { c with state := .ready, mq := none }
    let (_, k) ← rxAddToReadyQ k t
    return k

/-- `rx_delete_queue`: it returns before its `rx_exit_critical`. -/
def rxDeleteQueue (k : Kernel n) (m : ℕ) : Res (OsErr × Kernel n) := do
  let k ← drainLoop (fun k => (k.queues m).writeTask) (deleteWriter m) (n + 1) k.enterCritical
  let k ← deleteReader m k
  return (.osOk, k)

/-- `rx_read_from_queue` from the copy on. -/
def readCopy (k : Kernel n) (m : ℕ) : Res (Ret × Kernel n) := do
  let q := k.queues m
  let (msg, k) := k.copyOut q.tail q.sizeOfBlock
  let k ← wakeWriter (k.setQueue m q.popped) m
  return (⟨.osOk, msg⟩, k.exitCritical)

/-- `rx_write_to_queue` from the copy on. -/
def writeCopy (k : Kernel n) (m : ℕ) (msg : List UInt8) : Res (Ret × Kernel n) := do
  let q := k.queues m
  let k := k.copyIn q.head msg q.sizeOfBlock
  let k ← wakeReader (k.setQueue m q.pushed) m
  return (⟨.osOk, []⟩, k.exitCritical)

/-- The running task waits to read. -/
def blockReader (k : Kernel n) (m : ℕ) (timeout : ℤ) (tm : ℕ) : Res (Kernel n) :=
  let t := k.curr
  let k := k.setQueue m { k.queues m with readTask := some t }
  if timeout = 0 then do
    let k := k.modTcb t fun c => { c with state := .suspend, err := .osOk }
    let k ← rxRemoveFromReadyQ k t
    rxSched k.exitCritical
  else k.exitCritical.rxAddTimer tm (BitVec.ofInt 32 timeout + k.jiffies) t

/-- The running task waits to write. -/
def blockWriter (k : Kernel n) (m : ℕ) (timeout : ℤ) (tm : ℕ) : Res (Kernel n) := do
  let t := k.curr
  let k := k.modTcb t fun c => { c with state := .suspend, err := .osOk }
  let k ← rxRemoveFromReadyQ k t
  let (head, k) ← appendWaiter k (k.queues m).writeTask t
  let k := (k.setQueue m { k.queues m with writeTask := head }).exitCritical
  if timeout = 0 then rxSched k
  else k.rxAddTimer tm (BitVec.ofInt 32 timeout + k.jiffies) t

/-- `rx_read_from_queue` up to its return or to the switch to another task;
`mq` and `buffer` are the pointers it checks for NULL. -/
def rxReadFromQueue (k : Kernel n) (mq : Option ℕ) (buffer : Bool) (size timeout : ℤ) (tm : ℕ) :
    Res (Option Ret × Kernel n) :=
  match mq with
  | none => .ok (some ⟨.osErr, []⟩, k)
  | some m =>
    if buffer = false ∨ size ≠ (k.queues m).sizeOfBlock then .ok (some ⟨.osErr, []⟩, k)
    else
      let k := k.enterCritical
      if (k.queues m).readTask.isSome then .ok (some ⟨.eOsBusy, []⟩, k.exitCritical)
      else if (k.queues m).isEmpty then
        if (k.queues m).block then (blockReader k m timeout tm).map fun k => (none, k)
        else .ok (some ⟨.eOsUnavail, []⟩, k.exitCritical)
      else (readCopy k m).map fun (r, k) => (some r, k)

/-- What is left of a blocked `rx_read_from_queue` once its task runs again. -/
def rxReadFromQueueResume (k : Kernel n) (m : ℕ) (timed : Bool) : Res (Ret × Kernel n) :=
  let k := k.enterCritical
  if timed then
    if (k.queues m).isEmpty then .ok (⟨.eOsTimeout, []⟩, k.exitCritical) else readCopy k m
  else if (k.tcb k.curr).err ≠ .osOk then .ok (⟨(k.tcb k.curr).err, []⟩, k.exitCritical)
  else readCopy k m

/-- `rx_write_to_queue` up to its return or to the switch to another task. -/
def rxWriteToQueue (k : Kernel n) (mq : Option ℕ) (msgBuffer : Option (List UInt8)) (size timeout : ℤ) (tm : ℕ) :
    Res (Option Ret × Kernel n) :=
  match mq, msgBuffer with
  | some m, some msg =>
    if size ≠ (k.queues m).sizeOfBlock then .ok (some ⟨.osErr, []⟩, k)
    else
      let k := k.enterCritical
      if (k.queues m).isFull && !(k.queues m).cyclic then
        if (k.queues m).block then (blockWriter k m timeout tm).map fun k => (none, k)
        else .ok (some ⟨.eOsUnavail, []⟩, k.exitCritical)
      else (writeCopy k m msg).map fun (r, k) => (some r, k)
  | _, _ => .ok (some ⟨.osErr, []⟩, k)

/-- What is left of a blocked `rx_write_to_queue` once its task runs again. -/
def rxWriteToQueueResume (k : Kernel n) (m : ℕ) (msg : List UInt8) (timed : Bool) : Res (Ret × Kernel n) :=
  let k := k.enterCritical
  if timed then
    if (k.queues m).isFull then .ok (⟨.eOsTimeout, []⟩, k.exitCritical) else writeCopy k m msg
  else if (k.tcb k.curr).err ≠ .osOk then .ok (⟨(k.tcb k.curr).err, []⟩, k.exitCritical)
  else writeCopy k m msg

/-- The expiry of the timer of a sleeping task, by the timer thread. -/
def expireSleeper (k : Kernel n) (tm : ℕ) : Res (Kernel n) :=
  match (k.timers tm).handler, (k.timers tm).task with
  | none, some t => do
    let k := k.enterCritical.setState t .ready
    let (_, k) ← rxAddToReadyQ k t
    let k := k.modTcb t fun c => { c with timer := none }
    return (k.timerRemoved tm).exitCritical
  | _, _ => .error .null

/-! ### The ring

A queue whose cursors stand on blocks is a ring of `num_of_blocks + 1` slots;
what it holds is read off the cursors, the flag and the memory. -/

section Bytes

variable (mem : ℤ → UInt8) {addr len : ℤ} {msg : List UInt8}

/-- What is stored is read back. -/
theorem bytesAt_storeAt_self (h : (msg.length : ℤ) = len) : bytesAt (storeAt mem addr msg len) addr len = msg := by
  subst h
  refine List.ext_getElem (by simp [bytesAt]) fun i h1 h2 => ?_
  simp only [bytesAt, List.getElem_map, List.getElem_range, storeAt]
  rw [if_pos (by omega)]
  simp [h2]

/-- Bytes outside stay. -/
theorem bytesAt_storeAt_of_disjoint {a : ℤ} (h : a + len ≤ addr ∨ addr + len ≤ a) :
    bytesAt (storeAt mem addr msg len) a len = bytesAt mem a len := by
  unfold bytesAt
  apply List.map_congr_left
  intro i hi
  have hi' : i < len.toNat := List.mem_range.mp hi
  rw [storeAt, if_neg (by omega)]

end Bytes

namespace MsgQueue

/-- The positions the roll over test lets a cursor take; with a negative
`num_of_blocks`, which `rx_create_queue` accepts, only the start. -/
def slots (q : MsgQueue n) : ℕ := q.numOfBlocks.toNat + 1

/-- The slot of a cursor. -/
def slot (q : MsgQueue n) (p : ℤ) : ℕ := ((p - q.start) / q.sizeOfBlock).toNat

/-- The number of unread messages. -/
def count (q : MsgQueue n) : ℕ := Ring.len q.slots (q.slot q.head) (q.slot q.tail) q.fullBit

/-- The unread messages, oldest first. -/
def unread (q : MsgQueue n) (mem : ℤ → UInt8) : List (List UInt8) :=
  Ring.contents q.slots (fun i => bytesAt mem (q.start + q.sizeOfBlock * i) q.sizeOfBlock) (q.slot q.tail) q.count

/-- The control block without the waiting tasks. -/
def ring (q : MsgQueue n) : MsgQueue n := { q with writeTask := none, readTask := none }

@[simp] theorem length_unread (q : MsgQueue n) (mem : ℤ → UInt8) : (q.unread mem).length = q.count := by
  simp [unread]

section Flag

variable (q : MsgQueue n)

theorem fullBit_pushed : q.pushed.fullBit = (q.fullBit || decide (q.rollOver q.head = q.tail)) := by
  by_cases h : q.rollOver q.head = q.tail
  · have hf : (q.flag ||| 1#32) &&& 1#32 ≠ 0#32 := by
      rw [BitVec.and_comm, BitVec.and_or_distrib_left]
      intro h0
      have := congrArg (·.getLsbD 0) h0
      simp at this
    simp [pushed, fullBit, h, rxQueueFull, hf]
  · simp [pushed, fullBit, h]

theorem fullBit_popped : q.popped.fullBit = (q.fullBit && !decide (q.head = q.rollOver q.tail)) := by
  by_cases h : q.head = q.rollOver q.tail
  · have hf : q.flag &&& rxQueueEmpty &&& rxQueueFull = 0#32 := by
      rw [BitVec.and_assoc]
      exact BitVec.and_zero
    simp [popped, fullBit, h, hf]
  · simp [popped, fullBit, h]

/-- The queue is not empty after a write, even if the head has met the tail. -/
theorem isEmpty_pushed : q.pushed.isEmpty = false := by
  rw [isEmpty, fullBit_pushed]
  show (decide (q.rollOver q.head = q.tail) && !(q.fullBit || decide (q.rollOver q.head = q.tail))) = false
  by_cases h : q.rollOver q.head = q.tail <;> simp [h]

/-- The other bits stay. -/
theorem bit_pushed (b : Word) (hb : rxQueueFull &&& b = 0#32) : q.pushed.flag &&& b = q.flag &&& b := by
  unfold pushed
  dsimp only
  split_ifs
  · rw [BitVec.and_comm, BitVec.and_or_distrib_left, BitVec.and_comm b rxQueueFull, hb, BitVec.or_zero,
      BitVec.and_comm]
  · rfl

theorem bit_popped (b : Word) (hb : rxQueueEmpty &&& b = b) : q.popped.flag &&& b = q.flag &&& b := by
  unfold popped
  dsimp only
  split_ifs
  · rw [BitVec.and_assoc, hb]
  · rfl

@[simp] theorem cyclic_pushed : q.pushed.cyclic = q.cyclic := by
  rw [cyclic, bit_pushed q _ (by decide)]
  rfl

@[simp] theorem cyclic_popped : q.popped.cyclic = q.cyclic := by
  rw [cyclic, bit_popped q _ (by decide)]
  rfl

@[simp] theorem block_pushed : q.pushed.block = q.block := by
  rw [block, bit_pushed q _ (by decide)]
  rfl

@[simp] theorem block_popped : q.popped.block = q.block := by
  rw [block, bit_popped q _ (by decide)]
  rfl

end Flag

/-- The cursors stand on the slots `h` and `t`. -/
structure Placed (q : MsgQueue n) (h t : ℕ) : Prop where
  size : 0 < q.sizeOfBlock
  head : q.head = q.start + q.sizeOfBlock * h
  tail : q.tail = q.start + q.sizeOfBlock * t
  head_lt : h < q.slots
  tail_lt : t < q.slots

/-- What the queue holds does not depend on who waits. -/
theorem unread_of_ring {q q' : MsgQueue n} (hr : q'.ring = q.ring) (mem : ℤ → UInt8) :
    q'.unread mem = q.unread mem := by
  show q'.ring.unread mem = q.ring.unread mem
  rw [hr]

namespace Placed

variable {q : MsgQueue n} {h t : ℕ}

theorem of_ring {q' : MsgQueue n} (hp : q.Placed h t) (hr : q'.ring = q.ring) : q'.Placed h t := by
  have hp' : q.ring.Placed h t := ⟨hp.size, hp.head, hp.tail, hp.head_lt, hp.tail_lt⟩
  rw [← hr] at hp'
  exact ⟨hp'.size, hp'.head, hp'.tail, hp'.head_lt, hp'.tail_lt⟩

theorem slot_eq (hp : q.Placed h t) (i : ℕ) : q.slot (q.start + q.sizeOfBlock * i) = i := by
  have hs := hp.size
  have : q.start + q.sizeOfBlock * i - q.start = q.sizeOfBlock * i := by omega
  rw [slot, this, Int.mul_ediv_cancel_left _ (by omega)]
  rfl

theorem slot_head (hp : q.Placed h t) : q.slot q.head = h := by rw [hp.head, hp.slot_eq]

theorem slot_tail (hp : q.Placed h t) : q.slot q.tail = t := by rw [hp.tail, hp.slot_eq]

/-- A cursor rolls over one slot behind the last block. -/
theorem rollOver_slot (hp : q.Placed h t) {i : ℕ} (hi : i < q.slots) :
    q.rollOver (q.start + q.sizeOfBlock * i) = q.start + q.sizeOfBlock * (Ring.succ q.slots i : ℕ) := by
  have hs := hp.size
  unfold rollOver Ring.succ slots at *
  by_cases hlt : i + 1 < q.numOfBlocks.toNat + 1
  · have h1 : (i : ℤ) + 1 ≤ q.numOfBlocks := by omega
    have h2 : q.sizeOfBlock * ((i : ℤ) + 1) ≤ q.sizeOfBlock * q.numOfBlocks :=
      mul_le_mul_of_nonneg_left h1 hs.le
    rw [mul_add, mul_one] at h2
    rw [if_neg (by omega), if_pos hlt]
    push_cast
    ring
  · have h1 : q.numOfBlocks + 1 ≤ (i : ℤ) + 1 := by omega
    have h2 : q.sizeOfBlock * (q.numOfBlocks + 1) ≤ q.sizeOfBlock * ((i : ℤ) + 1) :=
      mul_le_mul_of_nonneg_left h1 hs.le
    rw [mul_add, mul_one, mul_add, mul_one] at h2
    rw [if_pos (by omega), if_neg hlt]
    simp

theorem cursor_inj (hp : q.Placed h t) {i j : ℕ} :
    q.start + q.sizeOfBlock * i = q.start + q.sizeOfBlock * j ↔ i = j := by
  have hs := hp.size
  refine ⟨fun he => ?_, fun he => by rw [he]⟩
  have h1 : q.sizeOfBlock * (i : ℤ) = q.sizeOfBlock * j := by omega
  exact_mod_cast mul_left_cancel₀ (by omega) h1

theorem head_eq_tail (hp : q.Placed h t) : q.head = q.tail ↔ h = t := by
  rw [hp.head, hp.tail, hp.cursor_inj]

theorem count_eq (hp : q.Placed h t) : q.count = Ring.len q.slots h t q.fullBit := by
  rw [count, hp.slot_head, hp.slot_tail]

theorem count_le (hp : q.Placed h t) : q.count ≤ q.slots := by
  rw [hp.count_eq]
  exact Ring.len_le hp.head_lt hp.tail_lt

theorem isEmpty_iff (hp : q.Placed h t) : q.isEmpty = true ↔ q.count = 0 := by
  rw [hp.count_eq, Ring.len_eq_zero hp.tail_lt, ← hp.head_eq_tail]
  simp [isEmpty]

theorem isFull_iff (hp : q.Placed h t) : q.isFull = true ↔ q.count = q.slots := by
  rw [hp.count_eq, Ring.len_eq_full hp.head_lt hp.tail_lt, ← hp.head_eq_tail]
  simp [isFull]

theorem pushed (hp : q.Placed h t) : q.pushed.Placed (Ring.succ q.slots h) t where
  size := hp.size
  head := by
    have := hp.rollOver_slot hp.head_lt
    rw [← hp.head] at this
    exact this
  tail := hp.tail
  head_lt := Ring.succ_lt h (Nat.succ_pos _)
  tail_lt := hp.tail_lt

theorem popped (hp : q.Placed h t) : q.popped.Placed h (Ring.succ q.slots t) where
  size := hp.size
  head := hp.head
  tail := by
    have := hp.rollOver_slot hp.tail_lt
    rw [← hp.tail] at this
    exact this
  head_lt := hp.head_lt
  tail_lt := Ring.succ_lt t (Nat.succ_pos _)

theorem fullBit_pushed (hp : q.Placed h t) :
    q.pushed.fullBit = (q.fullBit || decide (Ring.succ q.slots h = t)) := by
  rw [MsgQueue.fullBit_pushed]
  congr 1
  rw [decide_eq_decide]
  exact hp.pushed.head_eq_tail

theorem fullBit_popped (hp : q.Placed h t) :
    q.popped.fullBit = (q.fullBit && !decide (h = Ring.succ q.slots t)) := by
  rw [MsgQueue.fullBit_popped]
  congr 2
  rw [decide_eq_decide]
  exact hp.popped.head_eq_tail

theorem count_pushed (hp : q.Placed h t) (hc : q.count < q.slots) : q.pushed.count = q.count + 1 := by
  rw [hp.count_eq] at hc
  rw [hp.pushed.count_eq, hp.count_eq, hp.fullBit_pushed]
  exact Ring.len_push hp.head_lt hp.tail_lt hc

/-- A write to a full ring leaves one message to be read. -/
theorem count_pushed_full (hp : q.Placed h t) (hc : q.count = q.slots) : q.pushed.count = 1 := by
  rw [hp.count_eq] at hc
  rw [hp.pushed.count_eq, hp.fullBit_pushed]
  exact Ring.len_push_full hp.head_lt hc hp.tail_lt

theorem count_popped (hp : q.Placed h t) (hc : 0 < q.count) : q.popped.count + 1 = q.count := by
  rw [hp.count_eq] at hc
  rw [hp.popped.count_eq, hp.count_eq, hp.fullBit_popped]
  exact Ring.len_pop hp.head_lt hp.tail_lt hc

/-- A message written at `head` is unread, behind the others. -/
theorem unread_pushed (hp : q.Placed h t) (mem : ℤ → UInt8) {msg : List UInt8} (hc : q.count < q.slots)
    (hl : (msg.length : ℤ) = q.sizeOfBlock) :
    q.pushed.unread (storeAt mem q.head msg q.sizeOfBlock) = q.unread mem ++ [msg] := by
  have hs := hp.size
  have hslot : Ring.slotAt q.slots t q.count = h := by
    rw [hp.count_eq]
    exact Ring.slotAt_len hp.head_lt hp.tail_lt
  have hpush := Ring.contents_push (c := q.slots) (t := t) (l := q.count)
    (fun i => bytesAt mem (q.start + q.sizeOfBlock * i) q.sizeOfBlock)
    (fun i => bytesAt (storeAt mem q.head msg q.sizeOfBlock) (q.start + q.sizeOfBlock * i) q.sizeOfBlock)
    hp.tail_lt hc fun j _ hj => by
      -- another slot's bytes end before `head` or begin behind it
      rw [hslot] at hj
      apply bytesAt_storeAt_of_disjoint mem
      rw [hp.head]
      rcases Nat.lt_or_gt_of_ne hj with hlt | hlt
      · left
        have : q.sizeOfBlock * ((j : ℤ) + 1) ≤ q.sizeOfBlock * h :=
          mul_le_mul_of_nonneg_left (by omega) hs.le
        rw [mul_add, mul_one] at this
        omega
      · right
        have : q.sizeOfBlock * ((h : ℤ) + 1) ≤ q.sizeOfBlock * j :=
          mul_le_mul_of_nonneg_left (by omega) hs.le
        rw [mul_add, mul_one] at this
        omega
  rw [hslot] at hpush
  rw [← hp.head, bytesAt_storeAt_self mem hl] at hpush
  rw [unread, unread, hp.count_pushed hc, hp.pushed.slot_tail, hp.slot_tail]
  exact hpush

/-- A message written to a full ring is the only unread one. -/
theorem unread_pushed_full (hp : q.Placed h t) (mem : ℤ → UInt8) (hc : q.count = q.slots) :
    (q.pushed.unread mem).length = 1 := by
  rw [length_unread, hp.count_pushed_full hc]

/-- The oldest message is read. -/
theorem unread_popped (hp : q.Placed h t) (mem : ℤ → UInt8) (hc : 0 < q.count) :
    q.unread mem = bytesAt mem q.tail q.sizeOfBlock :: q.popped.unread mem := by
  have hcount := hp.count_popped hc
  have hle := hp.count_le
  have hpop := Ring.contents_pop (c := q.slots) (t := t) (l := q.popped.count)
    (fun i => bytesAt mem (q.start + q.sizeOfBlock * i) q.sizeOfBlock) hp.tail_lt (by omega)
  rw [hcount, ← hp.tail] at hpop
  rw [unread, unread, hp.slot_tail, hp.popped.slot_tail]
  exact hpop

end Placed

end MsgQueue

/-! ### What stays off the queues

The task and timer services touch neither the control blocks of the queues
nor the memory, whatever the lists look like. -/

/-- Queues, memory and the record of copies are the same. -/
structure OffQueue (k k' : Kernel n) : Prop where
  queues : k'.queues = k.queues
  mem : k'.mem = k.mem
  copies : k'.copies = k.copies

namespace OffQueue

variable {k k' k'' : Kernel n}

theorem refl (k : Kernel n) : OffQueue k k := ⟨rfl, rfl, rfl⟩

theorem trans (h : OffQueue k k') (h' : OffQueue k' k'') : OffQueue k k'' :=
  ⟨h'.queues.trans h.queues, h'.mem.trans h.mem, h'.copies.trans h.copies⟩

theorem of_relinked (h : Relinked k k') : OffQueue k k' := ⟨h.queues, by rw [h.rest], by rw [h.rest]⟩

theorem rxAddToReadyQ {new : Fin n} {r : OsErr} (h : rxAddToReadyQ k new = .ok (r, k')) : OffQueue k k' :=
  of_relinked (rxAddToReadyQ_relinked h)

theorem rxRemoveFromReadyQ {rmv : Fin n} (h : rxRemoveFromReadyQ k rmv = .ok k') : OffQueue k k' :=
  of_relinked (rxRemoveFromReadyQ_relinked h)

theorem rxSched (h : rxSched k = .ok k') : OffQueue k k' := by
  rcases rxSched_cases h with ⟨rfl, -⟩ | ⟨t, -, -, rfl⟩
  · exact refl _
  · exact ⟨rfl, rfl, rfl⟩

theorem appendWaiter {head head' : Option (Fin n)} {t : Fin n} (h : appendWaiter k head t = .ok (head', k')) :
    OffQueue k k' := of_relinked (appendWaiter_relinked h)

theorem rxAddTimer {tm : ℕ} {delay : Word} {t : Fin n} (h : k.rxAddTimer tm delay t = .ok k') : OffQueue k k' := by
  obtain ⟨k1, h1, h2⟩ := bind_eq_ok.mp h
  have h0 := rxRemoveFromReadyQ h1
  have h3 : OffQueue k k1 := ⟨h0.queues, h0.mem, h0.copies⟩
  exact h3.trans (rxSched h2)

theorem dropTimer (k : Kernel n) (t : Fin n) : OffQueue k (dropTimer k t) := by
  unfold Rosx.dropTimer
  split
  · exact refl k
  · exact ⟨rfl, rfl, rfl⟩

theorem dispatch (k : Kernel n) (t : Fin n) (p : Bool) : OffQueue k (k.dispatch t p) := by
  rw [Kernel.dispatch_rest]
  exact ⟨rfl, rfl, rfl⟩

theorem expireSleeper {tm : ℕ} (h : expireSleeper k tm = .ok k') : OffQueue k k' := by
  unfold Rosx.expireSleeper at h
  split at h
  · obtain ⟨⟨r, k1⟩, h1, h2⟩ := bind_eq_ok.mp h
    have h0 := rxAddToReadyQ h1
    have h3 : OffQueue k k1 := ⟨h0.queues, h0.mem, h0.copies⟩
    exact Except.ok.inj h2 ▸ h3.trans ⟨rfl, rfl, rfl⟩
  · cases h

end OffQueue

/-! ### What the calls do to the queue -/

/-- Memory, the record of copies and the queue are the same, but for the
waiting tasks. -/
structure SameRing (m : ℕ) (k k' : Kernel n) : Prop where
  ring : (k'.queues m).ring = (k.queues m).ring
  mem : k'.mem = k.mem
  copies : k'.copies = k.copies

/-- Nobody who was not waiting waits. -/
def NobodyWaits (m : ℕ) (k k' : Kernel n) : Prop :=
  (k.queues m).readTask = none → (k.queues m).writeTask = none →
    (k'.queues m).readTask = none ∧ (k'.queues m).writeTask = none

/-- A message has been written at `head`. -/
structure Pushed (m : ℕ) (msg : List UInt8) (k k' : Kernel n) : Prop where
  ring : (k'.queues m).ring = (k.queues m).pushed.ring
  mem : k'.mem = storeAt k.mem (k.queues m).head msg (k.queues m).sizeOfBlock
  copies : k'.copies = k.copies ++ [((k.queues m).head, (k.queues m).sizeOfBlock)]
  waits : NobodyWaits m k k'

/-- The message at `tail` has been read. -/
structure Popped (m : ℕ) (k k' : Kernel n) : Prop where
  ring : (k'.queues m).ring = (k.queues m).popped.ring
  mem : k'.mem = k.mem
  copies : k'.copies = k.copies ++ [((k.queues m).tail, (k.queues m).sizeOfBlock)]
  waits : NobodyWaits m k k'

namespace SameRing

variable {m : ℕ} {k k' k'' : Kernel n}

theorem refl (k : Kernel n) : SameRing m k k := ⟨rfl, rfl, rfl⟩

theorem trans (h : SameRing m k k') (h' : SameRing m k' k'') : SameRing m k k'' :=
  ⟨h'.ring.trans h.ring, h'.mem.trans h.mem, h'.copies.trans h.copies⟩

theorem of_off (h : OffQueue k k') : SameRing m k k' := ⟨by rw [h.queues], h.mem, h.copies⟩

theorem setQueue (k : Kernel n) {c : MsgQueue n} (hc : c.ring = (k.queues m).ring) :
    SameRing m k (k.setQueue m c) := ⟨by simp [hc], rfl, rfl⟩

theorem wakeWriter (h : wakeWriter k m = .ok k') : SameRing m k k' := by
  unfold Rosx.wakeWriter at h
  split at h
  · exact Except.ok.inj h ▸ refl k
  · rename_i t _
    obtain ⟨⟨r, k1⟩, h1, h2⟩ := bind_eq_ok.mp h
    have h0 : SameRing m k ((dropTimer k t).modTcb t fun c => { c with state := .ready, mq := none }) :=
      of_off ((OffQueue.dropTimer k t).trans ⟨rfl, rfl, rfl⟩)
    have h3 : SameRing m _ k1 := of_off (OffQueue.rxAddToReadyQ h1)
    exact Except.ok.inj h2 ▸ h0.trans (trans (by exact setQueue _ rfl) h3)

theorem wakeReader (h : wakeReader k m = .ok k') : SameRing m k k' := by
  unfold Rosx.wakeReader at h
  split at h
  · exact Except.ok.inj h ▸ refl k
  · rename_i t _
    obtain ⟨⟨r, k1⟩, h1, h2⟩ := bind_eq_ok.mp h
    have h0 : SameRing m k ((dropTimer k t).modTcb t fun c => { c with state := .ready, mq := none }) :=
      of_off ((OffQueue.dropTimer k t).trans ⟨rfl, rfl, rfl⟩)
    have h3 : SameRing m _ k1 := of_off (OffQueue.rxAddToReadyQ h1)
    obtain rfl := Except.ok.inj h2
    exact (h0.trans h3).trans (setQueue k1 rfl)

theorem blockReader {timeout : ℤ} {tm : ℕ} (h : blockReader k m timeout tm = .ok k') : SameRing m k k' := by
  have h0 : SameRing m k (k.setQueue m { k.queues m with readTask := some k.curr }) := setQueue k rfl
  unfold Rosx.blockReader at h
  dsimp only at h
  split_ifs at h
  · obtain ⟨k1, h1, h2⟩ := bind_eq_ok.mp h
    have h3 := OffQueue.rxRemoveFromReadyQ h1
    have h4 := OffQueue.rxSched h2
    exact h0.trans (of_off (OffQueue.trans ⟨h3.queues, h3.mem, h3.copies⟩ ⟨h4.queues, h4.mem, h4.copies⟩))
  · have h3 := OffQueue.rxAddTimer h
    exact h0.trans (of_off ⟨h3.queues, h3.mem, h3.copies⟩)

theorem blockWriter {timeout : ℤ} {tm : ℕ} (h : blockWriter k m timeout tm = .ok k') : SameRing m k k' := by
  obtain ⟨k1, h1, h⟩ := bind_eq_ok.mp h
  obtain ⟨⟨head, k2⟩, h2, h⟩ := bind_eq_ok.mp h
  have h0 := OffQueue.rxRemoveFromReadyQ h1
  have h3 : SameRing m k k2 := of_off (OffQueue.trans ⟨h0.queues, h0.mem, h0.copies⟩ (OffQueue.appendWaiter h2))
  have h4 : SameRing m k (k2.setQueue m { k2.queues m with writeTask := head }) := h3.trans (setQueue k2 rfl)
  dsimp only at h
  split_ifs at h
  · have h5 := OffQueue.rxSched h
    exact h4.trans (of_off ⟨h5.queues, h5.mem, h5.copies⟩)
  · have h5 := OffQueue.rxAddTimer h
    exact h4.trans (of_off ⟨h5.queues, h5.mem, h5.copies⟩)

end SameRing

section Calls

variable {m : ℕ} {k k' : Kernel n} {r : Ret}

theorem wakeWriter_none (h : (k.queues m).writeTask = none) : wakeWriter k m = .ok k := by
  rw [wakeWriter, h]

theorem wakeReader_none (h : (k.queues m).readTask = none) : wakeReader k m = .ok k := by
  rw [wakeReader, h]

theorem readCopy_spec (h : readCopy k m = .ok (r, k')) :
    r = ⟨.osOk, bytesAt k.mem (k.queues m).tail (k.queues m).sizeOfBlock⟩ ∧ Popped m k k' := by
  obtain ⟨k1, h1, h2⟩ := bind_eq_ok.mp h
  obtain ⟨rfl, rfl⟩ := Prod.mk.inj (Except.ok.inj h2)
  have h3 := SameRing.wakeWriter h1
  refine ⟨rfl, ?_, h3.mem, h3.copies, fun hr hw => ?_⟩
  · exact h3.ring.trans (by simp)
  · rw [wakeWriter_none (by simpa [MsgQueue.popped] using hw)] at h1
    obtain rfl := Except.ok.inj h1
    simpa [Kernel.setQueue, MsgQueue.popped, Kernel.exitCritical] using ⟨hr, hw⟩

theorem writeCopy_spec {msg : List UInt8} (h : writeCopy k m msg = .ok (r, k')) :
    r = ⟨.osOk, []⟩ ∧ Pushed m msg k k' := by
  obtain ⟨k1, h1, h2⟩ := bind_eq_ok.mp h
  obtain ⟨rfl, rfl⟩ := Prod.mk.inj (Except.ok.inj h2)
  have h3 := SameRing.wakeReader h1
  refine ⟨rfl, ?_, h3.mem, h3.copies, fun hr hw => ?_⟩
  · exact h3.ring.trans (by simp)
  · rw [wakeReader_none (by simpa [MsgQueue.pushed] using hr)] at h1
    obtain rfl := Except.ok.inj h1
    simpa [Kernel.setQueue, MsgQueue.pushed, Kernel.exitCritical] using ⟨hr, hw⟩

/-- With nobody to wake a copy returns. -/
theorem readCopy_returns (h : (k.queues m).writeTask = none) : ∃ r k', readCopy k m = .ok (r, k') := by
  have hw : ∀ k1 : Kernel n, ((k1.setQueue m (k.queues m).popped).queues m).writeTask = none := fun k1 => by
    simpa [MsgQueue.popped] using h
  simp only [readCopy, Kernel.copyOut, wakeWriter_none (hw _)]
  exact ⟨_, _, rfl⟩

theorem writeCopy_returns (h : (k.queues m).readTask = none) (msg : List UInt8) :
    ∃ r k', writeCopy k m msg = .ok (r, k') := by
  have hw : ∀ k1 : Kernel n, ((k1.setQueue m (k.queues m).pushed).queues m).readTask = none := fun k1 => by
    simpa [MsgQueue.pushed] using h
  simp only [writeCopy, wakeReader_none (hw _)]
  exact ⟨_, _, rfl⟩

/-- A call of `rx_read_from_queue` takes a message. -/
def readTakes (k : Kernel n) (m : ℕ) (size : ℤ) : Bool :=
  size = (k.queues m).sizeOfBlock && (k.queues m).readTask.isNone && !(k.queues m).isEmpty

/-- A call of `rx_write_to_queue` writes its message. -/
def writeFits (k : Kernel n) (m : ℕ) (size : ℤ) : Bool :=
  size = (k.queues m).sizeOfBlock && !((k.queues m).isFull && !(k.queues m).cyclic)

/-- A blocked read that runs again takes a message. -/
def readResumes (k : Kernel n) (m : ℕ) (timed : Bool) : Bool :=
  if timed then !(k.queues m).isEmpty else (k.tcb k.curr).err = .osOk

/-- A blocked write that runs again writes its message. -/
def writeResumes (k : Kernel n) (m : ℕ) (timed : Bool) : Bool :=
  if timed then !(k.queues m).isFull else (k.tcb k.curr).err = .osOk

/-- The branches of `rx_read_from_queue`: it copies, it blocks, or it returns
an error and leaves the kernel as it was. -/
theorem rxReadFromQueue_split {size timeout : ℤ} {tm : ℕ} {r : Option Ret}
    (h : rxReadFromQueue k (some m) true size timeout tm = .ok (r, k')) :
    (readTakes k m size = true ∧ ∃ x, r = some x ∧ readCopy k.enterCritical m = .ok (x, k')) ∨
    (readTakes k m size = false ∧ r = none ∧ (k.queues m).block = true ∧
      blockReader k.enterCritical m timeout tm = .ok k') ∨
    (readTakes k m size = false ∧ (k' = k ∨ k' = k.enterCritical.exitCritical) ∧
      ((r = some ⟨.osErr, []⟩ ∧ size ≠ (k.queues m).sizeOfBlock) ∨
      (r = some ⟨.eOsBusy, []⟩ ∧ (k.queues m).readTask.isSome = true) ∨
      (r = some ⟨.eOsUnavail, []⟩ ∧ (k.queues m).isEmpty = true))) := by
  have hq : k.enterCritical.queues m = k.queues m := rfl
  unfold rxReadFromQueue at h
  simp only [reduceCtorEq, false_or, hq] at h
  by_cases hsize : size ≠ (k.queues m).sizeOfBlock
  · rw [if_pos hsize] at h
    obtain ⟨rfl, rfl⟩ := Prod.mk.inj (Except.ok.inj h)
    exact .inr (.inr ⟨by simp [readTakes, hsize], .inl rfl, .inl ⟨rfl, hsize⟩⟩)
  rw [if_neg hsize] at h
  rw [not_not] at hsize
  by_cases hbusy : (k.queues m).readTask.isSome = true
  · rw [if_pos hbusy] at h
    obtain ⟨rfl, rfl⟩ := Prod.mk.inj (Except.ok.inj h)
    refine .inr (.inr ⟨?_, .inr rfl, .inr (.inl ⟨rfl, hbusy⟩)⟩)
    obtain ⟨t, ht⟩ := Option.isSome_iff_exists.mp hbusy
    simp [readTakes, ht]
  rw [if_neg hbusy] at h
  have hnone : (k.queues m).readTask = none := by simpa using hbusy
  by_cases hempty : (k.queues m).isEmpty = true
  · have htakes : readTakes k m size = false := by simp [readTakes, hempty]
    rw [if_pos hempty] at h
    by_cases hblock : (k.queues m).block = true
    · rw [if_pos hblock] at h
      obtain ⟨k1, hb, h1⟩ := map_eq_ok.mp h
      obtain ⟨rfl, rfl⟩ := Prod.mk.inj h1
      exact .inr (.inl ⟨htakes, rfl, hblock, hb⟩)
    · rw [if_neg hblock] at h
      obtain ⟨rfl, rfl⟩ := Prod.mk.inj (Except.ok.inj h)
      exact .inr (.inr ⟨htakes, .inr rfl, .inr (.inr ⟨rfl, hempty⟩)⟩)
  · rw [if_neg hempty] at h
    obtain ⟨⟨x, k1⟩, hc, h1⟩ := map_eq_ok.mp h
    obtain ⟨rfl, rfl⟩ := Prod.mk.inj h1
    exact .inl ⟨by simp [readTakes, hsize, hnone, hempty], x, rfl, hc⟩

/-- The branches of `rx_write_to_queue`. -/
theorem rxWriteToQueue_split {msg : List UInt8} {size timeout : ℤ} {tm : ℕ} {r : Option Ret}
    (h : rxWriteToQueue k (some m) (some msg) size timeout tm = .ok (r, k')) :
    (writeFits k m size = true ∧ ∃ x, r = some x ∧ writeCopy k.enterCritical m msg = .ok (x, k')) ∨
    (writeFits k m size = false ∧ r = none ∧ (k.queues m).block = true ∧ size = (k.queues m).sizeOfBlock ∧
      blockWriter k.enterCritical m timeout tm = .ok k') ∨
    (writeFits k m size = false ∧ (k' = k ∨ k' = k.enterCritical.exitCritical) ∧
      ((r = some ⟨.osErr, []⟩ ∧ size ≠ (k.queues m).sizeOfBlock) ∨
      (r = some ⟨.eOsUnavail, []⟩ ∧ (k.queues m).isFull = true))) := by
  have hq : k.enterCritical.queues m = k.queues m := rfl
  unfold rxWriteToQueue at h
  simp only [hq] at h
  by_cases hsize : size ≠ (k.queues m).sizeOfBlock
  · rw [if_pos hsize] at h
    obtain ⟨rfl, rfl⟩ := Prod.mk.inj (Except.ok.inj h)
    exact .inr (.inr ⟨by simp [writeFits, hsize], .inl rfl, .inl ⟨rfl, hsize⟩⟩)
  rw [if_neg hsize] at h
  rw [not_not] at hsize
  by_cases hfull : ((k.queues m).isFull && !(k.queues m).cyclic) = true
  · have hfits : writeFits k m size = false := by simp [writeFits, hsize, hfull]
    rw [if_pos hfull] at h
    by_cases hblock : (k.queues m).block = true
    · rw [if_pos hblock] at h
      obtain ⟨k1, hb, h1⟩ := map_eq_ok.mp h
      obtain ⟨rfl, rfl⟩ := Prod.mk.inj h1
      exact .inr (.inl ⟨hfits, rfl, hblock, hsize, hb⟩)
    · rw [if_neg hblock] at h
      obtain ⟨rfl, rfl⟩ := Prod.mk.inj (Except.ok.inj h)
      have hfull' : (k.queues m).isFull = true := by
        rw [Bool.and_eq_true] at hfull
        exact hfull.1
      exact .inr (.inr ⟨hfits, .inr rfl, .inr ⟨rfl, hfull'⟩⟩)
  · rw [if_neg hfull] at h
    obtain ⟨⟨x, k1⟩, hc, h1⟩ := map_eq_ok.mp h
    obtain ⟨rfl, rfl⟩ := Prod.mk.inj h1
    refine .inl ⟨?_, x, rfl, hc⟩
    simp only [writeFits, hsize, decide_true, Bool.true_and]
    rw [Bool.not_eq_true] at hfull
    rw [hfull]
    rfl

/-- A blocked read that runs again copies, or returns an error. -/
theorem rxReadFromQueueResume_split {timed : Bool} (h : rxReadFromQueueResume k m timed = .ok (r, k')) :
    (readResumes k m timed = true ∧ readCopy k.enterCritical m = .ok (r, k')) ∨
    (readResumes k m timed = false ∧ k' = k.enterCritical.exitCritical ∧ r.err ≠ .osOk) := by
  have hq : k.enterCritical.queues m = k.queues m := rfl
  have ht : (k.enterCritical.tcb k.enterCritical.curr).err = (k.tcb k.curr).err := rfl
  unfold rxReadFromQueueResume at h
  simp only [hq, ht] at h
  cases timed with
  | true =>
    rw [if_pos rfl] at h
    by_cases hempty : (k.queues m).isEmpty = true
    · rw [if_pos hempty] at h
      obtain ⟨rfl, rfl⟩ := Prod.mk.inj (Except.ok.inj h)
      exact .inr ⟨by simp [readResumes, hempty], rfl, by simp⟩
    · rw [if_neg hempty] at h
      exact .inl ⟨by simp [readResumes, hempty], h⟩
  | false =>
    rw [if_neg (by simp)] at h
    by_cases herr : (k.tcb k.curr).err ≠ .osOk
    · rw [if_pos herr] at h
      obtain ⟨rfl, rfl⟩ := Prod.mk.inj (Except.ok.inj h)
      exact .inr ⟨by simp [readResumes, herr], rfl, herr⟩
    · rw [if_neg herr] at h
      exact .inl ⟨by simpa [readResumes] using herr, h⟩

/-- A blocked write that runs again copies, or returns an error. -/
theorem rxWriteToQueueResume_split {msg : List UInt8} {timed : Bool}
    (h : rxWriteToQueueResume k m msg timed = .ok (r, k')) :
    (writeResumes k m timed = true ∧ writeCopy k.enterCritical m msg = .ok (r, k')) ∨
    (writeResumes k m timed = false ∧ k' = k.enterCritical.exitCritical ∧ r.err ≠ .osOk) := by
  have hq : k.enterCritical.queues m = k.queues m := rfl
  have ht : (k.enterCritical.tcb k.enterCritical.curr).err = (k.tcb k.curr).err := rfl
  unfold rxWriteToQueueResume at h
  simp only [hq, ht] at h
  cases timed with
  | true =>
    rw [if_pos rfl] at h
    by_cases hfull : (k.queues m).isFull = true
    · rw [if_pos hfull] at h
      obtain ⟨rfl, rfl⟩ := Prod.mk.inj (Except.ok.inj h)
      exact .inr ⟨by simp [writeResumes, hfull], rfl, by simp⟩
    · rw [if_neg hfull] at h
      exact .inl ⟨by simp [writeResumes, hfull], h⟩
  | false =>
    rw [if_neg (by simp)] at h
    by_cases herr : (k.tcb k.curr).err ≠ .osOk
    · rw [if_pos herr] at h
      obtain ⟨rfl, rfl⟩ := Prod.mk.inj (Except.ok.inj h)
      exact .inr ⟨by simp [writeResumes, herr], rfl, herr⟩
    · rw [if_neg herr] at h
      exact .inl ⟨by simpa [writeResumes] using herr, h⟩

/-- What a copy does, seen from before the critical section. -/
theorem readCopy_enter (h : readCopy k.enterCritical m = .ok (r, k')) :
    r = ⟨.osOk, bytesAt k.mem (k.queues m).tail (k.queues m).sizeOfBlock⟩ ∧ Popped m k k' := by
  obtain ⟨hr, h1⟩ := readCopy_spec h
  exact ⟨hr, h1.ring, h1.mem, h1.copies, h1.waits⟩

theorem writeCopy_enter {msg : List UInt8} (h : writeCopy k.enterCritical m msg = .ok (r, k')) :
    r = ⟨.osOk, []⟩ ∧ Pushed m msg k k' := by
  obtain ⟨hr, h1⟩ := writeCopy_spec h
  exact ⟨hr, h1.ring, h1.mem, h1.copies, h1.waits⟩

theorem OffQueue.of_returned (h : k' = k ∨ k' = k.enterCritical.exitCritical) : OffQueue k k' := by
  rcases h with rfl | rfl
  · exact .refl _
  · exact ⟨rfl, rfl, rfl⟩

/-- A read takes the oldest message, or leaves the ring alone: it returns an
error, or it blocks, which it does only on a `RX_Q_BLOCK` queue. -/
theorem rxReadFromQueue_cases {size timeout : ℤ} {tm : ℕ} {r : Option Ret}
    (h : rxReadFromQueue k (some m) true size timeout tm = .ok (r, k')) :
    (readTakes k m size = true ∧ r = some ⟨.osOk, bytesAt k.mem (k.queues m).tail (k.queues m).sizeOfBlock⟩ ∧
      Popped m k k') ∨
    (readTakes k m size = false ∧ r = none ∧ (k.queues m).block = true ∧ SameRing m k k') ∨
    (readTakes k m size = false ∧ OffQueue k k' ∧
      ((r = some ⟨.osErr, []⟩ ∧ size ≠ (k.queues m).sizeOfBlock) ∨
      (r = some ⟨.eOsBusy, []⟩ ∧ (k.queues m).readTask.isSome = true) ∨
      (r = some ⟨.eOsUnavail, []⟩ ∧ (k.queues m).isEmpty = true))) := by
  rcases rxReadFromQueue_split h with ⟨ht, x, rfl, hc⟩ | ⟨ht, rfl, hb, hk⟩ | ⟨ht, hk, hr⟩
  · obtain ⟨rfl, h1⟩ := readCopy_enter hc
    exact .inl ⟨ht, rfl, h1⟩
  · have h1 := SameRing.blockReader hk
    exact .inr (.inl ⟨ht, rfl, hb, h1.ring, h1.mem, h1.copies⟩)
  · exact .inr (.inr ⟨ht, .of_returned hk, hr⟩)

/-- A write adds its message, or leaves the ring alone. -/
theorem rxWriteToQueue_cases {msg : List UInt8} {size timeout : ℤ} {tm : ℕ} {r : Option Ret}
    (h : rxWriteToQueue k (some m) (some msg) size timeout tm = .ok (r, k')) :
    (writeFits k m size = true ∧ r = some ⟨.osOk, []⟩ ∧ Pushed m msg k k') ∨
    (writeFits k m size = false ∧ r = none ∧ (k.queues m).block = true ∧ size = (k.queues m).sizeOfBlock ∧
      SameRing m k k') ∨
    (writeFits k m size = false ∧ OffQueue k k' ∧
      ((r = some ⟨.osErr, []⟩ ∧ size ≠ (k.queues m).sizeOfBlock) ∨
      (r = some ⟨.eOsUnavail, []⟩ ∧ (k.queues m).isFull = true))) := by
  rcases rxWriteToQueue_split h with ⟨ht, x, rfl, hc⟩ | ⟨ht, rfl, hb, hsize, hk⟩ | ⟨ht, hk, hr⟩
  · obtain ⟨rfl, h1⟩ := writeCopy_enter hc
    exact .inl ⟨ht, rfl, h1⟩
  · have h1 := SameRing.blockWriter hk
    exact .inr (.inl ⟨ht, rfl, hb, hsize, h1.ring, h1.mem, h1.copies⟩)
  · exact .inr (.inr ⟨ht, .of_returned hk, hr⟩)

theorem rxReadFromQueueResume_cases {timed : Bool} (h : rxReadFromQueueResume k m timed = .ok (r, k')) :
    (readResumes k m timed = true ∧ r = ⟨.osOk, bytesAt k.mem (k.queues m).tail (k.queues m).sizeOfBlock⟩ ∧
      Popped m k k') ∨
    (readResumes k m timed = false ∧ OffQueue k k' ∧ r.err ≠ .osOk) := by
  rcases rxReadFromQueueResume_split h with ⟨ht, hc⟩ | ⟨ht, hk, hr⟩
  · exact .inl ⟨ht, readCopy_enter hc⟩
  · exact .inr ⟨ht, .of_returned (.inr hk), hr⟩

theorem rxWriteToQueueResume_cases {msg : List UInt8} {timed : Bool}
    (h : rxWriteToQueueResume k m msg timed = .ok (r, k')) :
    (writeResumes k m timed = true ∧ r = ⟨.osOk, []⟩ ∧ Pushed m msg k k') ∨
    (writeResumes k m timed = false ∧ OffQueue k k' ∧ r.err ≠ .osOk) := by
  rcases rxWriteToQueueResume_split h with ⟨ht, hc⟩ | ⟨ht, hk, hr⟩
  · exact .inl ⟨ht, writeCopy_enter hc⟩
  · exact .inr ⟨ht, .of_returned (.inr hk), hr⟩

end Calls

end Rosx
