/-
# The print buffer

`kernel/rx_logger.c`: messages are printed into a buffer of
`CONFIG_PRINT_BUFFER_SIZE` bytes, and the logger thread sends it to the serial
device byte by byte. Positions count from `__rx_printk_buffer_start_ptr`; the
memory goes on behind the buffer. A step returns the positions it has written
and read. A run is any sequence of messages that fit and turns of the thread;
the bytes behind the buffer belong to others and may change in between.

All writes lie in the buffer. The thread goes back to the start one position
late: it reads the position behind the buffer, `CONFIG_PRINT_BUFFER_SIZE` bytes
after the start, so that the reads lie in the buffer as long as no more bytes
than that have been sent (`inside_iff`).

The producer does not look at the tail. Nothing is lost as long as each message
has room between the head and the tail, and the byte behind the buffer is NUL
when it is sent (`lossless_of_run`).

Key definitions: `rxPrintkToBuffer`, `loggerTurn`, `LogSys.exec`,
`LogSys.HasRoom`, `LogSys.Lossless`.
-/
import Rosx.Lib.Linked
import Rosx.Lib.Run
import Mathlib.Data.List.Infix

namespace Rosx

open Linked

/-- `CONFIG_PRINT_BUFFER_SIZE`. -/
def configPrintBufferSize : ℕ := 4096

/-- The memory from the start of the print buffer on, with the two cursors. -/
structure PrintBuf where
  mem : ℕ → UInt8
  head : ℕ := 0
  tail : ℕ := 0

/-- The positions that a step writes, and those it reads. -/
structure Touched where
  written : List ℕ := []
  read : List ℕ := []
  deriving DecidableEq

/-- The bytes of `l` from position `p` on. -/
def PrintBuf.store (b : PrintBuf) (p : ℕ) (l : List UInt8) : PrintBuf :=
  { b with mem := fun i => if p ≤ i ∧ i < p + l.length then l.getD (i - p) 0 else b.mem i }

/-! ### The services -/

/-- The message does not fit behind the head: the bytes up to the end of the
buffer are cleared, and the head moves to the start. Returns the cleared
positions. -/
def rollOver (size : ℕ) (b : PrintBuf) (n : ℕ) : PrintBuf × List ℕ :=
  if b.head + n > size then
    ({ b.store b.head (List.replicate (size - b.head) 0) with head := 0 }, List.range' b.head (size - b.head))
  else (b, [])

/-- The critical section of `__rx_printk_to_buffer`: the message goes into the
buffer with its NUL. -/
def putMessage (size : ℕ) (b : PrintBuf) (msg : List UInt8) : PrintBuf × Touched :=
  let n := msg.length + 1
  let (b, cleared) := rollOver size b n
  ({ b.store b.head (msg ++ [0]) with head := b.head + n }, ⟨cleared ++ List.range' b.head n, []⟩)

/-- What is printed about a message of `n` bytes that is too long. -/
def invalidRequest (size n : ℕ) : List UInt8 :=
  ("Invalid print request; exceeeds print buffer capacity Requested: " ++ toString n ++ " Available: " ++
    toString size ++ "\n").toList.map Char.toUInt8

/-- `__rx_printk_to_buffer`, for the formatted message. The complaint about a
message that is too long goes to `pr_error`, which is this function again. -/
def rxPrintkToBuffer (size : ℕ) : ℕ → PrintBuf → List UInt8 → Res (PrintBuf × Touched)
  | 0, _, _ => .error .hang
  | f + 1, b, msg =>
    if msg.length + 1 > size then rxPrintkToBuffer size f b (invalidRequest size (msg.length + 1))
    else .ok (putMessage size b msg)

/-- One turn of the loop of `rx_logger_thread`: the byte it sends. It waits
while the cursors are the same. -/
def loggerTurn (size : ℕ) (b : PrintBuf) : Option UInt8 × PrintBuf × Touched :=
  if b.head ≠ b.tail then
    (some (b.mem b.tail), { b with tail := if b.tail + 1 > size then 0 else b.tail + 1 }, ⟨[], [b.tail]⟩)
  else (none, b, {})

/-! ### Runs -/

/-- The buffer, the bytes of all accepted messages and all bytes sent. Of the
bytes accepted and not yet sent it has the positions, and of those that were
written over then. -/
structure LogSys where
  b : PrintBuf
  accepted : List UInt8 := []
  sent : List UInt8 := []
  waiting : List ℕ := []
  overwritten : List ℕ := []

/-- A step of a run: a message, a turn of the thread, or new bytes behind the
buffer. -/
inductive LogCall where
  | print (msg : List UInt8)
  | drain
  | other (mem : ℕ → UInt8)

def LogCall.isDrain : LogCall → Bool
  | .drain => true
  | .print _ | .other _ => false

namespace LogSys

/-- What a step computes. -/
def exec (size : ℕ) (s : LogSys) : LogCall → Res (Touched × LogSys)
  | .print msg => (rxPrintkToBuffer size 1 s.b msg).map fun x =>
    (x.2, { s with
      b := x.1, accepted := s.accepted ++ msg,
      waiting := s.waiting ++ List.range' (x.1.head - (msg.length + 1)) msg.length,
      overwritten := s.overwritten ++ x.2.written.filter (· ∈ s.waiting) })
  | .drain =>
    let x := loggerTurn size s.b
    .ok (x.2.2, { s with
      b := x.2.1, sent := s.sent ++ x.1.toList, waiting := s.waiting.filter (· ∉ x.2.2.read) })
  | .other mem => .ok ({}, { s with b := { s.b with mem := mem } })

/-- The messages fit, and the buffer is nobody else's. -/
def Admissible (size : ℕ) (s : LogSys) : LogCall → Prop
  | .print msg => msg.length + 1 ≤ size
  | .drain => True
  | .other mem => ∀ i < size, mem i = s.b.mem i

instance (size : ℕ) (s : LogSys) : ∀ c, Decidable (s.Admissible size c)
  | .print msg => inferInstanceAs (Decidable (msg.length + 1 ≤ size))
  | .drain => inferInstanceAs (Decidable True)
  | .other mem => inferInstanceAs (Decidable (∀ i < size, mem i = s.b.mem i))

/-- One step of a run, labelled with the call and what it touches. -/
def Step (size : ℕ) (s : LogSys) (c : LogCall × Touched) (s' : LogSys) : Prop :=
  s.Admissible size c.1 ∧ s.exec size c.1 = .ok (c.2, s')

/-- The cursors are at the start, and nothing has been printed. -/
structure Init (s : LogSys) : Prop where
  head : s.b.head = 0
  tail : s.b.tail = 0
  accepted : s.accepted = []
  sent : s.sent = []
  waiting : s.waiting = []
  overwritten : s.overwritten = []

/-! ### What lies in the buffer -/

/-- All that a step has touched lies in the buffer. -/
def Inside (size : ℕ) (c : LogCall × Touched) : Prop := ∀ i ∈ c.2.written ++ c.2.read, i < size

/-- A turn of the thread that sends a byte. -/
def Drains (s : LogSys) (c : LogCall × Touched) : Prop := c.1.isDrain = true ∧ s.b.head ≠ s.b.tail

instance (s : LogSys) (c : LogCall × Touched) : Decidable (s.Drains c) :=
  inferInstanceAs (Decidable (_ ∧ _))

section Calls

variable {size n : ℕ} {b : PrintBuf} {msg : List UInt8} {s s' : LogSys}

/-- The message goes behind the head. -/
theorem putMessage_fits (h : b.head + (msg.length + 1) ≤ size) : putMessage size b msg =
    ({ b.store b.head (msg ++ [0]) with head := b.head + (msg.length + 1) },
      ⟨List.range' b.head (msg.length + 1), []⟩) := by
  unfold putMessage rollOver
  simp only [if_neg (not_lt.mpr h)]
  rfl

/-- The message goes to the start. -/
theorem putMessage_rolls (h : size < b.head + (msg.length + 1)) : putMessage size b msg =
    ({ (b.store b.head (List.replicate (size - b.head) 0)).store 0 (msg ++ [0]) with head := msg.length + 1 },
      ⟨List.range' b.head (size - b.head) ++ List.range' 0 (msg.length + 1), []⟩) := by
  unfold putMessage rollOver
  simp only [if_pos h, Nat.zero_add]
  rfl

theorem rxPrintkToBuffer_fits (f : ℕ) (h : msg.length + 1 ≤ size) :
    rxPrintkToBuffer size (f + 1) b msg = .ok (putMessage size b msg) := if_neg (not_lt.mpr h)

/-- The tail does not move, the head stays in the buffer or behind its last
byte, and only bytes of the buffer are written. -/
theorem putMessage_inside (hb : b.head ≤ size) (hmsg : msg.length + 1 ≤ size) :
    (putMessage size b msg).1.tail = b.tail ∧ (putMessage size b msg).1.head ≤ size ∧
      (putMessage size b msg).2.read = [] ∧ ∀ i ∈ (putMessage size b msg).2.written, i < size := by
  by_cases h : b.head + (msg.length + 1) ≤ size
  · rw [putMessage_fits h]
    refine ⟨rfl, h, rfl, fun i hi => ?_⟩
    obtain ⟨-, hi⟩ := List.mem_range'_1.mp hi
    exact lt_of_lt_of_le hi h
  · rw [putMessage_rolls (not_le.mp h)]
    refine ⟨rfl, hmsg, rfl, fun i hi => ?_⟩
    rcases List.mem_append.mp hi with hi | hi
    · have := List.mem_range'_1.mp hi
      omega
    · have := List.mem_range'_1.mp hi
      omega

/-- What a step does to the cursors, and what it reads. -/
theorem step_cursors (hh : s.b.head ≤ size) {c : LogCall × Touched} (hst : Step size s c s') :
    s'.b.head ≤ size ∧
      (¬ Drains s c ∧ Inside size c ∧ s'.b.tail = s.b.tail ∨
        Drains s c ∧ (Inside size c ↔ s.b.tail < size) ∧
          s'.b.tail = if s.b.tail + 1 > size then 0 else s.b.tail + 1) := by
  obtain ⟨c, x⟩ := c
  obtain ⟨ha, he⟩ := hst
  cases c with
  | print msg =>
    obtain ⟨hput, hhead, hread, hin⟩ := putMessage_inside hh ha
    simp only [exec, rxPrintkToBuffer_fits 0 ha] at he
    obtain ⟨rfl, rfl⟩ := Prod.mk.inj (Except.ok.inj he)
    refine ⟨hhead, Or.inl ⟨fun hd => Bool.false_ne_true hd.1, fun i hi => ?_, hput⟩⟩
    rw [hread, List.append_nil] at hi
    exact hin i hi
  | drain =>
    obtain ⟨rfl, rfl⟩ := Prod.mk.inj (Except.ok.inj he)
    unfold loggerTurn
    by_cases hne : s.b.head ≠ s.b.tail
    · rw [if_pos hne]
      exact ⟨hh, Or.inr ⟨⟨rfl, hne⟩, by simp [Inside], rfl⟩⟩
    · rw [if_neg hne]
      exact ⟨hh, Or.inl ⟨fun hd => hne hd.2, by simp [Inside], rfl⟩⟩
  | other mem =>
    obtain ⟨rfl, rfl⟩ := Prod.mk.inj (Except.ok.inj he)
    exact ⟨hh, Or.inl ⟨fun hd => Bool.false_ne_true hd.1, by simp [Inside], rfl⟩⟩

/-- From a state with the tail `t` bytes after the start, all that is touched
lies in the buffer as long as no more than the bytes up to its end are sent. -/
theorem inside_iff_from {tr : List ((LogCall × Touched) × LogSys)} (h : Run.Exec (Step size) s tr)
    (hh : s.b.head ≤ size) (ht : s.b.tail ≤ size) :
    (∀ x ∈ tr, Inside size x.1) ↔ s.b.tail + Run.count Drains s tr ≤ size := by
  induction h with
  | nil s => simpa [Run.count] using ht
  | @cons s s' c tr hst _ ih =>
    rw [List.forall_mem_cons]
    obtain ⟨hh', ⟨hno, hin, htail⟩ | ⟨hd, hin, htail⟩⟩ := step_cursors hh hst
    · rw [Run.count, if_neg hno, Nat.zero_add, ← htail, ← ih hh' (htail ▸ ht)]
      exact and_iff_right hin
    · rw [Run.count, if_pos hd, hin]
      by_cases hlt : s.b.tail < size
      · rw [if_neg (by omega)] at htail
        rw [ih hh' (by omega), htail]
        omega
      · omega

/-- **Along a run all that is written and read lies in the buffer, if and only
if no more bytes are sent than the buffer has.** -/
theorem inside_iff (hi : Init s) {tr : List ((LogCall × Touched) × LogSys)} (h : Run.Exec (Step size) s tr) :
    (∀ x ∈ tr, Inside size x.1) ↔ Run.count Drains s tr ≤ size := by
  have hs := inside_iff_from h (by rw [hi.head]; exact Nat.zero_le _) (by rw [hi.tail]; exact Nat.zero_le _)
  rwa [hi.tail, Nat.zero_add] at hs

/-- The thread sends the byte at the tail. -/
theorem exists_drain (hne : s.b.head ≠ s.b.tail) : ∃ s', Step size s (.drain, ⟨[], [s.b.tail]⟩) s' ∧
    s'.b = { s.b with tail := if s.b.tail + 1 > size then 0 else s.b.tail + 1 } := by
  have he : ∃ s', s.exec size .drain = .ok (⟨[], [s.b.tail]⟩, s') ∧
      s'.b = { s.b with tail := if s.b.tail + 1 > size then 0 else s.b.tail + 1 } := by
    simp only [exec, loggerTurn, if_pos hne]
    exact ⟨_, rfl, rfl⟩
  obtain ⟨s', he, hb⟩ := he
  exact ⟨s', ⟨trivial, he⟩, hb⟩

/-- It sends any part of what lies between the tail and the head. -/
theorem exists_drains : ∀ (k : ℕ) {s : LogSys}, s.b.tail + k ≤ s.b.head → s.b.head ≤ size →
    ∃ tr, Run.Exec (Step size) s tr ∧ (Run.final s tr).b.head = s.b.head ∧ (Run.final s tr).b.tail = s.b.tail + k
  | 0, s, _, _ => ⟨[], .nil s, rfl, rfl⟩
  | k + 1, s, hk, hh => by
    have hne : s.b.head ≠ s.b.tail := by omega
    obtain ⟨s', hst, hb⟩ := @exists_drain size s hne
    rw [if_neg (by omega)] at hb
    have hhead : s'.b.head = s.b.head := by rw [hb]
    have htail : s'.b.tail = s.b.tail + 1 := by rw [hb]
    obtain ⟨tr, hex, hhead', htail'⟩ := exists_drains k (s := s') (by omega) (by omega)
    exact ⟨_, .cons hst hex, hhead'.trans hhead, htail'.trans (by omega)⟩

/-- A message that fits is printed in every state. -/
theorem exists_print (hmsg : msg.length + 1 ≤ size) : ∃ s',
    Step size s (.print msg, (putMessage size s.b msg).2) s' ∧ s'.b = (putMessage size s.b msg).1 ∧
      s'.waiting = s.waiting ++ List.range' (s'.b.head - (msg.length + 1)) msg.length ∧
      s'.overwritten = s.overwritten ++ (putMessage size s.b msg).2.written.filter (· ∈ s.waiting) := by
  have he : ∃ s', s.exec size (.print msg) = .ok ((putMessage size s.b msg).2, s') ∧
      s'.b = (putMessage size s.b msg).1 ∧
      s'.waiting = s.waiting ++ List.range' (s'.b.head - (msg.length + 1)) msg.length ∧
      s'.overwritten = s.overwritten ++ (putMessage size s.b msg).2.written.filter (· ∈ s.waiting) := by
    simp only [exec, rxPrintkToBuffer_fits 0 hmsg]
    exact ⟨_, rfl, rfl, rfl, rfl⟩
  obtain ⟨s', he, hs'⟩ := he
  exact ⟨s', ⟨hmsg, he⟩, hs'⟩

/-- A message can fill the empty buffer. -/
theorem exists_fill (hi : Init s) (hsize : 0 < size) : ∃ c s', Step size s c s' ∧ s'.b.head = size ∧ s'.b.tail = 0 ∧
    s'.waiting = List.range' 0 (size - 1) := by
  obtain ⟨msg, hmsg⟩ : ∃ msg : List UInt8, msg.length + 1 = size := by
    refine ⟨List.replicate (size - 1) 97, ?_⟩
    rw [List.length_replicate]
    omega
  obtain ⟨s', hst, hb, hw, -⟩ := exists_print (s := s) hmsg.le
  rw [putMessage_fits (by rw [hi.head]; omega)] at hb
  have hhead : s'.b.head = size := by
    rw [hb]
    show s.b.head + (msg.length + 1) = size
    rw [hi.head, Nat.zero_add, hmsg]
  refine ⟨_, s', hst, hhead, ?_, ?_⟩
  · rw [hb]
    exact hi.tail
  · rw [hw, hi.waiting, hhead, hmsg, Nat.sub_self, List.nil_append]
    congr 1
    omega

/-- In a buffer of three bytes or more, a message that fills it, all of it
sent, and another message make the thread read the position behind the buffer. -/
theorem exists_outside (hi : Init s) (hsize : 2 < size) :
    ∃ tr, Run.Exec (Step size) s tr ∧ ¬ ∀ x ∈ tr, Inside size x.1 := by
  obtain ⟨c, s1, hst1, hhead1, htail1, -⟩ := exists_fill hi (by omega : 0 < size)
  obtain ⟨tr, hex, hhead2, htail2⟩ := exists_drains size (s := s1) (by omega) hhead1.le
  obtain ⟨s3, hst3, hb3, -, -⟩ := exists_print (s := Run.final s1 tr) (show [98].length + 1 ≤ size from hsize.le)
  rw [putMessage_rolls (by rw [hhead2, hhead1]; omega)] at hb3
  have hhead3 : s3.b.head = 2 := by rw [hb3]; rfl
  have htail3 : s3.b.tail = size := by
    rw [hb3]
    show (Run.final s1 tr).b.tail = size
    omega
  have hne : s3.b.head ≠ s3.b.tail := by omega
  obtain ⟨s4, hst4, -⟩ := @exists_drain size s3 hne
  rw [htail3] at hst4
  refine ⟨_, .cons hst1 (Run.exec_append.mpr ⟨hex, .cons hst3 (.cons hst4 (.nil s4))⟩), fun hall => ?_⟩
  have hin := hall ((.drain, ⟨[], [size]⟩), s4) (by simp)
  exact lt_irrefl size (hin size (by simp))

/-! ### What is lost -/

/-- The bytes of a list that are not NUL. -/
def nonNul (l : List UInt8) : List UInt8 := l.filter (· ≠ 0)

theorem nonNul_append (l l' : List UInt8) : nonNul (l ++ l') = nonNul l ++ nonNul l' := List.filter_append ..

theorem nonNul_eq_nil {l : List UInt8} (h : ∀ x ∈ l, x = 0) : nonNul l = [] := by
  apply List.filter_eq_nil_iff.mpr
  intro x hx
  simp [h x hx]

/-- Nothing is lost: no byte that waits has been written over, and what is
sent is the beginning of what is accepted, NULs apart, and all of it when the
buffer is empty. -/
structure Lossless (s : LogSys) : Prop where
  kept : s.overwritten = []
  sent : nonNul s.sent <+: nonNul s.accepted
  whole : s.b.head = s.b.tail → nonNul s.sent = nonNul s.accepted

/-- A message has room between the head and the tail, behind the head or else
at the start. Behind the buffer a NUL is sent. -/
def HasRoom (size : ℕ) (s : LogSys) (c : LogCall × Touched) : Prop :=
  match c.1 with
  | .print msg =>
    if s.b.head + (msg.length + 1) ≤ size then s.b.tail ≤ s.b.head ∨ s.b.head + (msg.length + 1) < s.b.tail
    else s.b.tail ≤ s.b.head ∧ msg.length + 1 < s.b.tail
  | .drain => s.b.head ≠ s.b.tail → s.b.tail = size → s.b.mem size = 0
  | .other _ => True

instance (size : ℕ) (s : LogSys) : ∀ c, Decidable (HasRoom size s c)
  | (.print msg, _) => inferInstanceAs (Decidable (if s.b.head + (msg.length + 1) ≤ size
      then s.b.tail ≤ s.b.head ∨ s.b.head + (msg.length + 1) < s.b.tail
      else s.b.tail ≤ s.b.head ∧ msg.length + 1 < s.b.tail))
  | (.drain, _) => inferInstanceAs (Decidable (s.b.head ≠ s.b.tail → s.b.tail = size → s.b.mem size = 0))
  | (.other _, _) => inferInstanceAs (Decidable True)

/-- The positions from the tail to the head, in the order in which they are
sent, without the one behind the buffer. -/
def unread (size : ℕ) (b : PrintBuf) : List ℕ :=
  if b.tail ≤ b.head then List.range' b.tail (b.head - b.tail)
  else List.range' b.tail (size - b.tail) ++ List.range' 0 b.head

theorem unread_ahead (h : b.tail ≤ b.head) : unread size b = List.range' b.tail (b.head - b.tail) := if_pos h

theorem unread_around (h : b.head < b.tail) :
    unread size b = List.range' b.tail (size - b.tail) ++ List.range' 0 b.head := if_neg (not_le.mpr h)

theorem mem_unread {i : ℕ} : i ∈ unread size b ↔
    if b.tail ≤ b.head then b.tail ≤ i ∧ i < b.head else (b.tail ≤ i ∧ i < size) ∨ i < b.head := by
  unfold unread
  split_ifs
  · rw [List.mem_range'_1]
    omega
  · rw [List.mem_append, List.mem_range'_1, List.mem_range'_1]
    omega

/-- What is accepted is what is sent and what the buffer has from the tail to
the head, NULs apart; the bytes that wait are there. -/
structure Inv (size : ℕ) (s : LogSys) : Prop where
  head : s.b.head ≤ size
  tail : s.b.tail ≤ size
  bytes : nonNul s.accepted = nonNul s.sent ++ nonNul ((unread size s.b).map s.b.mem)
  waiting : ∀ i ∈ s.waiting, i ∈ unread size s.b
  kept : s.overwritten = []

theorem Inv.lossless (h : Inv size s) : Lossless s := by
  refine ⟨h.kept, ?_, fun he => ?_⟩
  · rw [h.bytes]
    exact List.prefix_append _ _
  · have hnil : unread size s.b = [] := by
      unfold unread
      rw [he, if_pos le_rfl, Nat.sub_self]
      rfl
    rw [h.bytes, hnil]
    simp [nonNul]

/-- In a buffer of two bytes or more, a message that fills it is written over
by the next one. -/
theorem exists_lossy (hi : Init s) (hsize : 1 < size) :
    ∃ tr, Run.Exec (Step size) s tr ∧ ¬ ∀ x ∈ Run.states s tr, Lossless x := by
  obtain ⟨c, s1, hst1, hhead1, -, hw1⟩ := exists_fill hi (by omega : 0 < size)
  obtain ⟨s2, hst2, -, -, hover⟩ := exists_print (s := s1) (show [98].length + 1 ≤ size from hsize)
  rw [putMessage_rolls (by rw [hhead1]; omega)] at hover
  refine ⟨_, .cons hst1 (.cons hst2 (.nil s2)), fun hall => ?_⟩
  have hkept := (hall s2 (by simp [Run.states])).kept
  have hzero : 0 ∈ s2.overwritten := by
    rw [hover, hw1]
    apply List.mem_append_right
    refine List.mem_filter.mpr ⟨?_, decide_eq_true (List.mem_range'_1.mpr ⟨le_rfl, by omega⟩)⟩
    exact List.mem_append_right _ (List.mem_range'_1.mpr ⟨le_rfl, by simp⟩)
  rw [hkept] at hzero
  cases hzero

theorem Init.inv (h : Init s) : Inv size s := by
  refine ⟨?_, ?_, ?_, ?_, h.overwritten⟩
  · rw [h.head]
    exact Nat.zero_le _
  · rw [h.tail]
    exact Nat.zero_le _
  · rw [h.accepted, h.sent, unread, h.head, h.tail]
    rfl
  · rw [h.waiting]
    simp

@[simp] theorem store_tail (p : ℕ) (l : List UInt8) : (b.store p l).tail = b.tail := rfl

theorem store_mem_of_notMem {p i : ℕ} {l : List UInt8} (h : i ∉ List.range' p l.length) :
    (b.store p l).mem i = b.mem i := by
  apply if_neg
  intro hi
  exact h (List.mem_range'_1.mpr hi)

theorem store_replicate {p k i : ℕ} (c : UInt8) (h : i ∈ List.range' p k) :
    (b.store p (List.replicate k c)).mem i = c := by
  obtain ⟨h1, h2⟩ := List.mem_range'_1.mp h
  have hlen : (List.replicate k c).length = k := List.length_replicate
  have hi : i - p < k := by omega
  unfold PrintBuf.store
  rw [hlen]
  show (if p ≤ i ∧ i < p + k then _ else _) = c
  rw [if_pos ⟨h1, h2⟩, List.getD_eq_getElem?_getD, List.getElem?_replicate, if_pos hi, Option.getD_some]

theorem map_store (b : PrintBuf) (p : ℕ) (l : List UInt8) :
    (List.range' p l.length).map (b.store p l).mem = l := by
  apply List.ext_getElem
  · simp
  · intro i h1 h2
    simp [PrintBuf.store, h2]

/-- A message that has room is put behind what is unread, after some NULs, and
what is unread is left alone. -/
theorem putMessage_unread (hh : b.head ≤ size) (ht : b.tail ≤ size)
    (hroom : if b.head + (msg.length + 1) ≤ size then b.tail ≤ b.head ∨ b.head + (msg.length + 1) < b.tail
      else b.tail ≤ b.head ∧ msg.length + 1 < b.tail) :
    ∃ cleared, (putMessage size b msg).2.written =
        cleared ++ List.range' ((putMessage size b msg).1.head - (msg.length + 1)) (msg.length + 1) ∧
      unread size (putMessage size b msg).1 = unread size b ++ (putMessage size b msg).2.written ∧
      (∀ i ∈ (putMessage size b msg).2.written, i ∉ unread size b) ∧
      (∀ i, i ∉ (putMessage size b msg).2.written → (putMessage size b msg).1.mem i = b.mem i) ∧
      (∀ i ∈ cleared, (putMessage size b msg).1.mem i = 0) ∧
      (List.range' ((putMessage size b msg).1.head - (msg.length + 1)) (msg.length + 1)).map
        (putMessage size b msg).1.mem = msg ++ [0] := by
  have hlen : (msg ++ [0]).length = msg.length + 1 := List.length_append
  by_cases h : b.head + (msg.length + 1) ≤ size
  · rw [if_pos h] at hroom
    rw [putMessage_fits h]
    refine ⟨[], ?_, ?_, ?_, ?_, ?_, ?_⟩
    · rw [Nat.add_sub_cancel]
      rfl
    · rcases le_or_gt b.tail b.head with hle | hlt
      · rw [unread_ahead hle]
        refine (unread_ahead (Nat.le_add_right_of_le hle)).trans ?_
        show List.range' b.tail (b.head + (msg.length + 1) - b.tail) = _
        obtain ⟨k, hk⟩ := Nat.exists_eq_add_of_le hle
        rw [hk, Nat.add_sub_cancel_left, Nat.add_assoc, Nat.add_sub_cancel_left, List.range'_append_1]
      · have hroom' := hroom.resolve_left (not_le.mpr hlt)
        rw [unread_around hlt, List.append_assoc]
        refine (unread_around hroom').trans ?_
        have happ := List.range'_append_1 (s := 0) (m := b.head) (n := msg.length + 1)
        rw [Nat.zero_add] at happ
        rw [happ]
        rfl
    · intro i hi hu
      have hi' := List.mem_range'_1.mp hi
      rw [mem_unread] at hu
      split_ifs at hu <;> omega
    · intro i hi
      exact store_mem_of_notMem (by rwa [hlen])
    · intro i hi
      cases hi
    · rw [Nat.add_sub_cancel, ← hlen]
      exact map_store b b.head (msg ++ [0])
  · rw [if_neg h] at hroom
    obtain ⟨hle, hlt⟩ := hroom
    rw [putMessage_rolls (not_le.mp h)]
    refine ⟨List.range' b.head (size - b.head), ?_, ?_, ?_, ?_, ?_, ?_⟩
    · rw [Nat.sub_self]
    · rw [unread_ahead hle, ← List.append_assoc]
      refine (unread_around hlt).trans ?_
      show List.range' b.tail (size - b.tail) ++ List.range' 0 (msg.length + 1) = _
      congr 1
      obtain ⟨k, hk⟩ := Nat.exists_eq_add_of_le hle
      rw [hk, Nat.add_sub_cancel_left, List.range'_append_1]
      congr 1
      omega
    · intro i hi hu
      rw [mem_unread, if_pos hle] at hu
      rcases List.mem_append.mp hi with hi | hi
      · have := List.mem_range'_1.mp hi
        omega
      · have := List.mem_range'_1.mp hi
        omega
    · intro i hi
      obtain ⟨h1, h2⟩ := not_or.mp (mt List.mem_append.mpr hi)
      show ((b.store b.head _).store 0 (msg ++ [0])).mem i = _
      rw [store_mem_of_notMem (by rwa [hlen]), store_mem_of_notMem (by rwa [List.length_replicate])]
    · intro i hi
      have hi' := List.mem_range'_1.mp hi
      have hout : i ∉ List.range' 0 (msg ++ [0]).length := by
        intro hm
        have := List.mem_range'_1.mp hm
        omega
      show ((b.store b.head _).store 0 (msg ++ [0])).mem i = 0
      rw [store_mem_of_notMem hout]
      exact store_replicate 0 hi
    · rw [Nat.sub_self, ← hlen]
      exact map_store _ 0 (msg ++ [0])

/-- A message that has room is appended to what waits. -/
theorem Inv.print (h : Inv size s) (hmsg : msg.length + 1 ≤ size) {x : Touched}
    (hroom : HasRoom size s (.print msg, x)) (hst : Step size s (.print msg, x) s') : Inv size s' := by
  obtain ⟨cleared, hw, hun, hfree, hmem, hzero, hput⟩ := putMessage_unread h.head h.tail hroom
  obtain ⟨htail, hhead, -, -⟩ := putMessage_inside h.head hmsg
  have he := hst.2
  simp only [exec, rxPrintkToBuffer_fits 0 hmsg] at he
  obtain ⟨rfl, rfl⟩ := Prod.mk.inj (Except.ok.inj he)
  refine ⟨hhead, htail ▸ h.tail, ?_, ?_, ?_⟩
  · have hsame : (unread size s.b).map (putMessage size s.b msg).1.mem = (unread size s.b).map s.b.mem :=
      List.map_congr_left fun i hi => hmem i fun hi' => hfree i hi' hi
    have hcleared : nonNul (cleared.map (putMessage size s.b msg).1.mem) = [] := by
      apply nonNul_eq_nil
      intro c hc
      obtain ⟨i, hi, rfl⟩ := List.mem_map.mp hc
      exact hzero i hi
    show nonNul (s.accepted ++ msg) = nonNul s.sent ++ nonNul ((unread size _).map _)
    rw [hun, hw, List.map_append, List.map_append, hsame, hput]
    simp only [nonNul_append, hcleared, h.bytes, List.append_assoc, List.nil_append]
    congr 2
    exact (List.append_nil _).symm
  · intro i hi
    show i ∈ unread size (putMessage size s.b msg).1
    rw [hun]
    rcases List.mem_append.mp hi with hi | hi
    · exact List.mem_append_left _ (h.waiting i hi)
    · apply List.mem_append_right
      rw [hw]
      apply List.mem_append_right
      have := List.mem_range'_1.mp hi
      exact List.mem_range'_1.mpr ⟨this.1, by omega⟩
  · show s.overwritten ++ _ = []
    rw [h.kept, List.nil_append, List.filter_eq_nil_iff]
    intro i hi hi'
    exact hfree i hi (h.waiting i (of_decide_eq_true hi'))

/-- The tail moves over the first position of what is unread, or over the one
behind the buffer. -/
theorem unread_next (hh : b.head ≤ size) (ht : b.tail ≤ size) (hne : b.head ≠ b.tail) :
    unread size b = (if b.tail = size then [] else [b.tail]) ++
      unread size { b with tail := if b.tail + 1 > size then 0 else b.tail + 1 } := by
  by_cases hend : b.tail = size
  · have h0 : unread size { b with tail := 0 } = List.range' 0 b.head := unread_ahead (Nat.zero_le b.head)
    rw [if_pos hend, unread_around (by omega), if_pos (by omega), h0, hend, Nat.sub_self]
    rfl
  · rw [if_neg hend, if_neg (by omega)]
    rcases le_or_gt b.tail b.head with hle | hlt
    · have h1 : b.tail + 1 ≤ b.head := by omega
      have h2 : unread size { b with tail := b.tail + 1 } = List.range' (b.tail + 1) (b.head - (b.tail + 1)) :=
        unread_ahead h1
      rw [unread_ahead hle, h2, show b.head - b.tail = b.head - (b.tail + 1) + 1 by omega, List.range'_succ]
      rfl
    · have h1 : b.head < b.tail + 1 := by omega
      have h2 : unread size { b with tail := b.tail + 1 } =
          List.range' (b.tail + 1) (size - (b.tail + 1)) ++ List.range' 0 b.head := unread_around h1
      rw [unread_around hlt, h2, show size - b.tail = size - (b.tail + 1) + 1 by omega, List.range'_succ]
      rfl

/-- The byte at the tail is sent. -/
theorem Inv.drain (h : Inv size s) {x : Touched} (hroom : HasRoom size s (.drain, x))
    (hst : Step size s (.drain, x) s') : Inv size s' := by
  obtain ⟨rfl, rfl⟩ := Prod.mk.inj (Except.ok.inj hst.2)
  unfold loggerTurn
  by_cases hne : s.b.head = s.b.tail
  · rw [if_neg (not_not.mpr hne)]
    refine ⟨h.head, h.tail, ?_, fun i hi => h.waiting i (List.mem_of_mem_filter hi), h.kept⟩
    show nonNul s.accepted = nonNul (s.sent ++ []) ++ _
    rw [List.append_nil]
    exact h.bytes
  · rw [if_pos hne]
    have hnext := unread_next h.head h.tail hne
    refine ⟨h.head, ?_, ?_, fun i hi => ?_, h.kept⟩
    · show (if s.b.tail + 1 > size then 0 else s.b.tail + 1) ≤ size
      split_ifs <;> omega
    · show nonNul s.accepted = nonNul (s.sent ++ [s.b.mem s.b.tail]) ++ nonNul ((unread size _).map s.b.mem)
      rw [h.bytes, hnext, List.map_append, nonNul_append, nonNul_append, ← List.append_assoc]
      congr 2
      by_cases hend : s.b.tail = size
      · -- the byte behind the buffer
        have hz : nonNul [s.b.mem s.b.tail] = [] := by
          apply nonNul_eq_nil
          intro x hx
          rw [List.mem_singleton.mp hx, hend]
          exact hroom hne hend
        rw [if_pos hend, hz]
        rfl
      · rw [if_neg hend]
        rfl
    · obtain ⟨hi, hread⟩ := List.mem_filter.mp hi
      have hit : i ≠ s.b.tail := by
        intro he
        exact of_decide_eq_true hread (List.mem_singleton.mpr he)
      have hmem := h.waiting i hi
      rw [hnext] at hmem
      refine (List.mem_append.mp hmem).resolve_left fun hm => ?_
      split_ifs at hm
      · cases hm
      · exact hit (List.mem_singleton.mp hm)

/-- What lies behind the buffer is not looked at. -/
theorem Inv.other (h : Inv size s) {mem : ℕ → UInt8} (hmem : ∀ i < size, mem i = s.b.mem i) :
    Inv size { s with b := { s.b with mem := mem } } := by
  refine ⟨h.head, h.tail, ?_, h.waiting, h.kept⟩
  have hun : (unread size s.b).map mem = (unread size s.b).map s.b.mem := by
    apply List.map_congr_left
    intro i hi
    apply hmem
    rw [mem_unread] at hi
    have := h.head
    split_ifs at hi <;> omega
  show nonNul s.accepted = nonNul s.sent ++ nonNul ((unread size s.b).map mem)
  rw [hun]
  exact h.bytes

theorem Inv.step (h : Inv size s) {c : LogCall × Touched} (hroom : HasRoom size s c) (hst : Step size s c s') :
    Inv size s' := by
  obtain ⟨c, x⟩ := c
  cases c with
  | print msg => exact h.print hst.1 hroom hst
  | drain => exact h.drain hroom hst
  | other mem =>
    obtain ⟨-, rfl⟩ := Prod.mk.inj (Except.ok.inj hst.2)
    exact h.other hst.1

/-- **Along a run whose messages have room nothing is lost**, if the byte
behind the buffer is NUL whenever it is sent. -/
theorem lossless_of_run (hi : Init s) {tr : List ((LogCall × Touched) × LogSys)} (h : Run.Exec (Step size) s tr)
    (hg : Run.Guarded (HasRoom size) s tr) : ∀ x ∈ Run.states s tr, Lossless x :=
  fun x hx => (h.invariant_of_guarded (Inv size) (fun _ _ _ hs hc hst => hs.step hc hst) hg hi.inv x hx).lossless

end Calls

/-- Nothing has been printed. -/
def nothingPrinted : LogSys where
  b := { mem := fun _ => 0 }

theorem nothingPrinted_init : Init nothingPrinted := ⟨rfl, rfl, rfl, rfl, rfl, rfl⟩

/-- Two messages, a turn after the first one and two more at the end. -/
theorem inside_nothingPrinted : Init nothingPrinted ∧ ∃ tr, Run.Exec (Step configPrintBufferSize) nothingPrinted tr ∧
    tr.length = 5 ∧ ∀ x ∈ tr, Inside configPrintBufferSize x.1 := by
  refine ⟨nothingPrinted_init, ?_⟩
  obtain ⟨tr, hex, hp⟩ := Run.exists_exec
    (f := Run.attempt (Admissible configPrintBufferSize) (exec configPrintBufferSize))
    (fun _ _ _ => Run.step_of_attempt) (s := nothingPrinted)
    [(.print [97], ⟨[0, 1], []⟩), (.drain, ⟨[], [0]⟩), (.print [98, 99], ⟨[2, 3, 4], []⟩), (.drain, ⟨[], [1]⟩),
      (.drain, ⟨[], [2]⟩)]
    (fun tr => decide (tr.length = 5 ∧ Run.count Drains nothingPrinted tr ≤ configPrintBufferSize)) (by decide +kernel)
  obtain ⟨hlen, hcount⟩ := of_decide_eq_true hp
  exact ⟨tr, hex, hlen, (inside_iff nothingPrinted_init hex).mpr hcount⟩

/-- A message of 4095 bytes fills the buffer; once it is sent and there is
another message, the thread reads the position behind the buffer. -/
theorem read_behind : Init nothingPrinted ∧ ∃ tr, Run.Exec (Step configPrintBufferSize) nothingPrinted tr ∧
    ¬ ∀ x ∈ tr, Inside configPrintBufferSize x.1 :=
  ⟨nothingPrinted_init, exists_outside nothingPrinted_init (by decide)⟩

/-- Three messages, the last one at the start of the buffer, and all of them
sent. -/
theorem lossless_nothingPrinted : Init nothingPrinted ∧ ∃ tr, Run.Exec (Step 8) nothingPrinted tr ∧ tr.length = 17 ∧
    ∀ x ∈ Run.states nothingPrinted tr, Lossless x := by
  refine ⟨nothingPrinted_init, ?_⟩
  obtain ⟨tr, hex, hp⟩ := Run.exists_exec (f := Run.attempt (Admissible 8) (exec 8))
    (fun _ _ _ => Run.step_of_attempt) (s := nothingPrinted)
    ((.print [97, 98, 99], ⟨[0, 1, 2, 3], []⟩) :: [0, 1, 2, 3].map (fun i => (.drain, ⟨[], [i]⟩)) ++
      (.print [120, 121, 122], ⟨[4, 5, 6, 7], []⟩) :: [4, 5].map (fun i => (.drain, ⟨[], [i]⟩)) ++
      (.print [104, 105], ⟨[0, 1, 2], []⟩) :: [6, 7, 8, 0, 1, 2].map (fun i => (.drain, ⟨[], [i]⟩)) ++
      [(.drain, ⟨[], []⟩), (.drain, ⟨[], []⟩)])
    (fun tr => decide (tr.length = 17 ∧ Run.Guarded (HasRoom 8) nothingPrinted tr)) (by decide +kernel)
  obtain ⟨hlen, hg⟩ := of_decide_eq_true hp
  exact ⟨tr, hex, hlen, lossless_of_run nothingPrinted_init hex hg⟩

/-- A second message goes to the start, where the first one of 4095 bytes
waits. -/
theorem written_over : Init nothingPrinted ∧ ∃ tr, Run.Exec (Step configPrintBufferSize) nothingPrinted tr ∧
    ¬ ∀ x ∈ Run.states nothingPrinted tr, Lossless x :=
  ⟨nothingPrinted_init, exists_lossy nothingPrinted_init (by decide)⟩

end LogSys

end Rosx
