/-
# Allocating and releasing blocks

`rx_allocate_block` and `rx_release_block` (`kernel/rx_blockpool.c`) on the
pools of `Rosx/BlockPool.lean` and the kernel. A block is known by its
address, the header in front of it by its own; while a block is handed out,
the header's `next` is the pool.

A task that finds no free block is put on the pool's chain, and the call
returns `OS_OK` to it without a block.
-/
import Rosx.BlockPool
import Rosx.Timer

namespace Rosx

open Linked

namespace BlockMem

variable {n : ℕ}

/-- `rx_delete_block_pool`. -/
def rxDeleteBlockPool (b : BlockMem n) (k : Kernel n) (p : ℕ) : OsErr × BlockMem n × Kernel n :=
  let k := k.enterCritical
  if (b.pool p).magic = rxBlockPoolMagic then (.osOk, b.setPool p { b.pool p with magic := 0 }, k.exitCritical)
  else (.osErr, b, k.exitCritical)

/-- The running task leaves the ready queue for the chain of the pool. -/
def joinPool (b : BlockMem n) (k : Kernel n) (p : ℕ) : Res (BlockMem n × Kernel n) := do
  let t := k.curr
  let k := k.modTcb t fun c => { c with state := .suspend, bpool := some p }
  let k ← rxRemoveFromReadyQ k t
  let k := k.setNext t none
  let (head, k) ← appendWaiter k (b.pool p).task t
  return (b.setPool p { b.pool p with task := head }, k)

/-- The first free block is handed out; its header remembers the pool. -/
def takeBlock (b : BlockMem n) (p temp : ℕ) : BlockMem n :=
  let b := b.setPool p { b.pool p with freeBlocks := (b.node temp).next, available := (b.pool p).available - 1 }
  b.setNode temp { b.node temp with next := some p }

/-- `rx_allocate_block`, with the block it writes to `*block_ptr`. -/
def rxAllocateBlock (b : BlockMem n) (k : Kernel n) (p : ℕ) (flags : ℤ) :
    Res ((OsErr × Option ℕ) × BlockMem n × Kernel n) :=
  let k := k.enterCritical
  if (b.pool p).magic ≠ rxBlockPoolMagic then .ok ((.osErr, none), b, k.exitCritical)
  else
    match (b.pool p).freeBlocks with
    | none =>
      if flags = osNoWait then .ok ((.osErr, none), b, k.exitCritical)
      else do
        let (b, k) ← joinPool b k p
        return ((.osOk, none), b, k.exitCritical)
    | some temp => .ok ((.osOk, some (b.node temp).block), b.takeBlock p temp, k.exitCritical)

/-- The header goes back to the head of the free blocks. -/
def putBlock (b : BlockMem n) (p start : ℕ) : BlockMem n :=
  let b := b.setNode start { b.node start with next := (b.pool p).freeBlocks }
  b.setPool p { b.pool p with freeBlocks := some start, available := (b.pool p).available + 1 }

/-- The first task on the chain of the pool is made ready. -/
def wakePool (b : BlockMem n) (k : Kernel n) (p : ℕ) : Res (BlockMem n × Kernel n) :=
  match (b.pool p).task with
  | none => .ok (b, k)
  | some t => do
    let b := b.setPool p { b.pool p with task := (k.tcb t).next }
    let k := k.modTcb t fun c => { c with state := .ready, bpool := none }
    let (_, k) ← rxAddToReadyQ k t
    return (b, k)

/-- `rx_release_block`: if the pool is not stamped with the magic number it
returns from inside the critical section, which the `pr_error` before it has
ended. -/
def rxReleaseBlock (b : BlockMem n) (k : Kernel n) (blockPtr : ℕ) : Res (OsErr × BlockMem n × Kernel n) :=
  let start := blockPtr - blockChainSize.toNat
  match (b.node start).next with
  | none => .error .null
  | some p =>
    let k := k.enterCritical
    if (b.pool p).magic ≠ rxBlockPoolMagic then .ok (.osErr, b, k.prError)
    else do
      let (b, k) ← wakePool (b.putBlock p start) k p
      return (.osOk, b, k.exitCritical)

/-- `rx_prioritize_block_pool` does nothing. -/
def rxPrioritizeBlockPool (b : BlockMem n) (_p : ℕ) : OsErr × BlockMem n := (.osOk, b)

end BlockMem

end Rosx
