/-
# Block pools (`kernel/rx_blockpool.c`)

A block pool cuts a memory area into nodes, each a `struct block_chain`
header followed by a block of `block_size` bytes, and links them from
`free_blocks`. The builds are for 32-bit targets (`-m32`, ARM), so pointers
and `size_t` have 4 bytes and the header has 8. Sizes are words and wrap as
in C; addresses are integers, since C gives a pointer sum that leaves the
address space no value.

`rx_create_block_pool` puts node `i` at the index `i * (block_size + 8)` of an
array of headers, not at that byte: the nodes are eight times too far apart
(`nodeAddr_of_mul_lt`). The nodes are those of the pool if and only if there is
room for one of them only (`laidOut_iff`).

The sanity check adds the header to the block size before it compares, and the
sum wraps for the last eight block sizes (`rxCreateBlockPool_sound_iff`).

Not modelled here: the bytes of other objects that a node outside the area
overwrites.

Key definitions: `rxCreateBlockPool`, `LaidOut`. Key theorems: `laidOut_iff`,
`rxCreateBlockPool_sound_iff`.
-/
import Rosx.Kernel
import Mathlib.Order.Interval.Set.Disjoint
import Mathlib.Order.CompletePartialOrder
import Mathlib.Algebra.Group.Nat.Defs

namespace Rosx

open Linked

/-- `struct block_chain`: the header of a node. The `next` of a node that is
handed out is its pool. -/
structure BlockChain where
  block : ℕ := 0
  next : Option ℕ := none
  deriving DecidableEq, Repr

/-- `struct block_pool`. -/
structure BlockPool (n : ℕ) where
  magic : Word := 0
  name : List Char := []
  startOfPool : ℕ := 0
  poolSize : Word := 0
  blockSize : Word := 0
  available : Word := 0
  freeBlocks : Option ℕ := none
  task : Option (Fin n) := none

/-- The headers in memory by their address, and the pools. -/
structure BlockMem (n : ℕ) where
  node : ℕ → BlockChain
  pool : ℕ → BlockPool n

/-- `BLOCK_POOL_NAME_LEN`. -/
def blockPoolNameLen : ℕ := 12

/-- `RX_BLOCK_POOL_MAGIC`. -/
def rxBlockPoolMagic : Word := 0x55555555#32

/-- `sizeof(struct block_chain)`: two pointers. -/
def blockChainSize : Word := 8

namespace BlockMem

variable {n : ℕ}

def setNode (m : BlockMem n) (a : ℕ) (b : BlockChain) : BlockMem n :=
  { m with node := Function.update m.node a b }

def setPool (m : BlockMem n) (p : ℕ) (q : BlockPool n) : BlockMem n :=
  { m with pool := Function.update m.pool p q }

/-- The `next` links of the headers. -/
def nx (m : BlockMem n) (a : ℕ) : Option ℕ := (m.node a).next

/-- `(struct block_chain *)start_of_pool + (i * (block_size + sizeof(struct block_chain)))`:
an index into an array of headers. -/
def nodeAddr (start : ℕ) (blockSize : Word) (i : ℕ) : ℕ :=
  start + (BitVec.ofNat 32 i * (blockSize + blockChainSize)).toNat * blockChainSize.toNat

/-- The body of the loop of `rx_create_block_pool`: node `i` goes to the head
of the free blocks. -/
def linkBlock (p start : ℕ) (blockSize : Word) (m : BlockMem n) (i : ℕ) : BlockMem n :=
  let temp := nodeAddr start blockSize i
  let block := temp + blockChainSize.toNat
  let pool := m.pool p
  match pool.freeBlocks with
  | none => (m.setPool p { pool with freeBlocks := some temp }).setNode temp ⟨block, none⟩
  | some b => (m.setNode temp ⟨block, some b⟩).setPool p { pool with freeBlocks := some temp }

/-- The loop, with `k` turns to go from `i` on. -/
def linkBlocks (p start : ℕ) (blockSize : Word) : ℕ → ℕ → BlockMem n → BlockMem n
  | 0, _, m => m
  | k + 1, i, m => linkBlocks p start blockSize k (i + 1) (linkBlock p start blockSize m i)

/-- The name is cut to fit, in the caller's string too. -/
def cutName (name : List Char) : List Char :=
  if name.length > blockPoolNameLen - 1 then name.take (blockPoolNameLen - 1) else name

/-- `rx_create_block_pool`; it does not set `task`. -/
def rxCreateBlockPool (m : BlockMem n) (p : ℕ) (name : List Char) (blockSize : Word) (start : ℕ)
    (poolSize : Word) : OsErr × BlockMem n :=
  if blockSize = 0 ∨ poolSize = 0 ∨ poolSize < blockSize + blockChainSize then (.osErr, m)
  else
    let available := poolSize / (blockSize + blockChainSize)
    let m := m.setPool p
      { m.pool p with
        name := cutName name, startOfPool := start, poolSize := poolSize, blockSize := blockSize
        available := available, freeBlocks := none }
    let m := linkBlocks p start blockSize available.toNat 0 m
    (.osOk, m.setPool p { m.pool p with magic := rxBlockPoolMagic })

/-- The bytes of a node: its header and its block. -/
def bytes (m : BlockMem n) (blockSize : Word) (a : ℕ) : Set ℕ :=
  Set.Ico a (a + blockChainSize.toNat) ∪ Set.Ico (m.node a).block ((m.node a).block + blockSize.toNat)

/-- The free blocks of pool `p` are nodes inside the area, no two of them
share a byte, and there are as many as fit. -/
def LaidOut (m : BlockMem n) (p : ℕ) (blockSize : Word) (start : ℕ) (poolSize : Word) : Prop :=
  ∃ l, Chain m.nx (m.pool p).freeBlocks l ∧
    (∀ a ∈ l, m.bytes blockSize a ⊆ Set.Ico start (start + poolSize.toNat)) ∧
    l.Pairwise (fun a b => Disjoint (m.bytes blockSize a) (m.bytes blockSize b)) ∧
    l.length = (m.pool p).available.toNat ∧
    (m.pool p).available.toNat = poolSize.toNat / (blockSize.toNat + blockChainSize.toNat)

/-! ### The loop -/

variable {m : BlockMem n} {p start : ℕ} {blockSize poolSize : Word}

/-- As long as the index does not wrap, node `i` is eight times the size of a
node from node `i - 1`. -/
theorem nodeAddr_of_mul_lt (hb : blockSize.toNat + 8 < 2 ^ 32) {i : ℕ}
    (hi : i * (blockSize.toNat + 8) < 2 ^ 32) :
    nodeAddr start blockSize i = start + i * (blockSize.toNat + 8) * 8 := by
  have h8 : blockChainSize.toNat = 8 := rfl
  have hsum : (blockSize + blockChainSize).toNat = blockSize.toNat + 8 := by
    rw [BitVec.toNat_add, h8, Nat.mod_eq_of_lt hb]
  have hle : i ≤ i * (blockSize.toNat + 8) := Nat.le_mul_of_pos_right i (by omega)
  have hmod : i % 2 ^ 32 = i := Nat.mod_eq_of_lt (by omega)
  rw [nodeAddr, BitVec.toNat_mul, BitVec.toNat_ofNat, hsum, h8, hmod, Nat.mod_eq_of_lt hi]

@[simp] theorem setNode_pool (m : BlockMem n) (a : ℕ) (b : BlockChain) : (m.setNode a b).pool = m.pool := rfl
@[simp] theorem setPool_node (m : BlockMem n) (p : ℕ) (q : BlockPool n) : (m.setPool p q).node = m.node := rfl

@[simp] theorem setPool_pool_self (m : BlockMem n) (p : ℕ) (q : BlockPool n) : (m.setPool p q).pool p = q :=
  Function.update_self _ _ _

theorem setNode_nx (m : BlockMem n) (a : ℕ) (b : BlockChain) :
    (m.setNode a b).nx = Function.update m.nx a b.next := by
  funext x
  by_cases hx : x = a
  · subst hx
    simp [nx, setNode]
  · simp [nx, setNode, hx]

/-- One turn of the loop writes one header and moves `free_blocks` to it. -/
theorem linkBlock_spec (m : BlockMem n) (p start : ℕ) (blockSize : Word) (i : ℕ) :
    (linkBlock p start blockSize m i).node = Function.update m.node (nodeAddr start blockSize i)
      ⟨nodeAddr start blockSize i + blockChainSize.toNat, (m.pool p).freeBlocks⟩ ∧
    (linkBlock p start blockSize m i).pool p =
      { m.pool p with freeBlocks := some (nodeAddr start blockSize i) } := by
  cases hf : (m.pool p).freeBlocks with
  | none => simp [linkBlock, hf, setNode, setPool]
  | some b => simp [linkBlock, hf, setNode, setPool]

/-- The nodes `0, …, i - 1` as the loop links them: the last one first. -/
def nodesTo (start : ℕ) (blockSize : Word) (i : ℕ) : List ℕ :=
  ((List.range i).map (nodeAddr start blockSize)).reverse

theorem nodesTo_succ (start : ℕ) (blockSize : Word) (i : ℕ) :
    nodesTo start blockSize (i + 1) = nodeAddr start blockSize i :: nodesTo start blockSize i := by
  simp [nodesTo, List.range_succ]

theorem mem_nodesTo {i a : ℕ} : a ∈ nodesTo start blockSize i ↔ ∃ j < i, nodeAddr start blockSize j = a := by
  simp [nodesTo]

/-- The loop has linked the nodes below `i`, and their blocks follow their
headers. -/
structure Linked (m : BlockMem n) (p start : ℕ) (blockSize : Word) (i : ℕ) : Prop where
  chain : Chain m.nx (m.pool p).freeBlocks (nodesTo start blockSize i)
  block : ∀ a ∈ nodesTo start blockSize i, (m.node a).block = a + blockChainSize.toNat

/-- One turn links one more node, if no earlier node is at its address. -/
theorem Linked.linkBlock {i : ℕ} (h : Linked m p start blockSize i)
    (hi : nodeAddr start blockSize i ∉ nodesTo start blockSize i) :
    Linked (linkBlock p start blockSize m i) p start blockSize (i + 1) := by
  obtain ⟨hnode, hpool⟩ := linkBlock_spec m p start blockSize i
  have hnx : (BlockMem.linkBlock p start blockSize m i).nx
      = Function.update m.nx (nodeAddr start blockSize i) (m.pool p).freeBlocks := by
    rw [← setNode_nx m _ ⟨nodeAddr start blockSize i + blockChainSize.toNat, (m.pool p).freeBlocks⟩]
    funext x
    simp [nx, hnode, setNode]
  constructor
  · rw [hnx, hpool, nodesTo_succ]
    exact Chain.insertHead h.chain hi
  · intro a ha
    rw [nodesTo_succ] at ha
    rw [hnode]
    rcases List.mem_cons.mp ha with rfl | ha
    · rw [Function.update_self]
    · rw [Function.update_of_ne (ne_of_mem_of_not_mem ha hi)]
      exact h.block a ha

/-- Wherever the nodes are, the loop does not count them. -/
theorem linkBlocks_available : ∀ (k i : ℕ) (m : BlockMem n),
    ((linkBlocks p start blockSize k i m).pool p).available = (m.pool p).available
  | 0, _, _ => rfl
  | k + 1, i, m => by
    rw [linkBlocks, linkBlocks_available k (i + 1), (linkBlock_spec m p start blockSize i).2]

/-- The loop links all its nodes. -/
theorem linkBlocks_spec (hb : blockSize.toNat + 8 < 2 ^ 32) : ∀ (k i : ℕ) {m : BlockMem n},
    Linked m p start blockSize i → (i + k) * (blockSize.toNat + 8) < 2 ^ 32 →
    Linked (linkBlocks p start blockSize k i m) p start blockSize (i + k)
  | 0, _, _, h, _ => h
  | k + 1, i, m, h, hk => by
    have hfresh : nodeAddr start blockSize i ∉ nodesTo start blockSize i := by
      rw [mem_nodesTo]
      rintro ⟨j, hj, he⟩
      have hji : j * (blockSize.toNat + 8) < i * (blockSize.toNat + 8) := Nat.mul_lt_mul_of_pos_right hj (by omega)
      have hik : i * (blockSize.toNat + 8) ≤ (i + (k + 1)) * (blockSize.toNat + 8) :=
        Nat.mul_le_mul_right _ (by omega)
      rw [nodeAddr_of_mul_lt hb (by omega), nodeAddr_of_mul_lt hb (by omega)] at he
      omega
    have hk' : (i + 1 + k) * (blockSize.toNat + 8) < 2 ^ 32 := by rwa [Nat.add_right_comm, Nat.add_assoc]
    rw [show i + (k + 1) = i + 1 + k by omega]
    exact linkBlocks_spec hb k (i + 1) (h.linkBlock hfresh) hk'

/-! ### The pool -/

/-- What an accepted call leaves: `poolSize / (blockSize + 8)` nodes. -/
theorem rxCreateBlockPool_spec {name : List Char} {m' : BlockMem n} (hb : blockSize.toNat + 8 < 2 ^ 32)
    (h : rxCreateBlockPool m p name blockSize start poolSize = (.osOk, m')) :
    blockSize.toNat + 8 ≤ poolSize.toNat ∧
    (m'.pool p).available.toNat = poolSize.toNat / (blockSize.toNat + 8) ∧
    Linked m' p start blockSize (poolSize.toNat / (blockSize.toNat + 8)) := by
  have h8 : blockChainSize.toNat = 8 := rfl
  have hsum : (blockSize + blockChainSize).toNat = blockSize.toNat + 8 := by
    rw [BitVec.toNat_add, h8, Nat.mod_eq_of_lt hb]
  have hdiv : (poolSize / (blockSize + blockChainSize)).toNat = poolSize.toNat / (blockSize.toNat + 8) := by
    rw [BitVec.toNat_udiv, hsum]
  have hmul : poolSize.toNat / (blockSize.toNat + 8) * (blockSize.toNat + 8) < 2 ^ 32 :=
    lt_of_le_of_lt (Nat.div_mul_le_self _ _) poolSize.isLt
  simp only [rxCreateBlockPool] at h
  split_ifs at h with hguard
  · cases h
  · obtain ⟨-, rfl⟩ := Prod.mk.inj h
    simp only [not_or, BitVec.lt_def, hsum, not_lt] at hguard
    rw [hdiv]
    set m₀ := m.setPool p _ with hm₀
    have hlin : Linked m₀ p start blockSize 0 := by
      constructor
      · simp [hm₀, nodesTo]
      · simp [nodesTo]
    have hl := linkBlocks_spec hb (poolSize.toNat / (blockSize.toNat + 8)) 0 hlin (by simpa using hmul)
    rw [Nat.zero_add] at hl
    refine ⟨hguard.2.2, ?_, ?_, ?_⟩
    · rw [setPool_pool_self, linkBlocks_available, hm₀, setPool_pool_self, hdiv]
    · rw [setPool_pool_self]
      exact hl.chain
    · exact hl.block

/-- With their blocks behind their headers, the bytes of a node are one range. -/
theorem Linked.bytes_eq {i : ℕ} (h : Linked m p start blockSize i) {a : ℕ} (ha : a ∈ nodesTo start blockSize i) :
    m.bytes blockSize a = Set.Ico a (a + (blockSize.toNat + 8)) := by
  have h8 : blockChainSize.toNat = 8 := rfl
  rw [bytes, h.block a ha, h8, Set.Ico_union_Ico_eq_Ico (by omega) (by omega)]
  congr 1
  omega

/-- The layout of an accepted call. The last node starts at eight times the
bytes of the others, so a second one is outside. -/
theorem laidOut_iff_lt {name : List Char} {m' : BlockMem n} (hb : blockSize.toNat + 8 < 2 ^ 32)
    (h : rxCreateBlockPool m p name blockSize start poolSize = (.osOk, m')) :
    LaidOut m' p blockSize start poolSize ↔ poolSize.toNat < 2 * (blockSize.toNat + 8) := by
  obtain ⟨hle, hav, hl⟩ := rxCreateBlockPool_spec hb h
  have hs : 0 < blockSize.toNat + 8 := by omega
  have hmod := Nat.div_add_mod poolSize.toNat (blockSize.toNat + 8)
  have hlt := Nat.mod_lt poolSize.toNat hs
  set c := poolSize.toNat / (blockSize.toNat + 8) with hc
  constructor
  · rintro ⟨l, hchain, hin, -, -, -⟩
    by_contra hge
    have h2 : 2 ≤ c := (Nat.le_div_iff_mul_le hs).mpr (by omega)
    obtain rfl : l = nodesTo start blockSize c := Chain.unique hchain hl.chain
    have hmem : nodeAddr start blockSize (c - 1) ∈ nodesTo start blockSize c :=
      mem_nodesTo.mpr ⟨c - 1, by omega, rfl⟩
    have hsub := hin _ hmem
    have hcs : (c - 1) * (blockSize.toNat + 8) + (blockSize.toNat + 8) = (blockSize.toNat + 8) * c := by
      rw [← Nat.succ_mul, Nat.succ_eq_add_one, Nat.sub_add_cancel (by omega), Nat.mul_comm]
    have h1 : blockSize.toNat + 8 ≤ (c - 1) * (blockSize.toNat + 8) := Nat.le_mul_of_pos_left _ (by omega)
    have hps := poolSize.isLt
    rw [hl.bytes_eq hmem, nodeAddr_of_mul_lt hb (by omega),
      Set.Ico_subset_Ico_iff (by omega)] at hsub
    omega
  · intro hlt2
    have hc1 : c = 1 := by
      apply Nat.le_antisymm
      · exact Nat.lt_succ_iff.mp ((Nat.div_lt_iff_lt_mul hs).mpr (by omega))
      · exact (Nat.le_div_iff_mul_le hs).mpr (by omega)
    have h0 : nodeAddr start blockSize 0 = start := by simp [nodeAddr]
    have h1 : nodesTo start blockSize c = [start] := by
      rw [hc1, nodesTo_succ, h0]
      rfl
    refine ⟨[start], h1 ▸ hl.chain, ?_, List.pairwise_singleton _ _, ?_, hav⟩
    · intro a ha
      rw [hl.bytes_eq (h1 ▸ ha)]
      obtain rfl := List.mem_singleton.mp ha
      exact Set.Ico_subset_Ico_right (by omega)
    · rw [hav, hc1]
      rfl

/-- **The layout of a block pool.** After an accepted call whose node size
does not overflow, the free blocks are as many disjoint nodes inside the area
as fit in it if and only if two of them do not fit. -/
theorem laidOut_iff (m m' : BlockMem n) (p : ℕ) (name : List Char) (blockSize : Word) (start : ℕ)
    (poolSize : Word) (hb : blockSize.toNat + blockChainSize.toNat < 2 ^ 32)
    (h : rxCreateBlockPool m p name blockSize start poolSize = (.osOk, m')) :
    LaidOut m' p blockSize start poolSize ↔
      poolSize.toNat < 2 * (blockSize.toNat + blockChainSize.toNat) :=
  laidOut_iff_lt hb h

/-- No pool has been created. -/
def noPools : BlockMem 0 := ⟨fun _ => {}, fun _ => {}⟩

/-- A pool of 100 bytes for one block of 64. -/
theorem laidOut_one_block : ∃ m', rxCreateBlockPool noPools 0 "one".toList 64 0 100 = (.osOk, m') ∧
    LaidOut m' 0 64 0 100 :=
  ⟨_, rfl, (laidOut_iff noPools _ 0 "one".toList 64 0 100 (by decide) rfl).mpr (by decide)⟩

/-- The pool of `test_blockpool.c`, 500 bytes for blocks of 64. -/
theorem mypool_not_laidOut : ∃ m', rxCreateBlockPool noPools 0 "mypool".toList 64 0 500 = (.osOk, m') ∧
    (64 : Word).toNat + blockChainSize.toNat < 2 ^ 32 ∧ ¬ LaidOut m' 0 64 0 500 := by
  refine ⟨_, rfl, by decide, ?_⟩
  rw [laidOut_iff_lt (by decide) rfl]
  decide

/-! ### The sanity check -/

/-- The size of a node wraps for the last eight block sizes, to at most 7; the
check compares the area with what is left. -/
theorem toNat_node_of_wrap (hb : 2 ^ 32 ≤ blockSize.toNat + blockChainSize.toNat) :
    (blockSize + blockChainSize).toNat + 2 ^ 32 = blockSize.toNat + blockChainSize.toNat := by
  have h8 : blockChainSize.toNat = 8 := rfl
  have hlt := blockSize.isLt
  rw [BitVec.toNat_add]
  omega

/-- An area of seven bytes will do for each of these sizes. -/
theorem rxCreateBlockPool_of_wrap (hb : 2 ^ 32 ≤ blockSize.toNat + blockChainSize.toNat) (hp : 7 ≤ poolSize.toNat)
    (m : BlockMem n) (p : ℕ) (name : List Char) (start : ℕ) :
    (rxCreateBlockPool m p name blockSize start poolSize).1 = .osOk := by
  have h8 : blockChainSize.toNat = 8 := rfl
  have hsum := toNat_node_of_wrap hb
  have hlt := blockSize.isLt
  have hok : ¬ (blockSize = 0 ∨ poolSize = 0 ∨ poolSize < blockSize + blockChainSize) := by
    rintro (rfl | rfl | hle)
    · simp at hb
      omega
    · simp at hp
    · rw [BitVec.lt_def] at hle
      omega
  rw [rxCreateBlockPool, if_neg hok]

/-- What is counted in a pool that was accepted. -/
theorem rxCreateBlockPool_available {name : List Char} {m' : BlockMem n}
    (h : rxCreateBlockPool m p name blockSize start poolSize = (.osOk, m')) :
    blockSize + blockChainSize ≤ poolSize ∧ (m'.pool p).available = poolSize / (blockSize + blockChainSize) := by
  simp only [rxCreateBlockPool] at h
  split_ifs at h with hguard
  · cases h
  · obtain ⟨-, rfl⟩ := Prod.mk.inj h
    simp only [not_or, BitVec.not_lt] at hguard
    rw [setPool_pool_self, linkBlocks_available, setPool_pool_self]
    exact ⟨hguard.2.2, rfl⟩

/-- **The sanity check.** In a call that it accepts the size of a node has not
wrapped, is no division by zero and fits into the area at least once, if and
only if the block size is none of the last eight values of a word. -/
theorem rxCreateBlockPool_sound_iff (m m' : BlockMem n) (p : ℕ) (name : List Char) (blockSize : Word) (start : ℕ)
    (poolSize : Word) (h : rxCreateBlockPool m p name blockSize start poolSize = (.osOk, m')) :
    (blockSize.toNat + blockChainSize.toNat < 2 ^ 32 ∧ blockSize + blockChainSize ≠ 0 ∧
      1 ≤ (m'.pool p).available.toNat) ↔ blockSize.toNat < 2 ^ 32 - 8 := by
  have h8 : blockChainSize.toNat = 8 := rfl
  obtain ⟨hle, hav⟩ := rxCreateBlockPool_available h
  constructor
  · rintro ⟨hb, -, -⟩
    omega
  · intro hlt
    have hsum : (blockSize + blockChainSize).toNat = blockSize.toNat + 8 := by
      rw [BitVec.toNat_add, h8, Nat.mod_eq_of_lt (by omega)]
    refine ⟨by omega, fun h0 => ?_, ?_⟩
    · rw [h0] at hsum
      simp at hsum
    · rw [BitVec.le_def] at hle
      rw [hav, BitVec.toNat_udiv]
      exact (Nat.le_div_iff_mul_le (by omega)).mpr (by omega)

/-- The pool of `test_blockpool.c`. -/
theorem mypool_sound : ∃ m', rxCreateBlockPool noPools 0 "mypool".toList 64 0 500 = (.osOk, m') ∧
    1 ≤ (m'.pool 0).available.toNat :=
  ⟨_, rfl, ((rxCreateBlockPool_sound_iff noPools _ 0 "mypool".toList 64 0 500 rfl).mpr (by decide)).2.2⟩

/-- A block size of `2 ^ 32 - 8` is accepted for an area of 100 bytes, and the
bytes of the area are divided by zero. -/
theorem wrapped_size_accepted : ∃ m', rxCreateBlockPool noPools 0 "wrapped".toList 0xFFFFFFF8 0 100 = (.osOk, m') ∧
    (0xFFFFFFF8 : Word) + blockChainSize = 0 ∧
    ¬ ((0xFFFFFFF8 : Word).toNat + blockChainSize.toNat < 2 ^ 32) ∧ ¬ 1 ≤ (m'.pool 0).available.toNat :=
  ⟨_, rfl, by decide, by decide, by decide⟩

end BlockMem
end Rosx
