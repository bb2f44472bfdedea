/-
# Runs of the block pools

Any number of pools are set up by `rx_create_block_pool`; then tasks allocate
and release blocks in any order. Next to the memory a run keeps the blocks that
have been handed out, to whom and from which pool. The header of a node is a
link while the node is free and the owner while its block is handed out; `Inv`
has both readings: the free nodes of a pool are a chain, the nodes of its
blocks handed out point to it, and together they are its initial nodes.

With `OS_NO_WAIT` an allocation fails only on an empty pool, and all blocks are
accounted for in every state (`poolsOK_of_run`). A call that finds no free block
and may wait returns `OS_OK` without a block; all other calls that return
`OS_OK` have given one (`given_iff`).

The bytes of the blocks are the users'; that they leave the headers alone is
in the steps, which write no header but by the two calls.

Key definitions: `PoolSys.exec`, `PoolSys.PoolsOK`, `PoolSys.Given`, `PoolSys.Inv`.
-/
import Rosx.BlockAlloc
import Rosx.Lib.Run
import Mathlib.Data.List.Perm.Lattice
import Mathlib.Data.List.Pairwise

namespace Rosx

open Linked

variable {n : ℕ}

/-- The arguments of `rx_create_block_pool`. -/
structure PoolArgs where
  pool : ℕ
  name : List Char := []
  blockSize : Word
  start : ℕ
  poolSize : Word

/-- How many nodes the call links. -/
def PoolArgs.count (a : PoolArgs) : ℕ := (a.poolSize / (a.blockSize + blockChainSize)).toNat

/-- The nodes the call links, the last one first. -/
def PoolArgs.nodes (a : PoolArgs) : List ℕ := BlockMem.nodesTo a.start a.blockSize a.count

namespace BlockMem

/-- The pools are created one after the other; every call returns `OS_OK`. -/
def setUp (m : BlockMem n) : List PoolArgs → Option (BlockMem n)
  | [] => some m
  | a :: as =>
    let r := rxCreateBlockPool m a.pool a.name a.blockSize a.start a.poolSize
    if r.1 = .osOk then setUp r.2 as else none

/-! ### The pools after their creation -/

variable {m m' : BlockMem n} {p start : ℕ} {blockSize : Word}

/-- The loop links its nodes, if they are distinct, and writes nothing else. -/
theorem linkBlocks_distinct : ∀ (k i : ℕ) {m : BlockMem n}, Linked m p start blockSize i →
    (nodesTo start blockSize (i + k)).Nodup →
    Linked (linkBlocks p start blockSize k i m) p start blockSize (i + k) ∧
    (∃ h, (linkBlocks p start blockSize k i m).pool = Function.update m.pool p { m.pool p with freeBlocks := h }) ∧
    ∀ x ∉ nodesTo start blockSize (i + k), (linkBlocks p start blockSize k i m).node x = m.node x
  | 0, i, m, h, _ => ⟨h, ⟨(m.pool p).freeBlocks, (Function.update_eq_self p m.pool).symm⟩, fun _ _ => rfl⟩
  | k + 1, i, m, h, hnd => by
    rw [show i + (k + 1) = i + 1 + k by omega] at hnd ⊢
    have hsub : nodesTo start blockSize (i + 1) ⊆ nodesTo start blockSize (i + 1 + k) := by
      intro x hx
      obtain ⟨j, hj, rfl⟩ := mem_nodesTo.mp hx
      exact mem_nodesTo.mpr ⟨j, by omega, rfl⟩
    have hfresh : nodeAddr start blockSize i ∉ nodesTo start blockSize i := by
      have hnd1 : (nodesTo start blockSize (i + 1)).Nodup := by
        unfold nodesTo at hnd ⊢
        rw [List.nodup_reverse] at hnd ⊢
        exact hnd.sublist ((List.range_sublist.mpr (by omega)).map _)
      rw [nodesTo_succ] at hnd1
      exact (List.nodup_cons.mp hnd1).1
    obtain ⟨hl, ⟨hd, hpool⟩, hnode⟩ := linkBlocks_distinct k (i + 1) (h.linkBlock hfresh) hnd
    obtain ⟨hn1, -⟩ := linkBlock_spec m p start blockSize i
    refine ⟨hl, ⟨hd, hpool.trans ?_⟩, fun x hx => (hnode x hx).trans ?_⟩
    · funext q
      by_cases hq : q = p
      · subst hq
        rw [Function.update_self, Function.update_self, (linkBlock_spec m q start blockSize i).2]
      · rw [Function.update_of_ne hq, Function.update_of_ne hq]
        unfold linkBlock
        dsimp only
        split <;> simp [setPool, setNode, hq]
    · rw [hn1, Function.update_of_ne]
      rintro rfl
      exact hx (hsub (by rw [nodesTo_succ]; exact List.mem_cons_self))

@[simp] theorem length_nodesTo (start : ℕ) (blockSize : Word) (i : ℕ) : (nodesTo start blockSize i).length = i := by
  simp [nodesTo]

end BlockMem

open BlockMem

/-- The pool is stamped, its free blocks are the nodes of the call, and their
blocks follow their headers. -/
structure PoolArgs.Ready (a : PoolArgs) (m : BlockMem n) : Prop where
  magic : (m.pool a.pool).magic = rxBlockPoolMagic
  chain : Chain m.nx (m.pool a.pool).freeBlocks a.nodes
  available : (m.pool a.pool).available.toNat = a.nodes.length
  block : ∀ x ∈ a.nodes, (m.node x).block = x + blockChainSize.toNat

section SetUp

variable {m m' : BlockMem n} {a : PoolArgs} {as : List PoolArgs}

theorem PoolArgs.Ready.congr (h : a.Ready m) (hp : m'.pool a.pool = m.pool a.pool)
    (hn : ∀ x ∈ a.nodes, m'.node x = m.node x) : a.Ready m' := by
  refine ⟨by rw [hp]; exact h.magic, ?_, by rw [hp]; exact h.available, fun x hx => by rw [hn x hx]; exact h.block x hx⟩
  rw [hp]
  exact h.chain.congr fun x hx => congrArg BlockChain.next (hn x hx)

theorem create_ready (hnd : a.nodes.Nodup)
    (h : rxCreateBlockPool m a.pool a.name a.blockSize a.start a.poolSize = (.osOk, m')) :
    a.Ready m' ∧ (∀ q, q ≠ a.pool → m'.pool q = m.pool q) ∧ (∀ x ∉ a.nodes, m'.node x = m.node x) ∧
      (m'.pool a.pool).task = (m.pool a.pool).task := by
  simp only [rxCreateBlockPool] at h
  split_ifs at h
  · cases h
  · obtain ⟨-, rfl⟩ := Prod.mk.inj h
    set m₀ := m.setPool a.pool _ with hm₀
    have hlin : BlockMem.Linked m₀ a.pool a.start a.blockSize 0 := ⟨by simp [hm₀, nodesTo], by simp [nodesTo]⟩
    obtain ⟨hl, ⟨hd, hpool⟩, hnode⟩ := linkBlocks_distinct a.count 0 hlin (by rw [Nat.zero_add]; exact hnd)
    rw [Nat.zero_add] at hl hnode
    change ∀ x ∉ a.nodes, _ at hnode
    change BlockMem.Linked (linkBlocks a.pool a.start a.blockSize a.count 0 m₀) _ _ _ _ at hl
    set m₁ := linkBlocks a.pool a.start a.blockSize a.count 0 m₀ with hm₁
    refine ⟨⟨by rw [setPool_pool_self], ?_, ?_, hl.block⟩, fun q hq => ?_, fun x hx => (hnode x hx).trans rfl, ?_⟩
    · rw [setPool_pool_self]
      exact hl.chain
    · rw [setPool_pool_self]
      show (m₁.pool a.pool).available.toNat = a.nodes.length
      rw [hpool, Function.update_self, PoolArgs.nodes, length_nodesTo]
      simp [hm₀, PoolArgs.count]
    · show (m₁.setPool a.pool _).pool q = m.pool q
      have h1 : (m₁.setPool a.pool { m₁.pool a.pool with magic := rxBlockPoolMagic }).pool q = m₁.pool q := by
        simp [setPool, hq]
      refine h1.trans ?_
      rw [hpool, Function.update_of_ne hq]
      simp [hm₀, setPool, hq]
    · rw [setPool_pool_self]
      show (m₁.pool a.pool).task = _
      rw [hpool, Function.update_self]
      simp [hm₀]

/-- All pools are ready once the last one is created. -/
theorem setUp_ready : ∀ {as : List PoolArgs} {m : BlockMem n}, setUp m as = some m' → (as.map PoolArgs.pool).Nodup →
    (as.flatMap PoolArgs.nodes).Nodup → (∀ a ∈ as, a.Ready m') ∧
      (∀ q ∉ as.map PoolArgs.pool, m'.pool q = m.pool q) ∧
      (∀ x ∉ as.flatMap PoolArgs.nodes, m'.node x = m.node x) ∧ ∀ q, (m'.pool q).task = (m.pool q).task
  | [], m, h, _, _ => by
    obtain rfl := Option.some.inj h
    exact ⟨by simp, by simp, by simp, by simp⟩
  | a :: as, m, h, hp, hn => by
    unfold setUp at h
    dsimp only at h
    split_ifs at h with hok
    rw [List.map_cons, List.nodup_cons] at hp
    rw [List.flatMap_cons, List.nodup_append] at hn
    obtain ⟨hna, hnas, hdis⟩ := hn
    set m₁ := (rxCreateBlockPool m a.pool a.name a.blockSize a.start a.poolSize).2 with hm₁
    obtain ⟨hr, hpool, hnode, htask⟩ := create_ready hna (Prod.ext hok hm₁.symm)
    obtain ⟨hr', hpool', hnode', htask'⟩ := setUp_ready h hp.2 hnas
    refine ⟨fun b hb => ?_, fun q hq => ?_, fun x hx => ?_, fun q => (htask' q).trans ?_⟩
    · rcases List.mem_cons.mp hb with rfl | hb
      · exact hr.congr (hpool' _ hp.1) fun x hx => hnode' x fun hx' => hdis x hx x hx' rfl
      · exact hr' b hb
    · rw [List.map_cons, List.mem_cons, not_or] at hq
      exact (hpool' q hq.2).trans (hpool q hq.1)
    · rw [List.flatMap_cons, List.mem_append, not_or] at hx
      exact (hnode' x hx.2).trans (hnode x hx.1)
    · by_cases hq : q = a.pool
      · rw [hq, htask]
      · rw [hpool q hq]

end SetUp

/-! ### Calls and runs -/

/-- A block that has been handed out: to whom, and from which pool. -/
structure HeldBlock (n : ℕ) where
  task : Fin n
  pool : ℕ
  block : ℕ
  deriving DecidableEq

/-- The header of a block. -/
def HeldBlock.node (h : HeldBlock n) : ℕ := h.block - blockChainSize.toNat

/-- The pools, the kernel, and the blocks that are handed out. -/
structure PoolSys (n : ℕ) where
  b : BlockMem n
  k : Kernel n
  held : List (HeldBlock n) := []

/-- A step of a run: the running task calls one of the services, or something
happens that leaves the pools alone. -/
inductive PoolCall (n : ℕ) where
  | allocate (p : ℕ) (flags : ℤ)
  | release (block : ℕ)
  | delete (p : ℕ)
  | other (k' : Kernel n)

namespace PoolSys

/-- The blocks handed out after an allocation that wrote `block` to
`*block_ptr`. -/
def give (s : PoolSys n) (p : ℕ) : Option ℕ → List (HeldBlock n)
  | some block => ⟨s.k.curr, p, block⟩ :: s.held
  | none => s.held

/-- The blocks handed out after a release that returned `e`. -/
def takeBack (s : PoolSys n) (block : ℕ) (e : OsErr) : List (HeldBlock n) :=
  if e = .osOk then s.held.filter (·.block ≠ block) else s.held

/-- What a step computes: the code that the call returns, with the block that
an allocation writes to `*block_ptr`, and the system it leaves. -/
def exec (s : PoolSys n) : PoolCall n → Res ((OsErr × Option ℕ) × PoolSys n)
  | .allocate p flags => (s.b.rxAllocateBlock s.k p flags).map fun x => (x.1, ⟨x.2.1, x.2.2, s.give p x.1.2⟩)
  | .release block => (s.b.rxReleaseBlock s.k block).map fun x => ((x.1, none), ⟨x.2.1, x.2.2, s.takeBack block x.1⟩)
  | .delete p =>
    let x := s.b.rxDeleteBlockPool s.k p
    .ok ((x.1, none), { s with b := x.2.1, k := x.2.2 })
  | .other k' => .ok ((.osOk, none), { s with k := k' })

/-- The pools are those that have been set up; a block is released while it is
handed out. -/
def Admissible (as : List PoolArgs) (s : PoolSys n) : PoolCall n → Prop
  | .allocate p _ | .delete p => p ∈ as.map PoolArgs.pool
  | .release block => ∃ h ∈ s.held, h.block = block
  | .other _ => True

/-- One step of a run, labelled with the call and what it returns. -/
def Step (as : List PoolArgs) (s : PoolSys n) (c : PoolCall n × (OsErr × Option ℕ)) (s' : PoolSys n) : Prop :=
  s.Admissible as c.1 ∧ s.exec c.1 = .ok (c.2, s')

instance (as : List PoolArgs) (s : PoolSys n) : ∀ c, Decidable (s.Admissible as c)
  | .allocate p _ | .delete p => inferInstanceAs (Decidable (p ∈ as.map PoolArgs.pool))
  | .release block => inferInstanceAs (Decidable (∃ h ∈ s.held, h.block = block))
  | .other _ => inferInstanceAs (Decidable True)

/-- The pools have been set up, with distinct nodes, and nothing is handed out. -/
structure Init (as : List PoolArgs) (s : PoolSys n) : Prop where
  setUp : ∃ m : BlockMem n, BlockMem.setUp m as = some s.b
  pools : (as.map PoolArgs.pool).Nodup
  nodes : (as.flatMap PoolArgs.nodes).Nodup
  held : s.held = []

/-- The headers of the blocks handed out from pool `p`. -/
def heldOf (s : PoolSys n) (p : ℕ) : List ℕ := (s.held.filter (·.pool = p)).map HeldBlock.node

/-- The calls of a run without waiting: no deletion, and `OS_NO_WAIT`. -/
def NoWait (_ : PoolSys n) (c : PoolCall n × (OsErr × Option ℕ)) : Prop :=
  match c.1 with
  | .allocate _ flags => flags = osNoWait
  | .delete _ => False
  | .release _ | .other _ => True

instance (s : PoolSys n) : ∀ c, Decidable (NoWait s c)
  | (.allocate _ flags, _) => inferInstanceAs (Decidable (flags = osNoWait))
  | (.delete _, _) => inferInstanceAs (Decidable False)
  | (.release _, _) | (.other _, _) => inferInstanceAs (Decidable True)

/-- **All blocks are accounted for.** The free blocks of a pool are a chain of
`available` nodes; with the nodes handed out they are the initial ones, none of
them twice. An allocation fails if and only if `available` is 0, and hands out
no block that is handed out already; a release puts the node at the head of the
free blocks of the pool it came from. -/
structure PoolsOK (as : List PoolArgs) (s : PoolSys n) : Prop where
  free : ∀ a ∈ as, ∃ l, Chain s.b.nx (s.b.pool a.pool).freeBlocks l ∧
    l.length = (s.b.pool a.pool).available.toNat ∧ (l ++ s.heldOf a.pool).Perm a.nodes ∧
    (l ++ s.heldOf a.pool).Nodup
  allocate : ∀ a ∈ as, ∃ r s', s.exec (.allocate a.pool osNoWait) = .ok (r, s') ∧
    (r.1 ≠ .osOk ↔ (s.b.pool a.pool).available = 0) ∧ (r.1 = .osOk → ∃ block, r.2 = some block) ∧
    ∀ block, r.2 = some block → ∀ h ∈ s.held, h.block ≠ block
  release : ∀ h ∈ s.held, ∃ s', s.exec (.release h.block) = .ok ((.osOk, none), s') ∧
    (∀ l, Chain s.b.nx (s.b.pool h.pool).freeBlocks l → Chain s'.b.nx (s'.b.pool h.pool).freeBlocks (h.node :: l)) ∧
    ∀ a ∈ as, a.pool ≠ h.pool → ∀ l, Chain s.b.nx (s.b.pool a.pool).freeBlocks l →
      Chain s'.b.nx (s'.b.pool a.pool).freeBlocks l

/-- If the call returned `OS_OK`, it has set the pointer to a block of the pool
that was free, and that nobody but the caller holds now. -/
def Given (as : List PoolArgs) (s : PoolSys n) (p : ℕ) (r : OsErr × Option ℕ) (s' : PoolSys n) : Prop :=
  r.1 = .osOk → ∃ a ∈ as, a.pool = p ∧ ∃ x ∈ a.nodes, r.2 = some (x + blockChainSize.toNat) ∧
    Reaches s.b.nx (s.b.pool p).freeBlocks x ∧ (∀ h ∈ s.held, h.node ≠ x) ∧
    (∀ a' ∈ as, ¬ Reaches s'.b.nx (s'.b.pool a'.pool).freeBlocks x) ∧
    ∃ h ∈ s'.held, h.task = s.k.curr ∧ h.pool = p ∧ ∀ h' ∈ s'.held, h'.node = x → h' = h

/-- The call need not wait: the pool is not one any more, has a free block, or
the caller does not want to wait. -/
def NeedsNoWait (s : PoolSys n) (p : ℕ) (flags : ℤ) : Prop :=
  (s.b.pool p).magic = rxBlockPoolMagic → (s.b.pool p).freeBlocks = none → flags = osNoWait

instance (s : PoolSys n) (p : ℕ) (flags : ℤ) : Decidable (s.NeedsNoWait p flags) :=
  inferInstanceAs (Decidable ((s.b.pool p).magic = rxBlockPoolMagic → (s.b.pool p).freeBlocks = none → flags = osNoWait))

/-! ### The invariant -/

/-- `free p` are the free nodes of pool `p`; with the nodes handed out they are
all its nodes, and these point to the pool. -/
structure Inv (as : List PoolArgs) (free : ℕ → List ℕ) (s : PoolSys n) : Prop where
  pools : (as.map PoolArgs.pool).Nodup
  nodes : (as.flatMap PoolArgs.nodes).Nodup
  chain : ∀ a ∈ as, Chain s.b.nx (s.b.pool a.pool).freeBlocks (free a.pool)
  available : ∀ a ∈ as, (s.b.pool a.pool).available.toNat = (free a.pool).length
  perm : ∀ a ∈ as, (free a.pool ++ s.heldOf a.pool).Perm a.nodes
  block : ∀ a ∈ as, ∀ x ∈ a.nodes, (s.b.node x).block = x + blockChainSize.toNat
  held : ∀ h ∈ s.held, h.pool ∈ as.map PoolArgs.pool ∧ h.block = h.node + blockChainSize.toNat ∧
    (s.b.node h.node).next = some h.pool

section Calls

variable {as : List PoolArgs} {free : ℕ → List ℕ} {s s' : PoolSys n} {a a' : PoolArgs} {x : ℕ}

theorem Inv.eq_of_pool (h : Inv as free s) (ha : a ∈ as) (ha' : a' ∈ as) (hp : a.pool = a'.pool) : a = a' :=
  List.inj_on_of_nodup_map h.pools ha ha' hp

theorem Inv.eq_of_node (h : Inv as free s) (ha : a ∈ as) (ha' : a' ∈ as) (hx : x ∈ a.nodes) (hx' : x ∈ a'.nodes) :
    a = a' := by
  by_contra hne
  have : Std.Symm (Function.onFun List.Disjoint PoolArgs.nodes) := ⟨fun _ _ hd => List.Disjoint.symm hd⟩
  exact (List.nodup_flatMap.mp h.nodes).2.forall ha ha' hne hx hx'

theorem Inv.nodup (h : Inv as free s) (ha : a ∈ as) : (free a.pool ++ s.heldOf a.pool).Nodup :=
  (h.perm a ha).nodup_iff.mpr ((List.nodup_flatMap.mp h.nodes).1 a ha)

theorem Inv.free_mem (h : Inv as free s) (ha : a ∈ as) (hx : x ∈ free a.pool) : x ∈ a.nodes :=
  (h.perm a ha).mem_iff.mp (List.mem_append_left _ hx)

theorem mem_heldOf {p : ℕ} : x ∈ s.heldOf p ↔ ∃ h ∈ s.held, h.pool = p ∧ h.node = x := by
  simp [heldOf, and_assoc]

/-- The pool that a block comes from. -/
theorem Inv.holding (h : Inv as free s) {d : HeldBlock n} (hd : d ∈ s.held) :
    ∃ a ∈ as, a.pool = d.pool ∧ d.node ∈ a.nodes ∧ d.node ∉ free a.pool := by
  obtain ⟨a, ha, hp⟩ := List.mem_map.mp (h.held d hd).1
  have hmem : d.node ∈ s.heldOf a.pool := mem_heldOf.mpr ⟨d, hd, hp.symm, rfl⟩
  refine ⟨a, ha, hp, (h.perm a ha).mem_iff.mp (List.mem_append_right _ hmem), fun hf => ?_⟩
  exact (List.nodup_append.mp (h.nodup ha)).2.2 _ hf _ hmem rfl

/-- A free node is the header of no block handed out. -/
theorem Inv.free_not_held (h : Inv as free s) (ha : a ∈ as) (hx : x ∈ free a.pool) {d : HeldBlock n} (hd : d ∈ s.held) :
    d.node ≠ x := by
  rintro rfl
  obtain ⟨a', ha', -, hmem, hnot⟩ := h.holding hd
  obtain rfl := h.eq_of_node ha ha' (h.free_mem ha hx) hmem
  exact hnot hx

theorem Inv.reaches (h : Inv as free s) (ha : a ∈ as) :
    Reaches s.b.nx (s.b.pool a.pool).freeBlocks x ↔ x ∈ free a.pool := (h.chain a ha).reaches_iff

/-- The memory changes in what the free blocks and the headers do not depend
on. -/
structure SameBlocks (b b' : BlockMem n) : Prop where
  node : b'.node = b.node
  free : ∀ q, (b'.pool q).freeBlocks = (b.pool q).freeBlocks
  available : ∀ q, (b'.pool q).available = (b.pool q).available

theorem SameBlocks.setPool (b : BlockMem n) (p : ℕ) {q : BlockPool n} (hf : q.freeBlocks = (b.pool p).freeBlocks)
    (ha : q.available = (b.pool p).available) : SameBlocks b (b.setPool p q) := by
  refine ⟨rfl, fun r => ?_, fun r => ?_⟩
  · by_cases hr : r = p
    · subst hr; rw [setPool_pool_self, hf]
    · simp [BlockMem.setPool, hr]
  · by_cases hr : r = p
    · subst hr; rw [setPool_pool_self, ha]
    · simp [BlockMem.setPool, hr]

theorem Inv.congr (h : Inv as free s) (hb : SameBlocks s.b s'.b) (hh : s'.held = s.held) : Inv as free s' := by
  have hnx : s'.b.nx = s.b.nx := funext fun x => congrArg (fun f => (f x).next) hb.node
  refine ⟨h.pools, h.nodes, fun a ha => ?_, fun a ha => ?_, fun a ha => ?_, fun a ha x hx => ?_, fun d hd => ?_⟩
  · rw [hnx, hb.free]
    exact h.chain a ha
  · rw [hb.available]
    exact h.available a ha
  · unfold heldOf
    rw [hh]
    exact h.perm a ha
  · rw [hb.node]
    exact h.block a ha x hx
  · rw [hb.node]
    exact h.held d (hh ▸ hd)

/-- The link of one node changes. -/
theorem nx_of_relink {b b' : BlockMem n} {v : Option ℕ}
    (hn : b'.node = Function.update b.node x { b.node x with next := v }) : b'.nx = Function.update b.nx x v := by
  funext y
  unfold BlockMem.nx
  rw [hn]
  by_cases hy : y = x
  · subst hy; simp
  · simp [hy]

theorem Inv.block_of_relink (h : Inv as free s) {b' : BlockMem n} {v : Option ℕ}
    (hn : b'.node = Function.update s.b.node x { s.b.node x with next := v }) (ha : a ∈ as) {y : ℕ} (hy : y ∈ a.nodes) :
    (b'.node y).block = y + blockChainSize.toNat := by
  rw [hn]
  by_cases hyx : y = x
  · subst hyx
    rw [Function.update_self]
    exact h.block a ha y hy
  · rw [Function.update_of_ne hyx]
    exact h.block a ha y hy

/-- A node is on the chain of no pool but its own. -/
theorem Inv.chain_of_ne (h : Inv as free s) (ha : a ∈ as) (ha' : a' ∈ as) (hp : a'.pool ≠ a.pool) (hx : x ∈ a.nodes)
    (v : Option ℕ) : Chain (Function.update s.b.nx x v) (s.b.pool a'.pool).freeBlocks (free a'.pool) := by
  apply (h.chain a' ha').update_of_notMem
  intro hx'
  exact hp (by rw [h.eq_of_node ha' ha (h.free_mem ha' hx') hx])

theorem takeBlock_pool_ne {b : BlockMem n} {p q : ℕ} (hq : q ≠ p) : (b.takeBlock p x).pool q = b.pool q := by
  simp [takeBlock, BlockMem.setPool, hq]

theorem takeBlock_pool_self (b : BlockMem n) (p x : ℕ) : (b.takeBlock p x).pool p =
    { b.pool p with freeBlocks := (b.node x).next, available := (b.pool p).available - 1 } := by
  simp [takeBlock, BlockMem.setPool]

theorem takeBlock_node (b : BlockMem n) (p x : ℕ) :
    (b.takeBlock p x).node = Function.update b.node x { b.node x with next := some p } := by
  simp [takeBlock, setNode]

/-- The first free block is handed out. -/
theorem Inv.take (h : Inv as free s) (ha : a ∈ as) (hf : (s.b.pool a.pool).freeBlocks = some x) (k' : Kernel n) :
    ∃ l, free a.pool = x :: l ∧ Inv as (Function.update free a.pool l)
      ⟨s.b.takeBlock a.pool x, k', ⟨s.k.curr, a.pool, x + blockChainSize.toNat⟩ :: s.held⟩ := by
  have h8 : blockChainSize.toNat = 8 := rfl
  have hc := h.chain a ha
  have hav := h.available a ha
  obtain ⟨l, hl⟩ : ∃ l, free a.pool = x :: l := by
    have hhead := Seg.head hc
    rw [hf] at hhead
    exact ⟨_, List.eq_cons_of_mem_head? hhead.symm⟩
  rw [hl] at hc hav
  have hxa : x ∈ a.nodes := h.free_mem ha (by rw [hl]; exact List.mem_cons_self)
  have hxl : x ∉ l := (List.nodup_cons.mp hc.nodup).1
  have hnode := takeBlock_node s.b a.pool x
  refine ⟨l, hl, h.pools, h.nodes, fun a' ha' => ?_, fun a' ha' => ?_, fun a' ha' => ?_, fun a' ha' y hy => ?_,
    fun d hd => ?_⟩
  · rw [nx_of_relink hnode]
    by_cases hp : a'.pool = a.pool
    · rw [hp, Function.update_self, takeBlock_pool_self]
      exact hc.2.update_of_notMem hxl
    · rw [Function.update_of_ne hp, takeBlock_pool_ne hp]
      exact h.chain_of_ne ha ha' hp hxa _
  · by_cases hp : a'.pool = a.pool
    · rw [hp, Function.update_self, takeBlock_pool_self]
      show ((s.b.pool a.pool).available - 1).toNat = l.length
      rw [List.length_cons] at hav
      bv_omega
    · rw [Function.update_of_ne hp, takeBlock_pool_ne hp]
      exact h.available a' ha'
  · by_cases hp : a'.pool = a.pool
    · have hperm := h.perm a ha
      rw [h.eq_of_pool ha' ha hp, Function.update_self]
      rw [hl] at hperm
      have hheld : heldOf ⟨s.b.takeBlock a.pool x, k', ⟨s.k.curr, a.pool, x + blockChainSize.toNat⟩ :: s.held⟩ a.pool
          = x :: s.heldOf a.pool := by
        simp [heldOf, HeldBlock.node]
      rw [hheld]
      exact List.perm_middle.trans hperm
    · have hheld : heldOf ⟨s.b.takeBlock a.pool x, k', ⟨s.k.curr, a.pool, x + blockChainSize.toNat⟩ :: s.held⟩ a'.pool
          = s.heldOf a'.pool := by
        simp [heldOf, Ne.symm hp]
      rw [Function.update_of_ne hp, hheld]
      exact h.perm a' ha'
  · exact h.block_of_relink hnode ha' hy
  · rcases List.mem_cons.mp hd with rfl | hd
    · refine ⟨List.mem_map.mpr ⟨a, ha, rfl⟩, by simp [HeldBlock.node], ?_⟩
      rw [takeBlock_node]
      simp [HeldBlock.node]
    · obtain ⟨hpool, hblock, hnext⟩ := h.held d hd
      refine ⟨hpool, hblock, ?_⟩
      rw [takeBlock_node, Function.update_of_ne (h.free_not_held ha (by rw [hl]; exact List.mem_cons_self) hd)]
      exact hnext

theorem putBlock_pool_ne {b : BlockMem n} {p q : ℕ} (hq : q ≠ p) : (b.putBlock p x).pool q = b.pool q := by
  simp [putBlock, BlockMem.setPool, hq]

theorem putBlock_pool_self (b : BlockMem n) (p x : ℕ) : (b.putBlock p x).pool p =
    { b.pool p with freeBlocks := some x, available := (b.pool p).available + 1 } := by
  simp [putBlock, BlockMem.setPool]

theorem putBlock_node (b : BlockMem n) (p x : ℕ) :
    (b.putBlock p x).node = Function.update b.node x { b.node x with next := (b.pool p).freeBlocks } := by
  simp [putBlock, setNode]

/-- Of the blocks handed out, only one has its header. -/
theorem Inv.block_ne_iff (h : Inv as free s) {d e : HeldBlock n} (hd : d ∈ s.held) (he : e ∈ s.held) :
    e.block ≠ d.block ↔ e.node ≠ d.node := by
  rw [(h.held e he).2.1, (h.held d hd).2.1]
  omega

theorem Inv.heldOf_takeBack (h : Inv as free s) {d : HeldBlock n} (hd : d ∈ s.held) (b' : BlockMem n) (k' : Kernel n)
    (p : ℕ) : heldOf ⟨b', k', s.takeBack d.block .osOk⟩ p = (s.heldOf p).filter (· != d.node) := by
  simp only [heldOf, takeBack, if_true, List.filter_filter, List.filter_map]
  congr 1
  apply List.filter_congr
  intro e he
  have hbool : decide (e.block ≠ d.block) = (e.node != d.node) := by
    rw [Bool.eq_iff_iff, decide_eq_true_eq, bne_iff_ne, h.block_ne_iff hd he]
  rw [hbool, Bool.and_comm]
  rfl

/-- The nodes of each pool are still those that are free and those handed out. -/
theorem Inv.perm_takeBack (h : Inv as free s) {d : HeldBlock n} (hd : d ∈ s.held) (ha : a ∈ as) :
    (Function.update free d.pool (d.node :: free d.pool) a.pool ++ (s.heldOf a.pool).filter (· != d.node)).Perm
      a.nodes := by
  obtain ⟨a', ha', hap, hda, -⟩ := h.holding hd
  by_cases hp : a.pool = d.pool
  · have hnd := (List.nodup_append.mp (h.nodup ha)).2.1
    have hmem : d.node ∈ s.heldOf a.pool := mem_heldOf.mpr ⟨d, hd, hp.symm, rfl⟩
    rw [← hp, Function.update_self, ← hnd.erase_eq_filter]
    refine List.Perm.trans ?_ (h.perm a ha)
    rw [List.cons_append]
    exact List.perm_middle.symm.trans ((List.perm_cons_erase hmem).symm.append_left _)
  · rw [Function.update_of_ne hp]
    have hall : (s.heldOf a.pool).filter (· != d.node) = s.heldOf a.pool := by
      rw [List.filter_eq_self]
      intro y hy
      have hya : y ∈ a.nodes := (h.perm a ha).mem_iff.mp (List.mem_append_right _ hy)
      rw [bne_iff_ne]
      rintro rfl
      exact hp (by rw [h.eq_of_node ha ha' hya hda, hap])
    rw [hall]
    exact h.perm a ha

/-- A block handed out goes back to the head of the free blocks of its pool. -/
theorem Inv.put (h : Inv as free s) {d : HeldBlock n} (hd : d ∈ s.held) (k' : Kernel n) :
    Inv as (Function.update free d.pool (d.node :: free d.pool))
      ⟨s.b.putBlock d.pool d.node, k', s.takeBack d.block .osOk⟩ := by
  obtain ⟨a, ha, hap, hda, hdf⟩ := h.holding hd
  have hperm : ∀ a' ∈ as, _ := fun a' ha' => h.perm_takeBack hd ha'
  rw [← hap] at hperm ⊢
  have hnode := putBlock_node s.b a.pool d.node
  have hlen : (free a.pool).length + 1 ≤ a.nodes.length := by
    rw [← (h.perm a ha).length_eq, List.length_append]
    have : 0 < (s.heldOf a.pool).length := List.length_pos_of_mem (mem_heldOf.mpr ⟨d, hd, hap.symm, rfl⟩)
    omega
  refine ⟨h.pools, h.nodes, fun a' ha' => ?_, fun a' ha' => ?_, fun a' ha' => ?_, fun a' ha' y hy => ?_, fun e he => ?_⟩
  · rw [nx_of_relink hnode]
    by_cases hp : a'.pool = a.pool
    · rw [hp, Function.update_self, putBlock_pool_self]
      exact (h.chain a ha).insertHead hdf
    · rw [Function.update_of_ne hp, putBlock_pool_ne hp]
      exact h.chain_of_ne ha ha' hp hda _
  · by_cases hp : a'.pool = a.pool
    · rw [hp, Function.update_self, putBlock_pool_self]
      show ((s.b.pool a.pool).available + 1).toNat = (free a.pool).length + 1
      have hav := h.available a ha
      have hcount : a.nodes.length < 2 ^ 32 := by
        rw [PoolArgs.nodes, length_nodesTo]
        exact BitVec.isLt _
      bv_omega
    · rw [Function.update_of_ne hp, putBlock_pool_ne hp]
      exact h.available a' ha'
  · rw [h.heldOf_takeBack hd]
    exact hperm a' ha'
  · exact h.block_of_relink hnode ha' hy
  · simp only [takeBack, if_true, List.mem_filter, decide_eq_true_eq] at he
    obtain ⟨he, hne⟩ := he
    obtain ⟨hpool, hblock', hnext⟩ := h.held e he
    refine ⟨hpool, hblock', ?_⟩
    rw [putBlock_node, Function.update_of_ne ((h.block_ne_iff hd he).mp hne)]
    exact hnext

/-! ### What a step does -/

theorem joinPool_blocks {b b' : BlockMem n} {k k' : Kernel n} {p : ℕ} (h : b.joinPool k p = .ok (b', k')) :
    SameBlocks b b' := by
  unfold joinPool at h
  dsimp only at h
  obtain ⟨k1, -, h⟩ := bind_eq_ok.mp h
  obtain ⟨⟨head, k2⟩, -, h⟩ := bind_eq_ok.mp h
  obtain ⟨rfl, -⟩ := Prod.mk.inj (Except.ok.inj h)
  exact SameBlocks.setPool b p rfl rfl

theorem wakePool_blocks {b b' : BlockMem n} {k k' : Kernel n} {p : ℕ} (h : b.wakePool k p = .ok (b', k')) :
    SameBlocks b b' := by
  unfold wakePool at h
  split at h
  · obtain ⟨rfl, -⟩ := Prod.mk.inj (Except.ok.inj h)
    exact ⟨rfl, fun _ => rfl, fun _ => rfl⟩
  · obtain ⟨⟨_, k1⟩, -, h⟩ := bind_eq_ok.mp h
    obtain ⟨rfl, -⟩ := Prod.mk.inj (Except.ok.inj h)
    exact SameBlocks.setPool b p rfl rfl

/-- An allocation is refused, hands out the first free block, or puts the
caller to sleep. -/
theorem exec_allocate {p : ℕ} {flags : ℤ} {r : OsErr × Option ℕ} (he : s.exec (.allocate p flags) = .ok (r, s')) :
    (((s.b.pool p).magic ≠ rxBlockPoolMagic ∨ (s.b.pool p).freeBlocks = none ∧ flags = osNoWait) ∧
      r = (.osErr, none) ∧ s'.b = s.b ∧ s'.held = s.held) ∨
    (∃ x k', (s.b.pool p).magic = rxBlockPoolMagic ∧ (s.b.pool p).freeBlocks = some x ∧
      r = (.osOk, some (s.b.node x).block) ∧ s' = ⟨s.b.takeBlock p x, k', ⟨s.k.curr, p, (s.b.node x).block⟩ :: s.held⟩) ∨
    ((s.b.pool p).magic = rxBlockPoolMagic ∧ (s.b.pool p).freeBlocks = none ∧ flags ≠ osNoWait ∧
      r = (.osOk, none) ∧ SameBlocks s.b s'.b ∧ s'.held = s.held) := by
  obtain ⟨y, hy, he⟩ := map_eq_ok.mp he
  obtain ⟨rfl, rfl⟩ := Prod.mk.inj he
  unfold rxAllocateBlock at hy
  dsimp only at hy
  by_cases hm : (s.b.pool p).magic ≠ rxBlockPoolMagic
  · rw [if_pos hm] at hy
    obtain rfl := Except.ok.inj hy
    exact Or.inl ⟨Or.inl hm, rfl, rfl, rfl⟩
  · rw [if_neg hm] at hy
    cases hf : (s.b.pool p).freeBlocks with
    | none =>
      simp only [hf] at hy
      split_ifs at hy with hn
      · obtain rfl := Except.ok.inj hy
        exact Or.inl ⟨Or.inr ⟨rfl, hn⟩, rfl, rfl, rfl⟩
      · obtain ⟨⟨b', k'⟩, hj, hy⟩ := bind_eq_ok.mp hy
        obtain rfl := Except.ok.inj hy
        exact Or.inr (Or.inr ⟨not_not.mp hm, rfl, hn, rfl, joinPool_blocks hj, rfl⟩)
    | some x =>
      simp only [hf] at hy
      obtain rfl := Except.ok.inj hy
      exact Or.inr (Or.inl ⟨x, _, not_not.mp hm, rfl, rfl, rfl⟩)

/-- A release of a block handed out: its pool is one no more, or the header
goes back to it. -/
theorem exec_release (h : Inv as free s) {d : HeldBlock n} (hd : d ∈ s.held) {r : OsErr × Option ℕ}
    (he : s.exec (.release d.block) = .ok (r, s')) :
    ((s.b.pool d.pool).magic ≠ rxBlockPoolMagic ∧ s'.b = s.b ∧ s'.held = s.held) ∨
    ((s.b.pool d.pool).magic = rxBlockPoolMagic ∧ r = (.osOk, none) ∧
      SameBlocks (s.b.putBlock d.pool d.node) s'.b ∧ s'.held = s.takeBack d.block .osOk) := by
  obtain ⟨y, hy, he⟩ := map_eq_ok.mp he
  obtain ⟨rfl, rfl⟩ := Prod.mk.inj he
  have hnext : (s.b.node (d.block - blockChainSize.toNat)).next = some d.pool := (h.held d hd).2.2
  unfold rxReleaseBlock at hy
  simp only [hnext] at hy
  split_ifs at hy with hm
  · obtain rfl := Except.ok.inj hy
    exact Or.inl ⟨hm, rfl, rfl⟩
  · obtain ⟨⟨b', k'⟩, hw, hy⟩ := bind_eq_ok.mp hy
    obtain rfl := Except.ok.inj hy
    exact Or.inr ⟨not_not.mp hm, rfl, wakePool_blocks hw, rfl⟩

/-- Every step keeps the invariant. -/
theorem Inv.step (h : Inv as free s) {c : PoolCall n × (OsErr × Option ℕ)} (hst : Step as s c s') :
    ∃ free', Inv as free' s' := by
  obtain ⟨c, r⟩ := c
  obtain ⟨ha, he⟩ := hst
  cases c with
  | allocate p flags =>
    rcases exec_allocate he with ⟨-, -, hb, hh⟩ | ⟨x, k', -, hf, -, rfl⟩ | ⟨-, -, -, -, hb, hh⟩
    · exact ⟨free, h.congr (hb ▸ ⟨rfl, fun _ => rfl, fun _ => rfl⟩) hh⟩
    · obtain ⟨a, has, rfl⟩ := List.mem_map.mp ha
      obtain ⟨l, hl, hi⟩ := h.take has hf k'
      rw [h.block a has x (h.free_mem has (by rw [hl]; exact List.mem_cons_self))]
      exact ⟨_, hi⟩
    · exact ⟨free, h.congr hb hh⟩
  | release block =>
    obtain ⟨d, hd, rfl⟩ := ha
    rcases exec_release h hd he with ⟨-, hb, hh⟩ | ⟨-, -, hb, hh⟩
    · exact ⟨free, h.congr (hb ▸ ⟨rfl, fun _ => rfl, fun _ => rfl⟩) hh⟩
    · exact ⟨_, (h.put hd s'.k).congr hb hh⟩
  | delete p =>
    obtain ⟨-, rfl⟩ := Prod.mk.inj (Except.ok.inj he)
    refine ⟨free, h.congr ?_ rfl⟩
    show SameBlocks s.b (s.b.rxDeleteBlockPool s.k p).2.1
    unfold rxDeleteBlockPool
    dsimp only
    split_ifs
    · exact SameBlocks.setPool s.b p rfl rfl
    · exact ⟨rfl, fun _ => rfl, fun _ => rfl⟩
  | other k' =>
    obtain ⟨-, rfl⟩ := Prod.mk.inj (Except.ok.inj he)
    exact ⟨free, h.congr ⟨rfl, fun _ => rfl, fun _ => rfl⟩ rfl⟩

theorem Init.inv (h : Init as s) : ∃ free, Inv as free s := by
  obtain ⟨m, hm⟩ := h.setUp
  obtain ⟨hready, -⟩ := setUp_ready hm h.pools h.nodes
  have hfind : ∀ a ∈ as, as.find? (fun b => b.pool = a.pool) = some a := by
    intro a ha
    obtain ⟨b, hb⟩ : ∃ b, as.find? (fun b => b.pool = a.pool) = some b := by
      rw [← Option.isSome_iff_exists, List.find?_isSome]
      exact ⟨a, ha, by simp⟩
    have hp : b.pool = a.pool := by simpa using List.find?_some hb
    rw [hb, List.inj_on_of_nodup_map h.pools (List.mem_of_find?_eq_some hb) ha hp]
  have hheld : ∀ p, s.heldOf p = [] := fun p => by simp [heldOf, h.held]
  refine ⟨fun p => ((as.find? fun b => b.pool = p).map PoolArgs.nodes).getD [], h.pools, h.nodes, fun a ha => ?_,
    fun a ha => ?_, fun a ha => ?_, fun a ha => (hready a ha).block, fun d hd => ?_⟩
  · rw [hfind a ha]
    exact (hready a ha).chain
  · rw [hfind a ha]
    exact (hready a ha).available
  · rw [hfind a ha, hheld]
    simp
  · rw [h.held] at hd
    cases hd

/-- An allocation that returns `OS_OK` has given a block, unless it had to
wait. -/
theorem Inv.given_iff_needsNoWait (h : Inv as free s) {p : ℕ} {flags : ℤ} {r : OsErr × Option ℕ}
    (hst : Step as s (.allocate p flags, r) s') : Given as s p r s' ↔ s.NeedsNoWait p flags := by
  obtain ⟨free', h'⟩ := h.step hst
  obtain ⟨ha, he⟩ := hst
  rcases exec_allocate he with ⟨hno, rfl, -, -⟩ | ⟨x, k', hm, hf, rfl, rfl⟩ | ⟨hm, hf, hn, rfl, -, -⟩
  · refine iff_of_true (fun hr => ?_) fun hm hf => ?_
    · cases hr
    · rcases hno with hno | hno
      · exact absurd hm hno
      · exact hno.2
  · obtain ⟨a, has, rfl⟩ := List.mem_map.mp ha
    have hxf : x ∈ free a.pool := (h.reaches has).mp ⟨[], hf⟩
    have hxa := h.free_mem has hxf
    have hblock := h.block a has x hxa
    refine iff_of_true (fun _ => ⟨a, has, rfl, x, hxa, by rw [hblock], (h.reaches has).mpr hxf,
      fun d hd => h.free_not_held has hxf hd, fun a' ha' hre => ?_,
        _, List.mem_cons_self, rfl, rfl, fun d hd hdx => ?_⟩) ?_
    · obtain ⟨a1, ha1, -, hmem, hnot⟩ := h'.holding (d := ⟨s.k.curr, a.pool, (s.b.node x).block⟩) List.mem_cons_self
      have hnode : HeldBlock.node ⟨s.k.curr, a.pool, (s.b.node x).block⟩ = x := by simp [HeldBlock.node, hblock]
      rw [hnode] at hmem hnot
      have hxf' := (h'.reaches ha').mp hre
      obtain rfl := h'.eq_of_node ha' ha1 (h'.free_mem ha' hxf') hmem
      exact hnot hxf'
    · rcases List.mem_cons.mp hd with hd | hd
      · exact hd
      · exact absurd hdx (h.free_not_held has hxf hd)
    · intro _ hnone
      rw [hf] at hnone
      cases hnone
  · refine iff_of_false (fun hg => ?_) fun hw => hn (hw hm hf)
    obtain ⟨_, _, _, _, _, hr, -⟩ := hg rfl
    cases hr

/-- **A call that returns `OS_OK` has given a block of the pool, which was free
and now is the caller's alone, if and only if it need not wait.** This is so in
every run of the calls, whatever the tasks do in between. -/
theorem given_iff {s : PoolSys n} (hi : Init as s) {tr : List ((PoolCall n × (OsErr × Option ℕ)) × PoolSys n)}
    (h : Run.Exec (Step as) s tr) {tr₁ tr₂ : List ((PoolCall n × (OsErr × Option ℕ)) × PoolSys n)} {p : ℕ} {flags : ℤ}
    {r : OsErr × Option ℕ} {s' : PoolSys n} (htr : tr = tr₁ ++ ((.allocate p flags, r), s') :: tr₂) :
    Given as (Run.final s tr₁) p r s' ↔ (Run.final s tr₁).NeedsNoWait p flags := by
  subst htr
  have hinv := (Run.exec_append.mp h).1.invariant (fun s => ∃ free, Inv as free s)
    (fun _ _ _ ⟨_, hs⟩ hst => hs.step hst) hi.inv
  obtain ⟨free, hf⟩ := hinv _ (Run.final_mem_states s tr₁)
  exact hf.given_iff_needsNoWait h.step_of_append

/-- Nobody waits for a block, and no pool has been deleted. -/
def Quiet (as : List PoolArgs) (s : PoolSys n) : Prop :=
  ∀ a ∈ as, (s.b.pool a.pool).magic = rxBlockPoolMagic ∧ (s.b.pool a.pool).task = none

theorem Inv.exec_release_quiet (h : Inv as free s) (hq : Quiet as s) {d : HeldBlock n} (hd : d ∈ s.held) :
    s.exec (.release d.block) = .ok ((.osOk, none),
      ⟨s.b.putBlock d.pool d.node, s.k.enterCritical.exitCritical, s.takeBack d.block .osOk⟩) := by
  obtain ⟨a, ha, hap, -⟩ := h.holding hd
  obtain ⟨hm, ht⟩ := hq a ha
  rw [hap] at hm ht
  have hnext : (s.b.node (d.block - blockChainSize.toNat)).next = some d.pool := (h.held d hd).2.2
  have ht' : ((s.b.putBlock d.pool d.node).pool d.pool).task = none := by rw [putBlock_pool_self]; exact ht
  have hw : (s.b.putBlock d.pool d.node).wakePool s.k.enterCritical d.pool
      = .ok (s.b.putBlock d.pool d.node, s.k.enterCritical) := by
    unfold wakePool
    simp only [ht']
  have hrel : s.b.rxReleaseBlock s.k d.block
      = .ok (.osOk, s.b.putBlock d.pool d.node, s.k.enterCritical.exitCritical) := by
    unfold rxReleaseBlock
    simp only [hnext]
    rw [if_neg (not_not.mpr hm)]
    show ((s.b.putBlock d.pool d.node).wakePool s.k.enterCritical d.pool >>= _) = _
    rw [hw]
    rfl
  simp only [exec, hrel]
  rfl

/-- The steps of a run without waiting. -/
theorem Inv.step_quiet (h : Inv as free s) (hq : Quiet as s) {c : PoolCall n × (OsErr × Option ℕ)} (hn : NoWait s c)
    (hst : Step as s c s') : Quiet as s' := by
  obtain ⟨c, r⟩ := c
  obtain ⟨ha, he⟩ := hst
  cases c with
  | allocate p flags =>
    rcases exec_allocate he with ⟨-, -, hb, -⟩ | ⟨x, k', -, hf, -, rfl⟩ | ⟨-, -, hne, -⟩
    · unfold Quiet
      rw [hb]
      exact hq
    · intro a' ha'
      by_cases hp : a'.pool = p
      · subst hp
        rw [takeBlock_pool_self]
        exact hq a' ha'
      · rw [takeBlock_pool_ne hp]
        exact hq a' ha'
    · exact absurd hn hne
  | release block =>
    obtain ⟨d, hd, rfl⟩ := ha
    obtain ⟨-, rfl⟩ := Prod.mk.inj (Except.ok.inj ((h.exec_release_quiet hq hd).symm.trans he))
    intro a' ha'
    by_cases hp : a'.pool = d.pool
    · rw [hp, putBlock_pool_self, ← hp]
      exact hq a' ha'
    · rw [putBlock_pool_ne hp]
      exact hq a' ha'
  | delete p => exact hn.elim
  | other k' =>
    obtain ⟨-, rfl⟩ := Prod.mk.inj (Except.ok.inj he)
    exact hq

theorem Inv.poolsOK (h : Inv as free s) (hq : Quiet as s) : PoolsOK as s := by
  refine ⟨fun a ha => ⟨free a.pool, h.chain a ha, (h.available a ha).symm, h.perm a ha, h.nodup ha⟩, fun a ha => ?_,
    fun d hd => ?_⟩
  · obtain ⟨hm, -⟩ := hq a ha
    have hc := h.chain a ha
    have hav := h.available a ha
    cases hf : (s.b.pool a.pool).freeBlocks with
    | none =>
      have hl : free a.pool = [] := Chain.unique hc hf
      have h0 : (s.b.pool a.pool).available = 0 := by
        apply BitVec.eq_of_toNat_eq
        rw [hav, hl]
        rfl
      refine ⟨(.osErr, none), ⟨s.b, s.k.enterCritical.exitCritical, s.held⟩, ?_, by simp [h0], by simp, by simp⟩
      simp only [exec, rxAllocateBlock]
      rw [if_neg (not_not.mpr hm)]
      simp only [hf, if_true]
      rfl
    | some x =>
      have hxf : x ∈ free a.pool := (h.reaches ha).mp ⟨[], hf⟩
      have hne : (s.b.pool a.pool).available ≠ 0 := by
        intro h0
        rw [h0] at hav
        exact absurd (List.length_pos_of_mem hxf) (by rw [← hav]; decide)
      refine ⟨(.osOk, some (s.b.node x).block), ⟨s.b.takeBlock a.pool x, s.k.enterCritical.exitCritical,
        ⟨s.k.curr, a.pool, (s.b.node x).block⟩ :: s.held⟩, ?_, ⟨fun hr => absurd rfl hr, fun h0 => absurd h0 hne⟩,
        fun _ => ⟨_, rfl⟩, ?_⟩
      · simp only [exec, rxAllocateBlock]
        rw [if_neg (not_not.mpr hm)]
        simp only [hf]
        rfl
      · intro block hb d hd hdb
        obtain rfl := Option.some.inj hb
        apply h.free_not_held ha hxf hd
        unfold HeldBlock.node
        rw [hdb, h.block a ha x (h.free_mem ha hxf), Nat.add_sub_cancel]
  · obtain ⟨a, ha, hap, hda, -⟩ := h.holding hd
    have hput := h.put hd s.k.enterCritical.exitCritical
    refine ⟨_, h.exec_release_quiet hq hd, fun l hl => ?_, fun a' ha' hne l hl => ?_⟩
    · obtain rfl := Chain.unique hl (hap ▸ h.chain a ha)
      have hc := hput.chain a ha
      rw [hap, Function.update_self] at hc
      exact hc
    · obtain rfl := Chain.unique hl (h.chain a' ha')
      have hc := hput.chain a' ha'
      rw [Function.update_of_ne hne] at hc
      exact hc

/-- **Along every run of pools set up with nobody waiting, of allocations with
`OS_NO_WAIT` and releases, all blocks are accounted for.** -/
theorem poolsOK_of_run {s : PoolSys n} (hi : Init as s) (hw : ∀ a ∈ as, (s.b.pool a.pool).task = none)
    {tr : List ((PoolCall n × (OsErr × Option ℕ)) × PoolSys n)} (h : Run.Exec (Step as) s tr)
    (hn : Run.Guarded NoWait s tr) : ∀ x ∈ Run.states s tr, PoolsOK as x := by
  obtain ⟨m, hm⟩ := hi.setUp
  obtain ⟨hready, -⟩ := setUp_ready hm hi.pools hi.nodes
  obtain ⟨free, hf⟩ := hi.inv
  intro x hx
  obtain ⟨free', hf', hq⟩ := h.invariant_of_guarded (fun s => ∃ free, Inv as free s ∧ Quiet as s)
    (fun _ _ _ ⟨_, hs, hq⟩ hn hst => by
      obtain ⟨free', hs'⟩ := hs.step hst
      exact ⟨free', hs', hs.step_quiet hq hn hst⟩) hn ⟨free, hf, fun a ha => ⟨(hready a ha).magic, hw a ha⟩⟩ x hx
  exact hf'.poolsOK hq

end Calls

/-- Two pools, the one of `test_blockpool.c` and one with room for one block. -/
def twoPools : List PoolArgs :=
  [⟨0, "mypool".toList, 64, 4096, 500⟩, ⟨1, "one".toList, 64, 65536, 100⟩]

/-- They are set up in zeroed memory. Tasks 0 and 1 are ready, and 0 runs. -/
def pooled : PoolSys 2 where
  b := (setUp ⟨fun _ => {}, fun _ => {}⟩ twoPools).getD ⟨fun _ => {}, fun _ => {}⟩
  k := {
    tcb := fun t => { state := if t = 0 then .running else .ready, next := if t = 0 then some 1 else none }
    curr := 0, readyHead := some 0 }

theorem pooled_init : Init twoPools pooled :=
  ⟨⟨⟨fun _ => {}, fun _ => {}⟩, rfl⟩, by decide, by decide +kernel, rfl⟩

/-- Task 0 takes the only block of pool 1 and one of pool 0, is refused another
one of pool 1, releases the first and takes it again. -/
theorem poolsOK_pooled : Init twoPools pooled ∧ ∃ tr, Run.Exec (Step twoPools) pooled tr ∧ tr.length = 5 ∧
    ∀ x ∈ Run.states pooled tr, PoolsOK twoPools x := by
  refine ⟨pooled_init, ?_⟩
  obtain ⟨tr, hex, hp⟩ := Run.exists_exec (f := Run.attempt (Admissible twoPools) exec)
    (fun _ _ _ => Run.step_of_attempt) (s := pooled)
    [(.allocate 1 osNoWait, (.osOk, some 65544)), (.allocate 0 osNoWait, (.osOk, some 6984)),
      (.allocate 1 osNoWait, (.osErr, none)), (.release 65544, (.osOk, none)),
      (.allocate 1 osNoWait, (.osOk, some 65544))]
    (fun tr => decide (tr.length = 5 ∧ Run.Guarded NoWait pooled tr)) (by decide +kernel)
  obtain ⟨hlen, hn⟩ := of_decide_eq_true hp
  exact ⟨tr, hex, hlen, poolsOK_of_run pooled_init (by decide +kernel) hex hn⟩

/-- Task 0 may wait, but need not. -/
theorem given_pooled : Init twoPools pooled ∧ ∃ tr s', Run.Exec (Step twoPools) pooled
    (tr ++ [((.allocate 1 osWaitForever, (.osOk, some 65544)), s')]) ∧
    Given twoPools (Run.final pooled tr) 1 (.osOk, some 65544) s' := by
  refine ⟨pooled_init, ?_⟩
  obtain ⟨tr, s', hex, hp⟩ := Run.exists_exec_last (f := Run.attempt (Admissible twoPools) exec)
    (fun _ _ _ => Run.step_of_attempt) (s := pooled) [(.allocate 0 osNoWait, (.osOk, some 6984))]
    (.allocate 1 osWaitForever, (.osOk, some 65544))
    (fun tr _ => decide ((Run.final pooled tr).NeedsNoWait 1 osWaitForever)) (by decide +kernel)
  exact ⟨tr, s', hex, (given_iff pooled_init hex rfl).mpr (of_decide_eq_true hp)⟩

/-- Task 0 wants another block of pool 1, which has none left: `OS_OK`, and no
block. -/
theorem waiting_returns_nothing : Init twoPools pooled ∧ ∃ tr s', Run.Exec (Step twoPools) pooled
    (tr ++ [((.allocate 1 osWaitForever, (.osOk, none)), s')]) ∧
    ¬ Given twoPools (Run.final pooled tr) 1 (.osOk, none) s' := by
  refine ⟨pooled_init, ?_⟩
  obtain ⟨tr, s', hex, -⟩ := Run.exists_exec_last (f := Run.attempt (Admissible twoPools) exec)
    (fun _ _ _ => Run.step_of_attempt) (s := pooled) [(.allocate 1 osWaitForever, (.osOk, some 65544))]
    (.allocate 1 osWaitForever, (.osOk, none)) (fun _ _ => true) (by decide +kernel)
  refine ⟨tr, s', hex, fun hg => ?_⟩
  obtain ⟨_, _, _, _, _, hr, -⟩ := hg rfl
  cases hr

end PoolSys

end Rosx
