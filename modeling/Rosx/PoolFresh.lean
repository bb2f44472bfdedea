/-
# Pools that are created over old contents

`rx_create_block_pool` sets every field of a control block but `task`, the
chain of the tasks that wait for a block, so what it leaves depends on the old
contents by that chain only (`fresh_eq`). The first release wakes the task at
its head: two pools are told apart by their calls if and only if these tasks
differ (`poolIndependent_iff`).

With the queues of `Rosx/QueueFresh.lean` this says when an object can be
created over old contents (`created_independent_iff`). Neither constructor
starts from a cleared control block, and neither deletion clears one.

Key definitions: `PoolSys.fresh`, `PoolIndependent`.
Key theorem: `created_independent_iff`.
-/
import Rosx.BlockRun
import Rosx.QueueFresh

namespace Rosx

open Linked Run

variable {n : ℕ}

namespace BlockMem

/-- `pool_data->magic = v`. -/
def setMagic (m : BlockMem n) (p : ℕ) (v : Word) : BlockMem n := m.setPool p { m.pool p with magic := v }

variable (p start : ℕ) (blockSize : Word)

/-- The loop does not look at the magic number. -/
theorem linkBlock_setMagic (v : Word) (m : BlockMem n) (i : ℕ) :
    linkBlock p start blockSize (m.setMagic p v) i = (linkBlock p start blockSize m i).setMagic p v := by
  unfold linkBlock
  rw [setMagic, setPool_pool_self]
  dsimp only
  cases (m.pool p).freeBlocks <;> simp [setMagic, setPool, setNode]

theorem linkBlocks_setMagic (v : Word) : ∀ (k i : ℕ) (m : BlockMem n),
    linkBlocks p start blockSize k i (m.setMagic p v) = (linkBlocks p start blockSize k i m).setMagic p v
  | 0, _, _ => rfl
  | k + 1, i, m => by
    rw [linkBlocks, linkBlocks, linkBlock_setMagic, linkBlocks_setMagic v k (i + 1)]

end BlockMem

open BlockMem

/-- A use of a pool: a call by the running task, or the dispatch of a ready
task. -/
inductive PoolUse (n : ℕ) where
  | allocate (flags : ℤ)
  | release (block : ℕ)
  | dispatch (t : Fin n) (preempted : Bool)

namespace PoolSys

/-- What a use of pool `p` computes. -/
def use (p : ℕ) (s : PoolSys n) : PoolUse n → Res ((OsErr × Option ℕ) × PoolSys n)
  | .allocate flags => s.exec (.allocate p flags)
  | .release block => s.exec (.release block)
  | .dispatch t preempted => s.exec (.other (s.k.dispatch t preempted))

/-- A block is released while it is handed out. -/
def Usable (s : PoolSys n) : PoolUse n → Prop
  | .allocate _ => True
  | .release block => ∃ h ∈ s.held, h.block = block
  | .dispatch t _ => (s.k.tcb t).state.runnable = true

instance (s : PoolSys n) : ∀ c, Decidable (s.Usable c)
  | .allocate _ => inferInstanceAs (Decidable True)
  | .release block => inferInstanceAs (Decidable (∃ h ∈ s.held, h.block = block))
  | .dispatch t _ => inferInstanceAs (Decidable ((s.k.tcb t).state.runnable = true))

/-- After `rx_create_block_pool` over the contents `q`. -/
def fresh (b : BlockMem n) (k : Kernel n) (a : PoolArgs) (q : BlockPool n) : PoolSys n where
  b := (rxCreateBlockPool (b.setPool a.pool q) a.pool a.name a.blockSize a.start a.poolSize).2
  k := k

/-- Whatever the arguments that the call accepts, and the state it is made in:
all later calls return the same over both contents. -/
def PoolIndependent (q q' : BlockPool n) : Prop :=
  ∀ (b : BlockMem n) (k : Kernel n) (a : PoolArgs),
    (rxCreateBlockPool b a.pool a.name a.blockSize a.start a.poolSize).1 = .osOk →
    ∀ cs, results Usable (use a.pool) (fresh b k a q) cs = results Usable (use a.pool) (fresh b k a q') cs

theorem PoolIndependent.symm {q q' : BlockPool n} (h : PoolIndependent q q') : PoolIndependent q' q :=
  fun b k a hok cs => (h b k a hok cs).symm

theorem PoolIndependent.trans {q q' q'' : BlockPool n} (h : PoolIndependent q q') (h' : PoolIndependent q' q'') :
    PoolIndependent q q'' :=
  fun b k a hok cs => (h b k a hok cs).trans (h' b k a hok cs)

/-- The call sets all of the control block but `task`. -/
theorem fresh_eq {b : BlockMem n} {k : Kernel n} {a : PoolArgs}
    (hok : (rxCreateBlockPool b a.pool a.name a.blockSize a.start a.poolSize).1 = .osOk) (q : BlockPool n) :
    fresh b k a q = ⟨linkBlocks a.pool a.start a.blockSize a.count 0 (b.setPool a.pool
      { magic := rxBlockPoolMagic, name := cutName a.name, startOfPool := a.start, poolSize := a.poolSize
        blockSize := a.blockSize, available := a.poolSize / (a.blockSize + blockChainSize), freeBlocks := none
        task := q.task }), k, []⟩ := by
  unfold rxCreateBlockPool at hok
  split_ifs at hok with hv
  simp only [fresh, rxCreateBlockPool, if_neg hv]
  rw [← setMagic, ← linkBlocks_setMagic]
  simp [setMagic, setPool, PoolArgs.count]

theorem poolIndependent_of_task {q q' : BlockPool n} (h : q.task = q'.task) : PoolIndependent q q' := by
  intro b k a hok cs
  rw [fresh_eq hok, fresh_eq hok, h]

/-- A release, up to the waiting task. -/
theorem exec_release_eq {s : PoolSys n} {block x p : ℕ} (hx : block - blockChainSize.toNat = x)
    (hnext : (s.b.node x).next = some p) (hm : (s.b.pool p).magic = rxBlockPoolMagic) :
    s.exec (.release block) = (wakePool (s.b.putBlock p x) s.k.enterCritical p).map fun y =>
      ((.osOk, none), ⟨y.1, y.2.exitCritical, s.takeBack block .osOk⟩) := by
  subst hx
  show (s.b.rxReleaseBlock s.k block).map _ = _
  simp only [rxReleaseBlock, hnext, hm, ne_eq, not_true_eq_false, if_false]
  cases wakePool (s.b.putBlock p (block - blockChainSize.toNat)) s.k.enterCritical p <;> rfl

/-! ### A release wakes the task that the old contents name -/

section Wake

variable {b b' : BlockMem n} {k k' : Kernel n} {p : ℕ} {t : Fin n}

/-- The state of the other tasks stays. -/
theorem wakePool_state (h : wakePool b k p = .ok (b', k')) (ht : (b.pool p).task ≠ some t) :
    (k'.tcb t).state = (k.tcb t).state := by
  unfold wakePool at h
  cases hu : (b.pool p).task with
  | none =>
    rw [hu] at h
    obtain ⟨-, rfl⟩ := Prod.mk.inj (Except.ok.inj h)
    rfl
  | some u =>
    have hne : t ≠ u := by
      rintro rfl
      exact ht hu
    rw [hu] at h
    obtain ⟨⟨e, k1⟩, hadd, h2⟩ := bind_eq_ok.mp h
    obtain ⟨-, rfl⟩ := Prod.mk.inj (Except.ok.inj h2)
    rw [(rxAddToReadyQ_relinked hadd).state]
    simp [Kernel.modTcb, Kernel.setTcb, hne]

theorem wakePool_wakes {l : List (Fin n)} (ht : (b.pool p).task = some t) (hl : Chain k.next k.readyHead l)
    (hn : t ∉ l) : ∃ b' k', wakePool b k p = .ok (b', k') ∧ (k'.tcb t).state = .ready := by
  set k1 := k.modTcb t fun c => { c with state := .ready, bpool := none } with hk1
  have hstate : (k1.tcb t).state = .ready := by simp [hk1, Kernel.modTcb, Kernel.setTcb]
  have hnext : k1.next = k.next := by
    funext u
    by_cases hu : u = t
    · subst hu
      simp [hk1, Kernel.next, Kernel.modTcb, Kernel.setTcb]
    · simp [hk1, Kernel.next, Kernel.modTcb, Kernel.setTcb, hu]
  obtain ⟨k2, hadd, -, hq⟩ := rxAddToReadyQ_spec (k := k1) (by rw [hnext]; exact hl) hn (by rw [hstate]; rfl)
  refine ⟨b.setPool p { b.pool p with task := (k.tcb t).next }, k2, ?_, ?_⟩
  · unfold wakePool
    rw [ht]
    exact bind_eq_ok.mpr ⟨_, hadd, rfl⟩
  · rw [hq.toRelinked.state, hstate]

end Wake

/-- Only task `c` is ready. -/
def onlyRuns (c : Fin n) : Kernel n where
  tcb := fun t => { state := if t = c then .running else .suspend }
  curr := c
  readyHead := some c

/-- Zeroed memory. -/
def cleared : BlockMem n := ⟨fun _ => {}, fun _ => {}⟩

/-- A pool of one block. -/
def oneBlock : PoolArgs := ⟨0, [], 8, 64, 16⟩

section OneBlock

variable {c t : Fin n} {q q' : BlockPool n}

theorem oneBlock_accepted (b : BlockMem n) :
    (rxCreateBlockPool b oneBlock.pool oneBlock.name oneBlock.blockSize oneBlock.start oneBlock.poolSize).1 = .osOk :=
  rfl

/-- Task `c` has the block. -/
theorem oneBlock_handed (c : Fin n) (q : BlockPool n) : ∃ s, use 0 (fresh cleared (onlyRuns c) oneBlock q)
    (.allocate osNoWait) = .ok ((.osOk, some 72), s) ∧ s.k = (onlyRuns c).enterCritical.exitCritical ∧
    s.held = [⟨c, 0, 72⟩] ∧ (s.b.node 64).next = some 0 ∧ (s.b.pool 0).magic = rxBlockPoolMagic ∧
    (s.b.pool 0).task = q.task := by
  rw [fresh_eq (oneBlock_accepted cleared)]
  exact ⟨_, rfl, rfl, rfl, rfl, rfl, rfl⟩

/-- Any other task can go on after the release if and only if the old contents
name it. -/
theorem oneBlock_wakes (hct : t ≠ c) : results Usable (use 0) (fresh cleared (onlyRuns c) oneBlock q)
    [.allocate osNoWait, .release 72, .dispatch t false] =
      [some (.osOk, some 72), some (.osOk, none), some (.osOk, none)] ↔ q.task = some t := by
  obtain ⟨s, he, hk, hheld, hnext, hmagic, htask⟩ := oneBlock_handed c q
  have hrel : s.Usable (.release 72) := ⟨⟨c, 0, 72⟩, by rw [hheld]; exact List.mem_cons_self, rfl⟩
  have hex : use 0 s (.release 72) = _ := exec_release_eq (x := 64) rfl hnext hmagic
  have hput : ((s.b.putBlock 0 64).pool 0).task = q.task := by rw [putBlock_pool_self, ← htask]
  have hsleep : (s.k.enterCritical.tcb t).state = .suspend := by
    rw [hk]
    exact if_neg hct
  rw [results_ok trivial he]
  constructor
  · intro h
    by_contra hne
    have htail := (List.cons.inj h).2
    cases hw : wakePool (s.b.putBlock 0 64) s.k.enterCritical 0 with
    | error e =>
      rw [hw] at hex
      rw [results_error hrel hex] at htail
      cases htail
    | ok x =>
      obtain ⟨b', k'⟩ := x
      rw [hw] at hex
      have hstate := wakePool_state hw (by rwa [hput])
      rw [results_ok hrel hex, results, if_neg] at htail
      · cases htail
      · show ¬ (k'.tcb t).state.runnable = true
        rw [hstate, hsleep]
        decide
  · intro h
    have hl : Chain s.k.enterCritical.next s.k.enterCritical.readyHead [c] := by
      rw [hk]
      exact ⟨rfl, rfl⟩
    obtain ⟨b', k', hw, hready⟩ := wakePool_wakes (hput.trans h) hl (by simpa using hct)
    rw [hw] at hex
    have hdis : Usable ⟨b', k'.exitCritical, s.takeBack 72 .osOk⟩ (.dispatch t false) := by
      show (k'.tcb t).state.runnable = true
      rw [hready]
      rfl
    rw [results_ok hrel hex, results_ok hdis rfl, results]

/-- With one task only, it is made ready while it runs, and is on the ready
queue twice. -/
theorem oneBlock_self : results Usable (use 0) (fresh cleared (onlyRuns (0 : Fin 1)) oneBlock { task := none })
    [.allocate osNoWait, .release 72, .allocate osNoWait, .allocate osWaitForever, .allocate osWaitForever] ≠
      results Usable (use 0) (fresh cleared (onlyRuns (0 : Fin 1)) oneBlock { task := some 0 })
    [.allocate osNoWait, .release 72, .allocate osNoWait, .allocate osWaitForever, .allocate osWaitForever] := by
  decide +kernel

/-- In a system of one task only, too, the calls tell who waits. -/
theorem task_eq_of_single {q q' : BlockPool 1} (h : PoolIndependent q q') : q.task = q'.task := by
  have hall : ∀ u v : Option (Fin 1), PoolIndependent { task := u } { task := v } → u = none → v = some 0 → False := by
    rintro u v hi rfl rfl
    exact oneBlock_self (hi cleared (onlyRuns 0) oneBlock (oneBlock_accepted _) _)
  have hq : PoolIndependent { task := q.task } q := poolIndependent_of_task rfl
  have hq' : PoolIndependent q' { task := q'.task } := poolIndependent_of_task rfl
  cases hu : q.task with
  | none =>
    cases hv : q'.task with
    | none => rfl
    | some v => exact (hall _ _ (hq.trans (h.trans hq')) hu (hv.trans (congrArg some (Subsingleton.elim v 0)))).elim
  | some u =>
    cases hv : q'.task with
    | none => exact (hall _ _ (hq.trans (h.trans hq')).symm hv
        (hu.trans (congrArg some (Subsingleton.elim u 0)))).elim
    | some v => exact congrArg some (Subsingleton.elim u v)

/-- The old contents do not show if and only if they name the same task. -/
theorem poolIndependent_iff : PoolIndependent q q' ↔ q.task = q'.task := by
  refine ⟨fun h => ?_, poolIndependent_of_task⟩
  refine Option.ext fun t => ?_
  by_cases hc : ∃ c : Fin n, t ≠ c
  · obtain ⟨c, hct⟩ := hc
    rw [← oneBlock_wakes hct, ← oneBlock_wakes (q := q') hct]
    exact Iff.of_eq (congrArg (· = _) (h cleared (onlyRuns c) oneBlock (oneBlock_accepted _) _))
  · have huniq : ∀ c : Fin n, c = t := by
      intro c
      by_contra hne
      exact hc ⟨c, fun e => hne e.symm⟩
    obtain rfl : n = 1 := by
      have hle := Fin.subsingleton_iff_le_one.mp ⟨fun a b => (huniq a).trans (huniq b).symm⟩
      have hlt := t.isLt
      omega
    rw [task_eq_of_single h]

end OneBlock

end PoolSys

open QueueSys PoolSys

/-- **Created over old contents.** A queue is empty after its creation, and
every later sequence of calls returns the same over the contents `q` and `q'`,
if and only if `RX_QUEUE_FULL` was clear in both, and the other two bits are set
by the argument or were the same. For pools, if and only if the same task was
at the head of the chain. -/
theorem created_independent_iff {k : Kernel n} {m : ℕ} {size num start : ℤ} {flag : Word}
    (hok : (rxCreateQueue k m size num start flag).1 = .osOk) (q q' : MsgQueue n) (p p' : BlockPool n) :
    (QueueIndependent k m size num start flag q q' ↔ q.fullBit = false ∧ q'.fullBit = false ∧
      (flag &&& rxQCyclicFull = 0#32 → q.cyclic = q'.cyclic) ∧ (flag &&& rxQBlock = 0#32 → q.block = q'.block)) ∧
    (PoolIndependent p p' ↔ p.task = p'.task) :=
  ⟨queueFresh_iff hok, poolIndependent_iff⟩

/-- The argument sets `RX_Q_BLOCK`, and nobody waits for a block of the old pool. -/
theorem created_independent_stack : QueueIndependent (onlyRuns (0 : Fin 2)) 0 4 2 256 rxQBlock {}
      { head := 7, tail := 9, flag := rxQBlock, readTask := some 1 } ∧
    PoolIndependent (n := 2) {} { magic := rxBlockPoolMagic, available := 3, freeBlocks := some 5 } := by
  have hok : (rxCreateQueue (onlyRuns (0 : Fin 2)) 0 4 2 256 rxQBlock).1 = .osOk := rfl
  have h := created_independent_iff hok {} { head := 7, tail := 9, flag := rxQBlock, readTask := some 1 } {}
    { magic := rxBlockPoolMagic, available := 3, freeBlocks := some 5 }
  exact ⟨h.1.mpr ⟨rfl, rfl, fun _ => rfl, fun h0 => absurd h0 (by decide)⟩, h.2.mpr rfl⟩

/-- A queue that is deleted while it is full, and a pool that is deleted while
its only task waits for a block, show when they are created anew. -/
theorem created_over_deleted :
    (∃ k : Kernel 1, (do
      let (_, k) ← rxWriteToQueue (QueueSys.fresh (onlyRuns 0) 0 1 1 256 0 {}).k (some 0) (some [7]) 1 0 0
      let (_, k) ← rxWriteToQueue k (some 0) (some [8]) 1 0 0
      rxDeleteQueue k 0 : Res (OsErr × Kernel 1)) = .ok (.osOk, k) ∧
      ((QueueSys.fresh (onlyRuns 0) 0 1 1 256 0 (k.queues 0)).k.queues 0).isEmpty = false ∧
      ¬ QueueIndependent (onlyRuns 0) 0 1 1 256 0 (k.queues 0) {}) ∧
    ∃ s : PoolSys 1, (do
      let (_, s) ← use 0 (PoolSys.fresh cleared (onlyRuns 0) oneBlock {}) (.allocate osNoWait)
      let (_, s) ← use 0 s (.allocate osWaitForever)
      s.exec (.delete 0) : Res ((OsErr × Option ℕ) × PoolSys 1)) = .ok ((.osOk, none), s) ∧
      ¬ PoolIndependent (s.b.pool 0) {} := by
  refine ⟨⟨_, rfl, rfl, fun h => ?_⟩, _, rfl, fun h => ?_⟩
  · exact absurd ((queueFresh_iff rfl).mp h).1 (by decide +kernel)
  · exact absurd (poolIndependent_iff.mp h) (by decide +kernel)

end Rosx
