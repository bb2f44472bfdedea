/-
# The timeouts of the queue calls

`OS_NO_WAIT` is 0 and `OS_WAIT_FOREVER` is -1. The queue calls test for 0 alone,
and for them it means to wait for ever; every other value is added to `jiffies`
before `__rx_add_timer` adds `jiffies` again. So a call that waits is as the
constants define it only for a positive timeout at `jiffies` 0, and a read also
for 0 while another task waits to read, since it is refused then.

Key definitions: `NotSuspended`, `WaitsForever`, `WaitsUntil`, `AsDefined`.
Key theorem: `timeouts_asDefined_iff`.
-/
import Rosx.QueueTimed

namespace Rosx

open Linked

variable {n : ℕ} {ι : Type}

section Defined

variable (k : Kernel n)

/-- The call has returned to the running task. -/
def NotSuspended (res : Res (Option Ret × Kernel n)) : Prop :=
  ∃ r k', res = .ok (some r, k') ∧ k'.curr = k.curr ∧ (k'.tcb k.curr).state = (k.tcb k.curr).state

/-- The task is suspended, and no timer has been armed. -/
def WaitsForever (res : Res (Option Ret × Kernel n)) : Prop :=
  ∃ k', res = .ok (none, k') ∧ (k'.tcb k.curr).state = .suspend ∧ k'.active = k.active

/-- The task is suspended, and its timer has been armed. -/
def WaitsUntil (tm : ℕ) (expiry : Word) (res : Res (Option Ret × Kernel n)) : Prop :=
  ∃ k', res = .ok (none, k') ∧ (k'.tcb k.curr).state = .suspend ∧ (k'.tcb k.curr).timer = some tm ∧
    k'.active.Perm (tm :: k.active) ∧ (k'.timers tm).timeExpiry = expiry

/-- The call does with its timeout what the constants say. -/
def AsDefined (tm : ℕ) (timeout : ℤ) (res : Res (Option Ret × Kernel n)) : Prop :=
  (timeout = osNoWait → NotSuspended k res) ∧ (timeout = osWaitForever → WaitsForever k res) ∧
    (0 < timeout → WaitsUntil k tm (k.jiffies + BitVec.ofInt 32 timeout) res)

/-- A call that waits does so for ever at 0, and else until `jiffies` has been
added twice. -/
def AsCoded (tm : ℕ) (timeout : ℤ) (res : Res (Option Ret × Kernel n)) : Prop :=
  if timeout = 0 then WaitsForever k res
  else WaitsUntil k tm (BitVec.ofInt 32 timeout + k.jiffies + k.jiffies) res

variable {k} {tm : ℕ} {timeout : ℤ} {res : Res (Option Ret × Kernel n)}

theorem WaitsForever.not_notSuspended (h : WaitsForever k res) : ¬ NotSuspended k res := by
  rintro ⟨r, k1, he1, -⟩
  obtain ⟨k2, he2, -⟩ := h
  rw [he1] at he2
  cases he2

theorem WaitsUntil.not_waitsForever {expiry : Word} (h : WaitsUntil k tm expiry res) : ¬ WaitsForever k res := by
  rintro ⟨k1, he1, -, hactive⟩
  obtain ⟨k2, he2, -, -, hperm, -⟩ := h
  obtain rfl : k1 = k2 := by
    rw [he1] at he2
    exact congrArg Prod.snd (Except.ok.inj he2)
  have hlen := hperm.length_eq
  rw [hactive, List.length_cons] at hlen
  omega

theorem WaitsUntil.expiry_unique {expiry expiry' : Word} (h : WaitsUntil k tm expiry res)
    (h' : WaitsUntil k tm expiry' res) : expiry = expiry' := by
  obtain ⟨k1, he1, -, -, -, hexp⟩ := h
  obtain ⟨k2, he2, -, -, -, hexp'⟩ := h'
  obtain rfl : k1 = k2 := by
    rw [he1] at he2
    exact congrArg Prod.snd (Except.ok.inj he2)
  exact hexp.symm.trans hexp'

/-- A call that waits is as defined for a positive timeout at `jiffies` 0, and
for the negative values that have no meaning. -/
theorem AsCoded.asDefined_iff (h : AsCoded k tm timeout res) :
    AsDefined k tm timeout res ↔ timeout < osWaitForever ∨ (0 < timeout ∧ k.jiffies = 0) := by
  unfold AsCoded at h
  unfold AsDefined osNoWait osWaitForever
  split_ifs at h with h0
  · refine iff_of_false (fun hd => h.not_notSuspended (hd.1 h0)) ?_
    omega
  · constructor
    · rintro ⟨-, hforever, huntil⟩
      have h1 : timeout ≠ -1 := fun hc => h.not_waitsForever (hforever hc)
      by_cases hpos : 0 < timeout
      · refine Or.inr ⟨hpos, ?_⟩
        have hexp := h.expiry_unique (huntil hpos)
        rw [BitVec.add_comm k.jiffies] at hexp
        exact BitVec.add_right_eq_self.mp hexp
      · exact Or.inl (by omega)
    · rintro (hneg | ⟨hpos, hj⟩)
      · exact ⟨fun hc => absurd hc h0, fun hc => by omega, fun hc => by omega⟩
      · refine ⟨fun hc => absurd hc h0, fun hc => by omega, fun _ => ?_⟩
        have hadd : BitVec.ofInt 32 timeout + k.jiffies + k.jiffies = k.jiffies + BitVec.ofInt 32 timeout := by
          rw [hj]
          simp
        rwa [hadd] at h

end Defined

/-! ### What the calls do -/

section Lists

variable {e k : Kernel n} {lr : List (Fin n)} {w : ι → Option (Fin n)} {lw : ι → List (Fin n)}

/-- A task that has left the ready queue gives up the processor. -/
theorem Lists.givesUp (h : Lists e k lr w lw) (hc : e.curr ∉ lr) (hne : lr ≠ []) :
    ∃ k', rxSched k = .ok k' ∧ (k'.tcb e.curr).state = (e.tcb e.curr).state ∧
      (k'.tcb e.curr).timer = (e.tcb e.curr).timer ∧ k'.timers = e.timers ∧ k'.active = e.active := by
  obtain ⟨x, l, rfl⟩ := List.exists_cons_of_ne_nil hne
  obtain ⟨k', hs, -, hl⟩ := h.sched hc rfl
  have hx : e.curr ≠ x := fun hc' => hc (hc' ▸ List.mem_cons_self)
  refine ⟨k', hs, ?_, ?_, hl.data.timers, hl.data.active⟩
  · rw [hl.data.state, Kernel.switchTo_state, if_neg hx]
  · rw [hl.data.timer, Kernel.switchTo_timer]

theorem Lists.setSleepTimer (h : Lists e k lr w lw) (tm : ℕ) (delay : Word) (t : Fin n) :
    Lists (e.setSleepTimer tm delay t) (k.setSleepTimer tm delay t) lr w lw := by
  unfold Kernel.setSleepTimer
  rw [h.data.timers]
  exact h.setTimer _

/-- `__rx_add_timer` suspends the running task, which may have left the ready queue before. -/
theorem Lists.sleepsOn (h : Lists e k lr w lw) (hc : e.curr ∈ lr ∨ k.next e.curr = none) (hne : lr.erase e.curr ≠ [])
    (tm : ℕ) (delay : Word) :
    ∃ k', k.rxAddTimer tm delay e.curr = .ok k' ∧ (k'.tcb e.curr).state = .suspend ∧
      (k'.tcb e.curr).timer = some tm ∧ k'.active.Perm (tm :: e.active) ∧
      (k'.timers tm).timeExpiry = delay + e.jiffies := by
  set f : Tcb n → Tcb n := fun c => { c with timer := some tm, state := .suspend } with hf
  set e1 := (e.setSleepTimer tm delay e.curr).rxAddToActiveTimerList tm with he1
  set k1 := (k.setSleepTimer tm delay e.curr).rxAddToActiveTimerList tm with hk1
  have h1 : Lists (e1.modTcb e.curr f) (k1.modTcb e.curr f) lr w lw :=
    ((h.setSleepTimer tm delay e.curr).rxAddToActiveTimerList tm).modTcb e.curr fun _ _ => rfl
  obtain ⟨k2, hrem, h2⟩ : ∃ k2, rxRemoveFromReadyQ (k1.modTcb e.curr f) e.curr = .ok k2 ∧
      Lists (e1.modTcb e.curr f) k2 (lr.erase e.curr) w lw := by
    by_cases hm : e.curr ∈ lr
    · obtain ⟨k2, hrem, -, h2⟩ := h1.removeReady hm
      exact ⟨k2, hrem, h2⟩
    · have hnone : (k1.modTcb e.curr f).next e.curr = none := by
        rw [LinkFree.next_modTcb (fun _ _ => rfl)]
        exact hc.resolve_left hm
      rw [List.erase_of_not_mem hm] at hne ⊢
      exact h1.removeReady_of_notMem hm hne hnone
  obtain ⟨k3, hs, hst, htm, htimers, hactive⟩ := h2.givesUp h.ready.nodup.not_mem_erase hne
  refine ⟨k3, ?_, ?_, ?_, ?_, ?_⟩
  · show (rxRemoveFromReadyQ (k1.modTcb e.curr f) e.curr >>= rxSched) = _
    rw [hrem]
    exact hs
  · exact hst.trans (by rw [show (e1.modTcb e.curr f).curr = e.curr from rfl, Kernel.modTcb_self])
  · exact htm.trans (by rw [show (e1.modTcb e.curr f).curr = e.curr from rfl, Kernel.modTcb_self])
  · rw [hactive]
    exact List.perm_orderedInsert _ _ _
  · rw [htimers]
    show ((Function.update (e.setSleepTimer tm delay e.curr).timers tm
      ((e.setSleepTimer tm delay e.curr).armed tm)) tm).timeExpiry = _
    rw [Function.update_self]
    simp [Kernel.armed, Kernel.setSleepTimer]

end Lists

section Block

variable {k : Kernel n} {lr : List (Fin n)} {w : ι → Option (Fin n)} {lw : ι → List (Fin n)} {m : ℕ}

/-- A reader that waits. -/
theorem Waiting.blockReader_asCoded (h : Waiting k lr w lw) (hne : lr.erase k.curr ≠ []) (timeout : ℤ) (tm : ℕ) :
    AsCoded k tm timeout ((Rosx.blockReader k.enterCritical m timeout tm).map fun k => (none, k)) := by
  set c : MsgQueue n := { k.queues m with readTask := some k.curr } with hcdef
  have h0 : Lists (k.setQueue m c) (k.enterCritical.setQueue m c) lr w lw := h.lists.enter.setQueue m c
  unfold AsCoded
  split_ifs with ht
  · set f : Tcb n → Tcb n := fun c => { c with state := .suspend, err := .osOk } with hf
    have h1 : Lists ((k.setQueue m c).modTcb k.curr f) ((k.enterCritical.setQueue m c).modTcb k.curr f) lr w lw :=
      h0.modTcb k.curr fun _ _ => rfl
    obtain ⟨k1, hrem, -, h2⟩ := h1.removeReady h.curr
    obtain ⟨k2, hs, hst, -, -, hactive⟩ := h2.exit.givesUp h.lists.ready.nodup.not_mem_erase hne
    refine ⟨k2, ?_, hst.trans ?_, hactive⟩
    · unfold Rosx.blockReader
      rw [if_pos ht]
      show ((rxRemoveFromReadyQ ((k.enterCritical.setQueue m c).modTcb k.curr f) k.curr >>= fun k =>
        rxSched k.exitCritical).map _) = _
      rw [hrem]
      show (rxSched k1.exitCritical).map _ = _
      rw [hs]
      rfl
    · exact congrArg Tcb.state (Kernel.modTcb_self (k.setQueue m c) k.curr f)
  · obtain ⟨k1, he, hst, htm, hactive, hexp⟩ :=
      h0.exit.sleepsOn (Or.inl h.curr) hne tm (BitVec.ofInt 32 timeout + k.jiffies)
    refine ⟨k1, ?_, hst, htm, hactive, hexp⟩
    unfold Rosx.blockReader
    rw [if_neg ht]
    exact congrArg (Except.map fun k => (none, k)) he

/-- A writer that waits. -/
theorem Waiting.blockWriter_asCoded [DecidableEq ι] (h : Waiting k lr w lw) {i : ι} (hwi : (k.queues m).writeTask = w i)
    (hne : lr.erase k.curr ≠ []) (timeout : ℤ) (tm : ℕ) :
    AsCoded k tm timeout ((Rosx.blockWriter k.enterCritical m timeout tm).map fun k => (none, k)) := by
  obtain ⟨k1, hjoin, -, hnone, h1⟩ := h.lists.joinWriter (m := m) (i := i) hwi h.curr
  have hj : k1.jiffies = k.jiffies := by
    have hrest := congrArg Kernel.jiffies h1.data.rest
    exact hrest
  have hnm : k.curr ∉ lr.erase k.curr := h.lists.ready.nodup.not_mem_erase
  have hst0 : ((joinedWriter k m (lw i)).tcb k.curr).state = .suspend := by
    rw [joinedWriter, Kernel.setQueue_tcb, Kernel.modTcb_self]
  unfold AsCoded
  rw [blockWriter_eq, hjoin]
  split_ifs with ht
  · obtain ⟨k2, hs, hst, -, -, hactive⟩ := h1.givesUp hnm hne
    refine ⟨k2, ?_, hst.trans hst0, hactive⟩
    show (rxSched k1).map _ = _
    rw [hs]
    rfl
  · obtain ⟨k2, he, hst, htm, hactive, hexp⟩ := h1.sleepsOn (Or.inr hnone)
      (by rwa [show (joinedWriter k m (lw i)).curr = k.curr from rfl, List.erase_of_not_mem hnm]) tm
      (BitVec.ofInt 32 timeout + k.jiffies)
    refine ⟨k2, ?_, hst, htm, hactive, hexp⟩
    show (k1.rxAddTimer tm (BitVec.ofInt 32 timeout + k1.jiffies) k.curr).map _ = _
    rw [hj]
    exact congrArg (Except.map fun k => (none, k)) he

/-- A read that is refused returns at once, whatever its timeout. -/
theorem busy_asDefined_iff {r : Ret} (timeout : ℤ) (tm : ℕ) :
    AsDefined k tm timeout (.ok (some r, k.enterCritical.exitCritical)) ↔
      timeout < osWaitForever ∨ timeout = osNoWait := by
  have hno : ¬ WaitsForever k (.ok (some r, k.enterCritical.exitCritical)) := by
    rintro ⟨k', he, -⟩
    cases he
  have hno' : ∀ x, ¬ WaitsUntil k tm x (.ok (some r, k.enterCritical.exitCritical)) := by
    rintro x ⟨k', he, -⟩
    cases he
  unfold AsDefined osNoWait osWaitForever
  constructor
  · rintro ⟨-, hforever, huntil⟩
    have h1 : timeout ≠ -1 := fun hc => hno (hforever hc)
    have hpos : ¬ 0 < timeout := fun hc => hno' _ (huntil hc)
    omega
  · intro hc
    refine ⟨fun _ => ⟨r, _, rfl, rfl, rfl⟩, fun h1 => ?_, fun hpos => ?_⟩
    · omega
    · omega

/-- A read of the empty queue. -/
theorem rxReadFromQueue_asDefined_iff (h : Waiting k lr w lw) (hne : lr.erase k.curr ≠ [])
    (hblock : (k.queues m).block = true) (hempty : (k.queues m).isEmpty = true) (timeout : ℤ) (tm : ℕ) :
    AsDefined k tm timeout (rxReadFromQueue k (some m) true (k.queues m).sizeOfBlock timeout tm) ↔
      if (k.queues m).readTask.isSome then timeout < osWaitForever ∨ timeout = osNoWait
      else timeout < osWaitForever ∨ (0 < timeout ∧ k.jiffies = 0) := by
  have hq : k.enterCritical.queues = k.queues := rfl
  unfold rxReadFromQueue
  dsimp only
  rw [if_neg (by simp), hq, hempty, hblock]
  by_cases hr : (k.queues m).readTask.isSome = true
  · rw [if_pos hr, if_pos hr]
    exact busy_asDefined_iff timeout tm
  · rw [if_neg hr, if_neg hr, if_pos rfl, if_pos rfl]
    exact (h.blockReader_asCoded hne timeout tm).asDefined_iff

/-- A write to the full queue. -/
theorem rxWriteToQueue_asDefined_iff [DecidableEq ι] (h : Waiting k lr w lw) {i : ι}
    (hwi : (k.queues m).writeTask = w i) (hne : lr.erase k.curr ≠ []) (hblock : (k.queues m).block = true)
    (hfull : (k.queues m).isFull = true) (hcyc : (k.queues m).cyclic = false) (msg : List UInt8) (timeout : ℤ)
    (tm : ℕ) :
    AsDefined k tm timeout (rxWriteToQueue k (some m) (some msg) (k.queues m).sizeOfBlock timeout tm) ↔
      timeout < osWaitForever ∨ (0 < timeout ∧ k.jiffies = 0) := by
  have hq : k.enterCritical.queues = k.queues := rfl
  unfold rxWriteToQueue
  dsimp only
  rw [if_neg (by simp), hq, hfull, hcyc, hblock]
  exact (h.blockWriter_asCoded hwi hne timeout tm).asDefined_iff

/-- **The queue calls treat their timeouts as the constants say only at `jiffies`
0.** On a `RX_Q_BLOCK` queue, with another task ready to run, a read of the empty
queue is as defined exactly for a positive timeout at `jiffies` 0 and for the
values below -1, if no task waits to read; if one does, the call is refused, and
that is as defined for 0 and for the values below -1. A write to the full queue
that is not cyclic is as defined exactly for a positive timeout at `jiffies` 0
and for the values below -1. -/
theorem timeouts_asDefined_iff [DecidableEq ι] (h : Waiting k lr w lw) {i : ι} (hwi : (k.queues m).writeTask = w i)
    (hne : lr.erase k.curr ≠ []) (hblock : (k.queues m).block = true) (timeout : ℤ) (tm : ℕ) :
    ((k.queues m).isEmpty = true →
      (AsDefined k tm timeout (rxReadFromQueue k (some m) true (k.queues m).sizeOfBlock timeout tm) ↔
        if (k.queues m).readTask.isSome then timeout < osWaitForever ∨ timeout = osNoWait
        else timeout < osWaitForever ∨ (0 < timeout ∧ k.jiffies = 0))) ∧
    ((k.queues m).isFull = true → (k.queues m).cyclic = false → ∀ msg,
      (AsDefined k tm timeout (rxWriteToQueue k (some m) (some msg) (k.queues m).sizeOfBlock timeout tm) ↔
        timeout < osWaitForever ∨ (0 < timeout ∧ k.jiffies = 0))) :=
  ⟨fun hempty => rxReadFromQueue_asDefined_iff h hne hblock hempty timeout tm,
    fun hfull hcyc msg => rxWriteToQueue_asDefined_iff h hwi hne hblock hfull hcyc msg timeout tm⟩

end Block

/-- `TimedQueue.emptyQueue` at a value of `jiffies`. -/
def emptyAt (jiffies : Word) : Kernel 3 := { TimedQueue.emptyQueue.k with jiffies := jiffies }

theorem emptyAt_waiting (jiffies : Word) :
    Waiting (emptyAt jiffies) [0, 1, 2] (fun _ : Unit => none) (fun _ => []) := by
  have hready : Chain TimedQueue.emptyQueue.k.next TimedQueue.emptyQueue.k.readyHead [0, 1, 2] := by decide
  have hrun : ∀ t, t ∈ [0, 1, 2] ↔ (TimedQueue.emptyQueue.k.tcb t).state.runnable = true := by decide
  refine ⟨⟨.refl _, Or.inl rfl, hready, fun _ => rfl, fun _ t ht => ?_, fun _ _ t ht => ?_⟩, rfl, hrun, ?_⟩
  · exact absurd ht List.not_mem_nil
  · exact absurd ht List.not_mem_nil
  · exact (hrun _).mpr (by decide : (TimedQueue.emptyQueue.k.tcb TimedQueue.emptyQueue.k.curr).state.runnable = true)

/-- At `jiffies` 0 a read waits until its timeout. -/
theorem timeouts_asDefined_read : AsDefined (emptyAt 0) 9 5 (rxReadFromQueue (emptyAt 0) (some 0) true 1 5 9) :=
  ((timeouts_asDefined_iff (i := ()) (m := 0) (emptyAt_waiting 0) rfl (by decide) (by decide) 5 9).1 (by decide)).mpr
    (Or.inr ⟨by decide, rfl⟩)

/-- At `jiffies` 7 a read does not do what it should for 0, for -1 and for 5. -/
theorem read_not_asDefined : Waiting (emptyAt 7) [0, 1, 2] (fun _ : Unit => none) (fun _ => []) ∧
    ((emptyAt 7).queues 0).block = true ∧ ((emptyAt 7).queues 0).isEmpty = true ∧
    ∀ timeout : ℤ, timeout = 0 ∨ timeout = -1 ∨ timeout = 5 →
      ¬ AsDefined (emptyAt 7) 9 timeout (rxReadFromQueue (emptyAt 7) (some 0) true 1 timeout 9) := by
  refine ⟨emptyAt_waiting 7, by decide, by decide, fun timeout ht hd => ?_⟩
  have hc := (rxReadFromQueue_asDefined_iff (m := 0) (emptyAt_waiting 7) (by decide) (by decide) (by decide)
    timeout 9).mp hd
  rw [if_neg (by decide)] at hc
  rcases hc with hneg | ⟨-, hj⟩
  · unfold osWaitForever at hneg
    omega
  · exact absurd hj (by decide)

end Rosx
