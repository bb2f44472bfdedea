/-
# `rx_resume_task` and the wait chains

A task that waits for a mutex or a semaphore has the state of a task that was
suspended by name, and its one `next` link holds the chain together.
`rx_resume_task` looks at the state only. Of a task that waits it therefore
makes a ready one without taking it off its chain, as every other wake-up
does: the task is on both lists at once, and behind it the chain goes on along
the ready queue.

`ChainsIntact` is what a resume should leave: every chain visits the other
tasks in their order, and no task is on a chain and on the ready queue. It
does so exactly for the tasks that do not wait (`rxResumeTask_intact_iff`).

Key definitions: `waitHead`, `Blocked`, `ChainsIntact`.
-/
import Rosx.ReadyQueue

namespace Rosx

open Linked

variable {n : ℕ}

/-- The head of the wait chain of a mutex (`inl`) or a semaphore (`inr`). -/
def waitHead (k : Kernel n) : ℕ ⊕ ℕ → Option (Fin n)
  | .inl m => (k.mutexes m).task
  | .inr m => (k.sems m).task

/-- The ready queue is `lr` and the tasks `lw i` are blocked on the mutex or
semaphore `i`: no task is on two of these lists, and none on the ready queue is
suspended. -/
structure Blocked (k : Kernel n) (lr : List (Fin n)) (lw : ℕ ⊕ ℕ → List (Fin n)) : Prop where
  ready : Chain k.next k.readyHead lr
  state : ∀ t ∈ lr, (k.tcb t).state ≠ .suspend
  wait : ∀ i, Chain k.next (waitHead k i) (lw i)
  notReady : ∀ i, ∀ t ∈ lw i, t ∉ lr
  apart : ∀ i j, ∀ t ∈ lw i, t ∈ lw j → i = j

/-- From `k` to `k'` the wait chains stay intact, task `t` apart: each still
visits its other tasks in their order, and no task is on a chain and on the
ready queue. -/
structure ChainsIntact (k k' : Kernel n) (t : Fin n) : Prop where
  order : ∀ i l, Chain k.next (waitHead k i) l →
    ∃ l', Chain k'.next (waitHead k' i) l' ∧ (l.filter (· ≠ t)).Sublist l'
  apart : ∀ i u, Reaches k'.next (waitHead k' i) u → ¬ Reaches k'.next k'.readyHead u

/-- The task is on the chain of a mutex or a semaphore. -/
def Waits (k : Kernel n) (t : Fin n) : Prop := ∃ i, Reaches k.next (waitHead k i) t

section Resume

variable {k k' : Kernel n} {lr : List (Fin n)} {lw : ℕ ⊕ ℕ → List (Fin n)} {t : Fin n}

theorem Relinked.waitHead (h : Relinked k k') (i : ℕ ⊕ ℕ) : waitHead k' i = waitHead k i := by
  cases i with
  | inl m => simp only [Rosx.waitHead, h.mutexes]
  | inr m => simp only [Rosx.waitHead, h.sems]

theorem Blocked.waits_iff (h : Blocked k lr lw) : Waits k t ↔ ∃ i, t ∈ lw i := by
  unfold Waits
  exact exists_congr fun i => (h.wait i).reaches_iff

/-- The call on a suspended task: the ready queue has it, and only its links
and the task's own are new. -/
theorem rxResumeTask_requeued (h : Blocked k lr lw) (hs : (k.tcb t).state = .suspend) :
    ∃ k' l', rxResumeTask k t = .ok (.osOk, k') ∧ Requeued (k.setState t .ready) k' (t :: lr) l' ∧
      ∀ u, u ∈ l' ↔ u = t ∨ u ∈ lr := by
  have hchain : Chain (k.setState t .ready).next (k.setState t .ready).readyHead lr := by
    rw [Kernel.next_setState]
    exact h.ready
  have hnot : t ∉ lr := fun hm => h.state t hm hs
  obtain ⟨k', hadd, -, hq⟩ := rxAddToReadyQ_spec hchain hnot (by simp [Kernel.setState])
  refine ⟨k', _, ?_, hq, fun u => mem_insertReady⟩
  simp only [rxResumeTask, hs, ne_eq, not_true_eq_false, if_false, hadd, bind, Except.bind, pure, Except.pure]

/-- A task that does not wait is put on the ready queue, and no chain changes. -/
theorem chainsIntact_of_not_waits (h : Blocked k lr lw) (hw : ∀ i, t ∉ lw i)
    {l' : List (Fin n)} (hq : Requeued (k.setState t .ready) k' (t :: lr) l')
    (hm : ∀ u, u ∈ l' ↔ u = t ∨ u ∈ lr) : ChainsIntact k k' t := by
  have hhead : ∀ i, waitHead k' i = waitHead k i := hq.toRelinked.waitHead
  have hfree : ∀ i, ∀ u ∈ lw i, u ∉ t :: lr := by
    intro i u hu hut
    rcases List.mem_cons.mp hut with rfl | hur
    · exact hw i hu
    · exact h.notReady i u hu hur
  have hchain : ∀ i, Chain k'.next (waitHead k' i) (lw i) := by
    intro i
    rw [hhead]
    apply (h.wait i).congr
    intro u hu
    rw [hq.frame u (hfree i u hu), Kernel.next_setState]
  refine ⟨fun i l hl => ⟨lw i, hchain i, ?_⟩, fun i u hu hr => ?_⟩
  · rw [Chain.unique hl (h.wait i)]
    exact List.filter_sublist
  · have hui : u ∈ lw i := (hchain i).reaches_iff.mp hu
    have hul : u ∈ l' := hq.chain.reaches_iff.mp hr
    exact hfree i u hui (List.mem_cons.mpr ((hm u).mp hul))

/-- A task that waits is on the ready queue and still on its chain. -/
theorem not_chainsIntact_of_waits (h : Blocked k lr lw) {i : ℕ ⊕ ℕ} (hi : t ∈ lw i)
    {l' : List (Fin n)} (hq : Requeued (k.setState t .ready) k' (t :: lr) l')
    (hm : ∀ u, u ∈ l' ↔ u = t ∨ u ∈ lr) : ¬ ChainsIntact k k' t := by
  intro hc
  -- the tasks `a` before `t` keep their links, so the chain still leads to `t`
  obtain ⟨a, b, hab, hta⟩ := List.eq_append_cons_of_mem hi
  have hl : Chain k.next (waitHead k i) (a ++ t :: b) := hab ▸ h.wait i
  obtain ⟨x, hseg, hx⟩ := seg_append.mp hl
  obtain rfl : x = some t := hx.1
  refine hc.apart i t ⟨a, ?_⟩ (hq.chain.reaches_iff.mpr ((hm t).mpr (Or.inl rfl)))
  rw [hq.toRelinked.waitHead i]
  apply hseg.congr
  intro u hu
  have hul : u ∉ t :: lr := by
    intro hmem
    rcases List.mem_cons.mp hmem with rfl | hur
    · exact hta hu
    · exact h.notReady i u (hab ▸ List.mem_append_left _ hu) hur
  rw [hq.frame u hul, Kernel.next_setState]

/-- **Resuming a task that waits.** In every state with blocked tasks and for
every task, `rx_resume_task` returns, and it leaves the wait chains intact if
and only if the task is not both suspended and on a chain. -/
theorem rxResumeTask_intact_iff (h : Blocked k lr lw) (t : Fin n) :
    ∃ r k', rxResumeTask k t = .ok (r, k') ∧
      (ChainsIntact k k' t ↔ ¬ ((k.tcb t).state = .suspend ∧ Waits k t)) := by
  by_cases hs : (k.tcb t).state = .suspend
  · obtain ⟨k', l', hk, hq, hm⟩ := rxResumeTask_requeued h hs
    refine ⟨.osOk, k', hk, ⟨fun hc hw => ?_, fun hw => ?_⟩⟩
    · obtain ⟨i, hi⟩ := h.waits_iff.mp hw.2
      exact not_chainsIntact_of_waits h hi hq hm hc
    · refine chainsIntact_of_not_waits h (fun i hi => ?_) hq hm
      exact hw ⟨hs, h.waits_iff.mpr ⟨i, hi⟩⟩
  · refine ⟨.osErr, k, by simp [rxResumeTask, hs], iff_of_true ?_ fun hw => hs hw.1⟩
    refine ⟨fun i l hl => ⟨l, hl, List.filter_sublist⟩, fun i u hu hr => ?_⟩
    exact h.notReady i u ((h.wait i).reaches_iff.mp hu) (h.ready.reaches_iff.mp hr)

end Resume

/-! ### Two tasks wait for a semaphore -/

/-- Tasks 0 and 1 wait for semaphore 0, in that order; task 2 runs, and task 3
was suspended by name. -/
def twoWait : Kernel 4 where
  tcb := fun t =>
    if t = 0 then { state := .suspend, sem := some 0, next := some 1 }
    else if t = 1 then { state := .suspend, sem := some 0 }
    else if t = 2 then { prio := 5, origPrio := 5, state := .running }
    else { state := .suspend }
  curr := 2
  readyHead := some 2
  sems := fun m => if m = 0 then { initVal := 1, currVal := -2, task := some 0 } else {}

/-- Who waits there, for what. -/
def twoWaiters : ℕ ⊕ ℕ → List (Fin 4)
  | .inr 0 => [0, 1]
  | _ => []

theorem twoWait_blocked : Blocked twoWait [2] twoWaiters := by
  have hnil : ∀ i, i ≠ .inr 0 → twoWaiters i = [] ∧ waitHead twoWait i = none := by
    intro i hi
    cases i with
    | inl m => exact ⟨rfl, rfl⟩
    | inr m =>
      cases m with
      | zero => exact absurd rfl hi
      | succ m => exact ⟨rfl, rfl⟩
  refine ⟨by decide, by decide, fun i => ?_, fun i => ?_, fun i j t hti htj => ?_⟩
  · by_cases hi : i = .inr 0
    · subst hi; decide
    · rw [(hnil i hi).1, (hnil i hi).2]; rfl
  · by_cases hi : i = .inr 0
    · subst hi; decide
    · rw [(hnil i hi).1]; simp
  · have h0 : ∀ i, t ∈ twoWaiters i → i = .inr 0 := by
      intro i hi
      by_contra hne
      rw [(hnil i hne).1] at hi
      cases hi
    rw [h0 i hti, h0 j htj]

/-- The task that was suspended by name may be resumed. -/
theorem rxResumeTask_intact_of_suspended : Blocked twoWait [2] twoWaiters ∧
    ∃ r k', rxResumeTask twoWait 3 = .ok (r, k') ∧
      (ChainsIntact twoWait k' 3 ↔ ¬ ((twoWait.tcb 3).state = .suspend ∧ Waits twoWait 3)) :=
  ⟨twoWait_blocked, rxResumeTask_intact_iff twoWait_blocked 3⟩

/-- The first waiter is resumed: it is on the ready queue and on the chain, and
the second is on no list any more. -/
theorem resumed_waiter_cuts_chain : Blocked twoWait [2] twoWaiters ∧
    ∃ k', rxResumeTask twoWait 0 = .ok (.osOk, k') ∧ ¬ ChainsIntact twoWait k' 0 ∧
      Chain k'.next k'.readyHead [0, 2] ∧ Chain k'.next (waitHead k' (.inr 0)) [0, 2] := by
  refine ⟨twoWait_blocked, ?_⟩
  have hrun : (rxResumeTask twoWait 0).map (fun x => decide (x.1 = .osOk ∧
      Chain x.2.next x.2.readyHead [0, 2] ∧ Chain x.2.next (waitHead x.2 (.inr 0)) [0, 2])) = .ok true := by decide
  obtain ⟨⟨r, k'⟩, hk, hp⟩ := map_eq_ok.mp hrun
  obtain ⟨rfl, hready, hwait⟩ := of_decide_eq_true hp
  refine ⟨k', hk, fun hc => ?_, hready, hwait⟩
  obtain ⟨l, hl, hsub⟩ := hc.order (.inr 0) [0, 1] (twoWait_blocked.wait (.inr 0))
  rw [Chain.unique hl hwait] at hsub
  exact absurd hsub (by decide)

end Rosx
