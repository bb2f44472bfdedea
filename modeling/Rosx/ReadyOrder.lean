/-
# The order of the ready queue

What a caller of `__rx_add_to_ready_q` and of `rx_set_task_prio`
(`kernel/rx_task.c`) gets of a sorted ready queue. A task goes behind the tasks
that are at least as urgent and in front of the others, and taking it out again
gives the old queue (`rxAddToReadyQ_inOrder`). The call leaves the rest of the
kernel alone, but it ends a critical section that its caller is in
(`rxAddToReadyQ_inOrder_iff`).

`rx_set_task_prio` means to turn down tasks that are completed or aborted, and
compares their priority with the codes of these states, 3 and 4: the tasks of
these two priorities keep theirs, and all others get the new one and the place
that it gives them (`rxSetTaskPrio_sets_iff`).

Key definitions: `readyBehind`, `AddedInOrder`, `PrioSet`.
Key theorems: `rxAddToReadyQ_inOrder_iff`, `rxSetTaskPrio_sets_iff`.
-/
import Rosx.ReadyQueue

namespace Rosx

open Linked

variable {n : ℕ}

/-! ### A task is added -/

/-- `l` with `new` behind the tasks that are at least as urgent as `p`, in front
of the others. -/
def readyBehind (prio : Fin n → ℤ) (p : ℤ) (new : Fin n) (l : List (Fin n)) : List (Fin n) :=
  l.filter (fun t => prio t ≤ p) ++ new :: l.filter fun t => p < prio t

/-- In a sorted queue the first less urgent task divides it. -/
theorem insertReady_eq_readyBehind {prio : Fin n → ℤ} {l : List (Fin n)} (p : ℤ) (new : Fin n)
    (hs : l.Pairwise fun a b => prio a ≤ prio b) : insertReady prio p new l = readyBehind prio p new l := by
  obtain ⟨a, b, rfl, hins, ha, hb⟩ := insertReady_split prio p new l hs
  have hle : (a ++ b).filter (fun t => prio t ≤ p) = a := by
    have hnone : b.filter (fun t => prio t ≤ p) = [] := by
      apply List.filter_eq_nil_iff.mpr
      intro t ht
      simpa using hb t ht
    rw [List.filter_append, hnone, List.append_nil]
    apply List.filter_eq_self.mpr
    simpa using ha
  have hlt : (a ++ b).filter (fun t => p < prio t) = b := by
    have hnone : a.filter (fun t => p < prio t) = [] := by
      apply List.filter_eq_nil_iff.mpr
      intro t ht
      simpa using ha t ht
    rw [List.filter_append, hnone, List.nil_append]
    apply List.filter_eq_self.mpr
    simpa using hb
  rw [hins, readyBehind, hle, hlt]

/-- Without the new task the queue is the old one. -/
theorem insertReady_erase {prio : Fin n → ℤ} {p : ℤ} {new : Fin n} {l : List (Fin n)}
    (hs : l.Pairwise fun a b => prio a ≤ prio b) (hn : new ∉ l) : (insertReady prio p new l).erase new = l := by
  obtain ⟨a, b, rfl, hins, -, -⟩ := insertReady_split prio p new l hs
  have ha : new ∉ a := fun h => hn (List.mem_append_left _ h)
  rw [hins, List.erase_append_right _ ha, List.erase_cons_head]

/-- The interrupt state is the same, up to the place where the signal mask is
saved. -/
def Port.Same (p q : Port) : Prop := q.context = p.context ∧ q.critical = p.critical ∧ q.masked = p.masked

/-- A pair of calls leaves it as it was, unless it is inside a critical section
of its caller. -/
theorem Port.same_bracket_iff (p : Port) :
    p.Same p.disableIrqGlobal.restoreIrqGlobal ↔ p.context = true ∨ p.critical = false := by
  obtain ⟨context, critical, masked, origMask⟩ := p
  cases context <;> cases critical <;> simp [Port.Same, Port.disableIrqGlobal, Port.restoreIrqGlobal]

/-- The queue `l` of `k` has got `new` in its place in `k'`, from which it can be
taken out again, and nothing changed but links, the head and the reschedule
request. -/
structure AddedInOrder (k k' : Kernel n) (new : Fin n) (l : List (Fin n)) : Prop where
  chain : Chain k'.next k'.readyHead (readyBehind (fun t => (k.tcb t).prio) (k.tcb new).prio new l)
  data : Relinked k k'
  frame : ∀ t, t ∉ new :: l → k'.next t = k.next t
  port : k.port.Same k'.port
  undo : ∃ k'', rxRemoveFromReadyQ k' new = .ok k'' ∧ Chain k''.next k''.readyHead l

section Add

variable {k k' : Kernel n} {new : Fin n} {l : List (Fin n)}

/-- Into a sorted queue of any length a task goes behind its equals, and can be
taken out again. -/
theorem rxAddToReadyQ_inOrder (hl : Chain k.next k.readyHead l) (hn : new ∉ l)
    (hs : l.Pairwise fun a b => (k.tcb a).prio ≤ (k.tcb b).prio) (hst : (k.tcb new).state.runnable = true) :
    ∃ k', rxAddToReadyQ k new = .ok (.osOk, k') ∧ k'.port = k.port.disableIrqGlobal.restoreIrqGlobal ∧
      (k.port.Same k'.port → AddedInOrder k k' new l) := by
  obtain ⟨k', he, hport, hq⟩ := rxAddToReadyQ_spec hl hn hst
  refine ⟨k', he, hport, fun hsame => ⟨?_, hq.toRelinked, hq.frame, hsame, ?_⟩⟩
  · rw [← insertReady_eq_readyBehind _ _ hs]
    exact hq.chain
  · obtain ⟨k'', hr, -, -, -, hq'⟩ := rxRemoveFromReadyQ_mem hq.chain (mem_insertReady.mpr (.inl rfl))
    have hchain := hq'.chain
    rw [insertReady_erase hs hn] at hchain
    exact ⟨k'', hr, hchain⟩

/-- **The queue keeps its order, and a critical section its mask.** On any
sorted queue the two operations do what they are for; the call changes the
interrupt state if and only if it is made in task context inside a critical
section. -/
theorem rxAddToReadyQ_inOrder_iff (hl : Chain k.next k.readyHead l) (hn : new ∉ l)
    (hs : l.Pairwise fun a b => (k.tcb a).prio ≤ (k.tcb b).prio)
    (hst : (k.tcb new).state = .ready ∨ (k.tcb new).state = .running) :
    ((∃ k', rxAddToReadyQ k new = .ok (.osOk, k') ∧ AddedInOrder k k' new l) ∧
        ∀ t ∈ l, ∃ k', rxRemoveFromReadyQ k t = .ok k' ∧ Chain k'.next k'.readyHead (l.erase t)) ↔
      k.port.context = true ∨ k.port.critical = false := by
  have hrun : (k.tcb new).state.runnable = true := by rcases hst with h | h <;> rw [h] <;> rfl
  obtain ⟨k', he, hport, hadd⟩ := rxAddToReadyQ_inOrder hl hn hs hrun
  rw [← Port.same_bracket_iff, ← hport]
  constructor
  · rintro ⟨⟨k1, he1, h1⟩, -⟩
    obtain ⟨-, rfl⟩ := Prod.mk.inj (Except.ok.inj (he.symm.trans he1))
    exact h1.port
  · intro hsame
    refine ⟨⟨k', he, hadd hsame⟩, fun t ht => ?_⟩
    obtain ⟨k1, he1, -, -, -, hq⟩ := rxRemoveFromReadyQ_mem hl ht
    exact ⟨k1, he1, hq.chain⟩

end Add

/-- `a` and `b` are on the ready queue with priorities 1 and 3, and `new` has
priority 1 and is ready; in task context, inside a critical section or not. -/
def twoReady (a b new : Fin n) (critical : Bool) : Kernel n where
  tcb t :=
    { state := if t = a || t = b || t = new then .ready else .suspend
      prio := if t = b then 3 else 1
      next := if t = a then some b else none }
  curr := a
  readyHead := some a
  port := { critical := critical, masked := critical }

/-- Outside a critical section `new` goes between them. -/
theorem twoReady_inOrder : ((∃ k', rxAddToReadyQ (twoReady (n := 3) 0 1 2 false) 2 = .ok (.osOk, k') ∧
        AddedInOrder (twoReady 0 1 2 false) k' 2 [0, 1]) ∧ ∀ t ∈ [0, 1],
      ∃ k', rxRemoveFromReadyQ (twoReady (n := 3) 0 1 2 false) t = .ok k' ∧
        Chain k'.next k'.readyHead ([0, 1].erase t)) :=
  (rxAddToReadyQ_inOrder_iff (k := twoReady (n := 3) 0 1 2 false) (l := [0, 1]) ⟨rfl, rfl, rfl⟩ (by decide) (by decide)
    (.inl rfl)).mpr (.inr rfl)

/-- Inside a critical section the call ends it: interrupts are unmasked. -/
theorem twoReady_unmasked :
    (Chain (twoReady (n := 3) 0 1 2 true).next (twoReady (n := 3) 0 1 2 true).readyHead [0, 1] ∧
      [0, 1].Pairwise (fun a b => ((twoReady (n := 3) 0 1 2 true).tcb a).prio ≤ ((twoReady 0 1 2 true).tcb b).prio) ∧
      ((twoReady (n := 3) 0 1 2 true).tcb 2).state = .ready ∧ (twoReady (n := 3) 0 1 2 true).port.masked = true) ∧
    (∃ k', rxAddToReadyQ (twoReady (n := 3) 0 1 2 true) 2 = .ok (.osOk, k') ∧ k'.port.masked = false) ∧
    ¬ ∃ k', rxAddToReadyQ (twoReady (n := 3) 0 1 2 true) 2 = .ok (.osOk, k') ∧
      AddedInOrder (twoReady 0 1 2 true) k' 2 [0, 1] := by
  have hl : Chain (twoReady (n := 3) 0 1 2 true).next (twoReady (n := 3) 0 1 2 true).readyHead [0, 1] :=
    ⟨rfl, rfl, rfl⟩
  have hn : (2 : Fin 3) ∉ [0, 1] := by decide
  obtain ⟨k', he, hport, -⟩ := rxAddToReadyQ_inOrder hl hn (by decide) rfl
  refine ⟨⟨hl, by decide, rfl, rfl⟩, ⟨k', he, by rw [hport]; rfl⟩, ?_⟩
  rintro ⟨k1, he1, h1⟩
  obtain ⟨-, rfl⟩ := Prod.mk.inj (Except.ok.inj (he.symm.trans he1))
  have hcritical := h1.port.2.1
  rw [hport] at hcritical
  cases hcritical

/-! ### A task gets another priority -/

/-- In `k'` the task has the priority, and if it was ready in the sorted queue
`l` of `k`, it has the place in the queue that its priority gives it; the other
tasks keep their order. -/
structure PrioSet (k k' : Kernel n) (t : Fin n) (prio : ℤ) (l : List (Fin n)) : Prop where
  prio : (k'.tcb t).prio = prio
  queue : (k.tcb t).state = .ready → t ∈ l → (l.Pairwise fun a b => (k.tcb a).prio ≤ (k.tcb b).prio) →
    ∃ l', Chain k'.next k'.readyHead l' ∧ l'.Perm l ∧ (l'.Pairwise fun a b => (k'.tcb a).prio ≤ (k'.tcb b).prio) ∧
      l'.erase t = l.erase t

section Set

variable {k k' : Kernel n} {t : Fin n} {prio : ℤ} {l : List (Fin n)}

/-- A ready task that is off its queue and put back is where its new priority
puts it. -/
theorem requeue_prioSet (hl : Chain k.next k.readyHead l) (ht : t ∈ l) (hst : (k.tcb t).state = .ready) (prio : ℤ) :
    ∃ k1 e k', rxRemoveFromReadyQ (k.setPrio t prio) t = .ok k1 ∧ rxAddToReadyQ k1 t = .ok (e, k') ∧
      PrioSet k k' t prio l := by
  have hself : ((k.setPrio t prio).tcb t).prio = prio := by simp [Kernel.setPrio]
  have hother : ∀ u, u ≠ t → ((k.setPrio t prio).tcb u).prio = (k.tcb u).prio := by
    intro u hu
    simp [Kernel.setPrio, hu]
  have hl1 : Chain (k.setPrio t prio).next (k.setPrio t prio).readyHead l := by
    rw [Kernel.next_setPrio]
    exact hl
  obtain ⟨k1, hr, -, -, -, hq1⟩ := rxRemoveFromReadyQ_mem hl1 ht
  have hnt : t ∉ l.erase t := fun h => (hl.nodup.mem_erase_iff.mp h).1 rfl
  have hst1 : (k1.tcb t).state.runnable = true := by
    rw [hq1.state, Kernel.setPrio_keeps k t t prio (·.state) fun _ => rfl, hst]
    rfl
  obtain ⟨k', ha, -, hq'⟩ := rxAddToReadyQ_spec hq1.chain hnt hst1
  have hprio : ∀ u, (k'.tcb u).prio = ((k.setPrio t prio).tcb u).prio := fun u => by rw [hq'.prio, hq1.prio]
  refine ⟨k1, _, k', hr, ha, by rw [hprio, hself], fun _ _ hs => ⟨_, hq'.chain, ?_, ?_, ?_⟩⟩
  · exact (insertReady_perm _ _ _ _).trans (List.perm_cons_erase ht).symm
  all_goals
    have hs1 : (l.erase t).Pairwise fun a b => (k1.tcb a).prio ≤ (k1.tcb b).prio := by
      apply (hs.sublist List.erase_sublist).imp_of_mem
      intro a b hma hmb hab
      rw [hq1.prio, hq1.prio, hother a (ne_of_mem_of_not_mem hma hnt), hother b (ne_of_mem_of_not_mem hmb hnt)]
      exact hab
  · have hsort : (insertReady (fun u => (k1.tcb u).prio) (k1.tcb t).prio t (l.erase t)).Pairwise
        fun a b => (k1.tcb a).prio ≤ (k1.tcb b).prio := insertReady_sorted hs1
    simpa only [hq'.prio] using hsort
  · exact insertReady_erase hs1 hnt

/-- The same for a ready task that is not on the queue, for as long as that is
not empty. -/
theorem enqueue_prio (hl : Chain k.next k.readyHead l) (ht : t ∉ l) (hne : l ≠ []) (hst : (k.tcb t).state = .ready)
    (prio : ℤ) :
    ∃ k1 e k', rxRemoveFromReadyQ (k.setPrio t prio) t = .ok k1 ∧ rxAddToReadyQ k1 t = .ok (e, k') ∧
      (k'.tcb t).prio = prio := by
  have hl1 : Chain (k.setPrio t prio).next (k.setPrio t prio).readyHead l := by
    rw [Kernel.next_setPrio]
    exact hl
  obtain ⟨k1, hr⟩ : ∃ k1, rxRemoveFromReadyQ (k.setPrio t prio) t = .ok k1 :=
    ⟨_, rxRemoveFromReadyQ_notMem hl1 ht hne⟩
  have hq1 := rxRemoveFromReadyQ_relinked hr
  have hl2 := rxRemoveFromReadyQ_chain hl1 hr
  rw [List.erase_of_not_mem ht] at hl2
  have hst1 : (k1.tcb t).state.runnable = true := by
    rw [hq1.state, Kernel.setPrio_keeps k t t prio (·.state) fun _ => rfl, hst]
    rfl
  obtain ⟨k', ha, -, -⟩ := rxAddToReadyQ_spec hl2 ht hst1
  refine ⟨k1, _, k', hr, ha, ?_⟩
  rw [(rxAddToReadyQ_relinked ha).prio, hq1.prio]
  simp [Kernel.setPrio]

/-- A ready task is taken off the queue and put back. -/
theorem rxSetTaskPrio_of_ready (hst : (k.tcb t).state = .ready)
    (hold : (k.tcb t).prio ≠ TaskState.complete.code ∧ (k.tcb t).prio ≠ TaskState.abort.code)
    (hp : prio ≠ (k.tcb t).prio) : rxSetTaskPrio k t prio = rxRemoveFromReadyQ (k.setPrio t prio) t >>= fun k1 =>
      rxAddToReadyQ k1 t >>= fun x => .ok (.osOk, x.2) := by
  have hstate : ((k.setPrio t prio).tcb t).state = .ready :=
    (Kernel.setPrio_keeps k t t prio (·.state) fun _ => rfl).trans hst
  unfold rxSetTaskPrio
  rw [if_neg (by tauto)]
  simp only [hstate, if_true]
  rfl

/-- A call that is not turned down. -/
theorem rxSetTaskPrio_sets (hl : Chain k.next k.readyHead l)
    (hold : (k.tcb t).prio ≠ TaskState.complete.code ∧ (k.tcb t).prio ≠ TaskState.abort.code)
    (hne : (k.tcb t).state = .ready → l ≠ []) (hp : prio ≠ (k.tcb t).prio) :
    ∃ k', rxSetTaskPrio k t prio = .ok (.osOk, k') ∧ PrioSet k k' t prio l := by
  by_cases hst : (k.tcb t).state = .ready
  · rw [rxSetTaskPrio_of_ready hst hold hp]
    by_cases ht : t ∈ l
    · obtain ⟨k1, e, k', hr, ha, h⟩ := requeue_prioSet hl ht hst prio
      exact ⟨k', bind_eq_ok.mpr ⟨k1, hr, bind_eq_ok.mpr ⟨_, ha, rfl⟩⟩, h⟩
    · obtain ⟨k1, e, k', hr, ha, h⟩ := enqueue_prio hl ht (hne hst) hst prio
      exact ⟨k', bind_eq_ok.mpr ⟨k1, hr, bind_eq_ok.mpr ⟨_, ha, rfl⟩⟩, h, fun _ h' => absurd h' ht⟩
  · have hstate : ((k.setPrio t prio).tcb t).state ≠ .ready := by
      rwa [Kernel.setPrio_keeps k t t prio (·.state) fun _ => rfl]
    refine ⟨k.setPrio t prio, ?_, by simp [Kernel.setPrio], fun h => absurd h hst⟩
    unfold rxSetTaskPrio
    rw [if_neg (by tauto)]
    simp only [if_neg hstate]

/-- A ready task that is not on the queue, the queue being empty. -/
theorem rxSetTaskPrio_empty (hl : Chain k.next k.readyHead []) (hst : (k.tcb t).state = .ready)
    (hold : (k.tcb t).prio ≠ TaskState.complete.code ∧ (k.tcb t).prio ≠ TaskState.abort.code)
    (hp : prio ≠ (k.tcb t).prio) : rxSetTaskPrio k t prio = .error .null := by
  rw [rxSetTaskPrio_of_ready hst hold hp, rxRemoveFromReadyQ_empty (k := k.setPrio t prio) hl t]
  rfl

/-- A call that is turned down. -/
theorem rxSetTaskPrio_refuses (h : prio = (k.tcb t).prio ∨ (k.tcb t).prio = TaskState.complete.code ∨
    (k.tcb t).prio = TaskState.abort.code) : rxSetTaskPrio k t prio = .ok (.osOk, k) := by
  unfold rxSetTaskPrio
  rw [if_pos h]

/-- **Two priorities are for good.** A call sets the priority of the task, and its
place in the queue, if and only if that is its priority already, or the old one
is neither 3 nor 4, the codes of the states that the guard is about; a ready
task has to find a queue that is not empty. -/
theorem rxSetTaskPrio_sets_iff (hl : Chain k.next k.readyHead l) :
    (∃ k', rxSetTaskPrio k t prio = .ok (.osOk, k') ∧ PrioSet k k' t prio l) ↔
      prio = (k.tcb t).prio ∨ ((k.tcb t).prio ≠ 3 ∧ (k.tcb t).prio ≠ 4) ∧ ((k.tcb t).state = .ready → l ≠ []) := by
  by_cases hp : prio = (k.tcb t).prio
  · simp only [hp, true_or, iff_true]
    exact ⟨k, rxSetTaskPrio_refuses (.inl rfl), rfl, fun _ _ hs => ⟨l, hl, .refl l, hs, rfl⟩⟩
  by_cases hold : (k.tcb t).prio ≠ 3 ∧ (k.tcb t).prio ≠ 4
  · rw [or_iff_right hp, and_iff_right hold]
    constructor
    · rintro ⟨k', he, -⟩ hst rfl
      rw [rxSetTaskPrio_empty hl hst hold hp] at he
      cases he
    · intro hne
      exact rxSetTaskPrio_sets hl hold hne hp
  · simp only [hp, hold, false_and, or_self, iff_false]
    rintro ⟨k', he, h⟩
    have hcodes : (k.tcb t).prio = TaskState.complete.code ∨ (k.tcb t).prio = TaskState.abort.code := by
      simp only [TaskState.code]
      tauto
    rw [rxSetTaskPrio_refuses (.inr hcodes)] at he
    obtain ⟨-, rfl⟩ := Prod.mk.inj (Except.ok.inj he)
    exact hp h.prio.symm

end Set

/-- `a`, `b` and `c` are on the ready queue in this order, with the priorities 1, 2
and 5. -/
def threeReady (a b c : Fin n) : Kernel n where
  tcb t :=
    { state := .ready
      prio := if t = a then 1 else if t = b then 2 else 5
      next := if t = a then some b else if t = b then some c else none }
  curr := a
  readyHead := some a

/-- The head of the queue gets the priority of the second task. -/
theorem threeReady_sets : ∃ k', rxSetTaskPrio (threeReady (n := 3) 0 1 2) 0 2 = .ok (.osOk, k') ∧
    PrioSet (threeReady 0 1 2) k' 0 2 [0, 1, 2] :=
  (rxSetTaskPrio_sets_iff (k := threeReady (n := 3) 0 1 2) (l := [0, 1, 2]) ⟨rfl, rfl, rfl, rfl⟩).mpr
    (.inr ⟨by decide, fun _ => by decide⟩)

-- It goes behind its equal, in front of the third task.
example : ((rxSetTaskPrio (threeReady (n := 3) 0 1 2) 0 2).toOption.map fun x =>
    (x.2.readyHead, x.2.next 1, x.2.next 0, x.2.next 2)) = some (some 1, some 0, some 2, none) := by
  decide

/-- `t`, of priority `p`, is ready, alone on the queue. -/
def oneReady (t : Fin n) (p : ℤ) : Kernel n where
  tcb _ := { state := .ready, prio := p }
  curr := t
  readyHead := some t

/-- A task of priority 3 is ready, and keeps it. -/
theorem prio_three_kept : ((oneReady (n := 1) 0 3).tcb 0).state = .ready ∧
    rxSetTaskPrio (oneReady (n := 1) 0 3) 0 5 = .ok (.osOk, oneReady 0 3) ∧
    ¬ ∃ k', rxSetTaskPrio (oneReady (n := 1) 0 3) 0 5 = .ok (.osOk, k') ∧ PrioSet (oneReady 0 3) k' 0 5 [0] := by
  have he : rxSetTaskPrio (oneReady (n := 1) 0 3) 0 5 = .ok (.osOk, oneReady 0 3) :=
    rxSetTaskPrio_refuses (.inr (.inl rfl))
  refine ⟨rfl, he, ?_⟩
  rintro ⟨k', he', h⟩
  obtain ⟨-, rfl⟩ := Prod.mk.inj (Except.ok.inj (he.symm.trans he'))
  exact absurd h.prio (by decide)

end Rosx
