/-
# The system list of wait queues along runs

A run is any sequence of waits (`__rx_add_to_wait_queue`) by the running task
on any wait queue, `rx_wakeup` and `__rx_wake` calls, timeouts and returns
from a wait, with any switches to other tasks that may run; a call that follows
a NULL link or does not end has no step.

`rx_wakeup` of the queue at the head of the system list leaves the queue's
`next`, and a wait that puts a queue on the list does not clear it. A queue that
is waited on again brings onto the list the queues its old link leads to; if
one of them is already on it, the list is a cycle. The list is acyclic along a
run if and only if, for every wait that puts a queue on the list, the queue's old
link leads to no queue on the list and to no cycle
(`waitListOK_iff_linksLeadAway`).

The invariant: a queue on the list has the queue before it in `prev`, or NULL, and
a queue off the list has NULL. So a call that follows no NULL link takes out
of the middle of the list a queue that is there.

Key definitions: `WaitListOK`, `WakeWalk`, `LinkLeadsAway`, `WaitInv`.
-/
import Rosx.Wait
import Rosx.Lib.DoublyLinked
import Rosx.Lib.Run

namespace Rosx

open Linked

variable {n : ℕ}

/-- A step of a run. -/
inductive WaitCall (n : ℕ) where
  | wait (wq : ℕ) (taskState : TaskState) (timeout : ℤ) (timer : ℕ)
  | wakeup (wq : ℕ)
  | wake
  | expire (t : Fin n)
  | finish
  | switch (t : Fin n)

namespace WaitCall

/-- A task that waits or returns from a wait is running, and a task that is switched to may run. -/
def Admissible (k : Kernel n) : WaitCall n → Prop
  | .wait _ _ _ _ | .finish => (k.tcb k.curr).state.runnable
  | .switch t => (k.tcb t).state.runnable
  | _ => True

instance (k : Kernel n) : ∀ c, Decidable (Admissible k c)
  | .wait _ _ _ _ | .finish => inferInstanceAs (Decidable ((k.tcb k.curr).state.runnable = true))
  | .switch t => inferInstanceAs (Decidable ((k.tcb t).state.runnable = true))
  | .wakeup _ | .wake | .expire _ => inferInstanceAs (Decidable True)

/-- What a call does, with `fuel` for the walks along the system list. -/
def exec (fuel : ℕ) (k : Kernel n) : WaitCall n → Res (Kernel n)
  | .wait wq taskState timeout timer => rxAddToWaitQueue fuel k wq taskState timeout timer
  | .wakeup wq => rxWakeup k wq
  | .wake => rxWake fuel k
  | .expire t => .ok (rxWaitHandler k t)
  | .finish => .ok (rxFinishWait k).2
  | .switch t => .ok (k.switchTo t)

/-- The call returns and leaves `k'`. -/
def Step (k : Kernel n) (c : WaitCall n) (k' : Kernel n) : Prop :=
  Admissible k c ∧ ∃ fuel, exec fuel k c = .ok k'

/-- The step as a function, with a fixed fuel. -/
def step (fuel : ℕ) (k : Kernel n) (c : WaitCall n) : Option (Kernel n) :=
  if Admissible k c then (exec fuel k c).toOption else none

theorem step_sound {fuel : ℕ} (k : Kernel n) (c : WaitCall n) (k' : Kernel n) (h : step fuel k c = some k') :
    Step k c k' := by
  unfold step at h
  split_ifs at h with ha
  refine ⟨ha, fuel, ?_⟩
  cases he : exec fuel k c with
  | error f => rw [he] at h; cases h
  | ok x =>
    rw [he] at h
    rw [Option.some.inj h]

end WaitCall

open WaitCall

/-- Nobody has waited yet. -/
structure NoWaits (k : Kernel n) : Prop where
  head : k.sysWaitList = none
  links : ∀ q, k.queueNext q = none ∧ k.queuePrev q = none

/-- One turn of the loop of `__rx_wake`: the queue's tasks are woken that may be,
and the queue is taken off the list if none is left. -/
def wakeTurn (k : Kernel n) (ride : ℕ) : Res (Kernel n) :=
  (rxWakeTaskInTheQueue k ride).bind fun k1 =>
    if (k1.waitQueues ride).task = none then
      if k.sysWaitList = some ride then .ok (dropFirst k1 ride) else dropLater k1 ride
    else .ok k1

/-- The loop of `__rx_wake`, at the queue `h` in the kernel `k`, has come to the
queue `h'` in the kernel `k'` after one turn for each of the queues `qs`. -/
inductive WakeWalk : Kernel n → Option ℕ → List ℕ → Kernel n → Option ℕ → Prop
  | start (k : Kernel n) (h : Option ℕ) : WakeWalk k h [] k h
  | turn {k k1 k' : Kernel n} {ride : ℕ} {qs : List ℕ} {h' : Option ℕ} : wakeTurn k ride = .ok k1 →
      WakeWalk k1 (k1.queueNext ride) qs k' h' → WakeWalk k (some ride) (ride :: qs) k' h'

/-- The system list is acyclic, with the queues `l`, each once, and the walks
along it end. The search for a queue ends. The loop of `__rx_wake` takes the
queues in their order, at most one turn for each; it needs no more fuel than
this, and does not end only where it comes to a queue with a loop over its tasks
that does not. -/
structure WaitListOK (k : Kernel n) (l : List ℕ) : Prop where
  chain : Chain k.queueNext k.sysWaitList l
  nodup : l.Nodup
  search : ∀ wq h, k.sysWaitList = some h → ∀ f ≥ l.length, ∃ ride, lastNodeOr k.queueNext wq f h = .ok ride
  turns : ∀ qs k' h', WakeWalk k k.sysWaitList qs k' h' → qs <+: l
  fuel : ∀ f ≥ l.length, rxWake f k = rxWake l.length k
  wake : ∀ f ≥ l.length, rxWake f k = .error .hang →
    ∃ qs k' q, WakeWalk k k.sysWaitList qs k' (some q) ∧ rxWakeTaskInTheQueue k' q = .error .hang

/-- From the queues on the list `l`, the link of `wq` leads to NULL, through
queues that are not on the list. -/
def LeadsAway (k : Kernel n) (l : List ℕ) (wq : ℕ) : Prop :=
  ∃ l', Chain k.queueNext (k.queueNext wq) l' ∧ ∀ q ∈ l', q ∉ l

/-- The link of a queue that the call puts on the list leads away from it. -/
def LinkLeadsAway (k : Kernel n) : WaitCall n → Prop
  | .wait wq _ _ _ => ∀ l, Chain k.queueNext k.sysWaitList l → wq ∉ l → LeadsAway k l wq
  | _ => True

/-! ### The back links -/

/-- The `prev` links of `l`: each is NULL or the node before, `p` for the first. -/
def PrevOrNull (pv : ℕ → Option ℕ) : Option ℕ → List ℕ → Prop
  | _, [] => True
  | p, a :: l => (pv a = none ∨ pv a = p) ∧ PrevOrNull pv (some a) l

namespace PrevOrNull

variable {pv pv' : ℕ → Option ℕ}

theorem of_none : ∀ {p : Option ℕ} {l : List ℕ}, (∀ a ∈ l, pv a = none) → PrevOrNull pv p l
  | _, [], _ => trivial
  | _, _ :: _, h => ⟨Or.inl (h _ List.mem_cons_self), of_none fun a ha => h a (List.mem_cons_of_mem _ ha)⟩

theorem congr : ∀ {p : Option ℕ} {l : List ℕ}, PrevOrNull pv p l → (∀ a ∈ l, pv' a = pv a) → PrevOrNull pv' p l
  | _, [], _, _ => trivial
  | _, a :: _, h, hn => by
    rw [PrevOrNull, hn a List.mem_cons_self]
    exact ⟨h.1, congr h.2 fun b hb => hn b (List.mem_cons_of_mem _ hb)⟩

theorem append : ∀ {p : Option ℕ} {l : List ℕ} {a : ℕ} {m : List ℕ},
    PrevOrNull pv p (l ++ a :: m) ↔ PrevOrNull pv p (l ++ [a]) ∧ PrevOrNull pv (some a) m
  | p, [], a, m => by simp [PrevOrNull]
  | p, b :: l, a, m => by
    simp only [List.cons_append, PrevOrNull, and_assoc]
    exact and_congr_right fun _ => append

/-- A node with a `prev` stands behind it, or is the first one. -/
theorem split {x q : ℕ} (hx : pv x = some q) : ∀ {p : Option ℕ} {l : List ℕ}, PrevOrNull pv p l → x ∈ l →
    (p = some q ∧ ∃ b, l = x :: b) ∨ ∃ a b, l = a ++ q :: x :: b
  | _, [], _, hm => by cases hm
  | p, c :: l, h, hm => by
    rcases List.mem_cons.mp hm with rfl | hm
    · rcases h.1 with hn | hp
      · rw [hx] at hn
        cases hn
      · exact Or.inl ⟨hp.symm.trans hx, l, rfl⟩
    · rcases split hx h.2 hm with ⟨hq, b, rfl⟩ | ⟨a, b, rfl⟩
      · obtain rfl := Option.some.inj hq
        exact Or.inr ⟨[], b, rfl⟩
      · exact Or.inr ⟨c :: a, b, rfl⟩

end PrevOrNull

/-! ### What leaves the system list alone -/

/-- The system list and all links between wait queues are the same. -/
structure SameList (k k' : Kernel n) : Prop where
  next : k'.queueNext = k.queueNext
  prev : k'.queuePrev = k.queuePrev
  head : k'.sysWaitList = k.sysWaitList

theorem SameList.refl (k : Kernel n) : SameList k k := ⟨rfl, rfl, rfl⟩

theorem SameList.trans {k k' k'' : Kernel n} (h : SameList k k') (h' : SameList k' k'') : SameList k k'' :=
  ⟨h'.next.trans h.next, h'.prev.trans h.prev, h'.head.trans h.head⟩

theorem Relinked.sameList {k k' : Kernel n} (h : Relinked k k') : SameList k k' := by
  refine ⟨?_, ?_, h.sysWaitList⟩
  · funext q
    simp only [Kernel.queueNext, h.waitQueues]
  · funext q
    simp only [Kernel.queuePrev, h.waitQueues]

theorem sameList_modTcb (k : Kernel n) (t : Fin n) (f : Tcb n → Tcb n) : SameList k (k.modTcb t f) := ⟨rfl, rfl, rfl⟩

theorem sameList_setState (k : Kernel n) (t : Fin n) (s : TaskState) : SameList k (k.setState t s) := ⟨rfl, rfl, rfl⟩

theorem setWaitQueue_next (k : Kernel n) (q : ℕ) (c : WaitQueue n) :
    (k.setWaitQueue q c).queueNext = Function.update k.queueNext q c.next := by
  funext x
  by_cases hx : x = q
  · subst hx
    simp [Kernel.queueNext, Kernel.setWaitQueue]
  · simp [Kernel.queueNext, Kernel.setWaitQueue, hx]

theorem setWaitQueue_prev (k : Kernel n) (q : ℕ) (c : WaitQueue n) :
    (k.setWaitQueue q c).queuePrev = Function.update k.queuePrev q c.prev := by
  funext x
  by_cases hx : x = q
  · subst hx
    simp [Kernel.queuePrev, Kernel.setWaitQueue]
  · simp [Kernel.queuePrev, Kernel.setWaitQueue, hx]

/-- The chain of a queue changes. -/
theorem sameList_setTask (k : Kernel n) (q : ℕ) (v : Option (Fin n)) :
    SameList k (k.setWaitQueue q { k.waitQueues q with task := v }) := by
  refine ⟨?_, ?_, rfl⟩
  · rw [setWaitQueue_next]
    exact Function.update_eq_self q k.queueNext
  · rw [setWaitQueue_prev]
    exact Function.update_eq_self q k.queuePrev

theorem joinQueue_sameList {k k' : Kernel n} {wq : ℕ} {taskState : TaskState}
    (h : joinQueue k wq taskState = .ok k') : SameList k k' := by
  obtain ⟨k1, h1, h⟩ := bind_eq_ok.mp h
  obtain ⟨⟨head, k2⟩, h2, h⟩ := bind_eq_ok.mp h
  obtain rfl := Except.ok.inj h
  have hk1 : SameList k k1 := (sameList_modTcb k _ _).trans (rxRemoveFromReadyQ_relinked h1).sameList
  have hk2 := ((Relinked.setNext k1 k1.curr none).trans (appendWaiter_relinked h2)).sameList
  exact (hk1.trans hk2).trans (sameList_setTask k2 wq head)

theorem waitTimer_sameList (k : Kernel n) (timeout : ℤ) (timer : ℕ) : SameList k (waitTimer k timeout timer) := by
  unfold waitTimer rxWaitTimeout Kernel.rxCreateTimer Kernel.rxInitTimer Kernel.rxStartTimer
  dsimp only
  split_ifs <;> exact ⟨rfl, rfl, rfl⟩

theorem rxFinishWait_sameList (k : Kernel n) : SameList k (rxFinishWait k).2 := by
  unfold rxFinishWait
  dsimp only
  split <;> exact ⟨rfl, rfl, rfl⟩

theorem wakeAll_sameList : ∀ {f : ℕ} {k k' : Kernel n} {t : Option (Fin n)},
    wakeAll f k t = .ok k' → SameList k k'
  | 0, _, _, none, h | _ + 1, _, _, none, h => by
    obtain rfl := Except.ok.inj h
    exact SameList.refl _
  | 0, _, _, some _, h => by cases h
  | f + 1, k, k', some t, h => by
    obtain ⟨⟨e, k1⟩, h1, h⟩ := bind_eq_ok.mp h
    have hk1 : SameList k k1 := (sameList_setState k t _).trans (rxAddToReadyQ_relinked h1).sameList
    exact hk1.trans (wakeAll_sameList h)

theorem wakeLoop_sameList {q : ℕ} : ∀ {f : ℕ} {k k' : Kernel n} {tp tn : Option (Fin n)},
    wakeLoop q f k tp tn = .ok k' → SameList k k'
  | 0, _, _, _, none, h | _ + 1, _, _, _, none, h => by
    obtain rfl := Except.ok.inj h
    exact SameList.refl _
  | 0, _, _, _, some _, h => by cases h
  | f + 1, k, k', tp, some tn, h => by
    simp only [wakeLoop] at h
    split_ifs at h with h1 h2
    · obtain ⟨⟨e, k1⟩, hk1, h⟩ := bind_eq_ok.mp h
      exact (((sameList_setState k tn _).trans (sameList_setTask _ q _)).trans
        (rxAddToReadyQ_relinked hk1).sameList).trans
        (wakeLoop_sameList h)
    · cases tp with
      | none => cases h
      | some p =>
        obtain ⟨⟨e, k1⟩, hk1, h⟩ := bind_eq_ok.mp h
        have hr := (Relinked.setNext (k.setState tn .ready) p ((k.setState tn .ready).next tn)).trans
          (rxAddToReadyQ_relinked hk1)
        exact ((sameList_setState k tn _).trans hr.sameList).trans (wakeLoop_sameList h)
    · exact wakeLoop_sameList h

/-! ### The steps on the list -/

/-- The invariant, with the queues `l` on the list. -/
structure WaitInv (k : Kernel n) (l : List ℕ) : Prop where
  chain : Chain k.queueNext k.sysWaitList l
  back : PrevOrNull k.queuePrev none l
  off : ∀ q, q ∉ l → k.queuePrev q = none

variable {k k' : Kernel n} {l : List ℕ} {wq : ℕ}

theorem WaitInv.same (h : WaitInv k l) (hs : SameList k k') : WaitInv k' l := by
  refine ⟨?_, ?_, ?_⟩
  · rw [hs.next, hs.head]
    exact h.chain
  · rw [hs.prev]
    exact h.back
  · rw [hs.prev]
    exact h.off

theorem NoWaits.inv (h : NoWaits k) : WaitInv k [] := ⟨h.head, trivial, fun q _ => (h.links q).2⟩

theorem clearPrev_next (k : Kernel n) : (clearPrev k).queueNext = k.queueNext := by
  unfold clearPrev
  cases hh : k.sysWaitList with
  | none => rfl
  | some a =>
    rw [setWaitQueue_next]
    exact Function.update_eq_self a k.queueNext

theorem clearPrev_head (k : Kernel n) : (clearPrev k).sysWaitList = k.sysWaitList := by
  unfold clearPrev
  cases hh : k.sysWaitList with
  | none => exact hh
  | some a => exact hh

theorem clearPrev_prev (k : Kernel n) (q : ℕ) :
    (clearPrev k).queuePrev q = if k.sysWaitList = some q then none else k.queuePrev q := by
  unfold clearPrev
  cases hh : k.sysWaitList with
  | none => rfl
  | some a =>
    rw [setWaitQueue_prev]
    by_cases hq : q = a
    · simp [hq]
    · simp [hq, Ne.symm hq]

/-- The list starts at the queue behind its first one. -/
theorem WaitInv.clearPrev (h : WaitInv k (wq :: l)) (hhead : k'.sysWaitList = k.queueNext wq)
    (hnx : ∀ q, q ≠ wq → k'.queueNext q = k.queueNext q) (hpv : k'.queuePrev = k.queuePrev) :
    WaitInv (clearPrev k') l := by
  have hchain := h.chain.2
  obtain ⟨hwl, hnd⟩ := List.nodup_cons.mp h.chain.nodup
  have hpwq : k.queuePrev wq = none := by
    rcases h.back.1 with he | he <;> exact he
  refine ⟨?_, ?_, fun q hq => ?_⟩
  · rw [clearPrev_next, clearPrev_head, hhead]
    exact hchain.congr fun q hq => hnx q (ne_of_mem_of_not_mem hq hwl)
  · cases l with
    | nil => trivial
    | cons a l =>
      have ha : k.queueNext wq = some a := hchain.1
      refine ⟨Or.inl ?_, h.back.2.2.congr fun q hq => ?_⟩
      · rw [clearPrev_prev, hhead, if_pos ha]
      · have hqa : a ≠ q := fun he => (List.nodup_cons.mp hnd).1 (he ▸ hq)
        rw [clearPrev_prev, hhead, ha, if_neg (by simpa using hqa), hpv]
  · rw [clearPrev_prev, hpv]
    split_ifs with he
    · rfl
    · by_cases hqw : q = wq
      · rw [hqw]
        exact hpwq
      · exact h.off q (by simp [hqw, hq])

theorem WaitInv.passHead (h : WaitInv k (wq :: l)) : WaitInv (passHead k wq) l :=
  h.clearPrev rfl (fun _ _ => rfl) rfl

/-- `__rx_wake` also clears the links of the queue it takes off the head. -/
theorem WaitInv.dropFirst (h : WaitInv k (wq :: l)) : WaitInv (dropFirst k wq) l := by
  have hpwq : k.queuePrev wq = none := by
    rcases h.back.1 with he | he <;> exact he
  have hk : Rosx.dropFirst k wq = Rosx.clearPrev ({ k with sysWaitList := (k.waitQueues wq).next }.setWaitQueue wq
      { k.waitQueues wq with prev := none, next := none }) := rfl
  rw [hk]
  refine h.clearPrev rfl (fun q hq => ?_) ?_
  · rw [setWaitQueue_next, Function.update_of_ne hq]
    rfl
  · rw [setWaitQueue_prev]
    exact (Function.update_eq_self_iff.mpr hpwq.symm)

/-- What taking a queue out of the middle writes. -/
theorem dropLater_spec (h : dropLater k wq = .ok k') :
    ∃ p x, k.queuePrev wq = some p ∧ k.queueNext wq = some x ∧
      k'.queueNext = Function.update (Function.update k.queueNext p (some x)) wq none ∧
      k'.queuePrev = Function.update (Function.update k.queuePrev x (some p)) wq none ∧
      k'.sysWaitList = k.sysWaitList := by
  unfold dropLater at h
  cases hp : (k.waitQueues wq).prev with
  | none => rw [hp] at h; cases h
  | some p =>
    simp only [hp] at h
    set k1 := k.setWaitQueue p { k.waitQueues p with next := (k.waitQueues wq).next } with hk1
    have hnx1 : k1.queueNext = Function.update k.queueNext p (k.queueNext wq) := setWaitQueue_next _ _ _
    have hpv1 : k1.queuePrev = k.queuePrev := by
      rw [hk1, setWaitQueue_prev]
      exact Function.update_eq_self p k.queuePrev
    have hsame : k1.queueNext wq = k.queueNext wq := by
      rw [hnx1]
      by_cases hwp : wq = p
      · rw [hwp, Function.update_self]
      · rw [Function.update_of_ne hwp]
    cases hx : (k1.waitQueues wq).next with
    | none => rw [hx] at h; cases h
    | some x =>
      simp only [hx] at h
      have hx' : k.queueNext wq = some x := hsame.symm.trans hx
      have hp1 : (k1.waitQueues wq).prev = some p := (congrFun hpv1 wq).trans hp
      obtain rfl := Except.ok.inj h
      refine ⟨p, x, hp, hx', ?_, ?_, rfl⟩
      · have hself : Function.update k1.queueNext x (k1.waitQueues x).next = k1.queueNext :=
          Function.update_eq_self x k1.queueNext
        rw [setWaitQueue_next, setWaitQueue_next, hself, hnx1, hx']
      · rw [setWaitQueue_prev, setWaitQueue_prev, hpv1, hp1]

/-- A queue with a `prev` is on the list behind it, so it is taken out. -/
theorem WaitInv.dropLater (h : WaitInv k l) (hd : dropLater k wq = .ok k') : ∃ l', WaitInv k' l' := by
  obtain ⟨p, x, hp, hx, hnx, hpv, hhead⟩ := dropLater_spec hd
  have hmem : wq ∈ l := by
    by_contra hn
    rw [h.off wq hn] at hp
    cases hp
  obtain ⟨a, b, rfl⟩ : ∃ a b, l = a ++ p :: wq :: b := by
    rcases h.back.split hp hmem with ⟨hn, -⟩ | hl
    · cases hn
    · exact hl
  obtain ⟨b, rfl⟩ : ∃ b', b = x :: b' := by
    obtain ⟨_, _, hseg⟩ := seg_append.mp h.chain
    have hb : b.head? = some x := (Seg.head hseg.2.2).symm.trans hx
    exact ⟨b.tail, List.eq_cons_of_mem_head? hb⟩
  have hnd := h.chain.nodup
  have hw : wq ∉ a ++ p :: x :: b := by
    have := notMem_of_nodup_append (s := wq) (a := a ++ [p]) (b := x :: b) (by simpa using hnd)
    simp only [List.mem_append, List.mem_cons, List.not_mem_nil, or_false, not_or] at this ⊢
    exact ⟨this.1.1, this.1.2, this.2⟩
  have hxa : x ∉ a ++ [p] ∧ x ∉ b := by
    have := notMem_of_nodup_append (s := x) (a := a ++ [p, wq]) (b := b) (by simpa using hnd)
    simp only [List.mem_append, List.mem_cons, List.not_mem_nil, or_false, not_or] at this ⊢
    exact ⟨⟨this.1.1, this.1.2.1⟩, this.2⟩
  refine ⟨a ++ p :: x :: b, ?_, ?_, fun q hq => ?_⟩
  · have hchain := Chain.removeAfter h.chain
    rw [hx] at hchain
    rw [hnx, hhead]
    exact hchain.update_of_notMem hw
  · rw [hpv]
    have hback := PrevOrNull.append.mp h.back
    have hw' : ∀ q ∈ a ++ p :: x :: b, q ≠ wq := fun q hq => ne_of_mem_of_not_mem hq hw
    refine PrevOrNull.append.mpr ⟨hback.1.congr fun q hq => ?_, Or.inr ?_, hback.2.2.2.congr fun q hq => ?_⟩
    · have hqx : q ≠ x := ne_of_mem_of_not_mem hq hxa.1
      have hqw : q ≠ wq := hw' q (by
        rcases List.mem_append.mp hq with hq | hq
        · exact List.mem_append_left _ hq
        · obtain rfl := List.mem_singleton.mp hq
          simp)
      rw [Function.update_of_ne hqw, Function.update_of_ne hqx]
    · rw [Function.update_of_ne (hw' x (by simp)), Function.update_self]
    · have hqx : q ≠ x := ne_of_mem_of_not_mem hq hxa.2
      rw [Function.update_of_ne (hw' q (by simp [hq])), Function.update_of_ne hqx]
  · rw [hpv]
    by_cases hqw : q = wq
    · rw [hqw, Function.update_self]
    · have hqx : q ≠ x := fun he => hq (by simp [he])
      rw [Function.update_of_ne hqw, Function.update_of_ne hqx]
      refine h.off q fun hm => hq ?_
      simp only [List.mem_append, List.mem_cons] at hm ⊢
      rcases hm with hm | hm | hm | hm
      · exact Or.inl hm
      · exact Or.inr (Or.inl hm)
      · exact absurd hm hqw
      · exact Or.inr (Or.inr hm)

/-- A queue on the list stays where it is. -/
theorem addQueue_mem {fuel : ℕ} (h : WaitInv k l) (hw : wq ∈ l) (he : addQueue fuel k wq = .ok k') : k' = k := by
  unfold addQueue at he
  cases l with
  | nil => cases hw
  | cons a l =>
    have hhead : k.sysWaitList = some a := h.chain.1
    simp only [hhead] at he
    obtain ⟨ride, hride, rfl⟩ := map_eq_ok.mp he
    have hall := lastNodeOr_mono hride (le_max_left fuel (l.length + 1))
    rw [lastNodeOr_eq (hhead ▸ h.chain) (by omega), if_pos hw] at hall
    rw [if_pos (Except.ok.inj hall).symm]

/-- Any other queue goes behind the last one, and its own link stays: the list
then goes where it leads. -/
theorem addQueue_notMem {fuel : ℕ} (h : WaitInv k l) (hw : wq ∉ l) (he : addQueue fuel k wq = .ok k') :
    Seg k'.queueNext k'.sysWaitList (l ++ [wq]) (k.queueNext wq) ∧
    (∀ q, q ∉ l → k'.queueNext q = k.queueNext q) ∧ PrevOrNull k'.queuePrev none (l ++ [wq]) ∧
    ∀ q, q ∉ l ++ [wq] → k'.queuePrev q = none := by
  unfold addQueue at he
  rcases List.eq_nil_or_concat' l with rfl | ⟨l, p, rfl⟩
  · have hhead : k.sysWaitList = none := h.chain
    simp only [hhead] at he
    obtain rfl := Except.ok.inj he
    refine ⟨⟨rfl, rfl⟩, fun _ _ => rfl, ⟨Or.inl (h.off wq hw), trivial⟩, fun q _ => h.off q (by simp)⟩
  · obtain ⟨a, l', hal⟩ : ∃ a l', l ++ [p] = a :: l' := by
      cases l with
      | nil => exact ⟨p, [], rfl⟩
      | cons a l => exact ⟨a, l ++ [p], rfl⟩
    have hhead : k.sysWaitList = some a := by
      rw [Seg.head h.chain, hal]
      rfl
    simp only [hhead] at he
    obtain ⟨ride, hride, rfl⟩ := map_eq_ok.mp he
    have hlast : ride = p := by
      have hall := lastNodeOr_mono hride (le_max_left fuel (l'.length + 1))
      have hw' : wq ∉ a :: l' := hal ▸ hw
      rw [lastNodeOr_eq (by rw [← hal, ← hhead]; exact h.chain) (by omega), if_neg hw'] at hall
      have hr := (Except.ok.inj hall).symm
      simpa [← hal] using hr
    subst hlast
    have hne : ride ≠ wq := fun he => hw (by simp [he])
    rw [if_neg hne]
    set k1 := k.setWaitQueue ride { k.waitQueues ride with next := some wq } with hk1
    have hnx1 : k1.queueNext = Function.update k.queueNext ride (some wq) := setWaitQueue_next _ _ _
    have hpv1 : k1.queuePrev = k.queuePrev := by
      rw [hk1, setWaitQueue_prev]
      exact Function.update_eq_self ride k.queuePrev
    have hnx : (k1.setWaitQueue wq { k1.waitQueues wq with prev := some ride }).queueNext
        = Function.update k.queueNext ride (some wq) := by
      rw [setWaitQueue_next, ← hnx1]
      exact Function.update_eq_self wq k1.queueNext
    have hpv : (k1.setWaitQueue wq { k1.waitQueues wq with prev := some ride }).queuePrev
        = Function.update k.queuePrev wq (some ride) := by
      rw [setWaitQueue_prev, hpv1]
    rw [hnx, hpv]
    refine ⟨?_, fun q hq => ?_, ?_, fun q hq => ?_⟩
    · show Seg _ k.sysWaitList _ _
      exact h.chain.appendLast hw
    · rw [Function.update_of_ne]
      exact fun he => hq (by simp [he])
    · rw [List.append_assoc]
      refine PrevOrNull.append.mpr ⟨h.back.congr fun q hq => ?_, Or.inr ?_, trivial⟩
      · rw [Function.update_of_ne (ne_of_mem_of_not_mem hq hw)]
      · rw [Function.update_self]
    · simp only [List.mem_append, List.mem_singleton, not_or] at hq
      rw [Function.update_of_ne hq.2]
      exact h.off q (by simp [hq.1])

/-! ### The calls -/

/-- A wait keeps the list acyclic if and only if the queue it puts on the list
leads away from it. -/
theorem wait_step {fuel : ℕ} {taskState : TaskState} {timeout : ℤ} {timer : ℕ} (h : WaitInv k l)
    (he : rxAddToWaitQueue fuel k wq taskState timeout timer = .ok k') :
    ((wq ∈ l ∨ LeadsAway k l wq) → ∃ l', WaitInv k' l') ∧
    ((∃ l', Chain k'.queueNext k'.sysWaitList l') → wq ∉ l → LeadsAway k l wq) := by
  obtain ⟨k1, h1, he⟩ := bind_eq_ok.mp he
  obtain ⟨k2, h2, he⟩ := bind_eq_ok.mp he
  obtain rfl := Except.ok.inj he
  have hs1 : SameList k k1 := (Relinked.enterCritical k).sameList.trans (joinQueue_sameList h1)
  have hs2 : SameList k2 (waitTimer k2 timeout timer).exitCritical :=
    (waitTimer_sameList k2 timeout timer).trans (Relinked.exitCritical _).sameList
  have hinv := h.same hs1
  by_cases hw : wq ∈ l
  · obtain rfl := addQueue_mem hinv hw h2
    exact ⟨fun _ => ⟨l, hinv.same hs2⟩, fun _ hn => absurd hw hn⟩
  · obtain ⟨hseg, hnx, hback, hoff⟩ := addQueue_notMem hinv hw h2
    rw [hs1.next] at hseg hnx
    constructor
    · rintro (hm | ⟨l', hl', haway⟩)
      · exact absurd hm hw
      · have hchain : Chain k2.queueNext k2.sysWaitList (l ++ [wq] ++ l') :=
          seg_append.mpr ⟨_, hseg, hl'.congr fun q hq => hnx q (haway q hq)⟩
        have hprev : ∀ q ∈ l', k2.queuePrev q = none := by
          intro q hq
          refine hoff q fun hm => ?_
          exact (List.nodup_append.mp hchain.nodup).2.2 q hm q hq rfl
        refine ⟨l ++ [wq] ++ l', WaitInv.same ⟨hchain, ?_, fun q hq => ?_⟩ hs2⟩
        · rw [List.append_assoc]
          exact PrevOrNull.append.mpr ⟨hback, PrevOrNull.of_none hprev⟩
        · exact hoff q fun hm => hq (List.mem_append_left _ hm)
    · rintro ⟨l', hl'⟩ -
      rw [hs2.next, hs2.head] at hl'
      obtain ⟨m, rfl, hm⟩ := Chain.of_seg hseg hl'
      have haway : ∀ q ∈ m, q ∉ l := fun q hq hql =>
        (List.nodup_append.mp hl'.nodup).2.2 q (List.mem_append_left _ hql) q hq rfl
      exact ⟨m, hm.congr fun q hq => (hnx q (haway q hq)).symm, haway⟩

theorem wakeup_step (h : WaitInv k l) (he : rxWakeup k wq = .ok k') : ∃ l', WaitInv k' l' := by
  obtain ⟨k1, h1, he⟩ := bind_eq_ok.mp he
  obtain ⟨k2, h2, he⟩ := bind_eq_ok.mp he
  obtain rfl := Except.ok.inj he
  have hexit := (Relinked.exitCritical k2).sameList
  have hs := ((Relinked.enterCritical k).sameList.trans (wakeAll_sameList h1)).trans (sameList_setTask k1 wq none)
  have hinv := h.same hs
  unfold leaveSysList at h2
  split_ifs at h2 with hhead
  · obtain rfl := Except.ok.inj h2
    cases l with
    | nil =>
      have hn : _ = none := hinv.chain
      rw [hn] at hhead
      cases hhead
    | cons a l =>
      obtain rfl : wq = a := Option.some.inj (hhead.trans hinv.chain.1)
      exact ⟨l, hinv.passHead.same hexit⟩
  · obtain ⟨l', hl'⟩ := hinv.dropLater h2
    exact ⟨l', hl'.same hexit⟩

/-- A queue that `__rx_wake` takes off the list has no `next` left, so its walk
ends there. -/
theorem dropFirst_next (k : Kernel n) (q : ℕ) : (dropFirst k q).queueNext q = none := by
  have hk : dropFirst k q = clearPrev ({ k with sysWaitList := (k.waitQueues q).next }.setWaitQueue q
      { k.waitQueues q with prev := none, next := none }) := rfl
  rw [hk, clearPrev_next, setWaitQueue_next, Function.update_self]

theorem dropLater_next (h : dropLater k wq = .ok k') : k'.queueNext wq = none := by
  obtain ⟨_, _, _, _, hnx, _⟩ := dropLater_spec h
  rw [hnx, Function.update_self]

theorem dropLater_ne_hang (k : Kernel n) (q : ℕ) : dropLater k q ≠ .error .hang := by
  unfold dropLater
  split
  · simp
  · dsimp only
    split <;> simp

/-- A turn leaves the list alone, or takes the queue off it. -/
theorem wakeTurn_cases {ride : ℕ} (h : wakeTurn k ride = .ok k') : ∃ k1, rxWakeTaskInTheQueue k ride = .ok k1 ∧
    (k' = k1 ∨ (k.sysWaitList = some ride ∧ k' = dropFirst k1 ride) ∨ dropLater k1 ride = .ok k') := by
  obtain ⟨k1, h1, h⟩ := bind_eq_ok.mp h
  refine ⟨k1, h1, ?_⟩
  split_ifs at h with htask hfirst
  · exact Or.inr (Or.inl ⟨hfirst, (Except.ok.inj h).symm⟩)
  · exact Or.inr (Or.inr h)
  · exact Or.inl (Except.ok.inj h).symm

/-- The walk goes on along the rest of the list, or ends. -/
theorem wakeTurn_rest {ride : ℕ} (hl : Chain k.queueNext (some ride) (ride :: l)) (h : wakeTurn k ride = .ok k') :
    k'.queueNext ride = none ∨ Chain k'.queueNext (k'.queueNext ride) l := by
  obtain ⟨k1, h1, rfl | ⟨-, rfl⟩ | h⟩ := wakeTurn_cases h
  · rw [(wakeLoop_sameList h1).next]
    exact Or.inr hl.2
  · exact Or.inl (dropFirst_next k1 ride)
  · exact Or.inl (dropLater_next h)

theorem wakeTurn_hang {ride : ℕ} (h : wakeTurn k ride = .error .hang) :
    rxWakeTaskInTheQueue k ride = .error .hang := by
  rcases bind_eq_error.mp h with h | ⟨k1, -, h⟩
  · exact h
  · split_ifs at h
    · exact absurd h (dropLater_ne_hang k1 ride)

theorem wakeQueues_succ (f : ℕ) (k : Kernel n) (ride : ℕ) :
    wakeQueues (f + 1) k (some ride) = (wakeTurn k ride).bind fun k1 => wakeQueues f k1 (k1.queueNext ride) := by
  unfold wakeTurn
  rw [wakeQueues]
  cases rxWakeTaskInTheQueue k ride with
  | error e => rfl
  | ok k1 =>
    simp only [bind, Except.bind]
    split_ifs <;> rfl

theorem wakeQueues_none (f : ℕ) (k : Kernel n) : wakeQueues f k none = .ok k := by
  cases f <;> rfl

theorem wakeTurn_step {ride : ℕ} (hi : WaitInv k l) (h : wakeTurn k ride = .ok k') : ∃ l', WaitInv k' l' := by
  obtain ⟨k1, h1, hcase⟩ := wakeTurn_cases h
  have hi1 := hi.same (wakeLoop_sameList h1)
  rcases hcase with rfl | ⟨hhead, rfl⟩ | h2
  · exact ⟨l, hi1⟩
  · cases l with
    | nil =>
      have hn : _ = none := hi.chain
      rw [hn] at hhead
      cases hhead
    | cons a l =>
      obtain rfl : ride = a := Option.some.inj (hhead.symm.trans hi.chain.1)
      exact ⟨l, hi1.dropFirst⟩
  · exact hi1.dropLater h2

theorem wakeQueues_step {f : ℕ} (hi : ∃ l, WaitInv k l) {h : Option ℕ} (he : wakeQueues f k h = .ok k') :
    ∃ l', WaitInv k' l' := by
  induction f generalizing k h with
  | zero =>
    cases h with
    | none =>
      obtain rfl := Except.ok.inj he
      exact hi
    | some ride => cases he
  | succ f ih =>
    cases h with
    | none =>
      obtain rfl := Except.ok.inj he
      exact hi
    | some ride =>
      rw [wakeQueues_succ] at he
      obtain ⟨k1, h1, he⟩ := bind_eq_ok.mp he
      obtain ⟨l, hl⟩ := hi
      exact ih (wakeTurn_step hl h1) he

/-- The walk takes the queues of the list in order. -/
theorem WakeWalk.visits {h h' : Option ℕ} {qs : List ℕ} (hw : WakeWalk k h qs k' h') :
    ∀ {l : List ℕ}, Chain k.queueNext h l → qs <+: l := by
  induction hw with
  | start k h => exact fun {l} _ => ⟨l, rfl⟩
  | @turn k k1 k' ride qs h' h1 hw ih =>
    intro l hl
    cases l with
    | nil => cases hl
    | cons a l =>
      obtain rfl : ride = a := Option.some.inj hl.1
      refine List.cons_prefix_cons.mpr ⟨rfl, ?_⟩
      rcases wakeTurn_rest hl h1 with hn | hrest
      · have hnil : qs <+: [] := ih (l := []) hn
        rw [List.prefix_nil.mp hnil]
        exact ⟨l, rfl⟩
      · exact ih hrest

/-- Fuel beyond the length of the list does not matter. -/
theorem wakeQueues_fuel {f : ℕ} : ∀ {l : List ℕ} {k : Kernel n} {h : Option ℕ}, Chain k.queueNext h l → l.length ≤ f →
    wakeQueues f k h = wakeQueues l.length k h := by
  induction f with
  | zero =>
    intro l k h _ hf
    rw [Nat.le_zero.mp hf]
  | succ f ih =>
    intro l k h hl hf
    cases l with
    | nil =>
      obtain rfl : h = none := hl
      rw [wakeQueues_none, wakeQueues_none]
    | cons q l =>
      obtain rfl : h = some q := hl.1
      rw [List.length_cons, wakeQueues_succ, wakeQueues_succ]
      cases h1 : wakeTurn k q with
      | error e => rfl
      | ok k1 =>
        show wakeQueues f k1 _ = wakeQueues l.length k1 _
        rcases wakeTurn_rest hl h1 with hn | hrest
        · rw [hn, wakeQueues_none, wakeQueues_none]
        · exact ih hrest (Nat.le_of_succ_le_succ hf)

/-- The loop does not outlast the list. -/
theorem wakeQueues_hang {f : ℕ} : ∀ {l : List ℕ} {k : Kernel n} {h : Option ℕ}, Chain k.queueNext h l → l.length ≤ f →
    wakeQueues f k h = .error .hang →
    ∃ qs k' q, WakeWalk k h qs k' (some q) ∧ rxWakeTaskInTheQueue k' q = .error .hang := by
  induction f with
  | zero =>
    intro l k h hl hf he
    obtain rfl : l = [] := List.length_eq_zero_iff.mp (Nat.le_zero.mp hf)
    obtain rfl : h = none := hl
    cases he
  | succ f ih =>
    intro l k h hl hf he
    cases l with
    | nil =>
      obtain rfl : h = none := hl
      cases he
    | cons q l =>
      obtain rfl : h = some q := hl.1
      rw [wakeQueues_succ] at he
      rcases bind_eq_error.mp he with he | ⟨k1, h1, he⟩
      · exact ⟨[], k, q, .start k (some q), wakeTurn_hang he⟩
      · rcases wakeTurn_rest hl h1 with hn | hrest
        · rw [hn, wakeQueues_none] at he
          cases he
        · obtain ⟨qs, k', q', hw, hq⟩ := ih hrest (Nat.le_of_succ_le_succ hf) he
          exact ⟨q :: qs, k', q', .turn h1 hw, hq⟩

theorem WaitInv.ok (h : WaitInv k l) : WaitListOK k l where
  chain := h.chain
  nodup := h.chain.nodup
  search wq a ha f hf := by
    cases l with
    | nil =>
      have hn : _ = none := h.chain
      rw [hn] at ha
      cases ha
    | cons b l =>
      obtain rfl : b = a := Option.some.inj (h.chain.1.symm.trans ha)
      exact ⟨_, lastNodeOr_eq (ha ▸ h.chain) hf⟩
  turns _ _ _ hw := hw.visits h.chain
  fuel _ hf := wakeQueues_fuel h.chain hf
  wake _ hf he := wakeQueues_hang h.chain hf he

theorem waitStep_inv {c : WaitCall n} (h : ∃ l, WaitInv k l) (hc : LinkLeadsAway k c) (hst : Step k c k') :
    ∃ l, WaitInv k' l := by
  obtain ⟨l, hi⟩ := h
  obtain ⟨-, fuel, he⟩ := hst
  cases c with
  | wait wq taskState timeout timer =>
    refine (wait_step hi he).1 ?_
    by_cases hw : wq ∈ l
    · exact Or.inl hw
    · exact Or.inr (hc l hi.chain hw)
  | wakeup wq => exact wakeup_step hi he
  | wake => exact wakeQueues_step ⟨l, hi⟩ he
  | expire t =>
    obtain rfl := Except.ok.inj he
    exact ⟨l, hi.same (sameList_modTcb k t _)⟩
  | finish =>
    obtain rfl := Except.ok.inj he
    exact ⟨l, hi.same (rxFinishWait_sameList k)⟩
  | switch t =>
    obtain rfl := Except.ok.inj he
    exact ⟨l, hi.same ⟨rfl, rfl, rfl⟩⟩

theorem waitStep_cycle {c : WaitCall n} (h : ∃ l, WaitInv k l) (hc : ¬ LinkLeadsAway k c) (hst : Step k c k') :
    ¬ ∃ l, WaitListOK k' l := by
  obtain ⟨l, hi⟩ := h
  obtain ⟨-, fuel, he⟩ := hst
  cases c with
  | wait wq taskState timeout timer =>
    rintro ⟨l', hl'⟩
    refine hc fun m hm hw => ?_
    obtain rfl := Chain.unique hi.chain hm
    exact (wait_step hi he).2 ⟨l', hl'.chain⟩ hw
  | wakeup wq => exact absurd trivial hc
  | wake => exact absurd trivial hc
  | expire t => exact absurd trivial hc
  | finish => exact absurd trivial hc
  | switch t => exact absurd trivial hc

/-- **The system list of wait queues.** From a kernel in which nobody has
waited, the list stays acyclic and without repetition along a run, so that the
walks along it end, if and only if, for every wait that puts a queue on the list,
the link the queue still has leads away from the list. -/
theorem waitListOK_iff_linksLeadAway (hi : NoWaits k) {tr : List (WaitCall n × Kernel n)} (h : Run.Exec Step k tr) :
    (∀ x ∈ Run.states k tr, ∃ l, WaitListOK x l) ↔ Run.Guarded LinkLeadsAway k tr :=
  (h.guarded_iff (fun x => ∃ l, WaitInv x l) (fun _ ⟨l, hl⟩ => ⟨l, hl.ok⟩) (fun _ _ _ => waitStep_inv)
    (fun _ _ _ => waitStep_cycle) ⟨[], hi.inv⟩).symm

/-- The queue has no link of its own. -/
def NextClear (k : Kernel n) : WaitCall n → Prop
  | .wait wq _ _ _ => k.queueNext wq = none
  | _ => True

instance (k : Kernel n) : ∀ c, Decidable (NextClear k c)
  | .wait wq _ _ _ => inferInstanceAs (Decidable (k.queueNext wq = none))
  | .wakeup _ | .wake | .expire _ | .finish | .switch _ => inferInstanceAs (Decidable True)

theorem NextClear.leadsAway {c : WaitCall n} (h : NextClear k c) : LinkLeadsAway k c := by
  cases c with
  | wait wq taskState timeout timer =>
    intro l _ _
    exact ⟨[], h, by simp⟩
  | wakeup wq => trivial
  | wake => trivial
  | expire t => trivial
  | finish => trivial
  | switch t => trivial

theorem allReady_noWaits (m : ℕ) : NoWaits (Kernel.allReady m) := ⟨rfl, fun _ => ⟨rfl, rfl⟩⟩

/-- Task 0 waits on queue 0 and task 1 on queue 1, and `__rx_wake` takes queue 0
off the list. -/
theorem waitListOK_two_queues : NoWaits (Kernel.allReady 2) ∧ ∃ tr, Run.Exec Step (Kernel.allReady 2) tr ∧
    tr.length = 5 ∧ ∀ x ∈ Run.states (Kernel.allReady 2) tr, ∃ l, WaitListOK x l := by
  refine ⟨allReady_noWaits 2, ?_⟩
  obtain ⟨tr, hex, hp⟩ := Run.exists_exec (f := step 3) step_sound (s := Kernel.allReady 2)
    [.wait 0 .interruptible 5 0, .switch 1, .wait 1 .interruptible 0 0, .switch 2, .wake]
    (fun tr => decide (tr.length = 5 ∧ Run.Guarded NextClear (Kernel.allReady 2) tr)) (by decide +kernel)
  obtain ⟨hlen, hclear⟩ := of_decide_eq_true hp
  have haway := Run.Guarded.mono (fun _ _ => NextClear.leadsAway) hclear
  exact ⟨tr, hex, hlen, (waitListOK_iff_linksLeadAway (allReady_noWaits 2) hex).mpr haway⟩

/-- Two queues whose links lead to each other. -/
theorem not_chain_of_cycle {nx : ℕ → Option ℕ} {a b : ℕ} (ha : nx a = some b) (hb : nx b = some a) (l : List ℕ) :
    ¬ Chain nx (some a) l := by
  intro hl
  have hseg : Seg nx (some a) [a, b] (some a) := ⟨rfl, ha, hb⟩
  obtain ⟨m, rfl, hm⟩ := Chain.of_seg hseg hl
  have hlen := congrArg List.length (Chain.unique hl hm)
  simp at hlen
  omega

/-- Queue 0 is woken while queue 1, which follows it, stays on the list; the
next wait on queue 0 closes a cycle. -/
theorem second_wait_closes_cycle : NoWaits (Kernel.allReady 2) ∧ ∃ tr, Run.Exec Step (Kernel.allReady 2) tr ∧
    ¬ ∀ x ∈ Run.states (Kernel.allReady 2) tr, ∃ l, WaitListOK x l := by
  refine ⟨allReady_noWaits 2, ?_⟩
  obtain ⟨tr, hex, hp⟩ := Run.exists_exec (f := step 3) step_sound (s := Kernel.allReady 2)
    [.wait 0 .interruptible 0 0, .switch 1, .wait 1 .interruptible 0 0, .switch 2, .wakeup 0, .switch 0,
      .finish, .wait 0 .interruptible 0 0]
    (fun tr => (Run.states (Kernel.allReady 2) tr).any fun x =>
      x.sysWaitList = some 1 ∧ x.queueNext 1 = some 0 ∧ x.queueNext 0 = some 1) (by decide +kernel)
  refine ⟨tr, hex, fun hall => ?_⟩
  obtain ⟨x, hx, hcyc⟩ := List.any_eq_true.mp hp
  obtain ⟨hhead, h1, h0⟩ := of_decide_eq_true hcyc
  obtain ⟨l, hl⟩ := hall x hx
  exact not_chain_of_cycle h1 h0 l (hhead ▸ hl.chain)

end Rosx
