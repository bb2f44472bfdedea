/-
# Waking whole queues

`rx_wakeup` wakes the tasks of one wait queue and takes the queue off the
system list; `__rx_wake` does so for every queue on the list, task by task
(`kernel/rx_wait.c`). Both take the first queue of the list and one between
two others off correctly. The last one of several has no `next` to write the
`prev` of, and a queue that is not on the list has no `prev`: there both follow
NULL. And `__rx_wake` clears the links of a queue it takes off before it reads
them to go on, so its walk ends at the first queue it empties.

So on a well-formed list `rx_wakeup` does what it is for if and only if the
queue is on the list, first or not last (`rxWakeup_done_iff`), and `__rx_wake` if
and only if no queue that it empties has another one with work to do behind it,
or is the last of several (`rxWake_done_iff`).

Key definitions: `SysLists`, `WakeDone`, `WakesAll`, `WakeupDone`.
-/
import Rosx.WaitChains

namespace Rosx

open Linked

variable {n : ℕ} {ι : Type*}

/-- A well-formed system list: the queues `l` are registered, linked both ways;
on any other nobody waits, and it has no `prev`. -/
structure SysLists (pl : ℕ → ι) (k : Kernel n) (lr : List (Fin n)) (l : List ℕ) (lw : ι → List (Fin n)) : Prop where
  waits : WaitsAt pl k lr lw
  links : DChain k.queueNext k.queuePrev k.sysWaitList l
  off : ∀ q, q ∉ l → lw (pl q) = [] ∧ k.queuePrev q = none

/-! ### Taking a queue off the list -/

section Links

variable {k k' : Kernel n} {wq : ℕ} {l a b : List ℕ} {p x : ℕ}

/-- The list starts at the queue behind its first one. -/
theorem dchain_clearPrev (h : DChain k.queueNext k.queuePrev k.sysWaitList (wq :: l))
    (hhead : k'.sysWaitList = k.queueNext wq) (hnx : ∀ q, q ≠ wq → k'.queueNext q = k.queueNext q)
    (hpv : k'.queuePrev = k.queuePrev) :
    DChain (clearPrev k').queueNext (clearPrev k').queuePrev (clearPrev k').sysWaitList l := by
  have hnd := h.chain.nodup
  have hchain : Chain (clearPrev k').queueNext (clearPrev k').sysWaitList l := by
    rw [clearPrev_next, clearPrev_head, hhead]
    exact Seg.congr h.chain.2 fun q hq => hnx q (ne_of_mem_of_not_mem hq (List.nodup_cons.mp hnd).1)
  refine ⟨hchain, ?_⟩
  cases l with
  | nil => trivial
  | cons x l =>
    have hx : k.queueNext wq = some x := h.chain.2.1
    refine ⟨?_, h.back.2.2.congr fun q hq => ?_⟩
    · rw [clearPrev_prev, hhead, if_pos hx]
    · have hxq : x ≠ q := fun he => (List.nodup_cons.mp (List.nodup_cons.mp hnd).2).1 (he ▸ hq)
      rw [clearPrev_prev, hhead, hx, if_neg (by simpa using hxq), hpv]

/-- A queue between two others is taken off. -/
theorem dropLater_middle (h : DChain k.queueNext k.queuePrev k.sysWaitList (a ++ p :: wq :: x :: b)) :
    ∃ k', dropLater k wq = .ok k' ∧ DChain k'.queueNext k'.queuePrev k'.sysWaitList (a ++ p :: x :: b) ∧
      k'.queuePrev wq = none ∧ ∀ q, q ≠ wq → q ≠ x → k'.queuePrev q = k.queuePrev q := by
  have hp : k.queuePrev wq = some p := h.prev
  have hx : k.queueNext wq = some x := by
    obtain ⟨_, _, hs⟩ := seg_append.mp h.chain
    exact hs.2.2.1
  have hw : wq ∉ a ++ p :: x :: b := by
    have hnd := notMem_of_nodup_append (s := wq) (a := a ++ [p]) (b := x :: b) (by simpa using h.chain.nodup)
    simp only [List.mem_append, List.mem_cons, List.not_mem_nil, or_false, not_or] at hnd ⊢
    exact ⟨hnd.1.1, hnd.1.2, hnd.2⟩
  have hwp : wq ≠ p := fun he => hw (by simp [he])
  obtain ⟨k', he⟩ : ∃ k', dropLater k wq = .ok k' := by
    have hp' : (k.waitQueues wq).prev = some p := hp
    have hx' : (k.waitQueues wq).next = some x := hx
    simp only [dropLater, hp', hx', Kernel.setWaitQueue, Function.update_of_ne hwp]
    exact ⟨_, rfl⟩
  obtain ⟨p', x', hp', hx', hnx, hpv, hhead⟩ := dropLater_spec he
  obtain rfl : p = p' := Option.some.inj (hp.symm.trans hp')
  obtain rfl : x = x' := Option.some.inj (hx.symm.trans hx')
  have hmid := h.removeMiddle
  refine ⟨k', he, ⟨?_, ?_⟩, by rw [hpv, Function.update_self], fun q hq hqx => ?_⟩
  · rw [hnx, hhead]
    exact hmid.chain.update_of_notMem hw
  · rw [hpv]
    exact hmid.back.update_of_notMem hw
  · rw [hpv, Function.update_of_ne hq, Function.update_of_ne hqx]

/-- The last one of several has no queue behind it. -/
theorem dropLater_last (h : DChain k.queueNext k.queuePrev k.sysWaitList (a ++ [p, wq])) :
    dropLater k wq = .error .null := by
  have hp : (k.waitQueues wq).prev = some p := h.prev
  have hx : (k.waitQueues wq).next = none := by
    obtain ⟨_, _, hs⟩ := seg_append.mp h.chain
    exact hs.2.2
  have hwp : wq ≠ p := by
    rintro rfl
    have hnd := List.nodup_append.mp h.chain.nodup
    simp at hnd
  simp only [dropLater, hp, hx, Kernel.setWaitQueue, Function.update_of_ne hwp]

/-- One that is not registered has none before it. -/
theorem dropLater_none (h : k.queuePrev wq = none) : dropLater k wq = .error .null := by
  have hp : (k.waitQueues wq).prev = none := h
  rw [dropLater, hp]

end Links

section Lists

variable {pl : ℕ → ι} {k k' : Kernel n} {lr ts : List (Fin n)} {lw : ι → List (Fin n)} {wq : ℕ} {l a b : List ℕ}

theorem WaitsAt.chain (h : WaitsAt pl k lr lw) (q : ℕ) : Chain k.next (k.waitQueues q).task (lw (pl q)) := by
  rw [h.task]
  exact h.lists.wait (pl q)

theorem WaitsAt.of_heads (h : WaitsAt pl k lr lw) (hs : SameHeads k k') : WaitsAt pl k' lr lw := by
  refine ⟨h.lists.of_links ?_ hs.readyHead (by rw [hs.port]; exact h.lists.port), fun q => ?_⟩
  · funext t
    simp only [Kernel.next, hs.tcb]
  · rw [hs.task]
    exact h.task q

namespace MadeReady

theorem clearPrev (h : MadeReady k k' ts) : MadeReady k (clearPrev k') ts := by
  unfold Rosx.clearPrev
  split
  · exact h
  · exact h.setWaitQueue _ _

theorem passHead (h : MadeReady k k' ts) (q : ℕ) : MadeReady k (passHead k' q) ts := (h.setSysWaitList _).clearPrev

theorem dropFirst (h : MadeReady k k' ts) (q : ℕ) : MadeReady k (dropFirst k' q) ts :=
  ((h.setSysWaitList _).setWaitQueue q _).clearPrev

theorem dropLater {k'' : Kernel n} (h : MadeReady k k' ts) (he : dropLater k' wq = .ok k'') : MadeReady k k'' ts := by
  unfold Rosx.dropLater at he
  split at he
  · cases he
  · dsimp only at he
    split at he
    · cases he
    · obtain rfl := Except.ok.inj he
      exact ((h.setWaitQueue _ _).setWaitQueue _ _).setWaitQueue _ _

end MadeReady

/-- The first queue has none before it. -/
theorem SysLists.clearPrev (h : SysLists pl k lr (wq :: l) lw) (hq : lw (pl wq) = []) (hs : SameHeads k (clearPrev k'))
    (hhead : k'.sysWaitList = k.queueNext wq) (hnx : ∀ q, q ≠ wq → k'.queueNext q = k.queueNext q)
    (hpv : k'.queuePrev = k.queuePrev) : SysLists pl (clearPrev k') lr l lw := by
  refine ⟨h.waits.of_heads hs, dchain_clearPrev h.links hhead hnx hpv, fun q hql => ?_⟩
  rw [clearPrev_prev, hpv]
  by_cases hqw : q = wq
  · subst hqw
    refine ⟨hq, ?_⟩
    rw [h.links.back.1, ite_self]
  · obtain ⟨hqt, hqp⟩ := h.off q (by simp [hqw, hql])
    refine ⟨hqt, ?_⟩
    rw [hqp, ite_self]

theorem SysLists.passHead (h : SysLists pl k lr (wq :: l) lw) (hq : lw (pl wq) = []) :
    SysLists pl (passHead k wq) lr l lw :=
  h.clearPrev hq (.passHead k wq) rfl (fun _ _ => rfl) rfl

theorem SysLists.dropFirst (h : SysLists pl k lr (wq :: l) lw) (hq : lw (pl wq) = []) :
    SysLists pl (dropFirst k wq) lr l lw := by
  have hs := SameHeads.dropFirst k wq
  have hk : Rosx.dropFirst k wq = Rosx.clearPrev ({ k with sysWaitList := (k.waitQueues wq).next }.setWaitQueue wq
      { k.waitQueues wq with prev := none, next := none }) := rfl
  rw [hk] at hs ⊢
  refine h.clearPrev hq hs rfl (fun q hqw => ?_) ?_
  · rw [setWaitQueue_next, Function.update_of_ne hqw]
    rfl
  · rw [setWaitQueue_prev]
    exact Function.update_eq_self_iff.mpr h.links.back.1.symm

/-- One that is neither first nor last is taken off. -/
theorem SysLists.dropLater (h : SysLists pl k lr (a ++ wq :: b) lw) (hq : lw (pl wq) = []) (ha : a ≠ []) (hb : b ≠ []) :
    ∃ k', dropLater k wq = .ok k' ∧ SysLists pl k' lr (a ++ b) lw := by
  obtain ⟨a, p, rfl⟩ := (List.eq_nil_or_concat' a).resolve_left ha
  obtain ⟨x, b, rfl⟩ := List.exists_cons_of_ne_nil hb
  have hl : a ++ [p] ++ wq :: x :: b = a ++ p :: wq :: x :: b := by simp
  have hl' : a ++ [p] ++ x :: b = a ++ p :: x :: b := by simp
  obtain ⟨k', he, hlinks, hpw, hpv⟩ := dropLater_middle (hl ▸ h.links)
  refine ⟨k', he, h.waits.of_heads (.dropLater he), hl'.symm ▸ hlinks, fun q hql => ?_⟩
  by_cases hqw : q = wq
  · subst hqw
    exact ⟨hq, hpw⟩
  · have hqx : q ≠ x := fun hx => hql (by simp [hx])
    obtain ⟨hqt, hqp⟩ := h.off q (by
      simp only [List.mem_append, List.mem_cons, List.not_mem_nil, or_false] at hql ⊢
      tauto)
    rw [hpv q hqw hqx]
    exact ⟨hqt, hqp⟩

theorem SysLists.dropLast (h : SysLists pl k lr (a ++ [wq]) lw) (ha : a ≠ []) : Rosx.dropLater k wq = .error .null := by
  obtain ⟨a, p, rfl⟩ := (List.eq_nil_or_concat' a).resolve_left ha
  have hl : a ++ [p] ++ [wq] = a ++ [p, wq] := by simp
  exact dropLater_last (hl ▸ h.links)

/-- The first queue of the list is the head. -/
theorem SysLists.head_iff (h : SysLists pl k lr (a ++ wq :: b) lw) : k.sysWaitList = some wq ↔ a = [] := by
  have hhead := Seg.head h.links.chain
  rw [hhead]
  constructor
  · intro he
    cases a with
    | nil => rfl
    | cons x a =>
      obtain rfl : x = wq := Option.some.inj he
      exact absurd List.mem_cons_self (notMem_of_nodup_append h.links.chain.nodup).1
  · rintro rfl
    rfl

end Lists

/-! ### `__rx_wake` -/

section Wake

variable [DecidableEq ι] {pl : ℕ → ι} {k k' : Kernel n} {lr : List (Fin n)} {lw : ι → List (Fin n)} {q : ℕ}
  {l a b : List ℕ} {P : Fin n → Bool}

/-- The chains after the tasks with `P` on the queues `c` are gone from them. -/
def keptAt (pl : ℕ → ι) (P : Fin n → Bool) (c : List ℕ) (lw : ι → List (Fin n)) (i : ι) : List (Fin n) :=
  if i ∈ c.map pl then (lw i).filter fun t => !P t else lw i

theorem keptAt_of_mem (pl : ℕ → ι) {c : List ℕ} (hq : q ∈ c) :
    keptAt pl P c lw (pl q) = (lw (pl q)).filter fun t => !P t :=
  if_pos (List.mem_map_of_mem hq)

theorem keptAt_of_notMem (hpl : Function.Injective pl) {c : List ℕ} (hq : q ∉ c) :
    keptAt pl P c lw (pl q) = lw (pl q) :=
  if_neg fun hm => hq ((List.mem_map_of_injective hpl).mp hm)

theorem keptAt_nil : keptAt pl P [] lw = lw := by
  funext i
  simp [keptAt]

theorem keptAt_cons (c : List ℕ) : keptAt pl P (q :: c) lw =
    keptAt pl P c (Function.update lw (pl q) ((lw (pl q)).filter fun t => !P t)) := by
  funext i
  by_cases hi : i = pl q
  · subst hi
    simp [keptAt, List.filter_filter]
  · simp [keptAt, hi]

/-- The tasks of the queues `c` with `P`. -/
def wokenOn (pl : ℕ → ι) (P : Fin n → Bool) (c : List ℕ) (lw : ι → List (Fin n)) : List (Fin n) :=
  c.flatMap fun q => (lw (pl q)).filter P

/-- What the first queues keep does not matter to the next ones. -/
theorem wokenOn_update (hpl : Function.Injective pl) {c : List ℕ} (hq : q ∉ c) (v : List (Fin n)) :
    wokenOn pl P c (Function.update lw (pl q) v) = wokenOn pl P c lw := by
  refine List.flatMap_congr fun x hx => ?_
  have hne : pl x ≠ pl q := fun he => hq (hpl he ▸ hx)
  rw [Function.update_of_ne hne]

omit [DecidableEq ι] in
theorem mem_wokenOn {c : List ℕ} {t : Fin n} : t ∈ wokenOn pl P c lw ↔ (∃ q ∈ c, t ∈ lw (pl q)) ∧ P t = true := by
  simp only [wokenOn, List.mem_flatMap, List.mem_filter]
  exact ⟨fun ⟨q, hq, ht, hP⟩ => ⟨⟨q, hq, ht⟩, hP⟩, fun ⟨⟨q, hq, ht⟩, hP⟩ => ⟨q, hq, ht, hP⟩⟩

/-- One queue's tasks are woken. -/
theorem SysLists.wakeTasks (hpl : Function.Injective pl) (h : SysLists pl k lr l lw)
    (hP : ∀ t ∈ lw (pl q), P t = true ↔ Wakeable k t) :
    ∃ k', rxWakeTaskInTheQueue k q = .ok k' ∧
      SysLists pl k' (readyAll (fun u => (k.tcb u).prio) ((lw (pl q)).filter P) lr) l
        (Function.update lw (pl q) ((lw (pl q)).filter fun t => !P t)) ∧
      MadeReady k k' ((lw (pl q)).filter P) ∧ SameList k k' := by
  obtain ⟨k1, he, h1, hw, hs⟩ := rxWakeTaskInTheQueue_spec hpl h.waits hP
  refine ⟨k1, he, ⟨h1, ?_, fun x hx => ?_⟩, hw, hs⟩
  · rw [hs.next, hs.prev, hs.head]
    exact h.links
  · obtain ⟨hxt, hxp⟩ := h.off x hx
    rw [hs.prev]
    refine ⟨?_, hxp⟩
    by_cases hxq : pl x = pl q
    · rw [hxq, Function.update_self, ← hxq, hxt, List.filter_nil]
    · rw [Function.update_of_ne hxq, hxt]

/-- One turn of the loop. -/
theorem wakeQueues_turn (k : Kernel n) (f : ℕ) (ride : ℕ) : wakeQueues (f + 1) k (some ride) =
    (rxWakeTaskInTheQueue k ride).bind fun k1 =>
      (if (k1.waitQueues ride).task = none then
        if k.sysWaitList = some ride then .ok (dropFirst k1 ride) else dropLater k1 ride
      else .ok k1).bind fun k2 => wakeQueues f k2 (k2.queueNext ride) := by
  rw [wakeQueues_succ, wakeTurn]
  cases rxWakeTaskInTheQueue k ride <;> rfl

/-- The queues `c`, none of which is emptied, are passed. -/
theorem SysLists.pass (hpl : Function.Injective pl) : ∀ {c a rest : List ℕ} {k : Kernel n} {lr : List (Fin n)}
    {lw : ι → List (Fin n)}, SysLists pl k lr (a ++ c ++ rest) lw →
    (∀ q ∈ c, ∀ t ∈ lw (pl q), P t = true ↔ Wakeable k t) →
    (∀ q ∈ c, ((lw (pl q)).filter fun t => !P t) ≠ []) →
    ∃ k1, (∀ f, wakeQueues (c.length + f) k (c ++ rest).head? = wakeQueues f k1 rest.head?) ∧
      SysLists pl k1 (readyAll (fun u => (k.tcb u).prio) (wokenOn pl P c lw) lr) (a ++ c ++ rest) (keptAt pl P c lw) ∧
      MadeReady k k1 (wokenOn pl P c lw)
  | [], a, rest, k, lr, lw, h, _, _ => by
    refine ⟨k, fun f => by simp, ?_, MadeReady.refl k⟩
    rw [keptAt_nil]
    exact h
  | q :: c, a, rest, k, lr, lw, h, hP, hkept => by
    have hnd := h.links.chain.nodup
    have hsplit : a ++ q :: c ++ rest = a ++ q :: (c ++ rest) := by simp
    rw [hsplit] at hnd
    have hqc : q ∉ c := fun hq => (notMem_of_nodup_append hnd).2 (List.mem_append_left _ hq)
    have hnext : k.queueNext q = (c ++ rest).head? := by
      have hchain := hsplit ▸ h.links.chain
      exact hchain.next_eq
    obtain ⟨k1, he, h1, hw1, hs1⟩ := h.wakeTasks hpl (hP q List.mem_cons_self)
    have hsome : (k1.waitQueues q).task ≠ none := by
      rw [h1.waits.task, Function.update_self, Ne, List.head?_eq_none_iff]
      exact hkept q List.mem_cons_self
    have hother : ∀ x ∈ c, Function.update lw (pl q) ((lw (pl q)).filter fun t => !P t) (pl x) = lw (pl x) := by
      intro x hx
      have hne : pl x ≠ pl q := fun he => hqc (hpl he ▸ hx)
      rw [Function.update_of_ne hne]
    have hstep : a ++ q :: c ++ rest = a ++ [q] ++ c ++ rest := by simp
    rw [hstep] at h1
    -- the queues behind it are judged as before
    have hP' : ∀ x ∈ c, ∀ t ∈ Function.update lw (pl q) ((lw (pl q)).filter fun t => !P t) (pl x),
        P t = true ↔ Wakeable k1 t := by
      intro x hx t ht
      rw [hother x hx] at ht
      have hne : t ∉ (lw (pl q)).filter P := by
        intro hm
        have hxq : x = q := hpl (h.waits.lists.apart _ _ t ht (List.mem_of_mem_filter hm))
        exact hqc (hxq ▸ hx)
      rw [hw1.wakeable hne]
      exact hP x (List.mem_cons_of_mem _ hx) t ht
    obtain ⟨k2, hrun, h2, hw2⟩ := SysLists.pass hpl h1 hP' fun x hx => by
      rw [hother x hx]
      exact hkept x (List.mem_cons_of_mem _ hx)
    rw [wokenOn_update hpl hqc] at h2 hw2
    have hready : readyAll (fun u => (k.tcb u).prio) (wokenOn pl P (q :: c) lw) lr =
        readyAll (fun u => (k1.tcb u).prio) (wokenOn pl P c lw)
          (readyAll (fun u => (k.tcb u).prio) ((lw (pl q)).filter P) lr) := by
      rw [hw1.prio]
      exact readyAll_append _ _ _ _
    refine ⟨k2, fun f => ?_, ?_, hw1.trans hw2⟩
    · rw [List.length_cons, Nat.add_right_comm, List.cons_append, List.head?_cons, wakeQueues_turn, he]
      simp only [Except.bind, if_neg hsome]
      rw [hs1.next, hnext]
      exact hrun f
    · rw [hready, keptAt_cons, hstep]
      exact h2

/-- No queue is emptied: all are passed. -/
theorem SysLists.wake_pass (hpl : Function.Injective pl) (h : SysLists pl k lr l lw)
    (hP : ∀ q ∈ l, ∀ t ∈ lw (pl q), P t = true ↔ Wakeable k t)
    (hkept : ∀ q ∈ l, ((lw (pl q)).filter fun t => !P t) ≠ []) {f : ℕ} (hf : l.length ≤ f) :
    ∃ k', rxWake f k = .ok k' ∧
      SysLists pl k' (readyAll (fun u => (k.tcb u).prio) (wokenOn pl P l lw) lr) l (keptAt pl P l lw) ∧
      MadeReady k k' (wokenOn pl P l lw) := by
  have hl : [] ++ l ++ [] = l := by simp
  obtain ⟨k1, hrun, h1, hw1⟩ := SysLists.pass hpl (hl.symm ▸ h) hP hkept
  obtain ⟨f, rfl⟩ := Nat.exists_eq_add_of_le hf
  rw [hl] at h1
  refine ⟨k1, ?_, h1, hw1⟩
  rw [rxWake, Seg.head h.links.chain]
  have hall := hrun f
  rw [List.append_nil, List.head?_nil, wakeQueues_none] at hall
  exact hall

/-- The walk gets to the first queue that is emptied, and no further. -/
theorem SysLists.wake_reach (hpl : Function.Injective pl) (h : SysLists pl k lr (a ++ q :: b) lw)
    (hP : ∀ x ∈ a ++ [q], ∀ t ∈ lw (pl x), P t = true ↔ Wakeable k t)
    (hkept : ∀ x ∈ a, ((lw (pl x)).filter fun t => !P t) ≠ []) (hq : ((lw (pl q)).filter fun t => !P t) = [])
    {f : ℕ} (hf : (a ++ q :: b).length ≤ f) :
    ∃ k1, rxWake f k = (if a = [] then .ok (Rosx.dropFirst k1 q) else Rosx.dropLater k1 q) ∧
      SysLists pl k1 (readyAll (fun u => (k.tcb u).prio) (wokenOn pl P (a ++ [q]) lw) lr) (a ++ q :: b)
        (keptAt pl P (a ++ [q]) lw) ∧ keptAt pl P (a ++ [q]) lw (pl q) = [] ∧
      MadeReady k k1 (wokenOn pl P (a ++ [q]) lw) := by
  have hl : [] ++ a ++ q :: b = a ++ q :: b := by simp
  have hqa : q ∉ a := (notMem_of_nodup_append h.links.chain.nodup).1
  obtain ⟨k1, hrun, h1, hw1⟩ := SysLists.pass hpl (hl.symm ▸ h) (fun x hx => hP x (List.mem_append_left _ hx)) hkept
  rw [hl] at h1
  have hlw : keptAt pl P a lw (pl q) = lw (pl q) := keptAt_of_notMem hpl hqa
  have hP1 : ∀ t ∈ keptAt pl P a lw (pl q), P t = true ↔ Wakeable k1 t := by
    intro t ht
    rw [hlw] at ht
    have hne : t ∉ wokenOn pl P a lw := by
      intro hm
      obtain ⟨⟨x, hx, htx⟩, -⟩ := mem_wokenOn.mp hm
      have hxq : x = q := hpl (h.waits.lists.apart _ _ t htx ht)
      exact hqa (hxq ▸ hx)
    rw [hw1.wakeable hne]
    exact hP q (by simp) t ht
  obtain ⟨k2, he, h2, hw2, hs2⟩ := h1.wakeTasks hpl hP1
  rw [hlw] at h2 hw2
  have hwoken : wokenOn pl P (a ++ [q]) lw = wokenOn pl P a lw ++ (lw (pl q)).filter P := by simp [wokenOn]
  have hkeptAt : keptAt pl P (a ++ [q]) lw =
      Function.update (keptAt pl P a lw) (pl q) ((lw (pl q)).filter fun t => !P t) := by
    funext i
    by_cases hi : i = pl q
    · subst hi
      rw [keptAt_of_mem pl (by simp), Function.update_self]
    · simp [keptAt, hi]
  refine ⟨k2, ?_, ?_, by rw [keptAt_of_mem pl (by simp), hq], hwoken ▸ hw1.trans hw2⟩
  · obtain ⟨f, rfl⟩ : ∃ g, f = a.length + (g + 1) := by
      refine ⟨f - a.length - 1, ?_⟩
      simp only [List.length_append, List.length_cons] at hf
      omega
    have htask : (k2.waitQueues q).task = none := by
      rw [h2.waits.task, Function.update_self, hq]
      rfl
    rw [rxWake, Seg.head h.links.chain, hrun, List.head?_cons, wakeQueues_turn, he]
    simp only [Except.bind, if_pos htask, h1.head_iff]
    by_cases ha : a = []
    · rw [if_pos ha]
      simp only [dropFirst_next, wakeQueues_none]
    · rw [if_neg ha]
      cases hd : Rosx.dropLater k2 q with
      | error e => rfl
      | ok k3 => simp only [dropLater_next hd, wakeQueues_none]
  · rw [hw1.prio] at h2
    rw [hwoken, hkeptAt, readyAll_append]
    exact h2

/-- It is taken off the list, unless it is the last of several. -/
theorem SysLists.wake_emptied (hpl : Function.Injective pl) (h : SysLists pl k lr (a ++ q :: b) lw)
    (hP : ∀ x ∈ a ++ [q], ∀ t ∈ lw (pl x), P t = true ↔ Wakeable k t)
    (hkept : ∀ x ∈ a, ((lw (pl x)).filter fun t => !P t) ≠ []) (hq : ((lw (pl q)).filter fun t => !P t) = [])
    (hab : a = [] ∨ b ≠ []) {f : ℕ} (hf : (a ++ q :: b).length ≤ f) :
    ∃ k', rxWake f k = .ok k' ∧
      SysLists pl k' (readyAll (fun u => (k.tcb u).prio) (wokenOn pl P (a ++ [q]) lw) lr) (a ++ b)
        (keptAt pl P (a ++ [q]) lw) ∧ MadeReady k k' (wokenOn pl P (a ++ [q]) lw) := by
  obtain ⟨k1, he, h1, hempty, hw1⟩ := h.wake_reach hpl hP hkept hq hf
  by_cases ha : a = []
  · subst ha
    rw [if_pos rfl] at he
    exact ⟨_, he, h1.dropFirst hempty, hw1.dropFirst q⟩
  · rw [if_neg ha] at he
    obtain ⟨k2, hd, h2⟩ := h1.dropLater hempty ha (hab.resolve_left ha)
    exact ⟨k2, he.trans hd, h2, hw1.dropLater hd⟩

theorem SysLists.wake_fault (hpl : Function.Injective pl) (h : SysLists pl k lr (a ++ [q]) lw)
    (hP : ∀ x ∈ a ++ [q], ∀ t ∈ lw (pl x), P t = true ↔ Wakeable k t)
    (hkept : ∀ x ∈ a, ((lw (pl x)).filter fun t => !P t) ≠ []) (hq : ((lw (pl q)).filter fun t => !P t) = [])
    (ha : a ≠ []) {f : ℕ} (hf : (a ++ [q]).length ≤ f) : rxWake f k = .error .null := by
  obtain ⟨k1, he, h1, -, -⟩ := h.wake_reach hpl hP hkept hq hf
  rw [he, if_neg ha]
  exact h1.dropLast ha

/-- The first queue that is emptied is not the last of several. -/
def WakeReturns (pl : ℕ → ι) (k : Kernel n) (l : List ℕ) (lw : ι → List (Fin n)) : Prop :=
  ∀ a q, l = a ++ [q] → a ≠ [] → (∀ t ∈ lw (pl q), Wakeable k t) → ∃ x ∈ a, ∀ t ∈ lw (pl x), Wakeable k t

/-- `__rx_wake` returns, or it follows NULL. -/
theorem SysLists.wake_cases (hpl : Function.Injective pl) (h : SysLists pl k lr l lw)
    (hP : ∀ t, P t = true ↔ Wakeable k t) {f : ℕ} (hf : l.length ≤ f) :
    (WakeReturns pl k l lw ∧ ∃ k' l' c, rxWake f k = .ok k' ∧
      SysLists pl k' (readyAll (fun u => (k.tcb u).prio) (wokenOn pl P c lw) lr) l' (keptAt pl P c lw) ∧
      MadeReady k k' (wokenOn pl P c lw)) ∨
    (¬ WakeReturns pl k l lw ∧ rxWake f k = .error .null) := by
  have hnil : ∀ q, ((lw (pl q)).filter fun t => !P t) = [] ↔ ∀ t ∈ lw (pl q), Wakeable k t := by
    intro q
    rw [List.filter_eq_nil_iff]
    simp only [Bool.not_eq_true', Bool.not_eq_false, hP]
  cases hfind : l.find? fun q => ((lw (pl q)).filter fun t => !P t).isEmpty with
  | none =>
    have hkept : ∀ q ∈ l, ((lw (pl q)).filter fun t => !P t) ≠ [] := by
      intro q hq
      have := List.find?_eq_none.mp hfind q hq
      simpa using this
    obtain ⟨k', he, h1, hw⟩ := h.wake_pass hpl (fun _ _ t _ => hP t) hkept hf
    refine Or.inl ⟨fun a q hl _ hq => ?_, k', l, l, he, h1, hw⟩
    exact absurd ((hnil q).mpr hq) (hkept q (by simp [hl]))
  | some q =>
    obtain ⟨hq, a, b, rfl, hpre⟩ := List.find?_eq_some_iff_append.mp hfind
    have hqnil : ((lw (pl q)).filter fun t => !P t) = [] := by simpa using hq
    have hkept : ∀ x ∈ a, ((lw (pl x)).filter fun t => !P t) ≠ [] := fun x hx => by simpa using hpre x hx
    by_cases hab : a = [] ∨ b ≠ []
    · obtain ⟨k', he, h1, hw⟩ := h.wake_emptied hpl (fun _ _ t _ => hP t) hkept hqnil hab hf
      refine Or.inl ⟨fun a' q' hl ha' _ => ⟨q, ?_, (hnil q).mp hqnil⟩, k', a ++ b, a ++ [q], he, h1, hw⟩
      -- `q` is not the last one, or it is the only one
      rcases List.eq_nil_or_concat' b with rfl | ⟨b, y, rfl⟩
      · obtain rfl := hab.resolve_right fun hb => hb rfl
        have hlen := congrArg List.length hl
        simp only [List.nil_append, List.length_cons, List.length_append] at hlen
        exact absurd (List.eq_nil_of_length_eq_zero (by simpa using hlen)) ha'
      · have hl' : a ++ q :: b ++ [y] = a' ++ [q'] := by simpa using hl
        obtain ⟨rfl, -⟩ := List.append_inj' hl' rfl
        simp
    · push Not at hab
      obtain ⟨ha, rfl⟩ := hab
      refine Or.inr ⟨fun hret => ?_, h.wake_fault hpl (fun _ _ t _ => hP t) hkept hqnil ha hf⟩
      obtain ⟨x, hx, hxw⟩ := hret a q rfl ha ((hnil q).mp hqnil)
      exact hkept x hx ((hnil x).mpr hxw)

end Wake

/-- The tasks that `__rx_wake` is to wake. -/
def toWake (k : Kernel n) (l : List ℕ) (lw : ℕ → List (Fin n)) : List (Fin n) :=
  (l.flatMap lw).filter fun t => decide (Wakeable k t)

/-- The tasks of a queue that are to stay on it. -/
def toKeep (k : Kernel n) (lw : ℕ → List (Fin n)) (q : ℕ) : List (Fin n) :=
  (lw q).filter fun t => !decide (Wakeable k t)

/-- What `__rx_wake` is for: exactly the tasks that may be woken are made ready, the
others stay on their queues in their order, and exactly the queues with a task
left stay registered. -/
structure WakeDone (k k' : Kernel n) (lr : List (Fin n)) (l : List ℕ) (lw : ℕ → List (Fin n)) : Prop where
  woken : ∀ t ∈ toWake k l lw, (k'.tcb t).state = .ready
  others : ∀ t, t ∉ toWake k l lw → (k'.tcb t).state = (k.tcb t).state
  lists : ∃ lr', (∀ t, t ∈ lr' ↔ t ∈ toWake k l lw ∨ t ∈ lr) ∧
    SysLists id k' lr' (l.filter fun q => !(toKeep k lw q).isEmpty) (toKeep k lw)

/-- A queue that is emptied is the first of the list or not the last, and every
queue behind it has tasks, none of which may be woken. -/
def WakesAll (k : Kernel n) (l : List ℕ) (lw : ℕ → List (Fin n)) : Prop :=
  ∀ a q b, l = a ++ q :: b → (∀ t ∈ lw q, Wakeable k t) →
    (a = [] ∨ b ≠ []) ∧ ∀ x ∈ b, lw x ≠ [] ∧ ∀ t ∈ lw x, ¬ Wakeable k t

section WakeDone

variable {k k' : Kernel n} {lr : List (Fin n)} {l a b : List ℕ} {lw : ℕ → List (Fin n)} {q : ℕ}

theorem toKeep_eq_nil : toKeep k lw q = [] ↔ ∀ t ∈ lw q, Wakeable k t := by
  simp [toKeep, List.filter_eq_nil_iff]

theorem toKeep_eq_self (h : ∀ t ∈ lw q, ¬ Wakeable k t) : toKeep k lw q = lw q :=
  List.filter_eq_self.mpr fun t ht => by simp [h t ht]

theorem mem_toWake {t : Fin n} : t ∈ toWake k l lw ↔ (∃ q ∈ l, t ∈ lw q) ∧ Wakeable k t := by
  simp [toWake, List.mem_filter, List.mem_flatMap]

/-- The walk gets to all queues with tasks to wake, and to all that are emptied. -/
theorem WakeDone.of_reached (h : SysLists id k lr (a ++ b) lw)
    (h' : SysLists id k' (readyAll (fun u => (k.tcb u).prio) (wokenOn id (fun t => decide (Wakeable k t)) a lw) lr)
      ((a ++ b).filter fun q => !(toKeep k lw q).isEmpty) (keptAt id (fun t => decide (Wakeable k t)) a lw))
    (hw : MadeReady k k' (wokenOn id (fun t => decide (Wakeable k t)) a lw))
    (hb : ∀ x ∈ b, ∀ t ∈ lw x, ¬ Wakeable k t) : WakeDone k k' lr (a ++ b) lw := by
  have hmem : ∀ t, t ∈ toWake k (a ++ b) lw ↔ t ∈ wokenOn id (fun t => decide (Wakeable k t)) a lw := by
    intro t
    rw [mem_toWake, mem_wokenOn, decide_eq_true_iff]
    constructor
    · rintro ⟨⟨q, hq, ht⟩, hwk⟩
      rcases List.mem_append.mp hq with hq | hq
      · exact ⟨⟨q, hq, ht⟩, hwk⟩
      · exact absurd hwk (hb q hq t ht)
    · rintro ⟨⟨q, hq, ht⟩, hwk⟩
      exact ⟨⟨q, List.mem_append_left _ hq, ht⟩, hwk⟩
  have hkept : keptAt id (fun t => decide (Wakeable k t)) a lw = toKeep k lw := by
    funext q
    by_cases hqa : q ∈ a
    · exact keptAt_of_mem id hqa
    · have hlw : keptAt id (fun t => decide (Wakeable k t)) a lw q = lw q :=
        keptAt_of_notMem Function.injective_id hqa
      rw [hlw]
      refine (toKeep_eq_self ?_).symm
      by_cases hqb : q ∈ b
      · exact hb q hqb
      · have hnil : lw q = [] := (h.off q (by simp [hqa, hqb])).1
        simp [hnil]
  refine ⟨fun t ht => ?_, fun t ht => ?_, _, fun t => ?_, hkept ▸ h'⟩
  · rw [hw.state, if_pos (by simpa using (hmem t).mp ht)]
  · rw [hw.state, if_neg (by simpa using fun hm => ht ((hmem t).mpr hm))]
  · rw [mem_readyAll, hmem]

/-- If it does what it is for, nothing behind the first queue that is emptied is to
be woken. -/
theorem wakesAll_of_done (h : SysLists id k lr (a ++ q :: b) lw) (hkept : ∀ x ∈ a, toKeep k lw x ≠ [])
    (hqnil : toKeep k lw q = []) {f : ℕ} (hf : (a ++ q :: b).length ≤ f) (he : rxWake f k = .ok k')
    (hdone : WakeDone k k' lr (a ++ q :: b) lw) : WakesAll k (a ++ q :: b) lw := by
  set P : Fin n → Bool := fun t => decide (Wakeable k t) with hPdef
  have hP : ∀ {c : List ℕ}, ∀ x ∈ c, ∀ t ∈ lw (id x), P t = true ↔ Wakeable k t := fun _ _ _ _ => decide_eq_true_iff
  have hinj : Function.Injective (id : ℕ → ℕ) := Function.injective_id
  intro a' q' b' hl hq'
  have hab : a = [] ∨ b ≠ [] := by
    by_contra hn
    push Not at hn
    obtain ⟨ha, rfl⟩ := hn
    rw [h.wake_fault hinj hP hkept hqnil ha hf] at he
    cases he
  obtain ⟨k1, he1, h1, -⟩ := h.wake_emptied hinj hP hkept hqnil hab hf
  obtain rfl : k1 = k' := Except.ok.inj (he1.symm.trans he)
  obtain ⟨lr', -, hlists⟩ := hdone.lists
  have hlist : a ++ b = (a ++ q :: b).filter fun q => !(toKeep k lw q).isEmpty :=
    Chain.unique h1.links.chain hlists.links.chain
  have hkeptb : ∀ x ∈ b, toKeep k lw x ≠ [] := by
    intro x hx
    have hm : x ∈ (a ++ q :: b).filter fun q => !(toKeep k lw q).isEmpty := hlist ▸ List.mem_append_right _ hx
    simpa using (List.mem_filter.mp hm).2
  -- so no other queue is emptied
  have hnd := h.links.chain.nodup
  obtain rfl : q' = q := by
    have hm : q' ∈ a ++ q :: b := hl ▸ by simp
    have hnil := toKeep_eq_nil.mpr hq'
    rcases List.mem_append.mp hm with hm | hm
    · exact absurd hnil (hkept q' hm)
    · exact (List.mem_cons.mp hm).resolve_right fun hm => hkeptb q' hm hnil
  obtain ⟨rfl, -, rfl⟩ := (List.append_cons_inj_of_notMem (notMem_of_nodup_append hnd).1
    (notMem_of_nodup_append hnd).2).mp hl
  refine ⟨hab, fun x hx => ?_⟩
  have hchain := Chain.unique (h1.waits.chain x) (hlists.waits.chain x)
  have hxa : x ∉ a ++ [q'] := by
    intro hm
    have hsplit : a ++ q' :: b = a ++ [q'] ++ b := by simp
    rw [hsplit] at hnd
    exact (List.nodup_append.mp hnd).2.2 x hm x hx rfl
  have hsame : lw x = toKeep k lw x := (keptAt_of_notMem hinj hxa).symm.trans hchain
  have hne := hkeptb x hx
  rw [← hsame] at hne
  refine ⟨hne, fun t ht => ?_⟩
  rw [hsame] at ht
  simpa using (List.mem_filter.mp ht).2

/-- **`__rx_wake`.** On a well-formed system list it returns and does what it is for
if and only if every queue that is emptied is the first one or not the last and has
only queues with nothing to do behind it. -/
theorem rxWake_done_iff (h : SysLists id k lr l lw) {f : ℕ} (hf : l.length ≤ f) :
    (∃ k', rxWake f k = .ok k' ∧ WakeDone k k' lr l lw) ↔ WakesAll k l lw := by
  set P : Fin n → Bool := fun t => decide (Wakeable k t) with hPdef
  have hP : ∀ {c : List ℕ}, ∀ x ∈ c, ∀ t ∈ lw (id x), P t = true ↔ Wakeable k t := fun _ _ _ _ => decide_eq_true_iff
  have hinj : Function.Injective (id : ℕ → ℕ) := Function.injective_id
  cases hfind : l.find? fun q => (toKeep k lw q).isEmpty with
  | none =>
    -- no queue is emptied
    have hkept : ∀ q ∈ l, toKeep k lw q ≠ [] := by
      intro q hq
      have := List.find?_eq_none.mp hfind q hq
      simpa using this
    refine iff_of_true ?_ fun a q b hl hq => ?_
    · obtain ⟨k', he, h1, hw⟩ := h.wake_pass hinj hP hkept hf
      have hl : l ++ [] = l := List.append_nil l
      have hfilter : (l.filter fun q => !(toKeep k lw q).isEmpty) = l :=
        List.filter_eq_self.mpr fun q hq => by simpa using hkept q hq
      refine ⟨k', he, ?_⟩
      have := WakeDone.of_reached (a := l) (b := []) (hl.symm ▸ h) ?_ hw (by simp)
      · rwa [hl] at this
      · rw [hl, hfilter]
        exact h1
    · exact absurd (toKeep_eq_nil.mpr hq) (hkept q (by simp [hl]))
  | some q =>
    obtain ⟨hq, a, b, rfl, hpre⟩ := List.find?_eq_some_iff_append.mp hfind
    have hqnil : toKeep k lw q = [] := by simpa using hq
    have hkept : ∀ x ∈ a, toKeep k lw x ≠ [] := fun x hx => by simpa using hpre x hx
    constructor
    · rintro ⟨k', he, hdone⟩
      exact wakesAll_of_done h hkept hqnil hf he hdone
    · intro hall
      obtain ⟨hab, hb⟩ := hall a q b rfl (toKeep_eq_nil.mp hqnil)
      obtain ⟨k', he, h1, hw⟩ := h.wake_emptied hinj hP hkept hqnil hab hf
      have hl : a ++ [q] ++ b = a ++ q :: b := by simp
      have hfilter : ((a ++ q :: b).filter fun q => !(toKeep k lw q).isEmpty) = a ++ b := by
        rw [List.filter_append, List.filter_cons_of_neg (by simp [hqnil])]
        congr 1
        · exact List.filter_eq_self.mpr fun x hx => by simpa using hkept x hx
        · refine List.filter_eq_self.mpr fun x hx => ?_
          rw [toKeep_eq_self (hb x hx).2]
          simpa using (hb x hx).1
      refine ⟨k', he, ?_⟩
      have := WakeDone.of_reached (a := a ++ [q]) (b := b) (hl.symm ▸ h) ?_ hw fun x hx => (hb x hx).2
      · rwa [hl] at this
      · rw [hl, hfilter]
        exact h1

end WakeDone

/-- Two tasks wait on queues 0 and 1, in the states given; a third one runs. -/
def twoQueues (r t u : Fin n) (st su : TaskState) : Kernel n where
  tcb := fun x => { state := if x = t then st else if x = u then su else .running }
  curr := r
  readyHead := some r
  waitQueues := fun q =>
    if q = 0 then { task := some t, next := some 1 } else if q = 1 then { task := some u, prev := some 0 } else {}
  sysWaitList := some 0

/-- The chains of the two queues. -/
def twoChains (t u : Fin n) (q : ℕ) : List (Fin n) := if q = 0 then [t] else if q = 1 then [u] else []

theorem twoQueues_sysLists {r t u : Fin n} (htr : t ≠ r) (hur : u ≠ r) (htu : t ≠ u) (st su : TaskState) :
    SysLists id (twoQueues r t u st su) [r] [0, 1] (twoChains t u) := by
  have hcases : ∀ q, q = 0 ∨ q = 1 ∨ (q ≠ 0 ∧ q ≠ 1) := by omega
  have hnext : (twoQueues r t u st su).next = fun _ => none := rfl
  refine ⟨⟨⟨Relinked.refl _, Or.inl rfl, ⟨rfl, rfl⟩, fun q => ?_, fun q x hx => ?_, fun q q' x hx hx' => ?_⟩,
    fun q => ?_⟩, ⟨⟨rfl, rfl, rfl⟩, rfl, rfl, trivial⟩, fun q hq => ?_⟩
  · rw [hnext]
    rcases hcases q with rfl | rfl | ⟨h0, h1⟩
    · exact ⟨rfl, rfl⟩
    · exact ⟨rfl, rfl⟩
    · simp [twoChains, h0, h1]
  · rcases hcases q with rfl | rfl | ⟨h0, h1⟩
    · obtain rfl : x = t := by simpa [twoChains] using hx
      simpa using htr
    · obtain rfl : x = u := by simpa [twoChains] using hx
      simpa using hur
    · simp [twoChains, h0, h1] at hx
  · rcases hcases q with rfl | rfl | ⟨h0, h1⟩
    · obtain rfl : x = t := by simpa [twoChains] using hx
      rcases hcases q' with rfl | rfl | ⟨h0, h1⟩
      · rfl
      · exact absurd (by simpa [twoChains] using hx') htu
      · simp [twoChains, h0, h1] at hx'
    · obtain rfl : x = u := by simpa [twoChains] using hx
      rcases hcases q' with rfl | rfl | ⟨h0, h1⟩
      · exact absurd (by simpa [twoChains] using hx') htu.symm
      · rfl
      · simp [twoChains, h0, h1] at hx'
    · simp [twoChains, h0, h1] at hx
  · rcases hcases q with rfl | rfl | ⟨h0, h1⟩
    · rfl
    · rfl
    · simp [twoChains, twoQueues, h0, h1]
  · obtain ⟨h0, h1⟩ : q ≠ 0 ∧ q ≠ 1 := by simpa using hq
    simp [twoChains, twoQueues, Kernel.queuePrev, h0, h1]

/-- Only the first task may be woken. -/
theorem rxWake_done_first : ∃ k', rxWake 2 (twoQueues (0 : Fin 3) 1 2 .interruptible .uninterruptible) = .ok k' ∧
    WakeDone (twoQueues (0 : Fin 3) 1 2 .interruptible .uninterruptible) k' [0] [0, 1] (twoChains 1 2) := by
  refine (rxWake_done_iff (twoQueues_sysLists (by decide) (by decide) (by decide) _ _) (by decide)).mpr ?_
  intro a q b hl hq
  match a, hl with
  | [], hl =>
    obtain ⟨rfl, rfl⟩ := List.cons.inj hl
    exact ⟨Or.inl rfl, by decide⟩
  | [x], hl =>
    obtain ⟨rfl, -⟩ := List.cons.inj (List.cons.inj hl).2
    exact absurd hq (by decide)
  | x :: y :: a, hl => simp at hl

/-- Both may be woken: the walk ends at queue 0, and task 2 goes on waiting. -/
theorem rxWake_leaves_waiter :
    SysLists id (twoQueues (0 : Fin 3) 1 2 .interruptible .interruptible) [0] [0, 1] (twoChains 1 2) ∧
      ¬ ∃ k', rxWake 2 (twoQueues (0 : Fin 3) 1 2 .interruptible .interruptible) = .ok k' ∧
        WakeDone (twoQueues (0 : Fin 3) 1 2 .interruptible .interruptible) k' [0] [0, 1] (twoChains 1 2) := by
  refine ⟨twoQueues_sysLists (by decide) (by decide) (by decide) _ _, ?_⟩
  rintro ⟨k', he, hdone⟩
  have hrun : ((rxWake 2 (twoQueues (0 : Fin 3) 1 2 .interruptible .interruptible)).map fun k => (k.tcb 2).state) =
      .ok .interruptible := by decide +kernel
  have hst := hdone.woken 2 (by decide)
  rw [he] at hrun
  have hint : (k'.tcb 2).state = .interruptible := Except.ok.inj hrun
  rw [hst] at hint
  cases hint

/-! ### `rx_wakeup` -/

/-- What `rx_wakeup` is for: the tasks of the queue are made ready, one after another,
and the queue is neither registered nor waited on; the rest of the system list
stays. -/
structure WakeupDone (k k' : Kernel n) (lr : List (Fin n)) (l : List ℕ) (lw : ℕ → List (Fin n)) (wq : ℕ) : Prop where
  woken : ∀ t ∈ lw wq, (k'.tcb t).state = .ready
  others : ∀ t, t ∉ lw wq → (k'.tcb t).state = (k.tcb t).state
  lists : SysLists id k' (readyAll (fun u => (k.tcb u).prio) (lw wq) lr) (l.erase wq) (Function.update lw wq [])

section Wakeup

variable {pl : ℕ → ι} {k k' : Kernel n} {lr ts : List (Fin n)} {lw : ι → List (Fin n)} {wq : ℕ} {l a b : List ℕ}

theorem SysLists.enter (h : SysLists pl k lr l lw) : SysLists pl k.enterCritical lr l lw :=
  ⟨⟨h.waits.lists.enter.self, h.waits.task⟩, h.links, h.off⟩

theorem SysLists.exit (h : SysLists pl k lr l lw) : SysLists pl k.exitCritical lr l lw :=
  ⟨⟨h.waits.lists.exit.self, h.waits.task⟩, h.links, h.off⟩

/-- The chain is emptied, and then the queue is taken off the list. -/
theorem SysLists.wakeup_reach [DecidableEq ι] (hpl : Function.Injective pl) (h : SysLists pl k lr l lw) (wq : ℕ) :
    ∃ k1, rxWakeup k wq = (leaveSysList k1 wq).map Kernel.exitCritical ∧
      SysLists pl k1 (readyAll (fun u => (k.tcb u).prio) (lw (pl wq)) lr) l (Function.update lw (pl wq) []) ∧
      MadeReady k k1 (lw (pl wq)) := by
  have h0 := h.enter
  have hlen := (h0.waits.lists.wait (pl wq)).length_le_fin
  obtain ⟨k1, hall, h1, hw1, hq, hs⟩ := wakeAll_spec (pl wq) h0.waits.lists rfl hlen
  set k2 := k1.setWaitQueue wq { k1.waitQueues wq with task := none } with hk2
  have hsame : SameList k k2 :=
    ((Relinked.enterCritical k).sameList.trans (wakeAll_sameList hall)).trans (sameList_setTask k1 wq none)
  have htask : ∀ x, (k2.waitQueues x).task = (Function.update lw (pl wq) [] (pl x)).head? :=
    h0.waits.setTask hpl (by rw [hk2, Kernel.setWaitQueue, hq]; rfl)
  refine ⟨k2, ?_, ⟨⟨?_, htask⟩, ?_, fun x hx => ?_⟩, ?_⟩
  · rw [← h0.waits.task] at hall
    show (wakeAll n k.enterCritical (k.enterCritical.waitQueues wq).task >>= fun k1 =>
      leaveSysList (k1.setWaitQueue wq { k1.waitQueues wq with task := none }) wq >>= fun k => _) = _
    rw [hall]
    show (leaveSysList k2 wq >>= fun k => pure k.exitCritical) = _
    cases leaveSysList k2 wq <;> rfl
  · rw [head_update]
    exact h1.of_links rfl rfl h1.port
  · rw [hsame.next, hsame.prev, hsame.head]
    exact h.links
  · obtain ⟨hxt, hxp⟩ := h.off x hx
    rw [hsame.prev]
    refine ⟨?_, hxp⟩
    by_cases hxq : pl x = pl wq
    · rw [hxq, Function.update_self]
    · rw [Function.update_of_ne hxq, hxt]
  · exact (((MadeReady.refl k).relinked (.enterCritical k)).trans hw1).setWaitQueue wq _

/-- **`rx_wakeup`.** On a well-formed system list it returns and does what it is
for if and only if the queue is registered, as the first one or not as the last. -/
theorem rxWakeup_done_iff {lw : ℕ → List (Fin n)} (h : SysLists id k lr l lw) :
    (∃ k', rxWakeup k wq = .ok k' ∧ WakeupDone k k' lr l lw wq) ↔ ∃ a b, l = a ++ wq :: b ∧ (a = [] ∨ b ≠ []) := by
  obtain ⟨k1, he, h1, hw1⟩ := h.wakeup_reach Function.injective_id wq
  have hempty : Function.update lw (id wq) [] (id wq) = [] := Function.update_self ..
  rw [he]
  constructor
  · rintro ⟨k', hk', -⟩
    obtain ⟨k2, hleave, -⟩ := map_eq_ok.mp hk'
    unfold leaveSysList at hleave
    have hmem : wq ∈ l := by
      by_contra hn
      have hne : some wq ≠ k1.sysWaitList := by
        intro hs
        exact hn (List.mem_of_mem_head? ((Seg.head h1.links.chain).symm.trans hs.symm))
      rw [if_neg hne, dropLater_none (h1.off wq hn).2] at hleave
      cases hleave
    obtain ⟨a, b, rfl⟩ := List.append_of_mem hmem
    refine ⟨a, b, rfl, ?_⟩
    by_contra hn
    push Not at hn
    obtain ⟨ha, rfl⟩ := hn
    have hne : some wq ≠ k1.sysWaitList := fun hs => ha (h1.head_iff.mp hs.symm)
    rw [if_neg hne, h1.dropLast ha] at hleave
    cases hleave
  · rintro ⟨a, b, rfl, hab⟩
    have herase : (a ++ wq :: b).erase wq = a ++ b := by
      rw [List.erase_append_right _ (notMem_of_nodup_append h.links.chain.nodup).1, List.erase_cons_head]
    have hdone : ∀ {k2 : Kernel n}, SysLists id k2 (readyAll (fun u => (k.tcb u).prio) (lw (id wq)) lr) (a ++ b)
        (Function.update lw (id wq) []) → MadeReady k k2 (lw (id wq)) →
        WakeupDone k k2.exitCritical lr (a ++ wq :: b) lw wq := by
      intro k2 h2 hw2
      refine ⟨fun t ht => ?_, fun t ht => ?_, herase.symm ▸ h2.exit⟩
      · exact (hw2.state t).trans (if_pos (by simpa using ht))
      · exact (hw2.state t).trans (if_neg (by simpa using ht))
    unfold leaveSysList
    by_cases ha : a = []
    · subst ha
      rw [if_pos (h1.head_iff.mpr rfl).symm]
      exact ⟨_, rfl, hdone (h1.passHead hempty) (hw1.passHead wq)⟩
    · obtain ⟨k2, hd, h2⟩ := h1.dropLater hempty ha (hab.resolve_left ha)
      have hne : some wq ≠ k1.sysWaitList := fun hs => ha (h1.head_iff.mp hs.symm)
      rw [if_neg hne, hd]
      exact ⟨_, rfl, hdone h2 (hw1.dropLater hd)⟩

/-- The first of two queues is woken. -/
theorem rxWakeup_done_first : ∃ k', rxWakeup (twoQueues (0 : Fin 3) 1 2 .interruptible .interruptible) 0 = .ok k' ∧
    WakeupDone (twoQueues (0 : Fin 3) 1 2 .interruptible .interruptible) k' [0] [0, 1] (twoChains 1 2) 0 :=
  (rxWakeup_done_iff (twoQueues_sysLists (by decide) (by decide) (by decide) _ _)).mpr ⟨[], [1], rfl, Or.inl rfl⟩

/-- Nobody waits on queue 2, and its `prev` is NULL. -/
theorem rxWakeup_null_unregistered :
    SysLists id (twoQueues (0 : Fin 3) 1 2 .interruptible .interruptible) [0] [0, 1] (twoChains 1 2) ∧
      ¬ ∃ k', rxWakeup (twoQueues (0 : Fin 3) 1 2 .interruptible .interruptible) 2 = .ok k' ∧
        WakeupDone (twoQueues (0 : Fin 3) 1 2 .interruptible .interruptible) k' [0] [0, 1] (twoChains 1 2) 2 := by
  refine ⟨twoQueues_sysLists (by decide) (by decide) (by decide) _ _, ?_⟩
  rintro ⟨k', he, -⟩
  have hnull : (rxWakeup (twoQueues (0 : Fin 3) 1 2 .interruptible .interruptible) 2).map (fun _ => ()) =
      .error .null := by decide +kernel
  rw [he] at hnull
  cases hnull

end Wakeup

end Rosx
