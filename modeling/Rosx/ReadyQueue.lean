/-
# The ready queue's two operations

What `__rx_add_to_ready_q` and `__rx_remove_from_ready_q` do to the chain
that starts at `__rx_task_ready_head`. The first puts the new task where
`insertReady` puts it in the list of the queue (`rxAddToReadyQ_spec`), the
second takes the task out (`rxRemoveFromReadyQ_mem`), and a task that is not
on a non-empty queue only has its own link cleared
(`rxRemoveFromReadyQ_notMem`). Neither changes anything but `next` links, the
head, `__rx_need_resched` and the port (`Relinked`).
-/
import Rosx.Task

namespace Rosx

open Linked

variable {n : ℕ}

/-! ### What the two operations leave alone -/

/-- `k'` is `k` up to `next` links, the head of the ready queue, the
reschedule request and the port. -/
structure Relinked (k k' : Kernel n) : Prop where
  tcb : ∀ t, k'.tcb t = { k.tcb t with next := k'.next t }
  rest : k' = { k with
    tcb := k'.tcb, readyHead := k'.readyHead, needResched := k'.needResched, port := k'.port }

namespace Relinked

variable {k k' k'' : Kernel n}

theorem refl (k : Kernel n) : Relinked k k := ⟨fun _ => rfl, rfl⟩

theorem of_eq (h : k' = k) : Relinked k k' := h ▸ refl k

theorem trans (h : Relinked k k') (h' : Relinked k' k'') : Relinked k k'' := by
  refine ⟨fun t => ?_, ?_⟩
  · rw [h'.tcb t, h.tcb t]
  · rw [h'.rest, h.rest]

theorem prio (h : Relinked k k') (t : Fin n) : (k'.tcb t).prio = (k.tcb t).prio := by rw [h.tcb t]

theorem origPrio (h : Relinked k k') (t : Fin n) : (k'.tcb t).origPrio = (k.tcb t).origPrio := by rw [h.tcb t]

theorem state (h : Relinked k k') (t : Fin n) : (k'.tcb t).state = (k.tcb t).state := by rw [h.tcb t]

theorem timer (h : Relinked k k') (t : Fin n) : (k'.tcb t).timer = (k.tcb t).timer := by rw [h.tcb t]

theorem mutex (h : Relinked k k') (t : Fin n) : (k'.tcb t).mutex = (k.tcb t).mutex := by rw [h.tcb t]

theorem sem (h : Relinked k k') (t : Fin n) : (k'.tcb t).sem = (k.tcb t).sem := by rw [h.tcb t]

theorem timeout (h : Relinked k k') (t : Fin n) : (k'.tcb t).timeout = (k.tcb t).timeout := by rw [h.tcb t]

theorem err (h : Relinked k k') (t : Fin n) : (k'.tcb t).err = (k.tcb t).err := by rw [h.tcb t]

theorem curr (h : Relinked k k') : k'.curr = k.curr := by rw [h.rest]

theorem mutexes (h : Relinked k k') : k'.mutexes = k.mutexes := by rw [h.rest]

theorem sems (h : Relinked k k') : k'.sems = k.sems := by rw [h.rest]

theorem queues (h : Relinked k k') : k'.queues = k.queues := by rw [h.rest]

theorem events (h : Relinked k k') : k'.events = k.events := by rw [h.rest]

theorem waitQueues (h : Relinked k k') : k'.waitQueues = k.waitQueues := by rw [h.rest]

theorem sysWaitList (h : Relinked k k') : k'.sysWaitList = k.sysWaitList := by rw [h.rest]

theorem timers (h : Relinked k k') : k'.timers = k.timers := by rw [h.rest]

theorem active (h : Relinked k k') : k'.active = k.active := by rw [h.rest]

theorem setNext (k : Kernel n) (t : Fin n) (v : Option (Fin n)) : Relinked k (k.setNext t v) := by
  refine ⟨fun u => ?_, rfl⟩
  by_cases hu : u = t
  · subst hu; simp [Kernel.setNext, Kernel.next]
  · simp [Kernel.setNext, Kernel.next, hu]

theorem setHead (k : Kernel n) (h : Option (Fin n)) : Relinked k { k with readyHead := h } :=
  ⟨fun _ => rfl, rfl⟩

theorem setResched (k : Kernel n) (b : Bool) : Relinked k { k with needResched := b } :=
  ⟨fun _ => rfl, rfl⟩

theorem enterCritical (k : Kernel n) : Relinked k k.enterCritical := ⟨fun _ => rfl, rfl⟩

theorem exitCritical (k : Kernel n) : Relinked k k.exitCritical := ⟨fun _ => rfl, rfl⟩

end Relinked

/-- Whatever the queue looks like, the loop only writes links and the head. -/
theorem addLoop_relinked {k k' : Kernel n} {new : Fin n} {prio : ℤ} : ∀ {f : ℕ} {prev start : Option (Fin n)},
    addLoop k new prio f prev start = .ok k' → Relinked k k'
  | 0, _, _, h => by cases h
  | f + 1, prev, none, h => by
    cases prev with
    | none => cases h
    | some p =>
      obtain rfl := Except.ok.inj h
      exact Relinked.setNext k p _
  | f + 1, prev, some start, h => by
    simp only [addLoop] at h
    split_ifs at h with h1 h2 h3
    · split at h
      · split_ifs at h with h4
        · obtain rfl := Except.ok.inj h
          exact (Relinked.setNext k new _).trans (Relinked.setNext _ start _)
        · exact addLoop_relinked h
      · obtain rfl := Except.ok.inj h
        exact (Relinked.setNext k new _).trans (Relinked.setNext _ start _)
    · obtain rfl := Except.ok.inj h
      exact (Relinked.setNext k new _).trans (Relinked.setHead _ _)
    · cases prev with
      | none => cases h
      | some p =>
        obtain rfl := Except.ok.inj h
        exact (Relinked.setNext k new _).trans (Relinked.setNext _ p _)
    · exact addLoop_relinked h

theorem rxAddToReadyQ_relinked {k k' : Kernel n} {new : Fin n} {e : OsErr}
    (h : rxAddToReadyQ k new = .ok (e, k')) : Relinked k k' := by
  unfold rxAddToReadyQ at h
  split_ifs at h with hs
  · obtain ⟨-, rfl⟩ := Prod.mk.inj (Except.ok.inj h)
    exact Relinked.refl k
  · have hstart := (Relinked.setNext k new none).trans (Relinked.enterCritical _)
    dsimp only at h
    split at h
    · obtain ⟨-, rfl⟩ := Prod.mk.inj (Except.ok.inj h)
      exact (hstart.trans (Relinked.setHead _ _)).trans (Relinked.exitCritical _)
    · obtain ⟨k1, hk1, h⟩ := bind_eq_ok.mp h
      have h1 := hstart.trans (addLoop_relinked hk1)
      obtain ⟨-, rfl⟩ := Prod.mk.inj (Except.ok.inj h)
      split_ifs
      · exact (h1.trans (Relinked.setResched _ _)).trans (Relinked.exitCritical _)
      · exact h1.trans (Relinked.exitCritical _)

theorem removeLoop_relinked {k k' : Kernel n} {rmv : Fin n} : ∀ {f : ℕ} {prev start : Option (Fin n)},
    removeLoop k rmv f prev start = .ok k' → Relinked k k'
  | 0, _, _, h => by cases h
  | f + 1, prev, none, h => by
    cases prev with
    | none => cases h
    | some p =>
      obtain rfl := Except.ok.inj h
      exact (Relinked.setNext k p _).trans (Relinked.setNext _ rmv _)
  | f + 1, prev, some start, h => by
    simp only [removeLoop] at h
    split_ifs at h with h1 h2
    · obtain rfl := Except.ok.inj h
      exact (Relinked.setHead k _).trans (Relinked.setNext _ rmv _)
    · cases prev with
      | none => cases h
      | some p =>
        obtain rfl := Except.ok.inj h
        exact (Relinked.setNext k p _).trans (Relinked.setNext _ rmv _)
    · exact removeLoop_relinked h

theorem rxRemoveFromReadyQ_relinked {k k' : Kernel n} {rmv : Fin n} (h : rxRemoveFromReadyQ k rmv = .ok k') :
    Relinked k k' := by
  obtain ⟨k1, hk1, h⟩ := bind_eq_ok.mp h
  obtain rfl := Except.ok.inj h
  exact ((Relinked.enterCritical k).trans (removeLoop_relinked hk1)).trans (Relinked.exitCritical _)

/-! ### What the loops leave alone -/

/-- The loop writes links and the head of the queue. -/
theorem addLoop_rest {k k' : Kernel n} {new : Fin n} {prio : ℤ} : ∀ {f : ℕ} {prev start : Option (Fin n)},
    addLoop k new prio f prev start = .ok k' → k' = { k with tcb := k'.tcb, readyHead := k'.readyHead }
  | 0, _, _, h => by cases h
  | f + 1, prev, none, h => by
    cases prev with
    | none => cases h
    | some p =>
      obtain rfl := Except.ok.inj h
      rfl
  | f + 1, prev, some start, h => by
    simp only [addLoop] at h
    split_ifs at h with h1 h2 h3
    · split at h
      · split_ifs at h with h4
        · obtain rfl := Except.ok.inj h
          rfl
        · exact addLoop_rest h
      · obtain rfl := Except.ok.inj h
        rfl
    · obtain rfl := Except.ok.inj h
      rfl
    · cases prev with
      | none => cases h
      | some p =>
        obtain rfl := Except.ok.inj h
        rfl
    · exact addLoop_rest h

theorem removeLoop_rest {k k' : Kernel n} {rmv : Fin n} : ∀ {f : ℕ} {prev start : Option (Fin n)},
    removeLoop k rmv f prev start = .ok k' → k' = { k with tcb := k'.tcb, readyHead := k'.readyHead }
  | 0, _, _, h => by cases h
  | f + 1, prev, none, h => by
    cases prev with
    | none => cases h
    | some p =>
      obtain rfl := Except.ok.inj h
      rfl
  | f + 1, prev, some start, h => by
    simp only [removeLoop] at h
    split_ifs at h with h1 h2
    · obtain rfl := Except.ok.inj h
      rfl
    · cases prev with
      | none => cases h
      | some p =>
        obtain rfl := Except.ok.inj h
        rfl
    · exact removeLoop_rest h

theorem rxAddToReadyQ_needResched {k k' : Kernel n} {new : Fin n} {e : OsErr}
    (h : rxAddToReadyQ k new = .ok (e, k')) (hres : k.needResched = true) : k'.needResched = true := by
  unfold rxAddToReadyQ at h
  split_ifs at h
  · obtain ⟨-, rfl⟩ := Prod.mk.inj (Except.ok.inj h)
    exact hres
  · dsimp only at h
    split at h
    · obtain ⟨-, rfl⟩ := Prod.mk.inj (Except.ok.inj h)
      exact hres
    · obtain ⟨k1, hk1, h⟩ := bind_eq_ok.mp h
      have h1 : k1.needResched = true := (congrArg Kernel.needResched (addLoop_rest hk1)).trans hres
      obtain ⟨-, rfl⟩ := Prod.mk.inj (Except.ok.inj h)
      split_ifs
      · rfl
      · exact h1

/-- A task that is added to a queue whose head is not the running task then
requests a reschedule. -/
theorem rxAddToReadyQ_requests {k k' : Kernel n} {new : Fin n} (h : rxAddToReadyQ k new = .ok (.osOk, k'))
    (hne : k.readyHead ≠ none) (hh : k'.readyHead ≠ some k'.curr) : k'.needResched = true := by
  unfold rxAddToReadyQ at h
  split_ifs at h
  · cases h
  · dsimp only at h
    split at h
    · rename_i hnone
      exact absurd hnone hne
    · obtain ⟨k1, -, h⟩ := bind_eq_ok.mp h
      obtain ⟨-, rfl⟩ := Prod.mk.inj (Except.ok.inj h)
      by_cases hc : some k1.curr ≠ k1.readyHead
      · simp only [if_pos hc]
        rfl
      · simp only [if_neg hc] at hh
        exact absurd (not_not.mp hc).symm hh

theorem rxRemoveFromReadyQ_needResched {k k' : Kernel n} {rmv : Fin n} (h : rxRemoveFromReadyQ k rmv = .ok k') :
    k'.needResched = k.needResched := by
  obtain ⟨k1, hk1, h⟩ := bind_eq_ok.mp h
  have hres := congrArg Kernel.needResched (removeLoop_rest hk1)
  obtain rfl := Except.ok.inj h
  exact hres

/-- The ready queue of `k` has become `l'`, and only nodes of `touched` have
a new link. -/
structure Requeued (k k' : Kernel n) (touched l' : List (Fin n)) : Prop extends Relinked k k' where
  chain : Chain k'.next k'.readyHead l'
  frame : ∀ t, t ∉ touched → k'.next t = k.next t

/-! ### Adding a task -/

/-- Where the loop of `__rx_add_to_ready_q` puts a task of priority `p`: before
the first less urgent task, behind a last task of equal priority, or at the
end. -/
def insertReady (prio : Fin n → ℤ) (p : ℤ) (new : Fin n) : List (Fin n) → List (Fin n)
  | [] => [new]
  | [a] => if p < prio a then [new, a] else [a, new]
  | a :: b :: l =>
    if p < prio a then new :: a :: b :: l
    else if prio a = p ∧ prio b ≠ p then a :: new :: b :: l
    else a :: insertReady prio p new (b :: l)

theorem insertReady_perm (prio : Fin n → ℤ) (p : ℤ) (new : Fin n) : ∀ l : List (Fin n),
    (insertReady prio p new l).Perm (new :: l)
  | [] => List.Perm.refl _
  | [a] => by
    unfold insertReady
    split_ifs
    · exact List.Perm.refl _
    · exact List.Perm.swap _ _ _
  | a :: b :: l => by
    unfold insertReady
    split_ifs
    · exact List.Perm.refl _
    · exact List.Perm.swap _ _ _
    · exact ((insertReady_perm prio p new (b :: l)).cons a).trans (List.Perm.swap _ _ _)

theorem mem_insertReady {prio : Fin n → ℤ} {p : ℤ} {new t : Fin n} {l : List (Fin n)} :
    t ∈ insertReady prio p new l ↔ t = new ∨ t ∈ l := by
  rw [(insertReady_perm prio p new l).mem_iff, List.mem_cons]

/-- Into a sorted queue a task goes behind the tasks that are at least as
urgent, in front of the others. -/
theorem insertReady_split (prio : Fin n → ℤ) (p : ℤ) (new : Fin n) (l : List (Fin n))
    (h : l.Pairwise fun a b => prio a ≤ prio b) :
    ∃ a b, l = a ++ b ∧ insertReady prio p new l = a ++ new :: b ∧ (∀ t ∈ a, prio t ≤ p) ∧ ∀ t ∈ b, p < prio t := by
  fun_induction insertReady prio p new l with
  | case1 => exact ⟨[], [], rfl, rfl, by simp, by simp⟩
  | case2 x hx => exact ⟨[], [x], rfl, rfl, by simp, by simpa using hx⟩
  | case3 x hx => exact ⟨[x], [], rfl, rfl, by simpa using hx, by simp⟩
  | case4 x y l hx =>
    obtain ⟨hxl, -⟩ := List.pairwise_cons.mp h
    refine ⟨[], x :: y :: l, rfl, rfl, by simp, fun t ht => ?_⟩
    rcases List.mem_cons.mp ht with rfl | ht
    · exact hx
    · exact lt_of_lt_of_le hx (hxl t ht)
  | case5 x y l hx hxy =>
    obtain ⟨hxl, hyl⟩ := List.pairwise_cons.mp h
    have hle := hxl y List.mem_cons_self
    refine ⟨[x], y :: l, rfl, rfl, by simp [hxy.1], fun t ht => ?_⟩
    rcases List.mem_cons.mp ht with rfl | ht
    · omega
    · have := (List.pairwise_cons.mp hyl).1 t ht
      omega
  | case6 x y l hx hxy ih =>
    obtain ⟨a, b, hl, hins, ha, hb⟩ := ih (List.pairwise_cons.mp h).2
    refine ⟨x :: a, b, by rw [hl]; rfl, by rw [hins]; rfl, fun t ht => ?_, hb⟩
    rcases List.mem_cons.mp ht with rfl | ht
    · omega
    · exact ha t ht

/-- The order `R` of a sorted queue is kept if the new task comes after the
tasks that are at least as urgent, and before the others. -/
theorem insertReady_pairwise {R : Fin n → Fin n → Prop} {prio : Fin n → ℤ} {new : Fin n} {l : List (Fin n)}
    (h : l.Pairwise fun a b => prio a ≤ prio b) (hR : l.Pairwise R) (hle : ∀ t ∈ l, prio t ≤ prio new → R t new)
    (hlt : ∀ t ∈ l, prio new < prio t → R new t) : (insertReady prio (prio new) new l).Pairwise R := by
  obtain ⟨a, b, rfl, hins, ha, hb⟩ := insertReady_split prio (prio new) new l h
  obtain ⟨hRa, hRb, hab⟩ := List.pairwise_append.mp hR
  rw [hins, List.pairwise_append, List.pairwise_cons]
  refine ⟨hRa, ⟨fun t ht => hlt t (List.mem_append_right _ ht) (hb t ht), hRb⟩, fun t ht u hu => ?_⟩
  rcases List.mem_cons.mp hu with rfl | hu
  · exact hle t (List.mem_append_left _ ht) (ha t ht)
  · exact hab t ht u hu

theorem insertReady_sorted {prio : Fin n → ℤ} {new : Fin n} {l : List (Fin n)}
    (h : l.Pairwise fun a b => prio a ≤ prio b) :
    (insertReady prio (prio new) new l).Pairwise fun a b => prio a ≤ prio b :=
  insertReady_pairwise h h (fun _ _ hle => hle) fun _ _ hlt => hlt.le

section Insert

variable {k : Kernel n} {new p : Fin n} {a b : List (Fin n)}

theorem requeued_insertAfter (hl : Chain k.next k.readyHead (a ++ p :: b)) (hn : new ∉ a ++ p :: b) :
    Requeued k ((k.setNext new (k.next p)).setNext p (some new)) (new :: (a ++ p :: b))
      (a ++ p :: new :: b) where
  toRelinked := (Relinked.setNext k new _).trans (Relinked.setNext _ p _)
  chain := by
    rw [Kernel.next_setNext, Kernel.next_setNext]
    exact Chain.insertAfter hl hn
  frame t ht := by
    simp only [List.mem_cons, List.mem_append, not_or] at ht
    simp [ht.1, ht.2.2.1]

theorem requeued_insertHead (hl : Chain k.next k.readyHead b) (hn : new ∉ b) :
    Requeued k { k.setNext new k.readyHead with readyHead := some new } (new :: b) (new :: b) where
  toRelinked := (Relinked.setNext k new _).trans (Relinked.setHead _ _)
  chain := by
    show Chain (k.setNext new k.readyHead).next (some new) (new :: b)
    rw [Kernel.next_setNext]
    exact Chain.insertHead hl hn
  frame t ht := by
    show (k.setNext new k.readyHead).next t = k.next t
    simp only [List.mem_cons, not_or] at ht
    simp [ht.1]

end Insert

/-- The loop, started behind the nodes `pre`, puts the task into the rest of
the queue. -/
theorem addLoop_spec {k : Kernel n} {new : Fin n} (prio : ℤ) (hnew : k.next new = none) :
    ∀ (rest pre : List (Fin n)) (f : ℕ), Chain k.next k.readyHead (pre ++ rest) → new ∉ pre ++ rest →
      pre ++ rest ≠ [] → rest.length < f →
      ∃ k', addLoop k new prio f pre.getLast? rest.head? = .ok k' ∧
        k'.needResched = k.needResched ∧ k'.port = k.port ∧
        Requeued k k' (new :: (pre ++ rest)) (pre ++ insertReady (fun t => (k.tcb t).prio) prio new rest)
  | [], pre, f + 1, hl, hn, hne, _ => by
    -- the end of the queue: `prev` is its last node
    rw [List.append_nil] at hl hn hne ⊢
    obtain ⟨a, p, rfl⟩ := List.eq_nil_or_concat pre |>.resolve_left hne
    rw [List.concat_eq_append] at *
    have hp0 : k.next p = none := hl.next_eq
    have h := requeued_insertAfter (b := []) hl hn
    have hkeep : k.setNext new (k.next p) = k := by
      rw [hp0, Kernel.setNext, ← hnew]
      simp [Kernel.setTcb, Kernel.next]
    rw [hkeep] at h
    exact ⟨k.setNext p (some new), by simp [addLoop], rfl, rfl, by simpa [insertReady] using h⟩
  | s :: rest, pre, f + 1, hl, hn, _, hf => by
    have hnx : (k.tcb s).next = rest.head? := hl.next_eq
    have hhead : rest.head? = k.next s := hnx.symm
    have hgo : ∀ hpre : ¬ prio < (k.tcb s).prio,
        addLoop k new prio (f + 1) pre.getLast? (some s) = addLoop k new prio f (some s) rest.head? →
        insertReady (fun t => (k.tcb t).prio) prio new (s :: rest) =
          s :: insertReady (fun t => (k.tcb t).prio) prio new rest →
        ∃ k', addLoop k new prio (f + 1) pre.getLast? (some s) = .ok k' ∧
          k'.needResched = k.needResched ∧ k'.port = k.port ∧
          Requeued k k' (new :: (pre ++ s :: rest))
            (pre ++ insertReady (fun t => (k.tcb t).prio) prio new (s :: rest)) := by
      intro _ he hi
      have ih := addLoop_spec prio hnew rest (pre ++ [s]) f (by simpa using hl) (by simpa using hn)
        (by simp) (by simpa using hf)
      rw [he, hi]
      simpa using ih
    simp only [List.head?_cons]
    rcases lt_trichotomy prio (k.tcb s).prio with hlt | heq | hgt
    · -- a less urgent task: the new one goes in front of it
      have hge : (k.tcb s).prio ≥ prio := by omega
      have hne : ¬ (k.tcb s).prio = prio := by omega
      have hins : insertReady (fun t => (k.tcb t).prio) prio new (s :: rest) = new :: s :: rest := by
        cases rest <;> simp [insertReady, hlt]
      rw [hins]
      rcases List.eq_nil_or_concat pre with rfl | ⟨a, p, rfl⟩
      · have hh : some s = k.readyHead := hl.1.symm
        refine ⟨{ k.setNext new k.readyHead with readyHead := some new }, ?_, rfl, rfl, ?_⟩
        · simp [addLoop, hge, hne, ← hh]
        · simpa using requeued_insertHead hl hn
      · rw [List.concat_eq_append] at *
        have hl' : Chain k.next k.readyHead (a ++ p :: s :: rest) := by simpa using hl
        have hp : k.next p = some s := hl'.next_eq
        have hsne : some s ≠ k.readyHead := by
          rw [Seg.head hl']
          have hnd := hl'.nodup
          cases a with
          | nil => simp at hnd ⊢; tauto
          | cons c a => simp at hnd ⊢; tauto
        refine ⟨(k.setNext new (k.next p)).setNext p (some new), ?_, rfl, rfl, ?_⟩
        · simp [addLoop, hge, hne, hsne, hp]
        · simpa using requeued_insertAfter hl' (by simpa using hn)
    · cases rest with
      | nil =>
        have hnil : k.next s = none := hhead.symm
        refine ⟨(k.setNext new (k.next s)).setNext s (some new), ?_, rfl, rfl, ?_⟩
        · simp [addLoop, heq, hnx, hnil]
        · simpa [insertReady, heq] using requeued_insertAfter hl hn
      | cons b rest =>
        have hb : k.next s = some b := hhead.symm
        by_cases hbp : (k.tcb b).prio = prio
        · refine hgo (by omega) ?_ ?_
          · simp [addLoop, ← heq, hnx, hbp]
          · simp [insertReady, ← heq, hbp]
        · refine ⟨(k.setNext new (k.next s)).setNext s (some new), ?_, rfl, rfl, ?_⟩
          · simp [addLoop, ← heq, hnx, hbp, hb]
          · simpa [insertReady, ← heq, hbp] using requeued_insertAfter hl hn
    · refine hgo (by omega) ?_ ?_
      · have : ¬ (k.tcb s).prio ≥ prio := by omega
        simp [addLoop, this, hnx]
      · have h1 : ¬ prio < (k.tcb s).prio := by omega
        have h2 : (k.tcb s).prio ≠ prio := by omega
        cases rest <;> simp [insertReady, h1, h2]

/-- `__rx_add_to_ready_q` of a runnable task that is not on the queue. -/
theorem rxAddToReadyQ_spec {k : Kernel n} {new : Fin n} {l : List (Fin n)}
    (hl : Chain k.next k.readyHead l) (hn : new ∉ l) (hs : (k.tcb new).state.runnable = true) :
    ∃ k', rxAddToReadyQ k new = .ok (.osOk, k') ∧
      k'.port = k.port.disableIrqGlobal.restoreIrqGlobal ∧
      Requeued k k' (new :: l) (insertReady (fun t => (k.tcb t).prio) (k.tcb new).prio new l) := by
  set k1 := (k.setNext new none).enterCritical with hk1
  have hr1 : Relinked k k1 := (Relinked.setNext k new none).trans (Relinked.enterCritical _)
  have hnext1 : k1.next = Function.update k.next new none := Kernel.next_setNext k new none
  have hl1 : Chain k1.next k1.readyHead l := by
    rw [hnext1]
    exact hl.update_of_notMem hn
  have hframe1 : ∀ t, t ≠ new → k1.next t = k.next t := fun t ht => by rw [hnext1]; simp [ht]
  have hprio1 : (fun t => (k1.tcb t).prio) = fun t => (k.tcb t).prio := funext hr1.prio
  cases l with
  | nil =>
    have hh : k1.readyHead = none := hl1
    refine ⟨{ k1 with readyHead := some new }.exitCritical, ?_, rfl, ?_, ?_, ?_⟩
    · simp only [rxAddToReadyQ, hs, Bool.not_true, Bool.false_eq_true, if_false]
      rw [← hk1, hh]
    · exact hr1.trans ((Relinked.setHead _ _).trans (Relinked.exitCritical _))
    · refine ⟨rfl, ?_⟩
      show k1.next new = none
      rw [hnext1, Function.update_self]
    · intro t ht
      exact hframe1 t (by simpa using ht)
  | cons s l =>
    have hh : k1.readyHead = some s := hl1.1
    obtain ⟨k2, hadd, hres, hport, hq⟩ := addLoop_spec (k1.tcb new).prio
      (by rw [hnext1, Function.update_self]) (s :: l) [] (n + 1) hl1 hn (by simp)
      (by have := hl1.length_le_fin; omega)
    simp only [List.getLast?_nil, List.head?_cons, List.nil_append] at hadd hq
    set k3 := if some k2.curr ≠ k2.readyHead then { k2 with needResched := true } else k2 with hk3
    have h23 : Relinked k2 k3 := by
      rw [hk3]
      split_ifs
      · exact Relinked.setResched _ _
      · exact Relinked.refl _
    have hnext3 : k3.next = k2.next := by rw [hk3]; split_ifs <;> rfl
    have hhead3 : k3.readyHead = k2.readyHead := by rw [hk3]; split_ifs <;> rfl
    have hport3 : k3.port = k2.port := by rw [hk3]; split_ifs <;> rfl
    refine ⟨k3.exitCritical, ?_, ?_, ?_, ?_, ?_⟩
    · simp only [rxAddToReadyQ, hs, Bool.not_true, Bool.false_eq_true, if_false]
      rw [← hk1, hh]
      simp only [hadd, bind, Except.bind, pure, Except.pure]
      rw [← hk3]
    · show k3.port.restoreIrqGlobal = _
      rw [hport3, hport]
      rfl
    · exact hr1.trans (hq.toRelinked.trans (h23.trans (Relinked.exitCritical _)))
    · show Chain k3.next k3.readyHead _
      rw [hnext3, hhead3, ← hprio1, ← hr1.prio new]
      exact hq.chain
    · intro t ht
      show k3.next t = k.next t
      rw [hnext3, hq.frame t ht]
      exact hframe1 t fun h => ht (h ▸ List.mem_cons_self)

/-! ### Removing a task -/

theorem removeLoop_mem (k : Kernel n) (rmv : Fin n) : ∀ (rest pre post : List (Fin n)) (f : ℕ),
    Chain k.next k.readyHead (pre ++ rest ++ rmv :: post) → rest.length < f →
    ∃ k', removeLoop k rmv f pre.getLast? (rest ++ rmv :: post).head? = .ok k' ∧
      k'.needResched = k.needResched ∧ k'.port = k.port ∧ k'.next rmv = none ∧
      Requeued k k' (pre ++ rest ++ rmv :: post) (pre ++ rest ++ post)
  | [], pre, post, f + 1, hl, _ => by
    have hnd := hl.nodup
    rw [List.append_nil] at hl hnd ⊢
    have hpost : rmv ∉ post := (List.nodup_cons.mp (List.nodup_append.mp hnd).2.1).1
    have hpre : rmv ∉ pre := fun h => (List.nodup_append.mp hnd).2.2 _ h _ List.mem_cons_self rfl
    rcases List.eq_nil_or_concat pre with rfl | ⟨a, p, rfl⟩
    · -- the head of the queue
      refine ⟨{ k with readyHead := k.next rmv }.setNext rmv none, ?_, rfl, rfl, by simp, ?_, ?_, ?_⟩
      · have hh : some rmv = k.readyHead := hl.1.symm
        simp [removeLoop, ← hh, Kernel.next]
      · exact (Relinked.setHead _ _).trans (Relinked.setNext _ _ _)
      · rw [Kernel.next_setNext]
        exact hl.2.update_of_notMem hpost
      · intro t ht
        have : t ≠ rmv := fun h => ht (by simp [h])
        rw [Kernel.next_setNext, Function.update_of_ne this]
        rfl
    · rw [List.concat_eq_append] at *
      have hl' : Chain k.next k.readyHead (a ++ p :: rmv :: post) := by simpa using hl
      have hsne : some rmv ≠ k.readyHead := by
        rw [Seg.head hl']
        have hnd' := hl'.nodup
        cases a with
        | nil => simp at hnd' ⊢; tauto
        | cons c a => simp at hnd' ⊢; tauto
      refine ⟨(k.setNext p (k.next rmv)).setNext rmv none, ?_, rfl, rfl, by simp, ?_, ?_, ?_⟩
      · simp [removeLoop, hsne, Kernel.next]
      · exact (Relinked.setNext _ _ _).trans (Relinked.setNext _ _ _)
      · rw [Kernel.next_setNext, Kernel.next_setNext]
        have hrem := hl'.removeAfter
        have hmem : rmv ∉ a ++ p :: post := by
          simp only [List.mem_append, List.mem_cons, not_or] at hpre ⊢
          exact ⟨hpre.1, hpre.2.1, hpost⟩
        simpa using hrem.update_of_notMem hmem
      · intro t ht
        simp only [List.mem_append, List.mem_cons, not_or] at ht
        simp [ht.1.2, ht.2.1]
  | s :: rest, pre, post, f + 1, hl, hf => by
    have hnd := hl.nodup
    have hs : s ≠ rmv := by
      rintro rfl
      simp [List.nodup_append] at hnd
    have hl' : Chain k.next k.readyHead (pre ++ (s :: (rest ++ rmv :: post))) := by simpa using hl
    have hnx : (k.tcb s).next = (rest ++ rmv :: post).head? := hl'.next_eq
    have ih := removeLoop_mem k rmv rest (pre ++ [s]) post f (by simpa using hl)
      (by simpa using hf)
    simpa [removeLoop, hs, hnx] using ih

theorem removeLoop_notMem (k : Kernel n) (rmv : Fin n) : ∀ (rest pre : List (Fin n)) (f : ℕ),
    Chain k.next k.readyHead (pre ++ rest) → rmv ∉ pre ++ rest → pre ++ rest ≠ [] → rest.length < f →
    removeLoop k rmv f pre.getLast? rest.head? = .ok (k.setNext rmv none)
  | [], pre, f + 1, hl, _, hne, _ => by
    rw [List.append_nil] at hl hne
    obtain ⟨a, p, rfl⟩ := List.eq_nil_or_concat pre |>.resolve_left hne
    rw [List.concat_eq_append] at *
    have hp0 : k.next p = none := hl.next_eq
    have hkeep : k.setNext p none = k := by
      rw [Kernel.setNext, ← hp0]
      simp [Kernel.setTcb, Kernel.next]
    simp [removeLoop, hkeep]
  | s :: rest, pre, f + 1, hl, hn, _, hf => by
    have hs : s ≠ rmv := by rintro rfl; simp at hn
    have hnx : (k.tcb s).next = rest.head? := hl.next_eq
    have ih := removeLoop_notMem k rmv rest (pre ++ [s]) f (by simpa using hl)
      (by simpa using hn) (by simp) (by simpa using hf)
    simpa [removeLoop, hs, hnx] using ih

/-- `__rx_remove_from_ready_q` of a task on the queue. -/
theorem rxRemoveFromReadyQ_mem {k : Kernel n} {rmv : Fin n} {l : List (Fin n)}
    (hl : Chain k.next k.readyHead l) (hm : rmv ∈ l) :
    ∃ k', rxRemoveFromReadyQ k rmv = .ok k' ∧
      k'.port = k.port.disableIrqGlobal.restoreIrqGlobal ∧ k'.needResched = k.needResched ∧
      k'.next rmv = none ∧ Requeued k k' l (l.erase rmv) := by
  have hnd := hl.nodup
  obtain ⟨a, b, rfl, ha⟩ := List.eq_append_cons_of_mem hm
  have hlen := hl.length_le
  simp only [Fintype.card_fin, List.length_append, List.length_cons] at hlen
  obtain ⟨k', he, hres, hport, hnone, hq⟩ := removeLoop_mem k.enterCritical rmv a [] b (n + 1)
    hl (by omega)
  simp only [List.getLast?_nil, List.nil_append] at he hq
  refine ⟨k'.exitCritical, ?_, ?_, hres, hnone, ?_, ?_, ?_⟩
  · have hh : k.enterCritical.readyHead = (a ++ rmv :: b).head? := Seg.head hl
    simp only [rxRemoveFromReadyQ, hh, he, bind, Except.bind, pure, Except.pure]
  · show k'.port.restoreIrqGlobal = _
    rw [hport]
    rfl
  · exact (Relinked.enterCritical k).trans (hq.toRelinked.trans (Relinked.exitCritical _))
  · rw [List.erase_append_right _ ha, List.erase_cons_head]
    exact hq.chain
  · exact hq.frame

/-- `__rx_remove_from_ready_q` of a task that is not on the queue: the walk
falls off the end and only clears the task's own link. -/
theorem rxRemoveFromReadyQ_notMem {k : Kernel n} {rmv : Fin n} {l : List (Fin n)}
    (hl : Chain k.next k.readyHead l) (hm : rmv ∉ l) (hne : l ≠ []) :
    rxRemoveFromReadyQ k rmv = .ok (k.enterCritical.setNext rmv none).exitCritical := by
  have hlen := hl.length_le_fin
  have he := removeLoop_notMem k.enterCritical rmv l [] (n + 1) hl hm hne (by omega)
  have hh : k.enterCritical.readyHead = l.head? := Seg.head hl
  simp only [List.getLast?_nil] at he
  simp only [rxRemoveFromReadyQ, hh, he, bind, Except.bind, pure, Except.pure]

/-- On an empty queue it follows the NULL predecessor. -/
theorem rxRemoveFromReadyQ_empty {k : Kernel n} (h : k.readyHead = none) (rmv : Fin n) :
    rxRemoveFromReadyQ k rmv = .error .null := by
  have hh : k.enterCritical.readyHead = none := h
  simp [rxRemoveFromReadyQ, hh, removeLoop, bind, Except.bind]

/-- In any case it leaves its critical section. -/
theorem rxRemoveFromReadyQ_port {k k' : Kernel n} {rmv : Fin n} (hk : rxRemoveFromReadyQ k rmv = .ok k') :
    k'.port = k.port.disableIrqGlobal.restoreIrqGlobal := by
  obtain ⟨k1, hloop, hk⟩ := bind_eq_ok.mp hk
  have hp := congrArg Kernel.port (removeLoop_rest hloop)
  obtain rfl := Except.ok.inj hk
  exact congrArg Port.restoreIrqGlobal hp

/-- If it returns, the queue has lost the task. -/
theorem rxRemoveFromReadyQ_chain {k k' : Kernel n} {rmv : Fin n} {l : List (Fin n)}
    (hl : Chain k.next k.readyHead l) (hk : rxRemoveFromReadyQ k rmv = .ok k') :
    Chain k'.next k'.readyHead (l.erase rmv) := by
  by_cases hm : rmv ∈ l
  · obtain ⟨k1, he, -, -, -, hq⟩ := rxRemoveFromReadyQ_mem hl hm
    obtain rfl : k1 = k' := Except.ok.inj (he.symm.trans hk)
    exact hq.chain
  · rw [List.erase_of_not_mem hm]
    by_cases hne : l = []
    · subst hne
      rw [rxRemoveFromReadyQ_empty hl] at hk
      cases hk
    · rw [rxRemoveFromReadyQ_notMem hl hm hne] at hk
      obtain rfl := Except.ok.inj hk
      show Chain (k.enterCritical.setNext rmv none).next _ l
      rw [Kernel.next_setNext]
      exact hl.update_of_notMem hm

end Rosx
