/-
# Waking, list by list

The loops of `rx_wakeup` and of `rx_wake_task_in_the_queue` (`kernel/rx_wait.c`)
take tasks off the chain of a wait queue and put them on the ready queue. Both
end, on any lists: the first empties the chain (`wakeAll_spec`), the second
leaves on it the tasks that may not be woken, in their order, and readies the
others in theirs (`rxWakeTaskInTheQueue_wakes`). A wait queue is one of any
number of places at which tasks may wait; `pl` says which.

Key definitions: `Wakeable`, `MadeReady`, `readyAll`, `QueueWoken`, `WaitsAt`.
Key theorem: `rxWakeTaskInTheQueue_wakes`.
-/
import Rosx.WaitRun

namespace Rosx

open Linked

variable {n : ℕ} {ι : Type*}

/-- `rx_wake_task_in_the_queue` wakes the task. -/
def Wakeable (k : Kernel n) (t : Fin n) : Prop :=
  (k.tcb t).state = .interruptible ∨ (k.tcb t).timeout = OsErr.eOsTimeout.code

instance (k : Kernel n) (t : Fin n) : Decidable (Wakeable k t) :=
  inferInstanceAs (Decidable ((k.tcb t).state = .interruptible ∨ (k.tcb t).timeout = OsErr.eOsTimeout.code))

/-! ### The tasks that become ready -/

/-- The tasks `ts` became ready; but for that, for the lists and for the wait
queues the kernel is the same. -/
structure MadeReady (k k' : Kernel n) (ts : List (Fin n)) : Prop where
  tcb : ∀ t, k'.tcb t =
    { k.tcb t with state := if ts.contains t then .ready else (k.tcb t).state, next := k'.next t }
  rest : k' = { k with
    tcb := k'.tcb, readyHead := k'.readyHead, needResched := k'.needResched, port := k'.port,
    waitQueues := k'.waitQueues, sysWaitList := k'.sysWaitList }

namespace MadeReady

variable {k k' k'' : Kernel n} {ts us : List (Fin n)}

theorem of_relinked (h : Relinked k k') : MadeReady k k' [] := by
  refine ⟨fun t => ?_, ?_⟩
  · exact h.tcb t
  · have hq := h.waitQueues
    have hs := h.sysWaitList
    rw [h.rest]

theorem refl (k : Kernel n) : MadeReady k k [] := of_relinked (.refl k)

theorem trans (h : MadeReady k k' ts) (h' : MadeReady k' k'' us) : MadeReady k k'' (ts ++ us) := by
  refine ⟨fun t => ?_, ?_⟩
  · rw [h'.tcb t, h.tcb t]
    by_cases hu : us.contains t = true
    · simp only [hu, if_true, List.contains_append, Bool.or_true]
    · simp only [hu, List.contains_append, Bool.or_false]
      rfl
  · rw [h'.rest, h.rest]

theorem relinked (h : MadeReady k k' ts) (h' : Relinked k' k'') : MadeReady k k'' ts := by
  have := h.trans (of_relinked h')
  rwa [List.append_nil] at this

theorem setState (k : Kernel n) (t : Fin n) : MadeReady k (k.setState t .ready) [t] := by
  refine ⟨fun u => ?_, rfl⟩
  by_cases hu : u = t
  · subst hu
    simp [Kernel.setState, Kernel.next]
  · simp [Kernel.setState, Kernel.next, hu]

theorem setWaitQueue (h : MadeReady k k' ts) (q : ℕ) (c : WaitQueue n) : MadeReady k (k'.setWaitQueue q c) ts :=
  ⟨h.tcb, by rw [h.rest]; rfl⟩

theorem setSysWaitList (h : MadeReady k k' ts) (v : Option ℕ) : MadeReady k { k' with sysWaitList := v } ts :=
  ⟨h.tcb, by rw [h.rest]⟩

theorem state (h : MadeReady k k' ts) (t : Fin n) :
    (k'.tcb t).state = if ts.contains t then .ready else (k.tcb t).state := by rw [h.tcb]

theorem prio (h : MadeReady k k' ts) : (fun t => (k'.tcb t).prio) = fun t => (k.tcb t).prio := by
  funext t
  rw [h.tcb]

theorem timeout (h : MadeReady k k' ts) (t : Fin n) : (k'.tcb t).timeout = (k.tcb t).timeout := by rw [h.tcb]

theorem eventFlag (h : MadeReady k k' ts) (t : Fin n) : (k'.tcb t).eventFlag = (k.tcb t).eventFlag := by rw [h.tcb]

theorem events (h : MadeReady k k' ts) : k'.events = k.events := by rw [h.rest]

theorem sems (h : MadeReady k k' ts) : k'.sems = k.sems := by rw [h.rest]

/-- Whether another task is woken does not depend on it. -/
theorem wakeable (h : MadeReady k k' ts) {t : Fin n} (ht : t ∉ ts) : Wakeable k' t ↔ Wakeable k t := by
  have hc : ts.contains t = false := by simpa using ht
  unfold Wakeable
  rw [h.state, h.timeout, hc]
  rfl

end MadeReady

/-- The ready queue after the tasks `ts` were put on it, one after another. -/
def readyAll (prio : Fin n → ℤ) (ts lr : List (Fin n)) : List (Fin n) :=
  ts.foldl (fun l t => insertReady prio (prio t) t l) lr

@[simp] theorem mem_readyAll {prio : Fin n → ℤ} {t : Fin n} : ∀ {ts lr : List (Fin n)},
    t ∈ readyAll prio ts lr ↔ t ∈ ts ∨ t ∈ lr
  | [], lr => by simp [readyAll]
  | u :: ts, lr => by
    have ih : t ∈ readyAll prio ts (insertReady prio (prio u) u lr) ↔ t ∈ ts ∨ t ∈ insertReady prio (prio u) u lr :=
      mem_readyAll
    rw [mem_insertReady] at ih
    rw [List.mem_cons]
    exact ih.trans or_left_comm |>.trans or_assoc.symm

theorem readyAll_append (prio : Fin n → ℤ) (ts us lr : List (Fin n)) :
    readyAll prio (ts ++ us) lr = readyAll prio us (readyAll prio ts lr) := List.foldl_append

theorem readyAll_perm (prio : Fin n → ℤ) : ∀ ts lr : List (Fin n), (readyAll prio ts lr).Perm (ts ++ lr)
  | [], lr => .refl lr
  | t :: ts, lr =>
    have hins : (ts ++ insertReady prio (prio t) t lr).Perm (ts ++ t :: lr) :=
      (insertReady_perm prio (prio t) t lr).append_left ts
    (readyAll_perm prio ts (insertReady prio (prio t) t lr)).trans (hins.trans List.perm_middle)

theorem readyAll_sorted {prio : Fin n → ℤ} : ∀ (ts : List (Fin n)) {lr : List (Fin n)},
    (lr.Pairwise fun a b => prio a ≤ prio b) → (readyAll prio ts lr).Pairwise fun a b => prio a ≤ prio b
  | [], _, hs => hs
  | _ :: ts, _, hs => readyAll_sorted ts (insertReady_sorted hs)

/-- Behind its equals, and in front of no other of them. -/
theorem insertReady_filter_prio {prio : Fin n → ℤ} {lr : List (Fin n)} (t : Fin n) (p : ℤ)
    (hs : lr.Pairwise fun a b => prio a ≤ prio b) :
    (insertReady prio (prio t) t lr).filter (fun u => prio u = p) =
      lr.filter (fun u => prio u = p) ++ [t].filter fun u => prio u = p := by
  obtain ⟨a, b, rfl, hins, -, hb⟩ := insertReady_split prio (prio t) t lr hs
  rw [hins, List.filter_append, List.filter_append, List.append_assoc]
  congr 1
  by_cases hp : prio t = p
  · have hnone : b.filter (fun u => prio u = p) = [] := by
      apply List.filter_eq_nil_iff.mpr
      intro u hu
      have hlt := hb u hu
      simp only [decide_eq_true_eq]
      omega
    rw [List.filter_cons_of_pos (by simpa using hp), List.filter_cons_of_pos (by simpa using hp), hnone]
    rfl
  · rw [List.filter_cons_of_neg (by simpa using hp), List.filter_cons_of_neg (by simpa using hp), List.filter_nil,
      List.append_nil]

/-- Among tasks of one priority, those of `ts` come last, in their order. -/
theorem readyAll_filter_prio {prio : Fin n → ℤ} (p : ℤ) : ∀ (ts : List (Fin n)) {lr : List (Fin n)},
    (lr.Pairwise fun a b => prio a ≤ prio b) → (readyAll prio ts lr).filter (fun u => prio u = p) =
      lr.filter (fun u => prio u = p) ++ ts.filter fun u => prio u = p
  | [], _, _ => by simp [readyAll]
  | t :: ts, lr, hs => by
    have hs' : (insertReady prio (prio t) t lr).Pairwise fun a b => prio a ≤ prio b := insertReady_sorted hs
    have ih := readyAll_filter_prio p ts hs'
    rw [insertReady_filter_prio t p hs, List.append_assoc, ← List.filter_append] at ih
    exact ih

/-! ### The chain of one queue -/

/-- In `k'` the tasks `ts` have left the chain of queue `q` for the ready queue
`lr` of `k`, one after another, and the chain is `l`. -/
structure QueueWoken (q : ℕ) (k k' : Kernel n) (ts l lr : List (Fin n)) : Prop where
  chain : Chain k'.next (k'.waitQueues q).task l
  ready : Chain k'.next k'.readyHead (readyAll (fun t => (k.tcb t).prio) ts lr)
  made : MadeReady k k' ts
  queues : ∀ x, x ≠ q → k'.waitQueues x = k.waitQueues x
  frame : ∀ t, t ∉ ts → t ∉ l → t ∉ lr → k'.next t = k.next t
  port : k.port.Task → k'.port.Task

namespace QueueWoken

variable {q : ℕ} {k k1 k2 : Kernel n} {ts us l l' lr : List (Fin n)} {t : Fin n}

theorem refl (hl : Chain k.next (k.waitQueues q).task l) (hlr : Chain k.next k.readyHead lr) :
    QueueWoken q k k [] l lr :=
  ⟨hl, hlr, .refl k, fun _ _ => rfl, fun _ _ _ _ => rfl, id⟩

theorem trans (h : QueueWoken q k k1 ts l lr) (hl : ∀ u ∈ l, u ∈ us ∨ u ∈ l')
    (h' : QueueWoken q k1 k2 us l' (readyAll (fun t => (k.tcb t).prio) ts lr)) :
    QueueWoken q k k2 (ts ++ us) l' lr := by
  have hr := h'.ready
  rw [h.made.prio, ← readyAll_append] at hr
  refine ⟨h'.chain, hr, h.made.trans h'.made, fun x hx => ?_, fun u hu hl' hlr => ?_, fun hp => h'.port (h.port hp)⟩
  · rw [h'.queues x hx, h.queues x hx]
  rw [List.mem_append, not_or] at hu
  rw [h'.frame u hu.2 hl' (by simp [hu.1, hlr])]
  exact h.frame u hu.1 (fun hul => (hl u hul).elim hu.2 hl') hlr

/-- A task that is off its chain, in state ready, goes on the ready queue. -/
theorem one (hm : MadeReady k k1 [t]) (hl : Chain k1.next (k1.waitQueues q).task l)
    (hlr : Chain k1.next k1.readyHead lr) (htr : t ∉ lr) (htl : t ∉ l) (hdis : ∀ u ∈ l, u ∉ lr)
    (hq : ∀ x, x ≠ q → k1.waitQueues x = k.waitQueues x) (hframe : ∀ u, u ≠ t → u ∉ l → k1.next u = k.next u)
    (hport : k1.port = k.port) : ∃ k2, rxAddToReadyQ k1 t = .ok (.osOk, k2) ∧ QueueWoken q k k2 [t] l lr := by
  have hrun : (k1.tcb t).state.runnable = true := by
    rw [hm.state]
    simp [TaskState.runnable]
  obtain ⟨k2, hadd, hp2, hq2⟩ := rxAddToReadyQ_spec hlr htr hrun
  have hkeep : ∀ u ∈ l, u ∉ t :: lr := by
    intro u hu hmem
    rcases List.mem_cons.mp hmem with rfl | hmem
    · exact htl hu
    · exact hdis u hu hmem
  refine ⟨k2, hadd, ?_, ?_, hm.relinked hq2.toRelinked, fun x hx => ?_, fun u hu hul hur => ?_, fun hp => ?_⟩
  · rw [hq2.waitQueues]
    exact hl.congr fun u hu => hq2.frame u (hkeep u hu)
  · have hr := hq2.chain
    have hprio := congrFun hm.prio t
    rw [hm.prio, show (k1.tcb t).prio = (k.tcb t).prio from hprio] at hr
    exact hr
  · rw [hq2.waitQueues, hq x hx]
  · have hut : u ≠ t := by simpa using hu
    rw [hq2.frame u (by simp [hut, hur]), hframe u hut hul]
  · rw [hp2, hport]
    exact .inl hp.enter.exit

/-- The first task of the chain is woken. -/
theorem first {b : List (Fin n)} (hl : Chain k.next (k.waitQueues q).task (t :: b)) (hlr : Chain k.next k.readyHead lr)
    (hdis : ∀ u ∈ t :: b, u ∉ lr) :
    ∃ k', rxAddToReadyQ ((k.setState t .ready).setWaitQueue q
        { (k.setState t .ready).waitQueues q with task := b.head? }) t = .ok (.osOk, k') ∧
      QueueWoken q k k' [t] b lr := by
  set k1 := (k.setState t .ready).setWaitQueue q { (k.setState t .ready).waitQueues q with task := b.head? } with hk1
  have hnx : k1.next = k.next := Kernel.next_setState k t .ready
  have hl1 : Chain k1.next (k1.waitQueues q).task b := by
    have htask : (k1.waitQueues q).task = b.head? := by simp [hk1, Kernel.setWaitQueue]
    rw [hnx, htask, ← Seg.head hl.2]
    exact hl.2
  refine one ((MadeReady.setState k t).setWaitQueue q _) hl1 (by rw [hnx]; exact hlr) (hdis t List.mem_cons_self)
    (List.nodup_cons.mp hl.nodup).1 (fun u hu => hdis u (List.mem_cons_of_mem _ hu)) (fun x hx => ?_)
    (fun u _ _ => by rw [hnx]) rfl
  exact Function.update_of_ne hx _ _

/-- A later one is woken; `p` is before it. -/
theorem later {a b : List (Fin n)} {p : Fin n} (hl : Chain k.next (k.waitQueues q).task (a ++ p :: t :: b))
    (hlr : Chain k.next k.readyHead lr) (hdis : ∀ u ∈ a ++ p :: t :: b, u ∉ lr) :
    ∃ k', rxAddToReadyQ ((k.setState t .ready).setNext p ((k.setState t .ready).next t)) t = .ok (.osOk, k') ∧
      QueueWoken q k k' [t] (a ++ p :: b) lr := by
  set k1 := (k.setState t .ready).setNext p ((k.setState t .ready).next t) with hk1
  have hnx : k1.next = Function.update k.next p (k.next t) := by
    rw [hk1, Kernel.next_setNext, Kernel.next_setState]
  have hl1 : Chain k1.next (k1.waitQueues q).task (a ++ p :: b) := by
    rw [hnx]
    exact Chain.removeAfter hl
  have hpr : p ∉ lr := hdis p (by simp)
  have htl : t ∉ a ++ p :: b := by
    have hmid : (a ++ [p] ++ t :: b).Perm (t :: (a ++ [p] ++ b)) := List.perm_middle
    have hnd := hmid.nodup_iff.mp (by simpa using hl.nodup)
    simpa using (List.nodup_cons.mp hnd).1
  have hsub : ∀ u ∈ a ++ p :: b, u ∈ a ++ p :: t :: b := by
    intro u hu
    simp only [List.mem_append, List.mem_cons] at hu ⊢
    tauto
  refine one ((MadeReady.setState k t).relinked (.setNext _ p _)) hl1 (by rw [hnx]; exact hlr.update_of_notMem hpr)
    (hdis t (by simp)) htl (fun u hu => hdis u (hsub u hu)) (fun _ _ => rfl) (fun u _ hu => ?_) rfl
  rw [hnx]
  exact Function.update_of_ne (fun hup => hu (by simp [hup])) _ _

end QueueWoken

section Loop

variable {q : ℕ} {P : Fin n → Bool}

/-- The turn of the loop at a task `t` that may be woken, with `a` before it. -/
theorem wakeLoop_turn {a b : List (Fin n)} {k : Kernel n} {lr : List (Fin n)} {t : Fin n} {o : Option (Fin n)}
    (hl : Chain k.next (k.waitQueues q).task (a ++ t :: b)) (hlr : Chain k.next k.readyHead lr)
    (hdis : ∀ u ∈ a ++ t :: b, u ∉ lr) (ho : ∀ p, a.getLast? = some p → o = some p) (hwake : Wakeable k t) (f : ℕ) :
    ∃ k1 o', wakeLoop q (f + 1) k o (some t) = wakeLoop q f k1 o' b.head? ∧ QueueWoken q k k1 [t] (a ++ b) lr ∧
      ∀ p, a.getLast? = some p → o' = some p := by
  have hhead : ((k.setState t .ready).waitQueues q).task = (a ++ t :: b).head? := Seg.head hl
  have hnx : (k.setState t .ready).next t = b.head? := by
    rw [Kernel.next_setState]
    exact hl.next_eq
  simp only [wakeLoop]
  rw [if_pos (show (k.tcb t).state = .interruptible ∨ _ from hwake)]
  rcases List.eq_nil_or_concat' a with rfl | ⟨a, p, rfl⟩
  · rw [List.nil_append, List.head?_cons] at hhead
    obtain ⟨k1, hadd, h1⟩ := QueueWoken.first hl hlr hdis
    rw [if_pos hhead, hnx, hadd]
    exact ⟨k1, b.head?, rfl, h1, by simp⟩
  · obtain rfl : o = some p := ho p (by simp)
    have hne : ((k.setState t .ready).waitQueues q).task ≠ some t := by
      have hcut : (a ++ [p] ++ t :: b).head? = (a ++ [p]).head? := by cases a <;> rfl
      rw [hhead, hcut]
      exact fun ht => (notMem_of_nodup_append hl.nodup).1 (List.mem_of_head? ht)
    rw [List.append_assoc, List.singleton_append] at hl hdis
    obtain ⟨k1, hadd, h1⟩ := QueueWoken.later hl hlr hdis
    rw [if_neg hne]
    dsimp only
    rw [hadd, hnx]
    exact ⟨k1, some p, rfl, by rwa [List.append_assoc], by simp⟩

/-- The loop of `rx_wake_task_in_the_queue` on the rest `b` of the chain, with
`a` before it: those of `b` that may be woken become ready, in their order. -/
theorem wakeLoop_woken : ∀ {b a : List (Fin n)} {f : ℕ} {k : Kernel n} {lr : List (Fin n)} {o : Option (Fin n)},
    Chain k.next (k.waitQueues q).task (a ++ b) → Chain k.next k.readyHead lr → (∀ t ∈ a ++ b, t ∉ lr) →
    (∀ p, a.getLast? = some p → o = some p) → (∀ t ∈ b, P t = true ↔ Wakeable k t) → b.length ≤ f →
    ∃ k', wakeLoop q f k o b.head? = .ok k' ∧ QueueWoken q k k' (b.filter P) (a ++ b.filter fun t => !P t) lr
  | [], a, f, k, lr, _, hl, hlr, _, _, _, _ => by
    refine ⟨k, by cases f <;> rfl, ?_⟩
    exact .refl hl hlr
  | t :: b, _, 0, _, _, _, _, _, _, _, _, hf => by simp at hf
  | t :: b, a, f + 1, k, lr, o, hl, hlr, hdis, ho, hP, hf => by
    obtain ⟨hta, htb⟩ := notMem_of_nodup_append hl.nodup
    have htl : t ∉ a ++ b := by simp [hta, htb]
    have hb : b.length ≤ f := by simpa using hf
    rw [List.head?_cons]
    by_cases hwake : Wakeable k t
    · have hPt : P t = true := (hP t List.mem_cons_self).mpr hwake
      obtain ⟨k1, o', hturn, h1, ho'⟩ := wakeLoop_turn hl hlr hdis ho hwake f
      rw [hturn, List.filter_cons_of_pos hPt, List.filter_cons_of_neg (by simp [hPt])]
      -- what is left of the chain is judged as before
      have hdis1 : ∀ u ∈ a ++ b, u ∉ readyAll (fun t => (k.tcb t).prio) [t] lr := by
        intro u hu hr
        rcases mem_readyAll.mp hr with hr | hr
        · exact htl (List.mem_singleton.mp hr ▸ hu)
        · refine hdis u ?_ hr
          simp only [List.mem_append, List.mem_cons] at hu ⊢
          tauto
      have hP1 : ∀ u ∈ b, P u = true ↔ Wakeable k1 u := by
        intro u hu
        rw [h1.made.wakeable (by simpa using ne_of_mem_of_not_mem hu htb)]
        exact hP u (List.mem_cons_of_mem _ hu)
      obtain ⟨k', hloop, h'⟩ := wakeLoop_woken h1.chain h1.ready hdis1 ho' hP1 hb
      refine ⟨k', hloop, h1.trans (fun u hu => ?_) h'⟩
      rcases List.mem_append.mp hu with hu | hu
      · exact .inr (List.mem_append_left _ hu)
      · by_cases hPu : P u = true
        · exact .inl (List.mem_filter.mpr ⟨hu, hPu⟩)
        · exact .inr (List.mem_append_right _ (List.mem_filter.mpr ⟨hu, by simpa using hPu⟩))
    · have hPt : ¬ P t = true := fun hp => hwake ((hP t List.mem_cons_self).mp hp)
      have hnx : k.next t = b.head? := hl.next_eq
      have hl' : Chain k.next (k.waitQueues q).task ((a ++ [t]) ++ b) := by simpa using hl
      obtain ⟨k', hloop, h'⟩ := wakeLoop_woken (o := some t) hl' hlr (by simpa using hdis) (by simp)
        (fun u hu => hP u (List.mem_cons_of_mem _ hu)) hb
      rw [wakeLoop, if_neg (show ¬ ((k.tcb t).state = .interruptible ∨ _) from hwake), hnx, List.filter_cons_of_neg hPt,
        List.filter_cons_of_pos (by simpa using hPt)]
      rw [List.append_assoc] at h'
      exact ⟨k', hloop, h'⟩

/-- `rx_wake_task_in_the_queue` ends on any chain that is apart from the ready
queue. -/
theorem rxWakeTaskInTheQueue_woken {k : Kernel n} {l lr : List (Fin n)} (hl : Chain k.next (k.waitQueues q).task l)
    (hlr : Chain k.next k.readyHead lr) (hdis : ∀ t ∈ l, t ∉ lr) (hP : ∀ t ∈ l, P t = true ↔ Wakeable k t) :
    ∃ k', rxWakeTaskInTheQueue k q = .ok k' ∧ QueueWoken q k k' (l.filter P) (l.filter fun t => !P t) lr := by
  have hlen := hl.length_le_fin
  obtain ⟨k', he, h⟩ := wakeLoop_woken (a := []) (o := l.head?) hl hlr hdis (by simp) hP hlen
  refine ⟨k', ?_, h⟩
  rw [rxWakeTaskInTheQueue, Seg.head hl]
  exact he

/-- The tasks `ts` are on the ready queue `lr'`, put there one after another. -/
structure ReadiedInOrder (prio : Fin n → ℤ) (ts lr lr' : List (Fin n)) : Prop where
  eq : lr' = readyAll prio ts lr
  once : lr'.Perm (ts ++ lr)
  sorted : lr'.Pairwise fun a b => prio a ≤ prio b
  order : ∀ p, lr'.filter (fun t => prio t = p) = lr.filter (fun t => prio t = p) ++ ts.filter fun t => prio t = p

theorem readiedInOrder {prio : Fin n → ℤ} {lr : List (Fin n)} (ts : List (Fin n))
    (hs : lr.Pairwise fun a b => prio a ≤ prio b) : ReadiedInOrder prio ts lr (readyAll prio ts lr) :=
  ⟨rfl, readyAll_perm prio ts lr, readyAll_sorted ts hs, fun p => readyAll_filter_prio p ts hs⟩

/-- **The call wakes whom it may.** On any chain that is apart from the sorted
ready queue it leaves the tasks that are neither interruptible nor timed out,
and puts the others on the ready queue, each once, in the order of the chain. -/
theorem rxWakeTaskInTheQueue_wakes {k : Kernel n} {l lr : List (Fin n)} (hl : Chain k.next (k.waitQueues q).task l)
    (hlr : Chain k.next k.readyHead lr) (hs : lr.Pairwise fun a b => (k.tcb a).prio ≤ (k.tcb b).prio)
    (hdis : ∀ t ∈ l, t ∉ lr) :
    ∃ k' lr', rxWakeTaskInTheQueue k q = .ok k' ∧
      Chain k'.next (k'.waitQueues q).task (l.filter fun t => ¬ Wakeable k t) ∧ Chain k'.next k'.readyHead lr' ∧
      ReadiedInOrder (fun t => (k.tcb t).prio) (l.filter fun t => Wakeable k t) lr lr' ∧
      MadeReady k k' (l.filter fun t => Wakeable k t) := by
  obtain ⟨k', he, h⟩ := rxWakeTaskInTheQueue_woken (P := fun t => decide (Wakeable k t)) hl hlr hdis
    fun _ _ => decide_eq_true_iff
  refine ⟨k', _, he, ?_, h.ready, readiedInOrder _ hs, h.made⟩
  simpa only [decide_not] using h.chain

end Loop

/-- Tasks `a`, `b` and `c` wait on a queue: `a` is interruptible and `c` has timed
out. Task `r` is ready. -/
def threeOnQueue (a b c r : Fin n) : Kernel n where
  tcb t :=
    { state := if t = a then .interruptible else if t = r then .ready else .uninterruptible
      timeout := if t = c then OsErr.eOsTimeout.code else 5
      prio := 1
      next := if t = a then some b else if t = b then some c else none }
  curr := r
  readyHead := some r
  waitQueues _ := { task := some a }

/-- `a` and `c` go behind `r`, and `b` stays. -/
theorem threeOnQueue_wakes : ∃ k' lr', rxWakeTaskInTheQueue (threeOnQueue (n := 4) 0 1 2 3) 0 = .ok k' ∧
    Chain k'.next (k'.waitQueues 0).task [1] ∧ Chain k'.next k'.readyHead lr' ∧ lr' = [3, 0, 2] ∧
    (k'.tcb 0).state = .ready ∧ (k'.tcb 2).state = .ready := by
  have hready : Chain (threeOnQueue (n := 4) 0 1 2 3).next (threeOnQueue (n := 4) 0 1 2 3).readyHead [3] := ⟨rfl, rfl⟩
  have hwait : Chain (threeOnQueue (n := 4) 0 1 2 3).next ((threeOnQueue (n := 4) 0 1 2 3).waitQueues 0).task
      [0, 1, 2] :=
    ⟨rfl, rfl, rfl, rfl⟩
  obtain ⟨k', lr', he, hl, hr, ho, hm⟩ := rxWakeTaskInTheQueue_wakes hwait hready (by decide) (by decide)
  exact ⟨k', lr', he, hl, hr, ho.eq, hm.state 0, hm.state 2⟩

/-! ### The chains of all queues -/

section Lists

variable {e k k' : Kernel n} {lr : List (Fin n)} {w : ι → Option (Fin n)} {lw : ι → List (Fin n)}

/-- Only the links and the head of the ready queue matter. -/
theorem Lists.of_links (h : Lists e k lr w lw) (hnx : k'.next = k.next) (hr : k'.readyHead = k.readyHead)
    (hp : k'.port.Task) : Lists k' k' lr w lw := by
  refine ⟨Relinked.refl k', hp, ?_, fun i => ?_, h.notReady, h.apart⟩
  · rw [hnx, hr]
    exact h.ready
  · rw [hnx]
    exact h.wait i

end Lists

/-- The ready queue is `lr` and the chains are `lw`, that of wait queue `q` at
the place `pl q`. -/
structure WaitsAt (pl : ℕ → ι) (k : Kernel n) (lr : List (Fin n)) (lw : ι → List (Fin n)) : Prop where
  lists : Lists k k lr (fun i => (lw i).head?) lw
  task : ∀ q, (k.waitQueues q).task = (lw (pl q)).head?

section Places

variable [DecidableEq ι] {pl : ℕ → ι} {k k' : Kernel n} {lr : List (Fin n)} {lw : ι → List (Fin n)} {q : ℕ}

theorem head_update (lw : ι → List (Fin n)) (i : ι) (l : List (Fin n)) :
    (fun j => (Function.update lw i l j).head?) = Function.update (fun j => (lw j).head?) i l.head? := by
  funext j
  by_cases hj : j = i
  · subst hj
    simp
  · simp [hj]

/-- The chain of `q` is replaced, and its head with it. -/
theorem WaitsAt.setTask (hpl : Function.Injective pl) (h : WaitsAt pl k lr lw) {l : List (Fin n)}
    (hk : k'.waitQueues = Function.update k.waitQueues q { k.waitQueues q with task := l.head? }) (x : ℕ) :
    (k'.waitQueues x).task = (Function.update lw (pl q) l (pl x)).head? := by
  rw [hk]
  by_cases hx : x = q
  · subst hx
    simp
  · rw [Function.update_of_ne hx, Function.update_of_ne fun he => hx (hpl he)]
    exact h.task x

/-- Waking at one place leaves the other places alone. -/
theorem WaitsAt.woken (hpl : Function.Injective pl) (h : WaitsAt pl k lr lw) {P : Fin n → Bool}
    (hw : QueueWoken q k k' ((lw (pl q)).filter P) ((lw (pl q)).filter fun t => !P t) lr) :
    WaitsAt pl k' (readyAll (fun u => (k.tcb u).prio) ((lw (pl q)).filter P) lr)
      (Function.update lw (pl q) ((lw (pl q)).filter fun t => !P t)) := by
  -- the tasks of a chain are not woken, and were on the same chain before
  have hmem : ∀ i, ∀ t ∈ Function.update lw (pl q) ((lw (pl q)).filter fun t => !P t) i,
      t ∈ lw i ∧ (i = pl q → P t = false) := by
    intro i t ht
    by_cases hi : i = pl q
    · subst hi
      rw [Function.update_self, List.mem_filter] at ht
      exact ⟨ht.1, fun _ => by simpa using ht.2⟩
    · rw [Function.update_of_ne hi] at ht
      exact ⟨ht, fun h => absurd h hi⟩
  have hchain : ∀ i, Chain k'.next (Function.update lw (pl q) ((lw (pl q)).filter fun t => !P t) i).head?
      (Function.update lw (pl q) ((lw (pl q)).filter fun t => !P t) i) := by
    intro i
    by_cases hi : i = pl q
    · subst hi
      rw [Function.update_self, ← Seg.head hw.chain]
      exact hw.chain
    · rw [Function.update_of_ne hi]
      refine (h.lists.wait i).congr fun t ht => ?_
      have hout : t ∉ lw (pl q) := fun hq => hi (h.lists.apart i _ t ht hq)
      exact hw.frame t (fun hc => hout (List.mem_of_mem_filter hc)) (fun hc => hout (List.mem_of_mem_filter hc))
        (h.lists.notReady i t ht)
  refine ⟨⟨.refl k', hw.port h.lists.port, hw.ready, hchain, fun i t ht hr => ?_, fun i j t hti htj => ?_⟩, fun x => ?_⟩
  · obtain ⟨hti, hP⟩ := hmem i t ht
    rcases mem_readyAll.mp hr with hr | hr
    · obtain ⟨htq, hPt⟩ := List.mem_filter.mp hr
      rw [hP (h.lists.apart i _ t hti htq)] at hPt
      cases hPt
    · exact h.lists.notReady i t hti hr
  · exact h.lists.apart i j t (hmem i t hti).1 (hmem j t htj).1
  · by_cases hx : x = q
    · subst hx
      rw [Function.update_self]
      exact Seg.head hw.chain
    · rw [hw.queues x hx, Function.update_of_ne fun he => hx (hpl he)]
      exact h.task x

theorem rxWakeTaskInTheQueue_spec (hpl : Function.Injective pl) (h : WaitsAt pl k lr lw) {P : Fin n → Bool}
    (hP : ∀ t ∈ lw (pl q), P t = true ↔ Wakeable k t) :
    ∃ k', rxWakeTaskInTheQueue k q = .ok k' ∧
      WaitsAt pl k' (readyAll (fun u => (k.tcb u).prio) ((lw (pl q)).filter P) lr)
        (Function.update lw (pl q) ((lw (pl q)).filter fun t => !P t)) ∧
      MadeReady k k' ((lw (pl q)).filter P) ∧ SameList k k' := by
  have hl := h.lists.wait (pl q)
  rw [← h.task] at hl
  obtain ⟨k', he, hw⟩ := rxWakeTaskInTheQueue_woken hl h.lists.ready (h.lists.notReady (pl q)) hP
  exact ⟨k', he, h.woken hpl hw, hw.made, wakeLoop_sameList he⟩

/-- The loop of `rx_wakeup` empties the chain. -/
theorem wakeAll_spec (i : ι) : ∀ {l : List (Fin n)} {f : ℕ} {k : Kernel n} {lr : List (Fin n)} {w : ι → Option (Fin n)}
    {lw : ι → List (Fin n)}, Lists k k lr w lw → lw i = l → l.length ≤ f → ∃ k', wakeAll f k l.head? = .ok k' ∧
      Lists k' k' (readyAll (fun u => (k.tcb u).prio) l lr) (Function.update w i none) (Function.update lw i []) ∧
      MadeReady k k' l ∧ k'.waitQueues = k.waitQueues ∧ k'.sysWaitList = k.sysWaitList
  | [], f, k, lr, w, lw, h, hl, _ => by
    refine ⟨k, by cases f <;> rfl, ?_, MadeReady.refl k, rfl, rfl⟩
    have hw : w i = none := by
      have := Seg.head (h.wait i)
      rwa [hl] at this
    show Lists k k lr _ _
    rw [← hw, ← hl, Function.update_eq_self, Function.update_eq_self]
    exact h
  | t :: l, 0, _, _, _, _, _, _, hf => by simp at hf
  | t :: l, f + 1, k, lr, w, lw, h, hl, hf => by
    obtain ⟨-, hnx, htr, htw, h1⟩ := (h.setState t .ready).popWaiter i hl
    obtain ⟨k1, hadd, h2⟩ := h1.addReady htr htw (by rw [state_setState, if_pos rfl]; rfl)
    have hw1 : MadeReady k k1 [t] := (MadeReady.setState k t).relinked h2.data
    obtain ⟨k2, hall, h3, hw2, hq, hs⟩ := wakeAll_spec i h2.self (Function.update_self ..) (by simpa using hf)
    have hp := (MadeReady.setState k t).prio
    rw [Function.update_idem, Function.update_idem, hw1.prio, hp,
      show ((k.setState t .ready).tcb t).prio = (k.tcb t).prio from congrFun hp t] at h3
    refine ⟨k2, ?_, h3, hw1.trans hw2, hq.trans h2.data.waitQueues, hs.trans h2.data.sysWaitList⟩
    show (rxAddToReadyQ (k.setState t .ready) t >>= fun x => wakeAll f x.2 ((k.setState t .ready).next t)) = _
    rw [hadd, hnx]
    exact hall

end Places

end Rosx
