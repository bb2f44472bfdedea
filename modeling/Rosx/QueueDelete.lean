/-
# The deletion of a queue that tasks wait on

`rx_delete_queue` makes every task ready that waits to write to the queue or to
read from it, but it does not tell them: no `err` is set to `E_OS_Q_DEL`, and
the reader stays in `mq->read_task`. A woken call without a timeout finds no
error and copies; one with a timeout looks at the queue, which a writer may
still find full.

The timers of the tasks are stopped one by one. The deletion follows a NULL link
if one of them is the last of several armed timers then; of all the waiting
tasks, this can only be the one whose timer expires last (`TimersGo`).

After the deletion the woken calls go on in any order, and nobody else uses the
queue. `deleteOK_iff` says when each of them returns an error and leaves the
queue alone.

Key definitions: `AtQueue`, `TimersGo`, `Released`, `WokenStep`, `DeleteOK`.
Key theorems: `rxDeleteQueue_spec`, `deleteOK_iff`.
-/
import Rosx.QueueRun
import Rosx.QueueWait
import Rosx.Mutex

namespace Rosx

open Linked

variable {n : ℕ} {ι : Type}

/-! ### What the deletion does -/

/-- The tasks `ts` have become ready; the ring, and what each call is told, are
the same. -/
structure Freed (m : ℕ) (ts : List (Fin n)) (k k' : Kernel n) : Prop where
  state : ∀ u, (k'.tcb u).state = if ts.contains u then .ready else (k.tcb u).state
  err : ∀ u, (k'.tcb u).err = (k.tcb u).err
  ring : SameRing m k k'
  reader : (k'.queues m).readTask = (k.queues m).readTask

namespace Freed

variable {m : ℕ} {ts us : List (Fin n)} {k k' k'' : Kernel n}

theorem refl (k : Kernel n) : Freed m [] k k := ⟨fun _ => rfl, fun _ => rfl, .refl k, rfl⟩

theorem trans (h : Freed m ts k k') (h' : Freed m us k' k'') : Freed m (ts ++ us) k k'' := by
  refine ⟨fun u => ?_, fun u => (h'.err u).trans (h.err u), h.ring.trans h'.ring, h'.reader.trans h.reader⟩
  rw [h'.state, h.state, List.contains_append]
  by_cases hu : us.contains u = true
  · rw [hu, if_pos rfl, Bool.or_true, if_pos rfl]
  · rw [if_neg hu, Bool.eq_false_iff.mpr hu, Bool.or_false]

end Freed

section Timer

variable (k : Kernel n) (t u : Fin n)

theorem OffQueue.taskTimerStopped : OffQueue k (taskTimerStopped k t) := by
  unfold Rosx.taskTimerStopped Kernel.timerStopped
  cases (k.tcb t).timer with
  | none => exact .refl k
  | some tm =>
    dsimp only
    split_ifs <;> exact ⟨rfl, rfl, rfl⟩

/-- Stopping a task's timer leaves the rest of it. -/
theorem taskTimerStopped_keeps {β : Type*} (g : Tcb n → β) (hg : ∀ c, g { c with timer := none } = g c) :
    g ((taskTimerStopped k t).tcb u) = g (k.tcb u) := by
  unfold taskTimerStopped
  cases (k.tcb t).timer with
  | none => rfl
  | some tm =>
    refine ((k.timerStopped tm).modTcb_keeps t u g hg).trans ?_
    unfold Kernel.timerStopped
    split_ifs <;> rfl

end Timer

/-! ### The timers of the tasks -/

/-- The timers of the tasks `ts`, in order. -/
def timersOf (k : Kernel n) (ts : List (Fin n)) : List ℕ := ts.filterMap fun t => (k.tcb t).timer

/-- Each of the tasks `ts` that has a timer has one of its own, which is armed. -/
structure TimersArmed (k : Kernel n) (ts : List (Fin n)) : Prop where
  nodup : k.active.Nodup
  own : (timersOf k ts).Nodup
  armed : ∀ tm ∈ timersOf k ts, tm ∈ k.active ∧ (k.timers tm).enabled = true

/-- They can be stopped one after the other. -/
def CanStopAll (k : Kernel n) (ts : List (Fin n)) : Prop := CanRemoveAll k.active (timersOf k ts)

/-- The armed timer that expires last is not one of the tasks `ts`; or it is the
last task's, and no other task's timer is armed. -/
def TimersGo (k : Kernel n) (ts : List (Fin n)) : Prop :=
  ∀ z, k.active.getLast? = some z → z ∈ timersOf k ts →
    (timersOf k ts).getLast? = some z ∧ ∀ a ∈ k.active, a ∈ timersOf k ts

section Timers

variable {k k' : Kernel n} {t : Fin n} {ts : List (Fin n)}

theorem TimersArmed.canStopAll_iff (h : TimersArmed k ts) : CanStopAll k ts ↔ TimersGo k ts :=
  canRemoveAll_iff h.nodup h.own fun tm htm => (h.armed tm htm).1

theorem timersOf_congr (h : ∀ t ∈ ts, (k'.tcb t).timer = (k.tcb t).timer) : timersOf k' ts = timersOf k ts :=
  List.filterMap_congr h

theorem TimersArmed.congr (h : TimersArmed k ts) (hact : k'.active = k.active) (htim : k'.timers = k.timers)
    (htmr : ∀ t, (k'.tcb t).timer = (k.tcb t).timer) : TimersArmed k' ts := by
  have hof : timersOf k' ts = timersOf k ts := timersOf_congr fun t _ => htmr t
  refine ⟨hact ▸ h.nodup, hof ▸ h.own, fun tm htm => ?_⟩
  rw [hact, htim]
  exact h.armed tm (hof ▸ htm)

theorem canStopAll_congr (hact : k'.active = k.active) (htmr : ∀ t, (k'.tcb t).timer = (k.tcb t).timer) :
    CanStopAll k' ts ↔ CanStopAll k ts := by
  unfold CanStopAll
  rw [hact, timersOf_congr fun t _ => htmr t]

theorem taskTimerStopped_timer (k : Kernel n) (t u : Fin n) :
    ((taskTimerStopped k t).tcb u).timer = if u = t then none else (k.tcb u).timer := by
  unfold taskTimerStopped
  cases ht : (k.tcb t).timer with
  | none =>
    by_cases hu : u = t
    · rw [if_pos hu, hu]
      exact ht
    · rw [if_neg hu]
  | some tm =>
    by_cases hu : u = t
    · subst hu
      simp
    · simp [Kernel.modTcb_of_ne _ hu, hu]

/-- The first task's timer is stopped: the others' can be stopped after it if
all of them can. -/
theorem TimersArmed.stop (h : TimersArmed k (t :: ts)) (ht : t ∉ ts) : TimersArmed (taskTimerStopped k t) ts ∧
    (CanStopAll k (t :: ts) ↔ Stoppable k t ∧ CanStopAll (taskTimerStopped k t) ts) := by
  have hof : timersOf (taskTimerStopped k t) ts = timersOf k ts := timersOf_congr fun u hu => by
    rw [taskTimerStopped_timer, if_neg (ne_of_mem_of_not_mem hu ht)]
  unfold CanStopAll
  rw [hof]
  cases htm : (k.tcb t).timer with
  | none =>
    have hcons : timersOf k (t :: ts) = timersOf k ts := List.filterMap_cons_none htm
    have hstop : taskTimerStopped k t = k := by
      unfold taskTimerStopped
      rw [htm]
    have hst : Stoppable k t := fun tm hs => by
      rw [htm] at hs
      cases hs
    rw [hcons, hstop]
    exact ⟨⟨h.nodup, hcons ▸ h.own, hcons ▸ h.armed⟩, fun hall => ⟨hst, hall⟩, fun hall => hall.2⟩
  | some tm =>
    have hcons : timersOf k (t :: ts) = tm :: timersOf k ts := List.filterMap_cons_some htm
    obtain ⟨hact, hen⟩ := h.armed tm (by rw [hcons]; exact List.mem_cons_self)
    have hown := h.own
    rw [hcons] at hown ⊢
    obtain ⟨htms, hown⟩ := List.nodup_cons.mp hown
    have hactive : (taskTimerStopped k t).active = k.active.erase tm := by
      unfold taskTimerStopped Kernel.timerStopped
      rw [htm]
      dsimp only
      rw [if_pos hen]
      rfl
    have hflag : ∀ x, x ≠ tm → (taskTimerStopped k t).timers x = k.timers x := by
      intro x hx
      unfold taskTimerStopped Kernel.timerStopped
      rw [htm]
      dsimp only
      rw [if_pos hen]
      exact Function.update_of_ne hx _ _
    have hst : Stoppable k t ↔ CanRemove k.active tm := by
      refine ⟨fun hs => hs tm htm hen, fun hc x hx _ => ?_⟩
      obtain rfl := Option.some.inj (htm.symm.trans hx)
      exact hc
    refine ⟨⟨hactive ▸ h.nodup.erase tm, hof ▸ hown, fun x hx => ?_⟩, ?_⟩
    · rw [hof] at hx
      have hne : x ≠ tm := ne_of_mem_of_not_mem hx htms
      obtain ⟨hxa, hxe⟩ := h.armed x (by rw [hcons]; exact List.mem_cons_of_mem _ hx)
      rw [hactive, hflag x hne]
      exact ⟨(List.mem_erase_of_ne hne).mpr hxa, hxe⟩
    · rw [CanRemoveAll, hactive, hst]

end Timers

/-! ### The loop over the waiting tasks -/

section Delete

variable {k : Kernel n} {lr : List (Fin n)} {w : ι → Option (Fin n)} {lw : ι → List (Fin n)} {m : ℕ} {t : Fin n}

/-- The kernel once the deletion has taken `t` out of its wait, and before `t` is on the ready queue. -/
def deleted (k : Kernel n) (t : Fin n) : Kernel n :=
  (taskTimerStopped k t).modTcb t fun c => { c with state := .ready, mq := none }

theorem Lists.deleted (h : Lists k k lr w lw) (t : Fin n) : Lists (deleted k t) (deleted k t) lr w lw :=
  (taskTimerStopped_spec h t).self.modTcb t fun _ _ => rfl

theorem deleted_freed (k : Kernel n) (m : ℕ) (t : Fin n) : Freed m [t] k (deleted k t) := by
  set f : Tcb n → Tcb n := fun c => { c with state := .ready, mq := none } with hf
  have hoff := OffQueue.taskTimerStopped k t
  refine ⟨fun u => ?_, fun u => ?_, .of_off ⟨hoff.queues, hoff.mem, hoff.copies⟩, ?_⟩
  · have hst : ((deleted k t).tcb u).state = if u = t then .ready else ((taskTimerStopped k t).tcb u).state :=
      state_modTcb _ t (fun _ => rfl) u
    rw [hst, taskTimerStopped_keeps k t u Tcb.state fun _ => rfl]
    simp
  · exact ((taskTimerStopped k t).modTcb_keeps t u (f := f) Tcb.err fun _ => rfl).trans
      (taskTimerStopped_keeps k t u Tcb.err fun _ => rfl)
  · show ((taskTimerStopped k t).queues m).readTask = _
    rw [hoff.queues]

theorem Freed.relinked {k' k'' : Kernel n} {ts : List (Fin n)} (h : Freed m ts k k') (h' : Relinked k' k'') :
    Freed m ts k k'' := by
  refine ⟨fun u => ?_, fun u => ?_, h.ring.trans (.of_off (.of_relinked h')), ?_⟩
  · rw [h'.state, h.state]
  · rw [h'.err, h.err]
  · rw [h'.queues, h.reader]

theorem deleted_writeTask : ((deleted k t).queues m).writeTask = (k.queues m).writeTask := by
  show ((taskTimerStopped k t).queues m).writeTask = _
  rw [(OffQueue.taskTimerStopped k t).queues]

/-- Apart from the timer, nothing that concerns timers changes. -/
theorem deleted_timers (k : Kernel n) (t : Fin n) : (deleted k t).active = (taskTimerStopped k t).active ∧
    (deleted k t).timers = (taskTimerStopped k t).timers ∧
    ∀ u, ((deleted k t).tcb u).timer = ((taskTimerStopped k t).tcb u).timer :=
  ⟨rfl, rfl, fun u => (taskTimerStopped k t).modTcb_keeps t u Tcb.timer fun _ => rfl⟩

/-- The first writer becomes ready, and its timer is stopped. -/
theorem deleteWriter_spec [DecidableEq ι] {i : ι} {l : List (Fin n)} (h : Lists k k lr w lw) (hi : lw i = t :: l)
    (hs : Stoppable k t) :
    ∃ k' lr', deleteWriter m k t = .ok k' ∧ (∀ u, u ∈ lr' ↔ u = t ∨ u ∈ lr) ∧
      Lists k' k' lr' (Function.update w i l.head?) (Function.update lw i l) ∧ Freed m [t] k k' ∧
      (k'.queues m).writeTask = l.head? ∧ k'.active = (taskTimerStopped k t).active ∧
      k'.timers = (taskTimerStopped k t).timers ∧
      ∀ u, (k'.tcb u).timer = ((taskTimerStopped k t).tcb u).timer := by
  obtain ⟨hact, htim, htmr⟩ := deleted_timers k t
  set k1 := deleted k t with hk1
  obtain ⟨-, hnx, htr, htw, h1⟩ := (h.deleted t).popWaiter i hi
  set c : MsgQueue n := { k1.queues m with writeTask := l.head? } with hc
  have h2 : Lists (k1.setQueue m c) (k1.setQueue m c) lr _ _ := h1.setQueue m c
  have hfreed := deleted_freed k m t
  have hrun : ((k1.setQueue m c).tcb t).state.runnable = true := by
    rw [Kernel.setQueue_tcb, hfreed.state]
    simp
  obtain ⟨k2, hadd, h3⟩ := h2.addReady htr htw hrun
  have hset : Freed m [t] k (k1.setQueue m c) := by
    refine ⟨hfreed.state, hfreed.err, hfreed.ring.trans (.setQueue k1 ?_), ?_⟩
    · rfl
    · rw [Kernel.setQueue_queues, hc]
      exact hfreed.reader
  refine ⟨k2, _, ?_, fun u => mem_insertReady, h3.self, hset.relinked h3.data, ?_, h3.data.active.trans hact,
    h3.data.timers.trans htim, fun u => (h3.data.timer u).trans (htmr u)⟩
  · have hnx' : (k1.tcb t).next = l.head? := hnx
    unfold deleteWriter
    rw [stopTaskTimer_of_stoppable hs]
    show (rxAddToReadyQ (k1.setQueue m { k1.queues m with writeTask := (k1.tcb t).next }) t >>= _) = _
    rw [hnx', hadd]
    rfl
  · rw [h3.data.queues, Kernel.setQueue_queues]

theorem deleteWriter_fault (hs : ¬ Stoppable k t) : deleteWriter m k t = .error .null := by
  unfold deleteWriter
  rw [stopTaskTimer_of_not_stoppable hs]
  rfl

/-- The loop makes all the writers ready, or follows a NULL link; `rs` are the
tasks whose timers are stopped after it. -/
theorem deleteWriters_spec [DecidableEq ι] {i : ι} {rs : List (Fin n)} : ∀ {l : List (Fin n)} {f : ℕ} {k : Kernel n}
    {lr : List (Fin n)} {w : ι → Option (Fin n)} {lw : ι → List (Fin n)}, Lists k k lr w lw → lw i = l →
    (k.queues m).writeTask = l.head? → l.length < f → (l ++ rs).Nodup → TimersArmed k (l ++ rs) →
    (∃ k' lr', drainLoop (fun k => (k.queues m).writeTask) (deleteWriter m) f k = .ok k' ∧
      (∀ u, u ∈ lr' ↔ u ∈ l ∨ u ∈ lr) ∧ Lists k' k' lr' (Function.update w i none) (Function.update lw i []) ∧
      Freed m l k k' ∧ (k'.queues m).writeTask = none ∧ TimersArmed k' rs ∧
      (CanStopAll k (l ++ rs) ↔ CanStopAll k' rs)) ∨
    (¬ CanStopAll k (l ++ rs) ∧
      drainLoop (fun k => (k.queues m).writeTask) (deleteWriter m) f k = .error .null)
  | _, 0, _, _, _, _, _, _, _, hf, _, _ => absurd hf (Nat.not_lt_zero _)
  | [], f + 1, k, lr, w, lw, h, hi, hw, _, _, ha => by
    have hnone : w i = none := by
      have := h.wait i
      rwa [hi] at this
    refine Or.inl ⟨k, lr, ?_, by simp, ?_, .refl k, hw, ha, Iff.rfl⟩
    · simp only [drainLoop, hw, List.head?_nil]
    · rw [← hnone, ← hi, Function.update_eq_self, Function.update_eq_self]
      exact h
  | t :: l, f + 1, k, lr, w, lw, h, hi, hw, hf, hnd, ha => by
    rw [List.cons_append] at hnd ha
    obtain ⟨htl, hnd⟩ := List.nodup_cons.mp hnd
    obtain ⟨ha1, hall⟩ := ha.stop htl
    have hloop : drainLoop (fun k => (k.queues m).writeTask) (deleteWriter m) (f + 1) k =
        deleteWriter m k t >>= drainLoop (fun k => (k.queues m).writeTask) (deleteWriter m) f := by
      simp only [drainLoop, hw, List.head?_cons]
    rw [hloop, List.cons_append, hall]
    by_cases hs : Stoppable k t
    · obtain ⟨k1, lr1, he1, hm1, h1, hf1, hw1, hact, htim, htmr⟩ := deleteWriter_spec (m := m) h hi hs
      rw [he1]
      show (∃ k' lr', drainLoop _ _ f k1 = .ok k' ∧ _) ∨ _ ∧ drainLoop _ _ f k1 = _
      rcases deleteWriters_spec h1 (Function.update_self i l lw) hw1 (Nat.lt_of_succ_lt_succ hf) hnd
        (ha1.congr hact htim htmr) with ⟨k2, lr2, he2, hm2, h2, hf2, hw2, ha2, hiff⟩ | ⟨hno, he2⟩
      · rw [Function.update_idem, Function.update_idem] at h2
        refine Or.inl ⟨k2, lr2, he2, fun u => ?_, h2, hf1.trans hf2, hw2, ha2, ?_⟩
        · rw [hm2, hm1, List.mem_cons, or_left_comm, or_assoc]
        · rw [← hiff, canStopAll_congr hact htmr]
          exact ⟨fun hc => hc.2, fun hc => ⟨hs, hc⟩⟩
      · rw [canStopAll_congr hact htmr] at hno
        exact Or.inr ⟨fun hc => hno hc.2, he2⟩
    · rw [deleteWriter_fault hs]
      exact Or.inr ⟨fun hc => hs hc.1, rfl⟩

/-- The reader becomes ready, and stays in `read_task`; or stopping its timer
follows a NULL link. -/
theorem deleteReader_spec (h : Lists k k lr w lw) (ht : ∀ t, (k.queues m).readTask = some t → t ∉ lr ∧ ∀ i, t ∉ lw i)
    (ha : TimersArmed k (k.queues m).readTask.toList) :
    (CanStopAll k (k.queues m).readTask.toList ∧
      ∃ k' lr', deleteReader m k = .ok k' ∧ (∀ u, u ∈ lr' ↔ u ∈ (k.queues m).readTask.toList ∨ u ∈ lr) ∧
      Chain k'.next k'.readyHead lr' ∧ Freed m (k.queues m).readTask.toList k k' ∧
      (k'.queues m).writeTask = (k.queues m).writeTask) ∨
    (¬ CanStopAll k (k.queues m).readTask.toList ∧ deleteReader m k = .error .null) := by
  unfold deleteReader
  cases hr : (k.queues m).readTask with
  | none => exact Or.inl ⟨trivial, k, lr, rfl, by simp, h.ready, .refl k, rfl⟩
  | some t =>
    obtain ⟨htr, htw⟩ := ht t hr
    have ha' : TimersArmed k [t] := by
      rw [hr] at ha
      exact ha
    obtain ⟨-, hiff⟩ := ha'.stop List.not_mem_nil
    rw [show (some t).toList = [t] from rfl, hiff]
    dsimp only
    by_cases hs : Stoppable k t
    · have hfreed := deleted_freed k m t
      obtain ⟨k2, hadd, h2⟩ := (h.deleted t).addReady htr htw (by rw [hfreed.state]; simp)
      refine Or.inl ⟨⟨hs, trivial⟩, k2, _, ?_, fun u => ?_, h2.ready, hfreed.relinked h2.data, ?_⟩
      · rw [stopTaskTimer_of_stoppable hs]
        show (rxAddToReadyQ (deleted k t) t >>= _) = _
        rw [hadd]
        rfl
      · rw [mem_insertReady]
        simp
      · rw [h2.data.queues, deleted_writeTask]
    · refine Or.inr ⟨fun hc => hs hc.1, ?_⟩
      rw [stopTaskTimer_of_not_stoppable hs]
      rfl

end Delete

/-- The tasks that wait on the queue. -/
def waiters (m : ℕ) (s : QueueSys n) (lw : List (Fin n)) : List (Fin n) := lw ++ (s.k.queues m).readTask.toList

/-- `lr` is ready and `lw` waits to write. The task that waits to read is on
neither list; each that waits has its call pending, and an `err` of `OS_OK`.
The timers of those that have one are armed. -/
structure AtQueue (m : ℕ) (s : QueueSys n) (lr lw : List (Fin n)) : Prop where
  waiting : Waiting s.k lr (fun _ : Unit => (s.k.queues m).writeTask) (fun _ => lw)
  writers : ∀ t ∈ lw, (∃ msg timed, s.phase t = .writing msg timed) ∧ (s.k.tcb t).err = .osOk
  reader : ∀ t, (s.k.queues m).readTask = some t → t ∉ lr ∧ t ∉ lw ∧ ∃ timed, s.phase t = .reading timed
  armed : TimersArmed s.k (waiters m s lw)

theorem AtQueue.nodup {m : ℕ} {s : QueueSys n} {lr lw : List (Fin n)} (h : AtQueue m s lr lw) :
    (waiters m s lw).Nodup := by
  have hlw : lw.Nodup := (h.waiting.lists.wait ()).nodup
  unfold waiters
  cases hr : (s.k.queues m).readTask with
  | none => simpa using hlw
  | some t =>
    have ht := (h.reader t hr).2.1
    exact List.nodup_append.mpr ⟨hlw, List.nodup_singleton t, fun a ha b hb => by
      obtain rfl := List.mem_singleton.mp hb
      exact ne_of_mem_of_not_mem ha ht⟩

/-- The deletion makes all that wait ready, if their timers can be stopped. -/
theorem rxDeleteQueue_spec {m : ℕ} {s : QueueSys n} {lr lw : List (Fin n)} (h : AtQueue m s lr lw) :
    (TimersGo s.k (waiters m s lw) ∧
      ∃ k' lr', rxDeleteQueue s.k m = .ok (.osOk, k') ∧ Chain k'.next k'.readyHead lr' ∧
      (∀ u, u ∈ lr' ↔ u ∈ waiters m s lw ∨ u ∈ lr) ∧ Freed m (waiters m s lw) s.k k' ∧
      (k'.queues m).writeTask = none) ∨
    (¬ TimersGo s.k (waiters m s lw) ∧ rxDeleteQueue s.k m = .error .null) := by
  have hl := h.waiting.lists.enter.self
  have hw : (s.k.queues m).writeTask = lw.head? := Seg.head (hl.wait ())
  have hlen : lw.length < n + 1 := by
    have hle := (hl.wait ()).length_le_fin
    exact Nat.lt_succ_of_le hle
  have ha : TimersArmed s.k.enterCritical (waiters m s lw) := h.armed.congr rfl rfl fun _ => rfl
  rw [← h.armed.canStopAll_iff]
  unfold rxDeleteQueue
  rcases deleteWriters_spec (i := ()) (m := m) hl rfl hw hlen h.nodup ha with
    ⟨k1, lr1, he1, hm1, h1, hf1, hw1, ha1, hiff⟩ | ⟨hno, he1⟩
  · have hread : ∀ t, (k1.queues m).readTask = some t →
        t ∉ lr1 ∧ ∀ i, t ∉ Function.update (fun _ : Unit => lw) () [] i := by
      intro t ht
      rw [hf1.reader] at ht
      obtain ⟨hr, hw, -⟩ := h.reader t ht
      refine ⟨fun hc => ?_, fun i => by simp⟩
      rcases (hm1 t).mp hc with hc | hc
      · exact hw hc
      · exact hr hc
    have hread1 : (k1.queues m).readTask = (s.k.queues m).readTask := hf1.reader
    have hcan : CanStopAll s.k (waiters m s lw) ↔ CanStopAll k1 (s.k.queues m).readTask.toList := hiff
    rw [he1, hcan, ← hread1]
    rcases deleteReader_spec h1 hread (hread1 ▸ ha1) with ⟨hgo, k2, lr2, he2, hm2, h2, hf2, hw2⟩ | ⟨hno, he2⟩
    · rw [hread1] at hm2 hf2
      have hf := hf1.trans hf2
      refine Or.inl ⟨hgo, k2, lr2, ?_, h2, fun u => ?_,
        ⟨hf.state, hf.err, ⟨hf.ring.ring, hf.ring.mem, hf.ring.copies⟩, hf.reader⟩, hw2.trans hw1⟩
      · show (deleteReader m k1 >>= _) = _
        rw [he2]
        rfl
      · rw [hm2, hm1, waiters, List.mem_append, or_left_comm, or_assoc]
    · refine Or.inr ⟨hno, ?_⟩
      show (deleteReader m k1 >>= _) = _
      rw [he2]
      rfl
  · refine Or.inr ⟨hno, ?_⟩
    rw [he1]
    rfl

/-- A deletion that returns. -/
theorem rxDeleteQueue_returns {m : ℕ} {s : QueueSys n} {lr lw : List (Fin n)} (h : AtQueue m s lr lw) {r : OsErr}
    {k' : Kernel n} (he : rxDeleteQueue s.k m = .ok (r, k')) : TimersGo s.k (waiters m s lw) ∧
      ∃ lr', Chain k'.next k'.readyHead lr' ∧ (∀ u, u ∈ lr' ↔ u ∈ waiters m s lw ∨ u ∈ lr) ∧
      Freed m (waiters m s lw) s.k k' ∧ (k'.queues m).writeTask = none := by
  rcases rxDeleteQueue_spec h with ⟨hgo, k1, lr', he1, hspec⟩ | ⟨-, he1⟩
  · obtain ⟨-, rfl⟩ := Prod.mk.inj (Except.ok.inj (he1.symm.trans he))
    exact ⟨hgo, lr', hspec⟩
  · cases he1.symm.trans he

theorem waiters_of_noReader {m : ℕ} {s : QueueSys n} (lw : List (Fin n)) (hr : (s.k.queues m).readTask = none) :
    waiters m s lw = lw := by simp [waiters, hr]

/-! ### The woken calls -/

/-- The tasks `ts` are ready, and nobody waits on the queue. -/
structure Released (m : ℕ) (ts : List (Fin n)) (k : Kernel n) : Prop where
  ready : ∀ t ∈ ts, (k.tcb t).state = .ready
  queued : ∃ lr, Chain k.next k.readyHead lr ∧ ∀ t ∈ ts, t ∈ lr
  reader : (k.queues m).readTask = none
  writer : (k.queues m).writeTask = none

/-- A task is dispatched, and goes on with its call up to its return. -/
def goesOn (m : ℕ) (s : QueueSys n) (t : Fin n) (preempted : Bool) : Res (Option Ret × QueueSys n) :=
  QueueSys.exec m { s with k := s.k.dispatch t preempted } .resume

/-- One of the woken tasks goes on with its call. -/
def WokenStep (m : ℕ) (ts : List (Fin n)) (s : QueueSys n) (c : (Fin n × Bool) × Ret) (s' : QueueSys n) : Prop :=
  c.1.1 ∈ ts ∧ (s.k.tcb c.1.1).state.runnable = true ∧ s.phase c.1.1 ≠ .out ∧
    goesOn m s c.1.1 c.1.2 = .ok (some c.2, s')

/-- Each call that is still pending returns an error that is `ok`, and leaves the
ring and the memory as `k₀` has them. -/
def FailsWith (ok : OsErr → Prop) (m : ℕ) (ts : List (Fin n)) (k₀ : Kernel n) (s : QueueSys n) : Prop :=
  ∀ t ∈ ts, s.phase t ≠ .out → ∀ preempted, ∃ r s', goesOn m s t preempted = .ok (some r, s') ∧ ok r.err ∧
    SameRing m k₀ s'.k

/-- The deletion makes the tasks `ts` ready, leaves nobody at the queue, and
whenever one of their calls goes on, it returns an error that is `ok` and leaves
the queue alone. -/
def DeleteOK (ok : OsErr → Prop) (m : ℕ) (ts : List (Fin n)) (s : QueueSys n) : Prop :=
  ∃ k', rxDeleteQueue s.k m = .ok (.osOk, k') ∧ Released m ts k' ∧
    ∀ tr, Run.Exec (WokenStep m ts) { s with k := k' } tr → ∀ x ∈ Run.states { s with k := k' } tr,
      FailsWith ok m ts k' x

section Woken

variable {m : ℕ} {s s' : QueueSys n} {t : Fin n} {msg : List UInt8} {timed : Bool} {r : Ret}

theorem goesOn_writing (hp : s.phase t = .writing msg timed) (p : Bool) : goesOn m s t p = (do
    let (r, k) ← rxWriteToQueueResume (s.k.dispatch t p) m msg timed
    return (some r, QueueSys.afterWrite { s with k := s.k.dispatch t p } msg timed k (some r))) := by
  have hp' : s.phase (s.k.dispatch t p).curr = .writing msg timed := hp
  simp only [goesOn, QueueSys.exec, hp']

/-- A writer with a timeout finds the queue full: it gives up. -/
theorem goesOn_timedOut (hp : s.phase t = .writing msg true) (hfull : (s.k.queues m).isFull = true) (p : Bool) :
    ∃ s', goesOn m s t p = .ok (some ⟨.eOsTimeout, []⟩, s') ∧ SameRing m s.k s'.k ∧
      s'.phase = Function.update s.phase t .out := by
  have hoff := OffQueue.dispatch s.k t p
  have hq : (s.k.dispatch t p).enterCritical.queues m = s.k.queues m := congrFun hoff.queues m
  have hrun : rxWriteToQueueResume (s.k.dispatch t p) m msg true =
      .ok (⟨.eOsTimeout, []⟩, (s.k.dispatch t p).enterCritical.exitCritical) := by
    unfold rxWriteToQueueResume
    dsimp only
    rw [if_pos rfl, hq, if_pos hfull]
  refine ⟨{ s with k := (s.k.dispatch t p).enterCritical.exitCritical, phase := Function.update s.phase t .out }, ?_,
    .of_off ⟨hoff.queues, hoff.mem, hoff.copies⟩, rfl⟩
  rw [goesOn_writing hp, hrun]
  rfl

/-- A writer that has no timeout, or finds room, copies. -/
theorem goesOn_copies (hp : s.phase t = .writing msg timed) (herr : (s.k.tcb t).err = .osOk)
    (hroom : timed = true → (s.k.queues m).isFull = false) {p : Bool} (he : goesOn m s t p = .ok (some r, s')) :
    r.err = .osOk := by
  have hq : (s.k.dispatch t p).queues m = s.k.queues m := congrFun (OffQueue.dispatch s.k t p).queues m
  have htakes : writeResumes (s.k.dispatch t p) m timed = true := by
    unfold writeResumes
    cases timed with
    | true => rw [if_pos rfl, hq, hroom rfl]; rfl
    | false =>
      rw [if_neg (by simp), show (s.k.dispatch t p).curr = t from rfl, Kernel.dispatch_tcb]
      exact decide_eq_true herr
  rw [goesOn_writing hp] at he
  obtain ⟨⟨r', k'⟩, hrun, h2⟩ := bind_eq_ok.mp he
  obtain ⟨hr, -⟩ := Prod.mk.inj (Except.ok.inj h2)
  obtain rfl := Option.some.inj hr
  rcases rxWriteToQueueResume_cases hrun with ⟨-, hr, -⟩ | ⟨hno, -⟩
  · rw [hr]
  · rw [htakes] at hno
    cases hno

variable {lr lw : List (Fin n)} {ok : OsErr → Prop} {ts : List (Fin n)} {k₀ : Kernel n}

/-- The calls that are still pending are writes with a timeout, and the queue is
full. -/
def AllTimeOut (m : ℕ) (ts : List (Fin n)) (k₀ : Kernel n) (s : QueueSys n) : Prop :=
  SameRing m k₀ s.k ∧ (ts ≠ [] → (s.k.queues m).isFull = true) ∧
    ∀ t ∈ ts, s.phase t = .out ∨ ∃ msg, s.phase t = .writing msg true

theorem isFull_of_sameRing {k k' : Kernel n} (h : SameRing m k k') : (k'.queues m).isFull = (k.queues m).isFull := by
  show (k'.queues m).ring.isFull = (k.queues m).ring.isFull
  rw [h.ring]

/-- They go on returning `E_OS_TIMEOUT`. -/
theorem AllTimeOut.failsWith (h : AllTimeOut m ts k₀ s) (hok : ok .eOsTimeout) : FailsWith ok m ts k₀ s := by
  intro t ht hp p
  obtain ⟨hring, hfull, hall⟩ := h
  obtain ⟨msg, hw⟩ := (hall t ht).resolve_left hp
  obtain ⟨s', he, hsame, -⟩ := goesOn_timedOut hw (hfull (List.ne_nil_of_mem ht)) p
  exact ⟨_, s', he, hok, hring.trans hsame⟩

theorem AllTimeOut.step (h : AllTimeOut m ts k₀ s) {c : (Fin n × Bool) × Ret} (hst : WokenStep m ts s c s') :
    AllTimeOut m ts k₀ s' := by
  obtain ⟨hring, hfull, hall⟩ := h
  obtain ⟨ht, -, hp, he⟩ := hst
  obtain ⟨msg, hw⟩ := (hall _ ht).resolve_left hp
  obtain ⟨s1, he1, hsame, hphase⟩ := goesOn_timedOut hw (hfull (List.ne_nil_of_mem ht)) c.1.2
  obtain rfl : s1 = s' := congrArg Prod.snd (Except.ok.inj (he1.symm.trans he))
  refine ⟨hring.trans hsame, fun hne => ?_, fun u hu => ?_⟩
  · rw [isFull_of_sameRing hsame]
    exact hfull hne
  · rw [hphase]
    by_cases hut : u = c.1.1
    · subst hut
      exact Or.inl (Function.update_self ..)
    · rw [Function.update_of_ne hut]
      exact hall u hu

/-- Who waits gets no error in the end, or finds itself still at the queue,
unless every waiting task is a writer with a timeout and the queue is full. -/
theorem DeleteOK.writers_timed (h : AtQueue m s lr lw) (hno : ¬ ok .osOk) (hd : DeleteOK ok m (waiters m s lw) s) :
    (s.k.queues m).readTask = none ∧
      (∀ t ∈ lw, (∃ msg, s.phase t = .writing msg true) ∧ (s.k.queues m).isFull = true) ∧ TimersGo s.k lw := by
  obtain ⟨k', he, hrel, hrun⟩ := hd
  obtain ⟨hgo, -, -, -, hfreed, -⟩ := rxDeleteQueue_returns h he
  have hread : (s.k.queues m).readTask = none := hfreed.reader.symm.trans hrel.reader
  rw [waiters_of_noReader lw hread] at hgo
  refine ⟨hread, fun t ht => ?_, hgo⟩
  obtain ⟨⟨msg, timed, hp⟩, herr⟩ := h.writers t ht
  have hfails := hrun [] (.nil _) _ List.mem_cons_self t (List.mem_append_left _ ht)
    (by rw [show (QueueSys.mk k' s.phase s.log).phase t = s.phase t from rfl, hp]; simp) false
  obtain ⟨r, s1, hgo, hr, -⟩ := hfails
  have hcopies : (timed = true → (k'.queues m).isFull = false) → False := fun hroom => by
    have hok := goesOn_copies (s := { s with k := k' }) hp ((hfreed.err t).trans herr) hroom hgo
    rw [hok] at hr
    exact hno hr
  rw [← isFull_of_sameRing hfreed.ring]
  cases timed with
  | false => exact absurd (fun hc => by cases hc) hcopies
  | true =>
    refine ⟨⟨msg, hp⟩, ?_⟩
    by_contra hc
    exact hcopies fun _ => Bool.eq_false_iff.mpr hc

/-- The tasks that waited are ready, and nobody waits any more. -/
theorem released_of_freed {k' : Kernel n} (h : AtQueue m s lr lw) (he : rxDeleteQueue s.k m = .ok (.osOk, k'))
    (hr : (s.k.queues m).readTask = none) : Released m (waiters m s lw) k' := by
  obtain ⟨-, lr', hchain, hmem, hfreed, hwriter⟩ := rxDeleteQueue_returns h he
  refine ⟨fun t ht => ?_, ⟨lr', hchain, fun t ht => (hmem t).mpr (Or.inl ht)⟩, hfreed.reader.trans hr, hwriter⟩
  rw [hfreed.state, List.contains_iff_mem.mpr ht, if_pos rfl]

/-- Writers with a timeout give up if the queue is full. -/
theorem deleteOK_of_timed (h : AtQueue m s lr lw) (hok : ok .eOsTimeout) (hr : (s.k.queues m).readTask = none)
    (hall : ∀ t ∈ lw, (∃ msg, s.phase t = .writing msg true) ∧ (s.k.queues m).isFull = true) (hgo : TimersGo s.k lw) :
    DeleteOK ok m (waiters m s lw) s := by
  have hw := waiters_of_noReader lw hr
  rcases rxDeleteQueue_spec h with ⟨-, k', -, he, -, -, hfreed, -⟩ | ⟨hno, -⟩
  · refine ⟨k', he, released_of_freed h he hr, fun tr hex x hx => ?_⟩
    have hstart : AllTimeOut m (waiters m s lw) k' { s with k := k' } := by
      rw [hw]
      refine ⟨.refl k', fun hne => ?_, fun t ht => Or.inr (hall t ht).1⟩
      obtain ⟨t, l, rfl⟩ := List.exists_cons_of_ne_nil hne
      exact (isFull_of_sameRing hfreed.ring).trans (hall t List.mem_cons_self).2
    have hinv := hex.invariant (AllTimeOut m (waiters m s lw) k') (fun _ _ _ hi hst => hi.step hst) hstart
    exact (hinv x hx).failsWith hok
  · rw [hw] at hno
    exact absurd hgo hno

/-- A writer that times out returns `E_OS_TIMEOUT`. -/
theorem DeleteOK.nobody (h : AtQueue m s lr lw) (hd : DeleteOK (· = .eOsQDel) m (waiters m s lw) s) : lw = [] := by
  obtain ⟨hr, hall, -⟩ := hd.writers_timed h (by simp)
  obtain ⟨k', he, -, hrun⟩ := hd
  obtain ⟨-, -, -, -, hfreed, -⟩ := rxDeleteQueue_returns h he
  refine List.eq_nil_iff_forall_not_mem.mpr fun t ht => ?_
  obtain ⟨⟨msg, hp⟩, hfull⟩ := hall t ht
  obtain ⟨r, s1, hgo, herr, -⟩ := hrun [] (.nil _) _ List.mem_cons_self t (List.mem_append_left _ ht)
    (by rw [show (QueueSys.mk k' s.phase s.log).phase t = s.phase t from rfl, hp]; simp) false
  obtain ⟨s2, hgo2, -, -⟩ := goesOn_timedOut (s := { s with k := k' }) hp
    ((isFull_of_sameRing hfreed.ring).trans hfull) false
  obtain ⟨hr2, -⟩ := Prod.mk.inj (Except.ok.inj (hgo2.symm.trans hgo))
  rw [← Option.some.inj hr2] at herr
  cases herr

theorem deleteOK_of_nobody (h : AtQueue m s lr []) (hr : (s.k.queues m).readTask = none) :
    DeleteOK ok m (waiters m s []) s := by
  have hw := waiters_of_noReader [] hr
  rcases rxDeleteQueue_spec h with ⟨-, k', -, he, -⟩ | ⟨hno, -⟩
  · refine ⟨k', he, released_of_freed h he hr, fun tr hex x hx t ht => ?_⟩
    rw [hw] at ht
    cases ht
  · rw [hw] at hno
    exact absurd (fun z _ hz => by cases hz) hno

/-- **When the deletion of a queue is as it should be.** After `rx_delete_queue`
each task that waited is ready, nobody is left at the queue, and each of their
calls returns an error and leaves the queue alone, in whatever order they go on,
exactly if no task waited to read, each that waited to write has a timeout, the
queue is full, and the armed timer that expires last is none of theirs, or the
last waiting task's with no other task's armed. The error is `E_OS_Q_DEL`
exactly if no task waited. -/
theorem deleteOK_iff (h : AtQueue m s lr lw) :
    (DeleteOK (· ≠ .osOk) m (waiters m s lw) s ↔ (s.k.queues m).readTask = none ∧
      (∀ t ∈ lw, (∃ msg, s.phase t = .writing msg true) ∧ (s.k.queues m).isFull = true) ∧ TimersGo s.k lw) ∧
    (DeleteOK (· = .eOsQDel) m (waiters m s lw) s ↔ (s.k.queues m).readTask = none ∧ lw = []) := by
  refine ⟨⟨fun hd => hd.writers_timed h (by simp), fun ⟨hr, hall, hgo⟩ => ?_⟩, fun hd => ?_, fun ⟨hr, hlw⟩ => ?_⟩
  · exact deleteOK_of_timed h (by simp) hr hall hgo
  · exact ⟨(hd.writers_timed h (by simp)).1, hd.nobody h⟩
  · subst hlw
    exact deleteOK_of_nobody h hr

end Woken

/-- What is left to check of a queue that nobody waits to read from, and that the
tasks `lw` wait to write to. -/
theorem atQueue_of_noReader {m : ℕ} {s : QueueSys n} {lr lw : List (Fin n)} (msg : List UInt8) (timed : Bool)
    (hlr : Chain s.k.next s.k.readyHead lr ∧ (∀ t, t ∈ lr ↔ (s.k.tcb t).state.runnable = true) ∧ s.k.curr ∈ lr)
    (hlw : Chain s.k.next (s.k.queues m).writeTask lw ∧
      ∀ t ∈ lw, t ∉ lr ∧ s.phase t = .writing msg timed ∧ (s.k.tcb t).err = .osOk)
    (hport : s.k.port = {}) (hread : (s.k.queues m).readTask = none) (harmed : TimersArmed s.k lw) :
    AtQueue m s lr lw where
  waiting := ⟨⟨.refl _, Or.inl hport, hlr.1, fun _ => hlw.1, fun _ t ht => (hlw.2 t ht).1, fun _ _ _ _ _ => rfl⟩,
    hport, hlr.2.1, hlr.2.2⟩
  writers t ht := ⟨⟨msg, timed, (hlw.2 t ht).2.1⟩, (hlw.2 t ht).2.2⟩
  reader t ht := by
    rw [hread] at ht
    cases ht
  armed := by
    rw [waiters_of_noReader lw hread]
    exact harmed

/-- Two writes, and one more for each timeout, on a timer of its own. -/
def writeCalls (n : ℕ) (timeouts : List ℤ) : List (QueueCall n) :=
  .write [1] 0 9 :: .write [2] 0 9 :: timeouts.zipIdx.map fun x => .write [3] x.1 x.2

/-- The running task fills a queue of two slots and goes on to write; so do the
tasks after it, each with its timeout. -/
def waitsToWrite (m : ℕ) (timeouts : List ℤ) : QueueSys (m + 1) :=
  (writeCalls (m + 1) timeouts).foldl (fun s c => ((QueueSys.exec 0 s c).toOption.map Prod.snd).getD s)
    { k := (rxCreateQueue (Kernel.allReady m) 0 1 1 100 rxQBlock).2, phase := fun _ => .out, log := [] }

/-- Three writers wait; the timer of the first is behind the one of the second. -/
theorem deleteOK_timedWriter : ∃ s : QueueSys 4, AtQueue 0 s [3] [0, 1, 2] ∧ s.k.active = [1, 0, 2] ∧
    DeleteOK (· ≠ .osOk) 0 (waiters 0 s [0, 1, 2]) s := by
  have hat : AtQueue 0 (waitsToWrite 3 [7, 5, 9]) [3] [0, 1, 2] :=
    atQueue_of_noReader [3] true (by decide +kernel) (by decide +kernel) (by decide +kernel)
      (by decide +kernel) ⟨by decide +kernel, by decide +kernel, by decide +kernel⟩
  refine ⟨_, hat, by decide +kernel, (deleteOK_iff hat).1.mpr ⟨by decide +kernel, fun t ht => ?_, fun z hz _ => ?_⟩⟩
  · have hall : ∀ t ∈ ([0, 1, 2] : List (Fin 4)), (waitsToWrite 3 [7, 5, 9]).phase t = .writing [3] true := by
      decide +kernel
    exact ⟨⟨[3], hall t ht⟩, by decide +kernel⟩
  · have hlast : (waitsToWrite 3 [7, 5, 9]).k.active.getLast? = some 2 := by decide +kernel
    obtain rfl := Option.some.inj (hlast.symm.trans hz)
    decide +kernel

-- two writers, the timer of the first expires last: stopping it follows a NULL link
example : rxDeleteQueue (waitsToWrite 2 [100, 50]).k 0 = .error .null := by rfl

theorem waitsToWrite_untimed : AtQueue 0 (waitsToWrite 2 [0]) [1, 2] [0] :=
  atQueue_of_noReader [3] false (by decide +kernel) (by decide +kernel) (by decide +kernel)
    (by decide +kernel) ⟨by decide +kernel, by decide +kernel, by decide +kernel⟩

/-- The writer has no timeout: woken by the deletion, it copies its message and
returns `OS_OK`. -/
theorem deletion_unnoticed : ∃ s : QueueSys 3, AtQueue 0 s [1, 2] [0] ∧ s.phase 0 = .writing [3] false ∧
    ¬ DeleteOK (· ≠ .osOk) 0 (waiters 0 s [0]) s := by
  have hphase : (waitsToWrite 2 [0]).phase 0 = .writing [3] false := by decide +kernel
  refine ⟨_, waitsToWrite_untimed, hphase, fun hd => ?_⟩
  obtain ⟨⟨msg, hp⟩, -⟩ := (hd.writers_timed waitsToWrite_untimed (by simp)).2.1 0 List.mem_cons_self
  rw [hphase] at hp
  cases hp

end Rosx
