/-
# Which task runs

Runs of the task services without priority changes and aborts. The scheduler
takes the head of the ready queue and compares nothing itself: which task that
is follows from the order in which all the other calls leave the queue.

Next to the kernel a run keeps when each task was last put on the ready queue:
by `rx_create_task`, by `rx_resume_task`, or by the tick that ends its time
slice. A call takes tasks out of the queue and puts at most one on it, behind
all the tasks that are as urgent (`exec_follows`), so the queue is always
ordered by priority and then by that time. After each `rx_sched`, whether it
switched or not, the running task comes first in this order
(`runsFirst_of_run`).

Key definitions: `SchedSys.Before`, `SchedSys.RunsFirst`, `Follows`.
-/
import Rosx.TaskRun

namespace Rosx

open Linked

variable {n : ℕ}

/-! ### The queue after a call -/

/-- `l` is the ready queue, of created tasks that are ready or running; the
running task is created or has no time slice. -/
structure OnQueue (k : Kernel n) (C l : List (Fin n)) : Prop where
  chain : Chain k.next k.readyHead l
  mem : ∀ t ∈ l, t ∈ C ∧ (k.tcb t).state.runnable = true
  curr : k.curr ∈ C ∨ (k.tcb k.curr).timeSlice ≤ 0

/-- The queue `l` has become `l'`: some tasks left it, and `new` was put on it
behind the tasks that are at least as urgent. -/
def Follows (k k' : Kernel n) (new : Option (Fin n)) (l l' : List (Fin n)) : Prop :=
  ∃ l0, l0.Sublist l ∧ (∀ t ∈ l0, (k'.tcb t).prio = (k.tcb t).prio) ∧
    match new with
    | none => l' = l0
    | some t => t ∉ l0 ∧ l' = insertReady (fun u => (k'.tcb u).prio) (k'.tcb t).prio t l0

/-- The task that a call that returned `r` has put on the ready queue. -/
def TaskCall.enqueues (k : Kernel n) (r : OsErr) : TaskCall n → Option (Fin n)
  | .create t a => if r = .osOk ∧ a.state = .ready then some t else none
  | .resume t => if r = .osOk then some t else none
  | .tick => if (k.tcb k.curr).timeSlice > 0 ∧ (k.tcb k.curr).ticks - 1 = 0 then some k.curr else none
  | _ => none

/-- The call neither changes a priority nor aborts a task. -/
def TaskCall.keepsPrio : TaskCall n → Bool
  | .setPrio _ _ | .abort _ => false
  | _ => true

/-- The call, which returned `r`, has ended in `rx_sched`. -/
def TaskCall.schedules (r : OsErr) : TaskCall n → Bool
  | .sched | .suspend none => true
  | .complete _ => r = .osOk
  | _ => false

section Calls

variable {k k' : Kernel n} {C l : List (Fin n)} {t : Fin n} {r : OsErr}

namespace OnQueue

/-- A control block changes, but for its link and its time slice. -/
theorem setTcb (h : OnQueue k C l) (t : Fin n) (c : Tcb n) (hnext : c.next = (k.tcb t).next)
    (hslice : c.timeSlice = (k.tcb t).timeSlice) (hstate : t ∈ l → c.state.runnable = true) :
    OnQueue (k.setTcb t c) C l := by
  refine ⟨?_, fun u hu => ⟨(h.mem u hu).1, ?_⟩, h.curr.imp id fun hs => ?_⟩
  · apply Seg.congr h.chain
    intro u _
    by_cases hu : u = t
    · subst hu; simpa [Kernel.next] using hnext
    · simp [Kernel.next, hu]
  · by_cases hut : u = t
    · subst hut; simpa using hstate hu
    · simpa [hut] using (h.mem u hu).2
  · show (Function.update k.tcb t c k.curr).timeSlice ≤ 0
    by_cases hct : k.curr = t
    · rw [hct] at hs ⊢
      simpa [hslice] using hs
    · simpa [hct] using hs

theorem of_eq (h : OnQueue k C l) (ht : k'.tcb = k.tcb) (hh : k'.readyHead = k.readyHead) (hc : k'.curr = k.curr) :
    OnQueue k' C l := by
  have hn : k'.next = k.next := funext fun t => by simp only [Kernel.next, ht]
  refine ⟨?_, ?_, ?_⟩
  · rw [hn, hh]; exact h.chain
  · rw [ht]; exact h.mem
  · rw [hc, ht]; exact h.curr

theorem remove (h : OnQueue k C l) (hk : rxRemoveFromReadyQ k t = .ok k') : OnQueue k' C (l.erase t) := by
  have hr := rxRemoveFromReadyQ_relinked hk
  refine ⟨rxRemoveFromReadyQ_chain h.chain hk, fun u hu => ?_, ?_⟩
  · rw [hr.state]
    exact h.mem u (List.mem_of_mem_erase hu)
  · rw [hr.curr, hr.kept.slice]
    exact h.curr

theorem remove_setState (h : OnQueue k C l) (v : TaskState) (hk : rxRemoveFromReadyQ k t = .ok k') :
    OnQueue (k'.setState t v) C (l.erase t) :=
  (h.remove hk).setTcb t _ rfl rfl fun ht => absurd ht h.chain.nodup.not_mem_erase

theorem add (h : OnQueue k C l) (ht : t ∉ l) (hC : t ∈ C) (hs : (k.tcb t).state.runnable = true)
    (hk : rxAddToReadyQ k t = .ok (r, k')) :
    Relinked k k' ∧ OnQueue k' C (insertReady (fun u => (k'.tcb u).prio) (k'.tcb t).prio t l) := by
  obtain ⟨k1, he, -, hq⟩ := rxAddToReadyQ_spec h.chain ht hs
  obtain ⟨-, rfl⟩ := Prod.mk.inj (Except.ok.inj (he.symm.trans hk))
  refine ⟨hq.toRelinked, ?_, fun u hu => ?_, ?_⟩
  · simp only [hq.prio]
    exact hq.chain
  · rw [hq.state]
    rcases mem_insertReady.mp hu with rfl | hu
    · exact ⟨hC, hs⟩
    · exact h.mem u hu
  · rw [hq.curr, hq.toRelinked.kept.slice]
    exact h.curr

theorem sched (h : OnQueue k C l) (hk : rxSched k = .ok k') : OnQueue k' C l := by
  rcases rxSched_cases hk with ⟨rfl, -⟩ | ⟨t, hh, -, rfl⟩
  · exact h
  · have ht : t ∈ l := by
      have hl := Seg.head h.chain
      rw [hh] at hl
      exact List.mem_of_head? hl.symm
    have hq := h.setTcb t (switchTcb (k.tcb t)) rfl rfl fun _ => rfl
    exact ⟨hq.chain, hq.mem, Or.inl (h.mem t ht).1⟩

end OnQueue

theorem rxSched_prio (hk : rxSched k = .ok k') (u : Fin n) : (k'.tcb u).prio = (k.tcb u).prio := by
  rcases rxSched_cases hk with ⟨rfl, -⟩ | ⟨t, -, -, rfl⟩
  · rfl
  · show (Function.update k.tcb t _ u).prio = _
    by_cases hu : u = t
    · subst hu
      rw [Function.update_self]
      rfl
    · rw [Function.update_of_ne hu]

theorem rxSched_curr (hk : rxSched k = .ok k') : k'.readyHead = some k'.curr := by
  rcases rxSched_cases hk with ⟨rfl, hh⟩ | ⟨t, hh, -, rfl⟩
  · exact hh
  · exact hh

theorem setTcb_prio (k : Kernel n) (t : Fin n) (c : Tcb n) (hc : c.prio = (k.tcb t).prio) (u : Fin n) :
    ((k.setTcb t c).tcb u).prio = (k.tcb u).prio := by
  by_cases hu : u = t
  · subst hu; simpa using hc
  · simp [hu]

theorem setState_prio (k : Kernel n) (t u : Fin n) (v : TaskState) : ((k.setState t v).tcb u).prio = (k.tcb u).prio := by
  apply setTcb_prio
  rfl

/-! ### Every call -/

theorem Follows.of_prio (hp : ∀ u, (k'.tcb u).prio = (k.tcb u).prio) : Follows k k' none l l :=
  ⟨l, List.Sublist.refl l, fun u _ => hp u, rfl⟩

theorem Follows.of_erase (hp : ∀ u, (k'.tcb u).prio = (k.tcb u).prio) : Follows k k' none l (l.erase t) :=
  ⟨l.erase t, List.erase_sublist, fun u _ => hp u, rfl⟩

theorem Follows.congr_prio {k1 : Kernel n} {new : Option (Fin n)} {l l' : List (Fin n)} (h : Follows k k1 new l l')
    (hp : ∀ u, (k'.tcb u).prio = (k1.tcb u).prio) : Follows k k' new l l' := by
  unfold Follows at h ⊢
  simpa only [hp] using h

/-- The running task leaves the queue for good or for now, and another one
runs. -/
theorem leave_follows {v : TaskState} {k1 : Kernel n} (h : OnQueue k C l) (hrem : rxRemoveFromReadyQ k t = .ok k1)
    (hsched : rxSched (k1.setState t v) = .ok k') : OnQueue k' C (l.erase t) ∧ Follows k k' none l (l.erase t) := by
  refine ⟨(h.remove_setState v hrem).sched hsched, Follows.of_erase fun u => ?_⟩
  rw [rxSched_prio hsched, setState_prio, (rxRemoveFromReadyQ_relinked hrem).prio]

theorem rxSuspendTask_follows (h : OnQueue k C l) {o : Option (Fin n)} (hk : rxSuspendTask k o = .ok (r, k')) :
    ∃ l', OnQueue k' C l' ∧ Follows k k' none l l' := by
  cases o with
  | none =>
    obtain ⟨k1, hrem, hk⟩ := bind_eq_ok.mp hk
    obtain ⟨k2, hsched, hk⟩ := bind_eq_ok.mp hk
    obtain ⟨-, rfl⟩ := Prod.mk.inj (Except.ok.inj hk)
    rw [(rxRemoveFromReadyQ_relinked hrem).curr] at hsched
    exact ⟨_, leave_follows h hrem hsched⟩
  | some t =>
    simp only [rxSuspendTask] at hk
    split_ifs at hk with hready
    · obtain ⟨k1, hrem, hk⟩ := bind_eq_ok.mp hk
      obtain ⟨-, rfl⟩ := Prod.mk.inj (Except.ok.inj hk)
      refine ⟨_, h.remove_setState .suspend hrem, Follows.of_erase fun u => ?_⟩
      rw [setState_prio, (rxRemoveFromReadyQ_relinked hrem).prio]
    · obtain ⟨-, rfl⟩ := Prod.mk.inj (Except.ok.inj hk)
      exact ⟨l, h, Follows.of_prio fun _ => rfl⟩

theorem rxCompleteTask_follows (h : OnQueue k C l) (hk : rxCompleteTask k t = .ok (r, k')) :
    ∃ l', OnQueue k' C l' ∧ Follows k k' none l l' := by
  unfold rxCompleteTask at hk
  split_ifs at hk with hc
  · obtain ⟨-, rfl⟩ := Prod.mk.inj (Except.ok.inj hk)
    exact ⟨l, h, Follows.of_prio fun _ => rfl⟩
  · obtain ⟨k1, hrem, hk⟩ := bind_eq_ok.mp hk
    obtain ⟨k2, hsched, hk⟩ := bind_eq_ok.mp hk
    obtain ⟨-, rfl⟩ := Prod.mk.inj (Except.ok.inj hk)
    exact ⟨_, leave_follows h hrem hsched⟩

theorem rxResumeTask_follows (h : OnQueue k C l) (hC : t ∈ C) (hk : rxResumeTask k t = .ok (r, k')) :
    ∃ l', OnQueue k' C l' ∧ Follows k k' ((TaskCall.resume t).enqueues k r) l l' := by
  unfold rxResumeTask at hk
  split_ifs at hk with hne
  · obtain ⟨rfl, rfl⟩ := Prod.mk.inj (Except.ok.inj hk)
    exact ⟨l, h, Follows.of_prio fun _ => rfl⟩
  · have hnot : t ∉ l := by
      intro ht
      have hrun := (h.mem t ht).2
      rw [not_not.mp hne] at hrun
      cases hrun
    obtain ⟨⟨r1, k1⟩, hadd, hk⟩ := bind_eq_ok.mp hk
    obtain ⟨rfl, rfl⟩ := Prod.mk.inj (Except.ok.inj hk)
    have h1 : OnQueue (k.setState t .ready) C l := h.setTcb t _ rfl rfl fun ht => absurd ht hnot
    have hst : ((k.setState t .ready).tcb t).state.runnable = true := by simp [Kernel.setState]
    obtain ⟨hr, h2⟩ := h1.add hnot hC hst hadd
    refine ⟨_, h2, l, List.Sublist.refl l, fun u _ => ?_, hnot, rfl⟩
    rw [hr.prio, setState_prio]

/-- The end of a slice puts the running task behind the others that are as
urgent. -/
theorem timeSliceTick_follows (h : OnQueue k C l) (hk : timeSliceTick k = .ok k') :
    ∃ l', OnQueue k' C l' ∧ Follows k k' (TaskCall.tick.enqueues k r) l l' := by
  unfold timeSliceTick at hk
  simp only at hk
  split_ifs at hk with hpos hzero
  · have hC : k.curr ∈ C := h.curr.resolve_right (by omega)
    have hnew : TaskCall.tick.enqueues k r = some k.curr := if_pos ⟨hpos, hzero⟩
    rw [hnew]
    have h1 := h.setTcb k.curr { k.tcb k.curr with ticks := (k.tcb k.curr).ticks - 1 } rfl rfl
      fun hc => (h.mem _ hc).2
    obtain ⟨k2, hrem, hk⟩ := bind_eq_ok.mp hk
    have hr2 := rxRemoveFromReadyQ_relinked hrem
    have hcur2 : k2.curr = k.curr := hr2.curr
    rw [hcur2] at hk
    have h2 : OnQueue (k2.setState k.curr .ready) C (l.erase k.curr) := h1.remove_setState .ready hrem
    have hnot : k.curr ∉ l.erase k.curr := h.chain.nodup.not_mem_erase
    have hst : ((k2.setState k.curr .ready).tcb k.curr).state.runnable = true := by simp [Kernel.setState]
    obtain ⟨⟨r3, k3⟩, hadd, hk⟩ := bind_eq_ok.mp hk
    obtain ⟨hr3, h3⟩ := h2.add hnot hC hst hadd
    have hcur3 : k3.curr = k.curr := hr3.curr.trans hcur2
    have hst3 : (k3.tcb k.curr).state.runnable = true := by rw [hr3.state]; exact hst
    have hprio3 : ∀ u, (k3.tcb u).prio = (k.tcb u).prio := by
      intro u
      rw [hr3.prio, setState_prio, hr2.prio]
      by_cases hu : u = k.curr
      · subst hu; simp
      · simp [hu]
    have hf : Follows k k3 (some k.curr) l
        (insertReady (fun u => (k3.tcb u).prio) (k3.tcb k.curr).prio k.curr (l.erase k.curr)) :=
      ⟨l.erase k.curr, List.erase_sublist, fun u _ => hprio3 u, hnot, rfl⟩
    simp only [hcur3] at hk
    split_ifs at hk with hhead
    · obtain rfl := Except.ok.inj hk
      exact ⟨_, h3.of_eq rfl rfl hcur3.symm, hf⟩
    · obtain rfl := Except.ok.inj hk
      refine ⟨_, h3.setTcb k.curr _ rfl rfl fun _ => rfl, hf.congr_prio fun u => ?_⟩
      apply setTcb_prio
      rfl
  · have hnew : TaskCall.tick.enqueues k r = none := if_neg fun h => hzero h.2
    rw [hnew]
    obtain rfl := Except.ok.inj hk
    refine ⟨l, h.setTcb _ _ rfl rfl fun hc => (h.mem _ hc).2, Follows.of_prio fun u => ?_⟩
    apply setTcb_prio
    rfl
  · have hnew : TaskCall.tick.enqueues k r = none := if_neg fun h => hpos h.1
    rw [hnew]
    obtain rfl := Except.ok.inj hk
    exact ⟨l, h, Follows.of_prio fun _ => rfl⟩

theorem preempt_follows (h : OnQueue k C l) : OnQueue (preempt k) C l ∧ Follows k (preempt k) none l l := by
  unfold preempt
  split_ifs with hres
  · have h1 : OnQueue { k with needResched := false } C l := h.of_eq rfl rfl rfl
    exact ⟨h1.setTcb k.curr _ rfl rfl fun _ => rfl, Follows.of_prio fun u => setState_prio _ _ u _⟩
  · exact ⟨h, Follows.of_prio fun _ => rfl⟩

/-- The global list of tasks is linked through other fields. -/
theorem addToTaskList_follows (h : OnQueue k C l) (hk : addToTaskList k t = .ok k') :
    OnQueue k' C l ∧ ∀ u, (k'.tcb u).prio = (k.tcb u).prio := by
  unfold addToTaskList at hk
  split at hk
  · obtain rfl := Except.ok.inj hk
    exact ⟨h.of_eq rfl rfl rfl, fun _ => rfl⟩
  · obtain ⟨p, -, hk⟩ := bind_eq_ok.mp hk
    obtain rfl := Except.ok.inj hk
    refine ⟨h.setTcb p _ rfl rfl fun hp => (h.mem p hp).2, fun u => ?_⟩
    apply setTcb_prio
    rfl

/-- A control block that is not on the queue is created. -/
theorem OnQueue.create (h : OnQueue k C l) (ht : t ∉ C) (c : Tcb n) : OnQueue (k.setTcb t c) (C ++ [t]) l := by
  have hne : ∀ u ∈ l, u ≠ t := fun u hu => ne_of_mem_of_not_mem (h.mem u hu).1 ht
  refine ⟨?_, fun u hu => ⟨List.mem_append_left _ (h.mem u hu).1, ?_⟩, ?_⟩
  · apply Seg.congr h.chain
    intro u hu
    simp [Kernel.next, hne u hu]
  · simpa [hne u hu] using (h.mem u hu).2
  · show k.curr ∈ _ ∨ (Function.update k.tcb t c k.curr).timeSlice ≤ 0
    by_cases hx : k.curr = t
    · exact Or.inl (by simp [hx])
    · rw [Function.update_of_ne hx]
      exact h.curr.imp (List.mem_append_left _) id

theorem rxCreateTask_follows (h : OnQueue k C l) {a : TaskArgs} (ht : t ∉ C)
    (ha : a.state = .ready ∨ a.state = .suspend) (hk : rxCreateTask k t a = .ok (r, k')) :
    ∃ l', OnQueue k' ((TaskCall.create t a).created C r) l' ∧ Follows k k' ((TaskCall.create t a).enqueues k r) l l' := by
  rcases rxCreateTask_cases hk with ⟨rfl, rfl | ⟨-, rfl⟩⟩ | ⟨stack, k1, k3, k4, halloc, hk3, hk4, rfl, rfl⟩
  · exact ⟨l, h, Follows.of_prio fun _ => rfl⟩
  · exact ⟨l, h.of_eq rfl rfl rfl, Follows.of_prio fun _ => rfl⟩
  · have ha1 := allocStack_frame halloc
    have htcb : k1.tcb = k.tcb := by rw [ha1]; rfl
    have htl : t ∉ l := fun hm => ht (h.mem t hm).1
    have h1 : OnQueue k1 C l := h.of_eq htcb (by rw [ha1]; rfl) (by rw [ha1]; rfl)
    set k2 := k1.setTcb t (initTcb (k1.tcb t) a stack) with hk2
    have h2 : OnQueue k2 (C ++ [t]) l := h1.create ht _
    have hprio2 : ∀ u ∈ l, (k2.tcb u).prio = (k.tcb u).prio := by
      intro u hu
      have hut : u ≠ t := ne_of_mem_of_not_mem hu htl
      simp [hk2, hut, htcb]
    -- the queue after the new task is put on it, or not
    have h3 : ∃ l', OnQueue k3 (C ++ [t]) l' ∧ Follows k k3 ((TaskCall.create t a).enqueues k .osOk) l l' := by
      rcases ha with ha | ha
      · have hnew : (TaskCall.create t a).enqueues k .osOk = some t := if_pos ⟨rfl, ha⟩
        rw [hnew]
        rw [addIfReady, if_pos ha] at hk3
        cases hadd : rxAddToReadyQ k2 t with
        | error e => rw [hadd] at hk3; cases hk3
        | ok x =>
          rw [hadd] at hk3
          obtain rfl : x.2 = k3 := Except.ok.inj hk3
          obtain ⟨hr, h3⟩ := h2.add htl (by simp) (by simp [hk2, initTcb, ha]) hadd
          refine ⟨_, h3, l, List.Sublist.refl l, fun u hu => ?_, htl, rfl⟩
          rw [hr.prio, hprio2 u hu]
      · have hnew : (TaskCall.create t a).enqueues k .osOk = none := if_neg fun hc => by
          rw [ha] at hc
          cases hc.2
        rw [hnew]
        rw [addIfReady, if_neg (by rw [ha]; decide)] at hk3
        obtain rfl := Except.ok.inj hk3
        exact ⟨l, h2, l, List.Sublist.refl l, hprio2, rfl⟩
    obtain ⟨l', h3, hf⟩ := h3
    obtain ⟨h4, hp4⟩ := addToTaskList_follows h3 hk4
    exact ⟨l', h4.of_eq rfl rfl rfl, hf.congr_prio hp4⟩

/-- A call takes tasks out of the queue, and puts the one that it enqueues
where it belongs. -/
theorem exec_follows (h : OnQueue k C l) {c : TaskCall n} (hp : c.keepsPrio = true) (ha : c.Admissible C)
    (hk : c.exec k = .ok (r, k')) :
    ∃ l', OnQueue k' (c.created C r) l' ∧ Follows k k' (c.enqueues k r) l l' := by
  cases c with
  | create t a => exact rxCreateTask_follows h ha.1 ha.2 hk
  | suspend o => exact rxSuspendTask_follows h hk
  | resume t => exact rxResumeTask_follows h ha hk
  | setPrio t p => cases hp
  | abort t => cases hp
  | complete t => exact rxCompleteTask_follows h hk
  | sched =>
    obtain ⟨k1, hk1, he⟩ := map_eq_ok.mp hk
    obtain ⟨-, rfl⟩ := Prod.mk.inj he
    exact ⟨l, h.sched hk1, Follows.of_prio (rxSched_prio hk1)⟩
  | tick =>
    obtain ⟨k1, hk1, he⟩ := map_eq_ok.mp hk
    obtain ⟨-, rfl⟩ := Prod.mk.inj he
    have h0 : OnQueue (irqEnter k) C l := h.of_eq rfl rfl rfl
    obtain ⟨l1, h1, hf⟩ := timeSliceTick_follows (r := r) h0 hk1
    exact ⟨l1, h1.of_eq rfl rfl rfl, hf⟩
  | preempt =>
    obtain ⟨-, rfl⟩ := Prod.mk.inj (Except.ok.inj hk)
    exact ⟨l, preempt_follows h⟩

/-- After a call that ends in `rx_sched` the head of the queue runs. -/
theorem curr_of_schedules {c : TaskCall n} (hs : c.schedules r = true) (hk : c.exec k = .ok (r, k')) :
    k'.readyHead = some k'.curr := by
  cases c with
  | sched =>
    obtain ⟨k1, hk1, he⟩ := map_eq_ok.mp hk
    obtain ⟨-, rfl⟩ := Prod.mk.inj he
    exact rxSched_curr hk1
  | suspend o =>
    cases o with
    | some t => cases hs
    | none =>
      obtain ⟨k1, -, hk⟩ := bind_eq_ok.mp hk
      obtain ⟨k2, hsched, hk⟩ := bind_eq_ok.mp hk
      obtain ⟨-, rfl⟩ := Prod.mk.inj (Except.ok.inj hk)
      exact rxSched_curr hsched
  | complete t =>
    simp only [TaskCall.exec, rxCompleteTask] at hk
    split_ifs at hk with hc
    · obtain ⟨rfl, -⟩ := Prod.mk.inj (Except.ok.inj hk)
      cases hs
    · obtain ⟨k1, -, hk⟩ := bind_eq_ok.mp hk
      obtain ⟨k2, hsched, hk⟩ := bind_eq_ok.mp hk
      obtain ⟨-, rfl⟩ := Prod.mk.inj (Except.ok.inj hk)
      exact rxSched_curr hsched
  | create | resume | setPrio | abort | tick | preempt => cases hs

end Calls

/-! ### Runs -/

/-- The task services with, beside the kernel, the calls so far and when each
task was last put on the ready queue. -/
structure SchedSys (n : ℕ) extends TaskSys n where
  clock : ℕ := 1
  since : Fin n → ℕ := fun _ => 0

namespace SchedSys

/-- A run changes no priority and aborts no task. -/
def Admissible (s : SchedSys n) (c : TaskCall n) : Prop := c.keepsPrio = true ∧ c.Admissible s.created

instance (s : SchedSys n) (c : TaskCall n) : Decidable (s.Admissible c) :=
  inferInstanceAs (Decidable (c.keepsPrio = true ∧ c.Admissible s.created))

/-- What the call computes; a task it puts on the queue gets the time of the
call. -/
def exec (s : SchedSys n) (c : TaskCall n) : Res (OsErr × SchedSys n) := do
  let (r, k) ← c.exec s.k
  return (r,
    { k := k
      created := c.created s.created r
      clock := s.clock + 1
      since := (c.enqueues s.k r).elim s.since fun t => Function.update s.since t s.clock })

/-- One step of a run, with the call and its result. -/
def Step (s : SchedSys n) (c : TaskCall n × OsErr) (s' : SchedSys n) : Prop :=
  s.Admissible c.1 ∧ s.exec c.1 = .ok (c.2, s')

/-- `t` is more urgent than `u`, or as urgent and on the queue for longer. -/
def Before (s : SchedSys n) (t u : Fin n) : Prop :=
  (s.k.tcb t).prio < (s.k.tcb u).prio ∨ (s.k.tcb t).prio = (s.k.tcb u).prio ∧ s.since t < s.since u

/-- The running task is on the ready queue, and before every other task on
it. -/
def RunsFirst (s : SchedSys n) : Prop :=
  ∃ l, Chain s.k.next s.k.readyHead l ∧ s.k.curr ∈ l ∧ ∀ t ∈ l, t ≠ s.k.curr → s.Before s.k.curr t

/-- The invariant: the queue is in order, and no task came to it in the
future. -/
structure Inv (s : SchedSys n) (l : List (Fin n)) : Prop where
  queue : OnQueue s.k s.created l
  sorted : l.Pairwise s.Before
  past : ∀ t ∈ l, s.since t < s.clock

theorem exec_inv {s s' : SchedSys n} {l : List (Fin n)} {c : TaskCall n} {r : OsErr} (h : Inv s l)
    (ha : s.Admissible c) (he : s.exec c = .ok (r, s')) : ∃ l', Inv s' l' := by
  obtain ⟨⟨r1, k'⟩, hk, he⟩ := bind_eq_ok.mp he
  obtain ⟨rfl, rfl⟩ := Prod.mk.inj (Except.ok.inj he)
  obtain ⟨l', hq', l0, hsub, hprio, hnew⟩ := exec_follows h.queue ha.1 ha.2 hk
  have hsorted := h.sorted.sublist hsub
  have hpast : ∀ t ∈ l0, s.since t < s.clock := fun t ht => h.past t (hsub.subset ht)
  refine ⟨l', ?_⟩
  cases hq : c.enqueues s.k r1 with
  | none =>
    rw [hq] at hnew
    subst hnew
    refine ⟨hq', hsorted.imp_of_mem fun {t u} ht hu htu => ?_, fun t ht => ?_⟩
    · simpa only [Before, hprio t ht, hprio u hu, Option.elim_none] using htu
    · exact (hpast t ht).trans (Nat.lt_succ_self _)
  | some x =>
    rw [hq] at hnew
    obtain ⟨hx, rfl⟩ := hnew
    have hold : ∀ t ∈ l0, Function.update s.since x s.clock t = s.since t := fun t ht =>
      Function.update_of_ne (ne_of_mem_of_not_mem ht hx) _ _
    refine ⟨hq', ?_, ?_⟩
    · apply insertReady_pairwise
      · refine hsorted.imp_of_mem fun {t u} ht hu htu => ?_
        rw [hprio t ht, hprio u hu]
        rcases htu with hlt | ⟨heq, -⟩
        · exact hlt.le
        · exact heq.le
      · refine hsorted.imp_of_mem fun {t u} ht hu htu => ?_
        simpa only [Before, hprio t ht, hprio u hu, Option.elim_some, hold t ht, hold u hu] using htu
      · intro t ht hle
        rcases lt_or_eq_of_le hle with hlt | heq
        · exact Or.inl hlt
        · refine Or.inr ⟨heq, ?_⟩
          simpa only [Option.elim_some, Function.update_self, hold t ht] using hpast t ht
      · intro t _ hlt
        exact Or.inl hlt
    · intro t ht
      show Function.update s.since x s.clock t < s.clock + 1
      rcases mem_insertReady.mp ht with rfl | ht
      · rw [Function.update_self]
        exact Nat.lt_succ_self _
      · rw [hold t ht]
        exact (hpast t ht).trans (Nat.lt_succ_self _)

theorem runsFirst_of_curr {s : SchedSys n} {l : List (Fin n)} (h : Inv s l) (hc : s.k.readyHead = some s.k.curr) :
    RunsFirst s := by
  have hhead := Seg.head h.queue.chain
  rw [hc] at hhead
  obtain ⟨l', hl⟩ := List.head?_eq_some_iff.mp hhead.symm
  have hsorted := h.sorted
  rw [hl, List.pairwise_cons] at hsorted
  refine ⟨l, h.queue.chain, by rw [hl]; exact List.mem_cons_self, fun t ht hne => ?_⟩
  rw [hl] at ht
  exact hsorted.1 t ((List.mem_cons.mp ht).resolve_left hne)

/-- The system after boot. -/
def boot (s : TaskSys n) : SchedSys n := { s with }

theorem boot_inv {s : TaskSys n} {idle : Fin n} (h : Booted s idle) : Inv (boot s) [idle] := by
  refine ⟨⟨h.queue, fun t ht => ?_, ?_⟩, List.pairwise_singleton _ _, fun _ _ => Nat.zero_lt_one⟩
  · obtain rfl := List.mem_singleton.mp ht
    refine ⟨?_, h.ready⟩
    show t ∈ s.created
    rw [h.created]
    exact ht
  · exact h.inv.curr

/-- **The scheduler runs the first task.** In every run of the task services
from boot, without priority changes and aborts, each call that ends in
`rx_sched` leaves the processor to the task that is most urgent on the ready
queue and, of those, was put on it first. -/
theorem runsFirst_of_run {s : TaskSys n} {idle : Fin n} (hb : Booted s idle)
    {tr : List ((TaskCall n × OsErr) × SchedSys n)} (h : Run.Exec Step (boot s) tr) :
    ∀ x ∈ tr, x.1.1.schedules x.1.2 = true → RunsFirst x.2 := by
  intro x hx hs
  obtain ⟨s0, ⟨l, hi⟩, ha, he⟩ := h.step_of_mem (fun s => ∃ l, Inv s l)
    (fun _ _ _ ⟨_, hi⟩ hst => exec_inv hi hst.1 hst.2) ⟨[idle], boot_inv hb⟩ x hx
  obtain ⟨l', hi'⟩ := exec_inv hi ha he
  obtain ⟨⟨r, k'⟩, hk, he⟩ := bind_eq_ok.mp he
  obtain ⟨hr, hx2⟩ := Prod.mk.inj (Except.ok.inj he)
  apply runsFirst_of_curr hi'
  rw [← hx2]
  exact curr_of_schedules (r := r) (by rw [hr]; exact hs) hk

/-- Tasks 1 and 2 are as urgent as each other. Task 1's slice ends, so task 2
runs, until it suspends itself; task 1 completes. -/
theorem runsFirst_rotation : Booted bootSys 0 ∧ ∃ tr, Run.Exec Step (boot bootSys) tr ∧
    tr.map (fun x => x.2.k.curr) = [0, 0, 1, 1, 1, 2, 1, 0] ∧
    ∀ x ∈ tr, x.1.1.schedules x.1.2 = true → RunsFirst x.2 := by
  refine ⟨bootSys_booted, ?_⟩
  have hrun := Run.exists_exec (f := Run.attempt Admissible exec) (fun _ _ _ => Run.step_of_attempt)
    (s := boot bootSys)
    [(.create 1 { prio := 5, state := .ready, timeSlice := 1 }, .osOk),
      (.create 2 { prio := 5, state := .ready, timeSlice := 1 }, .osOk), (.sched, .osOk), (.tick, .osOk),
      (.preempt, .osOk), (.sched, .osOk), (.suspend none, .osOk), (.complete 1, .osOk)]
    (fun tr => decide (tr.map (fun x => x.2.k.curr) = [0, 0, 1, 1, 1, 2, 1, 0])) (by decide +kernel)
  obtain ⟨tr, hex, hp⟩ := hrun
  exact ⟨tr, hex, of_decide_eq_true hp, runsFirst_of_run bootSys_booted hex⟩

end SchedSys

end Rosx
