/-
# Runs of the task services

A run is a sequence of task service calls by the running task, `rx_sched`
calls and time-slice ticks. `ReadyQueueOK` is what the scheduler relies on:
the chain at `__rx_task_ready_head` is acyclic, sorted by priority, and holds
exactly the created tasks that are ready or running.

It does not hold in every reachable state. Three calls can break it:

* `rx_abort_task` of a task that gave up the processor by `rx_sched`: its
  state still is RUNNING, so it stays on the queue, aborted;
* `rx_set_task_prio` of a RUNNING task: the priority changes and the task is
  not moved;
* the preemption at the end of `sig_handler`, when the interrupted task has
  suspended itself by name and still runs.

`CallSafe` excludes exactly these: the states of a run all satisfy
`ReadyQueueOK` if and only if all its calls are safe
(`readyQueueOK_iff_callsSafe`).
-/
import Rosx.ReadyQueue
import Rosx.Lib.Run

namespace Rosx

open Linked

variable {n : ℕ}

/-! ### The queue of the runnable tasks -/

/-- `l` is the ready queue: a chain, sorted, of the tasks of `C` that are
ready or running. -/
structure Queue (k : Kernel n) (C l : List (Fin n)) : Prop where
  chain : Chain k.next k.readyHead l
  sorted : l.Pairwise fun a b => (k.tcb a).prio ≤ (k.tcb b).prio
  mem : ∀ t, t ∈ l ↔ t ∈ C ∧ (k.tcb t).state.runnable = true

/-- `l` is the ready queue but for `x`, which is not on it. -/
structure QueueBut (x : Fin n) (k : Kernel n) (C l : List (Fin n)) : Prop where
  chain : Chain k.next k.readyHead l
  sorted : l.Pairwise fun a b => (k.tcb a).prio ≤ (k.tcb b).prio
  notMem : x ∉ l
  mem : ∀ t, t ≠ x → (t ∈ l ↔ t ∈ C ∧ (k.tcb t).state.runnable = true)

/-- What the task services other than `rx_create_task` and the scheduler leave
alone. -/
structure Kept (k k' : Kernel n) : Prop where
  listNext : k'.listNext = k.listNext
  listHead : k'.taskListHead = k.taskListHead
  curr : k'.curr = k.curr
  slice : ∀ t, (k'.tcb t).timeSlice = (k.tcb t).timeSlice

namespace Kept

variable {k k' k'' : Kernel n}

theorem trans (h : Kept k k') (h' : Kept k' k'') : Kept k k'' :=
  ⟨h'.listNext.trans h.listNext, h'.listHead.trans h.listHead, h'.curr.trans h.curr,
    fun t => (h'.slice t).trans (h.slice t)⟩

theorem setTcb (k : Kernel n) (x : Fin n) (c : Tcb n) (hlist : c.list = (k.tcb x).list)
    (hslice : c.timeSlice = (k.tcb x).timeSlice) : Kept k (k.setTcb x c) := by
  refine ⟨funext fun t => ?_, rfl, rfl, fun t => ?_⟩
  · by_cases h : t = x
    · subst h; simpa [Kernel.listNext] using hlist
    · simp [Kernel.listNext, h]
  · by_cases h : t = x
    · subst h; simpa using hslice
    · simp [h]

theorem setState (k : Kernel n) (x : Fin n) (v : TaskState) : Kept k (k.setState x v) :=
  setTcb k x _ rfl rfl

theorem setPrio (k : Kernel n) (x : Fin n) (v : ℤ) : Kept k (k.setPrio x v) :=
  setTcb k x _ rfl rfl

theorem of_eq (ht : k'.tcb = k.tcb) (hl : k'.taskListHead = k.taskListHead) (hc : k'.curr = k.curr) :
    Kept k k' :=
  ⟨funext fun t => by simp only [Kernel.listNext, ht], hl, hc, fun t => by rw [ht]⟩

end Kept

theorem Relinked.kept {k k' : Kernel n} (h : Relinked k k') : Kept k k' := by
  refine ⟨funext fun t => ?_, ?_, h.curr, fun t => ?_⟩
  · simp only [Kernel.listNext]; rw [h.tcb t]
  · rw [h.rest]
  · rw [h.tcb t]

section Queue

variable {k k' : Kernel n} {C l : List (Fin n)} {x : Fin n}

/-- A control block changes, but for its link, priority and runnability. -/
theorem Queue.setTcb (h : Queue k C l) (x : Fin n) (c : Tcb n) (hnext : c.next = (k.tcb x).next)
    (hprio : c.prio = (k.tcb x).prio) (hstate : c.state.runnable = (k.tcb x).state.runnable) :
    Queue (k.setTcb x c) C l := by
  have hp : ∀ t, ((k.setTcb x c).tcb t).prio = (k.tcb t).prio := by
    intro t
    by_cases ht : t = x
    · subst ht; simpa using hprio
    · simp [ht]
  refine ⟨?_, ?_, fun t => ?_⟩
  · apply Seg.congr h.chain
    intro t _
    by_cases ht : t = x
    · subst ht; simpa [Kernel.next] using hnext
    · simp [Kernel.next, ht]
  · simpa only [hp] using h.sorted
  · rw [h.mem t]
    by_cases ht : t = x
    · subst ht; simp [hstate]
    · simp [ht]

/-- The left out task's control block may change as it likes. -/
theorem QueueBut.setTcb (h : QueueBut x k C l) (c : Tcb n) : QueueBut x (k.setTcb x c) C l := by
  have hne : ∀ t ∈ l, t ≠ x := fun t ht => ne_of_mem_of_not_mem ht h.notMem
  refine ⟨?_, ?_, h.notMem, fun t ht => ?_⟩
  · apply Seg.congr h.chain
    intro t ht
    simp [Kernel.next, hne t ht]
  · refine h.sorted.imp_of_mem fun ha hb hab => ?_
    simpa [hne _ ha, hne _ hb] using hab
  · simpa [ht] using h.mem t ht

/-- A task that is not runnable, or not created, is rightly left out. -/
theorem QueueBut.queue (h : QueueBut x k C l) (hx : x ∈ C → (k.tcb x).state.runnable = false) :
    Queue k C l := by
  refine ⟨h.chain, h.sorted, fun t => ?_⟩
  by_cases ht : t = x
  · subst ht
    refine ⟨fun hm => absurd hm h.notMem, fun hm => ?_⟩
    rw [hx hm.1] at hm
    exact absurd hm.2 (by simp)
  · exact h.mem t ht

/-- `__rx_add_to_ready_q` completes the queue. -/
theorem QueueBut.add (h : QueueBut x k C l) (hC : x ∈ C) (hs : (k.tcb x).state.runnable = true) :
    ∃ k' l', rxAddToReadyQ k x = .ok (.osOk, k') ∧ Relinked k k' ∧ Queue k' C l' := by
  obtain ⟨k', he, _, hq⟩ := rxAddToReadyQ_spec h.chain h.notMem hs
  refine ⟨k', _, he, hq.toRelinked, hq.chain, ?_, fun t => ?_⟩
  · simp only [hq.prio]
    exact insertReady_sorted h.sorted
  · rw [mem_insertReady, hq.state t]
    by_cases ht : t = x
    · subst ht; simp [hC, hs]
    · simp [ht, h.mem t ht]

/-- `__rx_remove_from_ready_q` returns only from a non-empty queue, and takes
the task out if it is on it. -/
theorem queueBut_of_remove (hc : Chain k.next k.readyHead l)
    (hs : (l.erase x).Pairwise fun a b => (k.tcb a).prio ≤ (k.tcb b).prio)
    (hm : ∀ t, t ≠ x → (t ∈ l ↔ t ∈ C ∧ (k.tcb t).state.runnable = true))
    (hk : rxRemoveFromReadyQ k x = .ok k') : Relinked k k' ∧ ∃ l', QueueBut x k' C l' := by
  have hr := rxRemoveFromReadyQ_relinked hk
  refine ⟨hr, l.erase x, rxRemoveFromReadyQ_chain hc hk, ?_, hc.nodup.not_mem_erase, fun t ht => ?_⟩
  · simpa only [hr.prio] using hs
  · rw [List.mem_erase_of_ne ht, hm t ht, hr.state t]

theorem Queue.remove (h : Queue k C l) (hk : rxRemoveFromReadyQ k x = .ok k') :
    Relinked k k' ∧ ∃ l', QueueBut x k' C l' :=
  queueBut_of_remove h.chain (h.sorted.sublist List.erase_sublist) (fun t _ => h.mem t) hk

/-- A task that is not on the queue is left out of it. -/
theorem Queue.but (h : Queue k C l) (hx : x ∉ l) : QueueBut x k C l :=
  ⟨h.chain, h.sorted, hx, fun t _ => h.mem t⟩

/-- The queue reads the control blocks and the head only. -/
theorem Queue.of_eq (h : Queue k C l) (ht : k'.tcb = k.tcb) (hh : k'.readyHead = k.readyHead) :
    Queue k' C l := by
  refine ⟨?_, ?_, ?_⟩
  · have hn : k'.next = k.next := funext fun t => by simp only [Kernel.next, ht]
    rw [hn, hh]
    exact h.chain
  · rw [ht]; exact h.sorted
  · rw [ht]; exact h.mem

end Queue

/-! ### Calls and runs -/

/-- The kernel and the tasks created so far, in the order of their creation. -/
structure TaskSys (n : ℕ) where
  k : Kernel n
  created : List (Fin n)

/-- A step of a run: a call by the running task, a time-slice tick, or the
preemption at the end of the interrupt. -/
inductive TaskCall (n : ℕ) where
  | create (t : Fin n) (a : TaskArgs)
  | suspend (t : Option (Fin n))
  | resume (t : Fin n)
  | setPrio (t : Fin n) (prio : ℤ)
  | abort (t : Fin n)
  | complete (t : Fin n)
  | sched
  | tick
  | preempt

/-- What the call computes. -/
def TaskCall.exec (k : Kernel n) : TaskCall n → Res (OsErr × Kernel n)
  | .create t a => rxCreateTask k t a
  | .suspend t => rxSuspendTask k t
  | .resume t => rxResumeTask k t
  | .setPrio t p => rxSetTaskPrio k t p
  | .abort t => rxAbortTask k t
  | .complete t => rxCompleteTask k t
  | .sched => (rxSched k).map (.osOk, ·)
  | .tick => (timeSliceTick (irqEnter k)).map fun k => (.osOk, irqExit k)
  | .preempt => .ok (.osOk, Rosx.preempt k)

/-- A control block is created once, ready or suspended, and named in a call
only once it is created. -/
def TaskCall.Admissible (C : List (Fin n)) : TaskCall n → Prop
  | .create t a => t ∉ C ∧ (a.state = .ready ∨ a.state = .suspend)
  | .suspend (some t) | .resume t | .setPrio t _ | .abort t | .complete t => t ∈ C
  | .suspend none | .sched | .tick | .preempt => True

instance (C : List (Fin n)) : ∀ c : TaskCall n, Decidable (c.Admissible C)
  | .create t a => inferInstanceAs (Decidable (t ∉ C ∧ (a.state = .ready ∨ a.state = .suspend)))
  | .suspend (some t) | .resume t | .setPrio t _ | .abort t | .complete t => inferInstanceAs (Decidable (t ∈ C))
  | .suspend none | .sched | .tick | .preempt => inferInstanceAs (Decidable True)

/-- The tasks created after a call that returned `r`. -/
def TaskCall.created (C : List (Fin n)) : TaskCall n → OsErr → List (Fin n)
  | .create t _, .osOk => C ++ [t]
  | _, _ => C

/-- One step of a run. -/
def TaskSys.step (s : TaskSys n) (c : TaskCall n) : Option (TaskSys n) :=
  if c.Admissible s.created then
    match c.exec s.k with
    | .ok (r, k) => some ⟨k, c.created s.created r⟩
    | .error _ => none
  else none

/-- The step relation of the task services. -/
def TaskSys.Step (s : TaskSys n) (c : TaskCall n) (s' : TaskSys n) : Prop := s.step c = some s'

/-- The kernel after boot: the idle task is created and alone on the ready
queue, and either runs or is about to be switched to from the placeholder
`__rx_init_task`, whose control block is zeroed. -/
structure Booted (s : TaskSys n) (idle : Fin n) : Prop where
  created : s.created = [idle]
  list : Chain s.k.listNext s.k.taskListHead [idle]
  queue : Chain s.k.next s.k.readyHead [idle]
  ready : (s.k.tcb idle).state.runnable = true
  curr : s.k.curr = idle ∨ (s.k.tcb s.k.curr).timeSlice = 0

/-- The chain at `__rx_task_ready_head` is acyclic, sorted by non-decreasing
priority, and holds exactly the created tasks that are ready or running. -/
def ReadyQueueOK (s : TaskSys n) : Prop :=
  ∃ l, Chain s.k.next s.k.readyHead l ∧ l.Nodup ∧
    l.Pairwise (fun a b => (s.k.tcb a).prio ≤ (s.k.tcb b).prio) ∧
    ∀ t, t ∈ l ↔ t ∈ s.created ∧ ((s.k.tcb t).state = .ready ∨ (s.k.tcb t).state = .running)

/-- At its place in the ready queue, a task of priority `p` would still be
sorted: nothing before it is less urgent, nothing behind it more. -/
def InPlace (k : Kernel n) (t : Fin n) (p : ℤ) : Prop :=
  ∀ a b, Chain k.next k.readyHead (a ++ t :: b) →
    (∀ x ∈ a, (k.tcb x).prio ≤ p) ∧ ∀ x ∈ b, p ≤ (k.tcb x).prio

/-- The guard of `rx_set_task_prio` that returns at once. -/
def PrioNoop (k : Kernel n) (t : Fin n) (p : ℤ) : Prop :=
  p = (k.tcb t).prio ∨ (k.tcb t).prio = TaskState.complete.code ∨ (k.tcb t).prio = TaskState.abort.code

/-- The calls that keep the ready queue. -/
def CallSafe (s : TaskSys n) : TaskCall n → Prop
  | .abort t => t = s.k.curr ∨ (s.k.tcb t).state ≠ .running
  | .setPrio t p => (s.k.tcb t).state = .running →
      PrioNoop s.k t p ∨ InPlace s.k t p
  | .preempt => s.k.needResched = true → s.k.curr ∈ s.created →
      (s.k.tcb s.k.curr).state.runnable = true
  | _ => True

/-- No call of the run suspends the idle task. -/
def NeverSuspends (idle : Fin n) (s : TaskSys n) (c : TaskCall n) : Prop :=
  match c with
  | .suspend (some t) => t ≠ idle
  | .suspend none => s.k.curr ≠ idle
  | _ => True

/-! ### What one call keeps -/

/-- The invariant of the runs: the ready queue, the global list of tasks, and
a running task that is created or has no time slice. -/
structure TaskInv (k : Kernel n) (C : List (Fin n)) : Prop where
  queue : ∃ l, Queue k C l
  list : Chain k.listNext k.taskListHead C
  curr : k.curr ∈ C ∨ (k.tcb k.curr).timeSlice ≤ 0

theorem TaskInv.of_kept {k k' : Kernel n} {C l : List (Fin n)} (h : TaskInv k C) (hk : Kept k k')
    (hq : Queue k' C l) : TaskInv k' C := by
  refine ⟨⟨l, hq⟩, ?_, ?_⟩
  · rw [hk.listNext, hk.listHead]; exact h.list
  · rw [hk.curr, hk.slice]; exact h.curr

section Calls

variable {k k' : Kernel n} {C : List (Fin n)} {t : Fin n} {r : OsErr}

theorem Queue.head_mem {l : List (Fin n)} (h : Queue k C l) (hh : k.readyHead = some t) : t ∈ l := by
  have hl := Seg.head h.chain
  rw [hh] at hl
  exact List.mem_of_head? hl.symm

theorem rxSched_inv (h : TaskInv k C) (hk : rxSched k = .ok k') : TaskInv k' C := by
  obtain ⟨l, hq⟩ := h.queue
  rcases rxSched_cases hk with ⟨rfl, _⟩ | ⟨t, hh, _, rfl⟩
  · exact h
  · obtain ⟨hC, hrun⟩ := (hq.mem t).mp (hq.head_mem hh)
    have hq' : Queue (k.setTcb t (switchTcb (k.tcb t))) C l := hq.setTcb t _ rfl rfl hrun.symm
    have hk' := Kept.setTcb k t (switchTcb (k.tcb t)) rfl rfl
    refine ⟨⟨l, hq'.of_eq rfl rfl⟩, ?_, Or.inl hC⟩
    show Chain (k.setTcb t (switchTcb (k.tcb t))).listNext k.taskListHead C
    rw [hk'.listNext]
    exact h.list

/-- A task leaves the queue and gets a state in which it does not belong on
it. -/
theorem remove_setState_inv (h : TaskInv k C) (v : TaskState) (hv : v.runnable = false)
    (hk : rxRemoveFromReadyQ k t = .ok k') : TaskInv (k'.setState t v) C := by
  obtain ⟨l, hq⟩ := h.queue
  obtain ⟨hr, l', hb⟩ := hq.remove hk
  refine h.of_kept (hr.kept.trans (Kept.setState k' t v)) ((hb.setTcb _).queue fun _ => ?_)
  simpa using hv

/-- A task that is not on the queue changes its control block, but stays off
it. -/
theorem setTcb_inv {l : List (Fin n)} (h : TaskInv k C) (hq : Queue k C l) (ht : t ∉ l) (c : Tcb n)
    (hk : Kept k (k.setTcb t c)) (hc : t ∈ C → c.state.runnable = false) : TaskInv (k.setTcb t c) C :=
  h.of_kept hk (((hq.but ht).setTcb c).queue fun hC => by simpa using hc hC)

theorem rxAbortTask_inv (h : TaskInv k C) (hs : t = k.curr ∨ (k.tcb t).state ≠ .running)
    (hk : rxAbortTask k t = .ok (r, k')) : TaskInv k' C := by
  unfold rxAbortTask at hk
  split_ifs at hk with hc hready
  · obtain ⟨-, rfl⟩ := Prod.mk.inj (Except.ok.inj hk)
    exact h
  · obtain ⟨k1, hrem, hk⟩ := bind_eq_ok.mp hk
    obtain ⟨-, rfl⟩ := Prod.mk.inj (Except.ok.inj hk)
    exact remove_setState_inv h .abort rfl hrem
  · obtain ⟨k1, hk1, hk⟩ := bind_eq_ok.mp hk
    obtain rfl := Except.ok.inj hk1
    obtain ⟨-, rfl⟩ := Prod.mk.inj (Except.ok.inj hk)
    obtain ⟨l, hq⟩ := h.queue
    have hrun : (k.tcb t).state ≠ .running := hs.resolve_left hc
    refine setTcb_inv h hq (fun hm => ?_) _ (Kept.setState k t .abort) fun _ => rfl
    have := ((hq.mem t).mp hm).2
    cases hst : (k.tcb t).state <;> simp_all [TaskState.runnable]

theorem rxCompleteTask_inv (h : TaskInv k C) (hk : rxCompleteTask k t = .ok (r, k')) : TaskInv k' C := by
  unfold rxCompleteTask at hk
  split_ifs at hk with hc
  · obtain ⟨-, rfl⟩ := Prod.mk.inj (Except.ok.inj hk)
    exact h
  · obtain ⟨k1, hrem, hk⟩ := bind_eq_ok.mp hk
    obtain ⟨k2, hsched, hk⟩ := bind_eq_ok.mp hk
    obtain ⟨-, rfl⟩ := Prod.mk.inj (Except.ok.inj hk)
    exact rxSched_inv (remove_setState_inv h .complete rfl hrem) hsched

theorem rxSuspendTask_inv (h : TaskInv k C) {o : Option (Fin n)} (hk : rxSuspendTask k o = .ok (r, k')) :
    TaskInv k' C := by
  cases o with
  | none =>
    obtain ⟨k1, hrem, hk⟩ := bind_eq_ok.mp hk
    obtain ⟨k2, hsched, hk⟩ := bind_eq_ok.mp hk
    obtain ⟨-, rfl⟩ := Prod.mk.inj (Except.ok.inj hk)
    obtain ⟨l, hq⟩ := h.queue
    have hcur : k1.curr = k.curr := (hq.remove hrem).1.curr
    rw [hcur] at hsched
    exact rxSched_inv (remove_setState_inv h .suspend rfl hrem) hsched
  | some t =>
    simp only [rxSuspendTask] at hk
    split_ifs at hk with hready
    · obtain ⟨k1, hrem, hk⟩ := bind_eq_ok.mp hk
      obtain ⟨-, rfl⟩ := Prod.mk.inj (Except.ok.inj hk)
      exact remove_setState_inv h .suspend rfl hrem
    · obtain ⟨-, rfl⟩ := Prod.mk.inj (Except.ok.inj hk)
      exact h

theorem rxResumeTask_inv (h : TaskInv k C) (hC : t ∈ C) (hk : rxResumeTask k t = .ok (r, k')) :
    TaskInv k' C := by
  unfold rxResumeTask at hk
  split_ifs at hk with hne
  · obtain ⟨-, rfl⟩ := Prod.mk.inj (Except.ok.inj hk)
    exact h
  · have hs : (k.tcb t).state = .suspend := not_not.mp hne
    obtain ⟨l, hq⟩ := h.queue
    have hnot : t ∉ l := fun hm => by simpa [hs] using ((hq.mem t).mp hm).2
    obtain ⟨k1, l1, hadd, hr, hq1⟩ := ((hq.but hnot).setTcb { k.tcb t with state := .ready }).add hC (by simp)
    obtain ⟨⟨e, k2⟩, hadd', hk⟩ := bind_eq_ok.mp hk
    obtain ⟨-, rfl⟩ := Prod.mk.inj (Except.ok.inj (hadd.symm.trans hadd'))
    obtain ⟨-, rfl⟩ := Prod.mk.inj (Except.ok.inj hk)
    exact h.of_kept ((Kept.setState k t .ready).trans hr.kept) hq1

/-- The running task's turn is over or goes on: either way the queue is kept. -/
theorem timeSliceTick_inv (h : TaskInv k C) (hk : timeSliceTick k = .ok k') : TaskInv k' C := by
  unfold timeSliceTick at hk
  simp only at hk
  split_ifs at hk with hpos hzero
  · have hC : k.curr ∈ C := h.curr.resolve_right (by omega)
    obtain ⟨l, hq⟩ := h.queue
    set c := k.tcb k.curr with hc
    set k1 := k.setTcb k.curr { c with ticks := c.ticks - 1 } with hk1
    have hq1 : Queue k1 C l := hq.setTcb k.curr _ rfl rfl rfl
    have hkept1 : Kept k k1 := Kept.setTcb k k.curr _ rfl rfl
    obtain ⟨k2, hrem, hk⟩ := bind_eq_ok.mp hk
    obtain ⟨hr2, l2, hb2⟩ := hq1.remove hrem
    have hcur2 : k2.curr = k.curr := hr2.curr.trans hkept1.curr
    rw [hcur2] at hk
    have hrem' : k1.curr = k.curr := rfl
    rw [hrem'] at hb2
    obtain ⟨k3, l3, hadd, hr3, hq3⟩ := (hb2.setTcb { k2.tcb k.curr with state := .ready }).add hC (by simp)
    obtain ⟨⟨e, k3'⟩, hadd', hk⟩ := bind_eq_ok.mp hk
    obtain ⟨-, rfl⟩ := Prod.mk.inj (Except.ok.inj (hadd.symm.trans hadd'))
    have hkept3 : Kept k k3 := hkept1.trans (hr2.kept.trans ((Kept.setState k2 k.curr .ready).trans hr3.kept))
    have hst3 : (k3.tcb k.curr).state = .ready := by
      rw [hr3.state]
      simp
    simp only at hk
    split_ifs at hk with hhead
    · obtain rfl := Except.ok.inj hk
      exact h.of_kept (hkept3.trans (Kept.of_eq rfl rfl rfl)) (hq3.of_eq rfl rfl)
    · obtain rfl := Except.ok.inj hk
      refine h.of_kept (hkept3.trans (Kept.setTcb k3 k3.curr _ rfl rfl)) (hq3.setTcb _ _ rfl rfl ?_)
      rw [hkept3.curr, hst3]
      rfl
  · obtain rfl := Except.ok.inj hk
    obtain ⟨l, hq⟩ := h.queue
    exact h.of_kept (Kept.setTcb k k.curr _ rfl rfl) (hq.setTcb k.curr _ rfl rfl rfl)
  · obtain rfl := Except.ok.inj hk
    exact h

theorem preempt_inv (h : TaskInv k C)
    (hs : k.needResched = true → k.curr ∈ C → (k.tcb k.curr).state.runnable = true) :
    TaskInv (preempt k) C := by
  unfold preempt
  split_ifs with hres
  · obtain ⟨l, hq⟩ := h.queue
    set k1 : Kernel n := { k with needResched := false } with hk1
    have h1 : TaskInv k1 C := h.of_kept (Kept.of_eq rfl rfl rfl) (hq.of_eq rfl rfl)
    have hq1 : Queue k1 C l := hq.of_eq rfl rfl
    by_cases hC : k.curr ∈ C
    · exact h1.of_kept (Kept.setState k1 _ _) (hq1.setTcb _ _ rfl rfl (hs hres hC).symm)
    · apply setTcb_inv h1 hq1 (fun hm => hC ((hq.mem _).mp hm).1) _ (Kept.setState k1 _ _)
      intro hm
      exact absurd hm hC
  · exact h

/-- A priority changed in place keeps the order exactly if it fits there. -/
theorem pairwise_setPrio {a b : List (Fin n)} {p : ℤ} (hnd : (a ++ t :: b).Nodup)
    (hs : (a ++ t :: b).Pairwise fun x y => (k.tcb x).prio ≤ (k.tcb y).prio) :
    ((a ++ t :: b).Pairwise fun x y => ((k.setPrio t p).tcb x).prio ≤ ((k.setPrio t p).tcb y).prio) ↔
      (∀ x ∈ a, (k.tcb x).prio ≤ p) ∧ ∀ x ∈ b, p ≤ (k.tcb x).prio := by
  have hta : ∀ x ∈ a, x ≠ t := fun x hx he => (List.nodup_append.mp hnd).2.2 x hx t List.mem_cons_self he
  have htb : ∀ x ∈ b, x ≠ t := fun x hx he =>
    (List.nodup_cons.mp (List.nodup_append.mp hnd).2.1).1 (he ▸ hx)
  have hself : ((k.setPrio t p).tcb t).prio = p := by simp [Kernel.setPrio]
  have hother : ∀ x, x ≠ t → ((k.setPrio t p).tcb x).prio = (k.tcb x).prio := by
    intro x hx
    simp [Kernel.setPrio, hx]
  constructor
  · intro h
    obtain ⟨-, htb', hab⟩ := List.pairwise_append.mp h
    refine ⟨fun x hx => ?_, fun x hx => ?_⟩
    · simpa only [hself, hother x (hta x hx)] using hab x hx t List.mem_cons_self
    · simpa only [hself, hother x (htb x hx)] using (List.pairwise_cons.mp htb').1 x hx
  · rintro ⟨ha, hb⟩
    obtain ⟨hsa, hstb, hab⟩ := List.pairwise_append.mp hs
    refine List.pairwise_append.mpr ⟨?_, List.pairwise_cons.mpr ⟨fun x hx => ?_, ?_⟩, fun x hx y hy => ?_⟩
    · refine hsa.imp_of_mem fun hx hy hxy => ?_
      rwa [hother _ (hta _ hx), hother _ (hta _ hy)]
    · rw [hself, hother x (htb x hx)]
      exact hb x hx
    · refine (List.pairwise_cons.mp hstb).2.imp_of_mem fun hx hy hxy => ?_
      rwa [hother _ (htb _ hx), hother _ (htb _ hy)]
    · rw [hother x (hta x hx)]
      rcases List.mem_cons.mp hy with rfl | hy
      · rw [hself]; exact ha x hx
      · rw [hother y (htb y hy)]
        exact hab x hx y (List.mem_cons_of_mem _ hy)

theorem rxSetTaskPrio_inv (h : TaskInv k C) (hC : t ∈ C) {p : ℤ}
    (hs : (k.tcb t).state = .running → PrioNoop k t p ∨ InPlace k t p)
    (hk : rxSetTaskPrio k t p = .ok (r, k')) : TaskInv k' C := by
  unfold rxSetTaskPrio at hk
  obtain ⟨l, hq⟩ := h.queue
  have hst : ((k.setPrio t p).tcb t).state = (k.tcb t).state := by simp [Kernel.setPrio]
  have hstate : ∀ x, ((k.setPrio t p).tcb x).state = (k.tcb x).state := by
    intro x
    by_cases hx : x = t
    · subst hx; exact hst
    · simp [Kernel.setPrio, hx]
  split_ifs at hk with hno
  · obtain ⟨-, rfl⟩ := Prod.mk.inj (Except.ok.inj hk)
    exact h
  · simp only [hst] at hk
    split_ifs at hk with hready
    · -- a ready task is taken out and put back
      obtain ⟨k1, hrem, hk⟩ := bind_eq_ok.mp hk
      have hchain : Chain (k.setPrio t p).next (k.setPrio t p).readyHead l := by
        rw [Kernel.next_setPrio]; exact hq.chain
      have herase : (l.erase t).Pairwise fun x y =>
          ((k.setPrio t p).tcb x).prio ≤ ((k.setPrio t p).tcb y).prio := by
        refine (hq.sorted.sublist List.erase_sublist).imp_of_mem fun {x y} hx hy hxy => ?_
        have hne : ∀ z ∈ l.erase t, z ≠ t := fun z hz he =>
          hq.chain.nodup.not_mem_erase (he ▸ hz)
        simpa [Kernel.setPrio, hne x hx, hne y hy] using hxy
      obtain ⟨hr1, l1, hb1⟩ := queueBut_of_remove (C := C) hchain herase
        (fun x _ => by rw [hstate]; exact hq.mem x) hrem
      have hst1 : (k1.tcb t).state.runnable = true := by rw [hr1.state, hst, hready]; rfl
      obtain ⟨k2, l2, hadd, hr2, hq2⟩ := hb1.add hC hst1
      obtain ⟨⟨e, k2'⟩, hadd', hk⟩ := bind_eq_ok.mp hk
      obtain ⟨-, rfl⟩ := Prod.mk.inj (Except.ok.inj (hadd.symm.trans hadd'))
      obtain ⟨-, rfl⟩ := Prod.mk.inj (Except.ok.inj hk)
      exact h.of_kept ((Kept.setPrio k t p).trans (hr1.kept.trans hr2.kept)) hq2
    · obtain ⟨-, rfl⟩ := Prod.mk.inj (Except.ok.inj hk)
      by_cases hm : t ∈ l
      · -- a running task keeps its place
        have hrun : (k.tcb t).state = .running := by
          have := ((hq.mem t).mp hm).2
          cases hst : (k.tcb t).state <;> simp_all [TaskState.runnable]
        have hin := (hs hrun).resolve_left hno
        obtain ⟨a, b, rfl⟩ := List.append_of_mem hm
        refine h.of_kept (Kept.setPrio k t p) (l := a ++ t :: b) ⟨?_, ?_, fun x => ?_⟩
        · rw [Kernel.next_setPrio]; exact hq.chain
        · exact (pairwise_setPrio hq.chain.nodup hq.sorted).mpr (hin a b hq.chain)
        · rw [hstate]; exact hq.mem x
      · apply setTcb_inv h hq hm _ (Kept.setPrio k t p)
        intro _
        have := mt (hq.mem t).mpr hm
        simpa [hC] using this

/-- The new task joins the end of the global list. -/
theorem addToTaskList_inv (hq : ∃ l, Queue k (C ++ [t]) l) (hl : Chain k.listNext k.taskListHead C)
    (ht : t ∉ C) (hnone : (k.tcb t).list = none)
    (hcur : k.curr ∈ C ++ [t] ∨ (k.tcb k.curr).timeSlice ≤ 0) (hk : addToTaskList k t = .ok k') :
    TaskInv k' (C ++ [t]) := by
  obtain ⟨hrest, htcb⟩ := addToTaskList_frame hk
  obtain ⟨l, hq⟩ := hq
  have hhead : k'.readyHead = k.readyHead := by rw [hrest]
  have hcurr : k'.curr = k.curr := by rw [hrest]
  have hnext : k'.next = k.next := funext fun u => by simp only [Kernel.next]; rw [htcb u]
  refine ⟨⟨l, ?_, ?_, fun u => ?_⟩, addToTaskList_chain hl ht hnone hk, ?_⟩
  · rw [hnext, hhead]
    exact hq.chain
  · refine hq.sorted.imp fun {u v} huv => ?_
    rw [htcb u, htcb v]
    exact huv
  · rw [htcb u]
    exact hq.mem u
  · rw [hcurr, htcb]
    exact hcur

theorem addIfReady_relinked {v : TaskState} (hk : addIfReady k t v = .ok k') :
    Relinked k k' ∧ (k.needResched = true → k'.needResched = true) := by
  unfold addIfReady at hk
  split_ifs at hk
  · obtain ⟨⟨e, x⟩, hadd, rfl⟩ := map_eq_ok.mp hk
    exact ⟨rxAddToReadyQ_relinked hadd, rxAddToReadyQ_needResched hadd⟩
  · obtain rfl := Except.ok.inj hk
    exact ⟨Relinked.refl _, id⟩

/-- `rx_create_task` fails and leaves the kernel alone, or it fills in the
control block; the links of the two lists apart, the others are as they were. -/
theorem rxCreateTask_frame {a : TaskArgs} (hk : rxCreateTask k t a = .ok (r, k')) :
    (r = .osErr ∧ k' = { k with port := k'.port }) ∨
    (r = .osOk ∧ ∃ stack,
      k' = { k with
        tcb := k'.tcb, readyHead := k'.readyHead, needResched := k'.needResched, port := k'.port
        taskListHead := k'.taskListHead, numTask := k'.numTask, currStackPtr := k'.currStackPtr } ∧
      (k.needResched = true → k'.needResched = true) ∧
      ∀ u, k'.tcb u =
        { (if u = t then initTcb (k.tcb t) a stack else k.tcb u) with next := k'.next u, list := k'.listNext u }) := by
  rcases rxCreateTask_cases hk with ⟨rfl, rfl | ⟨-, rfl⟩⟩ | ⟨stack, k1, k3, k4, halloc, hk3, hk4, rfl, rfl⟩
  · exact Or.inl ⟨rfl, rfl⟩
  · exact Or.inl ⟨rfl, rfl⟩
  · have h1 := allocStack_frame halloc
    set k2 := k1.setTcb t (initTcb (k1.tcb t) a stack) with hk2
    have h3 := addIfReady_relinked hk3
    have h4 := addToTaskList_frame hk4
    set k5 := { k4 with numTask := k4.numTask + 1 }.exitCritical with hk5
    -- what the four parts change, taken from the result
    let F : Kernel n → Kernel n := fun x =>
      { x with
        tcb := k5.tcb, readyHead := k5.readyHead, needResched := k5.needResched, port := k5.port
        taskListHead := k5.taskListHead, numTask := k5.numTask, currStackPtr := k5.currStackPtr }
    have hrest : k5 = F k := calc
      k5 = F k4 := rfl
      _ = F k3 := (congrArg F h4.1 :)
      _ = F k2 := (congrArg F h3.1.rest :)
      _ = F k1 := rfl
      _ = F k := (congrArg F h1 :)
    refine Or.inr ⟨rfl, stack, hrest, fun hres => ?_, fun u => ?_⟩
    · have hres1 : k1.needResched = k.needResched := by rw [h1]; rfl
      have hres4 : k4.needResched = k3.needResched := by rw [h4.1]
      show k4.needResched = true
      rw [hres4]
      exact h3.2 (hres1.trans hres)
    · have hnext : k4.next u = k3.next u := by
        simp only [Kernel.next]
        rw [h4.2 u]
      have h2 : k2.tcb u = if u = t then initTcb (k.tcb t) a stack else k.tcb u := by
        have htcb : k1.tcb = k.tcb := by rw [h1]; rfl
        by_cases hu : u = t
        · subst hu; simp [hk2, htcb]
        · simp [hk2, hu, htcb]
      rw [← h2]
      show k4.tcb u = { k2.tcb u with next := k4.next u, list := k4.listNext u }
      rw [hnext, h4.2 u, h3.1.tcb u]

theorem rxCreateTask_inv (h : TaskInv k C) {a : TaskArgs} (ht : t ∉ C)
    (ha : a.state = .ready ∨ a.state = .suspend) (hk : rxCreateTask k t a = .ok (r, k')) :
    TaskInv k' ((TaskCall.create t a).created C r) := by
  obtain ⟨l, hq⟩ := h.queue
  rcases rxCreateTask_cases hk with ⟨rfl, rfl | ⟨-, rfl⟩⟩ | ⟨stack, k1, k3, k4, halloc, hk3, hk4, rfl, rfl⟩
  · exact h
  · exact h.of_kept (Kept.of_eq rfl rfl rfl) (hq.of_eq rfl rfl)
  · have h1 := allocStack_frame halloc
    have htcb : k1.tcb = k.tcb := by rw [h1]; rfl
    have hhead : k1.readyHead = k.readyHead := by rw [h1]; rfl
    have hlist : k1.taskListHead = k.taskListHead := by rw [h1]; rfl
    have hcurr : k1.curr = k.curr := by rw [h1]; rfl
    set c := initTcb (k1.tcb t) a stack with hc
    have hcn : c.list = none := rfl
    set k2 := k1.setTcb t c with hk2
    have hq1 : Queue k1 C l := hq.of_eq htcb hhead
    have hb2 : QueueBut t k2 (C ++ [t]) l := by
      have hb := ((hq1.but fun hm => ht ((hq.mem t).mp hm).1).setTcb c)
      refine ⟨hb.chain, hb.sorted, hb.notMem, fun x hx => ?_⟩
      rw [hb.mem x hx, List.mem_append, List.mem_singleton, or_iff_left hx]
    have hl2 : Chain k2.listNext k2.taskListHead C := by
      show Chain k2.listNext k1.taskListHead C
      rw [hlist]
      apply h.list.congr
      intro x hx
      have hxt : x ≠ t := ne_of_mem_of_not_mem hx ht
      simp [Kernel.listNext, hk2, hxt, htcb]
    have hcur2 : k2.curr ∈ C ++ [t] ∨ (k2.tcb k2.curr).timeSlice ≤ 0 := by
      show k1.curr ∈ _ ∨ (Function.update k1.tcb t c k1.curr).timeSlice ≤ 0
      rw [hcurr]
      by_cases hx : k.curr = t
      · exact Or.inl (by simp [hx])
      · rw [Function.update_of_ne hx, htcb]
        exact h.curr.imp (List.mem_append_left _) id
    -- the queue after the new task is put on it, or not
    have h3 : (∃ l3, Queue k3 (C ++ [t]) l3) ∧ Kept k2 k3 ∧ (k3.tcb t).list = none := by
      rcases ha with ha | ha
      · obtain ⟨k3', l3, hadd, hr, hq3⟩ := hb2.add (by simp) (by simp [hk2, hc, initTcb, ha])
        rw [addIfReady, if_pos ha, hadd] at hk3
        obtain rfl := Except.ok.inj hk3
        refine ⟨⟨l3, hq3⟩, hr.kept, ?_⟩
        rw [hr.tcb]
        simp [hk2, hcn]
      · rw [addIfReady, if_neg (by rw [ha]; decide)] at hk3
        obtain rfl := Except.ok.inj hk3
        refine ⟨⟨l, hb2.queue fun _ => by simp [hk2, hc, initTcb, ha]⟩, Kept.of_eq rfl rfl rfl, ?_⟩
        simp [hk2, hcn]
    obtain ⟨hq3, hkept, hnone⟩ := h3
    have h4 := addToTaskList_inv hq3 (by rw [hkept.listNext, hkept.listHead]; exact hl2) ht hnone
      (by rw [hkept.curr, hkept.slice]; exact hcur2) hk4
    obtain ⟨l4, hq4⟩ := h4.queue
    exact h4.of_kept (Kept.of_eq rfl rfl rfl) (hq4.of_eq rfl rfl)

end Calls

/-- A step is an admissible call that returns. -/
theorem step_eq {s s' : TaskSys n} {c : TaskCall n} (hst : s.Step c s') : c.Admissible s.created ∧
    ∃ r, c.exec s.k = .ok (r, s'.k) ∧ s'.created = c.created s.created r := by
  unfold TaskSys.Step TaskSys.step at hst
  split_ifs at hst with hadm
  split at hst
  · rename_i r k' hex
    obtain rfl := Option.some.inj hst
    exact ⟨hadm, r, hex, rfl⟩
  · cases hst

/-- A safe call keeps the invariant. -/
theorem step_inv {s s' : TaskSys n} {c : TaskCall n} (h : TaskInv s.k s.created) (hs : CallSafe s c)
    (hst : s.Step c s') : TaskInv s'.k s'.created := by
  obtain ⟨hadm, r, hex, hC⟩ := step_eq hst
  rw [hC]
  cases c with
  | create t a => exact rxCreateTask_inv h hadm.1 hadm.2 hex
  | suspend o => exact rxSuspendTask_inv h hex
  | resume t => exact rxResumeTask_inv h hadm hex
  | setPrio t p => exact rxSetTaskPrio_inv h hadm hs hex
  | abort t => exact rxAbortTask_inv h hs hex
  | complete t => exact rxCompleteTask_inv h hex
  | sched =>
    obtain ⟨k1, hk1, he⟩ := map_eq_ok.mp hex
    obtain rfl : k1 = s'.k := (Prod.mk.inj he).2
    exact rxSched_inv h hk1
  | tick =>
    obtain ⟨k1, hk1, he⟩ := map_eq_ok.mp hex
    rw [← (Prod.mk.inj he).2]
    obtain ⟨l, hq⟩ := h.queue
    have h0 : TaskInv (irqEnter s.k) s.created := h.of_kept (Kept.of_eq rfl rfl rfl) (hq.of_eq rfl rfl)
    have h1 := timeSliceTick_inv h0 hk1
    obtain ⟨l1, hq1⟩ := h1.queue
    exact h1.of_kept (Kept.of_eq rfl rfl rfl) (hq1.of_eq rfl rfl)
  | preempt =>
    rw [← (Prod.mk.inj (Except.ok.inj hex)).2]
    exact preempt_inv h hs

/-! ### What the other calls break -/

theorem runnable_iff (v : TaskState) : v.runnable = true ↔ v = .ready ∨ v = .running := by
  cases v <;> simp [TaskState.runnable]

theorem TaskInv.readyQueueOK {s : TaskSys n} (h : TaskInv s.k s.created) : ReadyQueueOK s := by
  obtain ⟨l, hq⟩ := h.queue
  exact ⟨l, hq.chain, hq.chain.nodup, hq.sorted, fun t => by rw [hq.mem t, runnable_iff]⟩

section Unsafe

variable {k k' : Kernel n} {C : List (Fin n)} {t : Fin n} {r : OsErr} {p : ℤ}

/-- The aborted task stays on the queue. -/
theorem not_readyQueueOK_of_abort (h : TaskInv k C) (hC : t ∈ C) (hcur : t ≠ k.curr)
    (hrun : (k.tcb t).state = .running) (hk : rxAbortTask k t = .ok (r, k')) : ¬ ReadyQueueOK ⟨k', C⟩ := by
  rintro ⟨l', hc', -, -, hm'⟩
  obtain ⟨l, hq⟩ := h.queue
  have hkk : k' = k.setState t .abort := by
    unfold rxAbortTask at hk
    rw [if_neg hcur, if_neg (by rw [hrun]; decide)] at hk
    exact (Prod.mk.inj (Except.ok.inj hk)).2.symm
  subst hkk
  have hl : l' = l := by
    simp only [Kernel.next_setState] at hc'
    exact Chain.unique hc' hq.chain
  have hmem : t ∈ l := (hq.mem t).mpr ⟨hC, by rw [hrun]; rfl⟩
  have := ((hm' t).mp (hl ▸ hmem)).2
  simp [Kernel.setState] at this

/-- The queue is not sorted by the new priority. -/
theorem not_readyQueueOK_of_setPrio (h : TaskInv k C) (hrun : (k.tcb t).state = .running)
    (hno : ¬ PrioNoop k t p) (hin : ¬ InPlace k t p) (hk : rxSetTaskPrio k t p = .ok (r, k')) :
    ¬ ReadyQueueOK ⟨k', C⟩ := by
  rintro ⟨l', hc', -, hs', -⟩
  obtain ⟨l, hq⟩ := h.queue
  have hst : ((k.setPrio t p).tcb t).state = .running := by simpa [Kernel.setPrio] using hrun
  have hkk : k' = k.setPrio t p := by
    unfold PrioNoop at hno
    unfold rxSetTaskPrio at hk
    rw [if_neg hno] at hk
    simp only [hst] at hk
    exact (Prod.mk.inj (Except.ok.inj hk)).2.symm
  subst hkk
  apply hin
  intro a b hab
  have hl : l' = a ++ t :: b := by
    simp only [Kernel.next_setPrio] at hc'
    exact Chain.unique hc' hab
  have hl2 : l = a ++ t :: b := Chain.unique hq.chain hab
  subst hl2
  rw [hl] at hs'
  exact (pairwise_setPrio hab.nodup hq.sorted).mp hs'

/-- The preempted task is ready and not on the queue. -/
theorem not_readyQueueOK_of_preempt (h : TaskInv k C) (hres : k.needResched = true) (hC : k.curr ∈ C)
    (hrun : (k.tcb k.curr).state.runnable ≠ true) : ¬ ReadyQueueOK ⟨preempt k, C⟩ := by
  rintro ⟨l', hc', -, -, hm'⟩
  obtain ⟨l, hq⟩ := h.queue
  unfold preempt at hc' hm'
  rw [if_pos hres] at hc' hm'
  have hl : l' = l := by
    simp only [Kernel.next_setState] at hc'
    exact Chain.unique hc' hq.chain
  have hmem : k.curr ∈ l' := (hm' k.curr).mpr ⟨hC, by simp [Kernel.setState]⟩
  exact hrun ((hq.mem _).mp (hl ▸ hmem)).2

end Unsafe

theorem step_unsafe {s s' : TaskSys n} {c : TaskCall n} (h : TaskInv s.k s.created) (hs : ¬ CallSafe s c)
    (hst : s.Step c s') : ¬ ReadyQueueOK s' := by
  obtain ⟨hadm, r, hex, hC⟩ := step_eq hst
  obtain ⟨k', C'⟩ := s'
  cases c with
  | abort t =>
    simp only [CallSafe, not_or, not_not] at hs
    obtain rfl : C' = s.created := hC
    exact not_readyQueueOK_of_abort h hadm hs.1 hs.2 hex
  | setPrio t p =>
    simp only [CallSafe, Classical.not_imp, not_or] at hs
    obtain rfl : C' = s.created := hC
    exact not_readyQueueOK_of_setPrio h hs.1 hs.2.1 hs.2.2 hex
  | preempt =>
    simp only [CallSafe, Classical.not_imp] at hs
    obtain rfl : C' = s.created := hC
    obtain rfl : preempt s.k = k' := (Prod.mk.inj (Except.ok.inj hex)).2
    exact not_readyQueueOK_of_preempt h hs.1 hs.2.1 hs.2.2
  | create | suspend | resume | complete | sched | tick => exact absurd trivial hs

theorem Booted.inv {s : TaskSys n} {idle : Fin n} (h : Booted s idle) : TaskInv s.k s.created := by
  refine ⟨⟨[idle], h.queue, List.pairwise_singleton _ _, fun t => ?_⟩, h.created ▸ h.list, ?_⟩
  · rw [h.created, List.mem_singleton]
    exact ⟨fun ht => ⟨ht, ht ▸ h.ready⟩, And.left⟩
  · rw [h.created]
    exact h.curr.imp (fun hc => by simp [hc]) le_of_eq

/-- **The ready queue over whole runs.** The states of a run from boot all
have a well-formed ready queue if and only if all calls of the run are safe. -/
theorem readyQueueOK_iff_callsSafe {s : TaskSys n} {idle : Fin n} (hb : Booted s idle)
    {tr : List (TaskCall n × TaskSys n)} (h : Run.Exec TaskSys.Step s tr) :
    (∀ x ∈ Run.states s tr, ReadyQueueOK x) ↔ Run.Guarded CallSafe s tr :=
  (h.guarded_iff (fun s => TaskInv s.k s.created) (fun _ => TaskInv.readyQueueOK) (fun _ _ _ => step_inv)
    (fun _ _ _ => step_unsafe) hb.inv).symm

/-! ### Runs -/

theorem TaskSys.exists_run (s : TaskSys n) (cs : List (TaskCall n))
    (p : List (TaskCall n × TaskSys n) → Bool) (h : (Run.trace TaskSys.step s cs).map p = some true) :
    ∃ tr, Run.Exec TaskSys.Step s tr ∧ p tr = true :=
  Run.exists_exec (fun _ _ _ h => h) cs p h

/-- The call is not a preemption and changes no RUNNING task's priority or
state from outside. -/
def TaskCall.namesNoRunning (s : TaskSys n) : TaskCall n → Bool
  | .abort t | .setPrio t _ => (s.k.tcb t).state ≠ .running
  | .preempt => false
  | _ => true

theorem callSafe_of_namesNoRunning {s : TaskSys n} {c : TaskCall n} (h : c.namesNoRunning s = true) :
    CallSafe s c := by
  cases c with
  | abort t => exact Or.inr (of_decide_eq_true h)
  | setPrio t p => exact fun hr => absurd hr (of_decide_eq_true h)
  | preempt => cases h
  | create | suspend | resume | complete | sched | tick => trivial

/-- No task exists yet; the system stack ends at 100000. -/
def bareKernel (t : Fin n) : Kernel n := { curr := t, stackStartPtr := 100000, currStackPtr := 100000 }

/-- Three control blocks; task 0 is idle, alone on the ready queue, and runs. -/
def bootSys : TaskSys 3 where
  k := {
    tcb := fun t => if t = 0 then { prio := 31, origPrio := 31, state := .running } else {}
    curr := 0
    readyHead := some 0
    taskListHead := some 0
    numTask := 1
    stackStartPtr := 81920
    currStackPtr := 81920 }
  created := [0]

theorem bootSys_booted : Booted bootSys 0 := by
  constructor <;> decide

instance (idle : Fin n) (s : TaskSys n) : ∀ c : TaskCall n, Decidable (NeverSuspends idle s c)
  | .suspend (some t) => inferInstanceAs (Decidable (t ≠ idle))
  | .suspend none => inferInstanceAs (Decidable (s.k.curr ≠ idle))
  | .create _ _ | .resume _ | .setPrio _ _ | .abort _ | .complete _ | .sched | .tick | .preempt =>
    inferInstanceAs (Decidable True)

/-- Task 1 suspends itself, is resumed, and given another priority while it is
ready. -/
def quietRun : List (TaskCall 3) :=
  [.create 1 { prio := 5, state := .ready, timeSlice := 1 }, .sched, .suspend none, .resume 1,
    .setPrio 1 7, .sched, .tick]

/-- Tasks 1 and 2 of equal priority with slices of two and one ticks; after each
tick the requested reschedule runs. -/
def rotatingRun : List (TaskCall 3) :=
  [.create 1 { prio := 5, state := .ready, timeSlice := 2 }, .sched,
    .create 2 { prio := 5, state := .ready, timeSlice := 1 }, .tick, .tick, .preempt, .sched, .tick, .preempt, .sched,
    .tick]

theorem readyQueueOK_quietRun : Booted bootSys 0 ∧ ∃ tr, Run.Exec TaskSys.Step bootSys tr ∧
    tr.length = 7 ∧ ∀ x ∈ Run.states bootSys tr, ReadyQueueOK x := by
  refine ⟨bootSys_booted, ?_⟩
  have hrun := TaskSys.exists_run bootSys quietRun
    (fun tr => decide (tr.length = 7 ∧ Run.Guarded (fun s c => c.namesNoRunning s = true) bootSys tr)) (by decide)
  obtain ⟨tr, hex, hp⟩ := hrun
  obtain ⟨hlen, hsafe⟩ := of_decide_eq_true hp
  exact ⟨tr, hex, hlen, (readyQueueOK_iff_callsSafe bootSys_booted hex).mpr
    (hsafe.mono fun _ _ => callSafe_of_namesNoRunning)⟩

/-- Task 1 yields to task 2, which aborts it. -/
def abortRun : List (TaskCall 3) :=
  [.create 1 { prio := 5, state := .ready }, .sched, .create 2 { prio := 1, state := .ready }, .sched,
    .abort 1]

/-- The aborted task is still on the ready queue: its state was left RUNNING
by the yield. -/
theorem aborted_task_on_ready_queue : ∃ tr, Run.Exec TaskSys.Step bootSys tr ∧
    Run.Guarded (NeverSuspends 0) bootSys tr ∧ ¬ ∀ x ∈ Run.states bootSys tr, ReadyQueueOK x := by
  obtain ⟨tr, hex, hp⟩ := TaskSys.exists_run bootSys abortRun
    (fun tr => decide (Run.Guarded (NeverSuspends 0) bootSys tr ∧ ∃ x ∈ Run.states bootSys tr,
      Chain x.k.next x.k.readyHead [2, 1, 0] ∧ (x.k.tcb 1).state = .abort)) (by decide)
  obtain ⟨hidle, x, hx, hc, habort⟩ := of_decide_eq_true hp
  refine ⟨tr, hex, hidle, fun hall => ?_⟩
  obtain ⟨l, hl, -, -, hm⟩ := hall x hx
  have h1 : (1 : Fin 3) ∈ l := by rw [Chain.unique hl hc]; decide
  have := ((hm 1).mp h1).2
  rw [habort] at this
  exact absurd this (by decide)

end Rosx
