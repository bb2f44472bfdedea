/-
# The state of the running task

A run of one processor: the tasks call the task services, interrupts come
between the calls, their handlers call services and run the tick, and at the
end of an interrupt a requested reschedule marks the interrupted task READY and
sends it to `rx_sched` (`sig_handler`). That `rx_sched` runs after the
interrupt has returned, so further interrupts may come before it, each with a
redirection of its own; a task is switched to in the middle of them
(`CpuSys.pending`).

While a dispatched task executes its own code it should be RUNNING and no other
task should be (`CpuSys.RunsAlone`). Two calls of `rx_sched` break it. It does not
touch the state of the task that it takes the processor from, so a voluntary
call that switches leaves two tasks RUNNING; and it does nothing at all for the
head of the queue, so a task that was preempted for a task that has left the
queue again goes on READY. Along the runs in which `rx_sched` switches exactly
away from tasks that are not RUNNING the property holds (`runsAlone_of_run`).

Key definitions: `CpuSys`, `CpuCall`, `CpuSys.RunsAlone`, `CpuSys.SchedSafe`.
-/
import Rosx.SchedRun

namespace Rosx

open Linked

variable {n : ℕ}

/-! ### The processor -/

/-- The kernel and the tasks created so far; whether an interrupt handler runs,
and how many calls of `rx_sched` each task was redirected to and has not made
yet. -/
structure CpuSys (n : ℕ) where
  k : Kernel n
  created : List (Fin n)
  irq : Bool := false
  pending : Fin n → ℕ := fun _ => 0

/-- A step of a run: a call by the task, an interrupt, a call or a tick of its
handler, the end of the interrupt, or the `rx_sched` it has redirected the task
to. -/
inductive CpuCall (n : ℕ) where
  | task (c : TaskCall n)
  | irq
  | isr (c : TaskCall n)
  | tick
  | iret
  | resched

/-- The services and the scheduler, which a task may call. -/
def TaskCall.byTask : TaskCall n → Bool
  | .tick | .preempt => false
  | _ => true

/-- The services that do not wait, which a handler may call. -/
def TaskCall.byHandler : TaskCall n → Bool
  | .create _ _ | .suspend (some _) | .resume _ | .setPrio _ _ | .abort _ => true
  | _ => false

namespace CpuSys

/-- A service call. -/
def call (s : CpuSys n) (c : TaskCall n) : Res (CpuSys n) :=
  (c.exec s.k).map fun x => { s with k := x.2, created := c.created s.created x.1 }

/-- What the step does. -/
def exec (s : CpuSys n) : CpuCall n → Res (CpuSys n)
  | .task c | .isr c => s.call c
  | .irq => .ok { s with k := irqEnter s.k, irq := true }
  | .tick => (timeSliceTick s.k).map fun k => { s with k := k }
  | .iret => .ok
    { s with
      k := irqExit (preempt s.k), irq := false
      pending := if s.k.needResched then Function.update s.pending s.k.curr (s.pending s.k.curr + 1) else s.pending }
  | .resched => (rxSched s.k).map fun k =>
    { s with k := k, pending := Function.update s.pending s.k.curr (s.pending s.k.curr - 1) }

/-- A service call names created tasks only, and creates neither one of them nor the
task that runs, which is the placeholder `__rx_init_task` if it is not created. -/
def Names (s : CpuSys n) : TaskCall n → Prop
  | .create t a => t ≠ s.k.curr ∧ (TaskCall.create t a).Admissible s.created
  | c => c.Admissible s.created

/-- Who may make the step: the task outside of interrupts and once it has made
the calls it was redirected to, the handler inside. -/
def Admissible (s : CpuSys n) : CpuCall n → Prop
  | .task c => s.irq = false ∧ s.pending s.k.curr = 0 ∧ c.byTask = true ∧ s.Names c
  | .irq => s.irq = false
  | .isr c => s.irq = true ∧ c.byHandler = true ∧ s.Names c
  | .tick | .iret => s.irq = true
  | .resched => s.irq = false ∧ 0 < s.pending s.k.curr

/-- One step of a run. -/
def Step (s : CpuSys n) (c : CpuCall n) (s' : CpuSys n) : Prop := s.Admissible c ∧ s.exec c = .ok s'

/-- A dispatched task executes its own code. -/
def Executing (s : CpuSys n) : Prop := s.irq = false ∧ s.pending s.k.curr = 0 ∧ s.k.curr ∈ s.created

/-- The executing task is RUNNING, and it is the only one. -/
def RunsAlone (s : CpuSys n) : Prop :=
  s.Executing → (s.k.tcb s.k.curr).state = .running ∧ ∀ u, u ≠ s.k.curr → (s.k.tcb u).state ≠ .running

/-- A voluntary `rx_sched` does not switch, and one that a task was redirected
to switches exactly if the task is not RUNNING. -/
def SchedSafe (s : CpuSys n) : CpuCall n → Prop
  | .task .sched => s.k.curr ∈ s.created → s.k.readyHead = some s.k.curr
  | .resched => s.k.readyHead = some s.k.curr ↔ (s.k.tcb s.k.curr).state = .running
  | _ => True

/-- The kernel after boot: the idle task is created and alone on the ready
queue, and runs or is about to be switched to from the placeholder. -/
structure Init (s : CpuSys n) (idle : Fin n) : Prop where
  created : s.created = [idle]
  queue : Chain s.k.next s.k.readyHead [idle]
  ready : (s.k.tcb idle).state.runnable = true
  running : ∀ u, (s.k.tcb u).state = .running ↔ u = s.k.curr ∧ u = idle
  curr : s.k.curr = idle ∨ (s.k.tcb s.k.curr).timeSlice = 0
  irq : s.irq = false
  pending : ∀ u, s.pending u = 0

/-! ### The invariant -/

/-- The ready queue; at most the running task is RUNNING, and it is if it is
dispatched and neither redirected nor, inside an interrupt, about to be. -/
structure Inv (s : CpuSys n) : Prop where
  queue : ∃ l, OnQueue s.k s.created l
  only : ∀ u, u ≠ s.k.curr → (s.k.tcb u).state ≠ .running
  boot : s.k.curr ∉ s.created → (s.k.tcb s.k.curr).state ≠ .running
  curr : s.k.curr ∈ s.created → s.pending s.k.curr = 0 → (s.irq = true → s.k.needResched = false) →
    (s.k.tcb s.k.curr).state = .running

theorem Inv.runsAlone {s : CpuSys n} (h : Inv s) : s.RunsAlone := by
  rintro ⟨hirq, hpend, hC⟩
  refine ⟨h.curr hC hpend fun hi => ?_, h.only⟩
  rw [hirq] at hi
  cases hi

theorem Init.inv {s : CpuSys n} {idle : Fin n} (h : Init s idle) : Inv s := by
  have hmem : s.k.curr ∈ s.created ↔ s.k.curr = idle := by rw [h.created, List.mem_singleton]
  refine ⟨⟨[idle], h.queue, fun u hu => ?_, ?_⟩, fun u hu hrun => ?_, fun hC hrun => ?_, fun hC _ _ => ?_⟩
  · rw [List.mem_singleton.mp hu, h.created]
    exact ⟨by simp, h.ready⟩
  · rw [hmem]
    exact h.curr.imp id le_of_eq
  · exact hu ((h.running u).mp hrun).1
  · exact hC (hmem.mpr ((h.running _).mp hrun).2)
  · exact (h.running _).mpr ⟨rfl, hmem.mp hC⟩

/-- The call changes neither which task runs nor which tasks are RUNNING, and
keeps a request to reschedule. -/
structure Calm (k k' : Kernel n) : Prop where
  curr : k'.curr = k.curr
  running : ∀ u, (k'.tcb u).state = .running ↔ (k.tcb u).state = .running
  resched : k.needResched = true → k'.needResched = true

namespace Calm

variable {k k' k'' : Kernel n} {t : Fin n} {r : OsErr}

theorem refl (k : Kernel n) : Calm k k := ⟨rfl, fun _ => Iff.rfl, id⟩

theorem trans (h : Calm k k') (h' : Calm k' k'') : Calm k k'' :=
  ⟨h'.curr.trans h.curr, fun u => (h'.running u).trans (h.running u), fun hr => h'.resched (h.resched hr)⟩

theorem remove (hk : rxRemoveFromReadyQ k t = .ok k') : Calm k k' := by
  have hr := rxRemoveFromReadyQ_relinked hk
  refine ⟨hr.curr, fun u => by rw [hr.state], fun hres => ?_⟩
  rw [rxRemoveFromReadyQ_needResched hk]
  exact hres

theorem add (hk : rxAddToReadyQ k t = .ok (r, k')) : Calm k k' := by
  have hr := rxAddToReadyQ_relinked hk
  exact ⟨hr.curr, fun u => by rw [hr.state], rxAddToReadyQ_needResched hk⟩

/-- A task that is not RUNNING gets another state in which it is not. -/
theorem setTcb (k : Kernel n) (t : Fin n) {c : Tcb n} (ht : (k.tcb t).state ≠ .running)
    (hc : c.state ≠ .running) : Calm k (k.setTcb t c) := by
  refine ⟨rfl, fun u => ?_, id⟩
  by_cases hu : u = t
  · subst hu
    simp [ht, hc]
  · simp [hu]

theorem setPrio (k : Kernel n) (t : Fin n) (p : ℤ) : Calm k (k.setPrio t p) :=
  ⟨rfl, fun u => by rw [Kernel.setPrio_keeps k t u p Tcb.state fun _ => rfl], id⟩

theorem remove_setState (hk : rxRemoveFromReadyQ k t = .ok k') (ht : (k.tcb t).state ≠ .running) {v : TaskState}
    (hv : v ≠ .running) : Calm k (k'.setState t v) := by
  refine (remove hk).trans (setTcb k' t ?_ hv)
  rw [(rxRemoveFromReadyQ_relinked hk).state]
  exact ht

end Calm

section Calls

variable {k k' : Kernel n} {C l : List (Fin n)} {t : Fin n} {r : OsErr}

theorem suspend_calm (hk : rxSuspendTask k (some t) = .ok (r, k')) : Calm k k' := by
  simp only [rxSuspendTask] at hk
  split_ifs at hk with hready
  · obtain ⟨k1, hrem, hk⟩ := bind_eq_ok.mp hk
    obtain ⟨-, rfl⟩ := Prod.mk.inj (Except.ok.inj hk)
    exact .remove_setState hrem (by rw [hready]; decide) (by decide)
  · obtain ⟨-, rfl⟩ := Prod.mk.inj (Except.ok.inj hk)
    exact .refl k

theorem resume_calm (hk : rxResumeTask k t = .ok (r, k')) : Calm k k' := by
  unfold rxResumeTask at hk
  split_ifs at hk with hne
  · obtain ⟨-, rfl⟩ := Prod.mk.inj (Except.ok.inj hk)
    exact .refl k
  · obtain ⟨⟨e, k1⟩, hadd, hk⟩ := bind_eq_ok.mp hk
    obtain ⟨-, rfl⟩ := Prod.mk.inj (Except.ok.inj hk)
    exact (Calm.setTcb k t (by rw [not_not.mp hne]; decide) (by simp)).trans (.add hadd)

theorem setPrio_calm {p : ℤ} (hk : rxSetTaskPrio k t p = .ok (r, k')) : Calm k k' := by
  unfold rxSetTaskPrio at hk
  dsimp only at hk
  split_ifs at hk
  · obtain ⟨-, rfl⟩ := Prod.mk.inj (Except.ok.inj hk)
    exact .refl k
  · obtain ⟨k1, hrem, hk⟩ := bind_eq_ok.mp hk
    obtain ⟨⟨e, k2⟩, hadd, hk⟩ := bind_eq_ok.mp hk
    obtain ⟨-, rfl⟩ := Prod.mk.inj (Except.ok.inj hk)
    exact ((Calm.setPrio k t p).trans (.remove hrem)).trans (.add hadd)
  · obtain ⟨-, rfl⟩ := Prod.mk.inj (Except.ok.inj hk)
    exact .setPrio k t p

/-- Only the running task may be RUNNING, and that one is not aborted. -/
theorem abort_calm (hrun : t ≠ k.curr → (k.tcb t).state ≠ .running) (hk : rxAbortTask k t = .ok (r, k')) :
    Calm k k' := by
  unfold rxAbortTask at hk
  split_ifs at hk with hc hready
  · obtain ⟨-, rfl⟩ := Prod.mk.inj (Except.ok.inj hk)
    exact .refl k
  · obtain ⟨k1, hrem, hk⟩ := bind_eq_ok.mp hk
    obtain ⟨-, rfl⟩ := Prod.mk.inj (Except.ok.inj hk)
    exact .remove_setState hrem (hrun hc) (by decide)
  · obtain ⟨k1, hk1, hk⟩ := bind_eq_ok.mp hk
    obtain rfl := Except.ok.inj hk1
    obtain ⟨-, rfl⟩ := Prod.mk.inj (Except.ok.inj hk)
    exact .setTcb k t (hrun hc) (by simp)

theorem create_calm {a : TaskArgs} (hrun : (k.tcb t).state ≠ .running) (ha : a.state = .ready ∨ a.state = .suspend)
    (hk : rxCreateTask k t a = .ok (r, k')) : Calm k k' := by
  rcases rxCreateTask_frame hk with ⟨-, hk'⟩ | ⟨-, stack, hrest, hres, htcb⟩
  · rw [hk']
    exact ⟨rfl, fun _ => Iff.rfl, id⟩
  · refine ⟨by rw [hrest], fun u => ?_, hres⟩
    rw [htcb u]
    by_cases hu : u = t
    · subst hu
      rw [if_pos rfl]
      refine iff_of_false (fun h => ?_) hrun
      have hst : a.state = .running := h
      rcases ha with ha | ha <;> rw [ha] at hst <;> cases hst
    · rw [if_neg hu]

/-- The priority of any task, on the queue or not, may be changed. -/
theorem setPrio_onQueue {p : ℤ} (h : OnQueue k C l) (hC : t ∈ C) (hk : rxSetTaskPrio k t p = .ok (r, k')) :
    ∃ l', OnQueue k' C l' := by
  unfold rxSetTaskPrio at hk
  dsimp only at hk
  have h1 : OnQueue (k.setPrio t p) C l := h.setTcb t _ rfl rfl fun ht => (h.mem t ht).2
  split_ifs at hk with hno hready
  · obtain ⟨-, rfl⟩ := Prod.mk.inj (Except.ok.inj hk)
    exact ⟨l, h⟩
  · obtain ⟨k1, hrem, hk⟩ := bind_eq_ok.mp hk
    obtain ⟨⟨e, k2⟩, hadd, hk⟩ := bind_eq_ok.mp hk
    obtain ⟨-, rfl⟩ := Prod.mk.inj (Except.ok.inj hk)
    have hrun : (k1.tcb t).state.runnable = true := by
      rw [(rxRemoveFromReadyQ_relinked hrem).state, hready]
      rfl
    exact ⟨_, ((h1.remove hrem).add h.chain.nodup.not_mem_erase hC hrun hadd).2⟩
  · obtain ⟨-, rfl⟩ := Prod.mk.inj (Except.ok.inj hk)
    exact ⟨l, h1⟩

/-- A task that is not RUNNING is on the queue only if it is READY. -/
theorem abort_onQueue (h : OnQueue k C l) (hrun : t ≠ k.curr → (k.tcb t).state ≠ .running)
    (hk : rxAbortTask k t = .ok (r, k')) : ∃ l', OnQueue k' C l' := by
  unfold rxAbortTask at hk
  split_ifs at hk with hc hready
  · obtain ⟨-, rfl⟩ := Prod.mk.inj (Except.ok.inj hk)
    exact ⟨l, h⟩
  · obtain ⟨k1, hrem, hk⟩ := bind_eq_ok.mp hk
    obtain ⟨-, rfl⟩ := Prod.mk.inj (Except.ok.inj hk)
    exact ⟨_, h.remove_setState .abort hrem⟩
  · obtain ⟨k1, hk1, hk⟩ := bind_eq_ok.mp hk
    obtain rfl := Except.ok.inj hk1
    obtain ⟨-, rfl⟩ := Prod.mk.inj (Except.ok.inj hk)
    refine ⟨l, h.setTcb t _ rfl rfl fun ht => ?_⟩
    rcases (runnable_iff _).mp (h.mem t ht).2 with hst | hst
    · exact absurd hst hready
    · exact absurd hst (hrun hc)

/-- `rx_sched` by a task that has left the queue and is not RUNNING switches to
another one. -/
theorem sched_switches (h : OnQueue k C l) (hc : k.curr ∉ l) (hk : rxSched k = .ok k') :
    k'.curr ∈ C ∧ ∀ u, (k'.tcb u).state = if u = k'.curr then .running else (k.tcb u).state := by
  have hhead : ∀ {x}, k.readyHead = some x → x ∈ l := by
    intro x hx
    have hl := Seg.head h.chain
    rw [hx] at hl
    exact List.mem_of_head? hl.symm
  rcases rxSched_cases hk with ⟨-, hh⟩ | ⟨x, hh, -, rfl⟩
  · exact absurd (hhead hh) hc
  · refine ⟨(h.mem x (hhead hh)).1, fun u => ?_⟩
    show (Function.update k.tcb x (switchTcb (k.tcb x)) u).state = _
    by_cases hu : u = x
    · subst hu
      simp [switchTcb]
    · simp [hu]

end Calls

/-! ### What a step keeps -/

section Steps

variable {s s' : CpuSys n} {c : TaskCall n}

theorem call_eq (hk : s.call c = .ok s') : ∃ r k', c.exec s.k = .ok (r, k') ∧
    s' = { s with k := k', created := c.created s.created r } := by
  obtain ⟨⟨r, k'⟩, hex, rfl⟩ := map_eq_ok.mp hk
  exact ⟨r, k', hex, rfl⟩

theorem Names.admissible (h : s.Names c) : c.Admissible s.created := by
  cases c with
  | create t a => exact h.2
  | suspend | resume | setPrio | abort | complete | sched | tick | preempt => exact h

/-- The queue after any service call. -/
theorem Inv.onQueue (h : Inv s) (hn : s.Names c) {r : OsErr} {k' : Kernel n} (hk : c.exec s.k = .ok (r, k')) :
    ∃ l, OnQueue k' (c.created s.created r) l := by
  obtain ⟨l, hq⟩ := h.queue
  by_cases hp : c.keepsPrio = true
  · obtain ⟨l', hq', -⟩ := exec_follows hq hp hn.admissible hk
    exact ⟨l', hq'⟩
  · cases c with
    | setPrio t p => exact setPrio_onQueue hq hn hk
    | abort t => exact abort_onQueue hq (h.only t) hk
    | create | suspend | resume | complete | sched | tick | preempt => exact absurd rfl hp

/-- The calls that do not end in `rx_sched`. -/
theorem Inv.calm (h : Inv s) (hn : s.Names c) (hc : c.byHandler = true) {r : OsErr} {k' : Kernel n}
    (hk : c.exec s.k = .ok (r, k')) : Calm s.k k' := by
  cases c with
  | create t a => exact create_calm (h.only t hn.1) hn.2.2 hk
  | suspend o =>
    cases o with
    | none => cases hc
    | some t => exact suspend_calm hk
  | resume t => exact resume_calm hk
  | setPrio t p => exact setPrio_calm hk
  | abort t => exact abort_calm (h.only t) hk
  | complete | sched | tick | preempt => cases hc

/-- The placeholder is not created by a call. -/
theorem mem_created_iff (hn : s.Names c) (r : OsErr) :
    s.k.curr ∈ c.created s.created r ↔ s.k.curr ∈ s.created := by
  cases c with
  | create t a =>
    cases r with
    | osOk =>
      show _ ∈ s.created ++ [t] ↔ _
      rw [List.mem_append, List.mem_singleton, or_iff_left fun he => hn.1 he.symm]
    | osErr | eOsTimeout | eOsBusy | eOsUnavail | eOsQDel => exact Iff.rfl
  | suspend | resume | setPrio | abort | complete | sched | tick | preempt => exact Iff.rfl

theorem Inv.of_calm (h : Inv s) {C : List (Fin n)} {k' : Kernel n} (hq : ∃ l, OnQueue k' C l) (hcalm : Calm s.k k')
    (hC : s.k.curr ∈ C ↔ s.k.curr ∈ s.created) : Inv { s with k := k', created := C } := by
  refine ⟨hq, fun u hu hrun => ?_, fun hboot hrun => ?_, fun hcur hpend hirq => ?_⟩
  · rw [hcalm.curr] at hu
    exact h.only u hu ((hcalm.running u).mp hrun)
  · rw [hcalm.curr] at hboot hrun
    exact h.boot (fun hc => hboot (hC.mpr hc)) ((hcalm.running _).mp hrun)
  · rw [hcalm.curr] at hcur hpend ⊢
    refine (hcalm.running _).mpr (h.curr (hC.mp hcur) hpend fun hi => ?_)
    by_contra hres
    have hres' := hcalm.resched (by simpa using hres)
    rw [hirq hi] at hres'
    cases hres'

/-- Another task is switched to, and the one it takes the processor from is not
RUNNING. -/
theorem inv_of_switch {C : List (Fin n)} {k' : Kernel n} (pending : Fin n → ℕ) (irq : Bool)
    (hq : ∃ l, OnQueue k' C l) (hcur : k'.curr ∈ C) (hrun : ∀ u, (k'.tcb u).state = .running ↔ u = k'.curr) :
    Inv { k := k', created := C, irq := irq, pending := pending } := by
  refine ⟨hq, fun u hu hst => hu ((hrun u).mp hst), fun hboot => absurd hcur hboot, fun _ _ _ => ?_⟩
  exact (hrun _).mpr rfl

/-- The running task leaves the queue, gets a state `v` and calls `rx_sched`. -/
theorem Inv.leave (h : Inv s) {k1 k' : Kernel n} {v : TaskState} (hv : v ≠ .running)
    (hrem : rxRemoveFromReadyQ s.k s.k.curr = .ok k1) (hsched : rxSched (k1.setState s.k.curr v) = .ok k') :
    Inv { s with k := k' } := by
  obtain ⟨l, hq⟩ := h.queue
  have hr := rxRemoveFromReadyQ_relinked hrem
  have hq1 := hq.remove_setState v hrem
  have hcur1 : (k1.setState s.k.curr v).curr = s.k.curr := hr.curr
  have hnot : (k1.setState s.k.curr v).curr ∉ l.erase s.k.curr := by
    rw [hcur1]
    exact hq.chain.nodup.not_mem_erase
  obtain ⟨hC, hst⟩ := sched_switches hq1 hnot hsched
  refine inv_of_switch s.pending s.irq ⟨_, hq1.sched hsched⟩ hC fun u => ?_
  rw [hst]
  split_ifs with hu
  · exact iff_of_true rfl hu
  · refine iff_of_false (fun hrun => ?_) hu
    rw [state_setState] at hrun
    split_ifs at hrun with huc
    · exact hv hrun
    · rw [hr.state] at hrun
      exact h.only u huc hrun

/-- An `rx_sched` that switches exactly if the task is not RUNNING. -/
theorem Inv.sched (h : Inv s) {k' : Kernel n} (hsafe : s.k.readyHead = some s.k.curr ∨
      (s.k.tcb s.k.curr).state ≠ .running) (hk : rxSched s.k = .ok k') {pending : Fin n → ℕ}
    (hstay : s.k.readyHead = some s.k.curr → Inv { s with pending := pending }) :
    Inv { s with k := k', pending := pending } := by
  obtain ⟨l, hq⟩ := h.queue
  rcases rxSched_cases hk with ⟨rfl, hh⟩ | ⟨x, hh, hx, hk'⟩
  · exact hstay hh
  · have hne : (s.k.tcb s.k.curr).state ≠ .running :=
      hsafe.resolve_left fun he => hx (Option.some.inj (hh.symm.trans he))
    have hxl : x ∈ l := by
      have hl := Seg.head hq.chain
      rw [hh] at hl
      exact List.mem_of_head? hl.symm
    have hcur : k'.curr = x := by rw [hk']
    refine inv_of_switch pending s.irq ⟨l, hq.sched hk⟩ (by rw [hcur]; exact (hq.mem x hxl).1) fun u => ?_
    have hst : (k'.tcb u).state = (Function.update s.k.tcb x (switchTcb (s.k.tcb x)) u).state := by rw [hk']
    rw [hst, hcur]
    by_cases hu : u = x
    · subst hu
      simp [switchTcb]
    · rw [Function.update_of_ne hu]
      refine iff_of_false (fun hrun => ?_) hu
      by_cases huc : u = s.k.curr
      · subst huc; exact hne hrun
      · exact h.only u huc hrun

theorem Inv.task (h : Inv s) (hby : c.byTask = true) (hn : s.Names c)
    (hsafe : s.SchedSafe (.task c)) (hk : s.call c = .ok s') : Inv s' := by
  obtain ⟨r, k', hex, rfl⟩ := call_eq hk
  by_cases hc : c.byHandler = true
  · exact h.of_calm (h.onQueue hn hex) (h.calm hn hc hex) (mem_created_iff hn r)
  · cases c with
    | suspend o =>
      cases o with
      | none =>
        obtain ⟨k1, hrem, hk⟩ := bind_eq_ok.mp hex
        obtain ⟨k2, hsched, hk⟩ := bind_eq_ok.mp hk
        obtain ⟨-, rfl⟩ := Prod.mk.inj (Except.ok.inj hk)
        rw [(rxRemoveFromReadyQ_relinked hrem).curr] at hsched
        exact h.leave (by decide) hrem hsched
      | some t => exact absurd rfl hc
    | complete t =>
      have hex : rxCompleteTask s.k t = .ok (r, k') := hex
      unfold rxCompleteTask at hex
      split_ifs at hex with hcur
      · obtain ⟨-, rfl⟩ := Prod.mk.inj (Except.ok.inj hex)
        exact h
      · obtain ⟨k1, hrem, hk⟩ := bind_eq_ok.mp hex
        obtain ⟨k2, hsched, hk⟩ := bind_eq_ok.mp hk
        obtain ⟨-, rfl⟩ := Prod.mk.inj (Except.ok.inj hk)
        rw [not_not.mp hcur] at hrem hsched
        exact h.leave (by decide) hrem hsched
    | sched =>
      obtain ⟨k1, hsched, he⟩ := map_eq_ok.mp hex
      obtain ⟨-, rfl⟩ := Prod.mk.inj he
      refine h.sched ?_ hsched fun _ => h
      by_cases hC : s.k.curr ∈ s.created
      · exact Or.inl (hsafe hC)
      · exact Or.inr (h.boot hC)
    | create | resume | setPrio | abort => exact absurd rfl hc
    | tick | preempt => cases hby

/-- The tick of the handler: at the end of its slice the running task is READY
and a reschedule is requested, or it goes on. -/
theorem timeSliceTick_running {k k' : Kernel n} (hk : timeSliceTick k = .ok k') :
    k'.curr = k.curr ∧ (∀ u, u ≠ k.curr → (k'.tcb u).state = (k.tcb u).state) ∧
      (k.needResched = true → k'.needResched = true) ∧
      (0 < (k.tcb k.curr).timeSlice ∧ (k'.tcb k.curr).state = .running ∨
        (k'.tcb k.curr).state = (k.tcb k.curr).state ∨
        (k'.tcb k.curr).state = .ready ∧ k'.needResched = true) := by
  unfold timeSliceTick at hk
  dsimp only at hk
  split_ifs at hk with hpos hzero
  · obtain ⟨k2, hrem, hk⟩ := bind_eq_ok.mp hk
    obtain ⟨⟨e, k3⟩, hadd, hk⟩ := bind_eq_ok.mp hk
    have hr2 := rxRemoveFromReadyQ_relinked hrem
    have hr3 := rxAddToReadyQ_relinked hadd
    have hcur2 : k2.curr = k.curr := hr2.curr
    have hcur3 : k3.curr = k.curr := hr3.curr.trans hcur2
    have hst3 : ∀ u, (k3.tcb u).state = if u = k.curr then .ready else (k.tcb u).state := by
      intro u
      rw [hr3.state, state_setState, hcur2, hr2.state]
      split_ifs with hu
      · rfl
      · simp [hu]
    have hres3 : k.needResched = true → k3.needResched = true := fun hres =>
      rxAddToReadyQ_needResched hadd ((rxRemoveFromReadyQ_needResched hrem).trans hres)
    dsimp only at hk
    split_ifs at hk with hhead
    · obtain rfl := Except.ok.inj hk
      refine ⟨hcur3, fun u hu => ?_, fun _ => rfl, Or.inr (Or.inr ⟨?_, rfl⟩)⟩
      · exact (hst3 u).trans (if_neg hu)
      · exact (hst3 k.curr).trans (if_pos rfl)
    · obtain rfl := Except.ok.inj hk
      refine ⟨hcur3, fun u hu => ?_, hres3, Or.inl ⟨hpos, ?_⟩⟩
      · have hne : u ≠ k3.curr := by rw [hcur3]; exact hu
        rw [Kernel.setTcb_tcb, Function.update_of_ne hne, hst3, if_neg hu]
      · rw [Kernel.setTcb_tcb, hcur3, Function.update_self]
  · obtain rfl := Except.ok.inj hk
    refine ⟨rfl, fun u _ => ?_, id, Or.inr (Or.inl ?_)⟩
    · exact k.setTcb_keeps k.curr u Tcb.state rfl
    · exact k.setTcb_keeps k.curr k.curr Tcb.state rfl
  · obtain rfl := Except.ok.inj hk
    exact ⟨rfl, fun _ _ => rfl, id, Or.inr (Or.inl rfl)⟩

theorem Inv.tick (h : Inv s) (hirq : s.irq = true) {k' : Kernel n} (hk : timeSliceTick s.k = .ok k') :
    Inv { s with k := k' } := by
  obtain ⟨l, hq⟩ := h.queue
  obtain ⟨l', hq', -⟩ := timeSliceTick_follows (r := .osOk) hq hk
  obtain ⟨hcur, hother, hres, hst⟩ := timeSliceTick_running hk
  refine ⟨⟨l', hq'⟩, fun u hu => ?_, fun hboot => ?_, fun hC hpend hnone => ?_⟩
  · rw [hcur] at hu
    rw [hother u hu]
    exact h.only u hu
  · rw [hcur] at hboot ⊢
    rcases hst with ⟨hpos, -⟩ | hst | ⟨hst, -⟩
    · have hle := hq.curr.resolve_left hboot
      omega
    · rw [hst]
      exact h.boot hboot
    · rw [hst]
      decide
  · rw [hcur] at hC hpend ⊢
    rcases hst with ⟨-, hst⟩ | hst | ⟨-, hres'⟩
    · exact hst
    · rw [hst]
      refine h.curr hC hpend fun _ => ?_
      by_contra hne
      have hres' := hres (by simpa using hne)
      rw [hnone hirq] at hres'
      cases hres'
    · rw [hnone hirq] at hres'
      cases hres'

theorem Inv.iret (h : Inv s) (hk : s.exec .iret = .ok s') : Inv s' := by
  obtain rfl := Except.ok.inj hk
  obtain ⟨l, hq⟩ := h.queue
  have hq' : OnQueue (irqExit (preempt s.k)) s.created l := (preempt_follows hq).1.of_eq rfl rfl rfl
  by_cases hres : s.k.needResched = true
  · have hst : ∀ u, ((irqExit (preempt s.k)).tcb u).state = if u = s.k.curr then .ready else (s.k.tcb u).state := by
      intro u
      rw [preempt, if_pos hres]
      exact state_setState _ _ _ _
    have hcur : (irqExit (preempt s.k)).curr = s.k.curr := by
      rw [preempt, if_pos hres]
      rfl
    refine ⟨⟨l, hq'⟩, fun u hu => ?_, fun _ => ?_, fun _ hpend _ => ?_⟩
    · have hu' : u ≠ s.k.curr := hcur ▸ hu
      show ((irqExit (preempt s.k)).tcb u).state ≠ .running
      rw [hst, if_neg hu']
      exact h.only u hu'
    · show ((irqExit (preempt s.k)).tcb (irqExit (preempt s.k)).curr).state ≠ .running
      rw [hst, hcur, if_pos rfl]
      decide
    · -- the task has a redirected call to make
      simp [hres, hcur] at hpend
  · have hk' : preempt s.k = s.k := by rw [preempt, if_neg hres]
    refine ⟨⟨l, hq'⟩, ?_, ?_, fun hC hpend _ => ?_⟩
    · rw [hk']
      exact h.only
    · rw [hk']
      exact h.boot
    · simp only [hk', hres] at hC hpend ⊢
      exact h.curr hC hpend fun _ => by simpa using hres

theorem Inv.resched (h : Inv s) (hsafe : s.SchedSafe .resched) (hk : s.exec .resched = .ok s') : Inv s' := by
  obtain ⟨k', hsched, rfl⟩ := map_eq_ok.mp hk
  refine h.sched ?_ hsched fun hh => ?_
  · by_cases hrun : (s.k.tcb s.k.curr).state = .running
    · exact Or.inl (hsafe.mpr hrun)
    · exact Or.inr hrun
  · exact ⟨h.queue, h.only, h.boot, fun _ _ _ => hsafe.mp hh⟩

theorem step_inv {c : CpuCall n} (h : Inv s) (hsafe : s.SchedSafe c) (hst : s.Step c s') : Inv s' := by
  obtain ⟨hadm, hk⟩ := hst
  cases c with
  | task c => exact h.task hadm.2.2.1 hadm.2.2.2 hsafe hk
  | irq =>
    obtain rfl := Except.ok.inj hk
    obtain ⟨l, hq⟩ := h.queue
    refine ⟨⟨l, hq.of_eq rfl rfl rfl⟩, h.only, h.boot, fun hC hpend _ => ?_⟩
    refine h.curr hC hpend fun hirq => ?_
    rw [hadm] at hirq
    cases hirq
  | isr c =>
    obtain ⟨r, k', hex, rfl⟩ := call_eq hk
    exact h.of_calm (h.onQueue hadm.2.2 hex) (h.calm hadm.2.2 hadm.2.1 hex) (mem_created_iff hadm.2.2 r)
  | tick =>
    obtain ⟨k', htick, rfl⟩ := map_eq_ok.mp hk
    exact h.tick hadm htick
  | iret => exact h.iret hk
  | resched => exact h.resched hsafe hk

end Steps

/-- **The running task.** Along every run from boot in which no voluntary
`rx_sched` switches, and every redirected one switches exactly if its task is
not RUNNING, the executing task is RUNNING and no other task is. -/
theorem runsAlone_of_run {s : CpuSys n} {idle : Fin n} (hi : Init s idle) {tr : List (CpuCall n × CpuSys n)}
    (h : Run.Exec Step s tr) (hg : Run.Guarded SchedSafe s tr) : ∀ x ∈ Run.states s tr, x.RunsAlone :=
  fun x hx => (h.invariant_of_guarded Inv (fun _ _ _ => step_inv) hg hi.inv x hx).runsAlone

/-! ### Runs -/

instance (s : CpuSys n) : ∀ c : TaskCall n, Decidable (s.Names c)
  | .create t a => inferInstanceAs (Decidable (_ ∧ (TaskCall.create t a).Admissible s.created))
  | .suspend o => inferInstanceAs (Decidable ((TaskCall.suspend o).Admissible s.created))
  | .resume t | .abort t | .complete t | .setPrio t _ => inferInstanceAs (Decidable (t ∈ s.created))
  | .sched | .tick | .preempt => inferInstanceAs (Decidable True)

instance (s : CpuSys n) : ∀ c : CpuCall n, Decidable (s.Admissible c)
  | .task c => inferInstanceAs (Decidable (_ ∧ _ ∧ _ ∧ s.Names c))
  | .isr c => inferInstanceAs (Decidable (_ ∧ _ ∧ s.Names c))
  | .irq => inferInstanceAs (Decidable (s.irq = false))
  | .tick | .iret => inferInstanceAs (Decidable (s.irq = true))
  | .resched => inferInstanceAs (Decidable (_ ∧ _))

instance (s : CpuSys n) : ∀ c : CpuCall n, Decidable (s.SchedSafe c)
  | .task .sched => inferInstanceAs (Decidable (_ → _))
  | .resched => inferInstanceAs (Decidable (_ ↔ _))
  | .task (.create _ _) | .task (.suspend _) | .task (.resume _) | .task (.setPrio _ _) | .task (.abort _)
  | .task (.complete _) | .task .tick | .task .preempt | .irq | .isr _ | .tick | .iret => inferInstanceAs (Decidable True)

/-- The step as a function. -/
def step (s : CpuSys n) (c : CpuCall n) : Option (CpuSys n) :=
  if s.Admissible c then (s.exec c).toOption else none

theorem exists_run (s : CpuSys n) (cs : List (CpuCall n)) (p : List (CpuCall n × CpuSys n) → Bool)
    (h : (Run.trace step s cs).map p = some true) : ∃ tr, Run.Exec Step s tr ∧ p tr = true := by
  refine Run.exists_exec (fun s c s' hs => ?_) cs p h
  unfold step at hs
  split_ifs at hs with hadm
  refine ⟨hadm, ?_⟩
  cases he : s.exec c with
  | error e => rw [he] at hs; cases hs
  | ok x => rw [he] at hs; rw [Option.some.inj hs]

/-- The step is a call by the task. -/
def isTask : CpuCall n → Bool
  | .task _ => true
  | _ => false

/-- The booted system: the idle task runs. -/
def bootCpu : CpuSys 3 where
  k := bootSys.k
  created := bootSys.created

theorem bootCpu_init : Init bootCpu 0 := by
  refine ⟨rfl, by decide, by decide, by decide, by decide, rfl, fun _ => rfl⟩

/-- A handler creates task 1, which takes over; a tick ends its slice, and it
suspends itself. -/
theorem runsAlone_preemptedRun : Init bootCpu 0 ∧ ∃ tr, Run.Exec Step bootCpu tr ∧ tr.length = 12 ∧
    Run.Guarded SchedSafe bootCpu tr ∧ ∀ x ∈ Run.states bootCpu tr, x.RunsAlone := by
  refine ⟨bootCpu_init, ?_⟩
  have hrun := exists_run bootCpu
    [.irq, .isr (.create 1 { prio := 5, state := .ready, timeSlice := 1 }), .iret, .resched,
      .task (.create 2 { prio := 5, state := .ready }), .irq, .tick, .iret, .irq, .iret, .resched, .task (.suspend none)]
    (fun tr => decide (tr.length = 12 ∧ Run.Guarded SchedSafe bootCpu tr)) (by decide +kernel)
  obtain ⟨tr, hex, hp⟩ := hrun
  obtain ⟨hlen, hg⟩ := of_decide_eq_true hp
  exact ⟨tr, hex, hlen, hg, runsAlone_of_run bootCpu_init hex hg⟩

/-- A yield leaves two tasks RUNNING; and a task that was preempted for a task
that its handler has suspended again goes on READY. -/
theorem yield_and_withdrawn_request : Init bootCpu 0 ∧
    (∃ tr, Run.Exec Step bootCpu tr ∧ ¬ ∀ x ∈ Run.states bootCpu tr, x.RunsAlone) ∧
    ∃ tr, Run.Exec Step bootCpu tr ∧ (∀ x ∈ tr, ∀ c, x.1 ≠ .task c) ∧
      ¬ ∀ x ∈ Run.states bootCpu tr, x.RunsAlone := by
  refine ⟨bootCpu_init, ?_, ?_⟩
  · have hrun := exists_run bootCpu [.task (.create 1 { prio := 5, state := .ready }), .task .sched]
      (fun tr => decide (∃ x ∈ Run.states bootCpu tr, x.irq = false ∧ x.pending x.k.curr = 0 ∧ x.k.curr ∈ x.created ∧
        x.k.curr = 1 ∧ (x.k.tcb 0).state = .running)) (by decide +kernel)
    obtain ⟨tr, hex, hp⟩ := hrun
    obtain ⟨x, hx, hirq, hpend, hC, hcur, hst⟩ := of_decide_eq_true hp
    refine ⟨tr, hex, fun hall => ?_⟩
    exact (hall x hx ⟨hirq, hpend, hC⟩).2 0 (by rw [hcur]; decide) hst
  · have hrun := exists_run bootCpu
      [.irq, .isr (.create 1 { prio := 5, state := .ready }), .isr (.suspend (some 1)), .iret, .resched]
      (fun tr => decide ((∀ x ∈ tr, isTask x.1 = false) ∧ ∃ x ∈ Run.states bootCpu tr,
        x.irq = false ∧ x.pending x.k.curr = 0 ∧ x.k.curr ∈ x.created ∧ (x.k.tcb x.k.curr).state = .ready))
      (by decide +kernel)
    obtain ⟨tr, hex, hp⟩ := hrun
    obtain ⟨htask, x, hx, hirq, hpend, hC, hst⟩ := of_decide_eq_true hp
    refine ⟨tr, hex, fun y hy c hc => ?_, fun hall => ?_⟩
    · have := htask y hy
      rw [hc] at this
      cases this
    · have hrun := (hall x hx ⟨hirq, hpend, hC⟩).1
      rw [hst] at hrun
      cases hrun

end CpuSys

end Rosx
