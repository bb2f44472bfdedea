/-
# The tick interrupt

`sig_handler` of the simulator running `__rx_timer_tick_irq_handler`, followed
by the preemption that it requests. `rx_notify_event` writes to the event queue
and so may make the task ready that reads from it; which task that is, if any,
is an argument here.

In interrupt context the critical sections do nothing, so the operations on the
lists run with the port as they find it. `Irq` says what holds then: the wait
chains are as they were when the interrupt came, and the ready queue holds the
tasks that are ready or running. A tick keeps this as long as the task it
interrupts is on the ready queue (`rxTimerTickIrqHandler_spec`).

Key definitions: `rxTimerTickIrqHandler`, `sigHandler`, `Settles`.
-/
import Rosx.Timer

namespace Rosx

open Linked

variable {n : ℕ} {ι : Type*}

/-- What `rx_notify_event` does to the task that reads the event queue, if one
waits there. -/
def notifyReader (k : Kernel n) : Option (Fin n) → Res (Kernel n)
  | none => .ok k
  | some t => (rxAddToReadyQ (k.setState t .ready) t).map (·.2)

/-- `__rx_timer_tick_irq_handler`. -/
def rxTimerTickIrqHandler (k : Kernel n) (wakes : Option (Fin n)) : Res (Kernel n) := do
  let k ← notifyReader { k with jiffies := k.jiffies + 1 } wakes
  timeSliceTick k

/-- `sig_handler` on a tick, and the `rx_sched` to which a preempted task is
sent when the interrupt returns. -/
def sigHandler (k : Kernel n) (wakes : Option (Fin n)) : Res (Kernel n) := do
  let k ← rxTimerTickIrqHandler (irqEnter k) wakes
  let k' := irqExit (preempt k)
  if k.needResched then rxSched k' else .ok k'

/-! ### What a tick leaves alone -/

/-- The objects and the control blocks are the same, but for links, states and
time slices. -/
structure Idle (k k' : Kernel n) : Prop where
  mutexes : k'.mutexes = k.mutexes
  timers : k'.timers = k.timers
  active : k'.active = k.active
  mutex : ∀ u, (k'.tcb u).mutex = (k.tcb u).mutex
  timer : ∀ u, (k'.tcb u).timer = (k.tcb u).timer

namespace Idle

variable {k k' k'' : Kernel n}

theorem refl (k : Kernel n) : Idle k k := ⟨rfl, rfl, rfl, fun _ => rfl, fun _ => rfl⟩

theorem trans (h : Idle k k') (h' : Idle k' k'') : Idle k k'' :=
  ⟨h'.mutexes.trans h.mutexes, h'.timers.trans h.timers, h'.active.trans h.active,
    fun u => (h'.mutex u).trans (h.mutex u), fun u => (h'.timer u).trans (h.timer u)⟩

theorem of_relinked (h : Relinked k k') : Idle k k' := ⟨h.mutexes, h.timers, h.active, h.mutex, h.timer⟩

theorem modTcb (k : Kernel n) (t : Fin n) {f : Tcb n → Tcb n} (hm : ∀ c, (f c).mutex = c.mutex)
    (ht : ∀ c, (f c).timer = c.timer) : Idle k (k.modTcb t f) :=
  ⟨rfl, rfl, rfl, fun u => Kernel.modTcb_keeps k t u Tcb.mutex hm, fun u => Kernel.modTcb_keeps k t u Tcb.timer ht⟩

theorem setState (k : Kernel n) (t : Fin n) (v : TaskState) : Idle k (k.setState t v) :=
  modTcb k t (f := fun c => { c with state := v }) (fun _ => rfl) fun _ => rfl

theorem irq (h : Idle k k') : Idle (irqExit k) (irqExit k') := ⟨h.mutexes, h.timers, h.active, h.mutex, h.timer⟩

end Idle

/-- From `k` to `k'` only the ready queue has changed, to `lr`: it holds the
tasks that are ready or running, and the chains `lw` at the heads `w` are as
they were. -/
structure Settles (k k' : Kernel n) (lr : List (Fin n)) (w : ι → Option (Fin n)) (lw : ι → List (Fin n)) : Prop where
  lists : Lists k' k' lr w lw
  ready : ∀ u, u ∈ lr ↔ (k'.tcb u).state.runnable = true
  waits : ∀ i, ∀ u ∈ lw i, (k'.tcb u).state = (k.tcb u).state
  idle : Idle k k'

variable {k k1 : Kernel n} {lr : List (Fin n)} {w : ι → Option (Fin n)} {lw : ι → List (Fin n)} {t : Fin n}

theorem Settles.of_eq (h : Settles k k1 lr w lw) {k2 : Kernel n} (ht : k2.tcb = k1.tcb)
    (hh : k2.readyHead = k1.readyHead) (hp : k2.port = k1.port) (hm : k2.mutexes = k1.mutexes)
    (htm : k2.timers = k1.timers) (ha : k2.active = k1.active) : Settles k k2 lr w lw := by
  have hn : k2.next = k1.next := funext fun u => by simp only [Kernel.next, ht]
  have hl := h.lists
  refine ⟨⟨Relinked.refl _, ?_, ?_, fun i => ?_, hl.notReady, hl.apart⟩, fun u => ?_, fun i u hu => ?_,
    h.idle.trans ⟨hm, htm, ha, fun u => by rw [ht], fun u => by rw [ht]⟩⟩
  · rw [hp]; exact hl.port
  · rw [hn, hh]; exact hl.ready
  · rw [hn]; exact hl.wait i
  · rw [ht]; exact h.ready u
  · rw [ht]; exact h.waits i u hu

/-- The switch of `rx_sched`, in task context. -/
theorem Settles.switch (h : Settles k k1 lr w lw) {k' : Kernel n} (hk : rxSwitchTo k1.enterCritical = .ok k') :
    Settles k k' lr w lw ∧ k'.curr ∈ lr ∧ (k1.port = {} → k'.port = {}) := by
  obtain ⟨x, hh, rfl⟩ := rxSwitchTo_cases hk
  have hxr : x ∈ lr := by
    have hl := Seg.head h.lists.ready
    rw [hh] at hl
    exact List.mem_of_head? hl.symm
  have hnot : ∀ i, ∀ u ∈ lw i, u ≠ x := fun i u hu hux => h.lists.notReady i u hu (hux ▸ hxr)
  have hst : ∀ u, ((Function.update k1.tcb x (switchTcb (k1.tcb x))) u).state =
      if u = x then .running else (k1.tcb u).state := by
    intro u
    by_cases hu : u = x
    · subst hu; simp [switchTcb]
    · simp [hu]
  have hi := Idle.modTcb k1 x (f := switchTcb) (fun _ => rfl) fun _ => rfl
  have h1 := (h.lists.switchTo x).enter.exit
  refine ⟨⟨⟨Relinked.refl _, h1.port, h1.ready, h1.wait, h1.notReady, h1.apart⟩, fun u => ?_, fun i u hu => ?_,
    h.idle.trans ⟨rfl, rfl, rfl, hi.mutex, hi.timer⟩⟩, hxr, fun hp => ?_⟩
  · rw [h.ready]
    show _ ↔ (Function.update k1.tcb x (switchTcb (k1.tcb x)) u).state.runnable = true
    rw [hst]
    split_ifs with hu
    · rw [hu]
      exact iff_of_true ((h.ready x).mp hxr) rfl
    · rfl
  · show (Function.update k1.tcb x (switchTcb (k1.tcb x)) u).state = _
    rw [hst, if_neg (hnot i u hu)]
    exact h.waits i u hu
  · show k1.port.disableIrqGlobal.restoreIrqGlobal = {}
    rw [hp]
    rfl

/-! ### In interrupt context -/

/-- The interrupt has come in `k` and is now at `k1`. -/
structure Irq (k k1 : Kernel n) (lr : List (Fin n)) (w : ι → Option (Fin n)) (lw : ι → List (Fin n)) : Prop where
  port : k1.port = { context := true }
  settles : Settles k (irqExit k1) lr w lw

/-- An operation on the ready queue. -/
theorem Lists.requeued_irq {e k' : Kernel n} {touched lr' : List (Fin n)} (h : Lists e (irqExit k1) lr w lw)
    (hp : k1.port = { context := true }) (hq : Requeued k1 k' touched lr')
    (hport : k'.port = k1.port.disableIrqGlobal.restoreIrqGlobal) (ht : ∀ i, ∀ t ∈ lw i, t ∉ touched)
    (hl : ∀ i, ∀ t ∈ lw i, t ∉ lr') : k'.port = { context := true } ∧ Lists e (irqExit k') lr' w lw := by
  have hp' : k'.port = { context := true } := by
    rw [hport, hp]
    rfl
  have hq' : Requeued (irqExit k1) (irqExit k') touched lr' :=
    { tcb := hq.tcb, rest := congrArg irqExit hq.rest, chain := hq.chain, frame := hq.frame }
  refine ⟨hp', h.requeued hq' ?_ ht hl⟩
  simp only [irqExit, hp, hp']
  rfl

namespace Irq

/-- A suspended task that waits on no chain is put on the ready queue. -/
theorem wake (h : Irq k k1 lr w lw) (ht : t ∉ lr) (hw : ∀ i, t ∉ lw i) :
    ∃ k' lr', rxAddToReadyQ (k1.setState t .ready) t = .ok (.osOk, k') ∧ Irq k k' lr' w lw ∧ k'.curr = k1.curr ∧
      ∀ u, u ∈ lr' ↔ u = t ∨ u ∈ lr := by
  have h1 : Lists (irqExit (k1.setState t .ready)) (irqExit (k1.setState t .ready)) lr w lw :=
    h.settles.lists.setState t .ready
  have hne : ∀ i, ∀ u ∈ lw i, u ≠ t := fun i u hu hut => hw i (hut ▸ hu)
  obtain ⟨k', he, hport, hq⟩ := rxAddToReadyQ_spec (k := k1.setState t .ready) h1.ready ht
    (by simp [Kernel.setState])
  have htouched : ∀ i, ∀ u ∈ lw i, u ∉ t :: lr := by
    intro i u hu hm
    rcases List.mem_cons.mp hm with rfl | hm
    · exact hne i u hu rfl
    · exact h.settles.lists.notReady i u hu hm
  obtain ⟨hp', h2⟩ := h1.requeued_irq h.port hq hport htouched
    fun i u hu hm => htouched i u hu (List.mem_cons.mpr (mem_insertReady.mp hm))
  have hst : ∀ u, (k'.tcb u).state = if u = t then .ready else (k1.tcb u).state := by
    intro u
    rw [hq.state]
    exact state_setState k1 t u .ready
  refine ⟨k', _, he, ⟨hp', h2.self, fun u => ?_, fun i u hu => ?_, ?_⟩, hq.curr, fun u => mem_insertReady⟩
  · rw [mem_insertReady, h.settles.ready]
    show _ ↔ (k'.tcb u).state.runnable = true
    rw [hst]
    split_ifs with hu
    · exact iff_of_true (Or.inl hu) rfl
    · exact or_iff_right hu
  · show (k'.tcb u).state = _
    rw [hst, if_neg (hne i u hu)]
    exact h.settles.waits i u hu
  · exact h.settles.idle.trans ((Idle.setState k1 t .ready).trans (Idle.of_relinked hq.toRelinked)).irq

/-- The control block of a task on the ready queue changes. -/
theorem modTcb (h : Irq k k1 lr w lw) (ht : t ∈ lr) {f : Tcb n → Tcb n} (hf : LinkFree f)
    (hm : ∀ c, (f c).mutex = c.mutex) (htm : ∀ c, (f c).timer = c.timer) (hs : (f (k1.tcb t)).state.runnable = true) :
    Irq k (k1.modTcb t f) lr w lw := by
  refine ⟨h.port, (h.settles.lists.modTcb t hf).self, fun u => ?_, fun i u hu => ?_,
    h.settles.idle.trans (Idle.modTcb (irqExit k1) t hm htm)⟩
  · by_cases hu : u = t
    · subst hu
      exact iff_of_true ht (by simpa [irqExit, Kernel.modTcb] using hs)
    · rw [h.settles.ready]
      show _ ↔ ((k1.modTcb t f).tcb u).state.runnable = true
      rw [Kernel.modTcb_of_ne _ hu]
      rfl
  · have hut : u ≠ t := fun hut => h.settles.lists.notReady i u hu (hut ▸ ht)
    show ((k1.modTcb t f).tcb u).state = _
    rw [Kernel.modTcb_of_ne _ hut]
    exact h.settles.waits i u hu

/-- A task on the ready queue is put on it anew. -/
theorem requeue (h : Irq k k1 lr w lw) (ht : t ∈ lr) :
    ∃ k2 k3 lr', rxRemoveFromReadyQ k1 t = .ok k2 ∧ rxAddToReadyQ (k2.setState t .ready) t = .ok (.osOk, k3) ∧
      Irq k k3 lr' w lw ∧ k2.curr = k1.curr ∧ k3.curr = k1.curr ∧ ∀ u, u ∈ lr' ↔ u ∈ lr := by
  have hnd := h.settles.lists.ready.nodup
  obtain ⟨k2, he2, hport2, -, -, hq2⟩ := rxRemoveFromReadyQ_mem (k := k1) h.settles.lists.ready ht
  obtain ⟨hp2, h2⟩ := h.settles.lists.requeued_irq h.port hq2 hport2 h.settles.lists.notReady
    fun i u hu hm => h.settles.lists.notReady i u hu (List.mem_of_mem_erase hm)
  have h2 : Lists (irqExit (k2.setState t .ready)) (irqExit (k2.setState t .ready)) (lr.erase t) w lw :=
    h2.self.setState t .ready
  have hne : ∀ i, ∀ u ∈ lw i, u ≠ t := fun i u hu hut => h.settles.lists.notReady i u hu (hut ▸ ht)
  obtain ⟨k3, he3, hport3, hq3⟩ := rxAddToReadyQ_spec (k := k2.setState t .ready) h2.ready
    hnd.not_mem_erase (by simp [Kernel.setState])
  have hmem : ∀ u, u ∈ insertReady (fun u => ((k2.setState t .ready).tcb u).prio) ((k2.setState t .ready).tcb t).prio t
      (lr.erase t) ↔ u ∈ lr := by
    intro u
    rw [mem_insertReady, hnd.mem_erase_iff]
    by_cases hut : u = t
    · subst hut; simp [ht]
    · simp [hut]
  obtain ⟨hp3, h3⟩ := h2.requeued_irq hp2 hq3 hport3 (fun i u hu hm => by
    rcases List.mem_cons.mp hm with rfl | hm
    · exact hne i u hu rfl
    · exact h2.notReady i u hu hm) fun i u hu hm => h.settles.lists.notReady i u hu ((hmem u).mp hm)
  have hst : ∀ u, (k3.tcb u).state = if u = t then .ready else (k1.tcb u).state := by
    intro u
    rw [hq3.state, state_setState, hq2.state]
  refine ⟨k2, k3, _, he2, he3, ⟨hp3, h3.self, fun u => ?_, fun i u hu => ?_, ?_⟩, hq2.curr, hq3.curr.trans hq2.curr, hmem⟩
  · rw [hmem, h.settles.ready]
    show (k1.tcb u).state.runnable = true ↔ (k3.tcb u).state.runnable = true
    rw [hst]
    split_ifs with hu
    · rw [hu]
      exact iff_of_true ((h.settles.ready t).mp ht) rfl
    · rfl
  · show (k3.tcb u).state = _
    rw [hst, if_neg (hne i u hu)]
    exact h.settles.waits i u hu
  · exact h.settles.idle.trans ((Idle.of_relinked hq2.toRelinked).trans
      ((Idle.setState k2 t .ready).trans (Idle.of_relinked hq3.toRelinked))).irq

/-- The time slice of the running task. -/
theorem slice (h : Irq k k1 lr w lw) (hc : k1.curr ∈ lr) {k' : Kernel n} (hk : timeSliceTick k1 = .ok k') :
    ∃ lr', Irq k k' lr' w lw ∧ k'.curr = k1.curr ∧ ∀ u, u ∈ lr' ↔ u ∈ lr := by
  have hrun : (k1.tcb k1.curr).state.runnable = true := (h.settles.ready _).mp hc
  have h1 := h.modTcb hc (f := fun c => { c with ticks := (k1.tcb k1.curr).ticks - 1 }) (fun _ _ => rfl) (fun _ => rfl)
    (fun _ => rfl) hrun
  unfold timeSliceTick at hk
  dsimp only at hk
  split_ifs at hk with hpos hzero
  · obtain ⟨k2, k3, lr', he2, he3, h3, hc2, hc3, hm⟩ := h1.requeue hc
    have hc2 : k2.curr = k1.curr := hc2
    have hc3 : k3.curr = k1.curr := hc3
    obtain ⟨k2', hrem, hk⟩ := bind_eq_ok.mp hk
    obtain rfl : k2 = k2' := Except.ok.inj (he2.symm.trans hrem)
    rw [hc2] at hk
    obtain ⟨⟨r, k3'⟩, hadd, hk⟩ := bind_eq_ok.mp hk
    obtain ⟨-, rfl⟩ := Prod.mk.inj (Except.ok.inj (he3.symm.trans hadd))
    simp only [hc3] at hk
    split_ifs at hk with hhead
    · obtain rfl := Except.ok.inj hk
      exact ⟨lr', ⟨h3.port, h3.settles.of_eq rfl rfl rfl rfl rfl rfl⟩, rfl, hm⟩
    · obtain rfl := Except.ok.inj hk
      exact ⟨lr', h3.modTcb ((hm _).mpr hc)
        (f := fun c => { c with ticks := (k3.tcb k1.curr).timeSlice, state := .running }) (fun _ _ => rfl)
        (fun _ => rfl) (fun _ => rfl) rfl, hc3, hm⟩
  · obtain rfl := Except.ok.inj hk
    exact ⟨lr, h1, rfl, fun _ => Iff.rfl⟩
  · obtain rfl := Except.ok.inj hk
    exact ⟨lr, h, rfl, fun _ => Iff.rfl⟩

end Irq

/-- **A tick that interrupts a task on the ready queue**, up to the end of
`sig_handler`. The wait chains and the states of the tasks on them are as
before, and the ready queue has gained the woken task. -/
theorem rxTimerTickIrqHandler_spec {k k2 : Kernel n} (h : Lists k k lr w lw) (hp : k.port = {})
    (hr : ∀ u, u ∈ lr ↔ (k.tcb u).state.runnable = true) (hc : k.curr ∈ lr) {wakes : Option (Fin n)}
    (hw : ∀ t, wakes = some t → t ∉ lr ∧ ∀ i, t ∉ lw i) (hk : rxTimerTickIrqHandler (irqEnter k) wakes = .ok k2) :
    ∃ lr', Settles k (irqExit (preempt k2)) lr' w lw ∧ (irqExit (preempt k2)).port = {} ∧
      (irqExit (preempt k2)).curr = k.curr ∧ ∀ u, u ∈ lr' ↔ wakes = some u ∨ u ∈ lr := by
  set k0 : Kernel n := { irqEnter k with jiffies := (irqEnter k).jiffies + 1 } with hk0
  have hp0 : k0.port = { context := true } := by
    show ({ k.port with context := true } : Port) = _
    rw [hp]
  have h0 : Irq k k0 lr w lw := by
    have hport : (irqExit k0).port = {} := by
      show ({ k0.port with context := false } : Port) = _
      rw [hp0]
    exact ⟨hp0, ⟨Relinked.refl _, Or.inl hport, h.ready, h.wait, h.notReady, h.apart⟩, hr, fun _ _ _ => rfl,
      ⟨rfl, rfl, rfl, fun _ => rfl, fun _ => rfl⟩⟩
  -- the task that reads the event queue
  have h1 : ∃ k1 lr1, Irq k k1 lr1 w lw ∧ k1.curr = k.curr ∧ (∀ u, u ∈ lr1 ↔ wakes = some u ∨ u ∈ lr) ∧
      timeSliceTick k1 = .ok k2 := by
    obtain ⟨k1, hnote, htick⟩ := bind_eq_ok.mp hk
    cases wakes with
    | none =>
      obtain rfl := Except.ok.inj hnote
      exact ⟨_, lr, h0, rfl, by simp, htick⟩
    | some t =>
      obtain ⟨htr, htw⟩ := hw t rfl
      obtain ⟨k1', lr1, hadd, h1, hc1, hm1⟩ := h0.wake htr htw
      obtain ⟨⟨r, k1''⟩, hadd', rfl⟩ := map_eq_ok.mp hnote
      obtain ⟨-, rfl⟩ := Prod.mk.inj (Except.ok.inj (hadd.symm.trans hadd'))
      refine ⟨k1', lr1, h1, hc1, fun u => ?_, htick⟩
      rw [hm1, Option.some.injEq, eq_comm]
  obtain ⟨k1, lr1, h1, hc1, hm1, hslice⟩ := h1
  obtain ⟨lr2, h2, hc2, hm2⟩ := h1.slice (by rw [hc1]; exact (hm1 _).mpr (Or.inr hc)) hslice
  have hm : ∀ u, u ∈ lr2 ↔ wakes = some u ∨ u ∈ lr := fun u => (hm2 u).trans (hm1 u)
  have hport : ({ k2.port with context := false } : Port) = {} := by rw [h2.port]
  have hcurr : k2.curr = k.curr := hc2.trans hc1
  -- the preemption
  unfold preempt
  split_ifs with hres
  · have hc2 : k2.curr ∈ lr2 := by
      rw [hcurr]
      exact (hm _).mpr (Or.inr hc)
    have h3 := h2.modTcb hc2 (f := fun c => { c with state := .ready }) (fun _ _ => rfl) (fun _ => rfl) (fun _ => rfl) rfl
    exact ⟨lr2, h3.settles.of_eq rfl rfl rfl rfl rfl rfl, hport, hcurr, hm⟩
  · exact ⟨lr2, h2.settles, hport, hcurr, hm⟩

/-- A tick that neither preempts, wakes a task nor ends the time slice only
counts. -/
theorem rxTimerTickIrqHandler_idle {k : Kernel n} (hp : k.port = {}) (hres : k.needResched = false)
    (hs : ¬ ((k.tcb k.curr).timeSlice > 0 ∧ (k.tcb k.curr).ticks - 1 = 0)) :
    ∃ k' x, rxTimerTickIrqHandler (irqEnter k) none = .ok k' ∧ k'.needResched = false ∧
      irqExit (preempt k') = { k.modTcb k.curr (fun c => { c with ticks := x }) with jiffies := k.jiffies + 1 } := by
  by_cases hpos : (k.tcb k.curr).timeSlice > 0
  · have hne : ¬ (k.tcb k.curr).ticks - 1 = 0 := fun he => hs ⟨hpos, he⟩
    refine ⟨{ irqEnter k with
        jiffies := k.jiffies + 1,
        tcb := Function.update k.tcb k.curr { k.tcb k.curr with ticks := (k.tcb k.curr).ticks - 1 } },
      (k.tcb k.curr).ticks - 1, ?_, hres, ?_⟩
    · simp [rxTimerTickIrqHandler, notifyReader, timeSliceTick, irqEnter, hpos, hne, Kernel.setTcb, bind, Except.bind]
    · simp [irqExit, irqEnter, preempt, hres, hp, Kernel.modTcb, Kernel.setTcb]
  · refine ⟨{ irqEnter k with jiffies := k.jiffies + 1 }, (k.tcb k.curr).ticks, ?_, hres, ?_⟩
    · simp [rxTimerTickIrqHandler, notifyReader, timeSliceTick, irqEnter, hpos, bind, Except.bind]
    · simp [irqExit, irqEnter, preempt, hres, hp, Kernel.modTcb, Kernel.setTcb]

end Rosx
