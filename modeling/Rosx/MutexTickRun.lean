/-
# Runs of mutexes with ticks

The rest of the steps of `Rosx/MutexTick.lean`: those that leave the wait chains
alone. The running task goes to a place in the midst of a call
(`Inv.goto_call`) or outside (`Inv.goto_free`), perhaps with another task
running. A tick is harmless where the running task is on the ready queue
(`Inv.tick`), also in the `rx_sched` of a preemption. In the window, and inside
`rx_suspend_task` or `rx_resume_task`, it is harmless if it finds nothing to do
but to count (`Inv.tick_idle`, under `TickSafe`); otherwise it may make a task
ready that is on a wait chain (`tick_in_window_returns`).

Along every run whose ticks at these points only count, a task on a wait chain
is suspended and off the ready queue until an unlock, a deletion or its own
timeout takes it out, and `OS_OK` without a timeout goes to the owner only
(`waitersSuspended_of_run`).
-/
import Rosx.MutexTick

namespace Rosx

open Linked

variable {n : ℕ}

namespace TickSys

section Calls

variable {s s' : TickSys n} {lr lr' : List (Fin n)} {lw : ℕ → List (Fin n)} {m : ℕ} {t : Fin n} {p : LockPc n}
  {l : List SchedStage} {k' : Kernel n}

/-! ### Steps that leave the chains alone -/

/-- From `k` to `k'` the mutexes and the wait chains `lw` are as they were, and
the ready queue is `lr`. -/
structure KeepsChains (k k' : Kernel n) (lr : List (Fin n)) (lw : ℕ → List (Fin n)) : Prop where
  lists : Lists k' k' lr (fun j => (k.mutexes j).task) lw
  port : k'.port = {}
  waits : ∀ j, ∀ u ∈ lw j, (k'.tcb u).state = (k.tcb u).state
  mutexes : k'.mutexes = k.mutexes
  mutex : ∀ u, (k'.tcb u).mutex = (k.tcb u).mutex

theorem KeepsChains.of_settles {k : Kernel n} (hs : Settles k k' lr' (fun j => (k.mutexes j).task) lw)
    (hport : k'.port = {}) : KeepsChains k k' lr' lw := ⟨hs.lists, hport, hs.waits, hs.idle.mutexes, hs.idle.mutex⟩

/-- Where another task is. -/
theorem Inv.others (h : Inv s lr lw) (hk : KeepsChains s.k k' lr' lw) {u : Fin n} (hu : u ≠ s.k.curr)
    (hlr : s.pc u ≠ .out → u ∈ lr → u ∈ lr') : At (s.goto p l k') lr' lw u (s.pc u) := by
  refine (h.tasks u).keep (h.notMidCall hu) (fun _ => Iff.rfl) hlr (fun j hj => hk.waits j u hj) (hk.mutex u) rfl
    fun j => ?_
  show (k'.mutexes j).lock = _ ∧ (k'.mutexes j).owner = _
  rw [hk.mutexes]
  exact ⟨rfl, rfl⟩

/-- Where the timers stay, so does who owns them, if the running task still
does. -/
theorem Inv.armed_goto (h : Inv s lr lw) (hact : k'.active = s.k.active) (htim : k'.timers = s.k.timers)
    (htm : ∀ u, u ≠ s.k.curr → (k'.tcb u).timer = (s.k.tcb u).timer)
    (hown : ∀ tm, Owns s.k lw s.k.curr tm (s.pc s.k.curr) → Owns k' lw s.k.curr tm p) :
    ∀ tm ∈ k'.active, (k'.timers tm).enabled = true ∧ (k'.timers tm).handler = some .mutexHandler ∧
      ∃ u, (k'.timers tm).priv = some u ∧ Owns k' lw u tm ((s.goto p l k').pc u) := by
  intro tm hmem
  rw [hact] at hmem
  rw [htim]
  obtain ⟨hen, hhd, u, hpr, ho⟩ := h.armed tm hmem
  refine ⟨hen, hhd, u, hpr, ?_⟩
  show Owns k' lw u tm (Function.update s.pc s.k.curr p u)
  by_cases hu : u = s.k.curr
  · subst hu
    rw [Function.update_self]
    exact hown tm ho
  · rw [Function.update_of_ne hu]
    exact ho.keep (h.notMidCall hu) (fun _ => Iff.rfl) (htm u hu)

/-- The running task goes to a place in the midst of a call. -/
theorem Inv.goto_call (h : Inv s lr lw) (hp : p.midCall = true) (hl : l.length = p.depth)
    (hk : KeepsChains s.k k' lr' lw) (hcurr : k'.curr = s.k.curr)
    (hlr : ∀ u, u ≠ s.k.curr → s.pc u ≠ .out → u ∈ lr → u ∈ lr')
    (hqueue : ∀ u, u ∈ lr' ↔ (k'.tcb u).state.runnable = true ∧ p.loose s.k.curr ≠ some u)
    (hat : At (s.goto p l k') lr' lw s.k.curr p) (hact : k'.active.Nodup)
    (harmed : ∀ tm ∈ k'.active, (k'.timers tm).enabled = true ∧ (k'.timers tm).handler = some .mutexHandler ∧
      ∃ u, (k'.timers tm).priv = some u ∧ Owns k' lw u tm ((s.goto p l k').pc u)) : Inv (s.goto p l k') lr' lw := by
  have hpc : (s.goto p l k').pc (s.goto p l k').k.curr = p := by
    show Function.update s.pc s.k.curr p k'.curr = p
    rw [hcurr, Function.update_self]
  refine ⟨hk.lists.congr_heads fun j => ?_, hk.port, fun u => ?_, fun hw => ?_, fun _ => ?_, fun u => ?_, hact, harmed⟩
  · show (k'.mutexes j).task = _
    rw [hk.mutexes]
  · rw [hpc]
    show u ∈ lr' ↔ (k'.tcb u).state.runnable = true ∧ p.loose k'.curr ≠ some u
    rw [hcurr]
    exact hqueue u
  · rw [hpc, hp] at hw
    cases hw
  · rw [hpc]
    show (Function.update s.scheds s.k.curr l k'.curr).length = _
    rw [hcurr, Function.update_self, hl]
  · show At _ lr' lw u (Function.update s.pc s.k.curr p u)
    by_cases hu : u = s.k.curr
    · subst hu
      rw [Function.update_self]
      exact hat
    · rw [Function.update_of_ne hu]
      exact h.others hk hu (hlr u hu)

/-- It goes to a place outside or past the window, and perhaps another task
runs. -/
theorem Inv.goto_free (h : Inv s lr lw) (hp : p.midCall = false)
    (hs : Settles s.k k' lr' (fun j => (s.k.mutexes j).task) lw) (hport : k'.port = {}) (hc : k'.curr ∈ lr')
    (hlr : ∀ u, u ≠ s.k.curr → s.pc u ≠ .out → u ∈ lr → u ∈ lr') (hat : At (s.goto p l k') lr' lw s.k.curr p)
    (hown : ∀ tm, Owns s.k lw s.k.curr tm (s.pc s.k.curr) → Owns k' lw s.k.curr tm p) :
    Inv (s.goto p l k') lr' lw := by
  have hk := KeepsChains.of_settles hs hport
  have hpc : ∀ u, (s.goto p l k').pc u = if u = s.k.curr then p else s.pc u := by
    intro u
    show Function.update s.pc s.k.curr p u = _
    rw [Function.update_apply]
  have hmid : ∀ u, ((s.goto p l k').pc u).midCall = false := by
    intro u
    rw [hpc]
    split_ifs with hu
    · exact hp
    · exact h.notMidCall hu
  refine ⟨hk.lists.congr_heads fun j => ?_, hport, fun u => ?_, fun _ => hc, fun hw => ?_, fun u => ?_, ?_,
    h.armed_goto hs.idle.active hs.idle.timers (fun u _ => hs.idle.timer u) hown⟩
  · show (k'.mutexes j).task = _
    rw [hk.mutexes]
  · rw [LockPc.loose_of_not_midCall (hmid _), hs.ready]
    exact ⟨fun hr => ⟨hr, by simp⟩, fun hr => hr.1⟩
  · rw [hmid] at hw
    cases hw
  · rw [hpc]
    split_ifs with hu
    · rw [hu]
      exact hat
    · exact h.others hk hu (hlr u hu)
  · show k'.active.Nodup
    rw [hs.idle.active]
    exact h.active

/-- It stays where it is, and so do the lists and the states. -/
theorem Inv.same (h : Inv s lr lw) (hl : (s.pc s.k.curr).midCall = true → l.length = (s.pc s.k.curr).depth)
    (hls : Lists k' k' lr (fun j => (s.k.mutexes j).task) lw) (hport : k'.port = {})
    (hst : ∀ u, (k'.tcb u).state = (s.k.tcb u).state) (hi : Idle s.k k') (hcurr : k'.curr = s.k.curr) :
    Inv (s.goto (s.pc s.k.curr) l k') lr lw := by
  have hat : ∀ u, At (s.goto (s.pc s.k.curr) l k') lr lw u (s.pc u) := fun u => (h.tasks u).same hst hi hcurr rfl
  have hown : ∀ tm, Owns s.k lw s.k.curr tm (s.pc s.k.curr) → Owns k' lw s.k.curr tm (s.pc s.k.curr) :=
    fun tm ho => ho.same (hi.timer _)
  cases hmid : (s.pc s.k.curr).midCall with
  | true =>
    refine h.goto_call hmid (hl hmid) ⟨hls, hport, fun _ u _ => hst u, hi.mutexes, hi.mutex⟩ hcurr (fun _ _ _ hu => hu)
      (fun u => ?_) (hat _) ?_ (h.armed_goto hi.active hi.timers (fun u _ => hi.timer u) hown)
    · rw [hst]
      exact h.queue u
    · rw [hi.active]
      exact h.active
  | false =>
    have hs : Settles s.k k' lr (fun j => (s.k.mutexes j).task) lw := by
      refine ⟨hls, fun u => ?_, fun _ u _ => hst u, hi⟩
      rw [hst]
      exact h.ready (LockPc.loose_of_not_midCall hmid _) u
    exact h.goto_free hmid hs hport (by rw [hcurr]; exact h.curr hmid) (fun _ _ _ hu => hu) (hat _) hown

theorem Inv.settles (h : Inv s lr lw) (hl : (s.pc s.k.curr).loose s.k.curr = none) :
    Settles s.k s.k lr (fun j => (s.k.mutexes j).task) lw := ⟨h.lists, h.ready hl, fun _ _ _ => rfl, Idle.refl _⟩

/-- Only the ready queue changes, and no task that is in a call leaves it. -/
theorem Inv.settle (h : Inv s lr lw) (hout : (s.pc s.k.curr).midCall = false)
    (hs : Settles s.k k' lr' (fun j => (s.k.mutexes j).task) lw) (hport : k'.port = {}) (hc : k'.curr ∈ lr')
    (hlr : ∀ u, s.pc u ≠ .out → u ∈ lr → u ∈ lr') : Inv (s.goto (s.pc s.k.curr) l k') lr' lw := by
  refine h.goto_free hout hs hport hc (fun u _ => hlr u) ?_ fun tm ho =>
    ho.keep hout (fun _ => Iff.rfl) (hs.idle.timer _)
  refine (h.tasks s.k.curr).keep hout (fun _ => Iff.rfl) (hlr _) (fun j hj => hs.waits j _ hj) (hs.idle.mutex _) rfl
    fun j => ?_
  show (k'.mutexes j).lock = _ ∧ (k'.mutexes j).owner = _
  rw [hs.idle.mutexes]
  exact ⟨rfl, rfl⟩

/-! ### Ticks -/

/-- A tick that does not come in the midst of a call. -/
theorem Inv.tick (h : Inv s lr lw) (hout : (s.pc s.k.curr).midCall = false) {wakes : Option (Fin n)}
    (hw : ∀ t, wakes = some t → s.pc t = .out ∧ (s.k.tcb t).state = .suspend)
    (hk : rxTimerTickIrqHandler (irqEnter s.k) wakes = .ok k') :
    ∃ lr', Inv (s.sigReturn k') lr' lw ∧ Idle s.k (s.sigReturn k').k := by
  have hr := h.ready (LockPc.loose_of_not_midCall hout _)
  have hfree : ∀ t, wakes = some t → t ∉ lr ∧ ∀ j, t ∉ lw j := by
    intro t ht
    obtain ⟨hp, hst⟩ := hw t ht
    have hat := h.tasks t
    rw [hp] at hat
    refine ⟨?_, hat⟩
    rw [hr, hst]
    simp
  have hcr := h.curr hout
  obtain ⟨lr', hs, hport, hc, hlr⟩ := rxTimerTickIrqHandler_spec h.lists h.port hr hcr hfree hk
  exact ⟨lr', h.settle hout hs hport (by rw [hc]; exact (hlr _).mpr (Or.inr hcr)) fun u _ hu => (hlr u).mpr (Or.inr hu),
    hs.idle⟩

/-- A tick, wherever it comes, that only counts. -/
theorem Inv.tick_idle (h : Inv s lr lw) (hres : s.k.needResched = false)
    (hslice : ¬ ((s.k.tcb s.k.curr).timeSlice > 0 ∧ (s.k.tcb s.k.curr).ticks - 1 = 0))
    (hk : rxTimerTickIrqHandler (irqEnter s.k) none = .ok k') :
    Inv (s.sigReturn k') lr lw ∧ Idle s.k (s.sigReturn k').k := by
  obtain ⟨k1, x, hrun, hres', hret⟩ := rxTimerTickIrqHandler_idle h.port hres hslice
  obtain rfl := Except.ok.inj (hrun.symm.trans hk)
  set f : Tcb n → Tcb n := fun c => { c with ticks := x } with hf
  have hls : Lists (s.k.modTcb s.k.curr f) (s.k.modTcb s.k.curr f) lr (fun j => (s.k.mutexes j).task) lw :=
    h.lists.modTcb s.k.curr fun _ _ => rfl
  have hi : Idle s.k (irqExit (preempt k1)) := by
    rw [hret]
    have := Idle.modTcb s.k s.k.curr (f := f) (fun _ => rfl) fun _ => rfl
    exact ⟨rfl, rfl, rfl, this.mutex, this.timer⟩
  refine ⟨?_, hi⟩
  unfold sigReturn
  rw [hres', if_neg Bool.false_ne_true]
  apply h.same h.depth
  · rw [hret]
    exact ⟨Relinked.refl _, hls.port, hls.ready, hls.wait, hls.notReady, hls.apart⟩
  · rw [hret]
    exact h.port
  · intro u
    rw [hret]
    exact Kernel.modTcb_keeps s.k s.k.curr u Tcb.state fun _ => rfl
  · exact hi
  · rw [hret]
    rfl

/-- A tick that is harmless in the midst of a call. -/
theorem Inv.tick_safe (h : Inv s lr lw) {wakes : Option (Fin n)} {r : Option OsErr}
    (hw : ∀ t, wakes = some t → s.pc t = .out ∧ (s.k.tcb t).state = .suspend) (hg : TickSafe s (.tick wakes, r))
    (hk : rxTimerTickIrqHandler (irqEnter s.k) wakes = .ok k') :
    ∃ lr', Inv (s.sigReturn k') lr' lw ∧ Idle s.k (s.sigReturn k').k := by
  cases hmid : (s.pc s.k.curr).midCall with
  | true =>
    obtain ⟨rfl, hres, hslice⟩ := hg hmid
    exact ⟨lr, h.tick_idle hres hslice hk⟩
  | false => exact h.tick hmid hw hk

/-! ### The window -/

section Window

variable {st : LockStage} {timeout : ℤ} {tm : ℕ}

theorem Inv.at_window (h : Inv s lr lw) (hpc : s.pc s.k.curr = .window st m timeout tm) :
    s.k.curr ∉ lr ∧ (∃ l, lw m = l ++ [s.k.curr]) ∧ (s.k.tcb s.k.curr).state = .suspend ∧
      (s.k.tcb s.k.curr).mutex = some m ∧ (st = .chained → tm ∉ s.k.active ∧ timeout < 2 ^ 31) := by
  have hat := h.tasks s.k.curr
  rw [hpc] at hat
  obtain ⟨-, ⟨l, hl⟩, hrest⟩ := hat
  exact ⟨h.lists.notReady m _ (by rw [hl]; simp), ⟨l, hl⟩, hrest⟩

/-- A step of the running task in the window: the lists, the states and the
mutexes stay. -/
theorem Inv.window_step (h : Inv s lr lw) (hpc : s.pc s.k.curr = .window st m timeout tm) {st' : LockStage}
    (hd : l.length = (LockPc.window (n := n) st' m timeout tm).depth)
    (hl : Lists k' k' lr (fun j => (s.k.mutexes j).task) lw) (hport : k'.port = {})
    (hst : ∀ u, (k'.tcb u).state = (s.k.tcb u).state) (hmut : ∀ u, (k'.tcb u).mutex = (s.k.tcb u).mutex)
    (hmtx : k'.mutexes = s.k.mutexes) (hcurr : k'.curr = s.k.curr)
    (hch : st' = .chained → tm ∉ k'.active ∧ timeout < 2 ^ 31) (hact : k'.active.Nodup)
    (harmed : ∀ tm' ∈ k'.active, (k'.timers tm').enabled = true ∧ (k'.timers tm').handler = some .mutexHandler ∧
      ∃ u, (k'.timers tm').priv = some u ∧
        Owns k' lw u tm' ((s.goto (.window st' m timeout tm) l k').pc u)) :
    Inv (s.goto (.window st' m timeout tm) l k') lr lw := by
  obtain ⟨-, hlast, hst0, hmut0, -⟩ := h.at_window hpc
  refine h.goto_call rfl hd ⟨hl, hport, fun _ u _ => hst u, hmtx, hmut⟩ hcurr (fun _ _ _ hu => hu) (fun u => ?_) ?_ hact
    harmed
  · rw [hst, h.ready (by rw [hpc]; rfl)]
    exact ⟨fun hr => ⟨hr, by simp [LockPc.loose]⟩, fun hr => hr.1⟩
  · exact ⟨hcurr.symm, hlast, (hst _).trans hst0, (hmut _).trans hmut0, hch⟩

/-- The timer of a timed call starts. -/
theorem Inv.start (h : Inv s lr lw) (hpc : s.pc s.k.curr = .window .chained m timeout tm) (h0 : timeout > 0) :
    Inv (s.goto (.window .started m timeout tm) [] (lockStart s.k (BitVec.ofInt 32 timeout) tm)) lr lw := by
  obtain ⟨-, -, -, -, hch⟩ := h.at_window hpc
  obtain ⟨htm, h1⟩ := hch rfl
  have hne := ticks_ne_zero h0 h1
  set k1 := lockStart s.k (BitVec.ofInt 32 timeout) tm with hk1
  have hl : Lists k1 k1 lr (fun j => (s.k.mutexes j).task) lw := (h.lists.rxInitTimer tm _ _ _).rxStartTimer tm
  have htcb : k1.tcb = s.k.tcb := by simp [hk1, lockStart]
  have hperm : k1.active.Perm (tm :: s.k.active) := start_init_perm _ _ hne
  obtain ⟨x, hx⟩ : ∃ x, k1.timers = Function.update s.k.timers tm
      { Timer.init .mutexHandler s.k.curr s.k.curr (BitVec.ofInt 32 timeout) with timeExpiry := x, enabled := true } :=
    start_init_timers _ _ hne
  refine h.window_step hpc rfl hl (start_init_port _ _ h.port) (fun u => by rw [htcb]) (fun u => by rw [htcb])
    (by simp [hk1, lockStart]) (by simp [hk1, lockStart]) (fun hs => by cases hs)
    (hperm.nodup_iff.mpr (List.nodup_cons.mpr ⟨htm, h.active⟩)) fun tm' htm' => ?_
  show (k1.timers tm').enabled = true ∧ (k1.timers tm').handler = _ ∧ ∃ u, (k1.timers tm').priv = some u ∧
    Owns k1 lw u tm' (Function.update s.pc s.k.curr _ u)
  rw [hx]
  by_cases he : tm' = tm
  · subst he
    rw [Function.update_self]
    refine ⟨rfl, rfl, s.k.curr, rfl, ?_⟩
    rw [Function.update_self]
    rfl
  · rw [Function.update_of_ne he]
    obtain ⟨hen, hhd, u, hpr, ho⟩ := h.armed tm' ((List.mem_cons.mp (hperm.mem_iff.mp htm')).resolve_left he)
    have hu : u ≠ s.k.curr := by
      rintro rfl
      rw [hpc] at ho
      exact ho
    refine ⟨hen, hhd, u, hpr, ?_⟩
    rw [Function.update_of_ne hu]
    exact ho.keep (h.notMidCall hu) (fun _ => Iff.rfl) (by rw [htcb])

/-- The timer's address is stored. -/
theorem Inv.point (h : Inv s lr lw) (hpc : s.pc s.k.curr = .window .started m timeout tm) :
    Inv (s.goto (.window .pointed m timeout tm) [] (lockPoint s.k tm)) lr lw := by
  have hl : Lists (lockPoint s.k tm) (lockPoint s.k tm) lr (fun j => (s.k.mutexes j).task) lw :=
    h.lists.modTcb s.k.curr fun _ _ => rfl
  refine h.window_step hpc rfl hl h.port (fun u => Kernel.modTcb_keeps s.k _ u Tcb.state fun _ => rfl)
    (fun u => Kernel.modTcb_keeps s.k _ u Tcb.mutex fun _ => rfl) rfl rfl (fun hs => by cases hs) h.active
    (h.armed_goto rfl rfl (fun u hu => by rw [lockPoint, Kernel.modTcb_of_ne _ hu]) fun tm' ho => ?_)
  rw [hpc] at ho
  refine ⟨ho, ?_⟩
  rw [lockPoint, Kernel.modTcb_self]
  exact congrArg some ho

/-- The task is not on the ready queue any more. -/
theorem Inv.unqueue (h : Inv s lr lw) (hpc : s.pc s.k.curr = .window .pointed m timeout tm)
    (hk : rxRemoveFromReadyQ s.k s.k.curr = .ok k') : Inv (s.goto (.window .unqueued m timeout tm) [] k') lr lw := by
  obtain ⟨hnot, ⟨l, hlast⟩, -⟩ := h.at_window hpc
  have hnone : s.k.next s.k.curr = none := by
    have hw := h.lists.wait m
    rw [hlast] at hw
    exact next_of_chain_concat hw
  have hne : lr ≠ [] := by
    rintro rfl
    rw [rxRemoveFromReadyQ_empty h.lists.ready] at hk
    cases hk
  obtain ⟨k1, hrem, h1⟩ := h.lists.removeReady_of_notMem hnot hne hnone
  obtain rfl : k1 = k' := Except.ok.inj (hrem.symm.trans hk)
  have hport : k1.port = {} := by
    rw [rxRemoveFromReadyQ_notMem h.lists.ready hnot hne] at hk
    obtain rfl := Except.ok.inj hk
    show s.k.port.disableIrqGlobal.restoreIrqGlobal = {}
    rw [h.port]
    rfl
  refine h.window_step hpc rfl h1.self hport h1.data.state h1.data.mutex h1.data.mutexes h1.data.curr
    (fun hs => by cases hs) (by rw [h1.data.active]; exact h.active)
    (h.armed_goto h1.data.active h1.data.timers (fun u _ => h1.data.timer u) fun tm' ho => ?_)
  rw [hpc] at ho
  exact ⟨ho.1, (h1.data.timer _).trans ho.2⟩

/-- The state of a task in the window is set again. -/
theorem Inv.mark (h : Inv s lr lw) (hpc : s.pc s.k.curr = .window .unqueued m timeout tm) :
    Inv (s.goto (.window (.waiting true) m timeout tm) [.called] (s.k.setState s.k.curr .suspend)) lr lw := by
  obtain ⟨-, -, hst0, -⟩ := h.at_window hpc
  have hi := Idle.setState s.k s.k.curr .suspend
  have hst : ∀ u, ((s.k.setState s.k.curr .suspend).tcb u).state = (s.k.tcb u).state := by
    intro u
    rw [state_setState]
    split_ifs with hu
    · rw [hu, hst0]
    · rfl
  refine h.window_step hpc rfl (h.lists.setState s.k.curr .suspend).self h.port hst hi.mutex rfl rfl
    (fun hs => by cases hs) h.active (h.armed_goto rfl rfl (fun u _ => hi.timer u) fun tm' ho => ?_)
  rw [hpc] at ho
  exact ⟨ho.1, (hi.timer _).trans ho.2⟩

end Window

/-! ### `rx_sched` -/

/-- A task in `rx_sched` is in the midst of no other call, or this is what its
call waits in. -/
theorem Inv.sched_cases (h : Inv s lr lw) {st : SchedStage} (hs : s.scheds s.k.curr = st :: l) :
    (s.pc s.k.curr).midCall = false ∨ l = [] ∧ s.k.curr ∉ lr ∧
      ((∃ timed m timeout tm, s.pc s.k.curr = .window (.waiting timed) m timeout tm) ∨
        s.pc s.k.curr = .suspending true) := by
  have hd := h.depth
  rw [hs] at hd
  cases hpc : s.pc s.k.curr with
  | out => exact Or.inl rfl
  | asleep m timed => exact Or.inl rfl
  | window stage m timeout tm =>
    rw [hpc] at hd
    have hlen := hd rfl
    cases stage with
    | waiting timed =>
      have hl : l = [] := List.eq_nil_of_length_eq_zero (Nat.succ.inj hlen)
      exact Or.inr ⟨hl, (h.at_window hpc).1, Or.inl ⟨timed, m, timeout, tm, rfl⟩⟩
    | chained => cases hlen
    | started => cases hlen
    | pointed => cases hlen
    | unqueued => cases hlen
  | suspending marked =>
    rw [hpc] at hd
    have hlen := hd rfl
    cases marked with
    | false => cases hlen
    | true =>
      have hl : l = [] := List.eq_nil_of_length_eq_zero (Nat.succ.inj hlen)
      refine Or.inr ⟨hl, fun hcr => ?_, Or.inr rfl⟩
      have hat := h.tasks s.k.curr
      have hrun := h.runnable hcr
      rw [hpc] at hat
      rw [hat.2.2 rfl] at hrun
      cases hrun
  | resuming t marked =>
    rw [hpc] at hd
    cases hd rfl

theorem Inv.loose_sched (h : Inv s lr lw) {st : SchedStage} (hs : s.scheds s.k.curr = st :: l) :
    (s.pc s.k.curr).loose s.k.curr = none := by
  rcases h.sched_cases hs with hmid | ⟨-, -, ⟨timed, m, timeout, tm, hpc⟩ | hpc⟩
  · exact LockPc.loose_of_not_midCall hmid _
  · rw [hpc]
    rfl
  · rw [hpc]
    rfl

/-- The call is left with a task of the ready queue running. -/
theorem Inv.schedReturn (h : Inv s lr lw) {st : SchedStage} (hs : s.scheds s.k.curr = st :: l)
    (hset : Settles s.k k' lr (fun j => (s.k.mutexes j).task) lw) (hport : k'.port = {}) (hc : k'.curr ∈ lr) :
    Inv (s.schedReturn l k') lr lw := by
  unfold TickSys.schedReturn
  rcases h.sched_cases hs with hmid | ⟨rfl, -, ⟨timed, m, timeout, tm, hpc⟩ | hpc⟩
  · rw [LockPc.returned_of_not_midCall hmid, ite_self]
    exact h.settle hmid hset hport hc fun _ _ hu => hu
  · obtain ⟨-, ⟨l, hlast⟩, hst0, hmut0, -⟩ := h.at_window hpc
    have hmem : s.k.curr ∈ lw m := by rw [hlast]; simp
    rw [hpc]
    refine h.goto_free (p := .asleep m timed) rfl hset hport hc (fun _ _ _ hu => hu) ?_ fun tm' ho => ?_
    · exact Or.inl ⟨hmem, (hset.waits m _ hmem).trans hst0, (hset.idle.mutex _).trans hmut0⟩
    · rw [hpc] at ho
      cases timed with
      | false => exact ho.elim
      | true => exact ⟨rfl, hmem, (hset.idle.timer _).trans (ho.1 ▸ ho.2)⟩
  · have hat := h.tasks s.k.curr
    rw [hpc] at hat
    rw [hpc]
    refine h.goto_free (p := .out) rfl hset hport hc (fun _ _ _ hu => hu) hat.2.1 fun tm' ho => ?_
    rw [hpc] at ho
    exact ho

theorem Inv.schedStep (h : Inv s lr lw) {st : SchedStage} (hs : s.scheds s.k.curr = st :: l)
    (hk : s.schedStep l st = .ok s') : Inv s' lr lw ∧ Idle s.k s'.k := by
  have hset := h.settles (h.loose_sched hs)
  have hd : ∀ st', (s.pc s.k.curr).midCall = true → (st' :: l).length = (s.pc s.k.curr).depth := by
    intro st' hmid
    rw [← h.depth hmid, hs]
    rfl
  cases st with
  | called =>
    unfold TickSys.schedStep at hk
    split_ifs at hk with hne
    · obtain rfl := Except.ok.inj hk
      exact ⟨h.same (hd _) h.lists h.port (fun _ => rfl) (Idle.refl _) rfl, Idle.refl _⟩
    · obtain rfl := Except.ok.inj hk
      have hhead := Seg.head h.lists.ready
      rw [← not_not.mp hne] at hhead
      exact ⟨h.schedReturn hs hset h.port (List.mem_of_head? hhead.symm), Idle.refl _⟩
  | tested =>
    obtain rfl := Except.ok.inj hk
    have hset' : Settles s.k (clearResched s.k) lr (fun j => (s.k.mutexes j).task) lw :=
      hset.of_eq rfl rfl rfl rfl rfl rfl
    exact ⟨h.same (hd _) hset'.lists h.port (fun _ => rfl) hset'.idle rfl, hset'.idle⟩
  | cleared =>
    obtain ⟨k', hsw, rfl⟩ := map_eq_ok.mp hk
    obtain ⟨hset', hc, hp⟩ := hset.switch hsw
    exact ⟨h.schedReturn hs hset' (hp h.port) hc, hset'.idle⟩

/-! ### `rx_suspend_task` and `rx_resume_task` -/

/-- A task outside takes itself off the ready queue. -/
theorem Inv.suspend (h : Inv s lr lw) (hpc : s.pc s.k.curr = .out) (hk : rxRemoveFromReadyQ s.k s.k.curr = .ok k') :
    ∃ lr', Inv (s.goto (.suspending false) [] k') lr' lw ∧ Idle s.k k' := by
  have hcr : s.k.curr ∈ lr := h.curr (by rw [hpc]; rfl)
  have hnd := h.lists.ready.nodup
  have hat := h.tasks s.k.curr
  rw [hpc] at hat
  obtain ⟨k1, hrem, -, h1⟩ := h.lists.removeReady hcr
  obtain rfl : k1 = k' := Except.ok.inj (hrem.symm.trans hk)
  have hport : k1.port = {} := by
    obtain ⟨k1', hrem', hport, -⟩ := rxRemoveFromReadyQ_mem h.lists.ready hcr
    obtain rfl : k1 = k1' := Except.ok.inj (hrem.symm.trans hrem')
    rw [hport, h.port]
    rfl
  have hi := Idle.of_relinked h1.data
  refine ⟨lr.erase s.k.curr, ?_, hi⟩
  refine h.goto_call rfl rfl ⟨h1.self, hport, fun _ u _ => h1.data.state u, hi.mutexes, hi.mutex⟩ h1.data.curr
    (fun u hu _ hr => hnd.mem_erase_iff.mpr ⟨hu, hr⟩) (fun u => ?_) ⟨h1.data.curr.symm, hat, fun he => by cases he⟩
    (by rw [hi.active]; exact h.active) (h.armed_goto hi.active hi.timers (fun u _ => hi.timer u) fun tm ho => ?_)
  · rw [hnd.mem_erase_iff, h.ready (by rw [hpc]; rfl), h1.data.state, and_comm]
    simp only [LockPc.loose, ne_eq, Option.some.injEq, eq_comm]
  · rw [hpc] at ho
    exact ho

/-- It marks itself suspended. -/
theorem Inv.suspended (h : Inv s lr lw) (hpc : s.pc s.k.curr = .suspending false) :
    Inv (s.goto (.suspending true) [.called] (s.k.setState s.k.curr .suspend)) lr lw := by
  have hat := h.tasks s.k.curr
  rw [hpc] at hat
  have hi := Idle.setState s.k s.k.curr .suspend
  have hst : ∀ u, ((s.k.setState s.k.curr .suspend).tcb u).state = if u = s.k.curr then .suspend else (s.k.tcb u).state :=
    fun u => state_setState s.k s.k.curr u .suspend
  refine h.goto_call rfl rfl ⟨(h.lists.setState s.k.curr .suspend).self, h.port, fun j u hu => ?_, rfl, hi.mutex⟩ rfl
    (fun _ _ _ hu => hu) (fun u => ?_) ⟨rfl, hat.2.1, fun _ => (hst _).trans (if_pos rfl)⟩ h.active
    (h.armed_goto rfl rfl (fun u _ => hi.timer u) fun tm ho => ?_)
  · have huc : u ≠ s.k.curr := fun he => hat.2.1 j (he ▸ hu)
    rw [hst, if_neg huc]
  · rw [h.queue, hpc, hst]
    by_cases hu : u = s.k.curr
    · rw [if_pos hu, hu]
      simp [LockPc.loose]
    · rw [if_neg hu]
      simp [LockPc.loose, Ne.symm hu]
  · rw [hpc] at ho
    exact ho

/-- A task that is to be resumed has been found suspended. -/
theorem Inv.resume (h : Inv s lr lw) (hpc : s.pc s.k.curr = .out) (ht : s.pc t = .out)
    (hst : (s.k.tcb t).state = .suspend) : Inv (s.goto (.resuming t false) [] s.k) lr lw := by
  have hat := h.tasks s.k.curr
  have htw := h.tasks t
  rw [hpc] at hat
  rw [ht] at htw
  have hr := h.ready (by rw [hpc]; rfl)
  refine h.goto_call rfl rfl ⟨h.lists, h.port, fun _ _ _ => rfl, rfl, fun _ => rfl⟩ rfl (fun _ _ _ hu => hu) (fun u => ?_)
    ⟨rfl, hat, h.curr (by rw [hpc]; rfl), htw, hst⟩ h.active (h.armed_goto rfl rfl (fun _ _ => rfl) fun tm ho => ?_)
  · rw [hr]
    simp [LockPc.loose]
  · rw [hpc] at ho
    exact ho

/-- It is marked ready. -/
theorem Inv.resumed (h : Inv s lr lw) (hpc : s.pc s.k.curr = .resuming t false) :
    Inv (s.goto (.resuming t true) [] (s.k.setState t .ready)) lr lw := by
  have hat := h.tasks s.k.curr
  rw [hpc] at hat
  obtain ⟨-, hcw, hcr, htw, hts⟩ := hat
  have hi := Idle.setState s.k t .ready
  have hst : ∀ u, ((s.k.setState t .ready).tcb u).state = if u = t then .ready else (s.k.tcb u).state :=
    fun u => state_setState s.k t u .ready
  refine h.goto_call rfl rfl ⟨(h.lists.setState t .ready).self, h.port, fun j u hu => ?_, rfl, hi.mutex⟩ rfl
    (fun _ _ _ hu => hu) (fun u => ?_) ⟨rfl, hcw, hcr, htw, (hst t).trans (if_pos rfl)⟩ h.active
    (h.armed_goto rfl rfl (fun u _ => hi.timer u) fun tm ho => ?_)
  · have hut : u ≠ t := fun he => htw j (he ▸ hu)
    rw [hst, if_neg hut]
  · rw [h.ready (by rw [hpc]; rfl), hst]
    by_cases hu : u = t
    · rw [if_pos hu, hu, hts]
      simp [LockPc.loose]
    · rw [if_neg hu]
      simp [LockPc.loose, Ne.symm hu]
  · rw [hpc] at ho
    exact ho

/-- It is put on the ready queue. -/
theorem Inv.requeued (h : Inv s lr lw) (hpc : s.pc s.k.curr = .resuming t true) {r : OsErr}
    (hk : rxAddToReadyQ s.k t = .ok (r, k')) : ∃ lr', Inv (s.goto .out [] k') lr' lw ∧ Idle s.k k' := by
  have hat := h.tasks s.k.curr
  rw [hpc] at hat
  obtain ⟨-, hcw, hcr, htw, hts⟩ := hat
  have htr : t ∉ lr := by
    rw [h.queue, hpc]
    simp [LockPc.loose]
  have hrun : (s.k.tcb t).state.runnable = true := by
    rw [hts]
    rfl
  obtain ⟨k1, hadd, h1⟩ := h.lists.addReady htr htw hrun
  obtain ⟨-, rfl⟩ := Prod.mk.inj (Except.ok.inj (hadd.symm.trans hk))
  have hport : k1.port = {} := by
    obtain ⟨k1', hadd', hport, -⟩ := rxAddToReadyQ_spec h.lists.ready htr hrun
    obtain ⟨-, rfl⟩ := Prod.mk.inj (Except.ok.inj (hadd.symm.trans hadd'))
    rw [hport, h.port]
    rfl
  obtain ⟨lr1, h1, hm⟩ : ∃ lr1, Lists s.k k1 lr1 (fun j => (s.k.mutexes j).task) lw ∧ ∀ u, u ∈ lr1 ↔ u = t ∨ u ∈ lr :=
    ⟨_, h1, fun u => mem_insertReady⟩
  have hi := Idle.of_relinked h1.data
  have hs : Settles s.k k1 lr1 (fun j => (s.k.mutexes j).task) lw := by
    refine ⟨h1.self, fun u => ?_, fun _ u _ => h1.data.state u, hi⟩
    rw [hm, h.queue, hpc, h1.data.state]
    by_cases hu : u = t
    · rw [hu]
      exact iff_of_true (Or.inl rfl) hrun
    · simp [LockPc.loose, hu, Ne.symm hu]
  refine ⟨lr1, h.goto_free rfl hs hport ?_ (fun u _ _ hr => (hm u).mpr (Or.inr hr)) hcw fun tm ho => ?_, hi⟩
  · rw [h1.data.curr]
    exact (hm _).mpr (Or.inr hcr)
  · rw [hpc] at ho
    exact ho

/-! ### The steps of the running task -/

/-- The next step of a call, outside `rx_sched`. -/
theorem Inv.callStep (h : Inv s lr lw) (hmid : (s.pc s.k.curr).midCall = true) (hk : s.callStep = .ok s') :
    ∃ lr', Inv s' lr' lw := by
  unfold TickSys.callStep at hk
  cases hpc : s.pc s.k.curr with
  | out =>
    rw [hpc] at hmid
    cases hmid
  | asleep m timed =>
    rw [hpc] at hmid
    cases hmid
  | window st m timeout tm =>
    rw [hpc] at hk
    refine ⟨lr, ?_⟩
    cases st with
    | chained =>
      dsimp only at hk
      split_ifs at hk with h0
      · obtain rfl := Except.ok.inj hk
        exact h.start hpc h0
      · obtain rfl := Except.ok.inj hk
        refine h.window_step hpc rfl h.lists h.port (fun _ => rfl) (fun _ => rfl) rfl rfl (fun hs => by cases hs) h.active
          (h.armed_goto rfl rfl (fun _ _ => rfl) fun tm' ho => ?_)
        rw [hpc] at ho
        exact ho
    | started =>
      obtain rfl := Except.ok.inj hk
      exact h.point hpc
    | pointed =>
      obtain ⟨k', hrem, rfl⟩ := map_eq_ok.mp hk
      exact h.unqueue hpc hrem
    | unqueued =>
      obtain rfl := Except.ok.inj hk
      exact h.mark hpc
    | waiting timed =>
      obtain rfl := Except.ok.inj hk
      exact h
  | suspending marked =>
    rw [hpc] at hk
    cases marked with
    | false =>
      obtain rfl := Except.ok.inj hk
      exact ⟨lr, h.suspended hpc⟩
    | true =>
      obtain rfl := Except.ok.inj hk
      exact ⟨lr, h⟩
  | resuming t marked =>
    rw [hpc] at hk
    cases marked with
    | false =>
      obtain rfl := Except.ok.inj hk
      exact ⟨lr, h.resumed hpc⟩
    | true =>
      obtain ⟨⟨r, k'⟩, hadd, rfl⟩ := map_eq_ok.mp hk
      obtain ⟨lr', hi, -⟩ := h.requeued hpc hadd
      exact ⟨lr', hi⟩

/-- A task outside calls `rx_sched`. -/
theorem Inv.sched (h : Inv s lr lw) (hpc : s.pc s.k.curr = .out) : Inv (s.goto .out [.called] s.k) lr lw := by
  have := h.same (l := [.called]) (fun hmid => by rw [hpc] at hmid; cases hmid) h.lists h.port (fun _ => rfl)
    (Idle.refl _) rfl
  rw [hpc] at this
  exact this

/-- The next step of the running task. -/
theorem Inv.advance (h : Inv s lr lw) (ha : s.Admissible .advance) (hk : s.advance = .ok s') : ∃ lr', Inv s' lr' lw := by
  unfold TickSys.advance at hk
  cases hs : s.scheds s.k.curr with
  | nil =>
    rw [hs] at hk
    exact h.callStep (ha.resolve_right fun hne => hne hs) hk
  | cons st l =>
    rw [hs] at hk
    exact ⟨lr, (h.schedStep hs hk).1⟩

/-- The blocked call returns. -/
theorem Inv.ret (h : Inv s lr lw) {timed : Bool} (hpc : s.pc s.k.curr = .asleep m timed) :
    Inv (s.goto .out [] s.k) lr lw ∧
      (timed = false → s.deleted m = false → (s.k.mutexes m).owner = some s.k.curr) := by
  have hcr : s.k.curr ∈ lr := h.curr (by rw [hpc]; rfl)
  have hnot : ∀ j, s.k.curr ∉ lw j := fun j hj => h.lists.notReady j _ hj hcr
  have hset := h.settles (by rw [hpc]; rfl)
  refine ⟨h.goto_free rfl hset h.port hcr (fun _ _ _ hu => hu) hnot fun tm ho => ?_, fun hf hd => ?_⟩
  · rw [hpc] at ho
    exact hnot m ho.2.1
  · have hat := h.tasks s.k.curr
    rw [hpc] at hat
    rcases hat with ⟨hm, -⟩ | ⟨-, ho⟩
    · exact absurd hm (hnot m)
    · exact (ho hf hd).2

end Calls

/-! ### Whole runs -/

section Run

variable {s s' : TickSys n} {lr : List (Fin n)} {lw : ℕ → List (Fin n)}

/-- The tasks that leave a chain in a step. -/
def Leaves (s : TickSys n) (c : TickCall n) (lw lw' : ℕ → List (Fin n)) : Prop :=
  ∀ m t, t ∈ lw m → t ∈ lw' m ∨ c = .unlock m ∨ c = .delete m ∨
    ∃ tm, c = .expire tm ∧ (s.k.tcb t).timer = some tm ∧ s.pc t = .asleep m true

theorem leaves_refl (c : TickCall n) : Leaves s c lw lw := fun _ _ ht => Or.inl ht

/-- Only the chain of `m` changes. -/
theorem leaves_update {c : TickCall n} {m : ℕ} {l : List (Fin n)}
    (h : ∀ t ∈ lw m, t ∈ l ∨ c = .unlock m ∨ c = .delete m ∨
      ∃ tm, c = .expire tm ∧ (s.k.tcb t).timer = some tm ∧ s.pc t = .asleep m true) :
    Leaves s c lw (Function.update lw m l) := by
  intro j t ht
  by_cases hj : j = m
  · subst hj
    rw [Function.update_self]
    exact h t ht
  · rw [Function.update_of_ne hj]
    exact Or.inl ht

/-- The three outcomes of the locked part of `rx_mutex_lock`. -/
theorem lock_step (h : Inv s lr lw) {m : ℕ} {timeout : ℤ} {tm : ℕ} {r : Option OsErr}
    (ha : s.Admissible (.lock m timeout tm)) (hk : s.exec (.lock m timeout tm) = .ok (r, s')) :
    ∃ lr' lw', Inv s' lr' lw' ∧ Leaves s (.lock m timeout tm) lw lw' ∧ ReturnsToOwner s (.lock m timeout tm) r s' := by
  obtain ⟨⟨hpc, -⟩, h1, htm⟩ := ha
  obtain ⟨⟨r', k'⟩, hrun, hk⟩ := bind_eq_ok.mp hk
  rcases rxMutexLockChain_cases (i := m) h.lists rfl (h.curr (by rw [hpc]; rfl)) hrun with
    ⟨hl, rfl, rfl⟩ | ⟨-, rfl, rfl⟩ | ⟨hl, h0, rfl, o, ho⟩
  · obtain ⟨rfl, rfl⟩ := Prod.mk.inj (Except.ok.inj hk)
    refine ⟨lr, lw, h.lock_free hpc hl, leaves_refl _, fun _ => ?_⟩
    show (Function.update s.k.mutexes m _ m).owner = _
    rw [Function.update_self]
  · obtain ⟨rfl, rfl⟩ := Prod.mk.inj (Except.ok.inj hk)
    rw [enter_exit h.port]
    refine ⟨lr, lw, h, leaves_refl _, fun hr => ?_⟩
    cases hr
  · obtain ⟨rfl, rfl⟩ := Prod.mk.inj (Except.ok.inj hk)
    obtain ⟨⟨lr', hi⟩, -⟩ := h.lock_blocks hpc hl ho h0 h1 htm hrun
    refine ⟨lr', _, hi, leaves_update fun t ht => Or.inl (List.mem_append_left _ ht), fun hr => ?_⟩
    cases hr

/-- A return is that of a blocked call. -/
theorem ret_cases {r : Option OsErr} (ha : s.Admissible .ret) (he : s.exec .ret = .ok (r, s')) :
    ∃ m timed, s.pc s.k.curr = .asleep m timed ∧ r = some (rxMutexLockRet s.k m timed) ∧ s' = s.goto .out [] s.k := by
  obtain ⟨hne, hw, -⟩ := ha
  obtain ⟨m, timed, hpc⟩ := (LockPc.eq_out_or_asleep hw).resolve_left hne
  simp only [exec, hpc] at he
  obtain ⟨rfl, rfl⟩ := Prod.mk.inj (Except.ok.inj he)
  exact ⟨m, timed, hpc, rfl, rfl⟩

/-- A task that is not suspended is not resumed. -/
theorem resume_cases {t : Fin n} {r : Option OsErr} (he : s.exec (.resume t) = .ok (r, s')) :
    s' = s ∨ (s.k.tcb t).state = .suspend ∧ s' = s.goto (.resuming t false) [] s.k := by
  simp only [exec] at he
  split_ifs at he with hst
  · exact Or.inl (Prod.mk.inj (Except.ok.inj he)).2.symm
  · exact Or.inr ⟨not_not.mp hst, (Prod.mk.inj (Except.ok.inj he)).2.symm⟩

/-- Every step that meets the condition keeps the invariant, and what the step
does to the waiters and returns is as it should be. -/
theorem step_spec (h : Inv s lr lw) {c : TickCall n × Option OsErr} (hg : TickSafe s c) (hst : Step s c s') :
    ∃ lr' lw', Inv s' lr' lw' ∧ Leaves s c.1 lw lw' ∧ ReturnsToOwner s c.1 c.2 s' := by
  obtain ⟨c, r⟩ := c
  obtain ⟨ha, he⟩ := hst
  cases c with
  | lock m timeout tm => exact lock_step h ha he
  | advance =>
    obtain ⟨s1, hrun, hs⟩ := map_eq_ok.mp he
    obtain ⟨-, rfl⟩ := Prod.mk.inj hs
    obtain ⟨lr', hi⟩ := h.advance ha hrun
    exact ⟨lr', lw, hi, leaves_refl _, trivial⟩
  | unlock m =>
    obtain ⟨⟨r', k'⟩, hrun, hk⟩ := bind_eq_ok.mp he
    obtain ⟨-, rfl⟩ := Prod.mk.inj (Except.ok.inj hk)
    obtain ⟨lr', l, hi⟩ := h.unlock ha.1 hrun
    exact ⟨lr', _, hi, leaves_update fun _ _ => Or.inr (Or.inl rfl), trivial⟩
  | delete m =>
    obtain ⟨k', hrun, hs⟩ := map_eq_ok.mp he
    obtain ⟨-, rfl⟩ := Prod.mk.inj hs
    obtain ⟨lr', hi, -⟩ := h.delete ha.1 hrun
    exact ⟨lr', _, hi, leaves_update fun _ _ => Or.inr (Or.inr (Or.inl rfl)), trivial⟩
  | expire tm =>
    obtain ⟨k', hrun, hs⟩ := map_eq_ok.mp he
    obtain ⟨-, rfl⟩ := Prod.mk.inj hs
    obtain ⟨t, m, lr', l, htt, hp, hi, hl⟩ := h.expire ha.1.1 ha.2 hrun
    refine ⟨lr', _, hi, leaves_update fun u hu => ?_, trivial⟩
    rcases hl u hu with hul | rfl
    · exact Or.inl hul
    · exact Or.inr (Or.inr (Or.inr ⟨tm, rfl, htt, hp⟩))
  | ret =>
    obtain ⟨m, timed, hpc, rfl, rfl⟩ := ret_cases ha he
    obtain ⟨hi, ho⟩ := h.ret hpc
    refine ⟨lr, lw, hi, leaves_refl _, fun m' hm hd _ => ?_⟩
    rw [hpc] at hm
    cases hm
    exact ho rfl hd
  | sched =>
    obtain ⟨-, rfl⟩ := Prod.mk.inj (Except.ok.inj he)
    exact ⟨lr, lw, h.sched ha.1, leaves_refl _, trivial⟩
  | suspend =>
    obtain ⟨k', hrun, hs⟩ := map_eq_ok.mp he
    obtain ⟨-, rfl⟩ := Prod.mk.inj hs
    obtain ⟨lr', hi, -⟩ := h.suspend ha.1 hrun
    exact ⟨lr', lw, hi, leaves_refl _, trivial⟩
  | resume t =>
    rcases resume_cases he with rfl | ⟨hst, rfl⟩
    · exact ⟨lr, lw, h, leaves_refl _, trivial⟩
    · exact ⟨lr, lw, h.resume ha.1.1 ha.2 hst, leaves_refl _, trivial⟩
  | tick wakes =>
    obtain ⟨k', hrun, hs⟩ := map_eq_ok.mp he
    obtain ⟨-, rfl⟩ := Prod.mk.inj hs
    obtain ⟨lr', hi, -⟩ := h.tick_safe ha.2 hg hrun
    exact ⟨lr', lw, hi, leaves_refl _, trivial⟩

theorem step_keeps (h : Inv s lr lw) {c : TickCall n × Option OsErr} (hg : TickSafe s c) (hst : Step s c s') :
    (∃ lr' lw', Inv s' lr' lw') ∧ KeepsWaiting s c.1 s' ∧ ReturnsToOwner s c.1 c.2 s' := by
  obtain ⟨lr', lw', hi, hl, hr⟩ := step_spec h hg hst
  refine ⟨⟨lr', lw', hi⟩, fun m t ht => ?_, hr⟩
  rw [hi.onChain_iff]
  exact hl m t ((h.onChain_iff m t).mp ht)

/-- **Waiters stay suspended.** In every run in which a tick that comes between
the last `rx_exit_critical` of a lock call and its switch, or inside
`rx_suspend_task` or `rx_resume_task`, only counts, a task on a wait chain is
suspended and off the ready queue in every state, it leaves the chain only by an
unlock, a deletion or its timeout, and `OS_OK` without a timeout goes to the
owner. -/
theorem waitersSuspended_of_run (hi : Init s) {tr : List ((TickCall n × Option OsErr) × TickSys n)}
    (h : Run.Exec Step s tr) (hg : Run.Guarded TickSafe s tr) :
    (∀ x ∈ Run.states s tr, x.WaitersSuspended) ∧
      Run.Exec (fun s c s' => KeepsWaiting s c.1 s' ∧ ReturnsToOwner s c.1 c.2 s') s tr := by
  have hinv : ∃ lr lw, Inv s lr lw := by
    obtain ⟨lr, h⟩ := hi.inv
    exact ⟨lr, _, h⟩
  refine ⟨fun x hx => ?_, ?_⟩
  · obtain ⟨lr, lw, hx⟩ := h.invariant_of_guarded (fun s => ∃ lr lw, Inv s lr lw)
      (fun s c s' hs hc hst => by
        obtain ⟨lr, lw, hs⟩ := hs
        exact (step_keeps hs hc hst).1) hg hinv x hx
    exact hx.waitersSuspended
  · refine h.of_guarded (fun s => ∃ lr lw, Inv s lr lw) (fun s c s' hs hc hst => ?_) hg hinv
    obtain ⟨lr, lw, hs⟩ := hs
    exact step_keeps hs hc hst

end Run

instance (s : TickSys n) : Decidable s.Free :=
  inferInstanceAs (Decidable (s.pc s.k.curr = .out ∧ s.scheds s.k.curr = []))

instance (s : TickSys n) : ∀ c, Decidable (s.Admissible c)
  | .lock _ timeout tm => inferInstanceAs (Decidable (s.Free ∧ timeout < 2 ^ 31 ∧ tm ∉ s.k.active))
  | .advance => inferInstanceAs (Decidable ((s.pc s.k.curr).midCall = true ∨ s.scheds s.k.curr ≠ []))
  | .unlock _ | .delete _ | .sched | .suspend => inferInstanceAs (Decidable s.Free)
  | .expire tm => inferInstanceAs (Decidable (s.Free ∧ tm ∈ s.k.active))
  | .ret => inferInstanceAs (Decidable
      (s.pc s.k.curr ≠ .out ∧ (s.pc s.k.curr).midCall = false ∧ s.scheds s.k.curr = []))
  | .resume t => inferInstanceAs (Decidable (s.Free ∧ s.pc t = .out))
  | .tick wakes => inferInstanceAs (Decidable (s.k.port.masked = false ∧
      ∀ t, wakes = some t → s.pc t = .out ∧ (s.k.tcb t).state = .suspend))

instance (s : TickSys n) : ∀ c, Decidable (s.TickSafe c)
  | (.tick wakes, _) => inferInstanceAs (Decidable ((s.pc s.k.curr).midCall = true → wakes = none ∧
      s.k.needResched = false ∧ ¬ ((s.k.tcb s.k.curr).timeSlice > 0 ∧ (s.k.tcb s.k.curr).ticks - 1 = 0)))
  | (.lock .., _) | (.advance, _) | (.unlock _, _) | (.delete _, _) | (.expire _, _) | (.ret, _) | (.sched, _)
  | (.suspend, _) | (.resume _, _) => inferInstanceAs (Decidable True)

/-- Three ready tasks with time slices; task 0 runs. -/
def threeTasks (slice : ℤ) : TickSys 3 where
  k := { Kernel.allReady 2 with
    tcb := fun t => { (Kernel.allReady 2).tcb t with timeSlice := slice, ticks := slice } }
  pc := fun _ => .out
  scheds := fun _ => []
  deleted := fun _ => false

theorem threeTasks_init (slice : ℤ) : Init (threeTasks slice) where
  mutexes := fun _ => rfl
  ready := by
    have hmem : ∀ t : Fin 3, t ∈ ([0, 1, 2] : List (Fin 3)) := by decide
    have hst : ∀ t, ((Kernel.allReady 2).tcb t).state.runnable = true := by decide
    exact ⟨[0, 1, 2], ⟨rfl, rfl, rfl, rfl⟩, fun t => iff_of_true (hmem t) (hst t)⟩
  curr := rfl
  port := rfl
  active := rfl
  pc := fun _ => rfl
  scheds := fun _ => rfl
  deleted := fun _ => rfl

/-- Task 0 holds a mutex and suspends itself, and task 1 blocks on the mutex, with
a tick in the midst of each call. Task 2 resumes task 0 and is preempted by a
tick; another tick comes in the `rx_sched` that it is sent to. Task 1 returns
once task 0 has unlocked. -/
theorem waitersSuspended_tickedRun : Init (threeTasks 2) ∧ ∃ tr, Run.Exec Step (threeTasks 2) tr ∧
    Run.Guarded TickSafe (threeTasks 2) tr ∧ tr.length = 29 ∧
    (∀ x ∈ Run.states (threeTasks 2) tr, x.WaitersSuspended) ∧
    Run.Exec (fun s c s' => KeepsWaiting s c.1 s' ∧ ReturnsToOwner s c.1 c.2 s') (threeTasks 2) tr := by
  refine ⟨threeTasks_init 2, ?_⟩
  have hrun := Run.exists_exec (f := Run.attempt Admissible exec) (fun _ _ _ => Run.step_of_attempt)
    (s := threeTasks 2)
    [(.lock 0 osWaitForever 0, some .osOk), (.suspend, none), (.tick none, none), (.advance, none), (.advance, none),
      (.advance, none), (.advance, none), (.lock 0 osWaitForever 0, none), (.tick none, none), (.advance, none),
      (.advance, none), (.advance, none), (.advance, none), (.resume 0, none), (.tick none, none), (.advance, none),
      (.advance, none), (.tick none, none), (.advance, none), (.tick none, none), (.advance, none), (.advance, none),
      (.unlock 0, some .osOk), (.suspend, none), (.advance, none), (.advance, none), (.advance, none), (.advance, none),
      (.ret, some .osOk)]
    (fun tr => decide (Run.Guarded TickSafe (threeTasks 2) tr ∧ tr.length = 29)) (by decide +kernel)
  obtain ⟨tr, hex, hp⟩ := hrun
  obtain ⟨hg, hlen⟩ := of_decide_eq_true hp
  exact ⟨tr, hex, hg, hlen, waitersSuspended_of_run (threeTasks_init 2) hex hg⟩

/-- The tick comes when task 1 has one tick left: it puts task 1 on the ready
queue, where it is the first, and `rx_mutex_lock` goes on to return `OS_OK`
while task 0 owns the mutex. -/
theorem tick_in_window_returns : Init (threeTasks 1) ∧ ∃ tr, Run.Exec Step (threeTasks 1) tr ∧
    (¬ ∀ x ∈ Run.states (threeTasks 1) tr, x.WaitersSuspended) ∧
    ¬ Run.Exec (fun s c s' => KeepsWaiting s c.1 s' ∧ ReturnsToOwner s c.1 c.2 s') (threeTasks 1) tr := by
  refine ⟨threeTasks_init 1, ?_⟩
  have hrun := Run.exists_exec_last (f := Run.attempt Admissible exec) (fun _ _ _ => Run.step_of_attempt)
    (s := threeTasks 1)
    [(.lock 0 osWaitForever 0, some .osOk), (.suspend, none), (.advance, none), (.advance, none), (.advance, none),
      (.advance, none), (.lock 0 osWaitForever 0, none), (.tick none, none), (.advance, none), (.advance, none)]
    (.ret, some .osOk)
    (fun tr x => decide ((∃ y ∈ Run.states (threeTasks 1) (tr ++ [((TickCall.ret, some OsErr.osOk), x)]),
        y.OnChain 0 1 ∧ y.OnReady 1) ∧
      (Run.final (threeTasks 1) tr).pc (Run.final (threeTasks 1) tr).k.curr = .asleep 0 false ∧
      (Run.final (threeTasks 1) tr).deleted 0 = false ∧
      (x.k.mutexes 0).owner ≠ some (Run.final (threeTasks 1) tr).k.curr)) (by decide +kernel)
  obtain ⟨tr, x, hex, hp⟩ := hrun
  obtain ⟨⟨y, hy, hchain, hready⟩, hpc, hdel, howner⟩ := of_decide_eq_true hp
  refine ⟨_, hex, fun hall => ?_, fun hkeeps => ?_⟩
  · exact (hall y hy 0 1 hchain).1 hready
  · exact howner ((hkeeps.step_of_append).2 0 hpc hdel rfl)

end TickSys

end Rosx
