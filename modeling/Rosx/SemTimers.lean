/-
# Semaphores and the timers of their waits

Any number of tasks share any number of semaphores. A step of a run is a call
of `rx_semaphore_wait` or `rx_semaphore_post` by the running task, up to its
return or to the point where it blocks; an expiry, in which the timer thread
takes a timer off the active list and runs `__rx_sem_handler`; the return of a
blocked call; or the dispatch of any ready task.

The timer of a timed wait is a local variable of the call, so it must be off
the active list once the call has returned (`TimersPending`), and a task that
waits without a timeout must leave its chain by a post only (`LeavesByPost`).
Both fail after a post to a task that waits with a timeout: `rx_semaphore_post`
does not stop the timer, as the other wake-ups do. They hold along every run
without such a post (`timersPending_of_run`).

Key definitions: `SemsSys.exec`, `SemsSys.TimersPending`, `SemsSys.LeavesByPost`.
-/
import Rosx.Semaphore
import Rosx.Lib.Run

namespace Rosx

open Linked

variable {n : ℕ}

/-- Where a task is: outside, blocked in `rx_semaphore_wait` of a semaphore, or
woken there; with the timer of the call if it has a timeout. -/
inductive SemsPhase where
  | out
  | waiting (m : ℕ) (timer : Option ℕ)
  | woken (timer : Option ℕ)
  deriving DecidableEq, Repr

namespace SemsPhase

def timer : SemsPhase → Option ℕ
  | .waiting _ tm | .woken tm => tm
  | .out => none

def wake : SemsPhase → SemsPhase
  | .waiting _ tm => .woken tm
  | p => p

end SemsPhase

/-- The kernel, and where each task is. -/
structure SemsSys (n : ℕ) where
  k : Kernel n
  phase : Fin n → SemsPhase

/-- A step of a run. -/
inductive SemsCall (n : ℕ) where
  | wait (m : ℕ) (timeout : ℤ) (tm : ℕ)
  | post (m : ℕ)
  | expire (tm : ℕ)
  | ret
  | dispatch (t : Fin n) (preempted : Bool)

namespace SemsSys

/-- The kernel becomes `k'`; the tasks woken by it pass on. -/
def wake (s : SemsSys n) (k' : Kernel n) : SemsSys n where
  k := k'
  phase := fun t => if woken s.k k' t then (s.phase t).wake else s.phase t

/-- The timer of a wait, if it has a timeout. -/
def timerOf (timeout : ℤ) (tm : ℕ) : Option ℕ := if timeout > 0 then some tm else none

/-- The kernel becomes `k'`, with the running task blocked at `m`. -/
def block (s : SemsSys n) (m : ℕ) (timer : Option ℕ) (k' : Kernel n) : SemsSys n where
  k := k'
  phase := Function.update s.phase s.k.curr (.waiting m timer)

/-- What a step computes: the code a call returns, if it returns, and the
system it leaves. -/
def exec (s : SemsSys n) : SemsCall n → Res (Option OsErr × SemsSys n)
  | .wait m timeout tm => do
    let (r, k) ← rxSemaphoreWait s.k m timeout tm
    match r with
    | some _ => return (r, { s with k := k })
    | none => return (r, s.block m (timerOf timeout tm) k)
  | .post m => do
    let (r, k) ← rxSemaphorePost s.k m
    return (some r, s.wake k)
  | .expire tm =>
    match (s.k.timers tm).priv with
    | none => .error .null
    | some t => do
      let k ← rxSemHandler (s.k.enterCritical.disarm tm) t
      return (none, s.wake k.exitCritical)
  | .ret =>
    .ok (some (rxSemaphoreWaitRet s.k (s.phase s.k.curr).timer.isSome),
      { s with phase := Function.update s.phase s.k.curr .out })
  | .dispatch t preempted => .ok (none, { s with k := s.k.dispatch t preempted })

/-- A task calls when it is not blocked, with a timeout that is an `int`; the
timer of its call is no other call's. Only an active timer expires. -/
def Admissible (s : SemsSys n) : SemsCall n → Prop
  | .wait _ timeout tm => s.phase s.k.curr = .out ∧ timeout < 2 ^ 31 ∧ ∀ t, (s.phase t).timer ≠ some tm
  | .post _ => s.phase s.k.curr = .out
  | .expire tm => tm ∈ s.k.active
  | .ret => ∃ tm, s.phase s.k.curr = .woken tm
  | .dispatch t _ => (s.k.tcb t).state.runnable = true

/-- The step relation; its label has the code that was returned. -/
def Step (s : SemsSys n) (c : SemsCall n × Option OsErr) (s' : SemsSys n) : Prop :=
  s.Admissible c.1 ∧ s.exec c.1 = .ok (c.2, s')

/-- Every active timer is the timer of a wait that has not returned. -/
def TimersPending (s : SemsSys n) : Prop := ∀ tm ∈ s.k.active, ∃ t, (s.phase t).timer = some tm

/-- The task is on the wait chain of semaphore `m`. -/
def OnChain (s : SemsSys n) (m : ℕ) (t : Fin n) : Prop := ∃ l, Chain s.k.next (s.k.sems m).task l ∧ t ∈ l

/-- A task that waits for `m` without a timeout stays on the chain, but for a
post of `m`. -/
def LeavesByPost (s : SemsSys n) (c : SemsCall n × Option OsErr) (s' : SemsSys n) : Prop :=
  ∀ m t, s.phase t = .waiting m none → s.OnChain m t ∧ (s'.OnChain m t ∨ c.1 = .post m)

/-- The first task on the chain of a posted semaphore waits without a timeout. -/
def PostSafe (s : SemsSys n) (c : SemsCall n × Option OsErr) : Prop :=
  match c.1 with
  | .post m => ∀ t, (s.k.sems m).task = some t → (s.k.tcb t).timeout ≠ rxTimerOn
  | _ => True

/-- Nobody waits for a semaphore, no timer is active; the ready queue holds the
tasks that are ready or running. -/
structure Init (s : SemsSys n) : Prop where
  sems : ∀ m, (s.k.sems m).task = none
  ready : ∃ lr, Chain s.k.next s.k.readyHead lr ∧ ∀ t, t ∈ lr ↔ (s.k.tcb t).state.runnable = true
  curr : (s.k.tcb s.k.curr).state.runnable = true
  port : s.k.port = {}
  free : ∀ t, (s.k.tcb t).sem = none
  active : s.k.active = []
  phase : ∀ t, s.phase t = .out

/-! ### The invariant -/

/-- What holds of a task in each phase, with the wait chains `lw`. -/
def At (k : Kernel n) (lr : List (Fin n)) (lw : ℕ → List (Fin n)) (t : Fin n) : SemsPhase → Prop
  | .out => (∀ m, t ∉ lw m) ∧ (k.tcb t).sem = none
  | .waiting m tm => t ∈ lw m ∧ (k.tcb t).state = .suspend ∧ (k.tcb t).sem = some m ∧
      (k.tcb t).timeout = if tm.isSome then rxTimerOn else rxTimerOff
  | .woken _ => (∀ m, t ∉ lw m) ∧ t ∈ lr ∧ (k.tcb t).sem = none

structure Inv (s : SemsSys n) (lr : List (Fin n)) (lw : ℕ → List (Fin n)) : Prop where
  lists : Lists s.k s.k lr (fun m => (s.k.sems m).task) lw
  port : s.k.port = {}
  ready : ∀ t, t ∈ lr ↔ (s.k.tcb t).state.runnable = true
  curr : s.k.curr ∈ lr
  tasks : ∀ t, At s.k lr lw t (s.phase t)

/-- Every active timer is that of a task that waits with it. -/
structure TimerInv (s : SemsSys n) : Prop where
  nodup : s.k.active.Nodup
  owner : ∀ tm ∈ s.k.active, ∃ t m, s.phase t = .waiting m (some tm) ∧ (s.k.timers tm).priv = some t

/-- A task whose own control block is not touched stays as it is. -/
theorem At.of_eq {k k' : Kernel n} {lr lr' : List (Fin n)} {lw lw' : ℕ → List (Fin n)} {t : Fin n} {p : SemsPhase}
    (h : At k lr lw t p) (hlw : ∀ m, t ∈ lw' m ↔ t ∈ lw m) (hlr : t ∈ lr → t ∈ lr')
    (hst : (∃ m, t ∈ lw m) → (k'.tcb t).state = (k.tcb t).state) (hsem : (k'.tcb t).sem = (k.tcb t).sem)
    (htim : (k'.tcb t).timeout = (k.tcb t).timeout) : At k' lr' lw' t p := by
  cases p with
  | out => exact ⟨fun m ht => h.1 m ((hlw m).mp ht), hsem.trans h.2⟩
  | waiting m tm =>
    exact ⟨(hlw m).mpr h.1, (hst ⟨m, h.1⟩).trans h.2.1, hsem.trans h.2.2.1, htim.trans h.2.2.2⟩
  | woken tm => exact ⟨fun m ht => h.1 m ((hlw m).mp ht), hlr h.2.1, hsem.trans h.2.2⟩

theorem At.waiting_of_mem {k : Kernel n} {lr : List (Fin n)} {lw : ℕ → List (Fin n)} {t : Fin n} {p : SemsPhase}
    {m : ℕ} (h : At k lr lw t p) (ht : t ∈ lw m) (hapart : ∀ i j, t ∈ lw i → t ∈ lw j → i = j) :
    ∃ tm, p = .waiting m tm := by
  cases p with
  | out => exact absurd ht (h.1 m)
  | waiting m' tm =>
    obtain rfl := hapart m' m h.1 ht
    exact ⟨tm, rfl⟩
  | woken tm => exact absurd ht (h.1 m)

theorem Init.inv {s : SemsSys n} (h : Init s) : ∃ lr, Inv s lr (fun _ => []) := by
  obtain ⟨lr, hc, hr⟩ := h.ready
  refine ⟨lr, ⟨Relinked.refl _, Or.inl h.port, hc, fun m => h.sems m, ?_, ?_⟩, h.port, hr, (hr _).mpr h.curr, fun t => ?_⟩
  · simp
  · simp
  · rw [h.phase]
    exact ⟨fun m => by simp, h.free t⟩

theorem Init.timers {s : SemsSys n} (h : Init s) : TimerInv s := by
  refine ⟨?_, fun tm htm => ?_⟩
  · rw [h.active]
    exact List.nodup_nil
  · rw [h.active] at htm
    cases htm

section Calls

variable {s : SemsSys n} {lr : List (Fin n)} {lw : ℕ → List (Fin n)} {m : ℕ}

theorem Inv.onChain_iff (h : Inv s lr lw) (m : ℕ) (t : Fin n) : s.OnChain m t ↔ t ∈ lw m := by
  constructor
  · rintro ⟨l, hl, ht⟩
    rw [← hl.unique (h.lists.wait m)]
    exact ht
  · intro ht
    exact ⟨lw m, h.lists.wait m, ht⟩

/-- The waking of one task. -/
theorem wake_phase {k' : Kernel n} {t : Fin n}
    (hst : ∀ u, (k'.tcb u).state = if u = t then .ready else (s.k.tcb u).state)
    (ht : (s.k.tcb t).state = .suspend) : (s.wake k').phase = Function.update s.phase t (s.phase t).wake := by
  funext u
  simp only [wake, woken_eq hst ht]
  by_cases hu : u = t
  · subst hu; simp
  · simp [hu]

theorem wake_idle {k' : Kernel n} (hst : ∀ u, (k'.tcb u).state = (s.k.tcb u).state) :
    s.wake k' = { s with k := k' } := by
  have hw : ∀ u, woken s.k k' u = false := fun u => woken_eq_false (hst u)
  unfold wake
  simp only [hw]
  rfl

/-- A step that touches no task that has to do with a semaphore. -/
theorem Inv.of_eq (h : Inv s lr lw) {k' : Kernel n} (hl : Lists k' k' lr (fun m => (k'.sems m).task) lw)
    (hport : k'.port = {}) (htcb : k'.tcb = s.k.tcb) (hcurr : k'.curr = s.k.curr) : Inv { s with k := k' } lr lw := by
  refine ⟨hl, hport, fun u => ?_, ?_, fun u => ?_⟩
  · show u ∈ lr ↔ (k'.tcb u).state.runnable = true
    rw [htcb]
    exact h.ready u
  · show k'.curr ∈ lr
    rw [hcurr]
    exact h.curr
  · apply (h.tasks u).of_eq (fun _ => Iff.rfl) id
    · exact fun _ => by rw [htcb]
    · rw [htcb]
    · rw [htcb]

/-- A task that is taken off its chain and put on the ready queue has passed
on. -/
theorem Inv.leave (h : Inv s lr lw) {k' : Kernel n} {lr' : List (Fin n)} {t : Fin n} {tm : Option ℕ}
    (hph : s.phase t = .waiting m tm)
    (hl : Lists k' k' lr' (fun m => (k'.sems m).task) (Function.update lw m ((lw m).erase t))) (hport : k'.port = {})
    (hm : ∀ u, u ∈ lr' ↔ u = t ∨ u ∈ lr) (hcurr : k'.curr = s.k.curr)
    (hst : ∀ u, (k'.tcb u).state = if u = t then .ready else (s.k.tcb u).state)
    (hsem : ∀ u, (k'.tcb u).sem = if u = t then none else (s.k.tcb u).sem)
    (htim : ∀ u, u ≠ t → (k'.tcb u).timeout = (s.k.tcb u).timeout) :
    (s.wake k').phase = Function.update s.phase t (.woken tm) ∧
      Inv (s.wake k') lr' (Function.update lw m ((lw m).erase t)) := by
  have hat := h.tasks t
  rw [hph] at hat
  have hnd : (lw m).Nodup := (h.lists.wait m).nodup
  have hphase : (s.wake k').phase = Function.update s.phase t (.woken tm) := by
    rw [wake_phase hst hat.2.1, hph]
    rfl
  refine ⟨hphase, hl, hport, fun u => ?_, ?_, fun u => ?_⟩
  · exact mem_ready_of_woken h.ready hm hst u
  · show k'.curr ∈ lr'
    rw [hcurr, hm]
    exact Or.inr h.curr
  · rw [hphase]
    by_cases hu : u = t
    · subst hu
      rw [Function.update_self]
      refine ⟨fun i hi => ?_, (hm u).mpr (Or.inl rfl), ?_⟩
      · by_cases him : i = m
        · subst him
          rw [Function.update_self] at hi
          exact hnd.not_mem_erase hi
        · rw [Function.update_of_ne him] at hi
          exact him (h.lists.apart i m u hi hat.1)
      · show (k'.tcb u).sem = none
        rw [hsem, if_pos rfl]
    · rw [Function.update_of_ne hu]
      refine (h.tasks u).of_eq (fun i => ?_) (fun hr => (hm u).mpr (Or.inr hr)) (fun _ => ?_) ?_ (htim u hu)
      · by_cases him : i = m
        · subst him
          rw [Function.update_self, hnd.mem_erase_iff]
          exact and_iff_right hu
        · rw [Function.update_of_ne him]
      · show (k'.tcb u).state = _
        rw [hst, if_neg hu]
      · show (k'.tcb u).sem = _
        rw [hsem, if_neg hu]

/-! ### A wait -/

/-- A permit is taken. -/
theorem wait_takes (h : Inv s lr lw) (hv : (s.k.sems m).currVal > 0) (timeout : ℤ) (tm : ℕ) :
    ∃ k', s.exec (.wait m timeout tm) = .ok (some .osOk, { s with k := k' }) ∧ Inv { s with k := k' } lr lw ∧
      k'.active = s.k.active ∧ k'.timers = s.k.timers ∧
      ∀ i, (k'.sems i).currVal = (s.k.sems i).currVal - if i = m then 1 else 0 := by
  set k' := (s.k.enterCritical.setSem m { s.k.sems m with currVal := (s.k.sems m).currVal - 1 }).exitCritical with hk'
  refine ⟨k', ?_, h.of_eq ?_ h.lists.port.enter.exit rfl rfl, rfl, rfl, fun i => ?_⟩
  · simp only [exec, rxSemaphoreWait_takes hv, ← hk', bind, Except.bind, pure, Except.pure]
  · apply (h.lists.enter.setSem m { s.k.sems m with currVal := (s.k.sems m).currVal - 1 }).exit.self.congr_heads
    intro i
    show (Function.update s.k.sems m _ i).task = _
    by_cases hi : i = m
    · subst hi; simp
    · simp [hi]
  · show (Function.update s.k.sems m _ i).currVal = _
    by_cases hi : i = m
    · subst hi; simp
    · simp [hi]

theorem wait_noWait (h : Inv s lr lw) (hv : (s.k.sems m).currVal ≤ 0) (tm : ℕ) :
    s.exec (.wait m osNoWait tm) = .ok (some .eOsUnavail, s) := by
  simp only [exec, rxSemaphoreWait_noWait hv, enter_exit h.port, bind, Except.bind, pure, Except.pure]

/-- The timer of a timed wait joins the active list; nothing else changes
there. -/
theorem semArmed_timers (e : Kernel n) {timeout : ℤ} (h1 : timeout < 2 ^ 31) (tm : ℕ) :
    (timeout ≤ 0 ∧ (semArmed e timeout tm).active = e.active ∧ (semArmed e timeout tm).timers = e.timers) ∨
    (timeout > 0 ∧ (semArmed e timeout tm).active.Perm (tm :: e.active) ∧
      ((semArmed e timeout tm).timers tm).priv = some e.curr ∧
      ∀ i, i ≠ tm → (semArmed e timeout tm).timers i = e.timers i) := by
  by_cases hpos : timeout > 0
  · right
    have hticks := ticks_ne_zero hpos h1
    obtain ⟨x, hx⟩ := @start_init_timers n e tm (BitVec.ofInt 32 timeout) .semHandler e.curr hticks
    rw [semArmed, if_pos hpos]
    refine ⟨hpos, start_init_perm .semHandler e.curr hticks, ?_, fun i hi => ?_⟩
    · rw [Kernel.modTcb_timers, hx, Function.update_self]
      rfl
    · rw [Kernel.modTcb_timers, hx, Function.update_of_ne hi]
  · left
    rw [semArmed, if_neg hpos]
    exact ⟨by omega, rfl, rfl⟩

/-- No permit is there: the wait faults, or blocks at the end of the chain. -/
theorem wait_blocks (h : Inv s lr lw) (hv : (s.k.sems m).currVal ≤ 0) {timeout : ℤ} (h0 : timeout ≠ osNoWait) (tm : ℕ) :
    s.exec (.wait m timeout tm) = .error .null ∨
    ∃ k' lr', s.exec (.wait m timeout tm) = .ok (none, s.block m (timerOf timeout tm) k') ∧
      Inv (s.block m (timerOf timeout tm) k') lr' (Function.update lw m (lw m ++ [s.k.curr])) ∧
      k'.active = (semArmed (semBlocked s.k m (lw m)) timeout tm).active ∧
      k'.timers = (semArmed (semBlocked s.k m (lw m)) timeout tm).timers ∧
      ∀ i, (k'.sems i).currVal = (s.k.sems i).currVal - if i = m then 1 else 0 := by
  have hcw : ∀ i, s.k.curr ∉ lw i := fun i hm => h.lists.notReady i _ hm h.curr
  have hnd := h.lists.ready.nodup
  rcases rxSemaphoreWait_blocks (i := m) h.lists rfl hv h.curr h0 tm with hrun | ⟨k', x, l', hx, hrun, hport, hls⟩
  · left
    simp only [exec, hrun, bind, Except.bind]
  right
  set e' := semArmed (semBlocked s.k m (lw m)) timeout tm with he'
  have hxm : x ∈ lr.erase s.k.curr := by rw [hx]; simp
  have hxc : x ≠ s.k.curr := fun he => hnd.not_mem_erase (he ▸ hxm)
  -- the control blocks after the call
  have hstate : ∀ u, (k'.tcb u).state =
      if u = x then .running else if u = s.k.curr then .suspend else (s.k.tcb u).state := by
    intro u
    rw [hls.data.state, Kernel.switchTo_state, he', semArmed_blocked_state]
  have hsem : ∀ u, (k'.tcb u).sem = if u = s.k.curr then some m else (s.k.tcb u).sem := by
    intro u
    rw [hls.data.sem, Kernel.switchTo_sem, he', semArmed_blocked_sem]
  have htim : ∀ u, (k'.tcb u).timeout =
      if u = s.k.curr then if timeout > 0 then rxTimerOn else rxTimerOff else (s.k.tcb u).timeout := by
    intro u
    rw [hls.data.timeout, Kernel.switchTo_timeout, he', semArmed_blocked_timeout]
  have hheads : ∀ i, (k'.sems i).task = Function.update (fun i => (s.k.sems i).task) m (lw m ++ [s.k.curr]).head? i := by
    intro i
    rw [hls.data.sems]
    show (e'.sems i).task = _
    rw [he', semArmed_sems, semBlocked_task]
  refine ⟨k', lr.erase s.k.curr, ?_, ⟨hls.self.congr_heads hheads, hport, fun u => ?_, ?_, fun u => ?_⟩, ?_, ?_,
    fun i => ?_⟩
  · simp only [exec, hrun, bind, Except.bind, pure, Except.pure]
  · exact mem_ready_of_suspended h.ready (fun _ => hnd.mem_erase_iff) hxm hstate u
  · show k'.curr ∈ _
    rw [hls.data.curr]
    exact hxm
  · by_cases hu : u = s.k.curr
    · subst hu
      show At k' _ _ _ (Function.update s.phase s.k.curr _ s.k.curr)
      rw [Function.update_self]
      refine ⟨?_, ?_, ?_, ?_⟩
      · rw [Function.update_self]
        simp
      · rw [hstate, if_neg hxc.symm, if_pos rfl]
      · rw [hsem, if_pos rfl]
      · rw [htim, if_pos rfl]
        by_cases hpos : timeout > 0
        · simp [timerOf, hpos]
        · simp [timerOf, hpos]
    · show At k' _ _ _ (Function.update s.phase s.k.curr _ u)
      rw [Function.update_of_ne hu]
      refine (h.tasks u).of_eq (fun i => ?_) (fun hm => hnd.mem_erase_iff.mpr ⟨hu, hm⟩) (fun hm => ?_) ?_ ?_
      · by_cases hi : i = m
        · subst hi; simp [hu]
        · rw [Function.update_of_ne hi]
      · obtain ⟨i, hi⟩ := hm
        rw [hstate, if_neg, if_neg hu]
        rintro rfl
        exact h.lists.notReady i u hi (List.mem_of_mem_erase hxm)
      · rw [hsem, if_neg hu]
      · rw [htim, if_neg hu]
  · rw [hls.data.active]
    rfl
  · rw [hls.data.timers]
    rfl
  · rw [hls.data.sems]
    show (e'.sems i).currVal = _
    rw [he', semArmed_sems, semBlocked_currVal]

/-! ### A post -/

theorem post_idle (h : Inv s lr lw) (ht : (s.k.sems m).task = none) : s.exec (.post m) = .ok (some .osOk, s) := by
  have hw : s.wake s.k = s := wake_idle fun _ => rfl
  simp only [exec, rxSemaphorePost_idle ht, enter_exit h.port, bind, Except.bind, pure, Except.pure, hw]

/-- A post wakes the first task on the chain, and leaves the timers alone. -/
theorem post_wakes (h : Inv s lr lw) {t : Fin n} {l : List (Fin n)} (hl : lw m = t :: l) :
    ∃ k' lr' tm, s.phase t = .waiting m tm ∧ s.exec (.post m) = .ok (some .osOk, s.wake k') ∧
      (s.wake k').phase = Function.update s.phase t (.woken tm) ∧
      Inv (s.wake k') lr' (Function.update lw m l) ∧ k'.active = s.k.active ∧ k'.timers = s.k.timers ∧
      ∀ i, (k'.sems i).currVal = (s.k.sems i).currVal + if i = m then 1 else 0 := by
  obtain ⟨k', lr', hrun, hport, hm, hls⟩ := rxSemaphorePost_wakes (i := m) h.lists rfl hl
  obtain ⟨tm, htm⟩ := (h.tasks t).waiting_of_mem (m := m) (by rw [hl]; exact List.mem_cons_self)
    fun i j hi hj => h.lists.apart i j t hi hj
  have herase : (lw m).erase t = l := by rw [hl, List.erase_cons_head]
  have hheads : ∀ i, (k'.sems i).task = Function.update (fun i => (s.k.sems i).task) m l.head? i := by
    intro i
    rw [hls.data.sems, posted_task]
  have hcurr : k'.curr = s.k.curr := by rw [hls.data.curr]; rfl
  obtain ⟨hphase, hinv⟩ := h.leave htm
    (by rw [herase]; exact hls.self.congr_heads hheads) hport hm hcurr
    (fun u => by rw [hls.data.state, posted_state]) (fun u => by rw [hls.data.sem, posted_sem])
    (fun u _ => by rw [hls.data.timeout, posted_timeout])
  rw [herase] at hinv
  refine ⟨k', lr', tm, htm, ?_, hphase, hinv, ?_, ?_, fun i => ?_⟩
  · simp only [exec, hrun, bind, Except.bind, pure, Except.pure]
  · rw [hls.data.active]
    rfl
  · rw [hls.data.timers]
    rfl
  · rw [hls.data.sems, posted_currVal]

/-! ### An expiry -/

/-- The handler takes a task that waits off its chain. -/
theorem expire_wakes (h : Inv s lr lw) {tm : ℕ} {t : Fin n} {tm' : Option ℕ} (hp : (s.k.timers tm).priv = some t)
    (hph : s.phase t = .waiting m tm') :
    ∃ k' lr', s.exec (.expire tm) = .ok (none, s.wake k') ∧
      (s.wake k').phase = Function.update s.phase t (.woken tm') ∧
      Inv (s.wake k') lr' (Function.update lw m ((lw m).erase t)) ∧ k'.active = s.k.active.erase tm ∧
      k'.timers = (s.k.disarm tm).timers ∧
      ∀ i, (k'.sems i).currVal = (s.k.sems i).currVal + if i = m then 1 else 0 := by
  have hat := h.tasks t
  rw [hph] at hat
  have hls0 := h.lists.enter.disarm tm
  obtain ⟨k1, lr', hrun, hm, hls⟩ := rxSemHandler_spec (i := m) hls0 rfl hat.1 hat.2.2.1
  set k' := k1.exitCritical with hk'
  have hls' := hls.exit
  rw [← hk'] at hls'
  have hheads : ∀ i, (k'.sems i).task =
      Function.update (fun i => (s.k.sems i).task) m ((lw m).erase t).head? i := by
    intro i
    rw [hls'.data.sems, semExpired_task]
    rfl
  have hcurr : k'.curr = s.k.curr := by rw [hls'.data.curr]; rfl
  obtain ⟨hphase, hinv⟩ := h.leave hph (hls'.self.congr_heads hheads) hls.port.exit hm hcurr
    (fun u => by rw [hls'.data.state, semExpired_state]; rfl) (fun u => by rw [hls'.data.sem, semExpired_sem]; rfl)
    (fun u hu => by rw [hls'.data.timeout, semExpired_timeout, if_neg hu]; rfl)
  refine ⟨k', lr', ?_, hphase, hinv, ?_, ?_, fun i => ?_⟩
  · simp only [exec, hp, hrun, bind, Except.bind, pure, Except.pure, ← hk']
  · rw [hls'.data.active]
    rfl
  · rw [hls'.data.timers]
    rfl
  · rw [hls'.data.sems, semExpired_currVal]
    rfl

/-! ### The return of a blocked wait, and a dispatch -/

theorem ret_inv (h : Inv s lr lw) {tm : Option ℕ} (hph : s.phase s.k.curr = .woken tm) :
    Inv { s with phase := Function.update s.phase s.k.curr .out } lr lw := by
  have hat := h.tasks s.k.curr
  rw [hph] at hat
  refine ⟨h.lists, h.port, h.ready, h.curr, fun u => ?_⟩
  show At s.k lr lw u (Function.update s.phase s.k.curr .out u)
  by_cases hu : u = s.k.curr
  · subst hu
    rw [Function.update_self]
    exact ⟨hat.1, hat.2.2⟩
  · rw [Function.update_of_ne hu]
    exact h.tasks u

theorem dispatch_inv (h : Inv s lr lw) {t : Fin n} (ht : (s.k.tcb t).state.runnable = true) (p : Bool) :
    Inv { s with k := s.k.dispatch t p } lr lw := by
  set k' := s.k.dispatch t p with hk'
  have hsems : k'.sems = s.k.sems := by rw [hk', Kernel.dispatch_rest]
  have hport : k'.port = s.k.port := by rw [hk', Kernel.dispatch_rest]
  have hself : ∀ u, u ∉ lr → (k'.tcb u).state = (s.k.tcb u).state := fun u =>
    Kernel.dispatch_state_of_notMem u p h.ready h.curr ht
  refine ⟨?_, hport.trans h.port, fun u => ?_, (h.ready t).mpr ht, fun u => ?_⟩
  · apply (h.lists.dispatch t p).congr_heads
    intro i
    show (k'.sems i).task = _
    rw [hsems]
  · exact Kernel.dispatch_ready u p h.ready h.curr ht
  · refine (h.tasks u).of_eq (fun _ => Iff.rfl) id (fun ⟨i, hi⟩ => hself u (h.lists.notReady i u hi)) ?_ ?_
    · rw [hk', Kernel.dispatch_tcb]
    · rw [hk', Kernel.dispatch_tcb]

end Calls

/-! ### Whole runs -/

section Run

variable {s s' : SemsSys n} {lr lr' : List (Fin n)} {lw lw' : ℕ → List (Fin n)} {c : SemsCall n × Option OsErr}

/-- The tasks that wait with a timer still do. -/
theorem TimerInv.mono (h : TimerInv s) (ha : s'.k.active = s.k.active) (htm : s'.k.timers = s.k.timers)
    (hph : ∀ t m tm, s.phase t = .waiting m (some tm) → s'.phase t = .waiting m (some tm)) : TimerInv s' := by
  refine ⟨by rw [ha]; exact h.nodup, fun tm hm => ?_⟩
  rw [ha] at hm
  obtain ⟨t, m, ht, hp⟩ := h.owner tm hm
  exact ⟨t, m, hph t m tm ht, by rw [htm]; exact hp⟩

/-- A new wait arms a timer that is not active, if any. -/
theorem TimerInv.block (h : TimerInv s) {m : ℕ} {timeout : ℤ} {tm : ℕ} {k' : Kernel n} {l : List (Fin n)}
    (ha : s.Admissible (.wait m timeout tm)) (hact : k'.active = (semArmed (semBlocked s.k m l) timeout tm).active)
    (htim : k'.timers = (semArmed (semBlocked s.k m l) timeout tm).timers) :
    TimerInv (s.block m (timerOf timeout tm) k') := by
  obtain ⟨hout, hint, hfresh⟩ := ha
  have hne : ∀ t i tm', s.phase t = .waiting i (some tm') →
      (s.block m (timerOf timeout tm) k').phase t = .waiting i (some tm') := by
    intro t i tm' ht
    have htc : t ≠ s.k.curr := by
      rintro rfl
      rw [hout] at ht
      cases ht
    exact (Function.update_of_ne htc _ _).trans ht
  rcases semArmed_timers (semBlocked s.k m l) hint tm with ⟨-, h1, h2⟩ | ⟨hpos, hperm, hpriv, hother⟩
  · exact h.mono (hact.trans h1) (htim.trans h2) hne
  · have htm : tm ∉ s.k.active := by
      intro hm
      obtain ⟨t, i, ht, -⟩ := h.owner tm hm
      exact hfresh t (by rw [ht]; rfl)
    have hperm' : k'.active.Perm (tm :: s.k.active) := by rw [hact]; exact hperm
    refine ⟨hperm'.nodup_iff.mpr (List.nodup_cons.mpr ⟨htm, h.nodup⟩), fun i hi => ?_⟩
    rcases List.mem_cons.mp (hperm'.mem_iff.mp hi) with rfl | hi
    · refine ⟨s.k.curr, m, ?_, ?_⟩
      · show Function.update s.phase s.k.curr _ s.k.curr = _
        rw [Function.update_self, timerOf, if_pos hpos]
      · show (k'.timers i).priv = _
        rw [htim, hpriv]
        rfl
    · obtain ⟨t, j, ht, hp⟩ := h.owner i hi
      refine ⟨t, j, hne t j i ht, ?_⟩
      show (k'.timers i).priv = _
      rw [htim, hother i (ne_of_mem_of_not_mem hi htm)]
      exact hp

/-- The timer that expires is gone, and its task passes on. -/
theorem TimerInv.expire (h : TimerInv s) {m tm : ℕ} {t : Fin n} (hph : s.phase t = .waiting m (some tm))
    (hphase : s'.phase = Function.update s.phase t (.woken (some tm))) (ha : s'.k.active = s.k.active.erase tm)
    (htim : s'.k.timers = (s.k.disarm tm).timers) : TimerInv s' := by
  refine ⟨by rw [ha]; exact h.nodup.erase tm, fun i hi => ?_⟩
  rw [ha, h.nodup.mem_erase_iff] at hi
  obtain ⟨u, j, hu, hp⟩ := h.owner i hi.2
  have hut : u ≠ t := by
    rintro rfl
    rw [hph] at hu
    cases hu
    exact hi.1 rfl
  refine ⟨u, j, by rw [hphase, Function.update_of_ne hut]; exact hu, ?_⟩
  have hsame : (s.k.disarm tm).timers i = s.k.timers i := Function.update_of_ne hi.1 _ _
  rw [htim, hsame]
  exact hp

theorem leavesByPost_of (h : Inv s lr lw) (h' : Inv s' lr' lw')
    (hkeep : ∀ m t, s.phase t = .waiting m none → t ∈ lw m → t ∈ lw' m ∨ c.1 = .post m) : LeavesByPost s c s' := by
  intro m t ht
  have hat := h.tasks t
  rw [ht] at hat
  refine ⟨(h.onChain_iff m t).mpr hat.1, ?_⟩
  rw [h'.onChain_iff]
  exact hkeep m t ht hat.1

/-- The invariants of the runs without a post to a timed wait. -/
def Good (s : SemsSys n) : Prop := (∃ lr lw, Inv s lr lw) ∧ TimerInv s

/-- A call after which the chains are as before. -/
theorem good_of_stay {lr1 : List (Fin n)} (h : Inv s lr lw) (h' : Inv s' lr1 lw) (hT : TimerInv s') :
    Good s' ∧ LeavesByPost s c s' :=
  ⟨⟨⟨lr1, lw, h'⟩, hT⟩, leavesByPost_of h h' fun _ _ _ hm => Or.inl hm⟩

theorem wait_good (h : Inv s lr lw) (hT : TimerInv s) {m : ℕ} {timeout : ℤ} {tm : ℕ} {r : Option OsErr}
    (hst : Step s (.wait m timeout tm, r) s') : Good s' ∧ LeavesByPost s (.wait m timeout tm, r) s' := by
  obtain ⟨ha, he⟩ := hst
  by_cases hv : (s.k.sems m).currVal > 0
  · obtain ⟨k', h1, hi, hact, htim, -⟩ := wait_takes h hv timeout tm
    obtain ⟨-, rfl⟩ := Prod.mk.inj (Except.ok.inj (he.symm.trans h1))
    exact good_of_stay h hi (hT.mono hact htim fun _ _ _ ht => ht)
  · have hv' : (s.k.sems m).currVal ≤ 0 := by omega
    by_cases h0 : timeout = osNoWait
    · subst h0
      obtain ⟨-, rfl⟩ := Prod.mk.inj (Except.ok.inj (he.symm.trans (wait_noWait h hv' tm)))
      exact good_of_stay h h hT
    · rcases wait_blocks h hv' h0 tm with h1 | ⟨k', lr', h1, hi, hact, htim, -⟩
      · cases he.symm.trans h1
      · obtain ⟨-, rfl⟩ := Prod.mk.inj (Except.ok.inj (he.symm.trans h1))
        refine ⟨⟨⟨lr', _, hi⟩, hT.block ha hact htim⟩, leavesByPost_of h hi fun i t _ hm => Or.inl ?_⟩
        by_cases him : i = m
        · subst him
          rw [Function.update_self]
          exact List.mem_append_left _ hm
        · rw [Function.update_of_ne him]
          exact hm

/-- The guard says that the task that is woken has no timer. -/
theorem post_good (h : Inv s lr lw) (hT : TimerInv s) {m : ℕ} {r : Option OsErr} (hsafe : PostSafe s (.post m, r))
    (hst : Step s (.post m, r) s') : Good s' ∧ LeavesByPost s (.post m, r) s' := by
  obtain ⟨-, he⟩ := hst
  have hchain : Chain s.k.next (s.k.sems m).task (lw m) := h.lists.wait m
  cases hl : lw m with
  | nil =>
    rw [hl] at hchain
    obtain ⟨-, rfl⟩ := Prod.mk.inj (Except.ok.inj (he.symm.trans (post_idle h hchain)))
    exact good_of_stay h h hT
  | cons t l =>
    obtain ⟨k', lr', tm, hph, h1, hphase, hi, hact, htim, -⟩ := post_wakes h hl
    obtain ⟨-, rfl⟩ := Prod.mk.inj (Except.ok.inj (he.symm.trans h1))
    rw [hl] at hchain
    have htm : tm = none := by
      have hat := h.tasks t
      rw [hph] at hat
      have hoff := hsafe t hchain.1
      rw [hat.2.2.2] at hoff
      cases tm with
      | none => rfl
      | some i => exact absurd rfl hoff
    subst htm
    refine ⟨⟨⟨lr', _, hi⟩, hT.mono hact htim fun u i j hu => ?_⟩, leavesByPost_of h hi fun i u _ hm => ?_⟩
    · have hut : u ≠ t := by
        rintro rfl
        rw [hph] at hu
        cases hu
      rw [hphase, Function.update_of_ne hut]
      exact hu
    · by_cases him : i = m
      · subst him
        exact Or.inr rfl
      · left
        rw [Function.update_of_ne him]
        exact hm

theorem expire_good (h : Inv s lr lw) (hT : TimerInv s) {tm : ℕ} {r : Option OsErr}
    (hst : Step s (.expire tm, r) s') : Good s' ∧ LeavesByPost s (.expire tm, r) s' := by
  obtain ⟨ha, he⟩ := hst
  obtain ⟨t, m, hph, hp⟩ := hT.owner tm ha
  obtain ⟨k', lr', h1, hphase, hi, hact, htim, -⟩ := expire_wakes h hp hph
  obtain ⟨-, rfl⟩ := Prod.mk.inj (Except.ok.inj (he.symm.trans h1))
  refine ⟨⟨⟨lr', _, hi⟩, hT.expire hph hphase hact htim⟩, leavesByPost_of h hi fun i u hu hm => Or.inl ?_⟩
  -- the expired wait had a timer, so it is not one of those without a timeout
  have hut : u ≠ t := by
    rintro rfl
    rw [hph] at hu
    cases hu
  by_cases him : i = m
  · subst him
    rw [Function.update_self]
    exact (List.mem_erase_of_ne hut).mpr hm
  · rw [Function.update_of_ne him]
    exact hm

theorem step_good (h : Good s) (hsafe : PostSafe s c) (hst : Step s c s') : Good s' ∧ LeavesByPost s c s' := by
  obtain ⟨⟨lr, lw, h⟩, hT⟩ := h
  obtain ⟨c, r⟩ := c
  cases c with
  | wait m timeout tm => exact wait_good h hT hst
  | post m => exact post_good h hT hsafe hst
  | expire tm => exact expire_good h hT hst
  | ret =>
    obtain ⟨⟨tm, htm⟩, he⟩ := hst
    obtain ⟨-, rfl⟩ := Prod.mk.inj (Except.ok.inj he)
    refine good_of_stay h (ret_inv h htm) (hT.mono rfl rfl fun t m j ht => ?_)
    have htc : t ≠ s.k.curr := by
      rintro rfl
      rw [htm] at ht
      cases ht
    exact (Function.update_of_ne htc _ _).trans ht
  | dispatch t p =>
    obtain ⟨ha, he⟩ := hst
    obtain ⟨-, rfl⟩ := Prod.mk.inj (Except.ok.inj he)
    refine good_of_stay h (dispatch_inv h ha p) (hT.mono ?_ ?_ fun _ _ _ ht => ht)
    · show (s.k.dispatch t p).active = _
      rw [Kernel.dispatch_rest]
    · show (s.k.dispatch t p).timers = _
      rw [Kernel.dispatch_rest]

theorem TimerInv.timersPending (h : TimerInv s) : TimersPending s := by
  intro tm htm
  obtain ⟨t, m, ht, -⟩ := h.owner tm htm
  exact ⟨t, by rw [ht]; rfl⟩

/-- **No timer outlives its wait.** In every run in which no post wakes a task
that waits with a timeout, every active timer is that of a wait that has not
returned, and a task that waits without a timeout leaves its chain by a post
of its semaphore only. -/
theorem timersPending_of_run (hi : Init s) {tr : List ((SemsCall n × Option OsErr) × SemsSys n)}
    (h : Run.Exec Step s tr) (hg : Run.Guarded PostSafe s tr) :
    (∀ x ∈ Run.states s tr, TimersPending x) ∧ Run.Exec LeavesByPost s tr := by
  obtain ⟨lr, hinv⟩ := hi.inv
  have hgood : Good s := ⟨⟨lr, _, hinv⟩, hi.timers⟩
  constructor
  · intro x hx
    have hxg := h.invariant_of_guarded Good (fun _ _ _ h1 h2 h3 => (step_good h1 h2 h3).1) hg hgood x hx
    exact hxg.2.timersPending
  · exact h.of_guarded Good (fun _ _ _ => step_good) hg hgood

end Run

instance (s : SemsSys n) : ∀ c, Decidable (s.Admissible c)
  | .wait _ timeout tm => inferInstanceAs
      (Decidable (s.phase s.k.curr = .out ∧ timeout < 2 ^ 31 ∧ ∀ t, (s.phase t).timer ≠ some tm))
  | .post _ => inferInstanceAs (Decidable (s.phase s.k.curr = .out))
  | .expire tm => inferInstanceAs (Decidable (tm ∈ s.k.active))
  | .ret =>
    match h : s.phase s.k.curr with
    | .woken tm => isTrue ⟨tm, h⟩
    | .out | .waiting _ _ => isFalse fun ⟨_, hw⟩ => by rw [h] at hw; cases hw
  | .dispatch t _ => inferInstanceAs (Decidable ((s.k.tcb t).state.runnable = true))

instance (s : SemsSys n) : ∀ c, Decidable (PostSafe s c)
  | (.post m, _) => inferInstanceAs (Decidable (∀ t, (s.k.sems m).task = some t → (s.k.tcb t).timeout ≠ rxTimerOn))
  | (.wait _ _ _, _) | (.expire _, _) | (.ret, _) | (.dispatch _ _, _) => inferInstanceAs (Decidable True)

/-- Three ready tasks and two new semaphores of one permit; task 0 runs. -/
def twoSems : SemsSys 3 where
  k := (rxCreateSemaphore (rxCreateSemaphore (Kernel.allReady 2) 0 1).2 1 1).2
  phase := fun _ => .out

theorem twoSems_init : Init twoSems where
  sems := fun m => by
    rcases m with _ | _ | m <;> rfl
  ready := ⟨[0, 1, 2], by decide, by decide⟩
  curr := rfl
  port := rfl
  free := by decide
  active := rfl
  phase := fun _ => rfl

/-- Task 0 has a permit; task 1 waits for it without a timeout, task 2 with
one, which expires; task 0 posts, and task 1 returns. -/
theorem timersPending_contendedRun : Init twoSems ∧ ∃ tr, Run.Exec Step twoSems tr ∧ Run.Guarded PostSafe twoSems tr ∧
    tr.length = 9 ∧ (∀ x ∈ Run.states twoSems tr, TimersPending x) ∧ Run.Exec LeavesByPost twoSems tr := by
  refine ⟨twoSems_init, ?_⟩
  have hrun := Run.exists_exec (f := Run.attempt Admissible exec) (fun _ _ _ => Run.step_of_attempt) (s := twoSems)
    [(.wait 0 osNoWait 0, some .osOk), (.dispatch 1 true, none), (.wait 0 osWaitForever 7, none),
      (.dispatch 2 true, none), (.wait 0 5 8, none), (.expire 8, none), (.post 0, some .osOk),
      (.dispatch 1 true, none), (.ret, some .osOk)]
    (fun tr => decide (Run.Guarded PostSafe twoSems tr ∧ tr.length = 9)) (by decide +kernel)
  obtain ⟨tr, hex, hp⟩ := hrun
  obtain ⟨hg, hlen⟩ := of_decide_eq_true hp
  exact ⟨tr, hex, hg, hlen, timersPending_of_run twoSems_init hex hg⟩

/-- Task 1 waits for the first semaphore with a timeout and is woken by a post;
its timer stays. It then waits for the second one without a timeout, until the
old timer takes it off that chain. -/
theorem old_timer_ends_wait : Init twoSems ∧ ∃ tr, Run.Exec Step twoSems tr ∧
    (¬ ∀ x ∈ Run.states twoSems tr, TimersPending x) ∧ ¬ Run.Exec LeavesByPost twoSems tr := by
  refine ⟨twoSems_init, ?_⟩
  have hrun := Run.exists_exec_last (f := Run.attempt Admissible exec) (fun _ _ _ => Run.step_of_attempt) (s := twoSems)
    [(.wait 0 osNoWait 0, some .osOk), (.wait 1 osNoWait 0, some .osOk), (.dispatch 1 true, none),
      (.wait 0 5 7, none), (.post 0, some .osOk), (.dispatch 1 true, none), (.ret, some .osOk),
      (.wait 1 osWaitForever 7, none)]
    (.expire 7, none)
    (fun tr x => decide ((∃ y ∈ Run.states twoSems (tr ++ [((SemsCall.expire 7, none), x)]),
        7 ∈ y.k.active ∧ ∀ t, (y.phase t).timer ≠ some 7) ∧
      (Run.final twoSems tr).phase 1 = .waiting 1 none ∧ (x.k.sems 1).task = none)) (by decide +kernel)
  obtain ⟨tr, x, hex, hp⟩ := hrun
  obtain ⟨⟨y, hy, hact, hno⟩, hph, htask⟩ := of_decide_eq_true hp
  refine ⟨_, hex, fun hall => ?_, fun hleave => ?_⟩
  · obtain ⟨t, ht⟩ := hall y hy 7 hact
    exact hno t ht
  · rcases (hleave.step_of_append 1 1 hph).2 with ⟨l, hl, hm⟩ | hpost
    · rw [htask] at hl
      rw [hl.unique (m := []) rfl] at hm
      cases hm
    · cases hpost

end SemsSys

end Rosx
