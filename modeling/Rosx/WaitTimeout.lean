/-
# Timed waits and the `timeout` field

One field of the control block, `timeout`, says for the semaphores and for the
wait queues whether a timer is armed (`__RX_TIMER_ON`), whether it has expired
(`E_OS_TIMEOUT`), and holds `__RX_TIMER_OFF` otherwise. Any number of tasks mix
`rx_semaphore_wait` with waits on wait queues here; a step of a run is a call, the
return of a blocked `rx_semaphore_wait`, an expiry, a tick, or the dispatch of a
ready task. Next to the kernel a run keeps, for each task in a wait of
`rx_wait_on_timeout`, the timer it was given and the time it is due.

`__rx_add_to_wait_queue` arms the timer only if the field is `__RX_TIMER_OFF`; a
`rx_semaphore_wait` with a timeout leaves it ON after a post or a deletion, and
`E_OS_TIMEOUT` after an expiry. A wait made with no timer pending has its timer, and reports a
timeout only if that timer has expired, as long as the field is OFF at each such
call; and no longer (`waitOK_iff`).

The list of active timers is taken at its value, as in `Rosx/Timer.lean`. The
`struct timer_list` of a wait is a local variable of the caller: `own` says whose.

Key definitions: `AlarmSys.exec`, `AlarmSys.WaitOK`, `AlarmSys.AtOff`,
`AlarmSys.Inv`.
-/
import Rosx.WaitChains
import Rosx.WakeRun

namespace Rosx

open Linked

variable {n : ℕ}

/-! ### The system -/

/-- The timers of task `t` that are on the active list. -/
def Kernel.pendingTimers (k : Kernel n) (t : Fin n) : List ℕ := k.active.filter fun tm => (k.timers tm).priv = some t

/-- The task is on the ready queue. -/
def Kernel.OnReady (k : Kernel n) (t : Fin n) : Prop := t ∈ nodes k.next n k.readyHead

instance (k : Kernel n) (t : Fin n) : Decidable (k.OnReady t) :=
  inferInstanceAs (Decidable (t ∈ nodes k.next n k.readyHead))

/-- A wait with a timeout: the timer it was given, when it is due, and whether it
has expired since. -/
structure TimedWait where
  timer : ℕ
  due : Word
  expired : Bool := false
  deriving DecidableEq, Repr

/-- Where a task is: in `rx_semaphore_wait`, blocked or woken; in
`rx_wait_on_timeout`, with the wait if no timer was pending at its call; or
elsewhere. -/
inductive WaitPhase where
  | out
  | sem (timed : Bool)
  | onTimeout (w : Option TimedWait)
  deriving DecidableEq, Repr

namespace WaitPhase

def inSem : WaitPhase → Bool
  | .sem _ => true
  | _ => false

/-- Timer `tm` expires. -/
def expire (tm : ℕ) : WaitPhase → WaitPhase
  | .onTimeout (some w) => .onTimeout (some { w with expired := w.expired || w.timer == tm })
  | p => p

end WaitPhase

/-- The kernel, and where each task is. -/
structure AlarmSys (n : ℕ) where
  k : Kernel n
  phase : Fin n → WaitPhase

/-- A step of a run. -/
inductive AlarmCall (n : ℕ) where
  | semWait (m : ℕ) (timeout : ℤ) (tm : ℕ)
  | semRet
  | post (m : ℕ)
  | deleteSem (m : ℕ)
  | add (wq : ℕ) (taskState : TaskState) (timeout : ℤ) (timer : ℕ)
  | finish
  | wakeup (wq : ℕ)
  | wake
  | expire (tm : ℕ)
  | tick
  | dispatch (t : Fin n) (preempted : Bool)

namespace AlarmSys

/-- The kernel becomes `k'`, with the running task in phase `p`. -/
def goto (s : AlarmSys n) (p : WaitPhase) (k' : Kernel n) : AlarmSys n where
  k := k'
  phase := Function.update s.phase s.k.curr p

/-- The wait of a call with a timeout, if no timer is pending. -/
def newWait (k : Kernel n) (timeout : ℤ) (timer : ℕ) : Option TimedWait :=
  if k.pendingTimers k.curr = [] then some { timer := timer, due := k.jiffies + BitVec.ofInt 32 timeout } else none

/-- What a step computes: the code a call returns, if it returns, and the system
it leaves. -/
def exec (fuel : ℕ) (s : AlarmSys n) : AlarmCall n → Res (Option ℤ × AlarmSys n)
  | .semWait m timeout tm => (rxSemaphoreWait s.k m timeout tm).map fun x =>
      (x.1.map OsErr.code, s.goto (if x.1.isSome then s.phase s.k.curr else .sem (timeout > 0)) x.2)
  | .semRet =>
    match s.phase s.k.curr with
    | .sem timed => .ok (some (rxSemaphoreWaitRet s.k timed).code, s.goto .out s.k)
    | _ => .error .null
  | .post m => (rxSemaphorePost s.k m).map fun x => (some x.1.code, { s with k := x.2 })
  | .deleteSem m => (rxDeleteSemaphore s.k m).map fun k => (none, { s with k := k })
  | .add wq taskState timeout timer => (rxAddToWaitQueue fuel s.k wq taskState timeout timer).map fun k =>
      (some 0, s.goto (if timeout > 0 then .onTimeout (newWait s.k timeout timer) else .out) k)
  | .finish => .ok (some (rxFinishWait s.k).1, s.goto .out (rxFinishWait s.k).2)
  | .wakeup wq => (rxWakeup s.k wq).map fun k => (some 0, { s with k := k })
  | .wake => (rxWake fuel s.k).map fun k => (none, { s with k := k })
  | .expire tm => (s.k.expireTimer tm).map fun k => (none, { k := k, phase := fun t => (s.phase t).expire tm })
  | .tick => .ok (none, { s with k := { s.k with jiffies := s.k.jiffies + 1 } })
  | .dispatch t preempted => .ok (none, { s with k := s.k.dispatch t preempted })

variable (own : ℕ → Fin n)

/-- The running task calls when it is on the ready queue and in no other wait,
with a timeout that is an `int` and a timer of its own; `rx_wait_on_timeout`
finishes its wait. An active timer expires, a ready task is dispatched. -/
def Admissible (s : AlarmSys n) : AlarmCall n → Prop
  | .semWait _ timeout tm | .add _ _ timeout tm =>
    s.phase s.k.curr = .out ∧ s.k.OnReady s.k.curr ∧ timeout < 2 ^ 31 ∧ (timeout > 0 → own tm = s.k.curr)
  | .semRet => s.k.OnReady s.k.curr
  | .finish => (s.phase s.k.curr).inSem = false ∧ s.k.OnReady s.k.curr
  | .expire tm => tm ∈ s.k.active
  | .dispatch t _ => s.k.OnReady t
  | _ => True

instance (s : AlarmSys n) : ∀ c, Decidable (s.Admissible own c)
  | .semWait _ timeout tm | .add _ _ timeout tm => inferInstanceAs (Decidable
      (s.phase s.k.curr = .out ∧ s.k.OnReady s.k.curr ∧ timeout < 2 ^ 31 ∧ (timeout > 0 → own tm = s.k.curr)))
  | .semRet => inferInstanceAs (Decidable (s.k.OnReady s.k.curr))
  | .finish => inferInstanceAs (Decidable ((s.phase s.k.curr).inSem = false ∧ s.k.OnReady s.k.curr))
  | .expire tm => inferInstanceAs (Decidable (tm ∈ s.k.active))
  | .dispatch t _ => inferInstanceAs (Decidable (s.k.OnReady t))
  | .post _ | .deleteSem _ | .wakeup _ | .wake | .tick => inferInstanceAs (Decidable True)

/-- The step relation; its label has the code that was returned. -/
def Step (s : AlarmSys n) (c : AlarmCall n × Option ℤ) (s' : AlarmSys n) : Prop :=
  s.Admissible own c.1 ∧ ∃ fuel, exec fuel s c.1 = .ok (c.2, s')

/-- A wait with a timeout made with no timer pending: until its timer expires that
is the one timer the task has on the active list, due at the time it was asked
for; and `__rx_finish_wait` would report a timeout only if it has expired. -/
structure WaitOK (s : AlarmSys n) : Prop where
  armed : ∀ t w, s.phase t = .onTimeout (some w) → w.expired = false →
    s.k.pendingTimers t = [w.timer] ∧ (s.k.timers w.timer).timeExpiry = w.due
  reports : ∀ t w, s.phase t = .onTimeout (some w) →
    (rxFinishWait { s.k with curr := t }).1 = OsErr.eOsTimeout.code → w.expired = true

/-- A wait with a timeout and no timer pending is made when the field is OFF. -/
def AtOff (s : AlarmSys n) (c : AlarmCall n × Option ℤ) : Prop :=
  match c.1 with
  | .add _ _ timeout _ => timeout > 0 → s.k.pendingTimers s.k.curr = [] → (s.k.tcb s.k.curr).timeout = rxTimerOff
  | _ => True

/-- Nobody waits, no timer is active or set. -/
structure Init (s : AlarmSys n) : Prop where
  chains : ∀ i, waitHeads s.k i = none
  ready : ∃ lr, Chain s.k.next s.k.readyHead lr
  port : s.k.port = {}
  free : ∀ t, (s.k.tcb t).sem = none ∧ (s.k.tcb t).timer = none
  active : s.k.active = []
  phase : ∀ t, s.phase t = .out

/-! ### What concerns the timers of other tasks -/

/-- Every active timer is set up for the task that it belongs to, and a control
block points to a timer of its own. -/
structure Owned (k : Kernel n) : Prop where
  active : ∀ tm ∈ k.active, (k.timers tm).priv = some (own tm) ∧
    ((k.timers tm).handler = some .semHandler ∨ (k.timers tm).handler = some .waitHandler)
  timer : ∀ t tm, (k.tcb t).timer = some tm → own tm = t

/-- The field and the pending timers of task `t` are the same. -/
structure Undisturbed (k k' : Kernel n) (t : Fin n) : Prop where
  timeout : (k'.tcb t).timeout = (k.tcb t).timeout
  pending : k'.pendingTimers t = k.pendingTimers t
  due : ∀ tm ∈ k.pendingTimers t, (k'.timers tm).timeExpiry = (k.timers tm).timeExpiry

/-- The tasks with `A` may be disturbed, no other one. -/
structure Disturbs (A : Fin n → Prop) (k k' : Kernel n) : Prop where
  owned : Owned own k'
  others : ∀ t, ¬ A t → Undisturbed k k' t

/-- The timer of a wait is the one that its task has pending, and is due then. -/
structure Armed (k : Kernel n) (t : Fin n) (w : TimedWait) : Prop where
  pending : k.pendingTimers t = [w.timer]
  due : (k.timers w.timer).timeExpiry = w.due
  field : (k.tcb t).timeout = rxTimerOn

section Frame

variable {own} {A B : Fin n → Prop} {k k' k'' : Kernel n}

theorem Undisturbed.trans {t : Fin n} (h : Undisturbed k k' t) (h' : Undisturbed k' k'' t) : Undisturbed k k'' t := by
  refine ⟨h'.timeout.trans h.timeout, h'.pending.trans h.pending, fun tm htm => ?_⟩
  exact (h'.due tm (h.pending ▸ htm)).trans (h.due tm htm)

theorem Disturbs.trans (h : Disturbs own A k k') (h' : Disturbs own A k' k'') : Disturbs own A k k'' :=
  ⟨h'.owned, fun t ht => (h.others t ht).trans (h'.others t ht)⟩

theorem Disturbs.mono (h : Disturbs own A k k') (hAB : ∀ t, A t → B t) : Disturbs own B k k' :=
  ⟨h.owned, fun t ht => h.others t fun ha => ht (hAB t ha)⟩

theorem mem_pendingTimers {t : Fin n} {tm : ℕ} :
    tm ∈ k.pendingTimers t ↔ tm ∈ k.active ∧ (k.timers tm).priv = some t := by
  simp [Kernel.pendingTimers]

/-- The control blocks change; the tasks with `A` may have another field, and a
timer of their own. -/
theorem Disturbs.of_tcb (h : Owned own k) (hact : k'.active = k.active) (htim : k'.timers = k.timers)
    (hto : ∀ t, ¬ A t → (k'.tcb t).timeout = (k.tcb t).timeout)
    (htm : ∀ t tm, (k'.tcb t).timer = some tm → own tm = t) : Disturbs own A k k' := by
  refine ⟨⟨fun tm htm => ?_, htm⟩, fun t ht => ⟨hto t ht, ?_, fun _ _ => ?_⟩⟩
  · rw [hact] at htm
    rw [htim]
    exact h.active tm htm
  · rw [Kernel.pendingTimers, hact, htim]
    rfl
  · rw [htim]

theorem Disturbs.of_sameTimers (h : Owned own k) (hs : SameTimers k k') : Disturbs own A k k' :=
  .of_tcb h hs.active hs.timers (fun t _ => hs.timeout t) fun t tm ht => h.timer t tm ((hs.timer t).symm.trans ht)

/-- One control block changes; a timer in it is its task's own. -/
theorem Disturbs.modTcb (h : Owned own k) (t : Fin n) {f : Tcb n → Tcb n}
    (hf : ∀ tm, (f (k.tcb t)).timer = some tm → own tm = t) : Disturbs own (fun u => u = t) k (k.modTcb t f) := by
  refine .of_tcb h rfl rfl (fun u hu => congrArg Tcb.timeout (k.modTcb_of_ne hu f)) fun u tm hu => ?_
  by_cases hut : u = t
  · subst hut
    rw [Kernel.modTcb_self] at hu
    exact hf tm hu
  · rw [k.modTcb_of_ne hut] at hu
    exact h.timer u tm hu

/-- A timer is taken off the list; its flag may be cleared. -/
theorem Disturbs.erase (h : Owned own k) {tm : ℕ} (hact : k'.active = k.active.erase tm) (htcb : k'.tcb = k.tcb)
    (htim : ∀ u, k'.timers u = { k.timers u with enabled := (k'.timers u).enabled }) :
    Disturbs own (fun t => t = own tm) k k' := by
  have hpriv : ∀ u, (k'.timers u).priv = (k.timers u).priv := fun u => by rw [htim u]
  refine ⟨⟨fun u hu => ?_, fun t u ht => ?_⟩, fun t ht => ⟨by rw [htcb], ?_, fun u _ => by rw [htim u]⟩⟩
  · rw [hact] at hu
    rw [htim u]
    exact h.active u (List.mem_of_mem_erase hu)
  · rw [htcb] at ht
    exact h.timer t u ht
  · simp only [Kernel.pendingTimers, hact, hpriv]
    by_cases hmem : tm ∈ k.active
    · have hno : (k.timers tm).priv ≠ some t := by
        rw [(h.active tm hmem).1]
        simpa using Ne.symm ht
      rw [← List.erase_filter]
      apply List.erase_of_not_mem
      simp [hno]
    · rw [List.erase_of_not_mem hmem]

/-- A timer of the running task is set up and started. -/
theorem Disturbs.arm (h : Owned own k) {tm : ℕ} {ticks : Word} {hd : Handler} {u : Fin n}
    (hd' : hd = .semHandler ∨ hd = .waitHandler) (hticks : ticks ≠ 0) (hu : own tm = u) :
    Disturbs own (fun t => t = u) k ((k.rxInitTimer tm hd u ticks).rxStartTimer tm) := by
  set k' := (k.rxInitTimer tm hd u ticks).rxStartTimer tm with hk'
  have hperm : k'.active.Perm (tm :: k.active) := start_init_perm hd u hticks
  obtain ⟨x, hx⟩ := @start_init_timers n k tm ticks hd u hticks
  rw [← hk'] at hx
  have htcb : k'.tcb = k.tcb := by simp [hk']
  have hself : k'.timers tm = { Timer.init hd u k.curr ticks with timeExpiry := x, enabled := true } := by
    rw [hx, Function.update_self]
  have hother : ∀ i, i ≠ tm → k'.timers i = k.timers i := by
    intro i hi
    rw [hx, Function.update_of_ne hi]
  refine ⟨⟨fun i hi => ?_, fun t i ht => ?_⟩, fun t ht => ⟨by rw [htcb], ?_, fun i hi => ?_⟩⟩
  · by_cases hit : i = tm
    · subst hit
      rw [hself]
      refine ⟨congrArg some hu.symm, ?_⟩
      rcases hd' with rfl | rfl
      · exact Or.inl rfl
      · exact Or.inr rfl
    · rw [hother i hit]
      have hi' := hperm.mem_iff.mp hi
      rcases List.mem_cons.mp hi' with he | hi'
      · exact absurd he hit
      · exact h.active i hi'
  · rw [htcb] at ht
    exact h.timer t i ht
  · obtain ⟨a, b, hab, hab'⟩ := @start_init_active n k tm ticks hd u hticks
    rw [← hk'] at hab'
    have hno : (k'.timers tm).priv ≠ some t := by
      rw [hself]
      simpa [Timer.init] using Ne.symm ht
    have hpriv : ∀ i ∈ k.active, decide ((k'.timers i).priv = some t) = decide ((k.timers i).priv = some t) := by
      intro i hi
      by_cases hit : i = tm
      · subst hit
        have hno' : (k.timers i).priv ≠ some t := by
          rw [(h.active i hi).1, hu]
          simpa using Ne.symm ht
        simp [hno, hno']
      · rw [hother i hit]
    calc k'.pendingTimers t = (a ++ b).filter fun i => (k'.timers i).priv = some t := by
          simp [Kernel.pendingTimers, hab', List.filter_append, hno]
      _ = k.pendingTimers t := by
          rw [← hab]
          exact List.filter_congr hpriv
  · have hit : i ≠ tm := by
      rintro rfl
      have hpriv := (mem_pendingTimers.mp hi)
      rw [(h.active i hpriv.1).1, hu] at hpriv
      exact ht (Option.some.inj hpriv.2).symm
    rw [hother i hit]

end Frame

/-! ### The calls -/

section Calls

variable {own} {k k' : Kernel n} {P : Fin n → Prop} {lr : List (Fin n)} {lw : WaitPlace → List (Fin n)} {m : ℕ}

theorem post_step (h : Chains k P lr lw) (ho : Owned own k) {r : OsErr} (he : rxSemaphorePost k m = .ok (r, k')) :
    ∃ lr' lw', Chains k' P lr' lw' ∧ Disturbs own (fun _ => False) k k' := by
  have hhead : (k.sems m).task = (lw (.sem m)).head? := h.head (.sem m)
  cases hl : lw (.sem m) with
  | nil =>
    rw [hl] at hhead
    rw [rxSemaphorePost_idle hhead] at he
    obtain ⟨-, rfl⟩ := Prod.mk.inj (Except.ok.inj he)
    exact ⟨lr, lw, h.enter.exit, .of_sameTimers ho ((SameTimers.enter k).trans (.exit _))⟩
  | cons t l =>
    obtain ⟨k1, lr', hrun, -, -, hls⟩ := rxSemaphorePost_wakes (m := m) h.lists rfl hl
    obtain ⟨-, rfl⟩ := Prod.mk.inj (Except.ok.inj (hrun.symm.trans he))
    have hw : waitHeads (posted k m t l) = Function.update (waitHeads k) (.sem m) l.head? := by
      rw [posted, waitHeads_setSem]
      rfl
    have hkeep : ∀ {β : Type} (g : Tcb n → β), (∀ c, g { c with state := .ready, sem := none } = g c) → ∀ u,
        g ((posted k m t l).tcb u) = g (k.tcb u) := fun g hg u => k.modTcb_keeps t u g hg
    refine ⟨lr', _, h.leave hls hw (h.mem_tail hl) fun u => posted_sem k m t u l,
      .of_tcb ho hls.data.active hls.data.timers
      (fun u _ => (hls.data.timeout u).trans (hkeep Tcb.timeout (fun _ => rfl) u)) fun u tm hu => ?_⟩
    rw [hls.data.timer, hkeep Tcb.timer fun _ => rfl] at hu
    exact ho.timer u tm hu

/-- The handler of task `t` disturbs only `t`. -/
theorem semHandler_step (h : Chains k P lr lw) (ho : Owned own k) {t : Fin n} (he : rxSemHandler k t = .ok k') :
    ∃ lr' lw', Chains k' P lr' lw' ∧ Disturbs own (fun u => u = t) k k' := by
  cases hsem : (k.tcb t).sem with
  | none =>
    rw [rxSemHandler_idle hsem] at he
    obtain rfl := Except.ok.inj he
    exact ⟨lr, lw, h, .of_sameTimers ho (.refl k)⟩
  | some m =>
    have ht := h.named t m hsem
    obtain ⟨k1, lr', hrun, -, hls⟩ := rxSemHandler_spec (i := .sem m) h.lists rfl ht hsem
    obtain rfl := Except.ok.inj (hrun.symm.trans he)
    set l := (lw (.sem m)).erase t with hl
    have hw : waitHeads (semExpired k m t l) = Function.update (waitHeads k) (.sem m) l.head? := by
      rw [semExpired, waitHeads_setSem]
      rfl
    have hnd := (h.lists.wait (.sem m)).nodup
    refine ⟨lr', _, h.leave hls hw (fun u => hnd.mem_erase_iff) fun u => semExpired_sem k m t u l,
      .of_tcb ho hls.data.active hls.data.timers (fun u hu => ?_) fun u tm hu => ?_⟩
    · rw [hls.data.timeout, semExpired_timeout, if_neg hu]
    · rw [hls.data.timer] at hu
      by_cases hut : u = t
      · subst hut
        simp [semExpired] at hu
      · exact ho.timer u tm (by simpa [semExpired, Kernel.modTcb_of_ne _ hut] using hu)

theorem dropTimer_waitQueues (k : Kernel n) (t : Fin n) : (dropTimer k t).waitQueues = k.waitQueues := by
  unfold dropTimer
  cases (k.tcb t).timer <;> rfl

theorem Disturbs.dropTimer (ho : Owned own k) (t : Fin n) : Disturbs own (fun u => u = t) k (dropTimer k t) := by
  unfold Rosx.dropTimer
  cases htm : (k.tcb t).timer with
  | none => exact .of_sameTimers ho (.refl k)
  | some tm =>
    obtain rfl := ho.timer t tm htm
    have h1 : Disturbs own (fun u => u = own tm) k (k.timerRemoved tm) := .erase ho rfl rfl fun _ => rfl
    exact h1.trans (.modTcb h1.owned (own tm) fun x hx => by cases hx)

/-- A deletion disturbs only the tasks on the chain. -/
theorem deleteLoop_step : ∀ {f : ℕ} {k k' : Kernel n} {lr : List (Fin n)} {lw : WaitPlace → List (Fin n)},
    Chains k P lr lw → Owned own k → drainLoop (fun k => (k.sems m).task) (deleteSemWaiter m) f k = .ok k' →
    ∃ lr' lw', Chains k' P lr' lw' ∧ Disturbs own P k k'
  | 0, _, _, _, _, _, _, he => by cases he
  | f + 1, k, k', lr, lw, h, ho, he => by
    have hhead : (k.sems m).task = (lw (.sem m)).head? := h.head (.sem m)
    cases hl : lw (.sem m) with
    | nil =>
      rw [hl] at hhead
      simp only [drainLoop, hhead, List.head?_nil] at he
      obtain rfl := Except.ok.inj he
      exact ⟨lr, lw, h, .of_sameTimers ho (.refl k)⟩
    | cons t l =>
      rw [hl] at hhead
      simp only [drainLoop, hhead, List.head?_cons] at he
      obtain ⟨k1, hbody, he⟩ := bind_eq_ok.mp he
      obtain ⟨k1', lr1, hrun, -, hls⟩ := deleteSemWaiter_spec (m := m) h.lists hl
      obtain rfl := Except.ok.inj (hbody.symm.trans hrun)
      set f : Tcb n → Tcb n := fun c => { c with state := .ready, sem := none } with hf
      have hkeep : ∀ {β : Type} (g : Tcb n → β), (∀ c, g { c with timer := none } = g c) → ∀ u,
          g ((semDropped k m t l).tcb u) = g ((k.modTcb t f).tcb u) :=
            fun g hg u => dropTimer_keeps (k.modTcb t f) t u g hg
      have hsem : ∀ u, ((semDropped k m t l).tcb u).sem = if u = t then none else (k.tcb u).sem := by
        intro u
        rw [hkeep Tcb.sem fun _ => rfl]
        by_cases hut : u = t
        · subst hut
          simp [hf]
        · rw [Kernel.modTcb_of_ne _ hut, if_neg hut]
      have hw : waitHeads (semDropped k m t l) = Function.update (waitHeads k) (.sem m) l.head? := by
        rw [semDropped, waitHeads_setSem]
        exact congrArg (Function.update · _ _) (waitHeads_of_eq (dropTimer_sems _ _) (dropTimer_waitQueues _ _))
      have h1 := h.leave hls hw (h.mem_tail hl) hsem
      have hd0 : Disturbs own (fun u => u = t) k (k.modTcb t f) := .modTcb ho t fun tm htm => ho.timer t tm htm
      have hd := hd0.trans (.dropTimer hd0.owned t)
      have hd1 : Disturbs own (fun u => u = t) k k1 :=
        hd.trans (.of_sameTimers hd.owned ((SameTimers.setSem _ m _).trans (.of_relinked hls.data)))
      obtain ⟨lr', lw', h2, hd2⟩ := deleteLoop_step h1 hd1.owned he
      have ht : t ∈ lw (.sem m) := by simp [hl]
      refine ⟨lr', lw', h2, (hd1.mono fun u hu => ?_).trans hd2⟩
      rw [hu]
      exact h.only t m ht

theorem deleteSem_step (h : Chains k P lr lw) (ho : Owned own k) (he : rxDeleteSemaphore k m = .ok k') :
    ∃ lr' lw', Chains k' P lr' lw' ∧ Disturbs own P k k' := by
  obtain ⟨k1, hloop, he⟩ := bind_eq_ok.mp he
  obtain rfl := Except.ok.inj he
  have h0 : Disturbs own P k k.enterCritical := .of_sameTimers ho (.enter k)
  obtain ⟨lr', lw', h1, hd⟩ := deleteLoop_step h.enter h0.owned hloop
  have h2 := h0.trans hd
  exact ⟨lr', lw', h1.exit, h2.trans (.of_sameTimers h2.owned (.exit k1))⟩

/-- A wait that blocks disturbs only its task. -/
theorem Disturbs.semBlocked (ho : Owned own k) {l : List (Fin n)} {timeout : ℤ} {tm : ℕ} (hlt : timeout < 2 ^ 31)
    (hown : timeout > 0 → own tm = k.curr) :
    Disturbs own (fun t => t = k.curr) k (semArmed (semBlocked k m l) timeout tm) := by
  set e := Rosx.semBlocked k m l with he
  have h0 : Disturbs own (fun t => t = k.curr) k
      (k.modTcb k.curr fun c => { c with state := .suspend, sem := some m, timeout := rxTimerOff }) :=
    .modTcb ho k.curr fun x hx => ho.timer k.curr x hx
  have h1 : Disturbs own (fun t => t = k.curr) k e := h0.trans (.of_sameTimers h0.owned (.setSem _ m _))
  unfold semArmed
  split_ifs with hpos
  · have h2 : Disturbs own (fun t => t = k.curr) e
        ((e.rxInitTimer tm .semHandler e.curr (BitVec.ofInt 32 timeout)).rxStartTimer tm) :=
      .arm h1.owned (Or.inl rfl) (ticks_ne_zero hpos hlt) (hown hpos)
    exact (h1.trans h2).trans (.modTcb h2.owned k.curr fun x hx => Option.some.inj hx ▸ hown hpos)
  · exact h1

/-- A wait that blocks puts the running task on the chain, and disturbs only it. -/
theorem semWait_step (h : Chains k P lr lw) (ho : Owned own k) (hc : k.curr ∈ lr) {timeout : ℤ} {tm : ℕ}
    (hlt : timeout < 2 ^ 31) (hown : timeout > 0 → own tm = k.curr) {r : Option OsErr}
    (he : rxSemaphoreWait k m timeout tm = .ok (r, k')) :
    ∃ lr' lw', Chains k' (fun t => P t ∨ (r = none ∧ t = k.curr)) lr' lw' ∧ Disturbs own (fun t => t = k.curr) k k' := by
  have hP : ∀ {k' : Kernel n} {lr' : List (Fin n)} {lw' : WaitPlace → List (Fin n)}, Chains k' P lr' lw' →
      Chains k' (fun t => P t ∨ (r = none ∧ t = k.curr)) lr' lw' := fun h => h.mono fun _ _ _ => Or.inl
  by_cases hv : (k.sems m).currVal > 0
  · rw [rxSemaphoreWait_takes hv] at he
    obtain ⟨-, rfl⟩ := Prod.mk.inj (Except.ok.inj he)
    have hw : waitHeads (k.enterCritical.setSem m { k.sems m with currVal := (k.sems m).currVal - 1 }) = waitHeads k := by
      rw [waitHeads_setSem]
      exact Function.update_eq_self _ (waitHeads k)
    have h1 : Chains (k.enterCritical.setSem m { k.sems m with currVal := (k.sems m).currVal - 1 }) P lr lw :=
      h.enter.of_links (fun _ => rfl) rfl rfl h.lists.port.enter fun i => congrFun hw i
    exact ⟨lr, lw, hP h1.exit, .of_sameTimers ho ((SameTimers.enter k).trans ((SameTimers.setSem _ m _).trans (.exit _)))⟩
  · by_cases h0 : timeout = osNoWait
    · subst h0
      rw [rxSemaphoreWait_noWait (by omega)] at he
      obtain ⟨-, rfl⟩ := Prod.mk.inj (Except.ok.inj he)
      exact ⟨lr, lw, hP h.enter.exit, .of_sameTimers ho ((SameTimers.enter k).trans (.exit _))⟩
    · rcases rxSemaphoreWait_blocks (i := .sem m) h.lists rfl (by omega) hc h0 tm with hrun | ⟨k1, x, l', -, hrun, -, hls⟩
      · rw [hrun] at he
        cases he
      · obtain ⟨rfl, rfl⟩ := Prod.mk.inj (Except.ok.inj (hrun.symm.trans he))
        have hd := Disturbs.semBlocked (m := m) (l := lw (.sem m)) ho hlt hown
        exact ⟨lr.erase k.curr, _, (h.block hls).mono fun t _ _ ht => ht.imp_right fun htc => ⟨rfl, htc⟩,
          hd.trans (.of_sameTimers hd.owned ((SameTimers.switchTo _ x).trans (.of_relinked hls.data)))⟩

/-- A timer that the running task arms for a wait. -/
def waitArmed (k : Kernel n) (timeout : ℤ) (timer : ℕ) : Kernel n :=
  ((k.rxInitTimer timer .waitHandler k.curr (BitVec.ofInt 32 timeout)).rxStartTimer timer).modTcb k.curr
    fun c => { c with timeout := rxTimerOn, timer := some timer }

theorem rxInitTimer_modTcb (k : Kernel n) (t u : Fin n) (f : Tcb n → Tcb n) (tm : ℕ) (hd : Handler) (ticks : Word) :
    (k.modTcb t f).rxInitTimer tm hd u ticks = (k.rxInitTimer tm hd u ticks).modTcb t f := by
  unfold Kernel.rxInitTimer
  split_ifs <;> rfl

theorem rxStartTimer_modTcb (k : Kernel n) (t : Fin n) (f : Tcb n → Tcb n) (tm : ℕ) :
    (k.modTcb t f).rxStartTimer tm = (k.rxStartTimer tm).modTcb t f := by
  by_cases h : (k.timers tm).enabled = true
  · simp only [Kernel.rxStartTimer, Kernel.modTcb_timers, h, if_true]
  · simp only [Kernel.rxStartTimer, Kernel.modTcb_timers, h]
    rfl

theorem waitTimer_eq (k : Kernel n) (timeout : ℤ) (timer : ℕ) : waitTimer k timeout timer =
    if timeout > 0 ∧ (k.tcb k.curr).timeout = rxTimerOff then waitArmed k timeout timer else k := by
  unfold waitTimer
  split_ifs with h
  · simp only [rxWaitTimeout, waitArmed, Kernel.rxCreateTimer, Kernel.modTcb_curr, Kernel.modTcb_self, rxInitTimer_modTcb,
      rxInitTimer_curr, rxStartTimer_modTcb, rxStartTimer_curr, Kernel.modTcb_modTcb]
  · rfl

section WaitTimer

variable {timeout : ℤ} {timer : ℕ}

theorem waitArmed_disturbs (ho : Owned own k) (hpos : timeout > 0) (hlt : timeout < 2 ^ 31) (hown : own timer = k.curr) :
    Disturbs own (fun t => t = k.curr) k (waitArmed k timeout timer) := by
  have h1 : Disturbs own (fun t => t = k.curr) k
      ((k.rxInitTimer timer .waitHandler k.curr (BitVec.ofInt 32 timeout)).rxStartTimer timer) :=
    .arm ho (Or.inr rfl) (ticks_ne_zero hpos hlt) hown
  exact h1.trans (.modTcb h1.owned k.curr fun x hx => Option.some.inj hx ▸ hown)

/-- With no timer pending, the one that is armed is the only one. -/
theorem waitArmed_armed (ho : Owned own k) (hpos : timeout > 0) (hlt : timeout < 2 ^ 31) (hown : own timer = k.curr)
    (hnone : k.pendingTimers k.curr = []) :
    Armed (waitArmed k timeout timer) k.curr { timer := timer, due := k.jiffies + BitVec.ofInt 32 timeout } := by
  have hticks := ticks_ne_zero hpos hlt
  set ticks : Word := BitVec.ofInt 32 timeout with hticksdef
  set k' := (k.rxInitTimer timer .waitHandler k.curr ticks).rxStartTimer timer with hk'
  obtain ⟨a, b, hab, hab'⟩ := @start_init_active n k timer ticks .waitHandler k.curr hticks
  rw [← hk'] at hab'
  have htimers := @start_init_timers_eq n k timer ticks .waitHandler k.curr hticks
  rw [← hk'] at htimers
  -- nothing that was active belongs to the task
  have hother : ∀ i ∈ k.active, (k'.timers i).priv ≠ some k.curr := by
    intro i hi
    have hno : i ∉ k.pendingTimers k.curr := by simp [hnone]
    have hpriv : (k.timers i).priv ≠ some k.curr := fun hp => hno (mem_pendingTimers.mpr ⟨hi, hp⟩)
    have hit : i ≠ timer := by
      rintro rfl
      rw [(ho.active i hi).1, hown] at hpriv
      exact hpriv rfl
    rw [htimers, Function.update_of_ne hit]
    exact hpriv
  have hfilter : ∀ l : List ℕ, (∀ i ∈ l, i ∈ k.active) →
    l.filter (fun i => decide ((k'.timers i).priv = some k.curr)) = [] := by
    intro l hl
    apply List.filter_eq_nil_iff.mpr
    intro i hi
    simpa using hother i (hl i hi)
  have hself : (k'.timers timer).priv = some k.curr := by
    rw [htimers, Function.update_self]
    rfl
  refine ⟨?_, ?_, ?_⟩
  · show k'.active.filter (fun i => decide ((k'.timers i).priv = some k.curr)) = [timer]
    rw [hab', List.filter_append, List.filter_cons, hfilter a fun i hi => hab ▸ List.mem_append_left b hi,
      hfilter b fun i hi => hab ▸ List.mem_append_right a hi]
    simp [hself]
  · show (k'.timers timer).timeExpiry = _
    rw [htimers, Function.update_self]
    exact BitVec.add_comm _ _
  · exact congrArg Tcb.timeout (Kernel.modTcb_self _ _ _)

theorem waitArmed_chains (h : Chains k P lr lw) : Chains (waitArmed k timeout timer) P lr lw :=
  (h.startTimer timer .waitHandler k.curr (BitVec.ofInt 32 timeout)).modTcb k.curr (fun _ _ => rfl) fun _ => rfl

/-- A call of `__rx_add_to_wait_queue` disturbs only its task; it arms the timer
if the field is OFF, and leaves the pending timers alone otherwise. -/
theorem add_step (h : Chains k P lr lw) (ho : Owned own k) (hc : k.curr ∈ lr) (hlt : timeout < 2 ^ 31)
    (hown : timeout > 0 → own timer = k.curr) {fuel wq : ℕ} {taskState : TaskState}
    (he : rxAddToWaitQueue fuel k wq taskState timeout timer = .ok k') :
    (∃ lr' lw', Chains k' P lr' lw') ∧ Disturbs own (fun t => t = k.curr) k k' ∧
      (timeout > 0 → k.pendingTimers k.curr = [] → (k.tcb k.curr).timeout = rxTimerOff →
        Armed k' k.curr { timer := timer, due := k.jiffies + BitVec.ofInt 32 timeout }) ∧
      ((k.tcb k.curr).timeout ≠ rxTimerOff → k'.pendingTimers k.curr = k.pendingTimers k.curr) := by
  obtain ⟨k1, hjoin, he⟩ := bind_eq_ok.mp he
  obtain ⟨k2, hadd, he⟩ := bind_eq_ok.mp he
  obtain rfl := Except.ok.inj he
  obtain ⟨lr1, lw1, h1, hst1, hcurr1, hj1⟩ := joinQueue_chains h.enter hc hjoin
  have hs := SameHeads.addQueue hadd
  have h2 := h1.of_heads hs
  have hst : SameTimers k k2 := ((SameTimers.enter k).trans hst1).trans hs.sameTimers
  have hcurr : k2.curr = k.curr := hs.curr.trans hcurr1
  have hjif : k2.jiffies = k.jiffies := hs.jiffies.trans hj1
  have hpend : k2.pendingTimers k.curr = k.pendingTimers k.curr := by
    simp only [Kernel.pendingTimers, hst.active, hst.timers]
  have hd2 : Disturbs own (fun t => t = k.curr) k k2 := .of_sameTimers ho hst
  rw [waitTimer_eq, hcurr, hst.timeout]
  by_cases harm : timeout > 0 ∧ (k.tcb k.curr).timeout = rxTimerOff
  · rw [if_pos harm]
    have hown2 : own timer = k2.curr := (hown harm.1).trans hcurr.symm
    have hd3 := waitArmed_disturbs hd2.owned harm.1 hlt hown2
    have hd4 : Disturbs own (fun t => t = k.curr) k (waitArmed k2 timeout timer) := hd2.trans (hcurr ▸ hd3)
    refine ⟨⟨lr1, lw1, (waitArmed_chains h2).exit⟩, hd4.trans (.of_sameTimers hd4.owned (.exit _)),
      fun hpos hnone _ => ?_,
      fun hoff => absurd harm.2 hoff⟩
    have hA := waitArmed_armed hd2.owned harm.1 hlt hown2 (by rw [hcurr, hpend, hnone])
    rw [hcurr, hjif] at hA
    exact ⟨hA.pending, hA.due, hA.field⟩
  · rw [if_neg harm]
    refine ⟨⟨lr1, lw1, h2.exit⟩, hd2.trans (.of_sameTimers hd2.owned (.exit k2)),
      fun hpos _ hoff => absurd ⟨hpos, hoff⟩ harm,
      fun _ => hpend⟩

end WaitTimer

/-! ### The end of a wait -/

theorem rxFinishWait_eq (k : Kernel n) : rxFinishWait k =
    (if (k.tcb k.curr).timeout = OsErr.eOsTimeout.code then OsErr.eOsTimeout.code else 0,
      ((dropTimer k.enterCritical k.curr).modTcb k.curr
        fun c => { c with timeout := rxTimerOff, wq := none }).exitCritical) := by
  have htim : ((dropTimer k.enterCritical k.curr).tcb k.curr).timeout = (k.tcb k.curr).timeout :=
    dropTimer_keeps k.enterCritical k.curr k.curr Tcb.timeout fun _ => rfl
  rw [← htim]
  unfold rxFinishWait dropTimer
  cases h : (k.tcb k.curr).timer with
  | none =>
    have h' : (k.enterCritical.tcb k.enterCritical.curr).timer = none := h
    have h'' : (k.enterCritical.tcb k.curr).timer = none := h
    simp only [h', h'']
    rfl
  | some tm =>
    have h' : (k.enterCritical.tcb k.enterCritical.curr).timer = some tm := h
    have h'' : (k.enterCritical.tcb k.curr).timer = some tm := h
    simp only [h', h'']
    rfl

theorem dropTimer_chains (h : Chains k P lr lw) (t : Fin n) : Chains (dropTimer k t) P lr lw := by
  have hl := h.lists.dropTimer t
  refine h.of_links (fun u => dropTimer_keeps k t u Tcb.sem fun _ => rfl)
    (funext fun u => dropTimer_keeps k t u Tcb.next fun _ => rfl) ?_ hl.port
    (congrFun (waitHeads_of_eq (dropTimer_sems k t) (dropTimer_waitQueues k t)))
  unfold dropTimer
  cases (k.tcb t).timer <;> rfl

/-- `__rx_finish_wait` disturbs only its task. -/
theorem finish_step (h : Chains k P lr lw) (ho : Owned own k) :
    Chains (rxFinishWait k).2 P lr lw ∧ Disturbs own (fun t => t = k.curr) k (rxFinishWait k).2 := by
  rw [rxFinishWait_eq]
  set k1 := dropTimer k.enterCritical k.curr with hk1
  set f : Tcb n → Tcb n := fun c => { c with timeout := rxTimerOff, wq := none } with hf
  have h1 : Chains k1 P lr lw := dropTimer_chains h.enter k.curr
  have hd0 : Disturbs own (fun t => t = k.curr) k k.enterCritical := .of_sameTimers ho (.enter k)
  have hd1 : Disturbs own (fun t => t = k.curr) k k1 := hd0.trans (.dropTimer hd0.owned k.curr)
  have h2 : Chains (k1.modTcb k.curr f) P lr lw := h1.modTcb k.curr (fun _ _ => rfl) fun _ => rfl
  have hd2 : Disturbs own (fun t => t = k.curr) k (k1.modTcb k.curr f) :=
    hd1.trans (.modTcb hd1.owned k.curr fun tm htm => hd1.owned.timer k.curr tm htm)
  exact ⟨h2.exit, hd2.trans (.of_sameTimers hd2.owned (.exit _))⟩

/-- An expiry disturbs only the task of the timer. -/
theorem expire_step (h : Chains k P lr lw) (ho : Owned own k) {tm : ℕ} (htm : tm ∈ k.active)
    (he : k.expireTimer tm = .ok k') :
    ∃ lr' lw', Chains k' P lr' lw' ∧ Disturbs own (fun t => t = own tm) k k' := by
  obtain ⟨hpriv, hhd⟩ := ho.active tm htm
  set k1 := k.enterCritical.disarm tm with hk1
  have h1 : Chains k1 P lr lw := h.enter.of_links (fun _ => rfl) rfl rfl (h.lists.enter.disarm tm).port fun _ => rfl
  have hd1 : Disturbs own (fun t => t = own tm) k k1 := by
    refine .erase ho rfl rfl fun u => ?_
    by_cases hu : u = tm
    · subst hu
      simp [hk1, Kernel.disarm, Kernel.enterCritical, Kernel.exitCritical]
    · simp [hk1, Kernel.disarm, Kernel.enterCritical, Kernel.exitCritical, hu]
  rcases hhd with hhd | hhd
  · simp only [Kernel.expireTimer, hpriv, hhd] at he
    obtain ⟨k2, hrun, he⟩ := bind_eq_ok.mp he
    obtain rfl := Except.ok.inj he
    obtain ⟨lr', lw', h2, hd2⟩ := semHandler_step h1 hd1.owned hrun
    have hd := hd1.trans hd2
    exact ⟨lr', lw', h2.exit, hd.trans (.of_sameTimers hd.owned (.exit k2))⟩
  · simp only [Kernel.expireTimer, hpriv, hhd] at he
    obtain rfl := Except.ok.inj he
    set f : Tcb n → Tcb n := fun c => { c with timeout := OsErr.eOsTimeout.code, timer := none } with hf
    have h2 : Chains (k1.modTcb (own tm) f) P lr lw := h1.modTcb (own tm) (fun _ _ => rfl) fun _ => rfl
    have hd2 : Disturbs own (fun t => t = own tm) k (k1.modTcb (own tm) f) :=
      hd1.trans (.modTcb hd1.owned (own tm) fun x hx => by cases hx)
    exact ⟨lr, lw, h2.exit, hd2.trans (.of_sameTimers hd2.owned (.exit _))⟩

end Calls

/-! ### The invariant -/

structure Inv (s : AlarmSys n) : Prop where
  chains : ∃ lr lw, Chains s.k (fun t => (s.phase t).inSem = true) lr lw
  owned : Owned own s.k
  waits : ∀ t w, s.phase t = .onTimeout (some w) → w.expired = false → Armed s.k t w

section Steps

variable {own} {s s' : AlarmSys n} {k' : Kernel n} {c : AlarmCall n × Option ℤ}

theorem Armed.of_undisturbed {k : Kernel n} {t : Fin n} {w : TimedWait} (h : Armed k t w) (hu : Undisturbed k k' t) :
    Armed k' t w := by
  refine ⟨hu.pending.trans h.pending, ?_, hu.timeout.trans h.field⟩
  exact (hu.due w.timer (by simp [h.pending])).trans h.due

theorem Inv.waitOK (h : Inv own s) : WaitOK s := by
  refine ⟨fun t w hp hw => ?_, fun t w hp hr => ?_⟩
  · have hA := h.waits t w hp hw
    exact ⟨hA.pending, hA.due⟩
  · by_contra hw
    have hA := h.waits t w hp (by simpa using hw)
    rw [rxFinishWait_eq] at hr
    have hne : (s.k.tcb t).timeout ≠ OsErr.eOsTimeout.code := by
      rw [hA.field]
      decide
    dsimp only at hr
    rw [if_neg hne] at hr
    exact absurd hr (by decide)

theorem Init.inv (h : Init s) : Inv own s := by
  obtain ⟨lr, hl⟩ := h.ready
  refine ⟨⟨lr, fun _ => [], ⟨Relinked.refl _, Or.inl h.port, hl, h.chains, by simp, by simp⟩, fun t m ht => ?_, by simp⟩,
    ⟨fun tm htm => ?_, fun t tm ht => ?_⟩, fun t w hp => ?_⟩
  · rw [(h.free t).1] at ht
    cases ht
  · rw [h.active] at htm
    cases htm
  · rw [(h.free t).2] at ht
    cases ht
  · rw [h.phase] at hp
    cases hp

/-- What a step must do: it disturbs nobody in a wait, but for an armed one. -/
theorem Inv.next (h : Inv own s) {A : Fin n → Prop} (hd : Disturbs own A s.k s'.k)
    (hch : ∃ lr lw, Chains s'.k (fun t => (s'.phase t).inSem = true) lr lw)
    (hw : ∀ t w, s'.phase t = .onTimeout (some w) → w.expired = false →
      (¬ A t ∧ s.phase t = .onTimeout (some w)) ∨ Armed s'.k t w) : Inv own s' := by
  refine ⟨hch, hd.owned, fun t w hp hexp => ?_⟩
  rcases hw t w hp hexp with ⟨hA, hp⟩ | hA
  · exact (h.waits t w hp hexp).of_undisturbed (hd.others t hA)
  · exact hA

/-- No task goes into another phase. -/
theorem Inv.keep (h : Inv own s) {A : Fin n → Prop} (hd : Disturbs own A s.k k')
    (hch : ∃ lr lw, Chains k' (fun t => (s.phase t).inSem = true) lr lw)
    (hA : ∀ t, A t → (s.phase t).inSem = true) : Inv own { s with k := k' } := by
  have hd : Disturbs own A s.k (AlarmSys.k { s with k := k' }) := hd
  refine h.next hd hch fun t w hp _ => Or.inl ⟨fun ht => ?_, hp⟩
  have hsem := hA t ht
  rw [show s.phase t = .onTimeout (some w) from hp] at hsem
  cases hsem

/-- The running task goes into another phase. -/
theorem Inv.goto (h : Inv own s) {p : WaitPhase} {Q : Fin n → Prop} (hd : Disturbs own (fun t => t = s.k.curr) s.k k')
    (hch : ∃ lr lw, Chains k' Q lr lw) (hQ : ∀ t, Q t → ((s.goto p k').phase t).inSem = true)
    (hp : ∀ w, p = .onTimeout (some w) → w.expired = false → Armed k' s.k.curr w) : Inv own (s.goto p k') := by
  obtain ⟨lr, lw, hch⟩ := hch
  have hd : Disturbs own (fun t => t = s.k.curr) s.k (s.goto p k').k := hd
  refine h.next hd ⟨lr, lw, hch.mono fun t _ _ => hQ t⟩ fun t w ht hw => ?_
  by_cases htc : t = s.k.curr
  · subst htc
    have ht : Function.update s.phase s.k.curr p s.k.curr = .onTimeout (some w) := ht
    rw [Function.update_self] at ht
    exact Or.inr (hp w ht hw)
  · have ht : Function.update s.phase s.k.curr p t = .onTimeout (some w) := ht
    rw [Function.update_of_ne htc] at ht
    exact Or.inl ⟨htc, ht⟩

theorem onReady_iff {k : Kernel n} {P : Fin n → Prop} {lr : List (Fin n)} {lw : WaitPlace → List (Fin n)}
    (h : Chains k P lr lw) {t : Fin n} : k.OnReady t ↔ t ∈ lr := by
  rw [Kernel.OnReady, h.nodes_ready]

theorem Inv.semWait (h : Inv own s) {m : ℕ} {timeout : ℤ} {tm : ℕ} {r : Option ℤ}
    (hadm : s.Admissible own (.semWait m timeout tm))
    {fuel : ℕ} (he : exec fuel s (.semWait m timeout tm) = .ok (r, s')) : Inv own s' := by
  obtain ⟨hout, hready, hlt, hown⟩ := hadm
  obtain ⟨lr, lw, hch⟩ := h.chains
  obtain ⟨⟨r, k'⟩, hx, he⟩ := map_eq_ok.mp he
  obtain ⟨-, rfl⟩ := Prod.mk.inj he
  obtain ⟨lr', lw', hch', hd⟩ := semWait_step hch h.owned ((onReady_iff hch).mp hready) hlt hown hx
  refine h.goto hd ⟨lr', lw', hch'⟩ (fun t ht => ?_) fun w hp _ => ?_
  · show (Function.update s.phase s.k.curr _ t).inSem = true
    rcases ht with ht | ⟨rfl, rfl⟩
    · have htc : t ≠ s.k.curr := by
        rintro rfl
        rw [hout] at ht
        cases ht
      rw [Function.update_of_ne htc]
      exact ht
    · rw [Function.update_self]
      rfl
  · cases r with
    | none => cases hp
    | some e =>
      have hp : s.phase s.k.curr = .onTimeout (some w) := hp
      rw [hout] at hp
      cases hp

theorem Inv.semRet (h : Inv own s) {r : Option ℤ} (hadm : s.Admissible own .semRet) {fuel : ℕ}
    (he : exec fuel s .semRet = .ok (r, s')) : Inv own s' := by
  obtain ⟨lr, lw, hch⟩ := h.chains
  have hcur : s.k.curr ∈ lr := (onReady_iff hch).mp hadm
  have hs : s' = s.goto .out s.k := by
    simp only [exec] at he
    split at he
    · exact (Prod.mk.inj (Except.ok.inj he)).2.symm
    · cases he
  subst hs
  refine h.goto (Q := fun t => ((s.goto .out s.k).phase t).inSem = true) (.of_sameTimers h.owned (.refl _))
    ⟨lr, lw, hch.mono fun t m ht hp => ?_⟩ (fun _ => id) fun w hp => by cases hp
  have htc : t ≠ s.k.curr := by
    rintro rfl
    exact hch.lists.notReady _ _ ht hcur
  show (Function.update s.phase s.k.curr _ t).inSem = true
  rw [Function.update_of_ne htc]
  exact hp

/-- A task that is not in `rx_semaphore_wait` goes elsewhere, but not there. -/
theorem inSem_goto {p : WaitPhase} (hcur : (s.phase s.k.curr).inSem = false) {t : Fin n}
    (ht : (s.phase t).inSem = true) : ((s.goto p k').phase t).inSem = true := by
  have htc : t ≠ s.k.curr := by
    rintro rfl
    rw [hcur] at ht
    cases ht
  show (Function.update s.phase s.k.curr _ t).inSem = true
  rw [Function.update_of_ne htc]
  exact ht

theorem Inv.add (h : Inv own s) {wq : ℕ} {taskState : TaskState} {timeout : ℤ} {timer : ℕ} {r : Option ℤ}
    (hadm : s.Admissible own (.add wq taskState timeout timer)) (hc : AtOff s (.add wq taskState timeout timer, r))
    {fuel : ℕ} (he : exec fuel s (.add wq taskState timeout timer) = .ok (r, s')) : Inv own s' := by
  obtain ⟨hout, hready, hlt, hown⟩ := hadm
  obtain ⟨lr, lw, hch⟩ := h.chains
  obtain ⟨k', hx, he⟩ := map_eq_ok.mp he
  obtain ⟨-, rfl⟩ := Prod.mk.inj he
  obtain ⟨hch', hd, harm, -⟩ := add_step hch h.owned ((onReady_iff hch).mp hready) hlt hown hx
  refine h.goto hd hch' (fun t => inSem_goto (by rw [hout]; rfl)) fun w hp _ => ?_
  by_cases hpos : timeout > 0
  · rw [if_pos hpos, newWait] at hp
    by_cases hnone : s.k.pendingTimers s.k.curr = []
    · rw [if_pos hnone] at hp
      obtain rfl := Option.some.inj (WaitPhase.onTimeout.inj hp)
      exact harm hpos hnone (hc hpos hnone)
    · rw [if_neg hnone] at hp
      cases WaitPhase.onTimeout.inj hp
  · rw [if_neg hpos] at hp
    cases hp

theorem Inv.finish (h : Inv own s) {r : Option ℤ} (hadm : s.Admissible own .finish) {fuel : ℕ}
    (he : exec fuel s .finish = .ok (r, s')) : Inv own s' := by
  obtain ⟨lr, lw, hch⟩ := h.chains
  obtain ⟨-, rfl⟩ := Prod.mk.inj (Except.ok.inj he)
  obtain ⟨hch', hd⟩ := finish_step hch h.owned
  exact h.goto hd ⟨lr, lw, hch'⟩ (fun t => inSem_goto hadm.1) fun w hp => by cases hp

theorem WaitPhase.expire_inSem (tm : ℕ) (p : WaitPhase) : (p.expire tm).inSem = p.inSem := by
  unfold WaitPhase.expire
  split <;> rfl

/-- The timer of a wait expires, and the wait is marked. -/
theorem Inv.expire (h : Inv own s) {tm : ℕ} {r : Option ℤ} (hadm : s.Admissible own (.expire tm)) {fuel : ℕ}
    (he : exec fuel s (.expire tm) = .ok (r, s')) : Inv own s' := by
  obtain ⟨lr, lw, hch⟩ := h.chains
  obtain ⟨k', hx, he⟩ := map_eq_ok.mp he
  obtain ⟨-, rfl⟩ := Prod.mk.inj he
  obtain ⟨lr', lw', hch', hd⟩ := expire_step hch h.owned hadm hx
  refine h.next hd ⟨lr', lw', hch'.mono fun t _ _ ht => (WaitPhase.expire_inSem tm _).trans ht⟩ fun t w hp hw => Or.inl ?_
  have hp : (s.phase t).expire tm = .onTimeout (some w) := hp
  unfold WaitPhase.expire at hp
  split at hp
  · rename_i w0 hp0
    obtain rfl := Option.some.inj (WaitPhase.onTimeout.inj hp)
    obtain ⟨hexp, hne⟩ := Bool.or_eq_false_iff.mp hw
    refine ⟨?_, ?_⟩
    · -- the timer that expires is the task's own, and it is the timer of the wait
      rintro rfl
      have hA := h.waits _ w0 hp0 hexp
      have hmem : tm ∈ s.k.pendingTimers (own tm) := mem_pendingTimers.mpr ⟨hadm, (h.owned.active tm hadm).1⟩
      rw [hA.pending, List.mem_singleton] at hmem
      simp [hmem] at hne
    · simp [hp0, hne]
  · rename_i hno
    exact absurd hp (hno w)

theorem Inv.dispatch (h : Inv own s) (t : Fin n) (p : Bool) : Inv own { s with k := s.k.dispatch t p } := by
  obtain ⟨lr, lw, hch⟩ := h.chains
  have hrest := s.k.dispatch_rest t p
  have hst : SameTimers s.k (s.k.dispatch t p) := by
    refine ⟨fun u => ?_, fun u => ?_, fun u => ?_, by rw [hrest], by rw [hrest]⟩
    · rw [Kernel.dispatch_tcb]
    · rw [Kernel.dispatch_tcb]
    · rw [Kernel.dispatch_tcb]
  have hw : waitHeads (s.k.dispatch t p) = waitHeads s.k := waitHeads_of_eq (by rw [hrest]) (by rw [hrest])
  exact h.keep (.of_sameTimers (A := fun _ => False) h.owned hst)
    ⟨lr, lw, hch.of_sems ((hch.lists.dispatch t p).congr_heads (congrFun hw)) hst.sem fun _ => rfl⟩ fun _ => False.elim

theorem Inv.step (h : Inv own s) (hc : AtOff s c) (hst : Step own s c s') : Inv own s' := by
  obtain ⟨hadm, fuel, he⟩ := hst
  obtain ⟨lr, lw, hch⟩ := h.chains
  obtain ⟨c, r⟩ := c
  cases c with
  | semWait m timeout tm => exact h.semWait hadm he
  | semRet => exact h.semRet hadm he
  | post m =>
    obtain ⟨x, hx, he⟩ := map_eq_ok.mp he
    obtain ⟨-, rfl⟩ := Prod.mk.inj he
    obtain ⟨lr', lw', hch', hd⟩ := post_step hch h.owned hx
    exact h.keep hd ⟨lr', lw', hch'⟩ fun _ => False.elim
  | deleteSem m =>
    obtain ⟨k', hx, he⟩ := map_eq_ok.mp he
    obtain ⟨-, rfl⟩ := Prod.mk.inj he
    obtain ⟨lr', lw', hch', hd⟩ := deleteSem_step hch h.owned hx
    exact h.keep hd ⟨lr', lw', hch'⟩ fun _ => id
  | add wq taskState timeout timer => exact h.add hadm hc he
  | finish => exact h.finish hadm he
  | wakeup wq =>
    obtain ⟨k', hx, he⟩ := map_eq_ok.mp he
    obtain ⟨-, rfl⟩ := Prod.mk.inj he
    obtain ⟨lr', lw', hch', hst⟩ := rxWakeup_chains hch hx
    exact h.keep (.of_sameTimers (A := fun _ => False) h.owned hst) ⟨lr', lw', hch'⟩ fun _ => False.elim
  | wake =>
    obtain ⟨k', hx, he⟩ := map_eq_ok.mp he
    obtain ⟨-, rfl⟩ := Prod.mk.inj he
    obtain ⟨lr', lw', hch', hst⟩ := wakeQueues_chains hch hx
    exact h.keep (.of_sameTimers (A := fun _ => False) h.owned hst) ⟨lr', lw', hch'⟩ fun _ => False.elim
  | expire tm => exact h.expire hadm he
  | tick =>
    obtain ⟨-, rfl⟩ := Prod.mk.inj (Except.ok.inj he)
    have hst : SameTimers s.k { s.k with jiffies := s.k.jiffies + 1 } := .of_tcb rfl rfl rfl
    exact h.keep (.of_sameTimers (A := fun _ => False) h.owned hst)
      ⟨lr, lw, hch.of_links (fun _ => rfl) rfl rfl hch.lists.port fun _ => rfl⟩ fun _ => False.elim
  | dispatch t preempted =>
    obtain ⟨-, rfl⟩ := Prod.mk.inj (Except.ok.inj he)
    exact h.dispatch t preempted

/-- With the field not OFF, a wait that should arm a timer has none. -/
theorem Inv.breaks (h : Inv own s) (hc : ¬ AtOff s c) (hst : Step own s c s') : ¬ WaitOK s' := by
  obtain ⟨hadm, fuel, he⟩ := hst
  obtain ⟨lr, lw, hch⟩ := h.chains
  obtain ⟨c, r⟩ := c
  unfold AtOff at hc
  split at hc
  · rename_i wq taskState timeout timer heq
    obtain rfl : c = _ := heq
    simp only [not_forall] at hc
    obtain ⟨hpos, hnone, hoff⟩ := hc
    obtain ⟨hout, hready, hlt, hown⟩ := hadm
    obtain ⟨k', hx, he⟩ := map_eq_ok.mp he
    obtain ⟨-, rfl⟩ := Prod.mk.inj he
    obtain ⟨-, -, -, hpend⟩ := add_step hch h.owned ((onReady_iff hch).mp hready) hlt hown hx
    intro hok
    set w : TimedWait := { timer := timer, due := s.k.jiffies + BitVec.ofInt 32 timeout } with hw
    have hphase : (s.goto (if timeout > 0 then .onTimeout (newWait s.k timeout timer) else .out) k').phase s.k.curr =
        .onTimeout (some w) := by
      show Function.update s.phase s.k.curr _ s.k.curr = _
      rw [Function.update_self, if_pos hpos, newWait, if_pos hnone]
    have harmed := (hok.armed s.k.curr w hphase rfl).1
    have hnil : k'.pendingTimers s.k.curr = [] := (hpend hoff).trans hnone
    rw [show (s.goto _ k').k = k' from rfl, hnil] at harmed
    cases harmed
  · exact absurd trivial hc

/-- **Along a run, every wait with a timeout that is made with no timer pending arms
one timer, due after the timeout, and reports a timeout only if it has expired, if
and only if the field is OFF at each such call.** -/
theorem waitOK_iff (own : ℕ → Fin n) {s : AlarmSys n} (hi : Init s) {tr : List ((AlarmCall n × Option ℤ) × AlarmSys n)}
    (h : Run.Exec (Step own) s tr) : (∀ x ∈ Run.states s tr, WaitOK x) ↔ Run.Guarded AtOff s tr := by
  refine (h.guarded_iff (Inv own) (fun _ h => h.waitOK) (fun s c s' hs hc hst => ?_) (fun s c s' hs hc hst => ?_)
    hi.inv).symm
  · exact hs.step hc hst
  · exact hs.breaks hc hst

end Steps

instance (s : AlarmSys n) : ∀ c, Decidable (AtOff s c)
  | (.add _ _ timeout _, _) => inferInstanceAs (Decidable
      (timeout > 0 → s.k.pendingTimers s.k.curr = [] → (s.k.tcb s.k.curr).timeout = rxTimerOff))
  | (.semWait _ _ _, _) | (.semRet, _) | (.post _, _) | (.deleteSem _, _) | (.finish, _) | (.wakeup _, _) | (.wake, _)
  | (.expire _, _) | (.tick, _) | (.dispatch _ _, _) => inferInstanceAs (Decidable True)

theorem step_of_attempt {own : ℕ → Fin n} {fuel : ℕ} {s s' : AlarmSys n} {c : AlarmCall n × Option ℤ}
    (h : Run.attempt (Admissible own) (exec fuel) s c = some s') : Step own s c s' :=
  ⟨(Run.step_of_attempt h).1, fuel, (Run.step_of_attempt h).2⟩

/-- Three ready tasks, and a semaphore of one permit; timers 0, 3, … belong to
task 0. -/
def twoServices : AlarmSys 3 where
  k := (rxCreateSemaphore (Kernel.allReady 2) 0 1).2
  phase := fun _ => .out

theorem twoServices_init : Init twoServices where
  chains := fun i => by
    rcases i with (_ | m) | q <;> rfl
  ready := ⟨[0, 1, 2], by decide⟩
  port := rfl
  free := by decide
  active := rfl
  phase := fun _ => rfl

/-- Task 0 times out in `rx_semaphore_wait`; a wait without a timeout puts the
field OFF again, and the timer of the next wait with one is armed. -/
theorem waitOK_twoServices : Init twoServices ∧ ∃ tr, Run.Exec (Step (Fin.ofNat 3)) twoServices tr ∧ tr.length = 17 ∧
    ∀ x ∈ Run.states twoServices tr, WaitOK x := by
  refine ⟨twoServices_init, ?_⟩
  obtain ⟨tr, hex, hp⟩ := Run.exists_exec (f := Run.attempt (Admissible (Fin.ofNat 3)) (exec 8))
    (fun _ _ _ => step_of_attempt) (s := twoServices)
    [(.semWait 0 osNoWait 0, some 0), (.semWait 0 5 3, none), (.expire 3, none), (.dispatch 0 true, none),
      (.semRet, some (-2)), (.add 0 .interruptible 0 0, some 0), (.dispatch 1 false, none), (.wake, none),
      (.dispatch 0 true, none), (.finish, some (-2)), (.add 0 .uninterruptible 10 0, some 0), (.dispatch 1 false, none),
      (.tick, none), (.expire 0, none), (.wake, none), (.dispatch 0 true, none), (.finish, some (-2))]
    (fun tr => decide (tr.length = 17 ∧ Run.Guarded AtOff twoServices tr)) (by decide +kernel)
  obtain ⟨hlen, hoff⟩ := of_decide_eq_true hp
  exact ⟨tr, hex, hlen, (waitOK_iff _ twoServices_init hex).mpr hoff⟩

/-- After a timeout in `rx_semaphore_wait` the next wait arms no timer, and its
end reports the old timeout. -/
theorem stale_timeout_reported : Init twoServices ∧ ∃ tr, Run.Exec (Step (Fin.ofNat 3)) twoServices tr ∧
    ¬ ∀ x ∈ Run.states twoServices tr, WaitOK x := by
  refine ⟨twoServices_init, ?_⟩
  obtain ⟨tr, hex, hp⟩ := Run.exists_exec (f := Run.attempt (Admissible (Fin.ofNat 3)) (exec 8))
    (fun _ _ _ => step_of_attempt) (s := twoServices)
    [(.semWait 0 osNoWait 0, some 0), (.semWait 0 5 3, none), (.expire 3, none), (.dispatch 0 true, none),
      (.semRet, some (-2)), (.add 0 .uninterruptible 10 0, some 0), (.dispatch 1 false, none), (.wake, none),
      (.dispatch 0 true, none)]
    (fun tr => decide ((Run.final twoServices tr).phase 0 = .onTimeout (some { timer := 0, due := 10 }) ∧
      (rxFinishWait (Run.final twoServices tr).k).1 = OsErr.eOsTimeout.code ∧ (Run.final twoServices tr).k.curr = 0))
    (by decide +kernel)
  obtain ⟨hphase, hcode, hcurr⟩ := of_decide_eq_true hp
  refine ⟨tr, hex, fun hall => ?_⟩
  have hok := (hall _ (Run.final_mem_states _ _)).reports 0 _ hphase
  rw [← hcurr] at hok
  exact Bool.false_ne_true (hok hcode)

end AlarmSys

end Rosx
