/-
# Runs of one mutex

Any number of tasks share one mutex. A step of a run is a call of
`rx_mutex_lock` or `rx_mutex_unlock` by the running task, up to its return or
to the point where it blocks; the expiry of a waiter's timer; the return of a
blocked call, once its task runs again; or the dispatch of any ready task.
The dispatch stands for everything else that decides who runs: yields,
preemption, priorities of tasks that do not use the mutex.

Next to the kernel a run keeps where each task is (`Phase`) and the blocked
lockers in the order of their arrival. A blocked task that an unlock makes
ready has been granted the mutex; one that an expiry makes ready has expired.

The result is `mutexOK`: in every reachable state the mutex has at most one
holder, which is its owner, it is free only if nobody waits, and the wait
chain is the list of the blocked lockers in arrival order; every call
returns, an unlock hands over to the longest waiting task, an expiry takes
out one task, which gets `E_OS_TIMEOUT`, and an unlock by another task than
the holder changes nothing.
-/
import Rosx.Mutex
import Rosx.Lib.Run

namespace Rosx

open Linked

variable {n : ℕ}

/-- Where a task is: outside, blocked in `rx_mutex_lock` (with a timeout or
not), woken there by a grant or by an expiry, or between the return of
`OS_OK` and the unlock. -/
inductive Phase where
  | out
  | waiting (timed : Bool)
  | granted (timed : Bool)
  | expired (timed : Bool)
  | inside
  deriving DecidableEq, Repr

/-- Whether the pending call has a timeout. -/
def Phase.timed : Phase → Bool
  | .waiting b | .granted b | .expired b => b
  | .out | .inside => false

def Phase.grant : Phase → Phase
  | .waiting b => .granted b
  | p => p

def Phase.expire : Phase → Phase
  | .waiting b => .expired b
  | p => p

/-- The kernel, where each task is, and the blocked lockers in the order of
their arrival. -/
structure MutexSys (n : ℕ) where
  k : Kernel n
  phase : Fin n → Phase
  arrivals : List (Fin n)

/-- A step of a run. -/
inductive MutexCall (n : ℕ) where
  | lock (timeout : ℤ) (tm : ℕ)
  | unlock
  | expire (tm : ℕ)
  | ret
  | dispatch (t : Fin n) (preempted : Bool)

/-- The expiry of a timer with `__rx_mutex_handler`, by the timer thread. -/
def expireMutexTimer (k : Kernel n) (tm : ℕ) : Res (Kernel n) :=
  let k := k.enterCritical.disarm tm
  match (k.timers tm).handler, (k.timers tm).priv with
  | some .mutexHandler, some t => do
    let k ← rxMutexHandler k t
    return k.exitCritical
  | _, _ => .error .null

theorem expireMutexTimer_eq {k : Kernel n} {tm : ℕ} {t : Fin n} (hhd : (k.timers tm).handler = some .mutexHandler)
    (hpr : (k.timers tm).priv = some t) :
    expireMutexTimer k tm = rxMutexHandler (k.enterCritical.disarm tm) t >>= fun k => .ok k.exitCritical := by
  have hhd' : ((k.enterCritical.disarm tm).timers tm).handler = some .mutexHandler := by
    show (Function.update k.timers tm _ tm).handler = _
    rw [Function.update_self]
    exact hhd
  have hpr' : ((k.enterCritical.disarm tm).timers tm).priv = some t := by
    show (Function.update k.timers tm _ tm).priv = _
    rw [Function.update_self]
    exact hpr
  unfold expireMutexTimer
  simp only [hhd', hpr']
  rfl

namespace MutexSys

/-- The kernel becomes `k'`; the tasks woken by it pass to the phase `f`. -/
def wake (s : MutexSys n) (f : Phase → Phase) (k' : Kernel n) : MutexSys n where
  k := k'
  phase t := if woken s.k k' t then f (s.phase t) else s.phase t
  arrivals := s.arrivals.filter fun t => !woken s.k k' t

/-- The call of the running task becomes `p`. -/
def setPhase (s : MutexSys n) (p : Phase) : MutexSys n := { s with phase := Function.update s.phase s.k.curr p }

/-- What a step computes on mutex `m`: the code a call returns, if it
returns, and the system it leaves. -/
def exec (m : ℕ) (s : MutexSys n) : MutexCall n → Res (Option OsErr × MutexSys n)
  | .lock timeout tm => do
    let (r, k) ← rxMutexLock s.k m timeout tm
    match r with
    | some .osOk => return (r, { s.setPhase .inside with k := k })
    | some _ => return (r, { s with k := k })
    | none =>
      return (r, { s.setPhase (.waiting (timeout > 0)) with k := k, arrivals := s.arrivals ++ [s.k.curr] })
  | .unlock => do
    let (r, k) ← rxMutexUnlock s.k m
    return (some r, (s.setPhase .out).wake .grant k)
  | .expire tm => do
    let k ← expireMutexTimer s.k tm
    return (none, s.wake .expire k)
  | .ret =>
    let r := rxMutexLockRet s.k m (s.phase s.k.curr).timed
    .ok (some r, s.setPhase (if r = .osOk then .inside else .out))
  | .dispatch t preempted => .ok (none, { s with k := s.k.dispatch t preempted })

/-- A task calls `rx_mutex_lock` when it does not hold the mutex, with any
`int` as timeout; its timer is a variable of its own stack. An armed timer
expires, a woken call returns, a ready task is dispatched. -/
def Admissible (s : MutexSys n) : MutexCall n → Prop
  | .lock timeout tm => s.phase s.k.curr = .out ∧ timeout < 2 ^ 31 ∧ tm ∉ s.k.active
  | .unlock => s.phase s.k.curr = .out ∨ s.phase s.k.curr = .inside
  | .expire tm => tm ∈ s.k.active
  | .ret => (∃ b, s.phase s.k.curr = .granted b) ∨ ∃ b, s.phase s.k.curr = .expired b
  | .dispatch t _ => (s.k.tcb t).state.runnable = true

/-- The step relation; its label has the code that was returned. -/
def Step (m : ℕ) (s : MutexSys n) (c : MutexCall n × Option OsErr) (s' : MutexSys n) : Prop :=
  s.Admissible c.1 ∧ s.exec m c.1 = .ok (c.2, s')

/-- The task is between an `OS_OK` return of, or a grant to, `rx_mutex_lock`
and its unlock. -/
def Holds (s : MutexSys n) (t : Fin n) : Prop := s.phase t = .inside ∨ ∃ b, s.phase t = .granted b

/-- The task is blocked in `rx_mutex_lock`. -/
def Waits (s : MutexSys n) (t : Fin n) : Prop := ∃ b, s.phase t = .waiting b

/-- A mutex from `rx_create_mutex`, no task at it, no timer armed; the ready
queue holds the tasks that are ready or running. -/
structure Init (m : ℕ) (s : MutexSys n) : Prop where
  mutex : s.k.mutexes m = { lock := .unlocked, owner := none, task := none }
  ready : ∃ lr, Chain s.k.next s.k.readyHead lr ∧ ∀ t, t ∈ lr ↔ (s.k.tcb t).state.runnable = true
  curr : (s.k.tcb s.k.curr).state.runnable = true
  port : s.k.port = {}
  active : s.k.active = []
  phase : s.phase = fun _ => .out
  arrivals : s.arrivals = []

/-! ### The invariant -/

structure Inv (m : ℕ) (s : MutexSys n) (lr : List (Fin n)) : Prop where
  lists : Lists s.k s.k lr (fun _ : Unit => (s.k.mutexes m).task) (fun _ => s.arrivals)
  port : s.k.port = {}
  ready : ∀ t, t ∈ lr ↔ (s.k.tcb t).state.runnable = true
  curr : s.k.curr ∈ lr
  waits : ∀ t, t ∈ s.arrivals ↔ s.Waits t
  suspended : ∀ t ∈ s.arrivals, (s.k.tcb t).state = .suspend ∧ (s.k.tcb t).mutex = some m
  awake : ∀ t, s.phase t = .out ∨ s.Waits t ∨ t ∈ lr
  holder : ∀ t, s.Holds t → (s.k.mutexes m).lock = .locked ∧ (s.k.mutexes m).owner = some t
  locked : (s.k.mutexes m).lock = .locked → ∃ o, (s.k.mutexes m).owner = some o ∧ s.Holds o
  unlocked : (s.k.mutexes m).lock = .unlocked → s.arrivals = []
  expired : ∀ t b, s.phase t = .expired b → b = true ∧ (s.k.mutexes m).owner ≠ some t
  armed : ∀ tm ∈ s.k.active, (s.k.timers tm).enabled = true ∧ (s.k.timers tm).handler = some .mutexHandler ∧
    ∃ t, (s.k.timers tm).priv = some t ∧ (s.k.tcb t).timer = some tm ∧ s.phase t = .waiting true
  active : s.k.active.Nodup

theorem Init.inv {m : ℕ} {s : MutexSys n} (h : Init m s) : ∃ lr, Inv m s lr := by
  obtain ⟨lr, hc, hr⟩ := h.ready
  have hlock : (s.k.mutexes m).lock = .unlocked := by rw [h.mutex]
  have hphase : ∀ t, s.phase t = .out := fun t => by rw [h.phase]
  refine ⟨lr, ⟨Relinked.refl _, Or.inl h.port, hc, fun _ => ?_, ?_, ?_⟩, h.port, hr, (hr _).mpr h.curr, ?_, ?_, ?_,
    ?_, ?_, ?_, ?_, ?_, ?_⟩
  · rw [h.mutex, h.arrivals]
    rfl
  · simp [h.arrivals]
  · simp [h.arrivals]
  · intro t
    simp [h.arrivals, Waits, hphase]
  · simp [h.arrivals]
  · exact fun t => Or.inl (hphase t)
  · intro t ht
    simp [Holds, hphase] at ht
  · intro hl
    rw [hlock] at hl
    cases hl
  · exact fun _ => h.arrivals
  · intro t b ht
    rw [hphase] at ht
    cases ht
  · simp [h.active]
  · simp [h.active]

/-! ### Calls that change nothing -/

theorem wake_self (s : MutexSys n) (f : Phase → Phase) : s.wake f s.k = s := by
  have hw : ∀ u, woken s.k s.k u = false := fun _ => woken_eq_false rfl
  unfold wake
  simp only [hw, Bool.not_false, List.filter_true]
  rfl

theorem setPhase_self {s : MutexSys n} {p : Phase} (h : s.phase s.k.curr = p) : s.setPhase p = s := by
  rw [setPhase, ← h, Function.update_eq_self]

section Calls

variable {m : ℕ} {s : MutexSys n} {lr : List (Fin n)}

theorem not_holds_of_out {t : Fin n} (ht : s.phase t = .out) : ¬ s.Holds t := by
  rintro (h1 | ⟨b, h1⟩) <;> rw [ht] at h1 <;> cases h1

theorem holds_congr {s' : MutexSys n} {t : Fin n} (ht : s'.phase t = s.phase t) : s'.Holds t ↔ s.Holds t := by
  simp only [Holds, ht]

theorem waits_congr {s' : MutexSys n} {t : Fin n} (ht : s'.phase t = s.phase t) : s'.Waits t ↔ s.Waits t := by
  simp only [Waits, ht]

/-- The holder is on the ready queue. -/
theorem Inv.holder_ready (h : Inv m s lr) {o : Fin n} (ho : s.Holds o) : o ∈ lr := by
  rcases h.awake o with he | ⟨b, he⟩ | he
  · exact absurd ho (not_holds_of_out he)
  · rcases ho with h2 | ⟨b', h2⟩ <;> rw [he] at h2 <;> cases h2
  · exact he

/-- While a task waits, another one holds the mutex. -/
theorem Inv.holder_of_mem (h : Inv m s lr) {t : Fin n} (ht : t ∈ s.arrivals) :
    (s.k.mutexes m).lock = .locked ∧ ∃ o, (s.k.mutexes m).owner = some o ∧ s.Holds o ∧ o ∈ lr := by
  have hlock : (s.k.mutexes m).lock = .locked := by
    cases hl : (s.k.mutexes m).lock with
    | locked => rfl
    | unlocked =>
      rw [h.unlocked hl] at ht
      cases ht
  obtain ⟨o, ho, hho⟩ := h.locked hlock
  exact ⟨hlock, o, ho, hho, h.holder_ready hho⟩

/-- An unlock by a task that does not hold the mutex. -/
theorem unlock_other (h : Inv m s lr) (hp : s.phase s.k.curr = .out) :
    ∃ r, s.exec m .unlock = .ok (some r, s) := by
  have hs : (s.setPhase .out).wake .grant s.k = s := by rw [setPhase_self hp, wake_self]
  cases hl : (s.k.mutexes m).lock with
  | unlocked =>
    refine ⟨.osOk, ?_⟩
    simp only [exec, rxMutexUnlock_free hl, enter_exit h.port, bind, Except.bind, pure, Except.pure, hs]
  | locked =>
    obtain ⟨o, ho, hh⟩ := h.locked hl
    have hc : o ≠ s.k.curr := by
      rintro rfl
      exact not_holds_of_out hp hh
    refine ⟨.osErr, ?_⟩
    simp only [exec, rxMutexUnlock_refused hl ho hc, enter_exit h.port, bind, Except.bind, pure, Except.pure, hs]

theorem lock_noWait (h : Inv m s lr) (hl : (s.k.mutexes m).lock = .locked) (tm : ℕ) :
    s.exec m (.lock osNoWait tm) = .ok (some .eOsUnavail, s) := by
  simp only [exec, rxMutexLock_noWait hl, enter_exit h.port, bind, Except.bind, pure, Except.pure]

/-! ### A lock that returns, and the return of a blocked one -/

theorem phase_setPhase {p : Phase} {t : Fin n} (h : t ≠ s.k.curr) : (s.setPhase p).phase t = s.phase t := by
  simp [setPhase, h]

theorem holds_setPhase {p : Phase} {t : Fin n} (h : t ≠ s.k.curr) : (s.setPhase p).Holds t ↔ s.Holds t :=
  holds_congr (phase_setPhase h)

theorem waits_setPhase {p : Phase} {t : Fin n} (h : t ≠ s.k.curr) : (s.setPhase p).Waits t ↔ s.Waits t :=
  waits_congr (phase_setPhase h)

/-- A free mutex is taken. -/
theorem lock_free (h : Inv m s lr) (hp : s.phase s.k.curr = .out) (hl : (s.k.mutexes m).lock = .unlocked)
    (timeout : ℤ) (tm : ℕ) : ∃ s', s.exec m (.lock timeout tm) = .ok (some .osOk, s') ∧ Inv m s' lr := by
  set k' := (s.k.enterCritical.setMutex m
    { s.k.mutexes m with lock := .locked, owner := some s.k.curr }).exitCritical with hk'
  have hmut : k'.mutexes m = { s.k.mutexes m with lock := .locked, owner := some s.k.curr } := by
    show (s.k.enterCritical.setMutex m _).mutexes m = _
    rw [Kernel.setMutex_mutexes]
  have hnone : ∀ t, ¬ s.Holds t := by
    intro t ht
    rw [(h.holder t ht).1] at hl
    cases hl
  have hself : (s.setPhase .inside).phase s.k.curr = .inside := by simp [setPhase]
  have hother : ∀ t, t ≠ s.k.curr → (s.setPhase .inside).phase t = s.phase t := by
    intro t ht
    simp [setPhase, ht]
  refine ⟨{ s.setPhase .inside with k := k' }, ?_, ?_⟩
  · simp only [exec, rxMutexLock_free hl, ← hk', bind, Except.bind, pure, Except.pure]
  have hnw : ¬ s.Waits s.k.curr := by
    rintro ⟨b, hb⟩
    rw [hp] at hb
    cases hb
  have hwaits : ∀ t, (s.setPhase .inside).Waits t ↔ s.Waits t := by
    intro t
    by_cases ht : t = s.k.curr
    · subst ht
      refine iff_of_false ?_ hnw
      rintro ⟨b, hb⟩
      rw [hself] at hb
      cases hb
    · exact waits_setPhase ht
  refine ⟨?_, ?_, h.ready, h.curr, fun t => (h.waits t).trans (hwaits t).symm, h.suspended, fun t => ?_, fun t ht => ?_,
    fun _ => ?_, fun hu => ?_, fun t b ht => ?_, fun tm' htm => ?_, h.active⟩
  · have hl' := (h.lists.enter.setMutex m { s.k.mutexes m with lock := .locked, owner := some s.k.curr }).exit.self
    apply hl'.congr_heads
    intro _
    show (k'.mutexes m).task = _
    rw [hmut]
  · exact h.lists.port.enter.exit
  · by_cases ht : t = s.k.curr
    · exact Or.inr (Or.inr (ht ▸ h.curr))
    · show (s.setPhase .inside).phase t = .out ∨ (s.setPhase .inside).Waits t ∨ t ∈ lr
      rw [hother t ht, hwaits]
      exact h.awake t
  · have : t = s.k.curr := by
      by_contra hne
      exact hnone t ((holds_setPhase hne).mp ht)
    subst this
    show (k'.mutexes m).lock = _ ∧ (k'.mutexes m).owner = _
    rw [hmut]
    exact ⟨rfl, rfl⟩
  · refine ⟨s.k.curr, ?_, Or.inl hself⟩
    show (k'.mutexes m).owner = _
    rw [hmut]
  · change (k'.mutexes m).lock = _ at hu
    rw [hmut] at hu
    cases hu
  · change (s.setPhase .inside).phase t = .expired b at ht
    have hne : t ≠ s.k.curr := by
      rintro rfl
      rw [hself] at ht
      cases ht
    rw [hother t hne] at ht
    refine ⟨(h.expired t b ht).1, ?_⟩
    show (k'.mutexes m).owner ≠ _
    rw [hmut]
    exact fun he => hne (Option.some.inj he).symm
  · obtain ⟨hen, hhd, t, hpr, htm', hph⟩ := h.armed tm' htm
    have hne : t ≠ s.k.curr := by
      rintro rfl
      rw [hp] at hph
      cases hph
    exact ⟨hen, hhd, t, hpr, htm', (hother t hne).trans hph⟩

/-- A woken call returns what it was woken for. -/
theorem ret_spec (h : Inv m s lr) :
    (∀ b, s.phase s.k.curr = .granted b → s.exec m .ret = .ok (some .osOk, s.setPhase .inside) ∧
      Inv m (s.setPhase .inside) lr) ∧
    ∀ b, s.phase s.k.curr = .expired b → s.exec m .ret = .ok (some .eOsTimeout, s.setPhase .out) ∧
      Inv m (s.setPhase .out) lr := by
  -- only the running task's phase changes, and it was not waiting
  have hkeep : ∀ p : Phase, ¬ s.Waits s.k.curr → (∀ b, p ≠ .waiting b) → (∀ b, p ≠ .expired b) →
      ((s.setPhase p).Holds s.k.curr ↔ s.Holds s.k.curr) → Inv m (s.setPhase p) lr := by
    intro p hnw hpw hpe hholds
    have hself : (s.setPhase p).phase s.k.curr = p := by simp [setPhase]
    have hother : ∀ t, t ≠ s.k.curr → (s.setPhase p).phase t = s.phase t := fun t ht => by simp [setPhase, ht]
    have hwaits : ∀ t, (s.setPhase p).Waits t ↔ s.Waits t := by
      intro t
      by_cases ht : t = s.k.curr
      · subst ht
        exact iff_of_false (fun ⟨b, hb⟩ => hpw b (hself.symm.trans hb)) hnw
      · exact waits_setPhase ht
    have hh : ∀ t, (s.setPhase p).Holds t ↔ s.Holds t := by
      intro t
      by_cases ht : t = s.k.curr
      · subst ht; exact hholds
      · exact holds_setPhase ht
    refine ⟨h.lists, h.port, h.ready, h.curr, fun t => (h.waits t).trans (hwaits t).symm, h.suspended, fun t => ?_,
      fun t ht => h.holder t ((hh t).mp ht), fun hl => ?_, h.unlocked, fun t b ht => ?_, fun tm htm => ?_, h.active⟩
    · by_cases ht : t = s.k.curr
      · exact Or.inr (Or.inr (ht ▸ h.curr))
      · rw [hother t ht, hwaits]
        exact h.awake t
    · obtain ⟨o, ho, hho⟩ := h.locked hl
      exact ⟨o, ho, (hh o).mpr hho⟩
    · have hne : t ≠ s.k.curr := fun he => hpe b (by rw [← hself, ← he]; exact ht)
      rw [hother t hne] at ht
      exact h.expired t b ht
    · obtain ⟨hen, hhd, t, hpr, htm', hph⟩ := h.armed tm htm
      have hne : t ≠ s.k.curr := fun he => hnw ⟨true, he ▸ hph⟩
      exact ⟨hen, hhd, t, hpr, htm', (hother t hne).trans hph⟩
  have hnw : ∀ {p : Phase}, s.phase s.k.curr = p → (∀ b, p ≠ .waiting b) → ¬ s.Waits s.k.curr :=
    fun hp hpw ⟨b, hb⟩ => hpw b (hp.symm.trans hb)
  refine ⟨fun b hb => ⟨?_, ?_⟩, fun b hb => ⟨?_, ?_⟩⟩
  · have hown := (h.holder _ (Or.inr ⟨b, hb⟩)).2
    have hr : rxMutexLockRet s.k m b = .osOk := by simp [rxMutexLockRet, hown]
    simp [exec, hb, Phase.timed, hr]
  · apply hkeep .inside (hnw hb (by simp)) (by simp) (by simp)
    exact iff_of_true (Or.inl (by simp [setPhase])) (Or.inr ⟨b, hb⟩)
  · obtain ⟨rfl, hown⟩ := h.expired _ b hb
    have hr : rxMutexLockRet s.k m true = .eOsTimeout := by simp [rxMutexLockRet, hown]
    simp [exec, hb, Phase.timed, hr]
  · apply hkeep .out (hnw hb (by simp)) (by simp) (by simp)
    refine iff_of_false ?_ ?_
    · simp [Holds, setPhase]
    · simp [Holds, hb]

/-! ### Switches -/

theorem dispatch_spec (h : Inv m s lr) {t : Fin n} (ht : (s.k.tcb t).state.runnable = true) (p : Bool) :
    Inv m { s with k := s.k.dispatch t p } lr := by
  set k' := s.k.dispatch t p with hk'
  have hmut : k'.mutexes = s.k.mutexes := by rw [hk', Kernel.dispatch_rest]
  have htimers : k'.timers = s.k.timers := by rw [hk', Kernel.dispatch_rest]
  have hactive : k'.active = s.k.active := by rw [hk', Kernel.dispatch_rest]
  have hport : k'.port = s.k.port := by rw [hk', Kernel.dispatch_rest]
  have hself : ∀ u, u ∉ lr → (k'.tcb u).state = (s.k.tcb u).state := fun u =>
    Kernel.dispatch_state_of_notMem u p h.ready h.curr ht
  refine ⟨?_, hport.trans h.port, fun u => ?_, (h.ready t).mpr ht, h.waits, fun u hu => ?_, h.awake, fun u hu => ?_,
    fun hl => ?_, fun hl => ?_, fun u b hu => ?_, fun tm htm => ?_, ?_⟩
  · apply (h.lists.dispatch t p).congr_heads
    intro _
    show (k'.mutexes m).task = _
    rw [hmut]
  · exact Kernel.dispatch_ready u p h.ready h.curr ht
  · obtain ⟨hsus, hmu⟩ := h.suspended u hu
    show (k'.tcb u).state = _ ∧ (k'.tcb u).mutex = _
    rw [hself u (h.lists.notReady () u hu), Kernel.dispatch_tcb]
    exact ⟨hsus, hmu⟩
  · show (k'.mutexes m).lock = _ ∧ (k'.mutexes m).owner = _
    rw [hmut]
    exact h.holder u hu
  · change (k'.mutexes m).lock = _ at hl
    show ∃ o, (k'.mutexes m).owner = some o ∧ _
    rw [hmut] at hl ⊢
    exact h.locked hl
  · change (k'.mutexes m).lock = _ at hl
    rw [hmut] at hl
    exact h.unlocked hl
  · show b = true ∧ (k'.mutexes m).owner ≠ _
    rw [hmut]
    exact h.expired u b hu
  · change tm ∈ k'.active at htm
    rw [hactive] at htm
    obtain ⟨hen, hhd, u, hpr, htmu, hph⟩ := h.armed tm htm
    show (k'.timers tm).enabled = true ∧ (k'.timers tm).handler = _ ∧
      ∃ u, (k'.timers tm).priv = some u ∧ (k'.tcb u).timer = _ ∧ _
    rw [htimers]
    exact ⟨hen, hhd, u, hpr, by rw [Kernel.dispatch_tcb]; exact htmu, hph⟩
  · show k'.active.Nodup
    rw [hactive]
    exact h.active

/-- The timers armed after the caller has blocked are its own and those of the
other waiters. -/
theorem armed_lock (h : Inv m s lr) (hp : s.phase s.k.curr = .out) {timeout : ℤ} {tm : ℕ} (h1 : timeout < 2 ^ 31)
    {o : Fin n} {k' : Kernel n} {ph : Fin n → Phase}
    (hactive : k'.active = (armedFor (blockedOn s.k m o s.arrivals) timeout tm).active)
    (htimers : k'.timers = (armedFor (blockedOn s.k m o s.arrivals) timeout tm).timers)
    (htimer : ∀ u, (k'.tcb u).timer = if timeout > 0 ∧ u = s.k.curr then some tm else (s.k.tcb u).timer)
    (hself : ph s.k.curr = .waiting (timeout > 0)) (hother : ∀ t, t ≠ s.k.curr → ph t = s.phase t) {tm' : ℕ}
    (htm' : tm' ∈ k'.active) :
    (k'.timers tm').enabled = true ∧ (k'.timers tm').handler = some .mutexHandler ∧
      ∃ u, (k'.timers tm').priv = some u ∧ (k'.tcb u).timer = some tm' ∧ ph u = .waiting true := by
  rw [hactive] at htm'
  rw [htimers]
  rcases mem_active_armedFor h1 htm' with ⟨hpos, rfl, hen, hhd, hpr⟩ | ⟨hmem, htm''⟩
  · refine ⟨hen, hhd, s.k.curr, hpr, ?_, ?_⟩
    · rw [htimer, if_pos ⟨hpos, rfl⟩]
    · rw [hself]
      simp [hpos]
  · -- a timer armed before belongs to another waiter
    obtain ⟨hen, hhd, u, hpr, htu, hph⟩ := h.armed tm' hmem
    have huc : u ≠ s.k.curr := by
      rintro rfl
      rw [hp] at hph
      cases hph
    rw [htm'']
    exact ⟨hen, hhd, u, hpr, by rw [htimer, if_neg fun hc => huc hc.2]; exact htu, (hother u huc).trans hph⟩

/-- A held mutex is waited for. -/
theorem lock_blocks (h : Inv m s lr) (hp : s.phase s.k.curr = .out) (hl : (s.k.mutexes m).lock = .locked)
    {timeout : ℤ} {tm : ℕ} (h0 : timeout ≠ osNoWait) (h1 : timeout < 2 ^ 31) (htm : tm ∉ s.k.active) :
    ∃ s' lr', s.exec m (.lock timeout tm) = .ok (none, s') ∧ Inv m s' lr' := by
  obtain ⟨o, ho, hho⟩ := h.locked hl
  have hcw : s.k.curr ∉ s.arrivals := fun hm => h.lists.notReady () _ hm h.curr
  have hoc : o ≠ s.k.curr := by
    rintro rfl
    exact not_holds_of_out hp hho
  have hor : o ∈ lr := h.holder_ready hho
  obtain ⟨k', lr', x, hrun, hport, hx, hm, hls⟩ := rxMutexLock_blocks (i := ()) h.lists rfl hl ho hor h.curr hoc h0 tm
  set e' := armedFor (blockedOn s.k m o s.arrivals) timeout tm with he'
  have hcurr' : (blockedOn s.k m o s.arrivals).curr = s.k.curr := rfl
  have hxc : x ≠ s.k.curr := ((hm x).mp hx).1
  -- the data of the kernel after the call
  have hstate : ∀ u, (k'.tcb u).state =
      if u = x then .running else if u = s.k.curr then .suspend else (s.k.tcb u).state := by
    intro u
    rw [hls.data.state, Kernel.switchTo_state, he', armedFor_state, blockedOn_state]
    rw [hcurr', blockedOn_state, if_pos rfl]
  have hmutex : ∀ u, (k'.tcb u).mutex = if u = s.k.curr then some m else (s.k.tcb u).mutex := by
    intro u
    rw [hls.data.mutex, Kernel.switchTo_mutex, he', armedFor_mutex, blockedOn_mutex]
  have htimer : ∀ u, (k'.tcb u).timer = if timeout > 0 ∧ u = s.k.curr then some tm else (s.k.tcb u).timer :=
    fun u => by
      rw [hls.data.timer, Kernel.switchTo_timer, he', armedFor_timer, hcurr', blockedOn_timer]
  have hmut : k'.mutexes m = { s.k.mutexes m with task := (s.arrivals ++ [s.k.curr]).head? } := by
    rw [hls.data.mutexes, Kernel.switchTo_mutexes, he', armedFor_mutexes, blockedOn_mutexes]
  have hactive : k'.active = e'.active := by rw [hls.data.active]; rfl
  have htimers : k'.timers = e'.timers := by rw [hls.data.timers]; rfl
  set s' : MutexSys n := ⟨k', (s.setPhase (.waiting (timeout > 0))).phase, s.arrivals ++ [s.k.curr]⟩ with hs'
  have hself : s'.phase s.k.curr = .waiting (timeout > 0) := by simp [hs', setPhase]
  have hother : ∀ t, t ≠ s.k.curr → s'.phase t = s.phase t := fun t ht => by simp [hs', setPhase, ht]
  have hwaits : ∀ t, t ≠ s.k.curr → (s'.Waits t ↔ s.Waits t) := fun t ht => by simp only [Waits, hother t ht]
  have hholds : ∀ t, s'.Holds t ↔ s.Holds t := by
    intro t
    by_cases ht : t = s.k.curr
    · subst ht
      refine iff_of_false ?_ (not_holds_of_out hp)
      rintro (h2 | ⟨b, h2⟩) <;> rw [hself] at h2 <;> cases h2
    · simp only [Holds, hother t ht]
  refine ⟨s', lr', ?_, ?_⟩
  · simp only [exec, hrun, bind, Except.bind, pure, Except.pure]
    rfl
  refine ⟨hls.single ?_, hport, fun u => ?_, ?_, fun u => ?_, fun u hu => ?_, fun u => ?_, fun u hu => ?_, fun _ => ?_,
    fun hu => ?_, fun u b hu => ?_, fun tm' htm' => ?_, ?_⟩
  · show (k'.mutexes m).task = _
    rw [hmut]
  · exact mem_ready_of_suspended h.ready hm hx hstate u
  · show k'.curr ∈ lr'
    rw [hls.data.curr]
    exact hx
  · by_cases hu : u = s.k.curr
    · subst hu
      exact iff_of_true (by simp [hs']) ⟨_, hself⟩
    · rw [hwaits u hu, ← h.waits u]
      simp [hs', hu]
  · show (k'.tcb u).state = _ ∧ (k'.tcb u).mutex = _
    have hux : u ≠ x := by
      rintro rfl
      exact hls.notReady () u (by rw [Function.update_self]; exact hu) hx
    rw [hstate, hmutex, if_neg hux]
    split_ifs with huc
    · exact ⟨rfl, rfl⟩
    · apply h.suspended u
      rcases List.mem_append.mp hu with hu | hu
      · exact hu
      · exact absurd (List.mem_singleton.mp hu) huc
  · by_cases hu : u = s.k.curr
    · exact Or.inr (Or.inl ⟨_, hu ▸ hself⟩)
    · rw [hother u hu, hwaits u hu, hm]
      rcases h.awake u with he | he | he
      · exact Or.inl he
      · exact Or.inr (Or.inl he)
      · exact Or.inr (Or.inr ⟨hu, he⟩)
  · show (k'.mutexes m).lock = _ ∧ (k'.mutexes m).owner = _
    rw [hmut]
    exact h.holder u ((hholds u).mp hu)
  · refine ⟨o, ?_, (hholds o).mpr hho⟩
    show (k'.mutexes m).owner = _
    rw [hmut]
    exact ho
  · change (k'.mutexes m).lock = _ at hu
    rw [hmut] at hu
    exact absurd (hl.symm.trans hu) (by simp)
  · have huc : u ≠ s.k.curr := by
      rintro rfl
      rw [hself] at hu
      cases hu
    rw [hother u huc] at hu
    show b = true ∧ (k'.mutexes m).owner ≠ _
    rw [hmut]
    exact h.expired u b hu
  · exact armed_lock h hp h1 hactive htimers htimer hself hother htm'
  · show k'.active.Nodup
    rw [hactive]
    exact armedFor_active_nodup _ _ h1 htm h.active

/-! ### A task is woken -/

/-- Exactly the task `t` becomes ready. -/
theorem wake_eq {k' : Kernel n} {t : Fin n} (f : Phase → Phase) (hnd : s.arrivals.Nodup)
    (hst : ∀ u, (k'.tcb u).state = if u = t then .ready else (s.k.tcb u).state)
    (ht : (s.k.tcb t).state = .suspend) :
    s.wake f k' = ⟨k', Function.update s.phase t (f (s.phase t)), s.arrivals.erase t⟩ := by
  have hw := woken_eq hst ht
  unfold wake
  congr 1
  · funext u
    rw [hw]
    by_cases hu : u = t
    · subst hu; simp
    · simp [hu]
  · rw [hnd.erase_eq_filter]
    apply List.filter_congr
    intro u _
    rw [hw]
    by_cases hu : u = t <;> simp [hu]

/-- Nobody becomes ready. -/
theorem wake_none {k' : Kernel n} (f : Phase → Phase) (hst : ∀ u, (k'.tcb u).state = (s.k.tcb u).state) :
    s.wake f k' = { s with k := k' } := by
  have hw : ∀ u, woken s.k k' u = false := fun u => woken_eq_false (hst u)
  unfold wake
  simp only [hw, Bool.not_false, List.filter_true]
  rfl

/-- The holder unlocks and nobody waits: the mutex is free. -/
theorem unlock_release (h : Inv m s lr) (hp : s.phase s.k.curr = .inside) {k' : Kernel n} {lr' : List (Fin n)}
    (hport : k'.port = {}) (hnil : s.arrivals = []) (hm : ∀ u, u ∈ lr' ↔ u ∈ lr)
    (hls : Lists (released s.k m) k' lr' (fun _ : Unit => (s.k.mutexes m).task) (fun _ => s.arrivals)) :
    Inv m ((s.setPhase .out).wake .grant k') lr' ∧ ((s.setPhase .out).wake .grant k').arrivals = [] ∧
      ∀ t, ¬ ((s.setPhase .out).wake .grant k').Holds t := by
  have hst : ∀ u, (k'.tcb u).state = (s.k.tcb u).state := fun u => by rw [hls.data.state, released_state]
  have hmut : k'.mutexes m = { s.k.mutexes m with lock := .unlocked } := by
    rw [hls.data.mutexes, released_mutexes]
  have hactive : k'.active = s.k.active := by rw [hls.data.active]; rfl
  have hnw : ∀ t, ¬ s.Waits t := by
    intro t ht
    have := (h.waits t).mpr ht
    rw [hnil] at this
    cases this
  rw [wake_none (s := s.setPhase .out) _ hst]
  set s' : MutexSys n := { s.setPhase .out with k := k' } with hs'
  have hself : s'.phase s.k.curr = .out := by simp [hs', setPhase]
  have hother : ∀ t, t ≠ s.k.curr → s'.phase t = s.phase t := fun t ht => phase_setPhase ht
  have hnh : ∀ t, ¬ s'.Holds t := by
    intro t ht
    by_cases htc : t = s.k.curr
    · exact not_holds_of_out (htc ▸ hself) ht
    · have h1 := (h.holder t ((holds_congr (hother t htc)).mp ht)).2
      have h2 := (h.holder _ (Or.inl hp)).2
      exact htc (Option.some.inj (h1.symm.trans h2))
  have hnw' : ∀ t, ¬ s'.Waits t := by
    intro t ht
    by_cases htc : t = s.k.curr
    · obtain ⟨b, hb⟩ := ht
      rw [htc, hself] at hb
      cases hb
    · exact hnw t ((waits_congr (hother t htc)).mp ht)
  refine ⟨⟨?_, hport, fun u => ?_, ?_, fun u => ?_, fun u hu => ?_, fun u => ?_, fun u hu => absurd hu (hnh u),
    fun hl => ?_, fun _ => hnil, fun u b hu => ?_, fun tm htm => ?_, ?_⟩, hnil, hnh⟩
  · apply hls.self.congr_heads
    intro _
    show (k'.mutexes m).task = _
    rw [hmut]
  · rw [hm, h.ready, ← hst]
  · show k'.curr ∈ lr'
    rw [hls.data.curr, hm]
    exact h.curr
  · refine iff_of_false ?_ (hnw' u)
    show u ∉ s.arrivals
    simp [hnil]
  · change u ∈ s.arrivals at hu
    rw [hnil] at hu
    cases hu
  · by_cases hu : u = s.k.curr
    · exact Or.inl (hu ▸ hself)
    · rw [hother u hu, hm]
      rcases h.awake u with he | he | he
      · exact Or.inl he
      · exact absurd he (hnw u)
      · exact Or.inr (Or.inr he)
  · change (k'.mutexes m).lock = _ at hl
    rw [hmut] at hl
    cases hl
  · have hne : u ≠ s.k.curr := by
      rintro rfl
      rw [hself] at hu
      cases hu
    show b = true ∧ (k'.mutexes m).owner ≠ _
    rw [hmut]
    exact h.expired u b ((hother u hne).symm.trans hu)
  · change tm ∈ k'.active at htm
    rw [hactive] at htm
    obtain ⟨-, -, u, -, -, hph⟩ := h.armed tm htm
    exact absurd ⟨true, hph⟩ (hnw u)
  · show k'.active.Nodup
    rw [hactive]
    exact h.active

/-- The waiting task `t` is taken off the chain; the phases of the others stay,
but one that does not wait may leave. The mutex stays locked. -/
theorem Inv.leave (h : Inv m s lr) {t : Fin n} (ht : t ∈ s.arrivals) {k' : Kernel n} {ph : Fin n → Phase}
    {lr' : List (Fin n)}
    (hl : Lists k' k' lr' (fun _ : Unit => (k'.mutexes m).task) (fun _ => s.arrivals.erase t)) (hport : k'.port = {})
    (hm : ∀ u, u ∈ lr' ↔ u = t ∨ u ∈ lr) (hcurr : k'.curr = s.k.curr)
    (hst : ∀ u, (k'.tcb u).state = if u = t then .ready else (s.k.tcb u).state)
    (hmutex : ∀ u, u ≠ t → (k'.tcb u).mutex = (s.k.tcb u).mutex)
    (htimer : ∀ u, u ≠ t → (k'.tcb u).timer = (s.k.tcb u).timer)
    (htimers : ∀ tm ∈ k'.active, tm ∈ s.k.active ∧ k'.timers tm = s.k.timers tm ∧ (s.k.tcb t).timer ≠ some tm)
    (hactive : k'.active.Nodup) (hpt : ∀ b, ph t ≠ .waiting b)
    (hother : ∀ u, u ≠ t → ph u = s.phase u ∨ ph u = .out ∧ ¬ s.Waits u)
    (hlocked : (k'.mutexes m).lock = .locked)
    (hholder : ∀ u, MutexSys.Holds ⟨k', ph, s.arrivals.erase t⟩ u ↔ (k'.mutexes m).owner = some u)
    (howned : ∃ o, (k'.mutexes m).owner = some o)
    (hexpired : ∀ u b, ph u = .expired b → b = true ∧ (k'.mutexes m).owner ≠ some u) :
    Inv m ⟨k', ph, s.arrivals.erase t⟩ lr' := by
  set s' : MutexSys n := ⟨k', ph, s.arrivals.erase t⟩ with hs'
  have hmem : ∀ u, u ∈ s.arrivals.erase t ↔ u ≠ t ∧ u ∈ s.arrivals := fun u => (h.lists.wait ()).nodup.mem_erase_iff
  have hwaits : ∀ u, s'.Waits u ↔ u ≠ t ∧ s.Waits u := by
    intro u
    by_cases hu : u = t
    · subst hu
      exact iff_of_false (fun ⟨b, hb⟩ => hpt b hb) fun hw => hw.1 rfl
    · rcases hother u hu with hp | ⟨hp, hnw⟩
      · have hc : s'.Waits u ↔ s.Waits u := waits_congr hp
        rw [hc]
        simp [hu]
      · refine iff_of_false ?_ fun hw => hnw hw.2
        rintro ⟨b, hb⟩
        rw [hs'] at hb
        exact absurd (hp.symm.trans hb) (by simp)
  refine ⟨hl, hport, fun u => ?_, ?_, fun u => ?_, fun u hu => ?_, fun u => ?_, fun u hu => ⟨hlocked, (hholder u).mp hu⟩,
    fun _ => ?_, fun hu => ?_, hexpired, fun tm htm => ?_, hactive⟩
  · exact mem_ready_of_woken h.ready hm hst u
  · show k'.curr ∈ lr'
    rw [hcurr, hm]
    exact Or.inr h.curr
  · show u ∈ s.arrivals.erase t ↔ _
    rw [hmem, hwaits, h.waits]
  · obtain ⟨hut, hu⟩ := (hmem u).mp hu
    show (k'.tcb u).state = _ ∧ (k'.tcb u).mutex = _
    rw [hst, hmutex u hut, if_neg hut]
    exact h.suspended u hu
  · by_cases hut : u = t
    · exact Or.inr (Or.inr ((hm u).mpr (Or.inl hut)))
    · rcases hother u hut with hp | ⟨hp, -⟩
      · rw [hwaits, hm]
        show ph u = .out ∨ _
        rw [hp]
        rcases h.awake u with he | he | he
        · exact Or.inl he
        · exact Or.inr (Or.inl ⟨hut, he⟩)
        · exact Or.inr (Or.inr (Or.inr he))
      · exact Or.inl hp
  · obtain ⟨o, ho⟩ := howned
    exact ⟨o, ho, (hholder o).mpr ho⟩
  · exact absurd (hlocked.symm.trans hu) (by simp)
  · obtain ⟨hmem', htm', hne⟩ := htimers tm htm
    obtain ⟨hen, hhd, u, hpr, htu, hph⟩ := h.armed tm hmem'
    have hut : u ≠ t := by
      rintro rfl
      exact hne htu
    show (k'.timers tm).enabled = true ∧ (k'.timers tm).handler = _ ∧
      ∃ u, (k'.timers tm).priv = some u ∧ (k'.tcb u).timer = _ ∧ ph u = _
    rw [htm']
    refine ⟨hen, hhd, u, hpr, (htimer u hut).trans htu, ?_⟩
    rcases hother u hut with hp | ⟨-, hnw⟩
    · exact hp.trans hph
    · exact absurd ⟨true, hph⟩ hnw

/-- The holder unlocks and `t` is the first to wait: it holds the mutex. -/
theorem unlock_grant (h : Inv m s lr) (hp : s.phase s.k.curr = .inside) {k' : Kernel n} {lr' l : List (Fin n)}
    {t : Fin n} (hport : k'.port = {}) (harr : s.arrivals = t :: l) (hm : ∀ u, u ∈ lr' ↔ u = t ∨ u ∈ lr)
    (hls : Lists (granted (released s.k m) m t l) k' lr'
      (Function.update (fun _ : Unit => (s.k.mutexes m).task) () l.head?)
      (Function.update (fun _ : Unit => s.arrivals) () l)) :
    Inv m ((s.setPhase .out).wake .grant k') lr' ∧ ((s.setPhase .out).wake .grant k').arrivals = l ∧
      ∀ u, ((s.setPhase .out).wake .grant k').Holds u ↔ u = t := by
  have hnd : s.arrivals.Nodup := (h.lists.wait ()).nodup
  have htarr : t ∈ s.arrivals := by rw [harr]; exact List.mem_cons_self
  obtain ⟨bt, hbt⟩ := (h.waits t).mp htarr
  have htc : t ≠ s.k.curr := fun he => h.lists.notReady () t htarr (he ▸ h.curr)
  have hst : ∀ u, (k'.tcb u).state = if u = t then .ready else (s.k.tcb u).state := by
    intro u
    rw [hls.data.state, granted_state, released_state]
  have hmut : k'.mutexes m = { lock := .locked, owner := some t, task := l.head? } := by
    rw [hls.data.mutexes, granted_mutexes]
  have herase : s.arrivals.erase t = l := by rw [harr, List.erase_cons_head]
  rw [wake_eq (s := s.setPhase .out) _ hnd hst (h.suspended t htarr).1]
  set ph := Function.update (s.setPhase .out).phase t (Phase.grant ((s.setPhase .out).phase t)) with hph
  have hself : ph t = .granted bt := by
    simp only [hph, Function.update_self, phase_setPhase htc, hbt]
    rfl
  have hcur : ph s.k.curr = .out := by
    simp [hph, Function.update_of_ne (Ne.symm htc), setPhase]
  have hother : ∀ u, u ≠ t → u ≠ s.k.curr → ph u = s.phase u := by
    intro u hu huc
    simp only [hph, Function.update_of_ne hu, phase_setPhase huc]
  have hholds : ∀ u, MutexSys.Holds ⟨k', ph, s.arrivals.erase t⟩ u ↔ u = t := by
    intro u
    by_cases hu : u = t
    · subst hu
      exact iff_of_true (Or.inr ⟨bt, hself⟩) rfl
    · refine iff_of_false (fun hh => ?_) hu
      by_cases huc : u = s.k.curr
      · exact not_holds_of_out (huc ▸ hcur) hh
      · have hs : s.Holds u := (holds_congr (hother u hu huc)).mp hh
        exact huc (Option.some.inj ((h.holder u hs).2.symm.trans (h.holder _ (Or.inl hp)).2))
  refine ⟨h.leave htarr ?_ hport hm ?_ hst (fun u hu => ?_) (fun u hu => ?_) (fun tm htm => ?_) ?_ (fun b hb => ?_)
    (fun u hu => ?_) ?_ (fun u => ?_) ⟨t, by rw [hmut]⟩ (fun u b hu => ?_), herase, hholds⟩
  · rw [herase]
    exact hls.single (by rw [hmut])
  · rw [hls.data.curr, granted_curr]
    rfl
  · rw [hls.data.mutex, granted_mutex, released_mutex, if_neg hu]
  · rw [hls.data.timer, granted_timer, released_timer, if_neg hu]
  · rw [hls.data.active] at htm
    obtain ⟨hmem, hne, htmr⟩ := mem_active_granted m l (e := released s.k m) h.active
      (fun tm htm => (h.armed tm htm).1) htm
    rw [hls.data.timers, htmr]
    rw [released_timer] at hne
    exact ⟨hmem, rfl, hne⟩
  · rw [hls.data.active]
    exact granted_active_nodup _ _ _ _ h.active
  · rw [hself] at hb
    cases hb
  · by_cases huc : u = s.k.curr
    · subst huc
      refine Or.inr ⟨hcur, ?_⟩
      rintro ⟨b, hb⟩
      rw [hp] at hb
      cases hb
    · exact Or.inl (hother u hu huc)
  · rw [hmut]
  · rw [hholds, hmut]
    exact ⟨fun hu => congrArg some hu.symm, fun hu => (Option.some.inj hu).symm⟩
  · have hut : u ≠ t := by
      rintro rfl
      rw [hself] at hu
      cases hu
    have huc : u ≠ s.k.curr := by
      rintro rfl
      rw [hcur] at hu
      cases hu
    rw [hmut]
    exact ⟨(h.expired u b ((hother u hut huc).symm.trans hu)).1, fun he => hut (Option.some.inj he).symm⟩

/-- The holder unlocks: the first of the arrivals, if any, holds the mutex
now and has left the chain. -/
theorem unlock_holder (h : Inv m s lr) (hp : s.phase s.k.curr = .inside) :
    ∃ s' lr', s.exec m .unlock = .ok (some .osOk, s') ∧ Inv m s' lr' ∧ s'.arrivals = s.arrivals.tail ∧
      ∀ t, s'.Holds t ↔ s.arrivals.head? = some t := by
  obtain ⟨hl, ho⟩ := h.holder _ (Or.inl hp)
  obtain ⟨k', lr', hrun, hport, hcase⟩ := rxMutexUnlock_owner (i := ()) h.lists rfl hl ho h.curr
    ((h.ready _).mp h.curr)
  have hexec : s.exec m .unlock = .ok (some .osOk, (s.setPhase .out).wake .grant k') := by
    simp only [exec, hrun, bind, Except.bind, pure, Except.pure]
  rcases hcase with ⟨hnil, hls, hm⟩ | ⟨t, l, harr, hm, hls⟩
  · have hnil : s.arrivals = [] := hnil
    obtain ⟨hinv, harr, hnh⟩ := unlock_release h hp hport hnil hm hls
    refine ⟨_, lr', hexec, hinv, by rw [harr, hnil]; rfl, fun t => ?_⟩
    rw [hnil]
    exact iff_of_false (hnh t) (by simp)
  · have harr : s.arrivals = t :: l := harr
    obtain ⟨hinv, harr', hh⟩ := unlock_grant h hp hport harr hm hls
    refine ⟨_, lr', hexec, hinv, by rw [harr', harr]; rfl, fun u => ?_⟩
    rw [hh, harr, List.head?_cons, Option.some.injEq]
    exact eq_comm

/-- A timer expires: its task is waiting and leaves the chain, alone. -/
theorem expire_spec (h : Inv m s lr) {tm : ℕ} (htm : tm ∈ s.k.active) :
    ∃ t s' lr', (s.k.timers tm).priv = some t ∧ s.Waits t ∧ s.exec m (.expire tm) = .ok (none, s') ∧
      Inv m s' lr' ∧ s'.arrivals = s.arrivals.erase t ∧ s'.phase = Function.update s.phase t (.expired true) := by
  obtain ⟨-, hhd, t, hpr, htt, hph⟩ := h.armed tm htm
  have hnd : s.arrivals.Nodup := (h.lists.wait ()).nodup
  have htarr : t ∈ s.arrivals := (h.waits t).mpr ⟨true, hph⟩
  have htr : t ∉ lr := h.lists.notReady () t htarr
  have htc : t ≠ s.k.curr := fun he => htr (he ▸ h.curr)
  obtain ⟨hlock, o, ho, hho, hor⟩ := h.holder_of_mem htarr
  have hot : o ≠ t := fun he => htr (he ▸ hor)
  -- the timer thread takes the timer off the list and calls the handler
  set k1 := s.k.enterCritical.disarm tm with hk1
  have hl1 : Lists (s.k.disarm tm) k1 lr (fun _ : Unit => (s.k.mutexes m).task) (fun _ => s.arrivals) :=
    h.lists.enter.disarm tm
  obtain ⟨k2, lr', hrun, hm, hls⟩ := rxMutexHandler_spec (m := m) (i := ()) hl1 rfl htarr (h.suspended t htarr).2 ho hor
  set l := s.arrivals.erase t with hl
  set p := prioWithout (s.k.disarm tm) t o l with hpr'
  have hst : ∀ u, (k2.exitCritical.tcb u).state = if u = t then .ready else (s.k.tcb u).state := by
    intro u
    show (k2.tcb u).state = _
    rw [hls.data.state, timedOut_state]
    rfl
  have hmut : k2.exitCritical.mutexes m = { s.k.mutexes m with task := l.head? } := by
    show k2.mutexes m = _
    rw [hls.data.mutexes, timedOut_mutexes]
    rfl
  have hactive : k2.exitCritical.active = s.k.active.erase tm := by
    show k2.active = _
    rw [hls.data.active]
    rfl
  have htimers : ∀ tm', tm' ≠ tm → k2.exitCritical.timers tm' = s.k.timers tm' := by
    intro tm' hne
    show k2.timers tm' = _
    rw [hls.data.timers]
    show Function.update s.k.timers tm _ tm' = _
    rw [Function.update_of_ne hne]
  have hexec : s.exec m (.expire tm) = .ok (none, s.wake .expire k2.exitCritical) := by
    simp only [exec, expireMutexTimer_eq hhd hpr, ← hk1, hrun, bind, Except.bind, pure, Except.pure]
  rw [wake_eq _ hnd hst (h.suspended t htarr).1, hph] at hexec
  set ph := Function.update s.phase t (Phase.expire (.waiting true)) with hphd
  have hself : ph t = .expired true := by
    simp only [hphd, Function.update_self]
    rfl
  have hother : ∀ u, u ≠ t → ph u = s.phase u := by
    intro u hu
    simp only [hphd, Function.update_of_ne hu]
  have hholds : ∀ u, MutexSys.Holds ⟨k2.exitCritical, ph, l⟩ u ↔ s.Holds u := by
    intro u
    by_cases hu : u = t
    · subst hu
      refine iff_of_false ?_ ?_
      · rintro (h2 | ⟨b, h2⟩) <;> cases hself.symm.trans h2
      · rintro (h2 | ⟨b, h2⟩) <;> cases hph.symm.trans h2
    · exact holds_congr (hother u hu)
  have howner : (k2.exitCritical.mutexes m).owner = some o := by rw [hmut]; exact ho
  refine ⟨t, _, lr', hpr, ⟨true, hph⟩, hexec, ?_, rfl, rfl⟩
  refine h.leave htarr (hls.exit.single (by rw [hmut])) hls.port.exit hm ?_ hst (fun u hu => ?_) (fun u hu => ?_)
    (fun tm' htm' => ?_) ?_ (fun b hb => ?_) (fun u hu => Or.inl (hother u hu)) ?_ (fun u => ?_) ⟨o, howner⟩
    (fun u b hu => ?_)
  · show k2.curr = _
    rw [hls.data.curr]
    rfl
  · show (k2.tcb u).mutex = _
    rw [hls.data.mutex, timedOut_mutex, if_neg hu]
    rfl
  · show (k2.tcb u).timer = _
    rw [hls.data.timer, timedOut_timer, if_neg hu]
    rfl
  · rw [hactive] at htm'
    obtain ⟨hne, hmem⟩ := h.active.mem_erase_iff.mp htm'
    exact ⟨hmem, htimers tm' hne, fun he => hne (Option.some.inj (he.symm.trans htt))⟩
  · rw [hactive]
    exact h.active.erase _
  · rw [hself] at hb
    cases hb
  · rw [hmut]
    exact hlock
  · rw [hholds, howner]
    refine ⟨fun hu => ho.symm.trans (h.holder u hu).2, fun hu => ?_⟩
    rw [← Option.some.inj hu]
    exact hho
  · rw [howner]
    by_cases hut : u = t
    · subst hut
      rw [hself] at hu
      cases hu
      exact ⟨rfl, fun he => hot (Option.some.inj he)⟩
    · rw [← ho]
      exact h.expired u b ((hother u hut).symm.trans hu)

end Calls

/-! ### Whole runs -/

section Run

variable {m : ℕ} {s : MutexSys n} {lr : List (Fin n)}

/-- Every admissible call returns, or blocks, and keeps the invariant. -/
theorem exec_inv (h : Inv m s lr) {c : MutexCall n} (ha : s.Admissible c) :
    ∃ r s' lr', s.exec m c = .ok (r, s') ∧ Inv m s' lr' := by
  cases c with
  | lock timeout tm =>
    obtain ⟨hp, h1, htm⟩ := ha
    cases hl : (s.k.mutexes m).lock with
    | unlocked =>
      obtain ⟨s', he, hi⟩ := lock_free h hp hl timeout tm
      exact ⟨_, s', lr, he, hi⟩
    | locked =>
      by_cases h0 : timeout = osNoWait
      · subst h0
        exact ⟨_, s, lr, lock_noWait h hl tm, h⟩
      · obtain ⟨s', lr', he, hi⟩ := lock_blocks h hp hl h0 h1 htm
        exact ⟨_, s', lr', he, hi⟩
  | unlock =>
    rcases ha with hp | hp
    · obtain ⟨r, he⟩ := unlock_other h hp
      exact ⟨_, s, lr, he, h⟩
    · obtain ⟨s', lr', he, hi, -⟩ := unlock_holder h hp
      exact ⟨_, s', lr', he, hi⟩
  | expire tm =>
    obtain ⟨_, s', lr', -, -, he, hi, -⟩ := expire_spec h ha
    exact ⟨_, s', lr', he, hi⟩
  | ret =>
    rcases ha with ⟨b, hb⟩ | ⟨b, hb⟩
    · obtain ⟨he, hi⟩ := (ret_spec h).1 b hb
      exact ⟨_, _, lr, he, hi⟩
    · obtain ⟨he, hi⟩ := (ret_spec h).2 b hb
      exact ⟨_, _, lr, he, hi⟩
  | dispatch t p => exact ⟨_, _, lr, rfl, dispatch_spec h ha p⟩

theorem step_inv {s' : MutexSys n} {c : MutexCall n × Option OsErr} (h : ∃ lr, Inv m s lr)
    (hst : Step m s c s') : ∃ lr, Inv m s' lr := by
  obtain ⟨lr, h⟩ := h
  obtain ⟨r, s1, lr1, he, hi⟩ := exec_inv h hst.1
  obtain ⟨-, rfl⟩ := Prod.mk.inj (Except.ok.inj (he.symm.trans hst.2))
  exact ⟨lr1, hi⟩

/-- What is to be expected of a mutex in a state of a run, and of the next
step from it. -/
structure MutexOK (m : ℕ) (s : MutexSys n) : Prop where
  /-- At most one task holds the mutex, and it is the owner. -/
  unique : ∀ t u, s.Holds t → s.Holds u → t = u
  owner : ∀ t, s.Holds t → (s.k.mutexes m).owner = some t
  /-- The mutex is free only if the wait chain is empty. -/
  unlocked : (s.k.mutexes m).lock = .unlocked → (s.k.mutexes m).task = none
  /-- The wait chain is the list of the blocked lockers in arrival order. -/
  chain : Chain s.k.next (s.k.mutexes m).task s.arrivals
  waiting : ∀ t, t ∈ s.arrivals ↔ s.Waits t
  /-- No call faults or hangs. -/
  returns : ∀ c, s.Admissible c → ∃ r s', Step m s (c, r) s'
  /-- The holder's unlock returns `OS_OK` and hands over to the first of the
  arrivals, if there is one. -/
  unlock : ∀ r s', s.phase s.k.curr = .inside → Step m s (.unlock, r) s' →
    r = some .osOk ∧ s'.arrivals = s.arrivals.tail ∧ ∀ t, s'.Holds t ↔ s.arrivals.head? = some t
  /-- Another task's unlock changes nothing. -/
  unlockOther : ∀ r s', s.phase s.k.curr ≠ .inside → Step m s (.unlock, r) s' → s' = s
  /-- An expiry takes out its own task, which was waiting, and no other. -/
  expire : ∀ tm r s', Step m s (.expire tm, r) s' → ∃ t, (s.k.timers tm).priv = some t ∧ s.Waits t ∧
    s'.arrivals = s.arrivals.erase t ∧ s'.phase = Function.update s.phase t (.expired true)
  /-- An expired call returns `E_OS_TIMEOUT`, a granted one `OS_OK`. -/
  timeout : ∀ b r s', s.phase s.k.curr = .expired b → Step m s (.ret, r) s' → r = some .eOsTimeout
  granted : ∀ b r s', s.phase s.k.curr = .granted b → Step m s (.ret, r) s' → r = some .osOk

theorem Inv.mutexOK (h : Inv m s lr) : MutexOK m s := by
  refine ⟨fun t u ht hu => ?_, fun t ht => (h.holder t ht).2, fun hl => ?_, h.lists.wait (), h.waits,
    fun c hc => ?_, fun r s' hp hst => ?_, fun r s' hp hst => ?_, fun tm r s' hst => ?_,
    fun b r s' hp hst => ?_, fun b r s' hp hst => ?_⟩
  · exact Option.some.inj ((h.holder t ht).2.symm.trans (h.holder u hu).2)
  · have hc := h.lists.wait ()
    rw [h.unlocked hl] at hc
    exact hc
  · obtain ⟨r, s', _, he, -⟩ := exec_inv h hc
    exact ⟨r, s', hc, he⟩
  · obtain ⟨s1, _, he, -, harr, hh⟩ := unlock_holder h hp
    obtain ⟨rfl, rfl⟩ := Prod.mk.inj (Except.ok.inj (he.symm.trans hst.2))
    exact ⟨rfl, harr, hh⟩
  · obtain ⟨r1, he⟩ := unlock_other h (hst.1.resolve_right hp)
    obtain ⟨-, rfl⟩ := Prod.mk.inj (Except.ok.inj (he.symm.trans hst.2))
    rfl
  · obtain ⟨t, s1, _, hpr, hw, he, -, harr, hph⟩ := expire_spec h hst.1
    obtain ⟨-, rfl⟩ := Prod.mk.inj (Except.ok.inj (he.symm.trans hst.2))
    exact ⟨t, hpr, hw, harr, hph⟩
  · obtain ⟨he, -⟩ := (ret_spec h).2 b hp
    obtain ⟨hr, -⟩ := Prod.mk.inj (Except.ok.inj (he.symm.trans hst.2))
    exact hr.symm
  · obtain ⟨he, -⟩ := (ret_spec h).1 b hp
    obtain ⟨hr, -⟩ := Prod.mk.inj (Except.ok.inj (he.symm.trans hst.2))
    exact hr.symm

/-- **Mutual exclusion, first come first served, with timeouts.** Every state
of every run of one mutex is as `MutexOK` says. -/
theorem mutexOK_of_run (hi : Init m s) {tr : List ((MutexCall n × Option OsErr) × MutexSys n)}
    (h : Run.Exec (Step m) s tr) : ∀ x ∈ Run.states s tr, MutexOK m x := by
  intro x hx
  obtain ⟨lr, hinv⟩ := h.invariant (fun s => ∃ lr, Inv m s lr) (fun _ _ _ => step_inv) hi.inv x hx
  exact hinv.mutexOK

end Run

instance (s : MutexSys n) : ∀ c, Decidable (s.Admissible c)
  | .lock timeout tm => inferInstanceAs (Decidable (s.phase s.k.curr = .out ∧ timeout < 2 ^ 31 ∧ tm ∉ s.k.active))
  | .unlock => inferInstanceAs (Decidable (s.phase s.k.curr = .out ∨ s.phase s.k.curr = .inside))
  | .expire tm => inferInstanceAs (Decidable (tm ∈ s.k.active))
  | .ret => inferInstanceAs (Decidable ((∃ b, s.phase s.k.curr = .granted b) ∨ ∃ b, s.phase s.k.curr = .expired b))
  | .dispatch t _ => inferInstanceAs (Decidable ((s.k.tcb t).state.runnable = true))

/-- Three ready tasks at a new mutex; task 0 runs. -/
def threeTasks : MutexSys 3 where
  k := (rxCreateMutex (Kernel.allReady 2) 0).2
  phase := fun _ => .out
  arrivals := []

theorem threeTasks_init : Init 0 threeTasks where
  mutex := rfl
  ready := ⟨[0, 1, 2], by decide, by decide⟩
  curr := rfl
  port := rfl
  active := rfl
  phase := rfl
  arrivals := rfl

/-- Task 0 has the mutex; task 1 waits for it with a timeout, which expires,
task 2 without one, and gets it. -/
theorem mutexOK_contendedRun : Init 0 threeTasks ∧ ∃ tr, Run.Exec (Step 0) threeTasks tr ∧ tr.length = 12 ∧
    ∀ x ∈ Run.states threeTasks tr, MutexOK 0 x := by
  refine ⟨threeTasks_init, ?_⟩
  obtain ⟨tr, hex, hp⟩ := Run.exists_exec (f := Run.attempt Admissible (exec 0)) (fun _ _ _ => Run.step_of_attempt)
    (s := threeTasks)
    [(.lock osWaitForever 0, some .osOk), (.dispatch 1 true, none), (.lock 5 7, none), (.dispatch 2 true, none),
      (.lock osWaitForever 8, none), (.expire 7, none), (.dispatch 0 false, none), (.unlock, some .osOk),
      (.dispatch 1 false, none), (.ret, some .eOsTimeout), (.dispatch 2 false, none), (.ret, some .osOk)]
    (fun tr => decide (tr.length = 12)) (by decide)
  exact ⟨tr, hex, of_decide_eq_true hp, mutexOK_of_run threeTasks_init hex⟩

end MutexSys

end Rosx
