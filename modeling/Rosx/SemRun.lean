/-
# Runs of one semaphore

Any number of tasks share one semaphore of `val` permits. A step of a run is
a call of `rx_semaphore_wait` or `rx_semaphore_post` by the running task (it
posts only a permit it has), up to its return or to the point where it
blocks; a run of `__rx_sem_handler` by the timer thread; the return of a
blocked call; or the dispatch of any ready task. A post does not stop the
timer of the task it wakes, so the handler may run for any task that has
armed a timer so far, also after the wait that armed it has returned.

`Conserved` says that the count, the permits held and the tasks on the wait
chain add up to `val`. Two steps break it: a post that nobody waits for,
which is lost, and the `OS_OK` return of a wait without timeout that an old
timer has ended. A run conserves the permits if and only if it has neither
(`permitsOK_iff_callsSafe`).
-/
import Rosx.Semaphore
import Rosx.Lib.Run
import Mathlib.Algebra.BigOperators.Fin

namespace Rosx

open Linked

variable {n : ℕ}

/-- Where a task is: outside, blocked in `rx_semaphore_wait` (with a timeout
or not), or woken there by a post or by the handler. -/
inductive SemPhase where
  | out
  | waiting (timed : Bool)
  | granted (timed : Bool)
  | expired (timed : Bool)
  deriving DecidableEq, Repr

namespace SemPhase

def timed : SemPhase → Bool
  | .waiting b | .granted b | .expired b => b
  | .out => false

def isGranted : SemPhase → Bool
  | .granted _ => true
  | _ => false

def grant : SemPhase → SemPhase
  | .waiting b => .granted b
  | p => p

def expire : SemPhase → SemPhase
  | .waiting b => .expired b
  | p => p

end SemPhase

/-- The kernel, where each task is, the permits each task holds, and the
tasks that have armed a timer. -/
structure SemSys (n : ℕ) where
  k : Kernel n
  phase : Fin n → SemPhase
  held : Fin n → ℕ
  armed : Fin n → Bool

/-- A step of a run. -/
inductive SemCall (n : ℕ) where
  | wait (timeout : ℤ) (tm : ℕ)
  | post
  | expire (tm : ℕ) (t : Fin n)
  | ret
  | dispatch (t : Fin n) (preempted : Bool)

/-- The step is a wait. -/
def SemCall.isWait : SemCall n → Bool
  | .wait _ _ => true
  | _ => false

/-- The step is a wait or a dispatch. -/
def SemCall.quiet : SemCall n → Bool
  | .wait _ _ | .dispatch _ _ => true
  | _ => false

namespace SemSys

/-- The kernel becomes `k'`; the tasks woken by it pass to the phase `f`. -/
def wake (s : SemSys n) (f : SemPhase → SemPhase) (k' : Kernel n) : SemSys n :=
  { s with k := k', phase := fun t => if woken s.k k' t then f (s.phase t) else s.phase t }

/-- The running task has one more permit. -/
def gain (s : SemSys n) : SemSys n := { s with held := Function.update s.held s.k.curr (s.held s.k.curr + 1) }

/-- The running task has one permit less. -/
def lose (s : SemSys n) : SemSys n := { s with held := Function.update s.held s.k.curr (s.held s.k.curr - 1) }

/-- The call of the running task becomes `p`. -/
def setPhase (s : SemSys n) (p : SemPhase) : SemSys n := { s with phase := Function.update s.phase s.k.curr p }

/-- What a step computes on semaphore `m`: the code a call returns, if it
returns, and the system it leaves. -/
def exec (m : ℕ) (s : SemSys n) : SemCall n → Res (Option OsErr × SemSys n)
  | .wait timeout tm => do
    let (r, k) ← rxSemaphoreWait s.k m timeout tm
    match r with
    | some .osOk => return (r, { s.gain with k := k })
    | some _ => return (r, { s with k := k })
    | none =>
      let armed := Function.update s.armed s.k.curr (s.armed s.k.curr || timeout > 0)
      return (r, { s.setPhase (.waiting (timeout > 0)) with k := k, armed := armed })
  | .post => do
    let (r, k) ← rxSemaphorePost s.k m
    return (some r, s.lose.wake .grant k)
  | .expire tm t => do
    let k ← rxSemHandler (s.k.enterCritical.disarm tm) t
    return (none, s.wake .expire k.exitCritical)
  | .ret =>
    let r := rxSemaphoreWaitRet s.k (s.phase s.k.curr).timed
    .ok (some r, if r = .osOk then (s.setPhase .out).gain else s.setPhase .out)
  | .dispatch t preempted => .ok (none, { s with k := s.k.dispatch t preempted })

/-- A task calls when it is not blocked, and posts a permit it holds; the
handler runs for a task that has armed a timer. -/
def Admissible (s : SemSys n) : SemCall n → Prop
  | .wait _ _ => s.phase s.k.curr = .out
  | .post => s.phase s.k.curr = .out ∧ 0 < s.held s.k.curr
  | .expire _ t => s.armed t = true
  | .ret => (∃ b, s.phase s.k.curr = .granted b) ∨ ∃ b, s.phase s.k.curr = .expired b
  | .dispatch t _ => (s.k.tcb t).state.runnable = true

/-- The step relation; its label has the code that was returned. -/
def Step (m : ℕ) (s : SemSys n) (c : SemCall n × Option OsErr) (s' : SemSys n) : Prop :=
  s.Admissible c.1 ∧ s.exec m c.1 = .ok (c.2, s')

/-- The permits of a task: those it holds, and one it was woken for. -/
def holding (s : SemSys n) (t : Fin n) : ℕ := s.held t + (s.phase t).isGranted.toNat

/-- All permits that are out. -/
def permits (s : SemSys n) : ℕ := ∑ t, s.holding t

/-- The count, the permits that are out and the tasks on the wait chain add
up to `val`. -/
def Conserved (m : ℕ) (val : ℤ) (s : SemSys n) : Prop :=
  ∃ l, Chain s.k.next (s.k.sems m).task l ∧ (s.k.sems m).currVal + s.permits + l.length = val

/-- The number of waits of a run. -/
def waits (tr : List ((SemCall n × Option OsErr) × SemSys n)) : ℕ := tr.countP fun c => c.1.1.isWait

/-- What is to be expected of the permits in a state of a run: they are
conserved, and once all are posted and nobody waits the count is `val` again
and the next `val` waits succeed without blocking, whoever makes them. -/
structure PermitsOK (m : ℕ) (val : ℤ) (s : SemSys n) : Prop where
  conserved : Conserved m val s
  restored : s.permits = 0 → (s.k.sems m).task = none → (s.k.sems m).currVal = val ∧
    ∀ tr, Run.Exec (Step m) s tr → (∀ c ∈ tr, c.1.1.quiet = true) → waits tr < val →
      ∀ timeout tm, (Run.final s tr).Admissible (.wait timeout tm) →
        ∃ s', Step m (Run.final s tr) (.wait timeout tm, some .osOk) s'

/-- The steps that conserve the permits. -/
def CallSafe (m : ℕ) (s : SemSys n) (c : SemCall n × Option OsErr) : Prop :=
  match c.1 with
  | .post => (s.k.sems m).task ≠ none
  | .ret => s.phase s.k.curr ≠ .expired false
  | _ => True

/-- A semaphore from `rx_create_semaphore`, no task at it; the ready queue
holds the tasks that are ready or running. -/
structure Init (m : ℕ) (val : ℤ) (s : SemSys n) : Prop where
  pos : 1 ≤ val
  sem : s.k.sems m = { initVal := val, currVal := val, task := none }
  ready : ∃ lr, Chain s.k.next s.k.readyHead lr ∧ ∀ t, t ∈ lr ↔ (s.k.tcb t).state.runnable = true
  curr : (s.k.tcb s.k.curr).state.runnable = true
  port : s.k.port = {}
  free : ∀ t, (s.k.tcb t).sem = none
  phase : s.phase = fun _ => .out
  held : s.held = fun _ => 0

/-! ### The invariant -/

/-- What holds of a task in each phase, with `arr` on the wait chain. -/
def At (m : ℕ) (k : Kernel n) (lr arr : List (Fin n)) (t : Fin n) : SemPhase → Prop
  | .out => t ∉ arr ∧ (k.tcb t).sem = none
  | .waiting b => t ∈ arr ∧ (k.tcb t).state = .suspend ∧ (k.tcb t).sem = some m ∧
      (b = true → (k.tcb t).timeout ≠ OsErr.eOsTimeout.code)
  | .granted b => t ∉ arr ∧ t ∈ lr ∧ (k.tcb t).sem = none ∧
      (b = true → (k.tcb t).timeout ≠ OsErr.eOsTimeout.code)
  | .expired b => t ∉ arr ∧ t ∈ lr ∧ (k.tcb t).sem = none ∧
      (b = true → (k.tcb t).timeout = OsErr.eOsTimeout.code)

structure Inv (m : ℕ) (val : ℤ) (s : SemSys n) (lr arr : List (Fin n)) : Prop where
  lists : Lists s.k s.k lr (fun _ : Unit => (s.k.sems m).task) (fun _ => arr)
  port : s.k.port = {}
  ready : ∀ t, t ∈ lr ↔ (s.k.tcb t).state.runnable = true
  curr : s.k.curr ∈ lr
  tasks : ∀ t, At m s.k lr arr t (s.phase t)
  conserved : (s.k.sems m).currVal + s.permits + arr.length = val

/-- A task whose own control block is not touched stays as it is. -/
theorem At.of_eq {m : ℕ} {k k' : Kernel n} {lr lr' arr arr' : List (Fin n)} {t : Fin n} {p : SemPhase}
    (h : At m k lr arr t p) (harr : t ∈ arr' ↔ t ∈ arr) (hlr : t ∈ lr → t ∈ lr')
    (hst : t ∈ arr → (k'.tcb t).state = (k.tcb t).state) (hsem : (k'.tcb t).sem = (k.tcb t).sem)
    (htim : (k'.tcb t).timeout = (k.tcb t).timeout) : At m k' lr' arr' t p := by
  cases p with
  | out => exact ⟨fun ht => h.1 (harr.mp ht), hsem.trans h.2⟩
  | waiting b => exact ⟨harr.mpr h.1, (hst h.1).trans h.2.1, hsem.trans h.2.2.1, fun hb => htim ▸ h.2.2.2 hb⟩
  | granted b => exact ⟨fun ht => h.1 (harr.mp ht), hlr h.2.1, hsem.trans h.2.2.1, fun hb => htim ▸ h.2.2.2 hb⟩
  | expired b =>
    exact ⟨fun ht => h.1 (harr.mp ht), hlr h.2.1, hsem.trans h.2.2.1, fun hb => htim.trans (h.2.2.2 hb)⟩

theorem At.mem_iff {m : ℕ} {k : Kernel n} {lr arr : List (Fin n)} {t : Fin n} {p : SemPhase}
    (h : At m k lr arr t p) : t ∈ arr ↔ ∃ b, p = .waiting b := by
  cases p with
  | out => exact iff_of_false h.1 (by simp)
  | waiting b => exact iff_of_true h.1 ⟨b, rfl⟩
  | granted b => exact iff_of_false h.1 (by simp)
  | expired b => exact iff_of_false h.1 (by simp)

/-- A sum over the tasks in which one summand changes. -/
theorem sum_of_ne {f f' : Fin n → ℕ} {t : Fin n} (h : ∀ u, u ≠ t → f' u = f u) :
    ∑ u, f' u + f t = ∑ u, f u + f' t := by
  have h1 := Finset.add_sum_erase Finset.univ f' (Finset.mem_univ t)
  have h2 := Finset.add_sum_erase Finset.univ f (Finset.mem_univ t)
  have h3 : ∑ u ∈ Finset.univ.erase t, f' u = ∑ u ∈ Finset.univ.erase t, f u :=
    Finset.sum_congr rfl fun u hu => h u (Finset.ne_of_mem_erase hu)
  omega

theorem Init.inv {m : ℕ} {val : ℤ} {s : SemSys n} (h : Init m val s) : ∃ lr, Inv m val s lr [] := by
  obtain ⟨lr, hc, hr⟩ := h.ready
  refine ⟨lr, ⟨Relinked.refl _, Or.inl h.port, hc, fun _ => ?_, ?_, ?_⟩, h.port, hr, (hr _).mpr h.curr, fun t => ?_, ?_⟩
  · rw [h.sem]
    rfl
  · simp
  · simp
  · rw [h.phase]
    exact ⟨by simp, h.free t⟩
  · simp [h.sem, permits, holding, h.phase, h.held, SemPhase.isGranted]

section Calls

variable {m : ℕ} {val : ℤ} {s : SemSys n} {lr arr : List (Fin n)}

/-! ### The permits -/

/-- The permits change by what those of one task change. -/
theorem permits_of_ne (s s' : SemSys n) (t : Fin n) (h : ∀ u, u ≠ t → s'.holding u = s.holding u) :
    s'.permits + s.holding t = s.permits + s'.holding t := sum_of_ne h

theorem permits_congr {s' : SemSys n} (h : ∀ u, s'.holding u = s.holding u) : s'.permits = s.permits :=
  Finset.sum_congr rfl fun u _ => h u

theorem permits_gain (s : SemSys n) : s.gain.permits = s.permits + 1 := by
  have h := permits_of_ne s s.gain s.k.curr fun u hu => by simp [holding, gain, hu]
  have hc : s.gain.holding s.k.curr = s.holding s.k.curr + 1 := by
    simp only [holding, gain, Function.update_self]
    omega
  omega

theorem permits_lose (hc : 0 < s.held s.k.curr) : s.lose.permits + 1 = s.permits := by
  have h := permits_of_ne s s.lose s.k.curr fun u hu => by simp [holding, lose, hu]
  have hc : s.lose.holding s.k.curr + 1 = s.holding s.k.curr := by
    simp only [holding, lose, Function.update_self]
    omega
  omega

/-- A task that is granted a permit has one more. -/
theorem permits_grant {s' : SemSys n} {t : Fin n} {b : Bool} (hheld : s'.held = s.held)
    (hphase : s'.phase = Function.update s.phase t (.granted b)) (ht : s.phase t = .waiting b) :
    s'.permits = s.permits + 1 := by
  have h := permits_of_ne s s' t fun u hu => by simp [holding, hheld, hphase, hu]
  have hs : s.holding t = s.held t := by simp [holding, ht, SemPhase.isGranted]
  have hs' : s'.holding t = s.held t + 1 := by simp [holding, hheld, hphase, SemPhase.isGranted]
  omega

/-- A task whose phase changes without a permit. -/
theorem permits_phase {s' : SemSys n} {t : Fin n} {p : SemPhase} (hheld : s'.held = s.held)
    (hphase : s'.phase = Function.update s.phase t p) (hp : p.isGranted = (s.phase t).isGranted) :
    s'.permits = s.permits := by
  apply permits_congr
  intro u
  by_cases hu : u = t
  · subst hu; simp [holding, hheld, hphase, hp]
  · simp [holding, hheld, hphase, hu]

/-- The waking of one task. -/
theorem wake_phase {f : SemPhase → SemPhase} {k' : Kernel n} {t : Fin n}
    (hst : ∀ u, (k'.tcb u).state = if u = t then .ready else (s.k.tcb u).state)
    (ht : (s.k.tcb t).state = .suspend) : (s.wake f k').phase = Function.update s.phase t (f (s.phase t)) := by
  funext u
  simp only [wake, woken_eq hst ht]
  by_cases hu : u = t
  · subst hu; simp
  · simp [hu]

theorem wake_idle {f : SemPhase → SemPhase} {k' : Kernel n}
    (hst : ∀ u, (k'.tcb u).state = (s.k.tcb u).state) : s.wake f k' = { s with k := k' } := by
  have hw : ∀ u, woken s.k k' u = false := fun u => woken_eq_false (hst u)
  unfold wake
  simp only [hw]
  rfl

/-! ### A wait -/

/-- A permit is taken. -/
theorem wait_takes (h : Inv m val s lr arr) (hv : (s.k.sems m).currVal > 0) (timeout : ℤ) (tm : ℕ) :
    ∃ s', s.exec m (.wait timeout tm) = .ok (some .osOk, s') ∧ Inv m val s' lr arr := by
  set k' := (s.k.enterCritical.setSem m { s.k.sems m with currVal := (s.k.sems m).currVal - 1 }).exitCritical with hk'
  have hsem : k'.sems m = { s.k.sems m with currVal := (s.k.sems m).currVal - 1 } := by
    show (s.k.enterCritical.setSem m _).sems m = _
    rw [Kernel.setSem_sems]
  refine ⟨{ s.gain with k := k' }, ?_, ?_, h.lists.port.enter.exit, h.ready, h.curr, fun t => ?_, ?_⟩
  · simp only [exec, rxSemaphoreWait_takes hv, ← hk', bind, Except.bind, pure, Except.pure]
  · have hl := (h.lists.enter.setSem m { s.k.sems m with currVal := (s.k.sems m).currVal - 1 }).exit.self
    apply hl.congr_heads
    intro _
    show (k'.sems m).task = _
    rw [hsem]
  · exact (h.tasks t).of_eq Iff.rfl id (fun _ => rfl) rfl rfl
  · have hp : ({ s.gain with k := k' } : SemSys n).permits = s.permits + 1 := permits_gain s
    have hc := h.conserved
    rw [hp]
    show (k'.sems m).currVal + _ + _ = _
    rw [hsem]
    push_cast
    omega

theorem wait_noWait (h : Inv m val s lr arr) (hv : (s.k.sems m).currVal ≤ 0) (tm : ℕ) :
    s.exec m (.wait osNoWait tm) = .ok (some .eOsUnavail, s) := by
  simp only [exec, rxSemaphoreWait_noWait hv, enter_exit h.port, bind, Except.bind, pure, Except.pure]

/-- No permit is there: the wait faults or blocks. -/
theorem wait_blocks (h : Inv m val s lr arr) (hp : s.phase s.k.curr = .out) (hv : (s.k.sems m).currVal ≤ 0)
    {timeout : ℤ} (h0 : timeout ≠ osNoWait) (tm : ℕ) :
    s.exec m (.wait timeout tm) = .error .null ∨
    ∃ s' lr', s.exec m (.wait timeout tm) = .ok (none, s') ∧ Inv m val s' lr' (arr ++ [s.k.curr]) := by
  have hca : s.k.curr ∉ arr := fun hm => h.lists.notReady () _ hm h.curr
  have hnd := h.lists.ready.nodup
  rcases rxSemaphoreWait_blocks (i := ()) h.lists rfl hv h.curr h0 tm with hrun | ⟨k', x, l', hx, hrun, hport, hls⟩
  · left
    simp only [exec, hrun, bind, Except.bind]
  right
  set e' := semArmed (semBlocked s.k m arr) timeout tm with he'
  have hxm : x ∈ lr.erase s.k.curr := by rw [hx]; simp
  have hxc : x ≠ s.k.curr := fun he => hnd.not_mem_erase (he ▸ hxm)
  have hxa : x ∉ arr ++ [s.k.curr] := fun hm =>
    hls.notReady () x (by rw [Function.update_self]; exact hm) hxm
  -- the control blocks after the call
  have hstate : ∀ u, (k'.tcb u).state =
      if u = x then .running else if u = s.k.curr then .suspend else (s.k.tcb u).state := by
    intro u
    rw [hls.data.state, Kernel.switchTo_state, he', semArmed_blocked_state]
  have hsem : ∀ u, (k'.tcb u).sem = if u = s.k.curr then some m else (s.k.tcb u).sem := by
    intro u
    rw [hls.data.sem, Kernel.switchTo_sem, he', semArmed_blocked_sem]
  have htim : ∀ u, (k'.tcb u).timeout =
      if u = s.k.curr then if timeout > 0 then rxTimerOn else rxTimerOff else (s.k.tcb u).timeout := by
    intro u
    rw [hls.data.timeout, Kernel.switchTo_timeout, he', semArmed_blocked_timeout]
  have hsems : k'.sems m = { s.k.sems m with
      currVal := (s.k.sems m).currVal - 1, task := (arr ++ [s.k.curr]).head? } := by
    rw [hls.data.sems]
    show e'.sems m = _
    rw [he', semArmed_sems]
    simp [semBlocked]
  set s' : SemSys n := ⟨k', (s.setPhase (.waiting (timeout > 0))).phase, s.held,
    Function.update s.armed s.k.curr (s.armed s.k.curr || timeout > 0)⟩ with hs'
  refine ⟨s', lr.erase s.k.curr, ?_, hls.single ?_, hport, fun u => ?_, ?_, fun u => ?_, ?_⟩
  · simp only [exec, hrun, bind, Except.bind, pure, Except.pure]
    rfl
  · show (k'.sems m).task = _
    rw [hsems]
  · exact mem_ready_of_suspended h.ready (fun _ => hnd.mem_erase_iff) hxm hstate u
  · show k'.curr ∈ _
    rw [hls.data.curr]
    exact hxm
  · by_cases hu : u = s.k.curr
    · subst hu
      have hph : s'.phase s.k.curr = .waiting (timeout > 0) := by simp [hs', setPhase]
      rw [hph]
      refine ⟨by simp, ?_, ?_, fun hb => ?_⟩
      · show (k'.tcb _).state = _
        rw [hstate, if_neg hxc.symm, if_pos rfl]
      · show (k'.tcb _).sem = _
        rw [hsem, if_pos rfl]
      · show (k'.tcb _).timeout ≠ _
        rw [htim, if_pos rfl, if_pos (of_decide_eq_true hb)]
        decide
    · have hph : s'.phase u = s.phase u := by simp [hs', setPhase, hu]
      rw [hph]
      refine (h.tasks u).of_eq (by simp [hu]) (fun hm => hnd.mem_erase_iff.mpr ⟨hu, hm⟩) (fun hm => ?_) ?_ ?_
      · show (k'.tcb u).state = _
        rw [hstate, if_neg, if_neg hu]
        rintro rfl
        exact hxa (by simp [hm])
      · show (k'.tcb u).sem = _
        rw [hsem, if_neg hu]
      · show (k'.tcb u).timeout = _
        rw [htim, if_neg hu]
  · have hperm : s'.permits = s.permits :=
      permits_phase (t := s.k.curr) (p := .waiting (timeout > 0)) rfl rfl (by rw [hp]; rfl)
    have hc := h.conserved
    rw [hperm]
    show (k'.sems m).currVal + _ + _ = _
    rw [hsems]
    simp only [List.length_append, List.length_singleton]
    push_cast
    omega

/-! ### A task is woken -/

/-- The waiting task `t` is taken off the chain and put on the ready queue; it
is in phase `p` now. -/
theorem Inv.wakes (h : Inv m val s lr arr) {t : Fin n} {p : SemPhase} {s' : SemSys n} {lr' : List (Fin n)}
    (hl : Lists s'.k s'.k lr' (fun _ : Unit => (s'.k.sems m).task) (fun _ => arr.erase t)) (hport : s'.k.port = {})
    (hm : ∀ u, u ∈ lr' ↔ u = t ∨ u ∈ lr) (hcurr : s'.k.curr = s.k.curr)
    (hst : ∀ u, (s'.k.tcb u).state = if u = t then .ready else (s.k.tcb u).state)
    (hsem : ∀ u, u ≠ t → (s'.k.tcb u).sem = (s.k.tcb u).sem)
    (htim : ∀ u, u ≠ t → (s'.k.tcb u).timeout = (s.k.tcb u).timeout)
    (hphase : s'.phase = Function.update s.phase t p) (hp : At m s'.k lr' (arr.erase t) t p)
    (hc : (s'.k.sems m).currVal + s'.permits + (arr.erase t).length = val) : Inv m val s' lr' (arr.erase t) := by
  refine ⟨hl, hport, mem_ready_of_woken h.ready hm hst, ?_, fun u => ?_, hc⟩
  · rw [hcurr, hm]
    exact Or.inr h.curr
  · rw [hphase]
    by_cases hu : u = t
    · subst hu
      rw [Function.update_self]
      exact hp
    · rw [Function.update_of_ne hu]
      apply (h.tasks u).of_eq (List.mem_erase_of_ne hu) (fun hr => (hm u).mpr (Or.inr hr)) _ (hsem u hu) (htim u hu)
      intro _
      rw [hst, if_neg hu]

/-! ### A post -/

/-- A post that finds a waiter passes its permit on. -/
theorem post_wakes (h : Inv m val s lr arr) (hh : 0 < s.held s.k.curr)
    (ht : (s.k.sems m).task ≠ none) :
    ∃ s' lr', s.exec m .post = .ok (some .osOk, s') ∧ Inv m val s' lr' arr.tail := by
  obtain ⟨t, l, rfl⟩ : ∃ t l, arr = t :: l := by
    have hc : Chain s.k.next (s.k.sems m).task arr := h.lists.wait ()
    cases arr with
    | nil => exact absurd hc ht
    | cons t l => exact ⟨t, l, rfl⟩
  obtain ⟨k', lr', hrun, hport, hm, hls⟩ := rxSemaphorePost_wakes (i := ()) h.lists rfl rfl
  obtain ⟨b, hb⟩ := (h.tasks t).mem_iff.mp (by simp)
  have hat := h.tasks t
  rw [hb] at hat
  have hnd : (t :: l).Nodup := (h.lists.wait ()).nodup
  have hstate : ∀ u, (k'.tcb u).state = if u = t then .ready else (s.k.tcb u).state := by
    intro u
    rw [hls.data.state, posted_state]
  have hsem : ∀ u, (k'.tcb u).sem = if u = t then none else (s.k.tcb u).sem := by
    intro u
    rw [hls.data.sem, posted_sem]
  have htim : ∀ u, (k'.tcb u).timeout = (s.k.tcb u).timeout := by
    intro u
    rw [hls.data.timeout, posted_timeout]
  have hsems : k'.sems m = { s.k.sems m with currVal := (s.k.sems m).currVal + 1, task := l.head? } := by
    rw [hls.data.sems]
    simp [posted]
  have hphase : (s.lose.wake .grant k').phase = Function.update s.phase t (.granted b) := by
    have hw : (s.lose.wake .grant k').phase = _ := wake_phase (s := s.lose) hstate hat.2.1
    rw [hw]
    simp [lose, hb, SemPhase.grant]
  have herase : (t :: l).erase t = l := List.erase_cons_head t l
  have hexec : s.exec m .post = .ok (some .osOk, s.lose.wake .grant k') := by
    simp only [exec, hrun, bind, Except.bind, pure, Except.pure]
  refine ⟨s.lose.wake .grant k', lr', hexec, ?_⟩
  rw [List.tail_cons, ← herase]
  refine h.wakes ?_ hport hm ?_ hstate (fun u hu => ?_) (fun u _ => htim u) hphase ?_ ?_
  · rw [herase]
    exact hls.single (by show (k'.sems m).task = _; rw [hsems])
  · exact hls.data.curr
  · show (k'.tcb u).sem = _
    rw [hsem, if_neg hu]
  · refine ⟨hnd.not_mem_erase, (hm t).mpr (Or.inl rfl), ?_, fun hb' => ?_⟩
    · show (k'.tcb t).sem = _
      rw [hsem, if_pos rfl]
    · show (k'.tcb t).timeout ≠ _
      rw [htim]
      exact hat.2.2.2 hb'
  · have h1 : (s.lose.wake .grant k').permits = s.lose.permits + 1 := permits_grant (b := b) rfl hphase hb
    have h2 := permits_lose hh
    have hc := h.conserved
    rw [herase]
    show (k'.sems m).currVal + _ + _ = _
    rw [hsems, h1]
    simp only [List.length_cons] at hc ⊢
    push_cast at hc ⊢
    omega

/-- A post that nobody waits for loses the permit. -/
theorem post_idle (h : Inv m val s lr arr) (ht : (s.k.sems m).task = none) :
    s.exec m .post = .ok (some .osOk, s.lose) := by
  have hw : s.lose.wake .grant s.k = s.lose := wake_idle fun _ => rfl
  simp only [exec, rxSemaphorePost_idle ht, enter_exit h.port, bind, Except.bind, pure, Except.pure, hw]

/-! ### The handler -/

theorem expire_spec (h : Inv m val s lr arr) (tm : ℕ) (t : Fin n) :
    ∃ s' lr' arr', s.exec m (.expire tm t) = .ok (none, s') ∧ Inv m val s' lr' arr' := by
  have hls0 := h.lists.enter.disarm tm
  have hdata : (s.k.enterCritical.disarm tm).tcb = s.k.tcb := rfl
  cases hts : (s.k.tcb t).sem with
  | none =>
    -- the task waits for nothing: only the timer changes
    set k' := (s.k.enterCritical.disarm tm).exitCritical with hk'
    have hw : s.wake .expire k' = { s with k := k' } := wake_idle fun _ => rfl
    refine ⟨{ s with k := k' }, lr, arr, ?_, ?_, hls0.port.exit, h.ready, h.curr, fun u => ?_, h.conserved⟩
    · have hts' : ((s.k.enterCritical.disarm tm).tcb t).sem = none := hts
      simp only [exec, rxSemHandler_idle hts', ← hk', hw, bind, Except.bind, pure, Except.pure]
    · exact hls0.exit.self.congr_heads fun _ => rfl
    · exact (h.tasks u).of_eq Iff.rfl id (fun _ => rfl) rfl rfl
  | some m' =>
    have hat := h.tasks t
    obtain ⟨b, hb, hta, hsus, rfl⟩ : ∃ b, s.phase t = .waiting b ∧ t ∈ arr ∧ (s.k.tcb t).state = .suspend ∧ m' = m := by
      cases hb : s.phase t with
      | out => rw [hb] at hat; rw [hat.2] at hts; cases hts
      | granted b => rw [hb] at hat; rw [hat.2.2.1] at hts; cases hts
      | expired b => rw [hb] at hat; rw [hat.2.2.1] at hts; cases hts
      | waiting b =>
        rw [hb] at hat
        exact ⟨b, rfl, hat.1, hat.2.1, Option.some.inj (hts.symm.trans hat.2.2.1)⟩
    obtain ⟨k1, lr', hrun, hm, hls⟩ := rxSemHandler_spec (i := ()) hls0 rfl hta hts
    set k' := k1.exitCritical with hk'
    have hls' := hls.exit
    rw [← hk'] at hls'
    have hnd : arr.Nodup := (h.lists.wait ()).nodup
    have hstate : ∀ u, (k'.tcb u).state = if u = t then .ready else (s.k.tcb u).state := by
      intro u
      rw [hls'.data.state, semExpired_state]
      rfl
    have hsem : ∀ u, (k'.tcb u).sem = if u = t then none else (s.k.tcb u).sem := by
      intro u
      rw [hls'.data.sem, semExpired_sem]
      rfl
    have htim : ∀ u, (k'.tcb u).timeout = if u = t then OsErr.eOsTimeout.code else (s.k.tcb u).timeout :=
      fun u => by
        rw [hls'.data.timeout, semExpired_timeout]
        rfl
    have hsems : k'.sems m' =
        { s.k.sems m' with currVal := (s.k.sems m').currVal + 1, task := (arr.erase t).head? } := by
      have hd : (s.k.disarm tm).sems = s.k.sems := rfl
      rw [hls'.data.sems]
      simp [semExpired, hd]
    have hphase : (s.wake .expire k').phase = Function.update s.phase t (.expired b) := by
      rw [wake_phase hstate hsus, hb]
      rfl
    refine ⟨s.wake .expire k', lr', arr.erase t, ?_, h.wakes (hls'.single ?_) hls.port.exit hm ?_ hstate
      (fun u hu => ?_) (fun u hu => ?_) hphase ?_ ?_⟩
    · simp only [exec, hrun, bind, Except.bind, pure, Except.pure, ← hk']
    · show (k'.sems m').task = _
      rw [hsems]
    · exact hls.data.curr
    · show (k'.tcb u).sem = _
      rw [hsem, if_neg hu]
    · show (k'.tcb u).timeout = _
      rw [htim, if_neg hu]
    · refine ⟨hnd.not_mem_erase, (hm t).mpr (Or.inl rfl), ?_, fun _ => ?_⟩
      · show (k'.tcb t).sem = _
        rw [hsem, if_pos rfl]
      · show (k'.tcb t).timeout = _
        rw [htim, if_pos rfl]
    · have hperm : (s.wake .expire k').permits = s.permits := permits_phase rfl hphase (by rw [hb]; rfl)
      have hc := h.conserved
      have hlen := List.length_erase_of_mem hta
      have hpos := List.length_pos_of_mem hta
      show (k'.sems m').currVal + _ + _ = _
      rw [hsems, hperm, hlen]
      dsimp only
      omega

/-! ### The return of a blocked wait -/

theorem holding_setPhase_ne {p : SemPhase} {u : Fin n} (hu : u ≠ s.k.curr) :
    (s.setPhase p).holding u = s.holding u := by
  simp [holding, setPhase, hu]

/-- The task leaves, with the permits it now holds. -/
theorem leave_inv (h : Inv m val s lr arr) {s' : SemSys n} (hk : s'.k = s.k)
    (hphase : s'.phase = Function.update s.phase s.k.curr .out) (hperm : s'.permits = s.permits)
    (hcurr : s.k.curr ∉ arr) (hsem : (s.k.tcb s.k.curr).sem = none) : Inv m val s' lr arr := by
  refine ⟨by rw [hk]; exact h.lists, by rw [hk]; exact h.port, by rw [hk]; exact h.ready, by rw [hk]; exact h.curr,
    fun u => ?_, by rw [hk, hperm]; exact h.conserved⟩
  rw [hk, hphase]
  by_cases hu : u = s.k.curr
  · subst hu
    rw [Function.update_self]
    exact ⟨hcurr, hsem⟩
  · rw [Function.update_of_ne hu]
    exact h.tasks u

theorem ret_granted (h : Inv m val s lr arr) {b : Bool} (hb : s.phase s.k.curr = .granted b) :
    ∃ s', s.exec m .ret = .ok (some .osOk, s') ∧ Inv m val s' lr arr := by
  have hat := h.tasks s.k.curr
  rw [hb] at hat
  obtain ⟨hca, -, hsem, htim⟩ := hat
  have hr : rxSemaphoreWaitRet s.k b = .osOk := by
    cases b with
    | false => rfl
    | true => simp [rxSemaphoreWaitRet, htim rfl]
  refine ⟨(s.setPhase .out).gain, ?_, leave_inv h rfl rfl ?_ hca hsem⟩
  · simp [exec, hb, SemPhase.timed, hr]
  · have h1 := permits_gain (s.setPhase .out)
    have h2 := permits_of_ne s (s.setPhase .out) s.k.curr fun u hu => holding_setPhase_ne hu
    have h3 : s.holding s.k.curr = s.held s.k.curr + 1 := by simp [holding, hb, SemPhase.isGranted]
    have h4 : (s.setPhase .out).holding s.k.curr = s.held s.k.curr := by
      simp [holding, setPhase, SemPhase.isGranted]
    omega

theorem ret_expired (h : Inv m val s lr arr) (hb : s.phase s.k.curr = .expired true) :
    ∃ s', s.exec m .ret = .ok (some .eOsTimeout, s') ∧ Inv m val s' lr arr := by
  have hat := h.tasks s.k.curr
  rw [hb] at hat
  obtain ⟨hca, -, hsem, htim⟩ := hat
  have hr : rxSemaphoreWaitRet s.k true = .eOsTimeout := by simp [rxSemaphoreWaitRet, htim rfl]
  refine ⟨s.setPhase .out, ?_, leave_inv h rfl rfl ?_ hca hsem⟩
  · simp [exec, hb, SemPhase.timed, hr]
  · exact permits_phase rfl rfl (by rw [hb]; rfl)

/-- A wait without timeout that a timer has ended returns `OS_OK`. -/
theorem ret_stale (hb : s.phase s.k.curr = .expired false) :
    s.exec m .ret = .ok (some .osOk, (s.setPhase .out).gain) := by
  simp [exec, hb, SemPhase.timed, rxSemaphoreWaitRet]

theorem dispatch_spec (h : Inv m val s lr arr) {t : Fin n} (ht : (s.k.tcb t).state.runnable = true) (p : Bool) :
    Inv m val { s with k := s.k.dispatch t p } lr arr := by
  set k' := s.k.dispatch t p with hk'
  have hsems : k'.sems = s.k.sems := by rw [hk', Kernel.dispatch_rest]
  have hport : k'.port = s.k.port := by rw [hk', Kernel.dispatch_rest]
  have hself : ∀ u, u ∉ lr → (k'.tcb u).state = (s.k.tcb u).state := fun u =>
    Kernel.dispatch_state_of_notMem u p h.ready h.curr ht
  refine ⟨?_, hport.trans h.port, fun u => ?_, (h.ready t).mpr ht, fun u => ?_, ?_⟩
  · apply (h.lists.dispatch t p).congr_heads
    intro _
    show (k'.sems m).task = _
    rw [hsems]
  · exact Kernel.dispatch_ready u p h.ready h.curr ht
  · refine (h.tasks u).of_eq Iff.rfl id (fun hu => hself u (h.lists.notReady () u hu)) ?_ ?_
    · rw [hk', Kernel.dispatch_tcb]
    · rw [hk', Kernel.dispatch_tcb]
  · have hc := h.conserved
    show (k'.sems m).currVal + _ + _ = _
    rw [hsems]
    exact hc

end Calls

/-! ### Whole runs -/

section Run

variable {m : ℕ} {val : ℤ} {s : SemSys n} {lr arr : List (Fin n)}

theorem step_inv {s' : SemSys n} {c : SemCall n × Option OsErr} (h : ∃ lr arr, Inv m val s lr arr)
    (hsafe : CallSafe m s c) (hst : Step m s c s') : ∃ lr arr, Inv m val s' lr arr := by
  obtain ⟨lr, arr, h⟩ := h
  obtain ⟨c, r⟩ := c
  obtain ⟨ha, he⟩ := hst
  -- the step is the one of the lemma about its call
  have hdet : ∀ {r1 : Option OsErr} {s1 : SemSys n}, s.exec m c = .ok (r1, s1) → s' = s1 := fun h1 =>
    (Prod.mk.inj (Except.ok.inj (he.symm.trans h1))).2
  cases c with
  | wait timeout tm =>
    by_cases hv : (s.k.sems m).currVal > 0
    · obtain ⟨s1, h1, hi⟩ := wait_takes h hv timeout tm
      exact hdet h1 ▸ ⟨_, _, hi⟩
    · by_cases h0 : timeout = osNoWait
      · subst h0
        exact hdet (wait_noWait h (by omega) tm) ▸ ⟨_, _, h⟩
      · rcases wait_blocks h ha (by omega) h0 tm with h1 | ⟨s1, lr', h1, hi⟩
        · cases he.symm.trans h1
        · exact hdet h1 ▸ ⟨_, _, hi⟩
  | post =>
    obtain ⟨s1, lr', h1, hi⟩ := post_wakes h ha.2 hsafe
    exact hdet h1 ▸ ⟨_, _, hi⟩
  | expire tm t =>
    obtain ⟨s1, lr', arr', h1, hi⟩ := expire_spec h tm t
    exact hdet h1 ▸ ⟨_, _, hi⟩
  | ret =>
    rcases ha with ⟨b, hb⟩ | ⟨b, hb⟩
    · obtain ⟨s1, h1, hi⟩ := ret_granted h hb
      exact hdet h1 ▸ ⟨_, _, hi⟩
    · cases b with
      | false => exact absurd hb hsafe
      | true =>
        obtain ⟨s1, h1, hi⟩ := ret_expired h hb
        exact hdet h1 ▸ ⟨_, _, hi⟩
  | dispatch t p => exact hdet rfl ▸ ⟨_, _, dispatch_spec h ha p⟩

/-- Any other step loses a permit or makes one up. -/
theorem step_unsafe {s' : SemSys n} {c : SemCall n × Option OsErr} (h : ∃ lr arr, Inv m val s lr arr)
    (hbreak : ¬ CallSafe m s c) (hst : Step m s c s') : ¬ Conserved m val s' := by
  obtain ⟨lr, arr, h⟩ := h
  obtain ⟨c, r⟩ := c
  obtain ⟨ha, he⟩ := hst
  have hchain : Chain s.k.next (s.k.sems m).task arr := h.lists.wait ()
  have hc := h.conserved
  rintro ⟨l, hl, hsum⟩
  cases c with
  | post =>
    have ht : (s.k.sems m).task = none := by
      by_contra hne
      exact hbreak hne
    obtain rfl : s' = s.lose := (Prod.mk.inj (Except.ok.inj (he.symm.trans (post_idle h ht)))).2
    have hlen : l.length = arr.length := by rw [Chain.unique hl hchain]
    have hp := permits_lose ha.2
    change (s.k.sems m).currVal + _ + _ = _ at hsum
    omega
  | ret =>
    have hb : s.phase s.k.curr = .expired false := by
      by_contra hne
      exact hbreak hne
    obtain rfl : s' = (s.setPhase .out).gain :=
      (Prod.mk.inj (Except.ok.inj (he.symm.trans (ret_stale hb)))).2
    have hlen : l.length = arr.length := by rw [Chain.unique hl hchain]
    have hp := permits_gain (s.setPhase .out)
    have hq : (s.setPhase .out).permits = s.permits := permits_phase rfl rfl (by rw [hb]; rfl)
    change (s.k.sems m).currVal + _ + _ = _ at hsum
    omega
  | wait timeout tm => exact hbreak trivial
  | expire tm t => exact hbreak trivial
  | dispatch t p => exact hbreak trivial

/-- With `val` permits left the next `val` waits succeed. -/
theorem waits_succeed {tr : List ((SemCall n × Option OsErr) × SemSys n)} (h : Run.Exec (Step m) s tr)
    (hinv : ∃ lr, Inv m val s lr arr) (hquiet : ∀ c ∈ tr, c.1.1.quiet = true)
    (hw : waits tr < (s.k.sems m).currVal) (timeout : ℤ) (tm : ℕ)
    (ha : (Run.final s tr).Admissible (.wait timeout tm)) :
    ∃ s', Step m (Run.final s tr) (.wait timeout tm, some .osOk) s' := by
  induction h with
  | nil s =>
    obtain ⟨lr, hinv⟩ := hinv
    obtain ⟨s', he, -⟩ := wait_takes hinv (by simpa [waits] using hw) timeout tm
    exact ⟨s', ha, he⟩
  | @cons s s1 c tr hst _ ih =>
    obtain ⟨lr, hinv⟩ := hinv
    obtain ⟨c, r⟩ := c
    have hq := hquiet _ List.mem_cons_self
    have hquiet' : ∀ c ∈ tr, c.1.1.quiet = true := fun c hc => hquiet c (List.mem_cons_of_mem _ hc)
    cases c with
    | wait timeout' tm' =>
      have hcount : waits (((.wait timeout' tm', r), s1) :: tr) = waits tr + 1 := by
        simp [waits, SemCall.isWait]
      have hv : (s.k.sems m).currVal > 0 := by omega
      obtain ⟨s2, he, hi⟩ := wait_takes hinv hv timeout' tm'
      have hrun : rxSemaphoreWait s.k m timeout' tm' = _ := rxSemaphoreWait_takes hv timeout' tm'
      obtain rfl : s1 = s2 := (Prod.mk.inj (Except.ok.inj (hst.2.symm.trans he))).2
      have hval : (s1.k.sems m).currVal = (s.k.sems m).currVal - 1 := by
        have hs1 := hst.2
        simp only [exec, hrun, bind, Except.bind, pure, Except.pure] at hs1
        obtain ⟨-, rfl⟩ := Prod.mk.inj (Except.ok.inj hs1)
        show ((s.k.enterCritical.setSem m _).sems m).currVal = _
        rw [Kernel.setSem_sems]
      exact ih ⟨lr, hi⟩ hquiet' (by omega) ha
    | dispatch t p =>
      have hcount : waits (((.dispatch t p, r), s1) :: tr) = waits tr := by simp [waits, SemCall.isWait]
      obtain ⟨-, rfl⟩ := Prod.mk.inj (Except.ok.inj hst.2)
      have hsems : (s.k.dispatch t p).sems = s.k.sems := by rw [Kernel.dispatch_rest]
      refine ih ⟨lr, dispatch_spec hinv hst.1 p⟩ hquiet' ?_ ha
      show _ < ((s.k.dispatch t p).sems m).currVal
      rw [hsems]
      omega
    | post => cases hq
    | expire tm t => cases hq
    | ret => cases hq

theorem Inv.permitsOK (h : ∃ lr arr, Inv m val s lr arr) : PermitsOK m val s := by
  obtain ⟨lr, arr, h⟩ := h
  have hchain : Chain s.k.next (s.k.sems m).task arr := h.lists.wait ()
  refine ⟨⟨arr, hchain, h.conserved⟩, fun hp ht => ?_⟩
  have harr : arr = [] := by
    rw [ht] at hchain
    exact Chain.unique hchain rfl
  have hval : (s.k.sems m).currVal = val := by
    have hc := h.conserved
    rw [hp, harr] at hc
    simpa using hc
  refine ⟨hval, fun tr htr hquiet hw timeout tm ha => ?_⟩
  exact waits_succeed htr ⟨lr, h⟩ hquiet (by rw [hval]; exact hw) timeout tm ha

/-- **Permit conservation.** The permits are conserved in every state of a
run, and `val` of them are there again once all are posted, if and only if
every post finds a waiter and no wait without timeout returns because a timer
has ended it. -/
theorem permitsOK_iff_callsSafe (hi : Init m val s) {tr : List ((SemCall n × Option OsErr) × SemSys n)}
    (h : Run.Exec (Step m) s tr) :
    (∀ x ∈ Run.states s tr, PermitsOK m val x) ↔ Run.Guarded (CallSafe m) s tr := by
  obtain ⟨lr, hinv⟩ := hi.inv
  exact (h.guarded_iff (fun s => ∃ lr arr, Inv m val s lr arr) (fun _ => Inv.permitsOK)
    (fun _ _ _ => step_inv) (fun _ _ _ hx hc hst hp => step_unsafe hx hc hst hp.conserved) ⟨lr, [], hinv⟩).symm

end Run

instance (s : SemSys n) : ∀ c, Decidable (s.Admissible c)
  | .wait _ _ => inferInstanceAs (Decidable (s.phase s.k.curr = .out))
  | .post => inferInstanceAs (Decidable (s.phase s.k.curr = .out ∧ 0 < s.held s.k.curr))
  | .expire _ t => inferInstanceAs (Decidable (s.armed t = true))
  | .ret => inferInstanceAs (Decidable ((∃ b, s.phase s.k.curr = .granted b) ∨ ∃ b, s.phase s.k.curr = .expired b))
  | .dispatch t _ => inferInstanceAs (Decidable ((s.k.tcb t).state.runnable = true))

instance (m : ℕ) (s : SemSys n) : ∀ c, Decidable (CallSafe m s c)
  | (.post, _) => inferInstanceAs (Decidable ((s.k.sems m).task ≠ none))
  | (.ret, _) => inferInstanceAs (Decidable (s.phase s.k.curr ≠ .expired false))
  | (.wait _ _, _) | (.expire _ _, _) | (.dispatch _ _, _) => inferInstanceAs (Decidable True)

/-- Three ready tasks at a new semaphore of one permit; task 0 runs. -/
def threeTasks : SemSys 3 where
  k := (rxCreateSemaphore (Kernel.allReady 2) 0 1).2
  phase := fun _ => .out
  held := fun _ => 0
  armed := fun _ => false

theorem threeTasks_init : Init 0 1 threeTasks where
  pos := by decide
  sem := rfl
  ready := ⟨[0, 1, 2], by decide, by decide⟩
  curr := rfl
  port := rfl
  free := by decide
  phase := rfl
  held := rfl

/-- Task 0 has the permit; task 1 waits for it without a timeout, task 2 with
one, which expires; task 0 posts, and task 1 has the permit. -/
theorem permitsOK_contendedRun : Init 0 1 threeTasks ∧ ∃ tr, Run.Exec (Step 0) threeTasks tr ∧ tr.length = 11 ∧
    ∀ x ∈ Run.states threeTasks tr, PermitsOK 0 1 x := by
  refine ⟨threeTasks_init, ?_⟩
  obtain ⟨tr, hex, hp⟩ := Run.exists_exec (f := Run.attempt Admissible (exec 0)) (fun _ _ _ => Run.step_of_attempt)
    (s := threeTasks)
    [(.wait osNoWait 0, some .osOk), (.dispatch 1 true, none), (.wait osWaitForever 7, none), (.dispatch 2 true, none),
      (.wait 5 8, none), (.expire 8 2, none), (.post, some .osOk), (.dispatch 2 false, none),
      (.ret, some .eOsTimeout), (.dispatch 1 false, none), (.ret, some .osOk)]
    (fun tr => decide (tr.length = 11 ∧ Run.Guarded (CallSafe 0) threeTasks tr)) (by decide +kernel)
  obtain ⟨hlen, hg⟩ := of_decide_eq_true hp
  exact ⟨tr, hex, hlen, (permitsOK_iff_callsSafe threeTasks_init hex).mpr hg⟩

/-- A wait and a post by the same task: the count stays 0, nobody has the
permit, and the next wait finds none. -/
theorem uncontended_post_loses_permit : Init 0 1 threeTasks ∧ ∃ tr, Run.Exec (Step 0) threeTasks tr ∧
    ((Run.final threeTasks tr).k.sems 0).currVal = 0 ∧ (Run.final threeTasks tr).permits = 0 ∧
    ((Run.final threeTasks tr).k.sems 0).task = none ∧ ¬ Conserved 0 1 (Run.final threeTasks tr) := by
  refine ⟨threeTasks_init, ?_⟩
  obtain ⟨tr, hex, hp⟩ := Run.exists_exec (f := Run.attempt Admissible (exec 0)) (fun _ _ _ => Run.step_of_attempt)
    (s := threeTasks)
    [(.wait osWaitForever 0, some .osOk), (.post, some .osOk)]
    (fun tr => decide (((Run.final threeTasks tr).k.sems 0).currVal = 0 ∧ (Run.final threeTasks tr).permits = 0 ∧
      ((Run.final threeTasks tr).k.sems 0).task = none)) (by decide +kernel)
  obtain ⟨hv, hperm, ht⟩ := of_decide_eq_true hp
  refine ⟨tr, hex, hv, hperm, ht, ?_⟩
  rintro ⟨l, hl, hsum⟩
  rw [ht] at hl
  obtain rfl : l = [] := Chain.unique hl rfl
  rw [hv, hperm] at hsum
  simp at hsum

end SemSys

end Rosx
