/-
# How a wait for a mutex or a semaphore ends

Any number of tasks share any number of mutexes and semaphores. A wait ends in
one of three ways: the mutex or a permit is granted, the object is deleted, or
the timer of the call expires. The blocked call is not told which. After a wait
without a timeout it tests its own parameter (`if(!p)`), which nobody clears,
and returns `OS_OK`; after a timed one `rx_mutex_lock` looks at the owner and
`rx_semaphore_wait` at the `timeout` field, which a deletion leaves alone.

A step of a run is a call by the running task, up to its return or to the
point where it blocks; an expiry; the return of a blocked call; or the dispatch
of any ready task. Next to the kernel a run keeps why each task was woken. The
lemmas here say which tasks an unlock, a post, a deletion and an expiry take off
a wait chain (`Takes`), and that the invariant stays.

Key definitions: `ObjSys.exec`, `ObjSys.ReturnsGranted`, `ObjSys.EndSafe`,
`ObjSys.Inv`, `ObjSys.Takes`.
-/
import Rosx.WakeRun

namespace Rosx

open Linked

variable {n : ℕ}

/-! ### The system -/

/-- What a task waits for. -/
inductive WaitObj where
  | mutex (m : ℕ)
  | sem (m : ℕ)
  deriving DecidableEq, Repr

/-- Why a task was woken. -/
inductive WakeReason where
  | granted
  | deleted
  | timedOut
  deriving DecidableEq, Repr

/-- Where a task is: in no call, blocked in one, with a timeout or not, or
woken there. -/
inductive ObjPhase where
  | out
  | waiting (i : WaitObj) (timed : Bool)
  | woken (i : WaitObj) (timed : Bool) (why : WakeReason)
  deriving DecidableEq, Repr

def ObjPhase.wake (why : WakeReason) : ObjPhase → ObjPhase
  | .waiting i timed => .woken i timed why
  | p => p

/-- The kernel, and where each task is. -/
structure ObjSys (n : ℕ) where
  k : Kernel n
  phase : Fin n → ObjPhase

/-- A step of a run. -/
inductive ObjCall (n : ℕ) where
  | lock (m : ℕ) (timeout : ℤ) (tm : ℕ)
  | wait (m : ℕ) (timeout : ℤ) (tm : ℕ)
  | unlock (m : ℕ)
  | post (m : ℕ)
  | deleteMutex (m : ℕ)
  | deleteSem (m : ℕ)
  | expire (tm : ℕ)
  | ret
  | dispatch (t : Fin n) (preempted : Bool)

/-- What the blocked call of task `t` returns once `t` runs. -/
def Kernel.waitRet (k : Kernel n) (t : Fin n) (timed : Bool) : WaitObj → OsErr
  | .mutex m => rxMutexLockRet { k with curr := t } m timed
  | .sem _ => rxSemaphoreWaitRet { k with curr := t } timed

namespace ObjSys

/-- The kernel becomes `k'`, and the tasks woken by it pass on. -/
def wake (s : ObjSys n) (why : WakeReason) (k' : Kernel n) : ObjSys n where
  k := k'
  phase := fun t => if woken s.k k' t then (s.phase t).wake why else s.phase t

/-- The kernel becomes `k'`, with the running task blocked at `i`. -/
def block (s : ObjSys n) (i : WaitObj) (timed : Bool) (k' : Kernel n) : ObjSys n where
  k := k'
  phase := Function.update s.phase s.k.curr (.waiting i timed)

/-- A call of the running task has returned `r`, or it has blocked at `i`. -/
def afterCall (s : ObjSys n) (i : WaitObj) (timed : Bool) (k' : Kernel n) : Option OsErr → ObjSys n
  | some _ => { s with k := k' }
  | none => s.block i timed k'

/-- What a step computes: the code a call returns, if it returns, and the
system it leaves. -/
def exec (s : ObjSys n) : ObjCall n → Res (Option OsErr × ObjSys n)
  | .lock m timeout tm => do
    let (r, k) ← rxMutexLock s.k m timeout tm
    return (r, s.afterCall (.mutex m) (timeout > 0) k r)
  | .wait m timeout tm => do
    let (r, k) ← rxSemaphoreWait s.k m timeout tm
    return (r, s.afterCall (.sem m) (timeout > 0) k r)
  | .unlock m => do
    let (r, k) ← rxMutexUnlock s.k m
    return (some r, s.wake .granted k)
  | .post m => do
    let (r, k) ← rxSemaphorePost s.k m
    return (some r, s.wake .granted k)
  | .deleteMutex m => (rxDeleteMutex s.k m).map fun k => (none, s.wake .deleted k)
  | .deleteSem m => (rxDeleteSemaphore s.k m).map fun k => (none, s.wake .deleted k)
  | .expire tm => (s.k.expireTimer tm).map fun k => (none, s.wake .timedOut k)
  | .ret =>
    match s.phase s.k.curr with
    | .woken i timed _ =>
      .ok (some (s.k.waitRet s.k.curr timed i), { s with phase := Function.update s.phase s.k.curr .out })
    | _ => .error .null
  | .dispatch t preempted => .ok (none, { s with k := s.k.dispatch t preempted })

/-- A task calls when it is not blocked. The timer of a wait expires while it
is active, a ready task is dispatched. -/
def Admissible (s : ObjSys n) : ObjCall n → Prop
  | .lock _ timeout _ | .wait _ timeout _ => s.phase s.k.curr = .out ∧ timeout < 2 ^ 31
  | .unlock _ | .post _ | .deleteMutex _ | .deleteSem _ => s.phase s.k.curr = .out
  | .expire tm => tm ∈ s.k.active ∧
      ((s.k.timers tm).handler = some .mutexHandler ∨ (s.k.timers tm).handler = some .semHandler)
  | .ret => s.phase s.k.curr ≠ .out
  | .dispatch t _ => (s.k.tcb t).state.runnable = true

/-- The step relation; its label has the code that was returned. -/
def Step (s : ObjSys n) (c : ObjCall n × Option OsErr) (s' : ObjSys n) : Prop :=
  s.Admissible c.1 ∧ s.exec c.1 = .ok (c.2, s')

/-- The call of every woken task will return `OS_OK` only if it was granted what
it waited for, and `E_OS_UNAVAIL` if it waited without a timeout and the object
was deleted. -/
def ReturnsGranted (s : ObjSys n) : Prop :=
  ∀ t i timed why, s.phase t = .woken i timed why →
    (s.k.waitRet t timed i = .osOk → why = .granted) ∧
    (why = .deleted → timed = false → s.k.waitRet t timed i = .eOsUnavail)

/-- A call that returns `OS_OK` at once has taken the mutex, or a permit. -/
def TakesAtOnce (s : ObjSys n) (c : ObjCall n × Option OsErr) (s' : ObjSys n) : Prop :=
  match c.1 with
  | .lock m _ _ => c.2 = some .osOk → (s.k.mutexes m).lock = .unlocked ∧ (s'.k.mutexes m).owner = some s.k.curr
  | .wait m _ _ => c.2 = some .osOk → (s'.k.sems m).currVal = (s.k.sems m).currVal - 1 ∧ 0 ≤ (s'.k.sems m).currVal
  | _ => True

/-- A deletion finds nobody who waits for the mutex without a timeout, or for
the semaphore; a timer that expires does not end a wait without a timeout. -/
def EndSafe (s : ObjSys n) (c : ObjCall n × Option OsErr) : Prop :=
  match c.1 with
  | .deleteMutex m => ∀ t, s.phase t ≠ .waiting (.mutex m) false
  | .deleteSem m => ∀ t timed, s.phase t ≠ .waiting (.sem m) timed
  | .expire tm => ∀ t, (s.k.timers tm).priv = some t →
      ((s.k.timers tm).handler = some .semHandler → ∀ m, s.phase t ≠ .waiting (.sem m) false) ∧
      ((s.k.timers tm).handler = some .mutexHandler → ∀ m, s.phase t = .waiting (.mutex m) false →
        (s.k.mutexes m).owner = some t)
  | _ => True

/-- Nobody waits; the ready queue holds the tasks that are ready or running. -/
structure Init (s : ObjSys n) : Prop where
  mutexes : ∀ m, (s.k.mutexes m).task = none
  sems : ∀ m, (s.k.sems m).task = none
  ready : ∃ lr, Chain s.k.next s.k.readyHead lr ∧ ∀ t, t ∈ lr ↔ (s.k.tcb t).state.runnable = true
  curr : (s.k.tcb s.k.curr).state.runnable = true
  port : s.k.port = {}
  free : ∀ t, (s.k.tcb t).mutex = none ∧ (s.k.tcb t).sem = none
  phase : ∀ t, s.phase t = .out

/-! ### The invariant -/

/-- The heads of the wait chains. -/
def heads (k : Kernel n) : WaitObj → Option (Fin n)
  | .mutex m => (k.mutexes m).task
  | .sem m => (k.sems m).task

/-- The control block of a task that waits for `i`. -/
def Blocked (c : Tcb n) (timed : Bool) : WaitObj → Prop
  | .mutex m => c.mutex = some m ∧ c.sem = none
  | .sem m => c.mutex = none ∧ c.sem = some m ∧ c.timeout = if timed then rxTimerOn else rxTimerOff

/-- What holds of a task at each place, with the ready queue `lr` and the wait
chains `lw`: a woken task that was not granted anything has waited with a
timeout and will not return `OS_OK`. -/
def At (k : Kernel n) (lr : List (Fin n)) (lw : WaitObj → List (Fin n)) (t : Fin n) : ObjPhase → Prop
  | .out => (∀ i, t ∉ lw i) ∧ (k.tcb t).mutex = none ∧ (k.tcb t).sem = none
  | .waiting i timed => t ∈ lw i ∧ (k.tcb t).state = .suspend ∧ Blocked (k.tcb t) timed i
  | .woken i timed why => (∀ i, t ∉ lw i) ∧ t ∈ lr ∧ (k.tcb t).mutex = none ∧ (k.tcb t).sem = none ∧
      (why = .granted ∨ (timed = true ∧ k.waitRet t timed i ≠ .osOk))

structure Inv (s : ObjSys n) (lr : List (Fin n)) (lw : WaitObj → List (Fin n)) : Prop where
  lists : Lists s.k s.k lr (heads s.k) lw
  port : s.k.port = {}
  ready : ∀ t, t ∈ lr ↔ (s.k.tcb t).state.runnable = true
  curr : s.k.curr ∈ lr
  tasks : ∀ t, At s.k lr lw t (s.phase t)

theorem Init.inv {s : ObjSys n} (h : Init s) : ∃ lr, Inv s lr (fun _ => []) := by
  obtain ⟨lr, hl, hr⟩ := h.ready
  refine ⟨lr, ⟨Relinked.refl _, Or.inl h.port, hl, fun i => ?_, ?_, ?_⟩, h.port, hr, (hr _).mpr h.curr, fun t => ?_⟩
  · cases i with
    | mutex m => exact h.mutexes m
    | sem m => exact h.sems m
  · simp
  · simp
  · rw [h.phase]
    exact ⟨fun i => by simp, h.free t⟩

theorem Inv.returnsGranted {s : ObjSys n} {lr : List (Fin n)} {lw : WaitObj → List (Fin n)} (h : Inv s lr lw) :
    ReturnsGranted s := by
  intro t i timed why hp
  have hat := h.tasks t
  rw [hp] at hat
  obtain ⟨-, -, -, -, rfl | ⟨rfl, hret⟩⟩ := hat
  · exact ⟨fun _ => rfl, fun hd => by cases hd⟩
  · exact ⟨fun hok => absurd hok hret, fun _ hf => by cases hf⟩

section Ret

variable (k : Kernel n) (t : Fin n) (i : WaitObj)

/-- A wait without a timeout returns `OS_OK`, whatever has ended it. -/
theorem waitRet_untimed : k.waitRet t false i = .osOk := by
  cases i with
  | mutex m => rfl
  | sem m => rfl

theorem waitRet_mutex (m : ℕ) : k.waitRet t true (.mutex m) ≠ .osOk ↔ (k.mutexes m).owner ≠ some t := by
  simp [Kernel.waitRet, rxMutexLockRet]

theorem waitRet_sem (m : ℕ) : k.waitRet t true (.sem m) ≠ .osOk ↔ (k.tcb t).timeout = OsErr.eOsTimeout.code := by
  simp [Kernel.waitRet, rxSemaphoreWaitRet]

variable {k t i} {k' : Kernel n}

/-- An error stays one, as long as the task does not become an owner. -/
theorem waitRet_keep (howner : ∀ m, (k'.mutexes m).owner = some t → (k.mutexes m).owner = some t)
    (htim : (k'.tcb t).timeout = (k.tcb t).timeout) (h : k.waitRet t true i ≠ .osOk) : k'.waitRet t true i ≠ .osOk := by
  cases i with
  | mutex m =>
    rw [waitRet_mutex] at h ⊢
    exact fun ho => h (howner m ho)
  | sem m =>
    rw [waitRet_sem] at h ⊢
    rw [htim]
    exact h

end Ret

/-- What a step that does not concern the task `u` keeps. -/
theorem At.keep {k k' : Kernel n} {lr lr' : List (Fin n)} {lw lw' : WaitObj → List (Fin n)} {u : Fin n} {ph : ObjPhase}
    (h : At k lr lw u ph) (hw : ∀ j, u ∈ lw' j ↔ u ∈ lw j) (hr : u ∈ lr → u ∈ lr')
    (hst : (k.tcb u).state = .suspend → (k'.tcb u).state = .suspend) (hm : (k'.tcb u).mutex = (k.tcb u).mutex)
    (hs : (k'.tcb u).sem = (k.tcb u).sem) (htim : (k'.tcb u).timeout = (k.tcb u).timeout)
    (ho : ph ≠ .out → ∀ m, (k'.mutexes m).owner = some u → (k.mutexes m).owner = some u) : At k' lr' lw' u ph := by
  cases ph with
  | out =>
    obtain ⟨hj, hmut, hsem⟩ := h
    exact ⟨fun j hj' => hj j ((hw j).mp hj'), hm.trans hmut, hs.trans hsem⟩
  | waiting i timed =>
    obtain ⟨hi, hsus, hb⟩ := h
    refine ⟨(hw i).mpr hi, hst hsus, ?_⟩
    unfold Blocked at hb ⊢
    rw [hm, hs, htim]
    exact hb
  | woken i timed why =>
    obtain ⟨hj, hrl, hmut, hsem, hret⟩ := h
    refine ⟨fun j hj' => hj j ((hw j).mp hj'), hr hrl, hm.trans hmut, hs.trans hsem,
      hret.imp_right fun hret => ⟨hret.1, ?_⟩⟩
    obtain ⟨rfl, hret⟩ := hret
    exact waitRet_keep (ho (by simp)) htim hret

/-! ### Calls that wake tasks -/

/-- From `k` to `k'` the tasks `l` are taken off the chain of `i` and made
ready; the ready queue is now `lr'` and the chains are `lw'`. -/
structure Takes (k k' : Kernel n) (i : WaitObj) (l lr lr' : List (Fin n)) (lw lw' : WaitObj → List (Fin n)) : Prop where
  lists : Lists k' k' lr' (heads k') lw'
  sub : ∀ u ∈ l, u ∈ lw i
  ready : ∀ u, u ∈ lr' ↔ u ∈ l ∨ u ∈ lr
  chain : ∀ j u, u ∈ lw' j ↔ u ∈ lw j ∧ u ∉ l
  state : ∀ u, (k'.tcb u).state = if u ∈ l then .ready else (k.tcb u).state
  mutex : ∀ u, (k'.tcb u).mutex = if u ∈ l then none else (k.tcb u).mutex
  sem : ∀ u, (k'.tcb u).sem = if u ∈ l then none else (k.tcb u).sem
  timeout : ∀ u, u ∉ l → (k'.tcb u).timeout = (k.tcb u).timeout
  curr : k'.curr = k.curr
  owner : ∀ m u, (k'.mutexes m).owner = some u → (k.mutexes m).owner = some u ∨ u ∈ l

section Wake

variable {s : ObjSys n} {lr lr' l : List (Fin n)} {lw lw' : WaitObj → List (Fin n)} {i : WaitObj} {k' : Kernel n}

/-- A task on the chain of `i` waits for `i`. -/
theorem Inv.waiting_of_mem (h : Inv s lr lw) {t : Fin n} (ht : t ∈ lw i) :
    ∃ timed, s.phase t = .waiting i timed ∧ (s.k.tcb t).state = .suspend ∧ Blocked (s.k.tcb t) timed i := by
  have hat := h.tasks t
  cases hp : s.phase t with
  | out =>
    rw [hp] at hat
    exact absurd ht (hat.1 i)
  | waiting j timed =>
    rw [hp] at hat
    obtain rfl := h.lists.apart j i t hat.1 ht
    exact ⟨timed, rfl, hat.2⟩
  | woken j timed why =>
    rw [hp] at hat
    exact absurd ht (hat.1 i)

/-- The tasks that are taken pass on. -/
theorem Takes.phase (ht : Takes s.k k' i l lr lr' lw lw') (h : Inv s lr lw) (why : WakeReason) (u : Fin n) :
    (s.wake why k').phase u = if u ∈ l then (s.phase u).wake why else s.phase u := by
  have hw : woken s.k k' u = decide (u ∈ l) := by
    by_cases hu : u ∈ l
    · obtain ⟨timed, -, hst, -⟩ := h.waiting_of_mem (ht.sub u hu)
      simp [woken, hst, ht.state, hu]
    · simp only [hu, decide_false]
      exact woken_eq_false (by rw [ht.state, if_neg hu])
  simp only [wake, hw, decide_eq_true_eq]

/-- A call that takes tasks off a chain for the reason `why`. -/
theorem Inv.take (h : Inv s lr lw) (ht : Takes s.k k' i l lr lr' lw lw') (hport : k'.port = {}) (why : WakeReason)
    (hwhy : ∀ t ∈ l, ∀ timed, s.phase t = .waiting i timed →
      why = .granted ∨ (timed = true ∧ k'.waitRet t timed i ≠ .osOk)) : Inv (s.wake why k') lr' lw' := by
  refine ⟨ht.lists, hport, fun u => ?_, ?_, fun u => ?_⟩
  · show u ∈ lr' ↔ (k'.tcb u).state.runnable = true
    rw [ht.ready, ht.state, h.ready]
    by_cases hu : u ∈ l
    · simp [hu]
    · simp [hu]
  · show k'.curr ∈ lr'
    rw [ht.curr, ht.ready]
    exact Or.inr h.curr
  · rw [ht.phase h]
    split_ifs with hu
    · obtain ⟨timed, hp, -⟩ := h.waiting_of_mem (ht.sub u hu)
      rw [hp]
      refine ⟨fun j hj => ((ht.chain j u).mp hj).2 hu, (ht.ready u).mpr (Or.inl hu), ?_, ?_, hwhy u hu timed hp⟩
      · show (k'.tcb u).mutex = none
        rw [ht.mutex, if_pos hu]
      · show (k'.tcb u).sem = none
        rw [ht.sem, if_pos hu]
    · show At k' lr' lw' u (s.phase u)
      refine (h.tasks u).keep (fun j => ?_) (fun hr => (ht.ready u).mpr (Or.inr hr)) (fun hst => ?_) ?_ ?_
        (ht.timeout u hu)
        fun _ m ho => (ht.owner m u ho).resolve_right hu
      · rw [ht.chain]
        exact and_iff_left hu
      · rw [ht.state, if_neg hu, hst]
      · rw [ht.mutex, if_neg hu]
      · rw [ht.sem, if_neg hu]

/-- Nobody is taken, and the kernel is as it was but for the port and the
values of the objects. -/
theorem Inv.of_eq (h : Inv s lr lw) (hl : Lists k' k' lr (heads k') lw) (hport : k'.port = {})
    (htcb : k'.tcb = s.k.tcb) (hcurr : k'.curr = s.k.curr)
    (howner : ∀ m u, (k'.mutexes m).owner = some u → (s.k.mutexes m).owner = some u ∨ u = s.k.curr)
    (hp : s.phase s.k.curr = .out) : Inv { s with k := k' } lr lw := by
  refine ⟨hl, hport, fun u => ?_, ?_, fun u => ?_⟩
  · show u ∈ lr ↔ (k'.tcb u).state.runnable = true
    rw [htcb]
    exact h.ready u
  · show k'.curr ∈ lr
    rw [hcurr]
    exact h.curr
  · show At k' lr lw u (s.phase u)
    refine (h.tasks u).keep (fun _ => Iff.rfl) id ?_ ?_ ?_ ?_ fun hpu m ho => ?_
    · rw [htcb]
      exact id
    · rw [htcb]
    · rw [htcb]
    · rw [htcb]
    · refine (howner m u ho).resolve_right ?_
      rintro rfl
      exact hpu hp

end Wake

/-- Two control blocks agree on the state and on what the task waits for. -/
structure SameWait (c c' : Tcb n) : Prop where
  state : c'.state = c.state
  mutex : c'.mutex = c.mutex
  sem : c'.sem = c.sem
  timeout : c'.timeout = c.timeout

theorem SameWait.of_eq {c c' : Tcb n} (h : c' = c) : SameWait c c' := by
  subst h
  exact ⟨rfl, rfl, rfl, rfl⟩

section Takes

variable {k k₁ k' e : Kernel n} {lr lr₁ lr' l : List (Fin n)} {lw lw₁ lw' : WaitObj → List (Fin n)} {i : WaitObj}
  {t : Fin n} {m : ℕ}

/-- The heads after an update of one mutex. -/
theorem heads_setMutex {c : Mutex n} (hm : e.mutexes = Function.update k.mutexes m c) (hs : e.sems = k.sems) :
    heads e = Function.update (heads k) (.mutex m) c.task := by
  funext j
  cases j with
  | mutex j =>
    by_cases hj : j = m
    · subst hj; simp [heads, hm]
    · rw [Function.update_of_ne (by simpa using hj)]
      simp [heads, hm, hj]
  | sem j =>
    rw [Function.update_of_ne (by simp)]
    simp [heads, hs]

/-- The heads after an update of one semaphore. -/
theorem heads_setSem {c : Semaphore n} (hs : e.sems = Function.update k.sems m c) (hm : e.mutexes = k.mutexes) :
    heads e = Function.update (heads k) (.sem m) c.task := by
  funext j
  cases j with
  | mutex j =>
    rw [Function.update_of_ne (by simp)]
    simp [heads, hm]
  | sem j =>
    by_cases hj : j = m
    · subst hj; simp [heads, hs]
    · rw [Function.update_of_ne (by simpa using hj)]
      simp [heads, hs, hj]

/-- An update of one mutex that keeps its owner. -/
theorem owner_setMutex {c : Mutex n} (hm : e.mutexes = Function.update k.mutexes m c) (hc : c.owner = (k.mutexes m).owner)
    (j : ℕ) : (e.mutexes j).owner = (k.mutexes j).owner := by
  rw [hm]
  by_cases hj : j = m
  · subst hj
    rw [Function.update_self, hc]
  · rw [Function.update_of_ne hj]

theorem heads_relinked (h : Relinked e k) : heads k = heads e := by
  funext j
  cases j with
  | mutex j => simp only [heads, h.mutexes]
  | sem j => simp only [heads, h.sems]

/-- Nobody is taken: the chains and the tasks stay. -/
theorem Takes.nobody (hl : Lists e k' lr' (heads e) lw) (hr : ∀ u, u ∈ lr' ↔ u ∈ lr)
    (htcb : ∀ u, SameWait (k.tcb u) (e.tcb u)) (hcurr : e.curr = k.curr)
    (howner : ∀ m, (e.mutexes m).owner = (k.mutexes m).owner) (i : WaitObj) : Takes k k' i [] lr lr' lw lw := by
  refine ⟨?_, by simp, by simpa using hr, by simp, fun u => ?_, fun u => ?_, fun u => ?_, fun u _ => ?_, ?_,
    fun m u ho => ?_⟩
  · rw [heads_relinked hl.data]
    exact hl.self
  · simpa using (hl.data.state u).trans (htcb u).state
  · simpa using (hl.data.mutex u).trans (htcb u).mutex
  · simpa using (hl.data.sem u).trans (htcb u).sem
  · exact (hl.data.timeout u).trans (htcb u).timeout
  · exact hl.data.curr.trans hcurr
  · rw [hl.data.mutexes, howner] at ho
    exact Or.inl ho

/-- One task is taken. -/
theorem Takes.one (h : Lists k k lr (heads k) lw) (ht : t ∈ lw i)
    (hl : Lists e k' lr' (heads e) (Function.update lw i ((lw i).erase t))) (hr : ∀ u, u ∈ lr' ↔ u = t ∨ u ∈ lr)
    (hself : (e.tcb t).state = .ready ∧ (e.tcb t).mutex = none ∧ (e.tcb t).sem = none)
    (hother : ∀ u, u ≠ t → SameWait (k.tcb u) (e.tcb u)) (hcurr : e.curr = k.curr)
    (howner : ∀ m u, (e.mutexes m).owner = some u → (k.mutexes m).owner = some u ∨ u = t) :
    Takes k k' i [t] lr lr' lw (Function.update lw i ((lw i).erase t)) := by
  have hnd : (lw i).Nodup := (h.wait i).nodup
  have hif : ∀ {β : Type} (g : Tcb n → β) {a : β}, g (e.tcb t) = a → (∀ u, u ≠ t → g (e.tcb u) = g (k.tcb u)) →
      ∀ u, g (e.tcb u) = if u ∈ [t] then a else g (k.tcb u) := by
    intro β g a ha hg u
    by_cases hu : u = t
    · subst hu; simpa using ha
    · simpa [hu] using hg u hu
  refine ⟨?_, by simpa using ht, by simpa using hr, fun j u => ?_, fun u => ?_, fun u => ?_, fun u => ?_,
    fun u hu => ?_, ?_,
    fun m u ho => ?_⟩
  · rw [heads_relinked hl.data]
    exact hl.self
  · rw [List.mem_singleton]
    by_cases hj : j = i
    · subst hj
      rw [Function.update_self, hnd.mem_erase_iff]
      exact and_comm
    · rw [Function.update_of_ne hj]
      refine ⟨fun hu => ⟨hu, ?_⟩, fun hu => hu.1⟩
      rintro rfl
      exact hj (h.apart j i u hu ht)
  · rw [hl.data.state]
    exact hif Tcb.state hself.1 (fun u hu => (hother u hu).state) u
  · rw [hl.data.mutex]
    exact hif Tcb.mutex hself.2.1 (fun u hu => (hother u hu).mutex) u
  · rw [hl.data.sem]
    exact hif Tcb.sem hself.2.2 (fun u hu => (hother u hu).sem) u
  · rw [hl.data.timeout]
    exact (hother u (by simpa using hu)).timeout
  · exact hl.data.curr.trans hcurr
  · rw [hl.data.mutexes] at ho
    simpa using howner m u ho

/-- One task is taken, and then others. -/
theorem Takes.cons (h : Takes k k₁ i [t] lr lr₁ lw lw₁) (h' : Takes k₁ k' i l lr₁ lr' lw₁ lw') :
    Takes k k' i (t :: l) lr lr' lw lw' := by
  have hif : ∀ {β : Type} (u : Fin n) (a b : β),
      (if u ∈ l then a else if u ∈ [t] then a else b) = if u ∈ t :: l then a else b := by
    intro β u a b
    by_cases hul : u ∈ l
    · simp [hul]
    · by_cases hut : u = t
      · simp [hut]
      · simp [hul, hut]
  refine ⟨h'.lists, fun u hu => ?_, fun u => ?_, fun j u => ?_, fun u => ?_, fun u => ?_, fun u => ?_, fun u hu => ?_,
    h'.curr.trans h.curr, fun m u ho => ?_⟩
  · rcases List.mem_cons.mp hu with rfl | hu
    · exact h.sub u (by simp)
    · exact ((h.chain i u).mp (h'.sub u hu)).1
  · rw [h'.ready, h.ready, List.mem_singleton, List.mem_cons]
    exact or_left_comm.trans or_assoc.symm
  · rw [h'.chain, h.chain, List.mem_singleton, List.mem_cons, not_or, and_assoc]
  · rw [h'.state, h.state, hif]
  · rw [h'.mutex, h.mutex, hif]
  · rw [h'.sem, h.sem, hif]
  · obtain ⟨hut, hul⟩ : u ≠ t ∧ u ∉ l := by simpa using hu
    rw [h'.timeout u hul, h.timeout u (by simpa using hut)]
  · rcases h'.owner m u ho with ho | hu
    · refine (h.owner m u ho).imp_right fun hu => ?_
      rw [List.mem_singleton.mp hu]
      exact List.mem_cons_self
    · exact Or.inr (List.mem_cons_of_mem _ hu)

/-! ### Who the calls take -/

theorem sameWait_released (k : Kernel n) (m : ℕ) (u : Fin n) : SameWait (k.tcb u) ((released k m).tcb u) :=
  ⟨released_state .., released_mutex .., Kernel.setPrio_keeps _ _ _ _ Tcb.sem fun _ => rfl,
    Kernel.setPrio_keeps _ _ _ _ Tcb.timeout fun _ => rfl⟩

theorem released_mutexes (k : Kernel n) (m : ℕ) :
    (released k m).mutexes = Function.update k.mutexes m { k.mutexes m with lock := .unlocked } := rfl

/-- The first waiter gets the mutex. -/
theorem grant_takes {s : ObjSys n} (h : Inv s lr lw) (hi : lw (.mutex m) = t :: l) (hr : ∀ u, u ∈ lr' ↔ u = t ∨ u ∈ lr)
    (hls : Lists (granted (released s.k m) m t l) k' lr' (Function.update (heads s.k) (.mutex m) l.head?)
      (Function.update lw (.mutex m) l)) : Takes s.k k' (.mutex m) [t] lr lr' lw (Function.update lw (.mutex m) l) := by
  have htm : t ∈ lw (.mutex m) := by rw [hi]; exact List.mem_cons_self
  obtain ⟨timed, -, -, -, hsem⟩ := h.waiting_of_mem htm
  have herase : (lw (.mutex m)).erase t = l := by rw [hi, List.erase_cons_head]
  have hgr : (granted (released s.k m) m t l).mutexes =
      Function.update s.k.mutexes m { lock := .locked, owner := some t, task := l.head? } := by
    simp [granted, Kernel.setMutex, released_mutexes]
  have hheads : heads (granted (released s.k m) m t l) = Function.update (heads s.k) (.mutex m) l.head? := by
    apply heads_setMutex hgr
    simp only [granted, Kernel.setMutex_sems, Kernel.modTcb_sems, stopTimerOf_sems]
    rfl
  have ht := Takes.one (e := granted (released s.k m) m t l) h.lists htm
    (by rw [herase, hheads]; exact hls) hr ⟨?_, ?_, ?_⟩
    (fun u hu => ?_) (granted_curr ..) fun j u hju => ?_
  · rw [herase] at ht
    exact ht
  · rw [granted_state, if_pos rfl]
  · rw [granted_mutex, if_pos rfl]
  · rw [← hsem, ← (sameWait_released s.k m t).sem]
    simp [granted]
  · have hother : (granted (released s.k m) m t l).tcb u = (released s.k m).tcb u := by
      simp [granted, Kernel.modTcb_of_ne _ hu]
    rw [hother]
    exact sameWait_released s.k m u
  · rw [hgr] at hju
    by_cases hj : j = m
    · subst hj
      rw [Function.update_self] at hju
      exact Or.inr (Option.some.inj hju).symm
    · rw [Function.update_of_ne hj] at hju
      exact Or.inl hju

/-- An unlock takes the first waiter, if there is one. -/
theorem unlock_takes {s : ObjSys n} (h : Inv s lr lw) {r : OsErr} (hk : rxMutexUnlock s.k m = .ok (r, k')) :
    k'.port = {} ∧ ∃ l lr' lw', Takes s.k k' (.mutex m) l lr lr' lw lw' := by
  have hrefl : Takes s.k s.k (.mutex m) [] lr lr lw lw :=
    .nobody h.lists (fun _ => Iff.rfl) (fun _ => .of_eq rfl) rfl (fun _ => rfl) _
  cases hl : (s.k.mutexes m).lock with
  | unlocked =>
    rw [rxMutexUnlock_free hl, enter_exit h.port] at hk
    obtain ⟨-, rfl⟩ := Prod.mk.inj (Except.ok.inj hk)
    exact ⟨h.port, [], lr, lw, hrefl⟩
  | locked =>
    cases ho : (s.k.mutexes m).owner with
    | none =>
      have hl' : (s.k.enterCritical.mutexes m).lock = .locked := hl
      have ho' : (s.k.enterCritical.mutexes m).owner = none := ho
      simp only [rxMutexUnlock, hl', ho', if_true] at hk
      cases hk
    | some o =>
      by_cases hoc : o = s.k.curr
      · subst hoc
        obtain ⟨k1, lr', hrun, hport, hcase⟩ := rxMutexUnlock_owner (i := .mutex m) h.lists rfl hl ho h.curr
          ((h.ready _).mp h.curr)
        obtain ⟨-, rfl⟩ := Prod.mk.inj (Except.ok.inj (hrun.symm.trans hk))
        refine ⟨hport, ?_⟩
        rcases hcase with ⟨-, hls, hm⟩ | ⟨t, l, hi, hm, hls⟩
        · have hheads : heads (released s.k m) = heads s.k := by
            rw [heads_setMutex (released_mutexes s.k m) rfl]
            exact Function.update_eq_self _ _
          exact ⟨[], lr', lw, .nobody (hheads ▸ hls) hm (sameWait_released s.k m) rfl
            (owner_setMutex (released_mutexes s.k m) rfl) _⟩
        · exact ⟨[t], lr', _, grant_takes h hi hm hls⟩
      · rw [rxMutexUnlock_refused hl ho hoc, enter_exit h.port] at hk
        obtain ⟨-, rfl⟩ := Prod.mk.inj (Except.ok.inj hk)
        exact ⟨h.port, [], lr, lw, hrefl⟩

/-- A post takes the first waiter, if there is one. -/
theorem post_takes {s : ObjSys n} (h : Inv s lr lw) {r : OsErr} (hk : rxSemaphorePost s.k m = .ok (r, k')) :
    k'.port = {} ∧ ∃ l lr' lw', Takes s.k k' (.sem m) l lr lr' lw lw' := by
  have hchain : Chain s.k.next (s.k.sems m).task (lw (.sem m)) := h.lists.wait (.sem m)
  cases hi : lw (.sem m) with
  | nil =>
    rw [hi] at hchain
    rw [rxSemaphorePost_idle hchain, enter_exit h.port] at hk
    obtain ⟨-, rfl⟩ := Prod.mk.inj (Except.ok.inj hk)
    exact ⟨h.port, [], lr, lw, .nobody h.lists (fun _ => Iff.rfl) (fun _ => .of_eq rfl) rfl (fun _ => rfl) _⟩
  | cons t l =>
    obtain ⟨k1, lr', hrun, hport, hm, hls⟩ := rxSemaphorePost_wakes (i := .sem m) h.lists rfl hi
    obtain ⟨-, rfl⟩ := Prod.mk.inj (Except.ok.inj (hrun.symm.trans hk))
    have htm : t ∈ lw (.sem m) := by rw [hi]; exact List.mem_cons_self
    obtain ⟨timed, -, -, hmut, -⟩ := h.waiting_of_mem htm
    have herase : (lw (.sem m)).erase t = l := by rw [hi, List.erase_cons_head]
    have hheads : heads (posted s.k m t l) = Function.update (heads s.k) (.sem m) l.head? :=
      heads_setSem (c := { s.k.sems m with currVal := (s.k.sems m).currVal + 1, task := l.head? }) rfl rfl
    refine ⟨hport, [t], lr', _, .one (e := posted s.k m t l) h.lists htm (by rw [herase, hheads]; exact hls) hm
      ⟨?_, ?_, ?_⟩ (fun u hu => ?_) rfl fun j u hju => Or.inl hju⟩
    · rw [posted_state, if_pos rfl]
    · rw [← hmut]
      simp [posted]
    · rw [posted_sem, if_pos rfl]
    · apply SameWait.of_eq
      simp [posted, Kernel.modTcb_of_ne _ hu]

/-- A loop whose body takes the first waiter takes them all. -/
theorem drainLoop_takes {body : Kernel n → Fin n → Res (Kernel n)}
    (hbody : ∀ {k : Kernel n} {lr : List (Fin n)} {lw : WaitObj → List (Fin n)} {t : Fin n} {l : List (Fin n)},
      Lists k k lr (heads k) lw → lw i = t :: l → (∃ timed, Blocked (k.tcb t) timed i) →
      ∃ k₁ lr₁, body k t = .ok k₁ ∧ Takes k k₁ i [t] lr lr₁ lw (Function.update lw i l) ∧
        ∀ u, (k₁.tcb u).timeout = (k.tcb u).timeout) (l : List (Fin n)) :
    ∀ {k : Kernel n} {lr : List (Fin n)} {lw : WaitObj → List (Fin n)} {f : ℕ}, Lists k k lr (heads k) lw →
      lw i = l → l.length < f → (∀ u ∈ l, ∃ timed, Blocked (k.tcb u) timed i) →
      ∃ k' lr' lw', drainLoop (fun k => heads k i) body f k = .ok k' ∧ Takes k k' i l lr lr' lw lw' ∧
        ∀ u, (k'.tcb u).timeout = (k.tcb u).timeout := by
  induction l with
  | nil =>
    intro k lr lw f h hi hf _
    obtain ⟨f, rfl⟩ : ∃ g, f = g + 1 := ⟨f - 1, by simp at hf; omega⟩
    have hnone : heads k i = none := by
      have := h.wait i
      rw [hi] at this
      exact this
    exact ⟨k, lr, lw, by simp only [drainLoop, hnone],
      .nobody h (fun _ => Iff.rfl) (fun _ => .of_eq rfl) rfl (fun _ => rfl) _, fun _ => rfl⟩
  | cons t l ih =>
    intro k lr lw f h hi hf hb
    obtain ⟨f, rfl⟩ : ∃ g, f = g + 1 := ⟨f - 1, by simp at hf; omega⟩
    have hsome : heads k i = some t := by
      have := h.wait i
      rw [hi] at this
      exact this.1
    have hnd : (t :: l).Nodup := by
      rw [← hi]
      exact (h.wait i).nodup
    obtain ⟨k₁, lr₁, hrun₁, ht₁, htim₁⟩ := hbody h hi (hb t List.mem_cons_self)
    -- the tasks behind `t` are still blocked
    have hb₁ : ∀ u ∈ l, ∃ timed, Blocked (k₁.tcb u) timed i := by
      intro u hu
      have hut : u ∉ [t] := by
        rw [List.mem_singleton]
        rintro rfl
        exact (List.nodup_cons.mp hnd).1 hu
      obtain ⟨timed, hbu⟩ := hb u (List.mem_cons_of_mem _ hu)
      refine ⟨timed, ?_⟩
      unfold Blocked at hbu ⊢
      rw [ht₁.mutex, ht₁.sem, htim₁, if_neg hut, if_neg hut]
      exact hbu
    obtain ⟨k₂, lr₂, lw₂, hrun₂, ht₂, htim₂⟩ := ih (f := f) ht₁.lists
      (Function.update_self i l lw) (by simpa using hf) hb₁
    refine ⟨k₂, lr₂, lw₂, ?_, ht₁.cons ht₂, fun u => (htim₂ u).trans (htim₁ u)⟩
    simp only [drainLoop, hsome, hrun₁, bind, Except.bind, hrun₂]

/-- One round of the deletion of a mutex. -/
theorem deleteWaiter_takes (h : Lists k k lr (heads k) lw) (hi : lw (.mutex m) = t :: l)
    (hb : ∃ timed, Blocked (k.tcb t) timed (.mutex m)) :
    ∃ k₁ lr₁, deleteWaiter m k t = .ok k₁ ∧ Takes k k₁ (.mutex m) [t] lr lr₁ lw (Function.update lw (.mutex m) l) ∧
      ∀ u, (k₁.tcb u).timeout = (k.tcb u).timeout := by
  obtain ⟨timed, -, hsem⟩ := hb
  obtain ⟨k₁, lr₁, hrun, hm, hls⟩ := deleteWaiter_spec (m := m) h hi
  have htm : t ∈ lw (.mutex m) := by rw [hi]; exact List.mem_cons_self
  have herase : (lw (.mutex m)).erase t = l := by rw [hi, List.erase_cons_head]
  have hdr : (dropped k m t l).mutexes = Function.update k.mutexes m { k.mutexes m with task := l.head? } := by
    simp [dropped, Kernel.setMutex]
  have hheads : heads (dropped k m t l) = Function.update (heads k) (.mutex m) l.head? :=
    heads_setMutex hdr (by simp [dropped])
  have htim : ∀ u, ((dropped k m t l).tcb u).timeout = (k.tcb u).timeout := fun u => by
    have hkeep := (stopTimerOf k t).modTcb_keeps t u
      (f := fun c => { c with timer := none, state := .ready, mutex := none }) Tcb.timeout fun _ => rfl
    simpa [dropped] using hkeep
  have ht := Takes.one h htm (by rw [herase, hheads]; exact hls) hm (e := dropped k m t l)
    ⟨by rw [dropped_state, if_pos rfl], by rw [dropped_mutex, if_pos rfl], by simpa [dropped] using hsem⟩
    (fun u hu => .of_eq (by simp [dropped, Kernel.modTcb_of_ne _ hu])) (by simp [dropped])
    fun j u hju => Or.inl (by rw [← owner_setMutex hdr rfl]; exact hju)
  rw [herase] at ht
  exact ⟨k₁, lr₁, hrun, ht, fun u => (hls.data.timeout u).trans (htim u)⟩

/-- One round of the deletion of a semaphore. -/
theorem deleteSemWaiter_takes (h : Lists k k lr (heads k) lw) (hi : lw (.sem m) = t :: l)
    (hb : ∃ timed, Blocked (k.tcb t) timed (.sem m)) :
    ∃ k₁ lr₁, deleteSemWaiter m k t = .ok k₁ ∧ Takes k k₁ (.sem m) [t] lr lr₁ lw (Function.update lw (.sem m) l) ∧
      ∀ u, (k₁.tcb u).timeout = (k.tcb u).timeout := by
  obtain ⟨timed, hmut, -⟩ := hb
  obtain ⟨k₁, lr₁, hrun, hm, hls⟩ := deleteSemWaiter_spec (m := m) h hi
  have htm : t ∈ lw (.sem m) := by rw [hi]; exact List.mem_cons_self
  have herase : (lw (.sem m)).erase t = l := by rw [hi, List.erase_cons_head]
  set f : Tcb n → Tcb n := fun c => { c with state := .ready, sem := none } with hf
  have hheads : heads (semDropped k m t l) = Function.update (heads k) (.sem m) l.head? :=
    heads_setSem (c := { k.sems m with task := l.head? }) (by simp [semDropped, Kernel.setSem]) (by simp [semDropped])
  have hkeep : ∀ {β : Type} (g : Tcb n → β), (∀ c, g { c with timer := none } = g c) → ∀ u,
      g ((semDropped k m t l).tcb u) = g ((k.modTcb t f).tcb u) := fun g hg u => dropTimer_keeps (k.modTcb t f) t u g hg
  have hself : (k.modTcb t f).tcb t = f (k.tcb t) := Kernel.modTcb_self k t f
  have ht := Takes.one h htm (by rw [herase, hheads]; exact hls) hm (e := semDropped k m t l)
    ⟨by rw [hkeep Tcb.state (fun _ => rfl), hself], by rw [hkeep Tcb.mutex (fun _ => rfl), hself]; exact hmut,
      by rw [hkeep Tcb.sem (fun _ => rfl), hself]⟩
    (fun u hu => by
      have hu' : (k.modTcb t f).tcb u = k.tcb u := Kernel.modTcb_of_ne k hu f
      refine ⟨?_, ?_, ?_, ?_⟩
      · rw [hkeep Tcb.state (fun _ => rfl), hu']
      · rw [hkeep Tcb.mutex (fun _ => rfl), hu']
      · rw [hkeep Tcb.sem (fun _ => rfl), hu']
      · rw [hkeep Tcb.timeout (fun _ => rfl), hu'])
    (by simp [semDropped]) fun j u hju => Or.inl (by simpa [semDropped] using hju)
  rw [herase] at ht
  refine ⟨k₁, lr₁, hrun, ht, fun u => (hls.data.timeout u).trans ?_⟩
  rw [hkeep Tcb.timeout (fun _ => rfl)]
  exact k.modTcb_keeps t u Tcb.timeout fun _ => rfl

/-- What follows the last round changes no task and makes nobody an owner. -/
theorem Takes.finish (h : Takes k k₁ i l lr lr' lw lw') (hl : Lists k' k' lr' (heads k') lw') (htcb : k'.tcb = k₁.tcb)
    (hcurr : k'.curr = k₁.curr) (howner : ∀ m u, (k'.mutexes m).owner = some u → (k₁.mutexes m).owner = some u) :
    Takes k k' i l lr lr' lw lw' := by
  refine ⟨hl, h.sub, h.ready, h.chain, ?_, ?_, ?_, ?_, hcurr.trans h.curr, fun m u ho => h.owner m u (howner m u ho)⟩
  · rw [htcb]
    exact h.state
  · rw [htcb]
    exact h.mutex
  · rw [htcb]
    exact h.sem
  · rw [htcb]
    exact h.timeout

section Calls

variable {s : ObjSys n}

theorem Inv.blocked (h : Inv s lr lw) (i : WaitObj) : ∀ u ∈ lw i, ∃ timed, Blocked (s.k.tcb u) timed i := by
  intro u hu
  obtain ⟨timed, -, -, hb⟩ := h.waiting_of_mem hu
  exact ⟨timed, hb⟩

theorem Inv.chain_length (h : Inv s lr lw) (i : WaitObj) : (lw i).length < n + 1 := by
  have hlen := (h.lists.wait i).length_le_fin
  omega

/-- The deletion of a mutex takes all its waiters. -/
theorem deleteMutex_takes (h : Inv s lr lw) (hk : rxDeleteMutex s.k m = .ok k') :
    k'.port = {} ∧ (k'.mutexes m).owner = none ∧
      ∃ lr' lw', Takes s.k k' (.mutex m) (lw (.mutex m)) lr lr' lw lw' := by
  obtain ⟨k₁, hloop, hk⟩ := bind_eq_ok.mp hk
  obtain rfl := Except.ok.inj hk
  obtain ⟨k₂, lr', lw', hrun, ht, -⟩ := drainLoop_takes (i := .mutex m) deleteWaiter_takes (lw (.mutex m))
    h.lists.enter.self rfl (h.chain_length _) (h.blocked _)
  obtain rfl : k₂ = k₁ := Except.ok.inj (hrun.symm.trans hloop)
  set c : Mutex n := { k₂.mutexes m with owner := none } with hc
  have hheads : heads (k₂.setMutex m c).exitCritical = heads k₂ := by
    rw [heads_setMutex (e := (k₂.setMutex m c).exitCritical) (k := k₂) (m := m) (c := c) rfl rfl]
    exact Function.update_eq_self _ _
  refine ⟨ht.lists.port.exit, ?_, lr', lw', ?_⟩
  · show ((k₂.setMutex m c).mutexes m).owner = none
    rw [Kernel.setMutex_mutexes]
  · have ht' : Takes s.k k₂ (.mutex m) (lw (.mutex m)) lr lr' lw lw' := ⟨ht.lists, ht.sub, ht.ready, ht.chain, ht.state,
      ht.mutex, ht.sem, ht.timeout, ht.curr, ht.owner⟩
    refine ht'.finish ?_ rfl rfl fun j u ho => ?_
    · rw [hheads]
      exact (ht.lists.setMutex m c).exit.self
    · replace ho : (Function.update k₂.mutexes m c j).owner = some u := ho
      by_cases hj : j = m
      · subst hj
        rw [Function.update_self] at ho
        cases ho
      · rw [Function.update_of_ne hj] at ho
        exact ho

/-- So does the deletion of a semaphore; it leaves `timeout` alone. -/
theorem deleteSem_takes (h : Inv s lr lw) (hk : rxDeleteSemaphore s.k m = .ok k') :
    k'.port = {} ∧ (∀ u, (k'.tcb u).timeout = (s.k.tcb u).timeout) ∧
      ∃ lr' lw', Takes s.k k' (.sem m) (lw (.sem m)) lr lr' lw lw' := by
  obtain ⟨k₁, hloop, hk⟩ := bind_eq_ok.mp hk
  obtain rfl := Except.ok.inj hk
  obtain ⟨k₂, lr', lw', hrun, ht, htim⟩ := drainLoop_takes (i := .sem m) deleteSemWaiter_takes (lw (.sem m))
    h.lists.enter.self rfl (h.chain_length _) (h.blocked _)
  obtain rfl : k₂ = k₁ := Except.ok.inj (hrun.symm.trans hloop)
  have ht' : Takes s.k k₂ (.sem m) (lw (.sem m)) lr lr' lw lw' := ⟨ht.lists, ht.sub, ht.ready, ht.chain, ht.state,
    ht.mutex, ht.sem, ht.timeout, ht.curr, ht.owner⟩
  exact ⟨ht.lists.port.exit, htim, lr', lw', ht'.finish ht.lists.exit.self rfl rfl fun _ _ ho => ho⟩

/-- A task whose control block names a semaphore waits for it. -/
theorem Inv.waiting_of_sem (h : Inv s lr lw) (hs : (s.k.tcb t).sem = some m) :
    ∃ timed, s.phase t = .waiting (.sem m) timed := by
  have hat := h.tasks t
  cases hp : s.phase t with
  | out =>
    rw [hp] at hat
    rw [hat.2.2] at hs
    cases hs
  | waiting i timed =>
    rw [hp] at hat
    cases i with
    | mutex j =>
      rw [hat.2.2.2] at hs
      cases hs
    | sem j =>
      rw [hat.2.2.2.1] at hs
      obtain rfl := Option.some.inj hs
      exact ⟨timed, rfl⟩
  | woken i timed why =>
    rw [hp] at hat
    rw [hat.2.2.2.1] at hs
    cases hs

/-- A task whose control block names a mutex waits for it. -/
theorem Inv.waiting_of_mutex (h : Inv s lr lw) (hm : (s.k.tcb t).mutex = some m) :
    ∃ timed, s.phase t = .waiting (.mutex m) timed := by
  have hat := h.tasks t
  cases hp : s.phase t with
  | out =>
    rw [hp] at hat
    rw [hat.2.1] at hm
    cases hm
  | waiting i timed =>
    rw [hp] at hat
    cases i with
    | mutex j =>
      rw [hat.2.2.1] at hm
      obtain rfl := Option.some.inj hm
      exact ⟨timed, rfl⟩
    | sem j =>
      rw [hat.2.2.1] at hm
      cases hm
  | woken i timed why =>
    rw [hp] at hat
    rw [hat.2.2.1] at hm
    cases hm

/-- The timer of a semaphore wait ends the wait of its task for a semaphore, if
there is one. -/
theorem expireSem_takes (h : Inv s lr lw) {tm : ℕ} (hhd : (s.k.timers tm).handler = some .semHandler)
    (hpr : (s.k.timers tm).priv = some t) (hk : s.k.expireTimer tm = .ok k') : k'.port = {} ∧
      ((∀ m timed, s.phase t ≠ .waiting (.sem m) timed) ∧ Takes s.k k' (.sem 0) [] lr lr lw lw ∨
      ∃ m timed lr' lw', s.phase t = .waiting (.sem m) timed ∧ Takes s.k k' (.sem m) [t] lr lr' lw lw' ∧
        (k'.tcb t).timeout = OsErr.eOsTimeout.code) := by
  unfold Kernel.expireTimer at hk
  simp only [hhd, hpr] at hk
  obtain ⟨k₁, hrun, hk⟩ := bind_eq_ok.mp hk
  obtain rfl := Except.ok.inj hk
  have hl := h.lists.enter.disarm tm
  cases hsem : (s.k.tcb t).sem with
  | none =>
    have hsem' : ((s.k.enterCritical.disarm tm).tcb t).sem = none := hsem
    rw [rxSemHandler_idle hsem'] at hrun
    obtain rfl := Except.ok.inj hrun
    refine ⟨hl.port.exit, Or.inl ⟨fun m timed hp => ?_, ?_⟩⟩
    · have hat := h.tasks t
      rw [hp] at hat
      rw [hat.2.2.2.1] at hsem
      cases hsem
    · exact .nobody (k := s.k) (e := (s.k.enterCritical.disarm tm).exitCritical) hl.exit.self (fun _ => Iff.rfl)
        (fun _ => .of_eq rfl) rfl (fun _ => rfl) _
  | some m =>
    obtain ⟨timed, hp⟩ := h.waiting_of_sem hsem
    have hat := h.tasks t
    rw [hp] at hat
    obtain ⟨htm, -, hmut, -⟩ := hat
    obtain ⟨k₂, lr', hrun', hm, hls⟩ := rxSemHandler_spec (m := m) (i := .sem m) hl rfl htm hsem
    obtain rfl : k₂ = k₁ := Except.ok.inj (hrun'.symm.trans hrun)
    have hheads : heads (semExpired (s.k.disarm tm) m t ((lw (.sem m)).erase t)) =
        Function.update (heads s.k) (.sem m) ((lw (.sem m)).erase t).head? :=
      heads_setSem (k := s.k) (c := { s.k.sems m with
        currVal := (s.k.sems m).currVal + 1, task := ((lw (.sem m)).erase t).head? }) rfl rfl
    refine ⟨hls.port.exit, Or.inr ⟨m, timed, lr', _, hp,
      .one (e := semExpired (s.k.disarm tm) m t ((lw (.sem m)).erase t)) h.lists htm (by rw [hheads]; exact hls.exit) hm
        ⟨?_, ?_, ?_⟩ (fun u hu => ?_) rfl fun j u hju => Or.inl hju, ?_⟩⟩
    · rw [semExpired_state, if_pos rfl]
    · rw [← hmut]
      simp [semExpired]
      rfl
    · rw [semExpired_sem, if_pos rfl]
    · apply SameWait.of_eq
      simp [semExpired, Kernel.modTcb_of_ne _ hu]
      rfl
    · show (k₂.tcb t).timeout = _
      rw [hls.data.timeout, semExpired_timeout, if_pos rfl]

/-- The timer of a lock call ends the wait of its task for a mutex, unless the
task owns it. -/
theorem expireMutex_takes (h : Inv s lr lw) {tm : ℕ} (hhd : (s.k.timers tm).handler = some .mutexHandler)
    (hpr : (s.k.timers tm).priv = some t) (hk : s.k.expireTimer tm = .ok k') : k'.port = {} ∧
      ∃ m timed, s.phase t = .waiting (.mutex m) timed ∧ (k'.mutexes m).owner = (s.k.mutexes m).owner ∧
      ((s.k.mutexes m).owner = some t ∧ Takes s.k k' (.mutex m) [] lr lr lw lw ∨
      (s.k.mutexes m).owner ≠ some t ∧ ∃ lr' lw', Takes s.k k' (.mutex m) [t] lr lr' lw lw') := by
  have hl : Lists (s.k.disarm tm) (s.k.enterCritical.disarm tm) lr (heads s.k) lw := h.lists.enter.disarm tm
  unfold Kernel.expireTimer at hk
  simp only [hhd, hpr, expireMutexTimer_eq hhd hpr] at hk
  obtain ⟨k₁, hrun, hk⟩ := bind_eq_ok.mp hk
  obtain rfl := Except.ok.inj hk
  cases hmut : (s.k.tcb t).mutex with
  | none =>
    have hmut' : ((s.k.enterCritical.disarm tm).tcb t).mutex = none := hmut
    simp only [rxMutexHandler, hmut'] at hrun
    cases hrun
  | some m =>
    have hmut' : ((s.k.enterCritical.disarm tm).tcb t).mutex = some m := hmut
    obtain ⟨timed, hp⟩ := h.waiting_of_mutex hmut
    have hat := h.tasks t
    rw [hp] at hat
    obtain ⟨htm, -, -, hsem⟩ := hat
    cases ho : (s.k.mutexes m).owner with
    | none =>
      rw [rxMutexHandler_unowned (m := m) (i := .mutex m) hl rfl htm hmut ho] at hrun
      cases hrun
    | some o =>
      by_cases hot : o = t
      · subst hot
        have ho' : ((s.k.enterCritical.disarm tm).mutexes m).owner = some o := ho
        simp only [rxMutexHandler, hmut', ho', if_true] at hrun
        obtain rfl := Except.ok.inj hrun
        exact ⟨hl.port.exit, m, timed, hp, rfl, Or.inl ⟨ho,
          .nobody (k := s.k) (e := (s.k.enterCritical.disarm tm).exitCritical) hl.exit.self (fun _ => Iff.rfl)
            (fun _ => .of_eq rfl) rfl (fun _ => rfl) _⟩⟩
      · have hor : ((s.k.disarm tm).tcb o).state = .ready → o ∈ lr := by
          intro hs
          rw [h.ready, show (s.k.tcb o).state = _ from hs]
          rfl
        obtain ⟨p, k₂, lr', hrun', hm, hls⟩ := rxMutexHandler_expires (m := m) (i := .mutex m) hl rfl htm hmut ho hor hot
        obtain rfl : k₂ = k₁ := Except.ok.inj (hrun'.symm.trans hrun)
        set e := timedOut (s.k.disarm tm) m t o p ((lw (.mutex m)).erase t) with he
        have hmtx : e.mutexes = Function.update s.k.mutexes m
            { s.k.mutexes m with task := ((lw (.mutex m)).erase t).head? } := rfl
        have hheads : heads e = Function.update (heads s.k) (.mutex m) ((lw (.mutex m)).erase t).head? :=
          heads_setMutex hmtx rfl
        have howner : ∀ j, (e.mutexes j).owner = (s.k.mutexes j).owner := owner_setMutex hmtx rfl
        refine ⟨hls.port.exit, m, timed, hp, ?_, Or.inr ⟨by simpa [ho] using hot, lr', _,
          .one (e := e) h.lists htm (by rw [hheads]; exact hls.exit) hm ⟨?_, ?_, ?_⟩ (fun u hu => ?_) rfl
            fun j u hju => Or.inl (by rw [← howner]; exact hju)⟩⟩
        · rw [← howner m, ← hls.data.mutexes]
          rfl
        · rw [he, timedOut_state, if_pos rfl]
        · rw [he, timedOut_mutex, if_pos rfl]
        · have hkeep := (s.k.disarm tm).setPrio_keeps o t p Tcb.sem fun _ => rfl
          have hself : (e.tcb t).sem = (((s.k.disarm tm).setPrio o p).tcb t).sem := by simp [he, timedOut]
          exact hself.trans (hkeep.trans hsem)
        · have hu' : e.tcb u = ((s.k.disarm tm).setPrio o p).tcb u := by simp [he, timedOut, Kernel.modTcb_of_ne _ hu]
          rw [hu']
          exact ⟨Kernel.setPrio_keeps _ _ _ _ Tcb.state fun _ => rfl, Kernel.setPrio_keeps _ _ _ _ Tcb.mutex fun _ => rfl,
            Kernel.setPrio_keeps _ _ _ _ Tcb.sem fun _ => rfl, Kernel.setPrio_keeps _ _ _ _ Tcb.timeout fun _ => rfl⟩

end Calls

end Takes

end ObjSys

end Rosx
