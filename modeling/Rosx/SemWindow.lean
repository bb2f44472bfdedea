/-
# A timed semaphore wait, step by step

After its last `rx_exit_critical` a timed `rx_semaphore_wait` is on the wait
chain and off the ready queue, but it still runs: it starts its timer, sets
`timeout` to `__RX_TIMER_ON`, stores the timer's address, takes itself off the
ready queue, and suspends itself (`rxSemTimeout_eq`). Interrupts are unmasked,
so between any two of these steps another task may be dispatched, post the
semaphore, or, as the timer thread, run `__rx_sem_handler`.

A wake-up in this window is lost: the later stores overwrite what it left, and
the task suspends itself although nobody will wake it again. `NoLostWakeup`
says that a task that is suspended in `__rx_sem_timeout` is on the wait chain
or has an active timer. It holds along every run in which no post and no
expiry takes a task off the chain while it is in the window
(`noLostWakeup_of_run`).

Key definitions: `SemWindow.exec`, `SemWindow.NoLostWakeup`, `SemWindow.WakeSafe`.
-/
import Rosx.Semaphore
import Rosx.Lib.Run

namespace Rosx

open Linked

variable {n : ℕ}

/-! ### The steps -/

/-- The timer is set up and started. -/
def semStart (k : Kernel n) (timeout : Word) (tm : ℕ) : Kernel n :=
  (k.rxInitTimer tm .semHandler k.curr timeout).rxStartTimer tm

/-- `__rx_curr_running_task->timeout = __RX_TIMER_ON;` -/
def semMark (k : Kernel n) : Kernel n := k.modTcb k.curr fun c => { c with timeout := rxTimerOn }

/-- `__rx_curr_running_task->timer = &timer;` -/
def semPoint (k : Kernel n) (tm : ℕ) : Kernel n := k.modTcb k.curr fun c => { c with timer := some tm }

/-- The first half of `rx_suspend_task(MYSELF)`. -/
def semUnqueue (k : Kernel n) : Res (Kernel n) := rxRemoveFromReadyQ k k.curr

/-- The second half of it. -/
def semSuspend (k : Kernel n) : Res (Kernel n) := rxSched (k.setState k.curr .suspend)

/-- The steps one after the other are `__rx_sem_timeout` up to the switch. -/
theorem rxSemTimeout_eq (k : Kernel n) (timeout : Word) (tm : ℕ) :
    rxSemTimeout k timeout tm = semUnqueue (semPoint (semMark (semStart k timeout tm)) tm) >>= semSuspend := by
  have hdata : semPoint (semMark (semStart k timeout tm)) tm =
      (semStart k timeout tm).modTcb (semStart k timeout tm).curr fun c =>
        { c with timeout := rxTimerOn, timer := some tm } := Kernel.modTcb_modTcb _ _ _ _
  rw [hdata]
  simp only [rxSemTimeout, rxSuspendTask, semUnqueue, semStart, bind_assoc, pure_bind]
  refine bind_congr fun k' => ?_
  rw [semSuspend, bind_pure]

/-- The steps that a task in the window has taken. -/
inductive SemStage where
  | chained
  | started
  | marked
  | pointed
  | unqueued
  deriving DecidableEq, Repr

/-- Where a task is: outside, in the window of a timed wait, or suspended, with
the timer of the call if it has a timeout. -/
inductive SemPc where
  | out
  | window (stage : SemStage) (m : ℕ) (timeout : Word) (tm : ℕ)
  | asleep (m : ℕ) (timer : Option ℕ)
  deriving DecidableEq, Repr

def SemPc.inWindow : SemPc → Bool
  | .window .. => true
  | _ => false

/-- The kernel, and where each task is. -/
structure SemWindow (n : ℕ) where
  k : Kernel n
  pc : Fin n → SemPc

/-- A step of a run. -/
inductive WindowCall (n : ℕ) where
  | wait (m : ℕ) (timeout : ℤ) (tm : ℕ)
  | advance
  | post (m : ℕ)
  | expire (tm : ℕ)
  | ret
  | dispatch (t : Fin n) (preempted : Bool)

namespace SemWindow

/-- The kernel becomes `k'`, with the running task at `p`. -/
def goto (s : SemWindow n) (p : SemPc) (k' : Kernel n) : SemWindow n where
  k := k'
  pc := Function.update s.pc s.k.curr p

theorem goto_goto {s : SemWindow n} {p q : SemPc} {k' k'' : Kernel n} (h : k'.curr = s.k.curr) :
    (s.goto p k').goto q k'' = s.goto q k'' := by
  simp [goto, h]

/-- The next step of the running task in the window. -/
def advance (s : SemWindow n) : Res (SemWindow n) :=
  match s.pc s.k.curr with
  | .window .chained m timeout tm => .ok (s.goto (.window .started m timeout tm) (semStart s.k timeout tm))
  | .window .started m timeout tm => .ok (s.goto (.window .marked m timeout tm) (semMark s.k))
  | .window .marked m timeout tm => .ok (s.goto (.window .pointed m timeout tm) (semPoint s.k tm))
  | .window .pointed m timeout tm => (semUnqueue s.k).map (s.goto (.window .unqueued m timeout tm))
  | .window .unqueued m _ tm => (semSuspend s.k).map (s.goto (.asleep m (some tm)))
  | _ => .ok s

/-- What a step computes: the code a call returns, if it returns, and the
system it leaves. A wait without timeout suspends at once. -/
def exec (s : SemWindow n) : WindowCall n → Res (Option OsErr × SemWindow n)
  | .wait m timeout tm => do
    let (r, k) ← rxSemWaitChain s.k m timeout
    if r.isSome then return (r, { s with k := k })
    else if timeout > 0 then return (none, s.goto (.window .chained m (BitVec.ofInt 32 timeout) tm) k)
    else
      let k ← rxSched k
      return (none, s.goto (.asleep m none) k)
  | .advance => s.advance.map (none, ·)
  | .post m => do
    let (r, k) ← rxSemaphorePost s.k m
    return (some r, { s with k := k })
  | .expire tm =>
    match (s.k.timers tm).priv with
    | none => .error .null
    | some t => do
      let k ← rxSemHandler (s.k.enterCritical.disarm tm) t
      return (none, { s with k := k.exitCritical })
  | .ret =>
    match s.pc s.k.curr with
    | .asleep _ tm => .ok (some (rxSemaphoreWaitRet s.k tm.isSome), s.goto .out s.k)
    | _ => .ok (none, s)
  | .dispatch t preempted => .ok (none, { s with k := s.k.dispatch t preempted })

/-- A task outside calls, and the timer thread is one; a task in the window
goes on in it. Only an active timer expires, and only a task on the ready
queue is dispatched. -/
def Admissible (s : SemWindow n) : WindowCall n → Prop
  | .wait _ timeout _ => s.pc s.k.curr = .out ∧ timeout < 2 ^ 31
  | .advance => (s.pc s.k.curr).inWindow = true
  | .post _ => s.pc s.k.curr = .out
  | .expire tm => s.pc s.k.curr = .out ∧ tm ∈ s.k.active ∧ (s.k.timers tm).handler = some .semHandler
  | .ret => s.pc s.k.curr ≠ .out ∧ (s.pc s.k.curr).inWindow = false
  | .dispatch t _ => t ∈ nodes s.k.next n s.k.readyHead

/-- The step relation; its label has the code that was returned. -/
def Step (s : SemWindow n) (c : WindowCall n × Option OsErr) (s' : SemWindow n) : Prop :=
  s.Admissible c.1 ∧ s.exec c.1 = .ok (c.2, s')

/-- The task is on the wait chain of semaphore `m`. -/
def OnChain (s : SemWindow n) (m : ℕ) (t : Fin n) : Prop := ∃ l, Chain s.k.next (s.k.sems m).task l ∧ t ∈ l

/-- A task that is suspended in `__rx_sem_timeout` is on the wait chain or has
its timer on the active list. -/
def NoLostWakeup (s : SemWindow n) : Prop :=
  ∀ t m tm, s.pc t = .asleep m (some tm) → (s.k.tcb t).state = .suspend → s.OnChain m t ∨ tm ∈ s.k.active

/-- The task that a post or an expiry is for is not in the window. -/
def WakeSafe (s : SemWindow n) (c : WindowCall n × Option OsErr) : Prop :=
  match c.1 with
  | .post m => ∀ t, (s.k.sems m).task = some t → (s.pc t).inWindow = false
  | .expire tm => ∀ t, (s.k.timers tm).priv = some t → (s.pc t).inWindow = false
  | _ => True

/-- Nobody waits for a semaphore; the ready queue holds the tasks that are
ready or running. -/
structure Init (s : SemWindow n) : Prop where
  sems : ∀ m, (s.k.sems m).task = none
  ready : ∃ lr, Chain s.k.next s.k.readyHead lr ∧ ∀ t, t ∈ lr ↔ (s.k.tcb t).state.runnable = true
  curr : (s.k.tcb s.k.curr).state.runnable = true
  port : s.k.port = {}
  free : ∀ t, (s.k.tcb t).sem = none
  pc : ∀ t, s.pc t = .out

/-! ### The invariant -/

/-- What holds of a task at each place, with the ready queue `lr` and the wait
chains `lw`: in the window it is on the chain, and once suspended it is on it
until it is woken. -/
def At (k : Kernel n) (lr : List (Fin n)) (lw : ℕ → List (Fin n)) (t : Fin n) : SemPc → Prop
  | .out => (∀ m, t ∉ lw m) ∧ (k.tcb t).sem = none
  | .window _ m _ _ => t ∈ lw m ∧ (k.tcb t).sem = some m
  | .asleep m _ => (t ∈ lw m ∧ (k.tcb t).sem = some m) ∨ (t ∈ lr ∧ (k.tcb t).sem = none)

structure Inv (s : SemWindow n) (lr : List (Fin n)) (lw : ℕ → List (Fin n)) : Prop where
  lists : Lists s.k s.k lr (fun m => (s.k.sems m).task) lw
  port : s.k.port = {}
  ready : ∀ t ∈ lr, (s.k.tcb t).state.runnable = true
  tasks : ∀ t, At s.k lr lw t (s.pc t)
  -- the running task is still the last one on the chain if it is in the window
  curr : s.k.curr ∈ lr ∨ ∃ st m timeout tm l, s.pc s.k.curr = .window st m timeout tm ∧ lw m = l ++ [s.k.curr]

theorem At.of_eq {k k' : Kernel n} {lr lr' : List (Fin n)} {lw lw' : ℕ → List (Fin n)} {t : Fin n} {p : SemPc}
    (h : At k lr lw t p) (hlw : ∀ m, t ∈ lw' m ↔ t ∈ lw m) (hlr : t ∈ lr → t ∈ lr')
    (hsem : (k'.tcb t).sem = (k.tcb t).sem) : At k' lr' lw' t p := by
  cases p with
  | out => exact ⟨fun m ht => h.1 m ((hlw m).mp ht), hsem.trans h.2⟩
  | window st m timeout tm => exact ⟨(hlw m).mpr h.1, hsem.trans h.2⟩
  | asleep m tm =>
    rcases h with ⟨hm, hs⟩ | ⟨hr, hs⟩
    · exact Or.inl ⟨(hlw m).mpr hm, hsem.trans hs⟩
    · exact Or.inr ⟨hlr hr, hsem.trans hs⟩

theorem Init.inv {s : SemWindow n} (h : Init s) : ∃ lr, Inv s lr (fun _ => []) := by
  obtain ⟨lr, hc, hr⟩ := h.ready
  refine ⟨lr, ⟨Relinked.refl _, Or.inl h.port, hc, fun m => h.sems m, ?_, ?_⟩, h.port, fun t => (hr t).mp, fun t => ?_,
    Or.inl ((hr _).mpr h.curr)⟩
  · simp
  · simp
  · rw [h.pc]
    exact ⟨fun m => by simp, h.free t⟩

section Calls

variable {s s' : SemWindow n} {lr lr' : List (Fin n)} {lw lw' : ℕ → List (Fin n)} {m : ℕ} {r : Option OsErr}

/-- A task in the window or suspended on the chain is not on the ready queue. -/
theorem Inv.curr_notMem (h : Inv s lr lw) {st : SemStage} {timeout : Word} {tm : ℕ}
    (hpc : s.pc s.k.curr = .window st m timeout tm) : s.k.curr ∉ lr ∧ ∃ l, lw m = l ++ [s.k.curr] := by
  have hat := h.tasks s.k.curr
  rw [hpc] at hat
  have hnot : s.k.curr ∉ lr := h.lists.notReady m _ hat.1
  rcases h.curr with hc | ⟨st', m', timeout', tm', l, hpc', hl⟩
  · exact absurd hc hnot
  · rw [hpc] at hpc'
    cases hpc'
    exact ⟨hnot, l, hl⟩

/-- A task that is not in the window runs from the ready queue. -/
theorem Inv.curr_mem (h : Inv s lr lw) (hpc : (s.pc s.k.curr).inWindow = false) : s.k.curr ∈ lr := by
  rcases h.curr with hc | ⟨st, m, timeout, tm, l, hpc', -⟩
  · exact hc
  · rw [hpc'] at hpc
    cases hpc

/-- A step of the window keeps the lists. -/
theorem Inv.advance (h : Inv s lr lw) {st st' : SemStage} {timeout : Word} {tm : ℕ}
    (hpc : s.pc s.k.curr = .window st m timeout tm) {k' : Kernel n}
    (hl : Lists k' k' lr (fun m => (k'.sems m).task) lw) (hport : k'.port = {})
    (hst : ∀ t, (k'.tcb t).state = (s.k.tcb t).state) (hsem : ∀ t, (k'.tcb t).sem = (s.k.tcb t).sem)
    (hcurr : k'.curr = s.k.curr) : Inv (s.goto (.window st' m timeout tm) k') lr lw := by
  obtain ⟨hnot, l, hlast⟩ := h.curr_notMem hpc
  have hat := h.tasks s.k.curr
  rw [hpc] at hat
  refine ⟨hl, hport, fun t ht => ?_, fun t => ?_, Or.inr ⟨st', m, timeout, tm, l, ?_, ?_⟩⟩
  · show (k'.tcb t).state.runnable = true
    rw [hst]
    exact h.ready t ht
  · show At k' lr lw t (Function.update s.pc s.k.curr _ t)
    by_cases ht : t = s.k.curr
    · subst ht
      rw [Function.update_self]
      exact ⟨hat.1, (hsem _).trans hat.2⟩
    · rw [Function.update_of_ne ht]
      exact (h.tasks t).of_eq (fun _ => Iff.rfl) id (hsem t)
  · show Function.update s.pc s.k.curr _ k'.curr = _
    rw [hcurr, Function.update_self]
  · show lw m = l ++ [k'.curr]
    rw [hcurr]
    exact hlast

/-- The task is suspended: it is on the chain, and another one runs. -/
theorem Inv.suspend (h : Inv s lr lw) {st : SemStage} {timeout : Word} {tm : ℕ} (timer : Option ℕ)
    (hpc : s.pc s.k.curr = .window st m timeout tm) {k' : Kernel n} (hk : semSuspend s.k = .ok k') :
    Inv (s.goto (.asleep m timer) k') lr lw := by
  obtain ⟨hnot, -⟩ := h.curr_notMem hpc
  have hat := h.tasks s.k.curr
  rw [hpc] at hat
  have h1 := h.lists.setState s.k.curr .suspend
  cases hx : lr with
  | nil =>
    rw [hx] at h1
    rw [semSuspend, h1.sched_nil] at hk
    cases hk
  | cons x l' =>
    obtain ⟨k2, hsched, hport, h2⟩ := h1.sched hnot hx
    obtain rfl : k2 = k' := Except.ok.inj (hsched.symm.trans hk)
    have hxr : x ∈ lr := by rw [hx]; exact List.mem_cons_self
    have hsem : ∀ t, (k2.tcb t).sem = (s.k.tcb t).sem := by
      intro t
      rw [h2.data.sem, Kernel.switchTo_sem]
      by_cases ht : t = s.k.curr
      · subst ht; simp [Kernel.setState]
      · simp [Kernel.setState, ht]
    have hheads : ∀ i, (k2.sems i).task = (s.k.sems i).task := by
      intro i
      rw [h2.data.sems]
      rfl
    rw [← hx]
    refine ⟨h2.self.congr_heads hheads, hport, fun t ht => ?_, fun t => ?_, Or.inl ?_⟩
    · show (k2.tcb t).state.runnable = true
      rw [h2.data.state, Kernel.switchTo_state]
      split_ifs with htx
      · rfl
      · have htc : t ≠ s.k.curr := ne_of_mem_of_not_mem ht hnot
        simpa [Kernel.setState, htc] using h.ready t ht
    · show At k2 lr lw t (Function.update s.pc s.k.curr _ t)
      by_cases ht : t = s.k.curr
      · subst ht
        rw [Function.update_self]
        exact Or.inl ⟨hat.1, (hsem _).trans hat.2⟩
      · rw [Function.update_of_ne ht]
        exact (h.tasks t).of_eq (fun _ => Iff.rfl) id (hsem t)
    · show k2.curr ∈ lr
      rw [h2.data.curr]
      exact hxr

/-- The running task joins the chain and is in the window. -/
theorem Inv.chain (h : Inv s lr lw) (hpc : s.pc s.k.curr = .out) (hv : (s.k.sems m).currVal ≤ 0) {timeout : ℤ}
    (h0 : timeout ≠ osNoWait) (ticks : Word) (tm : ℕ) :
    ∃ k', rxSemWaitChain s.k m timeout = .ok (none, k') ∧ k'.curr = s.k.curr ∧ (k'.tcb k'.curr).state = .suspend ∧
      Inv (s.goto (.window .chained m ticks tm) k') (lr.erase s.k.curr)
        (Function.update lw m (lw m ++ [s.k.curr])) := by
  have hcr : s.k.curr ∈ lr := h.curr_mem (by rw [hpc]; rfl)
  have hnd := h.lists.ready.nodup
  obtain ⟨k', hrun, hport, hls⟩ := rxSemWaitChain_blocks (i := m) h.lists rfl hv hcr h0
  have hcurr : k'.curr = s.k.curr := hls.data.curr
  have hother : ∀ t, t ≠ s.k.curr → (semBlocked s.k m (lw m)).tcb t = s.k.tcb t := by
    intro t ht
    simp [semBlocked, Kernel.modTcb_of_ne _ ht]
  have hheads : ∀ i, (k'.sems i).task = Function.update (fun i => (s.k.sems i).task) m (lw m ++ [s.k.curr]).head? i := by
    intro i
    rw [hls.data.sems, semBlocked_task]
  refine ⟨k', hrun, hcurr, ?_, hls.self.congr_heads hheads, hport, fun t ht => ?_, fun t => ?_,
    Or.inr ⟨.chained, m, ticks, tm, lw m, ?_, ?_⟩⟩
  · rw [hcurr, hls.data.state]
    simp [semBlocked]
  · have htc : t ≠ s.k.curr := (hnd.mem_erase_iff.mp ht).1
    show (k'.tcb t).state.runnable = true
    rw [hls.data.state, hother t htc]
    exact h.ready t (List.mem_of_mem_erase ht)
  · show At k' _ _ t (Function.update s.pc s.k.curr _ t)
    by_cases ht : t = s.k.curr
    · subst ht
      rw [Function.update_self]
      refine ⟨?_, ?_⟩
      · rw [Function.update_self]
        simp
      · rw [hls.data.sem]
        simp [semBlocked]
    · rw [Function.update_of_ne ht]
      refine (h.tasks t).of_eq (fun i => ?_) (fun hm => hnd.mem_erase_iff.mpr ⟨ht, hm⟩) ?_
      · by_cases hi : i = m
        · subst hi; simp [ht]
        · rw [Function.update_of_ne hi]
      · rw [hls.data.sem, hother t ht]
  · show Function.update s.pc s.k.curr _ k'.curr = _
    rw [hcurr, Function.update_self]
  · show Function.update lw m _ m = lw m ++ [k'.curr]
    rw [Function.update_self, hcurr]

/-- A step that touches neither the lists nor the tasks. -/
theorem Inv.of_eq (h : Inv s lr lw) {k' : Kernel n} (hl : Lists k' k' lr (fun m => (k'.sems m).task) lw)
    (hport : k'.port = {}) (htcb : k'.tcb = s.k.tcb) (hcurr : k'.curr = s.k.curr) : Inv { s with k := k' } lr lw := by
  refine ⟨hl, hport, fun t ht => ?_, fun t => ?_, ?_⟩
  · show (k'.tcb t).state.runnable = true
    rw [htcb]
    exact h.ready t ht
  · exact (h.tasks t).of_eq (fun _ => Iff.rfl) id (by rw [htcb])
  · show k'.curr ∈ lr ∨ ∃ st m timeout tm l, s.pc k'.curr = .window st m timeout tm ∧ lw m = l ++ [k'.curr]
    rw [hcurr]
    exact h.curr

/-- A task that is suspended on the chain is taken off it and put on the ready
queue. -/
theorem Inv.wake (h : Inv s lr lw) (hcr : s.k.curr ∈ lr) {k' : Kernel n} {t : Fin n} {timer : Option ℕ}
    (hpc : s.pc t = .asleep m timer) (ht : t ∈ lw m)
    (hl : Lists k' k' lr' (fun m => (k'.sems m).task) (Function.update lw m ((lw m).erase t))) (hport : k'.port = {})
    (hm : ∀ u, u ∈ lr' ↔ u = t ∨ u ∈ lr) (hcurr : k'.curr = s.k.curr)
    (hst : ∀ u, (k'.tcb u).state = if u = t then .ready else (s.k.tcb u).state)
    (hsem : ∀ u, (k'.tcb u).sem = if u = t then none else (s.k.tcb u).sem) :
    Inv { s with k := k' } lr' (Function.update lw m ((lw m).erase t)) := by
  have hnd : (lw m).Nodup := (h.lists.wait m).nodup
  refine ⟨hl, hport, fun u hu => ?_, fun u => ?_, Or.inl ?_⟩
  · show (k'.tcb u).state.runnable = true
    rw [hst]
    split_ifs with hut
    · rfl
    · exact h.ready u (((hm u).mp hu).resolve_left hut)
  · by_cases hut : u = t
    · subst hut
      show At k' _ _ u (s.pc u)
      rw [hpc]
      exact Or.inr ⟨(hm u).mpr (Or.inl rfl), by rw [hsem, if_pos rfl]⟩
    · refine (h.tasks u).of_eq (fun i => ?_) (fun hr => (hm u).mpr (Or.inr hr)) ?_
      · by_cases hi : i = m
        · subst hi
          rw [Function.update_self, hnd.mem_erase_iff]
          exact and_iff_right hut
        · rw [Function.update_of_ne hi]
      · show (k'.tcb u).sem = _
        rw [hsem, if_neg hut]
  · show k'.curr ∈ lr'
    rw [hcurr]
    exact (hm _).mpr (Or.inr hcr)

/-- A task on a chain is suspended there, or in the window. -/
theorem Inv.asleep_of_mem (h : Inv s lr lw) {t : Fin n} (ht : t ∈ lw m) (hw : (s.pc t).inWindow = false) :
    ∃ timer, s.pc t = .asleep m timer := by
  have hat := h.tasks t
  cases hpc : s.pc t with
  | out =>
    rw [hpc] at hat
    exact absurd ht (hat.1 m)
  | window st m' timeout tm =>
    rw [hpc] at hw
    cases hw
  | asleep m' timer =>
    rw [hpc] at hat
    rcases hat with ⟨hm', -⟩ | ⟨hr, -⟩
    · obtain rfl := h.lists.apart m' m t hm' ht
      exact ⟨timer, rfl⟩
    · exact absurd hr (h.lists.notReady m t ht)

theorem post_inv (h : Inv s lr lw) (hpc : s.pc s.k.curr = .out)
    (hsafe : ∀ t, (s.k.sems m).task = some t → (s.pc t).inWindow = false) {k' : Kernel n} {r : OsErr}
    (hk : rxSemaphorePost s.k m = .ok (r, k')) : ∃ lr' lw', Inv { s with k := k' } lr' lw' := by
  have hcr : s.k.curr ∈ lr := h.curr_mem (by rw [hpc]; rfl)
  have hchain : Chain s.k.next (s.k.sems m).task (lw m) := h.lists.wait m
  cases hl : lw m with
  | nil =>
    rw [hl] at hchain
    rw [rxSemaphorePost_idle hchain, enter_exit h.port] at hk
    obtain ⟨-, rfl⟩ := Prod.mk.inj (Except.ok.inj hk)
    exact ⟨lr, lw, h⟩
  | cons t l =>
    obtain ⟨k1, lr', hrun, hport, hm, hls⟩ := rxSemaphorePost_wakes (i := m) h.lists rfl hl
    obtain ⟨-, rfl⟩ := Prod.mk.inj (Except.ok.inj (hrun.symm.trans hk))
    have htm : t ∈ lw m := by rw [hl]; exact List.mem_cons_self
    rw [hl] at hchain
    obtain ⟨timer, htp⟩ := h.asleep_of_mem htm (hsafe t hchain.1)
    have herase : (lw m).erase t = l := by rw [hl, List.erase_cons_head]
    have hheads : ∀ i, (k1.sems i).task = Function.update (fun i => (s.k.sems i).task) m l.head? i := by
      intro i
      rw [hls.data.sems, posted_task]
    refine ⟨lr', _, h.wake hcr htp htm ?_ hport hm ?_ (fun u => ?_) fun u => ?_⟩
    · rw [herase]
      exact hls.self.congr_heads hheads
    · rw [hls.data.curr]
      rfl
    · rw [hls.data.state, posted_state]
    · rw [hls.data.sem, posted_sem]

theorem expire_inv (h : Inv s lr lw) (hpc : s.pc s.k.curr = .out) {tm : ℕ} {t : Fin n}
    (hsafe : (s.pc t).inWindow = false) {k' : Kernel n}
    (hk : rxSemHandler (s.k.enterCritical.disarm tm) t = .ok k') :
    ∃ lr' lw', Inv { s with k := k'.exitCritical } lr' lw' := by
  have hcr : s.k.curr ∈ lr := h.curr_mem (by rw [hpc]; rfl)
  have hls0 := h.lists.enter.disarm tm
  cases hts : (s.k.tcb t).sem with
  | none =>
    have hts' : ((s.k.enterCritical.disarm tm).tcb t).sem = none := hts
    rw [rxSemHandler_idle hts'] at hk
    obtain rfl := Except.ok.inj hk
    exact ⟨lr, lw, h.of_eq (hls0.exit.self.congr_heads fun _ => rfl) hls0.port.exit rfl rfl⟩
  | some m =>
    -- a task with a semaphore is on its chain
    have htm : t ∈ lw m := by
      have hat := h.tasks t
      cases htp : s.pc t with
      | out => rw [htp] at hat; rw [hat.2] at hts; cases hts
      | window st m' timeout tm' =>
        rw [htp] at hat
        rw [hat.2] at hts
        exact Option.some.inj hts ▸ hat.1
      | asleep m' timer =>
        rw [htp] at hat
        rcases hat with ⟨hm', hs⟩ | ⟨-, hs⟩
        · rw [hs] at hts
          exact Option.some.inj hts ▸ hm'
        · rw [hs] at hts
          cases hts
    obtain ⟨timer, htp⟩ := h.asleep_of_mem htm hsafe
    obtain ⟨k1, lr', hrun, hm, hls⟩ := rxSemHandler_spec (i := m) hls0 rfl htm hts
    obtain rfl : k1 = k' := Except.ok.inj (hrun.symm.trans hk)
    have hls' := hls.exit
    have hheads : ∀ i, (k1.exitCritical.sems i).task =
        Function.update (fun i => (s.k.sems i).task) m ((lw m).erase t).head? i := by
      intro i
      rw [hls'.data.sems, semExpired_task]
      rfl
    refine ⟨lr', _, h.wake hcr htp htm (hls'.self.congr_heads hheads) hls.port.exit hm ?_ (fun u => ?_) fun u => ?_⟩
    · rw [hls'.data.curr]
      rfl
    · rw [hls'.data.state, semExpired_state]
      rfl
    · rw [hls'.data.sem, semExpired_sem]
      rfl

theorem dispatch_inv (h : Inv s lr lw) {t : Fin n} (ht : t ∈ lr) (p : Bool) :
    Inv { s with k := s.k.dispatch t p } lr lw := by
  have hsems : (s.k.dispatch t p).sems = s.k.sems := by rw [Kernel.dispatch_rest]
  have hport : (s.k.dispatch t p).port = s.k.port := by rw [Kernel.dispatch_rest]
  refine ⟨?_, hport.trans h.port, fun u hu => ?_, fun u => ?_, Or.inl ht⟩
  · apply (h.lists.dispatch t p).congr_heads
    intro i
    show ((s.k.dispatch t p).sems i).task = _
    rw [hsems]
  · show ((s.k.dispatch t p).tcb u).state.runnable = true
    rw [Kernel.dispatch_state]
    split_ifs
    · rfl
    · rfl
    · exact h.ready u hu
  · apply (h.tasks u).of_eq (fun _ => Iff.rfl) id
    rw [Kernel.dispatch_tcb]

theorem wait_inv (h : Inv s lr lw) {timeout : ℤ} {tm : ℕ} (hpc : s.pc s.k.curr = .out)
    (he : s.exec (.wait m timeout tm) = .ok (r, s')) : ∃ lr' lw', Inv s' lr' lw' := by
  obtain ⟨⟨r1, k1⟩, hchain, he⟩ := bind_eq_ok.mp he
  by_cases hv : (s.k.sems m).currVal > 0
  · -- a permit is there
    rw [rxSemWaitChain_takes hv] at hchain
    obtain ⟨rfl, rfl⟩ := Prod.mk.inj (Except.ok.inj hchain)
    obtain ⟨-, rfl⟩ := Prod.mk.inj (Except.ok.inj he)
    refine ⟨lr, lw, h.of_eq ?_ h.lists.port.enter.exit rfl rfl⟩
    apply (h.lists.enter.setSem m { s.k.sems m with currVal := (s.k.sems m).currVal - 1 }).exit.self.congr_heads
    intro i
    show (Function.update s.k.sems m _ i).task = _
    by_cases hi : i = m
    · subst hi; simp
    · simp [hi]
  · have hv' : (s.k.sems m).currVal ≤ 0 := by omega
    by_cases h0 : timeout = osNoWait
    · subst h0
      rw [rxSemWaitChain_noWait hv', enter_exit h.port] at hchain
      obtain ⟨rfl, rfl⟩ := Prod.mk.inj (Except.ok.inj hchain)
      obtain ⟨-, rfl⟩ := Prod.mk.inj (Except.ok.inj he)
      exact ⟨lr, lw, h⟩
    · obtain ⟨k2, hrun, hcurr, hst, hi⟩ := h.chain hpc hv' h0 (BitVec.ofInt 32 timeout) tm
      obtain ⟨rfl, rfl⟩ := Prod.mk.inj (Except.ok.inj (hrun.symm.trans hchain))
      simp only [Option.isSome_none, Bool.false_eq_true, if_false] at he
      split_ifs at he with hpos
      · obtain ⟨-, rfl⟩ := Prod.mk.inj (Except.ok.inj he)
        exact ⟨_, _, hi⟩
      · -- without a timeout it suspends at once
        obtain ⟨k3, hsched, he⟩ := bind_eq_ok.mp he
        obtain ⟨-, rfl⟩ := Prod.mk.inj (Except.ok.inj he)
        have hsus : semSuspend k2 = .ok k3 := by
          have hself : k2.setState k2.curr .suspend = k2 := by
            rw [← hst]
            simp [Kernel.setState, Kernel.setTcb]
          rw [semSuspend, hself]
          exact hsched
        have hpc1 : (s.goto (.window .chained m (BitVec.ofInt 32 timeout) tm) k2).pc k2.curr =
            .window .chained m (BitVec.ofInt 32 timeout) tm := by
          rw [hcurr]
          exact Function.update_self _ _ _
        have hi' := hi.suspend none hpc1 hsus
        rw [goto_goto hcurr] at hi'
        exact ⟨_, _, hi'⟩

theorem advance_inv (h : Inv s lr lw) (hw : (s.pc s.k.curr).inWindow = true) (he : s.advance = .ok s') :
    Inv s' lr lw := by
  obtain ⟨st, m, timeout, tm, hpc⟩ : ∃ st m timeout tm, s.pc s.k.curr = .window st m timeout tm := by
    cases hpc : s.pc s.k.curr with
    | out => rw [hpc] at hw; cases hw
    | window st m timeout tm => exact ⟨st, m, timeout, tm, rfl⟩
    | asleep m timer => rw [hpc] at hw; cases hw
  unfold SemWindow.advance at he
  rw [hpc] at he
  cases st with
  | chained =>
    obtain rfl := Except.ok.inj he
    refine h.advance hpc ?_ (start_init_port _ _ h.port) (fun t => ?_) (fun t => ?_) ?_
    · apply ((h.lists.rxInitTimer tm .semHandler s.k.curr timeout).rxStartTimer tm).self.congr_heads
      intro i
      simp [semStart]
    · simp [semStart]
    · simp [semStart]
    · simp [semStart]
  | started =>
    obtain rfl := Except.ok.inj he
    exact h.advance hpc ((h.lists.modTcb s.k.curr fun _ _ => rfl).self.congr_heads fun _ => rfl) h.port
      (fun t => Kernel.modTcb_keeps _ _ t Tcb.state fun _ => rfl)
      (fun t => Kernel.modTcb_keeps _ _ t Tcb.sem fun _ => rfl) rfl
  | marked =>
    obtain rfl := Except.ok.inj he
    exact h.advance hpc ((h.lists.modTcb s.k.curr fun _ _ => rfl).self.congr_heads fun _ => rfl) h.port
      (fun t => Kernel.modTcb_keeps _ _ t Tcb.state fun _ => rfl)
      (fun t => Kernel.modTcb_keeps _ _ t Tcb.sem fun _ => rfl) rfl
  | pointed =>
    obtain ⟨k1, hrem, rfl⟩ := map_eq_ok.mp he
    obtain ⟨hnot, l, hl⟩ := h.curr_notMem hpc
    have hnone : s.k.next s.k.curr = none := by
      have hchain := h.lists.wait m
      rw [hl] at hchain
      exact next_of_chain_concat hchain
    have hne : lr ≠ [] := by
      rintro rfl
      rw [semUnqueue, rxRemoveFromReadyQ_empty h.lists.ready] at hrem
      cases hrem
    obtain ⟨k2, hrem', h2⟩ := h.lists.removeReady_of_notMem hnot hne hnone
    obtain rfl : k2 = k1 := Except.ok.inj (hrem'.symm.trans hrem)
    refine h.advance hpc (h2.self.congr_heads fun i => ?_) ?_ h2.data.state h2.data.sem h2.data.curr
    · rw [h2.data.sems]
    · rw [rxRemoveFromReadyQ_port hrem, h.port]
      rfl
  | unqueued =>
    obtain ⟨k1, hsus, rfl⟩ := map_eq_ok.mp he
    exact h.suspend _ hpc hsus

end Calls

/-! ### Whole runs -/

section Run

variable {s s' : SemWindow n} {lr : List (Fin n)} {lw : ℕ → List (Fin n)} {c : WindowCall n × Option OsErr}

theorem step_inv (h : ∃ lr lw, Inv s lr lw) (hsafe : WakeSafe s c) (hst : Step s c s') : ∃ lr lw, Inv s' lr lw := by
  obtain ⟨lr, lw, h⟩ := h
  obtain ⟨c, r⟩ := c
  obtain ⟨ha, he⟩ := hst
  cases c with
  | wait m timeout tm => exact wait_inv h ha.1 he
  | advance =>
    obtain ⟨s1, hadv, he⟩ := map_eq_ok.mp he
    obtain ⟨-, rfl⟩ := Prod.mk.inj he
    exact ⟨lr, lw, advance_inv h ha hadv⟩
  | post m =>
    obtain ⟨⟨r1, k1⟩, hpost, he⟩ := bind_eq_ok.mp he
    obtain ⟨-, rfl⟩ := Prod.mk.inj (Except.ok.inj he)
    exact post_inv h ha hsafe hpost
  | expire tm =>
    simp only [exec] at he
    split at he
    · cases he
    · rename_i t ht
      obtain ⟨k1, hhan, he⟩ := bind_eq_ok.mp he
      obtain ⟨-, rfl⟩ := Prod.mk.inj (Except.ok.inj he)
      exact expire_inv h ha.1 (hsafe t ht) hhan
  | ret =>
    simp only [exec] at he
    split at he
    · rename_i m timer hpc
      obtain ⟨-, rfl⟩ := Prod.mk.inj (Except.ok.inj he)
      have hcr := h.curr_mem ha.2
      have hat := h.tasks s.k.curr
      rw [hpc] at hat
      have hsem : (s.k.tcb s.k.curr).sem = none := by
        rcases hat with ⟨hm, -⟩ | ⟨-, hs⟩
        · exact absurd hcr (h.lists.notReady m _ hm)
        · exact hs
      refine ⟨lr, lw, h.lists, h.port, h.ready, fun t => ?_, Or.inl hcr⟩
      show At s.k lr lw t (Function.update s.pc s.k.curr .out t)
      by_cases ht : t = s.k.curr
      · subst ht
        rw [Function.update_self]
        exact ⟨fun i hi => h.lists.notReady i _ hi hcr, hsem⟩
      · rw [Function.update_of_ne ht]
        exact h.tasks t
    · obtain ⟨-, rfl⟩ := Prod.mk.inj (Except.ok.inj he)
      exact ⟨lr, lw, h⟩
  | dispatch t p =>
    obtain ⟨-, rfl⟩ := Prod.mk.inj (Except.ok.inj he)
    have ht : t ∈ lr := by
      rw [← h.lists.ready.nodes_eq]
      exact ha
    exact ⟨lr, lw, dispatch_inv h ht p⟩

theorem Inv.noLostWakeup (h : Inv s lr lw) : NoLostWakeup s := by
  intro t m tm hpc hst
  have hat := h.tasks t
  rw [hpc] at hat
  rcases hat with ⟨hm, -⟩ | ⟨hr, -⟩
  · exact Or.inl ⟨lw m, h.lists.wait m, hm⟩
  · have hrun := h.ready t hr
    rw [hst] at hrun
    cases hrun

/-- **No wake-up is lost.** In every run in which no post and no expiry comes
for a task between its last `rx_exit_critical` and its suspension, a task that
is suspended in a timed wait is on the wait chain or has an active timer. -/
theorem noLostWakeup_of_run (hi : Init s) {tr : List ((WindowCall n × Option OsErr) × SemWindow n)}
    (h : Run.Exec Step s tr) (hg : Run.Guarded WakeSafe s tr) : ∀ x ∈ Run.states s tr, NoLostWakeup x := by
  obtain ⟨lr, hinv⟩ := hi.inv
  intro x hx
  obtain ⟨lr', lw', hx⟩ := h.invariant_of_guarded (fun s => ∃ lr lw, Inv s lr lw) (fun _ _ _ => step_inv) hg
    ⟨lr, _, hinv⟩ x hx
  exact hx.noLostWakeup

end Run

instance (s : SemWindow n) : ∀ c, Decidable (s.Admissible c)
  | .wait _ timeout _ => inferInstanceAs (Decidable (s.pc s.k.curr = .out ∧ timeout < 2 ^ 31))
  | .advance => inferInstanceAs (Decidable ((s.pc s.k.curr).inWindow = true))
  | .post _ => inferInstanceAs (Decidable (s.pc s.k.curr = .out))
  | .expire tm => inferInstanceAs
      (Decidable (s.pc s.k.curr = .out ∧ tm ∈ s.k.active ∧ (s.k.timers tm).handler = some .semHandler))
  | .ret => inferInstanceAs (Decidable (s.pc s.k.curr ≠ .out ∧ (s.pc s.k.curr).inWindow = false))
  | .dispatch t _ => inferInstanceAs (Decidable (t ∈ nodes s.k.next n s.k.readyHead))

instance (s : SemWindow n) : ∀ c, Decidable (WakeSafe s c)
  | (.post m, _) => inferInstanceAs (Decidable (∀ t, (s.k.sems m).task = some t → (s.pc t).inWindow = false))
  | (.expire tm, _) => inferInstanceAs (Decidable (∀ t, (s.k.timers tm).priv = some t → (s.pc t).inWindow = false))
  | (.wait _ _ _, _) | (.advance, _) | (.ret, _) | (.dispatch _ _, _) => inferInstanceAs (Decidable True)

/-- Three ready tasks and a new semaphore of one permit; task 0 runs. -/
def threeTasks : SemWindow 3 where
  k := (rxCreateSemaphore (Kernel.allReady 2) 0 1).2
  pc := fun _ => .out

theorem threeTasks_init : Init threeTasks where
  sems := fun m => by
    rcases m with _ | m <;> rfl
  ready := ⟨[0, 1, 2], by decide, by decide⟩
  curr := rfl
  port := rfl
  free := by decide
  pc := fun _ => rfl

/-- Task 0 has the permit; task 1 waits for it with a timeout and suspends
itself, task 2 is preempted right after it has started its timer; task 0 posts,
and task 1 returns. -/
theorem noLostWakeup_preemptedRun : Init threeTasks ∧ ∃ tr, Run.Exec Step threeTasks tr ∧
    Run.Guarded WakeSafe threeTasks tr ∧ tr.length = 14 ∧ ∀ x ∈ Run.states threeTasks tr, NoLostWakeup x := by
  refine ⟨threeTasks_init, ?_⟩
  have hrun := Run.exists_exec (f := Run.attempt Admissible exec) (fun _ _ _ => Run.step_of_attempt) (s := threeTasks)
    [(.wait 0 osNoWait 0, some .osOk), (.dispatch 1 true, none), (.wait 0 5 7, none), (.advance, none),
      (.advance, none), (.advance, none), (.advance, none), (.advance, none), (.dispatch 2 true, none),
      (.wait 0 5 8, none), (.advance, none), (.dispatch 0 true, none), (.post 0, some .osOk), (.dispatch 1 true, none)]
    (fun tr => decide (Run.Guarded WakeSafe threeTasks tr ∧ tr.length = 14)) (by decide +kernel)
  obtain ⟨tr, hex, hp⟩ := hrun
  obtain ⟨hg, hlen⟩ := of_decide_eq_true hp
  exact ⟨tr, hex, hg, hlen, noLostWakeup_of_run threeTasks_init hex hg⟩

/-- The timer of task 1 expires right after it was started. Task 1 is put on
the ready queue, goes on, sets `timeout` again and suspends itself: it is on
no chain and its timer is gone. -/
theorem expiry_in_window_lost : Init threeTasks ∧ ∃ tr, Run.Exec Step threeTasks tr ∧
    ¬ ∀ x ∈ Run.states threeTasks tr, NoLostWakeup x := by
  refine ⟨threeTasks_init, ?_⟩
  have hrun := Run.exists_exec (f := Run.attempt Admissible exec) (fun _ _ _ => Run.step_of_attempt) (s := threeTasks)
    [(.wait 0 osNoWait 0, some .osOk), (.dispatch 1 true, none), (.wait 0 1 7, none), (.advance, none),
      (.dispatch 0 true, none), (.expire 7, none), (.dispatch 1 true, none), (.advance, none), (.advance, none),
      (.advance, none), (.advance, none)]
    (fun tr => decide (∃ x ∈ Run.states threeTasks tr, x.pc 1 = .asleep 0 (some 7) ∧ (x.k.tcb 1).state = .suspend ∧
      (x.k.sems 0).task = none ∧ x.k.active = [])) (by decide +kernel)
  obtain ⟨tr, hex, hp⟩ := hrun
  obtain ⟨x, hx, hpc, hst, htask, hact⟩ := of_decide_eq_true hp
  refine ⟨tr, hex, fun hall => ?_⟩
  rcases hall x hx 1 0 7 hpc hst with ⟨l, hl, hm⟩ | hm
  · rw [htask] at hl
    rw [hl.unique (m := []) rfl] at hm
    cases hm
  · rw [hact] at hm
    cases hm

end SemWindow

end Rosx
