/-
# Semaphores

`kernel/rx_semaphore.c`. `rx_semaphore_wait` is cut where it gives up the
processor: `rxSemaphoreWait` is the call up to its return or to the switch to
another task, `rxSemaphoreWaitRet` what is left of a blocked call.

`rx_semaphore_post` counts only a permit that it passes on
(`rxSemaphorePost_idle`), and it does not stop the timer of the task it
wakes.
-/
import Rosx.Timer

namespace Rosx

open Linked

variable {n : ℕ}

/-- `rx_create_semaphore`. -/
def rxCreateSemaphore (k : Kernel n) (m : ℕ) (val : ℤ) : OsErr × Kernel n :=
  if val ≤ 0 then (.osErr, k)
  else (.osOk, (k.enterCritical.setSem m { initVal := val, currVal := val, task := none }).exitCritical)

/-- `rx_semaphore_post`. -/
def rxSemaphorePost (k : Kernel n) (m : ℕ) : Res (OsErr × Kernel n) :=
  let k := k.enterCritical
  match (k.sems m).task with
  | none => .ok (.osOk, k.exitCritical)
  | some t => do
    let k := k.setSem m { k.sems m with task := (k.tcb t).next }
    let k := k.modTcb t fun c => { c with state := .ready, sem := none }
    let (_, k) ← rxAddToReadyQ k t
    let k := k.setSem m { k.sems m with currVal := (k.sems m).currVal + 1 }
    return (.osOk, k.exitCritical)

/-- The body of the loop of `rx_delete_semaphore`: the task `t` at the head of
the chain is made ready. -/
def deleteSemWaiter (m : ℕ) (k : Kernel n) (t : Fin n) : Res (Kernel n) := do
  let k := k.modTcb t fun c => { c with state := .ready, sem := none }
  let k := dropTimer k t
  let k := k.setSem m { k.sems m with task := (k.tcb t).next }
  let (_, k) ← rxAddToReadyQ k t
  return k

/-- `rx_delete_semaphore`. -/
def rxDeleteSemaphore (k : Kernel n) (m : ℕ) : Res (Kernel n) := do
  let k ← drainLoop (fun k => (k.sems m).task) (deleteSemWaiter m) (n + 1) k.enterCritical
  return k.exitCritical

/-- `__rx_sem_handler`. -/
def rxSemHandler (k : Kernel n) (t : Fin n) : Res (Kernel n) :=
  match (k.tcb t).sem with
  | none => .ok k
  | some m => do
    let (head, k) ← unlinkWaiter k (k.sems m).task t
    let k := k.setSem m { k.sems m with task := head, currVal := (k.sems m).currVal + 1 }
    let k := k.modTcb t fun c => { c with timer := none, timeout := OsErr.eOsTimeout.code, state := .ready }
    let (_, k) ← rxAddToReadyQ k t
    return k.modTcb t fun c => { c with sem := none }

/-- `__rx_sem_timeout` up to the switch. -/
def rxSemTimeout (k : Kernel n) (timeout : Word) (tm : ℕ) : Res (Kernel n) := do
  let k := k.rxInitTimer tm .semHandler k.curr timeout
  let k := k.rxStartTimer tm
  let k := k.modTcb k.curr fun c => { c with timeout := rxTimerOn, timer := some tm }
  let (_, k) ← rxSuspendTask k none
  return k

/-- `rx_semaphore_wait` up to its return, with the code it returns, or up to
the switch to another task. -/
def rxSemaphoreWait (k : Kernel n) (m : ℕ) (timeout : ℤ) (tm : ℕ) : Res (Option OsErr × Kernel n) :=
  let k := k.enterCritical
  let k := k.setSem m { k.sems m with currVal := (k.sems m).currVal - 1 }
  if (k.sems m).currVal ≥ 0 then .ok (some .osOk, k.exitCritical)
  else if timeout = osNoWait then
    .ok (some .eOsUnavail, (k.setSem m { k.sems m with currVal := (k.sems m).currVal + 1 }).exitCritical)
  else do
    let t := k.curr
    let k := k.modTcb t fun c => { c with state := .suspend, sem := some m, timeout := rxTimerOff }
    let k ← rxRemoveFromReadyQ k t
    let k := k.setNext t none
    let (head, k) ← appendWaiter k (k.sems m).task t
    let k := k.setSem m { k.sems m with task := head }
    let k := k.exitCritical
    if timeout > 0 then do
      let k ← rxSemTimeout k (BitVec.ofInt 32 timeout) tm
      return (none, k)
    else do
      let k ← rxSched k
      return (none, k)

/-- The part of `rx_semaphore_wait` up to its last `rx_exit_critical`, with the
code it returns unless the caller is now on the wait chain. -/
def rxSemWaitChain (k : Kernel n) (m : ℕ) (timeout : ℤ) : Res (Option OsErr × Kernel n) :=
  let k := k.enterCritical
  let k := k.setSem m { k.sems m with currVal := (k.sems m).currVal - 1 }
  if (k.sems m).currVal ≥ 0 then .ok (some .osOk, k.exitCritical)
  else if timeout = osNoWait then
    .ok (some .eOsUnavail, (k.setSem m { k.sems m with currVal := (k.sems m).currVal + 1 }).exitCritical)
  else do
    let t := k.curr
    let k := k.modTcb t fun c => { c with state := .suspend, sem := some m, timeout := rxTimerOff }
    let k ← rxRemoveFromReadyQ k t
    let k := k.setNext t none
    let (head, k) ← appendWaiter k (k.sems m).task t
    return (none, (k.setSem m { k.sems m with task := head }).exitCritical)

/-- The rest of it, up to the switch. -/
def rxSemSleep (k : Kernel n) (timeout : ℤ) (tm : ℕ) : Res (Kernel n) :=
  if timeout > 0 then rxSemTimeout k (BitVec.ofInt 32 timeout) tm else rxSched k

theorem rxSemaphoreWait_eq (k : Kernel n) (m : ℕ) (timeout : ℤ) (tm : ℕ) :
    rxSemaphoreWait k m timeout tm = (do
      let (r, k) ← rxSemWaitChain k m timeout
      if r.isSome then return (r, k)
      else
        let k ← rxSemSleep k timeout tm
        return (none, k)) := by
  unfold rxSemaphoreWait rxSemWaitChain rxSemSleep
  dsimp only
  split_ifs
  all_goals first | rfl | simp only [bind_assoc, pure_bind, Option.isSome_none, Bool.false_eq_true, if_false]

/-- What a blocked `rx_semaphore_wait` returns once its task runs again. -/
def rxSemaphoreWaitRet (k : Kernel n) (timed : Bool) : OsErr :=
  if timed then if (k.tcb k.curr).timeout = OsErr.eOsTimeout.code then .eOsTimeout else .osOk
  else .osOk

/-! ### What the services do -/

/-- The data of a post that wakes `t`, with `l` still waiting. -/
def posted (e : Kernel n) (m : ℕ) (t : Fin n) (l : List (Fin n)) : Kernel n :=
  (e.modTcb t fun c => { c with state := .ready, sem := none }).setSem m
    { e.sems m with currVal := (e.sems m).currVal + 1, task := l.head? }

/-- The data of an expiry of the wait of `t`, with `l` still waiting. -/
def semExpired (e : Kernel n) (m : ℕ) (t : Fin n) (l : List (Fin n)) : Kernel n :=
  (e.modTcb t fun c =>
    { c with timer := none, timeout := OsErr.eOsTimeout.code, state := .ready, sem := none }).setSem m
    { e.sems m with currVal := (e.sems m).currVal + 1, task := l.head? }

/-- The data of a wait that blocks behind `l`. -/
def semBlocked (e : Kernel n) (m : ℕ) (l : List (Fin n)) : Kernel n :=
  (e.modTcb e.curr fun c => { c with state := .suspend, sem := some m, timeout := rxTimerOff }).setSem m
    { e.sems m with currVal := (e.sems m).currVal - 1, task := (l ++ [e.curr]).head? }

/-- The data of the timer of a timed wait. -/
def semArmed (e : Kernel n) (timeout : ℤ) (tm : ℕ) : Kernel n :=
  if timeout > 0 then
    ((e.rxInitTimer tm .semHandler e.curr (BitVec.ofInt 32 timeout)).rxStartTimer tm).modTcb e.curr
      fun c => { c with timeout := rxTimerOn, timer := some tm, state := .suspend }
  else e

section Spec

variable {ι : Type*} {e k : Kernel n} {lr : List (Fin n)} {w : ι → Option (Fin n)} {lw : ι → List (Fin n)}
  {m : ℕ} {t : Fin n}

/-- A post that nobody waits for is lost. -/
theorem rxSemaphorePost_idle (ht : (k.sems m).task = none) :
    rxSemaphorePost k m = .ok (.osOk, k.enterCritical.exitCritical) := by
  have ht' : (k.enterCritical.sems m).task = none := ht
  simp [rxSemaphorePost, ht']

/-- A post wakes the first waiter. -/
theorem rxSemaphorePost_wakes [DecidableEq ι] {i : ι} {l : List (Fin n)} (h : Lists e k lr w lw)
    (hw : (e.sems m).task = w i) (hi : lw i = t :: l) :
    ∃ k' lr', rxSemaphorePost k m = .ok (.osOk, k') ∧ k'.port = {} ∧ (∀ u, u ∈ lr' ↔ u = t ∨ u ∈ lr) ∧
      Lists (posted e m t l) k' lr' (Function.update w i l.head?) (Function.update lw i l) := by
  obtain ⟨hwi, hnx, htr, htw, h1⟩ := h.enter.popWaiter i hi
  set c : Semaphore n := { e.sems m with task := l.head? } with hc
  have h2 : Lists ((e.modTcb t fun c => { c with state := .ready, sem := none }).setSem m c) _ lr _ _ :=
    (h1.setSem m c).modTcb t (f := fun c => { c with state := .ready, sem := none }) fun _ _ => rfl
  obtain ⟨k3, hadd, h3⟩ := h2.addReady htr htw (by simp)
  have hsem3 : k3.sems m = c := by rw [h3.data.sems]; simp
  have h4 := (h3.setSem m { k3.sems m with currVal := (k3.sems m).currVal + 1 }).exit
  refine ⟨_, _, ?_, h3.port.exit, fun u => mem_insertReady, h4.of_data (.of_eq ?_)⟩
  · have hhead : (k.enterCritical.sems m).task = some t := by
      rw [← hwi, ← hw, ← h.data.sems]
      rfl
    have hnx' : (k.enterCritical.tcb t).next = l.head? := hnx
    have hc' : ({ k.enterCritical.sems m with task := l.head? } : Semaphore n) = c := by
      rw [hc, ← h.data.sems]
      rfl
    simp only [rxSemaphorePost, hhead, hnx']
    rw [show (Semaphore.mk (k.enterCritical.sems m).initVal (k.enterCritical.sems m).currVal l.head?) = c from hc']
    simp only [hadd, bind, Except.bind, pure, Except.pure]
  · simp [posted, hsem3, hc]

/-- The data of one round of a deletion: the waiter `t` is ready, with `l` still
waiting. -/
def semDropped (e : Kernel n) (m : ℕ) (t : Fin n) (l : List (Fin n)) : Kernel n :=
  (dropTimer (e.modTcb t fun c => { c with state := .ready, sem := none }) t).setSem m
    { e.sems m with task := l.head? }

theorem deleteSemWaiter_spec [DecidableEq ι] {i : ι} {l : List (Fin n)} (h : Lists e k lr w lw) (hi : lw i = t :: l) :
    ∃ k' lr', deleteSemWaiter m k t = .ok k' ∧ (∀ u, u ∈ lr' ↔ u = t ∨ u ∈ lr) ∧
      Lists (semDropped e m t l) k' lr' (Function.update w i l.head?) (Function.update lw i l) := by
  set f : Tcb n → Tcb n := fun c => { c with state := .ready, sem := none } with hf
  have h1 : Lists (dropTimer (e.modTcb t f) t) (dropTimer (k.modTcb t f) t) lr w lw :=
    (h.modTcb t fun _ _ => rfl).dropTimer t
  obtain ⟨-, hnx, htr, htw, h2⟩ := h1.popWaiter i hi
  set k1 := dropTimer (k.modTcb t f) t with hk1
  have hnx : (k1.tcb t).next = l.head? := hnx
  have hsem : k1.sems m = e.sems m := by
    rw [h1.data.sems]
    simp
  have h3 := h2.setSem m { e.sems m with task := l.head? }
  obtain ⟨k4, hadd, h4⟩ := h3.addReady htr htw (by simp [hf])
  refine ⟨k4, _, ?_, fun u => mem_insertReady, h4⟩
  simp only [deleteSemWaiter, ← hf, ← hk1, hnx, hsem, hadd, bind, Except.bind, pure, Except.pure]

/-- The handler of a task that waits for nothing does nothing. -/
theorem rxSemHandler_idle (ht : (k.tcb t).sem = none) : rxSemHandler k t = .ok k := by
  simp [rxSemHandler, ht]

/-- `__rx_sem_handler` of a task on the wait chain takes exactly that task
out. -/
theorem rxSemHandler_spec [DecidableEq ι] {i : ι} (h : Lists e k lr w lw) (hw : (e.sems m).task = w i)
    (ht : t ∈ lw i) (hm : (e.tcb t).sem = some m) :
    ∃ k' lr', rxSemHandler k t = .ok k' ∧ (∀ u, u ∈ lr' ↔ u = t ∨ u ∈ lr) ∧
      Lists (semExpired e m t ((lw i).erase t)) k' lr' (Function.update w i ((lw i).erase t).head?)
        (Function.update lw i ((lw i).erase t)) := by
  have htr : t ∉ lr := h.notReady i t ht
  have hnd := (h.wait i).nodup
  set l := (lw i).erase t with hl
  obtain ⟨k1, hun, h1⟩ := h.unlinkWaiter i ht
  have htw : ∀ j, t ∉ Function.update lw i l j := by
    intro j
    by_cases hj : j = i
    · subst hj
      rw [Function.update_self]
      exact hnd.not_mem_erase
    · rw [Function.update_of_ne hj]
      exact fun htj => hj (h.apart j i t htj ht)
  set c : Semaphore n := { e.sems m with task := l.head?, currVal := (e.sems m).currVal + 1 } with hc
  have h2 := (h1.setSem m c).modTcb t
    (f := fun c => { c with timer := none, timeout := OsErr.eOsTimeout.code, state := .ready }) fun _ _ => rfl
  obtain ⟨k3, hadd, h3⟩ := h2.addReady htr htw (by simp)
  refine ⟨k3.modTcb t fun c => { c with sem := none }, _, ?_, fun u => mem_insertReady,
    (h3.modTcb t fun _ _ => rfl).of_data (.of_eq ?_)⟩
  · have hm' : (k.tcb t).sem = some m := by rw [h.data.sem]; exact hm
    have hw' : (k.sems m).task = w i := by rw [h.data.sems]; exact hw
    have hc1 : ({ k1.sems m with task := l.head?, currVal := (k1.sems m).currVal + 1 } : Semaphore n) = c := by
      rw [h1.data.sems]
    unfold rxSemHandler
    simp only [hm', hw', hun, bind, Except.bind]
    rw [← hl, hc1, hadd]
    rfl
  · simp [semExpired, hc]

/-- `__rx_sem_timeout` by a task that waits at the end of a chain. -/
theorem rxSemTimeout_spec {i : ι} {l : List (Fin n)} (h : Lists e k lr w lw) (hi : lw i = l ++ [e.curr])
    {x : Fin n} {l' : List (Fin n)} (hx : lr = x :: l') {timeout : ℤ} (ht : timeout > 0) (tm : ℕ) :
    ∃ k', rxSemTimeout k (BitVec.ofInt 32 timeout) tm = .ok k' ∧ k'.port = {} ∧
      Lists ((semArmed e timeout tm).switchTo x) k' lr w lw := by
  set k3 := ((k.rxInitTimer tm .semHandler k.curr (BitVec.ofInt 32 timeout)).rxStartTimer tm).modTcb
    (Kernel.rxStartTimer (k.rxInitTimer tm .semHandler k.curr (BitVec.ofInt 32 timeout)) tm).curr
    (fun c => { c with timeout := rxTimerOn, timer := some tm }) with hk3
  set e3 := ((e.rxInitTimer tm .semHandler e.curr (BitVec.ofInt 32 timeout)).rxStartTimer tm).modTcb
    e.curr (fun c => { c with timeout := rxTimerOn, timer := some tm }) with he3
  have h3 : Lists e3 k3 lr w lw := by
    rw [hk3, he3]
    simp only [rxStartTimer_curr, rxInitTimer_curr, h.data.curr]
    exact ((h.rxInitTimer tm _ _ _).rxStartTimer tm).modTcb e.curr fun _ _ => rfl
  have hcur3 : e3.curr = e.curr := by simp [he3]
  obtain ⟨k4, hsus, hport, h4⟩ := h3.suspendSelf (i := i) (l := l) (by rw [hcur3]; exact hi) hx
  rw [hcur3] at h4
  refine ⟨k4, ?_, hport, h4.of_data (.of_eq (congrArg (Kernel.switchTo · x) ?_))⟩
  · simp only [rxSemTimeout, ← hk3, hsus, bind, Except.bind, pure, Except.pure]
  · simp [semArmed, ht, he3, Kernel.setState, Kernel.modTcb, Kernel.setTcb]

/-- With no other task ready a timed wait faults. -/
theorem rxSemTimeout_nil (h : Lists e k [] w lw) (timeout : Word) (tm : ℕ) :
    rxSemTimeout k timeout tm = .error .null := by
  have h3 := ((h.rxInitTimer tm .semHandler k.curr timeout).rxStartTimer tm).modTcb
    (Kernel.rxStartTimer (k.rxInitTimer tm .semHandler k.curr timeout) tm).curr
    (f := fun c => { c with timeout := rxTimerOn, timer := some tm }) fun _ _ => rfl
  simp only [rxSemTimeout, h3.suspendSelf_nil, bind, Except.bind]

/-- A permit is there. -/
theorem rxSemWaitChain_takes (hv : (k.sems m).currVal > 0) (timeout : ℤ) :
    rxSemWaitChain k m timeout = .ok (some .osOk,
      (k.enterCritical.setSem m { k.sems m with currVal := (k.sems m).currVal - 1 }).exitCritical) := by
  have hv' : (k.enterCritical.sems m).currVal > 0 := hv
  rw [rxSemWaitChain]
  simp only [Kernel.setSem_sems]
  rw [if_pos (by omega)]
  rfl

theorem rxSemaphoreWait_takes (hv : (k.sems m).currVal > 0) (timeout : ℤ) (tm : ℕ) :
    rxSemaphoreWait k m timeout tm = .ok (some .osOk,
      (k.enterCritical.setSem m { k.sems m with currVal := (k.sems m).currVal - 1 }).exitCritical) := by
  rw [rxSemaphoreWait_eq, rxSemWaitChain_takes hv]
  rfl

/-- No permit is there, and the caller does not wait: nothing changes. -/
theorem rxSemWaitChain_noWait (hv : (k.sems m).currVal ≤ 0) :
    rxSemWaitChain k m osNoWait = .ok (some .eOsUnavail, k.enterCritical.exitCritical) := by
  have hv' : (k.enterCritical.sems m).currVal ≤ 0 := hv
  have hself : k.enterCritical.setSem m (k.enterCritical.sems m) = k.enterCritical := by
    simp [Kernel.setSem]
  rw [rxSemWaitChain]
  simp only [Kernel.setSem_sems, Kernel.setSem_setSem]
  rw [if_neg (by omega)]
  simp [hself]

theorem rxSemaphoreWait_noWait (hv : (k.sems m).currVal ≤ 0) (tm : ℕ) :
    rxSemaphoreWait k m osNoWait tm = .ok (some .eOsUnavail, k.enterCritical.exitCritical) := by
  rw [rxSemaphoreWait_eq, rxSemWaitChain_noWait hv]
  rfl

/-- No permit is there, and the caller waits at the end of the chain. -/
theorem rxSemWaitChain_blocks [DecidableEq ι] {i : ι} (h : Lists e k lr w lw) (hw : (e.sems m).task = w i)
    (hv : (e.sems m).currVal ≤ 0) (hc : e.curr ∈ lr) {timeout : ℤ} (ht : timeout ≠ osNoWait) :
    ∃ k', rxSemWaitChain k m timeout = .ok (none, k') ∧ k'.port = {} ∧
      Lists (semBlocked e m (lw i)) k' (lr.erase e.curr) (Function.update w i (lw i ++ [e.curr]).head?)
        (Function.update lw i (lw i ++ [e.curr])) := by
  have hcur : k.enterCritical.curr = e.curr := h.data.curr
  set c : Semaphore n := { e.sems m with currVal := (e.sems m).currVal - 1 } with hcdef
  set c' : Semaphore n := { c with task := (lw i ++ [e.curr]).head? } with hcdef'
  obtain ⟨k2, k3, hrem, h2, happ, h3⟩ := (h.enter.setSem m c).block i hc
    (f := fun c => { c with state := .suspend, sem := some m, timeout := rxTimerOff }) fun _ _ => rfl
  have h4 : Lists (semBlocked e m (lw i)) _ (lr.erase e.curr) _ _ := (h3.setSem m c').exit.of_data (.of_eq (by
    simp [semBlocked, hcdef, hcdef']))
  refine ⟨(k3.setSem m c').exitCritical, ?_, h3.port.exit, h4⟩
  have hc1 : ({ k.enterCritical.sems m with currVal := (k.enterCritical.sems m).currVal - 1 } : Semaphore n) = c := by
    show ({ k.sems m with currVal := (k.sems m).currVal - 1 } : Semaphore n) = c
    rw [h.data.sems]
  have hneg : ¬ c.currVal ≥ 0 := by
    simp only [hcdef]
    omega
  have htask : ((k2.setNext e.curr none).sems m).task = w i := by
    show (k2.sems m).task = w i
    rw [h2.sems]
    simpa [hcdef] using hw
  have hc3 : ({ k3.sems m with task := (lw i ++ [e.curr]).head? } : Semaphore n) = c' := by
    rw [h3.data.sems, Kernel.modTcb_sems, Kernel.setSem_sems]
  rw [rxSemWaitChain]
  simp only [hc1, Kernel.setSem_sems, hneg, if_false, ht, Kernel.setSem_curr, hcur, hrem, htask, happ, bind,
    Except.bind]
  rw [hc3]
  rfl

/-- The caller waits at the end of the chain; the head of the ready queue
runs, if there is one. -/
theorem rxSemaphoreWait_blocks [DecidableEq ι] {i : ι} (h : Lists e k lr w lw) (hw : (e.sems m).task = w i)
    (hv : (e.sems m).currVal ≤ 0) (hc : e.curr ∈ lr) {timeout : ℤ} (ht : timeout ≠ osNoWait) (tm : ℕ) :
    rxSemaphoreWait k m timeout tm = .error .null ∨
    ∃ k' x l', lr.erase e.curr = x :: l' ∧ rxSemaphoreWait k m timeout tm = .ok (none, k') ∧ k'.port = {} ∧
      Lists ((semArmed (semBlocked e m (lw i)) timeout tm).switchTo x) k' (lr.erase e.curr)
        (Function.update w i (lw i ++ [e.curr]).head?) (Function.update lw i (lw i ++ [e.curr])) := by
  have hnd := h.ready.nodup
  obtain ⟨k1, hchain, -, h4⟩ := rxSemWaitChain_blocks h hw hv hc ht
  have hrun : rxSemaphoreWait k m timeout tm = (do
      let k ← rxSemSleep k1 timeout tm
      return (none, k)) := by
    rw [rxSemaphoreWait_eq, hchain]
    rfl
  cases hx : lr.erase e.curr with
  | nil =>
    left
    rw [hx] at h4
    rw [hrun, rxSemSleep]
    split_ifs
    · rw [rxSemTimeout_nil h4]; rfl
    · rw [h4.sched_nil]; rfl
  | cons x l' =>
    right
    rw [hx] at h4
    by_cases hpos : timeout > 0
    · obtain ⟨k6, he6, hport, h6⟩ := rxSemTimeout_spec (i := i) (l := lw i) h4
        (by rw [Function.update_self]; rfl) rfl hpos tm
      refine ⟨k6, x, l', rfl, ?_, hport, h6⟩
      rw [hrun, rxSemSleep, if_pos hpos, he6]
      rfl
    · have hcr : (semBlocked e m (lw i)).curr ∉ x :: l' := by
        intro hm
        rw [← hx] at hm
        exact hnd.not_mem_erase hm
      obtain ⟨k6, he6, hport, h6⟩ := h4.sched hcr rfl
      refine ⟨k6, x, l', rfl, ?_, hport, ?_⟩
      · rw [hrun, rxSemSleep, if_neg hpos, he6]
        rfl
      · rw [semArmed, if_neg hpos]
        exact h6

end Spec

/-! ### The data after a call -/

section Data

variable (e : Kernel n) (m : ℕ) (t u : Fin n) (l : List (Fin n))

theorem posted_state : ((posted e m t l).tcb u).state = if u = t then .ready else (e.tcb u).state := by
  by_cases h : u = t
  · subst h; simp [posted]
  · simp [posted, Kernel.modTcb_of_ne _ h, h]

theorem posted_sem : ((posted e m t l).tcb u).sem = if u = t then none else (e.tcb u).sem := by
  by_cases h : u = t
  · subst h; simp [posted]
  · simp [posted, Kernel.modTcb_of_ne _ h, h]

theorem posted_timeout : ((posted e m t l).tcb u).timeout = (e.tcb u).timeout := by
  by_cases h : u = t
  · subst h; simp [posted]
  · simp [posted, Kernel.modTcb_of_ne _ h]

/-- The heads of the wait chains. -/
theorem posted_task (i : ℕ) :
    ((posted e m t l).sems i).task = Function.update (fun i => (e.sems i).task) m l.head? i := by
  by_cases hi : i = m
  · subst hi; simp [posted]
  · simp [posted, Kernel.setSem, hi]

theorem semExpired_task (i : ℕ) :
    ((semExpired e m t l).sems i).task = Function.update (fun i => (e.sems i).task) m l.head? i := by
  by_cases hi : i = m
  · subst hi; simp [semExpired]
  · simp [semExpired, Kernel.setSem, hi]

theorem semBlocked_task (i : ℕ) :
    ((semBlocked e m l).sems i).task = Function.update (fun i => (e.sems i).task) m (l ++ [e.curr]).head? i := by
  by_cases hi : i = m
  · subst hi; simp [semBlocked]
  · simp [semBlocked, Kernel.setSem, hi]

/-- The values. -/
theorem posted_currVal (i : ℕ) :
    ((posted e m t l).sems i).currVal = (e.sems i).currVal + if i = m then 1 else 0 := by
  by_cases hi : i = m
  · subst hi; simp [posted]
  · simp [posted, Kernel.setSem, hi]

theorem semExpired_currVal (i : ℕ) :
    ((semExpired e m t l).sems i).currVal = (e.sems i).currVal + if i = m then 1 else 0 := by
  by_cases hi : i = m
  · subst hi; simp [semExpired]
  · simp [semExpired, Kernel.setSem, hi]

theorem semBlocked_currVal (i : ℕ) :
    ((semBlocked e m l).sems i).currVal = (e.sems i).currVal - if i = m then 1 else 0 := by
  by_cases hi : i = m
  · subst hi; simp [semBlocked]
  · simp [semBlocked, Kernel.setSem, hi]

theorem semExpired_state : ((semExpired e m t l).tcb u).state = if u = t then .ready else (e.tcb u).state := by
  by_cases h : u = t
  · subst h; simp [semExpired]
  · simp [semExpired, Kernel.modTcb_of_ne _ h, h]

theorem semExpired_sem : ((semExpired e m t l).tcb u).sem = if u = t then none else (e.tcb u).sem := by
  by_cases h : u = t
  · subst h; simp [semExpired]
  · simp [semExpired, Kernel.modTcb_of_ne _ h, h]

theorem semExpired_timeout : ((semExpired e m t l).tcb u).timeout =
    if u = t then OsErr.eOsTimeout.code else (e.tcb u).timeout := by
  by_cases h : u = t
  · subst h; simp [semExpired]
  · simp [semExpired, Kernel.modTcb_of_ne _ h, h]

/-- A wait that blocks leaves the other control blocks alone. -/
theorem semArmed_blocked_of_ne {u : Fin n} (hu : u ≠ e.curr) (timeout : ℤ) (tm : ℕ) :
    (semArmed (semBlocked e m l) timeout tm).tcb u = e.tcb u := by
  have hb : (semBlocked e m l).tcb u = e.tcb u := by simp [semBlocked, Kernel.modTcb_of_ne _ hu]
  have hu' : u ≠ (semBlocked e m l).curr := hu
  unfold semArmed
  split_ifs
  · rw [Kernel.modTcb_of_ne _ hu']
    simpa using hb
  · exact hb

/-- The caller's own control block. -/
theorem semArmed_blocked_self (timeout : ℤ) (tm : ℕ) :
    ((semArmed (semBlocked e m l) timeout tm).tcb e.curr).state = .suspend ∧
    ((semArmed (semBlocked e m l) timeout tm).tcb e.curr).sem = some m ∧
    ((semArmed (semBlocked e m l) timeout tm).tcb e.curr).timeout =
      if timeout > 0 then rxTimerOn else rxTimerOff := by
  have hb : (semBlocked e m l).tcb e.curr =
      { e.tcb e.curr with state := .suspend, sem := some m, timeout := rxTimerOff } := by simp [semBlocked]
  have hc : (semBlocked e m l).curr = e.curr := rfl
  unfold semArmed
  split_ifs
  · simp [hc, hb]
  · simp [hb]

theorem semArmed_blocked_state (timeout : ℤ) (tm : ℕ) (u : Fin n) :
    ((semArmed (semBlocked e m l) timeout tm).tcb u).state = if u = e.curr then .suspend else (e.tcb u).state := by
  split_ifs with hu
  · subst hu
    exact (semArmed_blocked_self ..).1
  · rw [semArmed_blocked_of_ne _ _ _ hu]

theorem semArmed_blocked_sem (timeout : ℤ) (tm : ℕ) (u : Fin n) :
    ((semArmed (semBlocked e m l) timeout tm).tcb u).sem = if u = e.curr then some m else (e.tcb u).sem := by
  split_ifs with hu
  · subst hu
    exact (semArmed_blocked_self ..).2.1
  · rw [semArmed_blocked_of_ne _ _ _ hu]

theorem semArmed_blocked_timeout (timeout : ℤ) (tm : ℕ) (u : Fin n) :
    ((semArmed (semBlocked e m l) timeout tm).tcb u).timeout =
      if u = e.curr then if timeout > 0 then rxTimerOn else rxTimerOff else (e.tcb u).timeout := by
  by_cases hu : u = e.curr
  · subst hu
    rw [if_pos rfl]
    exact (semArmed_blocked_self ..).2.2
  · rw [if_neg hu, semArmed_blocked_of_ne _ _ _ hu]

theorem semArmed_sems (timeout : ℤ) (tm : ℕ) : (semArmed e timeout tm).sems = e.sems := by
  unfold semArmed
  split_ifs <;> simp

theorem semArmed_mutexes (timeout : ℤ) (tm : ℕ) : (semArmed e timeout tm).mutexes = e.mutexes := by
  unfold semArmed
  split_ifs <;> simp

/-- A semaphore wait leaves the mutex fields alone. -/
theorem semArmed_blocked_mutex (timeout : ℤ) (tm : ℕ) (u : Fin n) :
    ((semArmed (semBlocked e m l) timeout tm).tcb u).mutex = (e.tcb u).mutex := by
  by_cases hu : u = e.curr
  · subst hu
    have hc : (semBlocked e m l).curr = e.curr := rfl
    have hb : ((semBlocked e m l).tcb e.curr).mutex = (e.tcb e.curr).mutex := by simp [semBlocked]
    unfold semArmed
    split_ifs
    · simp [hc, hb]
    · exact hb
  · rw [semArmed_blocked_of_ne _ _ _ hu]

end Data

end Rosx
