/-
# Mutexes

`kernel/rx_mutex.c` with priority inheritance. `rx_mutex_lock` is cut where
it gives up the processor: `rxMutexLock` is the call up to its return or to
the switch to another task, `rxMutexLockRet` what is left of a blocked call
once its task is dispatched again. The timer of a timed call is a local
variable; its address is an argument here.

Each function has one lemma that says what it does to the lists and to the
data: `rxMutexLock_blocks`, `rxMutexUnlock_release`, `rxMutexUnlock_grant`,
`rxMutexHandler_spec`.
-/
import Rosx.Timer

namespace Rosx

open Linked

variable {n : ℕ}

/-- `rx_create_mutex`. -/
def rxCreateMutex (k : Kernel n) (m : ℕ) : OsErr × Kernel n :=
  (.osOk, (k.enterCritical.setMutex m { lock := .unlocked, owner := none, task := none }).exitCritical)

/-! ### Priority inheritance -/

/-- `if (t->state == RX_TASK_READY)` the task is put on the ready queue anew,
by its new priority. -/
def requeueIfReady (k : Kernel n) (t : Fin n) : Res (Kernel n) :=
  if (k.tcb t).state = .ready then do
    let k ← rxRemoveFromReadyQ k t
    let (_, k) ← rxAddToReadyQ k t
    return k
  else .ok k

/-- The owner inherits the priority of the task that is about to block. -/
def inheritFrom (k : Kernel n) (owner t : Fin n) : Res (Kernel n) :=
  if (k.tcb owner).prio > (k.tcb t).prio then requeueIfReady (k.setPrio owner (k.tcb t).prio) owner
  else .ok k

/-- The loop by which the owner inherits the highest priority on the wait
chain. -/
def inheritLoop (k : Kernel n) (owner : Fin n) : ℕ → Option (Fin n) → Res (Kernel n)
  | 0, _ => .error .hang
  | _ + 1, none => .ok k
  | f + 1, some t =>
    let k := if (k.tcb owner).prio > (k.tcb t).prio then k.setPrio owner (k.tcb t).prio else k
    inheritLoop k owner f (k.tcb t).next

/-- The owner gives back the priority of the task `t` that has left the chain. -/
def disinherit (k : Kernel n) (m : ℕ) (owner t : Fin n) : Res (Kernel n) :=
  if (k.tcb owner).prio = (k.tcb t).prio then
    inheritLoop (k.setPrio owner (k.tcb owner).origPrio) owner (n + 1) (k.mutexes m).task
  else .ok k

/-- The unlocking task goes back to its own priority. -/
def restorePrio (k : Kernel n) (owner : Fin n) : Res (Kernel n) :=
  if (k.tcb owner).prio ≠ (k.tcb owner).origPrio then do
    let k := k.setPrio owner (k.tcb owner).origPrio
    let k ← rxRemoveFromReadyQ k owner
    let (_, k) ← rxAddToReadyQ k k.curr
    return k
  else .ok k

/-! ### The services -/

/-- The rest of `rx_mutex_unlock`, where `t` waits at the head of the chain:
it gets the mutex. -/
def grantMutex (k : Kernel n) (m : ℕ) (t : Fin n) : Res (Kernel n) := do
  let k := k.setMutex m { k.mutexes m with task := (k.tcb t).next }
  let k := taskTimerStopped k t
  let k := k.setMutex m { k.mutexes m with owner := some t }
  let k ← inheritLoop k t (n + 1) (k.mutexes m).task
  let k := k.modTcb t fun c => { c with state := .ready, mutex := none }
  let k := k.setMutex m { k.mutexes m with lock := .locked }
  let (_, k) ← rxAddToReadyQ k t
  return k

/-- `rx_mutex_unlock`. The name of the owner is printed when another task
unlocks. -/
def rxMutexUnlock (k : Kernel n) (m : ℕ) : Res (OsErr × Kernel n) :=
  let k := k.enterCritical
  if (k.mutexes m).lock = .locked then
    match (k.mutexes m).owner with
    | none => .error .null
    | some o =>
      if o ≠ k.curr then .ok (.osErr, k.exitCritical)
      else do
        let k := k.setMutex m { k.mutexes m with lock := .unlocked }
        let k ← restorePrio k o
        match (k.mutexes m).task with
        | none => return (.osOk, k.exitCritical)
        | some t => do
          let k ← grantMutex k m t
          return (.osOk, k.exitCritical)
  else .ok (.osOk, k.exitCritical)

/-- The body of the loop of `rx_delete_mutex`: the task `t` at the head of the
chain is made ready. -/
def deleteWaiter (m : ℕ) (k : Kernel n) (t : Fin n) : Res (Kernel n) := do
  let k := k.modTcb t fun c => { c with state := .ready, mutex := none }
  let k := taskTimerStopped k t
  let k := k.setMutex m { k.mutexes m with task := (k.tcb t).next }
  let (_, k) ← rxAddToReadyQ k t
  return k

/-- `rx_delete_mutex`. -/
def rxDeleteMutex (k : Kernel n) (m : ℕ) : Res (Kernel n) := do
  let k ← drainLoop (fun k => (k.mutexes m).task) (deleteWaiter m) (n + 1) k.enterCritical
  return (k.setMutex m { k.mutexes m with owner := none }).exitCritical

/-- `__rx_mutex_handler`. -/
def rxMutexHandler (k : Kernel n) (t : Fin n) : Res (Kernel n) :=
  match (k.tcb t).mutex with
  | none => .error .null
  | some m =>
    if (k.mutexes m).owner = some t then .ok k
    else do
      let (head, k) ← unlinkWaiter k (k.mutexes m).task t
      let k := k.setMutex m { k.mutexes m with task := head }
      match (k.mutexes m).owner with
      | none => .error .null
      | some o => do
        let k ← disinherit k m o t
        let k ← requeueIfReady k o
        let k := k.modTcb t fun c => { c with timer := none, mutex := none, state := .ready }
        let (_, k) ← rxAddToReadyQ k t
        return k

/-- `__rx_mutex_timeout` up to the switch. -/
def rxMutexTimeout (k : Kernel n) (timeout : Word) (tm : ℕ) : Res (Kernel n) := do
  let k := k.rxInitTimer tm .mutexHandler k.curr timeout
  let k := k.rxStartTimer tm
  let k := k.modTcb k.curr fun c => { c with timer := some tm }
  let (_, k) ← rxSuspendTask k none
  return k

/-- `rx_mutex_lock` up to its return, with the code it returns, or up to the
switch to another task. -/
def rxMutexLock (k : Kernel n) (m : ℕ) (timeout : ℤ) (tm : ℕ) : Res (Option OsErr × Kernel n) :=
  let k := k.enterCritical
  if (k.mutexes m).lock = .unlocked then
    .ok (some .osOk,
      (k.setMutex m { k.mutexes m with lock := .locked, owner := some k.curr }).exitCritical)
  else if timeout = osNoWait then .ok (some .eOsUnavail, k.exitCritical)
  else do
    let t := k.curr
    let k := k.modTcb t fun c => { c with state := .suspend, mutex := some m }
    let k ← rxRemoveFromReadyQ k t
    let k := k.setNext t none
    let (head, k) ← appendWaiter k (k.mutexes m).task t
    let k := k.setMutex m { k.mutexes m with task := head }
    match (k.mutexes m).owner with
    | none => .error .null
    | some o => do
      let k ← inheritFrom k o t
      let k := k.exitCritical
      if timeout > 0 then do
        let k ← rxMutexTimeout k (BitVec.ofInt 32 timeout) tm
        return (none, k)
      else do
        let k ← rxSched k
        return (none, k)

/-- The part of `rx_mutex_lock` up to its last `rx_exit_critical`, with the code
it returns unless the caller is now on the wait chain. -/
def rxMutexLockChain (k : Kernel n) (m : ℕ) (timeout : ℤ) : Res (Option OsErr × Kernel n) :=
  let k := k.enterCritical
  if (k.mutexes m).lock = .unlocked then
    .ok (some .osOk,
      (k.setMutex m { k.mutexes m with lock := .locked, owner := some k.curr }).exitCritical)
  else if timeout = osNoWait then .ok (some .eOsUnavail, k.exitCritical)
  else do
    let t := k.curr
    let k := k.modTcb t fun c => { c with state := .suspend, mutex := some m }
    let k ← rxRemoveFromReadyQ k t
    let k := k.setNext t none
    let (head, k) ← appendWaiter k (k.mutexes m).task t
    let k := k.setMutex m { k.mutexes m with task := head }
    match (k.mutexes m).owner with
    | none => .error .null
    | some o => do
      let k ← inheritFrom k o t
      return (none, k.exitCritical)

/-- The rest of it, up to the switch. -/
def rxMutexLockSleep (k : Kernel n) (timeout : ℤ) (tm : ℕ) : Res (Kernel n) :=
  if timeout > 0 then rxMutexTimeout k (BitVec.ofInt 32 timeout) tm else rxSched k

theorem rxMutexLock_eq (k : Kernel n) (m : ℕ) (timeout : ℤ) (tm : ℕ) :
    rxMutexLock k m timeout tm = (do
      let (r, k) ← rxMutexLockChain k m timeout
      if r.isSome then return (r, k)
      else
        let k ← rxMutexLockSleep k timeout tm
        return (none, k)) := by
  unfold rxMutexLock rxMutexLockChain rxMutexLockSleep
  dsimp only
  split_ifs
  all_goals first
    | rfl
    | simp only [bind_assoc]
      refine bind_congr fun k1 => bind_congr fun x => ?_
      cases ((x.2.setMutex m { x.2.mutexes m with task := x.1 }).mutexes m).owner with
      | none => rfl
      | some o => simp only [bind_assoc, pure_bind, Option.isSome_none, Bool.false_eq_true, if_false]

/-- What a blocked `rx_mutex_lock` returns once its task runs again. -/
def rxMutexLockRet (k : Kernel n) (m : ℕ) (timed : Bool) : OsErr :=
  if timed then if (k.mutexes m).owner = some k.curr then .osOk else .eOsTimeout
  else .osOk

/-! ### What the services do -/

/-- The most urgent of `p` and the priorities of `l`. -/
def minPrio (e : Kernel n) (l : List (Fin n)) (p : ℤ) : ℤ := l.foldl (fun p t => min p (e.tcb t).prio) p

theorem minPrio_congr {e e' : Kernel n} : ∀ {l : List (Fin n)} {p : ℤ},
    (∀ t ∈ l, (e'.tcb t).prio = (e.tcb t).prio) → minPrio e' l p = minPrio e l p
  | [], _, _ => rfl
  | t :: l, p, h => by
    simp only [minPrio, List.foldl_cons]
    rw [h t List.mem_cons_self]
    exact minPrio_congr fun u hu => h u (List.mem_cons_of_mem _ hu)

theorem setPrio_self (k : Kernel n) (t : Fin n) : k.setPrio t (k.tcb t).prio = k := by
  simp [Kernel.setPrio, Kernel.setTcb]

theorem setPrio_setPrio (k : Kernel n) (t : Fin n) (p q : ℤ) : (k.setPrio t p).setPrio t q = k.setPrio t q := by
  simp [Kernel.setPrio, Kernel.setTcb]

theorem setPrio_prio_of_ne (k : Kernel n) {t u : Fin n} (h : u ≠ t) (p : ℤ) :
    ((k.setPrio t p).tcb u).prio = (k.tcb u).prio := by
  simp [Kernel.setPrio, h]

theorem setPrio_prio (k : Kernel n) (t : Fin n) (p : ℤ) : ((k.setPrio t p).tcb t).prio = p := by
  simp [Kernel.setPrio]

theorem setPrio_state (k : Kernel n) (t u : Fin n) (p : ℤ) :
    ((k.setPrio t p).tcb u).state = (k.tcb u).state :=
  Kernel.setPrio_keeps k t u p Tcb.state fun _ => rfl

theorem setPrio_timer (k : Kernel n) (t u : Fin n) (p : ℤ) :
    ((k.setPrio t p).tcb u).timer = (k.tcb u).timer :=
  Kernel.setPrio_keeps k t u p Tcb.timer fun _ => rfl

theorem setPrio_mutex (k : Kernel n) (t u : Fin n) (p : ℤ) :
    ((k.setPrio t p).tcb u).mutex = (k.tcb u).mutex :=
  Kernel.setPrio_keeps k t u p Tcb.mutex fun _ => rfl

/-- The loop gives the owner the most urgent priority. -/
theorem inheritLoop_eq {o : Fin n} : ∀ {l : List (Fin n)} {k : Kernel n} {h : Option (Fin n)} {f : ℕ},
    Chain k.next h l → o ∉ l → l.length < f →
    inheritLoop k o f h = .ok (k.setPrio o (minPrio k l (k.tcb o).prio))
  | [], k, h, f + 1, hl, _, _ => by
    rw [show h = none from hl]
    simp [inheritLoop, minPrio, setPrio_self]
  | t :: l, k, h, f + 1, hl, ho, hf => by
    obtain ⟨hot, hol⟩ : o ≠ t ∧ o ∉ l := by simpa using ho
    have hk : (if (k.tcb o).prio > (k.tcb t).prio then k.setPrio o (k.tcb t).prio else k) =
        k.setPrio o (min (k.tcb o).prio (k.tcb t).prio) := by
      split_ifs with hgt
      · rw [min_eq_right (by omega)]
      · rw [min_eq_left (by omega), setPrio_self]
    have hnext : ((k.setPrio o (min (k.tcb o).prio (k.tcb t).prio)).tcb t).next = k.next t := by
      simp [Kernel.setPrio, Ne.symm hot, Kernel.next]
    rw [hl.1, inheritLoop, hk, hnext]
    rw [inheritLoop_eq (by rw [Kernel.next_setPrio]; exact hl.2) hol (by simpa using hf), setPrio_setPrio,
      setPrio_prio]
    rw [minPrio_congr fun u hu => setPrio_prio_of_ne k (ne_of_mem_of_not_mem hu hol) _]
    rfl

/-- Whoever waits, the loop changes nothing but the owner's priority. -/
theorem inheritLoop_ok {o : Fin n} : ∀ {l : List (Fin n)} {k : Kernel n} {h : Option (Fin n)} {f : ℕ},
    Chain k.next h l → l.length < f → ∃ p, inheritLoop k o f h = .ok (k.setPrio o p)
  | [], k, h, f + 1, hl, _ => by
    rw [show h = none from hl]
    exact ⟨(k.tcb o).prio, by rw [inheritLoop, setPrio_self]⟩
  | t :: l, k, h, f + 1, hl, hf => by
    obtain ⟨q, hq⟩ : ∃ q, (if (k.tcb o).prio > (k.tcb t).prio then k.setPrio o (k.tcb t).prio else k) =
        k.setPrio o q := by
      split_ifs
      · exact ⟨_, rfl⟩
      · exact ⟨_, (setPrio_self k o).symm⟩
    have hnext : ((k.setPrio o q).tcb t).next = k.next t := congrFun (Kernel.next_setPrio k o q) t
    obtain ⟨p, hp⟩ := inheritLoop_ok (o := o) (f := f) (k := k.setPrio o q) (by rw [Kernel.next_setPrio]; exact hl.2)
      (by simpa using hf)
    refine ⟨p, ?_⟩
    rw [hl.1, inheritLoop, hq, hnext, hp, setPrio_setPrio]

section Spec

variable {ι : Type*} {e k : Kernel n} {lr : List (Fin n)} {w : ι → Option (Fin n)} {lw : ι → List (Fin n)}
  {m : ℕ} {t o : Fin n}

theorem requeueIfReady_spec (h : Lists e k lr w lw) (ho : (e.tcb o).state = .ready → o ∈ lr) :
    ∃ k' lr', requeueIfReady k o = .ok k' ∧ Lists e k' lr' w lw ∧ ∀ u, u ∈ lr' ↔ u ∈ lr := by
  unfold requeueIfReady
  rw [h.data.state]
  split_ifs with hs
  · obtain ⟨k1, k2, lr', he1, he2, h2, hm⟩ := h.requeue (ho hs) (by rw [hs]; rfl)
    exact ⟨k2, lr', by simp only [he1, he2, bind, Except.bind, pure, Except.pure], h2, hm⟩
  · exact ⟨k, lr, rfl, h, fun _ => Iff.rfl⟩

theorem inheritFrom_spec (h : Lists e k lr w lw) (ho : (e.tcb o).state = .ready → o ∈ lr) :
    ∃ k' lr', inheritFrom k o t = .ok k' ∧
      Lists (e.setPrio o (min (e.tcb o).prio (e.tcb t).prio)) k' lr' w lw ∧ ∀ u, u ∈ lr' ↔ u ∈ lr := by
  unfold inheritFrom
  rw [h.data.prio o, h.data.prio t]
  split_ifs with hgt
  · rw [min_eq_right (by omega)]
    exact requeueIfReady_spec (h.setPrio o _) fun hs => ho (by rwa [setPrio_state] at hs)
  · rw [min_eq_left (by omega), setPrio_self]
    exact ⟨k, lr, rfl, h, fun _ => Iff.rfl⟩

theorem restorePrio_spec (h : Lists e k lr w lw) (hc : e.curr = o) (ho : o ∈ lr)
    (hs : (e.tcb o).state.runnable = true) :
    ∃ k' lr', restorePrio k o = .ok k' ∧ Lists (e.setPrio o (e.tcb o).origPrio) k' lr' w lw ∧
      ∀ u, u ∈ lr' ↔ u ∈ lr := by
  have horig : (k.tcb o).origPrio = (e.tcb o).origPrio := by rw [h.data.tcb o]
  unfold restorePrio
  rw [h.data.prio o, horig]
  split_ifs with hne
  · obtain ⟨k1, k2, lr', he1, he2, h2, hm⟩ := (h.setPrio o (e.tcb o).origPrio).requeue ho
      (by rw [setPrio_state]; exact hs)
    have hcur : k1.curr = o := by
      obtain ⟨k1', he1', -, h1⟩ := (h.setPrio o (e.tcb o).origPrio).removeReady ho
      obtain rfl : k1' = k1 := Except.ok.inj (he1'.symm.trans he1)
      rw [h1.data.curr]
      exact hc
    refine ⟨k2, lr', ?_, h2, hm⟩
    simp only [he1, bind, Except.bind, pure, Except.pure, hcur, he2]
  · rw [← not_not.mp hne, setPrio_self]
    exact ⟨k, lr, rfl, h, fun _ => Iff.rfl⟩

/-- The timer of a task that is woken early is stopped. -/
def stopTimerOf (e : Kernel n) (t : Fin n) : Kernel n :=
  match (e.tcb t).timer with
  | some tm => e.timerStopped tm
  | none => e

@[simp] theorem stopTimerOf_tcb (e : Kernel n) (t : Fin n) : (stopTimerOf e t).tcb = e.tcb := by
  unfold stopTimerOf; split <;> simp

@[simp] theorem stopTimerOf_mutexes (e : Kernel n) (t : Fin n) : (stopTimerOf e t).mutexes = e.mutexes := by
  unfold stopTimerOf; split <;> simp

@[simp] theorem stopTimerOf_sems (e : Kernel n) (t : Fin n) : (stopTimerOf e t).sems = e.sems := by
  unfold stopTimerOf; split <;> simp

@[simp] theorem stopTimerOf_curr (e : Kernel n) (t : Fin n) : (stopTimerOf e t).curr = e.curr := by
  unfold stopTimerOf; split <;> simp

theorem stopTimerOf_setMutex (e : Kernel n) (m : ℕ) (c : Mutex n) (t : Fin n) :
    stopTimerOf (e.setMutex m c) t = (stopTimerOf e t).setMutex m c := by
  have hstop : ∀ tm, (e.setMutex m c).timerStopped tm = (e.timerStopped tm).setMutex m c := by
    intro tm
    unfold Kernel.timerStopped
    show (if (e.timers tm).enabled then _ else _) = _
    split_ifs <;> rfl
  unfold stopTimerOf
  show (match (e.tcb t).timer with | some tm => _ | none => _) = _
  cases (e.tcb t).timer with
  | none => rfl
  | some tm => exact hstop tm

theorem stopTimerOf_modTcb {e : Kernel n} {t : Fin n} {f : Tcb n → Tcb n} (hf : (f (e.tcb t)).timer = (e.tcb t).timer) :
    stopTimerOf (e.modTcb t f) t = (stopTimerOf e t).modTcb t f := by
  have hstop : ∀ tm, (e.modTcb t f).timerStopped tm = (e.timerStopped tm).modTcb t f := by
    intro tm
    unfold Kernel.timerStopped
    show (if (e.timers tm).enabled then _ else _) = _
    split_ifs <;> rfl
  unfold stopTimerOf
  rw [Kernel.modTcb_self, hf]
  cases (e.tcb t).timer with
  | none => rfl
  | some tm => exact hstop tm

theorem taskTimerStopped_spec (h : Lists e k lr w lw) (t : Fin n) :
    Lists ((stopTimerOf e t).modTcb t fun c => { c with timer := none }) (taskTimerStopped k t) lr w lw := by
  have ht : (k.tcb t).timer = (e.tcb t).timer := by rw [h.data.tcb t]
  unfold taskTimerStopped stopTimerOf
  rw [ht]
  cases hnone : (e.tcb t).timer with
  | some tm => exact (h.timerStopped tm).modTcb t (f := fun c => { c with timer := none }) fun _ _ => rfl
  | none =>
    have he : (e.modTcb t fun c => { c with timer := none }) = e := by
      have hc : ({ e.tcb t with timer := none } : Tcb n) = e.tcb t := by rw [← hnone]
      rw [Kernel.modTcb, hc, Kernel.setTcb, Function.update_eq_self]
    show Lists (e.modTcb t fun c => { c with timer := none }) k lr w lw
    rw [he]
    exact h

/-- The data of a grant of mutex `m` to `t`, with `l` still waiting. -/
def granted (e : Kernel n) (m : ℕ) (t : Fin n) (l : List (Fin n)) : Kernel n :=
  ((stopTimerOf e t).modTcb t fun c =>
    { c with timer := none, state := .ready, mutex := none, prio := minPrio e l (e.tcb t).prio }).setMutex m
    { lock := .locked, owner := some t, task := l.head? }

theorem grantMutex_spec [DecidableEq ι] {i : ι} {l : List (Fin n)} (h : Lists e k lr w lw) (hi : lw i = t :: l) :
    ∃ k' lr', grantMutex k m t = .ok k' ∧
      Lists (granted e m t l) k' lr' (Function.update w i l.head?) (Function.update lw i l) ∧
      ∀ u, u ∈ lr' ↔ u = t ∨ u ∈ lr := by
  obtain ⟨-, hnx, htr, htw, h1⟩ := h.popWaiter i hi
  have htl : t ∉ l := by simpa using htw i
  have hnx : (k.tcb t).next = l.head? := hnx
  have h2 := taskTimerStopped_spec (h1.setMutex m { k.mutexes m with task := l.head? }) t
  set k2 := taskTimerStopped (k.setMutex m { k.mutexes m with task := l.head? }) t with hk2
  have hmut2 : k2.mutexes m = { k.mutexes m with task := l.head? } := by
    rw [h2.data.mutexes]
    simp [Kernel.modTcb, Kernel.setTcb, Kernel.setMutex]
  have h3 := h2.setMutex m { k2.mutexes m with owner := some t }
  set k3 := k2.setMutex m { k2.mutexes m with owner := some t } with hk3
  have hmut3 : k3.mutexes m = { k.mutexes m with task := l.head?, owner := some t } := by
    simp [hk3, Kernel.setMutex, hmut2]
  have hchain : Chain k3.next (k3.mutexes m).task l := by
    have hw := h3.wait i
    rw [Function.update_self, Function.update_self] at hw
    rw [hmut3]
    exact hw
  have hlen := hchain.length_le_fin
  have hinh := inheritLoop_eq hchain htl (f := n + 1) (by omega)
  have hprio3 : ∀ u, (k3.tcb u).prio = (e.tcb u).prio := by
    intro u
    rw [h3.data.prio]
    by_cases hu : u = t
    · subst hu; simp [Kernel.modTcb, Kernel.setMutex]
    · simp [Kernel.modTcb, Kernel.setMutex, hu]
  rw [minPrio_congr fun u _ => hprio3 u, hprio3 t] at hinh
  set v := minPrio e l (e.tcb t).prio with hv
  have h5 : Lists (granted e m t l) _ lr _ _ := (((h3.setPrio t v).modTcb t
    (f := fun c => { c with state := .ready, mutex := none }) fun _ _ => rfl).setMutex m
    { lock := .locked, owner := some t, task := l.head? }).of_data (.of_eq (by
      simp [granted, stopTimerOf_setMutex, Kernel.setPrio_eq_modTcb, hv]))
  obtain ⟨k7, hadd, h7⟩ := h5.addReady htr htw (by simp [granted])
  refine ⟨k7, _, ?_, h7, fun u => mem_insertReady⟩
  simp only [grantMutex, hnx, ← hk2, ← hk3, hinh, bind, Except.bind, pure, Except.pure]
  have hmut4 : (((k3.setPrio t v).modTcb t fun c => { c with state := .ready, mutex := none }).mutexes m) =
      { k.mutexes m with task := l.head?, owner := some t } := hmut3
  rw [hmut4, hadd]

/-- An unlock of a free mutex does nothing. -/
theorem rxMutexUnlock_free (hl : (k.mutexes m).lock = .unlocked) :
    rxMutexUnlock k m = .ok (.osOk, k.enterCritical.exitCritical) := by
  have hl' : (k.enterCritical.mutexes m).lock = .unlocked := hl
  simp [rxMutexUnlock, hl']

/-- An unlock by a task other than the owner is refused. -/
theorem rxMutexUnlock_refused (hl : (k.mutexes m).lock = .locked) (ho : (k.mutexes m).owner = some o)
    (hc : o ≠ k.curr) : rxMutexUnlock k m = .ok (.osErr, k.enterCritical.exitCritical) := by
  have hl' : (k.enterCritical.mutexes m).lock = .locked := hl
  have ho' : (k.enterCritical.mutexes m).owner = some o := ho
  have hc' : o ≠ k.enterCritical.curr := hc
  simp [rxMutexUnlock, hl', ho', hc']

/-- The data of an unlock by the owner, before the next task gets the mutex. -/
def released (e : Kernel n) (m : ℕ) : Kernel n :=
  (e.setPrio e.curr (e.tcb e.curr).origPrio).setMutex m { e.mutexes m with lock := .unlocked }

/-- An unlock by the owner: nobody waits, or the first waiter gets the mutex. -/
theorem rxMutexUnlock_owner [DecidableEq ι] {i : ι} (h : Lists e k lr w lw) (hw : (e.mutexes m).task = w i)
    (hl : (e.mutexes m).lock = .locked) (ho : (e.mutexes m).owner = some e.curr) (hc : e.curr ∈ lr)
    (hs : (e.tcb e.curr).state.runnable = true) :
    ∃ k' lr', rxMutexUnlock k m = .ok (.osOk, k') ∧ k'.port = {} ∧
      ((lw i = [] ∧ Lists (released e m) k' lr' w lw ∧ ∀ u, u ∈ lr' ↔ u ∈ lr) ∨
      ∃ t l, lw i = t :: l ∧ (∀ u, u ∈ lr' ↔ u = t ∨ u ∈ lr) ∧
        Lists (granted (released e m) m t l) k' lr' (Function.update w i l.head?) (Function.update lw i l)) := by
  have hl' : (k.enterCritical.mutexes m).lock = .locked := by rw [← hl, ← h.data.mutexes]; rfl
  have ho' : (k.enterCritical.mutexes m).owner = some k.curr := by
    rw [h.data.curr, ← ho, ← h.data.mutexes]
    rfl
  set c : Mutex n := { k.mutexes m with lock := .unlocked } with hcdef
  have hce : c = { e.mutexes m with lock := .unlocked } := by rw [hcdef, h.data.mutexes]
  have h1 := h.enter.setMutex m c
  obtain ⟨k2, lr2, hres, h2, hm2⟩ := restorePrio_spec h1 (o := e.curr) rfl hc hs
  have h2' : Lists (released e m) k2 lr2 w lw := h2.of_data (.of_eq (by
    simp [released, Kernel.setPrio_eq_modTcb, hce]))
  have htask : (k2.mutexes m).task = w i := by
    rw [h2'.data.mutexes, ← hw]
    simp [released]
  have hrun : rxMutexUnlock k m = (do
      match (k2.mutexes m).task with
      | none => return (.osOk, k2.exitCritical)
      | some t => do
        let k ← grantMutex k2 m t
        return (.osOk, k.exitCritical)) := by
    have hcur : k.curr = k.enterCritical.curr := rfl
    rw [rxMutexUnlock]
    simp only [hl', ho', if_true, hcur, ne_eq, not_true, if_false]
    have hc' : (⟨.unlocked, some k.enterCritical.curr, (k.enterCritical.mutexes m).task⟩ : Mutex n) = c := by
      rw [hcdef, ← hcur, ← ho']
      rfl
    have hcur' : k.enterCritical.curr = e.curr := h.data.curr
    rw [hc', hcur', hres]
    rfl
  rw [hrun, htask]
  have hwait := h2'.wait i
  cases hi : lw i with
  | nil =>
    have hwi : w i = none := by rw [hi] at hwait; exact hwait
    rw [hwi]
    exact ⟨k2.exitCritical, lr2, rfl, h2'.port.exit, Or.inl ⟨rfl, h2'.exit, hm2⟩⟩
  | cons t l =>
    have hwi : w i = some t := by rw [hi] at hwait; exact hwait.1
    obtain ⟨k3, lr3, hgr, h3, hm3⟩ := grantMutex_spec (m := m) h2' hi
    rw [hwi]
    refine ⟨k3.exitCritical, lr3, ?_, h3.port.exit, Or.inr ⟨t, l, rfl, fun u => ?_, h3.exit⟩⟩
    · simp only [hgr, bind, Except.bind, pure, Except.pure]
    · rw [hm3, hm2]

/-- The data of an expiry: the waiter `t` is gone from the chain, now `l`, and
the owner `o` has the priority `p`. -/
def timedOut (e : Kernel n) (m : ℕ) (t o : Fin n) (p : ℤ) (l : List (Fin n)) : Kernel n :=
  ((e.setPrio o p).modTcb t fun c => { c with timer := none, mutex := none, state := .ready }).setMutex m
    { e.mutexes m with task := l.head? }

/-- The priority the owner `o` has after the waiter `t` has left `l` behind. -/
def prioWithout (e : Kernel n) (t o : Fin n) (l : List (Fin n)) : ℤ :=
  if (e.tcb o).prio = (e.tcb t).prio then minPrio e l (e.tcb o).origPrio else (e.tcb o).prio

theorem disinherit_eq {l : List (Fin n)} (hl : Chain k.next (k.mutexes m).task l) (ho : o ∉ l) :
    disinherit k m o t = .ok (k.setPrio o (prioWithout k t o l)) := by
  have hlen := hl.length_le_fin
  unfold disinherit prioWithout
  split_ifs with heq
  · rw [inheritLoop_eq (by rw [Kernel.next_setPrio]; exact hl) ho (by omega), setPrio_setPrio, setPrio_prio]
    rw [minPrio_congr fun u hu => setPrio_prio_of_ne k (ne_of_mem_of_not_mem hu ho) _]
  · rw [setPrio_self]

theorem disinherit_ok {l : List (Fin n)} (hl : Chain k.next (k.mutexes m).task l) :
    ∃ p, disinherit k m o t = .ok (k.setPrio o p) := by
  have hlen := hl.length_le_fin
  unfold disinherit
  split_ifs with heq
  · obtain ⟨p, hp⟩ := inheritLoop_ok (o := o) (f := n + 1) (k := k.setPrio o (k.tcb o).origPrio)
      (by rw [Kernel.next_setPrio]; exact hl) (by omega)
    exact ⟨p, by rw [hp, setPrio_setPrio]⟩
  · exact ⟨_, by rw [setPrio_self]⟩

/-- `__rx_mutex_handler` of a task on the wait chain takes that task out. The
owner gets the priority that `disinherit` gives it. -/
theorem rxMutexHandler_takes [DecidableEq ι] {i : ι} {P : ℤ → Prop} (h : Lists e k lr w lw)
    (hw : (e.mutexes m).task = w i) (ht : t ∈ lw i) (hm : (e.tcb t).mutex = some m)
    (ho : (e.mutexes m).owner = some o) (hor : (e.tcb o).state = .ready → o ∈ lr) (hot : o ≠ t)
    (hdis : ∀ k2, Relinked (e.setMutex m { e.mutexes m with task := ((lw i).erase t).head? }) k2 →
      Chain k2.next (k2.mutexes m).task ((lw i).erase t) → ∃ p, P p ∧ disinherit k2 m o t = .ok (k2.setPrio o p)) :
    ∃ p k' lr', P p ∧ rxMutexHandler k t = .ok k' ∧ (∀ u, u ∈ lr' ↔ u = t ∨ u ∈ lr) ∧
      Lists (timedOut e m t o p ((lw i).erase t)) k' lr'
        (Function.update w i ((lw i).erase t).head?) (Function.update lw i ((lw i).erase t)) := by
  have htr : t ∉ lr := h.notReady i t ht
  have hnd := (h.wait i).nodup
  set l := (lw i).erase t with hl
  obtain ⟨k1, hun, h1⟩ := h.unlinkWaiter i ht
  set c : Mutex n := { e.mutexes m with task := l.head? } with hc
  have h2 := h1.setMutex m c
  set k2 := k1.setMutex m c with hk2
  have htw : ∀ j, t ∉ Function.update lw i l j := by
    intro j
    by_cases hj : j = i
    · subst hj
      rw [Function.update_self]
      exact hnd.not_mem_erase
    · rw [Function.update_of_ne hj]
      exact fun htj => hj (h.apart j i t htj ht)
  have hchain : Chain k2.next (k2.mutexes m).task l := by
    have hwt := h2.wait i
    rw [Function.update_self, Function.update_self] at hwt
    rw [hk2, Kernel.setMutex_mutexes]
    exact hwt
  obtain ⟨p, hp, hk3⟩ := hdis k2 h2.data hchain
  obtain ⟨k4, lr4, hreq, h4, hm4⟩ := requeueIfReady_spec (h2.setPrio o p) fun hs => hor (by rwa [setPrio_state] at hs)
  have h5 : Lists (timedOut e m t o p l) _ lr4 _ _ := (h4.modTcb t
    (f := fun c => { c with timer := none, mutex := none, state := .ready }) fun _ _ => rfl).of_data (.of_eq (by
      simp [timedOut, Kernel.setPrio_eq_modTcb, hc]))
  obtain ⟨k6, hadd, h6⟩ := h5.addReady (fun hm => htr ((hm4 t).mp hm)) htw (by simp [timedOut])
  refine ⟨p, k6, _, hp, ?_, fun u => ?_, h6⟩
  · have hm' : (k.tcb t).mutex = some m := by rw [h.data.tcb t]; exact hm
    have ho' : (k.mutexes m).owner = some o := by rw [h.data.mutexes]; exact ho
    have hw' : (k.mutexes m).task = w i := by rw [h.data.mutexes]; exact hw
    have hc1 : ({ k1.mutexes m with task := l.head? } : Mutex n) = c := by rw [h1.data.mutexes]
    have ho2 : (k2.mutexes m).owner = some o := by rw [hk2, Kernel.setMutex_mutexes, hc]; exact ho
    unfold rxMutexHandler
    simp only [hm', ho', Option.some.injEq, hot, if_false, hw', hun, bind, Except.bind]
    rw [← hl, hc1, ← hk2]
    simp only [ho2, hk3, hreq, hadd]
    rfl
  · rw [mem_insertReady, hm4]

/-- Where the owner waits for nothing itself, its priority is known. -/
theorem rxMutexHandler_spec [DecidableEq ι] {i : ι} (h : Lists e k lr w lw) (hw : (e.mutexes m).task = w i)
    (ht : t ∈ lw i) (hm : (e.tcb t).mutex = some m) (ho : (e.mutexes m).owner = some o) (hor : o ∈ lr) :
    ∃ k' lr', rxMutexHandler k t = .ok k' ∧ (∀ u, u ∈ lr' ↔ u = t ∨ u ∈ lr) ∧
      Lists (timedOut e m t o (prioWithout e t o ((lw i).erase t)) ((lw i).erase t)) k' lr'
        (Function.update w i ((lw i).erase t).head?) (Function.update lw i ((lw i).erase t)) := by
  have hot : o ≠ t := fun hot => h.notReady i t ht (hot ▸ hor)
  have hol : o ∉ (lw i).erase t := fun hol => h.notReady i o (List.mem_of_mem_erase hol) hor
  have hprio : ∀ k2, Relinked (e.setMutex m { e.mutexes m with task := ((lw i).erase t).head? }) k2 →
      prioWithout k2 t o ((lw i).erase t) = prioWithout e t o ((lw i).erase t) := by
    intro k2 hr
    have horig : (k2.tcb o).origPrio = (e.tcb o).origPrio := hr.origPrio o
    unfold prioWithout
    rw [hr.prio o, hr.prio t, horig, minPrio_congr fun u _ => hr.prio u]
    rfl
  obtain ⟨p, k', lr', rfl, hrun⟩ := rxMutexHandler_takes (P := (· = prioWithout e t o ((lw i).erase t)))
    h hw ht hm ho (fun _ => hor) hot fun k2 hr hl => ⟨_, hprio k2 hr, disinherit_eq hl hol⟩
  exact ⟨k', lr', hrun⟩

/-- A task on the wait chain of a mutex that it does not own is taken out of
it, wherever the owner is. -/
theorem rxMutexHandler_expires [DecidableEq ι] {i : ι} (h : Lists e k lr w lw) (hw : (e.mutexes m).task = w i)
    (ht : t ∈ lw i) (hm : (e.tcb t).mutex = some m) (ho : (e.mutexes m).owner = some o)
    (hor : (e.tcb o).state = .ready → o ∈ lr) (hot : o ≠ t) :
    ∃ p k' lr', rxMutexHandler k t = .ok k' ∧ (∀ u, u ∈ lr' ↔ u = t ∨ u ∈ lr) ∧
      Lists (timedOut e m t o p ((lw i).erase t)) k' lr'
        (Function.update w i ((lw i).erase t).head?) (Function.update lw i ((lw i).erase t)) := by
  obtain ⟨p, k', lr', -, hrun⟩ := rxMutexHandler_takes (P := fun _ => True) h hw ht hm ho hor hot fun k2 _ hl => by
    obtain ⟨p, hp⟩ := disinherit_ok (o := o) (t := t) hl
    exact ⟨p, trivial, hp⟩
  exact ⟨p, k', lr', hrun⟩

/-- The handler of a task that waits for a deleted mutex reads the owner's
priority through NULL. -/
theorem rxMutexHandler_unowned [DecidableEq ι] {i : ι} (h : Lists e k lr w lw) (hw : (e.mutexes m).task = w i)
    (ht : t ∈ lw i) (hm : (e.tcb t).mutex = some m) (ho : (e.mutexes m).owner = none) :
    rxMutexHandler k t = .error .null := by
  obtain ⟨k1, hun, h1⟩ := h.unlinkWaiter i ht
  have hm' : (k.tcb t).mutex = some m := by rw [h.data.tcb t]; exact hm
  have ho' : (k.mutexes m).owner = none := by rw [h.data.mutexes]; exact ho
  have hw' : (k.mutexes m).task = w i := by rw [h.data.mutexes]; exact hw
  have ho1 : ((k1.setMutex m { k1.mutexes m with task := ((lw i).erase t).head? }).mutexes m).owner = none := by
    rw [Kernel.setMutex_mutexes, h1.data.mutexes]
    exact ho
  unfold rxMutexHandler
  simp only [hm', ho', hw', hun, reduceCtorEq, if_false, bind, Except.bind, ho1]

/-- The data of one round of a deletion: the waiter `t` is ready, with `l` still
waiting. -/
def dropped (e : Kernel n) (m : ℕ) (t : Fin n) (l : List (Fin n)) : Kernel n :=
  ((stopTimerOf e t).modTcb t fun c => { c with timer := none, state := .ready, mutex := none }).setMutex m
    { e.mutexes m with task := l.head? }

theorem deleteWaiter_spec [DecidableEq ι] {i : ι} {l : List (Fin n)} (h : Lists e k lr w lw) (hi : lw i = t :: l) :
    ∃ k' lr', deleteWaiter m k t = .ok k' ∧ (∀ u, u ∈ lr' ↔ u = t ∨ u ∈ lr) ∧
      Lists (dropped e m t l) k' lr' (Function.update w i l.head?) (Function.update lw i l) := by
  set f : Tcb n → Tcb n := fun c => { c with state := .ready, mutex := none } with hf
  have h0 : Lists (e.modTcb t f) (k.modTcb t f) lr w lw := h.modTcb t fun _ _ => rfl
  have h1 := taskTimerStopped_spec h0 t
  obtain ⟨-, hnx, htr, htw, h2⟩ := h1.popWaiter i hi
  set k1 := taskTimerStopped (k.modTcb t f) t with hk1
  have hnx : (k1.tcb t).next = l.head? := hnx
  have hmut : k1.mutexes m = e.mutexes m := by
    rw [h1.data.mutexes]
    simp
  have h3 : Lists (dropped e m t l) _ lr _ _ := (h2.setMutex m { e.mutexes m with task := l.head? }).of_data (.of_eq (by
    rw [stopTimerOf_modTcb (f := f) (by simp [hf])]
    simp [dropped, hf]))
  obtain ⟨k4, hadd, h4⟩ := h3.addReady htr htw (by simp [dropped])
  refine ⟨k4, _, ?_, fun u => mem_insertReady, h4⟩
  simp only [deleteWaiter, ← hf, ← hk1, hnx, hmut, hadd, bind, Except.bind, pure, Except.pure]

/-- A free mutex is taken at once. -/
theorem rxMutexLockChain_free (hl : (k.mutexes m).lock = .unlocked) (timeout : ℤ) :
    rxMutexLockChain k m timeout = .ok (some .osOk, (k.enterCritical.setMutex m
      { k.mutexes m with lock := .locked, owner := some k.curr }).exitCritical) := by
  have hl' : (k.enterCritical.mutexes m).lock = .unlocked := hl
  rw [rxMutexLockChain]
  simp only [hl', if_true]
  rfl

/-- A held mutex is not waited for with `OS_NO_WAIT`. -/
theorem rxMutexLockChain_noWait (hl : (k.mutexes m).lock = .locked) :
    rxMutexLockChain k m osNoWait = .ok (some .eOsUnavail, k.enterCritical.exitCritical) := by
  have hl' : (k.enterCritical.mutexes m).lock = .locked := hl
  rw [rxMutexLockChain]
  simp [hl']

theorem rxMutexLock_free (hl : (k.mutexes m).lock = .unlocked) (timeout : ℤ) (tm : ℕ) :
    rxMutexLock k m timeout tm = .ok (some .osOk, (k.enterCritical.setMutex m
      { k.mutexes m with lock := .locked, owner := some k.curr }).exitCritical) := by
  rw [rxMutexLock_eq, rxMutexLockChain_free hl]
  rfl

theorem rxMutexLock_noWait (hl : (k.mutexes m).lock = .locked) (tm : ℕ) :
    rxMutexLock k m osNoWait tm = .ok (some .eOsUnavail, k.enterCritical.exitCritical) := by
  rw [rxMutexLock_eq, rxMutexLockChain_noWait hl]
  rfl

/-- The data of a lock call that blocks behind `l`, with `o` the owner. -/
def blockedOn (e : Kernel n) (m : ℕ) (o : Fin n) (l : List (Fin n)) : Kernel n :=
  ((e.modTcb e.curr fun c => { c with state := .suspend, mutex := some m }).setMutex m
    { e.mutexes m with task := (l ++ [e.curr]).head? }).setPrio o (min (e.tcb o).prio (e.tcb e.curr).prio)

/-- The data of the timer of a timed call. -/
def armedFor (e : Kernel n) (timeout : ℤ) (tm : ℕ) : Kernel n :=
  if timeout > 0 then
    ((e.rxInitTimer tm .mutexHandler e.curr (BitVec.ofInt 32 timeout)).rxStartTimer tm).modTcb e.curr
      fun c => { c with timer := some tm, state := .suspend }
  else e

@[simp] theorem armedFor_curr (e : Kernel n) (timeout : ℤ) (tm : ℕ) : (armedFor e timeout tm).curr = e.curr := by
  unfold armedFor
  split_ifs <;> simp

/-- `__rx_mutex_timeout` by a task that waits at the end of a chain. -/
theorem rxMutexTimeout_spec {i : ι} {l : List (Fin n)} (h : Lists e k lr w lw) (hi : lw i = l ++ [e.curr])
    {x : Fin n} {l' : List (Fin n)} (hx : lr = x :: l') {timeout : ℤ} (ht : timeout > 0) (tm : ℕ) :
    ∃ k', rxMutexTimeout k (BitVec.ofInt 32 timeout) tm = .ok k' ∧ k'.port = {} ∧
      Lists ((armedFor e timeout tm).switchTo x) k' lr w lw := by
  set k3 := ((k.rxInitTimer tm .mutexHandler k.curr (BitVec.ofInt 32 timeout)).rxStartTimer tm).modTcb
    (Kernel.rxStartTimer (k.rxInitTimer tm .mutexHandler k.curr (BitVec.ofInt 32 timeout)) tm).curr
    (fun c => { c with timer := some tm }) with hk3
  set e3 := ((e.rxInitTimer tm .mutexHandler e.curr (BitVec.ofInt 32 timeout)).rxStartTimer tm).modTcb
    e.curr (fun c => { c with timer := some tm }) with he3
  have h3 : Lists e3 k3 lr w lw := by
    rw [hk3, he3]
    simp only [rxStartTimer_curr, rxInitTimer_curr, h.data.curr]
    exact ((h.rxInitTimer tm _ _ _).rxStartTimer tm).modTcb e.curr fun _ _ => rfl
  have hcur3 : e3.curr = e.curr := by simp [he3]
  obtain ⟨k4, hsus, hport, h4⟩ := h3.suspendSelf (i := i) (l := l) (by rw [hcur3]; exact hi) hx
  rw [hcur3] at h4
  refine ⟨k4, ?_, hport, h4.of_data (.of_eq (congrArg (Kernel.switchTo · x) ?_))⟩
  · simp only [rxMutexTimeout, ← hk3, hsus, bind, Except.bind, pure, Except.pure]
  · simp [armedFor, ht, he3, Kernel.setState, Kernel.modTcb, Kernel.setTcb]

/-- A held mutex: the caller joins the chain, and the owner inherits its
priority. -/
theorem rxMutexLockChain_eq [DecidableEq ι] {i : ι} (h : Lists e k lr w lw) (hw : (e.mutexes m).task = w i)
    (hl : (e.mutexes m).lock = .locked) (hc : e.curr ∈ lr) {timeout : ℤ} (ht : timeout ≠ osNoWait) :
    ∃ k', Lists ((e.modTcb e.curr fun c => { c with state := .suspend, mutex := some m }).setMutex m
        { e.mutexes m with task := (lw i ++ [e.curr]).head? }) k' (lr.erase e.curr)
        (Function.update w i (lw i ++ [e.curr]).head?) (Function.update lw i (lw i ++ [e.curr])) ∧
      rxMutexLockChain k m timeout =
        match (e.mutexes m).owner with
        | none => .error .null
        | some o => do
          let k ← inheritFrom k' o e.curr
          return (none, k.exitCritical) := by
  have hcur : k.enterCritical.curr = e.curr := h.data.curr
  obtain ⟨k2, k3, hrem, h2, happ, h3⟩ := h.enter.block i hc
    (f := fun c => { c with state := .suspend, mutex := some m }) fun _ _ => rfl
  set c : Mutex n := { e.mutexes m with task := (lw i ++ [e.curr]).head? } with hcdef
  refine ⟨k3.setMutex m c, h3.setMutex m c, ?_⟩
  have hl' : (k.enterCritical.mutexes m).lock = .locked := by rw [← hl, ← h.data.mutexes]; rfl
  have htask : ((k2.setNext e.curr none).mutexes m).task = w i := by
    show (k2.mutexes m).task = w i
    rw [h2.mutexes]
    exact hw
  have hc3 : ({ k3.mutexes m with task := (lw i ++ [e.curr]).head? } : Mutex n) = c := by
    rw [h3.data.mutexes]
    rfl
  have ho4 : ((k3.setMutex m c).mutexes m).owner = (e.mutexes m).owner := by rw [Kernel.setMutex_mutexes]
  rw [rxMutexLockChain]
  simp only [hl', ht, hcur, hrem, htask, happ, bind, Except.bind, if_false, reduceCtorEq]
  rw [hc3, ho4]

/-- What the locked part of `rx_mutex_lock` can do: take the mutex, refuse to
wait, or go on to wait for the owner. -/
theorem rxMutexLockChain_cases [DecidableEq ι] {i : ι} (h : Lists e k lr w lw) (hw : (e.mutexes m).task = w i)
    (hc : e.curr ∈ lr) {timeout : ℤ} {r : Option OsErr} {k' : Kernel n}
    (hk : rxMutexLockChain k m timeout = .ok (r, k')) :
    ((e.mutexes m).lock = .unlocked ∧ r = some .osOk ∧ k' = (k.enterCritical.setMutex m
      { k.mutexes m with lock := .locked, owner := some k.curr }).exitCritical) ∨
    ((e.mutexes m).lock = .locked ∧ r = some .eOsUnavail ∧ k' = k.enterCritical.exitCritical) ∨
    ((e.mutexes m).lock = .locked ∧ timeout ≠ osNoWait ∧ r = none ∧ ∃ o, (e.mutexes m).owner = some o) := by
  have hmut : k.mutexes = e.mutexes := h.data.mutexes
  cases hl : (e.mutexes m).lock with
  | unlocked =>
    rw [rxMutexLockChain_free (by rw [hmut]; exact hl)] at hk
    obtain ⟨rfl, rfl⟩ := Prod.mk.inj (Except.ok.inj hk)
    exact Or.inl ⟨rfl, rfl, rfl⟩
  | locked =>
    right
    by_cases h0 : timeout = osNoWait
    · subst h0
      rw [rxMutexLockChain_noWait (by rw [hmut]; exact hl)] at hk
      obtain ⟨rfl, rfl⟩ := Prod.mk.inj (Except.ok.inj hk)
      exact Or.inl ⟨rfl, rfl, rfl⟩
    · right
      obtain ⟨k3, -, hchain⟩ := rxMutexLockChain_eq h hw hl hc h0
      rw [hk] at hchain
      cases ho : (e.mutexes m).owner with
      | none =>
        rw [ho] at hchain
        cases hchain
      | some o =>
        rw [ho] at hchain
        obtain ⟨k4, -, hk4⟩ := bind_eq_ok.mp hchain.symm
        obtain ⟨rfl, -⟩ := Prod.mk.inj (Except.ok.inj hk4)
        exact ⟨rfl, h0, rfl, o, rfl⟩

/-- A held mutex is waited for at the end of its chain. -/
theorem rxMutexLockChain_blocks [DecidableEq ι] {i : ι} (h : Lists e k lr w lw) (hw : (e.mutexes m).task = w i)
    (hl : (e.mutexes m).lock = .locked) (ho : (e.mutexes m).owner = some o)
    (hor : (e.tcb o).state = .ready → o ∈ lr) (hc : e.curr ∈ lr) {timeout : ℤ} (ht : timeout ≠ osNoWait) :
    ∃ k' lr', rxMutexLockChain k m timeout = .ok (none, k') ∧ k'.port = {} ∧
      (∀ u, u ∈ lr' ↔ u ≠ e.curr ∧ u ∈ lr) ∧
      Lists (blockedOn e m o (lw i)) k' lr' (Function.update w i (lw i ++ [e.curr]).head?)
        (Function.update lw i (lw i ++ [e.curr])) := by
  obtain ⟨k4, h4, hrun⟩ := rxMutexLockChain_eq h hw hl hc ht
  set c : Mutex n := { e.mutexes m with task := (lw i ++ [e.curr]).head? } with hcdef
  -- the owner is the caller itself, or in the state it was in
  have horl : (((e.modTcb e.curr fun c => { c with state := .suspend, mutex := some m }).setMutex m c).tcb o).state =
      .ready → o ∈ lr.erase e.curr := by
    intro hs
    by_cases hoc : o = e.curr
    · subst hoc
      simp at hs
    · rw [Kernel.setMutex_tcb, Kernel.modTcb_of_ne _ hoc] at hs
      exact (List.mem_erase_of_ne hoc).mpr (hor hs)
  obtain ⟨k5, lr5, hinh, h5, hm5⟩ := inheritFrom_spec (t := e.curr) h4 horl
  have h5' : Lists (blockedOn e m o (lw i)) k5 lr5 _ _ := h5.of_data (.of_eq (by
    have hpo : ((e.modTcb e.curr fun c => { c with state := .suspend, mutex := some m }).tcb o).prio =
        (e.tcb o).prio := Kernel.modTcb_keeps e e.curr o Tcb.prio fun _ => rfl
    simp [blockedOn, Kernel.setPrio_eq_modTcb, hpo, hcdef]))
  refine ⟨k5.exitCritical, lr5, ?_, h5'.port.exit, fun u => by rw [hm5, h.ready.nodup.mem_erase_iff], h5'.exit⟩
  rw [hrun, ho]
  simp only [hinh, bind, Except.bind, pure, Except.pure]

/-- The task at the end of a chain gives up the processor to the head of the
ready queue. -/
theorem rxMutexLockSleep_spec {i : ι} {l : List (Fin n)} (h : Lists e k lr w lw) (hi : lw i = l ++ [e.curr])
    {x : Fin n} {l' : List (Fin n)} (hx : lr = x :: l') (timeout : ℤ) (tm : ℕ) :
    ∃ k', rxMutexLockSleep k timeout tm = .ok k' ∧ k'.port = {} ∧
      Lists ((armedFor e timeout tm).switchTo x) k' lr w lw := by
  unfold rxMutexLockSleep
  by_cases hpos : timeout > 0
  · rw [if_pos hpos]
    exact rxMutexTimeout_spec h hi hx hpos tm
  · rw [if_neg hpos, armedFor, if_neg hpos]
    exact h.sched (h.notReady i _ (by simp [hi])) hx

/-- With no other task ready the caller faults. -/
theorem rxMutexLockSleep_nil (h : Lists e k [] w lw) (timeout : ℤ) (tm : ℕ) :
    rxMutexLockSleep k timeout tm = .error .null := by
  unfold rxMutexLockSleep
  split_ifs
  · have h3 := ((h.rxInitTimer tm .mutexHandler k.curr (BitVec.ofInt 32 timeout)).rxStartTimer tm).modTcb
      (Kernel.rxStartTimer (k.rxInitTimer tm .mutexHandler k.curr (BitVec.ofInt 32 timeout)) tm).curr
      (f := fun c => { c with timer := some tm }) fun _ _ => rfl
    simp only [rxMutexTimeout, h3.suspendSelf_nil, bind, Except.bind]
  · exact h.sched_nil

/-- A held mutex is waited for, and the head of the ready queue runs. -/
theorem rxMutexLock_blocks [DecidableEq ι] {i : ι} (h : Lists e k lr w lw) (hw : (e.mutexes m).task = w i)
    (hl : (e.mutexes m).lock = .locked) (ho : (e.mutexes m).owner = some o) (hor : o ∈ lr) (hc : e.curr ∈ lr)
    (hoc : o ≠ e.curr) {timeout : ℤ} (ht : timeout ≠ osNoWait) (tm : ℕ) :
    ∃ k' lr' x, rxMutexLock k m timeout tm = .ok (none, k') ∧ k'.port = {} ∧ x ∈ lr' ∧
      (∀ u, u ∈ lr' ↔ u ≠ e.curr ∧ u ∈ lr) ∧
      Lists ((armedFor (blockedOn e m o (lw i)) timeout tm).switchTo x) k' lr'
        (Function.update w i (lw i ++ [e.curr]).head?) (Function.update lw i (lw i ++ [e.curr])) := by
  obtain ⟨k1, lr', hchain, -, hm, h1⟩ := rxMutexLockChain_blocks h hw hl ho (fun _ => hor) hc ht
  obtain ⟨x, l', hx⟩ : ∃ x l', lr' = x :: l' := by
    cases hlr : lr' with
    | nil =>
      have := (hm o).mpr ⟨hoc, hor⟩
      rw [hlr] at this
      cases this
    | cons x l' => exact ⟨x, l', rfl⟩
  obtain ⟨k2, hsleep, hport, h2⟩ := rxMutexLockSleep_spec (i := i) (l := lw i) h1
    (by rw [Function.update_self]; rfl) hx timeout tm
  refine ⟨k2, lr', x, ?_, hport, by simp [hx], hm, h2⟩
  rw [rxMutexLock_eq, hchain]
  show (do let k ← rxMutexLockSleep k1 timeout tm; return (none, k)) = _
  rw [hsleep]
  rfl

end Spec

/-! ### The data after a call -/

section Data

variable (e : Kernel n) (m : ℕ) (t o u : Fin n) (l : List (Fin n))

theorem released_state : ((released e m).tcb u).state = (e.tcb u).state := setPrio_state _ _ _ _

theorem released_timer : ((released e m).tcb u).timer = (e.tcb u).timer := setPrio_timer _ _ _ _

theorem released_mutex : ((released e m).tcb u).mutex = (e.tcb u).mutex := setPrio_mutex _ _ _ _

theorem released_mutexes : (released e m).mutexes m = { e.mutexes m with lock := .unlocked } := by
  simp [released]

theorem granted_state : ((granted e m t l).tcb u).state = if u = t then .ready else (e.tcb u).state := by
  by_cases h : u = t
  · subst h; simp [granted]
  · simp [granted, Kernel.modTcb_of_ne _ h, h]

theorem granted_timer : ((granted e m t l).tcb u).timer = if u = t then none else (e.tcb u).timer := by
  by_cases h : u = t
  · subst h; simp [granted]
  · simp [granted, Kernel.modTcb_of_ne _ h, h]

theorem granted_mutex : ((granted e m t l).tcb u).mutex = if u = t then none else (e.tcb u).mutex := by
  by_cases h : u = t
  · subst h; simp [granted]
  · simp [granted, Kernel.modTcb_of_ne _ h, h]

theorem granted_mutexes : (granted e m t l).mutexes m =
    { lock := .locked, owner := some t, task := l.head? } := by
  simp [granted]

theorem granted_curr : (granted e m t l).curr = e.curr := by simp [granted]

variable {e t} in
/-- A timer that is still armed when the timer of `t` has been stopped is
another one. -/
theorem mem_active_stopTimerOf (hnd : e.active.Nodup) (hen : ∀ tm ∈ e.active, (e.timers tm).enabled = true) {tm : ℕ}
    (h : tm ∈ (stopTimerOf e t).active) :
    tm ∈ e.active ∧ (e.tcb t).timer ≠ some tm ∧ (stopTimerOf e t).timers tm = e.timers tm := by
  unfold stopTimerOf at h ⊢
  cases ht : (e.tcb t).timer with
  | none =>
    rw [ht] at h
    exact ⟨h, by simp, rfl⟩
  | some tm' =>
    simp only [ht, Kernel.timerStopped] at h ⊢
    split_ifs at h ⊢ with hen'
    · have h' : tm ∈ e.active.erase tm' := h
      obtain ⟨hne, hmem⟩ := hnd.mem_erase_iff.mp h'
      refine ⟨hmem, fun he => hne (Option.some.inj he).symm, ?_⟩
      show Function.update e.timers tm' _ tm = e.timers tm
      rw [Function.update_of_ne hne]
    · refine ⟨h, fun he => hen' ?_, rfl⟩
      rw [Option.some.inj he]
      exact hen tm h

theorem stopTimerOf_active_nodup (hnd : e.active.Nodup) : (stopTimerOf e t).active.Nodup := by
  unfold stopTimerOf
  split
  · unfold Kernel.timerStopped
    split_ifs
    · exact hnd.erase _
    · exact hnd
  · exact hnd

variable {e t} in
/-- A timer that is still armed after a grant is not the timer of the task
that got the mutex. -/
theorem mem_active_granted (hnd : e.active.Nodup) (hen : ∀ tm ∈ e.active, (e.timers tm).enabled = true) {tm : ℕ}
    (h : tm ∈ (granted e m t l).active) :
    tm ∈ e.active ∧ (e.tcb t).timer ≠ some tm ∧ (granted e m t l).timers tm = e.timers tm :=
  mem_active_stopTimerOf hnd hen h

theorem granted_active_nodup (hnd : e.active.Nodup) : (granted e m t l).active.Nodup :=
  stopTimerOf_active_nodup e t hnd

theorem dropped_state : ((dropped e m t l).tcb u).state = if u = t then .ready else (e.tcb u).state := by
  by_cases h : u = t
  · subst h; simp [dropped]
  · simp [dropped, Kernel.modTcb_of_ne _ h, h]

theorem dropped_timer : ((dropped e m t l).tcb u).timer = if u = t then none else (e.tcb u).timer := by
  by_cases h : u = t
  · subst h; simp [dropped]
  · simp [dropped, Kernel.modTcb_of_ne _ h, h]

theorem dropped_mutex : ((dropped e m t l).tcb u).mutex = if u = t then none else (e.tcb u).mutex := by
  by_cases h : u = t
  · subst h; simp [dropped]
  · simp [dropped, Kernel.modTcb_of_ne _ h, h]

theorem timedOut_state (p : ℤ) :
    ((timedOut e m t o p l).tcb u).state = if u = t then .ready else (e.tcb u).state := by
  by_cases h : u = t
  · subst h; simp [timedOut]
  · simp [timedOut, Kernel.modTcb_of_ne _ h, h, setPrio_state]

theorem timedOut_timer (p : ℤ) :
    ((timedOut e m t o p l).tcb u).timer = if u = t then none else (e.tcb u).timer := by
  by_cases h : u = t
  · subst h; simp [timedOut]
  · simp [timedOut, Kernel.modTcb_of_ne _ h, h, setPrio_timer]

theorem timedOut_mutex (p : ℤ) :
    ((timedOut e m t o p l).tcb u).mutex = if u = t then none else (e.tcb u).mutex := by
  by_cases h : u = t
  · subst h; simp [timedOut]
  · simp [timedOut, Kernel.modTcb_of_ne _ h, h, setPrio_mutex]

theorem timedOut_mutexes (p : ℤ) : (timedOut e m t o p l).mutexes m = { e.mutexes m with task := l.head? } := by
  simp [timedOut]

theorem blockedOn_state :
    ((blockedOn e m o l).tcb u).state = if u = e.curr then .suspend else (e.tcb u).state := by
  rw [blockedOn, setPrio_state, Kernel.setMutex_tcb]
  by_cases h : u = e.curr
  · subst h; simp
  · simp [Kernel.modTcb_of_ne _ h, h]

theorem blockedOn_timer : ((blockedOn e m o l).tcb u).timer = (e.tcb u).timer := by
  rw [blockedOn, setPrio_timer, Kernel.setMutex_tcb]
  exact Kernel.modTcb_keeps e _ u Tcb.timer fun _ => rfl

theorem blockedOn_mutex :
    ((blockedOn e m o l).tcb u).mutex = if u = e.curr then some m else (e.tcb u).mutex := by
  rw [blockedOn, setPrio_mutex, Kernel.setMutex_tcb]
  by_cases h : u = e.curr
  · subst h; simp
  · simp [Kernel.modTcb_of_ne _ h, h]

theorem blockedOn_sem : ((blockedOn e m o l).tcb u).sem = (e.tcb u).sem := by
  refine (Kernel.setPrio_keeps _ _ _ _ Tcb.sem fun _ => rfl).trans ?_
  rw [Kernel.setMutex_tcb]
  exact Kernel.modTcb_keeps e _ u Tcb.sem fun _ => rfl

theorem blockedOn_timeout : ((blockedOn e m o l).tcb u).timeout = (e.tcb u).timeout := by
  refine (Kernel.setPrio_keeps _ _ _ _ Tcb.timeout fun _ => rfl).trans ?_
  rw [Kernel.setMutex_tcb]
  exact Kernel.modTcb_keeps e _ u Tcb.timeout fun _ => rfl

theorem blockedOn_mutexes : (blockedOn e m o l).mutexes m =
    { e.mutexes m with task := (l ++ [e.curr]).head? } :=
  Kernel.setMutex_mutexes _ m _

variable (timeout : ℤ) (tm : ℕ)

theorem armedFor_mutexes : (armedFor e timeout tm).mutexes = e.mutexes := by
  unfold armedFor
  split_ifs <;> simp

theorem armedFor_sems : (armedFor e timeout tm).sems = e.sems := by
  unfold armedFor
  split_ifs <;> simp

/-- A field that neither the timer nor the suspension changes. -/
theorem armedFor_keeps {β : Type*} (g : Tcb n → β)
    (hg : ∀ c, g { c with timer := some tm, state := .suspend } = g c) :
    g ((armedFor e timeout tm).tcb u) = g (e.tcb u) := by
  unfold armedFor
  split_ifs
  · rw [Kernel.modTcb_keeps _ _ _ g hg, rxStartTimer_tcb, rxInitTimer_tcb]
  · rfl

theorem armedFor_mutex : ((armedFor e timeout tm).tcb u).mutex = (e.tcb u).mutex :=
  armedFor_keeps e u timeout tm Tcb.mutex fun _ => rfl

theorem armedFor_state (hs : (e.tcb e.curr).state = .suspend) :
    ((armedFor e timeout tm).tcb u).state = (e.tcb u).state := by
  unfold armedFor
  split_ifs
  · by_cases h : u = e.curr
    · subst h; simp [hs]
    · simp [Kernel.modTcb_of_ne _ h]
  · rfl

theorem armedFor_timer : ((armedFor e timeout tm).tcb u).timer =
    if timeout > 0 ∧ u = e.curr then some tm else (e.tcb u).timer := by
  unfold armedFor
  split_ifs with h0 h1 h1
  · obtain ⟨-, rfl⟩ := h1
    simp
  · have hu : u ≠ e.curr := fun hu => h1 ⟨h0, hu⟩
    simp [Kernel.modTcb_of_ne _ hu]
  · exact absurd h1.1 h0
  · rfl

variable {timeout}

theorem armedFor_active (h0 : timeout > 0) (h1 : timeout < 2 ^ 31) :
    (armedFor e timeout tm).active.Perm (tm :: e.active) := by
  rw [armedFor, if_pos h0]
  exact start_init_perm _ _ (ticks_ne_zero h0 h1)

theorem armedFor_timers (h0 : timeout > 0) (h1 : timeout < 2 ^ 31) : ∃ x, (armedFor e timeout tm).timers =
    Function.update e.timers tm
      { Timer.init .mutexHandler e.curr e.curr (BitVec.ofInt 32 timeout) with timeExpiry := x, enabled := true } := by
  rw [armedFor, if_pos h0]
  exact start_init_timers _ _ (ticks_ne_zero h0 h1)

variable {e tm} in
/-- A timer that is armed after the call is the one of the call or was armed
before. -/
theorem mem_active_armedFor (h1 : timeout < 2 ^ 31) {tm' : ℕ} (h : tm' ∈ (armedFor e timeout tm).active) :
    (timeout > 0 ∧ tm' = tm ∧ ((armedFor e timeout tm).timers tm').enabled = true ∧
      ((armedFor e timeout tm).timers tm').handler = some .mutexHandler ∧
      ((armedFor e timeout tm).timers tm').priv = some e.curr) ∨
    (tm' ∈ e.active ∧ (armedFor e timeout tm).timers tm' = e.timers tm') := by
  by_cases h0 : timeout > 0
  · obtain ⟨x, hx⟩ := armedFor_timers e tm h0 h1
    by_cases htm : tm' = tm
    · subst htm
      rw [hx, Function.update_self]
      exact Or.inl ⟨h0, rfl, rfl, rfl, rfl⟩
    · rw [(armedFor_active e tm h0 h1).mem_iff, List.mem_cons] at h
      rw [hx, Function.update_of_ne htm]
      exact Or.inr ⟨h.resolve_left htm, rfl⟩
  · rw [armedFor, if_neg h0] at h ⊢
    exact Or.inr ⟨h, rfl⟩

theorem armedFor_active_nodup (h1 : timeout < 2 ^ 31) (htm : tm ∉ e.active) (hnd : e.active.Nodup) :
    (armedFor e timeout tm).active.Nodup := by
  by_cases h0 : timeout > 0
  · rw [(armedFor_active e tm h0 h1).nodup_iff]
    exact List.nodup_cons.mpr ⟨htm, hnd⟩
  · rw [armedFor, if_neg h0]
    exact hnd

end Data

end Rosx
