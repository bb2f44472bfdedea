/-
# Tasks that nothing will wake

A service reaches the task it wakes along pointers: the head of the ready
queue, the heads of the wait chains, the `next` links from there, and the
armed timers. `Detached Q t k` says that none of these leads to `t`, and that `t`
neither runs nor is ready; `Q` is what else is known of its state. It says nothing about the lists themselves: links
may be stale, and lists may run into each other.

Every kernel service keeps `Detached Q t`, unless it is called on `t` to make it
ready: what it writes into a link or a head it has read from one, and the tasks
that it wakes are those it has reached. One lemma for each operation follows.

Key definitions: `TimerWakes`, `Detached`.
-/
import Rosx.Semaphore
import Rosx.Mutex
import Rosx.Queue
import Rosx.Wait
import Rosx.TaskRun

namespace Rosx

open Linked

variable {n : ℕ} {Q : TaskState → Prop}

/-- The expiry of timer `tm` makes `t` ready: `t` sleeps on it, or it is the
timer of a wait of `t` that has not ended. -/
def TimerWakes (k : Kernel n) (t : Fin n) (tm : ℕ) : Prop :=
  match (k.timers tm).handler with
  | none => (k.timers tm).task = some t
  | some .semHandler => (k.timers tm).priv = some t ∧ (k.tcb t).sem ≠ none
  | some .mutexHandler => (k.timers tm).priv = some t ∧ (k.tcb t).mutex ≠ none
  | some .waitHandler | some .application => False

theorem TimerWakes.of_eq {k k' : Kernel n} {t : Fin n} {tm : ℕ} (h : TimerWakes k' t tm) (htcb : k'.tcb t = k.tcb t)
    (hhandler : (k'.timers tm).handler = (k.timers tm).handler) (hpriv : (k'.timers tm).priv = (k.timers tm).priv)
    (htask : (k'.timers tm).task = (k.timers tm).task) : TimerWakes k t tm := by
  unfold TimerWakes at h ⊢
  rwa [htcb, hhandler, hpriv, htask] at h

/-- The same where one timer changes, but for what its expiry reads. -/
theorem TimerWakes.of_update {k k' : Kernel n} {t : Fin n} {i tm : ℕ} {c : Timer n} (h : TimerWakes k' t i)
    (htcb : k'.tcb t = k.tcb t) (htim : k'.timers = Function.update k.timers tm c)
    (hhandler : c.handler = (k.timers tm).handler) (hpriv : c.priv = (k.timers tm).priv)
    (htask : c.task = (k.timers tm).task) : TimerWakes k t i := by
  by_cases hi : i = tm
  · subst hi
    apply h.of_eq htcb
    all_goals rw [htim, Function.update_self]
    · exact hhandler
    · exact hpriv
    · exact htask
  · apply h.of_eq htcb
    all_goals rw [htim, Function.update_of_ne hi]

/-- The task neither runs nor is ready, and no pointer leads to it from where a
service could wake it. -/
structure Detached (Q : TaskState → Prop) (t : Fin n) (k : Kernel n) : Prop where
  idle : (k.tcb t).state.runnable = false
  state : Q (k.tcb t).state
  curr : k.curr ≠ t
  next : ∀ u, u ≠ t → k.next u ≠ some t
  ready : k.readyHead ≠ some t
  sems : ∀ m, (k.sems m).task ≠ some t
  mutexes : ∀ m, (k.mutexes m).task ≠ some t
  timers : ∀ tm ∈ k.active, ¬ TimerWakes k t tm

namespace Detached

variable {k k' : Kernel n} {t u new : Fin n} {m tm : ℕ} {r : OsErr}

/-! ### Updates of one field -/

/-- Nothing that matters has changed. -/
theorem of_eq (h : Detached Q t k) (htcb : k'.tcb = k.tcb) (hcurr : k'.curr = k.curr)
    (hready : k'.readyHead = k.readyHead) (hsems : k'.sems = k.sems) (hmut : k'.mutexes = k.mutexes)
    (htim : k'.timers = k.timers) (hact : k'.active = k.active) : Detached Q t k' := by
  refine ⟨by rw [htcb]; exact h.idle, by rw [htcb]; exact h.state, by rw [hcurr]; exact h.curr, fun u hu => ?_,
    by rw [hready]; exact h.ready, by rw [hsems]; exact h.sems, by rw [hmut]; exact h.mutexes, fun tm htm hw => ?_⟩
  · simp only [Kernel.next, htcb]
    exact h.next u hu
  · rw [hact] at htm
    exact h.timers tm htm (hw.of_eq (by rw [htcb]) (by rw [htim]) (by rw [htim]) (by rw [htim]))

theorem enter (h : Detached Q t k) : Detached Q t k.enterCritical := h.of_eq rfl rfl rfl rfl rfl rfl rfl

theorem exit (h : Detached Q t k) : Detached Q t k.exitCritical := h.of_eq rfl rfl rfl rfl rfl rfl rfl

theorem resched (h : Detached Q t k) (b : Bool) : Detached Q t { k with needResched := b } :=
  h.of_eq rfl rfl rfl rfl rfl rfl rfl

/-- Control blocks change, but for the links, and that of `t` stays what it has
to be. -/
theorem of_tcb (h : Detached Q t k) {T : Fin n → Tcb n} (hnext : ∀ u, u ≠ t → (T u).next = (k.tcb u).next)
    (hstate : (T t).state = (k.tcb t).state) (hsem : (T t).sem = (k.tcb t).sem)
    (hmut : (T t).mutex = (k.tcb t).mutex) : Detached Q t { k with tcb := T } := by
  refine ⟨hstate ▸ h.idle, hstate ▸ h.state, h.curr, fun u hu => ?_, h.ready, h.sems, h.mutexes,
    fun tm htm hw => h.timers tm htm ?_⟩
  · show (T u).next ≠ some t
    rw [hnext u hu]
    exact h.next u hu
  · unfold TimerWakes at hw ⊢
    simpa only [hsem, hmut] using hw

/-- Another task's control block changes, but for its link. -/
theorem modTcb (h : Detached Q t k) (hu : u ≠ t) {f : Tcb n → Tcb n} (hf : ∀ c, (f c).next = c.next) :
    Detached Q t (k.modTcb u f) := by
  have hself : Function.update k.tcb u (f (k.tcb u)) t = k.tcb t := Function.update_of_ne hu.symm _ _
  apply h.of_tcb
  · intro v _
    by_cases hv : v = u
    · subst hv
      rw [Function.update_self, hf]
    · rw [Function.update_of_ne hv]
  all_goals rw [hself]

theorem setState (h : Detached Q t k) (hu : u ≠ t) (v : TaskState) : Detached Q t (k.setState u v) :=
  h.modTcb hu (f := fun c => { c with state := v }) fun _ => rfl

/-- The task's own state may change to another in which it is not ready. -/
theorem setState_self (h : Detached Q t k) {v : TaskState} (hv : v.runnable = false) (hQ : Q v) :
    Detached Q t (k.setState t v) := by
  have hst : ((k.setState t v).tcb t).state = v := by simp [Kernel.setState]
  refine ⟨by rw [hst]; exact hv, by rw [hst]; exact hQ, h.curr, fun u hu => ?_, h.ready, h.sems, h.mutexes,
    fun tm htm hw => h.timers tm htm ?_⟩
  · rw [Kernel.next_setState]
    exact h.next u hu
  · have hsem : ((k.setState t v).tcb t).sem = (k.tcb t).sem := k.setTcb_keeps t t Tcb.sem rfl
    have hmut : ((k.setState t v).tcb t).mutex = (k.tcb t).mutex := k.setTcb_keeps t t Tcb.mutex rfl
    unfold TimerWakes at hw ⊢
    rwa [hsem, hmut] at hw

/-- Any task's priority may change. -/
theorem setPrio (h : Detached Q t k) (u : Fin n) (p : ℤ) : Detached Q t (k.setPrio u p) := by
  apply h.of_tcb
  · exact fun v _ => k.setTcb_keeps u v Tcb.next rfl
  · exact k.setTcb_keeps u t Tcb.state rfl
  · exact k.setTcb_keeps u t Tcb.sem rfl
  · exact k.setTcb_keeps u t Tcb.mutex rfl

/-- A link is set to something else than `t`. -/
theorem setNext (h : Detached Q t k) (u : Fin n) {v : Option (Fin n)} (hv : v ≠ some t) :
    Detached Q t (k.setNext u v) := by
  have hst : ((k.setNext u v).tcb t).state = (k.tcb t).state := k.setTcb_keeps u t Tcb.state rfl
  refine ⟨hst ▸ h.idle, hst ▸ h.state, h.curr, fun x hx => ?_, h.ready, h.sems, h.mutexes,
    fun tm htm hw => h.timers tm htm ?_⟩
  · rw [Kernel.next_setNext]
    by_cases hxu : x = u
    · rw [hxu, Function.update_self]
      exact hv
    · rw [Function.update_of_ne hxu]
      exact h.next x hx
  · have hsem : ((k.setNext u v).tcb t).sem = (k.tcb t).sem := k.setTcb_keeps u t Tcb.sem rfl
    have hmut : ((k.setNext u v).tcb t).mutex = (k.tcb t).mutex := k.setTcb_keeps u t Tcb.mutex rfl
    unfold TimerWakes at hw ⊢
    rwa [hsem, hmut] at hw

theorem clearNext (h : Detached Q t k) (u : Fin n) : Detached Q t (k.setNext u none) := h.setNext u nofun

theorem setHead (h : Detached Q t k) {v : Option (Fin n)} (hv : v ≠ some t) : Detached Q t { k with readyHead := v } :=
  ⟨h.idle, h.state, h.curr, h.next, hv, h.sems, h.mutexes, h.timers⟩

theorem setSem (h : Detached Q t k) (m : ℕ) {c : Semaphore n} (hc : c.task ≠ some t) : Detached Q t (k.setSem m c) := by
  refine ⟨h.idle, h.state, h.curr, h.next, h.ready, fun i => ?_, h.mutexes, h.timers⟩
  show (Function.update k.sems m c i).task ≠ some t
  by_cases hi : i = m
  · rw [hi, Function.update_self]
    exact hc
  · rw [Function.update_of_ne hi]
    exact h.sems i

theorem setMutex (h : Detached Q t k) (m : ℕ) {c : Mutex n} (hc : c.task ≠ some t) : Detached Q t (k.setMutex m c) := by
  refine ⟨h.idle, h.state, h.curr, h.next, h.ready, h.sems, fun i => ?_, h.timers⟩
  show (Function.update k.mutexes m c i).task ≠ some t
  by_cases hi : i = m
  · rw [hi, Function.update_self]
    exact hc
  · rw [Function.update_of_ne hi]
    exact h.mutexes i

/-- A count does not matter, nor do lock and owner. -/
theorem setVal (h : Detached Q t k) (m : ℕ) (v : ℤ) : Detached Q t (k.setSem m { k.sems m with currVal := v }) :=
  h.setSem m (h.sems m)

theorem setLock (h : Detached Q t k) (m : ℕ) (v : MutexLock) (o : Option (Fin n)) :
    Detached Q t (k.setMutex m { k.mutexes m with lock := v, owner := o }) :=
  h.setMutex m (h.mutexes m)

/-! ### The ready queue and the scheduler -/

theorem next_ne (h : Detached Q t k) (hu : u ≠ t) : (k.tcb u).next ≠ some t := h.next u hu

theorem addLoop (h : Detached Q t k) (hnew : new ≠ t) {prio : ℤ} : ∀ {f : ℕ} {prev start : Option (Fin n)},
    start ≠ some t → addLoop k new prio f prev start = .ok k' → Detached Q t k'
  | 0, _, _, _, hk => by cases hk
  | f + 1, prev, none, _, hk => by
    cases prev with
    | none => cases hk
    | some p =>
      obtain rfl := Except.ok.inj hk
      exact h.setNext p (by simpa using hnew)
  | f + 1, prev, some start, hs, hk => by
    have hst : start ≠ t := fun he => hs (congrArg some he)
    have hn : some new ≠ some t := by simpa using hnew
    simp only [Rosx.addLoop] at hk
    split_ifs at hk with h1 h2 h3
    · split at hk
      · rename_i nx hnx
        have hne : some nx ≠ some t := hnx ▸ h.next_ne hst
        split_ifs at hk
        · obtain rfl := Except.ok.inj hk
          exact (h.setNext new hne).setNext start hn
        · exact addLoop h hnew hne hk
      · obtain rfl := Except.ok.inj hk
        exact (h.clearNext new).setNext start hn
    · obtain rfl := Except.ok.inj hk
      exact (h.setNext new hs).setHead hn
    · cases prev with
      | none => cases hk
      | some p =>
        obtain rfl := Except.ok.inj hk
        exact (h.setNext new hs).setNext p hn
    · exact addLoop h hnew (h.next_ne hst) hk

/-- Another task is put on the ready queue. -/
theorem rxAddToReadyQ (h : Detached Q t k) (hnew : new ≠ t) (hk : rxAddToReadyQ k new = .ok (r, k')) :
    Detached Q t k' := by
  unfold Rosx.rxAddToReadyQ at hk
  split_ifs at hk
  · obtain ⟨-, rfl⟩ := Prod.mk.inj (Except.ok.inj hk)
    exact h
  · have h1 := (h.clearNext new).enter
    dsimp only at hk
    split at hk
    · obtain ⟨-, rfl⟩ := Prod.mk.inj (Except.ok.inj hk)
      exact (h1.setHead (by simpa using hnew)).exit
    · rename_i start hstart
      obtain ⟨k1, hk1, hk⟩ := bind_eq_ok.mp hk
      have h2 := h1.addLoop hnew (hstart ▸ h1.ready) hk1
      obtain ⟨-, rfl⟩ := Prod.mk.inj (Except.ok.inj hk)
      split_ifs
      · exact (h2.resched true).exit
      · exact h2.exit

theorem removeLoop (h : Detached Q t k) (hu : u ≠ t) : ∀ {f : ℕ} {prev start : Option (Fin n)},
    removeLoop k u f prev start = .ok k' → Detached Q t k'
  | 0, _, _, hk => by cases hk
  | f + 1, prev, none, hk => by
    cases prev with
    | none => cases hk
    | some p =>
      obtain rfl := Except.ok.inj hk
      exact (h.clearNext p).clearNext u
  | f + 1, prev, some start, hk => by
    simp only [Rosx.removeLoop] at hk
    split_ifs at hk with h1 h2
    · obtain rfl := Except.ok.inj hk
      subst h1
      exact (h.setHead (h.next_ne hu)).clearNext start
    · cases prev with
      | none => cases hk
      | some p =>
        obtain rfl := Except.ok.inj hk
        subst h1
        exact (h.setNext p (h.next_ne hu)).clearNext start
    · exact removeLoop h hu hk

/-- Another task is taken off the ready queue. -/
theorem rxRemoveFromReadyQ (h : Detached Q t k) (hu : u ≠ t) (hk : rxRemoveFromReadyQ k u = .ok k') :
    Detached Q t k' := by
  obtain ⟨k1, hk1, hk⟩ := bind_eq_ok.mp hk
  have h1 := h.enter.removeLoop hu hk1
  obtain rfl := Except.ok.inj hk
  exact h1.exit

theorem rxSched (h : Detached Q t k) (hk : rxSched k = .ok k') : Detached Q t k' := by
  rcases rxSched_cases hk with ⟨rfl, -⟩ | ⟨x, hx, -, rfl⟩
  · exact h
  · have hxt : x ≠ t := fun he => h.ready (hx.trans (congrArg some he))
    have h1 := h.modTcb hxt (f := switchTcb) fun _ => rfl
    exact ⟨h1.idle, h1.state, hxt, h1.next, h1.ready, h1.sems, h1.mutexes, h1.timers⟩

/-! ### The task services -/

theorem suspend (h : Detached Q t k) {o : Option (Fin n)} (hk : rxSuspendTask k o = .ok (r, k')) : Detached Q t k' := by
  cases o with
  | none =>
    obtain ⟨k1, hrem, hk⟩ := bind_eq_ok.mp hk
    obtain ⟨k2, hsched, hk⟩ := bind_eq_ok.mp hk
    obtain ⟨-, rfl⟩ := Prod.mk.inj (Except.ok.inj hk)
    have h1 := h.rxRemoveFromReadyQ h.curr hrem
    exact (h1.setState h1.curr .suspend).rxSched hsched
  | some u =>
    simp only [rxSuspendTask] at hk
    split_ifs at hk with hready
    · have hu : u ≠ t := by
        rintro rfl
        have hst := h.idle
        rw [hready] at hst
        cases hst
      obtain ⟨k1, hrem, hk⟩ := bind_eq_ok.mp hk
      obtain ⟨-, rfl⟩ := Prod.mk.inj (Except.ok.inj hk)
      exact (h.rxRemoveFromReadyQ hu hrem).setState hu .suspend
    · obtain ⟨-, rfl⟩ := Prod.mk.inj (Except.ok.inj hk)
      exact h

theorem resume (h : Detached Q t k) (hu : u ≠ t) (hk : rxResumeTask k u = .ok (r, k')) : Detached Q t k' := by
  unfold rxResumeTask at hk
  split_ifs at hk
  · obtain ⟨-, rfl⟩ := Prod.mk.inj (Except.ok.inj hk)
    exact h
  · obtain ⟨⟨e, k1⟩, hadd, hk⟩ := bind_eq_ok.mp hk
    obtain ⟨-, rfl⟩ := Prod.mk.inj (Except.ok.inj hk)
    exact (h.setState hu .ready).rxAddToReadyQ hu hadd

/-- A task that was not suspended is not resumed. -/
theorem resume_self (h : Detached Q t k) (hQ : ¬ Q .suspend) (hk : rxResumeTask k t = .ok (r, k')) :
    Detached Q t k' := by
  have hst : (k.tcb t).state ≠ .suspend := fun he => hQ (he ▸ h.state)
  rw [rxResumeTask, if_pos hst] at hk
  obtain ⟨-, rfl⟩ := Prod.mk.inj (Except.ok.inj hk)
  exact h

/-- A task that is READY is not the detached one. -/
theorem ne_of_ready (h : Detached Q t k) (hu : (k.tcb u).state = .ready) : u ≠ t := by
  rintro rfl
  have hst := h.idle
  rw [hu] at hst
  cases hst

theorem setTaskPrio (h : Detached Q t k) {p : ℤ} (hk : rxSetTaskPrio k u p = .ok (r, k')) : Detached Q t k' := by
  unfold rxSetTaskPrio at hk
  dsimp only at hk
  have h1 := h.setPrio u p
  split_ifs at hk with hno hready
  · obtain ⟨-, rfl⟩ := Prod.mk.inj (Except.ok.inj hk)
    exact h
  · have hu := h1.ne_of_ready hready
    obtain ⟨k1, hrem, hk⟩ := bind_eq_ok.mp hk
    obtain ⟨⟨e, k2⟩, hadd, hk⟩ := bind_eq_ok.mp hk
    obtain ⟨-, rfl⟩ := Prod.mk.inj (Except.ok.inj hk)
    exact (h1.rxRemoveFromReadyQ hu hrem).rxAddToReadyQ hu hadd
  · obtain ⟨-, rfl⟩ := Prod.mk.inj (Except.ok.inj hk)
    exact h1

theorem abort (h : Detached Q t k) (hQ : Q .abort) (hk : rxAbortTask k u = .ok (r, k')) : Detached Q t k' := by
  unfold rxAbortTask at hk
  split_ifs at hk with hc hready
  · obtain ⟨-, rfl⟩ := Prod.mk.inj (Except.ok.inj hk)
    exact h
  · have hu := h.ne_of_ready hready
    obtain ⟨k1, hrem, hk⟩ := bind_eq_ok.mp hk
    obtain ⟨-, rfl⟩ := Prod.mk.inj (Except.ok.inj hk)
    exact (h.rxRemoveFromReadyQ hu hrem).setState hu .abort
  · obtain ⟨k1, hk1, hk⟩ := bind_eq_ok.mp hk
    obtain rfl := Except.ok.inj hk1
    obtain ⟨-, rfl⟩ := Prod.mk.inj (Except.ok.inj hk)
    by_cases hu : u = t
    · subst hu
      exact h.setState_self rfl hQ
    · exact h.setState hu .abort

theorem complete (h : Detached Q t k) (hk : rxCompleteTask k u = .ok (r, k')) : Detached Q t k' := by
  unfold rxCompleteTask at hk
  split_ifs at hk with hc
  · obtain ⟨-, rfl⟩ := Prod.mk.inj (Except.ok.inj hk)
    exact h
  · have hu : u ≠ t := not_not.mp hc ▸ h.curr
    obtain ⟨k1, hrem, hk⟩ := bind_eq_ok.mp hk
    obtain ⟨k2, hsched, hk⟩ := bind_eq_ok.mp hk
    obtain ⟨-, rfl⟩ := Prod.mk.inj (Except.ok.inj hk)
    exact ((h.rxRemoveFromReadyQ hu hrem).setState hu .complete).rxSched hsched

theorem addToTaskList (h : Detached Q t k) (hk : addToTaskList k u = .ok k') : Detached Q t k' := by
  unfold Rosx.addToTaskList at hk
  split at hk
  · obtain rfl := Except.ok.inj hk
    exact h.of_eq rfl rfl rfl rfl rfl rfl rfl
  · obtain ⟨last, -, hk⟩ := bind_eq_ok.mp hk
    obtain rfl := Except.ok.inj hk
    apply h.of_tcb
    · exact fun v _ => k.setTcb_keeps last v Tcb.next rfl
    · exact k.setTcb_keeps last t Tcb.state rfl
    · exact k.setTcb_keeps last t Tcb.sem rfl
    · exact k.setTcb_keeps last t Tcb.mutex rfl

/-- Another task is created. -/
theorem create (h : Detached Q t k) (hu : u ≠ t) {a : TaskArgs} (hk : rxCreateTask k u a = .ok (r, k')) :
    Detached Q t k' := by
  rcases rxCreateTask_cases hk with ⟨-, rfl | ⟨-, rfl⟩⟩ | ⟨stack, k1, k3, k4, halloc, hk3, hk4, -, rfl⟩
  · exact h
  · exact h.enter.exit
  · have h1 : Detached Q t k1 := by
      rw [allocStack_frame halloc]
      exact h.enter.of_eq rfl rfl rfl rfl rfl rfl rfl
    have h2 := h1.modTcb hu (f := fun c => initTcb c a stack) fun _ => rfl
    have h3 : Detached Q t k3 := by
      unfold addIfReady at hk3
      split_ifs at hk3
      · obtain ⟨⟨e, x⟩, hadd, rfl⟩ := map_eq_ok.mp hk3
        exact h2.rxAddToReadyQ hu hadd
      · obtain rfl := Except.ok.inj hk3
        exact h2
    exact (h3.addToTaskList hk4).of_eq rfl rfl rfl rfl rfl rfl rfl

theorem tick (h : Detached Q t k) (hk : timeSliceTick k = .ok k') : Detached Q t k' := by
  unfold timeSliceTick at hk
  dsimp only at hk
  have h1 := h.modTcb h.curr (f := fun c => { c with ticks := c.ticks - 1 }) fun _ => rfl
  split_ifs at hk
  · obtain ⟨k2, hrem, hk⟩ := bind_eq_ok.mp hk
    obtain ⟨⟨e, k3⟩, hadd, hk⟩ := bind_eq_ok.mp hk
    have h2 := h1.rxRemoveFromReadyQ h1.curr hrem
    have h3 := (h2.setState h2.curr .ready).rxAddToReadyQ h2.curr hadd
    dsimp only at hk
    split_ifs at hk
    · obtain rfl := Except.ok.inj hk
      exact h3.resched true
    · obtain rfl := Except.ok.inj hk
      exact h3.modTcb h3.curr (f := fun c => { c with ticks := c.timeSlice, state := .running }) fun _ => rfl
  · obtain rfl := Except.ok.inj hk
    exact h1
  · obtain rfl := Except.ok.inj hk
    exact h

theorem preempt (h : Detached Q t k) : Detached Q t (preempt k) := by
  unfold Rosx.preempt
  split_ifs
  · exact (h.resched false).setState h.curr .ready
  · exact h

/-! ### The timers -/

/-- The timers change, and those that are armed now do not wake the task. -/
theorem setTimers (h : Detached Q t k) {T : ℕ → Timer n} {A : List ℕ}
    (hw : ∀ tm ∈ A, ¬ TimerWakes { k with timers := T, active := A } t tm) :
    Detached Q t { k with timers := T, active := A } :=
  ⟨h.idle, h.state, h.curr, h.next, h.ready, h.sems, h.mutexes, hw⟩

/-- A timer is taken off the active list, and its flag may be cleared. -/
theorem disarm (h : Detached Q t k) (tm : ℕ) : Detached Q t (k.disarm tm) := by
  refine (h.enter.setTimers fun i hi hw => h.timers i (List.mem_of_mem_erase hi) ?_).exit
  exact hw.of_update rfl rfl rfl rfl rfl

theorem timerRemoved (h : Detached Q t k) (tm : ℕ) : Detached Q t (k.timerRemoved tm) :=
  (h.enter.setTimers fun i hi hw => h.timers i (List.mem_of_mem_erase hi) hw).exit

theorem timerStopped (h : Detached Q t k) (tm : ℕ) : Detached Q t (k.timerStopped tm) := by
  unfold Kernel.timerStopped
  split_ifs
  · exact h.disarm tm
  · exact h

/-- A timer that does not wake the task is armed. -/
theorem rxAddToActiveTimerList (h : Detached Q t k) (hw : ¬ TimerWakes k t tm) :
    Detached Q t (k.rxAddToActiveTimerList tm) := by
  refine (h.enter.setTimers fun i hi hwi => ?_).exit
  have hwi' : TimerWakes k t i := hwi.of_update rfl rfl rfl rfl rfl
  rcases List.mem_orderedInsert _ |>.mp hi with rfl | hi
  · exact hw hwi'
  · exact h.timers i hi hwi'

/-- The running task sets up a timer with a handler. -/
theorem rxInitTimer (h : Detached Q t k) (tm : ℕ) (hd : Handler) {ticks : Word} (ht : ticks ≠ 0) :
    Detached Q t (k.rxInitTimer tm hd k.curr ticks) ∧ ¬ TimerWakes (k.rxInitTimer tm hd k.curr ticks) t tm := by
  have hno : ¬ TimerWakes (k.rxInitTimer tm hd k.curr ticks) t tm := by
    have hpriv : some k.curr ≠ some t := fun he => h.curr (Option.some.inj he)
    unfold TimerWakes
    rw [rxInitTimer_timers hd k.curr ht, Function.update_self]
    cases hd with
    | semHandler | mutexHandler => exact fun hw => hpriv hw.1
    | waitHandler | application => exact id
  refine ⟨?_, hno⟩
  have hk : k.rxInitTimer tm hd k.curr ticks =
      { k with timers := Function.update k.timers tm (Timer.init hd k.curr k.curr ticks) } := by
    rw [Kernel.rxInitTimer, if_neg ht]
  rw [hk] at hno ⊢
  refine h.setTimers (A := k.active) fun i hi hw => ?_
  by_cases him : i = tm
  · subst him
    exact hno hw
  · apply h.timers i hi
    unfold TimerWakes at hw ⊢
    simpa [him] using hw

theorem start_init (h : Detached Q t k) (tm : ℕ) (hd : Handler) {ticks : Word} (ht : ticks ≠ 0) :
    Detached Q t ((k.rxInitTimer tm hd k.curr ticks).rxStartTimer tm) := by
  obtain ⟨h1, hw⟩ := h.rxInitTimer tm hd ht
  unfold Kernel.rxStartTimer
  split_ifs
  · exact h1
  · exact h1.rxAddToActiveTimerList hw

/-- The running task sleeps on a timer. -/
theorem rxAddTimer (h : Detached Q t k) {delay : Word} (hk : k.rxAddTimer tm delay k.curr = .ok k') :
    Detached Q t k' := by
  have hno : ¬ TimerWakes (k.setSleepTimer tm delay k.curr) t tm := by
    have hcur : some k.curr ≠ some t := fun he => h.curr (Option.some.inj he)
    unfold TimerWakes Kernel.setSleepTimer
    simpa using hcur
  have h1 : Detached Q t (k.setSleepTimer tm delay k.curr) := by
    refine h.setTimers (A := k.active) fun i hi hw => ?_
    by_cases him : i = tm
    · subst him
      exact hno hw
    · apply h.timers i hi
      unfold TimerWakes at hw ⊢
      simpa [him] using hw
  have h2 := (h1.rxAddToActiveTimerList hno).modTcb (u := k.curr) h.curr
    (f := fun c => { c with timer := some tm, state := .suspend }) fun _ => rfl
  obtain ⟨k3, hrem, hk⟩ := bind_eq_ok.mp hk
  exact (h2.rxRemoveFromReadyQ h.curr hrem).rxSched hk

theorem sleep (h : Detached Q t k) {time : Word} {o : Option OsErr} (hk : k.rxMsleep time tm = .ok (o, k')) :
    Detached Q t k' := by
  unfold Kernel.rxMsleep at hk
  dsimp only at hk
  split_ifs at hk
  · obtain ⟨-, rfl⟩ := Prod.mk.inj (Except.ok.inj hk)
    exact h
  all_goals
    obtain ⟨k1, hadd, he⟩ := map_eq_ok.mp hk
    obtain ⟨-, rfl⟩ := Prod.mk.inj he
    exact h.rxAddTimer hadd

/-! ### Wait chains -/

theorem appendWaiter (h : Detached Q t k) (hu : u ≠ t) {head head' : Option (Fin n)} (hhead : head ≠ some t)
    (hk : appendWaiter k head u = .ok (head', k')) : Detached Q t k' ∧ head' ≠ some t := by
  have hsu : some u ≠ some t := fun he => hu (Option.some.inj he)
  cases head with
  | none =>
    obtain ⟨rfl, rfl⟩ := Prod.mk.inj (Except.ok.inj hk)
    exact ⟨h, hsu⟩
  | some x =>
    obtain ⟨last, -, hk⟩ := bind_eq_ok.mp hk
    obtain ⟨rfl, rfl⟩ := Prod.mk.inj (Except.ok.inj hk)
    exact ⟨h.setNext last hsu, hhead⟩

theorem unlinkWaiter (h : Detached Q t k) (hu : u ≠ t) {head head' : Option (Fin n)} (hhead : head ≠ some t)
    (hk : unlinkWaiter k head u = .ok (head', k')) : Detached Q t k' ∧ head' ≠ some t := by
  unfold Rosx.unlinkWaiter at hk
  split_ifs at hk
  · obtain ⟨rfl, rfl⟩ := Prod.mk.inj (Except.ok.inj hk)
    exact ⟨h, h.next u hu⟩
  · cases head with
    | none => cases hk
    | some x =>
      obtain ⟨prev, -, hk⟩ := bind_eq_ok.mp hk
      obtain ⟨rfl, rfl⟩ := Prod.mk.inj (Except.ok.inj hk)
      exact ⟨h.setNext prev (h.next u hu), hhead⟩

/-! ### Semaphores -/

theorem rxSemaphorePost (h : Detached Q t k) (hk : rxSemaphorePost k m = .ok (r, k')) : Detached Q t k' := by
  have h0 := h.enter
  unfold Rosx.rxSemaphorePost at hk
  dsimp only at hk
  split at hk
  · obtain ⟨-, rfl⟩ := Prod.mk.inj (Except.ok.inj hk)
    exact h0.exit
  · rename_i u hhead
    have hu : u ≠ t := fun he => h0.sems m (hhead.trans (congrArg some he))
    obtain ⟨⟨e, k1⟩, hadd, hk⟩ := bind_eq_ok.mp hk
    obtain ⟨-, rfl⟩ := Prod.mk.inj (Except.ok.inj hk)
    have h1 := (h0.setSem m (c := { k.enterCritical.sems m with task := (k.enterCritical.tcb u).next })
      (h0.next_ne hu)).modTcb hu (f := fun c => { c with state := .ready, sem := none }) fun _ => rfl
    have h2 := h1.rxAddToReadyQ hu hadd
    exact (h2.setVal m _).exit

theorem rxSemHandler (h : Detached Q t k) (hu : u ≠ t) (hk : rxSemHandler k u = .ok k') : Detached Q t k' := by
  unfold Rosx.rxSemHandler at hk
  split at hk
  · obtain rfl := Except.ok.inj hk
    exact h
  · rename_i m _
    obtain ⟨⟨head, k1⟩, hunlink, hk⟩ := bind_eq_ok.mp hk
    obtain ⟨⟨e, k2⟩, hadd, hk⟩ := bind_eq_ok.mp hk
    obtain rfl := Except.ok.inj hk
    obtain ⟨h1, hhead⟩ := h.unlinkWaiter hu (h.sems m) hunlink
    have h2 := (h1.setSem m (c := { k1.sems m with task := head, currVal := (k1.sems m).currVal + 1 }) hhead).modTcb hu
      (f := fun c => { c with timer := none, timeout := OsErr.eOsTimeout.code, state := .ready }) fun _ => rfl
    exact (h2.rxAddToReadyQ hu hadd).modTcb hu (f := fun c => { c with sem := none }) fun _ => rfl

theorem rxSemTimeout (h : Detached Q t k) {timeout : Word} (ht : timeout ≠ 0)
    (hk : rxSemTimeout k timeout tm = .ok k') : Detached Q t k' := by
  obtain ⟨⟨e, k1⟩, hsus, hk⟩ := bind_eq_ok.mp hk
  obtain rfl := Except.ok.inj hk
  have h1 := h.start_init tm .semHandler ht
  exact (h1.modTcb h1.curr (f := fun c => { c with timeout := rxTimerOn, timer := some tm }) fun _ => rfl).suspend hsus

theorem rxSemWaitChain (h : Detached Q t k) {timeout : ℤ} {o : Option OsErr}
    (hk : rxSemWaitChain k m timeout = .ok (o, k')) : Detached Q t k' := by
  unfold Rosx.rxSemWaitChain at hk
  dsimp only at hk
  have h1 := h.enter.setVal m ((k.enterCritical.sems m).currVal - 1)
  split_ifs at hk
  · obtain ⟨-, rfl⟩ := Prod.mk.inj (Except.ok.inj hk)
    exact h1.exit
  · obtain ⟨-, rfl⟩ := Prod.mk.inj (Except.ok.inj hk)
    exact (h1.setVal m _).exit
  · obtain ⟨k2, hrem, hk⟩ := bind_eq_ok.mp hk
    obtain ⟨⟨head, k3⟩, happ, hk⟩ := bind_eq_ok.mp hk
    obtain ⟨-, rfl⟩ := Prod.mk.inj (Except.ok.inj hk)
    have h2 := (h1.modTcb h1.curr (f := fun c => { c with state := .suspend, sem := some m, timeout := rxTimerOff })
      fun _ => rfl).rxRemoveFromReadyQ h1.curr hrem
    obtain ⟨h3, hhead⟩ := (h2.clearNext _).appendWaiter h1.curr (h2.sems m) happ
    exact (h3.setSem m hhead).exit

theorem rxSemaphoreWait (h : Detached Q t k) {timeout : ℤ} (ht : timeout < 2 ^ 31) {o : Option OsErr}
    (hk : rxSemaphoreWait k m timeout tm = .ok (o, k')) : Detached Q t k' := by
  rw [rxSemaphoreWait_eq] at hk
  obtain ⟨⟨o1, k1⟩, hchain, hk⟩ := bind_eq_ok.mp hk
  have h1 := h.rxSemWaitChain hchain
  dsimp only at hk
  split_ifs at hk
  · obtain ⟨-, rfl⟩ := Prod.mk.inj (Except.ok.inj hk)
    exact h1
  · obtain ⟨k2, hsleep, hk⟩ := bind_eq_ok.mp hk
    obtain ⟨-, rfl⟩ := Prod.mk.inj (Except.ok.inj hk)
    unfold rxSemSleep at hsleep
    split_ifs at hsleep with htime
    · exact h1.rxSemTimeout (ticks_ne_zero htime ht) hsleep
    · exact h1.rxSched hsleep

/-! ### Mutexes -/

theorem requeueIfReady (h : Detached Q t k) (hk : requeueIfReady k u = .ok k') : Detached Q t k' := by
  unfold Rosx.requeueIfReady at hk
  split_ifs at hk with hready
  · have hu := h.ne_of_ready hready
    obtain ⟨k1, hrem, hk⟩ := bind_eq_ok.mp hk
    obtain ⟨⟨e, k2⟩, hadd, hk⟩ := bind_eq_ok.mp hk
    obtain rfl := Except.ok.inj hk
    exact (h.rxRemoveFromReadyQ hu hrem).rxAddToReadyQ hu hadd
  · obtain rfl := Except.ok.inj hk
    exact h

theorem inheritFrom (h : Detached Q t k) {owner : Fin n} (hk : inheritFrom k owner u = .ok k') : Detached Q t k' := by
  unfold Rosx.inheritFrom at hk
  split_ifs at hk
  · exact (h.setPrio owner _).requeueIfReady hk
  · obtain rfl := Except.ok.inj hk
    exact h

theorem inheritLoop {owner : Fin n} {f : ℕ} {k : Kernel n} {start : Option (Fin n)} (h : Detached Q t k)
    (hk : inheritLoop k owner f start = .ok k') : Detached Q t k' := by
  induction f generalizing k start with
  | zero => cases hk
  | succ f ih =>
    cases start with
    | none =>
      obtain rfl := Except.ok.inj hk
      exact h
    | some u =>
      simp only [Rosx.inheritLoop] at hk
      split_ifs at hk
      · exact ih (h.setPrio owner _) hk
      · exact ih h hk

theorem disinherit (h : Detached Q t k) {owner : Fin n} (hk : disinherit k m owner u = .ok k') : Detached Q t k' := by
  unfold Rosx.disinherit at hk
  split_ifs at hk
  · exact (h.setPrio owner _).inheritLoop hk
  · obtain rfl := Except.ok.inj hk
    exact h

theorem restorePrio (h : Detached Q t k) (hu : u ≠ t) (hk : restorePrio k u = .ok k') : Detached Q t k' := by
  unfold Rosx.restorePrio at hk
  dsimp only at hk
  split_ifs at hk
  · obtain ⟨k1, hrem, hk⟩ := bind_eq_ok.mp hk
    obtain ⟨⟨e, k2⟩, hadd, hk⟩ := bind_eq_ok.mp hk
    obtain rfl := Except.ok.inj hk
    have h1 := (h.setPrio u _).rxRemoveFromReadyQ hu hrem
    exact h1.rxAddToReadyQ h1.curr hadd
  · obtain rfl := Except.ok.inj hk
    exact h

theorem taskTimerStopped (h : Detached Q t k) (hu : u ≠ t) : Detached Q t (taskTimerStopped k u) := by
  unfold Rosx.taskTimerStopped
  split
  · exact (h.timerStopped _).modTcb hu (f := fun c => { c with timer := none }) fun _ => rfl
  · exact h

theorem grantMutex (h : Detached Q t k) (hu : u ≠ t) (hk : grantMutex k m u = .ok k') : Detached Q t k' := by
  obtain ⟨k2, hinh, hk⟩ := bind_eq_ok.mp hk
  obtain ⟨⟨e, k3⟩, hadd, hk⟩ := bind_eq_ok.mp hk
  obtain rfl := Except.ok.inj hk
  have h1 := (h.setMutex m (c := { k.mutexes m with task := (k.tcb u).next }) (h.next_ne hu)).taskTimerStopped hu
  have h2 := (h1.setLock m _ (some u)).inheritLoop hinh
  have h3 := h2.modTcb hu (f := fun c => { c with state := .ready, mutex := none }) fun _ => rfl
  exact (h3.setLock m .locked _).rxAddToReadyQ hu hadd

theorem rxMutexUnlock (h : Detached Q t k) (hk : rxMutexUnlock k m = .ok (r, k')) : Detached Q t k' := by
  unfold Rosx.rxMutexUnlock at hk
  dsimp only at hk
  split_ifs at hk
  · split at hk
    · cases hk
    · rename_i o _
      split_ifs at hk with ho
      · obtain ⟨-, rfl⟩ := Prod.mk.inj (Except.ok.inj hk)
        exact h.enter.exit
      · obtain ⟨k1, hrest, hk⟩ := bind_eq_ok.mp hk
        have h1 := (h.enter.setLock m .unlocked _).restorePrio (not_not.mp ho ▸ h.curr) hrest
        split at hk
        · obtain ⟨-, rfl⟩ := Prod.mk.inj (Except.ok.inj hk)
          exact h1.exit
        · rename_i u hhead
          have hu : u ≠ t := fun he => h1.mutexes m (hhead.trans (congrArg some he))
          obtain ⟨k2, hgrant, hk⟩ := bind_eq_ok.mp hk
          obtain ⟨-, rfl⟩ := Prod.mk.inj (Except.ok.inj hk)
          exact (h1.grantMutex hu hgrant).exit
  · obtain ⟨-, rfl⟩ := Prod.mk.inj (Except.ok.inj hk)
    exact h.enter.exit

theorem rxMutexHandler (h : Detached Q t k) (hu : u ≠ t) (hk : rxMutexHandler k u = .ok k') : Detached Q t k' := by
  unfold Rosx.rxMutexHandler at hk
  split at hk
  · cases hk
  · rename_i m _
    split_ifs at hk
    · obtain rfl := Except.ok.inj hk
      exact h
    · obtain ⟨⟨head, k1⟩, hunlink, hk⟩ := bind_eq_ok.mp hk
      obtain ⟨h1, hhead⟩ := h.unlinkWaiter hu (h.mutexes m) hunlink
      have h2 := h1.setMutex m (c := { k1.mutexes m with task := head }) hhead
      dsimp only at hk
      split at hk
      · cases hk
      · obtain ⟨k3, hdis, hk⟩ := bind_eq_ok.mp hk
        obtain ⟨k4, hreq, hk⟩ := bind_eq_ok.mp hk
        obtain ⟨⟨e, k5⟩, hadd, hk⟩ := bind_eq_ok.mp hk
        obtain rfl := Except.ok.inj hk
        have h3 := ((h2.disinherit hdis).requeueIfReady hreq).modTcb hu
          (f := fun c => { c with timer := none, mutex := none, state := .ready }) fun _ => rfl
        exact h3.rxAddToReadyQ hu hadd

theorem rxMutexTimeout (h : Detached Q t k) {timeout : Word} (ht : timeout ≠ 0)
    (hk : rxMutexTimeout k timeout tm = .ok k') : Detached Q t k' := by
  obtain ⟨⟨e, k1⟩, hsus, hk⟩ := bind_eq_ok.mp hk
  obtain rfl := Except.ok.inj hk
  have h1 := h.start_init tm .mutexHandler ht
  exact (h1.modTcb h1.curr (f := fun c => { c with timer := some tm }) fun _ => rfl).suspend hsus

theorem rxMutexLockChain (h : Detached Q t k) {timeout : ℤ} {o : Option OsErr}
    (hk : rxMutexLockChain k m timeout = .ok (o, k')) : Detached Q t k' := by
  unfold Rosx.rxMutexLockChain at hk
  dsimp only at hk
  have h1 := h.enter
  split_ifs at hk
  · obtain ⟨-, rfl⟩ := Prod.mk.inj (Except.ok.inj hk)
    exact (h1.setLock m .locked (some k.enterCritical.curr)).exit
  · obtain ⟨-, rfl⟩ := Prod.mk.inj (Except.ok.inj hk)
    exact h1.exit
  · obtain ⟨k2, hrem, hk⟩ := bind_eq_ok.mp hk
    obtain ⟨⟨head, k3⟩, happ, hk⟩ := bind_eq_ok.mp hk
    have h2 := (h1.modTcb h1.curr (f := fun c => { c with state := .suspend, mutex := some m })
      fun _ => rfl).rxRemoveFromReadyQ h1.curr hrem
    obtain ⟨h3, hhead⟩ := (h2.clearNext _).appendWaiter h1.curr (h2.mutexes m) happ
    have h4 := h3.setMutex m (c := { k3.mutexes m with task := head }) hhead
    dsimp only at hk
    split at hk
    · cases hk
    · obtain ⟨k5, hinh, hk⟩ := bind_eq_ok.mp hk
      obtain ⟨-, rfl⟩ := Prod.mk.inj (Except.ok.inj hk)
      exact (h4.inheritFrom hinh).exit

theorem rxMutexLock (h : Detached Q t k) {timeout : ℤ} (ht : timeout < 2 ^ 31) {o : Option OsErr}
    (hk : rxMutexLock k m timeout tm = .ok (o, k')) : Detached Q t k' := by
  rw [rxMutexLock_eq] at hk
  obtain ⟨⟨o1, k1⟩, hchain, hk⟩ := bind_eq_ok.mp hk
  have h1 := h.rxMutexLockChain hchain
  dsimp only at hk
  split_ifs at hk
  · obtain ⟨-, rfl⟩ := Prod.mk.inj (Except.ok.inj hk)
    exact h1
  · obtain ⟨k2, hsleep, hk⟩ := bind_eq_ok.mp hk
    obtain ⟨-, rfl⟩ := Prod.mk.inj (Except.ok.inj hk)
    unfold rxMutexLockSleep at hsleep
    split_ifs at hsleep with htime
    · exact h1.rxMutexTimeout (ticks_ne_zero htime ht) hsleep
    · exact h1.rxSched hsleep

/-! ### Expiries -/

/-- The end of a wait on a wait queue is only noted. -/
theorem rxWaitHandler (h : Detached Q t k) (u : Fin n) : Detached Q t (rxWaitHandler k u) := by
  apply h.of_tcb
  · exact fun v _ => k.setTcb_keeps u v Tcb.next rfl
  · exact k.setTcb_keeps u t Tcb.state rfl
  · exact k.setTcb_keeps u t Tcb.sem rfl
  · exact k.setTcb_keeps u t Tcb.mutex rfl

/-- A sleep ends. -/
theorem expireSleeper (h : Detached Q t k) (htm : tm ∈ k.active) (hk : expireSleeper k tm = .ok k') :
    Detached Q t k' := by
  unfold Rosx.expireSleeper at hk
  split at hk
  · rename_i u hhandler htask
    have hu : u ≠ t := by
      rintro rfl
      apply h.timers tm htm
      unfold TimerWakes
      rw [hhandler]
      exact htask
    obtain ⟨⟨e, k1⟩, hadd, hk⟩ := bind_eq_ok.mp hk
    obtain rfl := Except.ok.inj hk
    have h1 := (h.enter.setState hu .ready).rxAddToReadyQ hu hadd
    exact ((h1.modTcb hu (f := fun c => { c with timer := none }) fun _ => rfl).timerRemoved tm).exit
  · cases hk

end Detached

end Rosx
