/-
# The chains of wait queues and semaphores

The wait queues (`kernel/rx_wait.c`) share the control blocks' one link with the
ready queue and with the semaphores. A call that joins a wait queue or wakes its
tasks leaves all these lists apart, and no task gets onto the chain of a
semaphore (`Chains`); nor does it change what concerns timers, but for the timer
of a timed wait (`SameTimers`).

Key definitions: `WaitPlace`, `Chains`, `SameTimers`.
-/
import Rosx.WakeLists
import Rosx.Semaphore

namespace Rosx

open Linked

variable {n : ℕ}

/-- What a task waits at. -/
inductive WaitPlace where
  | sem (m : ℕ)
  | queue (q : ℕ)
  deriving DecidableEq, Repr

/-- The heads of the wait chains. -/
def waitHeads (k : Kernel n) : WaitPlace → Option (Fin n)
  | .sem m => (k.sems m).task
  | .queue q => (k.waitQueues q).task

/-! ### What leaves the timers alone -/

/-- The timers, and what the control blocks say of timers and semaphores, are the same. -/
structure SameTimers (k k' : Kernel n) : Prop where
  timeout : ∀ t, (k'.tcb t).timeout = (k.tcb t).timeout
  timer : ∀ t, (k'.tcb t).timer = (k.tcb t).timer
  sem : ∀ t, (k'.tcb t).sem = (k.tcb t).sem
  timers : k'.timers = k.timers
  active : k'.active = k.active

namespace SameTimers

variable {k k' k'' : Kernel n}

theorem refl (k : Kernel n) : SameTimers k k := ⟨fun _ => rfl, fun _ => rfl, fun _ => rfl, rfl, rfl⟩

theorem trans (h : SameTimers k k') (h' : SameTimers k' k'') : SameTimers k k'' :=
  ⟨fun t => (h'.timeout t).trans (h.timeout t), fun t => (h'.timer t).trans (h.timer t),
    fun t => (h'.sem t).trans (h.sem t), h'.timers.trans h.timers, h'.active.trans h.active⟩

theorem of_relinked (h : Relinked k k') : SameTimers k k' := ⟨h.timeout, h.timer, h.sem, h.timers, h.active⟩

/-- Tasks become ready. -/
theorem of_madeReady {ts : List (Fin n)} (h : MadeReady k k' ts) : SameTimers k k' :=
  ⟨h.timeout, fun t => by rw [h.tcb], fun t => by rw [h.tcb], by rw [h.rest], by rw [h.rest]⟩

/-- Only the state and the time slice of one task change. -/
theorem modTcb (k : Kernel n) (t : Fin n) {f : Tcb n → Tcb n} (htim : ∀ c, (f c).timeout = c.timeout)
    (htmr : ∀ c, (f c).timer = c.timer) (hsem : ∀ c, (f c).sem = c.sem) : SameTimers k (k.modTcb t f) :=
  ⟨fun u => k.modTcb_keeps t u Tcb.timeout htim, fun u => k.modTcb_keeps t u Tcb.timer htmr,
    fun u => k.modTcb_keeps t u Tcb.sem hsem, rfl, rfl⟩

theorem enter (k : Kernel n) : SameTimers k k.enterCritical := of_relinked (.enterCritical k)

theorem exit (k : Kernel n) : SameTimers k k.exitCritical := of_relinked (.exitCritical k)

theorem setWaitQueue (k : Kernel n) (q : ℕ) (c : WaitQueue n) : SameTimers k (k.setWaitQueue q c) :=
  ⟨fun _ => rfl, fun _ => rfl, fun _ => rfl, rfl, rfl⟩

theorem setSem (k : Kernel n) (m : ℕ) (c : Semaphore n) : SameTimers k (k.setSem m c) :=
  ⟨fun _ => rfl, fun _ => rfl, fun _ => rfl, rfl, rfl⟩

theorem switchTo (k : Kernel n) (x : Fin n) : SameTimers k (k.switchTo x) :=
  ⟨k.switchTo_timeout x, k.switchTo_timer x, k.switchTo_sem x, rfl, rfl⟩

theorem of_tcb (htcb : k'.tcb = k.tcb) (htim : k'.timers = k.timers) (hact : k'.active = k.active) : SameTimers k k' :=
  ⟨fun t => by rw [htcb], fun t => by rw [htcb], fun t => by rw [htcb], htim, hact⟩

end SameTimers

/-! ### What leaves the chains alone -/

/-- The control blocks, the heads of all lists and the timers are the same. -/
structure SameHeads (k k' : Kernel n) : Prop where
  tcb : k'.tcb = k.tcb
  readyHead : k'.readyHead = k.readyHead
  port : k'.port = k.port
  sems : k'.sems = k.sems
  task : ∀ q, (k'.waitQueues q).task = (k.waitQueues q).task
  timers : k'.timers = k.timers
  active : k'.active = k.active
  curr : k'.curr = k.curr
  jiffies : k'.jiffies = k.jiffies

namespace SameHeads

variable {k k' k'' : Kernel n}

theorem refl (k : Kernel n) : SameHeads k k := ⟨rfl, rfl, rfl, rfl, fun _ => rfl, rfl, rfl, rfl, rfl⟩

theorem trans (h : SameHeads k k') (h' : SameHeads k' k'') : SameHeads k k'' :=
  ⟨h'.tcb.trans h.tcb, h'.readyHead.trans h.readyHead, h'.port.trans h.port, h'.sems.trans h.sems,
    fun q => (h'.task q).trans (h.task q), h'.timers.trans h.timers, h'.active.trans h.active, h'.curr.trans h.curr,
    h'.jiffies.trans h.jiffies⟩

/-- The links of a wait queue change. -/
theorem setLinks (k : Kernel n) (q : ℕ) (nx pv : Option ℕ) :
    SameHeads k (k.setWaitQueue q { task := (k.waitQueues q).task, next := nx, prev := pv }) := by
  refine ⟨rfl, rfl, rfl, rfl, fun x => ?_, rfl, rfl, rfl, rfl⟩
  by_cases hx : x = q
  · subst hx
    simp [Kernel.setWaitQueue]
  · simp [Kernel.setWaitQueue, hx]

theorem setSysWaitList (k : Kernel n) (v : Option ℕ) : SameHeads k { k with sysWaitList := v } :=
  ⟨rfl, rfl, rfl, rfl, fun _ => rfl, rfl, rfl, rfl, rfl⟩

theorem sameTimers (h : SameHeads k k') : SameTimers k k' := .of_tcb h.tcb h.timers h.active

theorem waitHeads (h : SameHeads k k') (i : WaitPlace) : waitHeads k' i = waitHeads k i := by
  cases i with
  | sem m => simp only [Rosx.waitHeads, h.sems]
  | queue q => exact h.task q

theorem clearPrev (k : Kernel n) : SameHeads k (clearPrev k) := by
  unfold Rosx.clearPrev
  split
  · exact refl k
  · exact setLinks k _ _ _

theorem passHead (k : Kernel n) (wq : ℕ) : SameHeads k (passHead k wq) :=
  (setSysWaitList k _).trans (clearPrev _)

theorem dropFirst (k : Kernel n) (q : ℕ) : SameHeads k (dropFirst k q) := by
  unfold Rosx.dropFirst
  dsimp only
  have h := (setSysWaitList k (k.waitQueues q).next).trans
    (setLinks { k with sysWaitList := (k.waitQueues q).next } q none none)
  split
  · exact h
  · exact h.trans (setLinks _ _ _ _)

theorem dropLater {wq : ℕ} (h : dropLater k wq = .ok k') : SameHeads k k' := by
  unfold Rosx.dropLater at h
  split at h
  · cases h
  · dsimp only at h
    split at h
    · cases h
    · obtain rfl := Except.ok.inj h
      exact ((setLinks k _ _ _).trans (setLinks _ _ _ _)).trans (setLinks _ _ _ _)

theorem leaveSysList {wq : ℕ} (h : leaveSysList k wq = .ok k') : SameHeads k k' := by
  unfold Rosx.leaveSysList at h
  split_ifs at h
  · obtain rfl := Except.ok.inj h
    exact passHead k wq
  · exact dropLater h

theorem addQueue {fuel wq : ℕ} (h : addQueue fuel k wq = .ok k') : SameHeads k k' := by
  unfold Rosx.addQueue at h
  split at h
  · obtain rfl := Except.ok.inj h
    exact setSysWaitList k _
  · obtain ⟨ride, -, rfl⟩ := map_eq_ok.mp h
    split_ifs
    · exact refl k
    · exact (setLinks k _ _ _).trans (setLinks _ _ _ _)

end SameHeads

/-! ### The lists of a kernel -/

/-- The ready queue, the chains of the semaphores and of the wait queues are lists
that share no task; a task is on the chain of the semaphore that it names, and
only tasks with `P` are on one. -/
structure Chains (k : Kernel n) (P : Fin n → Prop) (lr : List (Fin n)) (lw : WaitPlace → List (Fin n)) : Prop where
  lists : Lists k k lr (waitHeads k) lw
  named : ∀ t m, (k.tcb t).sem = some m → t ∈ lw (.sem m)
  only : ∀ t m, t ∈ lw (.sem m) → P t

namespace Chains

variable {k k' : Kernel n} {P : Fin n → Prop} {lr : List (Fin n)} {lw : WaitPlace → List (Fin n)}

/-- The chains of the semaphores stay. -/
theorem of_sems (h : Chains k P lr lw) {lr' : List (Fin n)} {lw' : WaitPlace → List (Fin n)}
    (hl : Lists k' k' lr' (waitHeads k') lw') (hsem : ∀ t, (k'.tcb t).sem = (k.tcb t).sem)
    (hlw : ∀ m, lw' (.sem m) = lw (.sem m)) : Chains k' P lr' lw' := by
  refine ⟨hl, fun t m ht => ?_, fun t m ht => ?_⟩
  · rw [hlw]
    rw [hsem] at ht
    exact h.named t m ht
  · rw [hlw] at ht
    exact h.only t m ht

/-- All chains stay. -/
theorem of_links (h : Chains k P lr lw) (hsem : ∀ t, (k'.tcb t).sem = (k.tcb t).sem) (hnx : k'.next = k.next)
    (hr : k'.readyHead = k.readyHead) (hp : k'.port.Task)
    (hw : ∀ i, waitHeads k' i = waitHeads k i) : Chains k' P lr lw :=
  h.of_sems ((h.lists.of_links hnx hr hp).congr_heads hw) hsem fun _ => rfl

theorem of_heads (h : Chains k P lr lw) (hs : SameHeads k k') : Chains k' P lr lw := by
  refine h.of_links hs.sameTimers.sem (funext fun t => ?_) hs.readyHead (by rw [hs.port]; exact h.lists.port) hs.waitHeads
  simp only [Kernel.next, hs.tcb]

/-- A control block changes, but for its link and its semaphore. -/
theorem modTcb (h : Chains k P lr lw) (t : Fin n) {f : Tcb n → Tcb n} (hf : LinkFree f)
    (hsem : ∀ c, (f c).sem = c.sem) : Chains (k.modTcb t f) P lr lw :=
  h.of_links (fun u => k.modTcb_keeps t u Tcb.sem hsem) (hf.next_modTcb k t) rfl h.lists.port fun _ => rfl

theorem enter (h : Chains k P lr lw) : Chains k.enterCritical P lr lw :=
  h.of_links (fun _ => rfl) rfl rfl h.lists.port.enter fun _ => rfl

theorem exit (h : Chains k P lr lw) : Chains k.exitCritical P lr lw :=
  h.of_links (fun _ => rfl) rfl rfl (Or.inl h.lists.port.exit) fun _ => rfl

theorem head (h : Chains k P lr lw) (i : WaitPlace) : waitHeads k i = (lw i).head? := Seg.head (h.lists.wait i)

/-- Who is left of a chain that its first task leaves. -/
theorem mem_tail (h : Chains k P lr lw) {i : WaitPlace} {t : Fin n} {l : List (Fin n)} (hi : lw i = t :: l) (u : Fin n) :
    u ∈ l ↔ u ≠ t ∧ u ∈ lw i := by
  have hnd := (h.lists.wait i).nodup
  rw [hi] at hnd
  obtain ⟨htl, -⟩ := List.nodup_cons.mp hnd
  rw [hi, List.mem_cons]
  constructor
  · intro hu
    exact ⟨ne_of_mem_of_not_mem hu htl, Or.inr hu⟩
  · rintro ⟨hut, rfl | hu⟩
    · exact absurd rfl hut
    · exact hu

theorem mono (h : Chains k P lr lw) {Q : Fin n → Prop} (hPQ : ∀ t m, t ∈ lw (.sem m) → P t → Q t) : Chains k Q lr lw :=
  ⟨h.lists, h.named, fun t m ht => hPQ t m ht (h.only t m ht)⟩

/-- The ready queue, as it is read off the links. -/
theorem nodes_ready (h : Chains k P lr lw) : nodes k.next n k.readyHead = lr :=
  h.lists.ready.nodes_eq

end Chains

theorem waitHeads_setTask (k : Kernel n) (q : ℕ) (c : WaitQueue n) :
    waitHeads (k.setWaitQueue q c) = Function.update (waitHeads k) (.queue q) c.task := by
  funext i
  cases i with
  | sem m => simp [waitHeads, Kernel.setWaitQueue]
  | queue x =>
    by_cases hx : x = q
    · subst hx
      simp [waitHeads, Kernel.setWaitQueue]
    · simp [waitHeads, Kernel.setWaitQueue, hx]

/-- The heads of the semaphores and of the wait queues are the same. -/
theorem waitHeads_of_eq {k k' : Kernel n} (hs : k'.sems = k.sems) (hq : k'.waitQueues = k.waitQueues) :
    waitHeads k' = waitHeads k := by
  funext i
  cases i with
  | sem m => simp only [waitHeads, hs]
  | queue x => simp only [waitHeads, hq]

theorem waitHeads_of_relinked {e k : Kernel n} (h : Relinked e k) : waitHeads k = waitHeads e :=
  waitHeads_of_eq h.sems h.waitQueues

theorem waitHeads_setSem (k : Kernel n) (m : ℕ) (c : Semaphore n) :
    waitHeads (k.setSem m c) = Function.update (waitHeads k) (.sem m) c.task := by
  funext i
  cases i with
  | queue x => simp [waitHeads, Kernel.setSem]
  | sem x =>
    by_cases hx : x = m
    · subst hx
      simp [waitHeads, Kernel.setSem]
    · simp [waitHeads, Kernel.setSem, hx]

section Leave

variable {k k' : Kernel n} {P : Fin n → Prop} {lr : List (Fin n)} {lw : WaitPlace → List (Fin n)} {m : ℕ}

/-- The task `t` leaves the chain of semaphore `m`, with `l` still there. -/
theorem Chains.leave (h : Chains k P lr lw) {e : Kernel n}
    {lr' l : List (Fin n)} {v : Option (Fin n)} {t : Fin n}
    (hl : Lists e k' lr' (Function.update (waitHeads k) (.sem m) v) (Function.update lw (.sem m) l))
    (hw : waitHeads e = Function.update (waitHeads k) (.sem m) v)
    (hmem : ∀ u, u ∈ l ↔ u ≠ t ∧ u ∈ lw (.sem m))
    (hsem : ∀ u, (e.tcb u).sem = if u = t then none else (k.tcb u).sem) :
    Chains k' P lr' (Function.update lw (.sem m) l) := by
  refine ⟨?_, fun u x hu => ?_, fun u x hu => ?_⟩
  · rw [waitHeads_of_relinked hl.data, hw]
    exact hl.self
  · rw [hl.data.sem, hsem] at hu
    split_ifs at hu with hut
    have hux := h.named u x hu
    by_cases hx : x = m
    · subst hx
      rw [Function.update_self]
      exact (hmem u).mpr ⟨hut, hux⟩
    · rw [Function.update_of_ne (by simpa using hx)]
      exact hux
  · by_cases hx : x = m
    · subst hx
      rw [Function.update_self] at hu
      exact h.only u x ((hmem u).mp hu).2
    · rw [Function.update_of_ne (by simpa using hx)] at hu
      exact h.only u x hu

theorem startTimer_waitHeads (k : Kernel n) (tm : ℕ) (hd : Handler) (u : Fin n) (ticks : Word) :
    waitHeads ((k.rxInitTimer tm hd u ticks).rxStartTimer tm) = waitHeads k := by
  refine waitHeads_of_eq (by simp) ?_
  unfold Kernel.rxInitTimer Kernel.rxStartTimer
  split_ifs <;> rfl

/-- Setting up and starting a timer leaves the chains alone. -/
theorem Chains.startTimer (h : Chains k P lr lw) (tm : ℕ) (hd : Handler) (u : Fin n) (ticks : Word) :
    Chains ((k.rxInitTimer tm hd u ticks).rxStartTimer tm) P lr lw := by
  refine h.of_links (fun t => by simp) (funext fun t => by simp [Kernel.next]) ?_
    ((h.lists.rxInitTimer tm hd u ticks).rxStartTimer tm).port (congrFun (startTimer_waitHeads k tm hd u ticks))
  unfold Kernel.rxInitTimer Kernel.rxStartTimer
  split_ifs <;> rfl

theorem semArmed_waitHeads (e : Kernel n) (timeout : ℤ) (tm : ℕ) : waitHeads (semArmed e timeout tm) = waitHeads e := by
  unfold semArmed
  split_ifs
  · exact startTimer_waitHeads e tm .semHandler e.curr (BitVec.ofInt 32 timeout)
  · rfl

/-- The running task is at the end of the chain of `m` after a wait that blocks. -/
theorem Chains.block (h : Chains k P lr lw) {timeout : ℤ} {tm : ℕ} {x : Fin n} {lr' : List (Fin n)}
    (hls : Lists ((semArmed (semBlocked k m (lw (.sem m))) timeout tm).switchTo x) k' lr'
      (Function.update (waitHeads k) (.sem m) (lw (.sem m) ++ [k.curr]).head?)
      (Function.update lw (.sem m) (lw (.sem m) ++ [k.curr]))) :
    Chains k' (fun t => P t ∨ t = k.curr) lr' (Function.update lw (.sem m) (lw (.sem m) ++ [k.curr])) := by
  have hw : waitHeads k' = Function.update (waitHeads k) (.sem m) (lw (.sem m) ++ [k.curr]).head? := by
    rw [waitHeads_of_relinked hls.data]
    calc waitHeads ((semArmed (semBlocked k m (lw (.sem m))) timeout tm).switchTo x)
        = waitHeads (semArmed (semBlocked k m (lw (.sem m))) timeout tm) := waitHeads_of_eq rfl rfl
      _ = waitHeads (semBlocked k m (lw (.sem m))) := semArmed_waitHeads _ _ _
      _ = _ := waitHeads_setSem _ m _
  refine ⟨hw ▸ hls.self, fun u i hu => ?_, fun u i hu => ?_⟩
  · rw [hls.data.sem, Kernel.switchTo_sem, semArmed_blocked_sem] at hu
    by_cases hi : i = m
    · subst hi
      rw [Function.update_self]
      split_ifs at hu with huc
      · simp [huc]
      · simp [h.named u i hu]
    · rw [Function.update_of_ne (by simpa using hi)]
      split_ifs at hu
      · exact absurd (Option.some.inj hu).symm hi
      · exact h.named u i hu
  · by_cases hi : i = m
    · subst hi
      rw [Function.update_self, List.mem_append, List.mem_singleton] at hu
      exact hu.imp_left (h.only u i)
    · rw [Function.update_of_ne (by simpa using hi)] at hu
      exact Or.inl (h.only u i hu)

end Leave

/-! ### Waking -/

section Wake

variable {k k' : Kernel n} {P : Fin n → Prop} {lr : List (Fin n)} {lw : WaitPlace → List (Fin n)} {q : ℕ}

theorem rxWakeup_chains {wq : ℕ} (h : Chains k P lr lw) (he : rxWakeup k wq = .ok k') :
    ∃ lr' lw', Chains k' P lr' lw' ∧ SameTimers k k' := by
  obtain ⟨k1, hall, he⟩ := bind_eq_ok.mp he
  obtain ⟨k2, hleave, he⟩ := bind_eq_ok.mp he
  obtain rfl := Except.ok.inj he
  have h0 := h.enter
  have hhead : (k.enterCritical.waitQueues wq).task = (lw (.queue wq)).head? := h0.head (.queue wq)
  have hlen := (h0.lists.wait (.queue wq)).length_le_fin
  obtain ⟨k1', hall', h1, hwoke, hq, -⟩ := wakeAll_spec (.queue wq) h0.lists rfl hlen
  obtain rfl : k1' = k1 := Except.ok.inj (hall'.symm.trans (hhead ▸ hall))
  have hst := SameTimers.of_madeReady hwoke
  have hw1 : waitHeads k1' = waitHeads k := waitHeads_of_eq hwoke.sems hq
  -- the queue is empty now
  set lr' := readyAll (fun u => (k.enterCritical.tcb u).prio) (lw (.queue wq)) lr
  set k0 := k1'.setWaitQueue wq { k1'.waitQueues wq with task := none } with hk0
  have hst0 : SameTimers k k0 := (SameTimers.enter k).trans (hst.trans (.setWaitQueue k1' wq _))
  have hl0 : Lists k0 k0 lr' (waitHeads k0) (Function.update lw (.queue wq) []) := by
    rw [hk0, waitHeads_setTask, hw1]
    exact h1.of_links rfl rfl h1.port
  have h2 : Chains k0 P lr' (Function.update lw (.queue wq) []) := h.of_sems hl0 hst0.sem fun m => by simp
  have hsame := SameHeads.leaveSysList hleave
  exact ⟨lr', _, (h2.of_heads hsame).exit, (hst0.trans hsame.sameTimers).trans (.exit k2)⟩

theorem Chains.waits (h : Chains k P lr lw) : WaitsAt WaitPlace.queue k lr lw :=
  ⟨h.lists.congr_heads fun i => (h.head i).symm, fun q => h.head (.queue q)⟩

theorem rxWakeTaskInTheQueue_chains (h : Chains k P lr lw) (he : rxWakeTaskInTheQueue k q = .ok k') :
    ∃ lr' lw', Chains k' P lr' lw' ∧ SameTimers k k' := by
  have hpl : Function.Injective WaitPlace.queue := fun _ _ => WaitPlace.queue.inj
  obtain ⟨k1, he', h1, hwoke, -⟩ := rxWakeTaskInTheQueue_spec hpl h.waits (P := fun t => decide (Wakeable k t))
    fun t _ => decide_eq_true_iff
  obtain rfl : k1 = k' := Except.ok.inj (he'.symm.trans he)
  have hst := SameTimers.of_madeReady hwoke
  have hl : Lists k1 k1 _ (waitHeads k1) _ := h1.lists.congr_heads fun i => by
    cases i with
    | sem m =>
      rw [Function.update_of_ne (by simp), ← h.head (.sem m)]
      simp only [waitHeads, hwoke.sems]
    | queue x => exact h1.task x
  exact ⟨_, _, h.of_sems hl hst.sem fun m => by simp, hst⟩

/-- One turn of `__rx_wake`. -/
theorem wakeTurn_chains {ride : ℕ} (h : Chains k P lr lw) (he : wakeTurn k ride = .ok k') :
    ∃ lr' lw', Chains k' P lr' lw' ∧ SameTimers k k' := by
  obtain ⟨k1, hwake, hcase⟩ := wakeTurn_cases he
  obtain ⟨lr1, lw1, h1, hst1⟩ := rxWakeTaskInTheQueue_chains h hwake
  rcases hcase with rfl | ⟨-, rfl⟩ | h2
  · exact ⟨lr1, lw1, h1, hst1⟩
  · exact ⟨lr1, lw1, h1.of_heads (.dropFirst k1 ride), hst1.trans (SameHeads.dropFirst k1 ride).sameTimers⟩
  · exact ⟨lr1, lw1, h1.of_heads (.dropLater h2), hst1.trans (SameHeads.dropLater h2).sameTimers⟩

theorem wakeQueues_chains {f : ℕ} : ∀ {k : Kernel n} {lr : List (Fin n)} {lw : WaitPlace → List (Fin n)}
    {ride : Option ℕ}, Chains k P lr lw → wakeQueues f k ride = .ok k' →
    ∃ lr' lw', Chains k' P lr' lw' ∧ SameTimers k k' := by
  induction f with
  | zero =>
    intro k lr lw ride h he
    cases ride with
    | none =>
      obtain rfl := Except.ok.inj he
      exact ⟨lr, lw, h, .refl _⟩
    | some ride => cases he
  | succ f ih =>
    intro k lr lw ride h he
    cases ride with
    | none =>
      obtain rfl := Except.ok.inj he
      exact ⟨lr, lw, h, .refl _⟩
    | some ride =>
      rw [wakeQueues_succ] at he
      obtain ⟨k1, h1, he⟩ := bind_eq_ok.mp he
      obtain ⟨lr1, lw1, hc1, hst1⟩ := wakeTurn_chains h h1
      obtain ⟨lr', lw', h2, hst2⟩ := ih hc1 he
      exact ⟨lr', lw', h2, hst1.trans hst2⟩

/-! ### Waiting -/

/-- The running task goes from the ready queue to the chain of the wait queue. -/
theorem joinQueue_chains {wq : ℕ} {taskState : TaskState} (h : Chains k P lr lw) (hc : k.curr ∈ lr)
    (he : joinQueue k wq taskState = .ok k') :
    ∃ lr' lw', Chains k' P lr' lw' ∧ SameTimers k k' ∧ k'.curr = k.curr ∧ k'.jiffies = k.jiffies := by
  set f : Tcb n → Tcb n := fun c => { c with state := taskState, wq := some wq } with hf
  obtain ⟨k1, k2, hrem, hrel, happ, h2⟩ := h.lists.block (.queue wq) hc (f := f) fun _ _ => rfl
  obtain ⟨k1', hrem', he⟩ := bind_eq_ok.mp he
  obtain rfl : k1 = k1' := Except.ok.inj (hrem.symm.trans hrem')
  obtain ⟨⟨head, k2'⟩, happ', he⟩ := bind_eq_ok.mp he
  obtain rfl := Except.ok.inj he
  have hcur : k1.curr = k.curr := hrel.curr
  have htask : (k1.setNext k1.curr none).waitQueues wq = k.waitQueues wq := congrFun hrel.waitQueues wq
  have htask' : ((k1.setNext k1.curr none).waitQueues wq).task = waitHeads k (.queue wq) := by
    rw [htask]
    rfl
  have hcur' : (k1.setNext k1.curr none).curr = k.curr := hcur
  rw [htask', hcur', hcur] at happ'
  obtain ⟨rfl, rfl⟩ := Prod.mk.inj (Except.ok.inj (happ.symm.trans happ'))
  set k3 := k2.setWaitQueue wq { k2.waitQueues wq with task := (lw (.queue wq) ++ [k.curr]).head? } with hk3
  have hst : SameTimers k k3 :=
    ((SameTimers.modTcb k k.curr (f := f) (fun _ => rfl) (fun _ => rfl) fun _ => rfl).trans (.of_relinked h2.data)).trans
      (.setWaitQueue k2 wq _)
  have hl : Lists k3 k3 (lr.erase k.curr) (waitHeads k3)
      (Function.update lw (.queue wq) (lw (.queue wq) ++ [k.curr])) := by
    rw [hk3, waitHeads_setTask, waitHeads_of_relinked h2.data]
    exact h2.of_links rfl rfl h2.port
  have hj : k2.jiffies = k.jiffies := by
    rw [h2.data.rest]
    rfl
  exact ⟨_, _, h.of_sems hl hst.sem fun m => by simp, hst, h2.data.curr, hj⟩

end Wake

end Rosx
