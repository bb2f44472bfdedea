/-
# The ready queue and the wait chains

A blocked task is linked through the same `next` field as a ready one: the
ready queue and the wait chains of the mutexes, semaphores, message queues
and event groups share the control blocks' one link. `Lists e k lr w lw` says
that in `k` the ready queue is `lr`, that the chain at each head `w i` is
`lw i`, that no task is on two of these lists, and that up to the links the
kernel is `e`. Each operation on a list has a lemma that says what becomes of
all of them: `Lists.removeReady`, `Lists.addReady`, `Lists.appendWaiter`,
`Lists.unlinkWaiter`, `Lists.popWaiter`, and `Lists.modTcb` for an update of
other fields.

`appendWaiter` and `unlinkWaiter` are the two walks along a wait chain that
`rx_mutex.c` and `rx_semaphore.c` share.
-/
import Rosx.ReadyQueue

namespace Rosx

open Linked

variable {n : ℕ} {ι : Type*}

/-- The running task at the end of the wait chain: the new head. -/
def appendWaiter (k : Kernel n) (head : Option (Fin n)) (t : Fin n) : Res (Option (Fin n) × Kernel n) :=
  match head with
  | none => .ok (some t, k)
  | some h => do
    let last ← lastNode k.next n h
    return (head, k.setNext last (some t))

theorem appendWaiter_relinked {k k' : Kernel n} {head head' : Option (Fin n)} {t : Fin n}
    (h : appendWaiter k head t = .ok (head', k')) : Relinked k k' := by
  unfold appendWaiter at h
  split at h
  · obtain ⟨-, rfl⟩ := Prod.mk.inj (Except.ok.inj h)
    exact Relinked.refl k
  · obtain ⟨last, -, h⟩ := bind_eq_ok.mp h
    obtain ⟨-, rfl⟩ := Prod.mk.inj (Except.ok.inj h)
    exact Relinked.setNext _ _ _

/-- The task out of the wait chain, wherever it is: the new head. If the task is
not there, the walk follows the NULL link at the end of the chain. -/
def unlinkWaiter (k : Kernel n) (head : Option (Fin n)) (t : Fin n) : Res (Option (Fin n) × Kernel n) :=
  if head = some t then .ok (k.next t, k)
  else
    match head with
    | none => .error .null
    | some h => do
      let prev ← prevNode k.next t (n + 1) h (some h)
      return (head, k.setNext prev (k.next t))

/-- `while (p->task) ...`: as long as the chain at `head` is not empty, its first
task is taken off by `body`. -/
def drainLoop (head : Kernel n → Option (Fin n)) (body : Kernel n → Fin n → Res (Kernel n)) : ℕ → Kernel n →
    Res (Kernel n)
  | 0, _ => .error .hang
  | f + 1, k =>
    match head k with
    | none => .ok k
    | some t => body k t >>= drainLoop head body f

/-- Task context, with the interrupts unmasked outside critical sections. -/
def Port.Task (p : Port) : Prop := p = {} ∨ p = Port.disableIrqGlobal {}

theorem Port.Task.enter {p : Port} (h : p.Task) : p.disableIrqGlobal.Task := by
  rcases h with rfl | rfl <;> exact Or.inr rfl

theorem Port.Task.exit {p : Port} (h : p.Task) : p.restoreIrqGlobal = {} := by
  rcases h with rfl | rfl <;> rfl

/-- Up to the links the kernel `k` is `e`; its ready queue is `lr`, the chains
at the heads `w` are `lw`, and no task is on two of them. -/
structure Lists (e k : Kernel n) (lr : List (Fin n)) (w : ι → Option (Fin n)) (lw : ι → List (Fin n)) :
    Prop where
  data : Relinked e k
  port : k.port.Task
  ready : Chain k.next k.readyHead lr
  wait : ∀ i, Chain k.next (w i) (lw i)
  notReady : ∀ i, ∀ t ∈ lw i, t ∉ lr
  apart : ∀ i j, ∀ t ∈ lw i, t ∈ lw j → i = j

/-! ### Updates that keep the links -/

/-- The update neither reads nor writes the link. -/
def LinkFree (f : Tcb n → Tcb n) : Prop := ∀ c v, f { c with next := v } = { f c with next := v }

theorem LinkFree.next {f : Tcb n → Tcb n} (hf : LinkFree f) (c : Tcb n) : (f c).next = c.next := by
  have h := congrArg Tcb.next (hf c c.next)
  exact h

theorem LinkFree.next_modTcb {f : Tcb n → Tcb n} (hf : LinkFree f) (k : Kernel n) (t : Fin n) :
    (k.modTcb t f).next = k.next := by
  funext u
  by_cases h : u = t
  · subst h; simp [Kernel.next, Kernel.modTcb, hf.next]
  · simp [Kernel.next, Kernel.modTcb, h]

theorem Relinked.modTcb {e k : Kernel n} (h : Relinked e k) (t : Fin n) {f : Tcb n → Tcb n}
    (hf : LinkFree f) : Relinked (e.modTcb t f) (k.modTcb t f) := by
  refine ⟨fun u => ?_, ?_⟩
  · rw [hf.next_modTcb]
    by_cases hu : u = t
    · subst hu
      simp only [Kernel.modTcb, Kernel.setTcb_tcb, Function.update_self]
      rw [h.tcb u, hf]
    · simp only [Kernel.modTcb, Kernel.setTcb_tcb, Function.update_of_ne hu]
      exact h.tcb u
  · exact congrArg (fun x : Kernel n => { x with tcb := (k.modTcb t f).tcb }) h.rest

section Lists

variable {e k : Kernel n} {lr : List (Fin n)} {w : ι → Option (Fin n)} {lw : ι → List (Fin n)}

namespace Lists

theorem modTcb (h : Lists e k lr w lw) (t : Fin n) {f : Tcb n → Tcb n} (hf : LinkFree f) :
    Lists (e.modTcb t f) (k.modTcb t f) lr w lw where
  data := h.data.modTcb t hf
  port := h.port
  ready := by rw [hf.next_modTcb]; exact h.ready
  wait i := by rw [hf.next_modTcb]; exact h.wait i
  notReady := h.notReady
  apart := h.apart

/-- An update of anything but the control blocks, the head of the ready
queue and the port. -/
theorem map (h : Lists e k lr w lw) (f : Kernel n → Kernel n)
    (hf : ∀ (x y : Kernel n), Relinked x y → Relinked (f x) (f y)) (htcb : (f k).tcb = k.tcb)
    (hhead : (f k).readyHead = k.readyHead) (hport : (f k).port = k.port) :
    Lists (f e) (f k) lr w lw := by
  have hnext : (f k).next = k.next := funext fun t => by simp only [Kernel.next, htcb]
  refine ⟨hf e k h.data, by rw [hport]; exact h.port, ?_, fun i => ?_, h.notReady, h.apart⟩
  · rw [hnext, hhead]; exact h.ready
  · rw [hnext]; exact h.wait i

theorem setMutex (h : Lists e k lr w lw) (m : ℕ) (c : Mutex n) :
    Lists (e.setMutex m c) (k.setMutex m c) lr w lw := by
  refine h.map (fun x => x.setMutex m c) (fun x y hxy => ⟨hxy.tcb, ?_⟩) rfl rfl rfl
  exact congrArg (fun z : Kernel n => z.setMutex m c) hxy.rest

theorem setSem (h : Lists e k lr w lw) (m : ℕ) (c : Semaphore n) :
    Lists (e.setSem m c) (k.setSem m c) lr w lw := by
  refine h.map (fun x => x.setSem m c) (fun x y hxy => ⟨hxy.tcb, ?_⟩) rfl rfl rfl
  exact congrArg (fun z : Kernel n => z.setSem m c) hxy.rest

theorem setPrio (h : Lists e k lr w lw) (t : Fin n) (p : ℤ) : Lists (e.setPrio t p) (k.setPrio t p) lr w lw :=
  h.modTcb t (f := fun c => { c with prio := p }) fun _ _ => rfl

theorem setState (h : Lists e k lr w lw) (t : Fin n) (s : TaskState) :
    Lists (e.setState t s) (k.setState t s) lr w lw :=
  h.modTcb t (f := fun c => { c with state := s }) fun _ _ => rfl

theorem enter (h : Lists e k lr w lw) : Lists e k.enterCritical lr w lw :=
  ⟨h.data.trans (Relinked.enterCritical k), h.port.enter, h.ready, h.wait, h.notReady, h.apart⟩

theorem exit (h : Lists e k lr w lw) : Lists e k.exitCritical lr w lw :=
  ⟨h.data.trans (Relinked.exitCritical k), Or.inl h.port.exit, h.ready, h.wait, h.notReady, h.apart⟩

/-- The lists do not depend on the heads other than through their values. -/
theorem congr_heads (h : Lists e k lr w lw) {w' : ι → Option (Fin n)} (hw : ∀ i, w' i = w i) :
    Lists e k lr w' lw := by
  obtain rfl : w' = w := funext hw
  exact h

/-- The kernel is its own data. -/
theorem self (h : Lists e k lr w lw) : Lists k k lr w lw :=
  ⟨Relinked.refl k, h.port, h.ready, h.wait, h.notReady, h.apart⟩

/-- The lists of a kernel with one wait chain. -/
theorem single {w : Unit → Option (Fin n)} {lw : Unit → List (Fin n)} {v v' : Option (Fin n)} {l : List (Fin n)}
    (h : Lists e k lr (Function.update w () v) (Function.update lw () l)) (hv : v' = v) :
    Lists k k lr (fun _ : Unit => v') (fun _ => l) := by
  have hw : Function.update w () v = fun _ => v' := by rw [hv]; funext u; simp
  have hl : Function.update lw () l = fun _ => l := by funext u; simp
  rw [hw, hl] at h
  exact h.self

/-! ### The ready queue -/

/-- A requeueing of tasks none of which waits. -/
theorem requeued (h : Lists e k lr w lw) {k' : Kernel n} {touched l' : List (Fin n)}
    (hq : Requeued k k' touched l') (hport : k'.port = k.port.disableIrqGlobal.restoreIrqGlobal)
    (ht : ∀ i, ∀ t ∈ lw i, t ∉ touched) (hl : ∀ i, ∀ t ∈ lw i, t ∉ l') : Lists e k' l' w lw where
  data := h.data.trans hq.toRelinked
  port := by rw [hport, h.port.enter.exit]; exact Or.inl rfl
  ready := hq.chain
  wait i := (h.wait i).congr fun t hti => hq.frame t (ht i t hti)
  notReady := hl
  apart := h.apart

theorem removeReady (h : Lists e k lr w lw) {t : Fin n} (ht : t ∈ lr) :
    ∃ k', rxRemoveFromReadyQ k t = .ok k' ∧ k'.next t = none ∧ Lists e k' (lr.erase t) w lw := by
  obtain ⟨k', he, hport, -, hnone, hq⟩ := rxRemoveFromReadyQ_mem h.ready ht
  exact ⟨k', he, hnone, h.requeued hq hport h.notReady
    fun i u hu hm => h.notReady i u hu (List.mem_of_mem_erase hm)⟩

theorem addReady (h : Lists e k lr w lw) {t : Fin n} (ht : t ∉ lr) (hw : ∀ i, t ∉ lw i)
    (hs : (e.tcb t).state.runnable = true) :
    ∃ k', rxAddToReadyQ k t = .ok (.osOk, k') ∧
      Lists e k' (insertReady (fun u => (e.tcb u).prio) (e.tcb t).prio t lr) w lw := by
  have hs' : (k.tcb t).state.runnable = true := by rw [h.data.state]; exact hs
  have hprio : (fun u => (k.tcb u).prio) = fun u => (e.tcb u).prio := funext h.data.prio
  obtain ⟨k', he, hport, hq⟩ := rxAddToReadyQ_spec h.ready ht hs'
  rw [hprio, h.data.prio t] at hq
  have hne : ∀ i, ∀ u ∈ lw i, u ≠ t := fun i u hu hut => hw i (hut ▸ hu)
  refine ⟨k', he, h.requeued hq hport (fun i u hu hm => ?_) fun i u hu hm => ?_⟩
  · rcases List.mem_cons.mp hm with rfl | hm
    · exact hne i u hu rfl
    · exact h.notReady i u hu hm
  · rcases mem_insertReady.mp hm with rfl | hm
    · exact hne i u hu rfl
    · exact h.notReady i u hu hm

/-- A task that is not on the ready queue: only its own link is cleared. -/
theorem removeReady_of_notMem (h : Lists e k lr w lw) {t : Fin n} (ht : t ∉ lr) (hne : lr ≠ [])
    (hnone : k.next t = none) : ∃ k', rxRemoveFromReadyQ k t = .ok k' ∧ Lists e k' lr w lw := by
  refine ⟨_, rxRemoveFromReadyQ_notMem h.ready ht hne, ?_⟩
  have hk : k.enterCritical.setNext t none = k.enterCritical := by
    rw [Kernel.setNext, ← hnone]
    simp [Kernel.setTcb, Kernel.next, Kernel.enterCritical]
  rw [hk]
  exact h.enter.exit

/-- A ready task leaves the queue and is put back by its priority. -/
theorem requeue (h : Lists e k lr w lw) {t : Fin n} (ht : t ∈ lr)
    (hs : (e.tcb t).state.runnable = true) :
    ∃ k1 k2 lr', rxRemoveFromReadyQ k t = .ok k1 ∧ rxAddToReadyQ k1 t = .ok (.osOk, k2) ∧
      Lists e k2 lr' w lw ∧ ∀ u, u ∈ lr' ↔ u ∈ lr := by
  have hnd := h.ready.nodup
  obtain ⟨k1, he1, -, h1⟩ := h.removeReady ht
  obtain ⟨k2, he2, h2⟩ := h1.addReady hnd.not_mem_erase (fun i hi => h.notReady i t hi ht) hs
  refine ⟨k1, k2, _, he1, he2, h2, fun u => ?_⟩
  rw [mem_insertReady, hnd.mem_erase_iff]
  by_cases hut : u = t
  · subst hut; simp [ht]
  · simp [hut]

end Lists

end Lists

/-- The data of a switch to task `t`. -/
def Kernel.switchTo (e : Kernel n) (t : Fin n) : Kernel n := { e.modTcb t switchTcb with curr := t }

@[simp] theorem Kernel.switchTo_curr (e : Kernel n) (t : Fin n) : (e.switchTo t).curr = t := rfl

@[simp] theorem Kernel.switchTo_mutexes (e : Kernel n) (t : Fin n) : (e.switchTo t).mutexes = e.mutexes := rfl

@[simp] theorem Kernel.switchTo_timers (e : Kernel n) (t : Fin n) : (e.switchTo t).timers = e.timers := rfl

@[simp] theorem Kernel.switchTo_active (e : Kernel n) (t : Fin n) : (e.switchTo t).active = e.active := rfl

theorem Kernel.switchTo_state (e : Kernel n) (t u : Fin n) :
    ((e.switchTo t).tcb u).state = if u = t then .running else (e.tcb u).state := by
  by_cases h : u = t
  · subst h; simp [switchTo, switchTcb]
  · simp [switchTo, modTcb, h]

/-- Nothing but the state and the time slice changes. -/
theorem Kernel.switchTo_tcb (e : Kernel n) (t u : Fin n) : (e.switchTo t).tcb u =
    { e.tcb u with state := ((e.switchTo t).tcb u).state, ticks := ((e.switchTo t).tcb u).ticks } := by
  by_cases h : u = t
  · subst h; simp [switchTo, switchTcb]
  · simp [switchTo, modTcb, h]

theorem Kernel.switchTo_timer (e : Kernel n) (t u : Fin n) :
    ((e.switchTo t).tcb u).timer = (e.tcb u).timer := by rw [switchTo_tcb]

theorem Kernel.switchTo_mutex (e : Kernel n) (t u : Fin n) :
    ((e.switchTo t).tcb u).mutex = (e.tcb u).mutex := by rw [switchTo_tcb]

theorem Kernel.switchTo_sem (e : Kernel n) (t u : Fin n) :
    ((e.switchTo t).tcb u).sem = (e.tcb u).sem := by rw [switchTo_tcb]

theorem Kernel.switchTo_timeout (e : Kernel n) (t u : Fin n) :
    ((e.switchTo t).tcb u).timeout = (e.tcb u).timeout := by rw [switchTo_tcb]

theorem Kernel.switchTo_err (e : Kernel n) (t u : Fin n) :
    ((e.switchTo t).tcb u).err = (e.tcb u).err := by rw [switchTo_tcb]

/-- The ready queue holds the runnable tasks after `c` has left it and suspended,
and `x` was switched to. -/
theorem mem_ready_of_suspended {k k' : Kernel n} {lr lr' : List (Fin n)} {c x : Fin n}
    (hr : ∀ u, u ∈ lr ↔ (k.tcb u).state.runnable = true) (hm : ∀ u, u ∈ lr' ↔ u ≠ c ∧ u ∈ lr) (hx : x ∈ lr')
    (hst : ∀ u, (k'.tcb u).state = if u = x then .running else if u = c then .suspend else (k.tcb u).state)
    (u : Fin n) : u ∈ lr' ↔ (k'.tcb u).state.runnable = true := by
  rw [hst]
  split_ifs with hux huc
  · subst hux
    exact iff_of_true hx rfl
  · exact iff_of_false (fun hu => ((hm u).mp hu).1 huc) (by simp)
  · rw [hm, hr]
    exact ⟨fun hu => hu.2, fun hu => ⟨huc, hu⟩⟩

/-- The same after `t` was made ready and put on it. -/
theorem mem_ready_of_woken {k k' : Kernel n} {lr lr' : List (Fin n)} {t : Fin n}
    (hr : ∀ u, u ∈ lr ↔ (k.tcb u).state.runnable = true) (hm : ∀ u, u ∈ lr' ↔ u = t ∨ u ∈ lr)
    (hst : ∀ u, (k'.tcb u).state = if u = t then .ready else (k.tcb u).state) (u : Fin n) :
    u ∈ lr' ↔ (k'.tcb u).state.runnable = true := by
  rw [hm, hst, hr]
  split_ifs with hu
  · exact iff_of_true (Or.inl hu) rfl
  · exact or_iff_right hu

theorem Lists.switchTo {e k : Kernel n} {lr : List (Fin n)} {w : ι → Option (Fin n)} {lw : ι → List (Fin n)}
    (h : Lists e k lr w lw) (t : Fin n) : Lists (e.switchTo t) (k.switchTo t) lr w lw := by
  refine (h.modTcb t (f := switchTcb) fun _ _ => rfl).map (fun x => { x with curr := t }) (fun x y hxy => ?_)
    rfl rfl rfl
  exact ⟨hxy.tcb, congrArg (fun z : Kernel n => { z with curr := t }) hxy.rest⟩

/-- Wherever the running task is, `rx_sched` keeps the lists. -/
theorem Lists.sched_keeps {e k k' : Kernel n} {lr : List (Fin n)} {w : ι → Option (Fin n)} {lw : ι → List (Fin n)}
    (h : Lists e k lr w lw) (hk : rxSched k = .ok k') : Lists k' k' lr w lw ∧ k'.curr ∈ lr := by
  have hmem : ∀ {x : Fin n}, k.readyHead = some x → x ∈ lr := fun {x} hx => by
    have hhead : k.readyHead = lr.head? := Seg.head h.ready
    exact List.mem_of_mem_head? (hhead.symm.trans hx)
  rcases rxSched_cases hk with ⟨rfl, hx⟩ | ⟨x, hx, -, rfl⟩
  · exact ⟨h.self, hmem hx⟩
  · have hnext : (k.modTcb x switchTcb).next = k.next := LinkFree.next_modTcb (fun _ _ => rfl) k x
    refine ⟨⟨Relinked.refl _, Or.inl h.port.enter.exit, ?_, fun i => ?_, h.notReady, h.apart⟩, hmem hx⟩
    · show Chain (k.modTcb x switchTcb).next k.readyHead lr
      rw [hnext]
      exact h.ready
    · show Chain (k.modTcb x switchTcb).next (w i) (lw i)
      rw [hnext]
      exact h.wait i

/-- `rx_sched` by a task that is no longer on the ready queue: the head of the
queue runs. -/
theorem Lists.sched {e k : Kernel n} {lr : List (Fin n)} {w : ι → Option (Fin n)} {lw : ι → List (Fin n)}
    (h : Lists e k lr w lw) (hc : e.curr ∉ lr) {t : Fin n} {l : List (Fin n)} (ht : lr = t :: l) :
    ∃ k', rxSched k = .ok k' ∧ k'.port = {} ∧ Lists (e.switchTo t) k' lr w lw := by
  have hh : k.readyHead = some t := by
    have := h.ready
    rw [ht] at this
    exact this.1
  have hcur : k.curr ∉ lr := by rw [h.data.curr]; exact hc
  have hne : some k.curr ≠ k.readyHead := by
    rw [hh]
    rintro he
    exact hcur (by rw [Option.some.inj he, ht]; exact List.mem_cons_self)
  have h1 := (h.modTcb t (f := switchTcb) fun _ _ => rfl).enter.exit
  refine ⟨({ { k with needResched := false }.enterCritical with curr := t }.setTcb t
    (switchTcb (k.tcb t))).exitCritical, ?_, h.port.enter.exit, ?_, Or.inl h.port.enter.exit, h1.ready, h1.wait,
    h1.notReady, h1.apart⟩
  · rw [rxSched, if_pos hne, rxSwitchTo]
    show (match k.readyHead with | none => _ | some h => _) = _
    rw [hh]
    rfl
  · refine ⟨h1.data.tcb, ?_⟩
    exact congrArg (fun x : Kernel n =>
      { x with curr := t, needResched := false, port := k.port.disableIrqGlobal.restoreIrqGlobal }) h1.data.rest

/-! ### The wait chains -/

section Wait

variable [DecidableEq ι] {e k : Kernel n} {lr : List (Fin n)} {w : ι → Option (Fin n)}
  {lw : ι → List (Fin n)} {t : Fin n}

namespace Lists

/-- The links of one chain change, and those of a task that is on no list. -/
theorem rewait (h : Lists e k lr w lw) (i : ι) {k' : Kernel n} {v : Option (Fin n)} {l : List (Fin n)}
    (hr : Relinked k k') (hport : k'.port = k.port) (hhead : k'.readyHead = k.readyHead)
    (hl : Chain k'.next v l) (hframe : ∀ u, u ∉ lw i → u ∉ l → k'.next u = k.next u)
    (hready : ∀ u ∈ l, u ∉ lr) (hap : ∀ j, j ≠ i → ∀ u ∈ l, u ∉ lw j) :
    Lists e k' lr (Function.update w i v) (Function.update lw i l) := by
  have hother : ∀ j, j ≠ i → ∀ u ∈ lw j, k'.next u = k.next u := fun j hj u hu =>
    hframe u (fun hui => hj (h.apart j i u hu hui)) fun hul => hap j hj u hul hu
  refine ⟨h.data.trans hr, by rw [hport]; exact h.port, ?_, fun j => ?_, fun j u hu => ?_, fun j j' u hu hu' => ?_⟩
  · rw [hhead]
    exact h.ready.congr fun u hu => hframe u (fun hui => h.notReady i u hui hu) fun hul => hready u hul hu
  · by_cases hj : j = i
    · subst hj
      simpa only [Function.update_self] using hl
    · simp only [Function.update_of_ne hj]
      exact (h.wait j).congr fun u hu => hother j hj u hu
  · by_cases hj : j = i
    · subst hj
      rw [Function.update_self] at hu
      exact hready u hu
    · rw [Function.update_of_ne hj] at hu
      exact h.notReady j u hu
  · by_cases hj : j = i <;> by_cases hj' : j' = i
    · rw [hj, hj']
    · subst hj
      rw [Function.update_self] at hu
      rw [Function.update_of_ne hj'] at hu'
      exact absurd hu' (hap j' hj' u hu)
    · subst hj'
      rw [Function.update_self] at hu'
      rw [Function.update_of_ne hj] at hu
      exact absurd hu (hap j hj u hu')
    · rw [Function.update_of_ne hj] at hu
      rw [Function.update_of_ne hj'] at hu'
      exact h.apart j j' u hu hu'

/-- A task that is on no list joins a wait chain at its end. -/
theorem appendWaiter (h : Lists e k lr w lw) (i : ι) (ht : t ∉ lr) (hw : ∀ j, t ∉ lw j)
    (hnone : k.next t = none) :
    ∃ k', appendWaiter k (w i) t = .ok ((lw i ++ [t]).head?, k') ∧ k'.next t = none ∧
      Lists e k' lr (Function.update w i (lw i ++ [t]).head?) (Function.update lw i (lw i ++ [t])) := by
  have hready : ∀ u ∈ lw i ++ [t], u ∉ lr := by
    intro u hu
    rcases List.mem_append.mp hu with hu | hu
    · exact h.notReady i u hu
    · rw [List.mem_singleton.mp hu]; exact ht
  have hap : ∀ j, j ≠ i → ∀ u ∈ lw i ++ [t], u ∉ lw j := by
    intro j hj u hu
    rcases List.mem_append.mp hu with hu | hu
    · exact fun huj => hj (h.apart j i u huj hu)
    · rw [List.mem_singleton.mp hu]; exact hw j
  have hl := h.wait i
  rcases List.eq_nil_or_concat (lw i) with hi | ⟨a, p, hi⟩
  · have hwi : w i = none := by rw [hi] at hl; exact hl
    refine ⟨k, by simp [Rosx.appendWaiter, hwi, hi], hnone, ?_⟩
    refine h.rewait i (Relinked.refl k) rfl rfl ?_ (fun _ _ _ => rfl) hready hap
    rw [hi]
    exact ⟨rfl, hnone⟩
  · rw [List.concat_eq_append] at hi
    have hnd := hl.nodup
    have hlen := hl.length_le
    have htl : t ∉ a ++ [p] := hi ▸ hw i
    rw [hi] at hl hlen
    have hp : k.next p = none := hl.next_eq
    have hchain : Chain (k.setNext p (some t)).next (w i) (a ++ [p] ++ [t]) := by
      have := Chain.insertAfter (x := t) hl htl
      rw [hp, ← hnone, Function.update_eq_self] at this
      rw [Kernel.next_setNext]
      simpa using this
    obtain ⟨c, l', hc⟩ : ∃ c l', a ++ [p] = c :: l' := by cases a <;> simp
    have hwi : w i = some c := by rw [hc] at hl; exact hl.1
    have hlast : lastNode k.next n c = .ok p := by
      rw [hc] at hlen hl
      rw [lastNode_eq (by rw [hwi] at hl; exact hl) (by simp at hlen; omega)]
      simp only [← hc, List.getLast_append_singleton]
    have hpt : t ≠ p := fun h => htl (by simp [h])
    refine ⟨k.setNext p (some t), ?_, by simp [hpt, hnone], ?_⟩
    · simp only [Rosx.appendWaiter, hwi, hlast, bind, Except.bind, pure, Except.pure, hi, hc]
      simp
    · have hh : (lw i ++ [t]).head? = w i := by rw [hi, hc, hwi]; simp
      rw [hh]
      refine h.rewait i (Relinked.setNext k p _) rfl rfl (by rw [hi]; exact hchain) (fun u hu _ => ?_) hready hap
      have hup : u ≠ p := fun hup => hu (by rw [hi, hup]; simp)
      simp [hup]

/-- The head of a wait chain leaves it. -/
theorem popWaiter (h : Lists e k lr w lw) (i : ι) {l : List (Fin n)} (hi : lw i = t :: l) :
    w i = some t ∧ k.next t = l.head? ∧ t ∉ lr ∧
      (∀ j, t ∉ Function.update lw i l j) ∧ Lists e k lr (Function.update w i l.head?) (Function.update lw i l) := by
  have hl := h.wait i
  rw [hi] at hl
  have hnx : k.next t = l.head? := Seg.head hl.2
  have hmem : t ∈ lw i := by rw [hi]; exact List.mem_cons_self
  refine ⟨hl.1, hnx, h.notReady i t hmem, fun j => ?_, ?_⟩
  · by_cases hj : j = i
    · subst hj
      rw [Function.update_self]
      exact (List.nodup_cons.mp hl.nodup).1
    · rw [Function.update_of_ne hj]
      exact fun htj => hj (h.apart j i t htj hmem)
  · refine h.rewait i (Relinked.refl k) rfl rfl (by rw [← hnx]; exact hl.2) (fun _ _ _ => rfl)
      (fun u hu => h.notReady i u (by rw [hi]; exact List.mem_cons_of_mem _ hu)) fun j hj u hu huj => ?_
    exact hj (h.apart j i u huj (by rw [hi]; exact List.mem_cons_of_mem _ hu))

/-- Any member of a wait chain leaves it. -/
theorem unlinkWaiter (h : Lists e k lr w lw) (i : ι) (ht : t ∈ lw i) :
    ∃ k', unlinkWaiter k (w i) t = .ok (((lw i).erase t).head?, k') ∧
      Lists e k' lr (Function.update w i ((lw i).erase t).head?) (Function.update lw i ((lw i).erase t)) := by
  have hl := h.wait i
  have hnd := hl.nodup
  have hlen := hl.length_le
  have hready : ∀ u ∈ (lw i).erase t, u ∉ lr := fun u hu => h.notReady i u (List.mem_of_mem_erase hu)
  have hap : ∀ j, j ≠ i → ∀ u ∈ (lw i).erase t, u ∉ lw j := fun j hj u hu huj =>
    hj (h.apart j i u huj (List.mem_of_mem_erase hu))
  obtain ⟨a, b, hi, hta⟩ := List.eq_append_cons_of_mem ht
  have herase : (lw i).erase t = a ++ b := by
    rw [hi, List.erase_append_right _ hta, List.erase_cons_head]
  rcases List.eq_nil_or_concat a with rfl | ⟨a, p, rfl⟩
  · obtain ⟨hwi, hnx, -, -, h'⟩ := h.popWaiter i (l := b) (by simpa using hi)
    rw [herase]
    exact ⟨k, by simp [Rosx.unlinkWaiter, hwi, hnx], by simpa using h'⟩
  · rw [List.concat_eq_append] at hi hta herase
    rw [hi] at hl hlen
    obtain ⟨c, l', hc⟩ : ∃ c l', a ++ [p] = c :: l' := by cases a <;> simp
    have hwi : w i = some c := by
      rw [hc] at hl
      exact hl.1
    have hct : c ≠ t := fun hct => hta (by rw [hc, hct]; exact List.mem_cons_self)
    have hl' : Chain k.next (some c) (a ++ [p] ++ t :: b) := hwi ▸ hl
    have hlast : (c :: (a ++ [p])).getLast (by simp) = p := by simp
    simp only [List.length_append, List.length_cons, Fintype.card_fin] at hlen
    have hprev : prevNode k.next t (n + 1) c (some c) = .ok p :=
      prevNode_eq hl' hta hlast (by simp; omega)
    have hchain : Chain (k.setNext p (k.next t)).next (w i) (a ++ p :: b) := by
      rw [Kernel.next_setNext]
      exact Chain.removeAfter (by simpa using hl)
    refine ⟨k.setNext p (k.next t), ?_, ?_⟩
    · simp only [Rosx.unlinkWaiter, hwi, Option.some.injEq, hct, if_false, hprev, bind, Except.bind, pure,
        Except.pure, herase, hc]
      simp
    · have hh : ((lw i).erase t).head? = w i := by rw [herase, hc, hwi]; simp
      rw [hh]
      refine h.rewait i (Relinked.setNext k p _) rfl rfl (by rw [herase]; simpa using hchain)
        (fun u hu _ => ?_) hready hap
      have hup : u ≠ p := fun hup => hu (by rw [hi, hup]; simp)
      simp [hup]

/-- The running task, or any other on the ready queue, blocks: its control
block is updated, it leaves the ready queue and joins a wait chain. -/
theorem block (h : Lists e k lr w lw) (i : ι) (ht : t ∈ lr) {f : Tcb n → Tcb n} (hf : LinkFree f) :
    ∃ k1 k2, rxRemoveFromReadyQ (k.modTcb t f) t = .ok k1 ∧ Relinked (e.modTcb t f) k1 ∧
      Rosx.appendWaiter (k1.setNext t none) (w i) t = .ok ((lw i ++ [t]).head?, k2) ∧
      Lists (e.modTcb t f) k2 (lr.erase t) (Function.update w i (lw i ++ [t]).head?)
        (Function.update lw i (lw i ++ [t])) := by
  obtain ⟨k1, hrem, hnone, h1⟩ := (h.modTcb t hf).removeReady ht
  have hnext : k1.setNext t none = k1 := by
    rw [Kernel.setNext, ← hnone]
    simp [Kernel.setTcb, Kernel.next]
  obtain ⟨k2, happ, -, h2⟩ := h1.appendWaiter i h.ready.nodup.not_mem_erase (fun j hj => h.notReady j _ hj ht) hnone
  exact ⟨k1, k2, hrem, h1.data, by rw [hnext]; exact happ, h2⟩

end Lists

end Wait

section Suspend

variable {e k : Kernel n} {lr : List (Fin n)} {w : ι → Option (Fin n)} {lw : ι → List (Fin n)}

theorem next_of_chain_concat {nx : Fin n → Option (Fin n)} {h : Option (Fin n)} {l : List (Fin n)} {t : Fin n}
    (hl : Chain nx h (l ++ [t])) : nx t = none := hl.next_eq

/-- `rx_suspend_task(MYSELF)` by a task that waits at the end of a chain. -/
theorem Lists.suspendSelf (h : Lists e k lr w lw) {i : ι} {l : List (Fin n)} (hi : lw i = l ++ [e.curr])
    {x : Fin n} {l' : List (Fin n)} (hx : lr = x :: l') :
    ∃ k', rxSuspendTask k none = .ok (.osOk, k') ∧ k'.port = {} ∧
      Lists ((e.setState e.curr .suspend).switchTo x) k' lr w lw := by
  have hcr : e.curr ∉ lr := h.notReady i _ (by simp [hi])
  have hnone : k.next e.curr = none := by
    have := h.wait i
    rw [hi] at this
    exact next_of_chain_concat this
  obtain ⟨k1, hrem, h1⟩ := h.removeReady_of_notMem hcr (by simp [hx]) hnone
  obtain ⟨k2, hsched, hport, h2⟩ := (h1.setState e.curr .suspend).sched hcr hx
  refine ⟨k2, ?_, hport, h2⟩
  simp only [rxSuspendTask, h.data.curr, hrem, h1.data.curr, hsched, bind, Except.bind, pure, Except.pure]

/-- With no other task ready, there is nothing to switch to. -/
theorem Lists.sched_nil (h : Lists e k [] w lw) : rxSched k = .error .null := by
  have hh : k.readyHead = none := h.ready
  have hh' : ({ k with needResched := false }.enterCritical : Kernel n).readyHead = none := hh
  rw [rxSched, if_pos (by rw [hh]; simp), rxSwitchTo, hh']

theorem Lists.suspendSelf_nil (h : Lists e k [] w lw) : rxSuspendTask k none = .error .null := by
  simp only [rxSuspendTask, rxRemoveFromReadyQ_empty h.ready k.curr, bind, Except.bind]

end Suspend

/-! ### Steps between calls -/

/-- Any ready task is switched to; the task it replaces may have been
preempted. -/
def Kernel.dispatch (k : Kernel n) (t : Fin n) (preempted : Bool) : Kernel n :=
  (if preempted then k.setState k.curr .ready else k).switchTo t

section Dispatch

variable (k : Kernel n) (t u : Fin n) (p : Bool)

theorem Kernel.dispatch_state : ((k.dispatch t p).tcb u).state =
    if u = t then .running else if p = true ∧ u = k.curr then .ready else (k.tcb u).state := by
  rw [dispatch, switchTo_state]
  by_cases hu : u = t
  · rw [if_pos hu, if_pos hu]
  · rw [if_neg hu, if_neg hu]
    cases p with
    | false => simp
    | true =>
      by_cases hc : u = k.curr
      · subst hc; simp [setState]
      · simp [setState, hc]

/-- Nothing but the state and the time slice changes. -/
theorem Kernel.dispatch_tcb : (k.dispatch t p).tcb u =
    { k.tcb u with state := ((k.dispatch t p).tcb u).state, ticks := ((k.dispatch t p).tcb u).ticks } := by
  have h1 : (if p then k.setState k.curr .ready else k).tcb u =
      { k.tcb u with state := ((if p then k.setState k.curr .ready else k).tcb u).state } := by
    cases p with
    | false => rfl
    | true =>
      by_cases hc : u = k.curr
      · subst hc; simp [setState]
      · simp [setState, hc]
  by_cases hu : u = t
  · subst hu
    simp only [dispatch, switchTo, modTcb_self]
    rw [h1]
    rfl
  · simp only [dispatch, switchTo, modTcb_of_ne _ hu]
    rw [h1]

theorem Kernel.dispatch_rest : k.dispatch t p = { k with tcb := (k.dispatch t p).tcb, curr := t } := by
  cases p <;> rfl

variable {k t}

/-- A dispatch of a ready task leaves every task ready that was. -/
theorem Kernel.dispatch_runnable (ht : (k.tcb t).state.runnable = true)
    (hc : (k.tcb k.curr).state.runnable = true) :
    ((k.dispatch t p).tcb u).state.runnable = (k.tcb u).state.runnable := by
  rw [dispatch_state]
  split_ifs with h1 h2
  · rw [h1, ht]; rfl
  · rw [h2.2, hc]; rfl
  · rfl

/-- The tasks on the ready queue are those that are ready, as before. -/
theorem Kernel.dispatch_ready {lr : List (Fin n)} (hr : ∀ u, u ∈ lr ↔ (k.tcb u).state.runnable = true)
    (hc : k.curr ∈ lr) (ht : (k.tcb t).state.runnable = true) :
    u ∈ lr ↔ ((k.dispatch t p).tcb u).state.runnable = true := by
  rw [dispatch_runnable u p ht ((hr _).mp hc)]
  exact hr u

/-- Other tasks than these keep their states. -/
theorem Kernel.dispatch_state_of_notMem {lr : List (Fin n)} (hr : ∀ u, u ∈ lr ↔ (k.tcb u).state.runnable = true)
    (hc : k.curr ∈ lr) (ht : (k.tcb t).state.runnable = true) (hu : u ∉ lr) :
    ((k.dispatch t p).tcb u).state = (k.tcb u).state := by
  have hut : u ≠ t := fun he => hu ((hr u).mpr (he ▸ ht))
  have huc : u ≠ k.curr := fun he => hu (he ▸ hc)
  rw [dispatch_state, if_neg hut, if_neg fun h => huc h.2]

theorem Lists.dispatch {e : Kernel n} {lr : List (Fin n)} {w : ι → Option (Fin n)} {lw : ι → List (Fin n)}
    (h : Lists e k lr w lw) (t : Fin n) (p : Bool) : Lists (k.dispatch t p) (k.dispatch t p) lr w lw := by
  unfold Kernel.dispatch
  split_ifs
  · exact ((h.setState k.curr .ready).switchTo t).self
  · exact (h.switchTo t).self

end Dispatch

/-- The task was suspended and is ready now. -/
def woken (k k' : Kernel n) (t : Fin n) : Bool := (k.tcb t).state = .suspend && (k'.tcb t).state = .ready

section Woken

variable {k k' : Kernel n} {t : Fin n}

/-- Nobody becomes ready. -/
theorem woken_eq_false {u : Fin n} (hst : (k'.tcb u).state = (k.tcb u).state) : woken k k' u = false := by
  unfold woken
  rw [hst]
  cases (k.tcb u).state <;> rfl

/-- Exactly the task `t` becomes ready. -/
theorem woken_eq (hst : ∀ u, (k'.tcb u).state = if u = t then .ready else (k.tcb u).state)
    (ht : (k.tcb t).state = .suspend) (u : Fin n) : woken k k' u = decide (u = t) := by
  by_cases hu : u = t
  · subst hu
    unfold woken
    rw [hst, ht]
    simp
  · rw [woken_eq_false (by rw [hst, if_neg hu])]
    simp [hu]

end Woken

/-- All tasks are ready, in the order of their numbers and with their numbers
as priorities; task 0 runs. -/
def Kernel.allReady (m : ℕ) : Kernel (m + 1) where
  tcb := fun t =>
    { prio := t.val, origPrio := t.val, state := if t.val = 0 then .running else .ready,
      next := if h : t.val + 1 < m + 1 then some ⟨t.val + 1, h⟩ else none }
  curr := 0
  readyHead := some 0

theorem enter_exit {k : Kernel n} (h : k.port = {}) : k.enterCritical.exitCritical = k := by
  have hp : k.port.disableIrqGlobal.restoreIrqGlobal = k.port := by rw [h]; rfl
  show { k with port := k.port.disableIrqGlobal.restoreIrqGlobal } = k
  rw [hp]

end Rosx
