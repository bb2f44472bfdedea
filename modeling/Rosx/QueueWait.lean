/-
# Who waits at a queue

What the halves of the calls of `kernel/rx_queue.c` do to the ready queue and
to the wait chains: a write makes the waiting reader ready (`Waiting.wrote`), a
read the first waiting writer (`Waiting.took`), and a task that blocks leaves
the ready queue to the next one (`Waiting.blockWriter`,
`Waiting.blockReader`). `Waiting k lr w lw` is `Lists` in task context: the
ready queue holds the runnable tasks, among them the running one. The chains
are any family that none of the tasks on the queue's own list is on, so that
the results hold next to the chains of other objects.
-/
import Rosx.Queue

namespace Rosx

open Linked

variable {n : ℕ} {ι : Type*}

/-! ### The lists -/

section Lists

variable {e k : Kernel n} {lr : List (Fin n)} {w : ι → Option (Fin n)} {lw : ι → List (Fin n)}

namespace Lists

theorem setQueue (h : Lists e k lr w lw) (m : ℕ) (c : MsgQueue n) :
    Lists (e.setQueue m c) (k.setQueue m c) lr w lw := by
  refine h.map (fun x => x.setQueue m c) (fun x y hxy => ⟨hxy.tcb, ?_⟩) rfl rfl rfl
  exact congrArg (fun z : Kernel n => z.setQueue m c) hxy.rest

theorem setMem (h : Lists e k lr w lw) (M : ℤ → UInt8) (C : List (ℤ × ℤ)) :
    Lists { e with mem := M, copies := C } { k with mem := M, copies := C } lr w lw := by
  refine h.map (fun x => { x with mem := M, copies := C }) (fun x y hxy => ⟨hxy.tcb, ?_⟩) rfl rfl rfl
  exact congrArg (fun z : Kernel n => { z with mem := M, copies := C }) hxy.rest

end Lists

end Lists

section DropTimer

variable (k : Kernel n) (t : Fin n)

@[simp] theorem dropTimer_queues : (dropTimer k t).queues = k.queues := (OffQueue.dropTimer k t).queues

end DropTimer

theorem state_modTcb (k : Kernel n) (t : Fin n) {f : Tcb n → Tcb n} {st : TaskState} (hf : ∀ c, (f c).state = st)
    (u : Fin n) : ((k.modTcb t f).tcb u).state = if u = t then st else (k.tcb u).state := by
  by_cases hu : u = t
  · subst hu; rw [Kernel.modTcb_self, hf, if_pos rfl]
  · rw [Kernel.modTcb_of_ne _ hu, if_neg hu]

/-- The event groups and the wait queues are left alone. -/
structure SameEvents (k k' : Kernel n) : Prop where
  events : k'.events = k.events
  sysWaitList : k'.sysWaitList = k.sysWaitList

theorem SameEvents.of_relinked {e k k' : Kernel n} (h : Relinked e k') (he : e.events = k.events)
    (hw : e.sysWaitList = k.sysWaitList) : SameEvents k k' := ⟨h.events.trans he, h.sysWaitList.trans hw⟩

/-- What a waking of `t` does to the tasks. -/
structure Woke (t : Fin n) (k k' : Kernel n) : Prop where
  state : ∀ u, (k'.tcb u).state = if u = t then .ready else (k.tcb u).state
  err : ∀ u, (k'.tcb u).err = (k.tcb u).err
  curr : k'.curr = k.curr

section Wake

variable {e k : Kernel n} {lr : List (Fin n)} {w : ι → Option (Fin n)} {lw : ι → List (Fin n)} {m : ℕ} {t : Fin n}

/-- The data of a task that is woken. -/
def readied (e : Kernel n) (t : Fin n) : Kernel n :=
  (dropTimer e t).modTcb t fun c => { c with state := .ready, mq := none }

theorem readied_woke (e : Kernel n) (t : Fin n) : Woke t e (readied e t) := by
  refine ⟨fun u => ?_, fun u => ?_, by simp [readied]⟩
  · apply (state_modTcb (dropTimer e t) t (fun _ => rfl) u).trans
    rw [dropTimer_state]
  · by_cases hu : u = t
    · subst hu; simp [readied]
    · simp [readied, Kernel.modTcb_of_ne _ hu]

/-- The kernel that a waking leaves, whatever it does to the queue. -/
theorem Woke.of_relinked {e k k' : Kernel n} {t : Fin n} {m : ℕ} {c : MsgQueue n}
    (h : Relinked ((readied e t).setQueue m c) k') (htcb : e.tcb = k.tcb) (hcurr : e.curr = k.curr) : Woke t k k' := by
  have hre := readied_woke e t
  refine ⟨fun u => ?_, fun u => ?_, (h.curr.trans hre.curr).trans hcurr⟩
  · rw [h.state, ← htcb]
    exact hre.state u
  · rw [h.err, ← htcb]
    exact hre.err u

theorem readied_events (e : Kernel n) (t : Fin n) : SameEvents e (readied e t) :=
  ⟨dropTimer_events e t, dropTimer_sysWaitList e t⟩

theorem readied_queues (e : Kernel n) (t : Fin n) : (readied e t).queues = e.queues := dropTimer_queues e t

/-- The waiting reader is made ready. -/
theorem wakeReader_spec (h : Lists e k lr w lw) (hr : (e.queues m).readTask = some t) (ht : t ∉ lr)
    (hw : ∀ i, t ∉ lw i) : ∃ k' lr', wakeReader k m = .ok k' ∧ (∀ u, u ∈ lr' ↔ u = t ∨ u ∈ lr) ∧
      Lists ((readied e t).setQueue m { e.queues m with readTask := none }) k' lr' w lw := by
  have h1 : Lists (readied e t) (readied k t) lr w lw := (h.dropTimer t).modTcb t fun _ _ => rfl
  obtain ⟨k2, hadd, h2⟩ := h1.addReady ht hw (by simp [readied])
  have hq2 : k2.queues m = e.queues m := by rw [h2.data.queues, readied_queues]
  have h3 := h2.setQueue m { e.queues m with readTask := none }
  refine ⟨k2.setQueue m { e.queues m with readTask := none }, _, ?_, fun u => mem_insertReady, h3⟩
  have hr' : (k.queues m).readTask = some t := by rw [h.data.queues]; exact hr
  unfold wakeReader
  rw [hr']
  show (rxAddToReadyQ (readied k t) t >>= _) = _
  rw [hadd]
  show Except.ok (k2.setQueue m { k2.queues m with readTask := none }) = _
  rw [hq2]

/-- The first waiting writer is made ready. -/
theorem wakeWriter_spec [DecidableEq ι] {i : ι} {l : List (Fin n)} (h : Lists e k lr w lw)
    (hr : (e.queues m).writeTask = w i) (hi : lw i = t :: l) :
    ∃ k' lr', wakeWriter k m = .ok k' ∧ (∀ u, u ∈ lr' ↔ u = t ∨ u ∈ lr) ∧
      Lists ((readied e t).setQueue m { e.queues m with writeTask := l.head? }) k' lr'
        (Function.update w i l.head?) (Function.update lw i l) := by
  obtain ⟨hwi, hnx, htr, htw, h1⟩ := h.popWaiter i hi
  have h2 : Lists (readied e t) (readied k t) lr _ _ := (h1.dropTimer t).modTcb t fun _ _ => rfl
  have hq : (readied k t).queues m = e.queues m := by rw [readied_queues, h.data.queues]
  have hnext : ((readied k t).tcb t).next = l.head? := by
    have : (readied k t).next = k.next := by
      unfold readied
      rw [LinkFree.next_modTcb fun _ _ => rfl]
      unfold dropTimer
      cases (k.tcb t).timer with
      | none => rfl
      | some tm => exact LinkFree.next_modTcb (fun _ _ => rfl) _ t
    exact (congrFun this t).trans hnx
  obtain ⟨k3, hadd, h3⟩ := (h2.setQueue m { e.queues m with writeTask := l.head? }).addReady htr htw
    (by simp [readied, Kernel.setQueue])
  refine ⟨k3, _, ?_, fun u => mem_insertReady, h3⟩
  have hr' : (k.queues m).writeTask = some t := by rw [h.data.queues, hr, hwi]
  unfold wakeWriter
  rw [hr']
  show (rxAddToReadyQ ((readied k t).setQueue m
    { (readied k t).queues m with writeTask := ((readied k t).tcb t).next }) t >>= _) = _
  rw [hq, hnext, hadd]
  rfl

end Wake

/-- The kernel once the message at `tail` has been read. -/
def readOff (k : Kernel n) (m : ℕ) : Kernel n :=
  { k with copies := k.copies ++ [((k.queues m).tail, (k.queues m).sizeOfBlock)] }.setQueue m (k.queues m).popped

@[simp] theorem readOff_queues (k : Kernel n) (m : ℕ) : (readOff k m).queues m = (k.queues m).popped :=
  Kernel.setQueue_queues ..

theorem Lists.readOff {k : Kernel n} {lr : List (Fin n)} {w : ι → Option (Fin n)} {lw : ι → List (Fin n)}
    (h : Lists k k lr w lw) (m : ℕ) : Lists (readOff k m) (readOff k m).enterCritical lr w lw :=
  ((h.setMem k.mem _).setQueue m _).enter

/-- The end of a read, after the copy. -/
theorem readCopy_wakes {k k' : Kernel n} {m : ℕ} {r : Ret} (he : readCopy k.enterCritical m = .ok (r, k')) :
    ∃ k1, wakeWriter (readOff k m).enterCritical m = .ok k1 ∧ k1.exitCritical = k' := by
  obtain ⟨k1, hw, he⟩ := bind_eq_ok.mp he
  obtain ⟨-, rfl⟩ := Prod.mk.inj (Except.ok.inj he)
  exact ⟨k1, hw, rfl⟩

/-- `rx_write_to_queue` from the full queue on to the end of the critical
section: the running task joins the chain. -/
def joinWriter (k : Kernel n) (m : ℕ) : Res (Kernel n) := do
  let t := k.curr
  let k := k.modTcb t fun c => { c with state := .suspend, err := .osOk }
  let k ← rxRemoveFromReadyQ k t
  let (head, k) ← appendWaiter k (k.queues m).writeTask t
  return (k.setQueue m { k.queues m with writeTask := head }).exitCritical

/-- A writer joins the chain, and gives up the processor or sleeps on a timer. -/
theorem blockWriter_eq (k : Kernel n) (m : ℕ) (timeout : ℤ) (tm : ℕ) :
    blockWriter k m timeout tm = joinWriter k m >>= fun k' =>
      if timeout = 0 then rxSched k' else k'.rxAddTimer tm (BitVec.ofInt 32 timeout + k'.jiffies) k.curr := by
  simp only [blockWriter, joinWriter, bind_assoc, pure_bind]

/-- The data of a running task that has joined the writers `l`. -/
def joinedWriter (k : Kernel n) (m : ℕ) (l : List (Fin n)) : Kernel n :=
  (k.modTcb k.curr fun c => { c with state := .suspend, err := .osOk }).setQueue m
    { k.queues m with writeTask := (l ++ [k.curr]).head? }

theorem Lists.joinWriter [DecidableEq ι] {k : Kernel n} {lr : List (Fin n)} {w : ι → Option (Fin n)}
    {lw : ι → List (Fin n)} {m : ℕ} {i : ι} (h : Lists k k lr w lw) (hwi : (k.queues m).writeTask = w i)
    (hc : k.curr ∈ lr) : ∃ k', joinWriter k.enterCritical m = .ok k' ∧ k'.port = {} ∧ k'.next k.curr = none ∧
      Lists (joinedWriter k m (lw i)) k' (lr.erase k.curr) (Function.update w i (lw i ++ [k.curr]).head?)
        (Function.update lw i (lw i ++ [k.curr])) := by
  set e := k.modTcb k.curr fun c => { c with state := .suspend, err := .osOk } with hedef
  have h1 : Lists e _ lr _ _ := h.enter.modTcb k.curr
    (f := fun c => { c with state := .suspend, err := .osOk }) fun _ _ => rfl
  obtain ⟨k1, hrem, hnone, h2⟩ := h1.removeReady hc
  obtain ⟨k2, happ, hnone2, h3⟩ := h2.appendWaiter i h.ready.nodup.not_mem_erase
    (fun j hj => h.notReady j _ hj hc) hnone
  have hq : ∀ x : Kernel n, Relinked e x → x.queues m = k.queues m := fun x hx => by rw [hx.queues]; rfl
  set c : MsgQueue n := { k.queues m with writeTask := (lw i ++ [k.curr]).head? } with hcdef
  have h4 := h3.setQueue m c
  refine ⟨(k2.setQueue m c).exitCritical, ?_, h4.port.exit, hnone2, h4.exit⟩
  unfold Rosx.joinWriter
  dsimp only
  change (rxRemoveFromReadyQ (k.enterCritical.modTcb k.curr _) k.curr >>= _) = _
  rw [hrem]
  change (Rosx.appendWaiter k1 (k1.queues m).writeTask k.curr >>= _) = _
  rw [hq k1 h2.data, hwi, happ]
  change Except.ok (k2.setQueue m { k2.queues m with writeTask := (lw i ++ [k.curr]).head? }).exitCritical = _
  rw [hq k2 h3.data]

/-- What a copy does to the tasks when it wakes the one in `o`, if there is one. -/
structure Copied (o : Option (Fin n)) (k k' : Kernel n) : Prop where
  port : k'.port = {}
  state : ∀ u, (k'.tcb u).state = if o = some u then .ready else (k.tcb u).state
  err : ∀ u, (k'.tcb u).err = (k.tcb u).err
  curr : k'.curr = k.curr

theorem Woke.copied {k k' : Kernel n} {t : Fin n} (h : Woke t k k') (hport : k'.port = {}) : Copied (some t) k k' := by
  refine ⟨hport, fun u => ?_, h.err, h.curr⟩
  rw [h.state]
  simp [eq_comm]

namespace Lists

variable {m : ℕ} {k k' : Kernel n} {lr : List (Fin n)} {w : ι → Option (Fin n)} {lw : ι → List (Fin n)} {r : Ret}

/-- A message is written; the reader is woken if it waits. -/
theorem wrote (h : Lists k k lr w lw) {msg : List UInt8}
    (hread : ∀ t, (k.queues m).readTask = some t → t ∉ lr ∧ ∀ i, t ∉ lw i)
    (he : writeCopy k.enterCritical m msg = .ok (r, k')) :
    ∃ lr', Lists k' k' lr' w lw ∧ (∀ u, u ∈ lr' ↔ (k.queues m).readTask = some u ∨ u ∈ lr) ∧
      Copied (k.queues m).readTask k k' ∧ (k'.queues m).readTask = none ∧
      (k'.queues m).writeTask = (k.queues m).writeTask ∧ SameEvents k k' := by
  set q := k.queues m with hq
  set e := ({ k with mem := storeAt k.mem q.head msg q.sizeOfBlock, copies := k.copies ++ [(q.head, q.sizeOfBlock)] } :
    Kernel n).setQueue m q.pushed with hedef
  have h1 : Lists e e.enterCritical lr _ _ := ((h.setMem (storeAt k.mem q.head msg q.sizeOfBlock)
    (k.copies ++ [(q.head, q.sizeOfBlock)])).setQueue m q.pushed).enter
  have heq : e.queues m = q.pushed := by simp [hedef, Kernel.setQueue]
  obtain ⟨k1, hw, he2⟩ := bind_eq_ok.mp he
  obtain ⟨-, rfl⟩ := Prod.mk.inj (Except.ok.inj he2)
  change wakeReader e.enterCritical m = .ok k1 at hw
  cases hr : q.readTask with
  | none =>
    have hr' : (e.queues m).readTask = none := by rw [heq]; exact hr
    rw [wakeReader_none (k := e.enterCritical) hr'] at hw
    obtain rfl := Except.ok.inj hw
    exact ⟨lr, h1.exit.self, fun u => by simp, ⟨h1.port.exit, fun u => by simp; rfl, fun _ => rfl, rfl⟩, hr',
      congrArg (·.writeTask) heq, rfl, rfl⟩
  | some t =>
    obtain ⟨htr, htw⟩ := hread t hr
    obtain ⟨k2, lr', hw2, hm, h2⟩ := wakeReader_spec (m := m) h1 (by rw [heq]; exact hr) htr htw
    obtain rfl : k2 = k1 := Except.ok.inj (hw2.symm.trans hw)
    have hdata := h2.exit.data
    have hwoke : Woke t k k2.exitCritical := .of_relinked hdata rfl rfl
    have hq2 : k2.exitCritical.queues m = { q.pushed with readTask := none } := by
      rw [hdata.queues, ← heq]
      simp [Kernel.setQueue]
    refine ⟨lr', h2.exit.self, fun u => ?_, hwoke.copied h2.port.exit, by rw [hq2], by rw [hq2]; rfl,
      .of_relinked hdata (readied_events e t).events (readied_events e t).sysWaitList⟩
    rw [hm]
    simp [eq_comm]

/-- A message is read and nobody waits to write. -/
theorem took_of_none (h : Lists k k lr w lw) (hnone : (k.queues m).writeTask = none)
    (he : readCopy k.enterCritical m = .ok (r, k')) :
    Lists k' k' lr w lw ∧ Copied none k k' ∧ (k'.queues m).readTask = (k.queues m).readTask ∧
      (k'.queues m).writeTask = none ∧ SameEvents k k' := by
  have h1 := h.readOff m
  have hnone' : ((Rosx.readOff k m).enterCritical.queues m).writeTask = none := by
    show ((Rosx.readOff k m).queues m).writeTask = none
    rw [readOff_queues]
    exact hnone
  obtain ⟨k1, hw, rfl⟩ := readCopy_wakes he
  rw [wakeWriter_none hnone'] at hw
  obtain rfl := Except.ok.inj hw
  exact ⟨h1.exit.self, ⟨h1.port.exit, fun u => by simp; rfl, fun _ => rfl, rfl⟩,
    congrArg (·.readTask) (readOff_queues k m), hnone', rfl, rfl⟩

/-- A message is read and the first waiting writer is woken. -/
theorem took_of_cons [DecidableEq ι] (h : Lists k k lr w lw) {i : ι} {t : Fin n} {l : List (Fin n)}
    (hwi : (k.queues m).writeTask = w i) (hi : lw i = t :: l) (he : readCopy k.enterCritical m = .ok (r, k')) :
    ∃ lr', Lists k' k' lr' (Function.update w i l.head?) (Function.update lw i l) ∧ (∀ u, u ∈ lr' ↔ u = t ∨ u ∈ lr) ∧
      Copied (some t) k k' ∧ (k'.queues m).readTask = (k.queues m).readTask ∧ (k'.queues m).writeTask = l.head? := by
  obtain ⟨k1, hw, rfl⟩ := readCopy_wakes he
  obtain ⟨k2, lr', hw2, hm, h2⟩ := wakeWriter_spec (m := m) (h.readOff m) (by rw [readOff_queues]; exact hwi) hi
  obtain rfl : k2 = k1 := Except.ok.inj (hw2.symm.trans hw)
  have hdata := h2.exit.data
  have hwoke : Woke t k k2.exitCritical := .of_relinked hdata rfl rfl
  have hq2 : k2.exitCritical.queues m = { (k.queues m).popped with writeTask := l.head? } := by
    rw [hdata.queues, Kernel.setQueue_queues, readOff_queues]
  exact ⟨lr', h2.exit.self, hm, hwoke.copied h2.port.exit, by rw [hq2]; rfl, by rw [hq2]⟩

end Lists

/-- Who is ready and who waits. -/
structure Waiting (k : Kernel n) (lr : List (Fin n)) (w : ι → Option (Fin n)) (lw : ι → List (Fin n)) : Prop where
  lists : Lists k k lr w lw
  port : k.port = {}
  ready : ∀ t, t ∈ lr ↔ (k.tcb t).state.runnable = true
  curr : k.curr ∈ lr

namespace Waiting

variable {m : ℕ} {k k' : Kernel n} {lr : List (Fin n)} {w w' : ι → Option (Fin n)} {lw lw' : ι → List (Fin n)} {r : Ret}

theorem congr_heads (h : Waiting k lr w lw) (hw : ∀ i, w' i = w i) : Waiting k lr w' lw :=
  ⟨h.lists.congr_heads hw, h.port, h.ready, h.curr⟩

/-- A kernel with one wait chain. -/
theorem single {w : Unit → Option (Fin n)} {lw : Unit → List (Fin n)} {v v' : Option (Fin n)} {l : List (Fin n)}
    (h : Waiting k lr (Function.update w () v) (Function.update lw () l)) (hv : v' = v) :
    Waiting k lr (fun _ : Unit => v') (fun _ => l) := ⟨h.lists.single hv, h.port, h.ready, h.curr⟩

/-- After the waking of `t` the ready queue holds `t`, too. -/
theorem ready_of_woke (h : Waiting k lr w lw) {t : Fin n} {lr' : List (Fin n)} (hk : Woke t k k')
    (hm : ∀ u, u ∈ lr' ↔ u = t ∨ u ∈ lr) : (∀ u, u ∈ lr' ↔ (k'.tcb u).state.runnable = true) ∧ k'.curr ∈ lr' := by
  refine ⟨fun u => ?_, ?_⟩
  · rw [hm, h.ready, hk.state]
    by_cases hu : u = t
    · simp [hu]
    · simp [hu]
  · rw [hk.curr, hm]
    exact Or.inr h.curr

/-- After a copy the ready queue holds the task that it woke, too. -/
theorem copied (h : Waiting k lr w lw) {o : Option (Fin n)} {lr' : List (Fin n)} (hk : Copied o k k')
    (hm : ∀ u, u ∈ lr' ↔ o = some u ∨ u ∈ lr) (hl : Lists k' k' lr' w' lw') : Waiting k' lr' w' lw' := by
  refine ⟨hl, hk.port, fun u => ?_, ?_⟩
  · rw [hm, h.ready, hk.state]
    by_cases hu : o = some u
    · simp [hu]
    · simp [hu]
  · rw [hk.curr, hm]
    exact Or.inr h.curr

/-- A message is written; the reader is woken if it waits. -/
theorem wrote (h : Waiting k lr w lw) {msg : List UInt8}
    (hread : ∀ t, (k.queues m).readTask = some t → t ∉ lr ∧ ∀ i, t ∉ lw i)
    (he : writeCopy k.enterCritical m msg = .ok (r, k')) :
    ∃ lr', Waiting k' lr' w lw ∧ (∀ u, u ∈ lr' ↔ (k.queues m).readTask = some u ∨ u ∈ lr) ∧
      (∀ u, (k'.tcb u).err = (k.tcb u).err) ∧ (k'.queues m).readTask = none ∧
      (k'.queues m).writeTask = (k.queues m).writeTask ∧ SameEvents k k' := by
  obtain ⟨lr', hl, hm, hk, hr, hw, hev⟩ := h.lists.wrote hread he
  exact ⟨lr', h.copied hk hm hl, hm, hk.err, hr, hw, hev⟩

/-- A message is read and nobody waits to write. -/
theorem took_of_none (h : Waiting k lr w lw) (hnone : (k.queues m).writeTask = none)
    (he : readCopy k.enterCritical m = .ok (r, k')) :
    Waiting k' lr w lw ∧ (∀ u, (k'.tcb u).err = (k.tcb u).err) ∧ (k'.queues m).readTask = (k.queues m).readTask ∧
      (k'.queues m).writeTask = none ∧ SameEvents k k' := by
  obtain ⟨hl, hk, hr, hw, hev⟩ := h.lists.took_of_none hnone he
  exact ⟨h.copied hk (by simp) hl, hk.err, hr, hw, hev⟩

/-- A message is read and the first waiting writer is woken. -/
theorem took_of_cons [DecidableEq ι] (h : Waiting k lr w lw) {i : ι} {t : Fin n} {l : List (Fin n)}
    (hwi : (k.queues m).writeTask = w i) (hi : lw i = t :: l) (he : readCopy k.enterCritical m = .ok (r, k')) :
    ∃ lr', Waiting k' lr' (Function.update w i l.head?) (Function.update lw i l) ∧ (∀ u, u ∈ lr' ↔ u = t ∨ u ∈ lr) ∧
      (∀ u, (k'.tcb u).err = (k.tcb u).err) ∧ (k'.queues m).readTask = (k.queues m).readTask ∧
      (k'.queues m).writeTask = l.head? := by
  obtain ⟨lr', hl, hm, hk, hr, hw⟩ := h.lists.took_of_cons hwi hi he
  exact ⟨lr', h.copied hk (fun u => by rw [hm]; simp [eq_comm]) hl, hm, hk.err, hr, hw⟩

/-- The running task has left the ready queue and gives up the processor. -/
theorem sched (h : Waiting k lr w lw) {e k₂ : Kernel n} (hl : Lists e k₂ (lr.erase k.curr) w' lw')
    (hcurr : e.curr = k.curr)
    (hst : ∀ u, (e.tcb u).state = if u = k.curr then .suspend else (k.tcb u).state)
    (hs : rxSched k₂ = .ok k') :
    Waiting k' (lr.erase k.curr) w' lw' ∧ (∀ u, (k'.tcb u).err = (e.tcb u).err) ∧ k'.queues = e.queues ∧
      SameEvents e k' := by
  have hnd := h.lists.ready.nodup
  cases hx : lr.erase k.curr with
  | nil =>
    rw [hx] at hl
    rw [hl.sched_nil] at hs
    cases hs
  | cons x l' =>
    obtain ⟨k₃, hs3, hport, h3⟩ := hl.sched (t := x) (l := l') (by rw [hcurr]; exact hnd.not_mem_erase) hx
    obtain rfl : k₃ = k' := Except.ok.inj (hs3.symm.trans hs)
    have hxm : x ∈ lr.erase k.curr := by rw [hx]; exact List.mem_cons_self
    rw [← hx]
    refine ⟨⟨h3.self, hport, fun u => ?_, ?_⟩, fun u => ?_, h3.data.queues, .of_relinked h3.data rfl rfl⟩
    · -- the head of the ready queue runs, the task that left it is suspended
      rw [h3.data.state, Kernel.switchTo_state, hst]
      split_ifs with hux huc
      · subst hux
        exact iff_of_true hxm rfl
      · subst huc
        exact iff_of_false hnd.not_mem_erase (by simp)
      · rw [hnd.mem_erase_iff, ← h.ready]
        exact ⟨fun hu => hu.2, fun hu => ⟨huc, hu⟩⟩
    · rw [h3.data.curr]
      exact hxm
    · rw [h3.data.err, Kernel.switchTo_err]

/-- A producer waits at the end of the chain. -/
theorem blockWriter [DecidableEq ι] (h : Waiting k lr w lw) {i : ι} (hwi : (k.queues m).writeTask = w i) {tm : ℕ}
    (he : blockWriter k.enterCritical m 0 tm = .ok k') :
    Waiting k' (lr.erase k.curr) (Function.update w i (lw i ++ [k.curr]).head?)
      (Function.update lw i (lw i ++ [k.curr])) ∧
      (∀ u, (k'.tcb u).err = if u = k.curr then .osOk else (k.tcb u).err) ∧
      (k'.queues m).readTask = (k.queues m).readTask ∧ (k'.queues m).writeTask = (lw i ++ [k.curr]).head? := by
  obtain ⟨k1, hjoin, -, -, h1⟩ := h.lists.joinWriter (i := i) hwi h.curr
  rw [blockWriter_eq, hjoin] at he
  change rxSched k1 = .ok k' at he
  obtain ⟨hwt, herr, hqs, -⟩ := h.sched h1 rfl (state_modTcb k k.curr fun _ => rfl) he
  have hqm : k'.queues m = { k.queues m with writeTask := (lw i ++ [k.curr]).head? } := by
    rw [hqs]
    exact Kernel.setQueue_queues ..
  refine ⟨hwt, fun u => ?_, by rw [hqm], by rw [hqm]⟩
  rw [herr, joinedWriter, Kernel.setQueue_tcb]
  by_cases hu : u = k.curr
  · subst hu; simp
  · rw [Kernel.modTcb_of_ne _ hu, if_neg hu]

/-- The reader waits, with a timeout or not. -/
theorem blockReader (h : Waiting k lr w lw) {timeout : ℤ} {tm : ℕ}
    (he : blockReader k.enterCritical m timeout tm = .ok k') :
    Waiting k' (lr.erase k.curr) w lw ∧ (∀ u, u ≠ k.curr → (k'.tcb u).err = (k.tcb u).err) ∧
      (k'.queues m).readTask = some k.curr ∧ (k'.queues m).writeTask = (k.queues m).writeTask ∧ SameEvents k k' := by
  set c : MsgQueue n := { k.queues m with readTask := some k.curr } with hc
  have h0 : Lists (k.setQueue m c) (k.enterCritical.setQueue m c) lr _ _ := h.lists.enter.setQueue m c
  unfold Rosx.blockReader at he
  dsimp only at he
  split_ifs at he with ht
  · set e := (k.setQueue m c).modTcb k.curr fun c => { c with state := .suspend, err := .osOk } with hedef
    have h1 : Lists e _ lr _ _ := h0.modTcb k.curr
      (f := fun c => { c with state := .suspend, err := .osOk }) fun _ _ => rfl
    obtain ⟨k1, hrem, -, h2⟩ := h1.removeReady h.curr
    change (rxRemoveFromReadyQ ((k.enterCritical.setQueue m c).modTcb k.curr _) k.curr >>= _) = _ at he
    rw [hrem] at he
    obtain ⟨hwt, herr, hqs, hev⟩ := h.sched h2.exit rfl (state_modTcb (k.setQueue m c) k.curr fun _ => rfl) he
    have hqm : k'.queues m = c := by rw [hqs]; exact Kernel.setQueue_queues k m c
    refine ⟨hwt, fun u hu => ?_, by rw [hqm], by rw [hqm], hev.events, hev.sysWaitList⟩
    rw [herr, hedef, Kernel.modTcb_of_ne _ hu]
    rfl
  · set d := BitVec.ofInt 32 timeout + k.jiffies with hd
    set e := (((k.setQueue m c).setSleepTimer tm d k.curr).rxAddToActiveTimerList tm).modTcb k.curr
      fun c => { c with timer := some tm, state := .suspend } with hedef
    have hset : Lists ((k.setQueue m c).setSleepTimer tm d k.curr)
        ((k.enterCritical.setQueue m c).exitCritical.setSleepTimer tm d k.curr) lr _ _ := h0.exit.setTimer _
    have h1 : Lists e _ lr _ _ := (hset.rxAddToActiveTimerList tm).modTcb k.curr
      (f := fun c => { c with timer := some tm, state := .suspend }) fun _ _ => rfl
    obtain ⟨k1, hrem, -, h2⟩ := h1.removeReady h.curr
    change (rxRemoveFromReadyQ ((((k.enterCritical.setQueue m c).exitCritical.setSleepTimer tm d
      k.curr).rxAddToActiveTimerList tm).modTcb k.curr _) k.curr >>= _) = _ at he
    rw [hrem] at he
    obtain ⟨hwt, herr, hqs, hev⟩ := h.sched h2 rfl
      (state_modTcb (((k.setQueue m c).setSleepTimer tm d k.curr).rxAddToActiveTimerList tm) k.curr fun _ => rfl) he
    have hqm : k'.queues m = c := by rw [hqs]; exact Kernel.setQueue_queues k m c
    refine ⟨hwt, fun u hu => ?_, by rw [hqm], by rw [hqm], hev.events, hev.sysWaitList⟩
    rw [herr, hedef, Kernel.modTcb_of_ne _ hu]
    rfl

theorem dispatch (h : Waiting k lr w lw) {t : Fin n} (ht : (k.tcb t).state.runnable = true) (p : Bool) :
    Waiting (k.dispatch t p) lr w lw := by
  refine ⟨h.lists.dispatch t p, ?_, fun u => ?_, (h.ready t).mpr ht⟩
  · rw [Kernel.dispatch_rest]
    exact h.port
  · exact Kernel.dispatch_ready u p h.ready h.curr ht

end Waiting

end Rosx
