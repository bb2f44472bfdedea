/-
# Runs of an event group

Any number of tasks wait for events on one group. A step of a run is a call of
`rx_wait_event_group` by the running task, up to the switch to another task,
or its return; a `rx_notify_event` by a task or an interrupt; the event
thread's read of the event queue and its `rx_process_event`; or the dispatch
of any ready task. Events may be processed in any order and number, whether
or not they were notified.

`canBeWoken_iff_waitsAlone` says when every waiting task can be woken: if and only
if no task begins to wait while another one does. A task that does is linked
nowhere.
-/
import Rosx.Event
import Rosx.Lib.Run

namespace Rosx

open Linked

variable {n : ℕ}

/-- Where a task is in its calls: `waiting` since its `rx_wait_event_group`,
`woken` since a `rx_process_event` made it ready, `fetching` while it is in a
blocked read of the event queue. -/
inductive EventPhase where
  | out
  | waiting
  | woken
  | fetching
  deriving DecidableEq, Repr

/-- The kernel and the pending calls. -/
structure EventSys (n : ℕ) where
  k : Kernel n
  phase : Fin n → EventPhase

/-- A step of a run. -/
inductive EventCall (n : ℕ) where
  | wait (flag : Word)
  | ret
  | notify (event : List UInt8) (tm : ℕ)
  | fetch (size : ℤ) (tm : ℕ)
  | refetch
  | process (fuel : ℕ) (flag : Word)
  | dispatch (t : Fin n) (preempted : Bool)

namespace EventSys

/-- The call of the running task becomes `p`. -/
def setPhase (s : EventSys n) (p : EventPhase) : EventSys n :=
  { s with phase := Function.update s.phase s.k.curr p }

/-- The waiting tasks that are ready in `k` are woken. -/
def wake (s : EventSys n) (k : Kernel n) : EventSys n where
  k := k
  phase := fun t => if s.phase t = .waiting ∧ (k.tcb t).state = .ready then .woken else s.phase t

section Wake

variable {s : EventSys n} {k : Kernel n} {t : Fin n}

theorem wake_of_ne (h : s.phase t ≠ .waiting) : (s.wake k).phase t = s.phase t := if_neg fun hc => h hc.1

theorem wake_of_not_ready (h : (k.tcb t).state ≠ .ready) : (s.wake k).phase t = s.phase t := if_neg fun hc => h hc.2

theorem wake_of_ready (h : s.phase t = .waiting) (hk : (k.tcb t).state = .ready) : (s.wake k).phase t = .woken :=
  if_pos ⟨h, hk⟩

end Wake

/-- What a step computes on group `g`, with the event queue `m`: what a wait
returns, and the system it leaves. -/
def exec (g m : ℕ) (s : EventSys n) : EventCall n → Res (Option Word × EventSys n)
  | .wait flag => do
    let k ← rxWaitEventGroup s.k g flag
    return (none, { s.setPhase .waiting with k := k })
  | .ret => .ok (some (rxWaitEventGroupRet s.k), s.setPhase .out)
  | .notify event tm => do
    let (_, k) ← rxNotifyEvent s.k m event tm
    return (none, { s with k := k })
  | .fetch size tm => do
    let (r, k) ← rxEventThreadRead s.k m size tm
    return (none, { s.setPhase (if r = none then .fetching else .out) with k := k })
  | .refetch => do
    let (_, k) ← rxReadFromQueueResume s.k m false
    return (none, { s.setPhase .out with k := k })
  | .process fuel flag => do
    let (_, k) ← rxProcessEvent fuel s.k (some g) flag
    return (none, s.wake k)
  | .dispatch t preempted => .ok (none, { s with k := s.k.dispatch t preempted })

/-- A task without a pending call makes one; a woken task returns, and one
that runs again reads on. An event can be notified at any time. -/
def Admissible (s : EventSys n) : EventCall n → Prop
  | .wait _ | .fetch _ _ | .process _ _ => s.phase s.k.curr = .out
  | .ret => s.phase s.k.curr = .woken
  | .notify _ _ => True
  | .refetch => s.phase s.k.curr = .fetching
  | .dispatch t _ => (s.k.tcb t).state.runnable = true

instance (s : EventSys n) : ∀ c, Decidable (s.Admissible c)
  | .wait _ | .fetch _ _ | .process _ _ => inferInstanceAs (Decidable (s.phase s.k.curr = .out))
  | .ret => inferInstanceAs (Decidable (s.phase s.k.curr = .woken))
  | .notify _ _ => inferInstanceAs (Decidable True)
  | .refetch => inferInstanceAs (Decidable (s.phase s.k.curr = .fetching))
  | .dispatch t _ => inferInstanceAs (Decidable ((s.k.tcb t).state.runnable = true))

/-- The step relation; its label has what the call returned. -/
def Step (g m : ℕ) (s : EventSys n) (c : EventCall n × Option Word) (s' : EventSys n) : Prop :=
  s.Admissible c.1 ∧ s.exec g m c.1 = .ok (c.2, s')

/-- A new group and the event queue; no task is in a call. -/
structure Init (g m : ℕ) (s : EventSys n) : Prop where
  group : (s.k.events g).task = none
  cyclic : (s.k.queues m).cyclic = true
  writer : (s.k.queues m).writeTask = none
  reader : (s.k.queues m).readTask = none
  quiet : s.k.sysWaitList = none
  ready : ∃ l, Chain s.k.next s.k.readyHead l ∧ ∀ t, t ∈ l ↔ (s.k.tcb t).state.runnable = true
  curr : (s.k.tcb s.k.curr).state.runnable = true
  port : s.k.port = {}
  phase : s.phase = fun _ => .out

/-- The task is on the group's chain. -/
def OnChain (g : ℕ) (s : EventSys n) (t : Fin n) : Prop :=
  ∃ l, Chain s.k.next (s.k.events g).task l ∧ t ∈ l

/-- Every waiting task is on the group's chain, and an event it waits for
makes it ready. -/
def CanBeWoken (g : ℕ) (s : EventSys n) : Prop :=
  ∀ t, s.phase t = .waiting → OnChain g s t ∧
    ∀ fuel flag, (s.k.tcb t).eventFlag &&& flag ≠ 0#32 →
      ∃ k', rxProcessEvent fuel s.k (some g) flag = .ok (.osOk, k') ∧ (k'.tcb t).state = .ready

/-- A task begins to wait only while no other one does. -/
def WaitsAlone (g : ℕ) (s : EventSys n) (c : EventCall n × Option Word) : Prop :=
  match c.1 with
  | .wait _ => (s.k.events g).task = none
  | _ => True

instance (g : ℕ) (s : EventSys n) (c : EventCall n × Option Word) : Decidable (WaitsAlone g s c) := by
  unfold WaitsAlone
  split <;> infer_instance

/-! ### The invariant -/

/-- The tasks on the group's chain are those that wait, and they are at most
one; the only other task that is asleep is the reader of the event queue. -/
structure Inv (g m : ℕ) (s : EventSys n) (lr lw : List (Fin n)) : Prop where
  waiting : Waiting s.k lr (fun _ : Unit => (s.k.events g).task) (fun _ => lw)
  asleep : ∀ t, s.phase t = .waiting ↔ t ∈ lw
  alone : lw.length ≤ 1
  fetching : ∀ t, (s.k.queues m).readTask = some t → t ∉ lr ∧ s.phase t = .fetching
  cyclic : (s.k.queues m).cyclic = true
  writer : (s.k.queues m).writeTask = none
  quiet : s.k.sysWaitList = none

section Inv

variable {g m : ℕ} {s s' : EventSys n} {lr lw : List (Fin n)} {k' : Kernel n}

theorem Init.inv (h : Init g m s) : ∃ lr, Inv g m s lr [] := by
  obtain ⟨lr, hr, hrun⟩ := h.ready
  refine ⟨lr, ⟨⟨Relinked.refl _, Or.inl h.port, hr, fun _ => h.group, by simp, by simp⟩, h.port, hrun,
    (hrun _).mpr h.curr⟩, fun t => ?_, by simp, fun t ht => ?_, h.cyclic, h.writer, h.quiet⟩
  · rw [h.phase]
    simp
  · rw [h.reader] at ht
    cases ht

namespace Inv

theorem curr_notMem (h : Inv g m s lr lw) : s.k.curr ∉ lw :=
  fun hm => h.waiting.lists.notReady () _ hm h.waiting.curr

theorem ne_curr_of_fetching (h : Inv g m s lr lw) {t : Fin n} (ht : (s.k.queues m).readTask = some t) :
    t ≠ s.k.curr := by
  rintro rfl
  exact (h.fetching _ ht).1 h.waiting.curr

/-- The reader of the event queue waits for nothing else. -/
theorem reader_notMem (h : Inv g m s lr lw) {t : Fin n} (ht : (s.k.queues m).readTask = some t) : t ∉ lr ∧ t ∉ lw := by
  obtain ⟨hr, hp⟩ := h.fetching t ht
  refine ⟨hr, fun hm => ?_⟩
  rw [(h.asleep t).mpr hm] at hp
  cases hp

/-- The running task is not among the waiting ones, whatever its call
becomes. -/
theorem asleep_update (h : Inv g m s lr lw) {p : EventPhase} (hp : p ≠ .waiting) (t : Fin n) :
    (s.setPhase p).phase t = .waiting ↔ t ∈ lw := by
  by_cases ht : t = s.k.curr
  · subst ht
    simp only [setPhase, Function.update_self]
    exact iff_of_false hp h.curr_notMem
  · simp only [setPhase, Function.update_of_ne ht]
    exact h.asleep t

theorem fetching_update (h : Inv g m s lr lw) (p : EventPhase) {t : Fin n}
    (ht : (s.k.queues m).readTask = some t) : t ∉ lr ∧ (s.setPhase p).phase t = .fetching := by
  simp only [setPhase, Function.update_of_ne (h.ne_curr_of_fetching ht)]
  exact h.fetching t ht

/-- The running task's call ends, in a kernel that is as it was. -/
theorem returned (h : Inv g m s lr lw) {p : EventPhase} (hp : p ≠ .waiting)
    (hk : k' = s.k ∨ k' = s.k.enterCritical.exitCritical) : Inv g m { s.setPhase p with k := k' } lr lw := by
  obtain rfl : k' = s.k := hk.elim id fun hk => hk.trans (enter_exit h.waiting.port)
  exact ⟨h.waiting, h.asleep_update hp, h.alone, fun t ht => h.fetching_update p ht, h.cyclic, h.writer, h.quiet⟩

/-- A task waits, alone. -/
theorem wait (h : Inv g m s lr []) {flag : Word} (he : rxWaitEventGroup s.k g flag = .ok k') :
    Inv g m { s.setPhase .waiting with k := k' } (lr.erase s.k.curr) [s.k.curr] := by
  obtain ⟨hw, hq, hs⟩ := rxWaitEventGroup_spec h.waiting he
  refine ⟨hw, fun t => ?_, by simp, fun t ht => ?_, by rw [hq]; exact h.cyclic, by rw [hq]; exact h.writer,
    hs.trans h.quiet⟩
  · by_cases ht : t = s.k.curr
    · subst ht
      simp [setPhase]
    · simp only [setPhase, Function.update_of_ne ht, List.mem_singleton, ht, iff_false]
      exact fun hp => by cases (h.asleep t).mp hp
  · rw [hq] at ht
    obtain ⟨hr, hp⟩ := h.fetching_update .waiting ht
    exact ⟨fun hm => hr (List.mem_of_mem_erase hm), hp⟩

/-- An event is put into the event queue; the reader is woken if it waits for
one. -/
theorem notify (h : Inv g m s lr lw) {event : List UInt8} {tm : ℕ} {r : Option Ret}
    (he : rxNotifyEvent s.k m event tm = .ok (r, k')) : ∃ lr', Inv g m { s with k := k' } lr' lw := by
  rcases rxWriteToQueue_split he with ⟨-, x, -, hc⟩ | ⟨hf, -, -, hsize, -⟩ | ⟨-, hk, -⟩
  · obtain ⟨lr', hw, -, -, hnone, hwr, hev⟩ := h.waiting.wrote
      (fun t ht => ⟨(h.reader_notMem ht).1, fun _ => (h.reader_notMem ht).2⟩) hc
    have hcyc : (k'.queues m).cyclic = (s.k.queues m).pushed.cyclic :=
      congrArg (·.cyclic) (writeCopy_enter hc).2.ring
    refine ⟨lr', hw.congr_heads fun _ => ?_, h.asleep, h.alone, fun t ht => ?_, ?_, hwr.trans h.writer,
      hev.sysWaitList.trans h.quiet⟩
    · rw [hev.events]
    · rw [hnone] at ht
      cases ht
    · rw [hcyc, MsgQueue.cyclic_pushed]
      exact h.cyclic
  · -- a cyclic queue is never too full for a write
    simp [writeFits, hsize, h.cyclic] at hf
  · obtain rfl : k' = s.k := hk.elim id fun hk => hk.trans (enter_exit h.waiting.port)
    exact ⟨lr, h⟩

/-- An event is taken out of the event queue. -/
theorem took (h : Inv g m s lr lw) {r : Ret} (he : readCopy s.k.enterCritical m = .ok (r, k')) :
    Inv g m { s.setPhase .out with k := k' } lr lw := by
  obtain ⟨hw, -, hr, hwr, hev⟩ := h.waiting.took_of_none h.writer he
  have hcyc : (k'.queues m).cyclic = (s.k.queues m).popped.cyclic :=
    congrArg (·.cyclic) (readCopy_enter he).2.ring
  refine ⟨hw.congr_heads fun _ => ?_, h.asleep_update (by simp), h.alone, fun t ht => ?_, ?_, hwr,
    hev.sysWaitList.trans h.quiet⟩
  · rw [hev.events]
  · rw [hr] at ht
    exact h.fetching_update .out ht
  · rw [hcyc, MsgQueue.cyclic_popped]
    exact h.cyclic

/-- The reader finds the event queue empty and waits. -/
theorem fetchBlocks (h : Inv g m s lr lw) {timeout : ℤ} {tm : ℕ}
    (he : blockReader s.k.enterCritical m timeout tm = .ok k') :
    Inv g m { s.setPhase .fetching with k := k' } (lr.erase s.k.curr) lw := by
  obtain ⟨hw, -, hr, hwr, hev⟩ := h.waiting.blockReader he
  have hcyc : (k'.queues m).cyclic = (s.k.queues m).cyclic := congrArg (·.cyclic) (SameRing.blockReader he).ring
  refine ⟨hw.congr_heads fun _ => ?_, h.asleep_update (by simp), h.alone, fun t ht => ?_, hcyc.trans h.cyclic,
    hwr.trans h.writer, hev.sysWaitList.trans h.quiet⟩
  · rw [hev.events]
  · rw [hr] at ht
    obtain rfl := Option.some.inj ht
    exact ⟨h.waiting.lists.ready.nodup.not_mem_erase, Function.update_self ..⟩

theorem fetch (h : Inv g m s lr lw) {size : ℤ} {tm : ℕ} {r : Option Ret}
    (he : rxEventThreadRead s.k m size tm = .ok (r, k')) :
    ∃ lr', Inv g m { s.setPhase (if r = none then .fetching else .out) with k := k' } lr' lw := by
  rcases rxReadFromQueue_split he with ⟨-, x, rfl, hc⟩ | ⟨-, rfl, -, hb⟩ | ⟨-, hk, hr⟩
  · exact ⟨lr, h.took hc⟩
  · exact ⟨_, h.fetchBlocks hb⟩
  · refine ⟨lr, h.returned ?_ hk⟩
    split_ifs <;> simp

theorem refetch (h : Inv g m s lr lw) {r : Ret} (he : rxReadFromQueueResume s.k m false = .ok (r, k')) :
    Inv g m { s.setPhase .out with k := k' } lr lw := by
  rcases rxReadFromQueueResume_split he with ⟨-, hc⟩ | ⟨-, hk, -⟩
  · exact h.took hc
  · exact h.returned (by simp) (.inr hk)

theorem dispatch (h : Inv g m s lr lw) {t : Fin n} (ht : (s.k.tcb t).state.runnable = true) (p : Bool) :
    Inv g m { s with k := s.k.dispatch t p } lr lw := by
  have hq := (OffQueue.dispatch s.k t p).queues
  have hev : (s.k.dispatch t p).events = s.k.events := by rw [Kernel.dispatch_rest]
  have hs : (s.k.dispatch t p).sysWaitList = s.k.sysWaitList := by rw [Kernel.dispatch_rest]
  refine ⟨(h.waiting.dispatch ht p).congr_heads fun _ => by rw [hev], h.asleep, h.alone, ?_, ?_, ?_, hs.trans h.quiet⟩
  · rw [hq]; exact h.fetching
  · rw [hq]; exact h.cyclic
  · rw [hq]; exact h.writer

/-- The task that waits is the only one. -/
theorem eq_singleton (h : Inv g m s lr lw) {t : Fin n} (ht : t ∈ lw) : lw = [t] := by
  obtain ⟨u, rfl⟩ := List.length_eq_one_iff.mp (le_antisymm h.alone (List.length_pos_of_mem ht))
  rw [List.mem_singleton.mp ht]

/-- Nobody is woken in a kernel that is as it was. -/
theorem wake_self (h : Inv g m s lr lw) : s.wake s.k = s := by
  have hphase : (s.wake s.k).phase = s.phase := by
    funext t
    by_cases hp : s.phase t = .waiting
    · apply wake_of_not_ready
      intro hst
      refine h.waiting.lists.notReady () t ((h.asleep t).mp hp) ((h.waiting.ready t).mpr ?_)
      rw [hst]
      rfl
    · exact wake_of_ne hp
  show ({ k := s.k, phase := (s.wake s.k).phase } : EventSys n) = s
  rw [hphase]

/-- An event is processed; it wakes the waiting task if it is for it. -/
theorem process (h : Inv g m s lr lw) {fuel : ℕ} {flag : Word} {r : OsErr}
    (he : rxProcessEvent fuel s.k (some g) flag = .ok (r, k')) : ∃ lr' lw', Inv g m (s.wake k') lr' lw' := by
  by_cases hf : ∀ t ∈ lw, (s.k.tcb t).eventFlag &&& flag = 0#32
  · have hidle := rxProcessEvent_idle fuel h.waiting h.quiet h.alone hf
    obtain ⟨-, rfl⟩ := Prod.mk.inj (Except.ok.inj (he.symm.trans hidle))
    exact ⟨lr, lw, h.wake_self.symm ▸ h⟩
  · obtain ⟨t, ht, hflag⟩ : ∃ t ∈ lw, (s.k.tcb t).eventFlag &&& flag ≠ 0#32 := by simpa using hf
    obtain rfl := h.eq_singleton ht
    obtain ⟨k1, lr', hk, hw, hm, hst, hq, hs⟩ := rxProcessEvent_wakes fuel h.waiting h.quiet hflag
    obtain ⟨-, rfl⟩ := Prod.mk.inj (Except.ok.inj (he.symm.trans hk))
    refine ⟨lr', [], hw, fun u => iff_of_false (fun hu => ?_) (by simp), by simp, fun u hu => ?_,
      by rw [wake, hq]; exact h.cyclic, by rw [wake, hq]; exact h.writer, hs.trans h.quiet⟩
    · -- the one task that waited is ready now
      have hwait : s.phase u = .waiting := by
        by_contra hne
        rw [wake_of_ne hne] at hu
        exact hne hu
      have hut : u = t := List.mem_singleton.mp ((h.asleep u).mp hwait)
      have hready : (k'.tcb u).state = .ready := by rw [hst, if_pos hut]
      rw [wake_of_ready hwait hready] at hu
      cases hu
    · rw [wake, hq] at hu
      obtain ⟨hr, hl⟩ := h.reader_notMem hu
      have hp := (h.fetching u hu).2
      refine ⟨fun hmem => ?_, ?_⟩
      · rcases (hm u).mp hmem with rfl | hmem
        · exact hl List.mem_cons_self
        · exact hr hmem
      · rw [wake_of_ne (by rw [hp]; simp)]
        exact hp

/-- In a state that meets the invariant every waiting task can be woken. -/
theorem canBeWoken (h : Inv g m s lr lw) : CanBeWoken g s := by
  intro t ht
  have hmem := (h.asleep t).mp ht
  refine ⟨⟨lw, h.waiting.lists.wait (), hmem⟩, fun fuel flag hflag => ?_⟩
  obtain rfl := h.eq_singleton hmem
  obtain ⟨k1, lr', hk, -, -, hst, -, -⟩ := rxProcessEvent_wakes fuel h.waiting h.quiet hflag
  exact ⟨k1, hk, by rw [hst, if_pos rfl]⟩

end Inv

/-- Every step in which a task begins to wait alone keeps the invariant. -/
theorem step_inv {c : EventCall n × Option Word} (h : ∃ lr lw, Inv g m s lr lw) (hc : WaitsAlone g s c)
    (hst : Step g m s c s') : ∃ lr lw, Inv g m s' lr lw := by
  obtain ⟨lr, lw, h⟩ := h
  obtain ⟨c, r⟩ := c
  obtain ⟨ha, he⟩ := hst
  cases c with
  | wait flag =>
    obtain ⟨k', h1, h2⟩ := bind_eq_ok.mp he
    obtain ⟨-, rfl⟩ := Prod.mk.inj (Except.ok.inj h2)
    have hchain : Chain s.k.next (s.k.events g).task lw := h.waiting.lists.wait ()
    obtain rfl : lw = [] := by
      rw [show (s.k.events g).task = none from hc] at hchain
      exact Chain.unique hchain rfl
    exact ⟨_, _, h.wait h1⟩
  | ret =>
    obtain ⟨-, rfl⟩ := Prod.mk.inj (Except.ok.inj he)
    exact ⟨lr, lw, h.returned (by simp) (.inl rfl)⟩
  | notify event tm =>
    obtain ⟨⟨r', k'⟩, h1, h2⟩ := bind_eq_ok.mp he
    obtain ⟨-, rfl⟩ := Prod.mk.inj (Except.ok.inj h2)
    obtain ⟨lr', h'⟩ := h.notify h1
    exact ⟨lr', lw, h'⟩
  | fetch size tm =>
    obtain ⟨⟨r', k'⟩, h1, h2⟩ := bind_eq_ok.mp he
    obtain ⟨-, rfl⟩ := Prod.mk.inj (Except.ok.inj h2)
    obtain ⟨lr', h'⟩ := h.fetch h1
    exact ⟨lr', lw, h'⟩
  | refetch =>
    obtain ⟨⟨r', k'⟩, h1, h2⟩ := bind_eq_ok.mp he
    obtain ⟨-, rfl⟩ := Prod.mk.inj (Except.ok.inj h2)
    exact ⟨lr, lw, h.refetch h1⟩
  | process fuel flag =>
    obtain ⟨⟨r', k'⟩, h1, h2⟩ := bind_eq_ok.mp he
    obtain ⟨-, rfl⟩ := Prod.mk.inj (Except.ok.inj h2)
    exact h.process h1
  | dispatch t p =>
    obtain ⟨-, rfl⟩ := Prod.mk.inj (Except.ok.inj he)
    exact ⟨lr, lw, h.dispatch ha p⟩

/-- A task that begins to wait behind another one is on no list. -/
theorem step_lost {c : EventCall n × Option Word} (h : ∃ lr lw, Inv g m s lr lw) (hc : ¬ WaitsAlone g s c)
    (hst : Step g m s c s') : ¬ CanBeWoken g s' := by
  obtain ⟨lr, lw, h⟩ := h
  obtain ⟨c, r⟩ := c
  obtain ⟨ha, he⟩ := hst
  cases c with
  | wait flag =>
    obtain ⟨k', h1, h2⟩ := bind_eq_ok.mp he
    obtain ⟨-, rfl⟩ := Prod.mk.inj (Except.ok.inj h2)
    have hchain : Chain s.k.next (s.k.events g).task lw := h.waiting.lists.wait ()
    have hne : lw ≠ [] := by
      rintro rfl
      exact hc hchain
    obtain ⟨hw, -, -⟩ := rxWaitEventGroup_spec h.waiting h1
    rw [if_neg hne] at hw
    intro hall
    obtain ⟨⟨l, hl, hm⟩, -⟩ := hall s.k.curr (Function.update_self ..)
    have hlw : l = lw := Chain.unique hl (hw.lists.wait ())
    rw [hlw] at hm
    exact h.curr_notMem hm
  | ret => exact absurd trivial hc
  | notify event tm => exact absurd trivial hc
  | fetch size tm => exact absurd trivial hc
  | refetch => exact absurd trivial hc
  | process fuel flag => exact absurd trivial hc
  | dispatch t p => exact absurd trivial hc

/-- **Waiting for events.** In every state of a run each task that has begun
to wait and has not been woken since is on the group's chain, and an event it
waits for makes it ready, if and only if every task begins to wait while no
other one does. -/
theorem canBeWoken_iff_waitsAlone (hi : Init g m s) {tr : List ((EventCall n × Option Word) × EventSys n)}
    (h : Run.Exec (Step g m) s tr) :
    (∀ x ∈ Run.states s tr, CanBeWoken g x) ↔ Run.Guarded (WaitsAlone g) s tr := by
  obtain ⟨lr, hinv⟩ := hi.inv
  exact (h.guarded_iff (fun s => ∃ lr lw, Inv g m s lr lw) (fun _ ⟨_, _, hx⟩ => hx.canBeWoken)
    (fun _ _ _ => step_inv) (fun _ _ _ hx hc hst => step_lost hx hc hst) ⟨lr, [], hinv⟩).symm

end Inv

/-- Three ready tasks, a new group and the event queue with two-byte events;
task 0, the event thread, runs. -/
def threeTasks : EventSys 3 where
  k := (rxCreateEventGroup (rxCreateQueue (Kernel.allReady 2) 0 2 4 100 (rxQBlock ||| rxQCyclicFull)).2 0).2
  phase := fun _ => .out

theorem threeTasks_init : Init 0 0 threeTasks where
  group := rfl
  cyclic := by decide
  writer := rfl
  reader := rfl
  quiet := rfl
  ready := ⟨[0, 1, 2], by decide, by decide⟩
  curr := rfl
  port := rfl
  phase := rfl

/-- The event thread waits for an event and task 1 for bit 1 of the group;
task 2 notifies it. Once task 1 has returned, task 2 waits. -/
theorem canBeWoken_oneByOne : Init 0 0 threeTasks ∧ ∃ tr, Run.Exec (Step 0 0) threeTasks tr ∧ tr.length = 11 ∧
    ∀ x ∈ Run.states threeTasks tr, CanBeWoken 0 x := by
  refine ⟨threeTasks_init, ?_⟩
  obtain ⟨tr, hex, hp⟩ := Run.exists_exec (f := Run.attempt Admissible (exec 0 0)) (fun _ _ _ => Run.step_of_attempt)
    (s := threeTasks)
    [(.fetch 2 0, none), (.wait 2#32, none), (.notify [0, 2] 0, none), (.dispatch 0 true, none), (.refetch, none),
      (.process 1 4#32, none), (.process 1 2#32, none), (.dispatch 1 true, none), (.ret, some 2#32),
      (.dispatch 2 true, none), (.wait 1#32, none)]
    (fun tr => decide (tr.length = 11 ∧ Run.Guarded (WaitsAlone 0) threeTasks tr)) (by decide +kernel)
  obtain ⟨hlen, hg⟩ := of_decide_eq_true hp
  exact ⟨tr, hex, hlen, (canBeWoken_iff_waitsAlone threeTasks_init hex).mpr hg⟩

/-- Tasks 1 and 2 wait for bit 1. Task 2 is on no chain, and the event wakes
task 1 only. -/
theorem second_waiter_lost : Init 0 0 threeTasks ∧ ∃ tr, Run.Exec (Step 0 0) threeTasks tr ∧
    (Run.final threeTasks tr).phase 2 = .waiting ∧ ((Run.final threeTasks tr).k.tcb 2).eventFlag = 2#32 ∧
    ((Run.final threeTasks tr).k.tcb 2).state = .suspend ∧ ((Run.final threeTasks tr).k.events 0).task = none ∧
    ¬ CanBeWoken 0 (Run.final threeTasks tr) := by
  refine ⟨threeTasks_init, ?_⟩
  obtain ⟨tr, hex, hp⟩ := Run.exists_exec (f := Run.attempt Admissible (exec 0 0)) (fun _ _ _ => Run.step_of_attempt)
    (s := threeTasks)
    [(.dispatch 1 true, none), (.wait 2#32, none), (.dispatch 2 true, none), (.wait 2#32, none),
      (.process 0 2#32, none)]
    (fun tr => decide ((Run.final threeTasks tr).phase 2 = .waiting ∧
      ((Run.final threeTasks tr).k.tcb 2).eventFlag = 2#32 ∧
      ((Run.final threeTasks tr).k.tcb 2).state = .suspend ∧ ((Run.final threeTasks tr).k.events 0).task = none))
    (by decide +kernel)
  obtain ⟨hphase, hflag, hst, htask⟩ := of_decide_eq_true hp
  refine ⟨tr, hex, hphase, hflag, hst, htask, fun hall => ?_⟩
  obtain ⟨⟨l, hl, hm⟩, -⟩ := hall 2 hphase
  rw [htask] at hl
  obtain rfl : l = [] := Chain.unique hl rfl
  cases hm

end EventSys

end Rosx
