/-
# Waking for an event

`rx_process_event` (`kernel/rx_event.c`) is to wake, of the tasks that wait on an
event group's chain, those whose `event_flag` has a bit of the notified flag.
It clears the link of a task that it wakes before it takes the task off the
chain, so the chain ends there: of several tasks the first one that the event
is for is woken, and those behind it are on no list any more.

It is right if and only if no task on the chain but the last is one that the event
is for, and the `__rx_wake` that it begins with returns
(`rxProcessEvent_done_iff`).

Key definitions: `EventPlace`, `GroupLists`, `ProcessDone`.
-/
import Rosx.WakeQueues
import Rosx.Event

namespace Rosx

open Linked

variable {n : ℕ}

/-- Where a task waits for an event, or to be woken. -/
inductive EventPlace where
  | group (g : ℕ)
  | queue (q : ℕ)
  deriving DecidableEq, Repr

/-- The system list is well formed, and the chain of event group `g` is `lw (.group g)`. -/
structure GroupLists (k : Kernel n) (lr : List (Fin n)) (l : List ℕ) (lw : EventPlace → List (Fin n)) : Prop where
  sys : SysLists EventPlace.queue k lr l lw
  task : ∀ g, (k.events g).task = (lw (.group g)).head?

/-- The event is for the task. -/
def matchesEvent (k : Kernel n) (flag : Word) (t : Fin n) : Bool := (k.tcb t).eventFlag &&& flag != 0#32

/-- What `rx_process_event` is for: of the tasks that wait on no wait queue,
exactly those on the group's chain that the event is for are made ready and
put on the ready queue, with the flag in `event_recv`; the others stay on the
chain, in their order. -/
structure ProcessDone (k k' : Kernel n) (lr : List (Fin n)) (lw : EventPlace → List (Fin n)) (g : ℕ) (flag : Word) :
    Prop where
  woken : ∀ t ∈ (lw (.group g)).filter (matchesEvent k flag), (k'.tcb t).state = .ready ∧ (k'.tcb t).eventRecv = flag
  others : ∀ t, t ∉ (lw (.group g)).filter (matchesEvent k flag) → (∀ q, t ∉ lw (.queue q)) →
    (k'.tcb t).state = (k.tcb t).state ∧ (k'.tcb t).eventRecv = (k.tcb t).eventRecv
  lists : ∃ lr' l' lw', GroupLists k' lr' l' lw' ∧
    lw' (.group g) = (lw (.group g)).filter (fun t => !matchesEvent k flag t) ∧
    ∀ t, (∀ q, t ∉ lw (.queue q)) → (t ∈ lr' ↔ t ∈ (lw (.group g)).filter (matchesEvent k flag) ∨ t ∈ lr)

/-! ### The loop -/

section Loop

variable {k k' : Kernel n} {lr : List (Fin n)} {l : List ℕ} {lw : EventPlace → List (Fin n)} {g : ℕ} {flag : Word}
  {a b : List (Fin n)} {t : Fin n}

/-- The fields of a task that is woken, but for the link. -/
def eventTcb (flag : Word) (c : Tcb n) : Tcb n := { c with eventRecv := flag, state := .ready, event := none }

/-- Only the chain of group `g` changes, and tasks get onto the ready queue. -/
theorem GroupLists.of_lists (h : GroupLists k lr l lw) {lr' : List (Fin n)} {c : List (Fin n)}
    (hl : Lists k' k' lr' (fun i => (Function.update lw (.group g) c i).head?) (Function.update lw (.group g) c))
    (hq : k'.waitQueues = k.waitQueues) (hs : k'.sysWaitList = k.sysWaitList)
    (hev : k'.events = Function.update k.events g { k.events g with task := c.head? }) :
    GroupLists k' lr' l (Function.update lw (.group g) c) := by
  refine ⟨⟨⟨hl, fun q => ?_⟩, ?_, fun q hql => ?_⟩, fun x => ?_⟩
  · rw [hq, Function.update_of_ne (by simp)]
    exact h.sys.waits.task q
  · have hnext : k'.queueNext = k.queueNext := funext fun q => by simp only [Kernel.queueNext, hq]
    have hprev : k'.queuePrev = k.queuePrev := funext fun q => by simp only [Kernel.queuePrev, hq]
    rw [hnext, hprev, hs]
    exact h.sys.links
  · obtain ⟨hqt, hqp⟩ := h.sys.off q hql
    refine ⟨by rw [Function.update_of_ne (by simp)]; exact hqt, ?_⟩
    simp only [Kernel.queuePrev, hq]
    exact hqp
  · rw [hev]
    by_cases hx : x = g
    · subst hx
      simp
    · rw [Function.update_of_ne hx, Function.update_of_ne (by simpa using hx)]
      exact h.task x

/-- The task `t` of the chain is made ready and the chain ends before it. -/
theorem Lists.cutEvent (h : Lists k k lr (fun i => (lw i).head?) lw) (hl : lw (.group g) = a ++ t :: b)
    (hk : Relinked (k.modTcb t (eventTcb flag)) k') (hport : k'.port = k.port) (hhead : k'.readyHead = k.readyHead)
    (hchain : Chain k'.next a.head? a) (hframe : ∀ u, u ∉ lw (.group g) → k'.next u = k.next u) :
    ∃ k2, rxAddToReadyQ k' t = .ok (.osOk, k2) ∧
      Lists k2 k2 (insertReady (fun u => (k.tcb u).prio) (k.tcb t).prio t lr)
        (fun i => (Function.update lw (.group g) a i).head?) (Function.update lw (.group g) a) ∧
      Relinked (k.modTcb t (eventTcb flag)) k2 := by
  have hsub : ∀ u ∈ a, u ∈ lw (.group g) := fun u hu => by
    rw [hl]
    exact List.mem_append_left _ hu
  have htl : t ∈ lw (.group g) := by simp [hl]
  have hnd := (h.wait (.group g)).nodup
  rw [hl] at hnd
  have h1 := h.modTcb t (f := eventTcb flag) fun _ _ => rfl
  have h2 := h1.rewait (.group g) (v := a.head?) (l := a) hk hport hhead hchain (fun u hu _ => ?_)
    (fun u hu => h.notReady _ u (hsub u hu)) fun j hj u hu huj => hj (h.apart j _ u huj (hsub u hu))
  · have htw : ∀ i, t ∉ Function.update lw (.group g) a i := by
      intro i
      by_cases hi : i = .group g
      · subst hi
        rw [Function.update_self]
        exact (notMem_of_nodup_append hnd).1
      · rw [Function.update_of_ne hi]
        exact fun hti => hi (h.apart i _ t hti htl)
    have hrun : ((k.modTcb t (eventTcb flag)).tcb t).state.runnable = true := by simp [eventTcb, TaskState.runnable]
    obtain ⟨k2, hadd, h3⟩ := h2.addReady (h.notReady _ t htl) htw hrun
    have hprio : (fun u => ((k.modTcb t (eventTcb flag)).tcb u).prio) = fun u => (k.tcb u).prio :=
      funext fun u => k.modTcb_keeps t u Tcb.prio fun _ => rfl
    rw [hprio, show ((k.modTcb t (eventTcb flag)).tcb t).prio = (k.tcb t).prio from congrFun hprio t] at h3
    refine ⟨k2, hadd, ?_, h3.data⟩
    rw [head_update]
    exact h3.self
  · rw [hframe u hu]
    exact (congrFun (LinkFree.next_modTcb (f := eventTcb flag) (fun _ _ => rfl) k t) u).symm

/-- The link of the task is cleared along with the rest. -/
theorem eventTcb_setNext (k : Kernel n) (t : Fin n) (flag : Word) :
    k.modTcb t (fun c => { c with eventRecv := flag, state := .ready, event := none, next := none }) =
      (k.modTcb t (eventTcb flag)).setNext t none := by
  simp [Kernel.modTcb, Kernel.setNext, Kernel.setTcb, eventTcb]

/-- The tasks `b`, which the event is not for, are passed. -/
theorem processLoop_pass : ∀ {b a rest : List (Fin n)} {o h : Option (Fin n)} (f : ℕ),
    Chain k.next h (a ++ b ++ rest) → (∀ t ∈ b, matchesEvent k flag t = false) →
    (∀ p, a.getLast? = some p → o = some p) →
    ∃ prev', processLoop g flag (b.length + f) k o (b ++ rest).head? = processLoop g flag f k prev' rest.head? ∧
      ∀ p, (a ++ b).getLast? = some p → prev' = some p
  | [], a, rest, prev, h, f, _, _, hprev => ⟨prev, by simp, by simpa using hprev⟩
  | t :: b, a, rest, prev, h, f, hchain, hb, hprev => by
    have hnx : k.next t = (b ++ rest).head? := by
      have hc : Chain k.next h (a ++ t :: (b ++ rest)) := by simpa using hchain
      exact hc.next_eq
    have hflag : ¬ ((k.tcb t).eventFlag &&& flag ≠ 0#32) := by
      have ht : matchesEvent k flag t = false := hb t List.mem_cons_self
      simpa [matchesEvent] using ht
    obtain ⟨prev', hrun, hlast⟩ := processLoop_pass (a := a ++ [t]) (o := some t) f (by simpa using hchain)
      (fun u hu => hb u (List.mem_cons_of_mem _ hu)) (by simp)
    refine ⟨prev', ?_, by simpa using hlast⟩
    rw [List.length_cons, Nat.add_right_comm, List.cons_append, List.head?_cons, processLoop, if_neg hflag, hnx]
    exact hrun

/-- The links once that of the woken task is cleared. -/
theorem next_unlinked (k : Kernel n) (t : Fin n) (flag : Word) :
    ((k.modTcb t (eventTcb flag)).setNext t none).next = Function.update k.next t none := by
  rw [Kernel.next_setNext, LinkFree.next_modTcb (f := eventTcb flag) fun _ _ => rfl]

/-- The event is for the first task of the chain: nobody is left on it. -/
theorem GroupLists.wakeHead (h : GroupLists k lr l lw) (hl : lw (.group g) = t :: b)
    (ht : matchesEvent k flag t = true) (prev : Option (Fin n)) (f : ℕ) :
    ∃ k', processLoop g flag (f + 1) k prev (some t) = .ok k' ∧
      GroupLists k' (insertReady (fun u => (k.tcb u).prio) (k.tcb t).prio t lr) l (Function.update lw (.group g) []) ∧
      ∀ u, k'.tcb u = { (k.modTcb t (eventTcb flag)).tcb u with next := k'.next u } := by
  have hflag : (k.tcb t).eventFlag &&& flag ≠ 0#32 := by simpa [matchesEvent] using ht
  have htask : (k.events g).task = some t := (h.task g).trans (by rw [hl]; rfl)
  set k1 := (k.modTcb t (eventTcb flag)).setNext t none with hk1
  have hnx1 : k1.next = Function.update k.next t none := next_unlinked k t flag
  have hself : k1.next t = none := by rw [hnx1, Function.update_self]
  have h0 := (h.sys.waits.lists.setEvent g { k.events g with task := none }).self
  have hrel : Relinked ((k.setEvent g { k.events g with task := none }).modTcb t (eventTcb flag))
      (k1.setEvent g { k1.events g with task := none }) := Relinked.setNext _ t none
  obtain ⟨k2, hadd, h2, hrel2⟩ := h0.cutEvent (a := []) hl hrel rfl rfl rfl fun u hu => by
    have hut : u ≠ t := fun he => hu (by simp [hl, he])
    show k1.next u = _
    rw [hnx1, Function.update_of_ne hut]
    rfl
  have hev : k2.events = Function.update k.events g { k.events g with task := none } := hrel2.events
  have hnone : (k2.events g).task = none := by rw [hev, Function.update_self]
  refine ⟨k2, ?_, h.of_lists h2 hrel2.waitQueues hrel2.sysWaitList hev, hrel2.tcb⟩
  rw [processLoop, if_pos hflag]
  dsimp only
  rw [eventTcb_setNext, ← hk1, hself, if_pos (show (k1.events g).task = some t from htask), hadd]
  refine bind_eq_ok.mpr ⟨_, rfl, ?_⟩
  dsimp only
  rw [hnone]

/-- The event is for a task behind `p`: the chain ends at `p`. -/
theorem GroupLists.wakeBehind {p : Fin n} (h : GroupLists k lr l lw) (hl : lw (.group g) = a ++ [p] ++ t :: b)
    (ht : matchesEvent k flag t = true) (f : ℕ) :
    ∃ k', processLoop g flag (f + 1) k (some p) (some t) = .ok k' ∧
      GroupLists k' (insertReady (fun u => (k.tcb u).prio) (k.tcb t).prio t lr) l
        (Function.update lw (.group g) (a ++ [p])) ∧
      ∀ u, k'.tcb u = { (k.modTcb t (eventTcb flag)).tcb u with next := k'.next u } := by
  have hlists := h.sys.waits.lists
  have hflag : (k.tcb t).eventFlag &&& flag ≠ 0#32 := by simpa [matchesEvent] using ht
  have htask : (k.events g).task = (a ++ [p] ++ t :: b).head? := hl ▸ h.task g
  have hchain := hlists.wait (.group g)
  have hnd := hchain.nodup
  rw [hl] at hchain hnd
  obtain ⟨htap, -⟩ := notMem_of_nodup_append hnd
  have hhead : (a ++ [p]).head? = (a ++ [p] ++ t :: b).head? := by cases a <;> rfl
  have hne : (k.events g).task ≠ some t := by
    rw [htask, ← hhead]
    exact fun hh => htap (List.mem_of_head? hh)
  set k1 := (k.modTcb t (eventTcb flag)).setNext t none with hk1
  have hnx1 : k1.next = Function.update k.next t none := next_unlinked k t flag
  have hself : k1.next t = none := by rw [hnx1, Function.update_self]
  have hcut : Chain (k1.setNext p none).next (a ++ [p]).head? (a ++ [p]) := by
    have hc : Chain (Function.update k.next p none) (a ++ [p] ++ t :: b).head? (a ++ [p]) := by
      refine Chain.cutAfter (m := t :: b) ?_
      simpa only [List.append_assoc, List.singleton_append] using hchain
    have htp : t ≠ p := fun he => htap (by simp [he])
    rw [Kernel.next_setNext, hnx1, hhead, Function.update_comm htp]
    exact hc.update_of_notMem htap
  have hrel : Relinked (k.modTcb t (eventTcb flag)) (k1.setNext p none) :=
    (Relinked.setNext _ t none).trans (.setNext _ p none)
  obtain ⟨k2, hadd, h2, hrel2⟩ := hlists.cutEvent hl hrel rfl rfl hcut fun u hu => by
    have hut : u ≠ t := fun he => hu (by simp [hl, he])
    have hup : u ≠ p := fun he => hu (by simp [hl, he])
    rw [Kernel.next_setNext, hnx1, Function.update_of_ne hup, Function.update_of_ne hut]
  have hev : k2.events = Function.update k.events g { k.events g with task := (a ++ [p]).head? } := by
    rw [hhead, ← htask]
    exact hrel2.events.trans (Function.update_eq_self g k.events).symm
  have hlast : k2.next p = none := by
    have hc := h2.wait (.group g)
    rw [Function.update_self] at hc
    exact next_of_chain_concat hc
  refine ⟨k2, ?_, h.of_lists h2 hrel2.waitQueues hrel2.sysWaitList hev, hrel2.tcb⟩
  rw [processLoop, if_pos hflag]
  dsimp only
  rw [eventTcb_setNext, ← hk1, hself, if_neg (show (k1.events g).task ≠ some t from hne)]
  show (rxAddToReadyQ (k1.setNext p none) t >>= fun x => processLoop g flag f x.2 (some p) (x.2.next p)) = _
  rw [hadd]
  show processLoop g flag f k2 (some p) (k2.next p) = _
  rw [hlast]
  cases f <;> rfl

/-- The first task that the event is for is woken, and the loop ends. -/
theorem GroupLists.wakeMatch (h : GroupLists k lr l lw) (hl : lw (.group g) = a ++ t :: b)
    (ht : matchesEvent k flag t = true) {prev : Option (Fin n)} (hprev : ∀ p, a.getLast? = some p → prev = some p)
    (f : ℕ) :
    ∃ k', processLoop g flag (f + 1) k prev (some t) = .ok k' ∧
      GroupLists k' (insertReady (fun u => (k.tcb u).prio) (k.tcb t).prio t lr) l (Function.update lw (.group g) a) ∧
      ∀ u, k'.tcb u = { (k.modTcb t (eventTcb flag)).tcb u with next := k'.next u } := by
  rcases List.eq_nil_or_concat' a with rfl | ⟨a, p, rfl⟩
  · exact h.wakeHead hl ht prev f
  · obtain rfl : prev = some p := hprev p (by simp)
    exact h.wakeBehind hl ht f

end Loop

/-! ### The call -/

section Process

variable {k k' : Kernel n} {lr : List (Fin n)} {l : List ℕ} {lw : EventPlace → List (Fin n)} {g : ℕ} {flag : Word}

theorem GroupLists.exit (h : GroupLists k lr l lw) : GroupLists k.exitCritical lr l lw := ⟨h.sys.exit, h.task⟩

/-- What is woken is on the ready queue afterwards, and what is not stays on the chain:
so nothing is behind a task that is woken. -/
theorem GroupLists.last_of_done {lr1 lr' : List (Fin n)} {l1 l' : List ℕ} {lw1 lw' : EventPlace → List (Fin n)}
    {a b : List (Fin n)} {t : Fin n} (h : GroupLists k lr l lw) (hl : lw (.group g) = a ++ t :: b)
    (h1 : GroupLists k' lr1 l1 lw1) (hc1 : lw1 (.group g) = a) (hr1 : ∀ u, u ∈ lr1 ↔ u = t ∨ u ∈ lr)
    (h' : GroupLists k' lr' l' lw') (hc' : lw' (.group g) = (lw (.group g)).filter fun t => !matchesEvent k flag t)
    (hr' : ∀ u ∈ lw (.group g), matchesEvent k flag u = true → u ∈ lr') : b = [] := by
  have hnd := (h.sys.waits.lists.wait (.group g)).nodup
  rw [hl] at hnd
  have hgroup : ∀ {k : Kernel n} {lr : List (Fin n)} {l : List ℕ} {lw : EventPlace → List (Fin n)},
      GroupLists k lr l lw → Chain k.next (k.events g).task (lw (.group g)) := by
    intro k lr l lw h
    rw [h.task]
    exact h.sys.waits.lists.wait (.group g)
  have hchain : a = (lw (.group g)).filter fun t => !matchesEvent k flag t := by
    rw [← hc1, ← hc']
    exact Chain.unique (hgroup h1) (hgroup h')
  have hready : lr1 = lr' := Chain.unique h1.sys.waits.lists.ready h'.sys.waits.lists.ready
  refine List.eq_nil_iff_forall_not_mem.mpr fun u hu => ?_
  have hul : u ∈ lw (.group g) := by simp [hl, hu]
  have hut : u ≠ t := fun he => (notMem_of_nodup_append hnd).2 (he ▸ hu)
  by_cases hm : matchesEvent k flag u = true
  · have hur := hr' u hul hm
    rw [← hready, hr1] at hur
    exact h.sys.waits.lists.notReady _ u hul (hur.resolve_left hut)
  · have hua : u ∈ a := by
      rw [hchain]
      exact List.mem_filter.mpr ⟨hul, by simpa using hm⟩
    exact (List.nodup_append.mp hnd).2.2 u hua u (List.mem_cons_of_mem _ hu) rfl

/-- The event is for nobody. -/
theorem GroupLists.done_of_none (h : GroupLists k lr l lw) (hno : ∀ t ∈ lw (.group g), matchesEvent k flag t = false) :
    ProcessDone k k.exitCritical lr lw g flag := by
  have hwoken : (lw (.group g)).filter (matchesEvent k flag) = [] := by
    rw [List.filter_eq_nil_iff]
    intro t ht
    simp [hno t ht]
  have hkept : (lw (.group g)).filter (fun t => !matchesEvent k flag t) = lw (.group g) := by
    rw [List.filter_eq_self]
    intro t ht
    simp [hno t ht]
  refine ⟨?_, fun t _ _ => ⟨rfl, rfl⟩, lr, l, lw, h.exit, hkept.symm, ?_⟩
  · simp [hwoken]
  · simp [hwoken]

/-- The event is for the last task of the chain only, and this has been woken. -/
theorem GroupLists.done_of_last {a : List (Fin n)} {t : Fin n}
    (h : GroupLists k' (insertReady (fun u => (k.tcb u).prio) (k.tcb t).prio t lr) l (Function.update lw (.group g) a))
    (hl : lw (.group g) = a ++ [t]) (hno : ∀ u ∈ a, matchesEvent k flag u = false) (ht : matchesEvent k flag t = true)
    (htcb : ∀ u, k'.tcb u = { (k.modTcb t (eventTcb flag)).tcb u with next := k'.next u }) :
    ProcessDone k k'.exitCritical lr lw g flag := by
  have hwoken : (lw (.group g)).filter (matchesEvent k flag) = [t] := by
    rw [hl, List.filter_append, List.filter_cons_of_pos ht, List.filter_nil, List.filter_eq_nil_iff.mpr,
      List.nil_append]
    intro u hu
    simp [hno u hu]
  have hkept : (lw (.group g)).filter (fun t => !matchesEvent k flag t) = a := by
    rw [hl, List.filter_append, List.filter_cons_of_neg (by simp [ht]), List.filter_nil, List.append_nil,
      List.filter_eq_self]
    intro u hu
    simp [hno u hu]
  have hdata : ∀ u, (k'.tcb u).state = ((k.modTcb t (eventTcb flag)).tcb u).state ∧
      (k'.tcb u).eventRecv = ((k.modTcb t (eventTcb flag)).tcb u).eventRecv := by
    intro u
    rw [htcb u]
    exact ⟨rfl, rfl⟩
  refine ⟨fun u hu => ?_, fun u hu _ => ?_, _, l, _, h.exit, by rw [Function.update_self, hkept], fun u _ => ?_⟩
  · obtain rfl : u = t := by simpa [hwoken] using hu
    show (k'.tcb u).state = _ ∧ (k'.tcb u).eventRecv = _
    rw [(hdata u).1, (hdata u).2, Kernel.modTcb_self]
    exact ⟨rfl, rfl⟩
  · have hut : u ≠ t := by simpa [hwoken] using hu
    show (k'.tcb u).state = _ ∧ (k'.tcb u).eventRecv = _
    rw [(hdata u).1, (hdata u).2, Kernel.modTcb_of_ne _ hut]
    exact ⟨rfl, rfl⟩
  · rw [mem_insertReady, hwoken, List.mem_singleton]

/-- The loop returns, and does what it is for if and only if no task but the last is
one that the event is for. -/
theorem processLoop_cases (h : GroupLists k lr l lw) (g : ℕ) (flag : Word) :
    ∃ k', processLoop g flag n k (k.events g).task (k.events g).task = .ok k' ∧
      ((∀ t ∈ (lw (.group g)).dropLast, matchesEvent k flag t = false) →
        ProcessDone k k'.exitCritical lr lw g flag) ∧
      ∀ lr' l' lw', GroupLists k'.exitCritical lr' l' lw' →
        lw' (.group g) = (lw (.group g)).filter (fun t => !matchesEvent k flag t) →
        (∀ t ∈ lw (.group g), matchesEvent k flag t = true → t ∈ lr') →
        ∀ t ∈ (lw (.group g)).dropLast, matchesEvent k flag t = false := by
  have hchain := h.sys.waits.lists.wait (.group g)
  have hlen := hchain.length_le_fin
  rw [h.task]
  cases hfind : (lw (.group g)).find? (matchesEvent k flag) with
  | none =>
    -- the event is for nobody
    have hno : ∀ t ∈ lw (.group g), matchesEvent k flag t = false := by
      intro t ht
      simpa using List.find?_eq_none.mp hfind t ht
    have hl : [] ++ lw (.group g) ++ [] = lw (.group g) := by simp
    obtain ⟨f, hf⟩ := Nat.exists_eq_add_of_le hlen
    obtain ⟨prev', hrun, -⟩ :=
      processLoop_pass (g := g) (o := (lw (.group g)).head?) f (hl.symm ▸ hchain) hno (by simp)
    have hnil : processLoop g flag f k prev' none = .ok k := by cases f <;> rfl
    rw [List.append_nil, List.head?_nil, hnil, ← hf] at hrun
    refine ⟨k, hrun, fun _ => h.done_of_none hno, fun _ _ _ _ _ _ t ht => ?_⟩
    exact hno t (List.mem_of_mem_dropLast ht)
  | some t =>
    obtain ⟨ht, a, b, hl, hpre⟩ := List.find?_eq_some_iff_append.mp hfind
    have hno : ∀ u ∈ a, matchesEvent k flag u = false := fun u hu => by simpa using hpre u hu
    obtain ⟨f, hf⟩ : ∃ f, n = a.length + (f + 1) := by
      refine ⟨n - a.length - 1, ?_⟩
      simp only [hl, List.length_append, List.length_cons] at hlen
      omega
    have hl0 : [] ++ a ++ t :: b = lw (.group g) := by simp [hl]
    obtain ⟨prev', hrun, hprev⟩ :=
      processLoop_pass (g := g) (o := (lw (.group g)).head?) (f + 1) (hl0.symm ▸ hchain) hno (by simp)
    obtain ⟨k1, hmatch, h1, htcb⟩ := h.wakeMatch hl ht (by simpa using hprev) f
    rw [← hl, List.head?_cons, hmatch, ← hf] at hrun
    refine ⟨k1, hrun, fun hlast => ?_, fun lr' l' lw' h' hc' hr' u hu => ?_⟩
    · obtain rfl : b = [] := by
        by_contra hb
        have hm := hlast t (by rw [hl, List.dropLast_append_of_ne_nil (by simp), List.dropLast_cons_of_ne_nil hb]; simp)
        rw [ht] at hm
        cases hm
      exact h1.done_of_last hl hno ht htcb
    · obtain rfl := h.last_of_done hl h1.exit (Function.update_self ..) (fun u => mem_insertReady) h' hc' hr'
      rw [hl, List.dropLast_concat] at hu
      exact hno u hu

/-- The `__rx_wake` at the beginning leaves the event groups alone. -/
theorem GroupLists.wake_cases (h : GroupLists k lr l lw) {f : ℕ} (hf : l.length ≤ f) :
    (WakeReturns EventPlace.queue k l lw ∧ ∃ k1 lr1 l1 lw1, rxWake f k.enterCritical = .ok k1 ∧
      GroupLists k1 lr1 l1 lw1 ∧ (∀ g, lw1 (.group g) = lw (.group g)) ∧
      (∀ t, (k1.tcb t).eventFlag = (k.tcb t).eventFlag ∧ (k1.tcb t).eventRecv = (k.tcb t).eventRecv) ∧
      ∀ t, (∀ q, t ∉ lw (.queue q)) →
        (k1.tcb t).state = (k.tcb t).state ∧ (t ∈ lr1 ↔ t ∈ lr) ∧ ∀ q, t ∉ lw1 (.queue q)) ∨
    (¬ WakeReturns EventPlace.queue k l lw ∧ rxWake f k.enterCritical = .error .null) := by
  have hpl : Function.Injective EventPlace.queue := fun _ _ => EventPlace.queue.inj
  rcases h.sys.enter.wake_cases hpl (P := fun t => decide (Wakeable k t)) (fun t => decide_eq_true_iff) hf with
    ⟨hret, k1, l1, c, he, h1, hw⟩ | ⟨hret, he⟩
  · have hgroup : ∀ g, keptAt EventPlace.queue (fun t => decide (Wakeable k t)) c lw (.group g) = lw (.group g) :=
      fun g => if_neg (by simp)
    refine Or.inl ⟨hret, k1, _, l1, _, he, ⟨h1, fun g => ?_⟩, hgroup, fun t => ?_, fun t ht => ?_⟩
    · rw [hgroup, hw.events]
      exact h.task g
    · rw [hw.tcb]
      exact ⟨rfl, rfl⟩
    · have hnw : t ∉ wokenOn EventPlace.queue (fun t => decide (Wakeable k t)) c lw := by
        intro hm
        obtain ⟨⟨q, -, hq⟩, -⟩ := mem_wokenOn.mp hm
        exact ht q hq
      refine ⟨?_, ?_, fun q hq => ?_⟩
      · exact (hw.state t).trans (if_neg (by simpa using hnw))
      · rw [mem_readyAll]
        exact or_iff_right hnw
      · by_cases hqc : q ∈ c
        · rw [keptAt_of_mem EventPlace.queue hqc] at hq
          exact ht q (List.mem_of_mem_filter hq)
        · rw [keptAt_of_notMem hpl hqc] at hq
          exact ht q hq
  · exact Or.inr ⟨hret, he⟩

/-- **`rx_process_event`.** It does what it is for if and only if no task on the group's
chain but the last is one that the event is for, and the `__rx_wake` that it begins
with returns. -/
theorem rxProcessEvent_done_iff (h : GroupLists k lr l lw) {f : ℕ} (hf : l.length ≤ f) :
    (∃ k', rxProcessEvent f k (some g) flag = .ok (.osOk, k') ∧ ProcessDone k k' lr lw g flag) ↔
      WakeReturns EventPlace.queue k l lw ∧ ∀ t ∈ (lw (.group g)).dropLast, matchesEvent k flag t = false := by
  have hcall : ∀ {k1 : Kernel n}, rxWake f k.enterCritical = .ok k1 → rxProcessEvent f k (some g) flag =
      (processLoop g flag n k1 (k1.events g).task (k1.events g).task).map fun k => (.osOk, k.exitCritical) := by
    intro k1 he
    unfold rxProcessEvent
    rw [he]
    show (processLoop g flag n k1 (k1.events g).task (k1.events g).task >>= fun k =>
      pure (OsErr.osOk, k.exitCritical)) = _
    cases processLoop g flag n k1 (k1.events g).task (k1.events g).task <;> rfl
  rcases h.wake_cases hf with ⟨hret, k1, lr1, l1, lw1, he, h1, hgroup, hevent, hother⟩ | ⟨hret, he⟩
  · obtain ⟨k2, hloop, hdone, hlast⟩ := processLoop_cases h1 g flag
    have hmatch : ∀ t, matchesEvent k1 flag t = matchesEvent k flag t := by
      intro t
      rw [matchesEvent, (hevent t).1]
      rfl
    have hfun : matchesEvent k1 flag = matchesEvent k flag := funext hmatch
    rw [hcall he, hloop, and_iff_right hret]
    rw [hgroup, hfun] at hdone hlast
    -- a task on the chain is on no wait queue
    have haway : ∀ t ∈ lw (.group g), ∀ q, t ∉ lw (.queue q) := by
      intro t ht q hq
      have := h.sys.waits.lists.apart _ _ t ht hq
      simp at this
    constructor
    · rintro ⟨k', hk', hp⟩
      obtain ⟨-, rfl⟩ := Prod.mk.inj (Except.ok.inj hk')
      obtain ⟨lr', l', lw', h', hc', hr'⟩ := hp.lists
      refine hlast lr' l' lw' h' hc' fun t ht hm => ?_
      exact (hr' t (haway t ht)).mpr (Or.inl (List.mem_filter.mpr ⟨ht, hm⟩))
    · intro hall
      have hp := hdone hall
      obtain ⟨lr', l', lw', h', hc', hr'⟩ := hp.lists
      rw [hgroup, hfun] at hc' hr'
      refine ⟨_, rfl, fun t ht => ?_, fun t ht htq => ?_, lr', l', lw', h', hc', fun t htq => ?_⟩
      · exact hp.woken t (by rwa [hgroup, hfun])
      · obtain ⟨hst, -, hq⟩ := hother t htq
        obtain ⟨hst', hrecv⟩ := hp.others t (by rwa [hgroup, hfun]) hq
        exact ⟨hst'.trans hst, hrecv.trans (hevent t).2⟩
      · obtain ⟨-, hmem, hq⟩ := hother t htq
        rw [hr' t hq, hmem]
  · constructor
    · rintro ⟨k', hk', -⟩
      unfold rxProcessEvent at hk'
      rw [he] at hk'
      cases hk'
    · rintro ⟨hr, -⟩
      exact absurd hr hret

end Process

/-- Two tasks wait on the chain of group 0 for the events given; a third one runs. -/
def twoOnGroup (r t u : Fin n) (ft fu : Word) : Kernel n where
  tcb := fun x =>
    if x = t then { state := .suspend, eventFlag := ft, event := some 0, next := some u }
    else if x = u then { state := .suspend, eventFlag := fu, event := some 0 } else { state := .running }
  curr := r
  readyHead := some r
  events := fun g => if g = 0 then { task := some t } else {}

/-- The chain of group 0. -/
def groupChain (t u : Fin n) : EventPlace → List (Fin n)
  | .group g => if g = 0 then [t, u] else []
  | .queue _ => []

theorem twoOnGroup_lists {r t u : Fin n} (htr : t ≠ r) (hur : u ≠ r) (htu : t ≠ u) (ft fu : Word) :
    GroupLists (twoOnGroup r t u ft fu) [r] [] (groupChain t u) := by
  have hnr : (twoOnGroup r t u ft fu).next r = none := by
    simp [Kernel.next, twoOnGroup, htr.symm, hur.symm]
  have hnt : (twoOnGroup r t u ft fu).next t = some u := by simp [Kernel.next, twoOnGroup]
  have hnu : (twoOnGroup r t u ft fu).next u = none := by simp [Kernel.next, twoOnGroup, htu.symm]
  have hmem : ∀ {i x}, x ∈ groupChain t u i → i = .group 0 ∧ (x = t ∨ x = u) := by
    intro i x hx
    cases i with
    | group g =>
      by_cases hg : g = 0
      · simpa [groupChain, hg] using hx
      · simp [groupChain, hg] at hx
    | queue q => cases hx
  refine ⟨⟨⟨⟨Relinked.refl _, Or.inl rfl, ⟨rfl, hnr⟩, fun i => ?_, fun i x hx => ?_, fun i j x hx hx' => ?_⟩,
    fun q => rfl⟩, ⟨rfl, trivial⟩, fun q _ => ⟨rfl, rfl⟩⟩, fun g => ?_⟩
  · cases i with
    | group g =>
      by_cases hg : g = 0
      · subst hg
        exact ⟨rfl, hnt, hnu⟩
      · simp [groupChain, hg]
    | queue q => exact rfl
  · rcases (hmem hx).2 with rfl | rfl
    · simpa using htr
    · simpa using hur
  · rw [(hmem hx).1, (hmem hx').1]
  · by_cases hg : g = 0
    · subst hg
      rfl
    · simp [groupChain, twoOnGroup, hg]

/-- The event is for the last task only. -/
theorem rxProcessEvent_done_last :
    ∃ k', rxProcessEvent 0 (twoOnGroup (0 : Fin 3) 1 2 1#32 2#32) (some 0) 2#32 = .ok (.osOk, k') ∧
      ProcessDone (twoOnGroup (0 : Fin 3) 1 2 1#32 2#32) k' [0] (groupChain 1 2) 0 2#32 := by
  have h := twoOnGroup_lists (r := (0 : Fin 3)) (t := 1) (u := 2) (by decide) (by decide) (by decide) 1#32 2#32
  refine (rxProcessEvent_done_iff h (Nat.le_refl 0)).mpr ⟨?_, by decide⟩
  intro a q hl
  simp at hl

/-- It is for both, and the second one goes on waiting, on no list. -/
theorem rxProcessEvent_loses_waiter :
    GroupLists (twoOnGroup (0 : Fin 3) 1 2 1#32 1#32) [0] [] (groupChain 1 2) ∧
      ¬ ∃ k', rxProcessEvent 0 (twoOnGroup (0 : Fin 3) 1 2 1#32 1#32) (some 0) 1#32 = .ok (.osOk, k') ∧
        ProcessDone (twoOnGroup (0 : Fin 3) 1 2 1#32 1#32) k' [0] (groupChain 1 2) 0 1#32 := by
  refine ⟨twoOnGroup_lists (by decide) (by decide) (by decide) _ _, ?_⟩
  rintro ⟨k', he, hdone⟩
  have hrun : ((rxProcessEvent 0 (twoOnGroup (0 : Fin 3) 1 2 1#32 1#32) (some 0) 1#32).map fun x => (x.2.tcb 2).state) =
      .ok .suspend := by decide +kernel
  have hst := (hdone.woken 2 (by decide)).1
  rw [he] at hrun
  have hsus : (k'.tcb 2).state = .suspend := Except.ok.inj hrun
  rw [hst] at hsus
  cases hsus

end Rosx
