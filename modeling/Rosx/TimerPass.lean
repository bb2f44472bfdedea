/-
# A pass of the timer thread

The expiry loop of `rx_timer_thread` and `rx_mod_timer` (`kernel/rx_timer.c`) on
the links of the active timer list and on the tasks. While the head of the
list is due, a timer with a handler is taken off the list before the handler
runs; for one without, the task that sleeps on it is made ready before the
timer is taken off. The loop starts again from the head each time, since a
handler may start its own timer again.

A handler is what it does to the kernel and the argument with which it calls
`rx_mod_timer` for its own timer, if it does; both may depend on the timers that
have fired before in the pass. A pass is one step, into which no tick comes; in the
source the nested critical sections unmask the interrupts on the way.

Key definitions: `TimerList.rxModTimer`, `Handlers`, `timerPass`, `PassOK`.
Key theorems: `turn_spec`.
-/
import Rosx.TimerClock
import Rosx.Timer

namespace Rosx

open Linked TimerList
open TimerClock (Sorted)

variable {m n : ℕ}

/-- `rx_mod_timer`: a stopped timer gets a new delay and is started. -/
def TimerList.rxModTimer (L : TimerList m) (p : Fin m) (delay jiffies : Word) : Res (TimerList m) :=
  if (L.node p).enabled then .ok L
  else if (L.node p).delay = 0 then .ok L
  else (L.set p { L.node p with delay := delay * (1000 / Kernel.configHz) }).rxStartTimer p jiffies

/-- The handlers: what one does to the kernel, and the argument of its
`rx_mod_timer` call, given the timers that have fired before. -/
structure Handlers (m n : ℕ) where
  effect : List (Fin m) → Fin m → Kernel n → Kernel n := fun _ _ k => k
  rearm : List (Fin m) → Fin m → Option Word

/-- The active list, the tasks, and the timers that have fired. -/
structure TimerPass (m n : ℕ) where
  list : TimerList m
  k : Kernel n
  fired : List (Fin m) := []

/-- A handler's call of `rx_mod_timer`. -/
def rearmTimer (L : TimerList m) (p : Fin m) (jiffies : Word) : Option Word → Res (TimerList m)
  | none => .ok L
  | some delay => L.rxModTimer p delay jiffies

section Loop

variable (H : Handlers m n) (task : Fin m → Fin n)

/-- The timer is taken off the list, and then its handler runs. -/
def fireHandler (s : TimerPass m n) (start : Fin m) : Res (TimerPass m n) := do
  let L ← s.list.rxRemoveFromTimerList start
  let k := H.effect s.fired start s.k
  let L ← rearmTimer (L.disable start) start k.jiffies (H.rearm s.fired start)
  return { list := L, k := k, fired := s.fired ++ [start] }

/-- The task is made ready, and then the timer is taken off the list. -/
def fireSleeper (s : TimerPass m n) (start : Fin m) : Res (TimerPass m n) := do
  let (_, k) ← rxAddToReadyQ (s.k.setState (task start) .ready) (task start)
  let k := k.modTcb (task start) fun c => { c with timer := none }
  let L ← s.list.rxRemoveFromTimerList start
  return { list := L, k := k, fired := s.fired ++ [start] }

/-- The loop, for at most `f` looks at the head of the list. -/
def expiryLoop (tick : Word) : ℕ → TimerPass m n → Res (TimerPass m n)
  | 0, _ => .error .hang
  | f + 1, s =>
    match s.list.head with
    | none => .ok s
    | some start =>
      if (s.list.node start).timeExpiry ≤ tick then do
        let s ← if (s.list.node start).handler.isSome then fireHandler H s start else fireSleeper task s start
        expiryLoop tick f s
      else .ok s

/-- One pass: `tick` is read from `jiffies`. -/
def timerPass (f : ℕ) (s : TimerPass m n) : Res (TimerPass m n) := expiryLoop H task s.k.jiffies f s

end Loop

/-! ### `rx_mod_timer` -/

/-- What a call leaves of a timer but for its links, its flag and when it expires. -/
structure SameTimer (L L' : TimerList m) (t : Fin m) : Prop where
  timeExpiry : (L'.node t).timeExpiry = (L.node t).timeExpiry
  delay : (L'.node t).delay = (L.node t).delay
  handler : (L'.node t).handler = (L.node t).handler

namespace SameTimer

variable {L L' L'' : TimerList m} {t : Fin m}

theorem refl (L : TimerList m) (t : Fin m) : SameTimer L L t := ⟨rfl, rfl, rfl⟩

theorem trans (h : SameTimer L L' t) (h' : SameTimer L' L'' t) : SameTimer L L'' t :=
  ⟨h'.timeExpiry.trans h.timeExpiry, h'.delay.trans h.delay, h'.handler.trans h.handler⟩

theorem of_rewired {ns : List (Fin m)} (h : Rewired L L' ns) (t : Fin m) : SameTimer L L' t := by
  have ht := h.node t
  exact ⟨by rw [ht], by rw [ht], by rw [ht]⟩

theorem disable (L : TimerList m) (p t : Fin m) : SameTimer L (L.disable p) t := by
  by_cases htp : t = p
  · subst htp
    constructor <;> simp [TimerList.disable, TimerList.set]
  · constructor <;> simp [TimerList.disable, TimerList.set, htp]

end SameTimer

/-- The delay in ticks that an argument of `rx_mod_timer` stands for. -/
def modTicks (delay : Word) : Word := delay * (1000 / Kernel.configHz)

section Mod

variable {L : TimerList m} {p : Fin m} {l : List (Fin m)} (delay jiffies : Word)

theorem rxModTimer_of_zero (h : (L.node p).delay = 0) : L.rxModTimer p delay jiffies = .ok L := by
  unfold TimerList.rxModTimer
  rw [if_pos h, ite_self]

/-- Whatever the list looks like, the loop only writes links. -/
theorem TimerList.addLoop_rewired {L L' : TimerList m} {tick : Word} : ∀ {f : ℕ} {start : Fin m},
    L.addLoop p tick f start = .ok L' → Rewired L L' (List.finRange m)
  | 0, _, h => by cases h
  | f + 1, start, h => by
    have hr := Rewired.refl L (List.finRange m)
    have hm : ∀ t : Fin m, t ∈ List.finRange m := List.mem_finRange
    unfold TimerList.addLoop at h
    split_ifs at h with hge hhead
    · obtain rfl := Except.ok.inj h
      exact ((hr.setPrev (hm _) _).setNext (hm _) _).setHead _
    · split at h
      · cases h
      · obtain rfl := Except.ok.inj h
        exact (((hr.setNext (hm _) _).setNext (hm _) _).setPrev (hm _) _).setPrev (hm _) _
    · split at h
      · obtain rfl := Except.ok.inj h
        exact (hr.setNext (hm _) _).setPrev (hm _) _
      · exact addLoop_rewired h

/-- Starting a timer leaves its delay and its handler. -/
theorem TimerList.rxAddToActiveTimerList_keeps {L L' : TimerList m} (h : L.rxAddToActiveTimerList p jiffies = .ok L') :
    (L'.node p).delay = (L.node p).delay ∧ (L'.node p).handler = (L.node p).handler := by
  unfold TimerList.rxAddToActiveTimerList at h
  dsimp only at h
  split at h
  · obtain rfl := Except.ok.inj h
    simp [TimerList.set, arm]
  · rw [(addLoop_rewired h).node p]
    simp [TimerList.set, arm]

/-- A timer that does not count goes into the list. -/
theorem filter_orderedInsert {r : Fin m → Fin m → Prop} [DecidableRel r] {q : Fin m → Bool} (hq : q p = false) :
    ∀ l : List (Fin m), (l.orderedInsert r p).filter q = l.filter q
  | [] => by simp [hq]
  | t :: l => by
    rw [List.orderedInsert_cons]
    split_ifs with hr
    · rw [List.filter_cons_of_neg (by simp [hq])]
    · rw [List.filter_cons, List.filter_cons, filter_orderedInsert hq l]

/-- A stopped timer with a delay is started, with `modTicks` as its new delay. -/
theorem rxModTimer_spec (hg : Good L l) (hs : Sorted L l) (hp : p ∉ l) (hen : (L.node p).enabled = false)
    (hd : (L.node p).delay ≠ 0) :
    ∃ L' l', L.rxModTimer p delay jiffies = .ok L' ∧ Good L' l' ∧ Sorted L' l' ∧ (∀ t, t ∈ l' ↔ t = p ∨ t ∈ l) ∧
      (∀ q : Fin m → Bool, q p = false → l'.filter q = l.filter q) ∧
      (L'.node p).timeExpiry = modTicks delay + jiffies ∧ (L'.node p).delay = modTicks delay ∧
      (L'.node p).handler = (L.node p).handler ∧ (L'.node p).enabled = true ∧ ∀ t, t ≠ p → SameTimer L L' t := by
  set L1 := L.set p { L.node p with delay := delay * (1000 / Kernel.configHz) } with hL1
  have hself : L1.node p = { L.node p with delay := delay * (1000 / Kernel.configHz) } := by simp [hL1, TimerList.set]
  have hne : ∀ t, t ≠ p → L1.node t = L.node t := fun t ht => by simp [hL1, TimerList.set, ht]
  have hlp : ∀ t ∈ l, t ≠ p := fun t ht => ne_of_mem_of_not_mem ht hp
  have hg1 : Good L1 l := by
    refine ⟨⟨?_, ?_⟩, fun t ht => ?_, fun t ht hte => ?_⟩
    · exact hg.linked.chain.congr fun t ht => by rw [next, next, hne t (hlp t ht)]
    · exact hg.linked.back.congr fun t ht => by rw [prev, prev, hne t (hlp t ht)]
    · rw [hne t (hlp t ht)]
      exact hg.enabled t ht
    · by_cases htp : t = p
      · rw [htp, hself] at hte
        rw [hen] at hte
        cases hte
      · rw [hne t htp] at hte
        rw [prev, hne t htp]
        exact hg.off t ht hte
  have hs1 : Sorted L1 l := hs.congr fun t ht => by rw [hne t (hlp t ht)]
  obtain ⟨L', he, ⟨hen', hexp⟩, hk, hl'⟩ := rxAddToActiveTimerList_spec jiffies hg1.linked hp
  obtain ⟨L'', he'', hg', -, -⟩ := hg1.add hp jiffies
  obtain rfl : L' = L'' := Except.ok.inj (he.symm.trans he'')
  have hdelay : (L1.node p).delay = modTicks delay := by rw [hself, modTicks]
  have hsame : ∀ t, t ≠ p → SameTimer L L' t := by
    intro t ht
    have hkt := hk.node t ht
    rw [hne t ht] at hkt
    exact ⟨by rw [hkt], by rw [hkt], by rw [hkt]⟩
  obtain ⟨hd', hh'⟩ := rxAddToActiveTimerList_keeps jiffies he
  rw [hself] at hd' hh'
  refine ⟨L', _, ?_, hg', hs1.insert hexp (fun t ht => ?_) hp, fun t => List.mem_orderedInsert _,
    fun q hq => filter_orderedInsert hq l, by rw [hexp, hdelay], hd', hh', hen', hsame⟩
  · unfold TimerList.rxModTimer TimerList.rxStartTimer
    rw [hen, if_neg (by simp), if_neg hd, ← hL1, hself, hen, if_neg (by simp)]
    exact he
  · rw [(hsame t ht).timeExpiry, hne t ht]

end Mod

/-! ### A turn of the loop -/

/-- The active list is `l`, in the order of the expiries; the ready queue is `lr`.
Each timer without a handler has a task of `S` sleeping on it, that is not on
the ready queue and sleeps on no other. -/
structure PassOK (task : Fin m → Fin n) (S : List (Fin n)) (s : TimerPass m n) (l : List (Fin m)) (lr : List (Fin n)) :
    Prop where
  good : Good s.list l
  sorted : Sorted s.list l
  ready : Chain s.k.next s.k.readyHead lr
  asleep : ∀ t ∈ l, (s.list.node t).handler = none → task t ∈ S ∧ task t ∉ lr
  distinct : ∀ t ∈ l, ∀ u ∈ l, (s.list.node t).handler = none → (s.list.node u).handler = none →
    task t = task u → t = u

/-- A handler leaves the sleeping tasks alone, and the ready queue a list; `jiffies`
does not move while it runs, as a pass is one step. -/
structure KeepsSleepers (S : List (Fin n)) (h : Kernel n → Kernel n) : Prop where
  jiffies : ∀ k, (h k).jiffies = k.jiffies
  tcb : ∀ k, ∀ t ∈ S, ((h k).tcb t).state = (k.tcb t).state ∧ ((h k).tcb t).timer = (k.tcb t).timer
  ready : ∀ k lr, Chain k.next k.readyHead lr →
    ∃ lr', Chain (h k).next (h k).readyHead lr' ∧ ∀ t ∈ S, t ∈ lr' ↔ t ∈ lr

/-- The argument with which the timer's handler starts the timer again. -/
def rearms (H : Handlers m n) (s : TimerPass m n) (p : Fin m) : Option Word :=
  if (s.list.node p).handler.isSome ∧ (s.list.node p).delay ≠ 0 then H.rearm s.fired p else none

/-- What a turn that fires `p` leaves of the tasks in `S`. -/
structure TurnTasks (task : Fin m → Fin n) (S : List (Fin n)) (s s' : TimerPass m n) (lr lr' : List (Fin n)) (p : Fin m) :
    Prop where
  woken : (s.list.node p).handler = none →
    (s'.k.tcb (task p)).state = .ready ∧ (s'.k.tcb (task p)).timer = none ∧ task p ∈ lr'
  others : ∀ x ∈ S, ((s.list.node p).handler = none → x ≠ task p) →
    (s'.k.tcb x).state = (s.k.tcb x).state ∧ (s'.k.tcb x).timer = (s.k.tcb x).timer ∧ (x ∈ lr' ↔ x ∈ lr)

/-- What becomes of the list. -/
structure TurnList (H : Handlers m n) (s s' : TimerPass m n) (l l' : List (Fin m)) (p : Fin m) : Prop where
  fired : s'.fired = s.fired ++ [p]
  jiffies : s'.k.jiffies = s.k.jiffies
  handler : (s'.list.node p).handler = (s.list.node p).handler
  others : ∀ t, t ≠ p → SameTimer s.list s'.list t
  gone : rearms H s p = none → l' = l ∧ SameTimer s.list s'.list p
  again : ∀ d, rearms H s p = some d → (∀ t, t ∈ l' ↔ t = p ∨ t ∈ l) ∧
    (∀ q : Fin m → Bool, q p = false → l'.filter q = l.filter q) ∧
    (s'.list.node p).timeExpiry = modTicks d + s.k.jiffies ∧ (s'.list.node p).delay = modTicks d

section Turn

variable {H : Handlers m n} {task : Fin m → Fin n} {S : List (Fin n)} {s s' : TimerPass m n} {l : List (Fin m)}
  {lr : List (Fin n)} {p : Fin m}

/-- The head is taken off. -/
theorem PassOK.remove (h : PassOK task S s (p :: l) lr) :
    ∃ L, s.list.rxRemoveFromTimerList p = .ok L ∧ Good L l ∧ Good (L.disable p) l ∧ Sorted L l ∧
      ∀ t, SameTimer s.list L t := by
  obtain ⟨L, he, hr, hl⟩ := remove_head h.good.linked
  have hpl : p ∉ l := (List.nodup_cons.mp h.good.linked.chain.nodup).1
  obtain ⟨hin, hout⟩ := h.good.removed (p := p) (by rwa [List.erase_cons_head])
  rw [List.erase_cons_head] at hin hout
  have hpv : L.prev p = none := (hr.frame p hpl).2.trans h.good.linked.back.1
  have hsame : ∀ t, SameTimer s.list L t := fun t => .of_rewired hr t
  refine ⟨L, he, ⟨hl, hin, fun t ht hte => ?_⟩, good_disable hl hpl hin hout, ?_, hsame⟩
  · by_cases htp : t = p
    · rw [htp, hpv]
    · exact hout t ht htp hte
  · exact Sorted.congr (L := s.list) (List.pairwise_cons.mp h.sorted).2 fun t _ => (hsame t).timeExpiry

/-- Only the timer that fires may come back to the list. -/
theorem TurnList.mem_of_ne {l' : List (Fin m)} (hl : TurnList H s s' l l' p) {t : Fin m} (ht : t ≠ p) :
    t ∈ l' ↔ t ∈ l := by
  cases hre : rearms H s p with
  | none => rw [(hl.gone hre).1]
  | some d => exact ((hl.again d hre).1 t).trans (or_iff_right ht)

/-- The invariant after the head `p` has fired. -/
theorem PassOK.of_turn (h : PassOK task S s (p :: l) lr) {l' : List (Fin m)} {lr' : List (Fin n)}
    (hg : Good s'.list l') (hs : Sorted s'.list l') (hl : TurnList H s s' l l' p)
    (hr : Chain s'.k.next s'.k.readyHead lr') (ht : TurnTasks task S s s' lr lr' p)
    (hp : p ∈ l' → (s.list.node p).handler ≠ none) : PassOK task S s' l' lr' := by
  -- a timer without a handler that is still on the list is another one
  have hold : ∀ t ∈ l', (s'.list.node t).handler = none → t ∈ l ∧ t ≠ p ∧ (s.list.node t).handler = none := by
    intro t htl hn
    have htp : t ≠ p := by
      rintro rfl
      rw [hl.handler] at hn
      exact hp htl hn
    refine ⟨(hl.mem_of_ne htp).mp htl, htp, ?_⟩
    rw [← (hl.others t htp).handler]
    exact hn
  refine ⟨hg, hs, hr, fun t htl hn => ?_, fun t htl u hul htn hun => ?_⟩
  · obtain ⟨htl, htp, hn⟩ := hold t htl hn
    obtain ⟨hS, hnr⟩ := h.asleep t (List.mem_cons_of_mem _ htl) hn
    have hne : (s.list.node p).handler = none → task t ≠ task p := fun hpn he =>
      htp (h.distinct t (List.mem_cons_of_mem _ htl) p List.mem_cons_self hn hpn he)
    refine ⟨hS, ?_⟩
    rw [(ht.others _ hS hne).2.2]
    exact hnr
  · obtain ⟨htl, -, htn⟩ := hold t htl htn
    obtain ⟨hul, -, hun⟩ := hold u hul hun
    exact h.distinct t (List.mem_cons_of_mem _ htl) u (List.mem_cons_of_mem _ hul) htn hun

/-- The list when the timer `p` fires: `p` stays off it, or it goes back to where
its new expiry puts it. -/
theorem PassOK.rearm (h : PassOK task S s (p :: l) lr) (hh : (s.list.node p).handler.isSome = true) :
    ∃ L L' l', s.list.rxRemoveFromTimerList p = .ok L ∧
      rearmTimer (L.disable p) p s.k.jiffies (H.rearm s.fired p) = .ok L' ∧ Good L' l' ∧ Sorted L' l' ∧
      ∀ k : Kernel n, k.jiffies = s.k.jiffies →
        TurnList H s { list := L', k := k, fired := s.fired ++ [p] } l l' p := by
  obtain ⟨L, he, -, hg, hs, hsame⟩ := h.remove
  have hpl : p ∉ l := (List.nodup_cons.mp h.good.linked.chain.nodup).1
  have hsame1 : ∀ t, SameTimer s.list (L.disable p) t := fun t => (hsame t).trans (.disable L p t)
  have hs1 : Sorted (L.disable p) l := hs.congr fun t _ => TimerClock.disable_expiry L p t
  have hstay : rearmTimer (L.disable p) p s.k.jiffies (H.rearm s.fired p) = .ok (L.disable p) → rearms H s p = none →
      ∃ L0 L' l', s.list.rxRemoveFromTimerList p = .ok L0 ∧
        rearmTimer (L0.disable p) p s.k.jiffies (H.rearm s.fired p) = .ok L' ∧ Good L' l' ∧ Sorted L' l' ∧
        ∀ k : Kernel n, k.jiffies = s.k.jiffies →
          TurnList H s { list := L', k := k, fired := s.fired ++ [p] } l l' p := by
    intro hL' hno
    refine ⟨L, _, l, he, hL', hg, hs1, fun k hjif => ?_⟩
    refine ⟨rfl, hjif, (hsame1 p).handler, fun t _ => hsame1 t, fun _ => ⟨rfl, hsame1 p⟩, fun d hd => ?_⟩
    rw [hno] at hd
    cases hd
  cases hre : H.rearm s.fired p with
  | none =>
    rw [hre] at hstay
    refine hstay rfl ?_
    unfold rearms
    rw [hre, ite_self]
  | some d =>
    rw [hre] at hstay
    by_cases hd : (s.list.node p).delay = 0
    · refine hstay (rxModTimer_of_zero d s.k.jiffies ((hsame1 p).delay.trans hd)) ?_
      unfold rearms
      rw [if_neg fun hc => hc.2 hd]
    · have hen : ((L.disable p).node p).enabled = false := by simp [TimerList.disable, TimerList.set]
      have hd1 : ((L.disable p).node p).delay ≠ 0 := by rwa [(hsame1 p).delay]
      obtain ⟨L', l', hmod, hg', hs', hmem', hfilter, hexp, hdel, hhd, -, hoth⟩ :=
        rxModTimer_spec d s.k.jiffies hg hs1 hpl hen hd1
      have hrearms : rearms H s p = some d := by
        unfold rearms
        rw [if_pos ⟨hh, hd⟩, hre]
      refine ⟨L, L', l', he, hmod, hg', hs', fun k hjif => ?_⟩
      refine ⟨rfl, hjif, hhd.trans (hsame1 p).handler, fun t ht => (hsame1 t).trans (hoth t ht), fun hn => ?_,
        fun d' hd' => ?_⟩
      · rw [hrearms] at hn
        cases hn
      · obtain rfl : d = d' := Option.some.inj (hrearms.symm.trans hd')
        exact ⟨hmem', hfilter, hexp, hdel⟩

/-- A timer with a handler fires. -/
theorem PassOK.fireHandler (h : PassOK task S s (p :: l) lr) (hh : (s.list.node p).handler.isSome = true)
    (hk : KeepsSleepers S (H.effect s.fired p)) :
    ∃ s' l' lr', Rosx.fireHandler H s p = .ok s' ∧ PassOK task S s' l' lr' ∧ TurnList H s s' l l' p ∧
      TurnTasks task S s s' lr lr' p := by
  obtain ⟨L, L', l', he, hL', hg, hs, hlist⟩ := h.rearm (H := H) hh
  have hsome : (s.list.node p).handler ≠ none := by
    intro hn
    rw [hn] at hh
    cases hh
  have hjif : (H.effect s.fired p s.k).jiffies = s.k.jiffies := hk.jiffies s.k
  obtain ⟨lr', hready, hmem⟩ := hk.ready s.k lr h.ready
  have htasks : TurnTasks task S s { list := L', k := H.effect s.fired p s.k, fired := s.fired ++ [p] } lr lr' p :=
    ⟨fun hn => absurd hn hsome, fun x hx _ => ⟨(hk.tcb s.k x hx).1, (hk.tcb s.k x hx).2, hmem x hx⟩⟩
  refine ⟨_, l', lr', ?_, h.of_turn hg hs (hlist _ hjif) hready htasks fun _ => hsome, hlist _ hjif, htasks⟩
  show (s.list.rxRemoveFromTimerList p >>= fun L =>
    rearmTimer (L.disable p) p (H.effect s.fired p s.k).jiffies (H.rearm s.fired p) >>= fun L => _) = _
  rw [he, hjif]
  show (rearmTimer (L.disable p) p s.k.jiffies (H.rearm s.fired p) >>= fun L => _) = _
  rw [hL']
  rfl

/-- A task that sleeps is woken. -/
theorem PassOK.fireSleeper (h : PassOK task S s (p :: l) lr) (hh : (s.list.node p).handler = none) :
    ∃ s' l' lr', Rosx.fireSleeper task s p = .ok s' ∧ PassOK task S s' l' lr' ∧ TurnList H s s' l l' p ∧
      TurnTasks task S s s' lr lr' p := by
  obtain ⟨L, he, hg, -, hs, hsame⟩ := h.remove
  have hpl : p ∉ l := (List.nodup_cons.mp h.good.linked.chain.nodup).1
  obtain ⟨-, hnr⟩ := h.asleep p List.mem_cons_self hh
  set k1 := s.k.setState (task p) .ready with hk1
  have hready1 : Chain k1.next k1.readyHead lr := by
    rw [hk1, Kernel.next_setState]
    exact h.ready
  obtain ⟨k2, hadd, -, hq⟩ := rxAddToReadyQ_spec hready1 hnr (by rw [hk1, state_setState, if_pos rfl]; rfl)
  set lr' := insertReady (fun t => (k1.tcb t).prio) (k1.tcb (task p)).prio (task p) lr with hlr'
  set f : Tcb n → Tcb n := fun c => { c with timer := none } with hf
  set k3 := k2.modTcb (task p) f with hk3
  have hready3 : Chain k3.next k3.readyHead lr' := by
    rw [hk3, LinkFree.next_modTcb (f := f) fun _ _ => rfl]
    exact hq.chain
  have hst : ∀ x, (k3.tcb x).state = if x = task p then .ready else (s.k.tcb x).state := by
    intro x
    rw [hk3, k2.modTcb_keeps (task p) x (f := f) Tcb.state fun _ => rfl, hq.state, hk1, state_setState]
  have htm : ∀ x, (k3.tcb x).timer = if x = task p then none else (s.k.tcb x).timer := by
    intro x
    by_cases hx : x = task p
    · subst hx
      rw [hk3, Kernel.modTcb_self, if_pos rfl]
    · rw [hk3, Kernel.modTcb_of_ne _ hx, if_neg hx, hq.timer, hk1]
      simp [Kernel.setState, hx]
  have hj : k3.jiffies = s.k.jiffies := by
    have hrest := congrArg Kernel.jiffies hq.rest
    exact hrest
  have hno : rearms H s p = none := by
    unfold rearms
    rw [hh, if_neg (by simp)]
  have hlist : TurnList H s { list := L, k := k3, fired := s.fired ++ [p] } l l p := by
    refine ⟨rfl, hj, (hsame p).handler, fun t _ => hsame t, fun _ => ⟨rfl, hsame p⟩, fun d hd => ?_⟩
    rw [hno] at hd
    cases hd
  have htasks : TurnTasks task S s { list := L, k := k3, fired := s.fired ++ [p] } lr lr' p := by
    refine ⟨fun _ => ⟨?_, ?_, mem_insertReady.mpr (Or.inl rfl)⟩, fun x _ hx => ?_⟩
    · exact (hst _).trans (if_pos rfl)
    · exact (htm _).trans (if_pos rfl)
    · have hxp := hx hh
      exact ⟨(hst x).trans (if_neg hxp), (htm x).trans (if_neg hxp), mem_insertReady.trans (or_iff_right hxp)⟩
  refine ⟨_, l, lr', ?_, h.of_turn hg hs hlist hready3 htasks fun hm => absurd hm hpl, hlist, htasks⟩
  show (rxAddToReadyQ k1 (task p) >>= fun x => s.list.rxRemoveFromTimerList p >>= fun L => _) = _
  rw [hadd]
  show (s.list.rxRemoveFromTimerList p >>= fun L => _) = _
  rw [he]
  rfl

/-- One turn: the head fires if it is due. -/
theorem PassOK.turn (h : PassOK task S s (p :: l) lr) {tick : Word} (hdue : (s.list.node p).timeExpiry ≤ tick)
    (hk : ∀ log t, KeepsSleepers S (H.effect log t)) :
    ∃ s' l' lr', (∀ f, expiryLoop H task tick (f + 1) s = expiryLoop H task tick f s') ∧ PassOK task S s' l' lr' ∧
      TurnList H s s' l l' p ∧ TurnTasks task S s s' lr lr' p := by
  have hhead : s.list.head = some p := h.good.linked.chain.1
  by_cases hh : (s.list.node p).handler.isSome = true
  · obtain ⟨s', l', lr', he, h', hl, ht⟩ := h.fireHandler hh (hk s.fired p)
    refine ⟨s', l', lr', fun f => ?_, h', hl, ht⟩
    simp only [expiryLoop, hhead, if_pos hdue, if_pos hh, he]
    rfl
  · obtain ⟨s', l', lr', he, h', hl, ht⟩ := h.fireSleeper (H := H) (by simpa using hh)
    refine ⟨s', l', lr', fun f => ?_, h', hl, ht⟩
    simp only [expiryLoop, hhead, if_pos hdue, if_neg hh, he]
    rfl

/-- The loop ends when no timer is due. -/
theorem PassOK.stop (h : PassOK task S s l lr) {tick : Word} (hdue : ∀ p ∈ l.head?, ¬ (s.list.node p).timeExpiry ≤ tick)
    (f : ℕ) : expiryLoop H task tick (f + 1) s = .ok s := by
  have hhead : s.list.head = l.head? := Seg.head h.good.linked.chain
  cases l with
  | nil => simp only [expiryLoop, hhead, List.head?_nil]
  | cons p l => simp only [expiryLoop, hhead, List.head?_cons, if_neg (hdue p rfl)]

end Turn

/-! ### A pass in which every timer is started for later -/

/-- The timer is due at `tick`. -/
def TimerPass.due (s : TimerPass m n) (tick : Word) (t : Fin m) : Bool := decide ((s.list.node t).timeExpiry ≤ tick)

/-- What a pass over the list `l` does: the due timers have fired once each, in
the order of the list; each task that slept on one is ready and sleeps no more,
and no other task of `S` has been touched; the list is left with the timers that
are not due. -/
structure PassDone (task : Fin m → Fin n) (S : List (Fin n)) (tick : Word) (s s' : TimerPass m n) (l l' : List (Fin m))
    (lr lr' : List (Fin n)) : Prop where
  fired : s'.fired = s.fired ++ l.filter (s.due tick)
  woken : ∀ t ∈ l, s.due tick t = true → (s.list.node t).handler = none →
    (s'.k.tcb (task t)).state = .ready ∧ (s'.k.tcb (task t)).timer = none ∧ task t ∈ lr'
  asleep : ∀ x ∈ S, (∀ t ∈ l, s.due tick t = true → (s.list.node t).handler = none → x ≠ task t) →
    (s'.k.tcb x).state = (s.k.tcb x).state ∧ (s'.k.tcb x).timer = (s.k.tcb x).timer ∧ (x ∈ lr' ↔ x ∈ lr)
  left : ∀ t, t ∈ l' ↔ t ∈ l ∧ s'.due tick t = false
  kept : ∀ t, (t ∈ l → s.due tick t = false) → SameTimer s.list s'.list t

section Later

variable {H : Handlers m n} {task : Fin m → Fin n} {S : List (Fin n)} {s s' s'' : TimerPass m n}
  {l l' l'' : List (Fin m)}
  {lr lr' lr'' : List (Fin n)} {p : Fin m} {tick : Word}

theorem due_eq_true {t : Fin m} : s.due tick t = true ↔ (s.list.node t).timeExpiry ≤ tick := decide_eq_true_iff

theorem SameTimer.due {t : Fin m} (h : SameTimer s.list s'.list t) (tick : Word) : s'.due tick t = s.due tick t := by
  rw [TimerPass.due, TimerPass.due, h.timeExpiry]

/-- After a turn that starts the timer for later, if at all, one timer fewer is due. -/
theorem TurnList.filter_due (hl : TurnList H s s' l l' p) (hp : p ∉ l) (hlater : ∀ d, rearms H s p = some d →
    s'.due tick p = false) : l'.filter (s'.due tick) = l.filter (s.due tick) := by
  have hl0 : l.filter (s'.due tick) = l.filter (s.due tick) :=
    List.filter_congr fun t ht => (hl.others t (ne_of_mem_of_not_mem ht hp)).due tick
  cases hre : rearms H s p with
  | none => rw [(hl.gone hre).1, hl0]
  | some d => rw [(hl.again d hre).2.1 _ (hlater d hre), hl0]

/-- The turn that fires the head, and then the rest of the pass. -/
theorem PassDone.cons (h : PassOK task S s (p :: l) lr) (hdue : s.due tick p = true) (hl : TurnList H s s' l l' p)
    (ht : TurnTasks task S s s' lr lr' p) (hlater : ∀ d, rearms H s p = some d → s'.due tick p = false)
    (hd : PassDone task S tick s' s'' l' l'' lr' lr'') : PassDone task S tick s s'' (p :: l) l'' lr lr'' := by
  have hpl : p ∉ l := (List.nodup_cons.mp h.good.linked.chain.nodup).1
  have hfilter := hl.filter_due hpl hlater
  -- the timers that are due after the turn are the others that were due before it
  have hmem : ∀ t, t ∈ l' ∧ s'.due tick t = true ↔ t ∈ l ∧ s.due tick t = true := by
    intro t
    rw [← List.mem_filter, hfilter, List.mem_filter]
  have hother : ∀ t ∈ l, (s'.list.node t).handler = (s.list.node t).handler := fun t htl =>
    (hl.others t (ne_of_mem_of_not_mem htl hpl)).handler
  refine ⟨?_, fun t htl htd hn => ?_, fun x hx hall => ?_, fun t => ?_, fun t hnd => ?_⟩
  · rw [hd.fired, hl.fired, hfilter, List.filter_cons_of_pos hdue, List.append_assoc]
    rfl
  · rcases List.mem_cons.mp htl with rfl | htl'
    · obtain ⟨hS, -⟩ := h.asleep t List.mem_cons_self hn
      obtain ⟨hst, htm, hr⟩ := ht.woken hn
      -- no other timer wakes the task that slept on the head
      obtain ⟨hst', htm', hr'⟩ := hd.asleep (task t) hS fun u hu hud hun he => by
        obtain ⟨hul, -⟩ := (hmem u).mp ⟨hu, hud⟩
        rw [hother u hul] at hun
        obtain rfl := h.distinct t List.mem_cons_self u (List.mem_cons_of_mem _ hul) hn hun he
        exact hpl hul
      exact ⟨hst'.trans hst, htm'.trans htm, hr'.mpr hr⟩
    · obtain ⟨hl1, hd1⟩ := (hmem t).mpr ⟨htl', htd⟩
      exact hd.woken t hl1 hd1 ((hother t htl').trans hn)
  · obtain ⟨hst, htm, hr⟩ := ht.others x hx fun hn => hall p List.mem_cons_self hdue hn
    obtain ⟨hst', htm', hr'⟩ := hd.asleep x hx fun t ht1 htd hn => by
      obtain ⟨htl, htd'⟩ := (hmem t).mp ⟨ht1, htd⟩
      exact hall t (List.mem_cons_of_mem _ htl) htd' ((hother t htl).symm.trans hn)
    exact ⟨hst'.trans hst, htm'.trans htm, hr'.trans hr⟩
  · by_cases htp : t = p
    · subst htp
      cases hre : rearms H s t with
      | none =>
        obtain ⟨rfl, hsame⟩ := hl.gone hre
        have hsame' := hd.kept t fun htl => absurd htl hpl
        have hdue' : s''.due tick t = true := by rw [hsame'.due, hsame.due, hdue]
        rw [hd.left, hdue']
        simp
      | some d =>
        have ht1 : t ∈ l' := ((hl.again d hre).1 t).mpr (Or.inl rfl)
        rw [hd.left, and_iff_right ht1, and_iff_right List.mem_cons_self]
    · rw [hd.left, hl.mem_of_ne htp, List.mem_cons, or_iff_right htp]
  · have htp : t ≠ p := by
      rintro rfl
      have hfalse := hnd List.mem_cons_self
      rw [hdue] at hfalse
      cases hfalse
    refine (hl.others t htp).trans (hd.kept t fun ht1 => ?_)
    by_contra hc
    obtain ⟨htl, htd⟩ := (hmem t).mp ⟨ht1, by simpa using hc⟩
    rw [hnd (List.mem_cons_of_mem _ htl)] at htd
    cases htd

/-- Nothing is due: the pass leaves everything as it is. -/
theorem PassDone.nil (h : ∀ t ∈ l, s.due tick t = false) : PassDone task S tick s s l l lr lr := by
  have hfilter : l.filter (s.due tick) = [] := List.filter_eq_nil_iff.mpr fun t ht => by rw [h t ht]; simp
  refine ⟨by rw [hfilter, List.append_nil], fun t ht htd => ?_, fun _ _ _ => ⟨rfl, rfl, Iff.rfl⟩, fun t => ?_,
    fun t _ => .refl _ t⟩
  · rw [h t ht] at htd
    cases htd
  · exact ⟨fun ht => ⟨ht, h t ht⟩, And.left⟩

/-- The list is sorted: if its head is not due, none of its timers is. -/
theorem PassOK.none_due (h : PassOK task S s l lr) (hh : ∀ p ∈ l.head?, s.due tick p = false) :
    ∀ t ∈ l, s.due tick t = false := by
  intro t ht
  obtain _ | ⟨p, l⟩ := l
  · cases ht
  · have hp : ¬ (s.list.node p).timeExpiry ≤ tick := fun hc => by
      have hfalse := hh p rfl
      rw [due_eq_true.mpr hc] at hfalse
      cases hfalse
    rcases List.mem_cons.mp ht with rfl | htl
    · exact hh t rfl
    · refine Bool.eq_false_iff.mpr fun hc => hp ?_
      exact BitVec.le_trans ((List.pairwise_cons.mp h.sorted).1 t htl) (due_eq_true.mp hc)

/-- Either the head is due, or the loop ends here with no timer due. -/
theorem PassOK.due_or_stop (h : PassOK task S s l lr) (tick : Word) :
    (∃ p l0, l = p :: l0 ∧ s.due tick p = true) ∨
      ∀ f, (∀ t ∈ l, s.due tick t = false) ∧ expiryLoop H task tick (f + 1) s = .ok s := by
  by_cases hhead : ∀ p ∈ l.head?, s.due tick p = false
  · refine Or.inr fun f => ⟨h.none_due hhead, h.stop (fun p hp hc => ?_) f⟩
    have hfalse := hhead p hp
    rw [due_eq_true.mpr hc] at hfalse
    cases hfalse
  · obtain _ | ⟨p, l⟩ := l
    · simp at hhead
    · exact Or.inl ⟨p, l, rfl, by simpa using hhead⟩

/-- `delay` ticks from now, without wrap, is later than now. -/
theorem lt_modTicks_add {delay jiffies : Word} (hpos : 1 ≤ delay.toNat)
    (hw : 10 * delay.toNat + jiffies.toNat < 2 ^ 32) : jiffies < modTicks delay + jiffies := by
  have hten : (1000 / Kernel.configHz : Word).toNat = 10 := by decide
  rw [BitVec.lt_def, modTicks, BitVec.toNat_add, BitVec.toNat_mul, hten]
  omega

/-- **A pass fires each due timer once.** Take any sorted active list, any value
of `jiffies`, and handlers that leave the timers alone or start their own timer
with a delay of at least 1 that does not wrap its expiry. Then the pass ends,
after it has looked at each due timer and at the one that is not due; the due
timers have fired once each in the order of the list, the tasks that slept on
them are ready and sleep no more, and the list is left, sorted, with the timers
that expire later. -/
theorem timerPass_once : ∀ {f : ℕ} {s : TimerPass m n} {l : List (Fin m)} {lr : List (Fin n)}, PassOK task S s l lr →
    (∀ log t, KeepsSleepers S (H.effect log t)) →
    (∀ log t d, H.rearm log t = some d → 1 ≤ d.toNat ∧ 10 * d.toNat + s.k.jiffies.toNat < 2 ^ 32) →
    (l.filter (s.due s.k.jiffies)).length < f →
    ∃ s' l' lr', timerPass H task f s = .ok s' ∧ PassOK task S s' l' lr' ∧ PassDone task S s.k.jiffies s s' l l' lr lr'
  | 0, _, _, _, _, _, _, hf => absurd hf (Nat.not_lt_zero _)
  | f + 1, s, l, lr, h, hk, hH, hf => by
    rcases h.due_or_stop (H := H) s.k.jiffies with ⟨p, l, rfl, hdue⟩ | hstop
    · have hpl : p ∉ l := (List.nodup_cons.mp h.good.linked.chain.nodup).1
      obtain ⟨s', l', lr', hrun, h', hl, ht⟩ := h.turn (due_eq_true.mp hdue) hk
      have hlater : ∀ d, rearms H s p = some d → s'.due s.k.jiffies p = false := by
        intro d hd
        have hre : H.rearm s.fired p = some d := by
          unfold rearms at hd
          split_ifs at hd
          exact hd
        obtain ⟨hpos, hw⟩ := hH _ _ _ hre
        refine Bool.eq_false_iff.mpr fun hc => ?_
        have hle := due_eq_true.mp hc
        rw [(hl.again d hd).2.2.1] at hle
        exact absurd (lt_modTicks_add hpos hw) (BitVec.not_lt.mpr hle)
      have hlen : (l'.filter (s'.due s'.k.jiffies)).length < f := by
        rw [hl.jiffies, hl.filter_due hpl hlater]
        rw [List.filter_cons_of_pos hdue, List.length_cons] at hf
        omega
      obtain ⟨s'', l'', lr'', hrun', h'', hd⟩ := timerPass_once h' hk (by rwa [hl.jiffies]) hlen
      rw [hl.jiffies] at hd
      refine ⟨s'', l'', lr'', ?_, h'', .cons h hdue hl ht hlater hd⟩
      unfold timerPass at hrun' ⊢
      rw [hrun f, ← hrun', hl.jiffies]
    · exact ⟨s, l, lr, (hstop f).2, h, .nil (hstop f).1⟩

end Later

/-- `t` and `u` are due at `jiffies` 5, and `v` is not; `x` sleeps on `t`, and the
others have handlers. -/
def threeTimers (t u v : Fin m) (x : Fin n) : TimerPass m n where
  list :=
    { node := fun y =>
        if y = t then { timeExpiry := 3, delay := 3, enabled := true, next := some u }
        else if y = u then
          { timeExpiry := 5, delay := 5, enabled := true, handler := some .application, next := some v, prev := some t }
        else if y = v then
          { timeExpiry := 8, delay := 5, enabled := true, handler := some .application, prev := some u }
        else {}
      head := some t }
  k := { curr := x, jiffies := 5, tcb := fun _ => { state := .suspend, timer := some 0 } }

theorem threeTimers_ok {t u v : Fin m} (htu : t ≠ u) (htv : t ≠ v) (huv : u ≠ v) (x : Fin n) :
    PassOK (fun _ => x) [x] (threeTimers t u v x) [t, u, v] [] := by
  have ht : (threeTimers t u v x).list.node t = { timeExpiry := 3, delay := 3, enabled := true, next := some u } :=
    if_pos rfl
  have hu : (threeTimers t u v x).list.node u =
      { timeExpiry := 5, delay := 5, enabled := true, handler := some .application, next := some v, prev := some t } :=
    (if_neg htu.symm).trans (if_pos rfl)
  have hv : (threeTimers t u v x).list.node v =
      { timeExpiry := 8, delay := 5, enabled := true, handler := some .application, prev := some u } :=
    (if_neg htv.symm).trans ((if_neg huv.symm).trans (if_pos rfl))
  have hother : ∀ y, y ∉ [t, u, v] → (threeTimers t u v x).list.node y = {} := by
    intro y hy
    simp only [List.mem_cons, List.not_mem_nil, or_false, not_or] at hy
    exact (if_neg hy.1).trans ((if_neg hy.2.1).trans (if_neg hy.2.2))
  refine ⟨⟨⟨?_, ?_⟩, fun y hy => ?_, fun y hy hen => ?_⟩, ?_, rfl, fun y hy hn => ?_, fun y hy z hz hny hnz _ => ?_⟩
  · have hhead : (threeTimers t u v x).list.head = some t := rfl
    simp [Chain, Seg, TimerList.next, hhead, ht, hu, hv]
  · simp [BackLinks, TimerList.prev, ht, hu, hv]
  · simp only [List.mem_cons, List.not_mem_nil, or_false] at hy
    rcases hy with rfl | rfl | rfl <;> simp [ht, hu, hv]
  · rw [hother y hy] at hen
    cases hen
  · simp [Sorted, ht, hu, hv]
  · exact ⟨List.mem_singleton_self x, List.not_mem_nil⟩
  · have honly : ∀ y ∈ [t, u, v], ((threeTimers t u v x).list.node y).handler = none → y = t := by
      intro y hy hn
      simp only [List.mem_cons, List.not_mem_nil, or_false] at hy
      rcases hy with rfl | rfl | rfl
      · rfl
      · simp [hu] at hn
      · simp [hv] at hn
    rw [honly y hy hny, honly z hz hnz]

theorem keepsSleepers_id (S : List (Fin n)) : KeepsSleepers S id :=
  ⟨fun _ => rfl, fun _ _ _ => ⟨rfl, rfl⟩, fun _ lr hr => ⟨lr, hr, fun _ _ => Iff.rfl⟩⟩

/-- The handlers start their own timers again for the same delay. -/
theorem timerPass_once_threeTimers :
    PassOK (fun _ => (0 : Fin 1)) [0] (threeTimers (0 : Fin 3) 1 2 0) [0, 1, 2] [] ∧
    ∃ s' l' lr', timerPass ⟨fun _ _ => id, fun _ _ => some 5⟩ (fun _ => (0 : Fin 1)) 3 (threeTimers (0 : Fin 3) 1 2 0) =
        .ok s' ∧ PassOK (fun _ => 0) [0] s' l' lr' ∧
      PassDone (fun _ => 0) [0] 5 (threeTimers (0 : Fin 3) 1 2 0) s' [0, 1, 2] l' [] lr' :=
  ⟨threeTimers_ok (by decide) (by decide) (by decide) 0,
    timerPass_once (threeTimers_ok (by decide) (by decide) (by decide) 0) (fun _ _ => keepsSleepers_id _)
      (fun _ _ d hd => by obtain rfl := Option.some.inj hd; decide) (by decide)⟩

end Rosx
