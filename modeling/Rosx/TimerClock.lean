/-
# Timers and the wrap of `jiffies`

`time_expiry` is `delay + jiffies` in 32 bits, and the list and the expiry loop
compare it with plain `>=` and `<=`. A run starts timers with delays from 1 to
`2 ^ 31 - 1`, stops timers, counts ticks and runs passes of the timer thread,
from any value of `jiffies`. A pass reads `jiffies` once and then takes turns of
the expiry loop until the head of the list is not due; between the turns the
handlers may start and stop timers. No tick comes between the turns of a pass:
that is a granularity of the model, since a nested critical section unmasks the
interrupts in the source. The pass compares with the tick it has read, so that a
tick on the way would not change what it expires.

Next to the kernel's data a run counts the ticks without wrap and keeps when
each timer is due. `OnTime` says that no timer expired before it was due and
that no pass left a timer that was due. That holds along every run in which
`delay + jiffies` does not wrap at a start, and `jiffies` does not wrap while a
timer is active (`onTime_of_noWrap`).

Key definitions: `TimerClock.exec`, `TimerClock.OnTime`, `TimerClock.NoWrap`.
-/
import Rosx.TimerList
import Rosx.Lib.Run
import Mathlib.Algebra.Group.Nat.Defs

namespace Rosx

open Linked TimerList

variable {m : ℕ}

namespace TimerList

/-- `__rx_add_timer`, up to the start of a timer without handler. -/
def initNode (L : TimerList m) (p : Fin m) (handler : Option Handler) (delay : Word) : TimerList m :=
  L.set p { L.node p with
    delay := delay, timeExpiry := 0, handler := handler, next := none, prev := none
    enabled := if handler.isSome then false else (L.node p).enabled }

/-- A timer is set up and started: with a handler by `rx_init_timer` and
`rx_start_timer`, without one by `__rx_add_timer`, for a task that sleeps. -/
def startNew (L : TimerList m) (p : Fin m) (handler : Option Handler) (delay jiffies : Word) : Res (TimerList m) :=
  let L := L.initNode p handler delay
  if handler.isSome then rxStartTimer L p jiffies else rxAddToActiveTimerList L p jiffies

end TimerList

/-- An expired timer, with the tick at which it was due and the tick at which
it expired. -/
structure Expired (m : ℕ) where
  timer : Fin m
  due : ℕ
  time : ℕ

/-- The timers, `jiffies`, the tick that the pass in progress has read; and the
ticks so far, when each timer is due, the timers started and neither stopped
nor expired, the expirations, and whether a pass has left a timer that was due. -/
structure TimerClock (m : ℕ) where
  list : TimerList m := {}
  jiffies : Word
  tick : Option Word := none
  now : ℕ := 0
  due : Fin m → ℕ := fun _ => 0
  active : Finset (Fin m) := ∅
  expired : List (Expired m) := []
  missed : Bool := false

/-- A step of a run. -/
inductive ClockCall (m : ℕ) where
  | start (p : Fin m) (handler : Option Handler) (delay : Word)
  | stop (p : Fin m)
  | tick
  | passBegin
  | turn

namespace TimerClock

/-- A timer is started with a delay in range while it is not active, and no
tick comes in during a pass. -/
def Admissible (s : TimerClock m) : ClockCall m → Prop
  | .start p _ delay => p ∉ s.active ∧ 1 ≤ delay.toNat ∧ delay.toNat < 2 ^ 31
  | .stop _ | .turn => True
  | .tick | .passBegin => s.tick = none

instance (s : TimerClock m) : ∀ c, Decidable (s.Admissible c)
  | .start p _ delay => inferInstanceAs (Decidable (p ∉ s.active ∧ 1 ≤ delay.toNat ∧ delay.toNat < 2 ^ 31))
  | .stop _ | .turn => inferInstanceAs (Decidable True)
  | .tick | .passBegin => inferInstanceAs (Decidable (s.tick = none))

/-- A turn of the expiry loop: the head expires, or the pass is over. -/
def execTurn (s : TimerClock m) (tick : Word) : Option (TimerClock m) :=
  match expireHead s.list tick with
  | .ok (some t, L) =>
    some { s with list := L, active := s.active.erase t, expired := s.expired ++ [⟨t, s.due t, s.now⟩] }
  | .ok (none, _) =>
    some { s with tick := none, missed := s.missed || decide (∃ t ∈ s.active, s.due t ≤ s.now) }
  | .error _ => none

/-- What a call does. -/
def exec (s : TimerClock m) : ClockCall m → Option (TimerClock m)
  | .start p handler delay =>
    (startNew s.list p handler delay s.jiffies).toOption.map fun L =>
      { s with list := L, due := Function.update s.due p (s.now + delay.toNat), active := insert p s.active }
  | .stop p => (rxStopTimer s.list p).toOption.map fun L => { s with list := L, active := s.active.erase p }
  | .tick => some { s with jiffies := s.jiffies + 1, now := s.now + 1 }
  | .passBegin => some { s with tick := some s.jiffies }
  | .turn => s.tick.bind s.execTurn

def step (s : TimerClock m) (c : ClockCall m) : Option (TimerClock m) :=
  if s.Admissible c then s.exec c else none

def Step (s : TimerClock m) (c : ClockCall m) (s' : TimerClock m) : Prop := s.step c = some s'

/-- No timer is active; `jiffies` has any value. -/
structure Init (s : TimerClock m) : Prop where
  head : s.list.head = none
  off : ∀ t, (s.list.node t).enabled = false
  tick : s.tick = none
  active : s.active = ∅
  expired : s.expired = []
  missed : s.missed = false

/-- No timer expired early, and no pass left a timer that was due. -/
def OnTime (s : TimerClock m) : Prop := (∀ e ∈ s.expired, e.due ≤ e.time) ∧ s.missed = false

/-- `delay + jiffies` does not wrap when a timer starts, nor does `jiffies`
while one is active. -/
def NoWrap (s : TimerClock m) : ClockCall m → Prop
  | .start _ _ delay => s.jiffies.toNat + delay.toNat < 2 ^ 32
  | .tick => s.active = ∅ ∨ s.jiffies.toNat + 1 < 2 ^ 32
  | _ => True

instance (s : TimerClock m) : ∀ c, Decidable (s.NoWrap c)
  | .start _ _ delay => inferInstanceAs (Decidable (s.jiffies.toNat + delay.toNat < 2 ^ 32))
  | .tick => inferInstanceAs (Decidable (s.active = ∅ ∨ s.jiffies.toNat + 1 < 2 ^ 32))
  | .stop _ | .passBegin | .turn => inferInstanceAs (Decidable True)

/-! ### What the calls do to the expiries -/

/-- Removing a timer only writes links. -/
theorem rxRemoveFromTimerList_expiry {L L' : TimerList m} {p : Fin m} (h : rxRemoveFromTimerList L p = .ok L')
    (t : Fin m) : (L'.node t).timeExpiry = (L.node t).timeExpiry := by
  have hset : ∀ (M : TimerList m) (u : Fin m) (v : Option (Fin m)),
      ((M.setNext u v).node t).timeExpiry = (M.node t).timeExpiry ∧
      ((M.setPrev u v).node t).timeExpiry = (M.node t).timeExpiry := by
    intro M u v
    by_cases htu : t = u
    · subst htu
      simp [setNext, setPrev, TimerList.set]
    · simp [setNext, setPrev, TimerList.set, htu]
  unfold rxRemoveFromTimerList at h
  split at h
  · obtain rfl := Except.ok.inj h
    rfl
  · split_ifs at h
    · split at h
      · obtain rfl := Except.ok.inj h
        exact (hset _ _ _).2
      · obtain rfl := Except.ok.inj h
        rfl
    · split at h
      · cases h
      · dsimp only at h
        split at h
        · cases h
        · obtain rfl := Except.ok.inj h
          rw [(hset _ _ _).2, (hset _ _ _).1]

theorem disable_expiry (L : TimerList m) (p t : Fin m) :
    ((L.disable p).node t).timeExpiry = (L.node t).timeExpiry := by
  by_cases htp : t = p
  · subst htp
    simp [disable, TimerList.set]
  · simp [disable, TimerList.set, htp]

theorem rxStopTimer_expiry {L L' : TimerList m} {p : Fin m} (h : rxStopTimer L p = .ok L') (t : Fin m) :
    (L'.node t).timeExpiry = (L.node t).timeExpiry := by
  unfold rxStopTimer at h
  split_ifs at h
  · obtain ⟨L1, h1, h⟩ := bind_eq_ok.mp h
    obtain rfl := Except.ok.inj h
    rw [disable_expiry, rxRemoveFromTimerList_expiry h1]
  · obtain rfl := Except.ok.inj h
    rfl

theorem expireHead_expiry {L L' : TimerList m} {tick : Word} {r : Option (Fin m)}
    (h : expireHead L tick = .ok (r, L')) (t : Fin m) : (L'.node t).timeExpiry = (L.node t).timeExpiry := by
  unfold expireHead at h
  split at h
  · obtain ⟨-, rfl⟩ := Prod.mk.inj (Except.ok.inj h)
    rfl
  · split_ifs at h
    · obtain ⟨L1, h1, h⟩ := bind_eq_ok.mp h
      split_ifs at h
      · obtain ⟨-, rfl⟩ := Prod.mk.inj (Except.ok.inj h)
        rw [disable_expiry, rxRemoveFromTimerList_expiry h1]
      · obtain ⟨-, rfl⟩ := Prod.mk.inj (Except.ok.inj h)
        exact rxRemoveFromTimerList_expiry h1 t
    · obtain ⟨-, rfl⟩ := Prod.mk.inj (Except.ok.inj h)
      rfl

/-- A head that is due expires. -/
theorem expireHead_due {L L' : TimerList m} {p : Fin m} {tick : Word} {r : Option (Fin m)} (hh : L.head = some p)
    (hle : (L.node p).timeExpiry ≤ tick) (h : expireHead L tick = .ok (r, L')) : r = some p := by
  simp only [expireHead, hh, hle, if_true] at h
  obtain ⟨L1, h1, h⟩ := bind_eq_ok.mp h
  split_ifs at h
  · exact (Prod.mk.inj (Except.ok.inj h)).1.symm
  · exact (Prod.mk.inj (Except.ok.inj h)).1.symm

/-- The timers of `l` in the order of their expiries. -/
def Sorted (L : TimerList m) (l : List (Fin m)) : Prop :=
  l.Pairwise fun a b => (L.node a).timeExpiry ≤ (L.node b).timeExpiry

theorem Sorted.congr {L L' : TimerList m} {l : List (Fin m)} (h : Sorted L l)
    (he : ∀ t ∈ l, (L'.node t).timeExpiry = (L.node t).timeExpiry) : Sorted L' l := by
  refine List.Pairwise.imp_of_mem (fun {a b} ha hb hab => ?_) h
  rw [he a ha, he b hb]
  exact hab

/-- A timer inserted by its expiry keeps the order. -/
theorem Sorted.insert {L L' : TimerList m} {p : Fin m} {tick : Word} (hp : (L'.node p).timeExpiry = tick)
    (hne : ∀ t, t ≠ p → (L'.node t).timeExpiry = (L.node t).timeExpiry) : ∀ {l : List (Fin m)}, Sorted L l → p ∉ l →
    Sorted L' (l.orderedInsert (fun _ t => tick ≤ (L.node t).timeExpiry) p)
  | [], _, _ => List.pairwise_singleton _ _
  | t :: l, hs, hpl => by
    simp only [List.mem_cons, not_or] at hpl
    obtain ⟨ht, hl⟩ := List.pairwise_cons.mp hs
    have het := hne t (Ne.symm hpl.1)
    have hel : ∀ u ∈ l, (L'.node u).timeExpiry = (L.node u).timeExpiry := fun u hu =>
      hne u (ne_of_mem_of_not_mem hu hpl.2)
    rw [List.orderedInsert_cons]
    split_ifs with hle
    · refine List.pairwise_cons.mpr ⟨fun u hu => ?_, List.pairwise_cons.mpr ⟨fun u hu => ?_, Sorted.congr hl hel⟩⟩
      · rw [hp]
        rcases List.mem_cons.mp hu with rfl | hu
        · rw [het]
          exact hle
        · rw [hel u hu]
          exact BitVec.le_trans hle (ht u hu)
      · rw [het, hel u hu]
        exact ht u hu
    · refine List.pairwise_cons.mpr ⟨fun u hu => ?_, Sorted.insert hp hne hl hpl.2⟩
      rw [het]
      rcases (List.mem_orderedInsert ..).mp hu with rfl | hu
      · rw [hp]
        rw [BitVec.le_def] at hle ⊢
        omega
      · rw [hel u hu]
        exact ht u hu

/-- `l` with `p` behind the timers that expire before `tick`, in front of the others. -/
def placed (L : TimerList m) (tick : Word) (p : Fin m) (l : List (Fin m)) : List (Fin m) :=
  l.filter (fun t => (L.node t).timeExpiry < tick) ++ p :: l.filter fun t => tick ≤ (L.node t).timeExpiry

/-- In a sorted list the first timer that does not expire before `tick` divides those that do from those that do not. -/
theorem orderedInsert_eq_placed {L : TimerList m} {p : Fin m} {tick : Word} : ∀ {l : List (Fin m)}, Sorted L l →
    l.orderedInsert (fun _ t => tick ≤ (L.node t).timeExpiry) p = placed L tick p l
  | [], _ => rfl
  | t :: l, hs => by
    obtain ⟨ht, hl⟩ := List.pairwise_cons.mp hs
    rw [List.orderedInsert_cons, placed]
    by_cases hle : tick ≤ (L.node t).timeExpiry
    · have hall : ∀ u ∈ t :: l, tick ≤ (L.node u).timeExpiry := by
        intro u hu
        rcases List.mem_cons.mp hu with rfl | hu
        · exact hle
        · exact BitVec.le_trans hle (ht u hu)
      have hnone : (t :: l).filter (fun u => (L.node u).timeExpiry < tick) = [] := by
        apply List.filter_eq_nil_iff.mpr
        intro u hu
        simpa using hall u hu
      have hself : (t :: l).filter (fun u => tick ≤ (L.node u).timeExpiry) = t :: l := by
        apply List.filter_eq_self.mpr
        intro u hu
        simpa using hall u hu
      rw [if_pos hle, hnone, hself, List.nil_append]
    · have hlt : (L.node t).timeExpiry < tick := BitVec.not_le.mp hle
      rw [if_neg hle, orderedInsert_eq_placed hl, placed, List.filter_cons_of_pos (by simpa using hlt),
        List.filter_cons_of_neg (by simpa using hle), List.cons_append]

/-- **Where a timer goes.** Into any sorted list a timer goes behind those that
expire before it, in front of the others, with all links of both directions in
place. -/
theorem rxAddToActiveTimerList_placed {L : TimerList m} {p : Fin m} {l : List (Fin m)} (now : Word)
    (hl : L.Linked l) (hs : Sorted L l) (hp : p ∉ l) :
    ∃ L', rxAddToActiveTimerList L p now = .ok L' ∧ (L'.node p).enabled = true ∧
      (L'.node p).timeExpiry = (L.node p).delay + now ∧ L'.Linked (placed L ((L.node p).delay + now) p l) ∧
      Sorted L' (placed L ((L.node p).delay + now) p l) ∧ TimerList.Kept L L' p l := by
  obtain ⟨L', he, ⟨hen, hexp⟩, hk, hl'⟩ := rxAddToActiveTimerList_spec now hl hp
  have hs' : Sorted L' (l.orderedInsert (fun _ t => (L.node p).delay + now ≤ (L.node t).timeExpiry) p) := by
    apply hs.insert hexp _ hp
    intro t ht
    rw [hk.node t ht]
  rw [orderedInsert_eq_placed hs] at hl' hs'
  exact ⟨L', he, hen, hexp, hl', hs', hk⟩

/-- `t` and `u` are active, due at 5 and 7, and `p` has a delay of 4. -/
def twoActive (t u p : Fin m) : TimerList m where
  node x :=
    { timeExpiry := if x = t then 5 else 7
      delay := if x = p then 4 else 0
      enabled := x = t || x = u
      next := if x = t then some u else none
      prev := if x = u then some t else none }
  head := some t

/-- At 3 the timer is due at 7, and goes in front of the other one that is. -/
theorem twoActive_placed : ∃ L', rxAddToActiveTimerList (twoActive (m := 3) 0 1 2) 2 3 = .ok L' ∧
    (L'.node 2).enabled = true ∧ (L'.node 2).timeExpiry = 7 ∧ L'.Linked [0, 2, 1] ∧ Sorted L' [0, 2, 1] := by
  obtain ⟨L', he, hen, hexp, hl, hs, -⟩ := rxAddToActiveTimerList_placed (L := twoActive (m := 3) 0 1 2) (p := 2)
    (l := [0, 1]) 3 ⟨⟨rfl, rfl, rfl⟩, rfl, rfl, trivial⟩ (by unfold Sorted; decide) (by decide)
  exact ⟨L', he, hen, hexp, hl, hs⟩

/-! ### The invariant -/

/-- The list is the sorted list of the active timers, each with its due tick as
expiry, counted from where `jiffies` is now. -/
structure Inv (s : TimerClock m) (l : List (Fin m)) : Prop where
  good : Good s.list l
  sorted : Sorted s.list l
  active : ∀ t, t ∈ l ↔ t ∈ s.active
  expiry : ∀ t ∈ l, (s.list.node t).timeExpiry.toNat + s.now = s.due t + s.jiffies.toNat
  tick : ∀ tick ∈ s.tick, tick = s.jiffies
  onTime : OnTime s

variable {s s' : TimerClock m} {l : List (Fin m)}

theorem Init.inv (h : Init s) : Inv s [] where
  good := ⟨⟨h.head, trivial⟩, by simp, fun t _ ht => by rw [h.off t] at ht; cases ht⟩
  sorted := List.Pairwise.nil
  active := by simp [h.active]
  expiry := by simp
  tick := by simp [h.tick]
  onTime := ⟨by simp [h.expired], h.missed⟩

/-- Setting a timer up that is not on the list leaves the list. -/
theorem good_initNode {L : TimerList m} (h : Good L l) {p : Fin m} (hp : p ∉ l) (handler : Option Handler)
    (delay : Word) :
    Good (L.initNode p handler delay) l := by
  have hne : ∀ t ∈ l, t ≠ p := fun t ht => ne_of_mem_of_not_mem ht hp
  have hnode : ∀ t, t ≠ p → (L.initNode p handler delay).node t = L.node t := by
    intro t ht
    simp [initNode, TimerList.set, ht]
  refine ⟨⟨?_, ?_⟩, fun t ht => ?_, fun t ht hte => ?_⟩
  · exact h.linked.chain.congr fun t ht => by rw [next, next, hnode t (hne t ht)]
  · exact h.linked.back.congr fun t ht => by rw [prev, prev, hnode t (hne t ht)]
  · rw [hnode t (hne t ht)]
    exact h.enabled t ht
  · by_cases htp : t = p
    · subst htp
      simp [prev, initNode, TimerList.set]
    · rw [hnode t htp] at hte
      rw [prev, hnode t htp]
      exact h.off t ht hte

theorem startNew_eq (L : TimerList m) (p : Fin m) (handler : Option Handler) (delay jiffies : Word) :
    startNew L p handler delay jiffies = rxAddToActiveTimerList (L.initNode p handler delay) p jiffies := by
  unfold startNew
  cases handler with
  | none => rfl
  | some hd => simp [rxStartTimer, initNode, TimerList.set]

theorem start_inv {p : Fin m} {handler : Option Handler} {delay : Word} (h : Inv s l) (hp : p ∉ s.active)
    (hw : s.jiffies.toNat + delay.toNat < 2 ^ 32) (he : s.exec (.start p handler delay) = some s') : ∃ l, Inv s' l := by
  have hpl : p ∉ l := fun hm => hp ((h.active p).mp hm)
  obtain ⟨L', hL', hgood, hexp, hkeep⟩ := (good_initNode h.good hpl handler delay).add hpl s.jiffies
  simp only [exec, startNew_eq, hL', Except.toOption, Option.map_some] at he
  obtain rfl := Option.some.inj he
  have hdelay : ((s.list.initNode p handler delay).node p).delay = delay := by simp [initNode, TimerList.set]
  have hold : ∀ t, t ≠ p → (L'.node t).timeExpiry = (s.list.node t).timeExpiry := by
    intro t ht
    rw [hkeep t ht]
    simp [initNode, TimerList.set, ht]
  have hsorted : Sorted (s.list.initNode p handler delay) l := by
    refine h.sorted.congr fun t ht => ?_
    simp [initNode, TimerList.set, ne_of_mem_of_not_mem ht hpl]
  refine ⟨_, hgood, hsorted.insert hexp hkeep hpl, fun t => ?_, fun t ht => ?_, h.tick, h.onTime⟩
  · rw [List.mem_orderedInsert, Finset.mem_insert, h.active]
  · show (L'.node t).timeExpiry.toNat + s.now = Function.update s.due p (s.now + delay.toNat) t + s.jiffies.toNat
    by_cases htp : t = p
    · subst htp
      rw [hexp, hdelay, BitVec.toNat_add, Nat.mod_eq_of_lt (by omega), Function.update_self]
      omega
    · rw [hold t htp, Function.update_of_ne htp]
      exact h.expiry t (((List.mem_orderedInsert ..).mp ht).resolve_left htp)

theorem stop_inv {p : Fin m} (h : Inv s l) (he : s.exec (.stop p) = some s') : ∃ l, Inv s' l := by
  simp only [exec] at he
  obtain ⟨L', hL', rfl⟩ := Option.map_eq_some_iff.mp he
  have hok : rxStopTimer s.list p = .ok L' := by
    cases hr : rxStopTimer s.list p with
    | error f => rw [hr] at hL'; cases hL'
    | ok x => rw [hr] at hL'; rw [Option.some.inj hL']
  have hexp := rxStopTimer_expiry hok
  have hgood : Good L' (l.erase p) := by
    by_cases hen : (s.list.node p).enabled = true
    · rcases h.good.stop hen with ⟨-, L1, h1, hg⟩ | ⟨-, h1⟩
      · rw [h1] at hok
        obtain rfl := Except.ok.inj hok
        exact hg
      · rw [h1] at hok
        cases hok
    · have hp : p ∉ l := fun hm => hen (h.good.enabled p hm)
      rw [rxStopTimer, if_neg hen] at hok
      obtain rfl := Except.ok.inj hok
      rw [List.erase_of_not_mem hp]
      exact h.good
  have hsub : ∀ t ∈ l.erase p, t ∈ l := fun t ht => List.mem_of_mem_erase ht
  refine ⟨l.erase p, hgood, ?_, fun t => ?_, fun t ht => ?_, h.tick, h.onTime⟩
  · have hsorted : Sorted L' l := h.sorted.congr fun t _ => hexp t
    exact hsorted.sublist List.erase_sublist
  · rw [h.good.linked.chain.nodup.mem_erase_iff, Finset.mem_erase, h.active]
  · show (L'.node t).timeExpiry.toNat + s.now = s.due t + s.jiffies.toNat
    rw [hexp t]
    exact h.expiry t (hsub t ht)

/-- Without wrap, all expiries stay as far from `jiffies` as they are from now. -/
theorem tick_inv (h : Inv s l) (ht : s.tick = none) (hw : s.active = ∅ ∨ s.jiffies.toNat + 1 < 2 ^ 32)
    (he : s.exec .tick = some s') : ∃ l, Inv s' l := by
  obtain rfl := Option.some.inj he
  refine ⟨l, h.good, h.sorted, h.active, fun t hm => ?_, by simp [ht], h.onTime⟩
  rcases hw with hempty | hlt
  · have := (h.active t).mp hm
    rw [hempty] at this
    cases this
  · have := h.expiry t hm
    show (s.list.node t).timeExpiry.toNat + (s.now + 1) = s.due t + (s.jiffies + 1).toNat
    rw [BitVec.toNat_add, show (1 : Word).toNat = 1 from rfl, Nat.mod_eq_of_lt hlt]
    omega

/-- A timer is due when its expiry is not above `jiffies`. -/
theorem Inv.due_iff (h : Inv s l) {t : Fin m} (ht : t ∈ l) :
    (s.list.node t).timeExpiry ≤ s.jiffies ↔ s.due t ≤ s.now := by
  have := h.expiry t ht
  rw [BitVec.le_def]
  omega

/-- A turn expires the head if it is due; if it is not, no timer is. -/
theorem turn_inv (h : Inv s l) {tick : Word} (ht : s.tick = some tick) (he : s.execTurn tick = some s') :
    ∃ l, Inv s' l := by
  obtain rfl : tick = s.jiffies := h.tick tick ht
  unfold execTurn at he
  cases l with
  | nil =>
    have hh : s.list.head = none := h.good.linked.chain
    have hempty : s.active = ∅ := Finset.eq_empty_iff_forall_notMem.mpr fun t hm => by
      cases (h.active t).mpr hm
    simp only [expireHead, hh, hempty] at he
    obtain rfl := Option.some.inj he
    refine ⟨[], h.good, h.sorted, ?_, by simp, by simp, h.onTime.1, by simpa using h.onTime.2⟩
    simp
  | cons p l =>
    have hh : s.list.head = some p := h.good.linked.chain.1
    have hp : p ∈ p :: l := List.mem_cons_self
    have hdue := h.due_iff hp
    by_cases hle : (s.list.node p).timeExpiry ≤ s.jiffies
    · obtain ⟨r, L', hexp, hcase⟩ := h.good.expire s.jiffies
      obtain rfl : r = some p := expireHead_due hh hle hexp
      have hgood : Good L' l := by
        rcases hcase with ⟨hn, -⟩ | ⟨t, hpt, -, hg⟩
        · cases hn
        · obtain rfl := Option.some.inj hpt
          rwa [List.erase_cons_head] at hg
      have hpl : p ∉ l := (List.nodup_cons.mp h.good.linked.chain.nodup).1
      rw [hexp] at he
      obtain rfl := Option.some.inj he
      refine ⟨l, hgood, ?_, fun t => ?_, fun t hm => ?_, h.tick, ?_, h.onTime.2⟩
      · exact Sorted.congr (L := s.list) (List.pairwise_cons.mp h.sorted).2 fun t _ => expireHead_expiry hexp t
      · have := h.active t
        rw [List.mem_cons] at this
        rw [Finset.mem_erase, ← this]
        constructor
        · intro hm
          exact ⟨ne_of_mem_of_not_mem hm hpl, Or.inr hm⟩
        · rintro ⟨hne, hm⟩
          exact hm.resolve_left hne
      · show (L'.node t).timeExpiry.toNat + s.now = s.due t + s.jiffies.toNat
        rw [expireHead_expiry hexp t]
        exact h.expiry t (List.mem_cons_of_mem _ hm)
      · intro e hm
        rcases List.mem_append.mp hm with hm | hm
        · exact h.onTime.1 e hm
        · obtain rfl := List.mem_singleton.mp hm
          exact hdue.mp hle
    · have hhead : expireHead s.list s.jiffies = .ok (none, s.list) := by
        simp only [expireHead, hh, hle, if_false]
      rw [hhead] at he
      obtain rfl := Option.some.inj he
      have hnone : ¬ ∃ t ∈ s.active, s.due t ≤ s.now := by
        rintro ⟨t, hm, htd⟩
        have htl : t ∈ p :: l := (h.active t).mpr hm
        have hte := (h.due_iff htl).mpr htd
        rcases List.mem_cons.mp htl with rfl | htl
        · exact hle hte
        · exact hle (BitVec.le_trans ((List.pairwise_cons.mp h.sorted).1 t htl) hte)
      refine ⟨p :: l, h.good, h.sorted, h.active, h.expiry, by simp, h.onTime.1, ?_⟩
      simp [h.onTime.2, hnone]

theorem step_inv {c : ClockCall m} (h : ∃ l, Inv s l) (hc : s.NoWrap c) (hst : Step s c s') : ∃ l, Inv s' l := by
  obtain ⟨l, hi⟩ := h
  unfold Step step at hst
  split_ifs at hst with ha
  cases c with
  | start p handler delay => exact start_inv hi ha.1 hc hst
  | stop p => exact stop_inv hi hst
  | tick => exact tick_inv hi ha hc hst
  | passBegin =>
    obtain rfl := Option.some.inj hst
    exact ⟨l, hi.good, hi.sorted, hi.active, hi.expiry, by simp, hi.onTime⟩
  | turn =>
    obtain ⟨tick, ht, he⟩ := Option.bind_eq_some_iff.mp hst
    exact turn_inv hi ht he

/-- **Timers are on time until `jiffies` wraps.** From any value of `jiffies`, in
every state of a run in which no start wraps `delay + jiffies` and no tick
wraps `jiffies` while a timer is active, no timer has expired before its ticks
have occurred, and no pass has left a timer whose ticks had. -/
theorem onTime_of_noWrap {s : TimerClock m} (hi : Init s) {tr : List (ClockCall m × TimerClock m)}
    (h : Run.Exec Step s tr) (hw : Run.Guarded NoWrap s tr) : ∀ x ∈ Run.states s tr, OnTime x := by
  intro x hx
  obtain ⟨l, hl⟩ := h.invariant_of_guarded (fun x => ∃ l, Inv x l) (fun _ _ _ => step_inv) hw ⟨[], hi.inv⟩ x hx
  exact hl.onTime

/-- No timer is active at `jiffies`. -/
def idle (m : ℕ) (jiffies : Word) : TimerClock m := { jiffies := jiffies }

theorem idle_init (m : ℕ) (jiffies : Word) : Init (idle m jiffies) :=
  ⟨rfl, fun _ => rfl, rfl, rfl, rfl, rfl⟩

/-- Two timers, of which the one started last expires first. -/
theorem onTime_two_timers : Init (idle 2 7) ∧ ∃ tr, Run.Exec Step (idle 2 7) tr ∧ tr.length = 8 ∧
    ∀ x ∈ Run.states (idle 2 7) tr, OnTime x := by
  refine ⟨idle_init 2 7, ?_⟩
  obtain ⟨tr, hex, hp⟩ := Run.exists_exec (f := step) (fun _ _ _ h => h) (s := idle 2 7)
    [.start 0 (some .application) 2, .start 1 none 1, .passBegin, .turn, .tick, .passBegin, .turn, .turn]
    (fun tr => decide (tr.length = 8 ∧ Run.Guarded NoWrap (idle 2 7) tr)) (by decide +kernel)
  obtain ⟨hlen, hw⟩ := of_decide_eq_true hp
  exact ⟨tr, hex, hlen, onTime_of_noWrap (idle_init 2 7) hex hw⟩

/-- Started with a delay of two ticks just before the wrap, a timer expires in
a pass at once. -/
theorem timer_expires_early : Init (idle 1 0xFFFFFFFF) ∧ ∃ tr, Run.Exec Step (idle 1 0xFFFFFFFF) tr ∧
    ¬ ∀ x ∈ Run.states (idle 1 0xFFFFFFFF) tr, OnTime x := by
  refine ⟨idle_init 1 _, ?_⟩
  obtain ⟨tr, hex, hp⟩ := Run.exists_exec (f := step) (fun _ _ _ h => h) (s := idle 1 0xFFFFFFFF)
    [.start 0 (some .application) 2, .passBegin, .turn]
    (fun tr => (Run.states (idle 1 0xFFFFFFFF) tr).any fun x => x.expired.any fun e => decide (e.time < e.due))
    (by decide +kernel)
  refine ⟨tr, hex, fun hall => ?_⟩
  obtain ⟨x, hx, hearly⟩ := List.any_eq_true.mp hp
  obtain ⟨e, he, hlt⟩ := List.any_eq_true.mp hearly
  exact absurd ((hall x hx).1 e he) (not_le.mpr (of_decide_eq_true hlt))

end TimerClock
end Rosx
