/-
# The links of the active timer list

`__rx_add_to_active_timer_list`, `__rx_remove_from_timer_list`,
`rx_start_timer`, `rx_stop_timer` and one turn of the expiry loop of
`rx_timer_thread` (`kernel/rx_timer.c`) on the `next` and `prev` links of
`struct timer_list`. Memory holds `m` timers, for any `m`. The value of
`jiffies` at a call is an argument of the call.

A timer whose handler is NULL wakes a task when it expires, and keeps its
`__RX_TIMER_ENABLED` flag; the handler of any other timer runs after the
timer is off the list, and what it starts or stops are further calls.

Removal dereferences `p->next` of a node that is not the head: it removes
every member but the last of several, for which it follows a NULL link
(`rxRemoveFromTimerList_mem`). `Good` is what starts, expirations and the
stops that succeed keep; `Rosx/TimerRun.lean` has the runs.
-/
import Rosx.Kernel
import Rosx.Lib.DoublyLinked
import Mathlib.Data.List.Sort

namespace Rosx

open Linked

variable {m : ℕ}

/-- `struct timer_list`. -/
structure TimerNode (m : ℕ) where
  timeExpiry : Word := 0
  delay : Word := 0
  enabled : Bool := false
  handler : Option Handler := none
  next : Option (Fin m) := none
  prev : Option (Fin m) := none

/-- The timers and `__rx_active_timer_head`. -/
structure TimerList (m : ℕ) where
  node : Fin m → TimerNode m := fun _ => {}
  head : Option (Fin m) := none

namespace TimerList

def set (L : TimerList m) (t : Fin m) (c : TimerNode m) : TimerList m :=
  { L with node := Function.update L.node t c }

/-- `t->next = v`. -/
def setNext (L : TimerList m) (t : Fin m) (v : Option (Fin m)) : TimerList m :=
  L.set t { L.node t with next := v }

/-- `t->prev = v`. -/
def setPrev (L : TimerList m) (t : Fin m) (v : Option (Fin m)) : TimerList m :=
  L.set t { L.node t with prev := v }

def next (L : TimerList m) (t : Fin m) : Option (Fin m) := (L.node t).next

def prev (L : TimerList m) (t : Fin m) : Option (Fin m) := (L.node t).prev

/-- The loop of `__rx_add_to_active_timer_list`. -/
def addLoop (L : TimerList m) (p : Fin m) (tick : Word) : ℕ → Fin m → Res (TimerList m)
  | 0, _ => .error .hang
  | f + 1, start =>
    if (L.node start).timeExpiry ≥ tick then
      if some start = L.head then
        .ok { (L.setPrev start (some p)).setNext p L.head with head := some p }
      else
        match (L.node start).prev with
        | none => .error .null
        | some q =>
          .ok ((((L.setNext p (some start)).setNext q (some p)).setPrev p (some q)).setPrev start (some p))
    else
      match (L.node start).next with
      | none => .ok ((L.setNext start (some p)).setPrev p (some start))
      | some s => addLoop L p tick f s

/-- The control block of a timer that is started, before it is linked. -/
def arm (c : TimerNode m) (jiffies : Word) : TimerNode m :=
  { c with timeExpiry := c.delay + jiffies, enabled := true, prev := none, next := none }

/-- `__rx_add_to_active_timer_list`. -/
def rxAddToActiveTimerList (L : TimerList m) (p : Fin m) (jiffies : Word) : Res (TimerList m) :=
  let L := L.set p (arm (L.node p) jiffies)
  match L.head with
  | none => .ok { L with head := some p }
  | some h => addLoop L p (L.node p).timeExpiry m h

/-- `__rx_remove_from_timer_list` on the active list. -/
def rxRemoveFromTimerList (L : TimerList m) (p : Fin m) : Res (TimerList m) :=
  match L.head with
  | none => .ok L
  | some h =>
    if h = p then
      match (L.node p).next with
      | some s => .ok ({ L with head := some s }.setPrev s none)
      | none => .ok { L with head := none }
    else
      match (L.node p).prev with
      | none => .error .null
      | some q =>
        -- `p->prev->next = p->next` is stored before `p->next` is followed
        let L := L.setNext q (L.node p).next
        match (L.node p).next with
        | none => .error .null
        | some s => .ok (L.setPrev s (L.node p).prev)

/-- `rx_start_timer`. -/
def rxStartTimer (L : TimerList m) (p : Fin m) (jiffies : Word) : Res (TimerList m) :=
  if (L.node p).enabled then .ok L else rxAddToActiveTimerList L p jiffies

/-- `p->flag &= __RX_TIMER_DISABLED`. -/
def disable (L : TimerList m) (p : Fin m) : TimerList m := L.set p { L.node p with enabled := false }

/-- `rx_stop_timer`. -/
def rxStopTimer (L : TimerList m) (p : Fin m) : Res (TimerList m) :=
  if (L.node p).enabled then do
    let L ← rxRemoveFromTimerList L p
    return L.disable p
  else .ok L

/-- One turn of the expiry loop of `rx_timer_thread`, as far as it concerns
the list: the timer that expired, if the head has. -/
def expireHead (L : TimerList m) (tick : Word) : Res (Option (Fin m) × TimerList m) :=
  match L.head with
  | none => .ok (none, L)
  | some start =>
    if (L.node start).timeExpiry ≤ tick then do
      let L ← rxRemoveFromTimerList L start
      if (L.node start).handler.isSome then return (some start, L.disable start)
      else return (some start, L)
    else .ok (none, L)

/-! ### The simp set of the links -/

@[simp] theorem set_head (L : TimerList m) (t : Fin m) (c : TimerNode m) : (L.set t c).head = L.head := rfl

@[simp] theorem setNext_head (L : TimerList m) (t : Fin m) (v : Option (Fin m)) :
    (L.setNext t v).head = L.head := rfl

@[simp] theorem setPrev_head (L : TimerList m) (t : Fin m) (v : Option (Fin m)) :
    (L.setPrev t v).head = L.head := rfl

@[simp] theorem next_setNext (L : TimerList m) (t : Fin m) (v : Option (Fin m)) :
    (L.setNext t v).next = Function.update L.next t v := by
  funext u
  by_cases h : u = t
  · subst h; simp [next, setNext, set]
  · simp [next, setNext, set, h]

@[simp] theorem next_setPrev (L : TimerList m) (t : Fin m) (v : Option (Fin m)) :
    (L.setPrev t v).next = L.next := by
  funext u
  by_cases h : u = t
  · subst h; simp [next, setPrev, set]
  · simp [next, setPrev, set, h]

@[simp] theorem prev_setPrev (L : TimerList m) (t : Fin m) (v : Option (Fin m)) :
    (L.setPrev t v).prev = Function.update L.prev t v := by
  funext u
  by_cases h : u = t
  · subst h; simp [prev, setPrev, set]
  · simp [prev, setPrev, set, h]

@[simp] theorem prev_setNext (L : TimerList m) (t : Fin m) (v : Option (Fin m)) :
    (L.setNext t v).prev = L.prev := by
  funext u
  by_cases h : u = t
  · subst h; simp [prev, setNext, set]
  · simp [prev, setNext, set, h]

@[simp] theorem next_disable (L : TimerList m) (t : Fin m) : (L.disable t).next = L.next := by
  funext u
  by_cases h : u = t
  · subst h; simp [next, disable, set]
  · simp [next, disable, set, h]

@[simp] theorem prev_disable (L : TimerList m) (t : Fin m) : (L.disable t).prev = L.prev := by
  funext u
  by_cases h : u = t
  · subst h; simp [prev, disable, set]
  · simp [prev, disable, set, h]

/-- The active list is the well-formed doubly linked list `l`. -/
abbrev Linked (L : TimerList m) (l : List (Fin m)) : Prop := DChain L.next L.prev L.head l

/-- Only links, and only those of the nodes `ns`, differ. -/
structure Rewired (L L' : TimerList m) (ns : List (Fin m)) : Prop where
  node : ∀ t, L'.node t = { L.node t with next := L'.next t, prev := L'.prev t }
  frame : ∀ t, t ∉ ns → L'.next t = L.next t ∧ L'.prev t = L.prev t

theorem Rewired.setNext {L L' : TimerList m} {ns : List (Fin m)} (h : Rewired L L' ns) {t : Fin m}
    (ht : t ∈ ns) (v : Option (Fin m)) : Rewired L (L'.setNext t v) ns := by
  refine ⟨fun u => ?_, fun u hu => ?_⟩
  · by_cases hut : u = t
    · subst hut
      simp only [TimerList.setNext, set, Function.update_self, next, prev]
      rw [h.node u]
    · simp only [TimerList.setNext, set, Function.update_of_ne hut, next, prev]
      exact h.node u
  · have hut : u ≠ t := fun he => hu (he ▸ ht)
    simpa [hut] using h.frame u hu

theorem Rewired.setPrev {L L' : TimerList m} {ns : List (Fin m)} (h : Rewired L L' ns) {t : Fin m}
    (ht : t ∈ ns) (v : Option (Fin m)) : Rewired L (L'.setPrev t v) ns := by
  refine ⟨fun u => ?_, fun u hu => ?_⟩
  · by_cases hut : u = t
    · subst hut
      simp only [TimerList.setPrev, set, Function.update_self, next, prev]
      rw [h.node u]
    · simp only [TimerList.setPrev, set, Function.update_of_ne hut, next, prev]
      exact h.node u
  · have hut : u ≠ t := fun he => hu (he ▸ ht)
    simpa [hut] using h.frame u hu

theorem Rewired.refl (L : TimerList m) (ns : List (Fin m)) : Rewired L L ns :=
  ⟨fun _ => rfl, fun _ _ => ⟨rfl, rfl⟩⟩

theorem Rewired.setHead {L L' : TimerList m} {ns : List (Fin m)} (h : Rewired L L' ns) (v : Option (Fin m)) :
    Rewired L { L' with head := v } ns := ⟨h.node, h.frame⟩

/-! ### Adding a timer -/

section Add

variable {L : TimerList m} {p q s : Fin m} {a b : List (Fin m)}

theorem linked_addHead (hl : L.Linked (s :: b)) (hp : p ∉ s :: b) (hpv : L.prev p = none) :
    TimerList.Linked { (L.setPrev s (some p)).setNext p L.head with head := some p } (p :: s :: b) := by
  have hh : L.head = some s := hl.chain.1
  have hl' : DChain L.next L.prev (some s) (s :: b) := hh ▸ hl
  have h := hl'.insertHead hp hpv
  refine ⟨?_, ?_⟩
  · show Chain ((L.setPrev s (some p)).setNext p L.head).next (some p) _
    rw [next_setNext, next_setPrev, hh]
    exact h.chain
  · show BackLinks ((L.setPrev s (some p)).setNext p L.head).prev none _
    rw [prev_setNext, prev_setPrev]
    exact h.back

theorem linked_addMiddle (hl : L.Linked (a ++ q :: s :: b)) (hp : p ∉ a ++ q :: s :: b) :
    TimerList.Linked
      ((((L.setNext p (some s)).setNext q (some p)).setPrev p (some q)).setPrev s (some p))
      (a ++ q :: p :: s :: b) := by
  simpa [TimerList.Linked] using DChain.insertBefore hl hp

theorem linked_addLast (hl : L.Linked (a ++ [s])) (hp : p ∉ a ++ [s]) (hnx : L.next p = none) :
    TimerList.Linked ((L.setNext s (some p)).setPrev p (some s)) (a ++ [s, p]) := by
  simpa [TimerList.Linked] using DChain.insertLast hl hp hnx

theorem head_ne (hl : L.Linked (a ++ q :: s :: b)) : some s ≠ L.head := by
  have hnd := hl.chain.nodup
  rw [Seg.head hl.chain]
  cases a with
  | nil => simp at hnd ⊢; tauto
  | cons c a => simp at hnd ⊢; tauto

end Add

/-- The loop, started behind the nodes `pre`, puts the timer in front of the
first one that expires no earlier. -/
theorem addLoop_spec {L : TimerList m} {p : Fin m} (tick : Word) (hnx : L.next p = none)
    (hpv : L.prev p = none) : ∀ (rest pre : List (Fin m)) (s : Fin m) (f : ℕ),
    L.Linked (pre ++ s :: rest) → p ∉ pre ++ s :: rest → rest.length < f →
    ∃ L', addLoop L p tick f s = .ok L' ∧ Rewired L L' (p :: (pre ++ s :: rest)) ∧
      L'.Linked (pre ++ (s :: rest).orderedInsert (fun _ t => tick ≤ (L.node t).timeExpiry) p)
  | rest, pre, s, f + 1, hl, hp, hf => by
    have hr := Rewired.refl L (p :: (pre ++ s :: rest))
    by_cases hle : tick ≤ (L.node s).timeExpiry
    · have hge : (L.node s).timeExpiry ≥ tick := hle
      rw [List.orderedInsert_cons, if_pos hle]
      rcases List.eq_nil_or_concat pre with rfl | ⟨a, q, rfl⟩
      · have hh : some s = L.head := hl.chain.1.symm
        refine ⟨_, by rw [addLoop, if_pos hge, if_pos hh], ?_, linked_addHead hl hp hpv⟩
        exact ((hr.setPrev (by simp) _).setNext (by simp) _).setHead _
      · rw [List.concat_eq_append, List.append_assoc, List.singleton_append] at hl hp hr ⊢
        have hq : (L.node s).prev = some q := hl.prev
        refine ⟨((((L.setNext p (some s)).setNext q (some p)).setPrev p (some q)).setPrev s (some p)),
          ?_, ?_, by simpa using linked_addMiddle hl hp⟩
        · rw [addLoop, if_pos hge, if_neg (head_ne hl)]
          simp only [hq]
        · exact (((hr.setNext (by simp) _).setNext (by simp) _).setPrev (by simp) _).setPrev (by simp) _
    · have hlt : ¬ (L.node s).timeExpiry ≥ tick := hle
      rw [List.orderedInsert_cons, if_neg hle]
      obtain ⟨_, _, hs⟩ := seg_append.mp hl.chain
      cases rest with
      | nil =>
        have hs0 : (L.node s).next = none := hs.2
        refine ⟨(L.setNext s (some p)).setPrev p (some s), ?_, ?_, linked_addLast hl hp hnx⟩
        · rw [addLoop, if_neg hlt]
          simp only [hs0]
        · exact (hr.setNext (by simp) _).setPrev (by simp) _
      | cons b rest =>
        have hb : (L.node s).next = some b := hs.2.1
        have ih := addLoop_spec tick hnx hpv rest (pre ++ [s]) b f (by simpa using hl)
          (by simpa using hp) (by simpa using hf)
        rw [addLoop, if_neg hlt]
        simpa [hb] using ih

/-- What a call leaves of the nodes other than `p` and of the flags: only
links of nodes of the list change. -/
structure Kept (L L' : TimerList m) (p : Fin m) (l : List (Fin m)) : Prop where
  node : ∀ t, t ≠ p → L'.node t = { L.node t with next := L'.next t, prev := L'.prev t }
  frame : ∀ t, t ∉ p :: l → L'.next t = L.next t ∧ L'.prev t = L.prev t

theorem Kept.enabled {L L' : TimerList m} {p t : Fin m} {l : List (Fin m)} (h : Kept L L' p l)
    (ht : t ≠ p) : (L'.node t).enabled = (L.node t).enabled := by
  rw [h.node t ht]

/-- Where a timer goes in the list does not depend on its own control block. -/
theorem orderedInsert_congr {L L1 : TimerList m} {p : Fin m} {tick : Word}
    (hnode : ∀ t, t ≠ p → L1.node t = L.node t) : ∀ {l : List (Fin m)}, p ∉ l →
    l.orderedInsert (fun _ t => tick ≤ (L1.node t).timeExpiry) p =
      l.orderedInsert (fun _ t => tick ≤ (L.node t).timeExpiry) p
  | [], _ => rfl
  | t :: l, hp => by
    simp only [List.mem_cons, not_or] at hp
    rw [List.orderedInsert_cons, List.orderedInsert_cons, hnode t (Ne.symm hp.1),
      orderedInsert_congr hnode hp.2]

/-- `__rx_add_to_active_timer_list` of a timer that is not on the list. -/
theorem rxAddToActiveTimerList_spec {L : TimerList m} {p : Fin m} {l : List (Fin m)} (now : Word)
    (hl : L.Linked l) (hp : p ∉ l) :
    ∃ L', rxAddToActiveTimerList L p now = .ok L' ∧
      ((L'.node p).enabled = true ∧ (L'.node p).timeExpiry = (L.node p).delay + now) ∧ Kept L L' p l ∧
      L'.Linked (l.orderedInsert (fun _ t => (L.node p).delay + now ≤ (L.node t).timeExpiry) p) := by
  set L1 := L.set p (arm (L.node p) now) with hL1
  have hnode : ∀ t, t ≠ p → L1.node t = L.node t := fun t ht => by simp [hL1, set, ht]
  have hself : L1.node p = arm (L.node p) now := by simp [hL1, set]
  have hhead : L1.head = L.head := rfl
  have hnx : L1.next p = none := by rw [next, hself]; rfl
  have hpv : L1.prev p = none := by rw [prev, hself]; rfl
  have hl1 : L1.Linked l := by
    have hne : ∀ t ∈ l, t ≠ p := fun t ht => ne_of_mem_of_not_mem ht hp
    exact ⟨hl.chain.congr fun t ht => by rw [next, next, hnode t (hne t ht)],
      hl.back.congr fun t ht => by rw [prev, prev, hnode t (hne t ht)]⟩
  cases l with
  | nil =>
    have hh : L.head = none := hl.chain
    refine ⟨{ L1 with head := some p }, ?_, ?_, ⟨fun t ht => ?_, fun t ht => ?_⟩, ⟨rfl, hnx⟩, hpv, trivial⟩
    · rw [rxAddToActiveTimerList, ← hL1]
      simp only [hhead, hh]
    · show (L1.node p).enabled = true ∧ (L1.node p).timeExpiry = _
      rw [hself]
      exact ⟨rfl, rfl⟩
    · show L1.node t = { L.node t with next := (L1.node t).next, prev := (L1.node t).prev }
      rw [hnode t ht]
    · have ht : t ≠ p := by simpa using ht
      show (L1.node t).next = _ ∧ (L1.node t).prev = _
      rw [hnode t ht]
      exact ⟨rfl, rfl⟩
  | cons s l =>
    have hh : L.head = some s := hl.chain.1
    have hlen := (hl.chain.nodup.cons hp).length_le_card
    simp only [List.length_cons, Fintype.card_fin] at hlen
    obtain ⟨L', he, hr, hl'⟩ := addLoop_spec ((L.node p).delay + now) hnx hpv l [] s m hl1 hp
      (by omega)
    refine ⟨L', ?_, ?_, ⟨fun t ht => ?_, fun t ht => ?_⟩, ?_⟩
    · rw [rxAddToActiveTimerList, ← hL1, hself]
      simp only [hhead, hh]
      exact he
    · rw [hr.node p, hself]
      exact ⟨rfl, rfl⟩
    · rw [hr.node t, hnode t ht]
    · have htp : t ≠ p := fun h => ht (h ▸ List.mem_cons_self)
      rw [(hr.frame t ht).1, (hr.frame t ht).2, next, prev, hnode t htp]
      exact ⟨rfl, rfl⟩
    · rw [List.nil_append, orderedInsert_congr hnode hp] at hl'
      exact hl'

/-! ### Removing a timer -/

theorem remove_head {L : TimerList m} {p : Fin m} {l : List (Fin m)} (hl : L.Linked (p :: l)) :
    ∃ L', rxRemoveFromTimerList L p = .ok L' ∧ Rewired L L' l ∧ L'.Linked l := by
  have hh : L.head = some p := hl.chain.1
  cases l with
  | nil =>
    have hn : (L.node p).next = none := hl.chain.2
    refine ⟨{ L with head := none }, ?_, (Rewired.refl L _).setHead _, rfl, trivial⟩
    simp only [rxRemoveFromTimerList, hh, if_true, hn]
  | cons s l =>
    have hn : (L.node p).next = some s := hl.chain.2.1
    refine ⟨{ L with head := some s }.setPrev s none, ?_, ?_, ?_⟩
    · simp only [rxRemoveFromTimerList, hh, if_true, hn]
    · exact ((Rewired.refl L _).setHead _).setPrev (by simp) _
    · have h := hl.removeHead
      refine ⟨?_, ?_⟩
      · rw [next_setPrev]
        exact h.chain
      · rw [prev_setPrev]
        exact h.back

theorem remove_middle {L : TimerList m} {p q s : Fin m} {a b : List (Fin m)}
    (hl : L.Linked (a ++ q :: p :: s :: b)) :
    ∃ L', rxRemoveFromTimerList L p = .ok L' ∧ Rewired L L' (a ++ q :: s :: b) ∧
      L'.Linked (a ++ q :: s :: b) := by
  obtain ⟨c, hc⟩ : ∃ c, L.head = some c := by
    rw [Seg.head hl.chain]
    cases a <;> simp
  have hcp : c ≠ p := fun h => head_ne hl (by rw [hc, h])
  have hq : (L.node p).prev = some q := hl.prev
  have hs : (L.node p).next = some s := by
    obtain ⟨_, _, hs⟩ := seg_append.mp hl.chain
    exact hs.2.2.1
  have hpq : p ≠ q := by
    rintro rfl
    have hnd := hl.chain.nodup
    simp [List.nodup_append] at hnd
  have hs' : ((L.setNext q (some s)).node p).next = some s := by
    simpa [setNext, set, hpq] using hs
  have hq' : ((L.setNext q (some s)).node p).prev = some q := by
    simpa [setNext, set, hpq] using hq
  refine ⟨(L.setNext q (some s)).setPrev s (some q), ?_, ?_, ?_⟩
  · simp only [rxRemoveFromTimerList, hc, hcp, if_false, hq, hs, hs', hq']
  · exact ((Rewired.refl L _).setNext (by simp) _).setPrev (by simp) _
  · simpa [TimerList.Linked] using hl.removeMiddle

/-- The last of several: `p->next->prev` is a NULL dereference. -/
theorem remove_last {L : TimerList m} {p q : Fin m} {a : List (Fin m)} (hl : L.Linked (a ++ [q, p])) :
    rxRemoveFromTimerList L p = .error .null := by
  obtain ⟨c, hc⟩ : ∃ c, L.head = some c := by
    rw [Seg.head hl.chain]
    cases a <;> simp
  have hcp : c ≠ p := fun h => head_ne hl (by rw [hc, h])
  have hq : (L.node p).prev = some q := hl.prev
  have hs : (L.node p).next = none := by
    obtain ⟨_, _, hs⟩ := seg_append.mp hl.chain
    exact hs.2.2
  have hpq : p ≠ q := by
    rintro rfl
    have hnd := hl.chain.nodup
    simp [List.nodup_append] at hnd
  have hs' : ((L.setNext q none).node p).next = none := by
    simpa [setNext, set, hpq] using hs
  simp only [rxRemoveFromTimerList, hc, hcp, if_false, hq, hs, hs']

/-- A timer that is not on a list of one or more and has no back link. -/
theorem remove_unlinked {L : TimerList m} {p : Fin m} {l : List (Fin m)} (hl : L.Linked l)
    (hp : p ∉ l) (hne : l ≠ []) (hpv : L.prev p = none) : rxRemoveFromTimerList L p = .error .null := by
  cases l with
  | nil => exact absurd rfl hne
  | cons c l =>
    have hc : L.head = some c := hl.chain.1
    have hcp : c ≠ p := fun h => hp (h ▸ List.mem_cons_self)
    have hpv : (L.node p).prev = none := hpv
    simp only [rxRemoveFromTimerList, hc, hcp, if_false, hpv]

/-- A member is the first one, has a neighbour on both sides, or is the last
of several. -/
theorem mem_cases {p : Fin m} {l : List (Fin m)} (hp : p ∈ l) : (∃ b, l = p :: b) ∨
    (∃ a q s b, l = a ++ q :: p :: s :: b) ∨ ∃ a q, l = a ++ [q, p] := by
  obtain ⟨a, b, rfl⟩ := List.append_of_mem hp
  rcases List.eq_nil_or_concat a with rfl | ⟨a, q, rfl⟩
  · exact Or.inl ⟨b, rfl⟩
  · right
    cases b with
    | nil => exact Or.inr ⟨a, q, by simp⟩
    | cons s b => exact Or.inl ⟨a, q, s, b, by simp⟩

/-- The timer is the first one of the list, or another one is behind it. -/
def Removable (L : TimerList m) (p : Fin m) : Prop := L.head = some p ∨ L.next p ≠ none

instance (L : TimerList m) (p : Fin m) : Decidable (L.Removable p) :=
  inferInstanceAs (Decidable (_ ∨ _))

/-- In terms of the list alone. -/
theorem removable_iff {L : TimerList m} {p : Fin m} {l : List (Fin m)} (hl : L.Linked l) (hp : p ∈ l) :
    L.Removable p ↔ CanRemove l p := (DChain.canRemove_iff hl hp).symm

/-- `__rx_remove_from_timer_list` of a member. -/
theorem rxRemoveFromTimerList_mem {L : TimerList m} {p : Fin m} {l : List (Fin m)} (hl : L.Linked l)
    (hp : p ∈ l) :
    (L.Removable p ∧ ∃ L', rxRemoveFromTimerList L p = .ok L' ∧ Rewired L L' (l.erase p) ∧
      L'.Linked (l.erase p)) ∨
    (¬ L.Removable p ∧ rxRemoveFromTimerList L p = .error .null) := by
  have hnd := hl.chain.nodup
  rcases mem_cases hp with ⟨b, rfl⟩ | ⟨a, q, s, b, rfl⟩ | ⟨a, q, rfl⟩
  · rw [List.erase_cons_head]
    exact Or.inl ⟨Or.inl hl.chain.1, remove_head hl⟩
  · have he : (a ++ q :: p :: s :: b).erase p = a ++ q :: s :: b := by
      have hpa := (notMem_of_nodup_append (s := p) (a := a ++ [q]) (by simpa using hnd)).1
      have := List.erase_append_right (p :: s :: b) hpa
      simpa using this
    rw [he]
    obtain ⟨_, _, hs⟩ := seg_append.mp hl.chain
    have hs : L.next p = some s := hs.2.2.1
    exact Or.inl ⟨Or.inr (by simp [hs]), remove_middle hl⟩
  · obtain ⟨_, _, hs⟩ := seg_append.mp hl.chain
    have hs : L.next p = none := hs.2.2
    refine Or.inr ⟨?_, remove_last hl⟩
    rintro (hh | hn)
    · exact head_ne hl hh.symm
    · exact hn hs

/-! ### The invariant of the calls -/

/-- `l` is the active list; its timers are enabled. Any other timer that is
enabled was the head of the list when the task that slept on it was woken. -/
structure Good (L : TimerList m) (l : List (Fin m)) : Prop where
  linked : L.Linked l
  enabled : ∀ t ∈ l, (L.node t).enabled = true
  off : ∀ t, t ∉ l → (L.node t).enabled = true → L.prev t = none

theorem Good.add {L : TimerList m} {p : Fin m} {l : List (Fin m)} (h : Good L l) (hp : p ∉ l) (now : Word) :
    ∃ L', rxAddToActiveTimerList L p now = .ok L' ∧
      Good L' (l.orderedInsert (fun _ t => (L.node p).delay + now ≤ (L.node t).timeExpiry) p) ∧
      (L'.node p).timeExpiry = (L.node p).delay + now ∧
      ∀ t, t ≠ p → (L'.node t).timeExpiry = (L.node t).timeExpiry := by
  obtain ⟨L', he, ⟨hen, hexp⟩, hk, hl'⟩ := rxAddToActiveTimerList_spec now h.linked hp
  refine ⟨L', he, ⟨hl', fun t ht => ?_, fun t ht hte => ?_⟩, hexp, fun t ht => by rw [hk.node t ht]⟩
  · by_cases htp : t = p
    · rw [htp, hen]
    · rw [hk.enabled htp]
      exact h.enabled t (((List.mem_orderedInsert ..).mp ht).resolve_left htp)
  · rw [List.mem_orderedInsert, not_or] at ht
    rw [hk.enabled ht.1] at hte
    rw [(hk.frame t (by simp [ht.1, ht.2])).2]
    exact h.off t ht.2 hte

theorem enabled_disable (L : TimerList m) (p t : Fin m) :
    ((L.disable p).node t).enabled = true ↔ t ≠ p ∧ (L.node t).enabled = true := by
  by_cases h : t = p
  · subst h; simp [disable, set]
  · simp [disable, set, h]

/-- A timer that is off the list loses its flag. -/
theorem good_disable {L : TimerList m} {p : Fin m} {l : List (Fin m)} (hl : L.Linked l) (hp : p ∉ l)
    (hen : ∀ t ∈ l, (L.node t).enabled = true)
    (hoff : ∀ t, t ∉ l → t ≠ p → (L.node t).enabled = true → L.prev t = none) : Good (L.disable p) l := by
  refine ⟨?_, fun t ht => ?_, fun t ht hte => ?_⟩
  · rw [Linked, next_disable, prev_disable]
    exact hl
  · exact (enabled_disable L p t).mpr ⟨ne_of_mem_of_not_mem ht hp, hen t ht⟩
  · obtain ⟨htp, hte⟩ := (enabled_disable L p t).mp hte
    rw [prev_disable]
    exact hoff t ht htp hte

/-- A member that left the list, but for its flag. -/
theorem Good.removed {L L' : TimerList m} {p : Fin m} {l : List (Fin m)} (h : Good L l)
    (hr : Rewired L L' (l.erase p)) :
    (∀ t ∈ l.erase p, (L'.node t).enabled = true) ∧
      ∀ t, t ∉ l.erase p → t ≠ p → (L'.node t).enabled = true → L'.prev t = none := by
  refine ⟨fun t ht => ?_, fun t ht htp hte => ?_⟩
  · rw [hr.node t]
    exact h.enabled t (List.mem_of_mem_erase ht)
  · rw [(hr.frame t ht).2]
    rw [hr.node t] at hte
    exact h.off t (fun hm => ht ((List.mem_erase_of_ne htp).mpr hm)) hte

/-- `rx_stop_timer` of an enabled timer: it takes the timer off the list, or
follows a NULL link. -/
theorem Good.stop {L : TimerList m} {p : Fin m} {l : List (Fin m)} (h : Good L l)
    (hen : (L.node p).enabled = true) :
    (CanRemove l p ∧ ∃ L', rxStopTimer L p = .ok L' ∧ Good L' (l.erase p)) ∨
    (¬ CanRemove l p ∧ rxStopTimer L p = .error .null) := by
  have hstop : rxStopTimer L p = (rxRemoveFromTimerList L p).map fun L => L.disable p := by
    rw [rxStopTimer, if_pos hen]
    cases rxRemoveFromTimerList L p <;> rfl
  rw [hstop]
  by_cases hp : p ∈ l
  · have hpe : p ∉ l.erase p := h.linked.chain.nodup.not_mem_erase
    rcases rxRemoveFromTimerList_mem h.linked hp with ⟨hrm, L', he, hr, hl'⟩ | ⟨hrm, he⟩
    · obtain ⟨hin, hout⟩ := h.removed hr
      have hcan := (removable_iff h.linked hp).mp hrm
      exact Or.inl ⟨hcan, L'.disable p, by rw [he]; rfl, good_disable hl' hpe hin hout⟩
    · have hcan := mt (removable_iff h.linked hp).mpr hrm
      exact Or.inr ⟨hcan, by rw [he]; rfl⟩
  · cases l with
    | nil =>
      have hh : L.head = none := h.linked.chain
      refine Or.inl ⟨Or.inl rfl, L.disable p, ?_, ?_⟩
      · simp only [rxRemoveFromTimerList, hh]
        rfl
      · exact good_disable h.linked (by simp) (by simp) fun t ht _ => h.off t ht
    | cons c l =>
      refine Or.inr ⟨?_, ?_⟩
      · rintro (hnil | ⟨hm, -⟩)
        · cases hnil
        · exact hp hm
      · rw [remove_unlinked h.linked hp (by simp) (h.off p hp hen)]
        rfl

/-- A turn of the expiry loop always succeeds: it removes the head. -/
theorem Good.expire {L : TimerList m} {l : List (Fin m)} (h : Good L l) (tick : Word) :
    ∃ r L', expireHead L tick = .ok (r, L') ∧
      ((r = none ∧ L' = L) ∨ ∃ t, r = some t ∧ t ∈ l ∧ Good L' (l.erase t)) := by
  cases l with
  | nil =>
    have hh : L.head = none := h.linked.chain
    exact ⟨none, L, by simp only [expireHead, hh], Or.inl ⟨rfl, rfl⟩⟩
  | cons p l =>
    have hh : L.head = some p := h.linked.chain.1
    by_cases hle : (L.node p).timeExpiry ≤ tick
    · obtain ⟨L', he, hr, hl'⟩ := remove_head h.linked
      have hpl : p ∉ l := (List.nodup_cons.mp h.linked.chain.nodup).1
      have hpv : L'.prev p = none := (hr.frame p hpl).2.trans h.linked.back.1
      obtain ⟨hin, hout⟩ := h.removed (p := p) (by rwa [List.erase_cons_head])
      rw [List.erase_cons_head] at hin hout
      have hexp : expireHead L tick =
          if (L'.node p).handler.isSome then .ok (some p, L'.disable p) else .ok (some p, L') := by
        simp only [expireHead, hh, hle, if_true, he, bind, Except.bind, pure, Except.pure]
      by_cases hhd : (L'.node p).handler.isSome
      · refine ⟨some p, L'.disable p, by rw [hexp, if_pos hhd], Or.inr ⟨p, rfl, List.mem_cons_self, ?_⟩⟩
        rw [List.erase_cons_head]
        exact good_disable hl' hpl hin hout
      · refine ⟨some p, L', by rw [hexp, if_neg hhd], Or.inr ⟨p, rfl, List.mem_cons_self, ?_⟩⟩
        rw [List.erase_cons_head]
        refine ⟨hl', hin, fun t ht hte => ?_⟩
        by_cases htp : t = p
        · rw [htp, hpv]
        · exact hout t ht htp hte
    · exact ⟨none, L, by simp only [expireHead, hh, hle, if_false], Or.inl ⟨rfl, rfl⟩⟩

end TimerList
end Rosx
