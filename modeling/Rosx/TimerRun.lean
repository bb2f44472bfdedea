/-
# Runs of the timer services

A run is a sequence of `rx_start_timer` and `rx_stop_timer` calls and turns
of the expiry loop, from any active list. Next to the list a run keeps the
timers that were started and neither stopped nor expired; a call that faults
ends it.

The list stays the well-formed list of those timers if and only if the run
stops no timer that is the last of several, and starts or stops no timer
whose flag was left set by the expiry of a sleeping task
(`timersOK_iff_callsSafe`).
-/
import Rosx.TimerList
import Rosx.Lib.Run

namespace Rosx

open Linked TimerList

variable {m : ℕ}

/-- The active list, or the fault that stopped the kernel, and the timers
started and neither stopped nor expired. -/
structure TimerSys (m : ℕ) where
  list : Res (TimerList m)
  armed : Finset (Fin m)

/-- A step of a run; `jiffies` is the time of the call. -/
inductive TimerCall (m : ℕ) where
  | start (p : Fin m) (jiffies : Word)
  | stop (p : Fin m)
  | expire (jiffies : Word)

namespace TimerSys

/-- The timers still armed when the loop has expired `t`. -/
def expired (A : Finset (Fin m)) : Option (Fin m) → Finset (Fin m)
  | some t => A.erase t
  | none => A

/-- One step of a run. After a fault there is none. -/
def step (s : TimerSys m) (c : TimerCall m) : Option (TimerSys m) :=
  match s.list with
  | .error _ => none
  | .ok L =>
    match c with
    | .start p now => some ⟨rxStartTimer L p now, insert p s.armed⟩
    | .stop p => some ⟨rxStopTimer L p, s.armed.erase p⟩
    | .expire now =>
      match expireHead L now with
      | .ok (t, L) => some ⟨.ok L, expired s.armed t⟩
      | .error f => some ⟨.error f, s.armed⟩

def Step (s : TimerSys m) (c : TimerCall m) (s' : TimerSys m) : Prop := s.step c = some s'

/-- Some list of active timers, and no other timer enabled. -/
structure Init (s : TimerSys m) (L : TimerList m) (l : List (Fin m)) : Prop where
  list : s.list = .ok L
  linked : L.Linked l
  enabled : ∀ t, (L.node t).enabled = true ↔ t ∈ l
  armed : s.armed = l.toFinset

/-- No fault so far, and the active list is a well-formed doubly linked list
of exactly the armed timers: following `next` then `prev` leads back, the
head has no `prev`, and no node is there twice. -/
def TimersOK (s : TimerSys m) : Prop :=
  ∃ L l, s.list = .ok L ∧ Chain L.next L.head l ∧ l.Nodup ∧
    (∀ a ∈ l, ∀ b, L.next a = some b → L.prev b = some a) ∧
    (∀ h, L.head = some h → L.prev h = none) ∧ ∀ p, p ∈ l ↔ p ∈ s.armed

/-- The calls that keep the list `L` of the timers `A`. -/
def Safe (L : TimerList m) (A : Finset (Fin m)) : TimerCall m → Prop
  | .start p _ => (L.node p).enabled = true → p ∈ A
  | .stop p => (L.node p).enabled = true → A = ∅ ∨ p ∈ A ∧ L.Removable p
  | .expire _ => True

instance (L : TimerList m) (A : Finset (Fin m)) : ∀ c, Decidable (Safe L A c)
  | .start p _ => inferInstanceAs (Decidable ((L.node p).enabled = true → p ∈ A))
  | .stop p => inferInstanceAs (Decidable ((L.node p).enabled = true → A = ∅ ∨ p ∈ A ∧ L.Removable p))
  | .expire _ => inferInstanceAs (Decidable True)

/-- The call is safe on the list it finds. -/
def CallSafe (s : TimerSys m) (c : TimerCall m) : Prop :=
  match s.list with
  | .ok L => Safe L s.armed c
  | .error _ => True

instance : ∀ (s : TimerSys m) (c : TimerCall m), Decidable (CallSafe s c)
  | ⟨.ok L, A⟩, c => inferInstanceAs (Decidable (Safe L A c))
  | ⟨.error _, _⟩, _ => inferInstanceAs (Decidable True)

/-- The invariant of the runs. -/
def Inv (s : TimerSys m) : Prop := ∃ L l, s.list = .ok L ∧ Good L l ∧ ∀ p, p ∈ l ↔ p ∈ s.armed

theorem Init.inv {s : TimerSys m} {L : TimerList m} {l : List (Fin m)} (h : Init s L l) : Inv s := by
  refine ⟨L, l, h.list, ⟨h.linked, fun t ht => (h.enabled t).mpr ht, fun t ht hte => ?_⟩, fun p => ?_⟩
  · exact absurd ((h.enabled t).mp hte) ht
  · rw [h.armed, List.mem_toFinset]

theorem Inv.timersOK {s : TimerSys m} (h : Inv s) : TimersOK s := by
  obtain ⟨L, l, hs, hg, hm⟩ := h
  refine ⟨L, l, hs, hg.linked.chain, hg.linked.chain.nodup, fun a ha b hb => ?_, fun c hc => ?_, hm⟩
  · exact hg.linked.prev_of_next ha hb
  · cases l with
    | nil =>
      rw [show L.head = none from hg.linked.chain] at hc
      cases hc
    | cons p l =>
      obtain rfl : p = c := Option.some.inj (hg.linked.chain.1.symm.trans hc)
      exact hg.linked.back.1

theorem mem_cons_armed {A : Finset (Fin m)} {l l' : List (Fin m)} {p : Fin m} (hm : ∀ t, t ∈ l ↔ t ∈ A)
    (hl : ∀ t, t ∈ l' ↔ t = p ∨ t ∈ l) (t : Fin m) : t ∈ l' ↔ t ∈ insert p A := by
  rw [hl, hm, Finset.mem_insert]

theorem mem_erase_armed {A : Finset (Fin m)} {l : List (Fin m)} {p : Fin m} (hm : ∀ t, t ∈ l ↔ t ∈ A)
    (hnd : l.Nodup) (t : Fin m) : t ∈ l.erase p ↔ t ∈ A.erase p := by
  rw [hnd.mem_erase_iff, Finset.mem_erase, hm]

theorem eq_nil_iff_armed {A : Finset (Fin m)} {l : List (Fin m)} (hm : ∀ t, t ∈ l ↔ t ∈ A) :
    l = [] ↔ A = ∅ := by
  rw [List.eq_nil_iff_forall_not_mem, Finset.eq_empty_iff_forall_notMem]
  simp only [hm]

section Step

variable {L : TimerList m} {l : List (Fin m)} {A : Finset (Fin m)} {p : Fin m}

/-- The removal of a timer, in terms of the armed timers and the links. -/
theorem canRemove_iff_armed (h : Good L l) (hm : ∀ t, t ∈ l ↔ t ∈ A) :
    CanRemove l p ↔ A = ∅ ∨ p ∈ A ∧ L.Removable p := by
  rw [← eq_nil_iff_armed hm, ← hm p]
  by_cases hp : p ∈ l
  · simp [removable_iff h.linked hp, hp, List.ne_nil_of_mem hp]
  · simp [CanRemove, hp]

/-- `rx_start_timer` adds the timer, unless its flag is set. -/
theorem start_inv (h : Good L l) (hm : ∀ t, t ∈ l ↔ t ∈ A) (now : Word)
    (hs : (L.node p).enabled = true → p ∈ A) : Inv ⟨rxStartTimer L p now, insert p A⟩ := by
  by_cases hen : (L.node p).enabled = true
  · refine ⟨L, l, by simp [rxStartTimer, hen], h, fun t => ?_⟩
    rw [Finset.insert_eq_of_mem (hs hen)]
    exact hm t
  · have hp : p ∉ l := fun hp => hen (h.enabled p hp)
    obtain ⟨L', he, hg, -, -⟩ := h.add hp now
    exact ⟨L', _, by simpa [rxStartTimer, hen] using he, hg, mem_cons_armed hm fun t => List.mem_orderedInsert ..⟩

theorem start_unsafe (h : Good L l) (hm : ∀ t, t ∈ l ↔ t ∈ A) (now : Word)
    (hs : ¬ ((L.node p).enabled = true → p ∈ A)) : ¬ TimersOK ⟨rxStartTimer L p now, insert p A⟩ := by
  obtain ⟨hen, hp⟩ := Classical.not_imp.mp hs
  rintro ⟨L', l', hL', hc, -, -, -, hm'⟩
  obtain rfl : L = L' := by simpa [rxStartTimer, hen] using hL'
  have hpl : p ∈ l := by
    rw [Chain.unique h.linked.chain hc]
    exact (hm' p).mpr (Finset.mem_insert_self p A)
  exact hp ((hm p).mp hpl)

/-- `rx_stop_timer` removes the timer or faults. -/
theorem stop_inv (h : Good L l) (hm : ∀ t, t ∈ l ↔ t ∈ A)
    (hs : (L.node p).enabled = true → A = ∅ ∨ p ∈ A ∧ L.Removable p) :
    Inv ⟨rxStopTimer L p, A.erase p⟩ := by
  by_cases hen : (L.node p).enabled = true
  · rcases h.stop hen with ⟨-, L', he, hg⟩ | ⟨hbad, -⟩
    · exact ⟨L', _, he, hg, mem_erase_armed hm h.linked.chain.nodup⟩
    · rw [canRemove_iff_armed h hm] at hbad
      exact absurd (hs hen) hbad
  · have hp : p ∉ A := fun hp => hen (h.enabled p ((hm p).mpr hp))
    refine ⟨L, l, by simp [rxStopTimer, hen], h, fun t => ?_⟩
    rw [Finset.erase_eq_of_notMem hp]
    exact hm t

theorem stop_unsafe (h : Good L l) (hm : ∀ t, t ∈ l ↔ t ∈ A)
    (hs : ¬ ((L.node p).enabled = true → A = ∅ ∨ p ∈ A ∧ L.Removable p)) :
    ¬ TimersOK ⟨rxStopTimer L p, A.erase p⟩ := by
  obtain ⟨hen, hbad⟩ := Classical.not_imp.mp hs
  rintro ⟨L', l', hL', -⟩
  rcases h.stop hen with ⟨hok, -⟩ | ⟨-, he⟩
  · rw [canRemove_iff_armed h hm] at hok
    exact hbad hok
  · rw [show rxStopTimer L p = .ok L' from hL'] at he
    cases he

end Step

theorem step_inv {s s' : TimerSys m} {c : TimerCall m} (h : Inv s) (hc : CallSafe s c) (hst : Step s c s') :
    Inv s' := by
  obtain ⟨L, l, hs, hg, hm⟩ := h
  simp only [CallSafe, hs] at hc
  simp only [Step, step, hs] at hst
  cases c with
  | start p now =>
    obtain rfl := Option.some.inj hst
    exact start_inv hg hm now hc
  | stop p =>
    obtain rfl := Option.some.inj hst
    exact stop_inv hg hm hc
  | expire now =>
    obtain ⟨r, L', he, hr⟩ := hg.expire now
    simp only [he] at hst
    obtain rfl := Option.some.inj hst
    rcases hr with ⟨rfl, rfl⟩ | ⟨t, rfl, _, hg'⟩
    · exact ⟨L', l, rfl, hg, hm⟩
    · exact ⟨L', _, rfl, hg', mem_erase_armed hm hg.linked.chain.nodup⟩

theorem step_unsafe {s s' : TimerSys m} {c : TimerCall m} (h : Inv s) (hc : ¬ CallSafe s c)
    (hst : Step s c s') : ¬ TimersOK s' := by
  obtain ⟨L, l, hs, hg, hm⟩ := h
  simp only [CallSafe, hs] at hc
  simp only [Step, step, hs] at hst
  cases c with
  | start p now =>
    obtain rfl := Option.some.inj hst
    exact start_unsafe hg hm now hc
  | stop p =>
    obtain rfl := Option.some.inj hst
    exact stop_unsafe hg hm hc
  | expire now => exact absurd trivial hc

/-- **The active timer list.** Along a run from any list of active timers the
list stays the well-formed list of the timers started and neither stopped nor
expired if and only if all calls of the run are safe; and from then on, in
every state, removing a member succeeds and takes out exactly that timer if
and only if the timer is the first one or not the last one. -/
theorem timersOK_iff_callsSafe {s : TimerSys m} {L : TimerList m} {l : List (Fin m)} (hi : Init s L l)
    {tr : List (TimerCall m × TimerSys m)} (h : Run.Exec Step s tr) :
    ((∀ x ∈ Run.states s tr, TimersOK x) ↔ Run.Guarded CallSafe s tr) ∧
    (Run.Guarded CallSafe s tr → ∀ x ∈ Run.states s tr, ∃ L l, x.list = .ok L ∧ L.Linked l ∧
      ∀ p ∈ x.armed, (∃ L', rxRemoveFromTimerList L p = .ok L' ∧ L'.Linked (l.erase p)) ↔ L.Removable p) := by
  have hiff := h.guarded_iff Inv (fun _ => Inv.timersOK) (fun _ _ _ => step_inv) (fun _ _ _ => step_unsafe) hi.inv
  refine ⟨hiff.symm, fun hg x hx => ?_⟩
  obtain ⟨L, l, hs, hgood, hm⟩ := h.invariant_of_guarded Inv (fun _ _ _ => step_inv) hg hi.inv x hx
  refine ⟨L, l, hs, hgood.linked, fun p hp => ?_⟩
  rcases rxRemoveFromTimerList_mem hgood.linked ((hm p).mpr hp) with ⟨hrm, L', he, -, hl'⟩ | ⟨hrm, he⟩
  · exact iff_of_true ⟨L', he, hl'⟩ hrm
  · refine iff_of_false ?_ hrm
    rintro ⟨L', he', -⟩
    rw [he] at he'
    cases he'

/-- Timers 0 and 1 are active, the other two are not. -/
def twoTimers : TimerSys 4 where
  list := .ok {
    node := fun t =>
      if t.val = 0 then { timeExpiry := 5, enabled := true, handler := some .application, next := some ⟨1, by decide⟩ }
      else if t.val = 1 then
        { timeExpiry := 9, enabled := true, handler := some .application, prev := some ⟨0, by decide⟩ }
      else { delay := 7, handler := some .application }
    head := some ⟨0, by decide⟩ }
  armed := {⟨0, by decide⟩, ⟨1, by decide⟩}

theorem twoTimers_init : ∃ L, Init twoTimers L [0, 1] :=
  ⟨_, rfl, ⟨⟨rfl, rfl, rfl⟩, rfl, rfl, trivial⟩, by decide, by decide⟩

/-- Timer 2 is started and goes between the others, is stopped there, and
timer 0 expires. -/
theorem timersOK_twoTimers : (∃ L, Init twoTimers L [0, 1]) ∧ ∃ tr, Run.Exec Step twoTimers tr ∧
    tr.length = 4 ∧ ∀ x ∈ Run.states twoTimers tr, TimersOK x := by
  obtain ⟨L, hi⟩ := twoTimers_init
  refine ⟨⟨L, hi⟩, ?_⟩
  obtain ⟨tr, hex, hp⟩ := Run.exists_exec (f := step) (fun _ _ _ h => h) (s := twoTimers)
    [.start 2 1, .stop 2, .expire 5, .stop 1]
    (fun tr => decide (tr.length = 4 ∧ Run.Guarded CallSafe twoTimers tr)) (by decide)
  obtain ⟨hlen, hsafe⟩ := of_decide_eq_true hp
  exact ⟨tr, hex, hlen, (timersOK_iff_callsSafe hi hex).1.mpr hsafe⟩

/-- Stopping the second of two timers follows its NULL `next`. -/
theorem stop_last_timer_faults : (∃ L, Init twoTimers L [0, 1]) ∧ ∃ tr, Run.Exec Step twoTimers tr ∧
    ¬ ∀ x ∈ Run.states twoTimers tr, TimersOK x := by
  refine ⟨twoTimers_init, ?_⟩
  obtain ⟨tr, hex, hp⟩ := Run.exists_exec (f := step) (fun _ _ _ h => h) (s := twoTimers) [.stop 1]
    (fun tr => (Run.states twoTimers tr).any fun x => !x.list.isOk) (by decide)
  refine ⟨tr, hex, fun hall => ?_⟩
  obtain ⟨x, hx, hbad⟩ := List.any_eq_true.mp hp
  obtain ⟨L, l, hL, -⟩ := hall x hx
  rw [hL] at hbad
  cases hbad

end TimerSys
end Rosx
