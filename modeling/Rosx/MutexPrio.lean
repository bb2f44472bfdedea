/-
# Priority inheritance

With one mutex the priorities are what priority inheritance promises. Along
every run the owner has the most urgent of its own priority and those of the
tasks on the wait chain, and every other task has its own
(`inherits_of_run`). The invariant is what makes the shortcut of the timeout
handler right: it recomputes the owner's priority only if the task that goes
has the same one, and a less urgent task did not count.

A task has one inherited priority, whatever number of mutexes it owns.
`rx_mutex_unlock` of one of them gives it back its own, so the tasks that wait
on the others stay served if and only if none of them is more urgent than that
(`donationsKept_iff`).

Key definitions: `MutexSys.Inherits`, `DonationsKept`.
-/
import Rosx.MutexRun
import Mathlib.Order.Bounds.Basic

namespace Rosx

open Linked

variable {n : ℕ}

/-! ### The minimum -/

theorem minPrio_le (e : Kernel n) (l : List (Fin n)) (p : ℤ) : minPrio e l p ≤ p := by
  induction l generalizing p with
  | nil => exact le_refl p
  | cons t l ih =>
    have h1 : minPrio e (t :: l) p ≤ min p (e.tcb t).prio := ih _
    omega

theorem minPrio_le_of_mem {e : Kernel n} {l : List (Fin n)} {t : Fin n} (ht : t ∈ l) (p : ℤ) :
    minPrio e l p ≤ (e.tcb t).prio := by
  induction l generalizing p with
  | nil => cases ht
  | cons u l ih =>
    rcases List.mem_cons.mp ht with rfl | ht
    · have h1 : minPrio e (t :: l) p ≤ min p (e.tcb t).prio := minPrio_le e l _
      omega
    · exact ih ht _

theorem minPrio_eq_or (e : Kernel n) (l : List (Fin n)) (p : ℤ) :
    minPrio e l p = p ∨ ∃ t ∈ l, minPrio e l p = (e.tcb t).prio := by
  induction l generalizing p with
  | nil => exact Or.inl rfl
  | cons u l ih =>
    have hcons : minPrio e (u :: l) p = minPrio e l (min p (e.tcb u).prio) := rfl
    rw [hcons]
    rcases ih (min p (e.tcb u).prio) with h | ⟨t, ht, h⟩
    · rcases le_total p (e.tcb u).prio with hle | hle
      · left
        rw [h, min_eq_left hle]
      · exact Or.inr ⟨u, List.mem_cons_self, by rw [h, min_eq_right hle]⟩
    · exact Or.inr ⟨t, List.mem_cons_of_mem _ ht, h⟩

/-- The priorities that count for a task: its own, and those of the tasks
that wait for it. -/
def donated (e : Kernel n) (l : List (Fin n)) (o : Fin n) : Set ℤ :=
  insert (e.tcb o).origPrio {p | ∃ t ∈ l, p = (e.tcb t).prio}

theorem minPrio_isLeast (e : Kernel n) (l : List (Fin n)) (o : Fin n) :
    IsLeast (donated e l o) (minPrio e l (e.tcb o).origPrio) := by
  constructor
  · rcases minPrio_eq_or e l (e.tcb o).origPrio with h | h
    · exact Or.inl h
    · exact Or.inr h
  · rintro p (rfl | ⟨t, ht, rfl⟩)
    · exact minPrio_le e l _
    · exact minPrio_le_of_mem ht _

theorem minPrio_append (e : Kernel n) (l : List (Fin n)) (t : Fin n) (p : ℤ) :
    minPrio e (l ++ [t]) p = min (minPrio e l p) (e.tcb t).prio := by
  simp [minPrio]

/-- A task that is less urgent than the minimum does not count. -/
theorem minPrio_erase {e : Kernel n} {l : List (Fin n)} {t : Fin n} {p : ℤ} (h : minPrio e l p ≠ (e.tcb t).prio) :
    minPrio e (l.erase t) p = minPrio e l p := by
  apply le_antisymm
  · rcases minPrio_eq_or e l p with h1 | ⟨u, hu, h1⟩
    · rw [h1]
      exact minPrio_le e _ p
    · have hut : u ≠ t := by
        rintro rfl
        exact h h1
      rw [h1]
      exact minPrio_le_of_mem ((List.mem_erase_of_ne hut).mpr hu) p
  · rcases minPrio_eq_or e (l.erase t) p with h1 | ⟨u, hu, h1⟩
    · rw [h1]
      exact minPrio_le e l p
    · rw [h1]
      exact minPrio_le_of_mem (List.mem_of_mem_erase hu) p

/-! ### The priorities after a call -/

section Data

variable (e : Kernel n) (m : ℕ) (t o u : Fin n) (l : List (Fin n))

/-- The update leaves both priorities. -/
def PrioFree (f : Tcb n → Tcb n) : Prop := ∀ c, (f c).prio = c.prio ∧ (f c).origPrio = c.origPrio

variable {f : Tcb n → Tcb n}

theorem prio_modTcb (hf : PrioFree f) : ((e.modTcb t f).tcb u).prio = (e.tcb u).prio :=
  Kernel.modTcb_keeps e t u Tcb.prio fun c => (hf c).1

theorem origPrio_modTcb (hf : PrioFree f) : ((e.modTcb t f).tcb u).origPrio = (e.tcb u).origPrio :=
  Kernel.modTcb_keeps e t u Tcb.origPrio fun c => (hf c).2

theorem setPrio_prio_eq (p : ℤ) : ((e.setPrio t p).tcb u).prio = if u = t then p else (e.tcb u).prio := by
  by_cases h : u = t
  · subst h
    simp [Kernel.setPrio]
  · simp [Kernel.setPrio, h]

theorem setPrio_origPrio (p : ℤ) : ((e.setPrio t p).tcb u).origPrio = (e.tcb u).origPrio :=
  Kernel.setPrio_keeps e t u p Tcb.origPrio fun _ => rfl

theorem released_prio : ((released e m).tcb u).prio = if u = e.curr then (e.tcb u).origPrio else (e.tcb u).prio := by
  rw [released, Kernel.setMutex_tcb, setPrio_prio_eq]
  split_ifs with h
  · rw [h]
  · rfl

theorem released_origPrio : ((released e m).tcb u).origPrio = (e.tcb u).origPrio := setPrio_origPrio _ _ _ _

theorem granted_prio : ((granted e m t l).tcb u).prio =
    if u = t then minPrio e l (e.tcb t).prio else (e.tcb u).prio := by
  by_cases h : u = t
  · subst h
    simp [granted]
  · simp [granted, Kernel.modTcb_of_ne _ h, h]

theorem granted_origPrio : ((granted e m t l).tcb u).origPrio = (e.tcb u).origPrio := by
  by_cases h : u = t
  · subst h
    simp [granted]
  · simp [granted, Kernel.modTcb_of_ne _ h]

theorem timedOut_prio (p : ℤ) : ((timedOut e m t o p l).tcb u).prio = if u = o then p else (e.tcb u).prio := by
  rw [timedOut, Kernel.setMutex_tcb, prio_modTcb, setPrio_prio_eq]
  exact fun _ => ⟨rfl, rfl⟩

theorem timedOut_origPrio (p : ℤ) : ((timedOut e m t o p l).tcb u).origPrio = (e.tcb u).origPrio := by
  rw [timedOut, Kernel.setMutex_tcb, origPrio_modTcb, setPrio_origPrio]
  exact fun _ => ⟨rfl, rfl⟩

theorem blockedOn_prio : ((blockedOn e m o l).tcb u).prio =
    if u = o then min (e.tcb o).prio (e.tcb e.curr).prio else (e.tcb u).prio := by
  rw [blockedOn, setPrio_prio_eq, Kernel.setMutex_tcb, prio_modTcb]
  exact fun _ => ⟨rfl, rfl⟩

theorem blockedOn_origPrio : ((blockedOn e m o l).tcb u).origPrio = (e.tcb u).origPrio := by
  rw [blockedOn, setPrio_origPrio, Kernel.setMutex_tcb, origPrio_modTcb]
  exact fun _ => ⟨rfl, rfl⟩

theorem armedFor_prio (timeout : ℤ) (tm : ℕ) : ((armedFor e timeout tm).tcb u).prio = (e.tcb u).prio :=
  armedFor_keeps e u timeout tm Tcb.prio fun _ => rfl

theorem armedFor_origPrio (timeout : ℤ) (tm : ℕ) : ((armedFor e timeout tm).tcb u).origPrio = (e.tcb u).origPrio :=
  armedFor_keeps e u timeout tm Tcb.origPrio fun _ => rfl

end Data

/-! ### One mutex -/

namespace MutexSys

/-- The owner's priority is the minimum of its own and those of the wait
chain, and every other task's is its own. -/
def Inherits (m : ℕ) (k : Kernel n) : Prop :=
  ∃ l, Chain k.next (k.mutexes m).task l ∧
    (∀ o, (k.mutexes m).owner = some o → IsLeast (donated k l o) (k.tcb o).prio) ∧
    ∀ t, (k.mutexes m).owner ≠ some t → (k.tcb t).prio = (k.tcb t).origPrio

/-- The invariant, with the arrivals as the wait chain. -/
structure PrioInv (m : ℕ) (s : MutexSys n) : Prop where
  owner : ∀ o, (s.k.mutexes m).owner = some o → (s.k.tcb o).prio = minPrio s.k s.arrivals (s.k.tcb o).origPrio
  others : ∀ t, (s.k.mutexes m).owner ≠ some t → (s.k.tcb t).prio = (s.k.tcb t).origPrio

variable {m : ℕ} {s s' : MutexSys n} {lr : List (Fin n)}

/-- With nobody waiting every task has its own priority. -/
theorem PrioInv.self_of_nil (h : PrioInv m s) (hnil : s.arrivals = []) (t : Fin n) :
    (s.k.tcb t).prio = (s.k.tcb t).origPrio := by
  by_cases ht : (s.k.mutexes m).owner = some t
  · have := h.owner t ht
    rwa [hnil] at this
  · exact h.others t ht

/-- A step that keeps the priorities, the owner and the arrivals. -/
theorem PrioInv.congr (h : PrioInv m s) (hp : ∀ t, (s'.k.tcb t).prio = (s.k.tcb t).prio)
    (ho : ∀ t, (s'.k.tcb t).origPrio = (s.k.tcb t).origPrio) (hm : (s'.k.mutexes m).owner = (s.k.mutexes m).owner)
    (ha : s'.arrivals = s.arrivals) : PrioInv m s' := by
  constructor
  · intro o hown
    rw [hm] at hown
    rw [hp, ho, ha, minPrio_congr fun t _ => hp t]
    exact h.owner o hown
  · intro t ht
    rw [hm] at ht
    rw [hp, ho]
    exact h.others t ht

/-- A free mutex is taken by a task that has its own priority. -/
theorem lock_free_prio {timeout : ℤ} {tm : ℕ} {r : Option OsErr} (hi : Inv m s lr) (h : PrioInv m s)
    (hl : (s.k.mutexes m).lock = .unlocked) (he : s.exec m (.lock timeout tm) = .ok (r, s')) : PrioInv m s' := by
  simp only [exec, rxMutexLock_free hl, bind, Except.bind, pure, Except.pure] at he
  obtain ⟨-, rfl⟩ := Prod.mk.inj (Except.ok.inj he)
  have hnil := hi.unlocked hl
  constructor
  · intro o _
    show (s.k.tcb o).prio = minPrio _ s.arrivals (s.k.tcb o).origPrio
    rw [hnil]
    exact h.self_of_nil hnil o
  · intro t _
    exact h.self_of_nil hnil t

/-- The owner inherits from a new waiter, which has its own priority. -/
theorem lock_blocks_prio {timeout : ℤ} {tm : ℕ} {r : Option OsErr} (hi : Inv m s lr) (h : PrioInv m s)
    (hp : s.phase s.k.curr = .out) (hl : (s.k.mutexes m).lock = .locked) (h0 : timeout ≠ osNoWait)
    (he : s.exec m (.lock timeout tm) = .ok (r, s')) : PrioInv m s' := by
  obtain ⟨o, ho, hho⟩ := hi.locked hl
  have hoc : o ≠ s.k.curr := by
    rintro rfl
    exact not_holds_of_out hp hho
  have hor : o ∈ lr := hi.holder_ready hho
  obtain ⟨k', lr', x, hrun, -, -, -, hls⟩ := rxMutexLock_blocks (i := ()) hi.lists rfl hl ho hor hi.curr hoc h0 tm
  simp only [exec, hrun, bind, Except.bind, pure, Except.pure] at he
  obtain ⟨-, rfl⟩ := Prod.mk.inj (Except.ok.inj he)
  have hprio : ∀ u, (k'.tcb u).prio =
    if u = o then min (s.k.tcb o).prio (s.k.tcb s.k.curr).prio else (s.k.tcb u).prio := by
    intro u
    rw [hls.data.prio, Kernel.switchTo_tcb, armedFor_prio, blockedOn_prio]
  have horig : ∀ u, (k'.tcb u).origPrio = (s.k.tcb u).origPrio := by
    intro u
    rw [hls.data.origPrio, Kernel.switchTo_tcb, armedFor_origPrio, blockedOn_origPrio]
  have hown : (k'.mutexes m).owner = some o := by
    rw [hls.data.mutexes, Kernel.switchTo_mutexes, armedFor_mutexes, blockedOn_mutexes]
    exact ho
  constructor
  · intro o' ho'
    obtain rfl : o = o' := Option.some.inj (hown.symm.trans ho')
    have hchain : ∀ t ∈ s.arrivals ++ [s.k.curr], (k'.tcb t).prio = (s.k.tcb t).prio := by
      intro t ht
      rw [hprio, if_neg]
      rintro rfl
      rcases List.mem_append.mp ht with ht | ht
      · exact hi.lists.notReady () t ht hor
      · exact hoc (List.mem_singleton.mp ht)
    show (k'.tcb o).prio = minPrio k' (s.arrivals ++ [s.k.curr]) (k'.tcb o).origPrio
    rw [hprio, if_pos rfl, horig, minPrio_congr hchain, minPrio_append, h.owner o ho]
  · intro t ht
    have hto : t ≠ o := by
      rintro rfl
      exact ht hown
    show (k'.tcb t).prio = (k'.tcb t).origPrio
    rw [hprio, if_neg hto, horig]
    exact h.others t fun hs => hto (Option.some.inj (hs.symm.trans ho))

/-- The holder gets its own priority back; the task that gets the mutex
inherits from the tasks that still wait. -/
theorem unlock_holder_prio {r : Option OsErr} (hi : Inv m s lr) (h : PrioInv m s) (hp : s.phase s.k.curr = .inside)
    (he : s.exec m .unlock = .ok (r, s')) : PrioInv m s' := by
  obtain ⟨hl, ho⟩ := hi.holder _ (Or.inl hp)
  obtain ⟨k', lr', hrun, -, hcase⟩ := rxMutexUnlock_owner (i := ()) hi.lists rfl hl ho hi.curr ((hi.ready _).mp hi.curr)
  obtain ⟨s1, -, he1, -, harr, -⟩ := unlock_holder hi hp
  obtain ⟨-, rfl⟩ := Prod.mk.inj (Except.ok.inj (he1.symm.trans he))
  have hk : s1.k = k' := by
    simp only [exec, hrun, bind, Except.bind, pure, Except.pure] at he1
    rw [← (Prod.mk.inj (Except.ok.inj he1)).2]
    rfl
  have hself : ∀ t, t ≠ s.k.curr → (s.k.tcb t).prio = (s.k.tcb t).origPrio := by
    intro t ht
    exact h.others t fun hs => ht (Option.some.inj (hs.symm.trans ho))
  rcases hcase with ⟨hnil, hls, -⟩ | ⟨t, l, hcons, -, hls⟩
  · have hall : ∀ u, (k'.tcb u).prio = (k'.tcb u).origPrio := by
      intro u
      rw [hls.data.prio, hls.data.origPrio, released_prio, released_origPrio]
      split_ifs with hu
      · rfl
      · exact hself u hu
    have hnil' : s1.arrivals = [] := by
      rw [harr, show s.arrivals = [] from hnil]
      rfl
    constructor
    · intro o _
      rw [hk, hnil']
      exact hall o
    · intro u _
      rw [hk]
      exact hall u
  · have harr' : s1.arrivals = l := by
      rw [harr, show s.arrivals = t :: l from hcons]
      rfl
    have htl : t ∉ l := by
      have hnd := (hi.lists.wait ()).nodup
      rw [show s.arrivals = t :: l from hcons] at hnd
      exact (List.nodup_cons.mp hnd).1
    have hown : (k'.mutexes m).owner = some t := by
      rw [hls.data.mutexes, granted_mutexes]
    have hrel : ∀ u, ((released s.k m).tcb u).prio = (s.k.tcb u).origPrio := by
      intro u
      rw [released_prio]
      split_ifs with hu
      · rfl
      · exact hself u hu
    have hprio : ∀ u, (k'.tcb u).prio = if u = t then minPrio (released s.k m) l (s.k.tcb t).origPrio
        else (s.k.tcb u).origPrio := by
      intro u
      rw [hls.data.prio, granted_prio, hrel, hrel]
    have horig : ∀ u, (k'.tcb u).origPrio = (s.k.tcb u).origPrio := by
      intro u
      rw [hls.data.origPrio, granted_origPrio, released_origPrio]
    constructor
    · intro o ho'
      rw [hk] at ho' ⊢
      obtain rfl : t = o := Option.some.inj (hown.symm.trans ho')
      rw [hprio, if_pos rfl, horig, harr']
      apply minPrio_congr
      intro u hu
      rw [hrel, hprio, if_neg (ne_of_mem_of_not_mem hu htl)]
    · intro u hu
      rw [hk] at hu ⊢
      rw [hprio, horig, if_neg]
      rintro rfl
      exact hu hown

/-- A task leaves the chain by its timeout. If the owner's priority is another
than the task's, the task did not count. -/
theorem expire_prio {tm : ℕ} {r : Option OsErr} (hi : Inv m s lr) (h : PrioInv m s) (htm : tm ∈ s.k.active)
    (he : s.exec m (.expire tm) = .ok (r, s')) : PrioInv m s' := by
  obtain ⟨-, hhd, t, hpr, htt, hph⟩ := hi.armed tm htm
  have htarr : t ∈ s.arrivals := (hi.waits t).mpr ⟨true, hph⟩
  obtain ⟨-, o, ho, hho, hor⟩ := hi.holder_of_mem htarr
  have hoa : o ∉ s.arrivals := fun hm => hi.lists.notReady () o hm hor
  obtain ⟨t', s1, _, hpr', -, he1, -, harr, -⟩ := expire_spec hi htm
  obtain rfl : t = t' := Option.some.inj (hpr.symm.trans hpr')
  obtain ⟨-, rfl⟩ := Prod.mk.inj (Except.ok.inj (he1.symm.trans he))
  have hl1 : Lists (s.k.disarm tm) (s.k.enterCritical.disarm tm) lr (fun _ : Unit => (s.k.mutexes m).task)
      (fun _ => s.arrivals) := hi.lists.enter.disarm tm
  obtain ⟨k2, lr', hrun, -, hls⟩ := rxMutexHandler_spec (m := m) (i := ()) hl1 rfl htarr (hi.suspended t htarr).2 ho hor
  have hk : s1.k = k2.exitCritical := by
    simp only [exec, expireMutexTimer_eq hhd hpr, hrun, bind, Except.bind, pure, Except.pure] at he1
    rw [← (Prod.mk.inj (Except.ok.inj he1)).2]
    rfl
  set p := prioWithout (s.k.disarm tm) t o (s.arrivals.erase t) with hpw
  have hprio : ∀ u, (s1.k.tcb u).prio = if u = o then p else (s.k.tcb u).prio := by
    intro u
    rw [hk]
    show (k2.tcb u).prio = _
    rw [hls.data.prio, timedOut_prio]
    rfl
  have horig : ∀ u, (s1.k.tcb u).origPrio = (s.k.tcb u).origPrio := by
    intro u
    rw [hk]
    show (k2.tcb u).origPrio = _
    rw [hls.data.origPrio, timedOut_origPrio]
    rfl
  have hown : (s1.k.mutexes m).owner = some o := by
    rw [hk]
    show (k2.mutexes m).owner = _
    rw [hls.data.mutexes, timedOut_mutexes]
    exact ho
  have hp : p = minPrio s.k (s.arrivals.erase t) (s.k.tcb o).origPrio := by
    have howner := h.owner o ho
    have hpe : p = if (s.k.tcb o).prio = (s.k.tcb t).prio then minPrio s.k (s.arrivals.erase t) (s.k.tcb o).origPrio
        else (s.k.tcb o).prio := rfl
    rw [hpe]
    split_ifs with heq
    · rfl
    · rw [howner] at heq ⊢
      exact (minPrio_erase heq).symm
  constructor
  · intro o' ho'
    obtain rfl : o = o' := Option.some.inj (hown.symm.trans ho')
    rw [hprio, if_pos rfl, horig, harr, hp]
    apply minPrio_congr
    intro u hu
    rw [hprio, if_neg]
    rintro rfl
    exact hoa (List.mem_of_mem_erase hu)
  · intro u hu
    have huo : u ≠ o := by
      rintro rfl
      exact hu hown
    rw [hprio, if_neg huo, horig]
    exact h.others u fun hs => huo (Option.some.inj (hs.symm.trans ho))

theorem exec_prio {c : MutexCall n} {r : Option OsErr} (hi : Inv m s lr) (h : PrioInv m s) (ha : s.Admissible c)
    (he : s.exec m c = .ok (r, s')) : PrioInv m s' := by
  cases c with
  | lock timeout tm =>
    cases hl : (s.k.mutexes m).lock with
    | unlocked => exact lock_free_prio hi h hl he
    | locked =>
      by_cases h0 : timeout = osNoWait
      · subst h0
        rw [lock_noWait hi hl tm] at he
        obtain ⟨-, rfl⟩ := Prod.mk.inj (Except.ok.inj he)
        exact h
      · exact lock_blocks_prio hi h ha.1 hl h0 he
  | unlock =>
    rcases ha with hp | hp
    · obtain ⟨r', he'⟩ := unlock_other hi hp
      obtain ⟨-, rfl⟩ := Prod.mk.inj (Except.ok.inj (he'.symm.trans he))
      exact h
    · exact unlock_holder_prio hi h hp he
  | expire tm => exact expire_prio hi h ha he
  | ret =>
    obtain ⟨-, rfl⟩ := Prod.mk.inj (Except.ok.inj he)
    exact h.congr (fun _ => rfl) (fun _ => rfl) rfl rfl
  | dispatch t p =>
    obtain ⟨-, rfl⟩ := Prod.mk.inj (Except.ok.inj he)
    refine h.congr (fun u => ?_) (fun u => ?_) ?_ rfl
    · rw [Kernel.dispatch_tcb]
    · rw [Kernel.dispatch_tcb]
    · rw [Kernel.dispatch_rest]

/-- **Priority inheritance with one mutex.** From tasks that have their own
priorities and a new mutex, in every state of every run the owner has the
most urgent of its own priority and those of the tasks on the wait chain, and
every other task has its own. -/
theorem inherits_of_run (hi : Init m s) (hp : ∀ t, (s.k.tcb t).prio = (s.k.tcb t).origPrio)
    {tr : List ((MutexCall n × Option OsErr) × MutexSys n)} (h : Run.Exec (Step m) s tr) :
    ∀ x ∈ Run.states s tr, Inherits m x.k := by
  have hprio : PrioInv m s := by
    refine ⟨fun o ho => ?_, fun t _ => hp t⟩
    rw [hi.mutex] at ho
    cases ho
  obtain ⟨lr, hinv⟩ := hi.inv
  intro x hx
  obtain ⟨⟨lr, hxi⟩, hxp⟩ := h.invariant (fun s => (∃ lr, Inv m s lr) ∧ PrioInv m s)
    (fun _ _ _ ⟨⟨_, h1⟩, h2⟩ hst => ⟨step_inv ⟨_, h1⟩ hst, exec_prio h1 h2 hst.1 hst.2⟩) ⟨⟨lr, hinv⟩, hprio⟩ x hx
  refine ⟨x.arrivals, hxi.lists.wait (), fun o ho => ?_, hxp.others⟩
  rw [hxp.owner o ho]
  exact minPrio_isLeast x.k x.arrivals o

/-- Task 2 has the mutex. The more urgent tasks 1 and 0 wait for it, task 0 with
a timeout, which expires; then task 1 gets the mutex. -/
theorem inherits_contendedRun : (Init 0 threeTasks ∧ ∀ t, (threeTasks.k.tcb t).prio = (threeTasks.k.tcb t).origPrio) ∧
    ∃ tr, Run.Exec (Step 0) threeTasks tr ∧ tr.length = 8 ∧ ∀ x ∈ Run.states threeTasks tr, Inherits 0 x.k := by
  refine ⟨⟨threeTasks_init, fun _ => rfl⟩, ?_⟩
  obtain ⟨tr, hex, hp⟩ := Run.exists_exec (f := Run.attempt Admissible (exec 0)) (fun _ _ _ => Run.step_of_attempt)
    (s := threeTasks)
    [(.dispatch 2 true, none), (.lock osWaitForever 0, some .osOk), (.dispatch 1 true, none),
      (.lock osWaitForever 8, none), (.dispatch 0 true, none), (.lock 5 7, none), (.expire 7, none),
      (.dispatch 2 false, none)]
    (fun tr => decide (tr.length = 8)) (by decide +kernel)
  exact ⟨tr, hex, of_decide_eq_true hp, inherits_of_run threeTasks_init (fun _ => rfl) hex⟩

end MutexSys

/-! ### Several mutexes -/

/-- The current task's priority is no greater than that of any task on the
wait chain of a mutex it owns. -/
def DonationsKept (k : Kernel n) : Prop :=
  ∀ m l t, (k.mutexes m).lock = .locked → (k.mutexes m).owner = some k.curr → Chain k.next (k.mutexes m).task l →
    t ∈ l → (k.tcb k.curr).prio ≤ (k.tcb t).prio

/-- The current task is on the ready queue `lr` and owns mutex `m`; the wait
chains of the mutexes are `lw`, and no task is on two of the lists. -/
structure Holding (k : Kernel n) (m : ℕ) (lr : List (Fin n)) (lw : ℕ → List (Fin n)) : Prop where
  lists : Lists k k lr (fun m => (k.mutexes m).task) lw
  queued : k.curr ∈ lr
  runs : (k.tcb k.curr).state.runnable = true
  locked : (k.mutexes m).lock = .locked
  owner : (k.mutexes m).owner = some k.curr

section Unlock

variable {k k' : Kernel n} {m : ℕ} {r : OsErr} {lr : List (Fin n)} {lw : ℕ → List (Fin n)}

theorem released_mutexes_of_ne (k : Kernel n) {m m' : ℕ} (h : m' ≠ m) :
    (released k m).mutexes m' = k.mutexes m' := by
  show Function.update k.mutexes m _ m' = _
  rw [Function.update_of_ne h]

theorem granted_mutexes_of_ne (k : Kernel n) {m m' : ℕ} (h : m' ≠ m) (t : Fin n) (l : List (Fin n)) :
    (granted k m t l).mutexes m' = k.mutexes m' := by
  show Function.update (stopTimerOf k t).mutexes m _ m' = _
  rw [Function.update_of_ne h, stopTimerOf_mutexes]

/-- What an unlock of `m` that returns leaves of the caller's other mutexes: all
of them, while the caller is back at its own priority and has lost `m`. -/
theorem Holding.unlock (h : Holding k m lr lw) (hk : rxMutexUnlock k m = .ok (r, k')) :
    r = .osOk ∧ k'.curr = k.curr ∧ (k'.tcb k.curr).prio = (k.tcb k.curr).origPrio ∧
      ¬ ((k'.mutexes m).lock = .locked ∧ (k'.mutexes m).owner = some k.curr) ∧
      ∀ m' ≠ m, k'.mutexes m' = k.mutexes m' ∧ Chain k'.next (k.mutexes m').task (lw m') ∧
        ∀ t ∈ lw m', (k'.tcb t).prio = (k.tcb t).prio := by
  have hcw : ∀ i, ∀ t ∈ lw i, t ≠ k.curr := by
    rintro i t ht rfl
    exact h.lists.notReady i _ ht h.queued
  obtain ⟨k1, lr', hrun, -, hcase⟩ := rxMutexUnlock_owner (i := m) h.lists rfl h.locked h.owner h.queued h.runs
  obtain ⟨rfl, rfl⟩ := Prod.mk.inj (Except.ok.inj (hrun.symm.trans hk))
  refine ⟨rfl, ?_⟩
  rcases hcase with ⟨-, hls, -⟩ | ⟨t, l, hwm, -, hls⟩
  · -- nobody waits for m
    refine ⟨hls.data.curr, ?_, ?_, fun m' hm' => ⟨?_, hls.wait m', fun u hu => ?_⟩⟩
    · rw [hls.data.prio, released_prio, if_pos rfl]
    · rintro ⟨hl, -⟩
      rw [hls.data.mutexes, released_mutexes] at hl
      cases hl
    · rw [hls.data.mutexes, released_mutexes_of_ne k hm']
    · rw [hls.data.prio, released_prio, if_neg (hcw m' u hu)]
  · -- the first waiter gets m
    have htm : t ∈ lw m := by rw [hwm]; exact List.mem_cons_self
    have hct : k.curr ≠ t := (hcw m t htm).symm
    have hcurr : k1.curr = k.curr := by
      rw [hls.data.curr, granted_curr]
      rfl
    refine ⟨hcurr, ?_, ?_, fun m' hm' => ⟨?_, ?_, fun u hu => ?_⟩⟩
    · rw [hls.data.prio, granted_prio, if_neg hct, released_prio, if_pos rfl]
    · rintro ⟨-, ho⟩
      rw [hls.data.mutexes, granted_mutexes] at ho
      exact hct (Option.some.inj ho).symm
    · rw [hls.data.mutexes, granted_mutexes_of_ne _ hm', released_mutexes_of_ne k hm']
    · have hchain := hls.wait m'
      rw [Function.update_of_ne hm', Function.update_of_ne hm'] at hchain
      exact hchain
    · have hut : u ≠ t := by
        rintro rfl
        exact hm' (h.lists.apart m' m u hu htm)
      rw [hls.data.prio, granted_prio, if_neg hut, released_prio, if_neg (hcw m' u hu)]

/-- **Unlocking one of several mutexes.** After an `rx_mutex_unlock` that returns
the caller is still as urgent as every task that waits on a mutex it owns, if and
only if no task that waits on one of its other mutexes is more urgent than the
caller's own priority. -/
theorem donationsKept_iff (h : Holding k m lr lw) (hk : rxMutexUnlock k m = .ok (r, k')) :
    DonationsKept k' ↔ ∀ m' ≠ m, (k.mutexes m').lock = .locked → (k.mutexes m').owner = some k.curr →
      ∀ t ∈ lw m', (k.tcb k.curr).origPrio ≤ (k.tcb t).prio := by
  obtain ⟨-, hcurr, hprio, hlost, hrest⟩ := h.unlock hk
  constructor
  · intro hkept m' hm' hl ho t ht
    obtain ⟨hmx, hchain, hsame⟩ := hrest m' hm'
    rw [← hmx] at hl ho hchain
    rw [← hcurr] at ho
    have hle := hkept m' (lw m') t hl ho hchain ht
    rw [hcurr, hprio, hsame t ht] at hle
    exact hle
  · intro hall m' l t hl ho hchain ht
    rw [hcurr] at ho
    have hm' : m' ≠ m := by
      rintro rfl
      exact hlost ⟨hl, ho⟩
    obtain ⟨hmx, hchain', hsame⟩ := hrest m' hm'
    rw [hmx] at hl ho hchain
    rw [hchain.unique hchain'] at ht
    rw [hcurr, hprio, hsame t ht]
    exact hall m' hm' hl ho t ht

end Unlock

/-- Task 2 owns two mutexes and task 0 waits for the first. The condition is
met when the first is unlocked, and not when the second is. -/
theorem donationsKept_of_first : ∃ (k : Kernel 3) (lw : ℕ → List (Fin 3)), Holding k 0 [2] lw ∧ Holding k 1 [2] lw ∧
    (∃ k', rxMutexUnlock k 0 = .ok (.osOk, k') ∧ DonationsKept k') ∧
    ∃ k', rxMutexUnlock k 1 = .ok (.osOk, k') ∧ ¬ DonationsKept k' := by
  let c0 : Tcb 3 := { mutex := some 0 }
  let c2 : Tcb 3 := { prio := 0, origPrio := 2, state := .running }
  let first : Mutex 3 := { lock := .locked, owner := some 2, task := some 0 }
  let second : Mutex 3 := { lock := .locked, owner := some 2 }
  let k : Kernel 3 :=
    { tcb := fun t => if t = 0 then c0 else c2, curr := 2, readyHead := some 2
      mutexes := fun m => if m = 0 then first else if m = 1 then second else {} }
  let lw : ℕ → List (Fin 3) := fun m => if m = 0 then [0] else []
  have hmem : ∀ i t, t ∈ lw i → i = 0 ∧ t = 0 := by
    intro i t ht
    by_cases hi : i = 0
    · subst hi
      exact ⟨rfl, List.mem_singleton.mp ht⟩
    · simp only [lw, if_neg hi, List.not_mem_nil] at ht
  have hlists : Lists k k [2] (fun m => (k.mutexes m).task) lw := by
    refine ⟨.refl k, Or.inl rfl, ⟨rfl, rfl⟩, fun i => ?_, fun i t ht => ?_, fun i j t hi hj => ?_⟩
    · rcases i with _ | _ | i
      · exact ⟨rfl, rfl⟩
      · rfl
      · rfl
    · rw [(hmem i t ht).2]
      decide
    · rw [(hmem i t hi).1, (hmem j t hj).1]
  have h0 : Holding k 0 [2] lw := ⟨hlists, List.mem_singleton.mpr rfl, rfl, rfl, rfl⟩
  have h1 : Holding k 1 [2] lw := ⟨hlists, List.mem_singleton.mpr rfl, rfl, rfl, rfl⟩
  have hok : ∀ m ∈ [0, 1], ∃ k', rxMutexUnlock k m = .ok (.osOk, k') := by
    intro m hm
    have hret : (rxMutexUnlock k m).toOption.map Prod.fst = some .osOk := by
      rcases List.mem_pair.mp hm with rfl | rfl <;> decide +kernel
    cases hx : rxMutexUnlock k m with
    | error e =>
      rw [hx] at hret
      cases hret
    | ok x =>
      rw [hx] at hret
      exact ⟨x.2, congrArg (fun r => Except.ok (r, x.2)) (Option.some.inj hret)⟩
  obtain ⟨k0, hk0⟩ := hok 0 (by simp)
  obtain ⟨k1, hk1⟩ := hok 1 (by simp)
  refine ⟨k, lw, h0, h1, ⟨k0, hk0, (donationsKept_iff h0 hk0).mpr fun m' hm' _ _ t ht => ?_⟩, k1, hk1, fun h => ?_⟩
  · exact absurd (hmem m' t ht).1 hm'
  · have hle := (donationsKept_iff h1 hk1).mp h 0 (by decide) rfl rfl 0 (List.mem_singleton.mpr rfl)
    exact absurd hle (by decide)

/-- Two tasks suspend themselves; the third takes two mutexes and resumes `t`,
which then waits for the first of them. -/
def contendFirst (k : Kernel n) (t : Fin n) : Res (Kernel n) := do
  let (_, k) ← rxSuspendTask k none
  let (_, k) ← rxSuspendTask k none
  let (_, k) ← rxMutexLock k 0 osWaitForever 0
  let (_, k) ← rxMutexLock k 1 osWaitForever 0
  let (_, k) ← rxResumeTask k t
  let k ← rxSched k
  let (_, k) ← rxMutexLock k 0 osWaitForever 0
  return k

/-- Task 2 unlocks the second mutex and falls back to its own priority, though
the more urgent task 0 still waits for the first. -/
theorem unlock_drops_donation : ∃ k k',
    contendFirst (rxCreateMutex (rxCreateMutex (Kernel.allReady 2) 0).2 1).2 0 = .ok k ∧
    (k.mutexes 1).owner = some k.curr ∧ (k.tcb k.curr).prio = (k.tcb 0).prio ∧
    rxMutexUnlock k 1 = .ok (.osOk, k') ∧ ¬ DonationsKept k' := by
  have hrun : ((contendFirst (rxCreateMutex (rxCreateMutex (Kernel.allReady 2) 0).2 1).2 0).bind fun k =>
      (rxMutexUnlock k 1).map fun r => decide (r.1 = .osOk ∧
        (k.mutexes 1).owner = some k.curr ∧ (k.tcb k.curr).prio = (k.tcb 0).prio ∧
        (r.2.mutexes 0).lock = .locked ∧ (r.2.mutexes 0).owner = some r.2.curr ∧ (r.2.mutexes 0).task = some 0 ∧
        r.2.next 0 = none ∧ ¬ (r.2.tcb r.2.curr).prio ≤ (r.2.tcb 0).prio)) = .ok true := by decide +kernel
  obtain ⟨k, hk, hrun⟩ := bind_eq_ok.mp hrun
  obtain ⟨⟨r, k'⟩, hk', hp⟩ := map_eq_ok.mp hrun
  obtain ⟨rfl, hown, hsame, hl, ho, htask, hnext, hlt⟩ := of_decide_eq_true hp
  refine ⟨k, k', hk, hown, hsame, hk', fun h => hlt ?_⟩
  exact h 0 [0] 0 hl ho ⟨htask, hnext⟩ (List.mem_singleton.mpr rfl)

end Rosx
