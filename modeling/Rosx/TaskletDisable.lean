/-
# Disabling tasklets

`rx_disable_tasklet` takes a scheduled tasklet off `sys_tasklet_list`, at any
place. It finds out by `prev` whether the tasklet is the first one; but the
bottom half moves the head on and leaves the `prev` of the new one. A run is
any sequence of the five services of `Rosx/Tasklet.lean` and of
`rx_disable_tasklet`. Next to the kernel's data it keeps the tasklets
scheduled and neither run nor disabled since, in order, and what has happened
to each tasklet since it was last disabled.

What the bottom half runs next is the first of these tasklets, and it has been
enabled and scheduled again, as long as every tasklet that is put on the list
has no `next`, and every first one that is disabled has no `prev`; and no longer
(`runsInOrder_iff`).

Key definitions: `DisableSys.exec`, `DisableSys.RunsInOrder`,
`DisableSys.LinksClear`.
-/
import Rosx.Tasklet

namespace Rosx

open Linked Tasklets

variable {n : ℕ}

/-! ### Taking a tasklet off the list -/

namespace Tasklets

variable {k k' : Tasklets n} {t u : Fin n} {v : Option (Fin n)}

/-- The links stay. -/
theorem setTasklet_links {x : Tasklet n} (hn : x.next = (k.tasklet t).next) (hp : x.prev = (k.tasklet t).prev) :
    (k.setTasklet t x).nx = k.nx ∧ (k.setTasklet t x).pv = k.pv := by
  refine ⟨funext fun u => ?_, funext fun u => ?_⟩
  · by_cases hu : u = t
    · subst hu
      simpa [nx, setTasklet] using hn
    · simp [nx, setTasklet, hu]
  · by_cases hu : u = t
    · subst hu
      simpa [pv, setTasklet] using hp
    · simp [pv, setTasklet, hu]

theorem setTasklet_sched {x : Tasklet n} (u : Fin n) :
    (k.setTasklet t x).sched u = if u = t then x.status.getLsbD 1 else k.sched u := by
  by_cases hu : u = t
  · subst hu
    simp [TaskletSys.sched_eq, setTasklet]
  · simp [TaskletSys.sched_eq, setTasklet, hu]

/-- A link of one tasklet. -/
def setNx (k : Tasklets n) (t : Fin n) (v : Option (Fin n)) : Tasklets n :=
  k.setTasklet t { k.tasklet t with next := v }

def setPv (k : Tasklets n) (t : Fin n) (v : Option (Fin n)) : Tasklets n :=
  k.setTasklet t { k.tasklet t with prev := v }

/-- A field that is not the `next` link. -/
theorem setNx_keeps {β : Type*} (k : Tasklets n) (t u : Fin n) (v : Option (Fin n)) (g : Tasklet n → β)
    (hg : ∀ x w, g { x with next := w } = g x) : g ((k.setNx t v).tasklet u) = g (k.tasklet u) := by
  by_cases hu : u = t
  · subst hu
    simpa [setNx, setTasklet] using hg _ _
  · simp [setNx, setTasklet, hu]

theorem setPv_keeps {β : Type*} (k : Tasklets n) (t u : Fin n) (v : Option (Fin n)) (g : Tasklet n → β)
    (hg : ∀ x w, g { x with prev := w } = g x) : g ((k.setPv t v).tasklet u) = g (k.tasklet u) := by
  by_cases hu : u = t
  · subst hu
    simpa [setPv, setTasklet] using hg _ _
  · simp [setPv, setTasklet, hu]

@[simp] theorem setNx_nx (k : Tasklets n) (t : Fin n) (v : Option (Fin n)) :
    (k.setNx t v).nx = Function.update k.nx t v := by
  funext u
  by_cases hu : u = t
  · subst hu
    simp [setNx, nx, setTasklet]
  · simp [setNx, nx, setTasklet, hu]

@[simp] theorem setPv_pv (k : Tasklets n) (t : Fin n) (v : Option (Fin n)) :
    (k.setPv t v).pv = Function.update k.pv t v := by
  funext u
  by_cases hu : u = t
  · subst hu
    simp [setPv, pv, setTasklet]
  · simp [setPv, pv, setTasklet, hu]

@[simp] theorem setNx_pv (k : Tasklets n) (t : Fin n) (v : Option (Fin n)) : (k.setNx t v).pv = k.pv :=
  funext fun u => setNx_keeps k t u v Tasklet.prev fun _ _ => rfl

@[simp] theorem setPv_nx (k : Tasklets n) (t : Fin n) (v : Option (Fin n)) : (k.setPv t v).nx = k.nx :=
  funext fun u => setPv_keeps k t u v Tasklet.next fun _ _ => rfl

/-- The tasklet before `t`, or the head, is joined to the one after `t`. -/
def joinBefore (k : Tasklets n) (t : Fin n) : Tasklets n :=
  match k.pv t with
  | some p => k.setNx p (k.nx t)
  | none => { k with sysTaskletList := k.nx t }

/-- The tasklet after `t` is joined to the one before `t`. -/
def joinAfter (k : Tasklets n) (t : Fin n) : Tasklets n :=
  match k.nx t with
  | some x => k.setPv x (k.pv t)
  | none => k

/-- A tasklet without neighbours is not a special case. -/
theorem removeTasklet_eq (k : Tasklets n) (t : Fin n) :
    k.removeTasklet t = (((k.joinBefore t).joinAfter t).setNx t none).setPv t none := by
  have hclear : ∀ k : Tasklets n, k.setTasklet t { k.tasklet t with next := none, prev := none } =
      (k.setNx t none).setPv t none := by
    intro k
    simp [setNx, setPv, setTasklet]
  unfold removeTasklet
  by_cases h : (k.tasklet t).prev = none ∧ (k.tasklet t).next = none
  · have hjoin : (k.joinBefore t).joinAfter t = { k with sysTaskletList := none } := by
      simp [joinBefore, joinAfter, nx, pv, h]
    rw [hjoin]
    simp only [if_pos h]
    exact hclear _
  · simp only [if_neg h]
    exact hclear _

theorem removeTasklet_status (k : Tasklets n) (t u : Fin n) :
    ((k.removeTasklet t).tasklet u).status = (k.tasklet u).status := by
  rw [removeTasklet_eq, setPv_keeps _ t u _ Tasklet.status fun _ _ => rfl,
    setNx_keeps _ t u _ Tasklet.status fun _ _ => rfl]
  have hbefore : ((k.joinBefore t).tasklet u).status = (k.tasklet u).status := by
    unfold joinBefore
    split
    · exact setNx_keeps _ _ u _ Tasklet.status fun _ _ => rfl
    · rfl
  refine Eq.trans ?_ hbefore
  unfold joinAfter
  split
  · exact setPv_keeps _ _ u _ Tasklet.status fun _ _ => rfl
  · rfl

/-- The head stays if the tasklet has a `prev`, right or wrong. -/
theorem removeTasklet_head {p : Fin n} (hp : k.pv t = some p) :
    (k.removeTasklet t).sysTaskletList = k.sysTaskletList := by
  rw [removeTasklet_eq]
  show ((k.joinBefore t).joinAfter t).sysTaskletList = _
  unfold joinAfter
  split
  all_goals
    simp only [joinBefore, hp]
    rfl

section Remove

variable {p : Option (Fin n)} {a b : List (Fin n)}

theorem joinBefore_chain (hl : Chain k.nx k.sysTaskletList (a ++ t :: b)) (hb : BackLinks k.pv p (a ++ t :: b))
    (hp : a = [] → k.pv t = none) : Chain (k.joinBefore t).nx (k.joinBefore t).sysTaskletList (a ++ b) ∧
      (k.joinBefore t).nx t = k.nx t ∧ (k.joinBefore t).pv = k.pv := by
  rcases List.eq_nil_or_concat' a with rfl | ⟨a, q, rfl⟩
  · unfold joinBefore
    simp only [hp rfl]
    exact ⟨hl.2, rfl, rfl⟩
  · rw [List.append_assoc] at hl hb
    have hq : k.pv t = some q := (backLinks_append.mp hb).2.1
    have hqt : t ≠ q := by
      have hnd := hl.nodup
      rintro rfl
      exact (notMem_of_nodup_append hnd).2 List.mem_cons_self
    unfold joinBefore
    simp only [hq, setNx_nx, setNx_pv, Function.update_of_ne hqt, and_true]
    rw [List.append_assoc]
    exact hl.removeAfter

theorem joinAfter_nx (k : Tasklets n) (t : Fin n) : (k.joinAfter t).nx = k.nx := by
  unfold joinAfter
  split
  · exact setPv_nx _ _ _
  · rfl

theorem joinAfter_head (k : Tasklets n) (t : Fin n) : (k.joinAfter t).sysTaskletList = k.sysTaskletList := by
  unfold joinAfter
  split <;> rfl

theorem joinAfter_back (ht : k.nx t = b.head?) (hb : BackLinks k.pv p (a ++ t :: b)) (hnd : (a ++ t :: b).Nodup) :
    BackLinks (k.joinAfter t).pv p (a ++ b) := by
  unfold joinAfter
  cases b with
  | nil =>
    simp only [ht, List.head?_nil, List.append_nil]
    exact hb.of_append
  | cons x b =>
    simp only [ht, List.head?_cons, setPv_pv]
    exact hb.remove hnd

/-- A tasklet of the list with the right `prev` is taken off, wherever it is. -/
theorem removeTasklet_chain (hl : Chain k.nx k.sysTaskletList (a ++ t :: b)) (hb : BackLinks k.pv p (a ++ t :: b))
    (hp : a = [] → k.pv t = none) : Chain (k.removeTasklet t).nx (k.removeTasklet t).sysTaskletList (a ++ b) ∧
      BackLinks (k.removeTasklet t).pv p (a ++ b) := by
  have hnd := hl.nodup
  obtain ⟨hta, htb⟩ := notMem_of_nodup_append hnd
  have hnot : t ∉ a ++ b := fun h => (List.mem_append.mp h).elim hta htb
  have ht : k.nx t = b.head? := hl.next_eq
  obtain ⟨h1, hnx, hpv⟩ := joinBefore_chain hl hb hp
  rw [removeTasklet_eq]
  simp only [setPv_nx, setPv_pv, setNx_nx, setNx_pv, joinAfter_nx]
  refine ⟨?_, (joinAfter_back (hnx.trans ht) (hpv ▸ hb) hnd).update_of_notMem hnot⟩
  show Chain _ ((k.joinBefore t).joinAfter t).sysTaskletList (a ++ b)
  rw [joinAfter_head]
  exact h1.update_of_notMem hnot

end Remove

end Tasklets

/-! ### Runs -/

/-- What has happened to a tasklet since it was last disabled: nothing, it has
been enabled, or it has been scheduled after that. A tasklet that was never
disabled needs nothing. -/
inductive SinceDisable where
  | disabled
  | enabled
  | cleared
  deriving DecidableEq

/-- The tasklets, which of them are initialised, the one the bottom half is
running, those that are scheduled and neither run nor disabled since, and what
has happened to each since it was disabled. -/
structure DisableSys (n : ℕ) where
  k : Tasklets n
  inited : Finset (Fin n) := ∅
  running : Option (Fin n) := none
  queue : List (Fin n) := []
  since : Fin n → SinceDisable := fun _ => .cleared

/-- A step of a run. -/
inductive DisableCall (n : ℕ) where
  | init (t : Option (Fin n)) (func : Option ℕ) (data : ℕ)
  | enable (t : Option (Fin n))
  | disable (t : Option (Fin n))
  | schedule (t : Option (Fin n))
  | bhBegin
  | bhEnd

namespace DisableSys

/-- A tasklet is initialised once, and before its other calls. -/
def Admissible (s : DisableSys n) : DisableCall n → Prop
  | .init t _ _ => ∀ x ∈ t, x ∉ s.inited
  | .enable t | .disable t | .schedule t => ∀ x ∈ t, x ∈ s.inited
  | .bhBegin => s.running = none
  | .bhEnd => True

instance (s : DisableSys n) : ∀ c, Decidable (s.Admissible c)
  | .init t _ _ => inferInstanceAs (Decidable (∀ x ∈ t, x ∉ s.inited))
  | .enable t | .disable t | .schedule t => inferInstanceAs (Decidable (∀ x ∈ t, x ∈ s.inited))
  | .bhBegin => inferInstanceAs (Decidable (s.running = none))
  | .bhEnd => inferInstanceAs (Decidable True)

/-- A tasklet that was disabled is enabled. -/
def onEnable (f : Fin n → SinceDisable) (t : Option (Fin n)) (x : Fin n) : SinceDisable :=
  if some x = t ∧ f x = .disabled then .enabled else f x

/-- A tasklet that was disabled and then enabled is put on the list. -/
def onSchedule (f : Fin n → SinceDisable) (l : List (Fin n)) (x : Fin n) : SinceDisable :=
  if l.contains x ∧ f x = .enabled then .cleared else f x

/-- What a call does. The bottom half waits while the list is empty. -/
def exec (s : DisableSys n) : DisableCall n → Option (DisableSys n)
  | .init t func data =>
    let r := rxInitTasklet s.k t func data
    some { s with k := r.2, inited := TaskletSys.nowInited s.inited r.1 t }
  | .enable t => some { s with k := rxEnableTasklet s.k t, since := onEnable s.since t }
  | .disable t => some { s with
      k := rxDisableTasklet s.k t, queue := s.queue.filter (some · ≠ t),
      since := fun x => if some x = t then .disabled else s.since x }
  | .schedule t =>
    match rxScheduleTasklet s.k t with
    | .ok k =>
      let l := TaskletSys.bitSet s.k k t
      some { s with k := k, queue := s.queue ++ l, since := onSchedule s.since l }
    | .error _ => none
  | .bhBegin => (bhBegin s.k).map fun r => { s with k := r.2, running := some r.1, queue := s.queue.erase r.1 }
  | .bhEnd => s.running.map fun run => { s with k := bhEnd s.k run, running := none }

/-- One step of a run. -/
def Step (s : DisableSys n) (c : DisableCall n) (s' : DisableSys n) : Prop := s.Admissible c ∧ s.exec c = some s'

/-- Nothing is initialised, scheduled or running. -/
structure Init (s : DisableSys n) : Prop where
  list : s.k.sysTaskletList = none
  inited : s.inited = ∅
  running : s.running = none
  queue : s.queue = []
  since : ∀ t, s.since t = .cleared

/-- The bottom half runs the tasklets that are scheduled and neither run nor
disabled since, in their order. The next one has been enabled and scheduled
again if it was disabled. -/
structure RunsInOrder (s : DisableSys n) : Prop where
  next : s.k.sysTaskletList = s.queue.head?
  order : Chain s.k.nx s.k.sysTaskletList s.queue
  again : ∀ t, s.k.sysTaskletList = some t → s.since t = .cleared

/-- A tasklet that the call puts on the list has no `next`; one that it
disables at the head of the list has no `prev`. -/
def LinksClear (s : DisableSys n) : DisableCall n → Prop
  | .schedule (some t) =>
    (s.k.tasklet t).status &&& rxSchedTasklet = 0 → (s.k.tasklet t).status &&& rxEnabledTasklet ≠ 0 →
      (s.k.tasklet t).next = none
  | .disable (some t) => s.k.sched t = true → s.k.sysTaskletList = some t → (s.k.tasklet t).prev = none
  | _ => True

instance (s : DisableSys n) : ∀ c, Decidable (s.LinksClear c)
  | .schedule (some t) => inferInstanceAs (Decidable
      ((s.k.tasklet t).status &&& rxSchedTasklet = 0 → (s.k.tasklet t).status &&& rxEnabledTasklet ≠ 0 →
        (s.k.tasklet t).next = none))
  | .disable (some t) => inferInstanceAs (Decidable
      (s.k.sched t = true → s.k.sysTaskletList = some t → (s.k.tasklet t).prev = none))
  | .schedule none | .disable none | .init _ _ _ | .enable _ | .bhBegin | .bhEnd => inferInstanceAs (Decidable True)

/-- The list holds the tasklets that are scheduled, in order and with their
back links, but for that of the first one. A disabled tasklet has no bits. -/
structure Inv (s : DisableSys n) : Prop where
  chain : Chain s.k.nx s.k.sysTaskletList s.queue
  back : ∃ p, BackLinks s.k.pv p s.queue
  mem : ∀ t, t ∈ s.queue ↔ t ∈ s.inited ∧ s.k.sched t
  bits : ∀ t, s.since t = .disabled → (s.k.tasklet t).status = rxDisabledTasklet
  again : ∀ t ∈ s.queue, s.since t = .cleared

section Steps

variable {s s' : DisableSys n}

theorem Inv.runsInOrder (h : Inv s) : RunsInOrder s := by
  have hhead := Seg.head h.chain
  refine ⟨hhead, h.chain, fun t ht => h.again t ?_⟩
  rw [hhead] at ht
  exact List.mem_of_head? ht

theorem Init.inv (h : Init s) : Inv s := by
  refine ⟨?_, ⟨none, ?_⟩, ?_, ?_, ?_⟩
  · rw [h.queue]
    exact h.list
  · rw [h.queue]
    trivial
  · simp [h.queue, h.inited]
  · intro t ht
    rw [h.since t] at ht
    cases ht
  · simp [h.queue]

/-- Steps that keep the list, the links of its tasklets and which of the
initialised ones are scheduled. -/
theorem Inv.congr (h : Inv s) (hhead : s'.k.sysTaskletList = s.k.sysTaskletList)
    (hlinks : ∀ t ∈ s.queue, s'.k.nx t = s.k.nx t ∧ s'.k.pv t = s.k.pv t)
    (hmem : ∀ t, t ∈ s'.inited ∧ s'.k.sched t ↔ t ∈ s.inited ∧ s.k.sched t) (hqueue : s'.queue = s.queue)
    (hbits : ∀ t, s'.since t = .disabled → (s'.k.tasklet t).status = rxDisabledTasklet)
    (hagain : ∀ t ∈ s.queue, s'.since t = .cleared) : Inv s' := by
  obtain ⟨p, hp⟩ := h.back
  refine ⟨?_, ⟨p, ?_⟩, fun t => ?_, hbits, ?_⟩
  · rw [hhead, hqueue]
    exact h.chain.congr fun t ht => (hlinks t ht).1
  · rw [hqueue]
    exact hp.congr fun t ht => (hlinks t ht).2
  · rw [hqueue, h.mem, hmem]
  · rw [hqueue]
    exact hagain

theorem Inv.init (h : Inv s) {t : Option (Fin n)} {func : Option ℕ} {data : ℕ} (ha : ∀ x ∈ t, x ∉ s.inited)
    (he : s.exec (.init t func data) = some s') : Inv s' := by
  obtain rfl := Option.some.inj he
  cases t with
  | none => exact h
  | some x =>
    cases func with
    | none => exact h
    | some f =>
      have hx : x ∉ s.inited := ha x rfl
      refine h.congr rfl (fun t ht => ?_) (fun t => ?_) rfl (fun t ht => ?_) h.again
      · have htx : t ≠ x := ne_of_mem_of_not_mem ((h.mem t).mp ht).1 hx
        simp [rxInitTasklet, nx, pv, setTasklet, htx]
      · by_cases htx : t = x
        · subst htx
          simp [rxInitTasklet, setTasklet_sched, rxDisabledTasklet, hx]
        · simp [rxInitTasklet, TaskletSys.nowInited, setTasklet_sched, htx]
      · by_cases htx : t = x
        · subst htx
          simp [rxInitTasklet, setTasklet]
        · simpa [rxInitTasklet, setTasklet, htx] using h.bits t ht

theorem Inv.enable (h : Inv s) {t : Option (Fin n)} (he : s.exec (.enable t) = some s') : Inv s' := by
  obtain rfl := Option.some.inj he
  cases t with
  | none => exact h
  | some x =>
    have hagain : ∀ t ∈ s.queue, onEnable s.since (some x) t = .cleared := by
      intro t ht
      simp [onEnable, h.again t ht]
    have hbits : ∀ t, onEnable s.since (some x) t = .disabled → t ≠ x ∧ s.since t = .disabled := by
      intro t ht
      unfold onEnable at ht
      split_ifs at ht with hc
      exact ⟨fun htx => hc ⟨congrArg some htx, ht⟩, ht⟩
    by_cases hx : (s.k.tasklet x).status = rxDisabledTasklet
    · have hk : rxEnableTasklet s.k (some x) = s.k.setTasklet x { s.k.tasklet x with status := rxEnabledTasklet } :=
        if_pos hx
      obtain ⟨hnx, hpv⟩ := setTasklet_links (k := s.k) (t := x)
        (x := { s.k.tasklet x with status := rxEnabledTasklet }) rfl rfl
      refine h.congr ?_ (fun t _ => ?_) (fun t => ?_) rfl (fun t ht => ?_) hagain
      · rw [hk]
        rfl
      · rw [hk, hnx, hpv]
        exact ⟨rfl, rfl⟩
      · by_cases htx : t = x
        · subst htx
          have hbit : rxEnabledTasklet.getLsbD 1 = rxDisabledTasklet[1] := by decide
          rw [hk, setTasklet_sched, if_pos rfl, TaskletSys.sched_eq, hx, ← hbit]
        · simp [hk, setTasklet_sched, htx]
      · obtain ⟨htx, hd⟩ := hbits t ht
        simpa [hk, setTasklet, htx] using h.bits t hd
    · have hk : rxEnableTasklet s.k (some x) = s.k := if_neg hx
      rw [hk]
      exact h.congr rfl (fun _ _ => ⟨rfl, rfl⟩) (fun _ => Iff.rfl) rfl (fun t ht => h.bits t (hbits t ht).2) hagain

/-- A tasklet that is not scheduled is disabled. -/
theorem Inv.disableIdle (h : Inv s) {t : Fin n} (ht : t ∉ s.queue) {k : Tasklets n}
    (hk : k = s.k.setTasklet t { s.k.tasklet t with status := rxDisabledTasklet }) :
    Inv { s with k := k, since := fun x => if some x = some t then .disabled else s.since x } := by
  obtain ⟨hnx, hpv⟩ := setTasklet_links (k := s.k) (t := t)
    (x := { s.k.tasklet t with status := rxDisabledTasklet }) rfl rfl
  subst hk
  refine h.congr rfl (fun u _ => ?_) (fun u => ?_) rfl (fun u hu => ?_) fun u hu => ?_
  · rw [hnx, hpv]
    exact ⟨rfl, rfl⟩
  · by_cases hut : u = t
    · subst hut
      have hno : ¬ (u ∈ s.inited ∧ s.k.sched u = true) := mt (h.mem u).mpr ht
      rw [setTasklet_sched, if_pos rfl]
      have hbit : rxDisabledTasklet.getLsbD 1 = false := by decide
      exact iff_of_false (fun hc => Bool.false_ne_true (hbit.symm.trans hc.2)) hno
    · rw [setTasklet_sched, if_neg hut]
  · by_cases hut : u = t
    · subst hut
      simp [setTasklet]
    · simp only [Option.some.injEq, hut, if_false] at hu
      simpa [setTasklet, hut] using h.bits u hu
  · have hut : u ≠ t := ne_of_mem_of_not_mem hu ht
    simpa [hut] using h.again u hu

/-- A scheduled tasklet with the right `prev` is disabled. -/
theorem Inv.disableScheduled (h : Inv s) {t : Fin n} (ht : t ∈ s.queue)
    (hclear : s.k.sysTaskletList = some t → (s.k.tasklet t).prev = none) {k : Tasklets n}
    (hk : k = (s.k.removeTasklet t).setTasklet t
      { (s.k.removeTasklet t).tasklet t with status := rxDisabledTasklet }) :
    Inv { s with
      k := k, queue := s.queue.filter (some · ≠ some t)
      since := fun x => if some x = some t then .disabled else s.since x } := by
  obtain ⟨a, b, hab⟩ := List.append_of_mem ht
  have hl := h.chain
  obtain ⟨p, hp⟩ := h.back
  rw [hab] at hl hp
  have hnd := hl.nodup
  obtain ⟨hta, htb⟩ := notMem_of_nodup_append hnd
  have hfilter : s.queue.filter (some · ≠ some t) = a ++ b := by
    have hkeep : ∀ l : List (Fin n), t ∉ l → l.filter (fun u => decide (some u ≠ some t)) = l := by
      intro l hl
      apply List.filter_eq_self.mpr
      intro u hu
      simpa using ne_of_mem_of_not_mem hu hl
    rw [hab, List.filter_append, List.filter_cons, hkeep a hta, hkeep b htb]
    simp
  obtain ⟨hchain, hback⟩ := removeTasklet_chain hl hp fun ha => hclear (by rw [Seg.head hl, ha]; rfl)
  obtain ⟨hnx, hpv⟩ := setTasklet_links (k := s.k.removeTasklet t) (t := t)
    (x := { (s.k.removeTasklet t).tasklet t with status := rxDisabledTasklet }) rfl rfl
  subst hk
  refine ⟨?_, ⟨p, ?_⟩, fun u => ?_, fun u hu => ?_, fun u hu => ?_⟩
  · show Chain _ (s.k.removeTasklet t).sysTaskletList _
    rw [hfilter, hnx]
    exact hchain
  · rw [hfilter, hpv]
    exact hback
  · show u ∈ s.queue.filter (some · ≠ some t) ↔ _
    rw [setTasklet_sched]
    by_cases hut : u = t
    · subst hut
      simp [rxDisabledTasklet]
    · rw [if_neg hut]
      have hsched : (s.k.removeTasklet t).sched u = s.k.sched u := by
        unfold sched
        rw [removeTasklet_status]
      rw [hsched, List.mem_filter]
      simpa [hut] using h.mem u
  · by_cases hut : u = t
    · subst hut
      simp [setTasklet]
    · simp only [Option.some.injEq, hut, if_false] at hu
      have hst := h.bits u hu
      rw [← removeTasklet_status s.k t u] at hst
      simpa [setTasklet, hut] using hst
  · obtain ⟨hu, hut⟩ := List.mem_filter.mp hu
    have hut' : u ≠ t := by simpa using hut
    simpa [hut'] using h.again u hu

theorem Inv.disable (h : Inv s) {t : Option (Fin n)} (ha : ∀ x ∈ t, x ∈ s.inited) (hc : s.LinksClear (.disable t))
    (he : s.exec (.disable t) = some s') : Inv s' := by
  obtain rfl := Option.some.inj he
  cases t with
  | none => simpa [rxDisableTasklet] using h
  | some t =>
    have hqueue : t ∉ s.queue → s.queue.filter (some · ≠ some t) = s.queue := by
      intro ht
      apply List.filter_eq_self.mpr
      intro u hu
      simpa using ne_of_mem_of_not_mem hu ht
    have hin : t ∈ s.inited := ha t rfl
    by_cases hst : (s.k.tasklet t).status ≠ rxDisabledTasklet
    · by_cases hs : s.k.sched t = true
      · have hk : rxDisableTasklet s.k (some t) = (s.k.removeTasklet t).setTasklet t
            { (s.k.removeTasklet t).tasklet t with status := rxDisabledTasklet } := by
          simp only [rxDisableTasklet, if_pos hst, if_pos hs]
        exact h.disableScheduled ((h.mem t).mpr ⟨hin, hs⟩) (hc hs) hk
      · have ht : t ∉ s.queue := fun hq => hs ((h.mem t).mp hq).2
        have hk : rxDisableTasklet s.k (some t) =
            s.k.setTasklet t { s.k.tasklet t with status := rxDisabledTasklet } := by
          simp only [rxDisableTasklet, if_pos hst, if_neg hs]
        rw [hqueue ht]
        exact h.disableIdle ht hk
    · have hst' : (s.k.tasklet t).status = rxDisabledTasklet := not_not.mp hst
      have ht : t ∉ s.queue := by
        intro hq
        have := ((h.mem t).mp hq).2
        rw [TaskletSys.sched_eq, hst'] at this
        exact absurd this (by decide)
      have hk : rxDisableTasklet s.k (some t) =
          s.k.setTasklet t { s.k.tasklet t with status := rxDisabledTasklet } := by
        rw [rxDisableTasklet, if_neg hst, ← hst']
        simp [setTasklet]
      rw [hqueue ht]
      exact h.disableIdle ht hk

/-- A call that sets no bit changes nothing. -/
theorem Inv.scheduleIdle (h : Inv s) {t : Option (Fin n)}
    (ht : ∀ x ∈ t, ¬ ((s.k.tasklet x).status &&& rxSchedTasklet = 0 ∧ (s.k.tasklet x).status &&& rxEnabledTasklet ≠ 0))
    (he : s.exec (.schedule t) = some s') : Inv s' := by
  have hk : rxScheduleTasklet s.k t = .ok s.k := by
    cases t with
    | none => rfl
    | some x => exact if_neg (ht x rfl)
  have hbit : TaskletSys.bitSet s.k s.k t = [] := by
    apply List.filter_eq_nil_iff.mpr
    intro x _
    simp
  have hsince : onSchedule s.since [] = s.since := by
    funext x
    simp [onSchedule]
  simp only [exec, hk, hbit, hsince, List.append_nil] at he
  obtain rfl := Option.some.inj he
  exact h

/-- What a call that puts a tasklet on the list does. -/
theorem Inv.scheduled (h : Inv s) {t : Fin n} (hin : t ∈ s.inited)
    (hs : (s.k.tasklet t).status &&& rxSchedTasklet = 0) (hen : (s.k.tasklet t).status &&& rxEnabledTasklet ≠ 0)
    (he : s.exec (.schedule (some t)) = some s') : TaskletSys.Appended s.k s'.k t s.queue ∧
      s'.queue = s.queue ++ [t] ∧ (s.k.nx t = none → Inv s') := by
  have hsch : s.k.sched t = false := by simp [sched, hs]
  have ht : t ∉ s.queue := by
    intro hq
    rw [((h.mem t).mp hq).2] at hsch
    cases hsch
  obtain ⟨k', hk', happ, hstatus⟩ := TaskletSys.schedule_spec h.chain ht hs hen
  have hsched := TaskletSys.schedule_sched hstatus
  have hbit : TaskletSys.bitSet s.k k' (some t) = [t] := by simp [TaskletSys.bitSet, hsch, hsched]
  simp only [exec, hk', hbit] at he
  obtain rfl := Option.some.inj he
  refine ⟨happ, rfl, fun hnext => ?_⟩
  obtain ⟨p, hp⟩ := h.back
  have hseg := happ.seg
  rw [hnext] at hseg
  have hon : s.since t ≠ .disabled := by
    intro hd
    rw [h.bits t hd] at hen
    exact hen (by decide)
  refine ⟨hseg, happ.back p hp, fun x => ?_, fun x hx => ?_, fun x hx => ?_⟩
  · show x ∈ s.queue ++ [t] ↔ _
    rw [List.mem_append, List.mem_singleton, h.mem, hsched]
    by_cases hxt : x = t
    · subst hxt
      simp [hin]
    · simp [hxt]
  · have hx' : s.since x = .disabled := by
      have hx : onSchedule s.since [t] x = .disabled := hx
      unfold onSchedule at hx
      split_ifs at hx
      exact hx
    have hxt : x ≠ t := by
      rintro rfl
      exact hon hx'
    show (k'.tasklet x).status = _
    rw [hstatus, if_neg hxt]
    exact h.bits x hx'
  · show onSchedule s.since [t] x = .cleared
    rcases List.mem_append.mp hx with hx | hx
    · simp [onSchedule, h.again x hx]
    · obtain rfl := List.mem_singleton.mp hx
      cases hc : s.since x with
      | disabled => exact absurd hc hon
      | enabled => simp [onSchedule, hc]
      | cleared => simp [onSchedule, hc]

theorem Inv.bhEnd (h : Inv s) (he : s.exec .bhEnd = some s') : Inv s' := by
  obtain ⟨run, _, rfl⟩ := Option.map_eq_some_iff.mp he
  obtain ⟨hnx, hpv⟩ := setTasklet_links (k := s.k) (t := run)
    (x := { s.k.tasklet run with status := (s.k.tasklet run).status &&& ~~~rxRunningTasklet }) rfl rfl
  refine h.congr rfl (fun t _ => ⟨congrFun hnx t, congrFun hpv t⟩) (fun t => ?_) rfl (fun t ht => ?_) h.again
  · unfold Tasklets.bhEnd
    rw [setTasklet_sched]
    by_cases htr : t = run
    · subst htr
      simp [TaskletSys.sched_eq, rxRunningTasklet]
    · simp [htr]
  · have hst := h.bits t ht
    unfold Tasklets.bhEnd
    by_cases htr : t = run
    · subst htr
      simp [setTasklet, hst, rxDisabledTasklet]
    · simpa [setTasklet, htr] using hst

/-- The head goes from the list to the bottom half; the one behind it keeps its
back link. -/
theorem Inv.bhBegin (h : Inv s) (he : s.exec .bhBegin = some s') : Inv s' := by
  obtain ⟨⟨run, k⟩, hb, rfl⟩ := Option.map_eq_some_iff.mp he
  obtain ⟨head, hhead, hk⟩ := Option.map_eq_some_iff.mp hb
  obtain ⟨p, hp⟩ := h.back
  have hl := h.chain
  cases hq : s.queue with
  | nil =>
    rw [hq] at hl
    rw [show s.k.sysTaskletList = none from hl] at hhead
    cases hhead
  | cons a l =>
    rw [hq] at hl hp
    obtain rfl : a = head := Option.some.inj (hl.1.symm.trans hhead)
    obtain ⟨rfl, rfl⟩ := Prod.mk.inj hk
    obtain ⟨hal, -⟩ := List.nodup_cons.mp hl.nodup
    have ha : a ∈ s.queue := by simp [hq]
    refine ⟨?_, ⟨some a, ?_⟩, fun t => ?_, fun t ht => ?_, fun t ht => ?_⟩
    · show Chain _ (s.k.nx a) ((a :: l).erase a)
      rw [List.erase_cons_head]
      refine hl.2.congr fun t ht => ?_
      have hta : t ≠ a := ne_of_mem_of_not_mem ht hal
      simp [nx, setTasklet, hta]
    · show BackLinks _ _ ((a :: l).erase a)
      rw [List.erase_cons_head]
      refine hp.2.congr fun t ht => ?_
      have hta : t ≠ a := ne_of_mem_of_not_mem ht hal
      simp [pv, setTasklet, hta]
    · show t ∈ (a :: l).erase a ↔ _
      rw [List.erase_cons_head]
      by_cases hta : t = a
      · subst hta
        simp [TaskletSys.sched_eq, setTasklet, hal, rxRunningTasklet, rxSchedTasklet]
      · have := h.mem t
        rw [hq] at this
        simp only [List.mem_cons, hta, false_or] at this
        simp [this, TaskletSys.sched_eq, setTasklet, hta]
    · have hta : t ≠ a := by
        rintro rfl
        have := h.again t ha
        rw [show s.since t = .disabled from ht] at this
        cases this
      simpa [setTasklet, hta] using h.bits t ht
    · exact h.again t (hq ▸ List.mem_of_mem_erase ht)

theorem Inv.step (h : Inv s) {c : DisableCall n} (hc : s.LinksClear c) (hst : Step s c s') : Inv s' := by
  obtain ⟨ha, he⟩ := hst
  cases c with
  | init t func data => exact h.init ha he
  | enable t => exact h.enable he
  | disable t => exact h.disable ha hc he
  | schedule t =>
    by_cases ht : ∃ x ∈ t, (s.k.tasklet x).status &&& rxSchedTasklet = 0 ∧ (s.k.tasklet x).status &&& rxEnabledTasklet ≠ 0
    · obtain ⟨x, rfl, hs, hen⟩ := ht
      exact (h.scheduled (ha x rfl) hs hen he).2.2 (hc hs hen)
    · exact h.scheduleIdle (fun x hx hb => ht ⟨x, hx, hb⟩) he
  | bhBegin => exact h.bhBegin he
  | bhEnd => exact h.bhEnd he

/-- A tasklet that comes onto the list with a `next` brings others with it; one
that is disabled at the head with a `prev` stays there. -/
theorem Inv.breaks (h : Inv s) {c : DisableCall n} (hc : ¬ s.LinksClear c) (hst : Step s c s') : ¬ RunsInOrder s' := by
  obtain ⟨ha, he⟩ := hst
  unfold LinksClear at hc
  split at hc
  · rename_i t
    simp only [not_forall] at hc
    obtain ⟨hs, hen, hnext⟩ := hc
    obtain ⟨happ, hqueue, -⟩ := h.scheduled (ha t rfl) hs hen he
    intro hok
    have hl := hok.order
    rw [hqueue] at hl
    obtain ⟨_, _, h1⟩ := seg_append.mp hl
    obtain ⟨_, _, h2⟩ := seg_append.mp happ.seg
    exact hnext (h2.2.symm.trans h1.2)
  · rename_i t
    simp only [not_forall] at hc
    obtain ⟨hs, hhead, hprev⟩ := hc
    obtain rfl := Option.some.inj he
    obtain ⟨p, hp⟩ := Option.ne_none_iff_exists'.mp hprev
    have hst : (s.k.tasklet t).status ≠ rxDisabledTasklet := by
      intro hst
      rw [TaskletSys.sched_eq, hst] at hs
      exact absurd hs (by decide)
    have hhead' : (rxDisableTasklet s.k (some t)).sysTaskletList = some t := by
      simp only [rxDisableTasklet, if_pos hst, if_pos hs]
      exact (removeTasklet_head hp).trans hhead
    intro hok
    have hmem : t ∈ s.queue.filter (some · ≠ some t) := List.mem_of_head? (hok.next.symm.trans hhead')
    have := (List.mem_filter.mp hmem).2
    simp at this
  · exact absurd trivial hc

/-- **Along a run the bottom half runs the scheduled tasklets in their order,
and a disabled one not before it has been enabled and scheduled again, if and
only if the links that the calls rely on are clear.** -/
theorem runsInOrder_iff {s : DisableSys n} (hi : Init s) {tr : List (DisableCall n × DisableSys n)}
    (h : Run.Exec Step s tr) : (∀ x ∈ Run.states s tr, RunsInOrder x) ↔ Run.Guarded LinksClear s tr := by
  refine (h.guarded_iff Inv (fun _ h => h.runsInOrder) (fun s c s' hs hc hst => ?_)
    (fun s c s' hs hc hst => ?_) hi.inv).symm
  · exact hs.step hc hst
  · exact hs.breaks hc hst

theorem step_of_ite {c : DisableCall n} (h : (if s.Admissible c then s.exec c else none) = some s') : Step s c s' := by
  split_ifs at h with ha
  exact ⟨ha, h⟩

end Steps

/-- No tasklet is initialised. -/
def noTasklets : DisableSys 3 where
  k := { tasklet := fun _ => {} }

theorem noTasklets_init : Init noTasklets := ⟨rfl, rfl, rfl, rfl, fun _ => rfl⟩

/-- Of three scheduled tasklets the middle one is disabled, enabled and
scheduled again: it is run last. -/
theorem runsInOrder_noTasklets : Init noTasklets ∧ ∃ tr, Run.Exec Step noTasklets tr ∧ tr.length = 18 ∧
    ∀ x ∈ Run.states noTasklets tr, RunsInOrder x := by
  refine ⟨noTasklets_init, ?_⟩
  obtain ⟨tr, hex, hp⟩ := Run.exists_exec (f := fun s c => if s.Admissible c then s.exec c else none)
    (fun _ _ _ => step_of_ite) (s := noTasklets)
    [.init (some 0) (some 7) 0, .init (some 1) (some 8) 0, .init (some 2) (some 9) 0, .enable (some 0),
      .enable (some 1), .enable (some 2), .schedule (some 0), .schedule (some 1), .schedule (some 2),
      .disable (some 1), .enable (some 1), .schedule (some 1), .bhBegin, .bhEnd, .bhBegin, .bhEnd, .bhBegin, .bhEnd]
    (fun tr => decide (tr.length = 18 ∧ Run.Guarded LinksClear noTasklets tr)) (by decide +kernel)
  obtain ⟨hlen, hclear⟩ := of_decide_eq_true hp
  exact ⟨tr, hex, hlen, (runsInOrder_iff noTasklets_init hex).mpr hclear⟩

/-- Tasklet 1 is disabled after tasklet 0, which was before it, has been run:
it stays at the head of the list. -/
theorem disabled_is_next : Init noTasklets ∧ ∃ tr, Run.Exec Step noTasklets tr ∧
    ¬ ∀ x ∈ Run.states noTasklets tr, RunsInOrder x := by
  refine ⟨noTasklets_init, ?_⟩
  obtain ⟨tr, hex, hp⟩ := Run.exists_exec (f := fun s c => if s.Admissible c then s.exec c else none)
    (fun _ _ _ => step_of_ite) (s := noTasklets)
    [.init (some 0) (some 7) 0, .init (some 1) (some 8) 0, .enable (some 0), .enable (some 1), .schedule (some 0),
      .schedule (some 1), .bhBegin, .bhEnd, .disable (some 1)]
    (fun tr => decide ((Run.final noTasklets tr).k.sysTaskletList = some 1 ∧
      (Run.final noTasklets tr).since 1 = .disabled)) (by decide +kernel)
  obtain ⟨hhead, hdis⟩ := of_decide_eq_true hp
  refine ⟨tr, hex, fun hall => ?_⟩
  have hok := (hall _ (Run.final_mem_states _ _)).again 1 hhead
  rw [hdis] at hok
  cases hok

end DisableSys

end Rosx
