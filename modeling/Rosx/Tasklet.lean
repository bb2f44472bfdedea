/-
# Tasklets (`kernel/rx_tasklet.c`)

A scheduled tasklet is appended to `sys_tasklet_list`; the bottom half takes
the head of the list and runs its function. A run is any sequence of
`rx_init_tasklet` (once per tasklet), `rx_enable_tasklet`,
`rx_schedule_tasklet` and the two critical sections of the bottom half, with
any other calls between them, so that a tasklet's function may itself
schedule tasklets. Next to the kernel's data a run keeps the calls that set
`__RX_SCHED_TASKLET` and the functions that were run, both in order.

The bottom half leaves `next` of the tasklet it takes, and
`rx_schedule_tasklet` does not clear it. A tasklet scheduled again brings what
followed it back onto the list, or closes a cycle. The list is right along a
run if and only if every tasklet put on it has no `next`
(`taskletsOK_iff_nextClear`).

Key definitions: `rxScheduleTasklet`, `bhBegin`, `TaskletSys.TaskletsOK`.
-/
import Rosx.Kernel
import Rosx.Lib.Run
import Rosx.Lib.DoublyLinked

namespace Rosx

open Linked

variable {n : ℕ}

/-- `struct tasklet`; a function is known by a number. -/
structure Tasklet (n : ℕ) where
  status : Word := 0
  func : Option ℕ := none
  data : ℕ := 0
  next : Option (Fin n) := none
  prev : Option (Fin n) := none
  deriving DecidableEq, Repr

/-- `__RX_DISABLE_TASKLET`. -/
def rxDisabledTasklet : Word := 0

/-- `__RX_ENABLE_TASKLET`. -/
def rxEnabledTasklet : Word := 1

/-- `__RX_SCHED_TASKLET`. -/
def rxSchedTasklet : Word := 2

/-- `__RX_RUNNING_TASKLET`. -/
def rxRunningTasklet : Word := 4

/-- The tasklets in memory and `sys_tasklet_list`. -/
structure Tasklets (n : ℕ) where
  tasklet : Fin n → Tasklet n
  sysTaskletList : Option (Fin n) := none

namespace Tasklets

def setTasklet (k : Tasklets n) (t : Fin n) (x : Tasklet n) : Tasklets n :=
  { k with tasklet := Function.update k.tasklet t x }

/-- The `next` links. -/
def nx (k : Tasklets n) (t : Fin n) : Option (Fin n) := (k.tasklet t).next

/-- The `prev` links. -/
def pv (k : Tasklets n) (t : Fin n) : Option (Fin n) := (k.tasklet t).prev

/-- The status has `__RX_SCHED_TASKLET`. -/
def sched (k : Tasklets n) (t : Fin n) : Bool := (k.tasklet t).status &&& rxSchedTasklet ≠ 0

/-- `rx_init_tasklet`. -/
def rxInitTasklet (k : Tasklets n) (t : Option (Fin n)) (func : Option ℕ) (data : ℕ) : OsErr × Tasklets n :=
  match t, func with
  | some t, some f =>
    (.osOk, k.setTasklet t { status := rxDisabledTasklet, func := some f, data := data, next := none, prev := none })
  | _, _ => (.osErr, k)

/-- `rx_enable_tasklet`. -/
def rxEnableTasklet (k : Tasklets n) : Option (Fin n) → Tasklets n
  | none => k
  | some t =>
    if (k.tasklet t).status = rxDisabledTasklet then
      k.setTasklet t { k.tasklet t with status := rxEnabledTasklet }
    else k

/-- A scheduled tasklet is taken off the list: its neighbours are joined, and
its links cleared. -/
def removeTasklet (k : Tasklets n) (t : Fin n) : Tasklets n :=
  let k :=
    if (k.tasklet t).prev = none ∧ (k.tasklet t).next = none then { k with sysTaskletList := none }
    else
      let k := match (k.tasklet t).prev with
        | some p => k.setTasklet p { k.tasklet p with next := (k.tasklet t).next }
        | none => { k with sysTaskletList := (k.tasklet t).next }
      match (k.tasklet t).next with
      | some x => k.setTasklet x { k.tasklet x with prev := (k.tasklet t).prev }
      | none => k
  k.setTasklet t { k.tasklet t with next := none, prev := none }

/-- `rx_disable_tasklet`. -/
def rxDisableTasklet (k : Tasklets n) : Option (Fin n) → Tasklets n
  | none => k
  | some t =>
    if (k.tasklet t).status ≠ rxDisabledTasklet then
      let k := if k.sched t then k.removeTasklet t else k
      k.setTasklet t { k.tasklet t with status := rxDisabledTasklet }
    else k

/-- The tasklet is added at the end of the list. -/
def addTasklet (k : Tasklets n) (t : Fin n) : Res (Tasklets n) :=
  match k.sysTaskletList with
  | none => .ok { k with sysTaskletList := some t }
  | some h =>
    (lastNode k.nx n h).map fun ride =>
      let k := k.setTasklet ride { k.tasklet ride with next := some t }
      k.setTasklet t { k.tasklet t with prev := some ride }

/-- `rx_schedule_tasklet`: an enabled tasklet that is not scheduled is. -/
def rxScheduleTasklet (k : Tasklets n) : Option (Fin n) → Res (Tasklets n)
  | none => .ok k
  | some t =>
    if (k.tasklet t).status &&& rxSchedTasklet = 0 ∧ (k.tasklet t).status &&& rxEnabledTasklet ≠ 0 then
      addTasklet (k.setTasklet t { k.tasklet t with status := (k.tasklet t).status ||| rxSchedTasklet }) t
    else .ok k

/-- The first critical section of `rx_bh_thread`, entered once the list is not
empty: the tasklet to run is taken from the list. -/
def bhBegin (k : Tasklets n) : Option (Fin n × Tasklets n) :=
  k.sysTaskletList.map fun run =>
    let k := { k with sysTaskletList := (k.tasklet run).next }
    let k := k.setTasklet run { k.tasklet run with status := (k.tasklet run).status ||| rxRunningTasklet }
    (run, k.setTasklet run { k.tasklet run with status := (k.tasklet run).status &&& ~~~rxSchedTasklet })

/-- The second one, when the function has returned. -/
def bhEnd (k : Tasklets n) (run : Fin n) : Tasklets n :=
  k.setTasklet run { k.tasklet run with status := (k.tasklet run).status &&& ~~~rxRunningTasklet }

end Tasklets

/-- The tasklets, which of them are initialised, the one the bottom half is
running, the tasklets whose scheduling set the bit, and those run so far. -/
structure TaskletSys (n : ℕ) where
  k : Tasklets n
  inited : Finset (Fin n) := ∅
  running : Option (Fin n) := none
  scheduled : List (Fin n) := []
  ran : List (Fin n) := []

/-- A step of a run. -/
inductive TaskletCall (n : ℕ) where
  | init (t : Option (Fin n)) (func : Option ℕ) (data : ℕ)
  | enable (t : Option (Fin n))
  | schedule (t : Option (Fin n))
  | bhBegin
  | bhEnd

namespace TaskletSys

open Tasklets

/-- A tasklet is initialised once, and before its other calls. -/
def Admissible (s : TaskletSys n) : TaskletCall n → Prop
  | .init t _ _ => ∀ x ∈ t, x ∉ s.inited
  | .enable t | .schedule t => ∀ x ∈ t, x ∈ s.inited
  | .bhBegin => s.running = none
  | .bhEnd => True

instance (s : TaskletSys n) : ∀ c, Decidable (s.Admissible c)
  | .init t _ _ => inferInstanceAs (Decidable (∀ x ∈ t, x ∉ s.inited))
  | .enable t | .schedule t => inferInstanceAs (Decidable (∀ x ∈ t, x ∈ s.inited))
  | .bhBegin => inferInstanceAs (Decidable (s.running = none))
  | .bhEnd => inferInstanceAs (Decidable True)

/-- The tasklet whose bit a call on `t` has set, in order to note it. -/
def bitSet (k k' : Tasklets n) (t : Option (Fin n)) : List (Fin n) :=
  t.toList.filter fun x => !k.sched x && k'.sched x

/-- The initialised tasklets after a call on `t` that returned `e`. -/
def nowInited (A : Finset (Fin n)) (e : OsErr) : Option (Fin n) → Finset (Fin n)
  | some x => if e = .osOk then insert x A else A
  | none => A

/-- What a call does. The bottom half waits while the list is empty. -/
def exec (s : TaskletSys n) : TaskletCall n → Option (TaskletSys n)
  | .init t func data =>
    let r := rxInitTasklet s.k t func data
    some { s with k := r.2, inited := nowInited s.inited r.1 t }
  | .enable t => some { s with k := rxEnableTasklet s.k t }
  | .schedule t =>
    match rxScheduleTasklet s.k t with
    | .ok k => some { s with k := k, scheduled := s.scheduled ++ bitSet s.k k t }
    | .error _ => none
  | .bhBegin => (bhBegin s.k).map fun r => { s with k := r.2, running := some r.1, ran := s.ran ++ [r.1] }
  | .bhEnd => s.running.map fun run => { s with k := bhEnd s.k run, running := none }

/-- One step of a run. -/
def step (s : TaskletSys n) (c : TaskletCall n) : Option (TaskletSys n) :=
  if s.Admissible c then s.exec c else none

def Step (s : TaskletSys n) (c : TaskletCall n) (s' : TaskletSys n) : Prop := s.step c = some s'

/-- Nothing is initialised, scheduled or running. -/
structure Init (s : TaskletSys n) : Prop where
  list : s.k.sysTaskletList = none
  inited : s.inited = ∅
  running : s.running = none
  scheduled : s.scheduled = []
  ran : s.ran = []

/-- The list holds the scheduled tasklets, each once, and they are the calls
that set the bit and have not been answered by a run yet, in order. -/
def TaskletsOK (s : TaskletSys n) : Prop :=
  ∃ l, Chain s.k.nx s.k.sysTaskletList l ∧ l.Nodup ∧ (∀ t, t ∈ l ↔ t ∈ s.inited ∧ s.k.sched t) ∧
    s.scheduled = s.ran ++ l

/-- A tasklet that the call puts on the list has no `next`. -/
def NextClear (s : TaskletSys n) : TaskletCall n → Prop
  | .schedule (some t) =>
    (s.k.tasklet t).status &&& rxSchedTasklet = 0 → (s.k.tasklet t).status &&& rxEnabledTasklet ≠ 0 →
      (s.k.tasklet t).next = none
  | _ => True

instance (s : TaskletSys n) : ∀ c, Decidable (s.NextClear c)
  | .schedule (some t) => inferInstanceAs (Decidable
      ((s.k.tasklet t).status &&& rxSchedTasklet = 0 → (s.k.tasklet t).status &&& rxEnabledTasklet ≠ 0 →
        (s.k.tasklet t).next = none))
  | .schedule none | .init _ _ _ | .enable _ | .bhBegin | .bhEnd => inferInstanceAs (Decidable True)

/-! ### The status bits -/

theorem and_sched_ne_zero (x : Word) : x &&& rxSchedTasklet ≠ 0 ↔ x[1] = true := by
  have h := BitVec.and_twoPow x 1
  rw [show BitVec.twoPow 32 1 = rxSchedTasklet from rfl] at h
  rw [h]
  cases hx : x[1] with
  | true => simp [hx]; decide
  | false => simp [hx]

theorem sched_eq (k : Tasklets n) (t : Fin n) : k.sched t = (k.tasklet t).status[1] := by
  rw [Bool.eq_iff_iff, ← and_sched_ne_zero]
  simp [sched]

/-! ### The steps -/

variable {s s' : TaskletSys n}

/-- Steps that keep the list, its links, the bits of the initialised tasklets
and both logs. -/
theorem TaskletsOK.congr (h : TaskletsOK s) (hhead : s'.k.sysTaskletList = s.k.sysTaskletList)
    (hnx : ∀ t ∈ s.inited, s'.k.nx t = s.k.nx t)
    (hmem : ∀ t, t ∈ s'.inited ∧ s'.k.sched t ↔ t ∈ s.inited ∧ s.k.sched t)
    (hs : s'.scheduled = s.scheduled) (hr : s'.ran = s.ran) : TaskletsOK s' := by
  obtain ⟨l, hl, hnd, hm, hlog⟩ := h
  refine ⟨l, ?_, hnd, fun t => (hm t).trans (hmem t).symm, ?_⟩
  · rw [hhead]
    exact hl.congr fun t ht => hnx t ((hm t).mp ht).1
  · rw [hs, hr, hlog]

theorem init_ok {t : Option (Fin n)} {func : Option ℕ} {data : ℕ} (h : TaskletsOK s)
    (ha : ∀ x ∈ t, x ∉ s.inited) (he : s.exec (.init t func data) = some s') : TaskletsOK s' := by
  obtain rfl := Option.some.inj he
  cases t with
  | none => exact h
  | some x =>
    cases func with
    | none => exact h
    | some f =>
      have hx : x ∉ s.inited := ha x rfl
      refine h.congr rfl (fun t ht => ?_) (fun t => ?_) rfl rfl
      · have htx : t ≠ x := ne_of_mem_of_not_mem ht hx
        simp [rxInitTasklet, nx, setTasklet, htx]
      · by_cases htx : t = x
        · subst htx
          simp [rxInitTasklet, sched, setTasklet, rxDisabledTasklet, hx]
        · simp [rxInitTasklet, nowInited, sched, setTasklet, htx]

theorem enable_ok {t : Option (Fin n)} (h : TaskletsOK s) (he : s.exec (.enable t) = some s') : TaskletsOK s' := by
  obtain rfl := Option.some.inj he
  cases t with
  | none => exact h
  | some x =>
    by_cases hx : (s.k.tasklet x).status = rxDisabledTasklet
    · refine h.congr ?_ (fun t _ => ?_) (fun t => ?_) rfl rfl
      · simp [rxEnableTasklet, hx, setTasklet]
      · by_cases htx : t = x
        · subst htx
          simp [rxEnableTasklet, hx, nx, setTasklet]
        · simp [rxEnableTasklet, hx, nx, setTasklet, htx]
      · by_cases htx : t = x
        · subst htx
          simp [rxEnableTasklet, sched, hx, setTasklet, rxDisabledTasklet, rxEnabledTasklet, rxSchedTasklet]
        · simp [rxEnableTasklet, sched, hx, setTasklet, htx]
    · have hk : rxEnableTasklet s.k (some x) = s.k := by simp [rxEnableTasklet, hx]
      rw [hk]
      exact h

theorem bhEnd_ok (h : TaskletsOK s) (he : s.exec .bhEnd = some s') : TaskletsOK s' := by
  obtain ⟨run, _, rfl⟩ := Option.map_eq_some_iff.mp he
  refine h.congr rfl (fun t _ => ?_) (fun t => ?_) rfl rfl
  · by_cases htr : t = run
    · subst htr
      simp [bhEnd, nx, setTasklet]
    · simp [bhEnd, nx, setTasklet, htr]
  · by_cases htr : t = run
    · subst htr
      simp [bhEnd, sched_eq, setTasklet, rxRunningTasklet]
    · simp [bhEnd, sched_eq, setTasklet, htr]

/-- The head goes from the list to the functions run. -/
theorem bhBegin_ok (h : TaskletsOK s) (he : s.exec .bhBegin = some s') : TaskletsOK s' := by
  obtain ⟨l, hl, hnd, hm, hlog⟩ := h
  obtain ⟨⟨run, k⟩, hb, rfl⟩ := Option.map_eq_some_iff.mp he
  obtain ⟨head, hhead, hk⟩ := Option.map_eq_some_iff.mp hb
  cases l with
  | nil =>
    have : s.k.sysTaskletList = none := hl
    rw [this] at hhead
    cases hhead
  | cons a l =>
    obtain rfl : a = head := Option.some.inj (hl.1.symm.trans hhead)
    obtain ⟨rfl, rfl⟩ := Prod.mk.inj hk
    obtain ⟨hal, hnd'⟩ := List.nodup_cons.mp hnd
    refine ⟨l, ?_, hnd', fun t => ?_, by simp [hlog]⟩
    · refine hl.2.congr fun t ht => ?_
      have hta : t ≠ a := ne_of_mem_of_not_mem ht hal
      simp [nx, setTasklet, hta]
    · by_cases hta : t = a
      · subst hta
        simp [sched_eq, setTasklet, hal, rxRunningTasklet, rxSchedTasklet]
      · have := hm t
        simp only [List.mem_cons, hta, false_or] at this
        simp [this, sched_eq, setTasklet, hta]

/-- `t` linked in behind `p`. -/
def link (k : Tasklets n) (p t : Fin n) : Tasklets n :=
  let k := k.setTasklet p { k.tasklet p with next := some t }
  k.setTasklet t { k.tasklet t with prev := some p }

theorem link_nx {k : Tasklets n} {p t : Fin n} (h : t ≠ p) : (link k p t).nx = Function.update k.nx p (some t) := by
  funext x
  by_cases hxt : x = t
  · subst hxt
    simp [link, nx, setTasklet, h]
  · by_cases hxp : x = p
    · subst hxp
      simp [link, nx, setTasklet, hxt]
    · simp [link, nx, setTasklet, hxt, hxp]

theorem link_pv {k : Tasklets n} {p t : Fin n} (h : t ≠ p) : (link k p t).pv = Function.update k.pv t (some p) := by
  funext x
  by_cases hxt : x = t
  · subst hxt
    simp [link, pv, setTasklet]
  · by_cases hxp : x = p
    · subst hxp
      simp [link, pv, setTasklet, hxt]
    · simp [link, pv, setTasklet, hxt, hxp]

theorem link_status (k : Tasklets n) (p t x : Fin n) : ((link k p t).tasklet x).status = (k.tasklet x).status := by
  by_cases hxt : x = t
  · subst hxt
    by_cases hxp : x = p
    · subst hxp
      simp [link, setTasklet]
    · simp [link, setTasklet, hxp]
  · by_cases hxp : x = p
    · subst hxp
      simp [link, setTasklet, hxt]
    · simp [link, setTasklet, hxt, hxp]

/-- `k'` is `k` with `t` at the end of the list `l`, which then goes where the
`next` of `t` leads. The back links go on, wherever the first one leads. -/
structure Appended (k k' : Tasklets n) (t : Fin n) (l : List (Fin n)) : Prop where
  seg : Seg k'.nx k'.sysTaskletList (l ++ [t]) (k.nx t)
  back : ∀ p, BackLinks k.pv p l → ∃ p, BackLinks k'.pv p (l ++ [t])

theorem addTasklet_spec {k : Tasklets n} {t : Fin n} {l : List (Fin n)} (hl : Chain k.nx k.sysTaskletList l)
    (ht : t ∉ l) : ∃ k', addTasklet k t = .ok k' ∧ Appended k k' t l ∧
      ∀ x, (k'.tasklet x).status = (k.tasklet x).status := by
  rcases List.eq_nil_or_concat' l with rfl | ⟨l, p, rfl⟩
  · have hnone : k.sysTaskletList = none := hl
    exact ⟨{ k with sysTaskletList := some t }, by simp [addTasklet, hnone],
      ⟨⟨rfl, rfl⟩, fun _ _ => ⟨k.pv t, rfl, trivial⟩⟩,
      fun _ => rfl⟩
  · obtain ⟨a, l', hal⟩ : ∃ a l', l ++ [p] = a :: l' := by
      cases l with
      | nil => exact ⟨p, [], rfl⟩
      | cons a l => exact ⟨a, l ++ [p], rfl⟩
    have hhead : k.sysTaskletList = some a := by
      rw [Seg.head hl, hal]
      rfl
    have hride : lastNode k.nx n a = .ok p := by
      have hlen := hl.length_le
      rw [hal, hhead] at hl
      rw [hal, List.length_cons, Fintype.card_fin] at hlen
      rw [lastNode_eq hl hlen]
      congr 1
      simp [← hal]
    have htp : t ≠ p := fun h => ht (by simp [h])
    refine ⟨link k p t, ?_, ⟨?_, fun q hq => ⟨q, ?_⟩⟩, link_status k p t⟩
    · rw [addTasklet, hhead]
      exact congrArg (Except.map _) hride
    · rw [link_nx htp]
      exact hl.appendLast ht
    · rw [link_pv htp, List.append_assoc]
      exact backLinks_append.mpr ⟨hq.update_of_notMem ht, Function.update_self .., trivial⟩

/-- A call that puts `t` on the list. -/
theorem schedule_spec {k : Tasklets n} {t : Fin n} {l : List (Fin n)} (hl : Chain k.nx k.sysTaskletList l)
    (ht : t ∉ l) (hs : (k.tasklet t).status &&& rxSchedTasklet = 0)
    (he : (k.tasklet t).status &&& rxEnabledTasklet ≠ 0) :
    ∃ k', rxScheduleTasklet k (some t) = .ok k' ∧ Appended k k' t l ∧
      ∀ x, (k'.tasklet x).status = if x = t then (k.tasklet x).status ||| rxSchedTasklet else (k.tasklet x).status := by
  set k₁ := k.setTasklet t { k.tasklet t with status := (k.tasklet t).status ||| rxSchedTasklet } with hk₁
  have hnx : k₁.nx = k.nx := by
    funext x
    by_cases hxt : x = t
    · subst hxt
      simp [hk₁, nx, setTasklet]
    · simp [hk₁, nx, setTasklet, hxt]
  have hpv : k₁.pv = k.pv := by
    funext x
    by_cases hxt : x = t
    · subst hxt
      simp [hk₁, pv, setTasklet]
    · simp [hk₁, pv, setTasklet, hxt]
  obtain ⟨k', hk', happ, hstatus⟩ := addTasklet_spec (k := k₁) (hnx ▸ hl) ht
  refine ⟨k', ?_, ⟨hnx ▸ happ.seg, hpv ▸ happ.back⟩, fun x => (hstatus x).trans ?_⟩
  · rw [rxScheduleTasklet, if_pos ⟨hs, he⟩]
    exact hk'
  · by_cases hxt : x = t
    · subst hxt
      simp [hk₁, setTasklet]
    · simp [hk₁, setTasklet, hxt]

/-- It is scheduled then, and the others are as before. -/
theorem schedule_sched {k k' : Tasklets n} {t : Fin n} (h : ∀ x, (k'.tasklet x).status =
    if x = t then (k.tasklet x).status ||| rxSchedTasklet else (k.tasklet x).status) (x : Fin n) :
    k'.sched x = (k.sched x || decide (x = t)) := by
  rw [sched_eq, sched_eq, h]
  by_cases hxt : x = t
  · simp [hxt, rxSchedTasklet]
  · simp [hxt]

/-- A call that sets no bit changes nothing. -/
theorem schedule_idle {t : Option (Fin n)} (h : TaskletsOK s)
    (ht : ∀ x ∈ t, ¬ ((s.k.tasklet x).status &&& rxSchedTasklet = 0 ∧ (s.k.tasklet x).status &&& rxEnabledTasklet ≠ 0))
    (he : s.exec (.schedule t) = some s') : TaskletsOK s' := by
  have hk : rxScheduleTasklet s.k t = .ok s.k := by
    cases t with
    | none => rfl
    | some x => exact if_neg (ht x rfl)
  simp only [exec, hk] at he
  obtain rfl := Option.some.inj he
  have hbit : bitSet s.k s.k t = [] := by
    apply List.filter_eq_nil_iff.mpr
    intro x _
    simp
  simpa [TaskletsOK, hbit] using h

/-- A call that puts a tasklet on the list keeps it right if and only if the
tasklet has no `next`: by the log the list must end with the tasklet. -/
theorem schedule_ok_iff {t : Fin n} (h : TaskletsOK s) (hin : t ∈ s.inited)
    (hs : (s.k.tasklet t).status &&& rxSchedTasklet = 0) (hen : (s.k.tasklet t).status &&& rxEnabledTasklet ≠ 0)
    (he : s.exec (.schedule (some t)) = some s') : TaskletsOK s' ↔ (s.k.tasklet t).next = none := by
  obtain ⟨l, hl, hnd, hm, hlog⟩ := h
  have hsch : s.k.sched t = false := by simp [sched, hs]
  have ht : t ∉ l := by simp [hm, hsch]
  obtain ⟨k', hk', ⟨hseg, -⟩, hstatus⟩ := schedule_spec hl ht hs hen
  have hsched := schedule_sched hstatus
  simp only [exec, hk'] at he
  obtain rfl := Option.some.inj he
  have hbit : bitSet s.k k' (some t) = [t] := by simp [bitSet, hsch, hsched]
  constructor
  · rintro ⟨l', hl', -, -, hlog'⟩
    have hl'' : l' = l ++ [t] := by
      rw [hbit, hlog, List.append_assoc] at hlog'
      exact (List.append_cancel_left hlog').symm
    subst hl''
    obtain ⟨_, _, h1⟩ := seg_append.mp hl'
    obtain ⟨_, _, h2⟩ := seg_append.mp hseg
    exact h2.2.symm.trans h1.2
  · intro hnext
    have hchain : Chain k'.nx k'.sysTaskletList (l ++ [t]) := by
      rw [show s.k.nx t = none from hnext] at hseg
      exact hseg
    refine ⟨l ++ [t], hchain, hchain.nodup, fun x => ?_, by rw [hbit, hlog, List.append_assoc]⟩
    by_cases hxt : x = t
    · subst hxt
      simp [hsched, hin]
    · simp [hm, hsched, hxt]

theorem step_ok {c : TaskletCall n} (h : TaskletsOK s) (hc : s.NextClear c) (hst : Step s c s') : TaskletsOK s' := by
  unfold Step step at hst
  split_ifs at hst with ha
  cases c with
  | init t func data => exact init_ok h ha hst
  | enable t => exact enable_ok h hst
  | schedule t =>
    by_cases ht : ∃ x ∈ t, (s.k.tasklet x).status &&& rxSchedTasklet = 0 ∧ (s.k.tasklet x).status &&& rxEnabledTasklet ≠ 0
    · obtain ⟨x, rfl, hs, hen⟩ := ht
      exact (schedule_ok_iff h (ha x rfl) hs hen hst).mpr (hc hs hen)
    · exact schedule_idle h (fun x hx hb => ht ⟨x, hx, hb⟩) hst
  | bhBegin => exact bhBegin_ok h hst
  | bhEnd => exact bhEnd_ok h hst

theorem step_stale {c : TaskletCall n} (h : TaskletsOK s) (hc : ¬ s.NextClear c) (hst : Step s c s') :
    ¬ TaskletsOK s' := by
  unfold Step step at hst
  split_ifs at hst with ha
  unfold NextClear at hc
  split at hc
  · rename_i t
    simp only [not_forall] at hc
    obtain ⟨hs, hen, hnext⟩ := hc
    rwa [schedule_ok_iff h (ha t rfl) hs hen hst]
  · exact absurd trivial hc

theorem Init.ok (h : Init s) : TaskletsOK s :=
  ⟨[], h.list, List.nodup_nil, by simp [h.inited], by simp [h.scheduled, h.ran]⟩

/-- **The tasklet list.** Along a run from any memory the list holds the
scheduled tasklets, each once, and their functions are run once per call that
set the bit and in the order of the calls, if and only if every tasklet that
a call puts on the list has no `next`. -/
theorem taskletsOK_iff_nextClear {s : TaskletSys n} (hi : Init s) {tr : List (TaskletCall n × TaskletSys n)}
    (h : Run.Exec Step s tr) : (∀ x ∈ Run.states s tr, TaskletsOK x) ↔ Run.Guarded NextClear s tr :=
  (h.guarded_iff TaskletsOK (fun _ h => h) (fun _ _ _ => step_ok) (fun _ _ _ => step_stale) hi.ok).symm

/-- No tasklet is initialised. -/
def noTasklets (n : ℕ) : TaskletSys n where
  k := { tasklet := fun _ => {} }

theorem noTasklets_init (n : ℕ) : Init (noTasklets n) := ⟨rfl, rfl, rfl, rfl, rfl⟩

/-- The function of tasklet 0 schedules tasklet 1, which is run after it. -/
theorem taskletsOK_run : Init (noTasklets 2) ∧ ∃ tr, Run.Exec Step (noTasklets 2) tr ∧ tr.length = 9 ∧
    ∀ x ∈ Run.states (noTasklets 2) tr, TaskletsOK x := by
  refine ⟨noTasklets_init 2, ?_⟩
  obtain ⟨tr, hex, hp⟩ := Run.exists_exec (f := step) (fun _ _ _ h => h) (s := noTasklets 2)
    [.init (some 0) (some 7) 0, .init (some 1) (some 8) 0, .enable (some 0), .enable (some 1), .schedule (some 0),
      .bhBegin, .schedule (some 1), .bhEnd, .bhBegin]
    (fun tr => decide (tr.length = 9 ∧ Run.Guarded NextClear (noTasklets 2) tr)) (by decide +kernel)
  obtain ⟨hlen, hclear⟩ := of_decide_eq_true hp
  exact ⟨tr, hex, hlen, (taskletsOK_iff_nextClear (noTasklets_init 2) hex).mpr hclear⟩

/-- Tasklet 0 is scheduled again while tasklet 1, which followed it, is still
on the list: the list becomes a cycle. -/
theorem reschedule_closes_cycle : Init (noTasklets 2) ∧ ∃ tr, Run.Exec Step (noTasklets 2) tr ∧
    ¬ ∀ x ∈ Run.states (noTasklets 2) tr, TaskletsOK x := by
  refine ⟨noTasklets_init 2, ?_⟩
  obtain ⟨tr, hex, hp⟩ := Run.exists_exec (f := step) (fun _ _ _ h => h) (s := noTasklets 2)
    [.init (some 0) (some 7) 0, .init (some 1) (some 8) 0, .enable (some 0), .enable (some 1), .schedule (some 0),
      .schedule (some 1), .bhBegin, .bhEnd, .schedule (some 0)]
    (fun tr => decide (¬ Run.Guarded NextClear (noTasklets 2) tr)) (by decide +kernel)
  refine ⟨tr, hex, fun hall => of_decide_eq_true hp ?_⟩
  exact (hex.guarded_iff TaskletsOK (fun _ h => h) (fun _ _ _ => step_ok) (fun _ _ _ => step_stale)
    (noTasklets_init 2).ok).mpr hall

end TaskletSys
end Rosx
