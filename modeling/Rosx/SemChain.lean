/-
# The wait chains of the semaphores

The runs of `Rosx/SemTimers.lean`, for any number of semaphores, with a record
beside the kernel: for each semaphore the tasks that are blocked in
`rx_semaphore_wait`, in the order in which they called. In every state the
chain at `sem->task` is this list, `curr_val` is minus its length as long as
somebody waits, and a task's `sem` field is the semaphore whose chain it is on
(`ChainOK`). A post takes the task that has waited longest, an expiry takes
the task whose timer it is wherever that stands, and a wait that returns
`E_OS_UNAVAIL` changes nothing (`ChainStepOK`).

Nothing is assumed about the timers: one that was left armed by a post may
expire later, while its task waits again or has not to do with a semaphore.

Key definitions: `ChainSys.Step`, `ChainOK`, `ChainStepOK`.
-/
import Rosx.SemTimers

namespace Rosx

open Linked

variable {n : ℕ}

/-- The task is blocked in `rx_semaphore_wait` of `m`. -/
def SemsSys.waitsFor (s : SemsSys n) (m : ℕ) (t : Fin n) : Bool :=
  match s.phase t with
  | .waiting i _ => i = m
  | _ => false

/-- The system, and for each semaphore the tasks that wait for it, in the order
of their calls. -/
structure ChainSys (n : ℕ) where
  sys : SemsSys n
  arrivals : ℕ → List (Fin n)

namespace ChainSys

/-- The task that a call leaves waiting for `i`. -/
def joins (s : ChainSys n) : SemsCall n × Option OsErr → ℕ → List (Fin n)
  | (.wait m _ _, none), i => if i = m then [s.sys.k.curr] else []
  | _, _ => []

/-- A step; a task that no longer waits is struck out, and a new one comes
last. -/
def Step (s : ChainSys n) (c : SemsCall n × Option OsErr) (s' : ChainSys n) : Prop :=
  SemsSys.Step s.sys c s'.sys ∧
    s'.arrivals = fun i => (s.arrivals i).filter (s'.sys.waitsFor i) ++ s.joins c i

/-- Nobody waits, and no semaphore has a negative value: those in use were
created with at least 1. -/
structure Init (s : ChainSys n) : Prop where
  sys : SemsSys.Init s.sys
  vals : ∀ m, 0 ≤ (s.sys.k.sems m).currVal
  arrivals : ∀ m, s.arrivals m = []

end ChainSys

/-- The chain of each semaphore is the list of the tasks that wait for it; its
length is what `curr_val` is below zero, its tasks are those with this
semaphore in `sem`, and no task is twice on a chain or on two. -/
structure ChainOK (s : ChainSys n) : Prop where
  chain : ∀ m, Chain s.sys.k.next (s.sys.k.sems m).task (s.arrivals m)
  length : ∀ m, (s.arrivals m).length = (-(s.sys.k.sems m).currVal).toNat
  sem : ∀ m t, (s.sys.k.tcb t).sem = some m ↔ t ∈ s.arrivals m
  nodup : ∀ m, (s.arrivals m).Nodup
  apart : ∀ m m' t, t ∈ s.arrivals m → t ∈ s.arrivals m' → m = m'

/-- What the steps do to the chains. -/
def ChainStepOK (s : ChainSys n) (c : SemsCall n × Option OsErr) (s' : ChainSys n) : Prop :=
  match c with
  | (.post m, _) => ∀ t l, s.arrivals m = t :: l →
      s'.arrivals = Function.update s.arrivals m l ∧
      (s'.sys.k.tcb t).state.runnable = true ∧ Reaches s'.sys.k.next s'.sys.k.readyHead t
  | (.expire tm, _) => ∀ t, (s.sys.k.timers tm).priv = some t →
      s'.arrivals = fun i => (s.arrivals i).erase t
  | (.wait _ _ _, some .eOsUnavail) => s'.arrivals = s.arrivals ∧ s'.sys.k.sems = s.sys.k.sems
  | _ => True

namespace ChainSys

/-! ### The invariant -/

/-- The invariant of the semaphores, with the recorded lists as chains, and the
values. -/
structure Inv (s : ChainSys n) (lr : List (Fin n)) : Prop where
  sys : SemsSys.Inv s.sys lr s.arrivals
  length : ∀ m, (s.arrivals m).length = (-(s.sys.k.sems m).currVal).toNat

theorem Init.inv {s : ChainSys n} (h : Init s) : ∃ lr, Inv s lr := by
  obtain ⟨lr, hi⟩ := h.sys.inv
  have harr : s.arrivals = fun _ => [] := funext h.arrivals
  refine ⟨lr, by rw [harr]; exact hi, fun m => ?_⟩
  have := h.vals m
  rw [h.arrivals m, List.length_nil]
  omega

section Inv

variable {s s' : ChainSys n} {lr lr' : List (Fin n)} {lw : ℕ → List (Fin n)} {c : SemsCall n × Option OsErr} {m : ℕ}

theorem waitsFor_eq {s : SemsSys n} (h : SemsSys.Inv s lr lw) (m : ℕ) (t : Fin n) :
    s.waitsFor m t = decide (t ∈ lw m) := by
  have hat := h.tasks t
  unfold SemsSys.waitsFor
  cases hp : s.phase t with
  | out =>
    rw [hp] at hat
    simp [hat.1 m]
  | waiting i tm =>
    rw [hp] at hat
    by_cases him : i = m
    · subst him
      simp [hat.1]
    · have hno : t ∉ lw m := fun ht => him (h.lists.apart i m t hat.1 ht)
      simp [him, hno]
  | woken tm =>
    rw [hp] at hat
    simp [hat.1 m]

/-- The waiting tasks that are still on the new chain. -/
theorem arrivals_eq (h' : SemsSys.Inv s'.sys lr' lw) (hst : Step s c s') (i : ℕ) :
    s'.arrivals i = (s.arrivals i).filter (· ∈ lw i) ++ s.joins c i := by
  rw [hst.2]
  have hf : s'.sys.waitsFor i = fun t => decide (t ∈ lw i) := funext fun t => waitsFor_eq h' i t
  simp only [hf]

/-- A step after which the same tasks wait. -/
theorem arrivals_stay (h' : SemsSys.Inv s'.sys lr' s.arrivals) (hst : Step s c s') (hj : ∀ i, s.joins c i = []) :
    s'.arrivals = s.arrivals := by
  funext i
  rw [arrivals_eq h' hst, hj, List.append_nil, List.filter_eq_self]
  exact fun t ht => decide_eq_true ht

/-- A step that leaves the caller waiting for `m`. -/
theorem arrivals_block
    (h' : SemsSys.Inv s'.sys lr' (Function.update s.arrivals m (s.arrivals m ++ [s.sys.k.curr]))) (hst : Step s c s')
    (hj : ∀ i, s.joins c i = if i = m then [s.sys.k.curr] else []) :
    s'.arrivals = Function.update s.arrivals m (s.arrivals m ++ [s.sys.k.curr]) := by
  funext i
  rw [arrivals_eq h' hst, hj]
  by_cases hi : i = m
  · subst hi
    rw [if_pos rfl, Function.update_self, List.filter_eq_self.mpr]
    intro t ht
    exact decide_eq_true (List.mem_append_left _ ht)
  · rw [if_neg hi, Function.update_of_ne hi, List.append_nil, List.filter_eq_self]
    exact fun t ht => decide_eq_true ht

/-- A step that takes the task `t` off the chain of `m`. -/
theorem arrivals_leave (h : Inv s lr) {t : Fin n}
    (h' : SemsSys.Inv s'.sys lr' (Function.update s.arrivals m ((s.arrivals m).erase t))) (hst : Step s c s')
    (hj : ∀ i, s.joins c i = []) : s'.arrivals = Function.update s.arrivals m ((s.arrivals m).erase t) := by
  funext i
  rw [arrivals_eq h' hst, hj, List.append_nil]
  by_cases hi : i = m
  · subst hi
    have hnd : (s.arrivals i).Nodup := (h.sys.lists.wait i).nodup
    rw [Function.update_self, hnd.erase_eq_filter]
    apply List.filter_congr
    intro u hu
    by_cases hut : u = t
    · simp [hut]
    · simp [hu, hut]
  · rw [Function.update_of_ne hi, List.filter_eq_self]
    exact fun t ht => decide_eq_true ht

/-! ### What a step keeps -/

theorem wait_step (h : Inv s lr) {timeout : ℤ} {tm : ℕ} {r : Option OsErr}
    (hst : Step s (.wait m timeout tm, r) s') :
    (∃ lr', Inv s' lr') ∧ ChainStepOK s (.wait m timeout tm, r) s' := by
  have he := hst.1.2
  have hlen := h.length m
  by_cases hv : (s.sys.k.sems m).currVal > 0
  · obtain ⟨k', h1, hi, -, -, hval⟩ := SemsSys.wait_takes h.sys hv timeout tm
    obtain ⟨rfl, hsys⟩ := Prod.mk.inj (Except.ok.inj (h1.symm.trans he))
    have harr : s'.arrivals = s.arrivals := arrivals_stay (hsys ▸ hi) hst fun _ => rfl
    refine ⟨⟨lr, by rw [harr, ← hsys]; exact hi, fun i => ?_⟩, trivial⟩
    rw [harr, ← hsys]
    show _ = (-(k'.sems i).currVal).toNat
    have hlen := h.length i
    rw [hval]
    split_ifs with hi
    · subst hi
      omega
    · omega
  · have hv' : (s.sys.k.sems m).currVal ≤ 0 := by omega
    by_cases h0 : timeout = osNoWait
    · subst h0
      obtain ⟨rfl, hsys⟩ := Prod.mk.inj (Except.ok.inj ((SemsSys.wait_noWait h.sys hv' tm).symm.trans he))
      have harr : s'.arrivals = s.arrivals := arrivals_stay (hsys ▸ h.sys) hst fun _ => rfl
      refine ⟨⟨lr, by rw [harr, ← hsys]; exact h.sys, fun i => ?_⟩, harr, by rw [← hsys]⟩
      rw [harr, ← hsys]
      exact h.length i
    · rcases SemsSys.wait_blocks h.sys hv' h0 tm with h1 | ⟨k', lr', h1, hi, -, -, hval⟩
      · cases he.symm.trans h1
      · obtain ⟨rfl, hsys⟩ := Prod.mk.inj (Except.ok.inj (h1.symm.trans he))
        have harr := arrivals_block (hsys ▸ hi) hst fun _ => rfl
        refine ⟨⟨lr', by rw [harr, ← hsys]; exact hi, fun i => ?_⟩, trivial⟩
        rw [harr, ← hsys]
        show _ = (-(k'.sems i).currVal).toNat
        rw [hval]
        by_cases him : i = m
        · subst him
          rw [Function.update_self, if_pos rfl, List.length_append, List.length_singleton]
          omega
        · rw [Function.update_of_ne him, if_neg him, Int.sub_zero]
          exact h.length i

/-- A task has left the chain of `m`, and the value has gone up by one. -/
theorem leave_length (h : Inv s lr) {t : Fin n} (ht : t ∈ s.arrivals m) {v : ℕ → ℤ}
    (hv : ∀ i, v i = (s.sys.k.sems i).currVal + if i = m then 1 else 0) (i : ℕ) :
    (Function.update s.arrivals m ((s.arrivals m).erase t) i).length = (-(v i)).toNat := by
  have hlen := h.length i
  rw [hv]
  by_cases hi : i = m
  · subst hi
    have hpos : 0 < (s.arrivals i).length := List.length_pos_of_mem ht
    rw [Function.update_self, if_pos rfl, List.length_erase_of_mem ht]
    omega
  · rw [Function.update_of_ne hi, if_neg hi, Int.add_zero]
    exact hlen

theorem post_step (h : Inv s lr) {r : Option OsErr} (hst : Step s (.post m, r) s') :
    (∃ lr', Inv s' lr') ∧ ChainStepOK s (.post m, r) s' := by
  have he := hst.1.2
  have hchain : Chain s.sys.k.next (s.sys.k.sems m).task (s.arrivals m) := h.sys.lists.wait m
  cases hl : s.arrivals m with
  | nil =>
    rw [hl] at hchain
    obtain ⟨-, hsys⟩ := Prod.mk.inj (Except.ok.inj ((SemsSys.post_idle h.sys hchain).symm.trans he))
    have harr : s'.arrivals = s.arrivals := arrivals_stay (hsys ▸ h.sys) hst fun _ => rfl
    refine ⟨⟨lr, by rw [harr, ← hsys]; exact h.sys, fun i => ?_⟩, fun t l hl' => ?_⟩
    · rw [harr, ← hsys]
      exact h.length i
    · rw [hl] at hl'
      cases hl'
  | cons t l =>
    obtain ⟨k', lr', tm, hph, h1, hphase, hi, -, -, hval⟩ := SemsSys.post_wakes h.sys hl
    obtain ⟨-, hsys⟩ := Prod.mk.inj (Except.ok.inj (h1.symm.trans he))
    have herase : (s.arrivals m).erase t = l := by rw [hl, List.erase_cons_head]
    have ht : t ∈ s.arrivals m := by rw [hl]; exact List.mem_cons_self
    rw [← herase, hsys] at hi
    rw [hsys] at hphase
    have harr := arrivals_leave h hi hst fun _ => rfl
    refine ⟨⟨lr', by rw [harr]; exact hi, fun i => ?_⟩, fun t' l' hl' => ?_⟩
    · rw [harr, ← hsys]
      exact leave_length h ht hval i
    · rw [hl] at hl'
      obtain ⟨rfl, rfl⟩ := List.cons.inj hl'
      rw [harr, herase]
      have hat := hi.tasks t
      rw [hphase, Function.update_self] at hat
      exact ⟨rfl, (hi.ready t).mp hat.2.1, hi.lists.ready.reaches_iff.mpr hat.2.1⟩

/-- The handler finds a task that waits for nothing. -/
theorem expire_idle {s : SemsSys n} (h : SemsSys.Inv s lr lw) {tm : ℕ} {t : Fin n}
    (hp : (s.k.timers tm).priv = some t) (hno : ∀ i, t ∉ lw i) :
    ∃ k', s.exec (.expire tm) = .ok (none, { s with k := k' }) ∧ SemsSys.Inv { s with k := k' } lr lw ∧
      k'.sems = s.k.sems := by
  have hsem : (s.k.tcb t).sem = none := by
    have hat := h.tasks t
    cases hph : s.phase t with
    | out =>
      rw [hph] at hat
      exact hat.2
    | waiting i tm' =>
      rw [hph] at hat
      exact absurd hat.1 (hno i)
    | woken tm' =>
      rw [hph] at hat
      exact hat.2.2
  have hsem' : ((s.k.enterCritical.disarm tm).tcb t).sem = none := hsem
  have hls := (h.lists.enter.disarm tm).exit
  have hw : s.wake (s.k.enterCritical.disarm tm).exitCritical =
      { s with k := (s.k.enterCritical.disarm tm).exitCritical } := SemsSys.wake_idle fun _ => rfl
  refine ⟨(s.k.enterCritical.disarm tm).exitCritical, ?_, h.of_eq hls.self ?_ rfl rfl, rfl⟩
  · simp only [SemsSys.exec, hp, rxSemHandler_idle hsem', bind, Except.bind, pure, Except.pure, hw]
  · exact (h.lists.enter.disarm tm).port.exit

theorem expire_step (h : Inv s lr) {tm : ℕ} {r : Option OsErr} (hst : Step s (.expire tm, r) s') :
    (∃ lr', Inv s' lr') ∧ ChainStepOK s (.expire tm, r) s' := by
  have he := hst.1.2
  cases hp : (s.sys.k.timers tm).priv with
  | none =>
    simp only [SemsSys.exec, hp] at he
    cases he
  | some t =>
    by_cases hw : ∃ i, t ∈ s.arrivals i
    · obtain ⟨m, ht⟩ := hw
      obtain ⟨tm', hph⟩ := (h.sys.tasks t).waiting_of_mem ht fun i j hi hj => h.sys.lists.apart i j t hi hj
      obtain ⟨k', lr', h1, -, hi, -, -, hval⟩ := SemsSys.expire_wakes h.sys hp hph
      obtain ⟨-, hsys⟩ := Prod.mk.inj (Except.ok.inj (h1.symm.trans he))
      rw [hsys] at hi
      have harr := arrivals_leave h hi hst fun _ => rfl
      refine ⟨⟨lr', by rw [harr]; exact hi, fun i => ?_⟩, fun t' ht' => ?_⟩
      · rw [harr, ← hsys]
        exact leave_length h ht hval i
      · obtain rfl : t = t' := Option.some.inj (hp.symm.trans ht')
        rw [harr]
        funext i
        by_cases him : i = m
        · subst him
          rw [Function.update_self]
        · rw [Function.update_of_ne him, List.erase_of_not_mem]
          exact fun hti => him (h.sys.lists.apart i m t hti ht)
    · have hno : ∀ i, t ∉ s.arrivals i := fun i hi => hw ⟨i, hi⟩
      obtain ⟨k', h1, hi, hsems⟩ := expire_idle h.sys hp hno
      obtain ⟨-, hsys⟩ := Prod.mk.inj (Except.ok.inj (h1.symm.trans he))
      rw [hsys] at hi
      have harr : s'.arrivals = s.arrivals := arrivals_stay hi hst fun _ => rfl
      refine ⟨⟨lr, by rw [harr]; exact hi, fun i => ?_⟩, fun t' ht' => ?_⟩
      · rw [harr, ← hsys]
        show _ = (-(k'.sems i).currVal).toNat
        rw [hsems]
        exact h.length i
      · obtain rfl : t = t' := Option.some.inj (hp.symm.trans ht')
        rw [harr]
        funext i
        rw [List.erase_of_not_mem (hno i)]

theorem step_spec (h : ∃ lr, Inv s lr) (hst : Step s c s') : (∃ lr', Inv s' lr') ∧ ChainStepOK s c s' := by
  obtain ⟨lr, h⟩ := h
  obtain ⟨c, r⟩ := c
  cases c with
  | wait m timeout tm => exact wait_step h hst
  | post m => exact post_step h hst
  | expire tm => exact expire_step h hst
  | ret =>
    obtain ⟨⟨tm, htm⟩, he⟩ := hst.1
    obtain ⟨-, hsys⟩ := Prod.mk.inj (Except.ok.inj he)
    have hi := SemsSys.ret_inv h.sys htm
    rw [hsys] at hi
    have harr : s'.arrivals = s.arrivals := arrivals_stay hi hst fun _ => rfl
    refine ⟨⟨lr, by rw [harr]; exact hi, fun i => ?_⟩, trivial⟩
    rw [harr, ← hsys]
    exact h.length i
  | dispatch t p =>
    obtain ⟨ha, he⟩ := hst.1
    obtain ⟨-, hsys⟩ := Prod.mk.inj (Except.ok.inj he)
    have hi := SemsSys.dispatch_inv h.sys ha p
    rw [hsys] at hi
    have harr : s'.arrivals = s.arrivals := arrivals_stay hi hst fun _ => rfl
    refine ⟨⟨lr, by rw [harr]; exact hi, fun i => ?_⟩, trivial⟩
    rw [harr, ← hsys]
    show _ = (-((s.sys.k.dispatch t p).sems i).currVal).toNat
    rw [Kernel.dispatch_rest]
    exact h.length i

theorem Inv.chainOK (h : Inv s lr) : ChainOK s where
  chain := h.sys.lists.wait
  length := h.length
  sem m t := by
    have hat := h.sys.tasks t
    cases hp : s.sys.phase t with
    | out =>
      rw [hp] at hat
      rw [hat.2]
      exact iff_of_false nofun (hat.1 m)
    | waiting i tm =>
      rw [hp] at hat
      rw [hat.2.2.1]
      refine ⟨fun him => Option.some.inj him ▸ hat.1, fun ht => ?_⟩
      rw [h.sys.lists.apart i m t hat.1 ht]
    | woken tm =>
      rw [hp] at hat
      rw [hat.2.2]
      exact iff_of_false nofun (hat.1 m)
  nodup m := (h.sys.lists.wait m).nodup
  apart m m' t ht ht' := h.sys.lists.apart m m' t ht ht'

end Inv

/-- **The wait chains of the semaphores.** In every state of every run the chain
of each semaphore is the list of the tasks that wait for it in the order of
their calls, with the length and the tasks that `curr_val` and `sem` say; and
every step does to the chains what it should. -/
theorem chainOK_of_run {s : ChainSys n} (hi : Init s) {tr : List ((SemsCall n × Option OsErr) × ChainSys n)}
    (h : Run.Exec Step s tr) : (∀ x ∈ Run.states s tr, ChainOK x) ∧ Run.Exec ChainStepOK s tr := by
  constructor
  · intro x hx
    obtain ⟨lr, hx⟩ := h.invariant (fun s => ∃ lr, Inv s lr) (fun _ _ _ hs hst => (step_spec hs hst).1) hi.inv x hx
    exact hx.chainOK
  · exact h.of_guarded (fun s => ∃ lr, Inv s lr) (fun _ _ _ hs _ hst => step_spec hs hst) (Run.guarded_true s tr) hi.inv

/-- The step as a function. -/
def step (s : ChainSys n) (c : SemsCall n × Option OsErr) : Option (ChainSys n) :=
  (Run.attempt SemsSys.Admissible SemsSys.exec s.sys c).map fun x =>
    { sys := x, arrivals := fun i => (s.arrivals i).filter (x.waitsFor i) ++ s.joins c i }

theorem step_of_eq (s : ChainSys n) (c : SemsCall n × Option OsErr) (s' : ChainSys n) (h : s.step c = some s') :
    Step s c s' := by
  obtain ⟨x, hx, rfl⟩ := Option.map_eq_some_iff.mp h
  exact ⟨Run.step_of_attempt hx, rfl⟩

/-- Three ready tasks and two semaphores of one permit. -/
def twoChains : ChainSys 3 where
  sys := SemsSys.twoSems
  arrivals := fun _ => []

theorem twoChains_init : Init twoChains where
  sys := SemsSys.twoSems_init
  vals := fun m => by
    rcases m with _ | _ | m
    · decide
    · decide
    · exact Int.le_refl 0
  arrivals := fun _ => rfl

/-- Tasks 1 and 2 wait for the semaphore that task 0 has, the second with a
timeout, which expires; task 0 posts. -/
theorem chainOK_contendedRun : Init twoChains ∧ ∃ tr, Run.Exec Step twoChains tr ∧ tr.length = 8 ∧
    (∃ x ∈ Run.states twoChains tr, x.arrivals 0 = [1, 2]) ∧ (∀ x ∈ Run.states twoChains tr, ChainOK x) ∧
    Run.Exec ChainStepOK twoChains tr := by
  refine ⟨twoChains_init, ?_⟩
  have hrun := Run.exists_exec step_of_eq (s := twoChains)
    [(.wait 0 osNoWait 0, some .osOk), (.wait 0 osNoWait 0, some .eOsUnavail), (.dispatch 1 true, none),
      (.wait 0 osWaitForever 7, none), (.dispatch 2 true, none), (.wait 0 5 8, none), (.expire 8, none),
      (.post 0, some .osOk)]
    (fun tr => decide (tr.length = 8 ∧ ∃ x ∈ Run.states twoChains tr, x.arrivals 0 = [1, 2])) (by decide +kernel)
  obtain ⟨tr, hex, hp⟩ := hrun
  obtain ⟨hlen, harr⟩ := of_decide_eq_true hp
  exact ⟨tr, hex, hlen, harr, chainOK_of_run twoChains_init hex⟩

end ChainSys

end Rosx
