/-
# Stacks out of the system stack

`rx_create_task` without a stack of the caller's takes one from the system
stack, which grows down. The check asks for room for the stack alone, but the
allocator moves by four bytes more; so it can leave the area by that much, and
then no stack of any size fits any more. A run is any sequence of such calls,
with anything in between that leaves the stacks alone; the stacks handed out
are kept next to the kernel.

In every state of a run the stacks of the tasks lie in the area and apart from
each other, and a call for which there is no room changes nothing
(`stacksOK_of_run`).

Key definitions: `StackSys.exec`, `StackSys.StacksOK`, `StackSys.Inv`.
-/
import Rosx.TaskRun
import Mathlib.Data.Int.ConditionallyCompleteOrder
import Mathlib.Data.List.Pairwise
import Mathlib.Order.CompletePartialOrder
import Mathlib.Order.ConditionallyCompleteLattice.Basic
import Mathlib.Order.Interval.Set.Disjoint

namespace Rosx

open Linked

variable {n : ℕ}

/-- A stack: its bytes are those below `top`. -/
structure Stack where
  top : ℤ
  size : ℤ
  deriving DecidableEq

def Stack.area (x : Stack) : Set ℤ := Set.Ico (x.top - x.size) x.top

/-- The stack of a task. -/
def Tcb.stack (c : Tcb n) : Stack := ⟨c.stackStartPtr, c.stackSize⟩

/-- The system stack: `CONFIG_SYSTEM_STACK_SIZE` bytes below
`__rx_stack_start_ptr`. -/
def Kernel.systemStack (k : Kernel n) : Stack := ⟨k.stackStartPtr, systemStackSize⟩

/-- The kernel, and the stacks taken from the system stack with the tasks they
were for, the last one first. -/
structure StackSys (n : ℕ) where
  k : Kernel n
  taken : List (Fin n × Stack) := []

/-- A step of a run. -/
inductive StackCall (n : ℕ) where
  | create (t : Fin n) (a : TaskArgs)
  | other (k' : Kernel n)

/-- A call that takes a stack from the system stack. -/
def StackCall.takes : StackCall n → Bool
  | .create _ a => a.stackPtr = none ∧ 0 < a.stackSize
  | .other _ => false

namespace StackSys

/-- What a step computes. -/
def exec (s : StackSys n) : StackCall n → Res (OsErr × StackSys n)
  | .create t a => (rxCreateTask s.k t a).map fun x =>
    (x.1, ⟨x.2, if x.1 = .osOk then (t, (x.2.tcb t).stack) :: s.taken else s.taken⟩)
  | .other k' => .ok (.osOk, { s with k := k' })

/-- The tasks are created without a stack of their own, and with a positive
stack size. Anything else leaves the allocator and the stacks alone. -/
def Admissible (s : StackSys n) : StackCall n → Prop
  | .create _ a => a.stackPtr = none ∧ 0 < a.stackSize
  | .other k' => k'.stackStartPtr = s.k.stackStartPtr ∧ k'.currStackPtr = s.k.currStackPtr ∧
      ∀ t, (k'.tcb t).stack = (s.k.tcb t).stack

/-- One step of a run, labelled with the call and what it returns. -/
def Step (s : StackSys n) (c : StackCall n × OsErr) (s' : StackSys n) : Prop :=
  s.Admissible c.1 ∧ s.exec c.1 = .ok (c.2, s')

/-- The tasks created so far. -/
def Created (s : StackSys n) (t : Fin n) : Prop := t ∈ s.taken.map (·.1)

/-- There is room for the stack of the call. -/
def HasRoom (s : StackSys n) (a : TaskArgs) : Prop :=
  s.k.stackStartPtr - systemStackSize ≤ s.k.currStackPtr - a.stackSize

/-- The stacks lie in the system stack and apart from each other: those of the
tasks, and all that have ever been taken. Without room nothing changes, but for
the interrupt mask. -/
structure StacksOK (s : StackSys n) : Prop where
  inside : ∀ t, s.Created t → (s.k.tcb t).stack.area ⊆ s.k.systemStack.area
  apart : ∀ t u, s.Created t → s.Created u → t ≠ u → Disjoint (s.k.tcb t).stack.area (s.k.tcb u).stack.area
  taken : s.taken.Pairwise fun x y => Disjoint x.2.area y.2.area
  refused : ∀ t a, a.stackPtr = none → ¬ s.HasRoom a → ∃ s', s.exec (.create t a) = .ok (.osErr, s') ∧
    s'.k = { s.k with port := s'.k.port } ∧ s'.taken = s.taken

/-- The allocator is where `__rx_kernel_enter` puts it. -/
structure Init (s : StackSys n) : Prop where
  top : s.k.currStackPtr = s.k.stackStartPtr
  taken : s.taken = []

/-- The stacks taken lie between the allocator and the top of the system stack,
each below the ones before it; a task has the last one taken for it. -/
structure Inv (s : StackSys n) : Prop where
  top : s.k.currStackPtr ≤ s.k.stackStartPtr
  above : ∀ x ∈ s.taken, s.k.currStackPtr + 4 ≤ x.2.top - x.2.size ∧
    s.k.stackStartPtr - systemStackSize ≤ x.2.top - x.2.size ∧ x.2.top ≤ s.k.stackStartPtr
  below : s.taken.Pairwise fun x y => x.2.top ≤ y.2.top - y.2.size
  own : ∀ t, s.Created t → (t, (s.k.tcb t).stack) ∈ s.taken

section Calls

variable {s s' : StackSys n} {t : Fin n} {a : TaskArgs} {r : OsErr}

/-- A call that succeeds takes the stack at the allocator, which fits, and
moves the allocator. -/
theorem rxCreateTask_stack {k k' : Kernel n} (hp : a.stackPtr = none) (hk : rxCreateTask k t a = .ok (.osOk, k')) :
    k.stackStartPtr - systemStackSize ≤ k.currStackPtr - a.stackSize ∧ k'.stackStartPtr = k.stackStartPtr ∧
      k'.currStackPtr = k.currStackPtr - (a.stackSize + 4) ∧
      ∀ u, (k'.tcb u).stack = if u = t then ⟨k.currStackPtr, a.stackSize⟩ else (k.tcb u).stack := by
  rcases rxCreateTask_cases hk with ⟨hr, -⟩ | ⟨stack, k1, k3, k4, halloc, hk3, hk4, -, rfl⟩
  · cases hr
  · unfold allocStack at halloc
    simp only [hp] at halloc
    split_ifs at halloc with hroom
    obtain ⟨rfl, rfl⟩ := Prod.mk.inj (Option.some.inj halloc)
    obtain ⟨h3, -⟩ := addIfReady_relinked hk3
    obtain ⟨h4, htcb4⟩ := addToTaskList_frame hk4
    refine ⟨not_lt.mp hroom, ?_, ?_, fun u => ?_⟩
    · show k4.stackStartPtr = _
      rw [h4, h3.rest]
      rfl
    · show k4.currStackPtr = _
      rw [h4, h3.rest]
      rfl
    · show (k4.tcb u).stack = _
      rw [htcb4 u, h3.tcb u]
      by_cases hu : u = t
      · subst hu
        simp [Tcb.stack, initTcb, Kernel.enterCritical]
      · simp [Tcb.stack, Kernel.enterCritical, hu]

/-- A call without room is refused, if not for its name. -/
theorem rxCreateTask_noRoom {k : Kernel n} (hp : a.stackPtr = none)
    (hroom : ¬ k.stackStartPtr - systemStackSize ≤ k.currStackPtr - a.stackSize) :
    ∃ k', rxCreateTask k t a = .ok (.osErr, k') ∧ k' = { k with port := k'.port } := by
  have halloc : allocStack k.enterCritical a = none := by
    unfold allocStack
    simp only [hp]
    exact if_pos (not_le.mp hroom)
  unfold rxCreateTask
  simp only [halloc]
  split_ifs
  · exact ⟨k, rfl, rfl⟩
  · exact ⟨k.enterCritical.exitCritical, rfl, rfl⟩

theorem Inv.stacksOK (h : Inv s) : StacksOK s := by
  have hdis : s.taken.Pairwise fun x y => Disjoint x.2.area y.2.area := by
    refine h.below.imp fun {x y} hxy => ?_
    rw [Stack.area, Stack.area, Set.Ico_disjoint_Ico]
    exact (min_le_left _ _).trans (hxy.trans (le_max_right _ _))
  have : Std.Symm fun x y : Fin n × Stack => Disjoint x.2.area y.2.area := ⟨fun _ _ hd => hd.symm⟩
  refine ⟨fun t ht => ?_, fun t u ht hu htu => ?_, hdis, fun t a hp hroom => ?_⟩
  · obtain ⟨-, hlow, hhigh⟩ := h.above _ (h.own t ht)
    exact Set.Ico_subset_Ico hlow hhigh
  · exact hdis.forall (h.own t ht) (h.own u hu) fun he => htu (congrArg Prod.fst he)
  · obtain ⟨k', hk, hk'⟩ := rxCreateTask_noRoom (t := t) hp hroom
    refine ⟨⟨k', s.taken⟩, ?_, hk', rfl⟩
    simp only [exec, hk]
    rfl

/-- A stack is taken just below the ones taken before. -/
theorem Inv.create (h : Inv s) (hp : a.stackPtr = none) (hsize : 0 < a.stackSize) {k' : Kernel n}
    (hk : rxCreateTask s.k t a = .ok (.osOk, k')) : Inv ⟨k', (t, (k'.tcb t).stack) :: s.taken⟩ := by
  obtain ⟨hroom, hstart, hcurr, hstack⟩ := rxCreateTask_stack hp hk
  have hself : (k'.tcb t).stack = ⟨s.k.currStackPtr, a.stackSize⟩ := by rw [hstack, if_pos rfl]
  have htop := h.top
  rw [hself]
  refine ⟨?_, fun x hx => ?_, List.pairwise_cons.mpr ⟨fun x hx => ?_, h.below⟩, fun u hu => ?_⟩
  · show k'.currStackPtr ≤ k'.stackStartPtr
    omega
  · show k'.currStackPtr + 4 ≤ _ ∧ k'.stackStartPtr - _ ≤ _ ∧ _ ≤ k'.stackStartPtr
    rw [hcurr, hstart]
    rcases List.mem_cons.mp hx with rfl | hx
    · exact ⟨by show _ ≤ s.k.currStackPtr - a.stackSize; omega, hroom, htop⟩
    · obtain ⟨h1, h2, h3⟩ := h.above x hx
      exact ⟨by omega, h2, h3⟩
  · obtain ⟨h1, -, -⟩ := h.above x hx
    show s.k.currStackPtr ≤ _
    omega
  · show (u, (k'.tcb u).stack) ∈ _
    by_cases hut : u = t
    · subst hut
      rw [hself]
      exact List.mem_cons_self
    · have hu' : s.Created u := (List.mem_cons.mp hu).resolve_left hut
      rw [hstack, if_neg hut]
      exact List.mem_cons_of_mem _ (h.own u hu')

/-- What a step in between, or a refused call, leaves alone. -/
theorem Inv.congr (h : Inv s) (hstart : s'.k.stackStartPtr = s.k.stackStartPtr)
    (hcurr : s'.k.currStackPtr = s.k.currStackPtr) (hstack : ∀ t, (s'.k.tcb t).stack = (s.k.tcb t).stack)
    (htaken : s'.taken = s.taken) : Inv s' := by
  refine ⟨?_, ?_, ?_, fun t ht => ?_⟩
  · rw [hstart, hcurr]
    exact h.top
  · rw [hstart, hcurr, htaken]
    exact h.above
  · rw [htaken]
    exact h.below
  · unfold Created at ht
    rw [htaken] at ht ⊢
    rw [hstack]
    exact h.own t ht

theorem Inv.step (h : Inv s) {c : StackCall n × OsErr} (hst : Step s c s') : Inv s' := by
  obtain ⟨c, r⟩ := c
  obtain ⟨ha, he⟩ := hst
  cases c with
  | create t a =>
    obtain ⟨⟨r', k'⟩, hk, he⟩ := map_eq_ok.mp he
    obtain ⟨rfl, rfl⟩ := Prod.mk.inj he
    rcases rxCreateTask_frame hk with ⟨rfl, hk'⟩ | ⟨rfl, -⟩
    · apply h.congr
      · show k'.stackStartPtr = _
        rw [hk']
      · show k'.currStackPtr = _
        rw [hk']
      · intro t
        show (k'.tcb t).stack = _
        rw [hk']
      · rfl
    · exact h.create ha.1 ha.2 hk
  | other k' =>
    obtain ⟨-, rfl⟩ := Prod.mk.inj (Except.ok.inj he)
    exact h.congr ha.1 ha.2.1 ha.2.2 rfl

theorem step_of_takes {c : StackCall n × OsErr} (h : Run.attempt (fun _ c => c.takes = true) exec s c = some s') :
    Step s c s' := by
  obtain ⟨hc, he⟩ := Run.step_of_attempt h
  obtain ⟨c, r⟩ := c
  cases c with
  | create t a =>
    have ha : a.stackPtr = none ∧ 0 < a.stackSize := of_decide_eq_true hc
    exact ⟨ha, he⟩
  | other k' => cases hc

theorem Init.inv (h : Init s) : Inv s := by
  refine ⟨h.top.le, ?_, ?_, fun t ht => ?_⟩
  · rw [h.taken]
    simp
  · rw [h.taken]
    exact List.Pairwise.nil
  · unfold Created at ht
    rw [h.taken] at ht
    cases ht

/-- **Along every run of `rx_create_task` without stacks of the callers', the
stacks of the tasks lie in the system stack and apart from each other**, and a
call without room changes nothing. -/
theorem stacksOK_of_run (hi : Init s) {tr : List ((StackCall n × OsErr) × StackSys n)} (h : Run.Exec Step s tr) :
    ∀ x ∈ Run.states s tr, StacksOK x :=
  fun x hx => (h.invariant Inv (fun _ _ _ hs hst => hs.step hst) hi.inv x hx).stacksOK

end Calls

/-- Nothing is created. -/
def noStacks (t : Fin n) : StackSys n where
  k := bareKernel t

/-- The second stack takes the rest of the area, so that the allocator leaves
it; a third one of one byte is refused. -/
theorem stacksOK_noStacks : Init (noStacks (0 : Fin 3)) ∧ ∃ tr, Run.Exec Step (noStacks (0 : Fin 3)) tr ∧
    tr.length = 3 ∧ ∀ x ∈ Run.states (noStacks (0 : Fin 3)) tr, StacksOK x := by
  refine ⟨⟨rfl, rfl⟩, ?_⟩
  obtain ⟨tr, hex, hp⟩ := Run.exists_exec (f := Run.attempt (fun _ c => c.takes = true) exec)
    (fun _ _ _ => step_of_takes) (s := noStacks (0 : Fin 3))
    [(.create 1 { prio := 3, stackSize := 8192, state := .ready }, .osOk),
      (.create 2 { prio := 4, stackSize := 73724, state := .ready }, .osOk),
      (.create 0 { prio := 5, stackSize := 1, state := .ready }, .osErr)]
    (fun tr => decide (tr.length = 3)) (by decide +kernel)
  exact ⟨tr, hex, of_decide_eq_true hp, stacksOK_of_run ⟨rfl, rfl⟩ hex⟩

end StackSys

end Rosx
