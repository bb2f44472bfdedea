/-
# The global list of tasks

`rx_create_task` appends the new task to the list at `__rx_task_list_head` and
counts it in `__rx_curr_num_task`; `rx_delete_task` takes a task off the list,
unless it is suspended or ready. A run is any sequence of the two, with
anything in between that leaves the list alone; the tasks created and not yet
deleted are kept next to the kernel, in the order of their creation.

The list holds exactly these tasks, in that order, in every state of every run
(`chain_of_run`). No deletion is counted: the count is the length of the list
as long as all deletions are refused, and no longer (`taskListOK_iff`).

Key definitions: `ListSys.exec`, `ListSys.TaskListOK`, `ListSys.Refused`.
-/
import Rosx.TaskRun
import Rosx.Lib.DoublyLinked

namespace Rosx

open Linked

variable {n : ℕ}

/-- The kernel, and the tasks that are created and not deleted. -/
structure ListSys (n : ℕ) where
  k : Kernel n
  created : List (Fin n) := []

/-- A step of a run. -/
inductive ListCall (n : ℕ) where
  | create (t : Fin n) (a : TaskArgs)
  | delete (t : Fin n)
  | other (k' : Kernel n)

namespace ListSys

/-- The created tasks after a call that returned `r`. -/
def createdBy (C : List (Fin n)) : ListCall n → OsErr → List (Fin n)
  | .create t _, .osOk => C ++ [t]
  | .delete t, .osOk => C.erase t
  | _, _ => C

/-- What a step computes. -/
def exec (s : ListSys n) : ListCall n → Res (OsErr × ListSys n)
  | .create t a => (rxCreateTask s.k t a).map fun x => (x.1, ⟨x.2, createdBy s.created (.create t a) x.1⟩)
  | .delete t => (rxDeleteTask s.k t).map fun x => (x.1, ⟨x.2, createdBy s.created (.delete t) x.1⟩)
  | .other k' => .ok (.osOk, { s with k := k' })

/-- A task is created when it is not, and deleted when it is. Anything else
leaves the list and the count alone; the states of the tasks may change. -/
def Admissible (s : ListSys n) : ListCall n → Prop
  | .create t _ => t ∉ s.created
  | .delete t => t ∈ s.created
  | .other k' => k'.listNext = s.k.listNext ∧ k'.taskListHead = s.k.taskListHead ∧ k'.numTask = s.k.numTask

instance (s : ListSys n) : ∀ c, Decidable (s.Admissible c)
  | .create t _ => inferInstanceAs (Decidable (t ∉ s.created))
  | .delete t => inferInstanceAs (Decidable (t ∈ s.created))
  | .other k' => inferInstanceAs (Decidable (k'.listNext = s.k.listNext ∧ k'.taskListHead = s.k.taskListHead ∧
      k'.numTask = s.k.numTask))

/-- One step of a run, labelled with the call and what it returns. -/
def Step (s : ListSys n) (c : ListCall n × OsErr) (s' : ListSys n) : Prop :=
  s.Admissible c.1 ∧ s.exec c.1 = .ok (c.2, s')

/-- The list holds the created tasks, each once and in the order of their
creation, and they are counted. -/
structure TaskListOK (s : ListSys n) : Prop where
  chain : Chain s.k.listNext s.k.taskListHead s.created
  nodup : s.created.Nodup
  count : s.k.numTask = s.created.length

/-- Nothing is created. -/
structure Init (s : ListSys n) : Prop where
  head : s.k.taskListHead = none
  count : s.k.numTask = 0
  created : s.created = []

/-- A deletion is refused. -/
def Refused (s : ListSys n) (c : ListCall n × OsErr) : Prop :=
  match c.1 with
  | .delete t => (s.k.tcb t).state = .suspend ∨ (s.k.tcb t).state = .ready
  | .create _ _ | .other _ => True

instance (s : ListSys n) : ∀ c, Decidable (Refused s c)
  | (.delete t, _) => inferInstanceAs (Decidable ((s.k.tcb t).state = .suspend ∨ (s.k.tcb t).state = .ready))
  | (.create _ _, _) => inferInstanceAs (Decidable True)
  | (.other _, _) => inferInstanceAs (Decidable True)

section Calls

variable {s s' : ListSys n} {k k' : Kernel n} {C : List (Fin n)} {t : Fin n} {a : TaskArgs} {r : OsErr}

/-- A call that succeeds adds the task to the list and counts it. -/
theorem rxCreateTask_list (hl : Chain k.listNext k.taskListHead C) (ht : t ∉ C)
    (hk : rxCreateTask k t a = .ok (.osOk, k')) :
    Chain k'.listNext k'.taskListHead (C ++ [t]) ∧ k'.numTask = k.numTask + 1 := by
  rcases rxCreateTask_cases hk with ⟨hr, -⟩ | ⟨stack, k1, k3, k4, halloc, hk3, hk4, -, rfl⟩
  · cases hr
  · have h1 := allocStack_frame halloc
    have htcb1 : k1.tcb = k.tcb := by rw [h1]; rfl
    obtain ⟨h3, -⟩ := addIfReady_relinked hk3
    have hlist : ∀ u, (k3.tcb u).list = if u = t then none else (k.tcb u).list := by
      intro u
      rw [h3.tcb u, Kernel.setTcb_tcb, htcb1]
      by_cases hu : u = t
      · subst hu
        simp [initTcb]
      · simp [hu]
    have hl3 : Chain k3.listNext k3.taskListHead C := by
      have hhead : k3.taskListHead = k.taskListHead := by
        rw [h3.rest]
        show k1.taskListHead = _
        rw [h1]
        rfl
      rw [hhead]
      apply hl.congr
      intro u hu
      show (k3.tcb u).list = _
      rw [hlist, if_neg (ne_of_mem_of_not_mem hu ht)]
      rfl
    have h4 : Chain k4.listNext k4.taskListHead (C ++ [t]) :=
      addToTaskList_chain hl3 ht (by rw [hlist, if_pos rfl]) hk4
    refine ⟨h4, ?_⟩
    show k4.numTask + 1 = _
    rw [(addToTaskList_frame hk4).1]
    show k3.numTask + 1 = _
    rw [h3.rest]
    show k1.numTask + 1 = _
    rw [h1]
    rfl

/-- A task on the list is deleted, unless it is suspended or ready. -/
theorem rxDeleteTask_list (hl : Chain k.listNext k.taskListHead C) (ht : t ∈ C)
    (hs : ¬ ((k.tcb t).state = .suspend ∨ (k.tcb t).state = .ready)) :
    ∃ k', rxDeleteTask k t = .ok (.osOk, k') ∧ Chain k'.listNext k'.taskListHead (C.erase t) ∧
      k'.numTask = k.numTask := by
  obtain ⟨l, m, rfl⟩ := List.append_of_mem ht
  have htl : t ∉ l := (notMem_of_nodup_append hl.nodup).1
  rw [List.erase_append_right _ htl, List.erase_cons_head]
  unfold rxDeleteTask
  rw [if_neg hs]
  rcases List.eq_nil_or_concat' l with rfl | ⟨l, p, rfl⟩
  · -- the first task of the list
    have hhead : k.taskListHead = some t := hl.1
    rw [if_pos hhead]
    exact ⟨_, rfl, hl.2, rfl⟩
  · rw [List.append_assoc, List.singleton_append] at hl
    obtain ⟨b, hb⟩ : ∃ b, k.taskListHead = some b := by
      cases l with
      | nil => exact ⟨p, hl.1⟩
      | cons b l => exact ⟨b, hl.1⟩
    have hbt : ¬ k.taskListHead = some t := by
      have hmem := Seg.head hl
      cases l with
      | nil => simpa [hmem, eq_comm] using htl
      | cons c l =>
        rw [hmem]
        simp only [List.cons_append, List.head?_cons, Option.some.injEq]
        rintro rfl
        simp at htl
    have hbefore : nodeBefore k.listNext t n b = .ok p := by
      refine nodeBefore_eq (hb ▸ hl) ?_
      have hlen := hl.length_le
      simp only [List.length_append, List.length_cons, Fintype.card_fin] at hlen
      omega
    have hp : (k.tcb p).list = some t := hl.next_eq
    rw [if_neg hbt]
    simp only [hb, hbefore, bind, Except.bind, hp]
    refine ⟨_, rfl, ?_, rfl⟩
    have hnext : (k.setTcb p { k.tcb p with list := (k.tcb t).list }).listNext
        = Function.update k.listNext p (k.listNext t) := by
      funext u
      by_cases hu : u = p
      · subst hu; simp [Kernel.listNext]
      · simp [Kernel.listNext, hu]
    rw [hnext, List.append_assoc]
    exact hl.removeAfter

/-- What a step does to the list and to the count. -/
theorem step_list (hl : Chain s.k.listNext s.k.taskListHead s.created) {c : ListCall n × OsErr} (hst : Step s c s') :
    Chain s'.k.listNext s'.k.taskListHead s'.created ∧
      ((Refused s c ∧ s'.k.numTask + s.created.length = s.k.numTask + s'.created.length) ∨
        ¬ Refused s c ∧ s'.k.numTask = s.k.numTask ∧ s'.created.length + 1 = s.created.length) := by
  obtain ⟨c, r⟩ := c
  obtain ⟨ha, he⟩ := hst
  cases c with
  | create t a =>
    obtain ⟨⟨r', k'⟩, hk, he⟩ := map_eq_ok.mp he
    obtain ⟨rfl, rfl⟩ := Prod.mk.inj he
    rcases rxCreateTask_frame hk with ⟨rfl, hk'⟩ | ⟨rfl, -⟩
    · dsimp only
      rw [hk']
      exact ⟨hl, Or.inl ⟨trivial, rfl⟩⟩
    · obtain ⟨hl', hcount⟩ := rxCreateTask_list hl ha hk
      refine ⟨hl', Or.inl ⟨trivial, ?_⟩⟩
      show k'.numTask + _ = _ + (s.created ++ [t]).length
      rw [hcount, List.length_append, List.length_singleton]
      omega
  | delete t =>
    obtain ⟨⟨r', k'⟩, hk, he⟩ := map_eq_ok.mp he
    obtain ⟨rfl, rfl⟩ := Prod.mk.inj he
    by_cases hs : (s.k.tcb t).state = .suspend ∨ (s.k.tcb t).state = .ready
    · unfold rxDeleteTask at hk
      rw [if_pos hs] at hk
      obtain ⟨rfl, rfl⟩ := Prod.mk.inj (Except.ok.inj hk)
      exact ⟨hl, Or.inl ⟨hs, rfl⟩⟩
    · obtain ⟨k1, hk1, hl', hcount⟩ := rxDeleteTask_list hl ha hs
      obtain ⟨rfl, rfl⟩ := Prod.mk.inj (Except.ok.inj (hk1.symm.trans hk))
      exact ⟨hl', Or.inr ⟨hs, hcount, List.length_erase_add_one ha⟩⟩
  | other k' =>
    obtain ⟨-, rfl⟩ := Prod.mk.inj (Except.ok.inj he)
    obtain ⟨h1, h2, h3⟩ := ha
    refine ⟨?_, Or.inl ⟨trivial, ?_⟩⟩
    · show Chain k'.listNext k'.taskListHead s.created
      rw [h1, h2]
      exact hl
    · show k'.numTask + _ = _
      rw [h3]

theorem Init.ok (h : Init s) : TaskListOK s := by
  refine ⟨?_, ?_, ?_⟩
  · rw [h.created]
    exact h.head
  · rw [h.created]
    exact List.nodup_nil
  · rw [h.count, h.created]
    rfl

/-- Along every run the list holds the created tasks, in the order of their
creation. -/
theorem chain_of_run (hi : Init s) {tr : List ((ListCall n × OsErr) × ListSys n)} (h : Run.Exec Step s tr) :
    ∀ x ∈ Run.states s tr, Chain x.k.listNext x.k.taskListHead x.created :=
  h.invariant (fun x => Chain x.k.listNext x.k.taskListHead x.created) (fun _ _ _ hl hst => (step_list hl hst).1)
    hi.ok.chain

/-- **Along a run the list holds the created tasks and they are counted, if and
only if all deletions are refused.** -/
theorem taskListOK_iff (hi : Init s) {tr : List ((ListCall n × OsErr) × ListSys n)} (h : Run.Exec Step s tr) :
    (∀ x ∈ Run.states s tr, TaskListOK x) ↔ Run.Guarded Refused s tr := by
  refine (h.guarded_iff TaskListOK (fun _ h => h) (fun s c s' hs hc hst => ?_)
    (fun s c s' hs hc hst hs' => ?_) hi.ok).symm
  · obtain ⟨hl, hcount⟩ := step_list hs.chain hst
    refine ⟨hl, hl.nodup, ?_⟩
    rcases hcount with ⟨-, hcount⟩ | ⟨hno, -⟩
    · have := hs.count
      omega
    · exact absurd hc hno
  · obtain ⟨-, ⟨hr, -⟩ | ⟨-, hcount, hlen⟩⟩ := step_list hs.chain hst
    · exact hc hr
    · have h1 := hs.count
      have h2 := hs'.count
      omega

theorem step_of_attempt {c : ListCall n × OsErr} (h : Run.attempt Admissible exec s c = some s') : Step s c s' :=
  Run.step_of_attempt h

end Calls

/-- Nothing is created. -/
def noTasks (t : Fin n) : ListSys n where
  k := bareKernel t

/-- Task 1 is not deleted, as it is ready; the list holds tasks 1 and 2. -/
theorem taskListOK_noTasks : Init (noTasks (0 : Fin 3)) ∧ ∃ tr, Run.Exec Step (noTasks (0 : Fin 3)) tr ∧ tr.length = 3 ∧
    (∀ x ∈ Run.states (noTasks 0) tr, TaskListOK x) ∧ (Run.final (noTasks 0) tr).created = [1, 2] := by
  refine ⟨⟨rfl, rfl, rfl⟩, ?_⟩
  obtain ⟨tr, hex, hp⟩ := Run.exists_exec (f := Run.attempt Admissible exec) (fun _ _ _ => step_of_attempt)
    (s := noTasks (0 : Fin 3))
    [(.create 1 { prio := 3, stackSize := 8192, state := .ready }, .osOk), (.delete 1, .osErr),
      (.create 2 { prio := 4, stackSize := 8192, state := .suspend }, .osOk)]
    (fun tr => decide (tr.length = 3 ∧ Run.Guarded Refused (noTasks 0) tr ∧ (Run.final (noTasks 0) tr).created = [1, 2]))
    (by decide +kernel)
  obtain ⟨hlen, hg, hcreated⟩ := of_decide_eq_true hp
  exact ⟨tr, hex, hlen, (taskListOK_iff ⟨rfl, rfl, rfl⟩ hex).mpr hg, hcreated⟩

/-- The kernel after task `u` is created, and the one after it is then aborted. -/
def oneTask (t u : Fin n) : Kernel n :=
  ((rxCreateTask (bareKernel t) u { prio := 3, stackSize := 8192, state := .ready }).toOption.map (·.2)).getD
    (bareKernel t)

def oneAborted (t u : Fin n) : Kernel n := ((rxAbortTask (oneTask t u) u).toOption.map (·.2)).getD (oneTask t u)

/-- A task that is created, aborted and deleted is still counted. -/
theorem deleted_is_counted : ¬ ∀ (s : ListSys 3) (tr : List ((ListCall 3 × OsErr) × ListSys 3)), Init s →
    Run.Exec Step s tr → ∀ x ∈ Run.states s tr, TaskListOK x := by
  intro hall
  obtain ⟨tr, hex, hp⟩ := Run.exists_exec (f := Run.attempt Admissible exec) (fun _ _ _ => step_of_attempt)
    (s := noTasks (0 : Fin 3))
    [(.create 1 { prio := 3, stackSize := 8192, state := .ready }, .osOk), (.other (oneAborted 0 1), .osOk),
      (.delete 1, .osOk)]
    (fun tr => decide ((Run.final (noTasks 0) tr).created = [] ∧ (Run.final (noTasks 0) tr).k.numTask = 1))
    (by decide +kernel)
  obtain ⟨hcreated, hcount⟩ := of_decide_eq_true hp
  have hok := hall (noTasks 0) tr ⟨rfl, rfl, rfl⟩ hex _ (Run.final_mem_states _ _)
  have := hok.count
  rw [hcreated, hcount] at this
  cases this

end ListSys

end Rosx
