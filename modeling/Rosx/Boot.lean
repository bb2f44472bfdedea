/-
# From power-on to the first task

`__rx_kernel_enter` (`kernel/rx_init.c`) makes the placeholder task the running one, creates
the system tasks and calls the application, which creates its own tasks and then enters the
scheduler. The results of `rx_create_task` are not looked at: a task whose name is too long,
or for whose stack there is no room, is left out.

The boot returns, whatever tasks the application creates, and leaves a ready queue that is
the stable sort by priority of the tasks that were let in (`rxKernelEnter_booted`). The runs
of the task services start from there: the ready queue stays well-formed as long as their
calls are safe, and the scheduler runs the first task.

Key definitions: `rxKernelEnter`, `admitted`, `StableOrder`, `PowerOn`, `BootState`.
Key theorems: `rxCreateTask_returns`, `rxKernelEnter_booted`, `readyQueueOK_from_boot`,
`runsFirst_from_boot`.
-/
import Rosx.SchedRun
import Rosx.TaskList

namespace Rosx

open Linked

variable {n : ℕ}

/-- `RX_TASK_HIGH_PRIO`. -/
def rxTaskHighPrio : ℤ := 0

/-- `CONFIG_SYS_TIMER_STACK_SIZE`, and the other sizes of the stacks of system tasks. -/
def sysStackSize : ℤ := 8192

/-- The control blocks and the stacks of the system tasks. -/
structure SysTasks (n : ℕ) where
  initTask : Fin n
  timer0 : Fin n
  event0 : Fin n
  bh0 : Fin n
  logger0 : Fin n
  terminal0 : Fin n
  timerStack : ℤ
  eventStack : ℤ
  bhStack : ℤ
  loggerStack : ℤ
  terminalStack : ℤ

/-- The characters of a name. -/
def taskName (s : String) : List UInt8 := s.toList.map fun c => UInt8.ofNat c.toNat

/-- The calls of `rx_create_task` in `__rx_kernel_enter`. -/
def SysTasks.args (s : SysTasks n) : List (Fin n × TaskArgs) :=
  [(s.timer0,
      { name := taskName "timer0", prio := rxTaskHighPrio, stackPtr := some s.timerStack, stackSize := sysStackSize,
        state := .ready, timeSlice := 0 }),
    (s.event0,
      { name := taskName "event0", prio := rxTaskHighPrio, stackPtr := some s.eventStack, stackSize := sysStackSize,
        state := .ready, timeSlice := 0 }),
    (s.bh0,
      { name := taskName "bh0", prio := rxTaskHighPrio, stackPtr := some s.bhStack, stackSize := sysStackSize,
        state := .ready, timeSlice := 0 }),
    (s.logger0,
      { name := taskName "logger0", prio := rxTaskLeastPrio - 1, stackPtr := some s.loggerStack,
        stackSize := sysStackSize, state := .ready, timeSlice := 0 }),
    (s.terminal0,
      { name := taskName "term0", prio := rxTaskLeastPrio - 2, stackPtr := some s.terminalStack,
        stackSize := sysStackSize, state := .ready, timeSlice := 0 })]

/-- Tasks are created; what the calls return is not looked at. -/
def createTasks : Kernel n → List (Fin n × TaskArgs) → Res (Kernel n)
  | k, [] => .ok k
  | k, (t, a) :: ts => do
    let (_, k) ← rxCreateTask k t a
    createTasks k ts

/-- `__rx_kernel_enter` with a `rx_application_init` that creates the tasks `app` and calls
`rx_sched`. The devices and the print buffer are not part of this kernel. -/
def rxKernelEnter (s : SysTasks n) (app : List (Fin n × TaskArgs)) (k : Kernel n) : Res (Kernel n) := do
  let k := { k with currStackPtr := k.stackStartPtr, curr := s.initTask, numTask := 0 }
  let k ← createTasks k s.args
  let k ← createTasks k app
  rxSched k

/-- The tasks of `apps/main.c`. -/
def mainTasks (idle task1 task2 task3 : Fin n) : List (Fin n × TaskArgs) :=
  [(idle, { name := taskName "idle", prio := rxTaskLeastPrio, stackSize := 8192, state := .ready, timeSlice := 0 }),
    (task1, { name := taskName "task1", prio := 1, stackSize := 8192, state := .ready, timeSlice := 0 }),
    (task2, { name := taskName "task2", prio := 2, stackSize := 8192, state := .ready, timeSlice := 0 }),
    (task3, { name := taskName "task3", prio := 3, stackSize := 8192, state := .ready, timeSlice := 0 })]

/-! ### Who is let in -/

/-- The part of the system stack that is free. -/
def Kernel.freeStack (k : Kernel n) : ℤ := k.currStackPtr - (k.stackStartPtr - systemStackSize)

/-- The name of the task fits, and so does its stack if it is taken from the system stack. -/
def Admits (free : ℤ) (a : TaskArgs) : Prop := a.name.length ≤ rxTaskStrLen ∧ (a.stackPtr = none → a.stackSize ≤ free)

instance (free : ℤ) (a : TaskArgs) : Decidable (Admits free a) := inferInstanceAs (Decidable (_ ∧ _))

/-- What is free behind a task. -/
def freeAfter (free : ℤ) (a : TaskArgs) : ℤ := if a.stackPtr = none then free - (a.stackSize + 4) else free

/-- The tasks that are let in, in turn. -/
def admitted (free : ℤ) : List (Fin n × TaskArgs) → List (Fin n × TaskArgs)
  | [] => []
  | x :: ts => if Admits free x.2 then x :: admitted (freeAfter free x.2) ts else admitted free ts

/-- What is free behind them. -/
def freeBehind (free : ℤ) : List (Fin n × TaskArgs) → ℤ
  | [] => free
  | x :: ts => if Admits free x.2 then freeBehind (freeAfter free x.2) ts else freeBehind free ts

theorem admitted_sublist (free : ℤ) (ts : List (Fin n × TaskArgs)) : (admitted free ts).Sublist ts := by
  induction ts generalizing free with
  | nil => exact List.Sublist.refl _
  | cons x ts ih =>
    rw [admitted]
    by_cases h : Admits free x.2
    · rw [if_pos h]
      exact (ih _).cons_cons x
    · rw [if_neg h]
      exact (ih _).cons x

theorem createTasks_append (k : Kernel n) (ts ts' : List (Fin n × TaskArgs)) :
    createTasks k (ts ++ ts') = (createTasks k ts).bind fun k => createTasks k ts' := by
  induction ts generalizing k with
  | nil => rfl
  | cons x ts ih =>
    obtain ⟨t, a⟩ := x
    show (rxCreateTask k t a).bind _ = ((rxCreateTask k t a).bind _).bind _
    cases rxCreateTask k t a with
    | error e => rfl
    | ok y => exact ih y.2

/-! ### One task -/

/-- `l` has the tasks of `C` sorted by priority, and tasks of the same priority as in `C`. -/
structure StableOrder (prio : Fin n → ℤ) (C l : List (Fin n)) : Prop where
  sorted : l.Pairwise fun a b => prio a ≤ prio b
  same : ∀ p, l.filter (fun t => prio t = p) = C.filter fun t => prio t = p

theorem StableOrder.nil (prio : Fin n → ℤ) : StableOrder prio [] [] := ⟨List.Pairwise.nil, fun _ => rfl⟩

theorem StableOrder.congr {prio prio' : Fin n → ℤ} {C l : List (Fin n)} (h : StableOrder prio C l)
    (hl : ∀ t ∈ l, prio' t = prio t) (hC : ∀ t ∈ C, prio' t = prio t) : StableOrder prio' C l := by
  refine ⟨h.sorted.imp_of_mem fun {a b} ha hb hab => by rw [hl a ha, hl b hb]; exact hab, fun p => ?_⟩
  rw [List.filter_congr fun t ht => by rw [hl t ht], h.same p]
  exact (List.filter_congr fun t ht => by rw [hC t ht]).symm

/-- A task that comes last is put where the loop of `__rx_add_to_ready_q` puts it. -/
theorem StableOrder.insert {prio : Fin n → ℤ} {C l : List (Fin n)} (h : StableOrder prio C l) (t : Fin n) :
    StableOrder prio (C ++ [t]) (insertReady prio (prio t) t l) := by
  refine ⟨insertReady_sorted h.sorted, fun p => ?_⟩
  obtain ⟨a, b, hl, hins, -, hb⟩ := insertReady_split prio (prio t) t l h.sorted
  have hsame := h.same p
  rw [hl, List.filter_append] at hsame
  rw [hins, List.filter_append, List.filter_append, ← hsame]
  by_cases hp : prio t = p
  · have hnone : b.filter (fun u => prio u = p) = [] := by
      apply List.filter_eq_nil_iff.mpr
      intro u hu
      have hlt := hb u hu
      rw [decide_eq_true_eq]
      omega
    rw [List.filter_cons_of_pos (by simpa using hp), hnone, List.append_nil, List.filter_cons_of_pos (by simpa using hp)]
    rfl
  · rw [List.filter_cons_of_neg (by simpa using hp), List.filter_cons_of_neg (by simpa using hp), List.filter_nil,
      List.append_nil]

section Create

variable {k k' : Kernel n} {C l : List (Fin n)} {t : Fin n} {a : TaskArgs}

theorem addToTaskList_ok (hl : Chain k.listNext k.taskListHead C) : ∃ k', addToTaskList k t = .ok k' := by
  unfold addToTaskList
  cases hh : k.taskListHead with
  | none => exact ⟨_, rfl⟩
  | some h =>
    rw [hh] at hl
    cases C with
    | nil => cases hl
    | cons c C =>
      obtain rfl := Option.some.inj hl.1
      have hlen := hl.length_le
      rw [Fintype.card_fin, List.length_cons] at hlen
      dsimp only
      rw [lastNode_eq hl (by omega)]
      exact ⟨_, rfl⟩

/-- The allocator refuses exactly the stacks that do not fit. -/
theorem allocStack_isSome : (allocStack k a).isSome = true ↔ (a.stackPtr = none → a.stackSize ≤ k.freeStack) := by
  unfold allocStack Kernel.freeStack
  cases hp : a.stackPtr with
  | some p => simp
  | none =>
    dsimp only
    by_cases hroom : k.stackStartPtr - systemStackSize > k.currStackPtr - a.stackSize
    · rw [if_pos hroom]
      refine iff_of_false (by simp) fun hfit => ?_
      have hle := hfit rfl
      omega
    · rw [if_neg hroom]
      refine iff_of_true rfl fun _ => ?_
      omega

theorem allocStack_freeStack {stack : ℤ} (h : allocStack k a = some (stack, k')) :
    k'.freeStack = freeAfter k.freeStack a := by
  unfold allocStack at h
  unfold freeAfter Kernel.freeStack
  cases hp : a.stackPtr with
  | some p =>
    rw [hp] at h
    obtain ⟨-, rfl⟩ := Prod.mk.inj (Option.some.inj h)
    exact (if_neg (by simp)).symm
  | none =>
    rw [hp] at h
    dsimp only at h
    split_ifs at h
    obtain ⟨-, rfl⟩ := Prod.mk.inj (Option.some.inj h)
    rw [if_pos rfl]
    dsimp only
    omega

/-- **The call returns**, and succeeds exactly for the tasks that are let in. -/
theorem rxCreateTask_returns (h : OnQueue k C l) (hl : Chain k.listNext k.taskListHead C) (ht : t ∉ C)
    (ha : a.state = .ready) :
    ∃ r k', rxCreateTask k t a = .ok (r, k') ∧ (r = .osOk ↔ Admits k.freeStack a) := by
  unfold rxCreateTask
  by_cases hname : a.name.length > rxTaskStrLen
  · rw [if_pos hname]
    refine ⟨_, _, rfl, iff_of_false (by decide) fun hadm => ?_⟩
    exact absurd hadm.1 (not_le.mpr hname)
  rw [if_neg hname]
  have hiff : (allocStack k.enterCritical a).isSome = true ↔ (a.stackPtr = none → a.stackSize ≤ k.freeStack) :=
    allocStack_isSome
  cases halloc : allocStack k.enterCritical a with
  | none =>
    rw [halloc] at hiff
    dsimp only
    rw [halloc]
    refine ⟨_, _, rfl, iff_of_false (by decide) fun hadm => ?_⟩
    cases hiff.mpr hadm.2
  | some x =>
    obtain ⟨stack, k1⟩ := x
    rw [halloc] at hiff
    have hframe := allocStack_frame halloc
    have htl : t ∉ l := fun hm => ht (h.mem t hm).1
    have h1 : OnQueue k1 C l := h.of_eq (by rw [hframe]; rfl) (by rw [hframe]; rfl) (by rw [hframe]; rfl)
    have h2 : OnQueue (k1.setTcb t (initTcb (k1.tcb t) a stack)) (C ++ [t]) l := h1.create ht _
    obtain ⟨k3, hadd, -, hq⟩ := rxAddToReadyQ_spec h2.chain htl (by simp [initTcb, ha])
    -- the global list is as it was
    have hl3 : Chain k3.listNext k3.taskListHead C := by
      have hhead : k3.taskListHead = k.taskListHead := by
        rw [hq.rest]
        show k1.taskListHead = _
        rw [hframe]
        rfl
      rw [hhead]
      apply hl.congr
      intro u hu
      have hut : u ≠ t := ne_of_mem_of_not_mem hu ht
      show (k3.tcb u).list = _
      rw [hq.tcb u]
      show (Function.update k1.tcb t _ u).list = _
      rw [Function.update_of_ne hut, hframe]
      rfl
    obtain ⟨k4, hlist⟩ := addToTaskList_ok (t := t) hl3
    refine ⟨.osOk, { k4 with numTask := k4.numTask + 1 }.exitCritical, ?_, iff_of_true rfl ⟨not_lt.mp hname, hiff.mp rfl⟩⟩
    dsimp only
    rw [halloc]
    show ((addIfReady (k1.setTcb t (initTcb (k1.tcb t) a stack)) t a.state).bind fun k =>
      (addToTaskList k t).bind fun k => .ok (OsErr.osOk, { k with numTask := k.numTask + 1 }.exitCritical)) = _
    rw [addIfReady, if_pos ha, hadd]
    show (addToTaskList k3 t).bind _ = _
    rw [hlist]
    rfl

/-- A call that succeeds takes the stack, and leaves the running task. -/
theorem rxCreateTask_freeStack (hk : rxCreateTask k t a = .ok (.osOk, k')) :
    k'.freeStack = freeAfter k.freeStack a ∧ k'.curr = k.curr := by
  rcases rxCreateTask_cases hk with ⟨hr, -⟩ | ⟨stack, k1, k3, k4, halloc, hk3, hk4, -, rfl⟩
  · cases hr
  obtain ⟨h3, -⟩ := addIfReady_relinked hk3
  obtain ⟨h4, -⟩ := addToTaskList_frame hk4
  have hfree : k1.freeStack = freeAfter k.enterCritical.freeStack a := allocStack_freeStack halloc
  refine ⟨?_, ?_⟩
  · show _ = freeAfter k.enterCritical.freeStack a
    rw [← hfree]
    show k4.currStackPtr - (k4.stackStartPtr - systemStackSize) = _
    rw [h4, h3.rest]
    rfl
  · show k4.curr = _
    rw [h4, h3.rest, allocStack_frame halloc]
    rfl

end Create

/-! ### The boot -/

/-- The tasks of `A` are created and ready, and the ready queue `l` is their stable order. -/
structure BootState (k : Kernel n) (A : List (Fin n × TaskArgs)) (l : List (Fin n)) : Prop where
  queue : OnQueue k (A.map (·.1)) l
  order : StableOrder (fun t => (k.tcb t).prio) (A.map (·.1)) l
  list : Chain k.listNext k.taskListHead (A.map (·.1))
  ready : ∀ x ∈ A, (k.tcb x.1).state = .ready
  prio : ∀ x ∈ A, (k.tcb x.1).prio = min x.2.prio rxTaskLeastPrio
  count : k.numTask = A.length

namespace BootState

variable {k k' : Kernel n} {A : List (Fin n × TaskArgs)} {l : List (Fin n)} {t : Fin n} {a : TaskArgs}

/-- The ready queue has the created tasks, and no others. -/
theorem mem_iff (h : BootState k A l) (t : Fin n) : t ∈ l ↔ t ∈ A.map (·.1) := by
  have hmem : ∀ C : List (Fin n), t ∈ C ↔ t ∈ C.filter fun u => (k.tcb u).prio = (k.tcb t).prio := by
    intro C
    rw [List.mem_filter, decide_eq_true_eq]
    exact (and_iff_left rfl).symm
  rw [hmem l, h.order.same, ← hmem]

theorem inv (h : BootState k A l) : TaskInv k (A.map (·.1)) := by
  refine ⟨⟨l, h.queue.chain, h.order.sorted, fun t => ?_⟩, h.list, h.queue.curr⟩
  rw [h.mem_iff]
  refine ⟨fun ht => ⟨ht, ?_⟩, And.left⟩
  exact (h.queue.mem t ((h.mem_iff t).mpr ht)).2

/-- A call that is refused changes the interrupt state at most. -/
theorem of_refused (h : BootState k A l) (hk : k' = { k with port := k'.port }) : BootState k' A l := by
  have htcb : k'.tcb = k.tcb := by rw [hk]
  refine ⟨h.queue.of_eq htcb (by rw [hk]) (by rw [hk]), ?_, ?_, ?_, ?_, ?_⟩
  · rw [htcb]
    exact h.order
  · have hnext : k'.listNext = k.listNext := funext fun u => by simp only [Kernel.listNext, htcb]
    rw [hnext, hk]
    exact h.list
  · rw [htcb]
    exact h.ready
  · rw [htcb]
    exact h.prio
  · rw [hk]
    exact h.count

/-- A call that succeeds adds the task. -/
theorem create (h : BootState k A l) (ht : t ∉ A.map (·.1)) (ha : a.state = .ready)
    (hk : rxCreateTask k t a = .ok (.osOk, k')) : ∃ l', BootState k' (A ++ [(t, a)]) l' := by
  have hmap : (A ++ [(t, a)]).map (·.1) = A.map (·.1) ++ [t] := by rw [List.map_append]; rfl
  have htl : t ∉ l := fun hm => ht ((h.mem_iff t).mp hm)
  obtain ⟨hr, -⟩ | ⟨-, stack, -, -, htcb⟩ := rxCreateTask_frame hk
  · cases hr
  have hself : (k'.tcb t).state = .ready ∧ (k'.tcb t).prio = min a.prio rxTaskLeastPrio := by
    rw [htcb t, if_pos rfl]
    refine ⟨ha, ?_⟩
    show (if a.prio > rxTaskLeastPrio then rxTaskLeastPrio else a.prio) = _
    by_cases hp : a.prio > rxTaskLeastPrio
    · rw [if_pos hp, min_eq_right hp.le]
    · rw [if_neg hp, min_eq_left (not_lt.mp hp)]
  have hother : ∀ u ≠ t, (k'.tcb u).state = (k.tcb u).state ∧ (k'.tcb u).prio = (k.tcb u).prio := by
    intro u hu
    rw [htcb u, if_neg hu]
    exact ⟨rfl, rfl⟩
  have hmem : ∀ x ∈ A, x.1 ≠ t := fun x hx he => ht (he ▸ List.mem_map_of_mem hx)
  obtain ⟨l', hq', l0, hsub, -, hnew⟩ := rxCreateTask_follows h.queue ht (Or.inl ha) hk
  have hnew' : t ∉ l0 ∧ l' = insertReady (fun u => (k'.tcb u).prio) (k'.tcb t).prio t l0 := by
    have henq : (TaskCall.create t a).enqueues k .osOk = some t := if_pos ⟨rfl, ha⟩
    rwa [henq] at hnew
  obtain ⟨-, rfl⟩ := hnew'
  obtain ⟨hlist, hcount⟩ := ListSys.rxCreateTask_list h.list ht hk
  -- no task has left the queue
  obtain rfl : l0 = l := by
    obtain ⟨l2, hq2⟩ := (rxCreateTask_inv h.inv ht (Or.inl ha) hk).queue
    have heq := hq2.chain.unique hq'.chain
    have hnd := h.queue.chain.nodup
    apply hsub.eq_of_length
    apply List.Perm.length_eq
    rw [List.perm_ext_iff_of_nodup (hnd.sublist hsub) hnd]
    refine fun u => ⟨fun hu => hsub.subset hu, fun hu => ?_⟩
    have hut : u ≠ t := ne_of_mem_of_not_mem hu htl
    have hu2 : u ∈ l2 := by
      rw [hq2.mem u, (hother u hut).1]
      exact ⟨List.mem_append_left _ (h.queue.mem u hu).1, (h.queue.mem u hu).2⟩
    rw [heq, mem_insertReady] at hu2
    exact hu2.resolve_left hut
  refine ⟨insertReady (fun u => (k'.tcb u).prio) (k'.tcb t).prio t l0, ?_, ?_, ?_, ?_, ?_, ?_⟩
  · rw [hmap]
    exact hq'
  · rw [hmap]
    apply StableOrder.insert
    refine h.order.congr (fun u hu => ?_) fun u hu => ?_
    · exact (hother u (ne_of_mem_of_not_mem hu htl)).2
    · exact (hother u (ne_of_mem_of_not_mem hu ht)).2
  · rw [hmap]
    exact hlist
  · intro x hx
    rcases List.mem_append.mp hx with hx | hx
    · rw [(hother x.1 (hmem x hx)).1]
      exact h.ready x hx
    · rw [List.mem_singleton.mp hx]
      exact hself.1
  · intro x hx
    rcases List.mem_append.mp hx with hx | hx
    · rw [(hother x.1 (hmem x hx)).2]
      exact h.prio x hx
    · rw [List.mem_singleton.mp hx]
      exact hself.2
  · rw [hcount, h.count, List.length_append]
    rfl

/-- The tasks that are let in are created in turn. -/
theorem createTasks_spec : ∀ {ts : List (Fin n × TaskArgs)} {k : Kernel n} {A : List (Fin n × TaskArgs)}
    {l : List (Fin n)},
    BootState k A l → (∀ x ∈ ts, x.2.state = .ready) → ((A ++ ts).map (·.1)).Nodup →
      ∃ k' l', createTasks k ts = .ok k' ∧ BootState k' (A ++ admitted k.freeStack ts) l' ∧
        k'.freeStack = freeBehind k.freeStack ts ∧ k'.curr = k.curr
  | [], k, A, l, h, _, _ => ⟨k, l, rfl, by rw [admitted, List.append_nil]; exact h, rfl, rfl⟩
  | (t, a) :: ts, k, A, l, h, hready, hnd => by
    have ha : a.state = .ready := hready (t, a) List.mem_cons_self
    have hready' : ∀ x ∈ ts, x.2.state = .ready := fun x hx => hready x (List.mem_cons_of_mem _ hx)
    rw [List.map_append, List.map_cons] at hnd
    have ht : t ∉ A.map (·.1) := fun hm => List.disjoint_of_nodup_append hnd hm List.mem_cons_self
    obtain ⟨r, k1, hk, hr⟩ := rxCreateTask_returns h.queue h.list ht ha
    have hcreate : createTasks k ((t, a) :: ts) = createTasks k1 ts := by
      rw [createTasks, hk]
      rfl
    rw [hcreate, admitted, freeBehind]
    by_cases hadm : Admits k.freeStack a
    · obtain rfl := hr.mpr hadm
      obtain ⟨l1, h1⟩ := h.create ht ha hk
      obtain ⟨hfree, hcurr⟩ := rxCreateTask_freeStack hk
      have hnd1 : ((A ++ [(t, a)] ++ ts).map (·.1)).Nodup := by
        rw [List.append_assoc, List.singleton_append, List.map_append, List.map_cons]
        exact hnd
      obtain ⟨k', l', hrun, h', hfree', hcurr'⟩ := createTasks_spec h1 hready' hnd1
      rw [hfree, List.append_assoc, List.singleton_append] at h'
      rw [if_pos hadm, if_pos hadm]
      exact ⟨k', l', hrun, h', hfree'.trans (by rw [hfree]), hcurr'.trans hcurr⟩
    · have hne : r ≠ .osOk := fun he => hadm (hr.mp he)
      have hk1 : k1 = { k with port := k1.port } := by
        rcases rxCreateTask_frame hk with ⟨-, hk1⟩ | ⟨he, -⟩
        · exact hk1
        · exact absurd he hne
      have hfree : k1.freeStack = k.freeStack := by rw [hk1]; rfl
      have hcurr : k1.curr = k.curr := by rw [hk1]
      have hnd1 : ((A ++ ts).map (·.1)).Nodup := by
        rw [List.map_append]
        exact hnd.sublist (List.Sublist.append_left (List.sublist_cons_self _ _) _)
      obtain ⟨k', l', hrun, h', hfree', hcurr'⟩ := createTasks_spec (h.of_refused hk1) hready' hnd1
      rw [hfree] at h' hfree'
      rw [if_neg hadm, if_neg hadm]
      exact ⟨k', l', hrun, h', hfree', hcurr'.trans hcurr⟩

end BootState

/-- Before `__rx_kernel_enter`: the lists are empty, and the control block of the placeholder
task is zeroed. -/
structure PowerOn (s : SysTasks n) (k : Kernel n) : Prop where
  ready : k.readyHead = none
  list : k.taskListHead = none
  slice : (k.tcb s.initTask).timeSlice = 0

/-- The tasks of the system and of the application that are let in. -/
def bootTasks (s : SysTasks n) (app : List (Fin n × TaskArgs)) : List (Fin n × TaskArgs) :=
  admitted systemStackSize (s.args ++ app)

/-- The task `t` runs, and the tasks `l` are ready behind it. -/
structure Started (k : Kernel n) (A : List (Fin n × TaskArgs)) (t : Fin n) (l : List (Fin n)) : Prop where
  queue : Chain k.next k.readyHead (t :: l)
  order : StableOrder (fun u => (k.tcb u).prio) (A.map (·.1)) (t :: l)
  list : Chain k.listNext k.taskListHead (A.map (·.1))
  prio : ∀ x ∈ A, (k.tcb x.1).prio = min x.2.prio rxTaskLeastPrio
  curr : k.curr = t
  running : (k.tcb t).state = .running
  waiting : ∀ u ∈ l, (k.tcb u).state = .ready
  count : k.numTask = A.length
  resched : k.needResched = false

section Start

variable {s : SysTasks n} {app A : List (Fin n × TaskArgs)} {k k' : Kernel n} {t : Fin n} {l : List (Fin n)}

/-- The first `rx_sched` switches to the first task. -/
theorem BootState.sched (h : BootState k A (t :: l)) (hcurr : k.curr ∉ A.map (·.1)) :
    ∃ k', rxSched k = .ok k' ∧ Started k' A t l := by
  have hhead : k.readyHead = some t := h.queue.chain.1
  obtain ⟨k', hk'⟩ := rxSched_ok hhead
  refine ⟨k', hk', ?_⟩
  have htC : t ∈ A.map (·.1) := (h.mem_iff t).mp List.mem_cons_self
  rcases rxSched_cases hk' with ⟨-, hc⟩ | ⟨t', hh, -, hk⟩
  · rw [hhead] at hc
    exact absurd (Option.some.inj hc ▸ htC) hcurr
  obtain rfl : t = t' := Option.some.inj (hhead.symm.trans hh)
  have hother : ∀ u ≠ t, k'.tcb u = k.tcb u := fun u hu => by
    rw [hk]
    exact Function.update_of_ne hu ..
  have hself : k'.tcb t = switchTcb (k.tcb t) := by
    rw [hk]
    exact Function.update_self ..
  -- links and priorities are as they were
  have hkeep : ∀ {β : Type} (g : Tcb n → β), (∀ c, g (switchTcb c) = g c) → ∀ u, g (k'.tcb u) = g (k.tcb u) := by
    intro β g hg u
    by_cases hu : u = t
    · rw [hu, hself, hg]
    · rw [hother u hu]
  have hprio := hkeep (·.prio) fun _ => rfl
  have hnext : k'.next = k.next := funext (hkeep (·.next) fun _ => rfl)
  have hlist : k'.listNext = k.listNext := funext (hkeep (·.list) fun _ => rfl)
  have hnd := h.queue.chain.nodup
  refine ⟨?_, h.order.congr (fun u _ => hprio u) fun u _ => hprio u, ?_, fun x hx => ?_, ?_, ?_, fun u hu => ?_, ?_, ?_⟩
  · rw [hnext, hk]
    exact h.queue.chain
  · rw [hlist, hk]
    exact h.list
  · rw [hprio]
    exact h.prio x hx
  · rw [hk]
  · rw [hself]
    rfl
  · have hut : u ≠ t := fun he => (List.nodup_cons.mp hnd).1 (he ▸ hu)
    rw [hother u hut]
    obtain ⟨x, hx, rfl⟩ := List.mem_map.mp ((h.mem_iff u).mp (List.mem_cons_of_mem _ hu))
    exact h.ready x hx
  · rw [hk]
    exact h.count
  · rw [hk]

/-- The boot returns, and one of the tasks that are let in has started. -/
theorem rxKernelEnter_started (hk : PowerOn s k) (happ : ∀ x ∈ app, x.2.state = .ready)
    (hnd : (s.initTask :: (s.args ++ app).map (·.1)).Nodup) :
    ∃ k' t l, rxKernelEnter s app k = .ok k' ∧ Started k' (bootTasks s app) t l := by
  obtain ⟨hinit, hnd⟩ := List.nodup_cons.mp hnd
  set k0 : Kernel n := { k with currStackPtr := k.stackStartPtr, curr := s.initTask, numTask := 0 } with hk0
  have h0 : BootState k0 [] [] := by
    refine ⟨⟨hk.ready, fun t ht => absurd ht List.not_mem_nil, Or.inr hk.slice.le⟩, StableOrder.nil _, hk.list,
      ?_, ?_, rfl⟩
    · exact fun x hx => absurd hx List.not_mem_nil
    · exact fun x hx => absurd hx List.not_mem_nil
  have hfree : k0.freeStack = systemStackSize := by
    show k.stackStartPtr - (k.stackStartPtr - systemStackSize) = systemStackSize
    omega
  have hready : ∀ x ∈ s.args ++ app, x.2.state = .ready := by
    intro x hx
    rcases List.mem_append.mp hx with hx | hx
    · simp only [SysTasks.args, List.mem_cons, List.not_mem_nil, or_false] at hx
      rcases hx with rfl | rfl | rfl | rfl | rfl <;> rfl
    · exact happ x hx
  obtain ⟨k1, l1, hrun, h1, -, hcurr⟩ := BootState.createTasks_spec h0 hready hnd
  rw [hfree, List.nil_append] at h1
  have h1 : BootState k1 (bootTasks s app) l1 := h1
  have hinit' : k1.curr ∉ (bootTasks s app).map (·.1) := by
    rw [hcurr]
    exact fun hm => hinit (((admitted_sublist _ _).map _).subset hm)
  -- the timer task is always let in
  have htimer : s.timer0 ∈ (bootTasks s app).map (·.1) := by
    have hadm : Admits systemStackSize
        { name := taskName "timer0", prio := rxTaskHighPrio, stackPtr := some s.timerStack, stackSize := sysStackSize,
          state := .ready, timeSlice := 0 } := by
      refine ⟨?_, fun h => by cases h⟩
      show (taskName "timer0").length ≤ rxTaskStrLen
      decide
    rw [bootTasks, SysTasks.args, List.cons_append, admitted, if_pos hadm]
    exact List.mem_cons_self
  cases l1 with
  | nil => exact absurd ((h1.mem_iff _).mpr htimer) List.not_mem_nil
  | cons t l =>
    obtain ⟨k', hsched, hstart⟩ := h1.sched hinit'
    refine ⟨k', t, l, ?_, hstart⟩
    rw [createTasks_append] at hrun
    obtain ⟨k2, hsys, happ'⟩ := bind_eq_ok.mp hrun
    unfold rxKernelEnter
    dsimp only
    rw [← hk0, hsys]
    show (createTasks k2 app).bind _ = _
    rw [happ']
    exact hsched

/-- **The boot.** Whatever tasks the application creates, the boot returns, and the first of
the tasks that are let in runs and the others are ready: the ready queue is sorted by
priority, and tasks of the same priority are in the order of their creation. -/
theorem rxKernelEnter_booted (hk : PowerOn s k) (happ : ∀ x ∈ app, x.2.state = .ready)
    (hnd : (s.initTask :: (s.args ++ app).map (·.1)).Nodup) :
    ∃ k' q, rxKernelEnter s app k = .ok k' ∧ Chain k'.next k'.readyHead q ∧ q.head? = some k'.curr ∧
      StableOrder (fun u => (k'.tcb u).prio) ((bootTasks s app).map (·.1)) q ∧
      ∀ u ∈ q, (k'.tcb u).state = if u = k'.curr then .running else .ready := by
  obtain ⟨k', t, l, he, hstart⟩ := rxKernelEnter_started hk happ hnd
  refine ⟨k', t :: l, he, hstart.queue, by rw [hstart.curr]; rfl, hstart.order, fun u hu => ?_⟩
  rw [hstart.curr]
  by_cases hut : u = t
  · rw [if_pos hut, hut, hstart.running]
  · rw [if_neg hut, hstart.waiting u ((List.mem_cons.mp hu).resolve_left hut)]

/-- Ten control blocks: the placeholder, the system tasks, and those of `apps/main.c`. -/
def mainSys : SysTasks 10 where
  initTask := 0
  timer0 := 1
  event0 := 2
  bh0 := 3
  logger0 := 4
  terminal0 := 5
  timerStack := 200000
  eventStack := 210000
  bhStack := 220000
  loggerStack := 230000
  terminalStack := 240000

theorem rxKernelEnter_booted_main : ∃ k' q, rxKernelEnter mainSys (mainTasks 6 7 8 9) (bareKernel 0) = .ok k' ∧
    Chain k'.next k'.readyHead q ∧ q.head? = some k'.curr ∧
    StableOrder (fun u => (k'.tcb u).prio) ((bootTasks mainSys (mainTasks 6 7 8 9)).map (·.1)) q ∧
    ∀ u ∈ q, (k'.tcb u).state = if u = k'.curr then .running else .ready :=
  rxKernelEnter_booted ⟨rfl, rfl, rfl⟩ (by decide) (by decide)

/-- The timer, event and bottom half tasks come first, the idle task last. -/
example : (rxKernelEnter mainSys (mainTasks 6 7 8 9) (bareKernel 0)).toOption.map
    (fun k => (k.curr, nodes k.next 10 k.readyHead)) = some (1, [1, 2, 3, 7, 8, 9, 5, 4, 6]) := by decide +kernel

/-- The kernel that the boot leaves. -/
def mainKernel : Kernel 10 :=
  ((rxKernelEnter mainSys (mainTasks 6 7 8 9) (bareKernel 0)).toOption).getD (bareKernel 0)

theorem ok_of_isSome {β : Type*} {x : Res β} (d : β) (h : x.toOption.isSome = true) : x = .ok (x.toOption.getD d) := by
  cases x with
  | error e => cases h
  | ok y => rfl

theorem mainKernel_boot : rxKernelEnter mainSys (mainTasks 6 7 8 9) (bareKernel 0) = .ok mainKernel :=
  ok_of_isSome (bareKernel 0) (by decide +kernel)

theorem Started.inv (h : Started k A t l) : TaskInv k (A.map (·.1)) := by
  have hmem : ∀ u, u ∈ t :: l ↔ u ∈ A.map (·.1) := by
    intro u
    have hfilter : ∀ C : List (Fin n), u ∈ C ↔ u ∈ C.filter fun v => (k.tcb v).prio = (k.tcb u).prio := by
      intro C
      rw [List.mem_filter, decide_eq_true_eq]
      exact (and_iff_left rfl).symm
    rw [hfilter (t :: l), h.order.same, ← hfilter]
  have hrun : ∀ u ∈ t :: l, (k.tcb u).state.runnable = true := by
    intro u hu
    rcases List.mem_cons.mp hu with rfl | hu
    · rw [h.running]
      rfl
    · rw [h.waiting u hu]
      rfl
  refine ⟨⟨t :: l, h.queue, h.order.sorted, fun u => ?_⟩, h.list, Or.inl ?_⟩
  · rw [← hmem u]
    exact ⟨fun hu => ⟨hu, hrun u hu⟩, And.left⟩
  · rw [h.curr, ← hmem]
    exact List.mem_cons_self

/-- The boot can only end in this way. -/
theorem started_of_boot (hk : PowerOn s k) (happ : ∀ x ∈ app, x.2.state = .ready)
    (hnd : (s.initTask :: (s.args ++ app).map (·.1)).Nodup) (hboot : rxKernelEnter s app k = .ok k') :
    ∃ t l, Started k' (bootTasks s app) t l := by
  obtain ⟨k1, t, l, hboot', hstart⟩ := rxKernelEnter_started hk happ hnd
  obtain rfl : k1 = k' := Except.ok.inj (hboot'.symm.trans hboot)
  exact ⟨t, l, hstart⟩

/-- **The ready queue over whole runs from power-on.** Behind the boot, the states of a run of
the task services all have a well-formed ready queue if and only if all its calls are safe. -/
theorem readyQueueOK_from_boot (hk : PowerOn s k) (happ : ∀ x ∈ app, x.2.state = .ready)
    (hnd : (s.initTask :: (s.args ++ app).map (·.1)).Nodup) (hboot : rxKernelEnter s app k = .ok k')
    {tr : List (TaskCall n × TaskSys n)} (h : Run.Exec TaskSys.Step ⟨k', (bootTasks s app).map (·.1)⟩ tr) :
    (∀ x ∈ Run.states ⟨k', (bootTasks s app).map (·.1)⟩ tr, ReadyQueueOK x) ↔
      Run.Guarded CallSafe ⟨k', (bootTasks s app).map (·.1)⟩ tr := by
  obtain ⟨t, l, hstart⟩ := started_of_boot hk happ hnd hboot
  exact (h.guarded_iff (fun s => TaskInv s.k s.created) (fun _ => TaskInv.readyQueueOK) (fun _ _ _ => step_inv)
    (fun _ _ _ => step_unsafe) hstart.inv).symm

/-- The timer and event tasks block; the bottom half task resumes the first and blocks. -/
theorem readyQueueOK_from_main : ∃ tr, Run.Exec TaskSys.Step
      ⟨mainKernel, (bootTasks mainSys (mainTasks 6 7 8 9)).map (·.1)⟩ tr ∧
    tr.map (fun x => x.2.k.curr) = [2, 3, 3, 1] ∧
    ((∀ x ∈ Run.states ⟨mainKernel, (bootTasks mainSys (mainTasks 6 7 8 9)).map (·.1)⟩ tr, ReadyQueueOK x) ↔
      Run.Guarded CallSafe ⟨mainKernel, (bootTasks mainSys (mainTasks 6 7 8 9)).map (·.1)⟩ tr) := by
  obtain ⟨tr, htr, hp⟩ := TaskSys.exists_run ⟨mainKernel, (bootTasks mainSys (mainTasks 6 7 8 9)).map (·.1)⟩
    [.suspend none, .suspend none, .resume 1, .suspend none]
    (fun tr => decide (tr.map (fun x => x.2.k.curr) = [2, 3, 3, 1])) (by decide +kernel)
  exact ⟨tr, htr, of_decide_eq_true hp,
    readyQueueOK_from_boot ⟨rfl, rfl, rfl⟩ (by decide) (by decide) mainKernel_boot htr⟩

/-! ### The order of creation -/

/-- Tasks of the same priority are in the order of their creation. -/
theorem StableOrder.pairwise {prio : Fin n → ℤ} {C : List (Fin n)} (h : StableOrder prio C l) (hC : C.Nodup) :
    l.Pairwise fun a b => prio a < prio b ∨ prio a = prio b ∧ C.idxOf a < C.idxOf b := by
  have hidx : C.Pairwise fun a b => C.idxOf a < C.idxOf b := by
    rw [List.pairwise_iff_getElem]
    intro i j hi hj hij
    rwa [hC.idxOf_getElem, hC.idxOf_getElem]
  have hsame : ∀ p, l.Pairwise fun a b => prio a = p → prio b = p → C.idxOf a < C.idxOf b := by
    intro p
    have hfilter := (hidx.filter fun t => prio t = p)
    rw [← h.same p, List.pairwise_filter] at hfilter
    simpa only [decide_eq_true_eq] using hfilter
  rw [List.pairwise_iff_getElem]
  intro i j hi hj hij
  rcases lt_or_eq_of_le (List.pairwise_iff_getElem.mp h.sorted i j hi hj hij) with hlt | heq
  · exact Or.inl hlt
  · exact Or.inr ⟨heq, List.pairwise_iff_getElem.mp (hsame (prio l[i])) i j hi hj hij rfl heq.symm⟩

/-- The system behind the boot: each task has been put on the ready queue when it was
created. -/
def SchedSys.afterBoot (k : Kernel n) (C : List (Fin n)) : SchedSys n :=
  { k := k, created := C, clock := C.length + 1, since := fun t => C.idxOf t }

theorem Started.schedInv (h : Started k A t l) (hA : (A.map (·.1)).Nodup) :
    SchedSys.Inv (SchedSys.afterBoot k (A.map (·.1))) (t :: l) := by
  obtain ⟨⟨l', hq⟩, -, hcurr⟩ := h.inv
  obtain rfl := h.queue.unique hq.chain
  refine ⟨⟨h.queue, fun u hu => (hq.mem u).mp hu, hcurr⟩, h.order.pairwise hA, fun u _ => ?_⟩
  exact Nat.lt_succ_of_le List.idxOf_le_length

/-- **The scheduler from power-on.** The boot leaves the processor to the first task in the
order of priority and creation, and in every run from there, without priority changes and
aborts, so does each call that ends in `rx_sched` to the task that is most urgent and has
been ready for longest. -/
theorem runsFirst_from_boot (hk : PowerOn s k) (happ : ∀ x ∈ app, x.2.state = .ready)
    (hnd : (s.initTask :: (s.args ++ app).map (·.1)).Nodup) (hboot : rxKernelEnter s app k = .ok k')
    {tr : List ((TaskCall n × OsErr) × SchedSys n)}
    (h : Run.Exec SchedSys.Step (SchedSys.afterBoot k' ((bootTasks s app).map (·.1))) tr) :
    SchedSys.RunsFirst (SchedSys.afterBoot k' ((bootTasks s app).map (·.1))) ∧
      ∀ x ∈ tr, x.1.1.schedules x.1.2 = true → SchedSys.RunsFirst x.2 := by
  obtain ⟨t, l, hstart⟩ := started_of_boot hk happ hnd hboot
  have hA : ((bootTasks s app).map (·.1)).Nodup :=
    (List.nodup_cons.mp hnd).2.sublist ((admitted_sublist _ _).map _)
  have hinv := hstart.schedInv hA
  constructor
  · apply SchedSys.runsFirst_of_curr hinv
    show k'.readyHead = some k'.curr
    rw [hstart.curr]
    exact hstart.queue.1
  · intro x hx hs
    obtain ⟨s0, ⟨l0, hi⟩, ha, he⟩ := h.step_of_mem (fun s => ∃ l, SchedSys.Inv s l)
      (fun _ _ _ ⟨_, hi⟩ hst => SchedSys.exec_inv hi hst.1 hst.2) ⟨t :: l, hinv⟩ x hx
    obtain ⟨l1, hi1⟩ := SchedSys.exec_inv hi ha he
    obtain ⟨⟨r, k2⟩, hcall, he⟩ := bind_eq_ok.mp he
    obtain ⟨hr, hx2⟩ := Prod.mk.inj (Except.ok.inj he)
    apply SchedSys.runsFirst_of_curr hi1
    rw [← hx2]
    exact curr_of_schedules (r := r) (by rw [hr]; exact hs) hcall

theorem runsFirst_from_main : ∃ tr, Run.Exec SchedSys.Step
      (SchedSys.afterBoot mainKernel ((bootTasks mainSys (mainTasks 6 7 8 9)).map (·.1))) tr ∧
    tr.map (fun x => x.2.k.curr) = [2, 3, 3, 1] ∧
    SchedSys.RunsFirst (SchedSys.afterBoot mainKernel ((bootTasks mainSys (mainTasks 6 7 8 9)).map (·.1))) ∧
    ∀ x ∈ tr, x.1.1.schedules x.1.2 = true → SchedSys.RunsFirst x.2 := by
  have hrun := Run.exists_exec (f := Run.attempt SchedSys.Admissible SchedSys.exec) (fun _ _ _ => Run.step_of_attempt)
    (s := SchedSys.afterBoot mainKernel ((bootTasks mainSys (mainTasks 6 7 8 9)).map (·.1)))
    [(.suspend none, .osOk), (.suspend none, .osOk), (.resume 1, .osOk), (.suspend none, .osOk)]
    (fun tr => decide (tr.map (fun x => x.2.k.curr) = [2, 3, 3, 1])) (by decide +kernel)
  obtain ⟨tr, hex, hp⟩ := hrun
  exact ⟨tr, hex, of_decide_eq_true hp,
    runsFirst_from_boot ⟨rfl, rfl, rfl⟩ (by decide) (by decide) mainKernel_boot hex⟩

end Start

end Rosx
