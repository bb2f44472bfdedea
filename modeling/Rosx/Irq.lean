/-
# Interrupt lines

`kernel/rx_irq.c`, for handlers and devices of any type. The table
`__rx_irq_pool` has `CONFIG_IRQ_COUNT - 1` entries; it is a function of the
index here, so that an index outside finds whatever lies there, and the
functions return the indices they have used. A run is any sequence of requests,
releases and interrupts with any numbers; the handlers that have been accepted
and not freed since are kept next to the table.

The range checks let through the indices -1 and below, `CONFIG_IRQ_COUNT - 1`
and `CONFIG_IRQ_COUNT`, and the interrupt checks nothing. What was written for
shared lines is left out by the preprocessor: a second handler is accepted but
not registered, and the handler of a shared line is never taken off. All else
is right (`irqOK_iff`).

Key definitions: `rxIrqHandler`, `rxRequestIrq`, `rxFreeIrq`, `IrqSys.exec`,
`IrqSys.IrqOK`, `IrqSys.Served`.
-/
import Rosx.Kernel
import Rosx.Lib.Run
import Mathlib.Data.List.Perm.Basic

namespace Rosx

open Linked

variable {H D : Type*}

/-- `struct irq`, without its name. -/
structure IrqEntry (H D : Type*) where
  irqHandler : Option H := none
  flags : Word := 0
  devId : Option D := none
  next : Option ℕ := none

/-- `__rx_irq_pool`, and the counter of the interrupts. -/
structure IrqPool (H D : Type*) where
  pool : ℤ → IrqEntry H D
  rawIrqCounter : Word := 0

/-- The call of a handler. -/
structure Invocation (H D : Type*) where
  handler : H
  irq : ℤ
  devId : Option D
  deriving DecidableEq

/-- `RX_IRQF_SHARED`. -/
def rxIrqfShared : Word := 4

/-- `flags & RX_IRQF_SHARED`. -/
def isShared (flags : Word) : Bool := flags &&& rxIrqfShared ≠ 0

/-- A line has a handler. -/
def IrqEntry.InUse (e : IrqEntry H D) : Prop := e.irqHandler.isSome ∨ e.next.isSome

instance (e : IrqEntry H D) : Decidable e.InUse := inferInstanceAs (Decidable (_ ∨ _))

/-! ### The services -/

/-- `__rx_irq_handler`: the handlers it calls, and the indices it uses. -/
def rxIrqHandler (p : IrqPool H D) (irq : ℤ) : Res (List (Invocation H D) × IrqPool H D × List ℤ) :=
  let p := { p with rawIrqCounter := p.rawIrqCounter + 1 }
  if (p.pool irq).InUse then
    match (p.pool irq).irqHandler with
    | none => .error .null
    | some h => .ok ([⟨h, irq, (p.pool irq).devId⟩], p, [irq])
  else .ok ([], p, [irq])

/-- `rx_request_irq`. -/
def rxRequestIrq (count : ℤ) (p : IrqPool H D) (irq : ℤ) (h : Option H) (flags : Word) (d : Option D) :
    OsErr × IrqPool H D × List ℤ :=
  if irq > count then (.osErr, p, [])
  else if (p.pool irq).InUse then
    if !isShared flags || d.isNone then (.eOsUnavail, p, [irq])
    else (.osOk, p, [irq])
  else (.osOk, { p with pool := Function.update p.pool irq ⟨h, flags, d, none⟩ }, [irq])

/-- `rx_free_irq`. -/
def rxFreeIrq (count : ℤ) (p : IrqPool H D) (irq : ℤ) (_ : Option D) : OsErr × IrqPool H D × List ℤ :=
  if irq > count then (.eOsUnavail, p, [])
  else if isShared (p.pool irq).flags then (.osOk, p, [irq])
  else (.osOk, { p with pool := Function.update p.pool irq { p.pool irq with irqHandler := none } }, [irq])

/-! ### Runs -/

/-- A handler that has been accepted. -/
structure Registration (H D : Type*) where
  handler : H
  devId : Option D
  shared : Bool
  deriving DecidableEq

/-- The table, the handlers of each line that have been accepted and not freed
since, and all indices used so far. -/
structure IrqSys (H D : Type*) where
  p : IrqPool H D
  regs : ℤ → List (Registration H D) := fun _ => []
  indexed : List ℤ := []

/-- A step of a run. -/
inductive IrqCall (H D : Type*) where
  | request (irq : ℤ) (h : Option H) (flags : Word) (d : Option D)
  | free (irq : ℤ) (d : Option D)
  | interrupt (irq : ℤ)

namespace IrqSys

/-- The handlers of a line after a request that returned `r`. -/
def accepted (l : List (Registration H D)) (h : Option H) (flags : Word) (d : Option D) :
    OsErr → List (Registration H D)
  | .osOk => l ++ h.toList.map fun h => ⟨h, d, isShared flags⟩
  | _ => l

/-- The handlers of a line after a release that returned `r`: on a shared line
`dev_id` is the signature of the one that is freed. -/
def released [DecidableEq D] (l : List (Registration H D)) (d : Option D) : OsErr → List (Registration H D)
  | .osOk => l.filter fun x => x.shared && decide (x.devId ≠ d)
  | _ => l

/-- What a step computes. -/
def exec [DecidableEq D] (count : ℤ) (s : IrqSys H D) : IrqCall H D → Res ((OsErr × List (Invocation H D)) × IrqSys H D)
  | .request irq h flags d =>
    let x := rxRequestIrq count s.p irq h flags d
    .ok ((x.1, []), ⟨x.2.1, Function.update s.regs irq (accepted (s.regs irq) h flags d x.1), s.indexed ++ x.2.2⟩)
  | .free irq d =>
    let x := rxFreeIrq count s.p irq d
    .ok ((x.1, []), ⟨x.2.1, Function.update s.regs irq (released (s.regs irq) d x.1), s.indexed ++ x.2.2⟩)
  | .interrupt irq => (rxIrqHandler s.p irq).map fun x => ((.osOk, x.1), ⟨x.2.1, s.regs, s.indexed ++ x.2.2⟩)

/-- One step of a run, labelled with the call, what it returns and the handlers
it calls. -/
def Step [DecidableEq D] (count : ℤ) (s : IrqSys H D) (c : IrqCall H D × OsErr × List (Invocation H D))
    (s' : IrqSys H D) : Prop :=
  s.exec count c.1 = .ok (c.2, s')

/-- The table is cleared. -/
structure Init (count : ℤ) (s : IrqSys H D) : Prop where
  pool : ∀ i, 0 ≤ i → i < count - 1 → s.p.pool i = {}
  regs : s.regs = fun _ => []
  indexed : s.indexed = []

/-- An index of the table. -/
def InTable (count i : ℤ) : Prop := 0 ≤ i ∧ i < count - 1

instance (count i : ℤ) : Decidable (InTable count i) := inferInstanceAs (Decidable (_ ∧ _))

/-- All indices used lie in the table, and an interrupt on a line calls the
handlers that are registered on it, in any order. -/
structure IrqOK (count : ℤ) (s : IrqSys H D) : Prop where
  indexed : ∀ i ∈ s.indexed, InTable count i
  called : ∀ i, InTable count i → ∃ calls p ix, rxIrqHandler s.p i = .ok (calls, p, ix) ∧
    calls.Perm ((s.regs i).map fun x => ⟨x.handler, i, x.devId⟩)

/-- The index is in the table, or refused. No handler is accepted on a line
that has one, and none is freed on a shared line. -/
def Served (count : ℤ) (s : IrqSys H D) (c : IrqCall H D × OsErr × List (Invocation H D)) : Prop :=
  match c.1 with
  | .request i h flags d => count < i ∨ InTable count i ∧
      ¬ ((s.p.pool i).irqHandler.isSome ∧ isShared flags = true ∧ d.isSome ∧ h.isSome)
  | .free i d => count < i ∨ InTable count i ∧
      ¬ ((s.p.pool i).irqHandler.isSome ∧ isShared (s.p.pool i).flags = true ∧ (s.p.pool i).devId = d)
  | .interrupt i => InTable count i

instance (count : ℤ) (s : IrqSys H D) [DecidableEq D] : ∀ c, Decidable (Served count s c)
  | (.request i h flags d, _) => inferInstanceAs (Decidable (count < i ∨ InTable count i ∧
      ¬ ((s.p.pool i).irqHandler.isSome ∧ isShared flags = true ∧ d.isSome ∧ h.isSome)))
  | (.free i d, _) => inferInstanceAs (Decidable (count < i ∨ InTable count i ∧
      ¬ ((s.p.pool i).irqHandler.isSome ∧ isShared (s.p.pool i).flags = true ∧ (s.p.pool i).devId = d)))
  | (.interrupt i, _) => inferInstanceAs (Decidable (InTable count i))

/-- A line has the handler that is registered on it, if any. -/
structure Inv (count : ℤ) (s : IrqSys H D) : Prop where
  indexed : ∀ i ∈ s.indexed, InTable count i
  next : ∀ i, InTable count i → (s.p.pool i).next = none
  regs : ∀ i, InTable count i → s.regs i =
    (s.p.pool i).irqHandler.toList.map fun h => ⟨h, (s.p.pool i).devId, isShared (s.p.pool i).flags⟩

section Calls

variable {count : ℤ} {s s' : IrqSys H D} {p : IrqPool H D} {i : ℤ}

/-- An entry without `next` calls its handler, if it has one. -/
theorem rxIrqHandler_eq (hn : (p.pool i).next = none) : rxIrqHandler p i =
    .ok ((p.pool i).irqHandler.toList.map fun h => ⟨h, i, (p.pool i).devId⟩,
      { p with rawIrqCounter := p.rawIrqCounter + 1 }, [i]) := by
  unfold rxIrqHandler IrqEntry.InUse
  cases hh : (p.pool i).irqHandler with
  | none => simp [hh, hn]
  | some h => simp [hh]

theorem rxRequestIrq_of_gt (h : count < i) (f : Option H) (flags : Word) (d : Option D) :
    rxRequestIrq count p i f flags d = (.osErr, p, []) := if_pos h

theorem rxFreeIrq_of_gt (h : count < i) (d : Option D) : rxFreeIrq count p i d = (.eOsUnavail, p, []) := if_pos h

/-- A request for a line that has a handler changes nothing; it is accepted if
it is for a shared line and has a signature. -/
theorem rxRequestIrq_used (h : ¬ count < i) (hu : (p.pool i).InUse) (f : Option H) (flags : Word) (d : Option D) :
    ∃ r, rxRequestIrq count p i f flags d = (r, p, [i]) ∧ (r = .osOk ↔ isShared flags = true ∧ d.isSome) := by
  unfold rxRequestIrq
  rw [if_neg h, if_pos hu]
  by_cases hno : (!isShared flags || d.isNone) = true
  · refine ⟨_, if_pos hno, ?_⟩
    cases d <;> simp_all
  · refine ⟨_, if_neg hno, ?_⟩
    cases d <;> simp_all

theorem rxRequestIrq_unused (h : ¬ count < i) (hu : ¬ (p.pool i).InUse) (f : Option H) (flags : Word) (d : Option D) :
    rxRequestIrq count p i f flags d =
      (.osOk, { p with pool := Function.update p.pool i ⟨f, flags, d, none⟩ }, [i]) := by
  unfold rxRequestIrq
  rw [if_neg h, if_neg hu]

theorem rxRequestIrq_index (h : ¬ count < i) (f : Option H) (flags : Word) (d : Option D) :
    (rxRequestIrq count p i f flags d).2.2 = [i] := by
  by_cases hu : (p.pool i).InUse
  · obtain ⟨r, he, -⟩ := rxRequestIrq_used h hu f flags d
    rw [he]
  · rw [rxRequestIrq_unused h hu]

theorem rxFreeIrq_index (h : ¬ count < i) (d : Option D) : (rxFreeIrq count p i d).2.2 = [i] := by
  unfold rxFreeIrq
  rw [if_neg h]
  split_ifs <;> rfl

theorem rxIrqHandler_index {x : List (Invocation H D) × IrqPool H D × List ℤ} (h : rxIrqHandler p i = .ok x) :
    x.2.2 = [i] := by
  unfold rxIrqHandler at h
  dsimp only at h
  split_ifs at h
  · split at h
    · cases h
    · rw [← Except.ok.inj h]
  · rw [← Except.ok.inj h]

theorem Inv.irqOK (h : Inv count s) : IrqOK count s := by
  refine ⟨h.indexed, fun i hi => ⟨_, _, _, rxIrqHandler_eq (h.next i hi), ?_⟩⟩
  rw [h.regs i hi, List.map_map]
  exact List.Perm.refl _

theorem Init.inv (h : Init count s) : Inv count s := by
  refine ⟨?_, fun i hi => ?_, fun i hi => ?_⟩
  · rw [h.indexed]
    simp
  · rw [h.pool i hi.1 hi.2]
  · rw [h.pool i hi.1 hi.2, h.regs]
    rfl

/-- An entry is changed with the handlers of its line. -/
theorem Inv.update (h : Inv count s) {e : IrqEntry H D} {l : List (Registration H D)} (hi : InTable count i)
    (hn : e.next = none) (hl : l = e.irqHandler.toList.map fun h => ⟨h, e.devId, isShared e.flags⟩) :
    Inv count ⟨{ s.p with pool := Function.update s.p.pool i e }, Function.update s.regs i l, s.indexed ++ [i]⟩ := by
  refine ⟨fun j hj => ?_, fun j hj => ?_, fun j hj => ?_⟩
  · rcases List.mem_append.mp hj with hj | hj
    · exact h.indexed j hj
    · rw [List.mem_singleton.mp hj]
      exact hi
  · by_cases hij : j = i
    · subst hij
      simpa using hn
    · simpa [hij] using h.next j hj
  · by_cases hij : j = i
    · subst hij
      simpa using hl
    · simpa [hij] using h.regs j hj

/-- An entry is used and left as it is. -/
theorem Inv.touch (h : Inv count s) (hi : InTable count i) :
    Inv count ⟨s.p, Function.update s.regs i (s.regs i), s.indexed ++ [i]⟩ := by
  have := h.update hi (h.next i hi) (h.regs i hi)
  rwa [Function.update_eq_self] at this

/-- An index outside the table has been used. -/
theorem not_irqOK_of_index (hx : i ∈ s.indexed) (hi : ¬ InTable count i) : ¬ IrqOK count s :=
  fun hok => hi (hok.indexed i hx)

/-- One handler is called where another number is registered. -/
theorem not_irqOK_of_length (hi : InTable count i) (hn : (s.p.pool i).next = none)
    (hlen : (s.p.pool i).irqHandler.toList.length ≠ (s.regs i).length) : ¬ IrqOK count s := by
  intro hok
  obtain ⟨calls, p', ix, he, hperm⟩ := hok.called i hi
  rw [rxIrqHandler_eq hn] at he
  obtain ⟨rfl, -⟩ := Prod.mk.inj (Except.ok.inj he)
  have := hperm.length_eq
  rw [List.length_map, List.length_map] at this
  exact hlen this

variable [DecidableEq D] {r : OsErr × List (Invocation H D)}

theorem Inv.request (h : Inv count s) {f : Option H} {flags : Word} {d : Option D}
    (hc : Served count s (.request i f flags d, r)) (hst : Step count s (.request i f flags d, r) s') :
    Inv count s' := by
  obtain ⟨-, rfl⟩ := Prod.mk.inj (Except.ok.inj hst)
  rcases hc with hgt | ⟨hi, hno⟩
  · rw [rxRequestIrq_of_gt hgt]
    simpa [accepted] using h
  · have hle : ¬ count < i := not_lt.mpr (by have := hi.2; omega)
    by_cases hu : (s.p.pool i).irqHandler.isSome
    · obtain ⟨r', he, hr⟩ := rxRequestIrq_used hle (Or.inl hu) f flags d
      have hsame : accepted (s.regs i) f flags d r' = s.regs i := by
        by_cases hok : r' = .osOk
        · have hf : f = none := by
            have := hr.mp hok
            simp only [hu, this.1, this.2, true_and, Option.isSome_iff_ne_none] at hno
            exact not_not.mp hno
          rw [hok, hf]
          exact List.append_nil _
        · unfold accepted
          split
          · exact absurd rfl hok
          · rfl
      rw [he, hsame]
      exact h.touch hi
    · have hnone : (s.p.pool i).irqHandler = none := Option.not_isSome_iff_eq_none.mp hu
      rw [rxRequestIrq_unused hle (by simp [IrqEntry.InUse, hnone, h.next i hi])]
      apply h.update hi rfl
      rw [h.regs i hi, hnone]
      rfl

theorem Inv.free (h : Inv count s) {d : Option D} (hc : Served count s (.free i d, r))
    (hst : Step count s (.free i d, r) s') : Inv count s' := by
  obtain ⟨-, rfl⟩ := Prod.mk.inj (Except.ok.inj hst)
  rcases hc with hgt | ⟨hi, hno⟩
  · rw [rxFreeIrq_of_gt hgt]
    simpa [released] using h
  · have hle : ¬ count < i := not_lt.mpr (by have := hi.2; omega)
    unfold rxFreeIrq
    rw [if_neg hle]
    by_cases hsh : isShared (s.p.pool i).flags = true
    · -- nothing is taken off, and no handler had this signature
      rw [if_pos hsh]
      have hsame : released (s.regs i) d .osOk = s.regs i := by
        rw [h.regs i hi]
        cases hh : (s.p.pool i).irqHandler with
        | none => rfl
        | some f =>
          have hd : (s.p.pool i).devId ≠ d := by
            intro hd
            exact hno ⟨by rw [hh]; rfl, hsh, hd⟩
          simp [released, hsh, hd]
      rw [hsame]
      exact h.touch hi
    · rw [if_neg hsh]
      refine h.update hi (e := { s.p.pool i with irqHandler := none }) (h.next i hi) ?_
      rw [h.regs i hi]
      cases hh : (s.p.pool i).irqHandler with
      | none => rfl
      | some f => simp [released, hsh]

theorem Inv.interrupt (h : Inv count s) (hi : InTable count i) (hst : Step count s (.interrupt i, r) s') :
    Inv count s' := by
  have he : s.exec count (.interrupt i) = _ := hst
  simp only [exec, rxIrqHandler_eq (h.next i hi)] at he
  obtain ⟨-, rfl⟩ := Prod.mk.inj (Except.ok.inj he)
  exact ⟨(h.touch hi).indexed, h.next, h.regs⟩

theorem Inv.step (h : Inv count s) {c : IrqCall H D × OsErr × List (Invocation H D)} (hc : Served count s c)
    (hst : Step count s c s') : Inv count s' := by
  obtain ⟨c, r⟩ := c
  cases c with
  | request i f flags d => exact h.request hc hst
  | free i d => exact h.free hc hst
  | interrupt i => exact h.interrupt hc hst

/-- A call that is not served as it should be leaves a handler that is not
called, or one that is called though it is freed, if it does not use an index
outside the table. -/
theorem Inv.breaks (h : Inv count s) {c : IrqCall H D × OsErr × List (Invocation H D)} (hc : ¬ Served count s c)
    (hst : Step count s c s') : ¬ IrqOK count s' := by
  obtain ⟨c, r⟩ := c
  cases c with
  | request i f flags d =>
    obtain ⟨hle, hc⟩ := not_or.mp hc
    obtain ⟨-, rfl⟩ := Prod.mk.inj (Except.ok.inj hst)
    by_cases hi : InTable count i
    · obtain ⟨hu, hsh, hd, hf⟩ := not_not.mp fun hno => hc ⟨hi, hno⟩
      obtain ⟨r', he, hr⟩ := rxRequestIrq_used hle (Or.inl hu) f flags d
      rw [he, hr.mpr ⟨hsh, hd⟩]
      refine not_irqOK_of_length hi (h.next i hi) ?_
      obtain ⟨f', hf'⟩ := Option.isSome_iff_exists.mp hf
      simp [accepted, h.regs i hi, hf']
    · refine not_irqOK_of_index (i := i) ?_ hi
      exact List.mem_append_right _ (by rw [rxRequestIrq_index hle]; exact List.mem_singleton_self i)
  | free i d =>
    obtain ⟨hle, hc⟩ := not_or.mp hc
    obtain ⟨-, rfl⟩ := Prod.mk.inj (Except.ok.inj hst)
    by_cases hi : InTable count i
    · obtain ⟨hu, hsh, hd⟩ := not_not.mp fun hno => hc ⟨hi, hno⟩
      unfold rxFreeIrq
      rw [if_neg hle, if_pos hsh]
      refine not_irqOK_of_length hi (h.next i hi) ?_
      obtain ⟨f', hf'⟩ := Option.isSome_iff_exists.mp hu
      simp [released, h.regs i hi, hf', hd]
    · refine not_irqOK_of_index (i := i) ?_ hi
      exact List.mem_append_right _ (by rw [rxFreeIrq_index hle]; exact List.mem_singleton_self i)
  | interrupt i =>
    obtain ⟨x, hx, he⟩ := map_eq_ok.mp hst
    obtain ⟨-, rfl⟩ := Prod.mk.inj he
    refine not_irqOK_of_index (i := i) ?_ hc
    exact List.mem_append_right _ (by rw [rxIrqHandler_index hx]; exact List.mem_singleton_self i)

/-- **Along a run of requests, releases and interrupts no index outside the
table is used, and an interrupt calls the handlers that are registered on its
line, if and only if every call is served.** -/
theorem irqOK_iff (hi : Init count s) {tr : List ((IrqCall H D × OsErr × List (Invocation H D)) × IrqSys H D)}
    (h : Run.Exec (Step count) s tr) :
    (∀ x ∈ Run.states s tr, IrqOK count x) ↔ Run.Guarded (Served count) s tr :=
  (h.guarded_iff (Inv count) (fun _ h => h.irqOK) (fun _ _ _ hs hc hst => hs.step hc hst)
    (fun _ _ _ hs hc hst => hs.breaks hc hst) hi.inv).symm

end Calls

/-- Ten lines, as on the simulator; the table has nine entries. -/
def idleLines : IrqSys ℕ ℕ where
  p := { pool := fun _ => {} }

theorem idleLines_init : Init 10 idleLines := ⟨fun _ _ _ => rfl, rfl, rfl⟩

/-- A timer and a shared line with one handler each; the timer is freed. -/
theorem irqOK_idleLines : Init 10 idleLines ∧ ∃ tr, Run.Exec (Step 10) idleLines tr ∧ tr.length = 7 ∧
    ∀ x ∈ Run.states idleLines tr, IrqOK 10 x := by
  refine ⟨idleLines_init, ?_⟩
  obtain ⟨tr, hex, hp⟩ := Run.exists_exec (f := Run.attempt (fun _ _ => True) (exec 10))
    (fun _ _ _ h => (Run.step_of_attempt h).2) (s := idleLines)
    [(.request 1 (some 7) 0 none, (.osOk, [])), (.request 2 (some 8) 4 (some 5), (.osOk, [])),
      (.interrupt 1, (.osOk, [⟨7, 1, none⟩])), (.interrupt 2, (.osOk, [⟨8, 2, some 5⟩])),
      (.free 1 none, (.osOk, [])), (.interrupt 1, (.osOk, [])), (.request 11 (some 9) 0 none, (.osErr, []))]
    (fun tr => decide (tr.length = 7 ∧ Run.Guarded (Served 10) idleLines tr)) (by decide +kernel)
  obtain ⟨hlen, hg⟩ := of_decide_eq_true hp
  exact ⟨tr, hex, hlen, (irqOK_iff idleLines_init hex).mpr hg⟩

/-- A second handler of a shared line is accepted, and an interrupt calls the
first one only. -/
theorem second_not_called : Init 10 idleLines ∧ ∃ tr, Run.Exec (Step 10) idleLines tr ∧
    ¬ ∀ x ∈ Run.states idleLines tr, IrqOK 10 x := by
  refine ⟨idleLines_init, ?_⟩
  obtain ⟨tr, hex, hp⟩ := Run.exists_exec (f := Run.attempt (fun _ _ => True) (exec 10))
    (fun _ _ _ h => (Run.step_of_attempt h).2) (s := idleLines)
    [(.request 2 (some 8) 4 (some 5), (.osOk, [])), (.request 2 (some 9) 4 (some 6), (.osOk, [])),
      (.interrupt 2, (.osOk, [⟨8, 2, some 5⟩]))]
    (fun tr => decide (((Run.final idleLines tr).p.pool 2).next = none ∧
      ((Run.final idleLines tr).p.pool 2).irqHandler.toList.length = 1 ∧
      ((Run.final idleLines tr).regs 2).length = 2)) (by decide +kernel)
  obtain ⟨hn, h1, h2⟩ := of_decide_eq_true hp
  refine ⟨tr, hex, fun hall => ?_⟩
  refine not_irqOK_of_length (by decide) hn ?_ (hall _ (Run.final_mem_states _ _))
  rw [h1, h2]
  decide

end IrqSys

end Rosx
