/-
# The runs of the waits for mutexes and semaphores

The calls that block (`Joins`), the steps, and the runs of `ObjSys`.
`returnsGranted_iff` says when `OS_OK` goes to those only who were granted what
they waited for and those who were woken by a deletion are told so: as long as
no deletion finds a task that waits for the mutex without a timeout, or for the
semaphore at all, and no stale timer ends a wait without a timeout.
-/
import Rosx.WaitEnds

namespace Rosx

open Linked

variable {n : ℕ}

namespace ObjSys

/-! ### Calls that block -/

/-- From `k` to `k'` the running task joins the chain of `i` and another task
runs; the ready queue is now `lr'`. -/
structure Joins (k k' : Kernel n) (i : WaitObj) (timed : Bool) (lr lr' : List (Fin n)) (lw : WaitObj → List (Fin n)) :
    Prop where
  lists : Lists k' k' lr' (heads k') (Function.update lw i (lw i ++ [k.curr]))
  ready : ∀ u, u ∈ lr' ↔ u ≠ k.curr ∧ u ∈ lr
  curr : k'.curr ∈ lr'
  state : ∀ u, (k'.tcb u).state = if u = k'.curr then .running else if u = k.curr then .suspend else (k.tcb u).state
  self : Blocked (k'.tcb k.curr) timed i
  others : ∀ u, u ≠ k.curr → (k'.tcb u).mutex = (k.tcb u).mutex ∧ (k'.tcb u).sem = (k.tcb u).sem ∧
    (k'.tcb u).timeout = (k.tcb u).timeout
  owner : ∀ m, (k'.mutexes m).owner = (k.mutexes m).owner

section Join

variable {s : ObjSys n} {k' e : Kernel n} {lr lr' : List (Fin n)} {lw : WaitObj → List (Fin n)} {i : WaitObj}
  {timed : Bool} {m : ℕ} {x : Fin n}

/-- The data before the switch to `x`. -/
theorem Joins.of_lists {k : Kernel n}
    (hls : Lists (e.switchTo x) k' lr' (heads e) (Function.update lw i (lw i ++ [k.curr])))
    (hr : ∀ u, u ∈ lr' ↔ u ≠ k.curr ∧ u ∈ lr) (hx : x ∈ lr') (hst : (e.tcb k.curr).state = .suspend)
    (hb : Blocked (e.tcb k.curr) timed i) (hother : ∀ u, u ≠ k.curr → SameWait (k.tcb u) (e.tcb u))
    (howner : ∀ m, (e.mutexes m).owner = (k.mutexes m).owner) : Joins k k' i timed lr lr' lw := by
  have hcurr : k'.curr = x := hls.data.curr
  have hmut : ∀ u, (k'.tcb u).mutex = (e.tcb u).mutex := fun u => (hls.data.mutex u).trans (Kernel.switchTo_mutex ..)
  have hsem : ∀ u, (k'.tcb u).sem = (e.tcb u).sem := fun u => (hls.data.sem u).trans (Kernel.switchTo_sem ..)
  have htim : ∀ u, (k'.tcb u).timeout = (e.tcb u).timeout := fun u =>
    (hls.data.timeout u).trans (Kernel.switchTo_timeout ..)
  refine ⟨?_, hr, by rw [hcurr]; exact hx, fun u => ?_, ?_, fun u hu => ⟨?_, ?_, ?_⟩, fun m => ?_⟩
  · rw [heads_relinked hls.data]
    exact hls.self
  · rw [hls.data.state, Kernel.switchTo_state, hcurr]
    split_ifs with hux huc
    · rfl
    · rw [huc, hst]
    · exact (hother u huc).state
  · unfold Blocked at hb ⊢
    rw [hmut, hsem, htim]
    exact hb
  · rw [hmut, (hother u hu).mutex]
  · rw [hsem, (hother u hu).sem]
  · rw [htim, (hother u hu).timeout]
  · rw [hls.data.mutexes]
    exact howner m

/-- A call that blocks. -/
theorem Inv.join (h : Inv s lr lw) (hj : Joins s.k k' i timed lr lr' lw) (hport : k'.port = {}) :
    Inv (s.block i timed k') lr' (Function.update lw i (lw i ++ [s.k.curr])) := by
  have hne : k'.curr ≠ s.k.curr := ((hj.ready _).mp hj.curr).1
  have hmem : ∀ j u, u ≠ s.k.curr → (u ∈ Function.update lw i (lw i ++ [s.k.curr]) j ↔ u ∈ lw j) := by
    intro j u hu
    by_cases hji : j = i
    · subst hji; simp [hu]
    · rw [Function.update_of_ne hji]
  refine ⟨hj.lists, hport, fun u => ?_, hj.curr, fun u => ?_⟩
  · show u ∈ lr' ↔ (k'.tcb u).state.runnable = true
    rw [hj.state, hj.ready, h.ready]
    split_ifs with hu huc
    · -- the task that runs now was ready
      have hx := (hj.ready _).mp hj.curr
      rw [hu, ← h.ready]
      exact iff_of_true hx rfl
    · simp [huc]
    · simp [huc]
  · show At k' lr' _ u (Function.update s.phase s.k.curr _ u)
    by_cases hu : u = s.k.curr
    · subst hu
      rw [Function.update_self]
      refine ⟨by rw [Function.update_self]; simp, ?_, hj.self⟩
      rw [hj.state, if_neg hne.symm, if_pos rfl]
    · rw [Function.update_of_ne hu]
      obtain ⟨hmut, hsem, htim⟩ := hj.others u hu
      refine (h.tasks u).keep (fun j => hmem j u hu) (fun hr => (hj.ready u).mpr ⟨hu, hr⟩) (fun hst => ?_) hmut hsem htim
        fun _ m ho => by rw [← hj.owner]; exact ho
      have hux : u ≠ k'.curr := by
        rintro rfl
        have hr := (h.ready _).mp ((hj.ready _).mp hj.curr).2
        rw [hst] at hr
        cases hr
      rw [hj.state, if_neg hux, if_neg hu, hst]

/-- A lock call that goes to sleep on a held mutex. -/
theorem lock_joins (h : Inv s lr lw) (hp : s.phase s.k.curr = .out) {o : Fin n} {timeout : ℤ} {tm : ℕ} {l' : List (Fin n)}
    (hr : ∀ u, u ∈ x :: l' ↔ u ≠ s.k.curr ∧ u ∈ lr)
    (hls : Lists ((armedFor (blockedOn s.k m o (lw (.mutex m))) timeout tm).switchTo x) k' (x :: l')
      (Function.update (heads s.k) (.mutex m) (lw (.mutex m) ++ [s.k.curr]).head?)
      (Function.update lw (.mutex m) (lw (.mutex m) ++ [s.k.curr]))) :
    Joins s.k k' (.mutex m) (timeout > 0) lr (x :: l') lw := by
  set e₁ := blockedOn s.k m o (lw (.mutex m)) with he₁
  have hcurr₁ : e₁.curr = s.k.curr := rfl
  have hst₁ : (e₁.tcb e₁.curr).state = .suspend := by rw [he₁, blockedOn_state, if_pos hcurr₁]
  have hmtx : (armedFor e₁ timeout tm).mutexes = Function.update s.k.mutexes m
      { s.k.mutexes m with task := (lw (.mutex m) ++ [s.k.curr]).head? } := by
    rw [armedFor_mutexes]
    rfl
  have hheads : heads (armedFor e₁ timeout tm) =
      Function.update (heads s.k) (.mutex m) (lw (.mutex m) ++ [s.k.curr]).head? := by
    apply heads_setMutex hmtx
    rw [armedFor_sems]
    rfl
  refine .of_lists (e := armedFor e₁ timeout tm) (x := x) (by rw [hheads]; exact hls) hr List.mem_cons_self ?_ ?_
    (fun u hu => ?_) (owner_setMutex hmtx rfl)
  · rw [armedFor_state _ _ _ _ hst₁]
    exact hst₁
  · have hself := h.tasks s.k.curr
    rw [hp] at hself
    refine ⟨?_, ?_⟩
    · rw [armedFor_mutex, he₁, blockedOn_mutex, if_pos rfl]
    · rw [armedFor_keeps e₁ s.k.curr timeout tm Tcb.sem fun _ => rfl, he₁, blockedOn_sem]
      exact hself.2.2
  · refine ⟨?_, ?_, ?_, ?_⟩
    · rw [armedFor_state _ _ _ _ hst₁, he₁, blockedOn_state, if_neg hu]
    · rw [armedFor_mutex, he₁, blockedOn_mutex, if_neg hu]
    · rw [armedFor_keeps e₁ u timeout tm Tcb.sem fun _ => rfl, he₁, blockedOn_sem]
    · rw [armedFor_keeps e₁ u timeout tm Tcb.timeout fun _ => rfl, he₁, blockedOn_timeout]

/-- What a lock call does: it takes the mutex, is refused, or blocks. -/
theorem Inv.lock (h : Inv s lr lw) (hp : s.phase s.k.curr = .out) {timeout : ℤ} {tm : ℕ} {r : Option OsErr}
    (hk : rxMutexLock s.k m timeout tm = .ok (r, k')) :
    (∃ lr' lw', Inv (s.afterCall (.mutex m) (timeout > 0) k' r) lr' lw') ∧
      (r = some .osOk → (s.k.mutexes m).lock = .unlocked ∧ (k'.mutexes m).owner = some s.k.curr) := by
  rw [rxMutexLock_eq] at hk
  obtain ⟨⟨r₁, k₁⟩, hchain, hk⟩ := bind_eq_ok.mp hk
  rcases rxMutexLockChain_cases (m := m) (i := .mutex m) h.lists rfl h.curr hchain with
    ⟨hl, rfl, rfl⟩ | ⟨hl, rfl, rfl⟩ | ⟨hl, h0, rfl, o, ho⟩
  · obtain ⟨rfl, rfl⟩ := Prod.mk.inj (Except.ok.inj hk)
    set c : Mutex n := { s.k.mutexes m with lock := .locked, owner := some s.k.curr } with hc
    have hheads : heads (s.k.enterCritical.setMutex m c).exitCritical = heads s.k := by
      rw [heads_setMutex (e := (s.k.enterCritical.setMutex m c).exitCritical) (k := s.k) (m := m) (c := c) rfl rfl]
      exact Function.update_eq_self _ _
    refine ⟨⟨lr, lw, h.of_eq ?_ (h.lists.port.enter.exit) rfl rfl (fun j u ho => ?_) hp⟩, fun _ => ⟨hl, ?_⟩⟩
    · rw [hheads]
      exact (h.lists.enter.setMutex m c).exit.self
    · replace ho : (Function.update s.k.mutexes m c j).owner = some u := ho
      by_cases hj : j = m
      · subst hj
        rw [Function.update_self] at ho
        exact Or.inr (Option.some.inj ho).symm
      · rw [Function.update_of_ne hj] at ho
        exact Or.inl ho
    · show (Function.update s.k.mutexes m c m).owner = _
      rw [Function.update_self]
  · obtain ⟨rfl, rfl⟩ := Prod.mk.inj (Except.ok.inj hk)
    refine ⟨⟨lr, lw, ?_⟩, fun hr => by cases hr⟩
    rw [enter_exit h.port]
    exact h
  · have hor : (s.k.tcb o).state = .ready → o ∈ lr := fun hs => (h.ready o).mpr (by rw [hs]; rfl)
    obtain ⟨k₂, lr', hrun, -, hm, hls⟩ := rxMutexLockChain_blocks (m := m) (i := .mutex m) h.lists rfl hl ho hor h.curr h0
    obtain ⟨-, rfl⟩ := Prod.mk.inj (Except.ok.inj (hrun.symm.trans hchain))
    obtain ⟨k₃, hsleep, hk⟩ := bind_eq_ok.mp hk
    obtain ⟨rfl, rfl⟩ := Prod.mk.inj (Except.ok.inj hk)
    cases hx : lr' with
    | nil =>
      rw [hx] at hls
      rw [rxMutexLockSleep_nil hls] at hsleep
      cases hsleep
    | cons x l' =>
      obtain ⟨k₄, hrun₄, hport, hls⟩ := rxMutexLockSleep_spec (i := .mutex m) (l := lw (.mutex m)) hls
        (Function.update_self ..) hx timeout tm
      obtain rfl : k₄ = k₃ := Except.ok.inj (hrun₄.symm.trans hsleep)
      rw [hx] at hm hls
      exact ⟨⟨x :: l', _, h.join (lock_joins h hp hm hls) hport⟩, fun hr => by cases hr⟩

/-- What a semaphore wait does: it takes a permit, is refused, or blocks. -/
theorem Inv.wait (h : Inv s lr lw) (hp : s.phase s.k.curr = .out) {timeout : ℤ} {tm : ℕ} {r : Option OsErr}
    (hk : rxSemaphoreWait s.k m timeout tm = .ok (r, k')) :
    (∃ lr' lw', Inv (s.afterCall (.sem m) (timeout > 0) k' r) lr' lw') ∧
      (r = some .osOk → (k'.sems m).currVal = (s.k.sems m).currVal - 1 ∧ 0 ≤ (k'.sems m).currVal) := by
  by_cases hv : (s.k.sems m).currVal > 0
  · rw [rxSemaphoreWait_takes hv] at hk
    obtain ⟨rfl, rfl⟩ := Prod.mk.inj (Except.ok.inj hk)
    set c : Semaphore n := { s.k.sems m with currVal := (s.k.sems m).currVal - 1 } with hc
    have hheads : heads (s.k.enterCritical.setSem m c).exitCritical = heads s.k := by
      rw [heads_setSem (e := (s.k.enterCritical.setSem m c).exitCritical) (k := s.k) (m := m) (c := c) rfl rfl]
      exact Function.update_eq_self _ _
    have hcv : ((s.k.enterCritical.setSem m c).exitCritical.sems m).currVal = (s.k.sems m).currVal - 1 := by
      show (Function.update s.k.sems m c m).currVal = _
      rw [Function.update_self]
    refine ⟨⟨lr, lw, h.of_eq ?_ (h.lists.port.enter.exit) rfl rfl (fun j u ho => Or.inl ho) hp⟩, fun _ => ⟨hcv, by omega⟩⟩
    rw [hheads]
    exact (h.lists.enter.setSem m c).exit.self
  · have hv' : (s.k.sems m).currVal ≤ 0 := by omega
    by_cases h0 : timeout = osNoWait
    · subst h0
      rw [rxSemaphoreWait_noWait hv', enter_exit h.port] at hk
      obtain ⟨rfl, rfl⟩ := Prod.mk.inj (Except.ok.inj hk)
      exact ⟨⟨lr, lw, h⟩, fun hr => by cases hr⟩
    · rcases rxSemaphoreWait_blocks (m := m) (i := .sem m) h.lists rfl hv' h.curr h0 tm
        with herr | ⟨k₁, x, l', hx, hrun, hport, hls⟩
      · rw [herr] at hk
        cases hk
      · obtain ⟨rfl, rfl⟩ := Prod.mk.inj (Except.ok.inj (hrun.symm.trans hk))
        refine ⟨⟨lr.erase s.k.curr, Function.update lw (.sem m) (lw (.sem m) ++ [s.k.curr]), ?_⟩, fun hr => by cases hr⟩
        set e := semArmed (semBlocked s.k m (lw (.sem m))) timeout tm with he
        obtain ⟨hst, hsem, htim⟩ := semArmed_blocked_self s.k m (lw (.sem m)) timeout tm
        refine h.join (.of_lists (e := e) (x := x) ?_ (fun u => ?_) (by rw [hx]; exact List.mem_cons_self)
          hst ⟨?_, hsem, ?_⟩
          (fun u hu => .of_eq (semArmed_blocked_of_ne _ _ _ hu timeout tm)) fun j => ?_) hport
        · have hheads : heads e = Function.update (heads s.k) (.sem m) (lw (.sem m) ++ [s.k.curr]).head? := by
            apply heads_setSem (m := m)
              (c := { s.k.sems m with currVal := (s.k.sems m).currVal - 1, task := (lw (.sem m) ++ [s.k.curr]).head? })
            · rw [he, semArmed_sems]
              rfl
            · rw [he, semArmed_mutexes]
              rfl
          rw [hheads]
          exact hls
        · rw [h.lists.ready.nodup.mem_erase_iff]
        · have hself := h.tasks s.k.curr
          rw [hp] at hself
          rw [← hself.2.1]
          exact semArmed_blocked_mutex ..
        · rw [htim]
          simp
        · rw [he, semArmed_mutexes]
          rfl

/-- Another task is dispatched. -/
theorem Inv.dispatch (h : Inv s lr lw) {t : Fin n} (ht : (s.k.tcb t).state.runnable = true) (p : Bool) :
    Inv { s with k := s.k.dispatch t p } lr lw := by
  have hkeep : ∀ {β : Type} (g : Tcb n → β), (∀ c st tk, g { c with state := st, ticks := tk } = g c) → ∀ u,
      g ((s.k.dispatch t p).tcb u) = g (s.k.tcb u) := by
    intro β g hg u
    rw [Kernel.dispatch_tcb]
    exact hg _ _ _
  have hrest : ∀ {β : Type} (g : Kernel n → β), (∀ f c, g { s.k with tcb := f, curr := c } = g s.k) →
      g (s.k.dispatch t p) = g s.k := by
    intro β g hg
    rw [Kernel.dispatch_rest]
    exact hg _ _
  have hmtx : (s.k.dispatch t p).mutexes = s.k.mutexes := hrest Kernel.mutexes fun _ _ => rfl
  refine ⟨?_, ?_, fun u => ?_, ?_, fun u => ?_⟩
  · have hheads : heads (s.k.dispatch t p) = heads s.k := hrest heads fun _ _ => by
      funext i
      cases i <;> rfl
    rw [hheads]
    exact h.lists.dispatch t p
  · exact (hrest Kernel.port fun _ _ => rfl).trans h.port
  · exact Kernel.dispatch_ready u p h.ready h.curr ht
  · exact (h.ready t).mpr ht
  · refine (h.tasks u).keep (fun _ => Iff.rfl) id (fun hst => ?_) (hkeep Tcb.mutex (fun _ _ _ => rfl) u)
      (hkeep Tcb.sem (fun _ _ _ => rfl) u) (hkeep Tcb.timeout (fun _ _ _ => rfl) u) fun _ m ho => by rw [← hmtx]; exact ho
    -- neither the task that is dispatched nor the one that was running is suspended
    have hu : u ∉ lr := by
      rw [h.ready, hst]
      simp
    rw [Kernel.dispatch_state_of_notMem u p h.ready h.curr ht hu, hst]

/-- A woken task returns from its call. -/
theorem Inv.ret (h : Inv s lr lw) {why : WakeReason} (hp : s.phase s.k.curr = .woken i timed why) :
    Inv { s with phase := Function.update s.phase s.k.curr .out } lr lw := by
  refine ⟨h.lists, h.port, h.ready, h.curr, fun u => ?_⟩
  show At s.k lr lw u (Function.update s.phase s.k.curr .out u)
  by_cases hu : u = s.k.curr
  · subst hu
    have hat := h.tasks s.k.curr
    rw [hp] at hat
    rw [Function.update_self]
    exact ⟨hat.1, hat.2.2.1, hat.2.2.2.1⟩
  · rw [Function.update_of_ne hu]
    exact h.tasks u

end Join

/-! ### Steps -/

section Steps

variable {s s' : ObjSys n} {lr : List (Fin n)} {lw : WaitObj → List (Fin n)} {k' : Kernel n} {m : ℕ}

/-- A deletion wakes timed lock calls only. -/
theorem Inv.deleteMutex (h : Inv s lr lw) (hk : rxDeleteMutex s.k m = .ok k')
    (hsafe : ∀ t, s.phase t ≠ .waiting (.mutex m) false) : ∃ lr' lw', Inv (s.wake .deleted k') lr' lw' := by
  obtain ⟨hport, ho, lr', lw', ht⟩ := deleteMutex_takes h hk
  refine ⟨lr', lw', h.take ht hport .deleted fun t _ timed hp => Or.inr ?_⟩
  cases timed with
  | false => exact absurd hp (hsafe t)
  | true =>
    refine ⟨rfl, ?_⟩
    rw [waitRet_mutex, ho]
    simp

/-- A deletion finds no waiter. -/
theorem Inv.deleteSem (h : Inv s lr lw) (hk : rxDeleteSemaphore s.k m = .ok k')
    (hsafe : ∀ t timed, s.phase t ≠ .waiting (.sem m) timed) : ∃ lr' lw', Inv (s.wake .deleted k') lr' lw' := by
  obtain ⟨hport, -, lr', lw', ht⟩ := deleteSem_takes h hk
  exact ⟨lr', lw', h.take ht hport .deleted fun t _ timed hp => absurd hp (hsafe t timed)⟩

theorem expire_priv {tm : ℕ} (hk : s.k.expireTimer tm = .ok k')
    (hhd : (s.k.timers tm).handler = some .mutexHandler ∨ (s.k.timers tm).handler = some .semHandler) :
    ∃ t, (s.k.timers tm).priv = some t := by
  cases hpr : (s.k.timers tm).priv with
  | some t => exact ⟨t, rfl⟩
  | none =>
    unfold Kernel.expireTimer at hk
    rcases hhd with hhd | hhd
    all_goals
      simp only [hhd, hpr] at hk
      cases hk

/-- A timer ends a timed wait, or none. -/
theorem Inv.expire (h : Inv s lr lw) {tm : ℕ} (hk : s.k.expireTimer tm = .ok k') (hadm : s.Admissible (.expire tm))
    (hsafe : EndSafe s (.expire tm, none)) : ∃ lr' lw', Inv (s.wake .timedOut k') lr' lw' := by
  obtain ⟨-, hhd⟩ := hadm
  obtain ⟨t, hpr⟩ := expire_priv hk hhd
  obtain ⟨hsem, hmutex⟩ := hsafe t hpr
  rcases hhd with hhd | hhd
  · obtain ⟨hport, m, timed, hp, hown, ⟨-, ht⟩ | ⟨ho, lr', lw', ht⟩⟩ := expireMutex_takes h hhd hpr hk
    · exact ⟨lr, lw, h.take ht hport .timedOut (by simp)⟩
    · refine ⟨lr', lw', h.take ht hport .timedOut fun u hu timed' hpu => Or.inr ?_⟩
      obtain rfl := List.mem_singleton.mp hu
      cases timed' with
      | false => exact absurd (hmutex hhd m hpu) ho
      | true =>
        refine ⟨rfl, ?_⟩
        rw [waitRet_mutex, hown]
        exact ho
  · obtain ⟨hport, ⟨-, ht⟩ | ⟨m, timed, lr', lw', hp, ht, htim⟩⟩ := expireSem_takes h hhd hpr hk
    · exact ⟨lr, lw, h.take ht hport .timedOut (by simp)⟩
    · refine ⟨lr', lw', h.take ht hport .timedOut fun u hu timed' hpu => Or.inr ?_⟩
      obtain rfl := List.mem_singleton.mp hu
      cases timed' with
      | false => exact absurd hpu (hsem hhd m)
      | true => exact ⟨rfl, (waitRet_sem ..).mpr htim⟩

/-- What a step that is safe keeps, and what a call that returns has done. -/
theorem step_spec {c : ObjCall n × Option OsErr} (h : ∃ lr lw, Inv s lr lw) (hsafe : EndSafe s c)
    (hst : Step s c s') : (∃ lr lw, Inv s' lr lw) ∧ Step s c s' ∧ TakesAtOnce s c s' := by
  obtain ⟨lr, lw, h⟩ := h
  have hst' := hst
  obtain ⟨c, r⟩ := c
  obtain ⟨hadm, hex⟩ := hst
  cases c with
  | lock m timeout tm =>
    obtain ⟨⟨r₁, k₁⟩, hk, hex⟩ := bind_eq_ok.mp hex
    obtain ⟨rfl, rfl⟩ := Prod.mk.inj (Except.ok.inj hex)
    obtain ⟨hinv, hret⟩ := h.lock hadm.1 hk
    refine ⟨hinv, hst', fun hok => ?_⟩
    obtain rfl : r₁ = some .osOk := hok
    exact hret rfl
  | wait m timeout tm =>
    obtain ⟨⟨r₁, k₁⟩, hk, hex⟩ := bind_eq_ok.mp hex
    obtain ⟨rfl, rfl⟩ := Prod.mk.inj (Except.ok.inj hex)
    obtain ⟨hinv, hret⟩ := h.wait hadm.1 hk
    refine ⟨hinv, hst', fun hok => ?_⟩
    obtain rfl : r₁ = some .osOk := hok
    exact hret rfl
  | unlock m =>
    obtain ⟨⟨r₁, k₁⟩, hk, hex⟩ := bind_eq_ok.mp hex
    obtain ⟨rfl, rfl⟩ := Prod.mk.inj (Except.ok.inj hex)
    obtain ⟨hport, l, lr', lw', ht⟩ := unlock_takes h hk
    exact ⟨⟨lr', lw', h.take ht hport .granted fun _ _ _ _ => Or.inl rfl⟩, hst', trivial⟩
  | post m =>
    obtain ⟨⟨r₁, k₁⟩, hk, hex⟩ := bind_eq_ok.mp hex
    obtain ⟨rfl, rfl⟩ := Prod.mk.inj (Except.ok.inj hex)
    obtain ⟨hport, l, lr', lw', ht⟩ := post_takes h hk
    exact ⟨⟨lr', lw', h.take ht hport .granted fun _ _ _ _ => Or.inl rfl⟩, hst', trivial⟩
  | deleteMutex m =>
    obtain ⟨k₁, hk, heq⟩ := map_eq_ok.mp hex
    obtain ⟨rfl, rfl⟩ := Prod.mk.inj heq
    exact ⟨h.deleteMutex hk hsafe, hst', trivial⟩
  | deleteSem m =>
    obtain ⟨k₁, hk, heq⟩ := map_eq_ok.mp hex
    obtain ⟨rfl, rfl⟩ := Prod.mk.inj heq
    exact ⟨h.deleteSem hk hsafe, hst', trivial⟩
  | expire tm =>
    obtain ⟨k₁, hk, heq⟩ := map_eq_ok.mp hex
    obtain ⟨rfl, rfl⟩ := Prod.mk.inj heq
    exact ⟨h.expire hk hadm hsafe, hst', trivial⟩
  | ret =>
    cases hp : s.phase s.k.curr with
    | out => exact absurd hp hadm
    | waiting i timed =>
      simp only [exec, hp] at hex
      cases hex
    | woken i timed why =>
      simp only [exec, hp] at hex
      obtain ⟨-, rfl⟩ := Prod.mk.inj (Except.ok.inj hex)
      exact ⟨⟨lr, lw, h.ret hp⟩, hst', trivial⟩
  | dispatch t preempted =>
    obtain ⟨-, rfl⟩ := Prod.mk.inj (Except.ok.inj hex)
    exact ⟨⟨lr, lw, h.dispatch hadm preempted⟩, hst', trivial⟩

/-- A task that is woken for the reason `why` with nothing granted, and whose
call returns `OS_OK`. -/
theorem not_returnsGranted {k' : Kernel n} {i : WaitObj} {l lr' : List (Fin n)} {lw' : WaitObj → List (Fin n)} {t : Fin n}
    {timed : Bool} {why : WakeReason} (h : Inv s lr lw) (ht : Takes s.k k' i l lr lr' lw lw') (htl : t ∈ l)
    (hp : s.phase t = .waiting i timed) (hwhy : why ≠ .granted) (hret : k'.waitRet t timed i = .osOk) :
    ¬ ReturnsGranted (s.wake why k') := by
  intro hok
  have hpt : (s.wake why k').phase t = .woken i timed why := by
    rw [ht.phase h, if_pos htl, hp]
    rfl
  exact hwhy ((hok t i timed why hpt).1 hret)

/-- A step that is not safe gives `OS_OK` to a task that was granted nothing. -/
theorem step_unsafe {c : ObjCall n × Option OsErr} (h : ∃ lr lw, Inv s lr lw) (hun : ¬ EndSafe s c) (hst : Step s c s') :
    ¬ ReturnsGranted s' := by
  obtain ⟨lr, lw, h⟩ := h
  have hmem : ∀ {t : Fin n} {i : WaitObj} {timed : Bool}, s.phase t = .waiting i timed → t ∈ lw i := by
    intro t i timed hp
    have hat := h.tasks t
    rw [hp] at hat
    exact hat.1
  obtain ⟨c, r⟩ := c
  obtain ⟨hadm, hex⟩ := hst
  cases c with
  | lock m timeout tm => exact absurd trivial hun
  | wait m timeout tm => exact absurd trivial hun
  | unlock m => exact absurd trivial hun
  | post m => exact absurd trivial hun
  | ret => exact absurd trivial hun
  | dispatch t preempted => exact absurd trivial hun
  | deleteMutex m =>
    obtain ⟨k₁, hk, heq⟩ := map_eq_ok.mp hex
    obtain ⟨-, rfl⟩ := Prod.mk.inj heq
    obtain ⟨t, hp⟩ : ∃ t, s.phase t = .waiting (.mutex m) false := by
      by_contra hno
      exact hun fun t hp => hno ⟨t, hp⟩
    obtain ⟨-, -, lr', lw', ht⟩ := deleteMutex_takes h hk
    exact not_returnsGranted h ht (hmem hp) hp (by decide) (waitRet_untimed ..)
  | deleteSem m =>
    obtain ⟨k₁, hk, heq⟩ := map_eq_ok.mp hex
    obtain ⟨-, rfl⟩ := Prod.mk.inj heq
    obtain ⟨t, timed, hp⟩ : ∃ t timed, s.phase t = .waiting (.sem m) timed := by
      by_contra hno
      exact hun fun t timed hp => hno ⟨t, timed, hp⟩
    obtain ⟨-, htim, lr', lw', ht⟩ := deleteSem_takes h hk
    refine not_returnsGranted h ht (hmem hp) hp (by decide) ?_
    cases timed with
    | false => exact waitRet_untimed ..
    | true =>
      -- `timeout` still says that the timer is on
      have hat := h.tasks t
      rw [hp] at hat
      by_contra hret
      have hcode := (waitRet_sem ..).mp hret
      rw [htim, hat.2.2.2.2] at hcode
      revert hcode
      decide
  | expire tm =>
    obtain ⟨k₁, hk, heq⟩ := map_eq_ok.mp hex
    obtain ⟨-, rfl⟩ := Prod.mk.inj heq
    obtain ⟨-, hhd⟩ := hadm
    obtain ⟨t, hpr⟩ := expire_priv hk hhd
    rcases hhd with hhd | hhd
    · obtain ⟨-, m, timed, hp, -, hcase⟩ := expireMutex_takes h hhd hpr hk
      obtain ⟨hpf, ho⟩ : s.phase t = .waiting (.mutex m) false ∧ (s.k.mutexes m).owner ≠ some t := by
        by_contra hno
        refine hun fun u hu => ⟨fun hs => ?_, fun _ m' hp' => ?_⟩
        · rw [hhd] at hs
          cases hs
        · obtain rfl := Option.some.inj (hpr.symm.trans hu)
          obtain ⟨hm, rfl⟩ := ObjPhase.waiting.inj (hp.symm.trans hp')
          obtain rfl := WaitObj.mutex.inj hm
          by_contra ho
          exact hno ⟨hp, ho⟩
      obtain ⟨-, lr', lw', ht⟩ := hcase.resolve_left fun hc => ho hc.1
      exact not_returnsGranted h ht List.mem_cons_self hpf (by decide) (waitRet_untimed ..)
    · obtain ⟨-, hcase⟩ := expireSem_takes h hhd hpr hk
      obtain ⟨m, hpf⟩ : ∃ m, s.phase t = .waiting (.sem m) false := by
        by_contra hno
        refine hun fun u hu => ⟨fun _ m hp => ?_, fun hs => ?_⟩
        · obtain rfl := Option.some.inj (hpr.symm.trans hu)
          exact hno ⟨m, hp⟩
        · rw [hhd] at hs
          cases hs
      obtain ⟨m', timed, lr', lw', hp, ht, -⟩ := hcase.resolve_left fun hc => hc.1 m false hpf
      obtain ⟨hm, rfl⟩ := ObjPhase.waiting.inj (hp.symm.trans hpf)
      obtain rfl := WaitObj.sem.inj hm
      exact not_returnsGranted h ht List.mem_cons_self hpf (by decide) (waitRet_untimed ..)

end Steps

/-! ### Runs -/

/-- **Who is told `OS_OK`.** Along a run the calls return `OS_OK` to the tasks
only that were granted the mutex or a permit, and `E_OS_UNAVAIL` to those that
waited without a timeout for an object that was deleted, if and only if no
deletion finds a task waiting for the mutex without a timeout or for the
semaphore at all and no stale timer ends a wait without a timeout. -/
theorem returnsGranted_iff {s : ObjSys n} (hi : Init s) {tr : List ((ObjCall n × Option OsErr) × ObjSys n)}
    (h : Run.Exec Step s tr) :
    (Run.Exec (fun s c s' => Step s c s' ∧ TakesAtOnce s c s') s tr ∧ ∀ x ∈ Run.states s tr, ReturnsGranted x) ↔
      Run.Guarded EndSafe s tr := by
  obtain ⟨lr, hinv⟩ := hi.inv
  have hs : ∃ lr lw, Inv s lr lw := ⟨lr, _, hinv⟩
  have hiff := h.guarded_iff (fun s => ∃ lr lw, Inv s lr lw) (fun _ ⟨_, _, hx⟩ => hx.returnsGranted)
    (fun _ _ _ hx hc hst => (step_spec hx hc hst).1) (fun _ _ _ => step_unsafe) hs
  refine ⟨fun hall => hiff.mpr hall.2, fun hg => ⟨?_, hiff.mp hg⟩⟩
  exact h.of_guarded (fun s => ∃ lr lw, Inv s lr lw) (fun _ _ _ => step_spec) hg hs

instance (s : ObjSys n) : ∀ c, Decidable (s.Admissible c)
  | .lock _ timeout _ | .wait _ timeout _ => inferInstanceAs (Decidable (s.phase s.k.curr = .out ∧ timeout < 2 ^ 31))
  | .unlock _ | .post _ | .deleteMutex _ | .deleteSem _ => inferInstanceAs (Decidable (s.phase s.k.curr = .out))
  | .expire tm => inferInstanceAs (Decidable (tm ∈ s.k.active ∧
      ((s.k.timers tm).handler = some .mutexHandler ∨ (s.k.timers tm).handler = some .semHandler)))
  | .ret => inferInstanceAs (Decidable (s.phase s.k.curr ≠ .out))
  | .dispatch t _ => inferInstanceAs (Decidable ((s.k.tcb t).state.runnable = true))

instance : ∀ p : ObjPhase, Decidable (∀ m, p ≠ .waiting (.sem m) false)
  | .waiting (.sem m) false => .isFalse fun h => h m rfl
  | .waiting (.sem _) true => .isTrue nofun
  | .waiting (.mutex _) _ => .isTrue nofun
  | .out => .isTrue nofun
  | .woken _ _ _ => .isTrue nofun

instance (q : ℕ → Prop) [DecidablePred q] : ∀ p : ObjPhase, Decidable (∀ m, p = .waiting (.mutex m) false → q m)
  | .waiting (.mutex m) false =>
    decidable_of_iff (q m) ⟨fun h _ hp => WaitObj.mutex.inj (ObjPhase.waiting.inj hp).1 ▸ h, fun h => h m rfl⟩
  | .waiting (.mutex _) true => .isTrue nofun
  | .waiting (.sem _) _ => .isTrue nofun
  | .out => .isTrue nofun
  | .woken _ _ _ => .isTrue nofun

instance (s : ObjSys n) : ∀ c, Decidable (EndSafe s c)
  | (.deleteMutex m, _) => inferInstanceAs (Decidable (∀ t, s.phase t ≠ .waiting (.mutex m) false))
  | (.deleteSem m, _) => inferInstanceAs (Decidable (∀ t timed, s.phase t ≠ .waiting (.sem m) timed))
  | (.expire tm, _) => inferInstanceAs (Decidable (∀ t, (s.k.timers tm).priv = some t →
      ((s.k.timers tm).handler = some .semHandler → ∀ m, s.phase t ≠ .waiting (.sem m) false) ∧
      ((s.k.timers tm).handler = some .mutexHandler → ∀ m, s.phase t = .waiting (.mutex m) false →
        (s.k.mutexes m).owner = some t)))
  | (.lock _ _ _, _) | (.wait _ _ _, _) | (.unlock _, _) | (.post _, _) | (.ret, _) | (.dispatch _ _, _) =>
    inferInstanceAs (Decidable True)

/-- Three ready tasks, a free mutex and a semaphore of one permit; task 0 runs. -/
def sharedObjs : ObjSys 3 where
  k := (rxCreateSemaphore (Kernel.allReady 2) 0 1).2
  phase := fun _ => .out

theorem sharedObjs_init : Init sharedObjs where
  mutexes := fun _ => rfl
  sems := fun m => by
    rcases m with _ | m <;> rfl
  ready := ⟨[0, 1, 2], by decide, by decide⟩
  curr := rfl
  port := rfl
  free := by decide
  phase := fun _ => rfl

/-- Task 0 has the mutex and the permit, task 1 waits for the mutex with a
timeout and task 2 for the permit without one. Task 0 posts, and task 2 returns
`OS_OK`; task 0 deletes the mutex, and task 1 is told `E_OS_TIMEOUT`. -/
theorem returnsGranted_deletedMutex : Init sharedObjs ∧ ∃ tr, Run.Exec Step sharedObjs tr ∧ tr.length = 13 ∧
    Run.Guarded EndSafe sharedObjs tr ∧ Run.Exec (fun s c s' => Step s c s' ∧ TakesAtOnce s c s') sharedObjs tr ∧
    ∀ x ∈ Run.states sharedObjs tr, ReturnsGranted x := by
  refine ⟨sharedObjs_init, ?_⟩
  have hrun := Run.exists_exec (f := Run.attempt Admissible exec) (fun _ _ _ => Run.step_of_attempt) (s := sharedObjs)
    [(.lock 0 osNoWait 0, some .osOk), (.wait 0 osNoWait 0, some .osOk), (.dispatch 1 true, none),
      (.lock 0 5 7, none), (.dispatch 2 true, none), (.wait 0 osWaitForever 8, none), (.dispatch 0 true, none),
      (.post 0, some .osOk), (.dispatch 2 true, none), (.ret, some .osOk), (.deleteMutex 0, none),
      (.dispatch 1 true, none), (.ret, some .eOsTimeout)]
    (fun tr => decide (tr.length = 13 ∧ Run.Guarded EndSafe sharedObjs tr)) (by decide +kernel)
  obtain ⟨tr, hex, hp⟩ := hrun
  obtain ⟨hlen, hg⟩ := of_decide_eq_true hp
  exact ⟨tr, hex, hlen, hg, (returnsGranted_iff sharedObjs_init hex).mpr hg⟩

/-- Task 1 waits without a timeout for the mutex of task 0, which deletes it;
the call of task 1 returns `OS_OK`. -/
theorem deleted_lock_returns_ok : Init sharedObjs ∧ ∃ tr, Run.Exec Step sharedObjs tr ∧
    (∃ x ∈ Run.states sharedObjs tr, x.phase 1 = .woken (.mutex 0) false .deleted) ∧
    (tr.getLast?.map fun x => x.1.2) = some (some .osOk) ∧ ¬ ∀ x ∈ Run.states sharedObjs tr, ReturnsGranted x := by
  refine ⟨sharedObjs_init, ?_⟩
  have hrun := Run.exists_exec (f := Run.attempt Admissible exec) (fun _ _ _ => Run.step_of_attempt) (s := sharedObjs)
    [(.lock 0 osNoWait 0, some .osOk), (.dispatch 1 true, none), (.lock 0 osWaitForever 7, none),
      (.deleteMutex 0, none), (.dispatch 1 true, none), (.ret, some .osOk)]
    (fun tr => decide ((∃ x ∈ Run.states sharedObjs tr, x.phase 1 = .woken (.mutex 0) false .deleted) ∧
      (tr.getLast?.map fun x => x.1.2) = some (some .osOk))) (by decide +kernel)
  obtain ⟨tr, hex, hp⟩ := hrun
  obtain ⟨⟨x, hx, hpx⟩, hlast⟩ := of_decide_eq_true hp
  refine ⟨tr, hex, ⟨x, hx, hpx⟩, hlast, fun hall => ?_⟩
  cases (hall x hx 1 (.mutex 0) false .deleted hpx).1 (waitRet_untimed ..)

end ObjSys

end Rosx
