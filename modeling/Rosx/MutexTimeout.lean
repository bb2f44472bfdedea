/-
# Mutex timeouts

`__rx_mutex_handler` runs when the timer of a blocked `rx_mutex_lock` expires.
It takes the task out of the wait chain and makes it ready, and the call
returns `E_OS_TIMEOUT` (`TickSys.TimesOut`). But its first test, `mutex->owner
== task`, is to find a task that has been handed the mutex in the meantime, and
finds also the owner that has locked the mutex again and waits for itself: the
timer is gone, and the task stays suspended on the chain
(`owner_never_times_out`).

In the runs of `Rosx/MutexTickRun.lean` whose ticks in the midst of a call only
count, this is the only way to fail (`timesOut_iff`). A timed call has an active timer
until it is woken (`Backed`), which needs that a grant or a deletion stops no
timer but that of the task it wakes.

Key definitions: `TickSys.GaveUp`, `TickSys.Expires`, `TickSys.TimesOut`,
`TickSys.NoneStuck`, `TickSys.Unowned`.
-/
import Rosx.MutexTickRun

namespace Rosx

open Linked

variable {n : ℕ}

namespace TickSys

/-- The wait chain of mutex `m`. -/
def chainOf (s : TickSys n) (m : ℕ) : List (Fin n) := nodes s.k.next n (s.k.mutexes m).task

/-- The timed call of `t` has expired: `t` is on no chain and ready, and the
call returns `E_OS_TIMEOUT` once `t` runs. -/
structure GaveUp (s : TickSys n) (m : ℕ) (t : Fin n) : Prop where
  pc : s.pc t = .asleep m true
  off : ∀ j, ¬ s.OnChain j t
  ready : s.OnReady t
  runnable : (s.k.tcb t).state.runnable = true
  returns : rxMutexLockRet { s.k with curr := t } m true = .eOsTimeout

/-- From `s` to `s'` the timed call of `t` on mutex `m` expires: exactly `t`
leaves a chain, and becomes ready. -/
structure Expires (s s' : TickSys n) (m : ℕ) (t : Fin n) : Prop where
  waits : s.pc t = .asleep m true
  chained : s.OnChain m t
  chain : ∀ j, s'.chainOf j = (s.chainOf j).erase t
  state : (s'.k.tcb t).state = .ready
  others : ∀ u, u ≠ t → (s'.k.tcb u).state = (s.k.tcb u).state
  gaveUp : s'.GaveUp m t

/-- A timer that expires ends the call it belongs to, and a call that has
expired stays so until it returns `E_OS_TIMEOUT`. -/
def TimesOut (s : TickSys n) (c : TickCall n × Option OsErr) (s' : TickSys n) : Prop :=
  (∀ tm, c.1 = .expire tm → ∃ m t, (s.k.timers tm).priv = some t ∧ Expires s s' m t) ∧
    ∀ m t, s.GaveUp m t → s'.GaveUp m t ∨ c = (.ret, some .eOsTimeout) ∧ s.k.curr = t

/-- Every timed call that is suspended has an active timer, and every active
timer can expire. -/
structure NoneStuck (s : TickSys n) : Prop where
  timer : ∀ m t, s.pc t = .asleep m true → (s.k.tcb t).state = .suspend →
    ∃ tm ∈ s.k.active, (s.k.timers tm).handler = some .mutexHandler ∧ (s.k.timers tm).priv = some t
  expires : ∀ tm, s.Admissible (.expire tm) → ∃ x, s.exec (.expire tm) = .ok x

/-- An expiry does not find that its task owns the mutex it waits for. -/
def Unowned (s : TickSys n) (c : TickCall n × Option OsErr) : Prop :=
  match c.1 with
  | .expire tm => ∀ t ∈ (s.k.timers tm).priv, ∀ m ∈ (s.k.tcb t).mutex, (s.k.mutexes m).owner ≠ some t
  | _ => True

section Calls

variable {s s' : TickSys n} {lr lr' : List (Fin n)} {lw lw' : ℕ → List (Fin n)} {m : ℕ} {t : Fin n} {k' : Kernel n}

theorem Inv.chainOf_eq (h : Inv s lr lw) (m : ℕ) : s.chainOf m = lw m := by
  exact (h.lists.wait m).nodes_eq

/-! ### Every timed call has its timer -/

/-- The task needs a timer: it is in the window of a timed call, past the
start, or blocked in one. -/
def Awaits (lw : ℕ → List (Fin n)) (t : Fin n) : LockPc n → Prop
  | .out | .suspending _ | .resuming .. => False
  | .window .chained .. => False
  | .window (.waiting timed) .. => timed = true
  | .window .. => True
  | .asleep m timed => timed = true ∧ t ∈ lw m

/-- Waited mutexes have owners, the tasks that need a timer have one, and a
stored timer is active and the task's own. -/
structure Backed (s : TickSys n) (lw : ℕ → List (Fin n)) : Prop where
  held : ∀ j t, t ∈ lw j → ∃ o, (s.k.mutexes j).owner = some o
  awaits : ∀ t, Awaits lw t (s.pc t) → ∃ tm ∈ s.k.active, (s.k.timers tm).priv = some t
  points : ∀ t tm, (s.k.tcb t).timer = some tm → tm ∈ s.k.active ∧ (s.k.timers tm).priv = some t

/-- Who joins a chain, who becomes an owner, and who goes on in a step. -/
structure Moves (s : TickSys n) (c : TickCall n × Option OsErr) (s' : TickSys n) (lw lw' : ℕ → List (Fin n)) :
    Prop where
  gain : ∀ j u, u ∈ lw' j → u ∈ lw j ∨ u = s.k.curr ∧ s.pc u = .out
  owner : ∀ j u, (s'.k.mutexes j).owner = some u →
    (s.k.mutexes j).owner = some u ∨ u ∈ lw j ∨ u = s.k.curr ∧ s.pc u = .out
  pc : ∀ u j, s.pc u = .asleep j true →
    s'.pc u = s.pc u ∨ c = (.ret, some (rxMutexLockRet s.k j true)) ∧ u = s.k.curr

/-- An expired call stays so until it returns. -/
theorem GaveUp.keep (h : Inv s lr lw) (h' : Inv s' lr' lw') {c : TickCall n × Option OsErr} (hmv : Moves s c s' lw lw')
    (hg : s.GaveUp m t) : s'.GaveUp m t ∨ c = (.ret, some .eOsTimeout) ∧ s.k.curr = t := by
  have hoff : ∀ j, t ∉ lw j := fun j hj => hg.off j ((h.onChain_iff j t).mpr hj)
  have hpc : s.pc t ≠ .out := by simp [hg.pc]
  have hoff' : ∀ j, t ∉ lw' j := by
    intro j hj
    rcases hmv.gain j t hj with hj | ⟨-, ho⟩
    · exact hoff j hj
    · exact hpc ho
  have hown : (s.k.mutexes m).owner ≠ some t := by
    intro ho
    have hr := hg.returns
    simp [rxMutexLockRet, ho] at hr
  rcases hmv.pc t m hg.pc with hpc' | ⟨hc, hcurr⟩
  · left
    rw [hg.pc] at hpc'
    have hat := h'.tasks t
    rw [hpc'] at hat
    obtain ⟨hr, -⟩ := hat.resolve_left fun hw => hoff' m hw.1
    refine ⟨hpc', fun j hj => hoff' j ((h'.onChain_iff j t).mp hj), (h'.onReady_iff t).mpr hr, h'.runnable hr, ?_⟩
    have hown' : (s'.k.mutexes m).owner ≠ some t := by
      intro ho
      rcases hmv.owner m t ho with ho | hw | ⟨-, ho⟩
      · exact hown ho
      · exact hoff m hw
      · exact hpc ho
    simp [rxMutexLockRet, hown']
  · right
    refine ⟨hc.trans ?_, hcurr.symm⟩
    rw [hcurr] at hown
    simp [rxMutexLockRet, hown]

/-- With every call backed, nobody is stuck. -/
theorem Backed.noneStuck (hb : Backed s lw) (h : Inv s lr lw) : s.NoneStuck := by
  refine ⟨fun m t hp hs => ?_, fun tm ha => ?_⟩
  · have hat := h.tasks t
    rw [hp] at hat
    have ht : t ∈ lw m := by
      rcases hat with ⟨ht, -⟩ | ⟨hr, -⟩
      · exact ht
      · have hrun := h.runnable hr
        rw [hs] at hrun
        cases hrun
    have haw : Awaits lw t (s.pc t) := by
      rw [hp]
      exact ⟨rfl, ht⟩
    obtain ⟨tm, htm, hpr⟩ := hb.awaits t haw
    exact ⟨tm, htm, (h.armed tm htm).2.1, hpr⟩
  · obtain ⟨⟨hpc, -⟩, htm⟩ := ha
    obtain ⟨t, m, hhd, hpr, -, ht, -⟩ := h.waits_of_active hpc htm
    obtain ⟨o, ho⟩ := hb.held m t ht
    by_cases hot : o = t
    · have hrun := h.expire_owner hhd hpr ht (hot ▸ ho)
      exact ⟨_, map_eq_ok.mpr ⟨_, hrun, rfl⟩⟩
    · obtain ⟨p, k', lr', hrun, -⟩ := h.expire_other hpc hhd hpr ht ho hot
      exact ⟨_, map_eq_ok.mpr ⟨k', hrun, rfl⟩⟩

/-! ### Steps that wake nobody -/

/-- Where the timers stay and no task needs a new one. -/
theorem Backed.quiet (hb : Backed s lw) (hact : s'.k.active = s.k.active) (htim : s'.k.timers = s.k.timers)
    (htcb : ∀ u, (s'.k.tcb u).timer = (s.k.tcb u).timer) (haw : ∀ u, Awaits lw' u (s'.pc u) → Awaits lw u (s.pc u))
    (hheld : ∀ j u, u ∈ lw' j → ∃ o, (s'.k.mutexes j).owner = some o) : Backed s' lw' := by
  refine ⟨hheld, fun u hu => ?_, fun u tm htm => ?_⟩
  · rw [hact, htim]
    exact hb.awaits u (haw u hu)
  · rw [hact, htim]
    rw [htcb] at htm
    exact hb.points u tm htm

/-- The running task goes on, and needs no timer that it did not need. -/
theorem Backed.goto (hb : Backed s lw) (hi : Idle s.k k') {p : LockPc n} {l : List SchedStage}
    (hp : Awaits lw s.k.curr p → Awaits lw s.k.curr (s.pc s.k.curr)) : Backed (s.goto p l k') lw := by
  refine hb.quiet hi.active hi.timers hi.timer (fun u hu => ?_) fun j u hu => ?_
  · change Awaits lw u (Function.update s.pc s.k.curr p u) at hu
    by_cases huc : u = s.k.curr
    · rw [huc, Function.update_self] at hu
      rw [huc]
      exact hp hu
    · rw [Function.update_of_ne huc] at hu
      exact hu
  · show ∃ o, (k'.mutexes j).owner = some o
    rw [hi.mutexes]
    exact hb.held j u hu

section Frame

variable {c : TickCall n × Option OsErr}

theorem Moves.idle (hm : k'.mutexes = s.k.mutexes) : Moves s c { s with k := k' } lw lw := by
  refine ⟨fun j u hu => Or.inl hu, fun j u hu => Or.inl ?_, fun u j _ => Or.inl rfl⟩
  rw [← hm]
  exact hu

theorem Moves.goto (hm : k'.mutexes = s.k.mutexes) {p : LockPc n} {l : List SchedStage}
    (hc : ∀ j, s.pc s.k.curr = .asleep j true →
      p = .asleep j true ∨ c = (.ret, some (rxMutexLockRet s.k j true))) : Moves s c (s.goto p l k') lw lw := by
  refine ⟨fun j u hu => Or.inl hu, fun j u hu => Or.inl ?_, fun u j hu => ?_⟩
  · rw [← hm]
    exact hu
  · by_cases huc : u = s.k.curr
    · subst huc
      rcases hc j hu with hp | hc
      · rw [hu, ← hp]
        exact Or.inl (Function.update_self _ _ _)
      · exact Or.inr ⟨hc, rfl⟩
    · exact Or.inl (Function.update_of_ne huc _ _)

/-- The running task takes a free mutex. -/
theorem Backed.lock_free (hb : Backed s lw) (hpc : s.pc s.k.curr = .out)
    (hm : k'.mutexes = Function.update s.k.mutexes m { s.k.mutexes m with lock := .locked, owner := some s.k.curr })
    (hact : k'.active = s.k.active) (htim : k'.timers = s.k.timers) (htcb : k'.tcb = s.k.tcb) :
    Backed { s with k := k' } lw ∧ Moves s c { s with k := k' } lw lw := by
  have hown : ∀ j, (k'.mutexes j).owner = if j = m then some s.k.curr else (s.k.mutexes j).owner := by
    intro j
    rw [hm]
    by_cases hj : j = m
    · subst hj
      rw [Function.update_self, if_pos rfl]
    · rw [Function.update_of_ne hj, if_neg hj]
  refine ⟨hb.quiet hact htim (fun u => by rw [htcb]) (fun _ hu => hu) fun j u hu => ?_, fun j u hu => Or.inl hu,
    fun j u hu => ?_, fun _ _ _ => Or.inl rfl⟩
  · rw [hown]
    split_ifs with hj
    · exact ⟨_, rfl⟩
    · exact hb.held j u hu
  · rw [hown] at hu
    split_ifs at hu with hj
    · obtain rfl := Option.some.inj hu
      exact Or.inr (Or.inr ⟨rfl, hpc⟩)
    · exact Or.inl hu

/-- The running task joins the chain of a mutex that `o` owns. -/
theorem Backed.lock_blocks (hb : Backed s lw) (h : Inv s lr lw) (hpc : s.pc s.k.curr = .out) {o : Fin n}
    (ho : (s.k.mutexes m).owner = some o) {timeout : ℤ} {tm : ℕ}
    (hown : ∀ j, (k'.mutexes j).owner = (s.k.mutexes j).owner) (hact : k'.active = s.k.active)
    (htim : k'.timers = s.k.timers) (htcb : ∀ u, (k'.tcb u).timer = (s.k.tcb u).timer) :
    Backed (s.goto (.window .chained m timeout tm) [] k') (Function.update lw m (lw m ++ [s.k.curr])) ∧
      Moves s c (s.goto (.window .chained m timeout tm) [] k') lw (Function.update lw m (lw m ++ [s.k.curr])) := by
  refine ⟨hb.quiet hact htim htcb (fun u hu => ?_) fun j u hu => ?_, fun j u hu => ?_, fun j u hu => ?_,
    fun u j hu => ?_⟩
  · change Awaits _ u (Function.update s.pc s.k.curr _ u) at hu
    by_cases huc : u = s.k.curr
    · rw [huc, Function.update_self] at hu
      exact hu.elim
    · rw [Function.update_of_ne huc] at hu
      rcases h.out_or_asleep hpc u with hp | ⟨j, timed, hp⟩
      · rw [hp] at hu
        exact hu.elim
      · rw [hp] at hu ⊢
        exact ⟨hu.1, (mem_update_concat.mp hu.2).resolve_right fun hc => huc hc.1⟩
  · show ∃ o, (k'.mutexes j).owner = some o
    rw [hown]
    rcases mem_update_concat.mp hu with hu | ⟨-, rfl⟩
    · exact hb.held j u hu
    · exact ⟨o, ho⟩
  · rcases mem_update_concat.mp hu with hu | ⟨rfl, -⟩
    · exact Or.inl hu
    · exact Or.inr ⟨rfl, hpc⟩
  · rw [← hown]
    exact Or.inl hu
  · have huc : u ≠ s.k.curr := by
      rintro rfl
      rw [hpc] at hu
      cases hu
    exact Or.inl (Function.update_of_ne huc _ _)

/-- The locked part of `rx_mutex_lock`. -/
theorem Backed.lock (hb : Backed s lw) (h : Inv s lr lw) {timeout : ℤ} {tm : ℕ} {r : Option OsErr}
    (ha : s.Admissible (.lock m timeout tm)) (hk : s.exec (.lock m timeout tm) = .ok (r, s')) :
    ∃ lr' lw', Inv s' lr' lw' ∧ Backed s' lw' ∧ Moves s (.lock m timeout tm, r) s' lw lw' := by
  obtain ⟨⟨hpc, -⟩, h1, htm⟩ := ha
  obtain ⟨⟨r', k'⟩, hrun, hk⟩ := bind_eq_ok.mp hk
  rcases rxMutexLockChain_cases (i := m) h.lists rfl (h.curr (by rw [hpc]; rfl)) hrun with
    ⟨hl, rfl, rfl⟩ | ⟨-, rfl, rfl⟩ | ⟨hl, h0, rfl, o, ho⟩
  · obtain ⟨rfl, rfl⟩ := Prod.mk.inj (Except.ok.inj hk)
    exact ⟨lr, lw, h.lock_free hpc hl, hb.lock_free hpc rfl rfl rfl rfl⟩
  · obtain ⟨rfl, rfl⟩ := Prod.mk.inj (Except.ok.inj hk)
    rw [enter_exit h.port]
    exact ⟨lr, lw, h, hb, Moves.idle rfl⟩
  · obtain ⟨rfl, rfl⟩ := Prod.mk.inj (Except.ok.inj hk)
    obtain ⟨⟨lr', hi⟩, hown, hact, htim, htcb⟩ := h.lock_blocks hpc hl ho h0 h1 htm hrun
    exact ⟨lr', _, hi, hb.lock_blocks h hpc ho hown hact htim htcb⟩

/-- A timed call starts its timer. -/
theorem Backed.start (hb : Backed s lw) (h : Inv s lr lw) {timeout : ℤ} {tm : ℕ}
    (hpc : s.pc s.k.curr = .window .chained m timeout tm) (h0 : timeout > 0) :
    Backed (s.goto (.window .started m timeout tm) [] (lockStart s.k (BitVec.ofInt 32 timeout) tm)) lw := by
  obtain ⟨-, -, -, -, hch⟩ := h.at_window hpc
  obtain ⟨htm, h1⟩ := hch rfl
  have hne := ticks_ne_zero h0 h1
  set k1 := lockStart s.k (BitVec.ofInt 32 timeout) tm with hk1
  have htcb : k1.tcb = s.k.tcb := by simp [hk1, lockStart]
  have hmtx : k1.mutexes = s.k.mutexes := by simp [hk1, lockStart]
  have hperm : k1.active.Perm (tm :: s.k.active) := start_init_perm _ _ hne
  obtain ⟨x, hx⟩ : ∃ x, k1.timers = Function.update s.k.timers tm
      { Timer.init .mutexHandler s.k.curr s.k.curr (BitVec.ofInt 32 timeout) with timeExpiry := x, enabled := true } :=
    start_init_timers _ _ hne
  -- the timers that were active are others, and stay
  have hold : ∀ tm' ∈ s.k.active, tm' ∈ k1.active ∧ k1.timers tm' = s.k.timers tm' := by
    intro tm' htm'
    have he : tm' ≠ tm := fun he => htm (he ▸ htm')
    exact ⟨hperm.mem_iff.mpr (List.mem_cons_of_mem tm htm'), by rw [hx, Function.update_of_ne he]⟩
  refine ⟨fun j u hu => ?_, fun u hu => ?_, fun u tm' hu => ?_⟩
  · show ∃ o, (k1.mutexes j).owner = some o
    rw [hmtx]
    exact hb.held j u hu
  · show ∃ tm ∈ k1.active, (k1.timers tm).priv = some u
    change Awaits lw u (Function.update s.pc s.k.curr _ u) at hu
    by_cases huc : u = s.k.curr
    · subst huc
      exact ⟨tm, hperm.mem_iff.mpr List.mem_cons_self, by rw [hx, Function.update_self]; rfl⟩
    · rw [Function.update_of_ne huc] at hu
      obtain ⟨tm', htm', hpr⟩ := hb.awaits u hu
      exact ⟨tm', (hold tm' htm').1, by rw [(hold tm' htm').2]; exact hpr⟩
  · show tm' ∈ k1.active ∧ (k1.timers tm').priv = some u
    change (k1.tcb u).timer = some tm' at hu
    rw [htcb] at hu
    obtain ⟨htm', hpr⟩ := hb.points u tm' hu
    exact ⟨(hold tm' htm').1, by rw [(hold tm' htm').2]; exact hpr⟩

/-- The task stores the address of its timer. -/
theorem Backed.point (hb : Backed s lw) (h : Inv s lr lw) {timeout : ℤ} {tm : ℕ}
    (hpc : s.pc s.k.curr = .window .started m timeout tm) :
    Backed (s.goto (.window .pointed m timeout tm) [] (lockPoint s.k tm)) lw := by
  have hcurr : tm ∈ s.k.active ∧ (s.k.timers tm).priv = some s.k.curr := by
    obtain ⟨tm', htm', hpr⟩ := hb.awaits s.k.curr (by rw [hpc]; trivial)
    obtain ⟨-, -, u, hpu, hown⟩ := h.armed tm' htm'
    obtain rfl := Option.some.inj (hpr.symm.trans hpu)
    rw [hpc] at hown
    obtain rfl : tm = tm' := hown
    exact ⟨htm', hpr⟩
  refine ⟨hb.held, fun u hu => ?_, fun u tm' hu => ?_⟩
  · change Awaits lw u (Function.update s.pc s.k.curr _ u) at hu
    by_cases huc : u = s.k.curr
    · exact ⟨tm, hcurr.1, huc ▸ hcurr.2⟩
    · rw [Function.update_of_ne huc] at hu
      exact hb.awaits u hu
  · change ((lockPoint s.k tm).tcb u).timer = some tm' at hu
    by_cases huc : u = s.k.curr
    · subst huc
      rw [lockPoint, Kernel.modTcb_self] at hu
      obtain rfl : tm = tm' := Option.some.inj hu
      exact hcurr
    · rw [lockPoint, Kernel.modTcb_of_ne _ huc] at hu
      exact hb.points u tm' hu

theorem awaits_of_returned {p : LockPc n} (h : Awaits lw t p.returned) : Awaits lw t p := by
  cases p with
  | out => exact h
  | asleep m timed => exact h
  | resuming u marked => exact h
  | suspending marked =>
    cases marked with
    | false => exact h
    | true => exact h
  | window st m timeout tm =>
    cases st with
    | waiting timed => exact h.1
    | chained => exact h
    | started => exact h
    | pointed => exact h
    | unqueued => exact h

/-- The next step of an `rx_sched`. -/
theorem Backed.schedStep (hb : Backed s lw) (h : Inv s lr lw) {st : SchedStage} {l : List SchedStage}
    (hs : s.scheds s.k.curr = st :: l) (hk : s.schedStep l st = .ok s') :
    Backed s' lw ∧ Moves s c s' lw lw := by
  have hidle := (h.schedStep hs hk).2
  have hkeep : ∀ (l' : List SchedStage) (k' : Kernel n), Idle s.k k' →
      Backed (s.goto (s.pc s.k.curr) l' k') lw ∧ Moves s c (s.goto (s.pc s.k.curr) l' k') lw lw :=
    fun l' k' hi => ⟨hb.goto hi id, Moves.goto hi.mutexes fun j hj => Or.inl hj⟩
  have hret : ∀ k', Idle s.k k' → Backed (s.schedReturn l k') lw ∧ Moves s c (s.schedReturn l k') lw lw := by
    intro k' hi
    unfold TickSys.schedReturn
    split_ifs with hl
    · refine ⟨hb.goto hi awaits_of_returned, Moves.goto hi.mutexes fun j hj => Or.inl ?_⟩
      rw [hj]
      rfl
    · exact hkeep l k' hi
  cases st with
  | called =>
    unfold TickSys.schedStep at hk
    split_ifs at hk with hne
    · obtain rfl := Except.ok.inj hk
      exact hkeep _ _ hidle
    · obtain rfl := Except.ok.inj hk
      exact hret _ hidle
  | tested =>
    obtain rfl := Except.ok.inj hk
    exact hkeep _ _ hidle
  | cleared =>
    obtain ⟨k', hsw, rfl⟩ := map_eq_ok.mp hk
    exact hret k' hidle

/-- The next step of a call, outside `rx_sched`. -/
theorem Backed.callStep (hb : Backed s lw) (h : Inv s lr lw) (hmid : (s.pc s.k.curr).midCall = true)
    (hk : s.callStep = .ok s') : Backed s' lw ∧ Moves s c s' lw lw := by
  have hret : ∀ {p : LockPc n}, ∀ j, s.pc s.k.curr = .asleep j true →
      p = .asleep j true ∨ c = (.ret, some (rxMutexLockRet s.k j true)) := by
    intro p j hj
    rw [hj] at hmid
    cases hmid
  unfold TickSys.callStep at hk
  cases hpc : s.pc s.k.curr with
  | out =>
    rw [hpc] at hmid
    cases hmid
  | asleep m timed =>
    rw [hpc] at hmid
    cases hmid
  | window st m timeout tm =>
    rw [hpc] at hk
    cases st with
    | chained =>
      dsimp only at hk
      split_ifs at hk with h0
      · obtain rfl := Except.ok.inj hk
        exact ⟨hb.start h hpc h0, Moves.goto (by simp [lockStart]) hret⟩
      · obtain rfl := Except.ok.inj hk
        exact ⟨hb.goto (Idle.refl _) fun hu => (Bool.false_ne_true hu).elim, Moves.goto rfl hret⟩
    | started =>
      obtain rfl := Except.ok.inj hk
      have hm : (lockPoint s.k tm).mutexes = s.k.mutexes := rfl
      exact ⟨hb.point h hpc, Moves.goto hm hret⟩
    | pointed =>
      obtain ⟨k', hrem, rfl⟩ := map_eq_ok.mp hk
      have hi := Idle.of_relinked (rxRemoveFromReadyQ_relinked hrem)
      exact ⟨hb.goto hi fun _ => by rw [hpc]; trivial, Moves.goto hi.mutexes hret⟩
    | unqueued =>
      obtain rfl := Except.ok.inj hk
      have hi := Idle.setState s.k s.k.curr .suspend
      exact ⟨hb.goto hi fun _ => by rw [hpc]; trivial, Moves.goto hi.mutexes hret⟩
    | waiting timed =>
      obtain rfl := Except.ok.inj hk
      exact ⟨hb, Moves.idle rfl⟩
  | suspending marked =>
    rw [hpc] at hk
    cases marked with
    | false =>
      obtain rfl := Except.ok.inj hk
      have hi := Idle.setState s.k s.k.curr .suspend
      exact ⟨hb.goto hi fun hu => hu.elim, Moves.goto hi.mutexes hret⟩
    | true =>
      obtain rfl := Except.ok.inj hk
      exact ⟨hb, Moves.idle rfl⟩
  | resuming t marked =>
    rw [hpc] at hk
    cases marked with
    | false =>
      obtain rfl := Except.ok.inj hk
      have hi := Idle.setState s.k t .ready
      exact ⟨hb.goto hi fun hu => hu.elim, Moves.goto hi.mutexes hret⟩
    | true =>
      obtain ⟨⟨r, k'⟩, hadd, rfl⟩ := map_eq_ok.mp hk
      obtain ⟨-, -, hi⟩ := h.requeued hpc hadd
      exact ⟨hb.goto hi fun hu => hu.elim, Moves.goto hi.mutexes hret⟩

/-- The next step of the running task. -/
theorem Backed.advance (hb : Backed s lw) (h : Inv s lr lw) (ha : s.Admissible .advance) (hk : s.advance = .ok s') :
    Backed s' lw ∧ Moves s c s' lw lw := by
  unfold TickSys.advance at hk
  cases hs : s.scheds s.k.curr with
  | nil =>
    rw [hs] at hk
    exact hb.callStep h (ha.resolve_right fun hne => hne hs) hk
  | cons st l =>
    rw [hs] at hk
    exact hb.schedStep h hs hk

/-! ### Steps that wake tasks -/

/-- From `s` to `s'` the tasks `l` leave the chains, and their timers are
stopped. -/
structure Served (s s' : TickSys n) (lw lw' : ℕ → List (Fin n)) (l : List (Fin n)) : Prop where
  wakes : Wakes s.k s'.k l
  stops : Stops s.k s'.k l
  pc : s'.pc = s.pc
  stay : ∀ j u, u ∈ lw' j → u ∈ lw j ∧ u ∉ l
  owner : ∀ j u, (s'.k.mutexes j).owner = some u → (s.k.mutexes j).owner = some u ∨ u ∈ lw j
  held : ∀ j u o, u ∈ lw' j → (s.k.mutexes j).owner = some o → ∃ o', (s'.k.mutexes j).owner = some o'

/-- The timer of a task that is not woken stays. -/
theorem Backed.timer_stays (hb : Backed s lw) {l : List (Fin n)} (hs : Served s s' lw lw' l) {tm : ℕ}
    (htm : tm ∈ s.k.active) (hpr : (s.k.timers tm).priv = some t) (ht : t ∉ l) :
    tm ∈ s'.k.active ∧ (s'.k.timers tm).priv = some t := by
  have hne : ∀ u ∈ l, (s.k.tcb u).timer ≠ some tm := by
    intro u hu hut
    have hpu := (hb.points u tm hut).2
    obtain rfl := Option.some.inj (hpr.symm.trans hpu)
    exact ht hu
  have hact := hs.stops.active tm htm hne
  exact ⟨hact, by rw [(hs.wakes.timers tm hact).2.1]; exact hpr⟩

theorem Backed.served (hb : Backed s lw) (h : Inv s lr lw) (hpc : s.pc s.k.curr = .out) {l : List (Fin n)}
    (hs : Served s s' lw lw' l) : Backed s' lw' := by
  refine ⟨fun j u hu => ?_, fun u hu => ?_, fun u tm hu => ?_⟩
  · obtain ⟨o, ho⟩ := hb.held j u (hs.stay j u hu).1
    exact hs.held j u o hu ho
  · rw [hs.pc] at hu
    have hmem : Awaits lw u (s.pc u) ∧ u ∉ l := by
      rcases h.out_or_asleep hpc u with hp | ⟨j, timed, hp⟩
      · rw [hp] at hu
        exact hu.elim
      · rw [hp] at hu ⊢
        exact ⟨⟨hu.1, (hs.stay j u hu.2).1⟩, (hs.stay j u hu.2).2⟩
    obtain ⟨tm, htm, hpr⟩ := hb.awaits u hmem.1
    exact ⟨tm, hb.timer_stays hs htm hpr hmem.2⟩
  · have hul : u ∉ l := by
      intro hul
      rw [hs.stops.cleared u hul] at hu
      cases hu
    rw [hs.wakes.timer u hul] at hu
    obtain ⟨htm, hpr⟩ := hb.points u tm hu
    exact hb.timer_stays hs htm hpr hul

theorem Moves.served {l : List (Fin n)} (hs : Served s s' lw lw' l) : Moves s c s' lw lw' := by
  refine ⟨fun j u hu => Or.inl (hs.stay j u hu).1, fun j u hu => ?_, fun u j _ => Or.inl (by rw [hs.pc])⟩
  rcases hs.owner j u hu with hu | hu
  · exact Or.inl hu
  · exact Or.inr (Or.inl hu)

/-- The waiters that stay when `l` leave the chain of `m`, which is now `r`. -/
theorem stay_of_update (h : Inv s lr lw) {l r : List (Fin n)} (hr : ∀ u ∈ r, u ∈ lw m ∧ u ∉ l)
    (hl : ∀ u ∈ l, u ∈ lw m) (j : ℕ) (u : Fin n) (hu : u ∈ Function.update lw m r j) : u ∈ lw j ∧ u ∉ l := by
  by_cases hj : j = m
  · subst hj
    rw [Function.update_self] at hu
    exact hr u hu
  · rw [Function.update_of_ne hj] at hu
    exact ⟨hu, fun hul => hj (h.lists.apart j m u hu (hl u hul))⟩

/-- An unlock takes the first waiter off its chain, or nobody. -/
theorem Backed.unlock (hb : Backed s lw) (h : Inv s lr lw) (hpc : s.pc s.k.curr = .out) {r : OsErr}
    (hk : rxMutexUnlock s.k m = .ok (r, k')) :
    ∃ lr' lw', Inv { s with k := k' } lr' lw' ∧ Backed { s with k := k' } lw' ∧
      Moves s c { s with k := k' } lw lw' := by
  rcases h.unlock_cases hpc hk with rfl | ⟨ho, hport, lr', ⟨hls, hnil, hlr⟩ | ⟨t, l, hls, hm, hlr⟩⟩
  · exact ⟨lr, lw, h, hb, Moves.idle rfl⟩
  · have hmtx : k'.mutexes = Function.update s.k.mutexes m { s.k.mutexes m with lock := .unlocked } := hls.data.mutexes
    have hown : ∀ j, (k'.mutexes j).owner = (s.k.mutexes j).owner := owner_of_update hmtx rfl
    have hs : Served s { s with k := k' } lw lw [] := by
      refine ⟨wakes_of_released h hls.data, ⟨fun tm htm _ => ?_, by simp⟩, rfl, fun j u hu => ⟨hu, by simp⟩,
        fun j u hu => Or.inl ((hown j).symm.trans hu), fun j u o _ hj => ⟨o, (hown j).trans hj⟩⟩
      have hact : k'.active = s.k.active := hls.data.active
      exact hact.symm ▸ htm
    exact ⟨lr', lw, h.release hpc ho hls hport hlr, hb.served h hpc hs, Moves.served hs⟩
  · have hnd : (t :: l).Nodup := hm ▸ (h.lists.wait m).nodup
    have hmtx := mutexes_of_granted hls.data
    have hs : Served s { s with k := k' } lw (Function.update lw m l) [t] := by
      refine ⟨wakes_of_granted h hls.data, stops_of_granted hls.data, rfl,
        stay_of_update h (fun u hu => ?_) fun u hu => ?_, fun j u hu => ?_, fun j u o _ hj => ?_⟩
      · obtain ⟨htl, -⟩ := List.nodup_cons.mp hnd
        rw [hm, List.mem_singleton]
        exact ⟨List.mem_cons_of_mem t hu, fun hut => htl (hut ▸ hu)⟩
      · rw [List.mem_singleton.mp hu, hm]
        exact List.mem_cons_self
      · change (k'.mutexes j).owner = some u at hu
        rw [hmtx] at hu
        by_cases hj : j = m
        · subst hj
          rw [Function.update_self] at hu
          rw [← Option.some.inj hu, hm]
          exact Or.inr List.mem_cons_self
        · rw [Function.update_of_ne hj] at hu
          exact Or.inl hu
      · show ∃ o', (k'.mutexes j).owner = some o'
        rw [hmtx]
        by_cases hjm : j = m
        · subst hjm
          rw [Function.update_self]
          exact ⟨t, rfl⟩
        · rw [Function.update_of_ne hjm]
          exact ⟨o, hj⟩
    exact ⟨lr', _, h.grant hpc ho hm hls hport hlr, hb.served h hpc hs, Moves.served hs⟩

/-- A deletion takes all waiters of `m` off its chain. -/
theorem Backed.delete (hb : Backed s lw) (h : Inv s lr lw) (hpc : s.pc s.k.curr = .out)
    (hk : rxDeleteMutex s.k m = .ok k') :
    ∃ lr' lw', Inv (s.drop m k') lr' lw' ∧ Backed (s.drop m k') lw' ∧ Moves s c (s.drop m k') lw lw' := by
  obtain ⟨lr', hi, hwakes, hstops, hnone, hrest⟩ := h.delete hpc hk
  have hs : Served s (s.drop m k') lw (Function.update lw m []) (lw m) := by
    refine ⟨hwakes, hstops, rfl, stay_of_update h (by simp) fun u hu => hu, fun j u hu => ?_, fun j u o hu hj => ?_⟩
    · change (k'.mutexes j).owner = some u at hu
      by_cases hj : j = m
      · rw [hj, hnone] at hu
        cases hu
      · rw [hrest j hj] at hu
        exact Or.inl hu
    · by_cases hjm : j = m
      · rw [hjm, Function.update_self] at hu
        cases hu
      · exact ⟨o, (congrArg Mutex.owner (hrest j hjm)).trans hj⟩
  exact ⟨lr', _, hi, hb.served h hpc hs, Moves.served hs⟩

/-- An expiry takes the task off its chain, where another task owns the mutex. -/
theorem Backed.expire (hb : Backed s lw) (h : Inv s lr lw) {tm : ℕ} (hpc : s.pc s.k.curr = .out) (htm : tm ∈ s.k.active)
    (hu : Unowned s (.expire tm, none)) (hk : expireMutexTimer s.k tm = .ok k') :
    ∃ lr' lw', Inv { s with k := k' } lr' lw' ∧ Backed { s with k := k' } lw' ∧ Moves s c { s with k := k' } lw lw' ∧
      ∃ m t, (s.k.timers tm).priv = some t ∧ Expires s { s with k := k' } m t := by
  obtain ⟨t, m, hhd, hpr, hp, ht, htt⟩ := h.waits_of_active hpc htm
  obtain ⟨o, ho⟩ := hb.held m t ht
  have hot : o ≠ t := by
    rintro rfl
    exact hu o hpr m (h.waits_of_mem ht).2.1 ho
  obtain ⟨p, k1, lr', hrun, hport, hlr, hls⟩ := h.expire_other hpc hhd hpr ht ho hot
  obtain rfl := Except.ok.inj (hrun.symm.trans hk)
  have hi := h.timeout hpc hp ht htt hlr hls hport
  have hnd := (h.lists.wait m).nodup
  have hown : ∀ j, (k1.mutexes j).owner = (s.k.mutexes j).owner := owner_of_update (mutexes_of_timedOut hls.data) rfl
  have hw := wakes_of_timedOut h htt hls.data
  have hstay : ∀ j u, u ∈ Function.update lw m ((lw m).erase t) j → u ∈ lw j ∧ u ∉ [t] := by
    refine stay_of_update h (fun u hu => ?_) fun u hu => ?_
    · obtain ⟨hut, hu⟩ := hnd.mem_erase_iff.mp hu
      exact ⟨hu, by simpa using hut⟩
    · rw [List.mem_singleton.mp hu]
      exact ht
  have hs : Served s { s with k := k1 } lw (Function.update lw m ((lw m).erase t)) [t] :=
    ⟨hw, stops_of_timedOut htt hls.data, rfl, hstay, fun j u hu => Or.inl ((hown j).symm.trans hu),
      fun j u o _ hj => ⟨o, (hown j).trans hj⟩⟩
  refine ⟨lr', _, hi, hb.served h hpc hs, Moves.served hs, m, t, hpr, hp, (h.onChain_iff m t).mpr ht, fun j => ?_, ?_,
    fun u hu => ?_, ?_⟩
  · rw [hi.chainOf_eq, h.chainOf_eq]
    by_cases hj : j = m
    · subst hj
      rw [Function.update_self]
    · rw [Function.update_of_ne hj, List.erase_of_not_mem fun hj' => hj (h.lists.apart j m t hj' ht)]
  · exact (hw.state t).trans (if_pos List.mem_cons_self)
  · exact (hw.state u).trans (if_neg (by simpa using hu))
  · have hr : t ∈ lr' := (hlr t).mpr (Or.inl rfl)
    refine ⟨hp, fun j hj => ?_, (hi.onReady_iff t).mpr hr, hi.runnable hr, ?_⟩
    · exact (hstay j t ((hi.onChain_iff j t).mp hj)).2 List.mem_cons_self
    · have howner : (k1.mutexes m).owner = some o := (hown m).trans ho
      simp [rxMutexLockRet, howner, hot]

/-- Every step keeps the invariants, and an expiry is as it should be. -/
theorem Backed.step (hb : Backed s lw) (h : Inv s lr lw) (hg : TickSafe s c) (hu : Unowned s c) (hst : Step s c s') :
    ∃ lr' lw', Inv s' lr' lw' ∧ Backed s' lw' ∧ Moves s c s' lw lw' ∧
      ∀ tm, c.1 = .expire tm → ∃ m t, (s.k.timers tm).priv = some t ∧ Expires s s' m t := by
  obtain ⟨c, r⟩ := c
  obtain ⟨ha, he⟩ := hst
  cases c with
  | lock m timeout tm =>
    obtain ⟨lr', lw', hi, hb', hmv⟩ := hb.lock h ha he
    exact ⟨lr', lw', hi, hb', hmv, fun _ hc => by cases hc⟩
  | advance =>
    obtain ⟨s1, hrun, hs⟩ := map_eq_ok.mp he
    obtain ⟨-, rfl⟩ := Prod.mk.inj hs
    obtain ⟨lr', hi⟩ := h.advance ha hrun
    obtain ⟨hb', hmv⟩ := hb.advance h ha hrun
    exact ⟨lr', lw, hi, hb', hmv, fun _ hc => by cases hc⟩
  | unlock m =>
    obtain ⟨⟨r', k'⟩, hrun, hk⟩ := bind_eq_ok.mp he
    obtain ⟨-, rfl⟩ := Prod.mk.inj (Except.ok.inj hk)
    obtain ⟨lr', lw', hi, hb', hmv⟩ := hb.unlock h ha.1 hrun
    exact ⟨lr', lw', hi, hb', hmv, fun _ hc => by cases hc⟩
  | delete m =>
    obtain ⟨k', hrun, hs⟩ := map_eq_ok.mp he
    obtain ⟨-, rfl⟩ := Prod.mk.inj hs
    obtain ⟨lr', lw', hi, hb', hmv⟩ := hb.delete h ha.1 hrun
    exact ⟨lr', lw', hi, hb', hmv, fun _ hc => by cases hc⟩
  | expire tm =>
    obtain ⟨k', hrun, hs⟩ := map_eq_ok.mp he
    obtain ⟨-, rfl⟩ := Prod.mk.inj hs
    obtain ⟨lr', lw', hi, hb', hmv, hex⟩ := hb.expire h ha.1.1 ha.2 hu hrun
    refine ⟨lr', lw', hi, hb', hmv, fun tm' hc => ?_⟩
    cases hc
    exact hex
  | ret =>
    obtain ⟨m, timed, hpc, rfl, rfl⟩ := ret_cases ha he
    refine ⟨lr, lw, (h.ret hpc).1, hb.goto (Idle.refl s.k) fun hu => hu.elim, Moves.goto rfl fun j hj => Or.inr ?_,
      fun _ hc => by cases hc⟩
    rw [hpc] at hj
    cases hj
    rfl
  | sched =>
    obtain ⟨-, rfl⟩ := Prod.mk.inj (Except.ok.inj he)
    refine ⟨lr, lw, h.sched ha.1, hb.goto (Idle.refl s.k) fun hu => hu.elim, Moves.goto rfl fun j hj => ?_,
      fun _ hc => by cases hc⟩
    rw [ha.1] at hj
    cases hj
  | suspend =>
    obtain ⟨k', hrun, hs⟩ := map_eq_ok.mp he
    obtain ⟨-, rfl⟩ := Prod.mk.inj hs
    obtain ⟨lr', hi, hid⟩ := h.suspend ha.1 hrun
    refine ⟨lr', lw, hi, hb.goto hid fun hu => hu.elim, Moves.goto hid.mutexes fun j hj => ?_, fun _ hc => by cases hc⟩
    rw [ha.1] at hj
    cases hj
  | resume t =>
    rcases resume_cases he with rfl | ⟨hst, rfl⟩
    · exact ⟨lr, lw, h, hb, Moves.idle rfl, fun _ hc => by cases hc⟩
    · refine ⟨lr, lw, h.resume ha.1.1 ha.2 hst, hb.goto (Idle.refl s.k) fun hu => hu.elim,
        Moves.goto rfl fun j hj => ?_, fun _ hc => by cases hc⟩
      rw [ha.1.1] at hj
      cases hj
  | tick wakes =>
    obtain ⟨k', hrun, hs⟩ := map_eq_ok.mp he
    obtain ⟨-, rfl⟩ := Prod.mk.inj hs
    obtain ⟨lr', hi, hid⟩ := h.tick_safe ha.2 hg hrun
    exact ⟨lr', lw, hi, hb.goto hid id, Moves.goto hid.mutexes fun j hj => Or.inl hj, fun _ hc => by cases hc⟩

/-- Such a step times out as it should. -/
theorem Backed.timesOut (hb : Backed s lw) (h : Inv s lr lw) (hg : TickSafe s c) (hu : Unowned s c)
    (hst : Step s c s') : (∃ lr' lw', Inv s' lr' lw' ∧ Backed s' lw') ∧ TimesOut s c s' := by
  obtain ⟨lr', lw', hi, hb', hmv, hex⟩ := hb.step h hg hu hst
  exact ⟨⟨lr', lw', hi, hb'⟩, hex, fun m t ht => ht.keep h hi hmv⟩

/-- A step that times out as it should meets the condition. -/
theorem unowned_of_timesOut (h : Inv s lr lw) (hst : Step s c s') (ht : TimesOut s c s') : Unowned s c := by
  obtain ⟨c, r⟩ := c
  obtain ⟨ha, he⟩ := hst
  cases c with
  | expire tm =>
    intro u hu m' hm' ho
    obtain ⟨m, t, hpr, hex⟩ := ht.1 tm rfl
    obtain rfl : t = u := Option.some.inj (hpr.symm.trans hu)
    have hmem : t ∈ lw m := (h.onChain_iff m t).mp hex.chained
    obtain rfl : m = m' := Option.some.inj ((h.waits_of_mem hmem).2.1.symm.trans hm')
    obtain ⟨k', hrun, hs⟩ := map_eq_ok.mp he
    obtain ⟨-, rfl⟩ := Prod.mk.inj hs
    -- the handler has left the chain alone
    obtain rfl := Except.ok.inj ((h.expire_owner (h.armed tm ha.2).2.1 hpr hmem ho).symm.trans hrun)
    have hsame : s.chainOf m = (s.chainOf m).erase t := hex.chain m
    rw [h.chainOf_eq] at hsame
    rw [hsame] at hmem
    exact (h.lists.wait m).nodup.not_mem_erase hmem
  | lock m timeout tm => trivial
  | advance => trivial
  | unlock m => trivial
  | delete m => trivial
  | ret => trivial
  | sched => trivial
  | suspend => trivial
  | resume t => trivial
  | tick wakes => trivial

end Frame

/-! ### Whole runs -/

theorem Init.backed (hi : Init s) (ht : ∀ t, (s.k.tcb t).timer = none) : Backed s fun _ => [] := by
  refine ⟨fun j u hu => absurd hu List.not_mem_nil, fun u hu => ?_, fun u tm htm => ?_⟩
  · rw [hi.pc] at hu
    exact hu.elim
  · rw [ht] at htm
    cases htm

/-- **A timed lock ends in time**, in exactly the runs in which no timer expires
whose task owns the mutex that it waits for: the expiry takes its task off the
chain and makes it ready, the call returns `E_OS_TIMEOUT`, and no timed call is
suspended without an active timer. -/
theorem timesOut_iff (hi : Init s) (ht : ∀ t, (s.k.tcb t).timer = none)
    {tr : List ((TickCall n × Option OsErr) × TickSys n)} (h : Run.Exec Step s tr) (hg : Run.Guarded TickSafe s tr) :
    ((∀ x ∈ Run.states s tr, x.NoneStuck) ∧ Run.Exec TimesOut s tr) ↔ Run.Guarded Unowned s tr := by
  obtain ⟨lr, hinv⟩ := hi.inv
  constructor
  · rintro ⟨-, hto⟩
    refine (h.and hto).guarded_of_guarded (fun s => ∃ lr lw, Inv s lr lw) (fun s c s' hs hc hst => ?_)
      (fun s c s' hs hc hst => ?_) hg ⟨lr, _, hinv⟩
    · obtain ⟨lr, lw, hs⟩ := hs
      exact (step_keeps hs hc hst.1).1
    · obtain ⟨lr, lw, hs⟩ := hs
      exact unowned_of_timesOut hs hst.1 hst.2
  · intro hu
    have hback : ∃ lr lw, Inv s lr lw ∧ Backed s lw := ⟨lr, _, hinv, hi.backed ht⟩
    refine ⟨fun x hx => ?_, ?_⟩
    · obtain ⟨lr, lw, hx, hb⟩ := h.invariant_of_guarded (fun s => ∃ lr lw, Inv s lr lw ∧ Backed s lw)
        (fun s c s' hs hc hst => by
          obtain ⟨lr, lw, hs, hb⟩ := hs
          exact (hb.timesOut hs hc.1 hc.2 hst).1) (hg.and hu) hback x hx
      exact hb.noneStuck hx
    · refine h.of_guarded (fun s => ∃ lr lw, Inv s lr lw ∧ Backed s lw) (fun s c s' hs hc hst => ?_) (hg.and hu) hback
      obtain ⟨lr, lw, hs, hb⟩ := hs
      exact hb.timesOut hs hc.1 hc.2 hst

end Calls

instance (s : TickSys n) : ∀ c, Decidable (s.Unowned c)
  | (.expire tm, _) => inferInstanceAs (Decidable (∀ t ∈ (s.k.timers tm).priv, ∀ m ∈ (s.k.tcb t).mutex,
      (s.k.mutexes m).owner ≠ some t))
  | (.lock .., _) | (.advance, _) | (.unlock _, _) | (.delete _, _) | (.ret, _) | (.sched, _) | (.suspend, _)
  | (.resume _, _) | (.tick _, _) => inferInstanceAs (Decidable True)

/-- Task 0 holds a mutex and suspends itself. Task 1 waits for the mutex with a
timeout, task 2 runs while its timer expires, and the call returns
`E_OS_TIMEOUT`. -/
theorem timesOut_oneTimeout : Init (threeTasks 0) ∧ ∃ tr, Run.Exec Step (threeTasks 0) tr ∧
    tr.filterMap (·.1.2) = [.osOk, .eOsTimeout] ∧
    (∀ x ∈ Run.states (threeTasks 0) tr, x.NoneStuck) ∧ Run.Exec TimesOut (threeTasks 0) tr := by
  refine ⟨threeTasks_init 0, ?_⟩
  have hrun := Run.exists_exec (f := Run.attempt Admissible exec) (fun _ _ _ => Run.step_of_attempt)
    (s := threeTasks 0)
    [(.lock 0 osWaitForever 0, some .osOk), (.suspend, none), (.advance, none), (.advance, none), (.advance, none),
      (.advance, none), (.lock 0 5 7, none), (.advance, none), (.advance, none), (.tick none, none), (.advance, none),
      (.advance, none), (.advance, none), (.advance, none), (.advance, none), (.expire 7, none), (.suspend, none),
      (.advance, none), (.advance, none), (.advance, none), (.advance, none), (.ret, some .eOsTimeout)]
    (fun tr => decide (Run.Guarded TickSafe (threeTasks 0) tr ∧ Run.Guarded Unowned (threeTasks 0) tr ∧
      tr.filterMap (·.1.2) = [.osOk, .eOsTimeout]))
    (by decide +kernel)
  obtain ⟨tr, hex, hp⟩ := hrun
  obtain ⟨hg, hu, hres⟩ := of_decide_eq_true hp
  exact ⟨tr, hex, hres, (timesOut_iff (threeTasks_init 0) (fun _ => rfl) hex hg).mpr hu⟩

/-- Task 0 holds a mutex and locks it again with a timeout. Its timer expires
while task 1 runs, and task 0 stays suspended on the chain with no timer left. -/
theorem owner_never_times_out : Init (threeTasks 0) ∧ ∃ tr, Run.Exec Step (threeTasks 0) tr ∧
    Run.Guarded TickSafe (threeTasks 0) tr ∧ (Run.final (threeTasks 0) tr).OnChain 0 0 ∧
    ((Run.final (threeTasks 0) tr).k.tcb 0).state = .suspend ∧ (Run.final (threeTasks 0) tr).k.active = [] ∧
    ¬ ((∀ x ∈ Run.states (threeTasks 0) tr, x.NoneStuck) ∧ Run.Exec TimesOut (threeTasks 0) tr) := by
  refine ⟨threeTasks_init 0, ?_⟩
  have hrun := Run.exists_exec (f := Run.attempt Admissible exec) (fun _ _ _ => Run.step_of_attempt)
    (s := threeTasks 0)
    [(.lock 0 osWaitForever 0, some .osOk), (.lock 0 5 7, none), (.advance, none), (.advance, none), (.advance, none),
      (.advance, none), (.advance, none), (.advance, none), (.advance, none), (.expire 7, none)]
    (fun tr => decide (Run.Guarded TickSafe (threeTasks 0) tr ∧ (Run.final (threeTasks 0) tr).OnChain 0 0 ∧
      ((Run.final (threeTasks 0) tr).k.tcb 0).state = .suspend ∧ (Run.final (threeTasks 0) tr).k.active = [] ∧
      (Run.final (threeTasks 0) tr).pc 0 = .asleep 0 true)) (by decide +kernel)
  obtain ⟨tr, hex, hp⟩ := hrun
  obtain ⟨hg, hchain, hst, hact, hpc⟩ := of_decide_eq_true hp
  refine ⟨tr, hex, hg, hchain, hst, hact, fun ⟨hall, _⟩ => ?_⟩
  obtain ⟨tm, htm, -⟩ := (hall _ (Run.final_mem_states _ tr)).timer 0 0 hpc hst
  rw [hact] at htm
  cases htm

end TickSys

end Rosx
