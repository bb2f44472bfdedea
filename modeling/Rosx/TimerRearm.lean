/-
# Handlers that start their own timer again

`rx_mod_timer` checks the delay that the timer has, not the one it is called
with: the argument 0 and an argument whose ticks wrap `jiffies` are taken, and
the timer starts with an expiry that has come already. In the expiry loop such a
timer is the next to fire. With 0 it fires once more, since its delay is 0 then
and the next call is turned down; with a wrap its delay is large, and it fires
for as long as its handler asks for the like.

The handlers of a pass are given by what the `i`-th call of each asks for.

Key definitions: `Handlers.own`, `StartsLater`, `SettlesAt`.
Key theorem: `rearming_iff`.
-/
import Rosx.TimerPass
import Mathlib.Algebra.Order.BigOperators.Group.Finset

namespace Rosx

open Linked TimerList

variable {m n : ℕ}

/-- The handlers for which `arg t i` is what the `i`-th call of `t`'s handler asks for. -/
def Handlers.own (effect : List (Fin m) → Fin m → Kernel n → Kernel n) (arg : Fin m → ℕ → Option Word) :
    Handlers m n where
  effect := effect
  rearm log t := arg t (log.count t)

/-- The call has left the timer as it was, or has started it for later. -/
def StartsLater (L L' : TimerList m) (p : Fin m) (jiffies : Word) : Prop :=
  L' = L ∨ (L'.node p).enabled = true ∧ jiffies < (L'.node p).timeExpiry

/-- The `i`-th call of `t`'s handler does not ask for a delay that wraps. -/
def SettlesAt (arg : Fin m → ℕ → Option Word) (jiffies : Word) (t : Fin m) (i : ℕ) : Prop :=
  ∀ d, arg t i = some d → (modTicks d).toNat + jiffies.toNat < 2 ^ 32

theorem lt_add_iff (ticks jiffies : Word) :
    jiffies < ticks + jiffies ↔ ticks ≠ 0 ∧ ticks.toNat + jiffies.toNat < 2 ^ 32 := by
  have hne : ticks ≠ 0 ↔ ticks.toNat ≠ 0 := by
    rw [ne_eq, ← BitVec.toNat_inj]
    rfl
  rw [BitVec.lt_def, BitVec.toNat_add, hne]
  omega

/-- A call on a stopped timer is as it should be when its ticks are not 0 and do not wrap. -/
theorem startsLater_iff {L : TimerList m} {l : List (Fin m)} {p : Fin m} (hg : Good L l) (hs : TimerClock.Sorted L l)
    (hp : p ∉ l) (hen : (L.node p).enabled = false) (hd : (L.node p).delay ≠ 0) (delay jiffies : Word) :
    ∃ L', L.rxModTimer p delay jiffies = .ok L' ∧
      (StartsLater L L' p jiffies ↔ modTicks delay ≠ 0 ∧ (modTicks delay).toNat + jiffies.toNat < 2 ^ 32) := by
  obtain ⟨L', -, he, -, -, -, -, hexp, -, -, hen', -⟩ := rxModTimer_spec delay jiffies hg hs hp hen hd
  refine ⟨L', he, ?_⟩
  rw [← lt_add_iff, ← hexp]
  constructor
  · rintro (heq | ⟨-, hlt⟩)
    · rw [heq, hen] at hen'
      cases hen'
    · exact hlt
  · intro hlt
    exact Or.inr ⟨hen', hlt⟩

section Own

variable {effect : List (Fin m) → Fin m → Kernel n → Kernel n} {arg : Fin m → ℕ → Option Word} {task : Fin m → Fin n}
  {S : List (Fin n)} {s s' : TimerPass m n} {l l' : List (Fin m)} {lr : List (Fin n)} {p : Fin m}

/-- What a timer is started again with is what its handler has asked for. -/
theorem rearms_own {d : Word} : rearms (.own effect arg) s p = some d ↔
    ((s.list.node p).handler.isSome = true ∧ (s.list.node p).delay ≠ 0) ∧ arg p (s.fired.count p) = some d := by
  unfold rearms
  split_ifs with hc
  · exact (and_iff_right hc).symm
  · exact ⟨fun h => (by cases h), fun h => absurd h.1 hc⟩

theorem TurnList.count_self {H : Handlers m n} (hl : TurnList H s s' l l' p) :
    s'.fired.count p = s.fired.count p + 1 := by
  rw [hl.fired, List.count_append, List.count_singleton_self]

theorem TurnList.count_of_ne {H : Handlers m n} (hl : TurnList H s s' l l' p) {t : Fin m} (ht : t ≠ p) :
    s'.fired.count t = s.fired.count t := by
  rw [hl.fired, List.count_append, List.count_singleton, if_neg (by simpa using ht.symm), Nat.add_zero]

/-- A timer that is on the list after it has fired has been started again. -/
theorem TurnList.rearmed {H : Handlers m n} (hl : TurnList H s s' l l' p) (hp : p ∉ l) (hp' : p ∈ l') :
    ∃ d, rearms H s p = some d ∧ (s'.list.node p).timeExpiry = modTicks d + s.k.jiffies ∧
      (s'.list.node p).delay = modTicks d := by
  cases hre : rearms H s p with
  | none =>
    rw [(hl.gone hre).1] at hp'
    exact absurd hp' hp
  | some d => exact ⟨d, rfl, (hl.again d hre).2.2⟩

/-- It is due again when its ticks are 0 or wrap. -/
theorem due_iff_wraps {d : Word} (hexp : (s'.list.node p).timeExpiry = modTicks d + s.k.jiffies) :
    s'.due s.k.jiffies p = true ↔ ¬ (modTicks d ≠ 0 ∧ (modTicks d).toNat + s.k.jiffies.toNat < 2 ^ 32) := by
  rw [due_eq_true, hexp, ← lt_add_iff, BitVec.not_lt]

/-- How often `t` still fires in the pass, when it settles at the call `b t`. -/
def firings (b : Fin m → ℕ) (tick : Word) (s : TimerPass m n) (l : List (Fin m)) (t : Fin m) : ℕ :=
  if l.contains t && s.due tick t then
    if (s.list.node t).handler.isSome ∧ (s.list.node t).delay ≠ 0 then b t - s.fired.count t + 2 else 1
  else 0

/-- Each due timer whose handler can start it has not yet got past the call at
which it settles. -/
def Settling (arg : Fin m → ℕ → Option Word) (b : Fin m → ℕ) (s : TimerPass m n) (l : List (Fin m)) : Prop :=
  ∀ t ∈ l, s.due s.k.jiffies t = true → (s.list.node t).handler.isSome = true → (s.list.node t).delay ≠ 0 →
    s.fired.count t ≤ b t ∧ SettlesAt arg s.k.jiffies t (b t)

variable {b : Fin m → ℕ}

/-- A timer that is due again after its call has not settled at that call, unless its delay is 0. -/
theorem Settling.again (hset : Settling arg b s (p :: l)) (hdue : s.due s.k.jiffies p = true) {d : Word}
    (hre : rearms (.own effect arg) s p = some d) (hw : ¬ (modTicks d).toNat + s.k.jiffies.toNat < 2 ^ 32) :
    s.fired.count p + 1 ≤ b p := by
  obtain ⟨⟨hh, hd⟩, harg⟩ := rearms_own.mp hre
  obtain ⟨hle, hb⟩ := hset p List.mem_cons_self hdue hh hd
  rcases hle.lt_or_eq with hlt | heq
  · exact hlt
  · rw [heq] at harg
    exact absurd (hb d harg) hw

/-- A turn keeps `Settling`. -/
theorem Settling.turn (hset : Settling arg b s (p :: l)) (hdue : s.due s.k.jiffies p = true) (hp : p ∉ l)
    (hl : TurnList (.own effect arg) s s' l l' p) : Settling arg b s' l' := by
  intro t ht htd hh hd
  rw [hl.jiffies] at htd ⊢
  by_cases htp : t = p
  · subst htp
    obtain ⟨d, hre, hexp, hdel⟩ := hl.rearmed hp ht
    obtain ⟨⟨hh', hd'⟩, -⟩ := rearms_own.mp hre
    obtain ⟨-, hb⟩ := hset t List.mem_cons_self hdue hh' hd'
    have hw := (due_iff_wraps hexp).mp htd
    rw [hdel] at hd
    rw [hl.count_self]
    exact ⟨hset.again hdue hre fun hlt => hw ⟨hd, hlt⟩, hb⟩
  · have hsame := hl.others t htp
    rw [hl.count_of_ne htp]
    refine hset t (List.mem_cons_of_mem _ ((hl.mem_of_ne htp).mp ht)) ((hsame.due _).symm.trans htd) ?_ ?_
    · rwa [← hsame.handler]
    · rwa [← hsame.delay]

/-- A timer that is due fires at least once. -/
theorem firings_of_due {tick : Word} {t : Fin m} (ht : t ∈ l) (hdue : s.due tick t = true) :
    firings b tick s l t =
      if (s.list.node t).handler.isSome ∧ (s.list.node t).delay ≠ 0 then b t - s.fired.count t + 2 else 1 := by
  unfold firings
  rw [List.contains_iff_mem.mpr ht, hdue]
  rfl

theorem firings_of_not {tick : Word} {t : Fin m} (h : ¬ (t ∈ l ∧ s.due tick t = true)) : firings b tick s l t = 0 := by
  unfold firings
  rw [if_neg]
  rwa [Bool.and_eq_true, List.contains_iff_mem]

/-- The other timers have as many firings to come as before. -/
theorem TurnList.firings_of_ne {H : Handlers m n} (hl : TurnList H s s' l l' p) {t : Fin m} (ht : t ≠ p) (tick : Word) :
    firings b tick s' l' t = firings b tick s (p :: l) t := by
  have hsame := hl.others t ht
  have hmem : l'.contains t = (p :: l).contains t := by
    rw [Bool.eq_iff_iff, List.contains_iff_mem, List.contains_iff_mem, hl.mem_of_ne ht, List.mem_cons, or_iff_right ht]
  unfold firings
  rw [hmem, hsame.due, hsame.handler, hsame.delay, hl.count_of_ne ht]

/-- The timer that has fired has fewer. -/
theorem Settling.firings_lt (hset : Settling arg b s (p :: l)) (hdue : s.due s.k.jiffies p = true) (hp : p ∉ l)
    (hl : TurnList (.own effect arg) s s' l l' p) :
    firings b s.k.jiffies s' l' p < firings b s.k.jiffies s (p :: l) p := by
  rw [firings_of_due List.mem_cons_self hdue]
  by_cases hagain : p ∈ l' ∧ s'.due s.k.jiffies p = true
  · obtain ⟨d, hre, hexp, hdel⟩ := hl.rearmed hp hagain.1
    rw [firings_of_due hagain.1 hagain.2, if_pos (rearms_own.mp hre).1, hl.count_self, hl.handler, hdel]
    split_ifs with hc
    · have hlt := hset.again hdue hre fun hlt => (due_iff_wraps hexp).mp hagain.2 ⟨hc.2, hlt⟩
      omega
    · omega
  · rw [firings_of_not hagain]
    split_ifs <;> omega

theorem Settling.sum_lt (hset : Settling arg b s (p :: l)) (hdue : s.due s.k.jiffies p = true) (hp : p ∉ l)
    (hl : TurnList (.own effect arg) s s' l l' p) :
    ∑ t, firings b s.k.jiffies s' l' t < ∑ t, firings b s.k.jiffies s (p :: l) t := by
  have hlt := hset.firings_lt hdue hp hl
  refine Finset.sum_lt_sum (fun t _ => ?_) ⟨p, Finset.mem_univ p, hlt⟩
  by_cases htp : t = p
  · rw [htp]
    exact hlt.le
  · exact (hl.firings_of_ne htp _).le

/-- If each due timer settles, the pass ends. -/
theorem timerPass_ends : ∀ {f : ℕ} {s : TimerPass m n} {l : List (Fin m)} {lr : List (Fin n)}, PassOK task S s l lr →
    (∀ log t, KeepsSleepers S (effect log t)) → Settling arg b s l → ∑ t, firings b s.k.jiffies s l t < f →
    ∃ s', timerPass (.own effect arg) task f s = .ok s'
  | 0, _, _, _, _, _, _, hf => absurd hf (Nat.not_lt_zero _)
  | f + 1, s, l, lr, h, hk, hset, hf => by
    rcases h.due_or_stop (H := .own effect arg) s.k.jiffies with ⟨p, l, rfl, hdue⟩ | hstop
    · have hpl : p ∉ l := (List.nodup_cons.mp h.good.linked.chain.nodup).1
      obtain ⟨s', l', lr', hrun, h', hl, -⟩ := h.turn (H := .own effect arg) (due_eq_true.mp hdue) hk
      have hlt := hset.sum_lt hdue hpl hl
      obtain ⟨s'', hrun'⟩ := timerPass_ends h' hk (hset.turn hdue hpl hl) (f := f) (by rw [hl.jiffies]; omega)
      refine ⟨s'', ?_⟩
      unfold timerPass at hrun' ⊢
      rw [hrun f, ← hrun', hl.jiffies]
    · exact ⟨s, (hstop f).2⟩

theorem not_settlesAt {jiffies : Word} {t : Fin m} {i : ℕ} :
    ¬ SettlesAt arg jiffies t i ↔ ∃ d, arg t i = some d ∧ 2 ^ 32 ≤ (modTicks d).toNat + jiffies.toNat := by
  simp [SettlesAt]

/-- If the handler of a due timer asks for nothing but delays that wrap, the
pass does not end. -/
theorem timerPass_hangs {t : Fin m} : ∀ {f : ℕ} {s : TimerPass m n} {l : List (Fin m)} {lr : List (Fin n)},
    PassOK task S s l lr → (∀ log t, KeepsSleepers S (effect log t)) → t ∈ l → s.due s.k.jiffies t = true →
    (s.list.node t).handler.isSome = true → (s.list.node t).delay ≠ 0 →
    (∀ i, s.fired.count t ≤ i → ¬ SettlesAt arg s.k.jiffies t i) →
    timerPass (.own effect arg) task f s = .error .hang
  | 0, _, _, _, _, _, _, _, _, _, _ => rfl
  | f + 1, s, l, lr, h, hk, ht, htd, hh, hd, hall => by
    rcases h.due_or_stop (H := .own effect arg) s.k.jiffies with ⟨p, l, rfl, hdue⟩ | hstop
    · have hpl : p ∉ l := (List.nodup_cons.mp h.good.linked.chain.nodup).1
      obtain ⟨s', l', lr', hrun, h', hl, -⟩ := h.turn (H := .own effect arg) (due_eq_true.mp hdue) hk
      have hgoes : t ∈ l' ∧ s'.due s.k.jiffies t = true ∧ (s'.list.node t).handler.isSome = true ∧
          (s'.list.node t).delay ≠ 0 ∧ s.fired.count t ≤ s'.fired.count t := by
        by_cases htp : t = p
        · subst htp
          obtain ⟨d, harg, hw⟩ := not_settlesAt.mp (hall _ le_rfl)
          have hre : rearms (.own effect arg) s t = some d := rearms_own.mpr ⟨⟨hh, hd⟩, harg⟩
          obtain ⟨hmem, -, hexp, hdel⟩ := hl.again d hre
          refine ⟨(hmem t).mpr (Or.inl rfl), (due_iff_wraps hexp).mpr fun hc => absurd hc.2 (not_lt.mpr hw), ?_, ?_, ?_⟩
          · rwa [hl.handler]
          · -- a delay that wraps is not 0
            rw [hdel]
            intro h0
            have hj := s.k.jiffies.isLt
            have h0' : (modTicks d).toNat = 0 := by rw [h0]; rfl
            omega
          · rw [hl.count_self]
            exact Nat.le_succ _
        · have hsame := hl.others t htp
          refine ⟨(hl.mem_of_ne htp).mpr ((List.mem_cons.mp ht).resolve_left htp), (hsame.due _).trans htd, ?_, ?_, ?_⟩
          · rwa [hsame.handler]
          · rwa [hsame.delay]
          · rw [hl.count_of_ne htp]
      obtain ⟨ht', htd', hh', hd', hcount⟩ := hgoes
      have hrun' := timerPass_hangs (f := f) h' hk ht' (by rwa [hl.jiffies]) hh' hd'
        (by rw [hl.jiffies]; exact fun i hi => hall i (hcount.trans hi))
      unfold timerPass at hrun' ⊢
      rw [hrun f, ← hrun', hl.jiffies]
    · rw [(hstop f).1 t ht] at htd
      cases htd

/-- **What `rx_mod_timer` and the expiry loop do with any argument.** A call on a
stopped timer with a delay leaves it as it was, or starts it for later, exactly
if its ticks are not 0 and do not wrap `jiffies`. And a pass over handlers that
start their own timers ends exactly if each due timer that can be started comes
to a call that does not ask for a delay that wraps. -/
theorem rearming_iff (h : PassOK task S s l lr) (hk : ∀ log t, KeepsSleepers S (effect log t)) :
    (∀ p delay, p ∉ l → (s.list.node p).enabled = false → (s.list.node p).delay ≠ 0 →
      ∃ L', s.list.rxModTimer p delay s.k.jiffies = .ok L' ∧ (StartsLater s.list L' p s.k.jiffies ↔
        modTicks delay ≠ 0 ∧ (modTicks delay).toNat + s.k.jiffies.toNat < 2 ^ 32)) ∧
    ((∃ f s', timerPass (.own effect arg) task f s = .ok s') ↔
      ∀ t ∈ l, s.due s.k.jiffies t = true → (s.list.node t).handler.isSome = true → (s.list.node t).delay ≠ 0 →
        ∃ i, s.fired.count t ≤ i ∧ SettlesAt arg s.k.jiffies t i) := by
  refine ⟨fun p delay hp hen hd => startsLater_iff h.good h.sorted hp hen hd delay _, ?_, ?_⟩
  · rintro ⟨f, s', hrun⟩ t ht htd hh hd
    by_contra hc
    have hhang := timerPass_hangs (f := f) h hk ht htd hh hd fun i hi hs => hc ⟨i, hi, hs⟩
    rw [hrun] at hhang
    cases hhang
  · intro hall
    have hex : ∀ t, ∃ i, t ∈ l → s.due s.k.jiffies t = true → (s.list.node t).handler.isSome = true →
        (s.list.node t).delay ≠ 0 → s.fired.count t ≤ i ∧ SettlesAt arg s.k.jiffies t i := by
      intro t
      by_cases hc : t ∈ l ∧ s.due s.k.jiffies t = true ∧ (s.list.node t).handler.isSome = true ∧
          (s.list.node t).delay ≠ 0
      · obtain ⟨ht, htd, hh, hd⟩ := hc
        obtain ⟨i, hi⟩ := hall t ht htd hh hd
        exact ⟨i, fun _ _ _ _ => hi⟩
      · exact ⟨0, fun ht htd hh hd => absurd ⟨ht, htd, hh, hd⟩ hc⟩
    choose b hb using hex
    exact ⟨_, timerPass_ends h hk hb (Nat.lt_succ_self _)⟩

end Own

/-- At `jiffies` 6, `t` is due; every timer has a handler and a delay. -/
def oneDue (t : Fin m) (x : Fin n) : TimerPass m n where
  list :=
    { node := fun y => { timeExpiry := 6, delay := 3, handler := some .application, enabled := y == t }
      head := some t }
  k := { curr := x, jiffies := 6 }

theorem oneDue_ok (t : Fin m) (x : Fin n) : PassOK (fun _ => x) [] (oneDue t x) [t] [] := by
  refine ⟨⟨⟨⟨rfl, rfl⟩, rfl, trivial⟩, fun y hy => ?_, fun y _ _ => rfl⟩, List.pairwise_singleton _ _, rfl,
    fun y _ hn => ?_, fun y hy z hz _ _ _ => ?_⟩
  · obtain rfl := List.mem_singleton.mp hy
    exact beq_self_eq_true y
  · cases hn
  · rw [List.mem_singleton.mp hy, List.mem_singleton.mp hz]

/-- A handler that asks for 0, then for 3. -/
theorem rearming_oneDue : PassOK (fun _ => (0 : Fin 1)) [] (oneDue (0 : Fin 2) 0) [0] [] ∧
    ∃ f s', timerPass (.own (fun _ _ => id) fun _ i => if i = 0 then some 0 else some 3) (fun _ => (0 : Fin 1)) f
      (oneDue (0 : Fin 2) 0) = .ok s' := by
  refine ⟨oneDue_ok 0 0, (rearming_iff (oneDue_ok 0 0) fun _ _ => keepsSleepers_id _).2.mpr fun t _ _ _ _ => ?_⟩
  refine ⟨(oneDue (0 : Fin 2) (0 : Fin 1)).fired.count t + 1, Nat.le_succ _, fun d hd => ?_⟩
  obtain rfl := Option.some.inj ((if_neg (Nat.succ_ne_zero _)).symm.trans hd)
  decide

/-- The argument 0 starts a stopped timer for now; and a handler whose argument
wraps keeps the pass from ending. -/
theorem modTimer_starts_for_now : PassOK (fun _ => (0 : Fin 1)) [] (oneDue (0 : Fin 2) 0) [0] [] ∧
    ((oneDue (0 : Fin 2) (0 : Fin 1)).list.node 1).enabled = false ∧
    ((oneDue (0 : Fin 2) (0 : Fin 1)).list.node 1).delay ≠ 0 ∧
    (∃ L', (oneDue (0 : Fin 2) (0 : Fin 1)).list.rxModTimer 1 0 6 = .ok L' ∧
      ¬ StartsLater (oneDue (0 : Fin 2) (0 : Fin 1)).list L' 1 6) ∧
    ∀ f, timerPass (.own (fun _ _ => id) fun _ _ => some 429496729) (fun _ => (0 : Fin 1)) f (oneDue (0 : Fin 2) 0) =
      .error .hang := by
  have hok := oneDue_ok (0 : Fin 2) (0 : Fin 1)
  refine ⟨hok, rfl, by decide, ?_, fun f => ?_⟩
  · obtain ⟨L', he, hiff⟩ := startsLater_iff (p := 1) hok.good hok.sorted (by decide) rfl (by decide) 0 6
    exact ⟨L', he, fun hs => absurd (hiff.mp hs).1 (by decide)⟩
  · refine timerPass_hangs hok (fun _ _ => keepsSleepers_id _) (List.mem_singleton_self 0) rfl rfl (by decide)
      fun i _ => not_settlesAt.mpr ⟨_, rfl, ?_⟩
    decide

end Rosx
