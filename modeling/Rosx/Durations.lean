/-
# Seconds, milliseconds and ticks

Four places turn a duration into ticks (`kernel/rx_timer.c`,
`kernel/include/rx_timer.h`): the sleeping calls `rx_msleep` and `rx_ssleep`
divide milliseconds by `CONFIG_HZ`, `RX_MSECS_TO_TICKS` divides them by
`1000/CONFIG_HZ`, and `RX_SECS_TO_TICKS` multiplies seconds by
`1000/CONFIG_HZ`. With `CONFIG_HZ` 100 a tick is 10 ms for
`RX_MSECS_TO_TICKS` and 100 ms for the other three, so `1000 * s`
milliseconds are `100 * s` ticks for it and `10 * s` for them
(`durations_of_accepted`), and the four agree on no number of seconds
(`not_durationsAgree`).

Key definitions: `msleepTicks`, `ssleepTicks`, `rxSecsToTicks`,
`rxMsecsToTicks`, `DurationsAgree`.
Key theorems: `rxMsleep_eq`, `rxSsleep_eq`, `durations_of_accepted`,
`not_durationsAgree`.
-/
import Rosx.Timer
import Mathlib.Algebra.Group.Nat.Defs

namespace Rosx

open Kernel

variable {n : ℕ}

/-- The ticks `rx_msleep` sleeps for, when it accepts its argument. -/
def msleepTicks (time : Word) : Option Word :=
  if time > 100000 ∨ time = 0 then none
  else some (if time / configHz = 0 then 1 else time / configHz)

/-- The ticks `rx_ssleep` sleeps for, when it accepts its argument. -/
def ssleepTicks (time : Word) : Option Word :=
  if time = 0 then none else some (time * 1000 / configHz)

/-- `RX_SECS_TO_TICKS`. -/
def rxSecsToTicks (s : Word) : Word := s * (1000 / configHz)

/-- `RX_MSECS_TO_TICKS`, of an `int`. -/
def rxMsecsToTicks (m : ℤ) : ℤ :=
  let tick := (1000 / configHz).toInt
  if m = 0 then 0 else if m < tick then 1 else m.tdiv tick

/-- What the calls have computed is what they hand to `__rx_add_timer`. -/
theorem rxMsleep_eq (k : Kernel n) (time : Word) (tm : ℕ) :
    k.rxMsleep time tm = (msleepTicks time).elim (.ok (some .osErr, k))
      fun d => (k.rxAddTimer tm d k.curr).map fun k => (none, k) := by
  unfold rxMsleep msleepTicks
  by_cases h : time > 100000 ∨ time = 0
  · rw [if_pos h, if_pos h]
    rfl
  · rw [if_neg h, if_neg h]
    rfl

theorem rxSsleep_eq (k : Kernel n) (time : Word) (tm : ℕ) :
    k.rxSsleep time tm = (ssleepTicks time).elim (.ok (some .osErr, k))
      fun d => (k.rxAddTimer tm d k.curr).map fun k => (none, k) := by
  unfold rxSsleep ssleepTicks
  by_cases h : time = 0
  · rw [if_pos h, if_pos h]
    rfl
  · rw [if_neg h, if_neg h]
    rfl

/-- `rx_ssleep(s)` and `rx_msleep(1000 * s)` are accepted. -/
def BothAccept (s : Word) : Prop :=
  (msleepTicks (1000 * s)).isSome ∧ (ssleepTicks s).isSome

/-- The four durations of `s` seconds are `ticks` ticks, at least one and no
fewer than those of less time, and no product on the way is too large. -/
structure DurationsAgree (s ticks : Word) : Prop where
  msleep : msleepTicks (1000 * s) = some ticks
  ssleep : ssleepTicks s = some ticks
  secs : rxSecsToTicks s = ticks
  msecs : rxMsecsToTicks (1000 * s).toInt = ticks.toNat
  pos : 1 ≤ ticks.toNat
  mono : ∀ s' : Word, s' ≤ s → BothAccept s' → ∀ ticks', ssleepTicks s' = some ticks' → ticks' ≤ ticks
  fits : 1000 * s.toNat < 2 ^ 32

section Convert

variable {s s' : Word}

theorem toNat_thousand_mul (h : 1000 * s.toNat < 2 ^ 32) : (1000 * s : Word).toNat = 1000 * s.toNat := by
  rw [BitVec.toNat_mul, show (1000 : Word).toNat = 1000 from rfl]
  exact Nat.mod_eq_of_lt h

/-- `rx_msleep` takes at most 100 seconds, the argument being exact. -/
theorem msleepTicks_isSome (h : 1000 * s.toNat < 2 ^ 32) :
    (msleepTicks (1000 * s)).isSome ↔ 1 ≤ s.toNat ∧ s.toNat ≤ 100 := by
  have hms := toNat_thousand_mul h
  have hbad : (1000 * s > 100000 ∨ 1000 * s = 0) ↔ ¬ (1 ≤ s.toNat ∧ s.toNat ≤ 100) := by
    rw [gt_iff_lt, BitVec.lt_def, ← BitVec.toNat_inj, hms, show (100000 : Word).toNat = 100000 from rfl,
      show (0 : Word).toNat = 0 from rfl]
    omega
  unfold msleepTicks
  by_cases hc : 1 ≤ s.toNat ∧ s.toNat ≤ 100
  · rw [if_neg (fun h1 => hbad.mp h1 hc)]
    simp [hc]
  · rw [if_pos (hbad.mpr hc)]
    simp [hc]

theorem rxSecsToTicks_toNat (h : s.toNat ≤ 100) : (rxSecsToTicks s).toNat = 10 * s.toNat := by
  rw [rxSecsToTicks, BitVec.toNat_mul, show (1000 / configHz : Word).toNat = 10 by decide]
  omega

/-- `1000 * s` milliseconds are divided by the frequency of the tick, not by its
length. -/
theorem msleepTicks_eq (h1 : 1 ≤ s.toNat) (h2 : s.toNat ≤ 100) : msleepTicks (1000 * s) = some (rxSecsToTicks s) := by
  have hexact : 1000 * s.toNat < 2 ^ 32 := by omega
  have hsome := (msleepTicks_isSome hexact).mpr ⟨h1, h2⟩
  have hdiv : 1000 * s / configHz = rxSecsToTicks s := by
    rw [← BitVec.toNat_inj, BitVec.toNat_udiv, toNat_thousand_mul hexact, rxSecsToTicks_toNat h2,
      show configHz.toNat = 100 by decide]
    omega
  have hne : rxSecsToTicks s ≠ 0 := by
    rw [ne_eq, ← BitVec.toNat_inj, rxSecsToTicks_toNat h2, show (0 : Word).toNat = 0 from rfl]
    omega
  unfold msleepTicks at hsome ⊢
  by_cases hbad : 1000 * s > 100000 ∨ 1000 * s = 0
  · rw [if_pos hbad] at hsome
    cases hsome
  · rw [if_neg hbad, hdiv, if_neg hne]

theorem ssleepTicks_eq (h1 : 1 ≤ s.toNat) (h2 : s.toNat ≤ 100) : ssleepTicks s = some (rxSecsToTicks s) := by
  have hne : s ≠ 0 := fun h => by simp [h] at h1
  have hdiv : s * 1000 / configHz = rxSecsToTicks s := by
    rw [← BitVec.toNat_inj, BitVec.toNat_udiv, BitVec.mul_comm, toNat_thousand_mul (by omega),
      rxSecsToTicks_toNat h2, show configHz.toNat = 100 by decide]
    omega
  rw [ssleepTicks, if_neg hne, hdiv]

theorem rxMsecsToTicks_eq (h1 : 1 ≤ s.toNat) (h2 : s.toNat ≤ 100) :
    rxMsecsToTicks (1000 * s).toInt = 10 * (rxSecsToTicks s).toNat := by
  have hms := toNat_thousand_mul (s := s) (by omega)
  have hint : (1000 * s).toInt = 1000 * s.toNat := by
    rw [BitVec.toInt_eq_toNat_of_lt (by omega), hms]
    rfl
  have htick : (1000 / configHz).toInt = 10 := by decide
  have hdiv : (1000 * (s.toNat : ℤ)).tdiv 10 = 100 * s.toNat := by
    rw [Int.tdiv_eq_ediv_of_nonneg (by omega)]
    omega
  have hne : 1000 * (s.toNat : ℤ) ≠ 0 := by omega
  have hlarge : ¬ 1000 * (s.toNat : ℤ) < 10 := by omega
  simp only [rxMsecsToTicks, htick, hint]
  rw [if_neg hne, if_neg hlarge, hdiv, rxSecsToTicks_toNat h2]
  omega

/-- **Ten times as many.** Of the seconds that both calls accept, `rx_msleep`,
`rx_ssleep` and `RX_SECS_TO_TICKS` make ten ticks each, and `RX_MSECS_TO_TICKS`
makes a hundred. -/
theorem durations_of_accepted (hfits : 1000 * s.toNat < 2 ^ 32) (hacc : BothAccept s) :
    msleepTicks (1000 * s) = some (rxSecsToTicks s) ∧ ssleepTicks s = some (rxSecsToTicks s) ∧
      (rxSecsToTicks s).toNat = 10 * s.toNat ∧ rxMsecsToTicks (1000 * s).toInt = 100 * s.toNat := by
  obtain ⟨h1, h2⟩ := (msleepTicks_isSome hfits).mp hacc.1
  have hsecs := rxSecsToTicks_toNat h2
  have hmsecs := rxMsecsToTicks_eq h1 h2
  refine ⟨msleepTicks_eq h1 h2, ssleepTicks_eq h1 h2, hsecs, ?_⟩
  rw [hmsecs, hsecs]
  omega

/-- Among the three the order is that of the seconds. -/
theorem rxSecsToTicks_mono (hle : s' ≤ s) (hfits : 1000 * s.toNat < 2 ^ 32) (hacc : BothAccept s) :
    rxSecsToTicks s' ≤ rxSecsToTicks s := by
  obtain ⟨-, h2⟩ := (msleepTicks_isSome hfits).mp hacc.1
  have hle' := BitVec.le_def.mp hle
  rw [BitVec.le_def, rxSecsToTicks_toNat h2, rxSecsToTicks_toNat (hle'.trans h2)]
  omega

/-- **No number of seconds has one duration.** -/
theorem not_durationsAgree (hs : 1 ≤ s.toNat) (hacc : BothAccept s) : ¬ ∃ ticks, DurationsAgree s ticks := by
  rintro ⟨ticks, h⟩
  obtain ⟨-, -, hsecs, hmsecs⟩ := durations_of_accepted h.fits hacc
  have heq : rxMsecsToTicks (1000 * s).toInt = (rxSecsToTicks s).toNat := by rw [h.secs, h.msecs]
  rw [hmsecs, hsecs] at heq
  omega

end Convert

/-- One second is accepted, and has no one duration. -/
theorem not_durationsAgree_one : ¬ ∃ ticks, DurationsAgree 1 ticks :=
  not_durationsAgree (by decide) ⟨by decide, by decide⟩

/-- A thousand milliseconds are slept in 10 ticks and converted to 100. -/
theorem one_second_two_durations :
    BothAccept 1 ∧ msleepTicks 1000 = some 10 ∧ ssleepTicks 1 = some 10 ∧ rxSecsToTicks 1 = 10 ∧
      rxMsecsToTicks 1000 = 100 ∧ ¬ ∀ s : Word, 1 ≤ s.toNat → BothAccept s → ∃ ticks, DurationsAgree s ticks := by
  refine ⟨⟨by decide, by decide⟩, by decide, by decide, by decide, by decide, fun hall => ?_⟩
  obtain ⟨ticks, h⟩ := hall 1 (by decide) ⟨by decide, by decide⟩
  have hmsecs := h.msecs
  rw [← h.secs] at hmsecs
  exact absurd hmsecs (by decide)

end Rosx
