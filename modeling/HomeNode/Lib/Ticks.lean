-- SUMMARY: Milliseconds turned into ticks by a product of fixed width, and when the result is the right one.
import Mathlib.Tactic.Ring
import Mathlib.Tactic.Common

/-!
# Ticks

A real-time kernel counts time in ticks of a rate `hz`. The number of ticks in `ms`
milliseconds is computed as a product that is cut to the width of a word and then
divided, so that a product that does not fit gives a small result and not an error.
-/

namespace Ticks

/-- `ms` milliseconds in ticks, in words of `width` bits. -/
def ofMs (width hz ms : Nat) : Nat := ms * hz % 2 ^ width / 1000

variable {width hz ms s : Nat}

/-- No result is larger than a whole word of milliseconds. -/
theorem ofMs_le : ofMs width hz ms ≤ 2 ^ width / 1000 :=
  Nat.div_le_div_right (Nat.mod_lt _ (Nat.two_pow_pos width)).le

theorem ofMs_eq_of_lt (h : ms * hz < 2 ^ width) : ofMs width hz ms = ms * hz / 1000 := by
  rw [ofMs, Nat.mod_eq_of_lt h]

/-- Whole seconds come out right exactly when the product fits into a word. -/
theorem ofMs_seconds_iff : ofMs width hz (1000 * s) = s * hz ↔ 1000 * s * hz < 2 ^ width := by
  constructor
  · intro h
    by_contra hge
    -- otherwise the product lies a word above what is left of it
    have hcut : 1000 * s * hz % 2 ^ width < 2 ^ width := Nat.mod_lt _ (Nat.two_pow_pos width)
    have hback : 1000 * (s * hz) ≤ 1000 * s * hz % 2 ^ width := by
      rw [← h]
      exact Nat.mul_div_le _ _
    rw [← Nat.mul_assoc] at hback
    omega
  · intro h
    rw [ofMs_eq_of_lt h, Nat.mul_assoc, Nat.mul_div_cancel_left _ (by omega)]

end Ticks
