import Mathlib.Tactic

/-!
Unsigned machine arithmetic on natural numbers, and the rounding to a power of two.
-/

namespace RtSmart.Lib

/-- Subtraction of words of `w` bits. -/
@[irreducible] def wsub (w a b : ℕ) : ℕ := (a + 2 ^ w - b % 2 ^ w) % 2 ^ w

@[irreducible] def wadd (w a b : ℕ) : ℕ := (a + b) % 2 ^ w

theorem wsub_of_le {w a b : ℕ} (hba : b ≤ a) (ha : a < 2 ^ w) : wsub w a b = a - b := by
  unfold wsub
  rw [Nat.mod_eq_of_lt (hba.trans_lt ha)]
  have he : a + 2 ^ w - b = a - b + 2 ^ w := by omega
  rw [he, Nat.add_mod_right]
  exact Nat.mod_eq_of_lt (by omega)

theorem wadd_of_lt {w a b : ℕ} (h : a + b < 2 ^ w) : wadd w a b = a + b := by
  unfold wadd
  exact Nat.mod_eq_of_lt h

/-- `RT_ALIGN` on a 64-bit machine. -/
@[irreducible] def rtAlign (size align : ℕ) : ℕ := (size + align - 1) % 2 ^ 64 / align * align

@[irreducible] def rtAlignDown (size align : ℕ) : ℕ := size / align * align

variable {size align : ℕ}

theorem rtAlignDown_le : rtAlignDown size align ≤ size := by
  unfold rtAlignDown
  exact Nat.div_mul_le_self _ _

end RtSmart.Lib
