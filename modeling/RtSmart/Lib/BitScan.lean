import Mathlib.Data.Nat.Bitwise
import Mathlib.Tactic

/-!
Finding the highest and the lowest one of a number by or-ing it with its own shifts.
-/

namespace RtSmart.Lib

variable {d e n m : ℕ}

/-- A bit of `m` is set iff one of the `d` bits of `n` from it upwards is. -/
def Smeared (d n m : ℕ) : Prop := ∀ i, m.testBit i = true ↔ ∃ j < d, n.testBit (i + j) = true

theorem smeared_one (n : ℕ) : Smeared 1 n n := by
  intro i
  simp

theorem Smeared.step (h : Smeared d n m) (he : e ≤ d) : Smeared (d + e) n (m ||| m >>> e) := by
  intro i
  rw [Nat.testBit_lor, Nat.testBit_shiftRight, Bool.or_eq_true, h i, h (e + i)]
  constructor
  · rintro (⟨j, hj, hb⟩ | ⟨j, hj, hb⟩)
    · exact ⟨j, by omega, hb⟩
    · exact ⟨e + j, by omega, by rwa [show i + (e + j) = e + i + j by omega]⟩
  · rintro ⟨j, hj, hb⟩
    by_cases hjd : j < d
    · exact .inl ⟨j, hjd, hb⟩
    · exact .inr ⟨j - e, by omega, by rwa [show e + i + (j - e) = i + j by omega]⟩

theorem Smeared.eq_mask (h : Smeared d n m) (hn : n ≠ 0) (hd : n < 2 ^ d) : m = 2 ^ (n.log2 + 1) - 1 := by
  apply Nat.eq_of_testBit_eq
  intro i
  rw [Nat.testBit_two_pow_sub_one, Bool.eq_iff_iff, h i, decide_eq_true_iff, Nat.lt_succ_iff]
  constructor
  · rintro ⟨j, _, hb⟩
    have := (Nat.le_log2 hn).mpr (Nat.ge_two_pow_of_testBit hb)
    omega
  · intro hi
    have hlog := (Nat.log2_lt hn).mpr hd
    refine ⟨n.log2 - i, by omega, ?_⟩
    rw [show i + (n.log2 - i) = n.log2 by omega]
    exact Nat.testBit_log2 hn

theorem xor_pred_eq_mask (t m : ℕ) :
    2 ^ t * (2 * m + 1) ^^^ (2 ^ t * (2 * m + 1) - 1) = 2 ^ (t + 1) - 1 := by
  induction t with
  | zero =>
    have := Nat.xor_bit true m false m
    simpa [Nat.bit_val] using this
  | succ t ih =>
    have hpos : 0 < 2 ^ t * (2 * m + 1) := by positivity
    have h1 : 2 ^ (t + 1) * (2 * m + 1) = Nat.bit false (2 ^ t * (2 * m + 1)) := by
      rw [Nat.bit_val, pow_succ]
      simp only [Bool.toNat_false]
      ring
    have h2 : 2 ^ (t + 1) * (2 * m + 1) - 1 = Nat.bit true (2 ^ t * (2 * m + 1) - 1) := by
      rw [h1, Nat.bit_val, Nat.bit_val]
      simp only [Bool.toNat_false, Bool.toNat_true]
      omega
    have h3 := Nat.two_pow_pos (t + 1)
    rw [h2, h1, Nat.xor_bit, ih, Nat.bit_val, pow_succ 2 (t + 1)]
    simp only [Bool.false_bne, Bool.toNat_true]
    omega

end RtSmart.Lib
