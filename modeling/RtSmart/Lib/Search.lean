import Mathlib.Data.List.Nodup
import Mathlib.Data.List.Range
import Mathlib.Logic.Function.Iterate
import Mathlib.Tactic

namespace RtSmart.Lib

variable {α : Type*} {next : α → α} {used : α → Bool} {a b : α} {fuel : ℕ}

/-- The first of `next a`, `next (next a)`, … that is not used. -/
def firstUnused (next : α → α) (used : α → Bool) : ℕ → α → Option α
  | 0, _ => none
  | fuel + 1, a => if used (next a) then firstUnused next used fuel (next a) else some (next a)

theorem firstUnused_unused (h : firstUnused next used fuel a = some b) : used b = false := by
  induction fuel generalizing a with
  | zero => cases h
  | succ fuel ih =>
    rw [firstUnused] at h
    by_cases hu : used (next a) = true
    · rw [if_pos hu] at h
      exact ih h
    · rw [if_neg hu] at h
      cases h
      exact Bool.eq_false_of_not_eq_true hu

theorem firstUnused_mem (h : firstUnused next used fuel a = some b) : ∃ c, b = next c := by
  induction fuel generalizing a with
  | zero => cases h
  | succ fuel ih =>
    rw [firstUnused] at h
    by_cases hu : used (next a) = true
    · rw [if_pos hu] at h
      exact ih h
    · rw [if_neg hu] at h
      exact ⟨a, (Option.some.inj h).symm⟩

theorem used_of_firstUnused (h : firstUnused next used fuel a = none) :
    ∀ i < fuel, used (next^[i + 1] a) = true := by
  induction fuel generalizing a with
  | zero =>
    intro i hi
    omega
  | succ fuel ih =>
    rw [firstUnused] at h
    by_cases hu : used (next a) = true
    · rw [if_pos hu] at h
      intro i hi
      cases i with
      | zero => exact hu
      | succ i =>
        rw [Function.iterate_succ_apply]
        exact ih h i (by omega)
    · rw [if_neg hu] at h
      cases h

theorem firstUnused_isSome {l : List α} (hl : l.length < fuel) (hu : ∀ x, used x = true → x ∈ l)
    (hinj : ∀ i < fuel, ∀ j < fuel, next^[i + 1] a = next^[j + 1] a → i = j) :
    ∃ b, firstUnused next used fuel a = some b := by
  cases h : firstUnused next used fuel a with
  | some b => exact ⟨b, rfl⟩
  | none =>
    exfalso
    have hnd : ((List.range fuel).map fun i => next^[i + 1] a).Nodup := by
      apply List.Nodup.map_on _ List.nodup_range
      intro i hi j hj hij
      exact hinj i (List.mem_range.mp hi) j (List.mem_range.mp hj) hij
    have hsub : ((List.range fuel).map fun i => next^[i + 1] a) ⊆ l := by
      intro x hx
      obtain ⟨i, hi, rfl⟩ := List.mem_map.mp hx
      exact hu _ (used_of_firstUnused h i (List.mem_range.mp hi))
    have hle := (hnd.subperm hsub).length_le
    rw [List.length_map, List.length_range] at hle
    omega

end RtSmart.Lib
