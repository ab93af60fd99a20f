import Mathlib.Tactic
import Mathlib.Data.Set.Card

/-!
How many places refer to something: `f a` is what the place `a` refers to, if anything.
-/

namespace RtSmart.Lib

variable {α β γ : Type*}

def refSet (f : α → Option β) (b : β) : Set α := {a | f a = some b}

noncomputable def refs (f : α → Option β) (b : β) : ℕ := (refSet f b).ncard

variable {f : α → Option β} {a a' : α} {b x : β} {v : Option β}

theorem refs_pos (hf : (refSet f b).Finite) (h : f a = some b) : 0 < refs f b :=
  (Set.ncard_pos hf).mpr ⟨a, h⟩

theorem refs_eq_zero_iff (hf : (refSet f b).Finite) : refs f b = 0 ↔ ∀ a, f a ≠ some b := by
  rw [refs, Set.ncard_eq_zero hf, Set.eq_empty_iff_forall_notMem]
  rfl

theorem eq_of_refs_le_one (hf : (refSet f b).Finite) (h1 : refs f b ≤ 1) (h : f a = some b) (h' : f a' = some b) :
    a = a' :=
  (Set.ncard_le_one hf).mp h1 a h a' h'

variable [DecidableEq α] [DecidableEq β]

theorem refSet_update (f : α → Option β) (a : α) (v : Option β) (x : β) :
    refSet (Function.update f a v) x = if v = some x then insert a (refSet f x) else refSet f x \ {a} := by
  ext c
  simp only [refSet, Set.mem_ofPred_eq]
  by_cases hc : c = a
  · subst hc
    rw [Function.update_self]
    split_ifs with hv <;> simp [hv]
  · rw [Function.update_of_ne hc]
    split_ifs <;> simp [hc]

theorem refSet_update_finite (hf : (refSet f x).Finite) (a : α) (v : Option β) :
    (refSet (Function.update f a v) x).Finite := by
  rw [refSet_update]
  split_ifs
  · exact hf.insert a
  · exact hf.sdiff

theorem refs_update (hf : (refSet f x).Finite) (a : α) (v : Option β) :
    refs (Function.update f a v) x + (if f a = some x then 1 else 0) = refs f x + (if v = some x then 1 else 0) := by
  rw [refs, refSet_update]
  by_cases ha : f a = some x
  · have hmem : a ∈ refSet f x := ha
    rw [if_pos ha]
    split_ifs
    · rw [Set.insert_eq_of_mem hmem, refs]
    · have := Set.ncard_sdiff_singleton_add_one hmem hf
      simpa [refs] using this
  · have hmem : a ∉ refSet f x := ha
    rw [if_neg ha]
    split_ifs
    · rw [Set.ncard_insert_of_notMem hmem hf, refs]
    · rw [Set.sdiff_singleton_eq_self hmem, refs]

end RtSmart.Lib
