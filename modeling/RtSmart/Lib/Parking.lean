import Mathlib.Tactic

/-!
Agents that wait in a list until another agent takes the first of them out: `f a` is where the agent
`a` is, if it takes part at all. A woken agent has been taken out and has not run since.
-/

namespace RtSmart.Lib

inductive Place
  | suspended
  | woken
  | late
deriving DecidableEq

variable {τ : Type*} {f : τ → Option Place} {parked woken : List τ} {t u : τ}

structure Parking (f : τ → Option Place) (parked woken : List τ) : Prop where
  nodup : parked.Nodup
  mem : ∀ t, t ∈ parked ↔ f t = some .suspended
  woken_nodup : woken.Nodup
  mem_woken : ∀ t, t ∈ woken ↔ f t = some .woken

namespace Parking

theorem nil (h : ∀ t, f t = none) : Parking f [] [] :=
  ⟨.nil, by simp [h], .nil, by simp [h]⟩

variable [DecidableEq τ]

theorem park (h : Parking f parked woken) (hs : f t ≠ some .suspended) (hw : f t ≠ some .woken) :
    Parking (Function.update f t (some .suspended)) (parked ++ [t]) woken := by
  have hnot : t ∉ parked := fun hmem => hs ((h.mem t).mp hmem)
  refine ⟨?_, fun u => ?_, h.woken_nodup, fun u => ?_⟩
  · exact List.nodup_append.mpr ⟨h.nodup, List.nodup_singleton t,
      by simpa using fun a ha (heq : a = t) => hnot (heq ▸ ha)⟩
  · by_cases hu : u = t
    · simp [hu]
    · simp [hu, h.mem u]
  · by_cases hu : u = t
    · subst hu
      simpa [h.mem_woken u] using hw
    · simp [hu, h.mem_woken u]

theorem same {p : Option Place} (h : Parking f parked woken) (hp : f t = p) :
    Parking (Function.update f t p) parked woken := by
  rwa [← hp, Function.update_eq_self]

theorem wake (h : Parking f (u :: parked) woken) : Parking (Function.update f u (some .woken)) parked (u :: woken) := by
  have hu : f u = some .suspended := (h.mem u).mp List.mem_cons_self
  have hnot : u ∉ woken := by
    rw [h.mem_woken, hu]
    simp
  obtain ⟨hup, hn⟩ := List.nodup_cons.mp h.nodup
  refine ⟨hn, fun t => ?_, List.nodup_cons.mpr ⟨hnot, h.woken_nodup⟩, fun t => ?_⟩
  · by_cases ht : t = u
    · subst ht
      simpa using hup
    · rw [Function.update_of_ne ht, ← h.mem t]
      simp [ht]
  · by_cases ht : t = u
    · simp [ht]
    · rw [Function.update_of_ne ht, ← h.mem_woken t]
      simp [ht]

theorem leave {p : Option Place} (h : Parking f parked woken) (hs : p ≠ some .suspended) (hw : p ≠ some .woken) :
    Parking (Function.update f t p) (parked.erase t) (woken.erase t) := by
  refine ⟨h.nodup.erase t, fun u => ?_, h.woken_nodup.erase t, fun u => ?_⟩
  · rw [h.nodup.mem_erase_iff]
    by_cases hu : u = t
    · subst hu
      simpa using hs
    · simp [hu, h.mem u]
  · rw [h.woken_nodup.mem_erase_iff]
    by_cases hu : u = t
    · subst hu
      simpa using hw
    · simp [hu, h.mem_woken u]

theorem expire (h : Parking f parked woken) (ht : f t = some .suspended) :
    Parking (Function.update f t (some .late)) (parked.erase t) woken := by
  have hnot : t ∉ woken := by
    rw [h.mem_woken, ht]
    simp
  have hl := h.leave (t := t) (p := some .late) (by simp) (by simp)
  rwa [List.erase_of_not_mem hnot] at hl

theorem resume (h : Parking f parked woken) (ht : f t = some .woken) :
    Parking (Function.update f t none) parked (woken.erase t) := by
  have hnot : t ∉ parked := by
    rw [h.mem, ht]
    simp
  have hl := h.leave (t := t) (p := none) (by simp) (by simp)
  rwa [List.erase_of_not_mem hnot] at hl

theorem quit (h : Parking f parked woken) (ht : f t = some .late) : Parking (Function.update f t none) parked woken := by
  have hnot : t ∉ parked := by
    rw [h.mem, ht]
    simp
  have hnot' : t ∉ woken := by
    rw [h.mem_woken, ht]
    simp
  have hl := h.leave (t := t) (p := none) (by simp) (by simp)
  rwa [List.erase_of_not_mem hnot, List.erase_of_not_mem hnot'] at hl

theorem length_woken (h : Parking f parked woken) (ht : f t = some .woken) : (woken.erase t).length + 1 = woken.length := by
  have hmem := (h.mem_woken t).mpr ht
  rw [List.length_erase_of_mem hmem]
  have := List.length_pos_of_mem hmem
  omega

end Parking

end RtSmart.Lib
