import Mathlib.Tactic

/-!
Agents of which finitely many hold something: `f a` is what the agent `a` holds.
-/

namespace RtSmart.Lib

variable {α β : Type*} {f : α → Option β} {l : List α} {a : α} {b : β}

structure Holders (f : α → Option β) (l : List α) : Prop where
  nodup : l.Nodup
  mem : ∀ a, a ∈ l ↔ (f a).isSome = true

variable [DecidableEq α]

theorem filterMap_update (ha : a ∉ l) (v : Option β) : l.filterMap (Function.update f a v) = l.filterMap f := by
  apply List.filterMap_congr
  intro c hc
  exact Function.update_of_ne (by rintro rfl; exact ha hc) _ _

theorem Holders.gain (h : Holders f l) (ha : f a = none) (b : β) :
    Holders (Function.update f a (some b)) (a :: l) ∧
      (a :: l).filterMap (Function.update f a (some b)) = b :: l.filterMap f := by
  have hal : a ∉ l := by
    rw [h.mem, ha]
    simp
  refine ⟨⟨List.nodup_cons.mpr ⟨hal, h.nodup⟩, fun c => ?_⟩, ?_⟩
  · by_cases hc : c = a
    · subst hc
      simp
    · rw [Function.update_of_ne hc, ← h.mem]
      simp [hc]
  · rw [List.filterMap_cons, Function.update_self, filterMap_update hal]

theorem Holders.lose (h : Holders f l) (ha : f a = some b) :
    Holders (Function.update f a none) (l.erase a) ∧
      (l.filterMap f).Perm (b :: (l.erase a).filterMap (Function.update f a none)) := by
  have hal : a ∈ l := by
    rw [h.mem, ha]
    rfl
  have hnot : a ∉ l.erase a := h.nodup.not_mem_erase
  refine ⟨⟨h.nodup.erase a, fun c => ?_⟩, ?_⟩
  · rw [h.nodup.mem_erase_iff, h.mem]
    by_cases hc : c = a
    · subst hc
      simp
    · rw [Function.update_of_ne hc]
      simp [hc]
  · rw [filterMap_update hnot]
    have hp := (List.perm_cons_erase hal).filterMap f
    rwa [List.filterMap_cons, ha] at hp

theorem Holders.inj (h : Holders f l) (hn : (l.filterMap f).Nodup) {c : α} (ha : f a = some b) (hc : f c = some b) :
    c = a := by
  by_contra hne
  have hal : a ∈ l := (h.mem a).mpr (by simp [ha])
  have hcl : c ∈ l.erase a := (List.mem_erase_of_ne hne).mpr ((h.mem c).mpr (by simp [hc]))
  have hp := (List.perm_cons_erase hal).filterMap f
  rw [List.filterMap_cons, ha] at hp
  have hnd := hp.nodup_iff.mp hn
  exact (List.nodup_cons.mp hnd).1 (List.mem_filterMap.mpr ⟨c, hcl, hc⟩)

end RtSmart.Lib
