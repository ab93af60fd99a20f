import Mathlib.Tactic

/-! Counters of agents: `n` is the number of agents in a place that `f` picks out. -/

namespace RtSmart.Lib

variable {α β : Type*} {f : β → Bool} {g : α → β} {n m : ℕ} {a : α} {b : β}

def Counted (f : β → Bool) (g : α → β) (n : ℕ) : Prop :=
  ∃ l : Finset α, (∀ a, a ∈ l ↔ f (g a) = true) ∧ l.card = n

theorem counted_zero (h : ∀ a, f (g a) = false) : Counted f g 0 :=
  ⟨∅, fun a => ⟨fun ha => absurd ha (Finset.notMem_empty a), fun ha => by rw [h a] at ha; cases ha⟩, rfl⟩

theorem Counted.of_zero (h : Counted f g 0) (a : α) : f (g a) = false := by
  obtain ⟨l, hl, hcard⟩ := h
  rw [Bool.eq_false_iff, ne_eq, ← hl a, Finset.card_eq_zero.1 hcard]
  exact Finset.notMem_empty a

theorem Counted.pos (h : Counted f g n) (ha : f (g a) = true) : 0 < n := by
  rcases Nat.eq_zero_or_pos n with rfl | hn
  · rw [h.of_zero a] at ha
    cases ha
  · exact hn

theorem Counted.exists_of_pos (h : Counted f g n) (hn : 0 < n) : ∃ a, f (g a) = true := by
  obtain ⟨l, hl, rfl⟩ := h
  obtain ⟨a, ha⟩ := Finset.card_pos.1 hn
  exact ⟨a, (hl a).1 ha⟩

theorem Counted.eq_of_one (h : Counted f g 1) {b : α} (ha : f (g a) = true) (hb : f (g b) = true) : a = b := by
  obtain ⟨l, hl, hcard⟩ := h
  exact Finset.card_le_one.1 hcard.le a ((hl a).2 ha) b ((hl b).2 hb)

theorem Counted.of_le {f' : β → Bool} (h : Counted f g n) (h' : Counted f' g m)
    (hsub : ∀ b, f' b = true → f b = true) (hle : n ≤ m) (ha : f (g a) = true) : f' (g a) = true := by
  obtain ⟨l, hl, rfl⟩ := h
  obtain ⟨l', hl', rfl⟩ := h'
  have hincl : l' ⊆ l := fun c hc => (hl c).2 (hsub (g c) ((hl' c).1 hc))
  rw [← hl', Finset.eq_of_subset_of_card_le hincl hle, hl]
  exact ha

theorem Counted.congr {g' : α → β} (h : Counted f g n) (hg : ∀ a, f (g' a) = f (g a)) : Counted f g' n := by
  obtain ⟨l, hl, hcard⟩ := h
  exact ⟨l, fun a => by rw [hl a, hg a], hcard⟩

variable [DecidableEq α]

theorem Counted.update (h : Counted f g n) (hm : m + (f (g a)).toNat = n + (f b).toNat) :
    Counted f (Function.update g a b) m := by
  obtain ⟨l, hl, rfl⟩ := h
  have hother : ∀ c, c ≠ a → (c ∈ l ↔ f (Function.update g a b c) = true) := by
    intro c hc
    rw [Function.update_of_ne hc, hl c]
  cases hb : f b with
  | true =>
    refine ⟨insert a l, fun c => ?_, ?_⟩
    · by_cases hc : c = a
      · rw [hc, Function.update_self, hb]
        exact ⟨fun _ => rfl, fun _ => Finset.mem_insert_self a l⟩
      · rw [Finset.mem_insert, or_iff_right hc, hother c hc]
    · cases ha : f (g a) with
      | true =>
        rw [Finset.insert_eq_of_mem ((hl a).2 ha)]
        rw [ha, hb] at hm
        omega
      | false =>
        rw [Finset.card_insert_of_notMem fun hmem => by rw [(hl a).1 hmem] at ha; cases ha]
        rw [ha, hb] at hm
        simp only [Bool.toNat_false, Bool.toNat_true] at hm
        omega
  | false =>
    refine ⟨l.erase a, fun c => ?_, ?_⟩
    · by_cases hc : c = a
      · rw [hc, Function.update_self, hb]
        exact ⟨fun h => absurd h (Finset.notMem_erase a l), fun h => by cases h⟩
      · rw [Finset.mem_erase, and_iff_right hc, hother c hc]
    · cases ha : f (g a) with
      | true =>
        rw [Finset.card_erase_of_mem ((hl a).2 ha)]
        rw [ha, hb] at hm
        simp only [Bool.toNat_false, Bool.toNat_true] at hm
        omega
      | false =>
        rw [Finset.erase_eq_of_notMem fun hmem => by rw [(hl a).1 hmem] at ha; cases ha]
        rw [ha, hb] at hm
        omega

end RtSmart.Lib
