import Mathlib.Tactic

/-!
Intervals laid one after the other around a circle: the list holds the oldest first, and somewhere in
it the intervals may start again from below.
-/

namespace RtSmart.Lib

variable {α : Type*} {lo hi lo' hi' : α → ℕ} {l l' : List α} {x y z : α}

def Wrapped (lo hi : α → ℕ) (l : List α) : Prop :=
  ∃ upper lower, l = upper ++ lower ∧ (lower ++ upper).Pairwise (fun a b => hi a ≤ lo b) ∧
    ∀ b ∈ lower, ∀ a ∈ upper, lo b < lo a

namespace Wrapped

theorem nil : Wrapped lo hi [] := ⟨[], [], rfl, .nil, by simp⟩

theorem singleton (z : α) : Wrapped lo hi [z] := ⟨[z], [], rfl, List.pairwise_singleton _ _, by simp⟩

theorem sublist (h : Wrapped lo hi l) (hs : l'.Sublist l) : Wrapped lo hi l' := by
  obtain ⟨upper, lower, rfl, hp, hlt⟩ := h
  obtain ⟨u, v, rfl, hu, hv⟩ := List.sublist_append_iff.mp hs
  exact ⟨u, v, rfl, hp.sublist (hv.append hu), fun b hb a ha => hlt b (hv.subset hb) a (hu.subset ha)⟩

theorem congr (h : Wrapped lo hi l) (hlo : ∀ a ∈ l, lo' a = lo a) (hhi : ∀ a ∈ l, hi' a = hi a) : Wrapped lo' hi' l := by
  obtain ⟨upper, lower, rfl, hp, hlt⟩ := h
  refine ⟨upper, lower, rfl, ?_, fun b hb a ha => ?_⟩
  · apply hp.imp_of_mem
    intro a b ha hb hab
    rw [hlo b (by simpa [or_comm] using hb), hhi a (by simpa [or_comm] using ha)]
    exact hab
  · rw [hlo a (by simp [ha]), hlo b (by simp [hb])]
    exact hlt b hb a ha

theorem hi_le_last (hle : ∀ a, lo a ≤ hi a) (hp : l.Pairwise (fun a b => hi a ≤ lo b)) (hy : l.getLast? = some y) :
    ∀ a ∈ l, hi a ≤ hi y := by
  obtain ⟨r, rfl⟩ := List.getLast?_eq_some_iff.mp hy
  intro a ha
  rcases List.mem_append.mp ha with ha | ha
  · exact ((List.pairwise_append.mp hp).2.2 a ha y (by simp)).trans (hle y)
  · rw [List.mem_singleton.mp ha]

theorem lo_first_le (hle : ∀ a, lo a ≤ hi a) (hp : l.Pairwise (fun a b => hi a ≤ lo b)) (hx : l.head? = some x) :
    ∀ a ∈ l, lo x ≤ lo a := by
  obtain ⟨r, rfl⟩ := List.head?_eq_some_iff.mp hx
  intro a ha
  rcases List.mem_cons.mp ha with rfl | ha
  · exact le_rfl
  · exact (hle x).trans ((List.pairwise_cons.mp hp).1 a ha)

theorem ends_sorted (hle : ∀ a, lo a ≤ hi a) (hp : l.Pairwise (fun a b => hi a ≤ lo b)) (hx : l.head? = some x)
    (hy : l.getLast? = some y) :
    lo x ≤ lo y ∧ (∀ a ∈ l, lo x ≤ lo a ∧ hi a ≤ hi y) ∧ (∀ z, hi y ≤ lo z → Wrapped lo hi (l ++ [z])) ∧
      ∀ z, hi z ≤ lo x → lo z < lo x → Wrapped lo hi (l ++ [z]) := by
  have hlo := lo_first_le hle hp hx
  have hhi := hi_le_last hle hp hy
  refine ⟨hlo y (List.mem_of_getLast? hy), fun a ha => ⟨hlo a ha, hhi a ha⟩, fun z hz => ?_, fun z hz hlt => ?_⟩
  · refine ⟨l ++ [z], [], by simp, ?_, by simp⟩
    rw [List.nil_append, List.pairwise_append]
    refine ⟨hp, List.pairwise_singleton _ _, fun a ha b hb => ?_⟩
    rw [List.mem_singleton.mp hb]
    exact (hhi a ha).trans hz
  · refine ⟨l, [z], rfl, List.pairwise_cons.mpr ⟨fun a ha => hz.trans (hlo a ha), hp⟩, fun b hb a ha => ?_⟩
    rw [List.mem_singleton.mp hb]
    exact hlt.trans_le (hlo a ha)

theorem ends (hle : ∀ a, lo a ≤ hi a) (h : Wrapped lo hi l) (hx : l.head? = some x) (hy : l.getLast? = some y) :
    (lo x ≤ lo y ∧ (∀ a ∈ l, lo x ≤ lo a ∧ hi a ≤ hi y) ∧ (∀ z, hi y ≤ lo z → Wrapped lo hi (l ++ [z])) ∧
        ∀ z, hi z ≤ lo x → lo z < lo x → Wrapped lo hi (l ++ [z])) ∨
      (lo y < lo x ∧ hi y ≤ lo x ∧ (∀ a ∈ l, hi a ≤ hi y ∨ lo x ≤ lo a) ∧
        ∀ z, hi y ≤ lo z → hi z ≤ lo x → lo z < lo x → Wrapped lo hi (l ++ [z])) := by
  obtain ⟨upper, lower, rfl, hp, hlt⟩ := h
  rcases upper with _ | ⟨u, upper⟩
  · exact .inl (ends_sorted hle (by simpa using hp) hx hy)
  rcases lower.eq_nil_or_concat' with rfl | ⟨lower', v, rfl⟩
  · exact .inl (by simpa using ends_sorted hle (by simpa using hp) hx hy)
  obtain rfl : u = x := by simpa using hx
  obtain rfl : v = y := by
    rw [← List.append_assoc, List.getLast?_concat] at hy
    exact Option.some.inj hy
  obtain ⟨hplow, hpup, hcross⟩ := List.pairwise_append.mp hp
  have hlo := lo_first_le hle hpup (x := u) (by simp)
  have hhi := hi_le_last hle hplow (y := v) (by simp)
  refine .inr ⟨hlt v (by simp) u (by simp), hcross v (by simp) u (by simp), fun a ha => ?_, fun z hz hzu hlz => ?_⟩
  · rcases List.mem_append.mp ha with ha | ha
    · exact .inr (hlo a ha)
    · exact .inl (hhi a ha)
  · refine ⟨u :: upper, lower' ++ [v] ++ [z], by simp, ?_, fun b hb a ha => ?_⟩
    · rw [List.append_assoc, List.singleton_append, List.pairwise_append]
      refine ⟨hplow, List.pairwise_cons.mpr ⟨fun a ha => hzu.trans (hlo a ha), hpup⟩, fun a ha b hb => ?_⟩
      rcases List.mem_cons.mp hb with rfl | hb
      · exact (hhi a ha).trans hz
      · exact hcross a ha b hb
    · rcases List.mem_append.mp hb with hb | hb
      · exact hlt b hb a ha
      · rw [List.mem_singleton.mp hb]
        exact hlz.trans_le (hlo a ha)

end Wrapped

end RtSmart.Lib
