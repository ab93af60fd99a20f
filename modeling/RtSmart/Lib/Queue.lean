import Mathlib.Tactic

namespace RtSmart.Lib

variable {α κ : Type*} [LinearOrder κ] {a : α} {l : List α} {R : α → α → Prop}

theorem pairwise_orderedInsert (key : α → κ) (hkey : ∀ b c, R b c → key b ≤ key c) (hl : l.Pairwise R)
    (hlt : ∀ b ∈ l, key a < key b → R a b) (hge : ∀ b ∈ l, key b ≤ key a → R b a) :
    (l.orderedInsert (fun b c => key b < key c) a).Pairwise R := by
  induction l with
  | nil => simp
  | cons b l ih =>
    obtain ⟨hb, hl'⟩ := List.pairwise_cons.mp hl
    rw [List.orderedInsert_cons]
    split_ifs with hab
    · refine List.pairwise_cons.mpr ⟨fun c hc => hlt c hc ?_, hl⟩
      rcases List.mem_cons.mp hc with rfl | hc
      · exact hab
      · exact hab.trans_le (hkey b c (hb c hc))
    · have hrest := ih hl' (fun c hc => hlt c (List.mem_cons_of_mem _ hc))
        fun c hc => hge c (List.mem_cons_of_mem _ hc)
      refine List.pairwise_cons.mpr ⟨fun c hc => ?_, hrest⟩
      rcases (List.mem_orderedInsert _).mp hc with rfl | hc
      · exact hge b (by simp) (not_lt.mp hab)
      · exact hb c hc

end RtSmart.Lib
