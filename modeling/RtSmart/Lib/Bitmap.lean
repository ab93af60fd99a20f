import Mathlib.Tactic

/-!
Sets of small numbers as bit vectors, in one level or in two: a vector of groups
over a table of rows. The order of the numbers is the order of the bits.
-/

namespace RtSmart.Lib

variable {w v : ℕ} {g : BitVec w} {tbl : ℕ → BitVec v} {S T : ℕ → Prop}

def LowestBit (x : BitVec w) (i : ℕ) : Prop := x.getLsbD i = true ∧ ∀ j < i, x.getLsbD j = false

def OneLevel (g : BitVec w) (S : ℕ → Prop) : Prop := ∀ i < w, g.getLsbD i = true ↔ S i

structure TwoLevel (g : BitVec w) (tbl : ℕ → BitVec v) (S : ℕ → Prop) : Prop where
  group : ∀ n < w, g.getLsbD n = true ↔ tbl n ≠ 0
  row : ∀ n < w, ∀ j < v, (tbl n).getLsbD j = true ↔ S (v * n + j)

theorem bitVec_ne_zero_iff (x : BitVec w) : x ≠ 0 ↔ ∃ i < w, x.getLsbD i = true := by
  constructor
  · intro hx
    by_contra hn
    push Not at hn
    exact hx (BitVec.eq_of_getLsbD_eq fun i hi => by simpa using hn i hi)
  · rintro ⟨i, -, hi⟩ rfl
    simp at hi

theorem getLsbD_or_twoPow (x : BitVec w) {p : ℕ} (hp : p < w) (i : ℕ) :
    (x ||| BitVec.twoPow w p).getLsbD i = true ↔ x.getLsbD i = true ∨ i = p := by
  simp only [BitVec.getLsbD_or, BitVec.getLsbD_twoPow, hp, decide_true, Bool.true_and, Bool.or_eq_true,
    decide_eq_true_eq]
  exact or_congr_right eq_comm

theorem getLsbD_and_not_twoPow (x : BitVec w) {p i : ℕ} (hp : p < w) (hi : i < w) :
    (x &&& ~~~BitVec.twoPow w p).getLsbD i = true ↔ x.getLsbD i = true ∧ i ≠ p := by
  simp only [BitVec.getLsbD_and, BitVec.getLsbD_not, BitVec.getLsbD_twoPow, hp, hi, decide_true,
    Bool.true_and, Bool.and_eq_true, Bool.not_eq_true', decide_eq_false_iff_not, ne_eq]
  exact and_congr_right' (not_congr eq_comm)

theorem or_twoPow_ne_zero (x : BitVec w) {p : ℕ} (hp : p < w) : x ||| BitVec.twoPow w p ≠ 0 :=
  (bitVec_ne_zero_iff _).mpr ⟨p, hp, (getLsbD_or_twoPow x hp p).mpr (.inr rfl)⟩

namespace OneLevel

theorem congr (h : OneLevel g S) (hST : ∀ i < w, S i ↔ T i) : OneLevel g T :=
  fun i hi => (h i hi).trans (hST i hi)

theorem set {p : ℕ} (h : OneLevel g S) (hp : p < w) :
    OneLevel (g ||| BitVec.twoPow w p) fun i => S i ∨ i = p := fun i hi => by
  rw [getLsbD_or_twoPow g hp, h i hi]

theorem clear {p : ℕ} (h : OneLevel g S) (hp : p < w) :
    OneLevel (g &&& ~~~BitVec.twoPow w p) fun i => S i ∧ i ≠ p := fun i hi => by
  rw [getLsbD_and_not_twoPow g hp hi, h i hi]

theorem lowest {i : ℕ} (h : OneLevel g S) (hi : i < w) (hl : LowestBit g i) :
    S i ∧ ∀ j < i, ¬ S j := by
  refine ⟨(h i hi).mp hl.1, fun j hj hS => ?_⟩
  have hb := (h j (hj.trans hi)).mpr hS
  simp [hl.2 j hj] at hb

end OneLevel

namespace TwoLevel

theorem congr (h : TwoLevel g tbl S) (hST : ∀ i < v * w, S i ↔ T i) : TwoLevel g tbl T :=
  ⟨h.group, fun n hn j hj => (h.row n hn j hj).trans (hST _ (by nlinarith))⟩

theorem split (hv : 0 < v) (p : ℕ) : v * (p / v) + p % v = p ∧ p % v < v :=
  ⟨Nat.div_add_mod p v, Nat.mod_lt p hv⟩

theorem eq_split {n j p : ℕ} (hv : 0 < v) (hj : j < v) : v * n + j = p ↔ n = p / v ∧ j = p % v := by
  constructor
  · rintro rfl
    rw [Nat.mul_add_div hv, Nat.div_eq_of_lt hj, Nat.mul_add_mod, Nat.mod_eq_of_lt hj]
    exact ⟨rfl, rfl⟩
  · rintro ⟨rfl, rfl⟩
    exact Nat.div_add_mod p v

theorem set {p : ℕ} (h : TwoLevel g tbl S) (hv : 0 < v) (hp : p / v < w) :
    TwoLevel (g ||| BitVec.twoPow w (p / v))
      (Function.update tbl (p / v) (tbl (p / v) ||| BitVec.twoPow v (p % v)))
      fun i => S i ∨ i = p := by
  have hm := (split hv p).2
  constructor
  · intro n hn
    rw [getLsbD_or_twoPow g hp, h.group n hn]
    by_cases he : n = p / v
    · subst he
      simpa using or_twoPow_ne_zero (tbl (p / v)) hm
    · simp [he]
  · intro n hn j hj
    by_cases he : n = p / v
    · subst he
      simp only [Function.update_self, getLsbD_or_twoPow _ hm, h.row _ hn j hj, eq_split hv hj, true_and]
    · simp only [Function.update_of_ne he, h.row n hn j hj, eq_split hv hj, he, false_and, or_false]

theorem clear {p : ℕ} (h : TwoLevel g tbl S) (hv : 0 < v) (hp : p / v < w) :
    TwoLevel (if tbl (p / v) &&& ~~~BitVec.twoPow v (p % v) = 0 then g &&& ~~~BitVec.twoPow w (p / v) else g)
      (Function.update tbl (p / v) (tbl (p / v) &&& ~~~BitVec.twoPow v (p % v)))
      fun i => S i ∧ i ≠ p := by
  have hm := (split hv p).2
  constructor
  · intro n hn
    by_cases he : n = p / v
    · subst he
      rw [Function.update_self]
      split_ifs with hz
      · simp [hz]
      · refine ⟨fun _ => hz, fun _ => (h.group _ hn).mpr fun h0 => hz ?_⟩
        simp [h0]
    · rw [Function.update_of_ne he, ← h.group n hn]
      split_ifs with hz
      · rw [getLsbD_and_not_twoPow g hp hn]
        exact and_iff_left he
      · rfl
  · intro n hn j hj
    by_cases he : n = p / v
    · subst he
      simp only [Function.update_self, getLsbD_and_not_twoPow _ hm hj, h.row _ hn j hj, ne_eq,
        eq_split hv hj, true_and]
    · simp only [Function.update_of_ne he, h.row n hn j hj, ne_eq, eq_split hv hj, he, false_and,
        not_false_eq_true, and_true]

theorem lowest {n j : ℕ} (h : TwoLevel g tbl S) (hn : n < w) (hj : j < v) (hg : LowestBit g n)
    (ht : LowestBit (tbl n) j) : S (v * n + j) ∧ ∀ q < v * n + j, ¬ S q := by
  refine ⟨(h.row n hn j hj).mp ht.1, fun q hq hS => ?_⟩
  have hv : 0 < v := by omega
  obtain ⟨he, hm⟩ := split hv q
  have hle : q / v ≤ n := by
    by_contra hlt
    have := Nat.mul_le_mul_left v (show n + 1 ≤ q / v by omega)
    rw [Nat.mul_add] at this
    omega
  have hqw : q / v < w := by omega
  have hb := (h.row _ hqw _ hm).mpr (by rwa [he])
  rcases Nat.lt_or_eq_of_le hle with hlt | heq
  · have h0 := (h.group _ hqw).mpr ((bitVec_ne_zero_iff _).mpr ⟨_, hm, hb⟩)
    simp [hg.2 _ hlt] at h0
  · rw [heq] at hb he
    simp [ht.2 (q % v) (by omega)] at hb

end TwoLevel

end RtSmart.Lib
