import Mathlib.Tactic

/-! Numbers as lists of machine words, the lowest word first. -/

namespace RtSmart.Lib.Limbs

variable {w i j k n : ℕ} {l m : List (BitVec w)}

def value : List (BitVec w) → ℕ
  | [] => 0
  | x :: l => x.toNat + 2 ^ w * value l

theorem value_cons (x : BitVec w) (l : List (BitVec w)) : value (x :: l) = x.toNat + 2 ^ w * value l := rfl

theorem value_append (l m : List (BitVec w)) : value (l ++ m) = value l + (2 ^ w) ^ l.length * value m := by
  induction l with
  | nil => simp [value]
  | cons x l ih =>
    rw [List.cons_append, value_cons, value_cons, ih, List.length_cons, pow_succ]
    ring

theorem value_lt (l : List (BitVec w)) : value l < (2 ^ w) ^ l.length := by
  induction l with
  | nil => simp [value]
  | cons x l ih =>
    have hx := x.isLt
    rw [value_cons, List.length_cons, pow_succ]
    nlinarith

theorem value_inj (hlen : l.length = m.length) (h : value l = value m) : l = m := by
  induction l generalizing m with
  | nil => exact (List.eq_nil_of_length_eq_zero hlen.symm).symm
  | cons x l ih =>
    cases m with
    | nil => cases hlen
    | cons y m =>
      rw [value_cons, value_cons] at h
      have hlow : x.toNat = y.toNat := by
        have hmod := congrArg (· % 2 ^ w) h
        simpa [Nat.mod_eq_of_lt x.isLt, Nat.mod_eq_of_lt y.isLt] using hmod
      have hhigh : value l = value m := by
        rw [hlow] at h
        exact Nat.eq_of_mul_eq_mul_left (Nat.two_pow_pos w) (Nat.add_left_cancel h)
      rw [BitVec.eq_of_toNat_eq hlow, ih (Nat.succ_injective hlen) hhigh]

theorem value_take_succ (h : i < l.length) : value (l.take (i + 1)) = value (l.take i) + (2 ^ w) ^ i * (l.getD i 0).toNat := by
  rw [List.take_succ_eq_append_getElem h, value_append, List.length_take, min_eq_left h.le]
  simp [value, List.getD_eq_getElem?_getD, List.getElem?_eq_getElem h]

theorem value_eq_sum (l : List (BitVec w)) (h : l.length ≤ n) :
    value l = ∑ i ∈ Finset.range n, (2 ^ w) ^ i * (l.getD i 0).toNat := by
  induction l generalizing n with
  | nil => simp [value]
  | cons x l ih =>
    obtain ⟨n, rfl⟩ := Nat.exists_eq_add_of_le' (Nat.zero_lt_of_lt h)
    rw [Finset.sum_range_succ', value_cons, ih (Nat.le_of_succ_le_succ h), Finset.mul_sum]
    simp only [List.getD_cons_succ, List.getD_cons_zero, pow_succ]
    rw [Nat.add_comm, pow_zero, Nat.one_mul]
    congr 1
    apply Finset.sum_congr rfl
    intro i _
    ring

/-- What the products of the words add to word `k`. -/
def column (l m : List (BitVec w)) (k : ℕ) : ℕ :=
  ∑ i ∈ Finset.range (k + 1), (l.getD i 0).toNat * (m.getD (k - i) 0).toNat

theorem column_cons_succ (x : BitVec w) : column (x :: l) m (k + 1) = column l m k + x.toNat * (m.getD (k + 1) 0).toNat := by
  rw [column, Finset.sum_range_succ', column]
  simp only [List.getD_cons_succ, List.getD_cons_zero, Nat.sub_zero, Nat.add_sub_add_right]

theorem column_cons_zero (x : BitVec w) : column (x :: l) m 0 = x.toNat * (m.getD 0 0).toNat := by
  simp [column]

theorem value_mul (l m : List (BitVec w)) (h : l.length + m.length ≤ n) :
    value l * value m = ∑ k ∈ Finset.range n, (2 ^ w) ^ k * column l m k := by
  induction l generalizing n with
  | nil => simp [value, column]
  | cons x l ih =>
    rw [List.length_cons] at h
    obtain ⟨n, rfl⟩ : ∃ r, n = r + 1 := ⟨n - 1, by omega⟩
    have hm : value m = ∑ k ∈ Finset.range (n + 1), (2 ^ w) ^ k * (m.getD k 0).toNat := value_eq_sum m (by omega)
    have hfirst : x.toNat * value m =
        (∑ k ∈ Finset.range n, x.toNat * ((2 ^ w) ^ (k + 1) * (m.getD (k + 1) 0).toNat)) +
          x.toNat * (m.getD 0 0).toNat := by
      rw [hm, Finset.sum_range_succ', Nat.mul_add, Finset.mul_sum, pow_zero, Nat.one_mul]
    have hrest : 2 ^ w * (value l * value m) = ∑ k ∈ Finset.range n, (2 ^ w) ^ (k + 1) * column l m k := by
      have hlen : l.length + m.length ≤ n := by omega
      rw [ih hlen, Finset.mul_sum]
      apply Finset.sum_congr rfl
      intro k _
      ring
    rw [value_cons, Nat.add_mul, hfirst, Nat.mul_assoc, hrest, Finset.sum_range_succ', column_cons_zero, pow_zero,
      Nat.one_mul, Nat.add_right_comm, ← Finset.sum_add_distrib]
    congr 1
    apply Finset.sum_congr rfl
    intro k _
    rw [column_cons_succ]
    ring

theorem column_eq_Ico (hl : l.length ≤ n) (hm : m.length ≤ n) (k : ℕ) :
    column l m k = ∑ i ∈ Finset.Ico (k + 1 - n) (min n (k + 1)), (l.getD i 0).toNat * (m.getD (k - i) 0).toNat := by
  symm
  apply Finset.sum_subset
  · intro i hi
    rw [Finset.mem_Ico] at hi
    exact Finset.mem_range.mpr (hi.2.trans_le (min_le_right _ _))
  · intro i hi hni
    rw [Finset.mem_range] at hi
    rw [Finset.mem_Ico] at hni
    by_cases hin : i < n
    · have hge : m.length ≤ k - i := by
        have hlow : ¬k + 1 - n ≤ i := fun hlow => hni ⟨hlow, lt_min hin hi⟩
        omega
      simp [List.getD_eq_getElem?_getD, hge]
    · simp [List.getD_eq_getElem?_getD, hl.trans (Nat.le_of_not_lt hin)]

theorem column_le (hl : l.length ≤ n) (hm : m.length ≤ n) (k : ℕ) : column l m k ≤ n * (2 ^ w - 1) ^ 2 := by
  rw [column_eq_Ico hl hm]
  refine (Finset.sum_le_card_nsmul _ _ ((2 ^ w - 1) ^ 2) ?_).trans ?_
  · intro i _
    rw [sq]
    exact Nat.mul_le_mul (Nat.le_sub_one_of_lt (l.getD i 0).isLt) (Nat.le_sub_one_of_lt (m.getD (k - i) 0).isLt)
  · rw [Nat.card_Ico, smul_eq_mul]
    apply Nat.mul_le_mul_right
    omega

end RtSmart.Lib.Limbs
