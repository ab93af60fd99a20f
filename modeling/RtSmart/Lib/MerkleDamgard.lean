import Mathlib.Tactic

/-!
Iterated compression of a message in blocks of `m` elements, and what a reader has done that has seen a part of
the message.
-/

namespace RtSmart.Lib

variable {α S : Type*} {m n : ℕ} {compress : S → List α → S} {iv s : S} {msg rest data l r : List α}

/-- The compression of the first `n` blocks. -/
def foldBlocks (compress : S → List α → S) (m : ℕ) : ℕ → S → List α → S
  | 0, s, _ => s
  | n + 1, s, l => foldBlocks compress m n (compress s (l.take m)) (l.drop m)

theorem foldBlocks_append (h : l.length = n * m) (k : ℕ) :
    foldBlocks compress m (n + k) s (l ++ r) = foldBlocks compress m k (foldBlocks compress m n s l) r := by
  induction n generalizing s l with
  | zero =>
    obtain rfl := List.eq_nil_of_length_eq_zero (h.trans (Nat.zero_mul m))
    rw [Nat.zero_add, List.nil_append]
    rfl
  | succ n ih =>
    have hm : m ≤ l.length := by
      rw [h]
      exact Nat.le_mul_of_pos_left m n.succ_pos
    have hdrop : (l.drop m).length = n * m := by
      rw [List.length_drop, h, Nat.succ_mul, Nat.add_sub_cancel]
    rw [Nat.succ_add, foldBlocks, List.take_append_of_le_length hm, List.drop_append_of_le_length hm, ih hdrop]
    rfl

/-- The value of a message that is made of whole blocks. -/
def hashBlocked (compress : S → List α → S) (m : ℕ) (iv : S) (l : List α) : S :=
  foldBlocks compress m (l.length / m) iv l

/-- All whole blocks of `msg` have gone into `s`; `rest` is what is left of it. -/
def Absorbed (compress : S → List α → S) (m : ℕ) (iv : S) (msg : List α) (s : S) (rest : List α) : Prop :=
  ∃ n l, msg = l ++ rest ∧ l.length = n * m ∧ rest.length < m ∧ s = foldBlocks compress m n iv l

theorem Absorbed.nil (hm : 0 < m) : Absorbed compress m iv [] iv [] := ⟨0, [], rfl, (Nat.zero_mul m).symm, hm, rfl⟩

theorem Absorbed.length (h : Absorbed compress m iv msg s rest) : rest.length = msg.length % m := by
  obtain ⟨n, l, rfl, hl, hlt, -⟩ := h
  rw [List.length_append, hl, Nat.mul_comm, Nat.mul_add_mod, Nat.mod_eq_of_lt hlt]

theorem Absorbed.append (h : Absorbed compress m iv msg s rest) (data : List α) (hlt : (rest ++ data).length < m) :
    Absorbed compress m iv (msg ++ data) s (rest ++ data) := by
  obtain ⟨n, l, rfl, hl, -, hs⟩ := h
  exact ⟨n, l, List.append_assoc l rest data, hl, hlt, hs⟩

theorem Absorbed.block (h : Absorbed compress m iv msg s rest) (data : List α) (hm : 0 < m) (hlen : (rest ++ data).length = m) :
    Absorbed compress m iv (msg ++ data) (compress s (rest ++ data)) [] := by
  obtain ⟨n, l, rfl, hl, -, rfl⟩ := h
  refine ⟨n + 1, l ++ (rest ++ data), ?_, ?_, hm, ?_⟩
  · rw [List.append_nil, List.append_assoc]
  · rw [List.length_append, hl, hlen, Nat.succ_mul]
  · rw [foldBlocks_append hl, foldBlocks, List.take_of_length_le hlen.le]
    rfl

theorem Absorbed.hashBlocked (h : Absorbed compress m iv msg s []) : s = hashBlocked compress m iv msg := by
  obtain ⟨n, l, rfl, hl, hm, rfl⟩ := h
  rw [List.append_nil, Lib.hashBlocked, hl, Nat.mul_div_cancel n hm]

end RtSmart.Lib
