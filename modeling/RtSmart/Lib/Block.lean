import Mathlib.Tactic

/-! Strings of a fixed length, and their places in longer ones. -/

namespace RtSmart.Lib

variable {α : Type*}

abbrev Block (α : Type*) (n : ℕ) := { l : List α // l.length = n }

namespace Block

variable {n m off : ℕ} {l pre post : List α} (d : α)

/-- The first `n` elements, filled up with `d`. -/
def ofList (n : ℕ) (l : List α) : Block α n := ⟨(l ++ List.replicate n d).take n, by simp⟩

/-- The `n` elements from place `off` on. -/
def slice (off n : ℕ) (l : List α) : Block α n := ofList d n (l.drop off)

/-- `n` strings of length `m` that lie one after the other. -/
def chunks (m : ℕ) : ℕ → List α → List (Block α m)
  | 0, _ => []
  | n + 1, l => ofList d m l :: chunks m n (l.drop m)

def join (bs : List (Block α m)) : List α := bs.flatMap Subtype.val

theorem ofList_append (b : Block α n) (post : List α) : ofList d n (b.1 ++ post) = b := by
  apply Subtype.ext
  change ((b.1 ++ post) ++ List.replicate n d).take n = b.1
  rw [List.append_assoc, List.take_append_of_le_length (by rw [b.2]), List.take_of_length_le (by rw [b.2])]

theorem ofList_val (b : Block α n) : ofList d n b.1 = b := by
  have h := ofList_append d b []
  rwa [List.append_nil] at h

theorem val_ofList (h : l.length = n) : (ofList d n l).1 = l := congrArg Subtype.val (ofList_val d ⟨l, h⟩)

theorem slice_append (b : Block α n) (h : pre.length = off) : slice d off n (pre ++ (b.1 ++ post)) = b := by
  rw [slice, List.drop_left' h]
  exact ofList_append d b post

theorem join_length (bs : List (Block α m)) : (join bs).length = bs.length * m := by
  induction bs with
  | nil => simp [join]
  | cons b bs ih =>
    change (b.1 ++ join bs).length = _
    rw [List.length_append, ih, b.2, List.length_cons]
    ring

theorem chunks_join (bs : List (Block α m)) : chunks d m bs.length (join bs) = bs := by
  induction bs with
  | nil => rfl
  | cons b bs ih =>
    change ofList d m (b.1 ++ join bs) :: chunks d m bs.length ((b.1 ++ join bs).drop m) = _
    rw [ofList_append, List.drop_left' b.2, ih]

theorem chunks_length (n : ℕ) (l : List α) : (chunks d m n l).length = n := by
  induction n generalizing l with
  | zero => rfl
  | succ n ih => rw [chunks, List.length_cons, ih]

theorem join_chunks (h : l.length = n * m) : join (chunks d m n l) = l := by
  induction n generalizing l with
  | zero =>
    rw [Nat.zero_mul, List.length_eq_zero_iff] at h
    rw [h]
    rfl
  | succ n ih =>
    have hm : m ≤ l.length := by
      rw [h]
      exact Nat.le_mul_of_pos_left m n.succ_pos
    have hrest : (l.drop m).length = n * m := by
      rw [List.length_drop, h, Nat.succ_mul, Nat.add_sub_cancel]
    have hfirst : ofList d m l = ⟨l.take m, List.length_take_of_le hm⟩ := by
      have hsplit := ofList_append d ⟨l.take m, List.length_take_of_le hm⟩ (l.drop m)
      rwa [List.take_append_drop] at hsplit
    change (ofList d m l).1 ++ join (chunks d m n (l.drop m)) = l
    rw [ih hrest, hfirst]
    exact List.take_append_drop m l

end Block

end RtSmart.Lib
