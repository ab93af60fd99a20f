import Mathlib.Tactic

/-!
Writing a list over a part of another one.
-/

namespace RtSmart.Lib

variable {α : Type*} {l data : List α} {pos n : ℕ}

/-- `data` over the items of `l` from `pos` on. -/
def splice (l : List α) (pos : ℕ) (data : List α) : List α := l.take pos ++ data ++ l.drop (pos + data.length)

theorem length_splice (data : List α) (h : pos ≤ l.length) : (splice l pos data).length = max l.length (pos + data.length) := by
  simp only [splice, List.length_append, List.length_take, List.length_drop]
  omega

theorem splice_of_le (h : l.length ≤ pos + data.length) : splice l pos data = l.take pos ++ data := by
  rw [splice, List.drop_eq_nil_of_le h, List.append_nil]

theorem splice_grown {fill : List α} (h : pos ≤ l.length) (hn : l.length ≤ n) (hfill : (l ++ fill).length = n)
    (hcover : pos + data.length = n) : splice (l ++ fill) pos data = splice l pos data := by
  rw [splice_of_le (hfill.trans hcover.symm).le, splice_of_le (hn.trans hcover.ge), List.take_append_of_le_length h]

theorem take_splice (data : List α) (h : pos ≤ l.length) : (splice l pos data).take (pos + data.length) = l.take pos ++ data := by
  rw [splice]
  apply List.take_left'
  rw [List.length_append, List.length_take, Nat.min_eq_left h]

end RtSmart.Lib
