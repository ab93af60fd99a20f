import Mathlib.Tactic

/-!
Bytes that are stored and loaded through a translation of addresses, one by one and in blocks.
-/

namespace RtSmart.Lib

variable {β : Type*} {f : ℕ → ℕ} {src mem dst : ℕ → β} {n len pa a i : ℕ}

/-- The values `src 0`, …, `src (n - 1)`, stored in this order at their places. -/
def storeBytes (f : ℕ → ℕ) (src : ℕ → β) : ℕ → (ℕ → β) → ℕ → β
  | 0, mem => mem
  | n + 1, mem => Function.update (storeBytes f src n mem) (f n) (src n)

/-- The first `n` values that lie at the places `f`. -/
def loadBytes (f : ℕ → ℕ) (mem : ℕ → β) (n : ℕ) (dst : ℕ → β) (i : ℕ) : β :=
  if i < n then mem (f i) else dst i

/-- `len` values from `src off` on, stored from `pa` on. -/
def blit (pa off len : ℕ) (src mem : ℕ → β) (a : ℕ) : β :=
  if pa ≤ a ∧ a < pa + len then src (off + (a - pa)) else mem a

theorem storeBytes_of_ne (h : ∀ i < n, f i ≠ a) : storeBytes f src n mem a = mem a := by
  induction n with
  | zero => rfl
  | succ n ih =>
    rw [storeBytes, Function.update_of_ne (h n n.lt_succ_self).symm]
    exact ih fun i hi => h i (Nat.lt_succ_of_lt hi)

theorem storeBytes_last (hi : i < n) (h : ∀ j < n, i < j → f j ≠ f i) : storeBytes f src n mem (f i) = src i := by
  induction n with
  | zero => cases hi
  | succ n ih =>
    rw [storeBytes]
    rcases Nat.lt_succ_iff_lt_or_eq.mp hi with hlt | rfl
    · rw [Function.update_of_ne (h n n.lt_succ_self hlt).symm]
      exact ih hlt fun j hj => h j (Nat.lt_succ_of_lt hj)
    · exact Function.update_self _ _ _

theorem blit_storeBytes (h : ∀ j < len, f (n + j) = pa + j) :
    blit pa n len src (storeBytes f src n mem) = storeBytes f src (n + len) mem := by
  induction len with
  | zero =>
    funext a
    exact if_neg (by omega)
  | succ len ih =>
    have hih := ih fun j hj => h j (Nat.lt_succ_of_lt hj)
    have hlast := h len len.lt_succ_self
    rw [← Nat.add_assoc, storeBytes, ← hih, hlast]
    funext a
    by_cases ha : a = pa + len
    · subst ha
      rw [Function.update_self, blit, if_pos (by omega), Nat.add_sub_cancel_left]
    · rw [Function.update_of_ne ha, blit, blit]
      by_cases hin : pa ≤ a ∧ a < pa + len
      · rw [if_pos hin, if_pos (by omega)]
      · rw [if_neg hin, if_neg (by omega)]

theorem blit_loadBytes (h : ∀ j < len, f (n + j) = pa + j) :
    blit n pa len mem (loadBytes f mem n dst) = loadBytes f mem (n + len) dst := by
  funext i
  rw [blit, loadBytes, loadBytes]
  by_cases hin : n ≤ i ∧ i < n + len
  · have hplace := h (i - n) (by omega)
    rw [Nat.add_sub_cancel' hin.1] at hplace
    rw [if_pos hin, if_pos hin.2, hplace]
  · rw [if_neg hin]
    by_cases hlt : i < n
    · rw [if_pos hlt, if_pos (by omega)]
    · rw [if_neg hlt, if_neg (by omega)]

end RtSmart.Lib
