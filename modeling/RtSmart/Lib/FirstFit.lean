import Mathlib.Tactic

/-!
The first run of free positions: a scan that counts the free positions it has just passed.
-/

namespace RtSmart.Lib

variable {free : ℕ → Bool} {len n i todo pos count : ℕ}

/-- The `n` positions from `i` on are free and end by `len`. -/
structure RunAt (free : ℕ → Bool) (len n i : ℕ) : Prop where
  le : i + n ≤ len
  free : ∀ j < n, free (i + j) = true

/-- `count` free positions end at `pos`, and `todo` more are to be looked at. -/
def firstRun (free : ℕ → Bool) (n : ℕ) : (todo pos count : ℕ) → Option ℕ
  | 0, _, _ => none
  | todo + 1, pos, count =>
    if free pos then
      if n ≤ count + 1 then some (pos - count) else firstRun free n todo (pos + 1) (count + 1)
    else firstRun free n todo (pos + 1) 0

theorem RunAt.le_of_not_free (h : RunAt free len n i) (hpos : free pos = false) (hi : i ≤ pos) : i + n ≤ pos := by
  by_contra hlt
  have hfree := h.free (pos - i) (by omega)
  rw [Nat.add_sub_cancel' hi, hpos] at hfree
  cases hfree

theorem firstRun_some (hcount : count < n) (hle : count ≤ pos)
    (hfree : ∀ j, pos - count ≤ j → j < pos → free j = true) (h : firstRun free n todo pos count = some i) :
    RunAt free (pos + todo) n i ∧ ∀ k, pos - count ≤ k → k < i → ¬RunAt free (pos + todo) n k := by
  induction todo generalizing pos count with
  | zero => cases h
  | succ todo ih =>
    rw [firstRun] at h
    by_cases hp : free pos = true
    · have hfree' : ∀ j, pos - count ≤ j → j < pos + 1 → free j = true := by
        intro j hj hlt
        rcases Nat.lt_succ_iff_lt_or_eq.mp hlt with hlt | rfl
        · exact hfree j hj hlt
        · exact hp
      rw [if_pos hp] at h
      by_cases hn : n ≤ count + 1
      · rw [if_pos hn, Option.some.injEq] at h
        subst h
        refine ⟨⟨by omega, ?_⟩, fun k hk hlt => absurd hlt (by omega)⟩
        intro j hj
        exact hfree' _ (by omega) (by omega)
      · rw [if_neg hn] at h
        have hstart : pos + 1 - (count + 1) = pos - count := by omega
        have hih := ih (by omega) (by omega) (by rwa [hstart]) h
        rwa [hstart, Nat.add_right_comm, Nat.add_assoc] at hih
    · rw [if_neg hp] at h
      obtain ⟨hrun, hfirst⟩ := ih (by omega) (by omega) (fun j hj hlt => absurd hlt (by omega)) h
      rw [Nat.add_right_comm, Nat.add_assoc] at hrun hfirst
      refine ⟨hrun, fun k hk hlt hrunk => ?_⟩
      -- a run that starts by `pos` would need the position that is not free
      rcases Nat.lt_or_ge pos k with hkpos | hkpos
      · exact hfirst k (by omega) hlt hrunk
      · have hcut := hrunk.le_of_not_free (Bool.eq_false_of_not_eq_true hp) hkpos
        omega

theorem firstRun_none (hcount : count < n) (hle : count ≤ pos) (h : firstRun free n todo pos count = none) :
    ∀ k, pos - count ≤ k → ¬RunAt free (pos + todo) n k := by
  induction todo generalizing pos count with
  | zero =>
    intro k hk hrun
    have hlen := hrun.le
    omega
  | succ todo ih =>
    rw [firstRun] at h
    by_cases hp : free pos = true
    · rw [if_pos hp] at h
      by_cases hn : n ≤ count + 1
      · rw [if_pos hn] at h
        cases h
      · rw [if_neg hn] at h
        have hstart : pos + 1 - (count + 1) = pos - count := by omega
        have hih := ih (by omega) (by omega) h
        rwa [hstart, Nat.add_right_comm, Nat.add_assoc] at hih
    · rw [if_neg hp] at h
      intro k hk hrun
      rcases Nat.lt_or_ge pos k with hkpos | hkpos
      · rw [← Nat.add_assoc, Nat.add_right_comm] at hrun
        exact ih (by omega) (by omega) h k (by omega) hrun
      · have hcut := hrun.le_of_not_free (Bool.eq_false_of_not_eq_true hp) hkpos
        omega

end RtSmart.Lib
