import RtSmart.Kernel.TimerOrder

/-!
The thread of the soft timers: what one iteration of `rt_thread_timer_entry` does about the earliest
deadline.
-/

namespace RtSmart

namespace TimerSys

/-- A thread that calls `rt_thread_delay` is woken by the first check after the call that finds its own
timer expired. -/
def Wakes (now ticks : BitVec 32) (k : ℕ) : Prop :=
  IsLeast {k | 0 < k ∧ expired (now + BitVec.ofNat 32 k) (now + ticks)} k

/-- The iteration suspends the thread on an empty list only, wakes it no later than any deadline on the
list, or goes on to a timeout function. -/
def Punctual (level : ℕ) (s : TimerSys) : Prop :=
  match timerEntryWait level s with
  | .suspend => s.rows true (level - 1) = []
  | .delay ticks => ∃ k, Wakes s.tick ticks k ∧ ∀ t ∈ s.rows true (level - 1), k ≤ (s.deadline t - s.tick).toNat
  | .go => ∃ s' t, checkExpire level s true = some s' ∧ s'.expiring true = some t ∧
    t ∈ s.rows true (level - 1) ∧ expired s.tick (s.deadline t)

variable {level : ℕ} {s : TimerSys} {t : ℕ} {l : List ℕ}

theorem wakes_iff {now ticks : BitVec 32} (hn : ticks.toNat < rtTickMax / 2) (k : ℕ) :
    Wakes now ticks k ↔ k = max 1 ticks.toNat := by
  have hleast : Wakes now ticks (max 1 ticks.toNat) := by
    constructor
    · refine ⟨by omega, ?_⟩
      unfold expired rtTickMax at *
      bv_omega
    · rintro j ⟨hj, hexp⟩
      by_contra hlt
      unfold expired rtTickMax at *
      bv_omega
  constructor
  · intro hk
    exact hk.unique hleast
  · rintro rfl
    exact hleast

theorem timerEntryWait_cons (hrow : s.rows true (level - 1) = t :: l) :
    timerEntryWait level s = if s.deadline t = BitVec.ofNat 32 rtTickMax then .suspend
      else if (s.deadline t - s.tick).toNat < rtTickMax / 2 then .delay (s.deadline t - s.tick) else .go := by
  unfold timerEntryWait nextTimeout
  rw [hrow]
  rfl

theorem punctual_delay (hrow : s.rows true (level - 1) = t :: l) (hs : (t :: l).Pairwise s.Ordered)
    (hd : (s.deadline t - s.tick).toNat < rtTickMax / 2) :
    (∃ k, Wakes s.tick (s.deadline t - s.tick) k ∧
      ∀ u ∈ s.rows true (level - 1), k ≤ (s.deadline u - s.tick).toNat) ↔ 0 < (s.deadline t - s.tick).toNat := by
  rw [hrow]
  constructor
  · rintro ⟨k, hk, hle⟩
    rw [wakes_iff hd] at hk
    have hhead := hle t List.mem_cons_self
    omega
  · intro hpos
    refine ⟨_, (wakes_iff hd _).mpr rfl, ?_⟩
    intro u hu
    rcases List.mem_cons.mp hu with rfl | hu
    · omega
    · have hbefore := ((List.pairwise_cons.mp hs).1 u hu).1
      unfold Before rtTickMax at *
      bv_omega

theorem punctual_go (hrow : s.rows true (level - 1) = t :: l) (hidle : s.expiring true = none) :
    (∃ s' u, checkExpire level s true = some s' ∧ s'.expiring true = some u ∧
      u ∈ s.rows true (level - 1) ∧ expired s.tick (s.deadline u)) ↔ expired s.tick (s.deadline t) := by
  constructor
  · rintro ⟨s', u, hs', hu, -, -⟩
    by_contra hne
    have hcheck : checkExpire level s true = some s := by
      unfold checkExpire
      simp only [hidle, hrow, ne_eq, not_true_eq_false, if_false]
      exact if_neg hne
    rw [hcheck] at hs'
    obtain rfl := Option.some.inj hs'
    rw [hidle] at hu
    cases hu
  · intro hexp
    have hcheck : ∃ s', checkExpire level s true = some s' ∧ s'.expiring true = some t := by
      unfold checkExpire
      simp only [hidle, hrow, ne_eq, not_true_eq_false, if_false]
      unfold deadline at hexp
      rw [if_pos hexp]
      exact ⟨_, rfl, by simp⟩
    obtain ⟨s', hs', hu⟩ := hcheck
    exact ⟨s', t, hs', hu, by rw [hrow]; exact List.mem_cons_self, hexp⟩

theorem toNat_sub_pos (a b : BitVec 32) : 0 < (a - b).toNat ↔ a ≠ b := by
  bv_omega

theorem soft_timer_thread_punctual (level : ℕ) (s : TimerSys) (t : ℕ) (l : List ℕ)
    (hrow : s.rows true (level - 1) = t :: l) (hs : (t :: l).Pairwise s.Ordered) (hidle : s.expiring true = none) :
    s.Punctual level ↔ s.deadline t ≠ BitVec.ofNat 32 rtTickMax ∧ s.deadline t ≠ s.tick ∧
      ((s.deadline t - s.tick).toNat < rtTickMax / 2 ∨ (s.tick - s.deadline t).toNat < rtTickMax / 2) := by
  unfold Punctual
  rw [timerEntryWait_cons hrow]
  generalize BitVec.ofNat 32 rtTickMax = m
  split_ifs with hmax hdelay
  · simp only [hrow, hmax, ne_eq, not_true_eq_false, false_and, reduceCtorEq]
  · dsimp only
    rw [punctual_delay hrow hs hdelay, toNat_sub_pos]
    simp only [hmax, hdelay, ne_eq, not_false_eq_true, true_or, and_true, true_and]
  · dsimp only
    rw [punctual_go hrow hidle]
    simp only [hmax, hdelay, ne_eq, not_false_eq_true, false_or, true_and]
    constructor
    · intro hexp
      refine ⟨?_, hexp⟩
      intro heq
      apply hdelay
      rw [heq, BitVec.sub_self]
      decide
    · exact And.right

theorem soft_timer_thread_punctual_example :
    ∃ s, Lib.run (step 1 3) (init 100 fun _ => ⟨false, false, true, 0, 0, 20, 0⟩) [.start 0, .tick 5] = some s ∧
      timerEntryWait 1 s = .delay 15 ∧ s.Punctual 1 := by
  have hrun : (Lib.run (step 1 3) (init 100 fun _ => ⟨false, false, true, 0, 0, 20, 0⟩) [.start 0, .tick 5]).map
      (fun s => (s.rows true 0, s.expiring true, s.tick, s.deadline 0, timerEntryWait 1 s)) =
      some ([0], none, 105, 120, .delay 15) := by
    decide +kernel
  obtain ⟨s, hs, hval⟩ := Option.map_eq_some_iff.mp hrun
  simp only [Prod.mk.injEq] at hval
  obtain ⟨hrow, hidle, htick, hdead, hwait⟩ := hval
  refine ⟨s, hs, hwait, (soft_timer_thread_punctual 1 s 0 [] hrow (List.pairwise_singleton _ _) hidle).mpr ?_⟩
  rw [htick, hdead]
  decide +kernel

/-- A timer that is due at the last tick before the counter wraps: the thread suspends itself. -/
theorem soft_timer_due_at_tick_max :
    ¬ ∀ (level : ℕ) (s : TimerSys), s.rows true (level - 1) ≠ [] → (s.rows true (level - 1)).Pairwise s.Ordered →
      s.expiring true = none → s.Punctual level := by
  intro h
  have hrun : (Lib.run (step 1 3) (init 0xffffff00 fun _ => ⟨false, false, true, 0, 0, 255, 0⟩) [.start 0]).map
      (fun s => (s.rows true 0, s.expiring true, timerEntryWait 1 s)) = some ([0], none, .suspend) := by
    decide +kernel
  obtain ⟨s, -, hval⟩ := Option.map_eq_some_iff.mp hrun
  simp only [Prod.mk.injEq] at hval
  obtain ⟨hrow, hidle, hwait⟩ := hval
  have hp := h 1 s (by simp [hrow]) (by rw [hrow]; exact List.pairwise_singleton _ _) hidle
  unfold Punctual at hp
  rw [hwait] at hp
  rw [hrow] at hp
  cases hp

end TimerSys

end RtSmart
