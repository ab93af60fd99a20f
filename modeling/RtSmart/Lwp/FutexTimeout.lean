import RtSmart.Kernel.Timer
import RtSmart.Lwp.Futex
import Mathlib.Data.Rat.Floor

/-!
The conversion of a relative futex timeout to ticks (`futex_timeout_to_tick` in `lwp_futex.c`).
-/

namespace RtSmart

def rtTickPerSecond : ℕ := 1000

def nanosecondPerSecond : ℕ := 1000000000

/-- `tick_max`. -/
def futexTickMax : ℕ := rtTickMax / 2 - 1

def futexTimeoutToTick : Option (ℤ × ℤ) → ℕ
  | none => 0
  | some (second, nsecond) =>
    let nsecondDelta := if nsecond < 0 then nsecond + nanosecondPerSecond else nsecond
    let secondDelta := if nsecond < 0 then second - 1 else second
    if secondDelta < 0 then 0
    else
      let whole := secondDelta.toNat * rtTickPerSecond % 2 ^ 64
      let tick :=
        if 0 < nsecondDelta then
          (whole + (nsecondDelta.toNat * rtTickPerSecond + nanosecondPerSecond - 1) % 2 ^ 64 / nanosecondPerSecond)
            % 2 ^ 64
        else whole
      if futexTickMax < tick then futexTickMax else tick

/-- What the pointer `timeout` of the call gives to `futex_wait`. -/
def FutexRequest.timespec (r : FutexRequest) : Option (ℤ × ℤ) :=
  if r.timeout = 0 then none else some (r.second, r.nsecond)

/-- `sys_futex` lets the request through, with a timeout. -/
structure FutexRequest.Timed (r : FutexRequest) : Prop where
  check : r.check = none
  command : r.command = .wait
  timeout : r.timeout ≠ 0

/-- The length of the timeout in nanoseconds. -/
def FutexRequest.nanoseconds (r : FutexRequest) : ℤ := r.second * nanosecondPerSecond + r.nsecond

/-- The ticks in which the timeout has passed, rounded up. -/
def FutexRequest.exactTicks (r : FutexRequest) : ℤ :=
  ⌈((r.nanoseconds * rtTickPerSecond : ℤ) : ℚ) / (nanosecondPerSecond : ℕ)⌉

namespace FutexRequest

variable {r r' : FutexRequest}

theorem Timed.bounds (h : r.Timed) : 0 ≤ r.second ∧ 0 ≤ r.nsecond ∧ r.nsecond < nanosecondPerSecond := by
  have hc := h.check
  unfold FutexRequest.check at hc
  rw [if_pos (⟨h.command, h.timeout⟩ : r.command = .wait ∧ r.timeout ≠ 0)] at hc
  have hn : ((nanosecondPerSecond : ℕ) : ℤ) = 1000000000 := rfl
  split_ifs at hc with h1 h2 h3
  rw [hn]
  omega

theorem exactTicks_eq (r : FutexRequest) :
    r.exactTicks = r.second * rtTickPerSecond + -(-(r.nsecond * rtTickPerSecond) / nanosecondPerSecond) := by
  unfold exactTicks
  rw [Rat.ceil_intCast_div_natCast, nanoseconds]
  have hn : ((nanosecondPerSecond : ℕ) : ℤ) ≠ 0 := by simp [nanosecondPerSecond]
  have he : -((r.second * (nanosecondPerSecond : ℕ) + r.nsecond) * (rtTickPerSecond : ℕ)) =
      -(r.nsecond * (rtTickPerSecond : ℕ)) + -(r.second * (rtTickPerSecond : ℕ)) * (nanosecondPerSecond : ℕ) := by
    ring
  rw [he, Int.add_mul_ediv_right _ _ hn]
  ring

theorem exactTicks_mono (h : r'.nanoseconds ≤ r.nanoseconds) : r'.exactTicks ≤ r.exactTicks := by
  unfold exactTicks
  apply Int.ceil_mono
  apply div_le_div_of_nonneg_right
  · apply Int.cast_le.mpr
    apply Int.mul_le_mul_of_nonneg_right h
    exact Int.natCast_nonneg _
  · exact Nat.cast_nonneg _

theorem Timed.exactTicks_nonneg (h : r.Timed) : 0 ≤ r.exactTicks := by
  obtain ⟨hs, hn, -⟩ := h.bounds
  apply Int.ceil_nonneg
  apply div_nonneg
  · apply Int.cast_nonneg
    apply mul_nonneg
    · have hp := Int.natCast_nonneg nanosecondPerSecond
      exact add_nonneg (mul_nonneg hs hp) hn
    · exact Int.natCast_nonneg _
  · exact Nat.cast_nonneg _

theorem clamp_eq (tick tickMax : ℕ) : (if tickMax < tick then tickMax else tick) = min tick tickMax := by
  split_ifs with h
  · exact (min_eq_right h.le).symm
  · exact (min_eq_left (not_lt.mp h)).symm

theorem tick_eq (second nsecond : ℕ) (hn : nsecond < nanosecondPerSecond) :
    (if 0 < ((nsecond : ℕ) : ℤ) then
      (second * rtTickPerSecond % 2 ^ 64 +
        (nsecond * rtTickPerSecond + nanosecondPerSecond - 1) % 2 ^ 64 / nanosecondPerSecond) % 2 ^ 64
      else second * rtTickPerSecond % 2 ^ 64) =
    (second * rtTickPerSecond + (nsecond * rtTickPerSecond + nanosecondPerSecond - 1) / nanosecondPerSecond)
      % 2 ^ 64 := by
  have hsmall : (nsecond * rtTickPerSecond + nanosecondPerSecond - 1) % 2 ^ 64 =
      nsecond * rtTickPerSecond + nanosecondPerSecond - 1 := by
    apply Nat.mod_eq_of_lt
    simp only [rtTickPerSecond, nanosecondPerSecond] at hn ⊢
    omega
  by_cases h0 : nsecond = 0
  · subst h0
    rw [if_neg (by simp)]
    simp [rtTickPerSecond, nanosecondPerSecond]
  · rw [if_pos (by exact_mod_cast Nat.pos_of_ne_zero h0), hsmall, Nat.mod_add_mod]

theorem Timed.timeoutToTick (h : r.Timed) :
    (futexTimeoutToTick r.timespec : ℤ) = min (r.exactTicks % 2 ^ 64) (futexTickMax : ℤ) := by
  obtain ⟨hs, hn, hlt⟩ := h.bounds
  obtain ⟨second, hsec⟩ := Int.eq_ofNat_of_zero_le hs
  obtain ⟨nsecond, hnsec⟩ := Int.eq_ofNat_of_zero_le hn
  have hns : nsecond < nanosecondPerSecond := by
    rw [hnsec] at hlt
    exact_mod_cast hlt
  have hexact : r.exactTicks = ((second * rtTickPerSecond +
      (nsecond * rtTickPerSecond + nanosecondPerSecond - 1) / nanosecondPerSecond : ℕ) : ℤ) := by
    rw [exactTicks_eq, hsec, hnsec]
    simp only [rtTickPerSecond, nanosecondPerSecond]
    omega
  have hcode : futexTimeoutToTick r.timespec = min ((second * rtTickPerSecond +
      (nsecond * rtTickPerSecond + nanosecondPerSecond - 1) / nanosecondPerSecond) % 2 ^ 64) futexTickMax := by
    have h0 : ¬ ((nsecond : ℕ) : ℤ) < 0 := by omega
    have h1 : ¬ ((second : ℕ) : ℤ) < 0 := by omega
    unfold timespec
    rw [if_neg h.timeout, hsec, hnsec]
    simp only [futexTimeoutToTick, if_neg h0, if_neg h1, Int.toNat_natCast]
    rw [tick_eq second nsecond hns, clamp_eq]
  rw [hcode, hexact]
  generalize second * rtTickPerSecond + (nsecond * rtTickPerSecond + nanosecondPerSecond - 1) / nanosecondPerSecond = n
  rw [Nat.cast_min, Int.natCast_mod]
  rfl

/-- The wrapped product defeats the clamp when fewer than `tick_max` ticks are left of it. -/
theorem timeout_exact_iff (h : r.Timed) :
    ((futexTimeoutToTick r.timespec : ℤ) = min r.exactTicks (futexTickMax : ℤ) ∧
      ∀ r' : FutexRequest, r'.Timed → r'.nanoseconds ≤ r.nanoseconds →
        futexTimeoutToTick r'.timespec ≤ futexTimeoutToTick r.timespec) ↔
    r.exactTicks < 2 ^ 64 ∨ (futexTickMax : ℤ) ≤ r.exactTicks % 2 ^ 64 := by
  have hcode := h.timeoutToTick
  have hpos := h.exactTicks_nonneg
  have hmax : (futexTickMax : ℤ) = 2147483646 := rfl
  constructor
  · rintro ⟨hexact, -⟩
    rw [hcode] at hexact
    by_contra hnot
    push Not at hnot
    omega
  · intro hcond
    have hexact : (futexTimeoutToTick r.timespec : ℤ) = min r.exactTicks (futexTickMax : ℤ) := by
      rw [hcode]
      obtain hlt | hle := hcond
      · rw [Int.emod_eq_of_lt hpos hlt]
      · omega
    refine ⟨hexact, fun r' h' hle => ?_⟩
    have hcode' := h'.timeoutToTick
    have hmono := exactTicks_mono hle
    have hpos' := h'.exactTicks_nonneg
    omega

/-- A wait of `second` seconds and `nsecond` nanoseconds at most. -/
def waitFor (second nsecond : ℤ) : FutexRequest := ⟨8, .wait, true, 0, 16, second, nsecond, 0, true, true, true⟩

theorem waitFor_exactTicks (second nsecond : ℤ) :
    (waitFor second nsecond).exactTicks =
      second * rtTickPerSecond + -(-(nsecond * rtTickPerSecond) / nanosecondPerSecond) :=
  exactTicks_eq _

theorem timeout_exact_iff_example :
    (waitFor 1 1).exactTicks < 2 ^ 64 ∧ (futexTimeoutToTick (waitFor 1 1).timespec : ℤ) = 1001 := by
  have hticks : (waitFor 1 1).exactTicks = 1001 := by
    rw [waitFor_exactTicks]
    rfl
  have hlt : (waitFor 1 1).exactTicks < 2 ^ 64 := by
    rw [hticks]
    norm_num
  refine ⟨hlt, ?_⟩
  rw [((timeout_exact_iff (r := waitFor 1 1) ⟨rfl, rfl, by decide⟩).mpr (.inl hlt)).1, hticks]
  rfl

/-- A wait of more than 584 million years ends before one of a second. -/
theorem timeout_wraps :
    (waitFor 18446744073709552 0).Timed ∧ (waitFor 1 0).Timed ∧
    futexTimeoutToTick (waitFor 18446744073709552 0).timespec = 384 ∧
    min (waitFor 18446744073709552 0).exactTicks futexTickMax = 2147483646 ∧
    futexTimeoutToTick (waitFor 1 0).timespec = 1000 := by
  refine ⟨⟨rfl, rfl, by decide⟩, ⟨rfl, rfl, by decide⟩, by decide +kernel, ?_, by decide +kernel⟩
  rw [waitFor_exactTicks]
  rfl

end FutexRequest

end RtSmart
