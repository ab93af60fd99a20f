import RtSmart.Drivers.NTty

/-!
What `find_next_bit` finds. It counts words of 32 bits and reads words of 64.
-/

namespace RtSmart

def LowBit (w : BitVec 64) (j : ℕ) : Prop :=
  w.getLsbD j = true ∧ ∀ i < j, w.getLsbD i = false

theorem getLsbD_ones {b i : ℕ} (hb : b ≤ 64) : (BitVec.ofNat 64 (2 ^ b - 1)).getLsbD i = decide (i < b) := by
  rw [BitVec.getLsbD_ofNat, Nat.testBit_two_pow_sub_one]
  by_cases hi : i < b
  · simp [hi, show i < 64 by omega]
  · simp [hi]

theorem and_ones_eq_zero {w : BitVec 64} {b : ℕ} (hb : b ≤ 64) :
    w &&& BitVec.ofNat 64 (2 ^ b - 1) = 0 ↔ ∀ i < b, w.getLsbD i = false := by
  constructor
  · intro h i hi
    have hbit := congrArg (·.getLsbD i) h
    simpa [getLsbD_ones hb, hi] using hbit
  · intro h
    apply BitVec.eq_of_getLsbD_eq
    intro i _
    rw [BitVec.getLsbD_and, getLsbD_ones hb]
    by_cases hi : i < b
    · simp [h i hi]
    · simp [hi]

/-! ### `__ffs` -/

/-- One test of `__ffs`. -/
def ffsStep (b : ℕ) (p : ℕ × BitVec 64) : ℕ × BitVec 64 :=
  if p.2 &&& BitVec.ofNat 64 (2 ^ b - 1) = 0 then (p.1 + b, p.2 >>> b) else p

theorem ffsStep_spec {b j : ℕ} {p : ℕ × BitVec 64} (hb : b ≤ 64) (hlow : LowBit p.2 j) (hj : j < 2 * b) :
    ∃ i < b, LowBit (ffsStep b p).2 i ∧ (ffsStep b p).1 + i = p.1 + j := by
  unfold ffsStep
  split
  · rename_i hzero
    have hzero := (and_ones_eq_zero hb).mp hzero
    have hge : b ≤ j := by
      by_contra hlt
      have := hzero j (by omega)
      rw [hlow.1] at this
      cases this
    refine ⟨j - b, by omega, ⟨?_, ?_⟩, ?_⟩
    · rw [BitVec.getLsbD_ushiftRight, show b + (j - b) = j by omega]
      exact hlow.1
    · intro i hi
      rw [BitVec.getLsbD_ushiftRight]
      exact hlow.2 _ (by omega)
    · show p.1 + b + (j - b) = p.1 + j
      omega
  · rename_i hsome
    have hlt : j < b := by
      by_contra hge
      exact hsome ((and_ones_eq_zero hb).mpr fun i hi => hlow.2 i (by omega))
    exact ⟨j, hlt, hlow, rfl⟩

theorem ffs_eq_steps (w : BitVec 64) :
    ffs w =
      let p := ffsStep 2 (ffsStep 4 (ffsStep 8 (ffsStep 16 (0, w))))
      if p.2 &&& BitVec.ofNat 64 (2 ^ 1 - 1) = 0 then p.1 + 1 else p.1 := by
  rfl

/-- `__ffs` is right where there is a one among the low 32 bits. -/
theorem ffs_eq {w : BitVec 64} {j : ℕ} (hlow : LowBit w j) (hj : j < 32) : ffs w = j := by
  obtain ⟨i, hi, hlow, h16⟩ := ffsStep_spec (b := 16) (p := (0, w)) (by decide) hlow hj
  obtain ⟨i, hi, hlow, h8⟩ := ffsStep_spec (b := 8) (by decide) hlow hi
  obtain ⟨i, hi, hlow, h4⟩ := ffsStep_spec (b := 4) (by decide) hlow hi
  obtain ⟨i, hi, hlow, h2⟩ := ffsStep_spec (b := 2) (by decide) hlow hi
  rw [ffs_eq_steps]
  dsimp only at h16 ⊢
  split
  · rename_i hzero
    have hbit := (and_ones_eq_zero (by decide)).mp hzero 0 (by decide)
    have : i ≠ 0 := by
      rintro rfl
      rw [hlow.1] at hbit
      cases hbit
    omega
  · rename_i hsome
    have : i = 0 := by
      by_contra hne
      apply hsome
      rw [and_ones_eq_zero (by decide)]
      intro k hk
      exact hlow.2 k (by omega)
    omega

/-! ### The words -/

theorem foldl_flags (flags : ℕ → Bool) (n : ℕ) :
    (List.range n).foldl (fun w k => if flags k then w + 2 ^ k else w) 0 < 2 ^ n ∧
      ∀ k, ((List.range n).foldl (fun w k => if flags k then w + 2 ^ k else w) 0).testBit k = (decide (k < n) && flags k) := by
  induction n with
  | zero => simp
  | succ n ih =>
    obtain ⟨hlt, hbit⟩ := ih
    rw [List.range_succ, List.foldl_append]
    generalize (List.range n).foldl _ 0 = w at hlt hbit ⊢
    rw [List.foldl_cons, List.foldl_nil]
    split
    · rename_i hset
      have hor : w + 2 ^ n = 2 ^ n * 1 ||| w := by
        rw [← Nat.two_pow_add_eq_or_of_lt hlt]
        omega
      refine ⟨by rw [pow_succ]; omega, fun k => ?_⟩
      rw [hor, Nat.testBit_or, mul_one, Nat.testBit_two_pow, hbit k]
      by_cases hk : n = k
      · subst hk
        simp [hset]
      · simp [hk, show k < n + 1 ↔ k < n by omega]
    · rename_i hclear
      refine ⟨by rw [pow_succ]; omega, fun k => ?_⟩
      rw [hbit k]
      by_cases hk : n = k
      · subst hk
        simp [hclear]
      · simp [show k < n + 1 ↔ k < n by omega]

theorem getLsbD_flagsWord (flags : ℕ → Bool) (i k : ℕ) :
    (flagsWord flags i).getLsbD k = (decide (k < 64) && flags (64 * i + k)) := by
  unfold flagsWord
  rw [BitVec.getLsbD_ofNat, (foldl_flags (fun k => flags (64 * i + k)) 64).2 k]
  by_cases hk : k < 64 <;> simp [hk]

theorem ne_zero_of_lowBit {w : BitVec 64} {j : ℕ} (h : LowBit w j) : w ≠ 0 := by
  rintro rfl
  simpa using h.1

theorem findFirst_eq {w : BitVec 64} {size result j : ℕ} (hsize : size < 32) (hlow : LowBit w j) (hj : j ≤ size) :
    findFirst w size result = result + j := by
  have hmask : ∀ k, (w &&& BitVec.allOnes 64 >>> (32 - size)).getLsbD k = (w.getLsbD k && decide (k < size + 32)) := by
    intro k
    rw [BitVec.getLsbD_and, BitVec.getLsbD_ushiftRight, BitVec.getLsbD_allOnes]
    congr 2
    apply propext
    omega
  have hcut : LowBit (w &&& BitVec.allOnes 64 >>> (32 - size)) j := by
    constructor
    · rw [hmask, hlow.1]
      simp
      omega
    · intro i hi
      rw [hmask, hlow.2 i hi]
      rfl
  unfold findFirst
  dsimp only
  rw [if_neg (ne_zero_of_lowBit hcut), ffs_eq hcut (by omega)]

theorem findFirst_none {w : BitVec 64} {size result : ℕ} (hsize : size < 32)
    (hfree : ∀ k < size + 32, w.getLsbD k = false) : findFirst w size result = result + size := by
  have hzero : w &&& BitVec.allOnes 64 >>> (32 - size) = 0 := by
    apply BitVec.eq_of_getLsbD_eq
    intro k _
    rw [BitVec.getLsbD_and, BitVec.getLsbD_ushiftRight, BitVec.getLsbD_allOnes]
    by_cases hk : k < size + 32
    · simp [hfree k hk]
    · simp
      omega
  unfold findFirst
  dsimp only
  rw [if_pos hzero]

/-! ### The scan -/

/-- Where `find_next_bit` looks for flag `q`. -/
def flagPlace (q : ℕ) : ℕ :=
  64 * (q / 32) + q % 32

/-- In a scan from `offset` to `size`, the first flag that `find_next_bit` sees is number `f`, or it sees none. -/
structure Seen (flags : ℕ → Bool) (size offset f : ℕ) : Prop where
  before : ∀ q, offset ≤ q → q < f → flags (flagPlace q) = false
  upper : ∀ p k, offset / 32 ≤ p → 32 * (p + 1) ≤ f → 32 ≤ k → k < 64 → flags (64 * p + k) = false
  found : f < size → flags (flagPlace f) = true
  rest : f = size → size % 32 ≠ 0 → flags (flagPlace size) = true ∨
    ∀ k, size % 32 ≤ k → k < size % 32 + 32 → flags (64 * (size / 32) + k) = false

namespace Seen

variable {flags : ℕ → Bool} {size offset f p : ℕ}

theorem lowBit (h : Seen flags size offset f) {w : BitVec 64} {lo : ℕ} (hlo : offset ≤ 32 * p + lo)
    (hw : ∀ k, w.getLsbD k = (decide (lo ≤ k) && (flagsWord flags p).getLsbD k)) (hf : 32 * p + lo ≤ f)
    (hword : f < 32 * (p + 1)) (hset : flags (flagPlace f) = true) : LowBit w (f - 32 * p) := by
  have hdiv : f / 32 = p := by omega
  have hmod : f % 32 = f - 32 * p := by omega
  constructor
  · rw [hw, getLsbD_flagsWord]
    rw [flagPlace, hdiv, hmod] at hset
    simp [hset]
    omega
  · intro i hi
    rw [hw, getLsbD_flagsWord]
    by_cases hin : lo ≤ i
    · have := h.before (32 * p + i) (by omega) (by omega)
      rw [flagPlace, show (32 * p + i) / 32 = p by omega, show (32 * p + i) % 32 = i by omega] at this
      simp [this]
    · simp [hin]

theorem zero (h : Seen flags size offset f) {w : BitVec 64} {lo : ℕ} (hlo : offset ≤ 32 * p + lo)
    (hp : offset / 32 ≤ p) (hw : ∀ k, w.getLsbD k = (decide (lo ≤ k) && (flagsWord flags p).getLsbD k))
    (hbeyond : 32 * (p + 1) ≤ f) : w = 0 := by
  apply BitVec.eq_of_getLsbD_eq
  intro k hk
  rw [hw, getLsbD_flagsWord]
  by_cases hin : lo ≤ k
  · by_cases hhalf : k < 32
    · have := h.before (32 * p + k) (by omega) (by omega)
      rw [flagPlace, show (32 * p + k) / 32 = p by omega, show (32 * p + k) % 32 = k by omega] at this
      simp [this]
    · simp [h.upper p k hp hbeyond (by omega) hk]
  · simp [hin]

theorem findFirst (h : Seen flags size offset f) {w : BitVec 64} {lo : ℕ} (hlo : offset ≤ 32 * p + lo)
    (hw : ∀ k, w.getLsbD k = (decide (lo ≤ k) && (flagsWord flags p).getLsbD k)) (hf : 32 * p + lo ≤ f)
    (hle : f ≤ size) (hp : 32 * p < size) (hsize : size < 32 * (p + 1)) :
    RtSmart.findFirst w (size - 32 * p) (32 * p) = f := by
  by_cases hset : flags (flagPlace f) = true
  · rw [findFirst_eq (by omega) (h.lowBit hlo hw hf (by omega) hset) (by omega)]
    omega
  · have hend : f = size := by
      by_contra hne
      exact hset (h.found (by omega))
    subst hend
    have hnone := (h.rest rfl (by omega)).resolve_left hset
    rw [findFirst_none (by omega)]
    · omega
    intro k hk
    rw [hw, getLsbD_flagsWord]
    by_cases hin : lo ≤ k
    · by_cases hlow : k < f - 32 * p
      · have := h.before (32 * p + k) (by omega) (by omega)
        rw [flagPlace, show (32 * p + k) / 32 = p by omega, show (32 * p + k) % 32 = k by omega] at this
        simp [this]
      · have := hnone k (by omega) (by omega)
        rw [show f / 32 = p by omega] at this
        simp [this]
    · simp [hin]

theorem next (h : Seen flags size offset f) (hoffset : offset / 32 ≤ p) (hle : offset ≤ 32 * p) :
    Seen flags size (32 * p) f := by
  constructor
  case before => exact fun q hq hlt => h.before q (by omega) hlt
  case upper => exact fun p' k hp' => h.upper p' k (by omega)
  case found => exact h.found
  case rest => exact h.rest

theorem findWords (h : Seen flags size (32 * p) f) (hp : 32 * p ≤ f) (hle : f ≤ size) :
    RtSmart.findWords flags p (size - 32 * p) (32 * p) = f := by
  have hw : ∀ k, (flagsWord flags p).getLsbD k = (decide (0 ≤ k) && (flagsWord flags p).getLsbD k) := by simp
  induction hn : size - 32 * p using Nat.strongRecOn generalizing p with
  | ind n ih =>
    subst hn
    unfold RtSmart.findWords
    split
    · by_cases hword : f < 32 * (p + 1)
      · have hlow := h.lowBit (p := p) (by omega) hw (by omega) hword (h.found (by omega))
        rw [if_pos (ne_zero_of_lowBit hlow), ffs_eq hlow (by omega)]
        omega
      · have hzero := h.zero (p := p) (by omega) (by omega) hw (by omega)
        rw [if_neg (by simpa using hzero)]
        have := ih (size - 32 * (p + 1)) (by omega) (h.next (by omega) (by omega)) (by omega) (by simp) rfl
        rwa [show size - 32 * p - 32 = size - 32 * (p + 1) by omega, show 32 * p + 32 = 32 * (p + 1) by omega]
    · split
      · omega
      · exact h.findFirst (by omega) hw (by omega) hle (by omega) (by omega)

/-- `find_next_bit` gives the flag it sees first. -/
theorem findNextBit (h : Seen flags size offset f) (hoffset : offset ≤ f) (hle : f ≤ size) :
    RtSmart.findNextBit flags size offset = f := by
  have hp : offset / 32 * 32 = 32 * (offset / 32) := Nat.mul_comm _ _
  have hmask : ∀ k, (flagsWord flags (offset / 32) &&& BitVec.allOnes 64 <<< (offset % 32)).getLsbD k =
      (decide (offset % 32 ≤ k) && (flagsWord flags (offset / 32)).getLsbD k) := by
    intro k
    rw [BitVec.getLsbD_and, BitVec.getLsbD_shiftLeft, BitVec.getLsbD_allOnes, getLsbD_flagsWord]
    by_cases hk : k < 64
    · by_cases hlow : k < offset % 32
      · simp [hlow]
      · simp [hk, hlow, show k - offset % 32 < 64 by omega, show offset % 32 ≤ k by omega]
    · simp [hk]
  unfold RtSmart.findNextBit
  dsimp only
  rw [hp]
  split
  · omega
  split
  · split
    · exact h.findFirst (by omega) hmask (by omega) hle (by omega) (by omega)
    · by_cases hword : f < 32 * (offset / 32 + 1)
      · have hlow := h.lowBit (p := offset / 32) (by omega) hmask (by omega) hword (h.found (by omega))
        rw [if_pos (ne_zero_of_lowBit hlow), ffs_eq hlow (by omega)]
        omega
      · have hzero := h.zero (p := offset / 32) (by omega) le_rfl hmask (by omega)
        rw [if_neg (by simpa using hzero), show size - 32 * (offset / 32) - 32 = size - 32 * (offset / 32 + 1) by omega,
          show 32 * (offset / 32) + 32 = 32 * (offset / 32 + 1) by omega]
        exact (h.next (by omega) (by omega)).findWords (by omega) hle
  · exact (h.next le_rfl (by omega)).findWords (by omega) hle

end Seen

end RtSmart
