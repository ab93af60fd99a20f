import RtSmart.Drivers.Terminal
import RtSmart.Drivers.TtyFlags
import RtSmart.Lib.Ring
import RtSmart.Lib.Transition

namespace RtSmart

open Lib

/-! ### The place of the line end -/

/-- The first position from `offset` on whose flag is set, `size` if there is none below. -/
def nextFlag (flags : ℕ → Bool) (size offset : ℕ) : ℕ :=
  ((List.range' offset (size - offset)).find? flags).getD size

theorem nextFlag_found {flags : ℕ → Bool} {size offset d : ℕ} (hlt : offset + d < size)
    (hfree : ∀ k < d, flags (offset + k) = false) (hset : flags (offset + d) = true) :
    nextFlag flags size offset = offset + d := by
  have : (List.range' offset (size - offset)).find? flags = some (offset + d) := by
    rw [List.find?_eq_some_iff_getElem]
    refine ⟨hset, d, by simp; omega, by simp, ?_⟩
    intro k hk
    simp [hfree k hk]
  unfold nextFlag
  rw [this]
  rfl

theorem nextFlag_none {flags : ℕ → Bool} {size offset : ℕ}
    (hfree : ∀ k, offset + k < size → flags (offset + k) = false) : nextFlag flags size offset = size := by
  have : (List.range' offset (size - offset)).find? flags = none := by
    rw [List.find?_eq_none]
    intro x hx
    obtain ⟨k, hk, rfl⟩ := List.mem_range'.mp hx
    simp [hfree k (by omega)]
  unfold nextFlag
  rw [this]
  rfl

theorem nextFlag_mem (flags : ℕ → Bool) {size offset : ℕ} (h : offset ≤ size) :
    offset ≤ nextFlag flags size offset ∧ nextFlag flags size offset ≤ size := by
  unfold nextFlag
  cases hfind : (List.range' offset (size - offset)).find? flags with
  | none => exact ⟨h, le_rfl⟩
  | some f =>
    obtain ⟨k, hk, rfl⟩ := List.mem_range'.mp (List.mem_of_find?_eq_some hfind)
    simp only [Option.getD_some]
    omega

theorem nextFlag_before {flags : ℕ → Bool} {size offset q : ℕ} (hq : offset ≤ q) (hlt : q < nextFlag flags size offset)
    (hsize : q < size) : flags q = false := by
  unfold nextFlag at hlt
  cases hfind : (List.range' offset (size - offset)).find? flags with
  | none =>
    have := List.find?_eq_none.mp hfind q (List.mem_range'_1.mpr ⟨hq, by omega⟩)
    simpa using this
  | some f =>
    rw [hfind, Option.getD_some] at hlt
    obtain ⟨_, k, hk, hf, hbefore⟩ := List.find?_eq_some_iff_getElem.mp hfind
    rw [List.getElem_range', Nat.one_mul] at hf
    have := hbefore (q - offset) (by omega)
    rw [List.getElem_range', Nat.one_mul, show offset + (q - offset) = q by omega] at this
    simpa using this

theorem nextFlag_set {flags : ℕ → Bool} {size offset : ℕ} (h : nextFlag flags size offset < size) :
    flags (nextFlag flags size offset) = true := by
  unfold nextFlag at h ⊢
  cases hfind : (List.range' offset (size - offset)).find? flags with
  | none =>
    rw [hfind] at h
    exact absurd h (lt_irrefl _)
  | some f => exact List.find?_some hfind

theorem seen_low {flags : ℕ → Bool} {size offset : ℕ} (hsize : size < 32) (hoffset : offset ≤ size)
    (hend : nextFlag flags size offset < size ∨ flags size = true) :
    Seen flags size offset (nextFlag flags size offset) := by
  have hle := (nextFlag_mem flags hoffset).2
  have hplace : ∀ q < 32, flagPlace q = q := by
    intro q hq
    unfold flagPlace
    omega
  constructor
  case before =>
    intro q hq hlt
    rw [hplace q (by omega)]
    exact nextFlag_before hq hlt (by omega)
  case upper => intros; omega
  case found =>
    intro hlt
    rw [hplace _ (by omega)]
    exact nextFlag_set hlt
  case rest =>
    intro heq _
    rw [hplace _ hsize]
    exact .inl (hend.resolve_left (by omega))

theorem subSize_eq {a b : ℕ} (h : b ≤ a) (hlt : a - b < 2 ^ 64) : subSize a b = a - b := by
  unfold subSize
  omega

namespace NTty

/-- How far the scan of `canon_copy_from_read_buf` goes. -/
def scanLength (s : NTty) (nr : ℕ) : ℕ :=
  min ((nr + 1) % 2 ^ 64) (subSize s.canonHead s.readTail)

def ScanOk (s : NTty) (nr : ℕ) : Prop :=
  let n := s.scanLength nr
  let tail := s.readTail % rtTtyBuf
  let size := min (tail + n) rtTtyBuf
  let more := n - (size - tail)
  Seen s.readFlags size tail (nextFlag s.readFlags size tail) ∧
    (nextFlag s.readFlags size tail = rtTtyBuf ∧ more ≠ 0 → Seen s.readFlags more 0 (nextFlag s.readFlags more 0))

theorem copyOut_eq (s : NTty) {n : ℕ} (hn : n ≤ rtTtyBuf) : s.copyOut n = window s.readBuf rtTtyBuf s.readTail n := by
  have hlt : s.readTail % rtTtyBuf < rtTtyBuf := Nat.mod_lt _ (by decide)
  unfold copyOut
  dsimp only
  split
  · rename_i hwrap
    have hsplit : n = (rtTtyBuf - s.readTail % rtTtyBuf) + (n - (rtTtyBuf - s.readTail % rtTtyBuf)) := by omega
    conv_rhs => rw [hsplit, window_append]
    congr 1
    · apply List.map_congr_left
      intro i hi
      have := List.mem_range.mp hi
      rw [add_mod_low (by omega)]
    · apply List.map_congr_left
      intro i hi
      have := List.mem_range.mp hi
      rw [add_mod_high (by omega) (by omega),
        show s.readTail % rtTtyBuf + (rtTtyBuf - s.readTail % rtTtyBuf + i) - rtTtyBuf = i by omega]
  · apply List.map_congr_left
    intro i hi
    have := List.mem_range.mp hi
    rw [add_mod_low (by omega)]

/-- The scan of `canon_copy_from_read_buf` for a line end: up to `size`, and then from the start of the buffer. -/
def scanWith (find : ℕ → ℕ → ℕ) (size more tail : ℕ) : ℕ × Bool :=
  if find size tail = rtTtyBuf ∧ more ≠ 0 then (find more 0, decide (find more 0 ≠ more))
  else (find size tail, decide (find size tail ≠ size))

theorem scanWith_congr {s : NTty} {nr : ℕ} (h : s.ScanOk nr) :
    let tail := s.readTail % rtTtyBuf
    let size := min (tail + s.scanLength nr) rtTtyBuf
    let more := s.scanLength nr - (size - tail)
    scanWith (findNextBit s.readFlags) size more tail = scanWith (nextFlag s.readFlags) size more tail := by
  intro tail size more
  have htail : tail ≤ size := by
    have : tail < rtTtyBuf := Nat.mod_lt _ (by decide)
    show tail ≤ min (tail + s.scanLength nr) rtTtyBuf
    omega
  have hfirst : findNextBit s.readFlags size tail = nextFlag s.readFlags size tail := by
    have := nextFlag_mem s.readFlags htail
    exact h.1.findNextBit this.1 this.2
  unfold scanWith
  rw [hfirst]
  split
  · rename_i hmore
    have hsecond : findNextBit s.readFlags more 0 = nextFlag s.readFlags more 0 := by
      have := nextFlag_mem s.readFlags (Nat.zero_le more)
      exact (h.2 hmore).findNextBit this.1 this.2
    rw [hsecond]
  · rfl

theorem scan_spec {s : NTty} {n d : ℕ} (hn : n < rtTtyBuf)
    (hfree : ∀ k < d, s.readFlags ((s.readTail + k) % rtTtyBuf) = false)
    (hset : s.readFlags ((s.readTail + d) % rtTtyBuf) = true) :
    let tail := s.readTail % rtTtyBuf
    let size := min (tail + n) rtTtyBuf
    let more := n - (size - tail)
    let out := scanWith (nextFlag s.readFlags) size more tail
    out.2 = decide (d < n) ∧ (d < n → out.1 = (s.readTail + d) % rtTtyBuf) ∧
      (if rtTtyBuf < subSize out.1 tail then (subSize out.1 tail + rtTtyBuf) % 2 ^ 64 else subSize out.1 tail) =
        min d n := by
  have htail : s.readTail % rtTtyBuf < rtTtyBuf := Nat.mod_lt _ (by decide)
  have hN : rtTtyBuf = 1024 := rfl
  have hpos : ∀ k, s.readTail % rtTtyBuf + k < rtTtyBuf →
      (s.readTail + k) % rtTtyBuf = s.readTail % rtTtyBuf + k := fun k => add_mod_low
  have hwrap : ∀ k, rtTtyBuf ≤ s.readTail % rtTtyBuf + k → k < rtTtyBuf →
      (s.readTail + k) % rtTtyBuf = s.readTail % rtTtyBuf + k - rtTtyBuf := fun k => add_mod_high
  intro tail size more out
  obtain ⟨eol, hdef⟩ : ∃ e, nextFlag s.readFlags size tail = e := ⟨_, rfl⟩
  have htail : tail < rtTtyBuf := htail
  by_cases hd : d < n
  · by_cases hnear : tail + d < rtTtyBuf
    · -- Before the end of the buffer.
      have heol : eol = tail + d := by
        rw [← hdef]
        apply nextFlag_found
        · show tail + d < min (tail + n) rtTtyBuf
          omega
        · intro k hk
          rw [← hpos k (by omega)]
          exact hfree k hk
        · rw [← hpos d hnear]
          exact hset
      have hout : out = (eol, true) := by
        unfold out scanWith
        rw [hdef, if_neg (by omega)]
        have : eol ≠ size := by
          show eol ≠ min (tail + n) rtTtyBuf
          omega
        simp [this]
      rw [hout, heol]
      refine ⟨by simp [hd], fun _ => (hpos d hnear).symm, ?_⟩
      dsimp only
      rw [subSize_eq (by omega) (by omega), if_neg (by omega)]
      omega
    · -- Beyond it.
      have hsize : size = rtTtyBuf := by
        show min (tail + n) rtTtyBuf = rtTtyBuf
        omega
      have heol : eol = rtTtyBuf := by
        rw [← hdef, hsize]
        apply nextFlag_none
        intro k hk
        rw [← hpos k hk]
        exact hfree k (by omega)
      have hmore : more = tail + n - rtTtyBuf := by
        show n - (size - tail) = _
        omega
      have hsecond : nextFlag s.readFlags more 0 = tail + d - rtTtyBuf := by
        have : nextFlag s.readFlags more 0 = 0 + (tail + d - rtTtyBuf) := nextFlag_found (by omega)
          (by
            intro k hk
            have := hfree (rtTtyBuf - tail + k) (by omega)
            rw [hwrap _ (by omega) (by omega)] at this
            rwa [show 0 + k = s.readTail % rtTtyBuf + (rtTtyBuf - tail + k) - rtTtyBuf by omega])
          (by
            have := hset
            rw [hwrap _ (by omega) (by omega)] at this
            rwa [show 0 + (tail + d - rtTtyBuf) = s.readTail % rtTtyBuf + d - rtTtyBuf by omega])
        rw [this, Nat.zero_add]
      have hout : out = (tail + d - rtTtyBuf, true) := by
        unfold out scanWith
        rw [hdef, if_pos ⟨heol, by omega⟩, hsecond]
        simp only [Prod.mk.injEq, true_and, decide_eq_true_eq]
        omega
      rw [hout]
      refine ⟨by simp [hd], fun _ => (hwrap d (by omega) (by omega)).symm, ?_⟩
      dsimp only
      have hsub : subSize (tail + d - rtTtyBuf) tail = 2 ^ 64 + d - rtTtyBuf := by
        unfold subSize
        omega
      rw [hsub, if_pos (by omega)]
      omega
  · by_cases hnear : tail + n ≤ rtTtyBuf
    · have hsize : size = tail + n := by
        show min (tail + n) rtTtyBuf = _
        omega
      have hmore : more = 0 := by
        show n - (size - tail) = 0
        omega
      have heol : eol = tail + n := by
        rw [← hdef, hsize]
        apply nextFlag_none
        intro k hk
        rw [← hpos k (by omega)]
        exact hfree k (by omega)
      have hout : out = (tail + n, false) := by
        unfold out scanWith
        rw [hdef, if_neg (by simp [hmore]), heol, hsize]
        simp
      rw [hout]
      refine ⟨by simp [hd], fun h => absurd h hd, ?_⟩
      dsimp only
      rw [subSize_eq (by omega) (by omega), if_neg (by omega)]
      omega
    · have hsize : size = rtTtyBuf := by
        show min (tail + n) rtTtyBuf = rtTtyBuf
        omega
      have heol : eol = rtTtyBuf := by
        rw [← hdef, hsize]
        apply nextFlag_none
        intro k hk
        rw [← hpos k hk]
        exact hfree k (by omega)
      have hmore : more = tail + n - rtTtyBuf := by
        show n - (size - tail) = _
        omega
      have hsecond : nextFlag s.readFlags more 0 = more := by
        apply nextFlag_none
        intro k hk
        have := hfree (rtTtyBuf - tail + k) (by omega)
        rw [hwrap _ (by omega) (by omega)] at this
        rwa [show 0 + k = s.readTail % rtTtyBuf + (rtTtyBuf - tail + k) - rtTtyBuf by omega]
      have hout : out = (more, false) := by
        unfold out scanWith
        rw [hdef, if_pos ⟨heol, by omega⟩, hsecond]
        simp
      rw [hout]
      refine ⟨by simp [hd], fun h => absurd h hd, ?_⟩
      dsimp only
      have hsub : subSize more tail = 2 ^ 64 + n - rtTtyBuf := by
        unfold subSize
        omega
      rw [hsub, if_pos (by omega)]
      omega

theorem canonCopy_spec {s : NTty} {nr d : ℕ} (hnr : nr ≠ 0) (hsize : nr + 1 < 2 ^ 64)
    (havail : d < subSize s.canonHead s.readTail) (hroom : subSize s.canonHead s.readTail < rtTtyBuf)
    (hfree : ∀ k < d, s.readFlags ((s.readTail + k) % rtTtyBuf) = false)
    (hset : s.readFlags ((s.readTail + d) % rtTtyBuf) = true) (hscan : s.ScanOk nr) :
    s.canonCopy nr =
      if d ≤ nr then
        let last := s.readBuf ((s.readTail + d) % rtTtyBuf)
        ({ s with
            readFlags := Function.update s.readFlags ((s.readTail + d) % rtTtyBuf) false
            readTail := s.readTail + if last ≠ disabledChar then min nr (d + 1) else d + 1 },
          s.copyOut (if last ≠ disabledChar then min nr (d + 1) else d))
      else ({ s with readTail := s.readTail + nr }, s.copyOut nr) := by
  have hN : rtTtyBuf = 1024 := rfl
  have hn : s.scanLength nr = min (nr + 1) (subSize s.canonHead s.readTail) := by
    unfold scanLength
    rw [Nat.mod_eq_of_lt hsize]
  have hspec := scan_spec (n := s.scanLength nr) (by omega) hfree hset
  have hsame := scanWith_congr hscan
  dsimp only at hspec hsame
  have hcopy : s.canonCopy nr =
      let tail := s.readTail % rtTtyBuf
      let size := min (tail + s.scanLength nr) rtTtyBuf
      let out := scanWith (findNextBit s.readFlags) size (s.scanLength nr - (size - tail)) tail
      let n := subSize out.1 tail
      let n := if rtTtyBuf < n then (n + rtTtyBuf) % 2 ^ 64 else n
      let c := n + out.2.toNat
      let p := if !out.2 ∨ s.readBufAt out.1 ≠ disabledChar then (min nr c, min nr c) else (n, c)
      ({ s with
          readFlags := if out.2 then Function.update s.readFlags out.1 false else s.readFlags
          readTail := s.readTail + p.2 },
        s.copyOut p.1) := by
    unfold canonCopy scanWith scanLength
    rw [if_neg hnr]
  rw [hcopy]
  dsimp only
  rw [hsame]
  generalize scanWith (nextFlag s.readFlags) _ _ _ = out at hspec ⊢
  obtain ⟨eol, found⟩ := out
  obtain ⟨hfound, heol, hlen⟩ := hspec
  dsimp only at hfound heol hlen ⊢
  rw [hlen]
  by_cases hd : d ≤ nr
  · have hdn : d < s.scanLength nr := by omega
    have hchar : s.readBufAt eol = s.readBuf ((s.readTail + d) % rtTtyBuf) := by
      unfold readBufAt
      rw [heol hdn, Nat.mod_mod]
    rw [if_pos hd, hfound, heol hdn, ← heol hdn, hchar, Nat.min_eq_left hdn.le, heol hdn]
    simp only [hdn, decide_true, Bool.not_true, Bool.false_eq_true, false_or, Bool.toNat_true, if_true]
    split
    · rfl
    · rfl
  · have hdn : ¬ d < s.scanLength nr := by omega
    have hlast : s.scanLength nr = nr + 1 := by omega
    rw [if_neg hd, hfound]
    simp only [hdn, decide_false, Bool.not_false, true_or, if_true, Bool.toNat_false]
    rw [show min nr (min d (s.scanLength nr) + 0) = nr by omega]
    rfl

end NTty

end RtSmart
