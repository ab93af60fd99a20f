import RtSmart.Drivers.Ringblk

/-!
The lengths that the block queues of `ringblk_buf.c` report. A size has 24 bits, so the sums of `rt_size_t` do not
wrap for fewer than 2^40 blocks.
-/

namespace RtSmart

open Lib

namespace Rbb

def total (s : Rbb) (l : List ℕ) : ℕ := (l.map fun i => (s.blkSet i).size).sum

/-- The blocks that leave the list in `rt_rbb_blk_queue_get`. -/
def gathered (s : Rbb) (queueDataLen : ℕ) : List ℕ := queueScan s.blkSet queueDataLen none 0 s.blkList

/-- `rt_rbb_blk_queue_get` with the caller's queue, which is written when a block is found, and `data_total_size`. -/
def queueGet (s : Rbb) (queueDataLen : ℕ) (q : RbbQueue) : Rbb × RbbQueue × ℕ :=
  let r := s.rtRbbBlkQueueGet queueDataLen
  (r.1, r.2.getD q, s.total (s.gathered queueDataLen))

/-- `none` when the loop reads past the block set. -/
def rtRbbBlkQueueLen (s : Rbb) (q : RbbQueue) : Option ℕ :=
  (List.range q.blkNum).foldlM (fun n i =>
    if q.blocks + i < s.blkMaxNum then some (n + (s.blkSet (q.blocks + i)).size) else none) 0

def nextScan (blkSet : ℕ → RbbBlk) : Option ℕ → List ℕ → ℕ
  | _, [] => 0
  | none, i :: l =>
    if (blkSet i).status ≠ .put then nextScan blkSet none l else (blkSet i).size + nextScan blkSet (some i) l
  | some last, i :: l =>
    if (blkSet i).status ≠ .put ∨ (blkSet i).buf < (blkSet last).buf then 0
    else (blkSet i).size + nextScan blkSet (some i) l

def rtRbbNextBlkQueueLen (s : Rbb) : ℕ := nextScan s.blkSet none s.blkList

/-- What the loop adds to a queue that ends with `last` and has `total` bytes. -/
structure QueueTail (s : Rbb) (len last total : ℕ) (run rest : List ℕ) : Prop where
  put : ∀ i ∈ run, (s.blkSet i).status = .put
  ascending : (last :: run).IsChain fun i j => s.lo i ≤ s.lo j
  fits : run ≠ [] → total + s.total run ≤ len
  ends : ∀ i ∈ rest.head?, (s.blkSet i).status ≠ .put ∨ s.lo i < s.lo (run.getLastD last) ∨
    len < total + s.total run + (s.blkSet i).size

/-- The list in three parts: no block to start with, the longest run that a queue of `len` bytes may hold after its
first block, and the rest. -/
structure QueueRun (s : Rbb) (len : ℕ) (skip run rest : List ℕ) : Prop where
  list : s.blkList = skip ++ (run ++ rest)
  skip : ∀ i ∈ skip, (s.blkSet i).status ≠ .put
  none : run = [] → rest = []
  some : ∀ i l, run = i :: l → (s.blkSet i).status = .put ∧ s.QueueTail len i (s.blkSet i).size l rest

/-- So many entries of the block set from `first` on have this size together. -/
def Entries (s : Rbb) (first n size : ℕ) : Prop :=
  (n ≠ 0 → first + n ≤ s.blkMaxNum) ∧ s.total (List.range' first n) = size

structure QueueHonest (s : Rbb) (len : ℕ) (q : RbbQueue) : Prop where
  fifo : ∃ skip rest, s.blkList = skip ++ (s.gathered len ++ rest) ∧ (∀ i ∈ skip, (s.blkSet i).status ≠ .put) ∧
    ∀ i ∈ s.gathered len, (s.blkSet i).status = .put
  contiguous : (s.gathered len).IsChain fun i j => s.hi i = s.lo j
  bounded : (s.queueGet len q).2.2 ≤ len
  counted : (s.queueGet len q).1.rtRbbBlkQueueLen (s.queueGet len q).2.1 = some (s.queueGet len q).2.2
  predicted : ∀ limit, s.total s.blkList ≤ limit → (s.queueGet limit q).2.2 = s.rtRbbNextBlkQueueLen

/-- The run lies without gaps, its first block is not too long, and its blocks are as long as the entries that follow
the first one in the block set; without a run the caller's queue is empty. -/
def QueueSound (s : Rbb) (len : ℕ) (q : RbbQueue) : Prop :=
  ∃ skip run rest, s.QueueRun len skip run rest ∧ (run.IsChain fun i j => s.hi i = s.lo j) ∧
    (∀ i ∈ run.head?, (s.blkSet i).size ≤ len) ∧ (run = [] → s.Entries q.blocks q.blkNum 0) ∧
    ∀ i ∈ run.head?, s.Entries i run.length (s.total run)

section scan

variable {s : Rbb} {len last n : ℕ} {l skip run rest : List ℕ}

@[simp] theorem total_nil (s : Rbb) : s.total [] = 0 := rfl

@[simp] theorem total_cons (s : Rbb) (i : ℕ) (l : List ℕ) : s.total (i :: l) = (s.blkSet i).size + s.total l := rfl

theorem total_append (s : Rbb) (l l' : List ℕ) : s.total (l ++ l') = s.total l + s.total l' := by
  unfold total
  rw [List.map_append, List.sum_append]

theorem queueScan_skip (h : ∀ i ∈ skip, (s.blkSet i).status ≠ .put) :
    queueScan s.blkSet len none n (skip ++ l) = queueScan s.blkSet len none n l := by
  induction skip with
  | nil => rfl
  | cons i skip ih =>
    rw [List.cons_append, queueScan, if_neg (h i (by simp))]
    exact ih fun j hj => h j (by simp [hj])

theorem QueueTail.scan (h : s.QueueTail len last n run rest) :
    queueScan s.blkSet len (some last) n (run ++ rest) = run := by
  induction run generalizing last n with
  | nil =>
    cases rest with
    | nil => rfl
    | cons i rest =>
      rw [List.nil_append, queueScan, if_pos]
      simpa [lo] using h.ends i rfl
  | cons i run ih =>
    obtain ⟨hle, hasc⟩ := List.isChain_cons_cons.mp h.ascending
    have hfits := h.fits (by simp)
    rw [total_cons] at hfits
    have htail : s.QueueTail len i (n + (s.blkSet i).size) run rest := by
      refine ⟨fun j hj => h.put j (by simp [hj]), hasc, fun _ => by omega, fun j hj => ?_⟩
      have hends := h.ends j hj
      rw [List.getLastD_cons, total_cons] at hends
      rwa [Nat.add_assoc n]
    rw [List.cons_append, queueScan, if_neg, ih htail]
    have hput := h.put i (by simp)
    simp only [lo] at hle
    rw [hput]
    push Not
    exact ⟨rfl, hle, by omega⟩

theorem queueTail_scan (s : Rbb) (len last n : ℕ) (l : List ℕ) :
    ∃ rest, l = queueScan s.blkSet len (some last) n l ++ rest ∧
      s.QueueTail len last n (queueScan s.blkSet len (some last) n l) rest := by
  induction l generalizing last n with
  | nil => exact ⟨[], rfl, by simp [queueScan], by simp [queueScan], by simp [queueScan], by simp⟩
  | cons i l ih =>
    rw [queueScan]
    split_ifs with hstop
    · refine ⟨i :: l, rfl, by simp, by simp, by simp, fun j hj => ?_⟩
      obtain rfl : i = j := by simpa using hj
      simpa [lo] using hstop
    · push Not at hstop
      obtain ⟨hput, hle, hfits⟩ := hstop
      obtain ⟨rest, hl, htail⟩ := ih i (n + (s.blkSet i).size)
      refine ⟨rest, by rw [List.cons_append, ← hl], fun j hj => ?_, ?_, fun _ => ?_, fun j hj => ?_⟩
      · obtain rfl | hj := List.mem_cons.mp hj
        · exact hput
        · exact htail.put j hj
      · exact List.isChain_cons_cons.mpr ⟨hle, htail.ascending⟩
      · rw [total_cons]
        by_cases hrun : queueScan s.blkSet len (some i) (n + (s.blkSet i).size) l = []
        · rw [hrun, total_nil]
          omega
        · have := htail.fits hrun
          omega
      · have hends := htail.ends j hj
        rw [List.getLastD_cons, total_cons]
        rwa [Nat.add_assoc n] at hends

theorem QueueRun.gathered_eq (h : s.QueueRun len skip run rest) : s.gathered len = run := by
  unfold gathered
  rw [h.list, queueScan_skip h.skip]
  cases run with
  | nil =>
    rw [h.none rfl]
    rfl
  | cons i l =>
    obtain ⟨hput, htail⟩ := h.some i l rfl
    rw [List.cons_append, queueScan, if_pos hput, Nat.zero_add, htail.scan]

theorem queueRun_scan (s : Rbb) (len : ℕ) (l : List ℕ) :
    ∃ skip rest, l = skip ++ (queueScan s.blkSet len none 0 l ++ rest) ∧ (∀ i ∈ skip, (s.blkSet i).status ≠ .put) ∧
      (queueScan s.blkSet len none 0 l = [] → rest = []) ∧
      ∀ i l', queueScan s.blkSet len none 0 l = i :: l' →
        (s.blkSet i).status = .put ∧ s.QueueTail len i (s.blkSet i).size l' rest := by
  induction l with
  | nil => exact ⟨[], [], rfl, by simp, fun _ => rfl, by simp [queueScan]⟩
  | cons i l ih =>
    rw [queueScan]
    split_ifs with hput
    · rw [Nat.zero_add]
      obtain ⟨rest, hl, htail⟩ := queueTail_scan s len i (s.blkSet i).size l
      refine ⟨[], rest, ?_, by simp, by simp, fun j l' hj => ?_⟩
      · rw [List.nil_append, List.cons_append, ← hl]
      · obtain ⟨rfl, rfl⟩ := List.cons.inj hj
        exact ⟨hput, htail⟩
    · obtain ⟨skip, rest, hl, hskip, hnone, hsome⟩ := ih
      refine ⟨i :: skip, rest, by rw [List.cons_append, ← hl], fun j hj => ?_, hnone, hsome⟩
      obtain rfl | hj := List.mem_cons.mp hj
      · exact hput
      · exact hskip j hj

theorem queueRun_gathered (s : Rbb) (len : ℕ) : ∃ skip rest, s.QueueRun len skip (s.gathered len) rest := by
  obtain ⟨skip, rest, hl, hskip, hnone, hsome⟩ := queueRun_scan s len s.blkList
  exact ⟨skip, rest, hl, hskip, hnone, hsome⟩

theorem nextScan_eq (s : Rbb) (len last n : ℕ) (l : List ℕ) (h : n + s.total l ≤ len) :
    s.total (queueScan s.blkSet len (some last) n l) = nextScan s.blkSet (some last) l := by
  induction l generalizing last n with
  | nil => rfl
  | cons i l ih =>
    rw [total_cons] at h
    rw [queueScan, nextScan]
    have hroom : ¬ len < n + (s.blkSet i).size := by omega
    simp only [hroom, or_false]
    split_ifs with hstop
    · rfl
    · rw [total_cons, ih i (n + (s.blkSet i).size) (by omega)]

theorem next_eq (s : Rbb) (len : ℕ) (h : s.total s.blkList ≤ len) :
    s.total (s.gathered len) = s.rtRbbNextBlkQueueLen := by
  unfold gathered rtRbbNextBlkQueueLen
  generalize s.blkList = l at h
  induction l with
  | nil => rfl
  | cons i l ih =>
    rw [total_cons] at h
    rw [queueScan, nextScan]
    by_cases hput : (s.blkSet i).status = .put
    · rw [if_pos hput, if_neg (not_not.mpr hput), total_cons, Nat.zero_add, nextScan_eq s len i _ l (by omega)]
    · rw [if_neg hput, if_pos hput]
      exact ih (by omega)

end scan

section length

variable {s s' : Rbb} {len n : ℕ} {q : RbbQueue}

theorem queueLen_range (s : Rbb) (first k : ℕ) :
    (List.range k).foldlM (fun n i =>
      if first + i < s.blkMaxNum then some (n + (s.blkSet (first + i)).size) else none) 0 =
    if k ≠ 0 → first + k ≤ s.blkMaxNum then some (s.total (List.range' first k)) else none := by
  induction k with
  | zero => simp
  | succ k ih =>
    rw [List.range_succ, List.foldlM_append, ih]
    by_cases hin : first + (k + 1) ≤ s.blkMaxNum
    · have hlt : first + k < s.blkMaxNum := by omega
      rw [if_pos fun _ => by omega, if_pos fun _ => hin, List.range'_1_concat, total_append]
      simp [hlt]
    · rw [if_neg (c := k + 1 ≠ 0 → _) fun h => hin (h (by omega))]
      have hlt : ¬ first + k < s.blkMaxNum := by omega
      split_ifs with hk
      · simp [hlt]
      · rfl

theorem queueLen_iff : s.rtRbbBlkQueueLen q = some n ↔ s.Entries q.blocks q.blkNum n := by
  unfold rtRbbBlkQueueLen Entries
  rw [queueLen_range]
  split_ifs with hin
  · exact ⟨fun h => ⟨hin, Option.some.inj h⟩, fun h => congrArg some h.2⟩
  · exact iff_of_false (by simp) fun h => hin h.1

theorem Entries.congr {first k : ℕ} (hmax : s'.blkMaxNum = s.blkMaxNum)
    (hsize : ∀ i, (s'.blkSet i).size = (s.blkSet i).size) : s'.Entries first k n ↔ s.Entries first k n := by
  have htotal : ∀ l, s'.total l = s.total l := by
    intro l
    unfold total
    simp only [hsize]
  unfold Entries
  rw [hmax, htotal]

theorem queueGet_entries {first k : ℕ} : (s.queueGet len q).1.Entries first k n ↔ s.Entries first k n := by
  apply Entries.congr
  · rfl
  · intro i
    change (if i ∈ queueScan s.blkSet len none 0 s.blkList then _ else _ : RbbBlk).size = _
    split_ifs <;> rfl

theorem queueGet_queue : (s.queueGet len q).2.1 =
    ((s.gathered len).head?.map fun i => ⟨i, (s.gathered len).length⟩).getD q := rfl

end length

/-- The first block is taken whatever its size, a block is taken to follow the last one if it lies above it, and the
queue names its blocks by their number in the block set. -/
theorem queue_get_honest_iff (s : Rbb) (len : ℕ) (q : RbbQueue) : s.QueueHonest len q ↔ s.QueueSound len q := by
  constructor
  · intro h
    obtain ⟨skip, rest, hrun⟩ := s.queueRun_gathered len
    refine ⟨skip, s.gathered len, rest, hrun, h.contiguous, fun i hi => ?_, fun hnil => ?_, fun i hi => ?_⟩
    · obtain ⟨l, hl⟩ := List.head?_eq_some_iff.mp hi
      have hb : s.total (s.gathered len) ≤ len := h.bounded
      rw [hl, total_cons] at hb
      omega
    · have hc := h.counted
      rw [queueLen_iff, queueGet_entries, queueGet_queue] at hc
      change s.Entries _ _ (s.total (s.gathered len)) at hc
      rwa [hnil] at hc
    · have hc := h.counted
      rw [queueLen_iff, queueGet_entries, queueGet_queue, Option.mem_def.mp hi] at hc
      exact hc
  · rintro ⟨skip, run, rest, hrun, hcontiguous, hfirst, hnil, hentries⟩
    have hg := hrun.gathered_eq
    refine ⟨⟨skip, rest, ?_, hrun.skip, fun i hi => ?_⟩, ?_, ?_, ?_, fun limit hl => next_eq s limit hl⟩
    · rw [hg]
      exact hrun.list
    · rw [hg] at hi
      cases run with
      | nil => simp at hi
      | cons j l =>
        obtain ⟨hput, htail⟩ := hrun.some j l rfl
        obtain rfl | hi := List.mem_cons.mp hi
        · exact hput
        · exact htail.put i hi
    · rw [hg]
      exact hcontiguous
    · change s.total (s.gathered len) ≤ len
      rw [hg]
      cases run with
      | nil => exact Nat.zero_le _
      | cons j l =>
        obtain ⟨-, htail⟩ := hrun.some j l rfl
        by_cases hl : l = []
        · subst hl
          simpa using hfirst j rfl
        · exact htail.fits hl
    · rw [queueLen_iff, queueGet_entries, queueGet_queue]
      change s.Entries _ _ (s.total (s.gathered len))
      rw [hg]
      cases run with
      | nil => exact hnil rfl
      | cons j l => exact hentries j rfl

/-- The buffer after these calls, for counterexamples on reachable states. -/
def after (bufSize blkMaxNum : ℕ) (es : List RbbEvent) : Option Rbb :=
  (run RbbSys.step (.init bufSize blkMaxNum fun _ => ⟨.unused, 0, 0⟩) es).map RbbSys.rbb

/-- One block longer than the queue may be; and two blocks with a hole between them, where the length of the queue
counts the hole. -/
theorem queue_get_exceeds :
    (∃ s, after 10 2 [.alloc 4, .put 0] = some s ∧ (s.queueGet 2 ⟨0, 0⟩).2.2 = 4 ∧ ¬ s.QueueHonest 2 ⟨0, 0⟩) ∧
    ∃ s, after 10 3 [.alloc 2, .alloc 3, .alloc 2, .put 0, .put 2, .free 1] = some s ∧
      s.gathered 10 = [0, 2] ∧ s.hi 0 < s.lo 2 ∧ (s.queueGet 10 ⟨0, 0⟩).2.2 = 4 ∧
      (s.queueGet 10 ⟨0, 0⟩).1.rtRbbBlkQueueLen (s.queueGet 10 ⟨0, 0⟩).2.1 = some 5 ∧
      ¬ s.QueueHonest 10 ⟨0, 0⟩ := by
  constructor
  · obtain ⟨s, hs⟩ : ∃ s, after 10 2 [.alloc 4, .put 0] = some s := Option.isSome_iff_exists.mp (by decide +kernel)
    have hlen : ∀ s ∈ after 10 2 [.alloc 4, .put 0], (s.queueGet 2 ⟨0, 0⟩).2.2 = 4 := by decide +kernel
    refine ⟨s, hs, hlen s hs, fun h => ?_⟩
    have hb := h.bounded
    rw [hlen s hs] at hb
    omega
  · obtain ⟨s, hs⟩ : ∃ s, after 10 3 [.alloc 2, .alloc 3, .alloc 2, .put 0, .put 2, .free 1] = some s :=
      Option.isSome_iff_exists.mp (by decide +kernel)
    have hall : ∀ s ∈ after 10 3 [.alloc 2, .alloc 3, .alloc 2, .put 0, .put 2, .free 1],
        s.gathered 10 = [0, 2] ∧ s.hi 0 < s.lo 2 ∧ (s.queueGet 10 ⟨0, 0⟩).2.2 = 4 ∧
        (s.queueGet 10 ⟨0, 0⟩).1.rtRbbBlkQueueLen (s.queueGet 10 ⟨0, 0⟩).2.1 = some 5 := by decide +kernel
    obtain ⟨h1, h2, h3, h4⟩ := hall s hs
    refine ⟨s, hs, h1, h2, h3, h4, fun h => ?_⟩
    have hc := h.counted
    rw [h3, h4] at hc
    exact absurd hc (by decide)

end Rbb

end RtSmart
