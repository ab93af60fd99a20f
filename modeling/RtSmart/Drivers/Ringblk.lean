import RtSmart.Lib.Transition
import RtSmart.Lib.Word
import RtSmart.Lib.Wrapped

/-!
The ring block buffer (`ringblk_buf.c`). A block is its index in `blk_set`, and addresses are offsets
into the buffer.
-/

namespace RtSmart

open Lib

inductive RbbStatus
  | unused
  | inited
  | put
  | get
deriving DecidableEq

structure RbbBlk where
  status : RbbStatus
  size : ℕ
  buf : ℕ
deriving DecidableEq

structure RbbQueue where
  blocks : ℕ
  blkNum : ℕ
deriving DecidableEq

structure Rbb where
  bufSize : ℕ
  blkMaxNum : ℕ
  blkSet : ℕ → RbbBlk
  blkList : List ℕ

namespace Rbb

/-- `rt_rbb_init`; `mem` is what the memory of the block set held before. -/
def init (bufSize blkMaxNum : ℕ) (mem : ℕ → RbbBlk) : Rbb :=
  ⟨bufSize, blkMaxNum, fun i => { mem i with status := .unused }, []⟩

def setBlk (s : Rbb) (i : ℕ) (b : RbbBlk) : Rbb :=
  { s with blkSet := Function.update s.blkSet i b }

def setStatus (s : Rbb) (i : ℕ) (status : RbbStatus) : Rbb :=
  s.setBlk i { s.blkSet i with status := status }

def findEmptyBlkInSet (s : Rbb) : Option ℕ :=
  (List.range s.blkMaxNum).find? fun i => (s.blkSet i).status == .unused

/-- Where `rt_rbb_blk_alloc` puts a block, judged from the first and the last block of the list. -/
def place (s : Rbb) (blkSize : ℕ) : Option ℕ :=
  match s.blkList.head?, s.blkList.getLast? with
  | some h, some t =>
    let head := s.blkSet h
    let tail := s.blkSet t
    if head.buf ≤ tail.buf then
      if blkSize ≤ wsub 64 s.bufSize (tail.buf + tail.size) then some (tail.buf + tail.size)
      else if blkSize ≤ head.buf then some 0
      else none
    else if blkSize ≤ wsub 64 head.buf (tail.buf + tail.size) then some (tail.buf + tail.size)
    else none
  | _, _ => some 0

def append (s : Rbb) (i blkSize pos : ℕ) : Rbb :=
  { s.setBlk i ⟨.inited, blkSize, pos⟩ with blkList := s.blkList ++ [i] }

def rtRbbBlkAlloc (s : Rbb) (blkSize : ℕ) : Option (Rbb × Option ℕ) :=
  if blkSize < 2 ^ 24 then
    match s.findEmptyBlkInSet with
    | none => some (s, none)
    | some i =>
      if s.blkList.length < s.blkMaxNum then
        match s.place blkSize with
        | none => some (s, none)
        | some pos => some (s.append i blkSize pos, some i)
      else some (s, none)
  else none

def rtRbbBlkPut (s : Rbb) (i : ℕ) : Option Rbb :=
  if i < s.blkMaxNum ∧ (s.blkSet i).status = .inited then some (s.setStatus i .put) else none

def rtRbbBlkGet (s : Rbb) : Rbb × Option ℕ :=
  match s.blkList.find? fun i => (s.blkSet i).status == .put with
  | none => (s, none)
  | some i => (s.setStatus i .get, some i)

def rtRbbBlkFree (s : Rbb) (i : ℕ) : Option Rbb :=
  if i < s.blkMaxNum ∧ (s.blkSet i).status ≠ .unused then
    some { s.setStatus i .unused with blkList := s.blkList.erase i }
  else none

/-- The blocks that the loop of `rt_rbb_blk_queue_get` takes from the rest of the list, after it took
`last` and `total` bytes. -/
def queueScan (blkSet : ℕ → RbbBlk) (queueDataLen : ℕ) : Option ℕ → ℕ → List ℕ → List ℕ
  | _, _, [] => []
  | none, total, i :: l =>
    if (blkSet i).status = .put then i :: queueScan blkSet queueDataLen (some i) (total + (blkSet i).size) l
    else queueScan blkSet queueDataLen none total l
  | some last, total, i :: l =>
    if (blkSet i).status ≠ .put ∨ (blkSet i).buf < (blkSet last).buf ∨ queueDataLen < total + (blkSet i).size then []
    else i :: queueScan blkSet queueDataLen (some i) (total + (blkSet i).size) l

def rtRbbBlkQueueGet (s : Rbb) (queueDataLen : ℕ) : Rbb × Option RbbQueue :=
  let taken := queueScan s.blkSet queueDataLen none 0 s.blkList
  ({ s with
      blkSet := fun i => if i ∈ taken then { s.blkSet i with status := .get } else s.blkSet i
      blkList := s.blkList.filter (· ∉ taken) },
    taken.head?.map fun i => ⟨i, taken.length⟩)

/-- Frees the blocks that follow the first one in `blk_set`. -/
def rtRbbBlkQueueFree (s : Rbb) (q : RbbQueue) : Option Rbb :=
  (List.range q.blkNum).foldlM (fun s i => s.rtRbbBlkFree (q.blocks + i)) s

end Rbb

/-- The buffer with the queues that were got and not freed. -/
structure RbbSys where
  rbb : Rbb
  queues : List RbbQueue

inductive RbbEvent
  | alloc (blkSize : ℕ)
  | put (i : ℕ)
  | get
  | free (i : ℕ)
  | queueGet (queueDataLen : ℕ)
  | queueFree (q : RbbQueue)
deriving DecidableEq

def RbbSys.init (bufSize blkMaxNum : ℕ) (mem : ℕ → RbbBlk) : RbbSys := ⟨.init bufSize blkMaxNum mem, []⟩

def RbbSys.step (s : RbbSys) : RbbEvent → Option RbbSys
  | .alloc blkSize => (s.rbb.rtRbbBlkAlloc blkSize).map fun r => { s with rbb := r.1 }
  | .put i => (s.rbb.rtRbbBlkPut i).map fun r => { s with rbb := r }
  | .get => some { s with rbb := s.rbb.rtRbbBlkGet.1 }
  | .free i => (s.rbb.rtRbbBlkFree i).map fun r => { s with rbb := r }
  | .queueGet len =>
    let r := s.rbb.rtRbbBlkQueueGet len
    some ⟨r.1, r.2.toList ++ s.queues⟩
  | .queueFree q =>
    if q ∈ s.queues then (s.rbb.rtRbbBlkQueueFree q).map fun r => ⟨r, s.queues.erase q⟩ else none

/-- A block is asked for only while every block in use is in the list; it has bytes if the list is
wrapped without a gap, and it fits the buffer if the list is empty. -/
def Rbb.AllocSafe (s : Rbb) (blkSize : ℕ) : Prop :=
  (∀ i < s.blkMaxNum, (s.blkSet i).status ≠ .unused → i ∈ s.blkList) ∧
    (∀ h ∈ s.blkList.head?, ∀ t ∈ s.blkList.getLast?, (s.blkSet t).buf < (s.blkSet h).buf →
      (s.blkSet t).buf + (s.blkSet t).size = (s.blkSet h).buf → 0 < blkSize) ∧
    (s.blkList = [] → blkSize ≤ s.bufSize)

instance (s : Rbb) (blkSize : ℕ) : Decidable (s.AllocSafe blkSize) :=
  inferInstanceAs (Decidable (_ ∧ _ ∧ _))

def RbbSys.AllocSafe (s : RbbSys) : RbbEvent → Prop
  | .alloc blkSize => s.rbb.AllocSafe blkSize
  | _ => True

instance (s : RbbSys) (e : RbbEvent) : Decidable (s.AllocSafe e) :=
  match e with
  | .alloc blkSize => inferInstanceAs (Decidable (s.rbb.AllocSafe blkSize))
  | .put _ => isTrue trivial
  | .get => isTrue trivial
  | .free _ => isTrue trivial
  | .queueGet _ => isTrue trivial
  | .queueFree _ => isTrue trivial

namespace Rbb

def Used (s : Rbb) (i : ℕ) : Prop := i < s.blkMaxNum ∧ (s.blkSet i).status ≠ .unused

def lo (s : Rbb) (i : ℕ) : ℕ := (s.blkSet i).buf

def hi (s : Rbb) (i : ℕ) : ℕ := (s.blkSet i).buf + (s.blkSet i).size

theorem lo_le_hi (s : Rbb) (i : ℕ) : s.lo i ≤ s.hi i := Nat.le_add_right _ _

end Rbb

structure RbbInv (s : Rbb) : Prop where
  size : s.bufSize < 2 ^ 64
  nodup : s.blkList.Nodup
  used : ∀ i ∈ s.blkList, s.Used i
  inside : ∀ i, s.Used i → s.hi i ≤ s.bufSize
  apart : ∀ i j, i ≠ j → s.Used i → s.Used j → s.hi i ≤ s.lo j ∨ s.hi j ≤ s.lo i
  ring : Wrapped s.lo s.hi s.blkList

namespace RbbInv

variable {s s' : Rbb} {i blkSize pos len : ℕ} {b : RbbBlk} {q : RbbQueue}

theorem init {bufSize blkMaxNum : ℕ} (mem : ℕ → RbbBlk) (h : bufSize < 2 ^ 64) :
    RbbInv (.init bufSize blkMaxNum mem) := by
  have hunused : ∀ i, ¬ (Rbb.init bufSize blkMaxNum mem).Used i := fun i hi => hi.2 rfl
  exact ⟨h, .nil, by simp [Rbb.init], fun i hi => absurd hi (hunused i), fun i _ _ hi => absurd hi (hunused i), .nil⟩

theorem shrink (h : RbbInv s) (hb : s'.bufSize = s.bufSize)
    (hused : ∀ i, s'.Used i → s.Used i ∧ s'.lo i = s.lo i ∧ s'.hi i = s.hi i)
    (hlist : s'.blkList.Sublist s.blkList) (hl : ∀ i ∈ s'.blkList, s'.Used i) : RbbInv s' := by
  refine ⟨hb ▸ h.size, h.nodup.sublist hlist, hl, fun i hi => ?_, fun i j hij hi hj => ?_, ?_⟩
  · rw [hb, (hused i hi).2.2]
    exact h.inside i (hused i hi).1
  · rw [(hused i hi).2.1, (hused i hi).2.2, (hused j hj).2.1, (hused j hj).2.2]
    exact h.apart i j hij (hused i hi).1 (hused j hj).1
  · exact (h.ring.sublist hlist).congr (fun i hi => (hused i (hl i hi)).2.1) fun i hi => (hused i (hl i hi)).2.2

theorem setStatus_used {status : RbbStatus} (hs : status ≠ .unused) (hi : s.Used i) (j : ℕ) :
    (s.setStatus i status).Used j ↔ s.Used j := by
  by_cases hj : j = i
  · subst hj
    have hst : ((s.setStatus j status).blkSet j).status = status := by simp [Rbb.setStatus, Rbb.setBlk]
    exact ⟨fun _ => hi, fun _ => ⟨hi.1, by rwa [hst]⟩⟩
  · simp [Rbb.Used, Rbb.setStatus, Rbb.setBlk, hj]

theorem setStatus_lo (status : RbbStatus) (j : ℕ) : (s.setStatus i status).lo j = s.lo j := by
  by_cases hj : j = i
  · subst hj
    simp [Rbb.lo, Rbb.setStatus, Rbb.setBlk]
  · simp [Rbb.lo, Rbb.setStatus, Rbb.setBlk, hj]

theorem setStatus_hi (status : RbbStatus) (j : ℕ) : (s.setStatus i status).hi j = s.hi j := by
  by_cases hj : j = i
  · subst hj
    simp [Rbb.hi, Rbb.setStatus, Rbb.setBlk]
  · simp [Rbb.hi, Rbb.setStatus, Rbb.setBlk, hj]

theorem setStatus {status : RbbStatus} (h : RbbInv s) (hs : status ≠ .unused) (hi : s.Used i) :
    RbbInv (s.setStatus i status) := by
  refine h.shrink ?_ ?_ ?_ ?_
  · rfl
  · intro j hj
    exact ⟨(setStatus_used hs hi j).mp hj, setStatus_lo status j, setStatus_hi status j⟩
  · exact List.Sublist.refl _
  · intro j hj
    exact (setStatus_used hs hi j).mpr (h.used j hj)

theorem put (h : RbbInv s) (hs : s.rtRbbBlkPut i = some s') : RbbInv s' := by
  unfold Rbb.rtRbbBlkPut at hs
  split_ifs at hs with hi
  cases hs
  exact h.setStatus (by decide) ⟨hi.1, by rw [hi.2]; decide⟩

theorem get (h : RbbInv s) : RbbInv s.rtRbbBlkGet.1 := by
  unfold Rbb.rtRbbBlkGet
  split
  · exact h
  · next i hi => exact h.setStatus (by decide) (h.used i (List.mem_of_find?_eq_some hi))

theorem free (h : RbbInv s) (hs : s.rtRbbBlkFree i = some s') : RbbInv s' := by
  unfold Rbb.rtRbbBlkFree at hs
  split_ifs at hs with hi
  cases hs
  have hne : ∀ j, ¬ (j = i ∧ (s.setStatus i .unused).Used j) := by
    rintro j ⟨rfl, hj⟩
    exact hj.2 (by simp [Rbb.setStatus, Rbb.setBlk])
  have hother : ∀ j, j ≠ i → ((s.setStatus i .unused).Used j ↔ s.Used j) := by
    intro j hj
    simp [Rbb.Used, Rbb.setStatus, Rbb.setBlk, hj]
  refine h.shrink ?_ ?_ ?_ ?_
  · rfl
  · intro j hj
    have hji : j ≠ i := fun heq => hne j ⟨heq, hj⟩
    exact ⟨(hother j hji).mp hj, setStatus_lo .unused j, setStatus_hi .unused j⟩
  · exact List.erase_sublist
  · intro j hj
    obtain ⟨hji, hmem⟩ := h.nodup.mem_erase_iff.mp hj
    exact (hother j hji).mpr (h.used j hmem)

theorem queueFree (h : RbbInv s) (hs : s.rtRbbBlkQueueFree q = some s') : RbbInv s' := by
  unfold Rbb.rtRbbBlkQueueFree at hs
  generalize List.range q.blkNum = l at hs
  induction l generalizing s with
  | nil =>
    cases hs
    exact h
  | cons i l ih =>
    rw [List.foldlM_cons] at hs
    obtain ⟨u, hu, hs⟩ := Option.bind_eq_some_iff.mp hs
    exact ih (h.free hu) hs

theorem mem_of_mem_queueScan {blkSet : ℕ → RbbBlk} {last : Option ℕ} {total : ℕ} {l : List ℕ}
    (h : i ∈ Rbb.queueScan blkSet len last total l) : i ∈ l := by
  induction l generalizing last total with
  | nil =>
    rw [Rbb.queueScan] at h
    exact h
  | cons j l ih =>
    cases last with
    | none =>
      rw [Rbb.queueScan] at h
      split_ifs at h
      · exact (List.mem_cons.mp h).elim (fun heq => heq ▸ List.mem_cons_self) fun hmem => List.mem_cons_of_mem _ (ih hmem)
      · exact List.mem_cons_of_mem _ (ih h)
    | some k =>
      rw [Rbb.queueScan] at h
      split_ifs at h
      · cases h
      · exact (List.mem_cons.mp h).elim (fun heq => heq ▸ List.mem_cons_self) fun hmem => List.mem_cons_of_mem _ (ih hmem)

theorem queueGet (h : RbbInv s) : RbbInv (s.rtRbbBlkQueueGet len).1 := by
  have htaken : ∀ j ∈ Rbb.queueScan s.blkSet len none 0 s.blkList, s.Used j :=
    fun j hj => h.used j (mem_of_mem_queueScan hj)
  have hblk : ∀ j, (s.rtRbbBlkQueueGet len).1.blkSet j = if j ∈ Rbb.queueScan s.blkSet len none 0 s.blkList then
      { s.blkSet j with status := .get } else s.blkSet j := fun j => rfl
  refine h.shrink ?_ ?_ ?_ ?_
  · rfl
  · intro j hj
    simp only [Rbb.lo, Rbb.hi, hblk]
    split_ifs with hmem
    · exact ⟨htaken j hmem, rfl, rfl⟩
    · refine ⟨⟨hj.1, ?_⟩, rfl, rfl⟩
      have := hj.2
      rwa [hblk, if_neg hmem] at this
  · exact List.filter_sublist
  · intro j hj
    obtain ⟨hmem, hnot⟩ := List.mem_filter.mp hj
    refine ⟨(h.used j hmem).1, ?_⟩
    rw [hblk, if_neg (by simpa using hnot)]
    exact (h.used j hmem).2

section alloc

variable {size : ℕ}

theorem findEmpty_spec (h : s.findEmptyBlkInSet = some i) : i < s.blkMaxNum ∧ (s.blkSet i).status = .unused := by
  have hmem := List.mem_of_find?_eq_some h
  have hst := List.find?_some h
  exact ⟨List.mem_range.mp hmem, by simpa using hst⟩

theorem append_lo {j : ℕ} : (s.append i size pos).lo j = if j = i then pos else s.lo j := by
  by_cases hj : j = i
  · subst hj
    simp [Rbb.append, Rbb.lo, Rbb.setBlk]
  · simp [Rbb.append, Rbb.lo, Rbb.setBlk, hj]

theorem append_hi {j : ℕ} : (s.append i size pos).hi j = if j = i then pos + size else s.hi j := by
  by_cases hj : j = i
  · subst hj
    simp [Rbb.append, Rbb.hi, Rbb.setBlk]
  · simp [Rbb.append, Rbb.hi, Rbb.setBlk, hj]

theorem append_used {j : ℕ} (hi : i < s.blkMaxNum) : (s.append i size pos).Used j ↔ j = i ∨ s.Used j := by
  by_cases hj : j = i
  · subst hj
    simp [Rbb.append, Rbb.Used, Rbb.setBlk, hi]
  · simp [Rbb.append, Rbb.Used, Rbb.setBlk, hj]

theorem append (h : RbbInv s) (hi : i < s.blkMaxNum) (hun : (s.blkSet i).status = .unused)
    (hin : pos + size ≤ s.bufSize) (hapart : ∀ j, s.Used j → s.hi j ≤ pos ∨ pos + size ≤ s.lo j)
    (hring : Wrapped (s.append i size pos).lo (s.append i size pos).hi (s.blkList ++ [i])) :
    RbbInv (s.append i size pos) := by
  have hnot : i ∉ s.blkList := fun hmem => (h.used i hmem).2 hun
  have hunused : ¬ s.Used i := fun hu => hu.2 hun
  refine ⟨h.size, ?_, ?_, ?_, ?_, hring⟩
  · exact List.nodup_append.mpr ⟨h.nodup, List.nodup_singleton i, by simpa using fun a ha (heq : a = i) => hnot (heq ▸ ha)⟩
  · intro j hj
    rw [append_used hi]
    rcases List.mem_append.mp hj with hj | hj
    · exact .inr (h.used j hj)
    · exact .inl (List.mem_singleton.mp hj)
  · intro j hj
    rw [append_hi]
    split_ifs with hji
    · exact hin
    · exact h.inside j (((append_used hi).mp hj).resolve_left hji)
  · intro j k hjk hj hk
    rw [append_lo, append_lo, append_hi, append_hi]
    split_ifs with hji hki hki
    · exact absurd (hji.trans hki.symm) hjk
    · exact (hapart k (((append_used hi).mp hk).resolve_left hki)).symm
    · exact hapart j (((append_used hi).mp hj).resolve_left hji)
    · exact h.apart j k hjk (((append_used hi).mp hj).resolve_left hji) (((append_used hi).mp hk).resolve_left hki)

theorem append_ring (h : RbbInv s) (hun : (s.blkSet i).status = .unused) :
    Wrapped (s.append i size pos).lo (s.append i size pos).hi s.blkList := by
  have hne : ∀ j ∈ s.blkList, j ≠ i := by
    rintro j hj rfl
    exact (h.used j hj).2 hun
  apply h.ring.congr
  · intro j hj
    rw [append_lo, if_neg (hne j hj)]
  · intro j hj
    rw [append_hi, if_neg (hne j hj)]

theorem place_ok {x y : ℕ} (h : RbbInv s) (hi : i < s.blkMaxNum) (hun : (s.blkSet i).status = .unused)
    (hall : ∀ j, s.Used j → j ∈ s.blkList) (hx : s.blkList.head? = some x) (hy : s.blkList.getLast? = some y)
    (hpos : s.lo y < s.lo x → s.hi y = s.lo x → 0 < size) (hp : s.place size = some pos) :
    RbbInv (s.append i size pos) := by
  have hring : Wrapped (s.append i size pos).lo (s.append i size pos).hi s.blkList := h.append_ring hun
  have hne : ∀ j ∈ s.blkList, j ≠ i := by
    rintro j hj rfl
    exact (h.used j hj).2 hun
  have hxm : x ∈ s.blkList := List.mem_of_head? hx
  have hym : y ∈ s.blkList := List.mem_of_getLast? hy
  have hlo : ∀ j ∈ s.blkList, (s.append i size pos).lo j = s.lo j := fun j hj => by rw [append_lo, if_neg (hne j hj)]
  have hhi : ∀ j ∈ s.blkList, (s.append i size pos).hi j = s.hi j := fun j hj => by rw [append_hi, if_neg (hne j hj)]
  have hloi : (s.append i size pos).lo i = pos := by rw [append_lo, if_pos rfl]
  have hhii : (s.append i size pos).hi i = pos + size := by rw [append_hi, if_pos rfl]
  have hyin := h.inside y (h.used y hym)
  have hxin := h.inside x (h.used x hxm)
  have hsize := h.size
  have hxle := s.lo_le_hi x
  have hsub1 : wsub 64 s.bufSize (s.hi y) = s.bufSize - s.hi y := wsub_of_le hyin h.size
  have hends := hring.ends (Rbb.lo_le_hi _) hx hy
  rw [hlo x hxm, hlo y hym, hhi y hym] at hends
  simp only [Rbb.place, hx, hy] at hp
  change (if s.lo x ≤ s.lo y then if size ≤ wsub 64 s.bufSize (s.hi y) then some (s.hi y)
    else if size ≤ s.lo x then some 0 else none
    else if size ≤ wsub 64 (s.lo x) (s.hi y) then some (s.hi y) else none) = some pos at hp
  rcases hends with ⟨hle, hin, hafter, hbefore⟩ | ⟨hlt, hyx, hin, hbetween⟩
  · have hin' : ∀ j, s.Used j → s.lo x ≤ s.lo j ∧ s.hi j ≤ s.hi y := by
      intro j hj
      have := hin j (hall j hj)
      rwa [hlo j (hall j hj), hhi j (hall j hj)] at this
    rw [if_pos hle, hsub1] at hp
    split_ifs at hp with h1 h2
    · obtain rfl := Option.some.inj hp
      exact h.append hi hun (by omega) (fun j hj => .inl (hin' j hj).2) (hafter i (by rw [hloi]))
    · obtain rfl := Option.some.inj hp
      refine h.append hi hun (by omega) (fun j hj => .inr ?_) (hbefore i (by rw [hhii]; omega) (by rw [hloi]; omega))
      have := (hin' j hj).1
      omega
  · have hin' : ∀ j, s.Used j → s.hi j ≤ s.hi y ∨ s.lo x ≤ s.lo j := by
      intro j hj
      have := hin j (hall j hj)
      rwa [hlo j (hall j hj), hhi j (hall j hj)] at this
    rw [if_neg (by omega), wsub_of_le hyx (by omega)] at hp
    split_ifs at hp with h1
    obtain rfl := Option.some.inj hp
    have hroom : s.hi y < s.lo x := by
      by_contra hfull
      have := hpos hlt (by omega)
      omega
    refine h.append hi hun (by omega) (fun j hj => ?_)
      (hbetween i (by rw [hloi]) (by rw [hhii]; omega) (by rw [hloi]; omega))
    rcases hin' j hj with hj | hj
    · exact .inl hj
    · exact .inr (by omega)

theorem alloc {new : Option ℕ} (h : RbbInv s) (hsafe : s.AllocSafe size) (hs : s.rtRbbBlkAlloc size = some (s', new)) :
    RbbInv s' := by
  unfold Rbb.rtRbbBlkAlloc at hs
  obtain ⟨hall, hgap, hempty⟩ := hsafe
  have hall' : ∀ j, s.Used j → j ∈ s.blkList := fun j hj => hall j hj.1 hj.2
  split at hs
  case isFalse => cases hs
  split at hs
  · cases hs
    exact h
  next i hi =>
  obtain ⟨hi, hun⟩ := findEmpty_spec hi
  split at hs
  case isFalse =>
    cases hs
    exact h
  split at hs
  · cases hs
    exact h
  next pos hp =>
  cases hs
  rcases hl : s.blkList with _ | ⟨x, l⟩
  · have hp0 : pos = 0 := by
      simpa [Rbb.place, hl] using hp.symm
    have hfits := hempty hl
    subst hp0
    refine h.append hi hun (by omega) (fun j hj => ?_) ?_
    · have := hall' j hj
      simp [hl] at this
    · rw [hl]
      exact Wrapped.singleton i
  · have hx : s.blkList.head? = some x := by simp [hl]
    have hy : s.blkList.getLast? = some ((x :: l).getLast (by simp)) := by
      rw [hl, List.getLast?_eq_some_getLast]
    exact h.place_ok hi hun hall' hx hy (hgap x hx _ hy) hp

end alloc

end RbbInv

theorem RbbInv.step {s s' : RbbSys} {e : RbbEvent} (h : RbbInv s.rbb) (hok : s.AllocSafe e) (hs : s.step e = some s') :
    RbbInv s'.rbb := by
  cases e with
  | alloc size =>
    obtain ⟨⟨r, new⟩, hr, rfl⟩ := Option.map_eq_some_iff.mp hs
    exact h.alloc hok hr
  | put i =>
    obtain ⟨r, hr, rfl⟩ := Option.map_eq_some_iff.mp hs
    exact h.put hr
  | get =>
    cases hs
    exact h.get
  | free i =>
    obtain ⟨r, hr, rfl⟩ := Option.map_eq_some_iff.mp hs
    exact h.free hr
  | queueGet len =>
    cases hs
    exact h.queueGet
  | queueFree q =>
    simp only [RbbSys.step] at hs
    split_ifs at hs
    obtain ⟨r, hr, rfl⟩ := Option.map_eq_some_iff.mp hs
    exact h.queueFree hr

/-- The blocks in use lie apart from each other inside the buffer. -/
theorem rbb_blocks_apart {bufSize blkMaxNum : ℕ} {mem : ℕ → RbbBlk} {es : List RbbEvent} {s : RbbSys}
    (hsize : bufSize < 2 ^ 64) (hs : run RbbSys.step (.init bufSize blkMaxNum mem) es = some s)
    (hok : Meets RbbSys.step RbbSys.AllocSafe (.init bufSize blkMaxNum mem) es) :
    (∀ i, s.rbb.Used i → s.rbb.hi i ≤ s.rbb.bufSize) ∧
      ∀ i j, i ≠ j → s.rbb.Used i → s.rbb.Used j → s.rbb.hi i ≤ s.rbb.lo j ∨ s.rbb.hi j ≤ s.rbb.lo i := by
  have h : RbbInv s.rbb := run_invariant_of_meets (fun s => RbbInv s.rbb) (fun _ _ _ h hok hs => h.step hok hs) hs hok
    (RbbInv.init mem hsize)
  exact ⟨h.inside, h.apart⟩

theorem rbb_blocks_apart_example :
    ∃ s, run RbbSys.step (.init 10 3 fun _ => ⟨.unused, 0, 0⟩)
        [.alloc 6, .alloc 4, .put 0, .get, .free 0, .alloc 5, .put 1, .queueGet 10, .queueFree ⟨1, 1⟩, .alloc 5] = some s ∧
      ∀ i j, i ≠ j → s.rbb.Used i → s.rbb.Used j → s.rbb.hi i ≤ s.rbb.lo j ∨ s.rbb.hi j ≤ s.rbb.lo i := by
  obtain ⟨s, hs⟩ := Option.isSome_iff_exists.mp (show (run RbbSys.step (.init 10 3 fun _ => ⟨.unused, 0, 0⟩)
    [.alloc 6, .alloc 4, .put 0, .get, .free 0, .alloc 5, .put 1, .queueGet 10, .queueFree ⟨1, 1⟩,
      .alloc 5]).isSome = true by decide +kernel)
  exact ⟨s, hs, (rbb_blocks_apart (by decide) hs (by decide +kernel)).2⟩

/-- A block of a queue is not in the list, and the next block goes over it. -/
theorem queue_block_overwritten : ¬ ∀ es s, run RbbSys.step (.init 10 2 fun _ => ⟨.unused, 0, 0⟩) es = some s →
    ∀ i j, i ≠ j → s.rbb.Used i → s.rbb.Used j → s.rbb.hi i ≤ s.rbb.lo j ∨ s.rbb.hi j ≤ s.rbb.lo i := by
  intro h
  have hrun : ((run RbbSys.step (.init 10 2 fun _ => ⟨.unused, 0, 0⟩) [.alloc 4, .put 0, .queueGet 10, .alloc 8]).any
      fun s => decide (s.rbb.blkMaxNum = 2) && decide (s.rbb.blkSet 0 = ⟨.get, 4, 0⟩) &&
        decide (s.rbb.blkSet 1 = ⟨.inited, 8, 0⟩)) = true := by
    decide +kernel
  obtain ⟨s, hs, hp⟩ := (Option.any_eq_true _ _).mp hrun
  simp only [Bool.and_eq_true, decide_eq_true_eq] at hp
  obtain ⟨⟨hn, h0⟩, h1⟩ := hp
  have := h _ s hs 0 1 (by decide) ⟨by omega, by simp [h0]⟩ ⟨by omega, by simp [h1]⟩
  simp [Rbb.lo, Rbb.hi, h0, h1] at this

end RtSmart
