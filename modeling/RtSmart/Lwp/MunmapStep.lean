import RtSmart.Lwp.Munmap
import RtSmart.Lwp.ShmInv

/-!
One turn of `lwp_munmap`: a range of pages is taken out of the area that it meets.
-/

namespace RtSmart

open Lib

variable {l l₁ l₂ : List MmArea} {a b ma : MmArea} {addr current start stop : ℕ} {tail : Option MmArea}

theorem lwpMapFind_spec (hl : ∀ a ∈ l, a.Aligned) (hf : lwpMapFind l addr = some a) :
    a ∈ l ∧ a.addr ≤ addr ∧ addr < a.addr + a.size ∧ a.areaEnd = a.addr + a.size := by
  have hmem := List.mem_of_find?_eq_some hf
  have hin : a.addr ≤ addr ∧ addr < a.areaEnd := by simpa using List.find?_some hf
  have hle := (hl a hmem).size_le
  have hlt := (hl a hmem).addr_lt
  have hend : a.areaEnd = a.addr + a.size := by
    unfold MmArea.areaEnd at hin ⊢
    omega
  exact ⟨hmem, hin.1, hend ▸ hin.2, hend⟩

theorem lwpMapFind_none (hf : lwpMapFind l addr = none) (ha : a ∈ l) : addr < a.addr ∨ a.areaEnd ≤ addr := by
  have := List.find?_eq_none.mp hf a ha
  simp only [decide_eq_true_eq] at this
  omega

theorem lwpMapFindNext_spec (ho : Ordered l) (hl : ∀ a ∈ l, a.Aligned) (hf : lwpMapFindNext l addr = some a) :
    a ∈ l ∧ addr < a.addr ∧ ∀ b ∈ l, addr < b.addr → a.addr ≤ b.addr := by
  obtain ⟨ha, l₁, l₂, rfl, hbefore⟩ := List.find?_eq_some_iff_append.mp hf
  simp only [decide_eq_true_eq] at ha
  refine ⟨by simp, ha, ?_⟩
  intro b hb hlt
  rcases List.mem_append.mp hb with hb | hb
  · have := hbefore b hb
    simp only [Bool.not_eq_true', decide_eq_false_iff_not] at this
    omega
  · rcases List.mem_cons.mp hb with rfl | hb
    · exact le_rfl
    · have := (List.pairwise_cons.mp (List.pairwise_append.mp ho).2.1).1 b hb
      omega

theorem lwpMapFindNext_none (hf : lwpMapFindNext l addr = none) (ha : a ∈ l) : a.addr ≤ addr := by
  have := List.find?_eq_none.mp hf a ha
  simp only [decide_eq_true_eq] at this
  omega

theorem Ordered.around (h : Ordered (l₁ ++ a :: l₂)) :
    (∀ b ∈ l₁, b.addr + b.size ≤ a.addr) ∧ ∀ b ∈ l₂, a.addr + a.size ≤ b.addr := by
  obtain ⟨-, h₂, h₁₂⟩ := List.pairwise_append.mp h
  exact ⟨fun b hb => h₁₂ b hb a List.mem_cons_self, (List.pairwise_cons.mp h₂).1⟩

theorem Ordered.end_le (h : Ordered l) (ha : a ∈ l) (hb : b ∈ l) (hlt : a.addr < b.addr) : a.addr + a.size ≤ b.addr := by
  obtain ⟨l₁, l₂, rfl⟩ := List.append_of_mem hb
  obtain ⟨h₁, h₂⟩ := h.around
  rcases List.mem_append.mp ha with ha | ha
  · exact h₁ a ha
  · rcases List.mem_cons.mp ha with rfl | ha
    · omega
    · have := h₂ a ha
      omega

theorem lwpAreaInsert_between (a : MmArea) (l₁ l₂ : List MmArea) (h₁ : ∀ b ∈ l₁, b.addr ≤ a.addr) (h₂ : ∀ b ∈ l₂, a.addr < b.addr) :
    lwpAreaInsert a (l₁ ++ l₂) = l₁ ++ a :: l₂ := by
  induction l₁ with
  | nil =>
    cases l₂ with
    | nil => rfl
    | cons b l₂ => exact if_pos (h₂ b List.mem_cons_self)
  | cons c l₁ ih =>
    have hc := h₁ c List.mem_cons_self
    rw [List.cons_append, lwpAreaInsert, if_neg (by omega), ih fun b hb => h₁ b (List.mem_cons_of_mem c hb)]
    rfl

def MmArea.parts (ma : MmArea) (start stop : ℕ) : List MmArea :=
  if start = ma.addr then
    if stop = ma.addr + ma.size then [] else [ma.cutFront (stop - start)]
  else
    ma.cutBack (start - ma.addr) ::
      if stop = ma.addr + ma.size then []
      else [MmArea.takeUnmapAll ⟨stop, ma.addr + ma.size - stop, ma.type, 0⟩ ma.unmapAllAddr]

def TailFor (ma : MmArea) (start stop : ℕ) (tail : Option MmArea) : Prop :=
  start ≠ ma.addr → tail = if stop = ma.addr + ma.size then none else some ⟨stop, ma.addr + ma.size - stop, ma.type, 0⟩

theorem notMem_around (ho : Ordered (l₁ ++ ma :: l₂)) (hpos : 0 < ma.size) (hl : ∀ b ∈ l₁ ++ ma :: l₂, b.Aligned) :
    (∀ b ∈ l₁, b.addr ≠ ma.addr) ∧ ∀ b ∈ l₂, b.addr ≠ ma.addr := by
  obtain ⟨h₁, h₂⟩ := ho.around
  constructor
  · intro b hb
    have := h₁ b hb
    have := (hl b (List.mem_append_left _ hb)).size_pos
    omega
  · intro b hb
    have := h₂ b hb
    omega

theorem carveArea_eq (ho : Ordered (l₁ ++ ma :: l₂)) (hl : ∀ b ∈ l₁ ++ ma :: l₂, b.Aligned) (hle : ma.addr ≤ start)
    (hlt : start < stop) (hend : stop ≤ ma.addr + ma.size) (ht : TailFor ma start stop tail) :
    carveArea (l₁ ++ ma :: l₂) ma start stop tail = l₁ ++ ma.parts start stop ++ l₂ := by
  obtain ⟨h₁, h₂⟩ := ho.around
  obtain ⟨hn₁, hn₂⟩ := notMem_around ho (hl ma (by simp)).size_pos hl
  have hm₁ : ma ∉ l₁ := fun hm => hn₁ ma hm rfl
  have hm₂ : ma ∉ l₂ := fun hm => hn₂ ma hm rfl
  have hpos : ∀ b ∈ l₁, b.addr < ma.addr := by
    intro b hb
    have := h₁ b hb
    have := (hl b (List.mem_append_left _ hb)).size_pos
    omega
  unfold carveArea MmArea.parts
  by_cases hs : start = ma.addr
  · subst hs
    by_cases he : stop = ma.addr + ma.size
    · subst he
      simp only [Nat.add_sub_cancel_left, and_self, ↓reduceIte, List.append_nil]
      unfold lwpMapAreaRemove
      rw [List.eraseP_append_right _ fun b hb => by simpa using hn₁ b hb, List.eraseP_cons_of_pos (by simp)]
    · have hne : ¬ (ma.addr = ma.addr ∧ stop - ma.addr = ma.size) := by omega
      rw [if_neg hne, if_pos rfl, if_pos rfl, if_neg he, List.erase_append_right _ hm₁, List.erase_cons_head]
      rw [lwpAreaInsert_between]
      · simp
      · intro b hb
        have := hpos b hb
        show b.addr ≤ ma.addr + (stop - ma.addr)
        omega
      · intro b hb
        have := h₂ b hb
        show ma.addr + (stop - ma.addr) < b.addr
        omega
  · have hkeep : ∀ k : List MmArea, ma ∉ k → k.map (fun b => if b = ma then ma.cutBack (start - ma.addr) else b) = k := by
      intro k hk
      have hid : ∀ b ∈ k, (if b = ma then ma.cutBack (start - ma.addr) else b) = b := by
        intro b hb
        apply if_neg
        rintro rfl
        exact hk hb
      exact (List.map_congr_left hid).trans (List.map_id' k)
    have hmap : (l₁ ++ ma :: l₂).map (fun b => if b = ma then ma.cutBack (start - ma.addr) else b) =
        l₁ ++ ma.cutBack (start - ma.addr) :: l₂ := by
      rw [List.map_append, List.map_cons, if_pos rfl, hkeep l₁ hm₁, hkeep l₂ hm₂]
    rw [ht hs, if_neg fun h => hs h.1, if_neg hs, if_neg hs, hmap]
    by_cases he : stop = ma.addr + ma.size
    · simp [he]
    · simp only [he, ↓reduceIte]
      have haddr : (MmArea.takeUnmapAll ⟨stop, ma.addr + ma.size - stop, ma.type, 0⟩ ma.unmapAllAddr).addr = stop := by
        unfold MmArea.takeUnmapAll
        split <;> rfl
      have hins := lwpAreaInsert_between
        (MmArea.takeUnmapAll ⟨stop, ma.addr + ma.size - stop, ma.type, 0⟩ ma.unmapAllAddr)
        (l₁ ++ [ma.cutBack (start - ma.addr)]) l₂
      rw [haddr] at hins
      rw [List.append_cons, hins]
      · simp
      · intro b hb
        rcases List.mem_append.mp hb with hb | hb
        · have := hpos b hb
          omega
        · rw [List.mem_singleton.mp hb]
          show ma.addr ≤ stop
          omega
      · intro b hb
        have := h₂ b hb
        omega

section Parts

variable (hle : ma.addr ≤ start) (hlt : start < stop) (hend : stop ≤ ma.addr + ma.size)

include hle hlt hend

theorem mem_parts (hb : b ∈ ma.parts start stop) : b.type = ma.type ∧
    ((b.addr = ma.addr ∧ b.size = start - ma.addr ∧ start ≠ ma.addr) ∨
      (b.addr = stop ∧ b.size = ma.addr + ma.size - stop ∧ stop ≠ ma.addr + ma.size)) := by
  have hback : ∀ ua : ℕ, (MmArea.takeUnmapAll ⟨stop, ma.addr + ma.size - stop, ma.type, 0⟩ ua).type = ma.type ∧
      (MmArea.takeUnmapAll ⟨stop, ma.addr + ma.size - stop, ma.type, 0⟩ ua).addr = stop ∧
      (MmArea.takeUnmapAll ⟨stop, ma.addr + ma.size - stop, ma.type, 0⟩ ua).size = ma.addr + ma.size - stop := by
    intro ua
    unfold MmArea.takeUnmapAll
    split <;> exact ⟨rfl, rfl, rfl⟩
  unfold MmArea.parts at hb
  split at hb
  · next hs =>
    subst hs
    split at hb
    · cases hb
    · next he =>
      rw [List.mem_singleton.mp hb]
      refine ⟨rfl, .inr ⟨?_, ?_, he⟩⟩
      · show ma.addr + (stop - ma.addr) = stop
        omega
      · show ma.size - (stop - ma.addr) = ma.addr + ma.size - stop
        omega
  · next hs =>
    rcases List.mem_cons.mp hb with rfl | hb
    · exact ⟨rfl, .inl ⟨rfl, rfl, hs⟩⟩
    · split at hb
      · cases hb
      · next he =>
        rw [List.mem_singleton.mp hb]
        obtain ⟨htype, haddr, hsize⟩ := hback ma.unmapAllAddr
        exact ⟨htype, .inr ⟨haddr, hsize, he⟩⟩

theorem slots_parts : (ma.parts start stop).flatMap MmArea.slots =
    slots ma.vpn ((start - ma.addr) / archPageSize) ++
      slots (stop / archPageSize) ((ma.addr + ma.size - stop) / archPageSize) := by
  unfold MmArea.parts
  split
  · next hs =>
    subst hs
    rw [Nat.sub_self, Nat.zero_div, slots_zero, List.nil_append]
    split
    · next he =>
      rw [he, Nat.sub_self, Nat.zero_div, slots_zero]
      rfl
    · rw [List.flatMap_singleton]
      have haddr : ma.addr + (stop - ma.addr) = stop := by omega
      have hsize : ma.size - (stop - ma.addr) = ma.addr + ma.size - stop := by omega
      unfold MmArea.slots MmArea.vpn MmArea.pages MmArea.cutFront
      rw [haddr, hsize]
  · rw [List.flatMap_cons]
    congr 1
    split
    · next he =>
      rw [he, Nat.sub_self, Nat.zero_div, slots_zero]
      rfl
    · rw [List.flatMap_singleton]
      unfold MmArea.takeUnmapAll
      split <;> rfl

variable (ha : ma.Aligned) (hstart : start % archPageSize = 0) (hstop : stop % archPageSize = 0)

include ha hstart hstop

theorem slots_split : ma.slots = slots ma.vpn ((start - ma.addr) / archPageSize) ++
    slots (start / archPageSize) ((stop - start) / archPageSize) ++
      slots (stop / archPageSize) ((ma.addr + ma.size - stop) / archPageSize) := by
  have haddr := ha.addr
  have hsize := ha.size
  unfold MmArea.slots MmArea.vpn MmArea.pages archPageSize at *
  have hpages : ma.size / 4096 = (start - ma.addr) / 4096 + (stop - start) / 4096 + (ma.addr + ma.size - stop) / 4096 := by
    omega
  have hvpn : ma.addr / 4096 + (start - ma.addr) / 4096 = start / 4096 := by omega
  have hvpn' : ma.addr / 4096 + ((start - ma.addr) / 4096 + (stop - start) / 4096) = stop / 4096 := by omega
  rw [hpages, slots_add, slots_add, hvpn, hvpn']

theorem remains_parts (h64 : stop < 2 ^ 64) :
    Remains ma (slots (start / archPageSize) ((stop - start) / archPageSize)) (ma.parts start stop) := by
  have hsplit := slots_split hle hlt hend ha hstart hstop
  constructor
  · rw [slots_parts hle hlt hend, hsplit, ← List.append_assoc]
    exact List.Perm.append_right _ List.perm_append_comm
  · exact fun b hb => (mem_parts hle hlt hend hb).1
  · intro b hb
    obtain ⟨haddr, hsize, hpos, hlt', -, hle'⟩ := ha
    unfold archPageSize at *
    rcases (mem_parts hle hlt hend hb).2 with ⟨hb1, hb2, hne⟩ | ⟨hb1, hb2, hne⟩
    · constructor <;> (try unfold archPageSize) <;> omega
    · constructor <;> (try unfold archPageSize) <;> omega
  · intro b hb
    rcases (mem_parts hle hlt hend hb).2 with ⟨hb1, hb2, -⟩ | ⟨hb1, hb2, -⟩
    · have hslots : b.slots = slots ma.vpn ((start - ma.addr) / archPageSize) := by
        unfold MmArea.slots MmArea.vpn MmArea.pages
        rw [hb1, hb2]
      rw [hslots, hsplit, List.append_assoc]
      exact (List.prefix_append _ _).isInfix
    · have hslots : b.slots = slots (stop / archPageSize) ((ma.addr + ma.size - stop) / archPageSize) := by
        unfold MmArea.slots MmArea.vpn MmArea.pages
        rw [hb1, hb2]
      rw [hslots, hsplit]
      exact (List.suffix_append _ _).isInfix

end Parts

theorem Ordered.parts (ho : Ordered (l₁ ++ ma :: l₂)) (hle : ma.addr ≤ start) (hlt : start < stop)
    (hend : stop ≤ ma.addr + ma.size) : Ordered (l₁ ++ ma.parts start stop ++ l₂) := by
  obtain ⟨h₁, h₂⟩ := ho.around
  obtain ⟨ho₁, ho₂, ho₁₂⟩ := List.pairwise_append.mp ho
  obtain ⟨-, ho₂⟩ := List.pairwise_cons.mp ho₂
  have hpart : ∀ b ∈ ma.parts start stop, ma.addr ≤ b.addr ∧ b.addr + b.size ≤ ma.addr + ma.size := by
    intro b hb
    rcases (mem_parts hle hlt hend hb).2 with ⟨hb1, hb2, -⟩ | ⟨hb1, hb2, -⟩ <;> omega
  have hparts : Ordered (ma.parts start stop) := by
    unfold MmArea.parts
    split
    · split
      · exact List.Pairwise.nil
      · exact List.pairwise_singleton _ _
    · split
      · exact List.pairwise_singleton _ _
      · apply List.pairwise_pair.mpr
        have haddr : (MmArea.takeUnmapAll ⟨stop, ma.addr + ma.size - stop, ma.type, 0⟩ ma.unmapAllAddr).addr = stop := by
          unfold MmArea.takeUnmapAll
          split <;> rfl
        rw [haddr]
        show ma.addr + (start - ma.addr) ≤ stop
        omega
  refine List.pairwise_append.mpr ⟨List.pairwise_append.mpr ⟨ho₁, hparts, ?_⟩, ho₂, ?_⟩
  · intro b hb c hc
    have := h₁ b hb
    have := hpart c hc
    omega
  · intro b hb c hc
    have := h₂ c hc
    rcases List.mem_append.mp hb with hb | hb
    · exact ho₁₂ b hb c (List.mem_cons_of_mem ma hc)
    · have := hpart b hb
      omega

/-- What a loop of `lwp_munmap` relies on when it comes to `current`. -/
structure Ready (l : List MmArea) (current stop : ℕ) (tail : Option MmArea) : Prop where
  ordered : Ordered l
  aligned : ∀ a ∈ l, a.Aligned
  current_mod : current % archPageSize = 0
  stop_mod : stop % archPageSize = 0
  stop_lt : stop < 2 ^ 64
  shm : ∀ a ∈ l, a.type = .shm → a.addr + a.size < 2 ^ 64 → a.addr < stop → current < a.addr + a.size →
    current ≤ a.addr ∧ a.addr + a.size ≤ stop
  tail : ∀ a ∈ l, a.addr + a.size < 2 ^ 64 → a.addr < current → stop < a.addr + a.size →
    tail = some ⟨stop, a.addr + a.size - stop, a.type, 0⟩

/-- The pages from `start` to `stop` are in one area, and are all of it if it is shared memory. -/
structure Turn (l₁ : List MmArea) (ma : MmArea) (l₂ : List MmArea) (start stop : ℕ) : Prop where
  ordered : Ordered (l₁ ++ ma :: l₂)
  aligned : ∀ a ∈ l₁ ++ ma :: l₂, a.Aligned
  start_mod : start % archPageSize = 0
  stop_mod : stop % archPageSize = 0
  le : ma.addr ≤ start
  lt : start < stop
  stop_le : stop ≤ ma.addr + ma.size
  stop_lt : stop < 2 ^ 64
  shm : ma.type = .shm → start = ma.addr ∧ stop = ma.addr + ma.size

/-- The effect of `lwp_unmap_user_area`. -/
def cutArea (x : Mm × UserSpace) (l₁ : List MmArea) (ma : MmArea) (l₂ : List MmArea) (start stop : ℕ) : Mm × UserSpace :=
  let y := unmapRange ma.type.paNeedFree (start / archPageSize) ((stop - start) / archPageSize) (x.1.detach x.2 ma, x.2)
  (y.1, { y.2 with mapArea := l₁ ++ ma.parts start stop ++ l₂ })

theorem Turn.remains (h : Turn l₁ ma l₂ start stop) :
    Remains ma (slots (start / archPageSize) ((stop - start) / archPageSize)) (ma.parts start stop) :=
  remains_parts h.le h.lt h.stop_le (h.aligned ma (by simp)) h.start_mod h.stop_mod h.stop_lt

theorem mapArea_unmapRange (f : Bool) (v n : ℕ) (x : Mm × UserSpace) : (unmapRange f v n x).2.mapArea = x.2.mapArea := by
  induction n generalizing v x with
  | zero => rfl
  | succ n ih =>
    rw [unmapRange, ih, unmapPage]
    split
    · rfl
    · split <;> rfl

theorem Turn.lwpUnmapUserArea_eq {x : Mm × UserSpace} (h : Turn l₁ ma l₂ start stop)
    (hx : x.2.mapArea = l₁ ++ ma :: l₂) (ht : TailFor ma start stop tail) :
    lwpUnmapUserArea x ma start stop tail = cutArea x l₁ ma l₂ start stop := by
  have hdetach : (if ma.type = .shm then (x.1.lwpShmRefDec x.2 start).1 else x.1) = x.1.detach x.2 ma := by
    unfold Mm.detach
    split
    · next hshm => rw [(h.shm hshm).1]
    · rfl
  unfold lwpUnmapUserArea cutArea
  dsimp only
  rw [hdetach, mapArea_unmapRange, hx, carveArea_eq h.ordered h.aligned h.le h.lt h.stop_le ht]

section Ready

variable (h : Ready l current stop tail)

include h

theorem Ready.turn (hlt : current < stop) (hf : lwpMapFind l current = some ma) :
    ∃ l₁ l₂, l = l₁ ++ ma :: l₂ ∧ ma.areaEnd = ma.addr + ma.size ∧ ma.areaEnd < 2 ^ 64 ∧
      Turn l₁ ma l₂ current (if ma.areaEnd < stop then ma.areaEnd else stop) := by
  obtain ⟨hmem, hle, hend, hareaEnd⟩ := lwpMapFind_spec h.aligned hf
  obtain ⟨l₁, l₂, rfl⟩ := List.append_of_mem hmem
  have h64 : ma.areaEnd < 2 ^ 64 := Nat.mod_lt _ (by decide)
  have ha := h.aligned ma hmem
  have hshm : ma.type = .shm → current ≤ ma.addr ∧ ma.addr + ma.size ≤ stop := fun hshm =>
    h.shm ma hmem hshm (hareaEnd ▸ h64) (by omega) hend
  have hstop := h.stop_lt
  refine ⟨l₁, l₂, rfl, hareaEnd, h64, ?_⟩
  refine ⟨h.ordered, h.aligned, h.current_mod, ?_, hle, ?_, ?_, ?_, ?_⟩
  · split
    · rw [hareaEnd, ha.addr_eq, ha.size_eq, ← Nat.add_mul]
      exact Nat.mul_mod_left _ _
    · exact h.stop_mod
  · split <;> omega
  · split <;> omega
  · split <;> omega
  · intro ht
    have := hshm ht
    split <;> omega

theorem Ready.tailFor (hf : lwpMapFind l current = some ma) :
    TailFor ma current (if ma.areaEnd < stop then ma.areaEnd else stop)
      (if current ≠ ma.addr ∧ (if ma.areaEnd < stop then ma.areaEnd else stop) < ma.areaEnd then tail else none) := by
  obtain ⟨hmem, hle, hend, hareaEnd⟩ := lwpMapFind_spec h.aligned hf
  have h64 : ma.areaEnd < 2 ^ 64 := Nat.mod_lt _ (by decide)
  intro hne
  rw [← hareaEnd]
  by_cases hcase : ma.areaEnd < stop
  · simp [hcase]
  · by_cases heq : stop = ma.areaEnd
    · simp [heq]
    · have hlt' : stop < ma.areaEnd := by omega
      rw [if_neg hcase, if_neg heq, if_pos ⟨hne, hlt'⟩, hareaEnd]
      exact h.tail ma hmem (by omega) (by omega) (by omega)

theorem Ready.cut (hlt : current < stop) (hl : l = l₁ ++ ma :: l₂) {segmentEnd : ℕ}
    (ht : Turn l₁ ma l₂ current segmentEnd) (tail' : Option MmArea) :
    Ready (l₁ ++ ma.parts current segmentEnd ++ l₂) segmentEnd stop tail' := by
  subst hl
  obtain ⟨h₁, h₂⟩ := ht.ordered.around
  have hparts := fun b hb => mem_parts (b := b) ht.le ht.lt ht.stop_le hb
  have hle := ht.le
  have hlt' := ht.lt
  have hend := ht.stop_le
  refine ⟨ht.ordered.parts ht.le ht.lt ht.stop_le, ?_, ht.stop_mod, h.stop_mod, h.stop_lt, ?_, ?_⟩
  · intro b hb
    rcases List.mem_append.mp hb with hb | hb
    · rcases List.mem_append.mp hb with hb | hb
      · exact h.aligned b (by simp [hb])
      · exact ht.remains.aligned b hb
    · exact h.aligned b (by simp [hb])
  · intro b hb hshm h64 hb1 hb2
    rcases List.mem_append.mp hb with hb | hb
    · rcases List.mem_append.mp hb with hb | hb
      · have := h₁ b hb
        omega
      · -- nothing is left of an area of shared memory
        obtain ⟨htype, hpart⟩ := hparts b hb
        have := ht.shm (htype ▸ hshm)
        omega
    · have := h₂ b hb
      have := h.shm b (by simp [hb]) hshm h64 hb1 (by omega)
      omega
  · intro b hb _ hb1 hb2
    rcases List.mem_append.mp hb with hb | hb
    · rcases List.mem_append.mp hb with hb | hb
      · have := h₁ b hb
        omega
      · obtain ⟨-, hpart⟩ := hparts b hb
        omega
    · have := h₂ b hb
      omega

theorem Ready.skip (hf : lwpMapFind l current = none) (hn : lwpMapFindNext l current = some ma) (hstop : ma.addr < stop) :
    Ready l ma.addr stop tail := by
  obtain ⟨hmem, hlt, hmin⟩ := lwpMapFindNext_spec h.ordered h.aligned hn
  refine ⟨h.ordered, h.aligned, (h.aligned ma hmem).addr, h.stop_mod, h.stop_lt, ?_, ?_⟩
  · intro b hb hshm h64 hb1 hb2
    have hin := h.shm b hb hshm h64 hb1 (by omega)
    have hnone := lwpMapFind_none hf hb
    have hareaEnd : b.areaEnd = b.addr + b.size := Nat.mod_eq_of_lt h64
    refine ⟨hmin b hb ?_, hin.2⟩
    omega
  · intro b hb _ hb1 hb2
    have := h.ordered.end_le hb hmem hb1
    omega

end Ready

/-- The turns that the areas behind `current`, and the one it is in, may take. -/
def turnsFrom (l : List MmArea) (current : ℕ) : ℕ :=
  2 * (l.countP fun a => current < a.addr) + if (lwpMapFind l current).isSome then 1 else 0

theorem turnsFrom_lt (l : List MmArea) (current : ℕ) : turnsFrom l current < rangeTurns l := by
  have := List.countP_le_length (p := fun a : MmArea => current < a.addr) (l := l)
  unfold turnsFrom rangeTurns
  split <;> omega

/-- No area meets the addresses from `lo` to `hi`. -/
def Clear (l : List MmArea) (lo hi : ℕ) : Prop := ∀ a ∈ l, a.addr + a.size < 2 ^ 64 → a.addr + a.size ≤ lo ∨ hi ≤ a.addr

theorem clear_of_next (hf : lwpMapFind l current = none) (hn : ∀ a ∈ l, current < a.addr → stop ≤ a.addr) :
    Clear l current stop := by
  intro a ha h64
  have hnone := lwpMapFind_none hf ha
  have hareaEnd : a.areaEnd = a.addr + a.size := Nat.mod_eq_of_lt h64
  by_cases hlt : current < a.addr
  · exact .inr (hn a ha hlt)
  · exact .inl (by omega)

theorem turnsFrom_skip (ho : Ordered l) (hl : ∀ a ∈ l, a.Aligned) (hf : lwpMapFind l current = none)
    (hn : lwpMapFindNext l current = some ma) : turnsFrom l ma.addr < turnsFrom l current := by
  obtain ⟨hmem, hlt, -⟩ := lwpMapFindNext_spec ho hl hn
  obtain ⟨l₁, l₂, rfl⟩ := List.append_of_mem hmem
  have hmono : ∀ k : List MmArea, (k.countP fun a => ma.addr < a.addr) ≤ k.countP fun a => current < a.addr := by
    intro k
    apply List.countP_mono_left
    intro a _ ha
    simp only [decide_eq_true_eq] at ha ⊢
    omega
  have h₁ := hmono l₁
  have h₂ := hmono l₂
  unfold turnsFrom
  rw [hf]
  simp only [List.countP_append, List.countP_cons, lt_self_iff_false, decide_false, hlt, decide_true, Option.isSome_none,
    Bool.false_eq_true, ↓reduceIte]
  split <;> omega

theorem turnsFrom_cut (ht : Turn l₁ ma l₂ start (ma.addr + ma.size)) (hf : lwpMapFind (l₁ ++ ma :: l₂) start = some ma) :
    turnsFrom (l₁ ++ ma.parts start (ma.addr + ma.size) ++ l₂) (ma.addr + ma.size) < turnsFrom (l₁ ++ ma :: l₂) start := by
  obtain ⟨h₁, h₂⟩ := ht.ordered.around
  have hle := ht.le
  have hlt := ht.lt
  have hparts := fun b hb => mem_parts (b := b) ht.le ht.lt ht.stop_le hb
  -- only the areas behind this one count, before and after
  have hold : turnsFrom (l₁ ++ ma :: l₂) start = 2 * l₂.length + 1 := by
    unfold turnsFrom
    have hc₁ : (l₁.countP fun a => start < a.addr) = 0 := by
      rw [List.countP_eq_zero]
      intro b hb
      have := h₁ b hb
      simp only [decide_eq_true_eq]
      omega
    have hc₂ : (l₂.countP fun a => start < a.addr) = l₂.length := by
      rw [List.countP_eq_length]
      intro b hb
      have := h₂ b hb
      simp only [decide_eq_true_eq]
      omega
    rw [List.countP_append, List.countP_cons, hc₁, hc₂, hf]
    simp [hle]
  have hfront : ((l₁ ++ ma.parts start (ma.addr + ma.size)).countP fun a => ma.addr + ma.size < a.addr) = 0 := by
    rw [List.countP_eq_zero]
    intro b hb
    simp only [decide_eq_true_eq]
    rcases List.mem_append.mp hb with hb | hb
    · have := h₁ b hb
      omega
    · have := hparts b hb
      omega
  rw [hold]
  unfold turnsFrom
  rw [List.countP_append, hfront, Nat.zero_add]
  have hle₂ := List.countP_le_length (p := fun a : MmArea => ma.addr + ma.size < a.addr) (l := l₂)
  cases hfind : lwpMapFind (l₁ ++ ma.parts start (ma.addr + ma.size) ++ l₂) (ma.addr + ma.size) with
  | none =>
    simp only [Option.isSome_none, Bool.false_eq_true, ↓reduceIte]
    omega
  | some b =>
    -- an area that starts right there is not counted any more
    have hal : ∀ a ∈ l₁ ++ ma.parts start (ma.addr + ma.size) ++ l₂, a.Aligned := by
      intro a ha
      rcases List.mem_append.mp ha with ha | ha
      · rcases List.mem_append.mp ha with ha | ha
        · exact ht.aligned a (by simp [ha])
        · exact ht.remains.aligned a ha
      · exact ht.aligned a (by simp [ha])
    obtain ⟨hmem, hb1, hb2, -⟩ := lwpMapFind_spec hal hfind
    have hb₂ : b ∈ l₂ := by
      rcases List.mem_append.mp hmem with hb | hb
      · rcases List.mem_append.mp hb with hb | hb
        · have := h₁ b hb
          omega
        · have := hparts b hb
          omega
      · exact hb
    obtain ⟨k₁, k₂, rfl⟩ := List.append_of_mem hb₂
    have hk₁ := List.countP_le_length (p := fun a : MmArea => ma.addr + ma.size < a.addr) (l := k₁)
    have hk₂ := List.countP_le_length (p := fun a : MmArea => ma.addr + ma.size < a.addr) (l := k₂)
    simp only [List.countP_append, List.countP_cons, Option.isSome_some, ↓reduceIte, List.length_append, List.length_cons,
      decide_eq_true_eq, Nat.not_lt.mpr hb1]
    omega

theorem unmapRangeLoop_rule (P : ℕ → Mm × UserSpace → Prop)
    (hcut : ∀ (x : Mm × UserSpace) l₁ ma l₂ lo hi, x.2.mapArea = l₁ ++ ma :: l₂ → Turn l₁ ma l₂ lo hi → P lo x →
      P hi (cutArea x l₁ ma l₂ lo hi))
    (hskip : ∀ (x : Mm × UserSpace) lo hi, lo ≤ hi → Clear x.2.mapArea lo hi → P lo x → P hi x) {n : ℕ}
    {x : Mm × UserSpace} (hr : Ready x.2.mapArea current stop tail) (hle : current ≤ stop)
    (hn : turnsFrom x.2.mapArea current ≤ n) (hP : P current x) : P stop (unmapRangeLoop stop n current tail x) := by
  induction n generalizing current tail x with
  | zero =>
    have hnone : lwpMapFind x.2.mapArea current = none := by
      cases hf : lwpMapFind x.2.mapArea current with
      | none => rfl
      | some ma => simp [turnsFrom, hf] at hn
    have hzero : (x.2.mapArea.countP fun a => current < a.addr) = 0 := by
      unfold turnsFrom at hn
      omega
    refine hskip x current stop hle (clear_of_next hnone ?_) hP
    intro a ha hlt
    have := List.countP_eq_zero.mp hzero a ha
    simp [hlt] at this
  | succ n ih =>
    rw [unmapRangeLoop]
    split
    · next hdone =>
      rw [← Nat.le_antisymm hle hdone]
      exact hP
    · next hlt =>
      have hlt : current < stop := by omega
      cases hf : lwpMapFind x.2.mapArea current with
      | none =>
        dsimp only
        cases hnx : lwpMapFindNext x.2.mapArea current with
        | none =>
          refine hskip x current stop hle (clear_of_next hf ?_) hP
          intro a ha hlt'
          have := lwpMapFindNext_none hnx ha
          omega
        | some ma =>
          dsimp only
          obtain ⟨hmem, hma, hmin⟩ := lwpMapFindNext_spec hr.ordered hr.aligned hnx
          split
          · next hstop =>
            refine hskip x current stop hle (clear_of_next hf ?_) hP
            intro a ha hlt'
            have := hmin a ha hlt'
            omega
          · next hstop =>
            have hskipped := turnsFrom_skip hr.ordered hr.aligned hf hnx
            refine ih (hr.skip hf hnx (by omega)) (by omega) (by omega) ?_
            exact hskip x current ma.addr hma.le (clear_of_next hf hmin) hP
      | some ma =>
        dsimp only
        obtain ⟨l₁, l₂, hl, hareaEnd, h64, hturn⟩ := hr.turn hlt hf
        have htail := hr.tailFor hf
        set segmentEnd := if ma.areaEnd < stop then ma.areaEnd else stop with hseg
        have hsegle : segmentEnd ≤ stop := by
          rw [hseg]
          split <;> omega
        have hareas : (cutArea x l₁ ma l₂ current segmentEnd).2.mapArea = l₁ ++ ma.parts current segmentEnd ++ l₂ := rfl
        have hnext : ∀ tail', P stop (unmapRangeLoop stop n segmentEnd tail' (cutArea x l₁ ma l₂ current segmentEnd)) := by
          intro tail'
          have hP' := hcut x l₁ ma l₂ current segmentEnd hl hturn hP
          by_cases hend : segmentEnd = ma.addr + ma.size
          · refine ih (hr.cut hlt hl hturn tail') hsegle ?_ hP'
            rw [hareas]
            rw [hl] at hf hn
            rw [hend] at hturn ⊢
            have := turnsFrom_cut hturn hf
            omega
          · have hstop : segmentEnd = stop := by
              rw [hseg]
              apply if_neg
              intro hcase
              apply hend
              rw [hseg, if_pos hcase, hareaEnd]
            rw [hstop] at hP' ⊢
            cases n with
            | zero => exact hP'
            | succ n =>
              rw [unmapRangeLoop, if_pos le_rfl]
              exact hP'
        by_cases hmid : current ≠ ma.addr ∧ segmentEnd < ma.areaEnd
        · rw [if_pos hmid] at htail
          rw [if_pos hmid, hturn.lwpUnmapUserArea_eq hl htail]
          exact hnext none
        · rw [if_neg hmid] at htail
          rw [if_neg hmid, hturn.lwpUnmapUserArea_eq hl htail]
          exact hnext tail

theorem lwpMapFind_eq (ho : Ordered l) (hl : ∀ a ∈ l, a.Aligned) (ha : a ∈ l) (h64 : a.addr + a.size < 2 ^ 64)
    (hle : a.addr ≤ addr) (hlt : addr < a.addr + a.size) : lwpMapFind l addr = some a := by
  have hareaEnd : a.areaEnd = a.addr + a.size := Nat.mod_eq_of_lt h64
  cases hf : lwpMapFind l addr with
  | none =>
    have := lwpMapFind_none hf ha
    omega
  | some b =>
    obtain ⟨hb, hb1, hb2, -⟩ := lwpMapFind_spec hl hf
    obtain ⟨l₁, l₂, rfl⟩ := List.append_of_mem hb
    obtain ⟨h₁, h₂⟩ := ho.around
    rcases List.mem_append.mp ha with ha | ha
    · have := h₁ a ha
      omega
    · rcases List.mem_cons.mp ha with rfl | ha
      · rfl
      · have := h₂ a ha
        omega

section Prepare

variable (ho : Ordered l) (hl : ∀ a ∈ l, a.Aligned) {memory : Bool} {n : ℕ} {tail₀ : Option MmArea}

include ho hl

theorem unmapRangePrepare_shm (hlt : current < stop) (h : unmapRangePrepare l stop memory n current tail₀ = .ok tail)
    (ha : a ∈ l) (hshm : a.type = .shm) (h64 : a.addr + a.size < 2 ^ 64) (ha1 : a.addr < stop)
    (ha2 : current < a.addr + a.size) : current ≤ a.addr ∧ a.addr + a.size ≤ stop := by
  have hareaEnd : a.areaEnd = a.addr + a.size := Nat.mod_eq_of_lt h64
  have hpos := (hl a ha).size_pos
  induction n generalizing current tail₀ with
  | zero => cases h
  | succ n ih =>
    rw [unmapRangePrepare, if_neg (by omega)] at h
    cases hf : lwpMapFind l current with
    | none =>
      have hnone := lwpMapFind_none hf ha
      rw [hf] at h
      dsimp only at h
      cases hnx : lwpMapFindNext l current with
      | none =>
        have := lwpMapFindNext_none hnx ha
        omega
      | some ma =>
        obtain ⟨-, hma, hmin⟩ := lwpMapFindNext_spec ho hl hnx
        have hle := hmin a ha (by omega)
        rw [hnx] at h
        dsimp only at h
        rw [if_neg (by omega)] at h
        have := ih (by omega) h (by omega)
        omega
    | some ma =>
      rw [hf] at h
      dsimp only at h
      obtain ⟨hmem, hma1, hma2, hmaEnd⟩ := lwpMapFind_spec hl hf
      set segmentEnd := if ma.areaEnd < stop then ma.areaEnd else stop with hseg
      split at h
      · cases h
      · next hok =>
        rw [not_or] at hok
        by_cases heq : a = ma
        · subst heq
          have hwhole : current = a.addr ∧ segmentEnd = a.areaEnd := by
            by_contra hcut
            exact hok.2 ⟨hshm, by omega⟩
          refine ⟨by omega, ?_⟩
          rw [← hareaEnd, ← hwhole.2, hseg]
          split <;> omega
        · -- the other areas that the range meets are behind this one
          have hbehind : ma.addr + ma.size ≤ a.addr := by
            obtain ⟨l₁, l₂, rfl⟩ := List.append_of_mem hmem
            obtain ⟨h₁, h₂⟩ := ho.around
            rcases List.mem_append.mp ha with ha | ha
            · have := h₁ a ha
              omega
            · rcases List.mem_cons.mp ha with rfl | ha
              · exact absurd rfl heq
              · exact h₂ a ha
          have hsegEnd : segmentEnd = ma.areaEnd := if_pos (by omega)
          have hnext : ∀ t, unmapRangePrepare l stop memory n segmentEnd t = .ok tail →
              current ≤ a.addr ∧ a.addr + a.size ≤ stop := by
            intro t ht
            have := ih (by omega) ht (by omega)
            omega
          split at h
          · split at h
            · cases h
            · split at h
              · exact hnext _ h
              · cases h
          · exact hnext _ h

theorem unmapRangePrepare_tail (hlt : current < stop) (h : unmapRangePrepare l stop memory n current none = .ok tail)
    (ha : a ∈ l) (h64 : a.addr + a.size < 2 ^ 64) (ha1 : a.addr < current) (ha2 : stop < a.addr + a.size) :
    tail = some ⟨stop, a.addr + a.size - stop, a.type, 0⟩ := by
  have hareaEnd : a.areaEnd = a.addr + a.size := Nat.mod_eq_of_lt h64
  cases n with
  | zero => cases h
  | succ n =>
    have hcase : ¬ a.areaEnd < stop := by omega
    rw [unmapRangePrepare, if_neg (by omega), lwpMapFind_eq ho hl ha h64 ha1.le (by omega)] at h
    dsimp only at h
    rw [if_neg hcase] at h
    split at h
    · cases h
    · rw [if_pos ⟨ha1.ne', by omega⟩] at h
      simp only [Option.isSome_none, Bool.false_eq_true, ↓reduceIte] at h
      split at h
      · cases n with
        | zero => cases h
        | succ n =>
          rw [unmapRangePrepare, if_pos le_rfl, hareaEnd] at h
          exact (Except.ok.inj h).symm
      · cases h

theorem ready_of_prepare (hcur : current % archPageSize = 0) (hstop : stop % archPageSize = 0) (h64 : stop < 2 ^ 64)
    (hlt : current < stop) (h : unmapRangePrepare l stop memory n current none = .ok tail) : Ready l current stop tail :=
  ⟨ho, hl, hcur, hstop, h64, fun _ ha hshm ha64 => unmapRangePrepare_shm ho hl hlt h ha hshm ha64,
    fun _ ha ha64 => unmapRangePrepare_tail ho hl hlt h ha ha64⟩

end Prepare

/-- The invariant rule for `_lwp_unmap_user_range`, which changes nothing when it fails. -/
theorem lwpUnmapUserRange_rule (P : ℕ → Mm × UserSpace → Prop)
    (hcut : ∀ (x : Mm × UserSpace) l₁ ma l₂ lo hi, x.2.mapArea = l₁ ++ ma :: l₂ → Turn l₁ ma l₂ lo hi → P lo x →
      P hi (cutArea x l₁ ma l₂ lo hi))
    (hskip : ∀ (x : Mm × UserSpace) lo hi, lo ≤ hi → Clear x.2.mapArea lo hi → P lo x → P hi x)
    (x : Mm × UserSpace) (va length : ℕ) (memory : Bool) (ho : Ordered x.2.mapArea) (hl : ∀ a ∈ x.2.mapArea, a.Aligned)
    (hlen : length % archPageSize = 0) (hP : P va x) :
    ((lwpUnmapUserRange x va length memory).2 = .ok () ∧ P (va + length) (lwpUnmapUserRange x va length memory).1) ∨
      ((lwpUnmapUserRange x va length memory).2 ≠ .ok () ∧ (lwpUnmapUserRange x va length memory).1 = x) := by
  unfold lwpUnmapUserRange
  split
  · exact .inr ⟨by simp, rfl⟩
  · next hok =>
    simp only [not_or, not_lt] at hok
    obtain ⟨hva, hmod, hne, hle⟩ := hok
    rw [not_not] at hmod
    split
    · exact .inr ⟨by simp, rfl⟩
    · next tail hprep =>
      have hstop : (va + length) % archPageSize = 0 := by
        unfold archPageSize at *
        omega
      have h64 : va + length < 2 ^ 64 := by omega
      have hr := ready_of_prepare ho hl hmod hstop h64 (by omega) hprep
      exact .inl ⟨rfl, unmapRangeLoop_rule P hcut hskip hr (by omega) (turnsFrom_lt _ _).le hP⟩

end RtSmart
