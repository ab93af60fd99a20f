import RtSmart.Lwp.ShmRefs
import RtSmart.Lib.AvlTree

/-!
`lwp_munmap` takes out of the areas exactly the pages of its range.
-/

namespace RtSmart

open Lib

variable {l l₁ l₂ : List MmArea} {a b ma : MmArea} {addr start stop : ℕ}

/-- The pages that the areas cover, with the types. -/
def pageTypes (l : List MmArea) : List (ℕ × AreaType) :=
  l.flatMap fun a => (List.range' a.vpn a.pages).map fun v => (v, a.type)

/-- The pages outside a range of addresses. -/
def outside (lo hi : ℕ) (e : ℕ × AreaType) : Bool := !(lo / archPageSize ≤ e.1 && e.1 < hi / archPageSize)

theorem mem_pageTypes {e : ℕ × AreaType} : e ∈ pageTypes l ↔ ∃ a ∈ l, a.vpn ≤ e.1 ∧ e.1 < a.vpn + a.pages ∧ e.2 = a.type := by
  unfold pageTypes
  rw [List.mem_flatMap]
  constructor
  · rintro ⟨a, ha, he⟩
    obtain ⟨v, hv, rfl⟩ := List.mem_map.mp he
    rw [List.mem_range'_1] at hv
    exact ⟨a, ha, hv.1, hv.2, rfl⟩
  · rintro ⟨a, ha, h1, h2, h3⟩
    exact ⟨a, ha, List.mem_map.mpr ⟨e.1, List.mem_range'_1.mpr ⟨h1, h2⟩, by rw [← h3]⟩⟩

theorem pageTypes_append : pageTypes (l₁ ++ l₂) = pageTypes l₁ ++ pageTypes l₂ := List.flatMap_append

/-- The areas are in order, whole pages, and end before the addresses do. -/
structure AreasOk (l : List MmArea) : Prop where
  ordered : Ordered l
  aligned : ∀ a ∈ l, a.Aligned
  below : ∀ a ∈ l, a.addr + a.size < 2 ^ 64

theorem outside_eq_true {lo hi : ℕ} {e : ℕ × AreaType} :
    outside lo hi e = true ↔ e.1 < lo / archPageSize ∨ hi / archPageSize ≤ e.1 := by
  unfold outside
  simp only [Bool.not_eq_true', Bool.and_eq_false_iff, decide_eq_false_iff_not]
  omega

theorem filter_outside_of_clear (hl : ∀ a ∈ l, a.Aligned) (hc : ∀ a ∈ l, a.addr + a.size ≤ start ∨ stop ≤ a.addr) :
    (pageTypes l).filter (outside start stop) = pageTypes l := by
  rw [List.filter_eq_self]
  intro e he
  obtain ⟨a, ha, h1, h2, -⟩ := mem_pageTypes.mp he
  rw [outside_eq_true]
  rcases hc a ha with hle | hle
  · have : a.vpn + a.pages ≤ start / archPageSize := by
      rw [Nat.le_div_iff_mul_le (by decide), Nat.add_mul, ← (hl a ha).addr_eq, ← (hl a ha).size_eq]
      exact hle
    omega
  · have : stop / archPageSize ≤ a.vpn := Nat.div_le_div_right hle
    omega

theorem pageTypes_parts_eq (hle : ma.addr ≤ start) (hlt : start < stop) (hend : stop ≤ ma.addr + ma.size) :
    pageTypes (ma.parts start stop) =
      (List.range' ma.vpn ((start - ma.addr) / archPageSize)).map (fun v => (v, ma.type)) ++
        (List.range' (stop / archPageSize) ((ma.addr + ma.size - stop) / archPageSize)).map fun v => (v, ma.type) := by
  unfold MmArea.parts pageTypes
  split
  · next hs =>
    subst hs
    rw [Nat.sub_self, Nat.zero_div, List.range'_zero, List.map_nil, List.nil_append]
    split
    · next he =>
      rw [he, Nat.sub_self, Nat.zero_div, List.range'_zero]
      rfl
    · rw [List.flatMap_singleton]
      have haddr : ma.addr + (stop - ma.addr) = stop := by omega
      have hsize : ma.size - (stop - ma.addr) = ma.addr + ma.size - stop := by omega
      unfold MmArea.vpn MmArea.pages MmArea.cutFront
      rw [haddr, hsize]
  · rw [List.flatMap_cons]
    congr 1
    split
    · next he =>
      rw [he, Nat.sub_self, Nat.zero_div, List.range'_zero]
      rfl
    · rw [List.flatMap_singleton]
      unfold MmArea.takeUnmapAll
      split <;> rfl

theorem pageTypes_split (h : Turn l₁ ma l₂ start stop) : pageTypes [ma] =
    (List.range' ma.vpn ((start - ma.addr) / archPageSize)).map (fun v => (v, ma.type)) ++
      (List.range' (start / archPageSize) ((stop - start) / archPageSize)).map (fun v => (v, ma.type)) ++
        (List.range' (stop / archPageSize) ((ma.addr + ma.size - stop) / archPageSize)).map fun v => (v, ma.type) := by
  obtain ⟨-, hal, hsm, htm, hle, hlt, hend, -, -⟩ := h
  have haddr := (hal ma (by simp)).addr
  have hsize := (hal ma (by simp)).size
  unfold pageTypes MmArea.vpn MmArea.pages archPageSize at *
  have hpages : ma.size / 4096 = (start - ma.addr) / 4096 + ((stop - start) / 4096 + (ma.addr + ma.size - stop) / 4096) := by
    omega
  have hvpn : ma.addr / 4096 + (start - ma.addr) / 4096 = start / 4096 := by omega
  have hvpn' : start / 4096 + (stop - start) / 4096 = stop / 4096 := by omega
  rw [List.flatMap_singleton, hpages, ← List.range'_append_1, ← List.range'_append_1, hvpn, hvpn', List.map_append,
    List.map_append, List.append_assoc]

theorem pageTypes_parts (h : Turn l₁ ma l₂ start stop) :
    pageTypes (ma.parts start stop) = (pageTypes [ma]).filter (outside start stop) := by
  have hall : ∀ v n, (∀ i, v ≤ i → i < v + n → i < start / archPageSize ∨ stop / archPageSize ≤ i) →
      ((List.range' v n).map fun v => (v, ma.type)).filter (outside start stop) =
        (List.range' v n).map fun v => (v, ma.type) := by
    intro v n hv
    rw [List.filter_eq_self]
    intro e he
    obtain ⟨i, hi, rfl⟩ := List.mem_map.mp he
    rw [List.mem_range'_1] at hi
    exact outside_eq_true.mpr (hv i hi.1 hi.2)
  have hnone : ((List.range' (start / archPageSize) ((stop - start) / archPageSize)).map fun v => (v, ma.type)).filter
      (outside start stop) = [] := by
    rw [List.filter_eq_nil_iff]
    intro e he
    obtain ⟨i, hi, rfl⟩ := List.mem_map.mp he
    rw [List.mem_range'_1] at hi
    have := h.start_mod
    have := h.stop_mod
    have := h.lt
    rw [outside_eq_true]
    unfold archPageSize at *
    dsimp only
    omega
  have hle := h.le
  have haddr := (h.aligned ma (by simp)).addr
  have hmod := h.start_mod
  rw [pageTypes_parts_eq h.le h.lt h.stop_le, pageTypes_split h, List.filter_append, List.filter_append, hnone,
    List.append_nil]
  congr 1
  · refine (hall _ _ fun i _ hi => .inl ?_).symm
    unfold MmArea.vpn archPageSize at *
    omega
  · exact (hall _ _ fun i hi _ => .inr hi).symm

theorem pageTypes_cut (h : Turn l₁ ma l₂ start stop) :
    pageTypes (l₁ ++ ma.parts start stop ++ l₂) = (pageTypes (l₁ ++ ma :: l₂)).filter (outside start stop) := by
  obtain ⟨h₁, h₂⟩ := h.ordered.around
  have hle := h.le
  have hlt := h.lt
  have hend := h.stop_le
  have hf₁ : (pageTypes l₁).filter (outside start stop) = pageTypes l₁ := by
    apply filter_outside_of_clear
    · exact fun a ha => h.aligned a (by simp [ha])
    · exact fun a ha => .inl ((h₁ a ha).trans hle)
  have hf₂ : (pageTypes l₂).filter (outside start stop) = pageTypes l₂ := by
    apply filter_outside_of_clear
    · exact fun a ha => h.aligned a (by simp [ha])
    · exact fun a ha => .inr (hend.trans (h₂ a ha))
  rw [pageTypes_append, pageTypes_append, pageTypes_parts h, List.append_cons l₁ ma l₂, pageTypes_append,
    pageTypes_append, List.filter_append, List.filter_append, hf₁, hf₂]

theorem AreasOk.cut (h : AreasOk (l₁ ++ ma :: l₂)) (ht : Turn l₁ ma l₂ start stop) :
    AreasOk (l₁ ++ ma.parts start stop ++ l₂) := by
  refine ⟨h.ordered.parts ht.le ht.lt ht.stop_le, ?_, ?_⟩
  · intro b hb
    rcases List.mem_append.mp hb with hb | hb
    · rcases List.mem_append.mp hb with hb | hb
      · exact h.aligned b (by simp [hb])
      · exact ht.remains.aligned b hb
    · exact h.aligned b (by simp [hb])
  · intro b hb
    rcases List.mem_append.mp hb with hb | hb
    · rcases List.mem_append.mp hb with hb | hb
      · exact h.below b (by simp [hb])
      · have := h.below ma (by simp)
        have := ht.le
        have := ht.lt
        have := ht.stop_le
        rcases (mem_parts ht.le ht.lt ht.stop_le hb).2 with ⟨hb1, hb2, -⟩ | ⟨hb1, hb2, -⟩ <;> omega
    · exact h.below b (by simp [hb])

/-- What the areas are while the range is taken out from `va` on. -/
structure CutTo (l₀ : List MmArea) (va current : ℕ) (l : List MmArea) : Prop where
  le : va ≤ current
  pages : pageTypes l = (pageTypes l₀).filter (outside va current)
  ok : AreasOk l

theorem filter_outside_filter {va lo hi : ℕ} (h1 : va ≤ lo) (h2 : lo ≤ hi) (k : List (ℕ × AreaType)) :
    (k.filter (outside va lo)).filter (outside lo hi) = k.filter (outside va hi) := by
  have hlo : va / archPageSize ≤ lo / archPageSize := Nat.div_le_div_right h1
  have hhi : lo / archPageSize ≤ hi / archPageSize := Nat.div_le_div_right h2
  rw [List.filter_filter]
  apply List.filter_congr
  intro e _
  rw [Bool.eq_iff_iff, Bool.and_eq_true, outside_eq_true, outside_eq_true, outside_eq_true]
  omega

/-- `_lwp_unmap_user_range` takes out the pages of the range. -/
theorem lwpUnmapUserRange_cut (x : Mm × UserSpace) (va length : ℕ) (memory : Bool) (hx : AreasOk x.2.mapArea)
    (hlen : length % archPageSize = 0) (hok : (lwpUnmapUserRange x va length memory).2 = .ok ()) :
    CutTo x.2.mapArea va (va + length) (lwpUnmapUserRange x va length memory).1.2.mapArea := by
  have hrule := lwpUnmapUserRange_rule (fun current y => CutTo x.2.mapArea va current y.2.mapArea) ?_ ?_ x va length memory
    hx.ordered hx.aligned hlen ?_
  · rcases hrule with ⟨-, h⟩ | ⟨h, -⟩
    · exact h
    · exact absurd hok h
  · intro y l₁ ma l₂ lo hi hy ht hP
    have hPok := hP.ok
    have hpages := hP.pages
    rw [hy] at hPok hpages
    refine ⟨hP.le.trans ht.lt.le, ?_, hPok.cut ht⟩
    show pageTypes (l₁ ++ ma.parts lo hi ++ l₂) = _
    rw [pageTypes_cut ht, hpages, filter_outside_filter hP.le ht.lt.le]
  · intro y lo hi hle hclear hP
    refine ⟨hP.le.trans hle, ?_, hP.ok⟩
    rw [← filter_outside_filter hP.le hle, ← hP.pages,
      filter_outside_of_clear hP.ok.aligned fun a ha => hclear a ha (hP.ok.below a ha)]
  · refine ⟨le_rfl, ?_, hx⟩
    rw [List.filter_eq_self.mpr]
    intro e _
    rw [outside_eq_true]
    omega

/-- `lwp_map_find` on a tree whose nodes, from left to right, are the areas. -/
def treeMapFind : AvlTree MmArea → ℕ → Option MmArea
  | .nil, _ => none
  | .node l ma _ r, addr =>
    if ma.addr ≤ addr then
      if addr < ma.areaEnd then some ma else treeMapFind r addr
    else treeMapFind l addr

theorem AreasOk.sublist {l k : List MmArea} (h : AreasOk l) (hk : k.Sublist l) : AreasOk k :=
  ⟨h.ordered.sublist hk, fun a ha => h.aligned a (hk.subset ha), fun a ha => h.below a (hk.subset ha)⟩

theorem AreasOk.areaEnd_eq (h : AreasOk l) (ha : a ∈ l) : a.areaEnd = a.addr + a.size := Nat.mod_eq_of_lt (h.below a ha)

theorem treeMapFind_eq (t : AvlTree MmArea) (ht : AreasOk t.toList) (addr : ℕ) :
    treeMapFind t addr = lwpMapFind t.toList addr := by
  induction t with
  | nil => rfl
  | node l ma k r ihl ihr =>
    rw [AvlTree.toList_node] at ht ⊢
    have hr := ihr (ht.sublist ((List.sublist_cons_self ma _).trans (List.sublist_append_right l.toList _)))
    have hl := ihl (ht.sublist (List.sublist_append_left l.toList _))
    have hend := ht.areaEnd_eq (show ma ∈ l.toList ++ ma :: r.toList by simp)
    obtain ⟨hbefore, hafter⟩ := ht.ordered.around
    unfold lwpMapFind at hl hr ⊢
    rw [treeMapFind, List.find?_append, List.find?_cons]
    by_cases hle : ma.addr ≤ addr
    · -- the areas on the left end before this one begins
      have hleft : l.toList.find? (fun b => b.addr ≤ addr ∧ addr < b.areaEnd) = none := by
        rw [List.find?_eq_none]
        intro b hb
        have := hbefore b hb
        have := ht.areaEnd_eq (show b ∈ l.toList ++ ma :: r.toList by simp [hb])
        simp only [decide_eq_true_eq]
        omega
      rw [if_pos hle, hleft, Option.none_or]
      by_cases hlt : addr < ma.areaEnd
      · simp [hle, hlt]
      · simp only [hlt, and_false, decide_false, ↓reduceIte]
        exact hr
    · have hright : r.toList.find? (fun b => b.addr ≤ addr ∧ addr < b.areaEnd) = none := by
        rw [List.find?_eq_none]
        intro b hb
        have := hafter b hb
        simp only [decide_eq_true_eq]
        omega
      simp only [hle, false_and, decide_false, ↓reduceIte, hright, Option.or_none]
      exact hl

theorem AreasOk.find_type_iff (h : AreasOk l) (addr : ℕ) (ty : AreaType) :
    (lwpMapFind l addr).map MmArea.type = some ty ↔ (addr / archPageSize, ty) ∈ pageTypes l := by
  rw [mem_pageTypes, Option.map_eq_some_iff]
  constructor
  · rintro ⟨a, ha, rfl⟩
    obtain ⟨hmem, hle, hlt, -⟩ := lwpMapFind_spec h.aligned ha
    refine ⟨a, hmem, Nat.div_le_div_right hle, ?_, rfl⟩
    have := (h.aligned a hmem).addr
    have := (h.aligned a hmem).size
    unfold MmArea.vpn MmArea.pages archPageSize at *
    dsimp only
    omega
  · rintro ⟨a, hmem, hle, hlt, hty⟩
    have := (h.aligned a hmem).addr
    have := (h.aligned a hmem).size
    unfold MmArea.vpn MmArea.pages archPageSize at *
    dsimp only at hle hlt hty
    exact ⟨a, lwpMapFind_eq h.ordered h.aligned hmem (h.below a hmem) (by omega) (by omega), hty.symm⟩

/-- The range that `lwp_munmap` gives up. -/
def munmapRange (l : List MmArea) (addr length : ℕ) : ℕ × ℕ :=
  match lwpMapFind l addr with
  | none => (addr, addr + roundUp length)
  | some ma => if ma.unmapAllAddr = addr then (ma.addr, ma.addr + ma.size) else (addr, addr + roundUp length)

theorem lwpMunmap_cut (cfg : MmConfig) (x : Mm × UserSpace) (addr length : ℕ) (memory : Bool) (hx : AreasOk x.2.mapArea)
    (hok : (lwpMunmap cfg x addr length memory).2 = .ok ()) :
    CutTo x.2.mapArea (munmapRange x.2.mapArea addr length).1 (munmapRange x.2.mapArea addr length).2
      (lwpMunmap cfg x addr length memory).1.2.mapArea := by
  unfold lwpMunmap at hok ⊢
  unfold munmapRange
  split at hok
  · cases hok
  · next hcheck =>
    rw [if_neg hcheck]
    cases hf : lwpMapFind x.2.mapArea addr with
    | none =>
      simp only [hf] at hok ⊢
      exact lwpUnmapUserRange_cut x addr (roundUp length) memory hx (roundUp_mod length) hok
    | some ma =>
      simp only [hf] at hok ⊢
      obtain ⟨hmem, -⟩ := lwpMapFind_spec hx.aligned hf
      by_cases hall : ma.unmapAllAddr = addr
      · rw [if_pos hall] at hok
        rw [if_pos hall, if_pos hall]
        exact lwpUnmapUserRange_cut x ma.addr ma.size memory hx (hx.aligned ma hmem).size hok
      · rw [if_neg hall] at hok
        rw [if_neg hall, if_neg hall]
        exact lwpUnmapUserRange_cut x addr (roundUp length) memory hx (roundUp_mod length) hok

/-- The pages of `[lo, hi)` are gone from the areas, and a lookup in their tree finds the ones that stay. -/
def Exactly (l₀ : List MmArea) (lo hi : ℕ) (l : List MmArea) : Prop :=
  pageTypes l = (pageTypes l₀).filter (outside lo hi) ∧ AreasOk l ∧
    ∀ t : AvlTree MmArea, t.toList = l → ∀ addr ty,
      (treeMapFind t addr).map MmArea.type = some ty ↔ (addr / archPageSize, ty) ∈ (pageTypes l₀).filter (outside lo hi)

theorem CutTo.exactly {l₀ : List MmArea} {lo hi : ℕ} (h : CutTo l₀ lo hi l) : Exactly l₀ lo hi l := by
  refine ⟨h.pages, h.ok, ?_⟩
  rintro t rfl addr ty
  rw [treeMapFind_eq t h.ok, h.ok.find_type_iff, h.pages]

/-- Both calls take out what they are asked to, except that `lwp_munmap` gives up a whole area with room for the
thread-local storage. -/
theorem munmap_exact (x : Mm × UserSpace) (hx : AreasOk x.2.mapArea) (memory : Bool) :
    (∀ va length, length % archPageSize = 0 → (lwpUnmapUserRange x va length memory).2 = .ok () →
      Exactly x.2.mapArea va (va + length) (lwpUnmapUserRange x va length memory).1.2.mapArea) ∧
    ∀ cfg addr length, (lwpMunmap cfg x addr length memory).2 = .ok () →
      Exactly x.2.mapArea (munmapRange x.2.mapArea addr length).1 (munmapRange x.2.mapArea addr length).2
        (lwpMunmap cfg x addr length memory).1.2.mapArea :=
  ⟨fun va length hlen hok => (lwpUnmapUserRange_cut x va length memory hx hlen hok).exactly,
    fun cfg addr length hok => (lwpMunmap_cut cfg x addr length memory hx hok).exactly⟩

def exampleSpace : Mm × UserSpace :=
  (ShmSys.init.mm, ⟨[⟨0x100000000, 0x3000, .data, 0⟩, ⟨0x100004000, 0x2000, .text, 0⟩], fun _ => none⟩)

/-- The first area is cut in the middle, and the second one at its end. -/
theorem munmap_exact_twice : Exactly exampleSpace.2.mapArea 0x100001000 0x100002000
      (lwpUnmapUserRange exampleSpace 0x100001000 0x1000 true).1.2.mapArea ∧
    Exactly exampleSpace.2.mapArea 0x100005000 0x100006000
      (lwpMunmap ShmSys.exampleConfig exampleSpace 0x100005000 0x800 true).1.2.mapArea := by
  have hx : AreasOk exampleSpace.2.mapArea := by
    constructor
    · unfold Ordered
      decide
    · simp only [exampleSpace, List.forall_mem_cons]
      refine ⟨?_, ?_, fun _ h => nomatch h⟩ <;> constructor <;> decide
    · decide
  obtain ⟨hrange, hmunmap⟩ := munmap_exact exampleSpace hx true
  have hback := hmunmap ShmSys.exampleConfig 0x100005000 0x800 (by decide +kernel)
  have hasked : munmapRange exampleSpace.2.mapArea 0x100005000 0x800 = (0x100005000, 0x100006000) := by decide +kernel
  rw [hasked] at hback
  exact ⟨hrange 0x100001000 0x1000 (by decide) (by decide +kernel), hback⟩

/-- What `lwp_mmap2` leaves of a call for 0x1b0 bytes: the address that it returns is on the second page. -/
def tlsSpace : Mm × UserSpace := (ShmSys.init.mm, ⟨[⟨0x100000000, 0x2000, .data, 0x100001000⟩], fun _ => none⟩)

/-- The first page goes with the second one. -/
theorem munmap_takes_tls_area : ¬ ∀ (x : Mm × UserSpace) (memory : Bool) (cfg : MmConfig) (addr length : ℕ),
    AreasOk x.2.mapArea → addr % archPageSize = 0 → length % archPageSize = 0 →
      (lwpMunmap cfg x addr length memory).2 = .ok () →
        pageTypes (lwpMunmap cfg x addr length memory).1.2.mapArea =
          (pageTypes x.2.mapArea).filter (outside addr (addr + length)) := by
  intro h
  have hx : AreasOk tlsSpace.2.mapArea := by
    constructor
    · unfold Ordered
      decide
    · simp only [tlsSpace, List.forall_mem_cons]
      refine ⟨?_, fun _ h => nomatch h⟩
      constructor <;> decide
    · decide
  have hpages := h tlsSpace true ShmSys.exampleConfig 0x100001000 0x1000 hx (by decide) (by decide) (by decide +kernel)
  have hne : pageTypes (lwpMunmap ShmSys.exampleConfig tlsSpace 0x100001000 0x1000 true).1.2.mapArea ≠
      (pageTypes tlsSpace.2.mapArea).filter (outside 0x100001000 (0x100001000 + 0x1000)) := by
    decide +kernel
  exact hne hpages

end RtSmart
