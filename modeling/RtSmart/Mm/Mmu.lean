import RtSmart.Lib.FirstFit
import RtSmart.Mm.Page

/-!
The Sv39 page tables of the C908 (c908/mmu.c): the walk through the three levels and the search for unused
addresses.
-/

namespace RtSmart

open Lib

/-- The words of the tables: the one at an index of the table at an address. -/
abbrev TableMem := ℕ → ℕ → ℕ

/-- `rt_mmu_info`. `rt_hw_mmu_map_init` takes no region that begins with the first entry of the table. -/
structure MmuInfo where
  vtable : ℕ
  vstart : ℕ
  vend : ℕ
  pvOff : ℕ
  vstart_pos : 0 < vstart
  vstart_le : vstart ≤ vend
  vend_lt : vend < 2 ^ 9

def getL1 (addr : ℕ) : ℕ := addr / 2 ^ 30 % 2 ^ 9
def getL2 (addr : ℕ) : ℕ := addr / 2 ^ 21 % 2 ^ 9
def getL3 (addr : ℕ) : ℕ := addr / 2 ^ 12 % 2 ^ 9

/-- `GET_PADDR`: the 46 bits of the word from bit 10 on. -/
def getPaddr (pte : ℕ) : ℕ := pte / 2 ^ 10 % 2 ^ 46 * 2 ^ 12

def ppnToVpn (info : MmuInfo) (paddr : ℕ) : ℕ := wsub 64 paddr info.pvOff

/-- `PTE_USED`: the bit V. -/
def pteUsed (pte : ℕ) : Bool := pte % 2 = 1

/-- `PAGE_IS_LEAF` and `PTE_XWR_MASK`: one of the bits R, W and X. -/
def pageIsLeaf (pte : ℕ) : Bool := pte / 2 % 2 ^ 3 ≠ 0

section walk

variable (info : MmuInfo) (mem : TableMem) (va : ℕ)

def mmuL1 : ℕ := mem info.vtable (getL1 va)
def mmuL2 : ℕ := mem (ppnToVpn info (getPaddr (mmuL1 info mem va))) (getL2 va)
def mmuL3 : ℕ := mem (ppnToVpn info (getPaddr (mmuL2 info mem va))) (getL3 va)

def rtHwMmuV2p : ℕ :=
  if pteUsed (mmuL1 info mem va) then
    if pageIsLeaf (mmuL1 info mem va) then getPaddr (mmuL1 info mem va) ||| va % 2 ^ 30
    else if pteUsed (mmuL2 info mem va) then
      if pageIsLeaf (mmuL2 info mem va) then getPaddr (mmuL2 info mem va) ||| va % 2 ^ 21
      else if pteUsed (mmuL3 info mem va) then getPaddr (mmuL3 info mem va) ||| va % 2 ^ 12
      else 0
    else 0
  else 0

/-- The walk of `_rt_hw_mmu_v2p` ends at no entry in use. -/
def unmapped : Bool :=
  !pteUsed (mmuL1 info mem va) || !pageIsLeaf (mmuL1 info mem va) &&
    (!pteUsed (mmuL2 info mem va) || !pageIsLeaf (mmuL2 info mem va) && !pteUsed (mmuL3 info mem va))

theorem rtHwMmuV2p_unmapped (h : unmapped info mem va = true) : rtHwMmuV2p info mem va = 0 := by
  unfold rtHwMmuV2p
  simp only [unmapped, Bool.or_eq_true, Bool.and_eq_true, Bool.not_eq_true'] at h
  rcases h with h1 | ⟨h1, h2 | ⟨h2, h3⟩⟩ <;> simp [*]

def pteUserWritable (pte : ℕ) : Bool := pte / 2 ^ 4 % 2 = 1 ∧ pte / 2 ^ 2 % 2 = 1

def rtHwMmuUserWritable : Bool :=
  if !pteUsed (mmuL1 info mem va) then false
  else if pageIsLeaf (mmuL1 info mem va) then pteUserWritable (mmuL1 info mem va)
  else if !pteUsed (mmuL2 info mem va) then false
  else if pageIsLeaf (mmuL2 info mem va) then pteUserWritable (mmuL2 info mem va)
  else pteUsed (mmuL3 info mem va) && pageIsLeaf (mmuL3 info mem va) && pteUserWritable (mmuL3 info mem va)

theorem unmapped_eq_false_of_writable (h : rtHwMmuUserWritable info mem va = true) :
    unmapped info mem va = false := by
  unfold rtHwMmuUserWritable at h
  unfold unmapped
  cases h1 : pteUsed (mmuL1 info mem va) with
  | false => simp [h1] at h
  | true =>
    cases hl1 : pageIsLeaf (mmuL1 info mem va) with
    | true => rfl
    | false =>
      cases h2 : pteUsed (mmuL2 info mem va) with
      | false => simp [h1, hl1, h2] at h
      | true =>
        cases hl2 : pageIsLeaf (mmuL2 info mem va) with
        | true => rfl
        | false =>
          cases h3 : pteUsed (mmuL3 info mem va) with
          | true => rfl
          | false => simp [h1, hl1, h2, hl2, h3] at h

/-- The address of the page that an address lies in. -/
def pageStart (va : ℕ) : ℕ := va / archPageSize * archPageSize

variable {va} {va' : ℕ}

theorem walk_congr (h : va / archPageSize = va' / archPageSize) :
    mmuL1 info mem va = mmuL1 info mem va' ∧ mmuL2 info mem va = mmuL2 info mem va' ∧
      mmuL3 info mem va = mmuL3 info mem va' := by
  have h1 : getL1 va = getL1 va' := by
    simp only [archPageSize] at h
    unfold getL1
    omega
  have h2 : getL2 va = getL2 va' := by
    simp only [archPageSize] at h
    unfold getL2
    omega
  have h3 : getL3 va = getL3 va' := by
    simp only [archPageSize] at h
    unfold getL3
    omega
  have e1 : mmuL1 info mem va = mmuL1 info mem va' := by rw [mmuL1, mmuL1, h1]
  have e2 : mmuL2 info mem va = mmuL2 info mem va' := by rw [mmuL2, mmuL2, e1, h2]
  exact ⟨e1, e2, by rw [mmuL3, mmuL3, e2, h3]⟩

theorem unmapped_congr (h : va / archPageSize = va' / archPageSize) :
    unmapped info mem va = unmapped info mem va' := by
  obtain ⟨h1, h2, h3⟩ := walk_congr info mem h
  rw [unmapped, unmapped, h1, h2, h3]

theorem rtHwMmuUserWritable_congr (h : va / archPageSize = va' / archPageSize) :
    rtHwMmuUserWritable info mem va = rtHwMmuUserWritable info mem va' := by
  obtain ⟨h1, h2, h3⟩ := walk_congr info mem h
  rw [rtHwMmuUserWritable, rtHwMmuUserWritable, h1, h2, h3]

theorem or_page (a b c : ℕ) (hc : c < 2 ^ 12) :
    a * 2 ^ 12 ||| (b * 2 ^ 12 + c) = (a * 2 ^ 12 ||| b * 2 ^ 12) + c := by
  rw [← Nat.shiftLeft_eq, ← Nat.shiftLeft_eq, ← Nat.shiftLeft_or_distrib, Nat.shiftLeft_add_eq_or_of_lt hc,
    Nat.shiftLeft_add_eq_or_of_lt hc, ← Nat.or_assoc, Nat.shiftLeft_or_distrib]

theorem getPaddr_or (pte va : ℕ) {m k : ℕ} (hk : 12 + m = k) :
    getPaddr pte ||| va % 2 ^ k = (getPaddr pte ||| pageStart va % 2 ^ k) + va % archPageSize := by
  subst hk
  have hsize : archPageSize = 2 ^ 12 := rfl
  have hva : va % 2 ^ (12 + m) = va / 2 ^ 12 % 2 ^ m * 2 ^ 12 + va % 2 ^ 12 := by
    rw [Nat.pow_add, Nat.mod_mul, Nat.add_comm, Nat.mul_comm]
  have hstart : pageStart va % 2 ^ (12 + m) = va / 2 ^ 12 % 2 ^ m * 2 ^ 12 := by
    rw [pageStart, hsize, Nat.pow_add, Nat.mod_mul, Nat.mul_mod_left, Nat.mul_div_cancel _ (Nat.two_pow_pos 12),
      Nat.zero_add, Nat.mul_comm]
  rw [hva, hstart, hsize, getPaddr]
  exact or_page _ _ _ (Nat.mod_lt _ (Nat.two_pow_pos 12))

theorem rtHwMmuV2p_pageStart (h : unmapped info mem va = false) :
    rtHwMmuV2p info mem va = rtHwMmuV2p info mem (pageStart va) + va % archPageSize := by
  have hpage : va / archPageSize = pageStart va / archPageSize := by
    rw [pageStart, Nat.mul_div_cancel _ (by decide)]
  obtain ⟨h1, h2, h3⟩ := walk_congr info mem hpage
  simp only [unmapped, Bool.or_eq_false_iff, Bool.not_eq_false', Bool.and_eq_false_iff] at h
  rw [rtHwMmuV2p, rtHwMmuV2p, ← h1, ← h2, ← h3, if_pos h.1, if_pos h.1]
  by_cases hl1 : pageIsLeaf (mmuL1 info mem va) = true
  · rw [if_pos hl1, if_pos hl1]
    exact getPaddr_or _ _ (by decide : 12 + 18 = 30)
  obtain ⟨h2, h3⟩ := h.2.resolve_left hl1
  rw [if_neg hl1, if_neg hl1, if_pos h2, if_pos h2]
  by_cases hl2 : pageIsLeaf (mmuL2 info mem va) = true
  · rw [if_pos hl2, if_pos hl2]
    exact getPaddr_or _ _ (by decide : 12 + 9 = 21)
  · rw [if_neg hl2, if_neg hl2, if_pos (h3.resolve_left hl2), if_pos (h3.resolve_left hl2)]
    exact getPaddr_or _ _ (by decide : 12 + 0 = 12)

theorem rtHwMmuV2p_add {j : ℕ} (h : rtHwMmuV2p info mem va ≠ 0) (hj : va % archPageSize + j < archPageSize) :
    rtHwMmuV2p info mem (va + j) = rtHwMmuV2p info mem va + j := by
  have hpage : (va + j) / archPageSize = va / archPageSize := by
    simp only [archPageSize] at *
    omega
  have hmap : unmapped info mem va = false := by
    by_contra hno
    exact h (rtHwMmuV2p_unmapped info mem va (Bool.eq_true_of_not_eq_false hno))
  have hmap' : unmapped info mem (va + j) = false := by rwa [unmapped_congr info mem hpage]
  have hmod : (va + j) % archPageSize = va % archPageSize + j := by
    simp only [archPageSize] at *
    omega
  rw [rtHwMmuV2p_pageStart info mem hmap, rtHwMmuV2p_pageStart info mem hmap', pageStart, pageStart, hpage, hmod,
    Nat.add_assoc]

end walk

def loopPages (info : MmuInfo) : ℕ :=
  (if info.vend - info.vstart ≠ 0 then info.vend - info.vstart else 1) * 2 ^ 18

/-- The loop of `find_vaddr`. -/
def findVaddrLoop (info : MmuInfo) (mem : TableMem) (pages : ℤ) : (todo va n findVa : ℕ) → ℕ
  | 0, _, _, _ => 0
  | todo + 1, va, n, findVa =>
    if rtHwMmuV2p info mem va ≠ 0 then findVaddrLoop info mem pages todo (va + archPageSize) 0 0
    else
      let findVa := if findVa = 0 then va else findVa
      if pages ≤ n + 1 then findVa
      else findVaddrLoop info mem pages todo (va + archPageSize) (n + 1) findVa

def findVaddr (info : MmuInfo) (mem : TableMem) (pages : ℤ) : ℕ :=
  if pages = 0 then 0
  else findVaddrLoop info mem pages (loopPages info) (info.vstart * 2 ^ 30) 0 0

/-- The calls that let `find_vaddr` choose the address. -/
inductive MmuRequest where
  | map (pAddr size : ℕ)
  | mapAuto (size : ℕ)

/-- `pages` of `_rt_hw_mmu_map` and of `_rt_hw_mmu_map_auto`. -/
def MmuRequest.pages : MmuRequest → ℕ
  | map pAddr size =>
    let paE := wsub 64 (wadd 64 pAddr size) 1 / archPageSize
    wadd 64 (wsub 64 paE (pAddr / archPageSize)) 1
  | mapAuto size => wadd 64 size (archPageSize - 1) / archPageSize

section runs

variable {p : ℕ → Bool} {lo hi n va i : ℕ}

/-- `n` pages from `va` on between two addresses, each with the property `p`. -/
structure VaRun (p : ℕ → Bool) (lo hi n va : ℕ) : Prop where
  aligned : va % archPageSize = 0
  lo_le : lo ≤ va
  le_hi : va + n * archPageSize ≤ hi
  page : ∀ j < n, p (va + j * archPageSize) = true

theorem vaRun_iff {k len : ℕ} (hlo : lo = k * archPageSize) :
    VaRun p lo (lo + len * archPageSize) n (lo + i * archPageSize) ↔
      RunAt (fun i => p (lo + i * archPageSize)) len n i := by
  constructor
  · intro h
    have hle := h.le_hi
    simp only [archPageSize] at hle
    refine ⟨by omega, fun j hj => ?_⟩
    have hpage := h.page j hj
    rwa [Nat.add_assoc, ← Nat.add_mul] at hpage
  · intro h
    have hle := h.le
    simp only [archPageSize] at hlo
    refine ⟨?_, Nat.le_add_right _ _, ?_, fun j hj => ?_⟩
    · simp only [archPageSize]
      omega
    · simp only [archPageSize]
      omega
    have hpage := h.free j hj
    rwa [Nat.add_assoc, ← Nat.add_mul]

theorem VaRun.exists_index {k len : ℕ} (hlo : lo = k * archPageSize) (h : VaRun p lo (lo + len * archPageSize) n va) :
    ∃ i, va = lo + i * archPageSize ∧ RunAt (fun i => p (lo + i * archPageSize)) len n i := by
  have halign := h.aligned
  have hle := h.lo_le
  have hva : va = lo + (va - lo) / archPageSize * archPageSize := by
    simp only [archPageSize] at *
    omega
  refine ⟨(va - lo) / archPageSize, hva, (vaRun_iff hlo).mp ?_⟩
  rwa [← hva]

theorem VaRun.mono {hi' : ℕ} (h : VaRun p lo hi n va) (hle : va + n * archPageSize ≤ hi') :
    VaRun p lo hi' n va :=
  ⟨h.aligned, h.lo_le, hle, h.page⟩

theorem VaRun.imp {q : ℕ → Bool} (h : VaRun p lo hi n va) (hpq : ∀ a, p a = true → q a = true) :
    VaRun q lo hi n va :=
  ⟨h.aligned, h.lo_le, h.le_hi, fun j hj => hpq _ (h.page j hj)⟩

end runs

/-- Unmapped pages in the window of the table, whose last entry is `vend`. -/
def FreeRun (info : MmuInfo) (mem : TableMem) : (n va : ℕ) → Prop :=
  VaRun (unmapped info mem) (info.vstart * 2 ^ 30) ((info.vend + 1) * 2 ^ 30)

def scanEnd (info : MmuInfo) : ℕ := info.vstart * 2 ^ 30 + loopPages info * archPageSize

/-- Pages that the scan looks at and for which `_rt_hw_mmu_v2p` has no answer. -/
def OpenRun (info : MmuInfo) (mem : TableMem) : (n va : ℕ) → Prop :=
  VaRun (fun va => rtHwMmuV2p info mem va = 0) (info.vstart * 2 ^ 30) (scanEnd info)

section scan

variable {info : MmuInfo} {mem : TableMem} {pages : ℤ} {n va : ℕ}

def stopCount (pages : ℤ) : ℕ := max 1 pages.toNat

theorem le_iff_stopCount (n : ℕ) : pages ≤ n + 1 ↔ stopCount pages ≤ n + 1 := by
  unfold stopCount
  omega

theorem findVaddrLoop_eq {todo pos count : ℕ} (hle : count ≤ pos) :
    findVaddrLoop info mem pages todo (info.vstart * 2 ^ 30 + pos * archPageSize) count
        (if count = 0 then 0 else info.vstart * 2 ^ 30 + (pos - count) * archPageSize) =
      ((firstRun (fun i => rtHwMmuV2p info mem (info.vstart * 2 ^ 30 + i * archPageSize) = 0) (stopCount pages)
        todo pos count).map fun i => info.vstart * 2 ^ 30 + i * archPageSize).getD 0 := by
  induction todo generalizing pos count with
  | zero => rfl
  | succ todo ih =>
    have hpos := info.vstart_pos
    have hnext (k : ℕ) : info.vstart * 2 ^ 30 + k * archPageSize + archPageSize =
        info.vstart * 2 ^ 30 + (k + 1) * archPageSize := by rw [Nat.add_mul]; omega
    rw [findVaddrLoop, firstRun]
    by_cases hused : rtHwMmuV2p info mem (info.vstart * 2 ^ 30 + pos * archPageSize) = 0
    · have hfind : (if (if count = 0 then 0 else info.vstart * 2 ^ 30 + (pos - count) * archPageSize) = 0
          then info.vstart * 2 ^ 30 + pos * archPageSize
          else (if count = 0 then 0 else info.vstart * 2 ^ 30 + (pos - count) * archPageSize)) =
            info.vstart * 2 ^ 30 + (pos - count) * archPageSize := by
        by_cases h0 : count = 0
        · simp [h0]
        · rw [if_neg h0, if_neg (by omega)]
      rw [if_neg (not_not.mpr hused), if_pos (decide_eq_true hused)]
      dsimp only
      rw [hfind]
      by_cases hstop : pages ≤ count + 1
      · rw [if_pos hstop, if_pos ((le_iff_stopCount count).mp hstop)]
        rfl
      · rw [if_neg hstop, if_neg fun h => hstop ((le_iff_stopCount count).mpr h), hnext]
        have hih := @ih (pos + 1) (count + 1) (by omega)
        rwa [if_neg (by omega), Nat.add_sub_add_right] at hih
    · rw [if_pos hused, if_neg fun h => hused (of_decide_eq_true h), hnext]
      exact @ih (pos + 1) 0 (by omega)

theorem scanEnd_le : scanEnd info ≤ (info.vend + 1) * 2 ^ 30 := by
  have hle := info.vstart_le
  unfold scanEnd loopPages
  simp only [archPageSize]
  split_ifs <;> omega

theorem findVaddr_eq (hpages : pages ≠ 0) :
    findVaddr info mem pages =
      ((firstRun (fun i => rtHwMmuV2p info mem (info.vstart * 2 ^ 30 + i * archPageSize) = 0) (stopCount pages)
        (loopPages info) 0 0).map fun i => info.vstart * 2 ^ 30 + i * archPageSize).getD 0 := by
  have hloop := @findVaddrLoop_eq info mem pages (loopPages info) 0 0 (Nat.le_refl 0)
  rw [Nat.zero_mul, Nat.add_zero, if_pos rfl] at hloop
  rw [findVaddr, if_neg hpages, hloop]

theorem stopCount_pos (pages : ℤ) : 0 < stopCount pages := by
  unfold stopCount
  omega

theorem windowStart_eq (info : MmuInfo) : info.vstart * 2 ^ 30 = info.vstart * 2 ^ 18 * archPageSize := by
  simp only [archPageSize]
  omega

/-- `find_vaddr` takes the first open run of the pages that it counts. -/
theorem findVaddr_found (h : findVaddr info mem pages ≠ 0) :
    OpenRun info mem (stopCount pages) (findVaddr info mem pages) ∧
      ∀ va < findVaddr info mem pages, ¬OpenRun info mem (stopCount pages) va := by
  have hpages : pages ≠ 0 := by
    rintro rfl
    exact h rfl
  rw [findVaddr_eq hpages] at h ⊢
  cases hrun : firstRun _ (stopCount pages) (loopPages info) 0 0 with
  | none =>
    rw [hrun] at h
    exact absurd rfl h
  | some i =>
    obtain ⟨hat, hfirst⟩ := firstRun_some (stopCount_pos pages) (Nat.le_refl 0) (fun j _ hj => by omega) hrun
    rw [Nat.zero_add] at hat hfirst
    refine ⟨(vaRun_iff (windowStart_eq info)).mpr hat, fun va hlt hopen => ?_⟩
    obtain ⟨k, rfl, hk⟩ := VaRun.exists_index (windowStart_eq info) hopen
    have hki : k < i := by
      by_contra hge
      have hmul := Nat.mul_le_mul_right archPageSize (Nat.le_of_not_lt hge)
      simp only [Option.map_some, Option.getD_some] at hlt
      omega
    exact hfirst k (Nat.zero_le _) hki hk

theorem findVaddr_zero (hpages : pages ≠ 0) (h : findVaddr info mem pages = 0) (va : ℕ) :
    ¬OpenRun info mem (stopCount pages) va := by
  intro hopen
  rw [findVaddr_eq hpages] at h
  cases hrun : firstRun _ (stopCount pages) (loopPages info) 0 0 with
  | none =>
    obtain ⟨k, rfl, hk⟩ := VaRun.exists_index (windowStart_eq info) hopen
    have hno := firstRun_none (stopCount_pos pages) (Nat.le_refl 0) hrun k (Nat.zero_le _)
    rw [Nat.zero_add] at hno
    exact hno hk
  | some i =>
    have hpos := info.vstart_pos
    rw [hrun] at h
    simp only [Option.map_some, Option.getD_some] at h
    omega

/-- What `find_vaddr` is for: the address of unused pages, and none only where there are too few of them. -/
structure FindsFree (info : MmuInfo) (mem : TableMem) (pages va : ℕ) : Prop where
  free : va ≠ 0 → FreeRun info mem pages va
  none : va = 0 → 0 < pages → ∀ va, ¬FreeRun info mem pages va

/-- Where `find_vaddr` does that. -/
structure FindVaddrHolds (info : MmuInfo) (mem : TableMem) (pages : ℕ) : Prop where
  count : 2 ^ 31 ≤ pages → toInt pages = 0 ∨ ∀ va, ¬OpenRun info mem (stopCount (toInt pages)) va
  frame : ∀ va, OpenRun info mem pages va → ¬FreeRun info mem pages va →
    ∃ va' < va, FreeRun info mem pages va'
  last : (∃ va, FreeRun info mem pages va) → ∃ va, FreeRun info mem pages va ∧ va + pages * archPageSize ≤ scanEnd info

end scan

section exact

variable {info : MmuInfo} {mem : TableMem} {n va : ℕ}

theorem FreeRun.open (h : FreeRun info mem n va) (hle : va + n * archPageSize ≤ scanEnd info) :
    OpenRun info mem n va :=
  (h.mono hle).imp fun a ha => decide_eq_true (rtHwMmuV2p_unmapped info mem a ha)

theorem FreeRun.lt (h : FreeRun info mem n va) : n < 2 ^ 31 := by
  have hle := h.le_hi
  have hend := info.vend_lt
  simp only [archPageSize] at hle
  omega

theorem toInt_of_lt (h : n < 2 ^ 31) : toInt n = n := by
  unfold toInt
  rw [Int.bmod_eq_of_le] <;> omega

theorem stopCount_of_pos (h : 0 < n) : stopCount n = n := by
  unfold stopCount
  omega

theorem OpenRun.le_vend (h : OpenRun info mem n va) : va + n * archPageSize ≤ (info.vend + 1) * 2 ^ 30 :=
  h.le_hi.trans scanEnd_le

theorem OpenRun.lt (h : OpenRun info mem n va) : n < 2 ^ 31 := by
  have hle := OpenRun.le_vend h
  have hend := info.vend_lt
  simp only [archPageSize] at hle
  omega

theorem findsFree_iff_of_le (h : 2 ^ 31 ≤ n) :
    FindsFree info mem n (findVaddr info mem (toInt n)) ↔ FindVaddrHolds info mem n := by
  have hfree (va : ℕ) : ¬FreeRun info mem n va := fun hva => absurd hva.lt (Nat.not_lt.mpr h)
  constructor
  · intro hf
    have hzero : findVaddr info mem (toInt n) = 0 := by
      by_contra hne
      exact hfree _ (hf.free hne)
    refine ⟨fun _ => ?_, fun va hva _ => absurd (OpenRun.lt hva) (Nat.not_lt.mpr h), fun ⟨va, hva⟩ => absurd hva (hfree va)⟩
    by_cases hn : toInt n = 0
    · exact Or.inl hn
    · exact Or.inr (findVaddr_zero hn hzero)
  · intro hc
    have hzero : findVaddr info mem (toInt n) = 0 := by
      rcases hc.count h with h0 | hno
      · rw [h0]
        rfl
      · by_contra hne
        exact hno _ (findVaddr_found hne).1
    exact ⟨fun hne => absurd hzero hne, fun _ _ => hfree⟩

theorem findVaddrHolds_zero : FindVaddrHolds info mem 0 := by
  have hstart : info.vstart * 2 ^ 30 % archPageSize = 0 := by
    rw [windowStart_eq, Nat.mul_mod_left]
  refine ⟨fun h => absurd h (by decide), fun va hva hno => ?_, fun _ => ?_⟩
  · exact absurd ⟨hva.aligned, hva.lo_le, OpenRun.le_vend hva, fun j hj => absurd hj (Nat.not_lt_zero j)⟩ hno
  · have hle : info.vstart * 2 ^ 30 + 0 * archPageSize ≤ scanEnd info := by
      unfold scanEnd
      rw [Nat.zero_mul]
      exact Nat.add_le_add_left (Nat.zero_le _) _
    exact ⟨info.vstart * 2 ^ 30, ⟨hstart, Nat.le_refl _, hle.trans scanEnd_le, fun j hj => absurd hj (Nat.not_lt_zero j)⟩,
      hle⟩

/-- `find_vaddr` finds unused pages exactly when the count fits an `int`, no page of physical address 0 is
taken for one that is unused, and the last entry of the table is not needed. -/
theorem find_vaddr_free_iff (info : MmuInfo) (mem : TableMem) (r : MmuRequest) :
    FindsFree info mem r.pages (findVaddr info mem (toInt r.pages)) ↔ FindVaddrHolds info mem r.pages := by
  generalize r.pages = n
  rcases Nat.lt_or_ge n (2 ^ 31) with hlt | hge
  swap
  · exact findsFree_iff_of_le hge
  rw [toInt_of_lt hlt]
  rcases Nat.eq_zero_or_pos n with rfl | hpos
  · exact ⟨fun _ => findVaddrHolds_zero, fun _ => ⟨fun h => absurd rfl h, fun _ h => absurd h (Nat.lt_irrefl 0)⟩⟩
  have hne : (n : ℤ) ≠ 0 := by omega
  have hfound := @findVaddr_found info mem n
  have hzero := @findVaddr_zero info mem n hne
  rw [stopCount_of_pos hpos] at hfound hzero
  generalize findVaddr info mem n = va₀ at hfound hzero ⊢
  constructor
  · intro hf
    refine ⟨fun h => absurd h (Nat.not_le.mpr hlt), fun va hva hno => ?_, fun ⟨va, hva⟩ => ?_⟩
    · -- the run taken comes first, and it is free
      have h0 : va₀ ≠ 0 := fun h0 => hzero h0 va hva
      have hle : va₀ ≤ va := by
        by_contra hlt
        exact (hfound h0).2 va (Nat.lt_of_not_le hlt) hva
      refine ⟨va₀, Nat.lt_of_le_of_ne hle ?_, hf.free h0⟩
      rintro rfl
      exact hno (hf.free h0)
    · have h0 : va₀ ≠ 0 := fun h0 => hf.none h0 hpos va hva
      exact ⟨va₀, hf.free h0, (hfound h0).1.le_hi⟩
  · intro hc
    refine ⟨fun h0 => ?_, fun h0 _ va hva => ?_⟩
    · obtain ⟨hopen, hfirst⟩ := hfound h0
      by_contra hno
      obtain ⟨va, hva, hfree⟩ := hc.frame va₀ hopen hno
      exact hfirst va hva (hfree.open ((Nat.add_le_add_right hva.le _).trans hopen.le_hi))
    · obtain ⟨va', hfree, hle⟩ := hc.last ⟨va, hva⟩
      exact hzero h0 va' (hfree.open hle)

/-- A table with the tables at 0x2000 and 0x3000 under its fifth entry, and `pte` for the page `i` there. -/
def onePage (i pte : ℕ) : TableMem := fun table index =>
  if table = 0x1000 ∧ index = 4 then 0x801
  else if table = 0x2000 ∧ index = 0 then 0xc01
  else if table = 0x3000 ∧ index = i then pte
  else 0

theorem getL1_of_lt {va k : ℕ} (hlo : k * 2 ^ 30 ≤ va) (hhi : va < (k + 1) * 2 ^ 30) (hk : k < 2 ^ 9) :
    getL1 va = k := by
  unfold getL1
  omega

theorem rtHwMmuV2p_giant {info : MmuInfo} {mem : TableMem} {va pte : ℕ} (hl1 : mmuL1 info mem va = pte)
    (hused : pteUsed pte = true) (hleaf : pageIsLeaf pte = true) :
    rtHwMmuV2p info mem va = getPaddr pte ||| va % 2 ^ 30 := by
  rw [rtHwMmuV2p, hl1, if_pos hused, if_pos hleaf]

theorem not_openRun_giant (va : ℕ) : ¬OpenRun ⟨0x1000, 4, 5, 0, by decide, by decide, by decide⟩
    (fun table index => if table = 0x1000 ∧ index = 4 then 0x100000df else 0) 1 va := by
  intro hopen
  have hzero := of_decide_eq_true (hopen.page 0 (by decide))
  have hlo := hopen.lo_le
  have hhi := hopen.le_hi
  have hend : scanEnd ⟨0x1000, 4, 5, 0, by decide, by decide, by decide⟩ = (4 + 1) * 2 ^ 30 := by decide +kernel
  have hsize : 0 < 1 * archPageSize := by decide
  rw [hend] at hhi
  rw [Nat.zero_mul, Nat.add_zero] at hzero
  have hl1 := getL1_of_lt hlo (Nat.lt_of_lt_of_le (Nat.lt_add_of_pos_right hsize) hhi) (by decide)
  have hpte : mmuL1 ⟨0x1000, 4, 5, 0, by decide, by decide, by decide⟩
      (fun table index => if table = 0x1000 ∧ index = 4 then 0x100000df else 0) va = 0x100000df := by
    rw [mmuL1, hl1]
    decide
  rw [rtHwMmuV2p_giant hpte (by decide +kernel) (by decide +kernel), Nat.or_eq_zero_iff] at hzero
  exact absurd hzero.1 (by decide +kernel)

/-- 8 TiB come out as a negative count, and the first unused page is taken for the whole; a page of physical
address 0 is taken for an unused one; and the entry `vend` is not looked at. -/
theorem find_vaddr_takes_used :
    ¬FindsFree ⟨0x1000, 4, 511, 0, by decide, by decide, by decide⟩ (onePage 1 0x80df)
        (MmuRequest.mapAuto (2 ^ 43)).pages
        (findVaddr ⟨0x1000, 4, 511, 0, by decide, by decide, by decide⟩ (onePage 1 0x80df)
          (toInt (MmuRequest.mapAuto (2 ^ 43)).pages)) ∧
      ¬FindsFree ⟨0x1000, 4, 511, 0, by decide, by decide, by decide⟩ (onePage 0 0xdf)
        (MmuRequest.mapAuto 4096).pages
        (findVaddr ⟨0x1000, 4, 511, 0, by decide, by decide, by decide⟩ (onePage 0 0xdf)
          (toInt (MmuRequest.mapAuto 4096).pages)) ∧
      ¬FindsFree ⟨0x1000, 4, 5, 0, by decide, by decide, by decide⟩
        (fun table index => if table = 0x1000 ∧ index = 4 then 0x100000df else 0) (MmuRequest.mapAuto 4096).pages
        (findVaddr ⟨0x1000, 4, 5, 0, by decide, by decide, by decide⟩
          (fun table index => if table = 0x1000 ∧ index = 4 then 0x100000df else 0)
          (toInt (MmuRequest.mapAuto 4096).pages)) := by
  have hpage : (MmuRequest.mapAuto 4096).pages = 1 := by decide +kernel
  have hmany : (MmuRequest.mapAuto (2 ^ 43)).pages = 2 ^ 31 := by decide +kernel
  rw [hpage, hmany]
  refine ⟨fun h => ?_, fun h => ?_, fun h => ?_⟩
  · have hva : findVaddr ⟨0x1000, 4, 511, 0, by decide, by decide, by decide⟩ (onePage 1 0x80df)
        (toInt (2 ^ 31 : ℕ)) = 4 * 2 ^ 30 := by decide +kernel
    rw [hva] at h
    have hfree := (h.free (by decide)).page 1 (by decide)
    revert hfree
    decide +kernel
  · have hva : findVaddr ⟨0x1000, 4, 511, 0, by decide, by decide, by decide⟩ (onePage 0 0xdf)
        (toInt (1 : ℕ)) = 4 * 2 ^ 30 := by decide +kernel
    rw [hva] at h
    have hfree := (h.free (by decide)).page 0 (by decide)
    revert hfree
    decide +kernel
  · have hva : findVaddr ⟨0x1000, 4, 5, 0, by decide, by decide, by decide⟩
        (fun table index => if table = 0x1000 ∧ index = 4 then 0x100000df else 0) (toInt (1 : ℕ)) = 0 := by
      by_contra hne
      have hopen := (findVaddr_found hne).1
      have hstop : stopCount (toInt (1 : ℕ)) = 1 := by decide +kernel
      rw [hstop] at hopen
      exact not_openRun_giant _ hopen
    refine h.none hva (by decide) (5 * 2 ^ 30) ⟨by decide +kernel, by decide +kernel, by decide +kernel, ?_⟩
    intro j hj
    obtain rfl : j = 0 := by omega
    decide +kernel

end exact

end RtSmart
