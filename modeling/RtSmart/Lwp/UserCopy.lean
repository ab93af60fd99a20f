import RtSmart.Lib.PagedCopy
import RtSmart.Mm.Mmu

/-!
Copies between the kernel and a process (lwp_user_mm.c). The page tables are not in the memory that is copied
to, a buffer of the kernel is its bytes, and `PV_OFFSET` is 0.
-/

namespace RtSmart.UserCopy

open Lib

/-- `USER_VADDR_START` and `USER_VADDR_TOP`. -/
structure UserRange where
  start : ℕ
  top : ℕ
  start_pos : 0 < start
  top_le : top + archPageSize ≤ 2 ^ 64

def lwpUserRangeValid (r : UserRange) (addr size : ℕ) : Bool :=
  size = 0 || (addr ≠ 0 && r.start ≤ addr && addr < r.top && size ≤ r.top - addr)

/-- `next_page` before the loops. -/
def nextPageOf (addr : ℕ) : ℕ := wadd 64 addr archPageSize / archPageSize * archPageSize

section code

variable {σ : Type*} (v2p : ℕ → ℕ)

/-- The loop of `lwp_data_get` and `lwp_data_put`, of which `copy` is the `rvv_memcpy`. The pointer into the
buffer has moved by `copy_len`. -/
def dataLoop (copy : (pa copyLen len : ℕ) → σ → σ) (addrEnd : ℕ) :
    (fuel addrStart nextPage size copyLen : ℕ) → σ → Option (σ × ℕ)
  | 0, _, _, _, _, _ => none
  | fuel + 1, addrStart, nextPage, size, copyLen, s =>
    let len := min size (wsub 64 nextPage addrStart)
    if v2p addrStart = 0 then some (s, copyLen)
    else
      let s := copy (v2p addrStart) copyLen len s
      let addrStart := wadd 64 addrStart len
      if addrStart < addrEnd then
        dataLoop copy addrEnd fuel addrStart (wadd 64 nextPage archPageSize) (size - len) (copyLen + len) s
      else some (s, copyLen + len)

/-- The loop of `lwp_put_to_user` over the pages, with what `rt_hw_mmu_user_writable` says. -/
def writableLoop (writable : ℕ → Bool) (addrEnd : ℕ) : (fuel addrStart nextPage : ℕ) → Option Bool
  | 0, _, _ => none
  | fuel + 1, addrStart, nextPage =>
    if addrStart < addrEnd then
      if writable addrStart then writableLoop writable addrEnd fuel nextPage (wadd 64 nextPage archPageSize)
      else some false
    else some true

end code

section code

variable (info : MmuInfo) (mem : TableMem)

/-- `lwp_data_get`, with the physical memory `phys`. -/
def lwpDataGet (phys : ℕ → UInt8) (dst : Option (ℕ → UInt8)) (src size : ℕ) : Option (Option (ℕ → UInt8) × ℕ) :=
  match dst with
  | none => some (none, 0)
  | some dst =>
    if size = 0 then some (some dst, 0)
    else
      (dataLoop (rtHwMmuV2p info mem) (fun pa copyLen len dst => blit copyLen pa len phys dst) (wadd 64 src size)
        size src (nextPageOf src) size 0 dst).map fun (dst, n) => (some dst, n)

def lwpDataPut (phys : ℕ → UInt8) (dst : ℕ) (src : ℕ → UInt8) (size : ℕ) : Option ((ℕ → UInt8) × ℕ) :=
  if size = 0 ∨ dst = 0 then some (phys, 0)
  else
    dataLoop (rtHwMmuV2p info mem) (fun pa copyLen len phys => blit pa copyLen len src phys) (wadd 64 dst size)
      size dst (nextPageOf dst) size 0 phys

def lwpPutToUser (r : UserRange) (lwp : Option MmuInfo) (mem : TableMem) (phys : ℕ → UInt8) (dst : ℕ)
    (src : ℕ → UInt8) (size : ℕ) : Option ((ℕ → UInt8) × ℕ) :=
  if !lwpUserRangeValid r dst size then some (phys, 0)
  else
    match lwp with
    | none => some (phys, 0)
    | some info =>
      (writableLoop (rtHwMmuUserWritable info mem) (wadd 64 dst size) (size + 1) dst (nextPageOf dst)).bind fun ok =>
        if ok then lwpDataPut info mem phys dst src size else some (phys, 0)

end code

section loop

variable {σ τ : Type*} {v2p : ℕ → ℕ} {a addr size : ℕ}

/-- The end of the page of an address, as `next_page` holds it. -/
def pageEnd (a : ℕ) : ℕ := (a / archPageSize + 1) * archPageSize % 2 ^ 64

theorem nextPageOf_eq (a : ℕ) : nextPageOf a = pageEnd a := by
  unfold nextPageOf pageEnd wadd
  simp only [archPageSize]
  omega

theorem wsub_pageEnd (a : ℕ) : wsub 64 (pageEnd a) a = archPageSize - a % archPageSize := by
  unfold pageEnd wsub
  simp only [archPageSize]
  omega

theorem wadd_pageEnd (a : ℕ) :
    wadd 64 (pageEnd a) archPageSize = pageEnd (wadd 64 a (archPageSize - a % archPageSize)) := by
  unfold pageEnd wadd
  simp only [archPageSize]
  omega

def Paged (v2p : ℕ → ℕ) : Prop :=
  ∀ va j, v2p va ≠ 0 → va % archPageSize + j < archPageSize → v2p (va + j) = v2p va + j

/-- The byte `i` from an address on. -/
def byteAt (addr i : ℕ) : ℕ := (addr + i) % 2 ^ 64

theorem byteAt_add {off j : ℕ} (h : byteAt addr off % archPageSize + j < archPageSize) :
    byteAt addr (off + j) = byteAt addr off + j := by
  unfold byteAt at *
  simp only [archPageSize] at h
  omega

theorem dataLoop_spec (hv : Paged v2p) {copy : (pa copyLen len : ℕ) → σ → σ} {P : ℕ → σ → Prop}
    (hstep : ∀ pa off len s, P off s → (∀ j < len, v2p (byteAt addr (off + j)) = pa + j) →
      P (off + len) (copy pa off len s))
    {fuel off : ℕ} {s : σ} (hoff : off < size) (hfuel : size - off ≤ fuel) (hP : P off s)
    (hmap : ∀ i < off, v2p (byteAt addr i) ≠ 0) :
    ∃ s' k, dataLoop v2p copy (byteAt addr size) fuel (byteAt addr off) (pageEnd (byteAt addr off)) (size - off) off s =
        some (s', k) ∧
      P k s' ∧ k ≤ size ∧ (∀ i < k, v2p (byteAt addr i) ≠ 0) ∧
      (addr + size < 2 ^ 64 → k = size ∨ v2p (byteAt addr k) = 0) := by
  induction fuel generalizing off s with
  | zero => omega
  | succ fuel ih =>
    rw [dataLoop, wsub_pageEnd]
    by_cases hpa : v2p (byteAt addr off) = 0
    · rw [if_pos hpa]
      exact ⟨s, off, rfl, hP, hoff.le, hmap, fun _ => Or.inr hpa⟩
    rw [if_neg hpa]
    dsimp only
    generalize hlen : min (size - off) (archPageSize - byteAt addr off % archPageSize) = len
    have hpage : byteAt addr off % archPageSize < archPageSize := Nat.mod_lt _ (by decide)
    have hchunk : ∀ j < len, v2p (byteAt addr (off + j)) = v2p (byteAt addr off) + j := by
      intro j hj
      have hin : byteAt addr off % archPageSize + j < archPageSize := by omega
      rw [byteAt_add hin]
      exact hv _ j hpa hin
    have hP' := hstep (v2p (byteAt addr off)) off len s hP hchunk
    have hmap' : ∀ i < off + len, v2p (byteAt addr i) ≠ 0 := by
      intro i hi
      rcases Nat.lt_or_ge i off with hlt | hge
      · exact hmap i hlt
      · have h := hchunk (i - off) (by omega)
        rw [Nat.add_sub_cancel' hge] at h
        omega
    have hnext : wadd 64 (byteAt addr off) len = byteAt addr (off + len) := by
      unfold wadd byteAt
      omega
    rw [hnext]
    by_cases hmore : byteAt addr (off + len) < byteAt addr size
    · -- the chunk ends with its page, for the range does not end there
      have hne : off + len ≠ size := fun h => Nat.lt_irrefl _ (h ▸ hmore)
      have hfull : len = archPageSize - byteAt addr off % archPageSize := by omega
      have hend : wadd 64 (pageEnd (byteAt addr off)) archPageSize = pageEnd (byteAt addr (off + len)) := by
        rw [wadd_pageEnd, ← hfull, hnext]
      rw [if_pos hmore, hend, Nat.sub_sub]
      exact ih (by omega) (by omega) hP' hmap'
    · rw [if_neg hmore]
      refine ⟨_, _, rfl, hP', by omega, hmap', fun hsum => Or.inl ?_⟩
      unfold byteAt at hmore
      rw [Nat.mod_eq_of_lt hsum, Nat.mod_eq_of_lt (by omega)] at hmore
      omega

theorem dataLoop_count (copy : (pa copyLen len : ℕ) → σ → σ) (copy' : (pa copyLen len : ℕ) → τ → τ)
    (addrEnd fuel addrStart nextPage size copyLen : ℕ) (s : σ) (s' : τ) :
    (dataLoop v2p copy addrEnd fuel addrStart nextPage size copyLen s).map Prod.snd =
      (dataLoop v2p copy' addrEnd fuel addrStart nextPage size copyLen s').map Prod.snd := by
  induction fuel generalizing addrStart nextPage size copyLen s s' with
  | zero => rfl
  | succ fuel ih =>
    rw [dataLoop, dataLoop]
    dsimp only
    split_ifs
    · rfl
    · exact ih _ _ _ _ _ _
    · rfl

theorem writableLoop_spec {writable : ℕ → Bool} (hw : ∀ a b, a / archPageSize = b / archPageSize → writable a = writable b)
    {addrEnd fuel : ℕ} (hend : addrEnd + archPageSize ≤ 2 ^ 64) (hfuel : addrEnd < a + fuel) (hpos : 0 < fuel) :
    ∃ ok, writableLoop writable addrEnd fuel a (pageEnd a) = some ok ∧
      (ok = true ↔ ∀ b, a ≤ b → b < addrEnd → writable b = true) := by
  induction fuel generalizing a with
  | zero => cases hpos
  | succ fuel ih =>
    rw [writableLoop]
    by_cases hlt : a < addrEnd
    swap
    · rw [if_neg hlt]
      exact ⟨true, rfl, iff_of_true rfl fun b hab hb => absurd (hab.trans_lt hb) hlt⟩
    rw [if_pos hlt]
    by_cases hok : writable a = true
    swap
    · rw [if_neg hok]
      exact ⟨false, rfl, iff_of_false (by simp) fun h => hok (h a le_rfl hlt)⟩
    have hpage : pageEnd a = a / archPageSize * archPageSize + archPageSize := by
      unfold pageEnd
      simp only [archPageSize] at *
      omega
    have hle : a < pageEnd a := by
      simp only [archPageSize] at *
      omega
    have hnext : wadd 64 (pageEnd a) archPageSize = pageEnd (pageEnd a) := by
      rw [hpage]
      unfold wadd pageEnd
      simp only [archPageSize] at *
      omega
    obtain ⟨ok, hloop, hiff⟩ := @ih (pageEnd a) (by omega) (by omega)
    rw [if_pos hok, hnext]
    refine ⟨ok, hloop, hiff.trans ⟨fun h b hab hb => ?_, fun h b hab hb => h b (hle.le.trans hab) hb⟩⟩
    rcases Nat.lt_or_ge b (pageEnd a) with hin | hout
    · have hsame : b / archPageSize = a / archPageSize := by
        simp only [archPageSize] at *
        omega
      rwa [hw b a hsame]
    · exact h b hout hb

end loop

section copies

variable {info : MmuInfo} {mem : TableMem} {phys : ℕ → UInt8} {src buf : ℕ → UInt8} {dst size : ℕ}

theorem paged_v2p (info : MmuInfo) (mem : TableMem) : Paged (rtHwMmuV2p info mem) :=
  fun _ _ h hj => rtHwMmuV2p_add info mem h hj

/-- Where the byte `i` of a range lies in the physical memory. -/
def placeOf (info : MmuInfo) (mem : TableMem) (addr i : ℕ) : ℕ := rtHwMmuV2p info mem (byteAt addr i)

theorem byteAt_zero (h : dst < 2 ^ 64) : byteAt dst 0 = dst := Nat.mod_eq_of_lt h

theorem wadd_eq_byteAt (a i : ℕ) : wadd 64 a i = byteAt a i := by
  unfold wadd byteAt
  rfl

theorem lwpDataPut_spec (hdst : dst < 2 ^ 64) :
    ∃ k, lwpDataPut info mem phys dst src size = some (storeBytes (placeOf info mem dst) src k phys, k) ∧ k ≤ size ∧
      (∀ i < k, placeOf info mem dst i ≠ 0) ∧
      (dst ≠ 0 → dst + size < 2 ^ 64 → k = size ∨ placeOf info mem dst k = 0) := by
  unfold lwpDataPut
  by_cases h0 : size = 0 ∨ dst = 0
  · rw [if_pos h0]
    exact ⟨0, rfl, Nat.zero_le _, fun i hi => absurd hi (Nat.not_lt_zero i), fun hne _ => Or.inl (h0.resolve_right hne).symm⟩
  rw [if_neg h0, wadd_eq_byteAt, nextPageOf_eq]
  push Not at h0
  have hloop := @dataLoop_spec (ℕ → UInt8) (rtHwMmuV2p info mem) dst size (paged_v2p info mem)
    (fun pa copyLen len phys => blit pa copyLen len src phys)
    (fun k phys' => phys' = storeBytes (placeOf info mem dst) src k phys)
    (by
      rintro pa off len s rfl hplace
      exact blit_storeBytes hplace)
    size 0 phys (Nat.pos_of_ne_zero h0.1) (Nat.le_refl _) rfl (fun i hi => absurd hi (Nat.not_lt_zero i))
  rw [byteAt_zero hdst, Nat.sub_zero] at hloop
  obtain ⟨s', k, hrun, rfl, hk, hmap, hstop⟩ := hloop
  exact ⟨k, hrun, hk, hmap, fun _ => hstop⟩

theorem lwpDataGet_spec (hdst : dst < 2 ^ 64) :
    ∃ k, lwpDataGet info mem phys (some buf) dst size = some (some (loadBytes (placeOf info mem dst) phys k buf), k) ∧
      k ≤ size ∧ (∀ i < k, placeOf info mem dst i ≠ 0) ∧
      (dst + size < 2 ^ 64 → k = size ∨ placeOf info mem dst k = 0) := by
  unfold lwpDataGet
  by_cases h0 : size = 0
  · subst h0
    refine ⟨0, ?_, Nat.le_refl _, fun i hi => absurd hi (Nat.not_lt_zero i), fun _ => Or.inl rfl⟩
    have hnone : loadBytes (placeOf info mem dst) phys 0 buf = buf := by
      funext i
      exact if_neg (Nat.not_lt_zero i)
    rw [hnone]
    rfl
  dsimp only
  rw [if_neg h0, wadd_eq_byteAt, nextPageOf_eq]
  have hloop := @dataLoop_spec (ℕ → UInt8) (rtHwMmuV2p info mem) dst size (paged_v2p info mem)
    (fun pa copyLen len dst => blit copyLen pa len phys dst)
    (fun k buf' => buf' = loadBytes (placeOf info mem dst) phys k buf)
    (by
      rintro pa off len s rfl hplace
      exact blit_loadBytes hplace)
    size 0 buf (Nat.pos_of_ne_zero h0) (Nat.le_refl _) (by funext i; exact (if_neg (Nat.not_lt_zero i)).symm)
    (fun i hi => absurd hi (Nat.not_lt_zero i))
  rw [byteAt_zero hdst, Nat.sub_zero] at hloop
  obtain ⟨s', k, hrun, rfl, hk, hmap, hstop⟩ := hloop
  refine ⟨k, ?_, hk, hmap, hstop⟩
  rw [hrun]
  rfl

theorem lwpDataGet_lwpDataPut (hne : dst ≠ 0) {phys' : ℕ → UInt8} {k : ℕ}
    (h : lwpDataPut info mem phys dst src size = some (phys', k)) :
    (lwpDataGet info mem phys' (some buf) dst size).map Prod.snd = some k := by
  unfold lwpDataPut at h
  unfold lwpDataGet
  by_cases h0 : size = 0
  · rw [if_pos (Or.inl h0), Option.some.injEq, Prod.mk.injEq] at h
    dsimp only
    rw [if_pos h0, ← h.2]
    rfl
  · rw [if_neg (by simp [h0, hne])] at h
    have hcount := congrArg (Option.map Prod.snd) h
    rw [dataLoop_count _ (fun pa copyLen len dst => blit copyLen pa len phys' dst) _ _ _ _ _ _ _ buf] at hcount
    dsimp only
    rw [if_neg h0, Option.map_map]
    exact hcount

/-- When `lwp_put_to_user` is to write. -/
def PutAccepts (r : UserRange) (lwp : Option MmuInfo) (mem : TableMem) (dst size : ℕ) (info : MmuInfo) : Prop :=
  lwpUserRangeValid r dst size = true ∧ lwp = some info ∧
    ∀ i < size, rtHwMmuUserWritable info mem (dst + i) = true

theorem UserRange.lt_of_valid {r : UserRange} (h : lwpUserRangeValid r dst size = true) (hsize : size ≠ 0) :
    dst ≠ 0 ∧ dst + size + archPageSize ≤ 2 ^ 64 := by
  have htop := r.top_le
  unfold lwpUserRangeValid at h
  simp only [Bool.or_eq_true, Bool.and_eq_true, decide_eq_true_eq] at h
  omega

theorem byteAt_eq {i : ℕ} (h : dst + i < 2 ^ 64) : byteAt dst i = dst + i := Nat.mod_eq_of_lt h

theorem writable_check {r : UserRange} (hdst : dst < 2 ^ 64) (h : lwpUserRangeValid r dst size = true) :
    ∃ ok, writableLoop (rtHwMmuUserWritable info mem) (wadd 64 dst size) (size + 1) dst (nextPageOf dst) = some ok ∧
      (ok = true ↔ ∀ i < size, rtHwMmuUserWritable info mem (dst + i) = true) := by
  rw [wadd_eq_byteAt, nextPageOf_eq]
  by_cases h0 : size = 0
  · subst h0
    rw [byteAt_zero hdst, writableLoop, if_neg (Nat.lt_irrefl dst)]
    exact ⟨true, rfl, iff_of_true rfl fun i hi => absurd hi (Nat.not_lt_zero i)⟩
  obtain ⟨-, hle⟩ := UserRange.lt_of_valid h h0
  have hsize : 0 < archPageSize := by decide
  rw [byteAt_eq (by omega)]
  obtain ⟨ok, hrun, hiff⟩ := @writableLoop_spec dst _ (fun a b => rtHwMmuUserWritable_congr info mem) (dst + size)
    (size + 1) hle (by omega) (Nat.succ_pos size)
  refine ⟨ok, hrun, hiff.trans ⟨fun h i hi => h _ (Nat.le_add_right _ _) (by omega), fun h b hb hlt => ?_⟩⟩
  have hin := h (b - dst) (by omega)
  rwa [Nat.add_sub_cancel' hb] at hin

theorem lwpPutToUser_refused {r : UserRange} {lwp : Option MmuInfo} (hdst : dst < 2 ^ 64)
    (h : ∀ info, ¬PutAccepts r lwp mem dst size info) :
    lwpPutToUser r lwp mem phys dst src size = some (phys, 0) := by
  unfold lwpPutToUser
  by_cases hvalid : lwpUserRangeValid r dst size = true
  swap
  · rw [if_pos (by simpa using hvalid)]
  rw [if_neg (by simpa using hvalid)]
  cases lwp with
  | none => rfl
  | some info =>
    obtain ⟨ok, hrun, hiff⟩ := @writable_check info mem dst size r hdst hvalid
    dsimp only
    rw [hrun, Option.bind_some, if_neg fun hok => h info ⟨hvalid, rfl, hiff.mp hok⟩]

theorem lwpPutToUser_accepted {r : UserRange} {lwp : Option MmuInfo} (hdst : dst < 2 ^ 64)
    (h : PutAccepts r lwp mem dst size info) :
    lwpPutToUser r lwp mem phys dst src size = lwpDataPut info mem phys dst src size := by
  obtain ⟨hvalid, rfl, hall⟩ := h
  obtain ⟨ok, hrun, hiff⟩ := @writable_check info mem dst size r hdst hvalid
  unfold lwpPutToUser
  rw [if_neg (by simpa using hvalid)]
  dsimp only
  rw [hrun, Option.bind_some, if_pos (hiff.mpr hall)]

theorem lwpPutToUser_whole {r : UserRange} {lwp : Option MmuInfo} (hdst : dst < 2 ^ 64)
    (h : PutAccepts r lwp mem dst size info) (hframe : ∀ i < size, rtHwMmuV2p info mem (pageStart (dst + i)) ≠ 0) :
    lwpPutToUser r lwp mem phys dst src size = some (storeBytes (placeOf info mem dst) src size phys, size) := by
  rw [lwpPutToUser_accepted hdst h]
  obtain ⟨k, hrun, hk, -, hstop⟩ := @lwpDataPut_spec info mem phys src dst size hdst
  by_cases h0 : size = 0
  · obtain rfl : k = size := by omega
    exact hrun
  obtain ⟨hne, hle⟩ := UserRange.lt_of_valid h.1 h0
  have hsize : 0 < archPageSize := by decide
  rcases hstop hne (by omega) with rfl | hzero
  · exact hrun
  · have hks : k = size := by
      by_contra hks
      have hmap := unmapped_eq_false_of_writable info mem _ (h.2.2 k (by omega))
      rw [placeOf, byteAt_eq (by omega), rtHwMmuV2p_pageStart info mem hmap] at hzero
      exact hframe k (by omega) (Nat.eq_zero_of_add_eq_zero_right hzero)
    subst hks
    exact hrun

/-- A copy to a process is all or nothing, and the copies transfer the bytes that they report. -/
theorem user_copies_exact (mem : TableMem) (phys : ℕ → UInt8) (src buf : ℕ → UInt8) (dst size : ℕ) (hdst : dst < 2 ^ 64) :
    (∀ (r : UserRange) (lwp : Option MmuInfo),
      ((∀ info, ¬PutAccepts r lwp mem dst size info) ∧ lwpPutToUser r lwp mem phys dst src size = some (phys, 0)) ∨
      ∃ info, PutAccepts r lwp mem dst size info ∧
        ((∀ i < size, rtHwMmuV2p info mem (pageStart (dst + i)) ≠ 0) →
          ∃ phys', lwpPutToUser r lwp mem phys dst src size = some (phys', size) ∧
            (∀ a, (∀ i < size, rtHwMmuV2p info mem (dst + i) ≠ a) → phys' a = phys a) ∧
            ∀ i < size, (∀ j < size, i < j → rtHwMmuV2p info mem (dst + j) ≠ rtHwMmuV2p info mem (dst + i)) →
              phys' (rtHwMmuV2p info mem (dst + i)) = src i)) ∧
    ∀ info : MmuInfo,
      (∃ buf' k, lwpDataGet info mem phys (some buf) dst size = some (some buf', k) ∧ k ≤ size ∧
        (∀ i < k, unmapped info mem (byteAt dst i) = false ∧ buf' i = phys (rtHwMmuV2p info mem (byteAt dst i))) ∧
        (∀ i, k ≤ i → buf' i = buf i) ∧
        (dst + size < 2 ^ 64 → k = size ∨ rtHwMmuV2p info mem (byteAt dst k) = 0)) ∧
      ∃ phys' k, lwpDataPut info mem phys dst src size = some (phys', k) ∧ k ≤ size ∧
        (∀ i < k, unmapped info mem (byteAt dst i) = false) ∧
        (dst ≠ 0 → dst + size < 2 ^ 64 → k = size ∨ rtHwMmuV2p info mem (byteAt dst k) = 0) ∧
        (∀ a, (∀ i < k, rtHwMmuV2p info mem (byteAt dst i) ≠ a) → phys' a = phys a) ∧
        (∀ i < k, (∀ j < k, i < j → rtHwMmuV2p info mem (byteAt dst j) ≠ rtHwMmuV2p info mem (byteAt dst i)) →
          phys' (rtHwMmuV2p info mem (byteAt dst i)) = src i) ∧
        (dst ≠ 0 → ∃ buf', lwpDataGet info mem phys' (some buf) dst size = some (some buf', k) ∧
          ∀ i < k, (∀ j < k, i < j → rtHwMmuV2p info mem (byteAt dst j) ≠ rtHwMmuV2p info mem (byteAt dst i)) →
            buf' i = src i) := by
  have hmapped (info : MmuInfo) (i : ℕ) (h : placeOf info mem dst i ≠ 0) : unmapped info mem (byteAt dst i) = false := by
    by_contra hno
    exact h (rtHwMmuV2p_unmapped info mem _ (Bool.eq_true_of_not_eq_false hno))
  refine ⟨fun r lwp => ?_, fun info => ⟨?_, ?_⟩⟩
  · by_cases hacc : ∃ info, PutAccepts r lwp mem dst size info
    swap
    · exact Or.inl ⟨not_exists.mp hacc, lwpPutToUser_refused hdst (not_exists.mp hacc)⟩
    obtain ⟨info, hacc⟩ := hacc
    refine Or.inr ⟨info, hacc, fun hframe => ?_⟩
    have hplace : ∀ i < size, placeOf info mem dst i = rtHwMmuV2p info mem (dst + i) := by
      intro i hi
      have hle := (UserRange.lt_of_valid hacc.1 (Nat.ne_zero_of_lt hi)).2
      rw [placeOf, byteAt_eq (by omega)]
    refine ⟨_, lwpPutToUser_whole hdst hacc hframe, fun a ha => ?_, fun i hi hlast => ?_⟩
    · exact storeBytes_of_ne fun i hi => hplace i hi ▸ ha i hi
    · rw [← hplace i hi]
      apply storeBytes_last hi
      intro j hj hij
      rw [hplace i hi, hplace j hj]
      exact hlast j hj hij
  · obtain ⟨k, hrun, hk, hmap, hstop⟩ := @lwpDataGet_spec info mem phys buf dst size hdst
    exact ⟨_, k, hrun, hk, fun i hi => ⟨hmapped info i (hmap i hi), if_pos hi⟩,
      fun i hi => if_neg (Nat.not_lt.mpr hi), hstop⟩
  · obtain ⟨k, hrun, hk, hmap, hstop⟩ := @lwpDataPut_spec info mem phys src dst size hdst
    refine ⟨_, k, hrun, hk, fun i hi => hmapped info i (hmap i hi), hstop, fun a ha => storeBytes_of_ne ha,
      fun i hi hlast => storeBytes_last hi hlast, fun hne => ?_⟩
    obtain ⟨k', hget, -⟩ := @lwpDataGet_spec info mem (storeBytes (placeOf info mem dst) src k phys) buf dst size hdst
    have hcount := @lwpDataGet_lwpDataPut info mem phys src buf dst size hne _ k hrun
    rw [hget, Option.map_some, Option.some.injEq] at hcount
    obtain rfl : k' = k := hcount
    refine ⟨_, hget, fun i hi hlast => ?_⟩
    rw [loadBytes, if_pos hi]
    exact storeBytes_last hi hlast

/-- A table whose first two pages from 4 GiB on have the given entries. -/
def userPages (pte₀ pte₁ : ℕ) : TableMem := fun table index =>
  if table = 0x1000 ∧ index = 4 then 0x801
  else if table = 0x2000 ∧ index = 0 then 0xc01
  else if table = 0x3000 ∧ index = 0 then pte₀
  else if table = 0x3000 ∧ index = 1 then pte₁
  else 0

theorem user_copies_exact_two_pages :
    ∃ phys', lwpPutToUser ⟨0x100000000, 0xfffffffffffff000, by decide, by decide⟩
        (some ⟨0x1000, 4, 511, 0, by decide, by decide, by decide⟩) (userPages 0x14d7 0x18d7) (fun _ => 0) 0x100000fff
        (fun i => if i = 0 then 1 else 0) 2 = some (phys', 2) := by
  have h := (user_copies_exact (userPages 0x14d7 0x18d7) (fun _ => 0) (fun i => if i = 0 then 1 else 0) (fun _ => 0)
    0x100000fff 2 (by decide)).1 ⟨0x100000000, 0xfffffffffffff000, by decide, by decide⟩
    (some ⟨0x1000, 4, 511, 0, by decide, by decide, by decide⟩)
  rcases h with ⟨hno, -⟩ | ⟨info, hacc, hwrite⟩
  · exact absurd ⟨by decide +kernel, rfl, by decide +kernel⟩ (hno ⟨0x1000, 4, 511, 0, by decide, by decide, by decide⟩)
  · obtain rfl := Option.some.inj hacc.2.1
    obtain ⟨phys', hrun, -⟩ := hwrite (by decide +kernel)
    exact ⟨phys', hrun⟩

theorem forall_page_succ {p : ℕ → Prop} {a : ℕ} (ha : a % archPageSize = 0)
    (hp : ∀ b c, b / archPageSize = c / archPageSize → p b → p c) (h0 : p a) (h1 : p (a + archPageSize)) :
    ∀ i < archPageSize + 1, p (a + i) := by
  intro i hi
  rcases Nat.lt_succ_iff_lt_or_eq.mp hi with hlt | rfl
  · apply hp a _ _ h0
    simp only [archPageSize] at *
    omega
  · exact h1

/-- Two pages of one frame take two values for the same byte; and the copy stops at a page of physical address
0, after it has written the page before. -/
theorem put_to_user_not_exact :
    (∃ phys', lwpPutToUser ⟨0x100000000, 0xfffffffffffff000, by decide, by decide⟩
        (some ⟨0x1000, 4, 511, 0, by decide, by decide, by decide⟩) (userPages 0x14d7 0x14d7) (fun _ => 0) 0x100000000
        (fun i => if i = 0 then 1 else 0) (archPageSize + 1) = some (phys', archPageSize + 1) ∧
      phys' (rtHwMmuV2p ⟨0x1000, 4, 511, 0, by decide, by decide, by decide⟩ (userPages 0x14d7 0x14d7) 0x100000000) = 0) ∧
    ∃ phys', lwpPutToUser ⟨0x100000000, 0xfffffffffffff000, by decide, by decide⟩
        (some ⟨0x1000, 4, 511, 0, by decide, by decide, by decide⟩) (userPages 0x14d7 0xd7) (fun _ => 0) 0x100000fff
        (fun _ => 1) 2 = some (phys', 1) ∧
      phys' (rtHwMmuV2p ⟨0x1000, 4, 511, 0, by decide, by decide, by decide⟩ (userPages 0x14d7 0xd7) 0x100000fff) = 1 := by
  constructor
  · have hw : ∀ i < archPageSize + 1, rtHwMmuUserWritable ⟨0x1000, 4, 511, 0, by decide, by decide, by decide⟩
        (userPages 0x14d7 0x14d7) (0x100000000 + i) = true :=
      forall_page_succ (p := fun va => rtHwMmuUserWritable ⟨0x1000, 4, 511, 0, by decide, by decide, by decide⟩
        (userPages 0x14d7 0x14d7) va = true) (by decide +kernel)
        (fun b c h hb => (rtHwMmuUserWritable_congr _ _ h).symm.trans hb) (by decide +kernel) (by decide +kernel)
    have hf : ∀ i < archPageSize + 1, rtHwMmuV2p ⟨0x1000, 4, 511, 0, by decide, by decide, by decide⟩
        (userPages 0x14d7 0x14d7) (pageStart (0x100000000 + i)) ≠ 0 :=
      forall_page_succ (p := fun va => rtHwMmuV2p ⟨0x1000, 4, 511, 0, by decide, by decide, by decide⟩
        (userPages 0x14d7 0x14d7) (pageStart va) ≠ 0) (by decide +kernel)
        (fun b c h hb => by rwa [pageStart, ← h]) (by decide +kernel) (by decide +kernel)
    refine ⟨_, lwpPutToUser_whole (by decide) ⟨by decide +kernel, rfl, hw⟩ hf, ?_⟩
    have hsame : rtHwMmuV2p ⟨0x1000, 4, 511, 0, by decide, by decide, by decide⟩ (userPages 0x14d7 0x14d7) 0x100000000 =
        placeOf ⟨0x1000, 4, 511, 0, by decide, by decide, by decide⟩ (userPages 0x14d7 0x14d7) 0x100000000
          archPageSize := by
      decide +kernel
    rw [hsame, storeBytes_last (Nat.lt_succ_self _) fun j hj hlt => absurd hj (Nat.not_lt.mpr hlt)]
    rfl
  · have hacc : PutAccepts ⟨0x100000000, 0xfffffffffffff000, by decide, by decide⟩
        (some ⟨0x1000, 4, 511, 0, by decide, by decide, by decide⟩) (userPages 0x14d7 0xd7) 0x100000fff 2
        ⟨0x1000, 4, 511, 0, by decide, by decide, by decide⟩ := ⟨by decide +kernel, rfl, by decide +kernel⟩
    rw [lwpPutToUser_accepted (by decide) hacc]
    obtain ⟨k, hrun, -⟩ := @lwpDataPut_spec ⟨0x1000, 4, 511, 0, by decide, by decide, by decide⟩
      (userPages 0x14d7 0xd7) (fun _ => 0) (fun _ => 1) 0x100000fff 2 (by decide)
    have hcount : (lwpDataPut ⟨0x1000, 4, 511, 0, by decide, by decide, by decide⟩ (userPages 0x14d7 0xd7) (fun _ => 0)
        0x100000fff (fun _ => 1) 2).map Prod.snd = some 1 := by decide +kernel
    rw [hrun, Option.map_some, Option.some.injEq] at hcount
    obtain rfl : k = 1 := hcount
    refine ⟨_, hrun, ?_⟩
    have hfirst : rtHwMmuV2p ⟨0x1000, 4, 511, 0, by decide, by decide, by decide⟩ (userPages 0x14d7 0xd7) 0x100000fff =
        placeOf ⟨0x1000, 4, 511, 0, by decide, by decide, by decide⟩ (userPages 0x14d7 0xd7) 0x100000fff 0 := by
      decide +kernel
    rw [hfirst, storeBytes_last (by decide) fun j hj hlt => absurd hj (Nat.not_lt.mpr hlt)]

end copies

end RtSmart.UserCopy
