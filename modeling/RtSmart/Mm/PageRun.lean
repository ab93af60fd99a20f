import RtSmart.Lib.Transition
import RtSmart.Mm.PageBuddy

namespace RtSmart.PageAlloc

open Lib

variable {s s' : PageAlloc} {n p i j b k : ℕ} {others : ℕ → Option ℕ}

/-! ### Counting zeros -/

/-- The part of `rt_hw_clz` that counts the ones. -/
def clzCount (n : ℕ) : ℕ :=
  let n := (n &&& 0x5555555555555555) + (n >>> 1 &&& 0x5555555555555555)
  let n := (n &&& 0x3333333333333333) + (n >>> 2 &&& 0x3333333333333333)
  let n := (n &&& 0x0707070707070707) + (n >>> 4 &&& 0x0707070707070707)
  let n := (n &&& 0x000f000f000f000f) + (n >>> 8 &&& 0x000f000f000f000f)
  let n := (n &&& 0x0000001f0000001f) + (n >>> 16 &&& 0x0000001f0000001f)
  let n := (n &&& 0x000000000000003f) + (n >>> 32 &&& 0x000000000000003f)
  64 - n

theorem clzCount_mask : ∀ m < 64, clzCount (2 ^ (m + 1) - 1) = 63 - m := by
  decide +kernel

theorem rtHwClz_eq {m : ℕ} (hm : m ≠ 0) (hlt : m < 2 ^ 64) : rtHwClz m = 63 - m.log2 := by
  have h1 := (smeared_one m).step (e := 1) (by decide)
  have h2 := h1.step (e := 2) (by decide)
  have h4 := h2.step (e := 4) (by decide)
  have h8 := h4.step (e := 8) (by decide)
  have h16 := h8.step (e := 16) (by decide)
  have h32 := h16.step (e := 32) (by decide)
  have hmask := h32.eq_mask hm hlt
  have hlog : m.log2 < 64 := (Nat.log2_lt hm).mpr hlt
  show clzCount _ = _
  rw [hmask]
  exact clzCount_mask _ hlog

theorem rtHwCtz_eq {t m : ℕ} (hlt : 2 ^ t * (2 * m + 1) < 2 ^ 64) : rtHwCtz (2 ^ t * (2 * m + 1)) = t := by
  have hpos : 0 < 2 ^ t * (2 * m + 1) := by positivity
  have ht : t < 64 := by
    by_contra hge
    have := Nat.pow_le_pow_right (show 0 < 2 by decide) (not_lt.mp hge)
    have := Nat.le_mul_of_pos_right (2 ^ t) (show 0 < 2 * m + 1 by omega)
    omega
  have hmask : (2 ^ (t + 1) - 1).log2 = t := by
    have h1 := Nat.two_pow_pos t
    rw [Nat.log2_eq_iff (by rw [pow_succ]; omega)]
    constructor
    · rw [pow_succ]
      omega
    · have := Nat.two_pow_pos (t + 1)
      omega
  have hle : 2 ^ (t + 1) ≤ 2 ^ 64 := Nat.pow_le_pow_right (by decide) (by omega)
  have hmpos := Nat.two_pow_pos (t + 1)
  have hmne : 2 ^ (t + 1) - 1 ≠ 0 := by
    have := Nat.two_pow_pos t
    rw [pow_succ]
    omega
  unfold rtHwCtz
  rw [if_neg hpos.ne', xor_pred_eq_mask, rtHwClz_eq hmne (by omega), hmask]
  omega

theorem log2_two_pow_mul (j : ℕ) {m : ℕ} (hm : m ≠ 0) : (2 ^ j * m).log2 = m.log2 + j := by
  induction j with
  | zero => simp
  | succ j ih =>
    have hpos : 2 ^ j * m ≠ 0 := by positivity
    rw [pow_succ', Nat.mul_assoc, Nat.log2_two_mul hpos, ih, Nat.add_assoc]

/-! ### `rt_page_init` -/

theorem addOrder (h : Inv s n others) (hlt : n < s.pageNr) (htop : s.base + s.pageNr < 2 ^ 52) :
    ∃ k, 2 ^ k ∣ s.base + n ∧ n + 2 ^ k ≤ s.pageNr ∧
      (let sizeBits := archAddressWidthBits - 1 -
          rtHwClz (wsub 64 (archPageSize * (s.base + s.pageNr)) (archPageSize * (s.base + n)))
        let alignBits := rtHwCtz (archPageSize * (s.base + n))
        if alignBits < sizeBits then alignBits else sizeBits) = k + archPageShift := by
  have hpos := h.pos
  obtain ⟨t, m, hodd⟩ : ∃ t m, s.base + n = 2 ^ t * (2 * m + 1) := by
    obtain ⟨t, c, hc, heq⟩ := Nat.exists_eq_two_pow_mul_odd (show s.base + n ≠ 0 by omega)
    obtain ⟨m, rfl⟩ := hc
    exact ⟨t, m, heq⟩
  have hlog := Nat.log2_self_le (show s.pageNr - n ≠ 0 by omega)
  have hsize : archPageSize = 2 ^ 12 := rfl
  have hsub : wsub 64 (archPageSize * (s.base + s.pageNr)) (archPageSize * (s.base + n)) = 2 ^ 12 * (s.pageNr - n) := by
    rw [hsize, wsub_of_le (by omega) (by omega), ← Nat.mul_sub]
    congr 1
    omega
  have hclz : archAddressWidthBits - 1 - rtHwClz (2 ^ 12 * (s.pageNr - n)) = (s.pageNr - n).log2 + 12 := by
    have hl : (2 ^ 12 * (s.pageNr - n)).log2 = (s.pageNr - n).log2 + 12 := log2_two_pow_mul 12 (by omega)
    have hlt64 : (2 ^ 12 * (s.pageNr - n)).log2 < 64 := (Nat.log2_lt (by omega)).mpr (by omega)
    rw [rtHwClz_eq (by omega) (by omega), hl] at *
    show 64 - 1 - (63 - _) = _
    omega
  have hctz : rtHwCtz (archPageSize * (s.base + n)) = t + 12 := by
    have hsplit : archPageSize * (s.base + n) = 2 ^ (t + 12) * (2 * m + 1) := by
      rw [hodd, hsize, pow_add]
      ring
    rw [hsplit]
    apply rtHwCtz_eq
    rw [← hsplit, hsize]
    omega
  rw [hsub, hclz, hctz]
  dsimp only
  split
  · refine ⟨t, ⟨2 * m + 1, hodd⟩, ?_, rfl⟩
    have := Nat.pow_le_pow_right (show 0 < 2 by decide) (show t ≤ (s.pageNr - n).log2 by omega)
    omega
  · refine ⟨(s.pageNr - n).log2, ?_, by omega, rfl⟩
    exact (pow_dvd_pow 2 (by omega)).trans ⟨2 * m + 1, hodd⟩

theorem Inv.extend (h : Inv s n fun _ => none) (hk : n + 2 ^ k ≤ s.pageNr) (ha : 2 ^ k ∣ s.base + n) :
    Inv s (n + 2 ^ k) (Function.update (fun _ => none) n (some k)) := by
  have hpos := Nat.two_pow_pos k
  refine { h with le := hk, tiled := ?_, used := ?_ }
  · apply h.tiled.extend ha
    intro i j
    by_cases hi : i = n
    · subst hi
      simp [eq_comm]
    · simp [hi]
  · intro i j hi
    rw [Function.update_apply] at hi
    split at hi
    · rename_i heq
      subst heq
      rcases h.sizes i (by omega) with hlt | hsize
      · have := h.tiled.inside i _ (.inl ⟨by omega, rfl, hlt⟩)
        have := Nat.two_pow_pos (s.page i).sizeBits
        omega
      · exact hsize
    · cases hi

theorem Inv.addPages (m : ℕ) (h : Inv s n fun _ => none) (htop : s.base + s.pageNr < 2 ^ 52)
    (hadd : PageAlloc.addPages m s (archPageSize * (s.base + n)) (archPageSize * (s.base + s.pageNr)) = some s') :
    Inv s' s'.pageNr fun _ => none := by
  have hle := h.le
  have hsize : archPageSize = 2 ^ 12 := rfl
  have hend : archPageSize * (s.base + n) = archPageSize * (s.base + s.pageNr) → Inv s s.pageNr fun _ => none := by
    intro heq
    have : n = s.pageNr := by
      rw [hsize] at heq
      omega
    rwa [this] at h
  induction m generalizing s n with
  | zero =>
    rw [PageAlloc.addPages] at hadd
    split at hadd
    · cases hadd
      exact hend ‹_›
    · cases hadd
  | succ m ih =>
    rw [PageAlloc.addPages] at hadd
    split at hadd
    · cases hadd
      exact hend ‹_›
    rename_i hne
    have hlt : n < s.pageNr := by
      apply lt_of_le_of_ne hle
      rintro rfl
      exact hne rfl
    obtain ⟨k, hdvd, hk, horder⟩ := addOrder h hlt htop
    have hpage := addrToPage_page (i := n) h (show 0 < archPageSize by decide)
    rw [Nat.add_zero, if_pos hlt] at hpage
    dsimp only at hadd horder
    rw [horder, hpage] at hadd
    dsimp only at hadd
    have hin := h.extend hk hdvd
    have hown : Function.update (fun _ => none) n (some k) n = some k := Function.update_self ..
    have hbits := hin.used n k hown
    have hset : s.setPage n (fun g => { g with sizeBits := archAddressWidthBits, refCnt := 1 }) =
        s.setPage n fun g => { g with refCnt := 1 } := by
      unfold setPage
      congr 2
      rw [← hbits]
    obtain ⟨hone, -⟩ := hin.setRef n (f := fun g => { g with refCnt := 1 }) fun _ => ⟨rfl, rfl, rfl⟩
    have hcnt : ((s.setPage n fun g => { g with refCnt := 1 }).page n).refCnt = 1 := by
      rw [page_setPage, if_pos rfl]
    obtain ⟨s1, freed, hrun, hfreed, hinv, hbase, hnr, -⟩ := hone.pagesFree hown (by rw [hcnt]; decide)
    rw [hset, Nat.add_sub_cancel, hrun] at hadd
    dsimp only at hadd
    rw [if_pos (hfreed.mpr hcnt), Function.update_idem, Function.update_eq_self_iff.mpr rfl] at hinv
    have hbase : s1.base = s.base := hbase
    have hnr : s1.pageNr = s.pageNr := hnr
    have hnext : wadd 64 (archPageSize * (s.base + n)) (2 ^ (k + archPageShift)) = archPageSize * (s.base + (n + 2 ^ k)) := by
      have hpow : 2 ^ (k + archPageShift) = archPageSize * 2 ^ k := by rw [pow_add, Nat.mul_comm]; rfl
      rw [hpow, ← Nat.add_assoc, Nat.mul_add _ _ (2 ^ k)]
      apply wadd_of_lt
      rw [hsize]
      omega
    rw [hnext, ← hbase, ← hnr] at hadd
    apply ih hinv _ hadd (by rw [hnr]; exact hk)
    · intro heq
      have : n + 2 ^ k = s1.pageNr := by
        rw [hsize] at heq
        omega
      rwa [this] at hinv
    · rw [hbase, hnr]
      exact htop

theorem block_end {start bits : ℕ} (hne : start ≠ 0) (hlt : start < 2 ^ 64) (hbits : bits ≤ rtHwCtz start) :
    start + 2 ^ bits ≤ 2 ^ 64 := by
  obtain ⟨t, c, hodd⟩ : ∃ t c, start = 2 ^ t * (2 * c + 1) := by
    obtain ⟨t, c, hc, heq⟩ := Nat.exists_eq_two_pow_mul_odd hne
    obtain ⟨c, rfl⟩ := hc
    exact ⟨t, c, heq⟩
  have htz : rtHwCtz start = t := by
    rw [hodd]
    exact rtHwCtz_eq (hodd ▸ hlt)
  rw [htz] at hbits
  have hpow : 2 ^ t ≤ start := by
    rw [hodd]
    exact Nat.le_mul_of_pos_right _ (by omega)
  have ht : t < 64 := (Nat.pow_lt_pow_iff_right (show 1 < 2 by decide)).mp (hpow.trans_lt hlt)
  obtain ⟨x, hx⟩ : 2 ^ bits ∣ start := (pow_dvd_pow 2 hbits).trans ⟨2 * c + 1, hodd⟩
  obtain ⟨y, hy⟩ : 2 ^ bits ∣ 2 ^ 64 := pow_dvd_pow 2 (by omega)
  have hxy : x < y := by
    rw [hx, hy] at hlt
    exact Nat.lt_of_mul_lt_mul_left hlt
  calc start + 2 ^ bits = 2 ^ bits * (x + 1) := by rw [hx, Nat.mul_succ]
    _ ≤ 2 ^ bits * y := Nat.mul_le_mul_left _ hxy
    _ = 2 ^ 64 := hy.symm

theorem setUsed_addr (s : PageAlloc) (used : ℕ) : ({ s with usedPageNr := used } : PageAlloc).pageAddr = s.pageAddr := rfl

theorem pagesFree_addr {freed : Bool} (h : s.pagesFree p k = some (s', freed)) : s'.pageAddr = s.pageAddr := by
  unfold PageAlloc.pagesFree at h
  obtain ⟨m, hm⟩ : ∃ m, m = archPageListSize - k := ⟨_, rfl⟩
  rw [← hm] at h
  split at h
  · dsimp only at h
    split at h
    · cases h
      rfl
    · have hkept : Kept (s.setPage p fun g => { g with refCnt := g.refCnt - 1 })
          (PageAlloc.coalesce m (s.setPage p fun g => { g with refCnt := g.refCnt - 1 }) p k).1 := kept_coalesce m
      generalize PageAlloc.coalesce m _ p k = out at h hkept
      obtain ⟨s1, q, level⟩ := out
      have hs : s1.pageAddr = s.pageAddr := hkept.addr
      have hins : (s1.pageInsert q level).pageAddr = s1.pageAddr := kept_pageInsert.addr
      have hout := (Prod.mk.inj (Option.some.inj h)).1
      calc s'.pageAddr = _ := congrArg pageAddr hout.symm
        _ = (s1.pageInsert q level).pageAddr := setUsed_addr _ _
        _ = s.pageAddr := hins.trans hs
  · cases h

theorem addPages_wrap (m : ℕ) {start stop : ℕ} (hpos : 0 < s.pageAddr) (hle : s.pageAddr ≤ start) (h0 : 0 < stop)
    (hstop : stop < start) (hlt : start < 2 ^ 64) : PageAlloc.addPages m s start stop = none := by
  induction m generalizing s start with
  | zero => rw [PageAlloc.addPages, if_neg hstop.ne']
  | succ m ih =>
    rw [PageAlloc.addPages, if_neg hstop.ne']
    dsimp only
    generalize hbits : (if rtHwCtz start < archAddressWidthBits - 1 - rtHwClz (wsub 64 stop start) then rtHwCtz start
      else archAddressWidthBits - 1 - rtHwClz (wsub 64 stop start)) = bits
    have hctz : bits ≤ rtHwCtz start := by
      rw [← hbits]
      split
      · exact le_rfl
      · exact not_lt.mp ‹_›
    have hend := block_end (by omega) hlt hctz
    cases hp : s.addrToPage start with
    | none => rfl
    | some p =>
      dsimp only
      cases hfree : PageAlloc.pagesFree (s.setPage p fun g => { g with sizeBits := archAddressWidthBits, refCnt := 1 }) p
          (bits - archPageShift) with
      | none => rfl
      | some out =>
        obtain ⟨s1, freed⟩ := out
        have hkeep := pagesFree_addr hfree
        have haddr : s1.pageAddr = s.pageAddr := hkeep
        have hbpos := Nat.two_pow_pos bits
        dsimp only
        rcases hend.lt_or_eq with hlt' | heq
        · rw [wadd_of_lt hlt']
          exact ih (by omega) (by omega) (by omega) hlt'
        · have hzero : wadd 64 start (2 ^ bits) = 0 := by
            unfold wadd
            rw [heq, Nat.mod_self]
          rw [hzero]
          cases m with
          | zero => rw [PageAlloc.addPages, if_neg h0.ne]
          | succ m =>
            have hnull : s1.addrToPage 0 = none := by
              unfold addrToPage
              rw [if_pos (by omega)]
            rw [PageAlloc.addPages, if_neg h0.ne]
            dsimp only
            rw [hnull]

theorem addPages_addr (m : ℕ) {start stop : ℕ} (h : PageAlloc.addPages m s start stop = some s') :
    s'.pageAddr = s.pageAddr := by
  induction m generalizing s start with
  | zero =>
    rw [PageAlloc.addPages] at h
    split at h
    · cases h
      rfl
    · cases h
  | succ m ih =>
    rw [PageAlloc.addPages] at h
    split at h
    · cases h
      rfl
    dsimp only at h
    split at h
    · cases h
    · split at h
      · cases h
      · rename_i hfree
        have hkeep := pagesFree_addr hfree
        exact (ih h).trans hkeep

def blank (addr nr : ℕ) : PageAlloc :=
  { page := fun _ => ⟨none, none, archAddressWidthBits, 0⟩, pageList := fun _ => none, pageAddr := addr,
    pageNr := nr, usedPageNr := 0, usedPageNrPeak := 0 }

theorem blank_inv {a nr : ℕ} (hpos : 0 < a) (htop : a + nr ≤ 2 ^ 52) :
    Inv (blank (archPageSize * a) nr) 0 fun _ => none := by
  have hbase : archPageSize * a / archPageSize = a := Nat.mul_div_cancel_left a (by decide)
  have hfree : ∀ i k, ¬ (blank (archPageSize * a) nr).Free i k := by
    rintro i k ⟨-, hk, hlt⟩
    have hk : archAddressWidthBits = k := hk
    subst hk
    exact absurd hlt (by decide)
  constructor
  case addr => exact congrArg (archPageSize * ·) hbase.symm
  case top =>
    show archPageSize * a / archPageSize + nr ≤ 2 ^ 52
    rwa [hbase]
  case pos =>
    show 0 < archPageSize * a / archPageSize
    rwa [hbase]
  case le => exact Nat.zero_le _
  case lists =>
    intro k _
    exact ⟨[], rfl, List.nodup_nil, fun i => ⟨fun hi => (by cases hi), fun hi => absurd hi (hfree i k)⟩⟩
  case tiled =>
    apply (tiling_zero _).congr
    intro i k
    simp [hfree i k]
  case apart => exact fun i j k hi => absurd hi (hfree i k)
  case used =>
    intro i k hi
    cases hi
  case sizes => exact fun _ _ => .inr rfl

theorem exists_page_boundary (first : ℕ) (mnr : ℤ) :
    ∃ a, (((first * archPageSize : ℕ) + toInt (mnr * 2 ^ archPageShift)) % 2 ^ 64).toNat = archPageSize * a := by
  have hbmod : ∃ c : ℤ, toInt (mnr * 2 ^ archPageShift) = 2 ^ 12 * c := by
    unfold toInt archPageShift
    rw [Int.bmod_def]
    split
    · exact ⟨(mnr * 2 ^ 12 % ((2 ^ 32 : ℕ) : ℤ)) / 2 ^ 12, by omega⟩
    · exact ⟨(mnr * 2 ^ 12 % ((2 ^ 32 : ℕ) : ℤ) - ((2 ^ 32 : ℕ) : ℤ)) / 2 ^ 12, by omega⟩
  obtain ⟨c, hc⟩ := hbmod
  rw [hc, show archPageSize = 2 ^ 12 from rfl]
  exact ⟨((((first * 2 ^ 12 : ℕ) : ℤ) + 2 ^ 12 * c) % 2 ^ 64).toNat / 2 ^ 12, by omega⟩

theorem rtPageInit_inv {start stop : ℕ} (hle : start ≤ stop) (hstop : stop < 2 ^ 64)
    (h : rtPageInit start stop = some s) (haddr : s.pageAddr ≠ 0) : Inv s s.pageNr fun _ => none := by
  have hsize : archPageSize = 2 ^ 12 := rfl
  unfold rtPageInit at h
  dsimp only at h
  obtain ⟨first, hfirst⟩ : ∃ first, wadd 64 start archPageMask / archPageSize = first := ⟨_, rfl⟩
  obtain ⟨last, hlast⟩ : ∃ last, stop / archPageSize = last := ⟨_, rfl⟩
  rw [hfirst, hlast] at h
  generalize htotal : toInt (wsub 64 (last * archPageSize) (first * archPageSize) / archPageSize : ℕ) = total at h
  generalize hmnr : (total + ((archPageSize / sizeofPage : ℕ) : ℤ)).tdiv (((archPageSize / sizeofPage : ℕ) : ℤ) + 1) = mnr at h
  split at h
  · rename_i hlt
    have hlast52 : last < 2 ^ 52 := by
      rw [← hlast, hsize]
      omega
    have hfirst1 : first ≤ last + 1 := by
      rw [← hfirst, ← hlast, hsize]
      unfold wadd archPageMask
      rw [hsize]
      omega
    -- The first page lies on a page boundary, also where the size of the descriptors overflows.
    obtain ⟨a, ha⟩ : ∃ a, (((first * archPageSize : ℕ) + toInt (mnr * 2 ^ archPageShift)) % 2 ^ 64).toNat = archPageSize * a :=
      exists_page_boundary first mnr
    rw [ha] at h
    obtain ⟨s1, hadd, rfl⟩ := Option.map_eq_some_iff.mp h
    have haddr1 : s1.pageAddr = archPageSize * a := addPages_addr _ hadd
    have hapos : 0 < a := by
      apply Nat.pos_of_ne_zero
      rintro rfl
      exact haddr haddr1
    have halt : archPageSize * a < 2 ^ 64 := by
      rw [← ha]
      omega
    by_cases hin : archPageSize * a ≤ last * archPageSize
    · have hnr : wsub 64 (last * archPageSize) (archPageSize * a) / archPageSize = last - a := by
        rw [wsub_of_le hin (by rw [hsize]; omega), hsize]
        omega
      rw [hnr] at hadd
      have hle : a ≤ last := by
        rw [hsize] at hin
        omega
      have hzero : Inv (blank (archPageSize * a) (last - a)) 0 fun _ => none := blank_inv hapos (by omega)
      have hbase : (blank (archPageSize * a) (last - a)).base = a := Nat.mul_div_cancel_left a (by decide)
      have hnr : (blank (archPageSize * a) (last - a)).pageNr = last - a := rfl
      have hinv : Inv s1 s1.pageNr fun _ => none := by
        apply hzero.addPages (last - a)
        · rw [hbase, hnr]
          omega
        · rw [hbase, hnr, Nat.add_zero, Nat.add_sub_cancel' hle, Nat.mul_comm archPageSize last]
          exact hadd
      exact ⟨hinv.addr, hinv.top, hinv.pos, hinv.le, hinv.lists, hinv.tiled, hinv.apart, hinv.used, hinv.sizes⟩
    · have hlast0 : 0 < last := by
        apply Nat.pos_of_ne_zero
        rintro rfl
        have hnone : first = 0 ∨ first = 1 := by omega
        rcases hnone with rfl | rfl
        · rw [show toInt (wsub 64 (0 * archPageSize) (0 * archPageSize) / archPageSize : ℕ) = 0 by
            unfold wsub; decide +kernel] at htotal
          subst htotal
          rw [← hmnr] at hlt
          exact absurd hlt (by decide)
        · rw [show toInt (wsub 64 (0 * archPageSize) (1 * archPageSize) / archPageSize : ℕ) = -1 by
            unfold wsub; decide +kernel] at htotal
          subst htotal
          rw [← hmnr] at hlt
          exact absurd hlt (by decide)
      generalize hnr : wsub 64 (last * archPageSize) (archPageSize * a) / archPageSize = nr at hadd
      have hwrap := addPages_wrap (s := blank (archPageSize * a) nr) nr (Nat.mul_pos (by decide) hapos) le_rfl
        (Nat.mul_pos hlast0 (by decide)) (not_le.mp hin) halt
      exact absurd (hadd.symm.trans hwrap) (by simp)
  · cases h

end RtSmart.PageAlloc
