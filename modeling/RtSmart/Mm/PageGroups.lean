import RtSmart.Mm.PageRun

namespace RtSmart

open Lib PageAlloc

/-- The allocator beside the groups it has given away and not taken back, and the references to them. -/
structure PageSys where
  alloc : PageAlloc
  groups : ℕ → Option ℕ
  refs : ℕ → ℕ

inductive PageEvent
  | alloc (bits : ℕ)
  | free (p : ℕ)
  -- a reference to the group at page `p`, by an address `off` bytes behind its start
  | refInc (p off : ℕ)

namespace PageSys

def init (a : PageAlloc) : PageSys :=
  { alloc := a, groups := fun _ => none, refs := fun _ => 0 }

def step (s : PageSys) : PageEvent → Option PageSys
  | .alloc bits =>
    if bits < archPageListSize then
      match s.alloc.rtPagesAlloc bits with
      | none => none
      | some (a, addr) =>
        match a.addrToPage addr with
        | none => some { s with alloc := a }
        | some p => some
          { alloc := a, groups := Function.update s.groups p (some bits), refs := Function.update s.refs p 1 }
    else none
  | .free p =>
    match s.groups p with
    | none => none
    | some bits =>
      match s.alloc.rtPagesFree (s.alloc.pageToAddr (some p)) bits with
      | none => none
      | some (a, freed) => some
        { alloc := a
          groups := if freed then Function.update s.groups p none else s.groups
          refs := Function.update s.refs p (s.refs p - 1) }
  | .refInc p off =>
    match s.groups p with
    | none => none
    | some bits =>
      if off < archPageSize * 2 ^ bits then
        match s.alloc.rtPageRefInc (s.alloc.pageToAddr (some p) + off) bits with
        | none => none
        | some a => some { s with alloc := a, refs := Function.update s.refs p (s.refs p + 1) }
      else none

end PageSys

namespace PageAlloc

/-- The first pages of the blocks on a free list. -/
def freeBlocks (s : PageAlloc) (k : ℕ) : List ℕ :=
  walk s.next s.pageNr (s.pageList k)

variable {s s' : PageAlloc} {n p i b k x : ℕ} {others : ℕ → Option ℕ}

theorem Inv.freeBlocks (h : Inv s n others) (hk : k < archPageListSize) :
    Linked s.next s.pre none (s.pageList k) (s.freeBlocks k) ∧ (s.freeBlocks k).Nodup ∧
      ∀ i, i ∈ s.freeBlocks k ↔ s.Free i k := by
  obtain ⟨l, hl, hnd, hmem⟩ := h.lists k hk
  have hlen : l.length ≤ s.pageNr := by
    have hsub : l ⊆ List.range s.pageNr := by
      intro i hi
      exact List.mem_range.mpr ((hmem i).mp hi).1
    have := (hnd.subperm hsub).length_le
    rwa [List.length_range] at this
  have hwalk : s.freeBlocks k = l := hl.chain.walk_of_le hlen
  rw [hwalk]
  exact ⟨hl, hnd, hmem⟩

theorem Inv.page_lt (h : Inv s n others) (ho : others p = some b) (hx : InBlock p b x) : x < s.pageNr := by
  have := h.tiled.inside p b (.inr ho)
  have := h.le
  have := hx.2
  omega

theorem Inv.addr_in_group (h : Inv s n others) (ho : others p = some b) {off : ℕ} (hoff : off < archPageSize * 2 ^ b) :
    s.addrToPage (s.pageToAddr (some p) + off) = some (p + off / archPageSize) ∧
      InBlock p b (p + off / archPageSize) := by
  have hdiv : off / archPageSize < 2 ^ b := Nat.div_lt_of_lt_mul hoff
  have hin : InBlock p b (p + off / archPageSize) := ⟨Nat.le_add_right _ _, Nat.add_lt_add_left hdiv p⟩
  have hpage := addrToPage_page (i := p + off / archPageSize) h (Nat.mod_lt off (show 0 < archPageSize by decide))
  rw [if_pos (h.page_lt ho hin)] at hpage
  refine ⟨?_, hin⟩
  have hsum : archPageSize * (s.base + p) + off =
      archPageSize * (s.base + (p + off / archPageSize)) + off % archPageSize := by
    conv_lhs => rw [← Nat.div_add_mod off archPageSize]
    ring
  rw [pageToAddr_page h, hsum]
  exact hpage

theorem toInt_eq {r : ℤ} (h0 : 0 ≤ r) (h : r < 2 ^ 31) : toInt r = r := by
  unfold toInt
  rw [Int.bmod_def]
  split <;> omega

theorem toInt_neg {r : ℤ} (h0 : 2 ^ 31 ≤ r) (h : r < 2 ^ 32) : toInt r < 0 := by
  unfold toInt
  rw [Int.bmod_def]
  split <;> omega

theorem toInt_succ_ne (r : ℤ) : toInt (r + 1) ≠ r := by
  unfold toInt
  rw [Int.bmod_def]
  split <;> omega

theorem toInt_lt (r : ℤ) : toInt r < 2 ^ 31 := by
  unfold toInt
  rw [Int.bmod_def]
  split <;> omega

theorem div_of_inBlock (hx : InBlock p b x) (ha : 2 ^ b ∣ p) : x / 2 ^ b * 2 ^ b = p := by
  obtain ⟨hle, hlt⟩ := hx
  obtain ⟨c, hc⟩ := ha
  have hdiv : x / 2 ^ b = c := by
    apply Nat.div_eq_of_lt_le
    · rwa [Nat.mul_comm, ← hc]
    · rwa [Nat.succ_mul, Nat.mul_comm, ← hc]
  rw [hdiv, hc, Nat.mul_comm]

theorem pagesHead_eq (hx : InBlock p b x) (hlt : x < s.pageNr) (ha : 2 ^ b ∣ p) (hint : p + 2 ^ b ≤ 2 ^ 31) :
    s.pagesHead x b = some p := by
  have hx2 := hx.2
  have hidx : toInt x = x := by
    apply toInt_eq
    · exact Int.natCast_nonneg x
    · omega
  have hrange : ¬ ((x : ℤ) < 0 ∨ (s.pageNr : ℤ) ≤ x) := by omega
  unfold pagesHead
  dsimp only
  rw [hidx, if_neg hrange, Int.toNat_natCast, div_of_inBlock hx ha]

theorem pagesHead_ne (hbad : ¬ (2 ^ b ∣ p ∧ p + 2 ^ b ≤ 2 ^ 31)) : ∃ x, InBlock p b x ∧ s.pagesHead x b ≠ some p := by
  have hpos := Nat.two_pow_pos b
  by_cases ha : 2 ^ b ∣ p
  · have hlarge : 2 ^ 31 < p + 2 ^ b := by
      by_contra hle
      exact hbad ⟨ha, by omega⟩
    refine ⟨max p (2 ^ 31), ⟨le_max_left .., by omega⟩, ?_⟩
    intro hhead
    unfold pagesHead at hhead
    dsimp only at hhead
    split at hhead
    · cases hhead
    · rename_i hidx
      have hp := Option.some.inj hhead
      rcases le_total p (2 ^ 31) with hple | hple
      · -- The first index that does not fit becomes negative.
        rw [max_eq_right hple] at hidx
        exact hidx (.inl (toInt_neg (by omega) (by omega)))
      · rw [max_eq_left hple] at hp
        have hlt := toInt_lt p
        have hle := Nat.div_mul_le_self (toInt p).toNat (2 ^ b)
        omega
  · refine ⟨p, ⟨le_rfl, by omega⟩, ?_⟩
    intro hhead
    unfold pagesHead at hhead
    dsimp only at hhead
    split at hhead
    · cases hhead
    · exact ha (Dvd.intro_left _ (Option.some.inj hhead))

/-- The reference calls with the addresses in the group `p` use the counter of its first page. -/
def HitsGroup (s : PageAlloc) (p b : ℕ) : Prop :=
  ∀ off < archPageSize * 2 ^ b,
    s.rtPageRefInc (s.pageToAddr (some p) + off) b =
      some (s.setPage p fun g => { g with refCnt := toInt (g.refCnt + 1) }) ∧
    s.rtPageRefGet (s.pageToAddr (some p) + off) b = some (s.page p).refCnt

theorem Inv.ref_of_inBlock (h : Inv s n others) (ho : others p = some b) (hx : InBlock p b x) :
    archPageSize * (x - p) < archPageSize * 2 ^ b ∧
      s.rtPageRefInc (s.pageToAddr (some p) + archPageSize * (x - p)) b = some (s.pagesRefInc x b) := by
  obtain ⟨hle, hlt⟩ := hx
  have hoff : archPageSize * (x - p) < archPageSize * 2 ^ b := Nat.mul_lt_mul_of_pos_left (by omega) (by decide)
  refine ⟨hoff, ?_⟩
  unfold rtPageRefInc
  rw [(h.addr_in_group ho hoff).1, Nat.mul_div_cancel_left _ (show 0 < archPageSize by decide),
    Nat.add_sub_cancel' hle]
  rfl

theorem Inv.hitsGroup (h : Inv s n others) (ho : others p = some b) :
    HitsGroup s p b ↔ 2 ^ b ∣ s.base ∧ p + 2 ^ b ≤ 2 ^ 31 := by
  have haligned := h.tiled.aligned p b (.inr ho)
  have hdvd : 2 ^ b ∣ s.base ↔ 2 ^ b ∣ p :=
    ⟨fun hb => (Nat.dvd_add_right hb).mp haligned, fun hp => (Nat.dvd_add_left hp).mp haligned⟩
  rw [hdvd]
  constructor
  · intro hhits
    by_contra hbad
    obtain ⟨x, hx, hne⟩ := pagesHead_ne (s := s) hbad
    obtain ⟨hoff, hinc⟩ := h.ref_of_inBlock ho hx
    have hsame := Option.some.inj (hinc.symm.trans (hhits _ hoff).1)
    -- The counter of the first page has stayed as it was.
    have hcnt := congrArg (fun s => (s.page p).refCnt) hsame
    rw [page_setPage, if_pos rfl] at hcnt
    apply toInt_succ_ne (s.page p).refCnt
    apply hcnt.symm.trans
    cases hhead : s.pagesHead x b with
    | none => rw [pagesRefInc_none hhead]
    | some q =>
      have hqp : p ≠ q := by
        rintro rfl
        exact hne hhead
      rw [pagesRefInc_some hhead, page_setPage, if_neg hqp]
  · rintro ⟨hp, hint⟩ off hoff
    obtain ⟨hpage, hin⟩ := h.addr_in_group ho hoff
    have hhead := pagesHead_eq hin (h.page_lt ho hin) hp hint
    unfold rtPageRefInc rtPageRefGet
    rw [hpage, Option.map_some, Option.map_some, pagesRefInc_some hhead, pagesRefGet_some hhead]
    exact ⟨rfl, rfl⟩

theorem Inv.rtPagesAlloc (h : Inv s n others) (hb : b < archPageListSize) :
    (s.rtPagesAlloc b = some (s, 0) ∧ ∀ i k, b ≤ k → ¬ s.Free i k) ∨
      ∃ s' p, s.rtPagesAlloc b = some (s', s'.pageToAddr (some p)) ∧ Inv s' n (Function.update others p (some b)) ∧
        s'.addrToPage (s'.pageToAddr (some p)) = some p ∧ s'.pageToAddr (some p) ≠ 0 ∧
        others p = none ∧ s'.base = s.base ∧ s'.pageNr = s.pageNr ∧ (s'.page p).refCnt = 1 ∧
        ∀ i ≠ p, (s'.page i).refCnt = (s.page i).refCnt := by
  unfold PageAlloc.rtPagesAlloc
  rcases h.pagesAlloc hb with ⟨hnone, hno⟩ | ⟨s', p, halloc, h', ho, hbase, hnr, hr, hkeep⟩
  · rw [hnone]
    exact .inl ⟨rfl, hno⟩
  · rw [halloc]
    right
    have hzero : 0 < archPageSize * 2 ^ b := Nat.mul_pos (by decide) (Nat.two_pow_pos b)
    have hpage := (h'.addr_in_group (p := p) (Function.update_self ..) hzero).1
    refine ⟨s', p, rfl, h', by simpa using hpage, ?_, ho, hbase, hnr, hr, hkeep⟩
    rw [pageToAddr_page h']
    have hpos := h'.pos
    exact (Nat.mul_pos (show 0 < archPageSize by decide) (by omega)).ne'

theorem Inv.rtPagesFree (h : Inv s n others) (ho : others p = some b) :
    s.rtPagesFree (s.pageToAddr (some p)) b = s.pagesFree p b := by
  have hzero : 0 < archPageSize * 2 ^ b := Nat.mul_pos (by decide) (Nat.two_pow_pos b)
  have hpage := (h.addr_in_group ho hzero).1
  have hsame : s.addrToPage (s.pageToAddr (some p)) = some p := by simpa using hpage
  unfold PageAlloc.rtPagesFree
  rw [hsame]

theorem refCnt_pos_of_pagesFree {out : PageAlloc × Bool} (h : s.pagesFree p b = some out) : 0 < (s.page p).refCnt := by
  unfold PageAlloc.pagesFree at h
  split at h
  · next hr => exact hr.1
  · cases h

theorem Inv.pagesRefInc (h : Inv s n others) : Inv (s.pagesRefInc x b) n others ∧
    (s.pagesRefInc x b).base = s.base ∧ (s.pagesRefInc x b).pageNr = s.pageNr := by
  cases hhead : s.pagesHead x b with
  | none =>
    rw [pagesRefInc_none hhead]
    exact ⟨h, rfl, rfl⟩
  | some q =>
    rw [pagesRefInc_some hhead]
    exact ⟨(h.setRef q (f := fun g => { g with refCnt := toInt (g.refCnt + 1) }) fun _ => ⟨rfl, rfl, rfl⟩).1, rfl, rfl⟩

theorem Inv.addrToPage_zero (h : Inv s n others) : s.addrToPage 0 = none := by
  have hpos := Nat.mul_pos (show 0 < archPageSize by decide) h.pos
  unfold addrToPage
  rw [h.addr, if_pos hpos]

end PageAlloc

namespace PageSys

variable {s s' : PageSys} {e : PageEvent} {n p b off : ℕ}

/-! What an event did, when it did not fail. -/

theorem step_alloc (h : Inv s.alloc n s.groups) (hs : s.step (.alloc b) = some s') :
    (s' = s ∧ ∀ i k, b ≤ k → ¬ s.alloc.Free i k) ∨
      ∃ a p, s' = { alloc := a, groups := Function.update s.groups p (some b), refs := Function.update s.refs p 1 } ∧
        Inv a n (Function.update s.groups p (some b)) ∧ s.groups p = none ∧ a.base = s.alloc.base ∧
        a.pageNr = s.alloc.pageNr ∧ (a.page p).refCnt = 1 ∧
        ∀ i ≠ p, (a.page i).refCnt = (s.alloc.page i).refCnt := by
  unfold step at hs
  dsimp only at hs
  split at hs
  · rename_i hb
    rcases h.rtPagesAlloc hb with ⟨hnone, hno⟩ | ⟨a, p, halloc, h', hpage, hne, ho, hbase, hnr, hr, hkeep⟩
    · rw [hnone] at hs
      dsimp only at hs
      rw [h.addrToPage_zero] at hs
      exact .inl ⟨(Option.some.inj hs).symm, hno⟩
    · rw [halloc] at hs
      dsimp only at hs
      rw [hpage] at hs
      exact .inr ⟨a, p, (Option.some.inj hs).symm, h', ho, hbase, hnr, hr, hkeep⟩
  · cases hs

theorem step_free (h : Inv s.alloc n s.groups) (hs : s.step (.free p) = some s') :
    ∃ b a freed, s.groups p = some b ∧ 0 < (s.alloc.page p).refCnt ∧
      s' = { alloc := a
             groups := if freed then Function.update s.groups p none else s.groups
             refs := Function.update s.refs p (s.refs p - 1) } ∧
      (freed = true ↔ (s.alloc.page p).refCnt = 1) ∧ Inv a n (if freed then Function.update s.groups p none else s.groups) ∧
      a.base = s.alloc.base ∧ a.pageNr = s.alloc.pageNr ∧ (a.page p).refCnt = (s.alloc.page p).refCnt - 1 ∧
      ∀ i ≠ p, (a.page i).refCnt = (s.alloc.page i).refCnt := by
  unfold step at hs
  dsimp only at hs
  cases hg : s.groups p with
  | none =>
    rw [hg] at hs
    cases hs
  | some b =>
    rw [hg] at hs
    dsimp only at hs
    rw [h.rtPagesFree hg] at hs
    cases hfree : s.alloc.pagesFree p b with
    | none =>
      rw [hfree] at hs
      cases hs
    | some out =>
      have hr := refCnt_pos_of_pagesFree hfree
      obtain ⟨a, freed, hfree', hiff, h', hbase, hnr, hcnt, hkeep⟩ := h.pagesFree hg hr
      rw [hfree'] at hs
      exact ⟨b, a, freed, rfl, hr, (Option.some.inj hs).symm, hiff, h', hbase, hnr, hcnt, hkeep⟩

theorem step_refInc (h : Inv s.alloc n s.groups) (hs : s.step (.refInc p off) = some s') :
    ∃ b, s.groups p = some b ∧ off < archPageSize * 2 ^ b ∧
      s' = { s with
        alloc := s.alloc.pagesRefInc (p + off / archPageSize) b
        refs := Function.update s.refs p (s.refs p + 1) } := by
  unfold step at hs
  dsimp only at hs
  cases hg : s.groups p with
  | none =>
    rw [hg] at hs
    cases hs
  | some b =>
    rw [hg] at hs
    dsimp only at hs
    by_cases hoff : off < archPageSize * 2 ^ b
    · rw [if_pos hoff] at hs
      unfold rtPageRefInc at hs
      rw [(h.addr_in_group hg hoff).1, Option.map_some] at hs
      exact ⟨b, rfl, hoff, (Option.some.inj hs).symm⟩
    · rw [if_neg hoff] at hs
      cases hs

def Tiled (base nr : ℕ) (s : PageSys) : Prop := Inv s.alloc nr s.groups ∧ s.alloc.base = base ∧ s.alloc.pageNr = nr

theorem Tiled.step {base nr : ℕ} (h : Tiled base nr s) (hs : s.step e = some s') : Tiled base nr s' := by
  obtain ⟨hinv, hbase, hnr⟩ := h
  cases e with
  | alloc b =>
    rcases step_alloc hinv hs with ⟨rfl, -⟩ | ⟨a, p, rfl, h', -, hbase', hnr', -⟩
    · exact ⟨hinv, hbase, hnr⟩
    · exact ⟨h', hbase'.trans hbase, hnr'.trans hnr⟩
  | free p =>
    obtain ⟨b, a, freed, -, -, rfl, -, h', hbase', hnr', -⟩ := step_free hinv hs
    exact ⟨h', hbase'.trans hbase, hnr'.trans hnr⟩
  | refInc p off =>
    obtain ⟨b, -, -, rfl⟩ := step_refInc hinv hs
    obtain ⟨h', hbase', hnr'⟩ := hinv.pagesRefInc (x := p + off / archPageSize) (b := b)
    generalize s.alloc.pagesRefInc (p + off / archPageSize) b = a at h' hbase' hnr' ⊢
    exact ⟨h', hbase'.trans hbase, hnr'.trans hnr⟩

theorem Tiled.run {base nr : ℕ} {events : List PageEvent} (h : Tiled base nr s)
    (hr : Lib.run PageSys.step s events = some s') : Tiled base nr s' :=
  run_invariant (Tiled base nr) (fun _ _ _ => Tiled.step) hr h

theorem tiled_init {start stop : ℕ} {a : PageAlloc} (hle : start ≤ stop) (hstop : stop < 2 ^ 64)
    (h : rtPageInit start stop = some a) (haddr : a.pageAddr ≠ 0) : Tiled a.base a.pageNr (init a) :=
  ⟨rtPageInit_inv hle hstop h haddr, rfl, rfl⟩

end PageSys

end RtSmart
