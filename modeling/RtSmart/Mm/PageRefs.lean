import RtSmart.Mm.PageGroups

/-!
The references to the page groups. They are counted in the first page of a group, which the
reference calls look for by an index from the start of the region.
-/

namespace RtSmart

open Lib PageAlloc

namespace PageAlloc

variable {s s' : PageAlloc} {n p b k : ℕ} {others : ℕ → Option ℕ}

/-- `k` times the group is freed in vain, then it is given back. -/
def SurvivesFrees (s : PageAlloc) (p b : ℕ) : ℕ → Prop
  | 0 => ∃ s', s.rtPagesFree (s.pageToAddr (some p)) b = some (s', true)
  | k + 1 => ∃ s', s.rtPagesFree (s.pageToAddr (some p)) b = some (s', false) ∧ SurvivesFrees s' p b k

theorem Inv.survivesFrees (h : Inv s n others) (ho : others p = some b) (hr : (s.page p).refCnt = k + 1) :
    SurvivesFrees s p b k := by
  induction k generalizing s with
  | zero =>
    obtain ⟨s', freed, hfree, hiff, -⟩ := h.pagesFree ho (by omega)
    have hone : (s.page p).refCnt = 1 := by simpa using hr
    rw [hiff.mpr hone] at hfree
    exact ⟨s', (h.rtPagesFree ho).trans hfree⟩
  | succ k ih =>
    obtain ⟨s', freed, hfree, hiff, h', -, -, hcnt, -⟩ := h.pagesFree ho (by omega)
    have hmore : (s.page p).refCnt ≠ 1 := by omega
    obtain rfl : freed = false := by
      rw [← Bool.not_eq_true]
      exact fun ht => hmore (hiff.mp ht)
    refine ⟨s', (h.rtPagesFree ho).trans hfree, ?_⟩
    apply ih h'
    rw [hcnt, hr]
    push_cast
    ring

theorem countList_eq {l : List ℕ} {q : Option ℕ} (h : Chain s.next q l) {fuel : ℕ} (hf : l.length ≤ fuel) (total : ℕ) :
    s.countList k fuel q total = some (total + l.length * 2 ^ k) := by
  induction l generalizing q fuel total with
  | nil =>
    rw [show q = none from h, List.length_nil, Nat.zero_mul, Nat.add_zero]
    cases fuel <;> rfl
  | cons a l ih =>
    obtain ⟨rfl, hl⟩ := h
    cases fuel with
    | zero => exact absurd hf (by simp)
    | succ fuel =>
      rw [countList]
      have hrest := ih hl (Nat.le_of_succ_le_succ hf) (total + 2 ^ k)
      rw [List.length_cons, Nat.succ_mul, Nat.add_comm (l.length * 2 ^ k), ← Nat.add_assoc]
      exact hrest

theorem foldlM_count {f : ℕ → ℕ} {g : ℕ → ℕ → Option ℕ} (l : List ℕ) (hg : ∀ i ∈ l, ∀ total, g total i = some (total + f i))
    (total : ℕ) : l.foldlM g total = some (total + (l.map f).sum) := by
  induction l generalizing total with
  | nil => rfl
  | cons a l ih =>
    have hrest := ih (fun i hi => hg i (List.mem_cons_of_mem a hi)) (total + f a)
    rw [List.foldlM_cons, hg a List.mem_cons_self, List.map_cons, List.sum_cons, ← Nat.add_assoc]
    exact hrest

theorem Inv.length_freeBlocks (h : Inv s n others) (hk : k < archPageListSize) : (s.freeBlocks k).length ≤ s.pageNr := by
  obtain ⟨-, hnd, hmem⟩ := h.freeBlocks hk
  have hsub : s.freeBlocks k ⊆ List.range s.pageNr := by
    intro i hi
    exact List.mem_range.mpr ((hmem i).mp hi).1
  have hlen := (hnd.subperm hsub).length_le
  rwa [List.length_range] at hlen

theorem Inv.rtPageGetInfo (h : Inv s n others) :
    s.rtPageGetInfo =
      some (s.pageNr, ((List.range archPageListSize).map fun k => (s.freeBlocks k).length * 2 ^ k).sum) := by
  have htop := h.top
  unfold PageAlloc.rtPageGetInfo
  rw [foldlM_count (f := fun k => (s.freeBlocks k).length * 2 ^ k), Nat.zero_add, Option.map_some]
  intro k hk total
  have hk' := List.mem_range.mp hk
  have hlen := h.length_freeBlocks hk'
  apply countList_eq (h.freeBlocks hk').1.chain
  have : (2 : ℕ) ^ 52 ≤ 2 ^ 64 := by decide
  omega

end PageAlloc

/-- The references to the groups are those that the allocator has counted. -/
def PageSys.Counted (s : PageSys) : Prop :=
  ∀ p, match s.groups p with
    | none => s.refs p = 0
    | some _ => (s.alloc.page p).refCnt = s.refs p ∧ 0 < s.refs p

/-- A reference is taken to a group that is aligned within the region; the index and the count fit an `int`. -/
def PageEvent.Hits (s : PageSys) : PageEvent → Prop
  | .refInc p _ => ∀ b, s.groups p = some b → 2 ^ b ∣ s.alloc.base ∧ p + 2 ^ b ≤ 2 ^ 31 ∧ s.refs p + 1 < 2 ^ 31
  | _ => True

instance (s : PageSys) (e : PageEvent) : Decidable (e.Hits s) :=
  match e with
  | .refInc p _ => inferInstanceAs
      (Decidable (∀ b ∈ s.groups p, 2 ^ b ∣ s.alloc.base ∧ p + 2 ^ b ≤ 2 ^ 31 ∧ s.refs p + 1 < 2 ^ 31))
  | .alloc _ => .isTrue trivial
  | .free _ => .isTrue trivial

/-- A call that follows the rules: the group is in use, and an address given for it lies in it. -/
def PageEvent.Legal (s : PageSys) : PageEvent → Prop
  | .alloc bits => bits < archPageListSize
  | .free p => s.groups p ≠ none
  | .refInc p off => ∃ b, s.groups p = some b ∧ off < archPageSize * 2 ^ b

instance (s : PageSys) (e : PageEvent) : Decidable (e.Legal s) :=
  match e with
  | .alloc bits => inferInstanceAs (Decidable (bits < archPageListSize))
  | .free p => inferInstanceAs (Decidable (s.groups p ≠ none))
  | .refInc p off => inferInstanceAs (Decidable (∃ b ∈ s.groups p, off < archPageSize * 2 ^ b))

namespace PageSys

variable {s s' : PageSys} {e : PageEvent} {n : ℕ}

theorem Counted.alloc (hc : Counted s) {a : PageAlloc} {p b : ℕ} (hr : (a.page p).refCnt = 1)
    (hkeep : ∀ i ≠ p, (a.page i).refCnt = (s.alloc.page i).refCnt) :
    Counted { alloc := a, groups := Function.update s.groups p (some b), refs := Function.update s.refs p 1 } := by
  intro q
  have hq := hc q
  dsimp only
  by_cases hqp : q = p
  · subst hqp
    rw [Function.update_self, Function.update_self, hr]
    exact ⟨rfl, Nat.one_pos⟩
  · rw [Function.update_of_ne hqp, Function.update_of_ne hqp, hkeep q hqp]
    exact hq

theorem Counted.free (hc : Counted s) {a : PageAlloc} {p b : ℕ} {freed : Bool} (hg : s.groups p = some b)
    (hiff : freed = true ↔ (s.alloc.page p).refCnt = 1) (hcnt : (a.page p).refCnt = (s.alloc.page p).refCnt - 1)
    (hkeep : ∀ i ≠ p, (a.page i).refCnt = (s.alloc.page i).refCnt) :
    Counted { alloc := a
              groups := if freed then Function.update s.groups p none else s.groups
              refs := Function.update s.refs p (s.refs p - 1) } := by
  intro q
  have hq := hc q
  dsimp only
  by_cases hqp : q = p
  · subst hqp
    rw [hg] at hq
    dsimp only at hq
    rw [Function.update_self, hcnt]
    cases freed with
    | true =>
      have hone := hiff.mp rfl
      rw [if_pos rfl, Function.update_self]
      dsimp only
      omega
    | false =>
      have hmore : (s.alloc.page q).refCnt ≠ 1 := fun hone => Bool.false_ne_true (hiff.mpr hone)
      rw [if_neg Bool.false_ne_true, hg]
      dsimp only
      omega
  · have hgroups : (if freed = true then Function.update s.groups p none else s.groups) q = s.groups q := by
      split
      · exact Function.update_of_ne hqp ..
      · rfl
    rw [hgroups, Function.update_of_ne hqp, hkeep q hqp]
    exact hq

theorem Counted.refInc (hc : Counted s) {a : PageAlloc} {p b : ℕ} (hg : s.groups p = some b)
    (hfit : s.refs p + 1 < 2 ^ 31)
    (hcnt : ∀ i, (a.page i).refCnt = if i = p then toInt ((s.alloc.page i).refCnt + 1) else (s.alloc.page i).refCnt) :
    Counted { s with alloc := a, refs := Function.update s.refs p (s.refs p + 1) } := by
  intro q
  have hq := hc q
  dsimp only
  rw [hcnt]
  by_cases hqp : q = p
  · subst hqp
    rw [hg] at hq ⊢
    dsimp only at hq ⊢
    rw [if_pos rfl, Function.update_self, hq.1, toInt_eq (by omega) (by omega)]
    exact ⟨(Nat.cast_succ _).symm, Nat.succ_pos _⟩
  · rw [if_neg hqp, Function.update_of_ne hqp]
    exact hq

theorem refCnt_pagesRefInc {a : PageAlloc} {x p b : ℕ} (hhead : a.pagesHead x b = some p) (i : ℕ) :
    ((a.pagesRefInc x b).page i).refCnt = if i = p then toInt ((a.page i).refCnt + 1) else (a.page i).refCnt := by
  rw [pagesRefInc_some hhead, page_setPage]
  split <;> rfl

theorem Counted.step (hc : Counted s) (h : Inv s.alloc n s.groups) (hok : e.Hits s) (hs : s.step e = some s') :
    Counted s' := by
  cases e with
  | alloc b =>
    rcases step_alloc h hs with ⟨rfl, -⟩ | ⟨a, p, rfl, -, -, -, -, hr, hkeep⟩
    · exact hc
    · exact hc.alloc hr hkeep
  | free p =>
    obtain ⟨b, a, freed, hg, -, rfl, hiff, -, -, -, hcnt, hkeep⟩ := step_free h hs
    exact hc.free hg hiff hcnt hkeep
  | refInc p off =>
    obtain ⟨b, hg, hoff, rfl⟩ := step_refInc h hs
    obtain ⟨ha, hint, hfit⟩ := hok b hg
    obtain ⟨hpage, hin⟩ := h.addr_in_group hg hoff
    have haligned := h.tiled.aligned p b (.inr hg)
    have hhead := pagesHead_eq hin (h.page_lt hg hin) ((Nat.dvd_add_right ha).mp haligned) hint
    exact hc.refInc hg hfit (refCnt_pagesRefInc hhead)

theorem counted_init (a : PageAlloc) : Counted (init a) := fun _ => rfl

theorem counted_run {start stop : ℕ} {a : PageAlloc} {events : List PageEvent} (hle : start ≤ stop) (hstop : stop < 2 ^ 64)
    (hinit : rtPageInit start stop = some a) (haddr : a.pageAddr ≠ 0) (hrun : run PageSys.step (init a) events = some s)
    (hmeets : Meets PageSys.step (fun s e => e.Hits s) (init a) events) : Counted s := by
  have hboth : Tiled a.base a.pageNr s ∧ Counted s := by
    apply run_invariant_of_meets (fun s => Tiled a.base a.pageNr s ∧ Counted s) _ hrun hmeets
    · exact ⟨tiled_init hle hstop hinit haddr, counted_init a⟩
    · intro s e s' hs hok hstep
      exact ⟨hs.1.step hstep, hs.2.step hs.1.1 hok hstep⟩
  exact hboth.2

theorem group_counts {start stop : ℕ} {a : PageAlloc} {events : List PageEvent} (hle : start ≤ stop) (hstop : stop < 2 ^ 64)
    (hinit : rtPageInit start stop = some a) (haddr : a.pageAddr ≠ 0) (hrun : run PageSys.step (init a) events = some s) :
    (∀ p b, s.groups p = some b → (HitsGroup s.alloc p b ↔ 2 ^ b ∣ a.base ∧ p + 2 ^ b ≤ 2 ^ 31)) ∧
      (Meets PageSys.step (fun s e => e.Hits s) (init a) events →
        ∀ p b, s.groups p = some b → SurvivesFrees s.alloc p b (s.refs p - 1)) := by
  obtain ⟨h, hbase, -⟩ := (tiled_init hle hstop hinit haddr).run hrun
  constructor
  · intro p b hg
    rw [h.hitsGroup hg, hbase]
  · intro hmeets p b hg
    have hc := counted_run hle hstop hinit haddr hrun hmeets p
    rw [hg] at hc
    apply h.survivesFrees hg
    rw [hc.1]
    have hpos := hc.2
    omega

/-- The region has the pages 2 to 7. -/
theorem group_counts_even : ∃ (a : PageAlloc) (s : PageSys),
    rtPageInit 0x1000 0x8000 = some a ∧ run PageSys.step (init a) [.alloc 1, .refInc 0 0x1234, .refInc 0 0] = some s ∧
      s.groups 0 = some 1 ∧ HitsGroup s.alloc 0 1 ∧ SurvivesFrees s.alloc 0 1 (s.refs 0 - 1) := by
  have hall : ∀ a ∈ rtPageInit 0x1000 0x8000, a.pageAddr ≠ 0 ∧ 2 ^ 1 ∣ a.base ∧
      Meets PageSys.step (fun s e => e.Hits s) (init a) [.alloc 1, .refInc 0 0x1234, .refInc 0 0] ∧
      (run PageSys.step (init a) [.alloc 1, .refInc 0 0x1234, .refInc 0 0]).map (·.groups 0) = some (some 1) := by
    decide +kernel
  obtain ⟨a, ha⟩ : ∃ a, rtPageInit 0x1000 0x8000 = some a := Option.isSome_iff_exists.mp (by decide +kernel)
  obtain ⟨hne, hdvd, hmeets, hrun⟩ := hall a ha
  obtain ⟨s, hs, hg⟩ := Option.map_eq_some_iff.mp hrun
  obtain ⟨hhits, hcounts⟩ := group_counts (by decide) (by decide) ha hne hs
  exact ⟨a, s, ha, hs, hg, (hhits 0 1 hg).mpr ⟨hdvd, by decide⟩, hcounts hmeets 0 1 hg⟩

/-- In the region of the pages 3 to 7 the references to the group of the page 6 are counted for the page 5. -/
theorem references_lost : ∃ (a : PageAlloc) (s : PageSys),
    rtPageInit 0x2000 0x8000 = some a ∧ run PageSys.step (init a) [.alloc 1, .refInc 3 0, .refInc 3 0] = some s ∧
      s.groups 3 = some 1 ∧ s.refs 3 = 3 ∧ ¬ HitsGroup s.alloc 3 1 ∧ ¬ SurvivesFrees s.alloc 3 1 (s.refs 3 - 1) := by
  have hall : ∀ a ∈ rtPageInit 0x2000 0x8000,
      (run PageSys.step (init a) [.alloc 1, .refInc 3 0, .refInc 3 0]).isSome ∧
      ∀ s ∈ run PageSys.step (init a) [.alloc 1, .refInc 3 0, .refInc 3 0],
        s.groups 3 = some 1 ∧ s.refs 3 = 3 ∧
          s.alloc.rtPageRefGet (s.alloc.pageToAddr (some 3) + 0) 1 ≠ some (s.alloc.page 3).refCnt ∧
          (s.alloc.rtPagesFree (s.alloc.pageToAddr (some 3)) 1).map (·.2) = some true := by
    decide +kernel
  obtain ⟨a, ha⟩ : ∃ a, rtPageInit 0x2000 0x8000 = some a := Option.isSome_iff_exists.mp (by decide +kernel)
  obtain ⟨s, hs⟩ := Option.isSome_iff_exists.mp (hall a ha).1
  obtain ⟨hg, hrefs, hget, hfree⟩ := (hall a ha).2 s hs
  refine ⟨a, s, ha, hs, hg, hrefs, ?_, ?_⟩
  · intro hhits
    exact hget (hhits 0 (by decide)).2
  · rw [hrefs]
    rintro ⟨s', hvain, -⟩
    rw [hvain] at hfree
    exact absurd hfree (by simp)

/-! The whole allocator, as long as every reference finds its group. -/

theorem step_isSome (h : Inv s.alloc n s.groups) (hc : Counted s) (hlegal : e.Legal s) : ∃ s', s.step e = some s' := by
  cases e with
  | alloc b =>
    have hb : b < archPageListSize := hlegal
    unfold step
    dsimp only
    rw [if_pos hb]
    rcases h.rtPagesAlloc hb with ⟨halloc, -⟩ | ⟨a, p, halloc, -⟩
    all_goals
      rw [halloc]
      dsimp only
      split
      · exact ⟨_, rfl⟩
      · exact ⟨_, rfl⟩
  | free p =>
    obtain ⟨b, hg⟩ := Option.ne_none_iff_exists'.mp hlegal
    have hp := hc p
    rw [hg] at hp
    dsimp only at hp
    obtain ⟨a, freed, hfree, -⟩ := h.pagesFree hg (by omega)
    unfold step
    dsimp only
    rw [hg]
    dsimp only
    rw [h.rtPagesFree hg, hfree]
    exact ⟨_, rfl⟩
  | refInc p off =>
    obtain ⟨b, hg, hoff⟩ := hlegal
    unfold step
    dsimp only
    rw [hg]
    dsimp only
    unfold rtPageRefInc
    rw [if_pos hoff, (h.addr_in_group hg hoff).1, Option.map_some]
    exact ⟨_, rfl⟩

/-- The free lists and the groups with references make up the region. -/
structure Accounted (s : PageSys) : Prop where
  tiled : Tiling s.alloc.base s.alloc.pageNr fun i k =>
    (k < archPageListSize ∧ i ∈ s.alloc.freeBlocks k) ∨ s.groups i = some k
  apart : NoBuddies s.alloc.base fun i k => k < archPageListSize ∧ i ∈ s.alloc.freeBlocks k
  live : ∀ p, 0 < s.refs p ↔ s.groups p ≠ none
  reported : s.alloc.rtPageGetInfo = some (s.alloc.pageNr,
    ((List.range archPageListSize).map fun k => (s.alloc.freeBlocks k).length * 2 ^ k).sum)

theorem accounted (h : Inv s.alloc s.alloc.pageNr s.groups) (hc : Counted s) : Accounted s := by
  have hfree : ∀ i k, (k < archPageListSize ∧ i ∈ s.alloc.freeBlocks k) ↔ s.alloc.Free i k := by
    intro i k
    constructor
    · rintro ⟨hk, hi⟩
      exact ((h.freeBlocks hk).2.2 i).mp hi
    · intro hf
      exact ⟨hf.2.2, ((h.freeBlocks hf.2.2).2.2 i).mpr hf⟩
  constructor
  case tiled =>
    apply h.tiled.congr
    intro i k
    rw [hfree]
  case apart =>
    intro i j k hi hj
    exact h.apart i j k ((hfree i k).mp hi) ((hfree j k).mp hj)
  case live =>
    intro p
    have hp := hc p
    cases hg : s.groups p with
    | none =>
      rw [hg] at hp
      exact iff_of_false (by rw [hp]; exact lt_irrefl 0) fun hne => hne rfl
    | some b =>
      rw [hg] at hp
      exact iff_of_true hp.2 (Option.some_ne_none b)
  case reported => exact h.rtPageGetInfo

theorem accounted_run {start stop : ℕ} {a : PageAlloc} {events : List PageEvent} (hle : start ≤ stop) (hstop : stop < 2 ^ 64)
    (hinit : rtPageInit start stop = some a) (haddr : a.pageAddr ≠ 0)
    (hmeets : Meets PageSys.step (fun s e => e.Legal s ∧ e.Hits s) (init a) events) :
    ∃ s, run PageSys.step (init a) events = some s ∧ Accounted s := by
  have hstep : ∀ s e, (Tiled a.base a.pageNr s ∧ Counted s) → e.Legal s ∧ e.Hits s →
      ∃ s', s.step e = some s' ∧ Tiled a.base a.pageNr s' ∧ Counted s' := by
    rintro s e ⟨ht, hc⟩ ⟨hlegal, hhits⟩
    obtain ⟨s', hs⟩ := step_isSome ht.1 hc hlegal
    exact ⟨s', hs, ht.step hs, hc.step ht.1 hhits hs⟩
  obtain ⟨s, hs, ht, hc⟩ := run_total_of_meets _ hstep hmeets ⟨tiled_init hle hstop hinit haddr, counted_init a⟩
  obtain ⟨hinv, -, hnr⟩ := ht
  rw [← hnr] at hinv
  exact ⟨s, hs, accounted hinv hc⟩

theorem accounted_even : ∃ (a : PageAlloc) (s : PageSys),
    rtPageInit 0x1000 0x8000 = some a ∧
      run PageSys.step (init a) [.alloc 0, .alloc 1, .refInc 4 0x1234, .free 4, .free 1, .free 4] = some s ∧
      Accounted s := by
  have hall : ∀ a ∈ rtPageInit 0x1000 0x8000, a.pageAddr ≠ 0 ∧
      Meets PageSys.step (fun s e => e.Legal s ∧ e.Hits s) (init a)
        [.alloc 0, .alloc 1, .refInc 4 0x1234, .free 4, .free 1, .free 4] := by
    decide +kernel
  obtain ⟨a, ha⟩ : ∃ a, rtPageInit 0x1000 0x8000 = some a := Option.isSome_iff_exists.mp (by decide +kernel)
  obtain ⟨hne, hmeets⟩ := hall a ha
  obtain ⟨s, hs, hacc⟩ := accounted_run (by decide) (by decide) ha hne hmeets
  exact ⟨a, s, ha, hs, hacc⟩

/-- A reference to the group of the page 6 is left, and the group is part of the free block of the pages 4 to 7. -/
theorem free_with_reference : ∃ (a : PageAlloc) (s : PageSys),
    rtPageInit 0x2000 0x8000 = some a ∧ run PageSys.step (init a) [.alloc 1, .refInc 3 0, .free 3] = some s ∧
      s.refs 3 = 1 ∧ 1 ∈ s.alloc.freeBlocks 2 ∧ ¬ Accounted s := by
  have hall : ∀ a ∈ rtPageInit 0x2000 0x8000,
      (run PageSys.step (init a) [.alloc 1, .refInc 3 0, .free 3]).map
        (fun s => (s.refs 3, s.groups 3, s.alloc.freeBlocks 2)) = some (1, none, [1]) := by
    decide +kernel
  obtain ⟨a, ha⟩ : ∃ a, rtPageInit 0x2000 0x8000 = some a := Option.isSome_iff_exists.mp (by decide +kernel)
  obtain ⟨s, hs, hstate⟩ := Option.map_eq_some_iff.mp (hall a ha)
  simp only [Prod.mk.injEq] at hstate
  obtain ⟨hrefs, hg, hblocks⟩ := hstate
  refine ⟨a, s, ha, hs, hrefs, ?_, ?_⟩
  · rw [hblocks]
    exact List.mem_singleton_self 1
  · intro hacc
    exact (hacc.live 3).mp (by omega) hg

end PageSys

end RtSmart
