import RtSmart.Mm.PageInv

namespace RtSmart.PageAlloc

open Lib

variable {s s' : PageAlloc} {n p q i j b k : ℕ} {others : ℕ → Option ℕ}

/-! ### Addresses and buddies -/

theorem addrToPage_page (h : Inv s n others) {a : ℕ} (ha : a < archPageSize) :
    s.addrToPage (archPageSize * (s.base + i) + a) = if i < s.pageNr then some i else none := by
  have haddr := h.addr
  have hoff : (archPageSize * (s.base + i) + a - archPageSize * s.base) >>> archPageShift = i := by
    rw [Nat.mul_add, Nat.add_assoc, Nat.add_sub_cancel_left, Nat.shiftRight_eq_div_pow]
    unfold archPageSize archPageShift at *
    omega
  unfold addrToPage
  rw [haddr, if_neg (by rw [Nat.mul_add]; omega)]
  dsimp only
  rw [hoff]
  by_cases hi : i < s.pageNr
  · rw [if_pos hi, if_neg (not_le.mpr hi)]
  · rw [if_neg hi, if_pos (not_lt.mp hi)]

theorem pageToAddr_page (h : Inv s n others) : s.pageToAddr (some i) = archPageSize * (s.base + i) := by
  have haddr := h.addr
  show s.pageAddr + i <<< archPageShift = _
  rw [haddr, Nat.shiftLeft_eq, Nat.mul_add, Nat.mul_comm i]
  rfl

/-- `buddy_get` finds the buddy, if it is in the region. -/
theorem buddyGet_eq (h : Inv s n others) : s.buddyGet p k = some j ↔ IsBuddy s.base p j k ∧ j < s.pageNr := by
  have hxor : archPageSize * (s.base + p) ^^^ 1 <<< (k + archPageShift) = archPageSize * ((s.base + p) ^^^ 2 ^ k) := by
    have := Nat.shiftLeft_xor_distrib (a := s.base + p) (b := 2 ^ k) (i := archPageShift)
    simp only [Nat.shiftLeft_eq] at this ⊢
    rw [one_mul, pow_add, show archPageSize = 2 ^ archPageShift from rfl, Nat.mul_comm, ← this, Nat.mul_comm]
  unfold buddyGet
  rw [pageToAddr_page h, hxor]
  by_cases hge : s.base ≤ (s.base + p) ^^^ 2 ^ k
  · obtain ⟨q, hq⟩ := Nat.exists_eq_add_of_le hge
    have hfind := addrToPage_page (i := q) h (show 0 < archPageSize by decide)
    rw [hq, ← Nat.add_zero (archPageSize * (s.base + q)), hfind]
    unfold IsBuddy
    rw [hq]
    split
    · rename_i hlt
      constructor
      · intro hj
        cases hj
        exact ⟨rfl, hlt⟩
      · rintro ⟨hj, -⟩
        exact congrArg some (by omega)
    · rename_i hge
      constructor
      · intro hj
        cases hj
      · rintro ⟨hj, hlt⟩
        omega
  · have hlow : s.addrToPage (archPageSize * ((s.base + p) ^^^ 2 ^ k)) = none := by
      unfold addrToPage
      rw [h.addr, if_pos]
      exact Nat.mul_lt_mul_of_pos_left (not_le.mp hge) (by decide)
    rw [hlow]
    constructor
    · intro hj
      cases hj
    · rintro ⟨hj, -⟩
      unfold IsBuddy at hj
      omega

/-! ### Merging and splitting blocks in use -/

theorem Inv.order_lt (h : Inv s n others) (ho : others p = some k) : k < archPageListSize := by
  have hin := h.tiled.inside p k (.inr ho)
  have := h.le
  have := h.top
  have := h.pos
  have hlt : 2 ^ k < 2 ^ 52 := by omega
  exact (Nat.pow_lt_pow_iff_right (by decide)).mp hlt

theorem Inv.not_free (h : Inv s n others) (ho : others p = some k) : ¬ s.Free p j := by
  rintro ⟨-, hj, hlt⟩
  rw [h.used p k ho] at hj
  subst hj
  exact absurd hlt (by decide)

theorem Inv.merge (h : Inv s n others) (hi : others i = some k) (hj : others (i + 2 ^ k) = some k)
    (ha : 2 ^ (k + 1) ∣ s.base + i) :
    Inv s n (Function.update (Function.update others (i + 2 ^ k) none) i (some (k + 1))) := by
  have hpos := Nat.two_pow_pos k
  have hne : i ≠ i + 2 ^ k := by omega
  refine { h with tiled := ?_, used := ?_ }
  · apply h.tiled.merge (.inr hi) (.inr hj) ha
    intro b m
    by_cases hb : b = i
    · subst hb
      simp [h.not_free hi, eq_comm]
    · by_cases hb' : b = i + 2 ^ k
      · subst hb'
        simp [h.not_free hj]
      · simp [hb, hb']
  · intro b m hm
    by_cases hb : b = i
    · subst hb
      exact h.used _ _ hi
    · rw [Function.update_of_ne hb] at hm
      by_cases hb' : b = i + 2 ^ k
      · subst hb'
        exact h.used _ _ hj
      · rw [Function.update_of_ne hb'] at hm
        exact h.used b m hm

theorem Inv.split (h : Inv s n others) (hi : others i = some (k + 1)) :
    Inv s n (Function.update (Function.update others i (some k)) (i + 2 ^ k) (some k)) := by
  have hpos := Nat.two_pow_pos k
  have hin := h.tiled.inside i (k + 1) (.inr hi)
  have hle := h.le
  have hpow : 2 ^ (k + 1) = 2 ^ k + 2 ^ k := by rw [pow_succ]; omega
  have hne : i ≠ i + 2 ^ k := by omega
  -- The upper half starts inside the block, so that no block starts there.
  have hupper : ∀ m, ¬ (s.Free (i + 2 ^ k) m ∨ others (i + 2 ^ k) = some m) := by
    intro m hm
    have := (h.tiled.disjoint i (k + 1) (i + 2 ^ k) m (i + 2 ^ k) (.inr hi) hm ⟨by omega, by omega⟩ inBlock_self).1
    exact hne this
  refine { h with tiled := ?_, used := ?_ }
  · apply h.tiled.split (.inr hi)
    intro b m
    by_cases hb' : b = i + 2 ^ k
    · subst hb'
      have hnf : ¬ s.Free (i + 2 ^ k) m := fun hf => hupper m (.inl hf)
      have hno : others (i + 2 ^ k) ≠ some m := fun ho => hupper m (.inr ho)
      simp [hnf, hno, eq_comm]
    · rw [Function.update_of_ne hb']
      by_cases hb : b = i
      · subst hb
        simp [h.not_free hi, eq_comm]
      · simp [hb, hb']
  · intro b m hm
    by_cases hb' : b = i + 2 ^ k
    · subst hb'
      rcases h.sizes (i + 2 ^ k) (by omega) with hlt | hsize
      · exact absurd (.inl ⟨by omega, rfl, hlt⟩) (hupper _)
      · exact hsize
    · rw [Function.update_of_ne hb'] at hm
      by_cases hb : b = i
      · subst hb
        exact h.used _ _ hi
      · rw [Function.update_of_ne hb] at hm
        exact h.used b m hm

/-! ### The two loops -/

theorem Inv.join (h : Inv s n others) (ho : others p = some k) (hf : s.Free q k) (hb : IsBuddy s.base p q k) :
    ∃ others', Inv (s.pageRemove q k) n others' ∧ others' (if p < q then p else q) = some (k + 1) ∧
      Function.update others' (if p < q then p else q) none = Function.update others p none := by
  obtain ⟨hr, -⟩ := h.remove hf
  have hnone := h.others_none hf
  have ha := h.tiled.aligned p k (.inr ho)
  have hpos := Nat.two_pow_pos k
  have hbase : (s.pageRemove q k).base = s.base := kept_pageRemove.base_eq
  have hqp : q ≠ p := by
    rintro rfl
    exact not_isBuddy_self hb
  rcases hb.cases ha with ⟨rfl, hd⟩ | ⟨rfl, hd⟩
  · rw [if_pos (by omega)]
    refine ⟨_, hr.merge (i := p) (k := k) ?_ ?_ (by rw [hbase]; exact hd), Function.update_self .., ?_⟩
    · rw [Function.update_of_ne hqp.symm]
      exact ho
    · exact Function.update_self ..
    · funext i
      simp only [Function.update_apply]
      split_ifs with h1 h2
      · rfl
      · rw [h2, hnone]
      · rfl
  · rw [if_neg (by omega)]
    refine ⟨_, hr.merge (i := q) (k := k) ?_ ?_ (by rw [hbase]; exact hd), Function.update_self .., ?_⟩
    · exact Function.update_self ..
    · rw [Function.update_of_ne hqp.symm]
      exact ho
    · funext i
      simp only [Function.update_apply]
      split_ifs with h1 h2 h3
      · rfl
      · rw [h1, hnone]
      · rfl
      · rfl

theorem kept_coalesce (m : ℕ) : Kept s (PageAlloc.coalesce m s p k).1 := by
  induction m generalizing s p k with
  | zero => exact Kept.refl s
  | succ m ih =>
    unfold PageAlloc.coalesce
    split
    · exact Kept.refl s
    · split
      · exact kept_pageRemove.trans ih
      · exact Kept.refl s

/-- The loop of `_pages_free` ends with a block whose buddy is not free. -/
theorem Inv.coalesce (m : ℕ) (h : Inv s n others) (ho : others p = some k) (hm : k + m = archPageListSize) :
    ∃ others', Inv (coalesce m s p k).1 n others' ∧
      others' (PageAlloc.coalesce m s p k).2.1 = some (PageAlloc.coalesce m s p k).2.2 ∧
      (∀ j, (PageAlloc.coalesce m s p k).1.Free j (PageAlloc.coalesce m s p k).2.2 →
        ¬ IsBuddy (PageAlloc.coalesce m s p k).1.base (PageAlloc.coalesce m s p k).2.1 j
          (PageAlloc.coalesce m s p k).2.2) ∧
      Function.update others' (PageAlloc.coalesce m s p k).2.1 none = Function.update others p none ∧
      Kept s (PageAlloc.coalesce m s p k).1 := by
  induction m generalizing s p k others with
  | zero =>
    have := h.order_lt ho
    omega
  | succ m ih =>
    unfold PageAlloc.coalesce
    cases hget : s.buddyGet p k with
    | none =>
      refine ⟨others, h, ho, ?_, rfl, Kept.refl s⟩
      intro j hj hb
      have := (buddyGet_eq h).mpr ⟨hb, hj.1⟩
      rw [hget] at this
      cases this
    | some buddy =>
      obtain ⟨hb, hlt⟩ := (buddyGet_eq h).mp hget
      dsimp only
      by_cases hsize : (s.page buddy).sizeBits = k
      · rw [if_pos hsize]
        obtain ⟨others1, h1, ho1, hu1⟩ := h.join ho ⟨hlt, hsize, h.order_lt ho⟩ hb
        obtain ⟨others2, h2, ho2, hn2, hu2, hk2⟩ := ih h1 ho1 (by omega)
        exact ⟨others2, h2, ho2, hn2, hu2.trans hu1, kept_pageRemove.trans hk2⟩
      · rw [if_neg hsize]
        refine ⟨others, h, ho, ?_, rfl, Kept.refl s⟩
        intro j hj hbj
        obtain rfl := hb.unique hbj
        exact hsize hj.2.1

/-- The loop of `_pages_alloc` ends with a block of the order asked for. -/
theorem Inv.splitLoop (m : ℕ) (h : Inv s n others) (ho : others p = some (b + m)) :
    ∃ s' q others', PageAlloc.splitLoop m s p b = some (s', q) ∧ Inv s' n others' ∧ others' q = some b ∧
      Function.update others' q none = Function.update others p none ∧ Kept s s' := by
  induction m generalizing s p others with
  | zero => exact ⟨s, p, others, rfl, h, ho, rfl, Kept.refl s⟩
  | succ m ih =>
    have hpos := Nat.two_pow_pos (b + m)
    have hin := h.tiled.inside p _ (.inr ho)
    have hle := h.le
    have hlt := h.order_lt ho
    have ha := h.tiled.aligned p _ (.inr ho)
    have hpow : 2 ^ (b + (m + 1)) = 2 ^ (b + m) + 2 ^ (b + m) := by rw [← Nat.add_assoc, pow_succ]; omega
    have hne : p ≠ p + 2 ^ (b + m) := by omega
    have hs := h.split ho
    have hbuddy : IsBuddy s.base p (p + 2 ^ (b + m)) (b + m) := isBuddy_of_dvd ha
    have hlow : Function.update (Function.update others p (some (b + m))) (p + 2 ^ (b + m)) (some (b + m)) p =
        some (b + m) := by
      rw [Function.update_of_ne hne, Function.update_self]
    -- The buddy of the lower half is the upper one, which is in use.
    have hfree : ∀ j, s.Free j (b + m) → ¬ IsBuddy s.base p j (b + m) := by
      intro j hj hb
      obtain rfl := hbuddy.unique hb
      exact hs.not_free (Function.update_self ..) hj
    obtain ⟨hi, -⟩ := hs.insert hlow (by omega) hfree
    have hget : (s.pageInsert p (b + m)).buddyGet p (b + m) = some (p + 2 ^ (b + m)) := by
      rw [buddyGet_eq hi, kept_pageInsert.base_eq, kept_pageInsert.nr]
      exact ⟨hbuddy, by omega⟩
    have hup : Function.update (Function.update (Function.update others p (some (b + m))) (p + 2 ^ (b + m))
        (some (b + m))) p none (p + 2 ^ (b + m)) = some (b + m) := by
      rw [Function.update_of_ne hne.symm, Function.update_self]
    obtain ⟨s', q, others', hrun, h', ho', hu, hk⟩ := ih hi hup
    refine ⟨s', q, others', ?_, h', ho', hu.trans ?_, kept_pageInsert.trans hk⟩
    · unfold PageAlloc.splitLoop
      dsimp only
      rw [hget]
      exact hrun
    · have hnone : others (p + 2 ^ (b + m)) = none := by
        cases hx : others (p + 2 ^ (b + m)) with
        | none => rfl
        | some j =>
          have := (h.tiled.disjoint p _ (p + 2 ^ (b + m)) j (p + 2 ^ (b + m)) (.inr ho) (.inr hx)
            ⟨by omega, by omega⟩ inBlock_self).1
          exact absurd this hne
      funext i
      by_cases hp : i = p
      · subst hp
        simp
      · by_cases hq : i = p + 2 ^ (b + m)
        · subst hq
          simp [hnone]
        · simp [hp, hq]

/-! ### Allocating and freeing -/

/-- What `_pages_alloc` and `_pages_free` write beside the lists does not matter to them. -/
theorem Inv.setRef (h : Inv s n others) (p : ℕ) {f : Page → Page}
    (hf : ∀ g, (f g).next = g.next ∧ (f g).pre = g.pre ∧ (f g).sizeBits = g.sizeBits) :
    Inv (s.setPage p f) n others ∧ ∀ i j, (s.setPage p f).Free i j ↔ s.Free i j := by
  have hpage : ∀ i, ((s.setPage p f).page i).next = (s.page i).next ∧ ((s.setPage p f).page i).pre = (s.page i).pre ∧
      ((s.setPage p f).page i).sizeBits = (s.page i).sizeBits := by
    intro i
    rw [page_setPage]
    split
    · exact hf _
    · exact ⟨rfl, rfl, rfl⟩
  have hfree : ∀ i j, (s.setPage p f).Free i j ↔ s.Free i j := by
    intro i j
    unfold Free
    rw [(hpage i).2.2]
    rfl
  refine ⟨⟨h.addr, h.top, h.pos, h.le, ?_, ?_, ?_, ?_, ?_⟩, hfree⟩
  · intro k hk
    obtain ⟨l, hl, hnd, hmem⟩ := h.lists k hk
    refine ⟨l, hl.congr (fun a _ => (hpage a).1) fun a _ => (hpage a).2.1, hnd, ?_⟩
    intro i
    rw [hfree, hmem]
  · apply h.tiled.congr
    intro i k
    rw [hfree]
  · intro i j k hi hj
    exact h.apart i j k ((hfree _ _).mp hi) ((hfree _ _).mp hj)
  · intro i k hi
    rw [(hpage i).2.2]
    exact h.used i k hi
  · intro i hi
    rw [(hpage i).2.2]
    exact h.sizes i hi

theorem Inv.pageList_isSome (h : Inv s n others) (hk : k < archPageListSize) :
    (s.pageList k).isSome ↔ ∃ i, s.Free i k := by
  obtain ⟨l, hl, -, hmem⟩ := h.lists k hk
  rw [hl.chain.head]
  cases l with
  | nil =>
    simp only [List.head?_nil, Option.isSome_none, Bool.false_eq_true, false_iff]
    rintro ⟨i, hi⟩
    exact List.not_mem_nil ((hmem i).mpr hi)
  | cons a l => exact iff_of_true rfl ⟨a, (hmem a).mp (by simp)⟩

theorem Inv.free_of_pageList (h : Inv s n others) (hk : k < archPageListSize) (hp : s.pageList k = some p) : s.Free p k := by
  obtain ⟨l, hl, -, hmem⟩ := h.lists k hk
  apply (hmem p).mp
  exact List.mem_of_head? (hl.chain.head ▸ hp)

theorem Inv.pagesTake (h : Inv s n others) (hb : b < archPageListSize) :
    (s.pagesTake b = some none ∧ ∀ i k, b ≤ k → ¬ s.Free i k) ∨
      ∃ s' p, s.pagesTake b = some (some (s', p)) ∧ Inv s' n (Function.update others p (some b)) ∧
        others p = none ∧ Kept s s' := by
  unfold PageAlloc.pagesTake
  cases hlist : s.pageList b with
  | some p =>
    have hf := h.free_of_pageList hb hlist
    exact .inr ⟨_, p, rfl, (h.remove hf).1, h.others_none hf, kept_pageRemove⟩
  | none =>
    dsimp only
    cases hfind : s.findLevel b with
    | none =>
      refine .inl ⟨rfl, ?_⟩
      intro i k hk hf
      have hnone := List.find?_eq_none.mp hfind
      have hsome := (h.pageList_isSome hf.2.2).mpr ⟨i, hf⟩
      rcases hk.eq_or_lt with rfl | hlt
      · rw [hlist] at hsome
        cases hsome
      · have hlast := hf.2.2
        exact hnone k (List.mem_range'_1.mpr ⟨hlt, by omega⟩) hsome
    | some level =>
      have hmem := List.mem_range'_1.mp (List.mem_of_find?_eq_some hfind)
      have hsome : (s.pageList level).isSome := by
        unfold findLevel at hfind
        simpa using List.find?_some hfind
      obtain ⟨p, hp⟩ := Option.isSome_iff_exists.mp hsome
      dsimp only
      rw [hp]
      have hlt : level < archPageListSize := by omega
      have hf := h.free_of_pageList hlt hp
      have hnone := h.others_none hf
      obtain ⟨s', q, others', hrun, h', ho', hu, hk⟩ :=
        (h.remove hf).1.splitLoop (b := b) (level - b) (p := p) (by
          rw [Function.update_self]
          exact congrArg some (by omega))
      right
      refine ⟨s', q, ?_, ?_, ?_, kept_pageRemove.trans hk⟩
      · dsimp only
        rw [hrun]
        rfl
      · -- Nothing but the block taken is in use that was not before.
        have hsame : Function.update others q (some b) = others' := by
          funext i
          have hi := congrFun hu i
          by_cases hiq : i = q
          · subst hiq
            rw [Function.update_self, ho']
          · rw [Function.update_of_ne hiq] at hi ⊢
            rw [hi, Function.update_apply, Function.update_apply]
            split_ifs with hip
            · rw [hip, hnone]
            · rfl
        rw [hsame]
        exact h'
      · have hi := congrFun hu q
        rw [Function.update_self, Function.update_apply, Function.update_apply] at hi
        split_ifs at hi with hqp
        · rw [hqp, hnone]
        · exact hi.symm

/-- `_pages_alloc` fails only when no free block is large enough. -/
theorem Inv.pagesAlloc (h : Inv s n others) (hb : b < archPageListSize) :
    (s.pagesAlloc b = some (s, none) ∧ ∀ i k, b ≤ k → ¬ s.Free i k) ∨
      ∃ s' p, s.pagesAlloc b = some (s', some p) ∧ Inv s' n (Function.update others p (some b)) ∧
        others p = none ∧ s'.base = s.base ∧ s'.pageNr = s.pageNr ∧ (s'.page p).refCnt = 1 ∧
        ∀ i ≠ p, (s'.page i).refCnt = (s.page i).refCnt := by
  unfold PageAlloc.pagesAlloc
  rcases h.pagesTake hb with ⟨hnone, hno⟩ | ⟨s', p, htake, h', ho, hk⟩
  · rw [hnone]
    exact .inl ⟨rfl, hno⟩
  · rw [htake]
    right
    have hsize := h'.used p b (Function.update_self ..)
    have hset : s'.setPage p (fun g => { g with sizeBits := archAddressWidthBits, refCnt := 1 }) =
        s'.setPage p fun g => { g with refCnt := 1 } := by
      unfold setPage
      congr 2
      rw [← hsize]
    obtain ⟨hr, -⟩ := h'.setRef p (f := fun g => { g with refCnt := 1 }) fun _ => ⟨rfl, rfl, rfl⟩
    dsimp only
    rw [hset]
    refine ⟨_, p, rfl, ⟨hr.addr, hr.top, hr.pos, hr.le, hr.lists, hr.tiled, hr.apart, hr.used, hr.sizes⟩, ho,
      hk.base_eq, hk.nr, ?_, ?_⟩
    · show ((s'.setPage p fun g => { g with refCnt := 1 }).page p).refCnt = 1
      rw [page_setPage, if_pos rfl]
    · intro i hi
      show ((s'.setPage p fun g => { g with refCnt := 1 }).page i).refCnt = _
      rw [page_setPage, if_neg hi]
      exact hk.refs i

theorem Inv.setUsed (h : Inv s n others) (used : ℕ) :
    Inv { s with usedPageNr := used } n others ∧ ({ s with usedPageNr := used } : PageAlloc).base = s.base ∧
      ({ s with usedPageNr := used } : PageAlloc).pageNr = s.pageNr :=
  ⟨⟨h.addr, h.top, h.pos, h.le, h.lists, h.tiled, h.apart, h.used, h.sizes⟩, rfl, rfl⟩

/-- `_pages_free` of a block in use. -/
theorem Inv.pagesFree (h : Inv s n others) (ho : others p = some k) (hr : 0 < (s.page p).refCnt) :
    ∃ s' freed, s.pagesFree p k = some (s', freed) ∧ (freed = true ↔ (s.page p).refCnt = 1) ∧
      Inv s' n (if freed then Function.update others p none else others) ∧ s'.base = s.base ∧ s'.pageNr = s.pageNr ∧
      (s'.page p).refCnt = (s.page p).refCnt - 1 ∧ ∀ i ≠ p, (s'.page i).refCnt = (s.page i).refCnt := by
  obtain ⟨hd, -⟩ := h.setRef p (f := fun g => { g with refCnt := g.refCnt - 1 }) fun _ => ⟨rfl, rfl, rfl⟩
  have hself : ((s.setPage p fun g => { g with refCnt := g.refCnt - 1 }).page p).refCnt = (s.page p).refCnt - 1 := by
    rw [page_setPage, if_pos rfl]
  have hother : ∀ i ≠ p, ((s.setPage p fun g => { g with refCnt := g.refCnt - 1 }).page i).refCnt =
      (s.page i).refCnt := by
    intro i hi
    rw [page_setPage, if_neg hi]
  unfold PageAlloc.pagesFree
  rw [if_pos ⟨hr, h.used p k ho⟩]
  dsimp only
  rw [hself]
  by_cases hone : (s.page p).refCnt = 1
  · rw [if_neg (by omega)]
    have hlt := h.order_lt ho
    obtain ⟨m, hm⟩ : ∃ m, m = archPageListSize - k := ⟨_, rfl⟩
    obtain ⟨others', hc, ho', hn', hu, hk⟩ := hd.coalesce m ho (by omega)
    rw [← hm]
    generalize PageAlloc.coalesce m _ p k = out at hc ho' hn' hu hk ⊢
    obtain ⟨s1, q, level⟩ := out
    dsimp only at hc ho' hn' hu hk ⊢
    obtain ⟨hi, -⟩ := hc.insert ho' (hc.order_lt ho') hn'
    rw [hu] at hi
    have hkept := hk.trans (kept_pageInsert (p := q) (k := level))
    have hbase : (s1.pageInsert q level).base = s.base := hkept.base_eq
    have hnr : (s1.pageInsert q level).pageNr = s.pageNr := hkept.nr
    have hrefs : ∀ i, ((s1.pageInsert q level).page i).refCnt =
        ((s.setPage p fun g => { g with refCnt := g.refCnt - 1 }).page i).refCnt := hkept.refs
    obtain ⟨hi', hbase', hnr'⟩ := hi.setUsed (wsub 64 (s1.pageInsert q level).usedPageNr (2 ^ k))
    exact ⟨_, true, rfl, iff_of_true rfl hone, hi', hbase'.trans hbase, hnr'.trans hnr, (hrefs p).trans hself,
      fun i hi => (hrefs i).trans (hother i hi)⟩
  · rw [if_pos (by omega)]
    exact ⟨_, false, rfl, iff_of_false Bool.false_ne_true hone, hd, rfl, rfl, hself, hother⟩

theorem Inv.same_free (h : Inv s n others) (h' : Inv s' n others) (hbase : s'.base = s.base) (i k : ℕ) :
    s'.Free i k ↔ s.Free i k := by
  have ht := h'.tiled
  have ha := h'.apart
  rw [hbase] at ht ha
  exact ha.unique h.apart ht h.tiled (fun _ _ ho => h'.not_free ho) (fun _ _ ho => h.not_free ho) i k

end RtSmart.PageAlloc
