import RtSmart.Mm.Page

/-!
The free lists of the page allocator always hold a buddy system: the free blocks and the blocks in
use tile the region, and no two free blocks could be merged.
-/

namespace RtSmart.PageAlloc

open Lib

variable {s s' : PageAlloc} {n p q b k : ℕ} {others : ℕ → Option ℕ}

/-- The number of the first page, counted from the address 0. -/
def base (s : PageAlloc) : ℕ := s.pageAddr / archPageSize

/-- `i` is the first page of a free block of the order `k`. -/
def Free (s : PageAlloc) (i k : ℕ) : Prop := i < s.pageNr ∧ (s.page i).sizeBits = k ∧ k < archPageListSize

def next (s : PageAlloc) (i : ℕ) : Option ℕ := (s.page i).next

def pre (s : PageAlloc) (i : ℕ) : Option ℕ := (s.page i).pre

/-- The first `n` pages of the region consist of the free blocks and the blocks `others`. -/
structure Inv (s : PageAlloc) (n : ℕ) (others : ℕ → Option ℕ) : Prop where
  addr : s.pageAddr = archPageSize * s.base
  top : s.base + s.pageNr ≤ 2 ^ 52
  pos : 0 < s.base
  le : n ≤ s.pageNr
  lists : ∀ k < archPageListSize,
    ∃ l, Linked s.next s.pre none (s.pageList k) l ∧ l.Nodup ∧ ∀ i, i ∈ l ↔ s.Free i k
  tiled : Tiling s.base n fun i k => s.Free i k ∨ others i = some k
  apart : NoBuddies s.base s.Free
  used : ∀ i k, others i = some k → (s.page i).sizeBits = archAddressWidthBits
  sizes : ∀ i < s.pageNr, (s.page i).sizeBits < archPageListSize ∨ (s.page i).sizeBits = archAddressWidthBits

structure Kept (s s' : PageAlloc) : Prop where
  refs : ∀ i, (s'.page i).refCnt = (s.page i).refCnt
  addr : s'.pageAddr = s.pageAddr
  nr : s'.pageNr = s.pageNr
  used : s'.usedPageNr = s.usedPageNr

theorem Kept.refl (s : PageAlloc) : Kept s s := ⟨fun _ => rfl, rfl, rfl, rfl⟩

theorem Kept.trans {s'' : PageAlloc} (h : Kept s s') (h' : Kept s' s'') : Kept s s'' where
  refs i := (h'.refs i).trans (h.refs i)
  addr := h'.addr.trans h.addr
  nr := h'.nr.trans h.nr
  used := h'.used.trans h.used

theorem Kept.base_eq (h : Kept s s') : s'.base = s.base := by
  unfold base
  rw [h.addr]

/-! The descriptors after a list operation. -/

theorem page_setPage {f : Page → Page} (i : ℕ) :
    (s.setPage p f).page i = if i = p then f (s.page i) else s.page i := by
  dsimp only [setPage]
  rw [Function.update_apply]
  split
  · next h => rw [h]
  · rfl

theorem page_setPageAt {q : Option ℕ} {f : Page → Page} (i : ℕ) :
    (s.setPageAt q f).page i = if some i = q then f (s.page i) else s.page i := by
  cases q with
  | none => rfl
  | some q =>
    rw [setPageAt, page_setPage]
    simp only [Option.some.injEq]

theorem page_setList {l : Option ℕ} (i : ℕ) : (s.setList k l).page i = s.page i := rfl

theorem pageList_setPageAt {q : Option ℕ} {f : Page → Page} : (s.setPageAt q f).pageList = s.pageList := by
  cases q <;> rfl

theorem Kept.setPage (h : Kept s s') {f : Page → Page} (hf : ∀ g, (f g).refCnt = g.refCnt) :
    Kept s (s'.setPage p f) where
  refs i := by
    rw [page_setPage, ← h.refs i]
    split
    · exact hf _
    · rfl
  addr := h.addr
  nr := h.nr
  used := h.used

theorem Kept.setPageAt (h : Kept s s') {q : Option ℕ} {f : Page → Page} (hf : ∀ g, (f g).refCnt = g.refCnt) :
    Kept s (s'.setPageAt q f) := by
  cases q with
  | none => exact h
  | some q => exact h.setPage hf

theorem Kept.setList (h : Kept s s') {l : Option ℕ} : Kept s (s'.setList k l) := ⟨h.refs, h.addr, h.nr, h.used⟩

theorem kept_pageRemove : Kept s (s.pageRemove p k) := by
  unfold pageRemove
  dsimp only
  apply Kept.setPage
  · apply Kept.setPageAt
    · split
      · exact (Kept.refl s).setList
      · exact (Kept.refl s).setPageAt fun _ => rfl
    · exact fun _ => rfl
  · exact fun _ => rfl

theorem kept_pageInsert : Kept s (s.pageInsert p k) := by
  unfold pageInsert
  dsimp only
  apply Kept.setPage
  · apply Kept.setList
    apply Kept.setPage
    · apply Kept.setPageAt
      · exact (Kept.refl s).setPage fun _ => rfl
      · exact fun _ => rfl
    · exact fun _ => rfl
  · exact fun _ => rfl

theorem page_pageRemove (hp : s.pre p ≠ some p) (i : ℕ) :
    (s.pageRemove p k).page i =
      { next := if some i = s.pre p then s.next p else s.next i
        pre := if some i = s.next p then s.pre p else s.pre i
        sizeBits := if i = p then archAddressWidthBits else (s.page i).sizeBits
        refCnt := (s.page i).refCnt } := by
  unfold pre next at *
  unfold pageRemove
  dsimp only
  by_cases hpre : (s.page p).pre = none
  · rw [if_pos hpre]
    simp only [page_setPage, page_setPageAt, page_setList, hpre, reduceCtorEq, if_false]
    split_ifs <;> rfl
  · have hp' : ¬ some p = (s.page p).pre := fun h => hp h.symm
    rw [if_neg hpre]
    simp only [page_setPage, page_setPageAt, if_neg hp']
    split_ifs <;> rfl

theorem pageList_pageRemove (j : ℕ) :
    (s.pageRemove p k).pageList j = if j = k ∧ s.pre p = none then s.next p else s.pageList j := by
  unfold pre next pageRemove
  dsimp only
  by_cases hpre : (s.page p).pre = none
  · rw [if_pos hpre]
    simp [setPage, pageList_setPageAt, setList, Function.update_apply, hpre]
  · rw [if_neg hpre]
    simp [setPage, pageList_setPageAt, hpre]

theorem page_pageInsert (i : ℕ) :
    (s.pageInsert p k).page i =
      { next := if i = p then s.pageList k else s.next i
        pre := if i = p then none else if some i = s.pageList k then some p else s.pre i
        sizeBits := if i = p then k else (s.page i).sizeBits
        refCnt := (s.page i).refCnt } := by
  unfold pre next pageInsert
  simp only [page_setPage, page_setPageAt, page_setList, if_pos]
  split_ifs <;> rfl

theorem pageList_pageInsert (j : ℕ) :
    (s.pageInsert p k).pageList j = if j = k then some p else s.pageList j := by
  unfold pageInsert
  dsimp only
  simp [setPage, pageList_setPageAt, setList, Function.update_apply]

/-! The invariant under the list operations. -/

theorem Inv.others_none (h : Inv s n others) (hf : s.Free p k) : others p = none := by
  cases ho : others p with
  | none => rfl
  | some j =>
    have := h.used p j ho
    obtain ⟨-, hs, hk⟩ := hf
    rw [hs] at this
    subst this
    exact absurd hk (by decide)

theorem free_unique {j : ℕ} (hf : s.Free p k) (hf' : s.Free p j) : k = j := hf.2.1.symm.trans hf'.2.1

theorem Inv.remove (h : Inv s n others) (hf : s.Free p k) :
    Inv (s.pageRemove p k) n (Function.update others p (some k)) ∧
      ∀ i j, (s.pageRemove p k).Free i j ↔ s.Free i j ∧ i ≠ p := by
  have hkept : Kept s (s.pageRemove p k) := kept_pageRemove
  obtain ⟨l, hl, hnd, hmem⟩ := h.lists k hf.2.2
  obtain ⟨l₁, l₂, rfl⟩ := List.append_of_mem ((hmem p).mpr hf)
  have hpre : s.pre p = l₁.getLast? := by
    rw [hl.prev_eq]
    exact Option.or_none
  have hp : s.pre p ≠ some p := by
    rw [hpre]
    intro hlast
    have := List.mem_of_getLast? hlast
    simp only [List.nodup_append, List.nodup_cons] at hnd
    exact hnd.2.2 p this p (by simp) rfl
  have hpage := page_pageRemove (k := k) hp
  have hfree : ∀ i j, (s.pageRemove p k).Free i j ↔ s.Free i j ∧ i ≠ p := by
    intro i j
    unfold Free
    rw [hkept.nr, hpage]
    dsimp only
    by_cases hi : i = p
    · subst hi
      rw [if_pos rfl]
      constructor
      · rintro ⟨-, rfl, hlt⟩
        exact absurd hlt (by decide)
      · exact fun h => absurd rfl h.2
    · rw [if_neg hi]
      exact ⟨fun h => ⟨h, hi⟩, fun h => h.1⟩
  refine ⟨⟨?_, ?_, ?_, ?_, ?_, ?_, ?_, ?_, ?_⟩, hfree⟩
  · rw [hkept.addr, hkept.base_eq]
    exact h.addr
  · rw [hkept.nr, hkept.base_eq]
    exact h.top
  · rw [hkept.base_eq]
    exact h.pos
  · rw [hkept.nr]
    exact h.le
  · intro j hj
    by_cases hjk : j = k
    · subst hjk
      refine ⟨l₁ ++ l₂, ?_, ?_, ?_⟩
      · have hun : Linked (s.pageRemove p j).next (s.pageRemove p j).pre none (if l₁ = [] then s.next p else s.pageList j)
            (l₁ ++ l₂) :=
          hl.unlink hnd (by simp) (fun a _ => congrArg Page.next (hpage a)) (fun a _ => congrArg Page.pre (hpage a))
        rw [pageList_pageRemove]
        have hnil : s.pre p = none ↔ l₁ = [] := by rw [hpre, List.getLast?_eq_none_iff]
        by_cases h1 : l₁ = []
        · rw [if_pos h1] at hun
          rw [if_pos ⟨rfl, hnil.mpr h1⟩]
          exact hun
        · rw [if_neg h1] at hun
          rw [if_neg fun h => h1 (hnil.mp h.2)]
          exact hun
      · exact hnd.sublist ((List.Sublist.refl l₁).append (List.sublist_cons_self p l₂))
      · intro i
        rw [hfree, ← hmem i]
        simp only [List.nodup_append, List.nodup_cons] at hnd
        constructor
        · intro hi
          rcases List.mem_append.mp hi with hi | hi
          · exact ⟨List.mem_append_left _ hi, hnd.2.2 i hi p (by simp)⟩
          · exact ⟨by simp [hi], fun heq => hnd.2.1.1 (heq ▸ hi)⟩
        · rintro ⟨hi, hne⟩
          simpa [hne] using hi
    · obtain ⟨l', hl', hnd', hmem'⟩ := h.lists j hj
      -- the neighbours of `p` are on its own list
      have hnbr : ∀ a ∈ l', some a ≠ s.pre p ∧ some a ≠ s.next p := by
        intro a ha
        have hother : a ∉ l₁ ++ p :: l₂ := by
          intro hin
          exact hjk (free_unique ((hmem' a).mp ha) ((hmem a).mp hin))
        constructor
        · rw [hpre]
          intro heq
          exact hother (List.mem_append_left _ (List.mem_of_getLast? heq.symm))
        · rw [hl.next_eq]
          intro heq
          exact hother (by simp [List.mem_of_head? heq.symm])
      refine ⟨l', ?_, hnd', ?_⟩
      · rw [pageList_pageRemove, if_neg fun h => hjk h.1]
        apply hl'.congr
        · intro a ha
          exact (congrArg Page.next (hpage a)).trans (if_neg (hnbr a ha).1)
        · intro a ha
          exact (congrArg Page.pre (hpage a)).trans (if_neg (hnbr a ha).2)
      · intro i
        rw [hfree, hmem' i]
        refine ⟨fun hi => ⟨hi, ?_⟩, fun hi => hi.1⟩
        rintro rfl
        exact hjk (free_unique hi hf)
  · rw [hkept.base_eq]
    apply h.tiled.congr
    intro i j
    rw [hfree, Function.update_apply]
    by_cases hi : i = p
    · subst hi
      rw [if_pos rfl]
      constructor
      · rintro (⟨-, hne⟩ | hk)
        · exact absurd rfl hne
        · cases hk
          exact .inl hf
      · rintro (hfree | hused)
        · exact .inr (congrArg some (free_unique hf hfree))
        · rw [h.others_none hf] at hused
          cases hused
    · rw [if_neg hi]
      simp [hi]
  · rw [hkept.base_eq]
    intro i j k' hi hj
    exact h.apart i j k' ((hfree _ _).mp hi).1 ((hfree _ _).mp hj).1
  · intro i j hi
    rw [hpage]
    dsimp only
    rw [Function.update_apply] at hi
    split
    · rfl
    · rename_i hne
      rw [if_neg hne] at hi
      exact h.used i j hi
  · intro i hi
    rw [hpage]
    dsimp only
    rw [hkept.nr] at hi
    split
    · exact .inr rfl
    · exact h.sizes i hi

theorem Inv.insert (h : Inv s n others) (ho : others p = some k) (hk : k < archPageListSize)
    (hb : ∀ j, s.Free j k → ¬ IsBuddy s.base p j k) :
    Inv (s.pageInsert p k) n (Function.update others p none) ∧
      ∀ i j, (s.pageInsert p k).Free i j ↔ s.Free i j ∨ (i = p ∧ j = k) := by
  have hkept : Kept s (s.pageInsert p k) := kept_pageInsert
  have hsize := h.used p k ho
  have hlt : p < s.pageNr := by
    have := h.tiled.inside p k (.inr ho)
    have := Nat.two_pow_pos k
    have := h.le
    omega
  have hnot : ∀ j, ¬ s.Free p j := by
    rintro j ⟨-, hj, hlt⟩
    rw [hsize] at hj
    subst hj
    exact absurd hlt (by decide)
  have hfree : ∀ i j, (s.pageInsert p k).Free i j ↔ s.Free i j ∨ (i = p ∧ j = k) := by
    intro i j
    unfold Free
    rw [hkept.nr, page_pageInsert]
    dsimp only
    by_cases hi : i = p
    · subst hi
      rw [if_pos rfl]
      constructor
      · rintro ⟨-, rfl, -⟩
        exact .inr ⟨rfl, rfl⟩
      · rintro (hf | ⟨-, rfl⟩)
        · exact absurd hf (hnot j)
        · exact ⟨hlt, rfl, hk⟩
    · rw [if_neg hi]
      simp [hi]
  have hne : ∀ i j, s.Free i j → i ≠ p := by
    rintro i j hf rfl
    exact hnot j hf
  refine ⟨⟨?_, ?_, ?_, ?_, ?_, ?_, ?_, ?_, ?_⟩, hfree⟩
  · rw [hkept.addr, hkept.base_eq]
    exact h.addr
  · rw [hkept.nr, hkept.base_eq]
    exact h.top
  · rw [hkept.base_eq]
    exact h.pos
  · rw [hkept.nr]
    exact h.le
  · intro j hj
    obtain ⟨l, hl, hnd, hmem⟩ := h.lists j hj
    have hnext : ∀ a ∈ l, (s.pageInsert p k).next a = s.next a := by
      intro a ha
      exact (congrArg Page.next (page_pageInsert a)).trans (if_neg (hne a j ((hmem a).mp ha)))
    have hprev : ∀ a ∈ l, (s.pageInsert p k).pre a = if some a = s.pageList k then some p else s.pre a := by
      intro a ha
      exact (congrArg Page.pre (page_pageInsert a)).trans (if_neg (hne a j ((hmem a).mp ha)))
    by_cases hjk : j = k
    · subst hjk
      refine ⟨p :: l, ?_, ?_, ?_⟩
      · rw [pageList_pageInsert, if_pos rfl]
        apply hl.push hnd _ _ hnext hprev
        · exact (congrArg Page.next (page_pageInsert p)).trans (if_pos rfl)
        · exact (congrArg Page.pre (page_pageInsert p)).trans (if_pos rfl)
      · exact List.nodup_cons.mpr ⟨fun hp => hne p j ((hmem p).mp hp) rfl, hnd⟩
      · intro i
        rw [hfree, List.mem_cons, hmem i]
        simp [or_comm]
    · refine ⟨l, ?_, hnd, ?_⟩
      · rw [pageList_pageInsert, if_neg hjk]
        apply hl.congr hnext
        intro a ha
        rw [hprev a ha, if_neg]
        intro heq
        obtain ⟨l', hl', -, hmem'⟩ := h.lists k hk
        have hhead : a ∈ l' := List.mem_of_head? (hl'.chain.head ▸ heq.symm)
        exact hjk (free_unique ((hmem a).mp ha) ((hmem' a).mp hhead))
      · intro i
        rw [hfree, hmem i]
        simp [hjk]
  · rw [hkept.base_eq]
    apply h.tiled.congr
    intro i j
    rw [hfree, Function.update_apply]
    by_cases hi : i = p
    · subst hi
      rw [if_pos rfl, ho]
      simp [hnot j, eq_comm]
    · rw [if_neg hi]
      simp [hi]
  · rw [hkept.base_eq]
    intro i j k' hi hj
    rcases (hfree _ _).mp hi with hfi | ⟨rfl, rfl⟩
    · rcases (hfree _ _).mp hj with hfj | ⟨rfl, rfl⟩
      · exact h.apart i j k' hfi hfj
      · exact fun hij => hb i hfi hij.symm
    · rcases (hfree _ _).mp hj with hj | ⟨rfl, -⟩
      · exact hb j hj
      · exact not_isBuddy_self
  · intro i j hi
    rw [Function.update_apply] at hi
    rw [page_pageInsert]
    dsimp only
    split
    · rename_i heq
      rw [if_pos heq] at hi
      cases hi
    · rename_i heq
      rw [if_neg heq] at hi
      exact h.used i j hi
  · intro i hi
    rw [page_pageInsert]
    dsimp only
    rw [hkept.nr] at hi
    split
    · exact .inl hk
    · exact h.sizes i hi

end RtSmart.PageAlloc
