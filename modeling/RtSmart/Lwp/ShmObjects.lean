import RtSmart.Lwp.ShmInv

/-!
How objects of shared memory come and go (`lwp_shmget`, `lwp_shmrm`).
-/

namespace RtSmart

open Lib

namespace Mm

variable {m m' : Mm} {id i maxNr key ppn n : ℕ}

/-- An index that belongs to no object and is not on the free list. -/
structure Taken (m : Mm) (id : ℕ) : Prop where
  not_live : ¬ m.Live id
  lt : id < m.shmIdUsed
  free : ∃ l, Chain m.freeNext m.shmFreeList l ∧ l.Nodup ∧ (∀ i ∈ l, i < m.shmIdUsed ∧ ¬ m.Live i) ∧ id ∉ l

def Extends (m m' : Mm) : Prop := ∀ id, m.Live id → m'.Live id ∧ m'.shmAry id = m.shmAry id

theorem Extends.spaceOk {u : UserSpace} (h : Extends m m') (hs : SpaceOk m u) : SpaceOk m' u where
  tabled := hs.tabled
  ordered := hs.ordered
  shm a ha hshm := by
    obtain ⟨id, hid, hsize, hv⟩ := hs.shm a ha hshm
    obtain ⟨hid', heq⟩ := h id hid
    exact ⟨id, hid', heq ▸ hsize, heq ▸ hv⟩

theorem shmIdAlloc_spec (h : m.ObjOk maxNr) (hal : m.shmIdAlloc maxNr = (m', some id)) :
    m'.ObjOk maxNr ∧ m'.Taken id ∧ m'.shmTreeKey = m.shmTreeKey ∧ m'.shmTreePa = m.shmTreePa ∧ m'.shmAry = m.shmAry ∧
      m'.pageRef = m.pageRef := by
  obtain ⟨l, hl, hnd, hout⟩ := h.free
  unfold shmIdAlloc at hal
  split at hal
  · next i hi =>
    cases hal
    rw [hi] at hl
    obtain ⟨l', rfl, hl'⟩ := chain_some hl
    rw [List.nodup_cons] at hnd
    rw [List.forall_mem_cons] at hout
    have hfree : ∃ l, Chain m.freeNext (addrLink (m.shmAry id).addr) l ∧ l.Nodup ∧
        ∀ i ∈ l, i < m.shmIdUsed ∧ ¬ m.Live i := ⟨l', hl', hnd.2, hout.2⟩
    refine ⟨⟨h.keys, h.ids, h.key, h.pa, h.pa_nodup, h.shape, h.pages, hfree, h.used, h.bound⟩, ?_, rfl, rfl, rfl, rfl⟩
    exact ⟨hout.1.2, hout.1.1, l', hl', hnd.2, hout.2, hnd.1⟩
  · next hnone =>
    split at hal
    · next hlt =>
      cases hal
      have hfree : ∀ i ∈ l, i < m.shmIdUsed + 1 ∧ ¬ m.Live i := fun i hi => ⟨by have := (hout i hi).1; omega, (hout i hi).2⟩
      refine ⟨⟨h.keys, h.ids, h.key, h.pa, h.pa_nodup, h.shape, h.pages, ⟨l, hl, hnd, hfree⟩, ?_, hlt⟩, ?_, rfl, rfl, rfl, rfl⟩
      · intro i hi
        exact (h.used i hi).trans (Nat.lt_succ_self _)
      · refine ⟨fun hi => lt_irrefl _ (h.used _ hi), Nat.lt_succ_self _, l, hl, hnd, hfree, ?_⟩
        intro hi
        exact lt_irrefl _ (hout _ hi).1
    · cases hal

theorem shmAry_setShm (p : ShmStruct) : (m.setShm id p).shmAry i = if i = id then p else m.shmAry i := by
  unfold setShm
  by_cases h : i = id
  · subst h
    simp
  · simp [h]

theorem addrLink_linkAddr {o : Option ℕ} (h : ∀ i, o = some i → i < 2 ^ 31) : addrLink (linkAddr o) = o := by
  unfold addrLink linkAddr
  cases o with
  | none => simp
  | some i =>
    have := h i rfl
    dsimp only
    rw [if_neg (by omega)]

theorem ObjOk.setShm (h : m.ObjOk maxNr) (ht : m.Taken id) (p : ShmStruct) : (m.setShm id p).ObjOk maxNr := by
  have hne : ∀ i, m.Live i → i ≠ id := by
    rintro i hi rfl
    exact ht.not_live hi
  have hary : ∀ i, m.Live i → (m.setShm id p).shmAry i = m.shmAry i := fun i hi => by
    rw [shmAry_setShm, if_neg (hne i hi)]
  have hpages : (m.setShm id p).objPages = m.objPages := by
    apply List.flatMap_congr
    rintro ⟨key, i⟩ he
    unfold pagesOfObj
    rw [hary i ⟨key, he⟩]
  refine ⟨h.keys, h.ids, ?_, ?_, h.pa_nodup, ?_, hpages ▸ h.pages, ?_, h.used, h.bound⟩
  · rintro ⟨key, i⟩ he
    rw [hary i ⟨key, he⟩]
    exact h.key _ he
  · intro addr i
    show (addr, i) ∈ m.shmTreePa ↔ m.Live i ∧ _
    rw [h.pa]
    refine and_congr_right fun hi => ?_
    rw [hary i hi]
  · intro i hi
    rw [hary i hi]
    exact h.shape i hi
  · obtain ⟨l, hl, hnd, hout, hid⟩ := ht.free
    refine ⟨l, hl.congr ?_, hnd, hout⟩
    intro i hi
    unfold freeNext
    rw [shmAry_setShm, if_neg]
    rintro rfl
    exact hid hi

theorem Taken.setShm (ht : m.Taken id) (p : ShmStruct) : (m.setShm id p).Taken id := by
  refine ⟨ht.not_live, ht.lt, ?_⟩
  obtain ⟨l, hl, hnd, hout, hid⟩ := ht.free
  refine ⟨l, hl.congr ?_, hnd, hout, hid⟩
  intro i hi
  unfold freeNext
  rw [shmAry_setShm, if_neg]
  rintro rfl
  exact hid hi

theorem ObjOk.shmIdFree (h : m.ObjOk maxNr) (ht : m.Taken id) (hmax : maxNr < 2 ^ 31) : (m.shmIdFree id).ObjOk maxNr := by
  set p : ShmStruct := { m.shmAry id with addr := linkAddr m.shmFreeList } with hp
  have hset := h.setShm ht p
  obtain ⟨l, hl, hnd, hout, hid⟩ := (ht.setShm p).free
  have hchain : Chain (m.shmIdFree id).freeNext (some id) (id :: l) := by
    have hnext : (m.shmIdFree id).freeNext id = m.shmFreeList := by
      show addrLink ((m.setShm id p).shmAry id).addr = m.shmFreeList
      rw [shmAry_setShm, if_pos rfl, hp]
      apply addrLink_linkAddr
      intro i hi
      have hhead := hl.head
      rw [show (m.setShm id p).shmFreeList = m.shmFreeList from rfl, hi] at hhead
      have hmem : i ∈ l := List.mem_of_head? hhead.symm
      have hlt : i < m.shmIdUsed := (hout i hmem).1
      have := h.bound
      omega
    refine ⟨rfl, ?_⟩
    rw [hnext]
    exact hl
  refine ⟨hset.keys, hset.ids, hset.key, hset.pa, hset.pa_nodup, hset.shape, hset.pages, ?_, hset.used, hset.bound⟩
  refine ⟨id :: l, hchain, List.nodup_cons.mpr ⟨hid, hnd⟩, List.forall_mem_cons.mpr ⟨⟨ht.lt, ht.not_live⟩, hout⟩⟩

def insertObj (m : Mm) (id : ℕ) (p : ShmStruct) : Mm :=
  { m.setShm id p with
    shmTreeKey := (p.key, id) :: m.shmTreeKey
    shmTreePa := (p.addr, id) :: m.shmTreePa }

section Insert

variable {p : ShmStruct}

theorem shmAry_insertObj : (m.insertObj id p).shmAry i = if i = id then p else m.shmAry i := shmAry_setShm p

theorem live_insertObj : (m.insertObj id p).Live i ↔ i = id ∨ m.Live i := by
  unfold Live insertObj
  constructor
  · rintro ⟨key, he⟩
    rcases List.mem_cons.mp he with heq | he
    · exact .inl (Prod.mk.inj heq).2
    · exact .inr ⟨key, he⟩
  · rintro (rfl | ⟨key, he⟩)
    · exact ⟨p.key, List.mem_cons_self⟩
    · exact ⟨key, List.mem_cons_of_mem _ he⟩

variable (h : m.ObjOk maxNr) (ht : m.Taken id)

include ht

theorem ary_of_live (hi : m.Live i) : (m.insertObj id p).shmAry i = m.shmAry i := by
  rw [shmAry_insertObj, if_neg]
  rintro rfl
  exact ht.not_live hi

theorem objPages_insertObj :
    (m.insertObj id p).objPages = List.range' (p.addr / archPageSize) (p.size / archPageSize) ++ m.objPages := by
  unfold objPages
  rw [show (m.insertObj id p).shmTreeKey = (p.key, id) :: m.shmTreeKey from rfl, List.flatMap_cons]
  congr 1
  · unfold pagesOfObj
    rw [shmAry_insertObj, if_pos rfl]
  · apply List.flatMap_congr
    rintro ⟨key, i⟩ he
    unfold pagesOfObj
    rw [ary_of_live ht ⟨key, he⟩]

include h

theorem ObjOk.insertObj {b : ℕ} (hkey : ∀ e ∈ m.shmTreeKey, e.1 ≠ p.key) (hb : b < archPageListSize)
    (hsize : p.size = 2 ^ (b + archPageShift)) (hmod : p.addr % archPageSize = 0) (hpos : 0 < p.addr)
    (hfresh : ∀ q ∈ List.range' (p.addr / archPageSize) (p.size / archPageSize), q ∉ m.objPages) :
    (m.insertObj id p).ObjOk maxNr := by
  have hset := h.setShm ht p
  have hfirst : p.addr / archPageSize ∈ List.range' (p.addr / archPageSize) (p.size / archPageSize) := by
    rw [List.mem_range'_1, hsize, pow_add]
    have : 0 < 2 ^ b * 2 ^ archPageShift / archPageSize := by
      simp [archPageShift, archPageSize]
    omega
  -- the address of an old object is another one
  have haddr : ∀ i, m.Live i → (m.shmAry i).addr ≠ p.addr := by
    intro i hi heq
    refine hfresh _ hfirst (mem_objPages.mpr ⟨i, hi, ?_⟩)
    rw [← heq]
    exact h.start_mem hi
  constructor
  · refine List.nodup_cons.mpr ⟨?_, h.keys⟩
    rintro hmem
    obtain ⟨e, he, heq⟩ := List.mem_map.mp hmem
    exact hkey e he heq
  · refine List.nodup_cons.mpr ⟨?_, h.ids⟩
    rintro hmem
    obtain ⟨⟨key, i⟩, he, rfl⟩ := List.mem_map.mp hmem
    exact ht.not_live ⟨key, he⟩
  · rintro ⟨key, i⟩ he
    rcases List.mem_cons.mp he with heq | he
    · obtain ⟨rfl, rfl⟩ := Prod.mk.inj heq
      rw [shmAry_insertObj, if_pos rfl]
    · rw [ary_of_live ht ⟨key, he⟩]
      exact h.key _ he
  · intro addr i
    rw [live_insertObj, show (m.insertObj id p).shmTreePa = (p.addr, id) :: m.shmTreePa from rfl, List.mem_cons, h.pa]
    constructor
    · rintro (heq | ⟨hi, ha⟩)
      · obtain ⟨rfl, rfl⟩ := Prod.mk.inj heq
        exact ⟨.inl rfl, by rw [shmAry_insertObj, if_pos rfl]⟩
      · exact ⟨.inr hi, by rw [ary_of_live ht hi]; exact ha⟩
    · rintro ⟨rfl | hi, ha⟩
      · rw [shmAry_insertObj, if_pos rfl] at ha
        exact .inl (by rw [ha])
      · rw [ary_of_live ht hi] at ha
        exact .inr ⟨hi, ha⟩
  · refine List.nodup_cons.mpr ⟨?_, h.pa_nodup⟩
    intro hmem
    exact ht.not_live ((h.pa _ _).mp hmem).1
  · intro i hi
    rcases live_insertObj.mp hi with rfl | hi
    · rw [shmAry_insertObj, if_pos rfl]
      exact ⟨b, hb, hsize, hmod, hpos⟩
    · rw [ary_of_live ht hi]
      exact h.shape i hi
  · rw [objPages_insertObj ht, List.nodup_append']
    exact ⟨List.nodup_range', h.pages, hfresh⟩
  · obtain ⟨l, hl, hnd, hout, hid⟩ := (ht.setShm p).free
    refine ⟨l, hl, hnd, ?_⟩
    intro i hi
    refine ⟨(hout i hi).1, ?_⟩
    rw [live_insertObj]
    rintro (rfl | hlive)
    · exact hid hi
    · exact (hout i hi).2 hlive
  · intro i hi
    rcases live_insertObj.mp hi with rfl | hi
    · exact ht.lt
    · exact h.used i hi
  · exact h.bound

end Insert

def eraseObj (m : Mm) (i : ℕ) : Mm :=
  { m with
    shmTreeKey := m.shmTreeKey.erase ((m.shmAry i).key, i)
    shmTreePa := m.shmTreePa.erase ((m.shmAry i).addr, i) }

section Erase

variable (h : m.ObjOk maxNr) (hi : m.Live i)

include h

theorem ObjOk.live_eraseObj : (m.eraseObj i).Live id ↔ m.Live id ∧ id ≠ i := by
  have hnd : m.shmTreeKey.Nodup := List.Nodup.of_map Prod.snd h.ids
  unfold Live eraseObj
  dsimp only
  constructor
  · rintro ⟨key, he⟩
    rw [hnd.mem_erase_iff] at he
    refine ⟨⟨key, he.2⟩, ?_⟩
    rintro rfl
    apply he.1
    rw [h.key _ he.2]
  · rintro ⟨⟨key, he⟩, hne⟩
    refine ⟨key, ?_⟩
    rw [hnd.mem_erase_iff]
    exact ⟨fun heq => hne (Prod.mk.inj heq).2, he⟩

include hi

theorem ObjOk.objPages_eraseObj : m.objPages.Perm (m.pagesOfObj i ++ (m.eraseObj i).objPages) := by
  obtain ⟨key, he⟩ := hi
  have hkey : (m.shmAry i).key = key := h.key _ he
  have hperm : m.shmTreeKey.Perm ((key, i) :: m.shmTreeKey.erase (key, i)) := List.perm_cons_erase he
  have hflat := hperm.flatMap_right fun e => m.pagesOfObj e.2
  rw [List.flatMap_cons] at hflat
  unfold objPages eraseObj
  rw [hkey]
  exact hflat

theorem ObjOk.eraseObj : (m.eraseObj i).ObjOk maxNr ∧ (m.eraseObj i).Taken i := by
  obtain ⟨l, hl, hnd, hout⟩ := h.free
  have hlive : ∀ {id}, (m.eraseObj i).Live id ↔ m.Live id ∧ id ≠ i := h.live_eraseObj
  have hsub : (m.eraseObj i).shmTreeKey.Sublist m.shmTreeKey := List.erase_sublist
  have hfree : ∀ id ∈ l, id < m.shmIdUsed ∧ ¬ (m.eraseObj i).Live id := fun id hid =>
    ⟨(hout id hid).1, fun hl => (hout id hid).2 (hlive.mp hl).1⟩
  refine ⟨⟨?_, ?_, ?_, ?_, ?_, ?_, ?_, ⟨l, hl, hnd, hfree⟩, ?_, h.bound⟩, ?_⟩
  · exact h.keys.sublist (hsub.map _)
  · exact h.ids.sublist (hsub.map _)
  · exact fun e he => h.key e (hsub.subset he)
  · intro addr id
    rw [hlive, show (m.eraseObj i).shmTreePa = m.shmTreePa.erase ((m.shmAry i).addr, i) from rfl,
      h.pa_nodup.mem_erase_iff, h.pa]
    constructor
    · rintro ⟨hne, hid, rfl⟩
      refine ⟨⟨hid, ?_⟩, rfl⟩
      rintro rfl
      exact hne rfl
    · rintro ⟨⟨hid, hne⟩, rfl⟩
      exact ⟨fun heq => hne (Prod.mk.inj heq).2, hid, rfl⟩
  · exact h.pa_nodup.erase _
  · exact fun id hid => h.shape id (hlive.mp hid).1
  · exact (List.nodup_append'.mp ((h.objPages_eraseObj hi).nodup_iff.mp h.pages)).2.1
  · exact fun id hid => h.used id (hlive.mp hid).1
  · exact ⟨fun hl => (hlive.mp hl).2 rfl, h.used i hi, l, hl, hnd, hfree, fun hil => (hout i hil).2 hi⟩

end Erase

theorem rtPageBits_pow {b : ℕ} (hb : b < archPageListSize) : rtPageBits (2 ^ (b + archPageShift)) = b := by
  have hall : ∀ b < 52, rtPageBits (2 ^ (b + 12)) = b := by decide +kernel
  exact hall b hb

end Mm

end RtSmart
