import RtSmart.Lwp.UserMmInv

/-!
The tables of the shared-memory objects, and what one process contributes to the reference counts: `refs` and
`uses` stand for what the other processes contribute.
-/

namespace RtSmart

open Lib

namespace Mm

variable {m m' : Mm} {id id' p : ℕ} {u : UserSpace} {va maxNr : ℕ}

def Live (m : Mm) (id : ℕ) : Prop := ∃ key, (key, id) ∈ m.shmTreeKey

def pagesOfObj (m : Mm) (id : ℕ) : List ℕ :=
  List.range' ((m.shmAry id).addr / archPageSize) ((m.shmAry id).size / archPageSize)

def objPages (m : Mm) : List ℕ := m.shmTreeKey.flatMap fun e => m.pagesOfObj e.2

def freeNext (m : Mm) (id : ℕ) : Option ℕ := addrLink (m.shmAry id).addr

structure ObjOk (m : Mm) (maxNr : ℕ) : Prop where
  keys : (m.shmTreeKey.map Prod.fst).Nodup
  ids : (m.shmTreeKey.map Prod.snd).Nodup
  key : ∀ e ∈ m.shmTreeKey, (m.shmAry e.2).key = e.1
  pa : ∀ addr id, (addr, id) ∈ m.shmTreePa ↔ m.Live id ∧ (m.shmAry id).addr = addr
  pa_nodup : m.shmTreePa.Nodup
  shape : ∀ id, m.Live id → ∃ b < archPageListSize, (m.shmAry id).size = 2 ^ (b + archPageShift) ∧
    (m.shmAry id).addr % archPageSize = 0 ∧ 0 < (m.shmAry id).addr
  pages : m.objPages.Nodup
  free : ∃ l, Chain m.freeNext m.shmFreeList l ∧ l.Nodup ∧ ∀ id ∈ l, id < m.shmIdUsed ∧ ¬ m.Live id
  used : ∀ id, m.Live id → id < m.shmIdUsed
  bound : m.shmIdUsed ≤ maxNr

structure Same (m m' : Mm) : Prop where
  treeKey : m'.shmTreeKey = m.shmTreeKey
  treePa : m'.shmTreePa = m.shmTreePa
  freeList : m'.shmFreeList = m.shmFreeList
  idUsed : m'.shmIdUsed = m.shmIdUsed
  addr : ∀ id, (m'.shmAry id).addr = (m.shmAry id).addr
  size : ∀ id, (m'.shmAry id).size = (m.shmAry id).size
  key : ∀ id, (m'.shmAry id).key = (m.shmAry id).key

theorem Same.refl (m : Mm) : Same m m := ⟨rfl, rfl, rfl, rfl, fun _ => rfl, fun _ => rfl, fun _ => rfl⟩

theorem Same.trans {m'' : Mm} (h : Same m m') (h' : Same m' m'') : Same m m'' where
  treeKey := h'.treeKey.trans h.treeKey
  treePa := h'.treePa.trans h.treePa
  freeList := h'.freeList.trans h.freeList
  idUsed := h'.idUsed.trans h.idUsed
  addr id := (h'.addr id).trans (h.addr id)
  size id := (h'.size id).trans (h.size id)
  key id := (h'.key id).trans (h.key id)

theorem same_setRef (m : Mm) (f : ℕ → ℕ) : Same m (m.setRef f) := ⟨rfl, rfl, rfl, rfl, fun _ => rfl, fun _ => rfl, fun _ => rfl⟩

@[simp] theorem shmAry_setRef (m : Mm) (f : ℕ → ℕ) : (m.setRef f).shmAry = m.shmAry := rfl

@[simp] theorem pageRef_setRef (m : Mm) (f : ℕ → ℕ) : (m.setRef f).pageRef = f := rfl

theorem shmAry_addShmRef (d : ℤ) (i : ℕ) : (m.addShmRef id d).shmAry i =
    if i = id then { m.shmAry id with ref := (m.shmAry id).ref + d } else m.shmAry i := by
  unfold addShmRef setShm
  by_cases h : i = id
  · subst h
    simp
  · simp [h]

theorem same_addShmRef (m : Mm) (id : ℕ) (d : ℤ) : Same m (m.addShmRef id d) where
  treeKey := rfl
  treePa := rfl
  freeList := rfl
  idUsed := rfl
  addr i := by
    rw [shmAry_addShmRef]
    split
    · next h => rw [h]
    · rfl
  size i := by
    rw [shmAry_addShmRef]
    split
    · next h => rw [h]
    · rfl
  key i := by
    rw [shmAry_addShmRef]
    split
    · next h => rw [h]
    · rfl

theorem Same.live (h : Same m m') : m'.Live id ↔ m.Live id := by
  unfold Live
  rw [h.treeKey]

theorem Same.objPages_eq (h : Same m m') : m'.objPages = m.objPages := by
  unfold objPages pagesOfObj
  rw [h.treeKey]
  simp only [h.addr, h.size]

theorem ObjOk.same (h : m.ObjOk maxNr) (hs : Same m m') : m'.ObjOk maxNr where
  keys := hs.treeKey ▸ h.keys
  ids := hs.treeKey ▸ h.ids
  key e he := by
    rw [hs.key]
    exact h.key e (hs.treeKey ▸ he)
  pa addr id := by
    rw [hs.treePa, hs.live, hs.addr]
    exact h.pa addr id
  pa_nodup := hs.treePa ▸ h.pa_nodup
  shape id hid := by
    rw [hs.size, hs.addr]
    exact h.shape id (hs.live.mp hid)
  pages := hs.objPages_eq ▸ h.pages
  free := by
    obtain ⟨l, hl, hnd, hout⟩ := h.free
    refine ⟨l, ?_, hnd, ?_⟩
    · rw [hs.freeList]
      apply hl.congr
      intro id _
      unfold freeNext
      rw [hs.addr]
    · intro id hid
      rw [hs.idUsed, hs.live]
      exact hout id hid
  used id hid := by
    rw [hs.idUsed]
    exact h.used id (hs.live.mp hid)
  bound := hs.idUsed ▸ h.bound

theorem mem_objPages : p ∈ m.objPages ↔ ∃ id, m.Live id ∧ p ∈ m.pagesOfObj id := by
  unfold objPages Live
  rw [List.mem_flatMap]
  constructor
  · rintro ⟨⟨key, id⟩, he, hp⟩
    exact ⟨id, ⟨key, he⟩, hp⟩
  · rintro ⟨id, ⟨key, he⟩, hp⟩
    exact ⟨(key, id), he, hp⟩

theorem ObjOk.page_inj (h : m.ObjOk maxNr) (hid : m.Live id) (hid' : m.Live id') (hp : p ∈ m.pagesOfObj id)
    (hp' : p ∈ m.pagesOfObj id') : id = id' := by
  obtain ⟨key, he⟩ := hid
  obtain ⟨key', he'⟩ := hid'
  have hpages := (List.nodup_flatMap.mp h.pages).2
  by_contra hne
  have hsymm : Std.Symm (Function.onFun List.Disjoint fun e : ℕ × ℕ => m.pagesOfObj e.2) := ⟨fun _ _ hd => hd.symm⟩
  have hdisj := hpages.forall he he' fun heq => hne (congrArg Prod.snd heq)
  exact hdisj hp hp'

theorem ObjOk.pages_pos (h : m.ObjOk maxNr) (hid : m.Live id) : 0 < (m.shmAry id).size / archPageSize := by
  obtain ⟨b, -, hsize, -⟩ := h.shape id hid
  rw [hsize, pow_add]
  simp [archPageShift, archPageSize]

theorem ObjOk.start_mem (h : m.ObjOk maxNr) (hid : m.Live id) :
    (m.shmAry id).addr / archPageSize ∈ m.pagesOfObj id := by
  have := h.pages_pos hid
  unfold pagesOfObj
  rw [List.mem_range'_1]
  omega

theorem ObjOk.addr_inj (h : m.ObjOk maxNr) (hid : m.Live id) (hid' : m.Live id')
    (heq : (m.shmAry id).addr = (m.shmAry id').addr) : id = id' := by
  refine h.page_inj hid hid' (h.start_mem hid) ?_
  rw [heq]
  exact h.start_mem hid'

theorem ObjOk.find_pa (h : m.ObjOk maxNr) (hid : m.Live id) : avlFind m.shmTreePa (m.shmAry id).addr = some id := by
  have hmem : ((m.shmAry id).addr, id) ∈ m.shmTreePa := (h.pa _ _).mpr ⟨hid, rfl⟩
  unfold avlFind
  cases hf : m.shmTreePa.find? fun e => e.1 = (m.shmAry id).addr with
  | none =>
    rw [List.find?_eq_none] at hf
    exact absurd (hf _ hmem) (by simp)
  | some e =>
    obtain ⟨addr, i⟩ := e
    have hi := (h.pa addr i).mp (List.mem_of_find?_eq_some hf)
    have haddr : addr = (m.shmAry id).addr := by simpa using List.find?_some hf
    rw [Option.map_some]
    congr 1
    exact h.addr_inj hi.1 hid (hi.2.trans haddr)

theorem ObjOk.of_find_pa (h : m.ObjOk maxNr) {addr : ℕ} (hf : avlFind m.shmTreePa addr = some id) :
    m.Live id ∧ (m.shmAry id).addr = addr := by
  unfold avlFind at hf
  obtain ⟨⟨a, i⟩, he, rfl⟩ := Option.map_eq_some_iff.mp hf
  have ha : a = addr := by simpa using List.find?_some he
  subst ha
  exact (h.pa a i).mp (List.mem_of_find?_eq_some he)

theorem ObjOk.of_find_key (h : m.ObjOk maxNr) {key : ℕ} (hf : avlFind m.shmTreeKey key = some id) :
    m.Live id ∧ (m.shmAry id).key = key := by
  unfold avlFind at hf
  obtain ⟨⟨k, i⟩, he, rfl⟩ := Option.map_eq_some_iff.mp hf
  have hk : k = key := by simpa using List.find?_some he
  subst hk
  exact ⟨⟨k, List.mem_of_find?_eq_some he⟩, h.key _ (List.mem_of_find?_eq_some he)⟩

theorem ObjOk.of_shmIdToNode (h : m.ObjOk maxNr) {i : ℤ} (hf : m.shmIdToNode maxNr i = some id) : m.Live id := by
  unfold shmIdToNode at hf
  split at hf
  · cases hf
  · split at hf
    · cases hf
    · next j hj =>
      split at hf
      · cases hf
        exact (h.of_find_key hj).1
      · cases hf

theorem ObjOk.lwpShmStructGet_eq (h : m.ObjOk maxNr) (hid : m.Live id) (u : UserSpace) (va : ℕ)
    (hva : u.rtHwMmuV2p va = (m.shmAry id).addr) :
    m.lwpShmStructGet u va = some id := by
  unfold lwpShmStructGet
  rw [hva]
  exact h.find_pa hid

end Mm

variable {m m' : Mm} {u u' : UserSpace} {refs uses : ℕ → ℕ} {maxNr : ℕ} {a b : MmArea} {l l' kept : List MmArea}
  {t t' : ℕ → Option Pte} {v n id : ℕ}

def Mm.Backs (m : Mm) (t : ℕ → Option Pte) (a : MmArea) (id : ℕ) : Prop :=
  m.Live id ∧ (m.shmAry id).size = a.size ∧ v2p t a.addr = (m.shmAry id).addr

theorem v2p_congr (ht : t' (slot a.vpn) = t (slot a.vpn)) : v2p t' a.addr = v2p t a.addr := by
  unfold v2p UserSpace.rtHwMmuV2p
  rw [show slot (a.addr / archPageSize) = slot a.vpn from rfl]
  simp only [ht]

structure SpaceOk (m : Mm) (u : UserSpace) : Prop where
  tabled : Tabled u.vtable u.mapArea
  ordered : Ordered u.mapArea
  shm : ∀ a ∈ u.mapArea, a.type = .shm → ∃ id, m.Backs u.vtable a id

/-- The counts are right, with what the other processes contribute. -/
structure Balanced (maxNr : ℕ) (refs uses : ℕ → ℕ) (m : Mm) (u : UserSpace) : Prop where
  objs : m.ObjOk maxNr
  space : SpaceOk m u
  exact : ∀ id, m.Live id →
    (m.shmAry id).ref = (refs (m.shmAry id).addr + shmAreas u.vtable u.mapArea (m.shmAry id).addr : ℕ)
  held : ∀ p, uses p + (heldBy u.vtable u.mapArea).count p + m.objPages.count p ≤ m.pageRef p
  apart : ∀ p ∈ m.objPages, uses p + (heldBy u.vtable u.mapArea).count p = 0

theorem SpaceOk.same (h : SpaceOk m u) (hs : m.Same m') : SpaceOk m' u where
  tabled := h.tabled
  ordered := h.ordered
  shm a ha hshm := by
    obtain ⟨id, hid, hsize, hv⟩ := h.shm a ha hshm
    exact ⟨id, hs.live.mpr hid, (hs.size id).trans hsize, hv.trans (hs.addr id).symm⟩

theorem Balanced.ref_pos (h : Balanced maxNr refs uses m u) (ha : a ∈ u.mapArea) (hshm : a.type = .shm)
    (hb : m.Backs u.vtable a id) : 0 < (m.shmAry id).ref := by
  rw [h.exact id hb.1]
  have hpos : 0 < shmAreas u.vtable u.mapArea (m.shmAry id).addr := by
    apply List.countP_pos_iff.mpr
    exact ⟨a, ha, by simp [hshm, hb.2.2]⟩
  omega

theorem Balanced.lwpShmRefDec_eq (h : Balanced maxNr refs uses m u) (ha : a ∈ u.mapArea) (hshm : a.type = .shm)
    (hb : m.Backs u.vtable a id) :
    m.lwpShmRefDec u a.addr = (m.addShmRef id (-1), (m.shmAry id).ref - 1) := by
  have hget := h.objs.lwpShmStructGet_eq hb.1 u a.addr hb.2.2
  unfold Mm.lwpShmRefDec
  rw [hget]
  exact if_pos (h.ref_pos ha hshm hb)

def Mm.detach (m : Mm) (u : UserSpace) (a : MmArea) : Mm :=
  if a.type = .shm then (m.lwpShmRefDec u a.addr).1 else m

theorem Mm.same_lwpShmRefDec (m : Mm) (u : UserSpace) (va : ℕ) : m.Same (m.lwpShmRefDec u va).1 := by
  unfold Mm.lwpShmRefDec
  split
  · exact .refl m
  · split
    · exact same_addShmRef _ _ _
    · exact .refl m

theorem Mm.same_detach (m : Mm) (u : UserSpace) (a : MmArea) : m.Same (m.detach u a) := by
  unfold Mm.detach
  split
  · exact same_lwpShmRefDec m u a.addr
  · exact .refl m

theorem Mm.pageRef_addShmRef (d : ℤ) : (m.addShmRef id d).pageRef = m.pageRef := rfl

theorem Mm.pageRef_detach : (m.detach u a).pageRef = m.pageRef := by
  unfold Mm.detach Mm.lwpShmRefDec
  split
  · split
    · rfl
    · split <;> rfl
  · rfl

theorem Balanced.ref_detach (h : Balanced maxNr refs uses m u) (ha : a ∈ u.mapArea) (hid : m.Live id) :
    ((m.detach u a).shmAry id).ref =
      (m.shmAry id).ref - if a.type = .shm ∧ v2p u.vtable a.addr = (m.shmAry id).addr then 1 else 0 := by
  unfold Mm.detach
  by_cases hshm : a.type = .shm
  · obtain ⟨i, hb⟩ := h.space.shm a ha hshm
    rw [if_pos hshm, h.lwpShmRefDec_eq ha hshm hb, Mm.shmAry_addShmRef]
    by_cases hi : id = i
    · subst hi
      simp [hshm, hb.2.2, Int.sub_eq_add_neg]
    · have hne : v2p u.vtable a.addr ≠ (m.shmAry id).addr := by
        rw [hb.2.2]
        exact fun heq => hi (h.objs.addr_inj hid hb.1 heq.symm)
      simp [hi, hne]
  · simp [hshm]

theorem Balanced.carve (h : Balanced maxNr refs uses m u) (hperm : u.mapArea.Perm (a :: l))
    (hr : Remains a (slots v n) kept) (hshm : a.type = .shm → kept = []) (hl' : l'.Perm (kept ++ l))
    (hord : Ordered l') :
    Balanced maxNr refs uses (unmapRange a.type.paNeedFree v n (m.detach u a, u)).1
        { (unmapRange a.type.paNeedFree v n (m.detach u a, u)).2 with mapArea := l' } ∧
      m.Same (unmapRange a.type.paNeedFree v n (m.detach u a, u)).1 := by
  have hcons := h.space.tabled.perm hperm
  have hcut : (slots v n).Nodup := (List.nodup_append'.mp (hr.nodup hcons)).1
  have ha : a ∈ u.mapArea := hperm.mem_iff.mpr List.mem_cons_self
  have hsame : m.Same ((m.detach u a).setRef fun p =>
      (m.detach u a).pageRef p - dropped a.type.paNeedFree ((slots v n).map u.vtable) p) :=
    (m.same_detach u a).trans (Mm.same_setRef _ _)
  rw [unmapRange_eq _ _ hcut]
  refine ⟨?_, hsame⟩
  have htabled := (hcons.carve hr).perm hl'.symm
  have hheld : ∀ p, (heldBy u.vtable u.mapArea).count p = dropped a.type.paNeedFree ((slots v n).map u.vtable) p +
      (heldBy (clearSlots u.vtable (slots v n)) l').count p := by
    intro p
    rw [heldBy_perm hperm, heldBy_carve hcons hr, heldBy_perm hl']
  constructor
  · exact h.objs.same hsame
  · refine ⟨htabled, hord, ?_⟩
    -- what is left of shared memory are whole areas that keep their entries
    intro b hb hbshm
    have hbl : b ∈ l := by
      rcases List.mem_append.mp (hl'.mem_iff.mp hb) with hk | hbl
      · rw [hshm ((hr.type b hk).symm.trans hbshm)] at hk
        exact absurd hk List.not_mem_nil
      · exact hbl
    obtain ⟨id, hid, hsize, hv⟩ := h.space.shm b (hperm.mem_iff.mpr (List.mem_cons_of_mem a hbl)) hbshm
    refine ⟨id, hsame.live.mpr hid, (hsame.size id).trans hsize, ?_⟩
    have hslot : slot b.vpn ∉ slots v n := hr.notMem_cut hcons
      (List.mem_flatMap.mpr ⟨b, List.mem_append_right kept hbl, (htabled.aligned b hb).slot_mem⟩)
    rw [hsame.addr, ← hv]
    exact v2p_congr (clearSlots_of_notMem hslot)
  · intro id hid
    have hid := hsame.live.mp hid
    have hareas : shmAreas u.vtable u.mapArea (m.shmAry id).addr =
        shmAreas (clearSlots u.vtable (slots v n)) l' (m.shmAry id).addr +
          if a.type = .shm ∧ v2p u.vtable a.addr = (m.shmAry id).addr then 1 else 0 := by
      rw [shmAreas_perm hperm, shmAreas_carve hcons hr hshm, shmAreas_perm hl']
    have hexact := h.exact id hid
    have hdetach := h.ref_detach ha hid
    rw [hsame.addr]
    rw [hareas] at hexact
    dsimp only
    rw [Mm.shmAry_setRef, hdetach, hexact]
    split <;> push_cast <;> ring
  · intro p
    have := h.held p
    have := hheld p
    rw [hsame.objPages_eq]
    simp only [Mm.pageRef_setRef, Mm.pageRef_detach]
    omega
  · intro p hp
    rw [hsame.objPages_eq] at hp
    have := h.apart p hp
    have := hheld p
    dsimp only
    omega

theorem Balanced.untouched (h : Balanced maxNr refs uses m u) (hun : Untouched u u') : Balanced maxNr refs uses m u' := by
  obtain ⟨l, t⟩ := u'
  obtain ⟨rfl, ht⟩ := hun
  have hagree : ∀ s ∈ u.mapArea.flatMap MmArea.slots, t s = u.vtable s := fun s hs => ht s (h.space.tabled.mapped hs)
  have hareas : ∀ addr, shmAreas t u.mapArea addr = shmAreas u.vtable u.mapArea addr :=
    fun addr => shmAreas_congr h.space.tabled.aligned hagree
  have hheld : heldBy t u.mapArea = heldBy u.vtable u.mapArea := heldBy_congr hagree
  refine ⟨h.objs, ⟨h.space.tabled.congr hagree, h.space.ordered, ?_⟩, ?_, ?_, ?_⟩
  · intro a ha hshm
    obtain ⟨id, hid, hsize, hv⟩ := h.space.shm a ha hshm
    have hslot : t (slot a.vpn) = u.vtable (slot a.vpn) :=
      hagree _ (List.mem_flatMap.mpr ⟨a, ha, (h.space.tabled.aligned a ha).slot_mem⟩)
    refine ⟨id, hid, hsize, ?_⟩
    rw [← hv]
    exact v2p_congr hslot
  · intro id hid
    rw [hareas]
    exact h.exact id hid
  · intro p
    rw [hheld]
    exact h.held p
  · intro p hp
    rw [hheld]
    exact h.apart p hp

section AddArea

variable {mapVa va : ℕ} {ps : List ℕ} {type : AreaType} {attr : MmuAttr}

def newArea (type : AreaType) (n va : ℕ) : MmArea := ⟨va, n * archPageSize, type, 0⟩

theorem pages_newArea : (newArea type n va).pages = n := Nat.mul_div_cancel n (by decide)

theorem slots_newArea : (newArea type n va).slots = slots (va / archPageSize) n := by
  unfold MmArea.slots
  rw [pages_newArea]
  rfl

theorem v2p_addArea {p : ℕ} (hcan : CanMap u mapVa (p :: ps).length va) :
    v2p (u.addArea type attr (p :: ps) va).vtable va = p * archPageSize := by
  have hmap := map_mapPages (u := u) attr hcan.slots_nodup
  rw [List.length_cons, slots_succ, List.map_cons, List.map_cons] at hmap
  have hhead := (List.cons.inj hmap).1
  unfold v2p UserSpace.rtHwMmuV2p UserSpace.addArea
  simp only [hhead, hcan.2.2.2.2.1, Nat.add_zero]

theorem Balanced.addArea (h : Balanced maxNr refs uses m u) (hs : m.Same m') (hcan : CanMap u mapVa ps.length va)
    (he : type.Entries (ps.map fun p => some ⟨p, attr⟩))
    (hshm : type = .shm → ∃ id, m.Backs (u.addArea type attr ps va).vtable (newArea type ps.length va) id)
    (href : ∀ id, m.Live id → (m'.shmAry id).ref = (m.shmAry id).ref +
      if type = .shm ∧ v2p (u.addArea type attr ps va).vtable va = (m.shmAry id).addr then 1 else 0)
    (hpage : ∀ p, m.pageRef p + dropped type.paNeedFree (ps.map fun p => some ⟨p, attr⟩) p ≤ m'.pageRef p)
    (hapart : ∀ p ∈ m.objPages, dropped type.paNeedFree (ps.map fun p => some ⟨p, attr⟩) p = 0) :
    Balanced maxNr refs uses m' (u.addArea type attr ps va) := by
  set a := newArea type ps.length va with ha
  have hslots : a.slots = slots (va / archPageSize) ps.length := slots_newArea
  have hentries : a.slots.map (u.addArea type attr ps va).vtable = ps.map fun p => some ⟨p, attr⟩ := by
    rw [hslots]
    exact map_mapPages attr hcan.slots_nodup
  have hfree : ∀ s ∈ a.slots, u.vtable s = none := by
    rw [hslots]
    exact fun s hs => hcan.free hs
  have hother : ∀ s ∉ a.slots, (u.addArea type attr ps va).vtable s = u.vtable s := by
    rw [hslots]
    exact fun s hs => vtable_mapPages attr hs
  have hperm : (u.addArea type attr ps va).mapArea.Perm (a :: u.mapArea) := lwpAreaInsert_perm _ _
  have hcons : Tabled (u.addArea type attr ps va).vtable (a :: u.mapArea) := by
    refine h.space.tabled.add hfree hother hcan.aligned ?_ ?_
    · rw [hslots]
      exact hcan.slots_nodup
    · rw [hentries]
      exact he
  have hheld : ∀ p, (heldBy (u.addArea type attr ps va).vtable (u.addArea type attr ps va).mapArea).count p =
      dropped type.paNeedFree (ps.map fun p => some ⟨p, attr⟩) p + (heldBy u.vtable u.mapArea).count p := by
    intro p
    rw [heldBy_perm hperm, heldBy_add h.space.tabled hfree hother, List.count_append, hentries]
    unfold dropped
    rw [show a.type = type from rfl]
    split <;> simp
  constructor
  · exact h.objs.same hs
  · refine ⟨hcons.perm hperm.symm, hcons.ordered_insert h.space.ordered, ?_⟩
    intro b hb hbshm
    rcases List.mem_cons.mp (hperm.mem_iff.mp hb) with rfl | hb
    · obtain ⟨id, hid, hsize, hv⟩ := hshm hbshm
      exact ⟨id, hs.live.mpr hid, (hs.size id).trans hsize, hv.trans (hs.addr id).symm⟩
    · obtain ⟨id, hid, hsize, hv⟩ := h.space.shm b hb hbshm
      refine ⟨id, hs.live.mpr hid, (hs.size id).trans hsize, ?_⟩
      rw [hs.addr, ← hv]
      apply v2p_congr
      exact h.space.tabled.agree hfree hother
        (List.mem_flatMap.mpr ⟨b, hb, (h.space.tabled.aligned b hb).slot_mem⟩)
  · intro id hid
    have hid := hs.live.mp hid
    have hareas : shmAreas (u.addArea type attr ps va).vtable (u.addArea type attr ps va).mapArea (m.shmAry id).addr =
        shmAreas u.vtable u.mapArea (m.shmAry id).addr +
          if type = .shm ∧ v2p (u.addArea type attr ps va).vtable va = (m.shmAry id).addr then 1 else 0 := by
      rw [shmAreas_perm hperm, shmAreas_add h.space.tabled hfree hother]
      rfl
    have hexact := h.exact id hid
    rw [hs.addr, hareas, href id hid, hexact]
    split <;> push_cast <;> ring
  · intro p
    have := h.held p
    have := hheld p
    have := hpage p
    rw [hs.objPages_eq]
    omega
  · intro p hp
    rw [hs.objPages_eq] at hp
    have := h.apart p hp
    have := hheld p
    have := hapart p hp
    omega

end AddArea

end RtSmart
