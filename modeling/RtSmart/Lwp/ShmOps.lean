import RtSmart.Lwp.MunmapStep
import RtSmart.Lwp.Fork

/-!
Each call on an address space keeps the reference counts right.
-/

namespace RtSmart

open Lib

variable {m m' : Mm} {u u' parent : UserSpace} {refs uses : ℕ → ℕ} {maxNr : ℕ} {a ma : MmArea} {l l₁ l₂ : List MmArea}
  {start stop va n id : ℕ} {x y : Mm × UserSpace}

/-- The counts are right for a pair, and the objects are those of `m`. -/
structure Kept (maxNr : ℕ) (refs uses : ℕ → ℕ) (m : Mm) (x : Mm × UserSpace) : Prop where
  balanced : Balanced maxNr refs uses x.1 x.2
  same : m.Same x.1

theorem Kept.of_balanced (h : Balanced maxNr refs uses m u) : Kept maxNr refs uses m (m, u) := ⟨h, .refl m⟩

theorem Turn.parts_nil (h : Turn l₁ ma l₂ start stop) (hshm : ma.type = .shm) : ma.parts start stop = [] := by
  obtain ⟨hs, he⟩ := h.shm hshm
  unfold MmArea.parts
  rw [if_pos hs, if_pos he]

theorem Kept.cutArea (h : Kept maxNr refs uses m x) (hx : x.2.mapArea = l₁ ++ ma :: l₂) (ht : Turn l₁ ma l₂ start stop) :
    Kept maxNr refs uses m (cutArea x l₁ ma l₂ start stop) := by
  have hperm : x.2.mapArea.Perm (ma :: (l₁ ++ l₂)) := hx ▸ List.perm_middle
  have hl' : (l₁ ++ ma.parts start stop ++ l₂).Perm (ma.parts start stop ++ (l₁ ++ l₂)) := by
    rw [← List.append_assoc]
    exact List.Perm.append_right _ List.perm_append_comm
  have hcarve := h.balanced.carve hperm ht.remains ht.parts_nil hl' (ht.ordered.parts ht.le ht.lt ht.stop_le)
  exact ⟨hcarve.1, h.same.trans hcarve.2⟩

theorem Kept.lwpUnmapUserRange {length : ℕ} (memory : Bool) (h : Kept maxNr refs uses m x)
    (hlen : length % archPageSize = 0) : Kept maxNr refs uses m (lwpUnmapUserRange x va length memory).1 := by
  have hrule := lwpUnmapUserRange_rule (fun _ y => Kept maxNr refs uses m y)
    (fun y l₁ ma l₂ lo hi hy ht hk => hk.cutArea hy ht) (fun _ _ _ _ _ hk => hk) x va length memory
    h.balanced.space.ordered h.balanced.space.tabled.aligned hlen h
  rcases hrule with hok | hfail
  · exact hok.2
  · rw [hfail.2]
    exact h

theorem Kept.lwpMunmap (cfg : MmConfig) {length : ℕ} (memory : Bool) (h : Kept maxNr refs uses m x) :
    Kept maxNr refs uses m (lwpMunmap cfg x va length memory).1 := by
  unfold RtSmart.lwpMunmap
  split
  · exact h
  · split
    · exact h.lwpUnmapUserRange memory (roundUp_mod _)
    · next ma hf =>
      have ha := h.balanced.space.tabled.aligned ma (lwpMapFind_spec h.balanced.space.tabled.aligned hf).1
      split
      · exact h.lwpUnmapUserRange memory ha.size
      · exact h.lwpUnmapUserRange memory (roundUp_mod _)

theorem Kept.unmapFirst (h : Kept maxNr refs uses m x) (hx : x.2.mapArea = ma :: l) :
    Kept maxNr refs uses m
      ((unmapRange ma.type.paNeedFree ma.vpn ma.pages (x.1.detach x.2 ma, x.2)).1,
        { (unmapRange ma.type.paNeedFree ma.vpn ma.pages (x.1.detach x.2 ma, x.2)).2 with mapArea := l }) := by
  have hord := h.balanced.space.ordered
  rw [hx] at hord
  have hcarve := h.balanced.carve (hx ▸ .refl _) (remains_nil ma) (fun _ => rfl) (.refl _) (List.pairwise_cons.mp hord).2
  exact ⟨hcarve.1, h.same.trans hcarve.2⟩

theorem Kept.unmapAreas (h : Kept maxNr refs uses m x) (hn : x.2.mapArea.length = n) :
    Kept maxNr refs uses m (unmapAreas n x) ∧ (RtSmart.unmapAreas n x).2.mapArea = [] := by
  induction n generalizing x with
  | zero => exact ⟨h, List.length_eq_zero_iff.mp hn⟩
  | succ n ih =>
    obtain ⟨ma, l, hx⟩ := List.exists_cons_of_length_eq_add_one hn
    have hfirst : lwpMapFindFirst x.2.mapArea = some ma := by
      rw [hx]
      rfl
    have hrest : lwpMapAreaRemove (ma :: l) ma.addr = l := List.eraseP_cons_of_pos (by simp)
    rw [RtSmart.unmapAreas, hfirst]
    dsimp only
    rw [mapArea_unmapRange, hx, hrest]
    apply ih (h.unmapFirst hx)
    rw [hx, List.length_cons] at hn
    exact Nat.succ.inj hn

theorem Kept.lwpUnmapUserSpace (h : Kept maxNr refs uses m x) :
    Kept maxNr refs uses m (lwpUnmapUserSpace x) ∧ (RtSmart.lwpUnmapUserSpace x).2.mapArea = [] := h.unmapAreas rfl

theorem Balanced.forget (h : Balanced maxNr refs uses m u) (hu : u.mapArea = []) : Balanced maxNr refs uses m .empty := by
  obtain ⟨l, t⟩ := u
  subst hu
  refine ⟨h.objs, ⟨⟨?_, List.nodup_nil, ?_⟩, List.Pairwise.nil, ?_⟩, h.exact, h.held, h.apart⟩
  · simp [UserSpace.empty]
  · simp [UserSpace.empty]
  · simp [UserSpace.empty]

section Map

variable {mapVa r : ℕ} {ps : List ℕ} {type : AreaType} {attr : MmuAttr}

theorem Kept.addPhys (h : Kept maxNr refs uses m x) {p : ℕ} (hcan : CanMap x.2 mapVa n va) (htype : type = .phy ∨ type = .phyCached) :
    Kept maxNr refs uses m (x.1, x.2.addArea type attr (List.range' p n) va) := by
  have hlen : (List.range' p n).length = n := List.length_range'
  have hent : type.Entries ((List.range' p n).map fun q => some ⟨q, attr⟩) := by
    have hcons : Consecutive ((List.range' p n).map fun q => some ⟨q, attr⟩) := ⟨p, attr, by simp⟩
    rcases htype with rfl | rfl <;> exact hcons
  have hshm : type ≠ .shm := by rcases htype with rfl | rfl <;> decide
  have hfree : type.paNeedFree = false := by rcases htype with rfl | rfl <;> rfl
  refine ⟨h.balanced.addArea (.refl _) (hlen.symm ▸ hcan) hent (fun hs => absurd hs hshm) ?_ ?_ ?_, h.same⟩
  · intro id _
    simp [hshm]
  · intro q
    simp [dropped, hfree]
  · intro q _
    simp [dropped, hfree]

theorem Kept.addFresh (h : Kept maxNr refs uses m x) (text : Bool) (hnd : ps.Nodup)
    (hps : ∀ p ∈ ps, p ≠ 0 ∧ x.1.pageRef p = 0) (hcan : CanMap x.2 mapVa ps.length va) :
    Kept maxNr refs uses m (x.1.setRef fun p => if p ∈ ps then 1 else x.1.pageRef p,
      x.2.addArea (if text then .text else .data) (if text then .uRo else .uRwcb) ps va) := by
  have hsame := Mm.same_setRef x.1 fun p => if p ∈ ps then 1 else x.1.pageRef p
  have hpages := pagesOf_map (if text then .uRo else .uRwcb) fun p hp => (hps p hp).1
  have hneed : (if text then AreaType.text else .data).paNeedFree = true := by cases text <;> rfl
  have hdrop : ∀ p, dropped (if text then AreaType.text else .data).paNeedFree
      (ps.map fun q => some ⟨q, if text then .uRo else .uRwcb⟩) p = ps.count p := by
    intro p
    rw [dropped, if_pos hneed, hpages]
  have hshm : (if text then AreaType.text else .data) ≠ .shm := by cases text <;> decide
  refine ⟨h.balanced.addArea hsame hcan ?_ (fun hs => absurd hs hshm) ?_ ?_ ?_, h.same.trans hsame⟩
  · cases text with
    | true | false =>
      intro e he
      obtain ⟨p, hp, rfl⟩ := List.mem_map.mp he
      exact ⟨p, (hps p hp).1, rfl⟩
  · intro id _
    rw [Mm.shmAry_setRef, if_neg fun hs => hshm hs.1, add_zero]
  · intro p
    rw [hdrop, Mm.pageRef_setRef]
    by_cases hp : p ∈ ps
    · rw [List.count_eq_one_of_mem hnd hp, if_pos hp, (hps p hp).2]
    · rw [List.count_eq_zero_of_not_mem hp, if_neg hp, Nat.add_zero]
  · intro p hp
    rw [hdrop, List.count_eq_zero]
    intro hmem
    -- the pages of an object are in use
    have hheld := h.balanced.held p
    have hpos := List.count_pos_iff.mpr hp
    rw [(hps p hmem).2] at hheld
    omega

theorem Kept.addShm (h : Kept maxNr refs uses m x) (hid : x.1.Live id) (hn : n = (x.1.shmAry id).size / archPageSize)
    (hcan : CanMap x.2 mapVa n va) :
    Kept maxNr refs uses m (x.1.addShmRef id 1,
      x.2.addArea .shm .uRwcb (List.range' ((x.1.shmAry id).addr / archPageSize) n) va) := by
  have hlen : (List.range' ((x.1.shmAry id).addr / archPageSize) n).length = n := List.length_range'
  have hsame := Mm.same_addShmRef x.1 id 1
  obtain ⟨b, -, hsize, hmod, -⟩ := h.balanced.objs.shape id hid
  have haddr : (x.1.shmAry id).addr / archPageSize * archPageSize = (x.1.shmAry id).addr :=
    Nat.div_mul_cancel (Nat.dvd_of_mod_eq_zero hmod)
  have hv : v2p (x.2.addArea .shm .uRwcb (List.range' ((x.1.shmAry id).addr / archPageSize) n) va).vtable va =
      (x.1.shmAry id).addr := by
    obtain ⟨k, rfl⟩ : ∃ k, n = k + 1 := ⟨n - 1, by have := hcan.1; omega⟩
    rw [List.range'_succ, v2p_addArea, haddr]
    rw [← List.range'_succ]
    exact hlen.symm ▸ hcan
  have hwhole : n * archPageSize = (x.1.shmAry id).size := by
    rw [hn, hsize]
    apply Nat.div_mul_cancel
    exact ⟨2 ^ b, by rw [pow_add, mul_comm]; rfl⟩
  refine ⟨h.balanced.addArea hsame (hlen.symm ▸ hcan) ?_ ?_ ?_ ?_ ?_, h.same.trans hsame⟩
  · exact ⟨(x.1.shmAry id).addr / archPageSize, .uRwcb, by simp⟩
  · intro _
    refine ⟨id, hid, ?_, hv⟩
    show (x.1.shmAry id).size = (List.range' _ n).length * archPageSize
    rw [hlen, hwhole]
  · intro i hi
    rw [Mm.shmAry_addShmRef, hv]
    by_cases heq : i = id
    · subst heq
      simp
    · have hne : (x.1.shmAry id).addr ≠ (x.1.shmAry i).addr := fun hne =>
        heq (h.balanced.objs.addr_inj hi hid hne.symm)
      simp [heq, hne]
  · intro p
    simp [dropped, AreaType.paNeedFree, Mm.pageRef_addShmRef]
  · intro p _
    simp [dropped, AreaType.paNeedFree]

theorem Kept.untouched (h : Kept maxNr refs uses m x) (hm : y.1 = x.1) (hu : Untouched x.2 y.2) :
    Kept maxNr refs uses m y := by
  obtain ⟨m₁, u₁⟩ := y
  dsimp only at hm hu
  subst hm
  exact ⟨h.balanced.untouched hu, h.same⟩

theorem Kept.lwpMapUser {size : ℕ} {text : Bool} {ans : Option (MapAnswer × List ℕ)} (h : Kept maxNr refs uses m x)
    (hy : lwpMapUser x mapVa size text ans = some (y, r)) : Kept maxNr refs uses m y := by
  rcases lwpMapUser_cases hy with ⟨-, hm, hu⟩ | ⟨ps, va, -, hnd, hfresh, hcan, -, rfl⟩
  · exact h.untouched hm hu
  · exact h.addFresh text hnd hfresh hcan

theorem Kept.lwpMapUserPhy {pa size : ℕ} {cached : Bool} {ans : Option MapAnswer} (h : Kept maxNr refs uses m x)
    (htype : type = .phy ∨ type = .phyCached)
    (hy : lwpMapUserType x mapVa pa size cached type ans = some (y, r)) : Kept maxNr refs uses m y := by
  rcases lwpMapUserType_cases hy with ⟨-, hm, hu⟩ | ⟨n, va, -, hcan, -, rfl⟩
  · exact h.untouched hm hu
  · apply h.addPhys hcan
    rcases htype with rfl | rfl
    · cases cached
      · exact .inl rfl
      · exact .inr rfl
    · exact .inr rfl

theorem Mm.ObjOk.size_mod (h : m.ObjOk maxNr) (hid : m.Live id) : (m.shmAry id).size % archPageSize = 0 := by
  obtain ⟨b, -, hsize, -⟩ := h.shape id hid
  rw [hsize, pow_add]
  exact Nat.mul_mod_left _ _

theorem lwpMapUserType_shm {pa size : ℕ} {ans : Option MapAnswer} (hpa : pa % archPageSize = 0)
    (hsize : size % archPageSize = 0) (h64 : size < 2 ^ 64)
    (hy : lwpMapUserType x mapVa pa size true .shm ans = some (y, r)) :
    (r = 0 ∧ y.1 = x.1 ∧ Untouched x.2 y.2) ∨
      (CanMap x.2 mapVa (size / archPageSize) r ∧
        y = (x.1, x.2.addArea .shm .uRwcb (List.range' (pa / archPageSize) (size / archPageSize)) r)) := by
  rcases lwpMapUserType_cases hy with hfail | ⟨n, va, hn, hcan, hr, hy⟩
  · exact .inl hfail
  · have hround : roundUp size = size := by
      have hlt : size + archPageMask < 2 ^ 64 := by
        unfold archPageMask archPageSize at *
        omega
      unfold roundUp
      rw [wadd_of_lt hlt]
      unfold archPageMask archPageSize at *
      omega
    have hlt : size + 0 < 2 ^ 64 := by omega
    rw [hpa, wadd_of_lt hlt, Nat.add_zero, hround] at hn
    rw [hpa, Nat.add_zero] at hr
    subst hn hr
    exact .inr ⟨hcan, hy⟩

theorem Kept.lwpShmat {i : ℤ} {ans : Option MapAnswer} (h : Kept maxNr refs uses m x)
    (hy : x.1.lwpShmat x.2 maxNr i va ans = some (y, r)) : Kept maxNr refs uses m y := by
  unfold Mm.lwpShmat at hy
  split at hy
  · cases hy
    exact h
  · split at hy
    · cases hy
      exact h
    · next id hnode =>
      have hid := h.balanced.objs.of_shmIdToNode hnode
      obtain ⟨b, hb, hsize, hmod, -⟩ := h.balanced.objs.shape id hid
      have h64 : (x.1.shmAry id).size < 2 ^ 64 := by
        rw [hsize]
        apply Nat.pow_lt_pow_right (by decide)
        unfold archPageListSize archAddressWidthBits archPageShift at *
        omega
      obtain ⟨⟨z, w⟩, hz, heq⟩ := Option.map_eq_some_iff.mp hy
      obtain ⟨rfl, rfl⟩ := Prod.mk.inj heq
      rcases lwpMapUserType_shm hmod (h.balanced.objs.size_mod hid) h64 hz with ⟨hw, hm, hu⟩ | ⟨hcan, rfl⟩
      · rw [if_pos hw]
        exact h.untouched hm hu
      · rw [if_neg hcan.2.2.1.ne']
        exact h.addShm hid rfl hcan

end Map

theorem Balanced.shm_start (h : Balanced maxNr refs uses m u) (ha : a ∈ u.mapArea) (hshm : a.type = .shm)
    (hb : m.Backs u.vtable a id) {i : ℕ} (hi : m.Live i) (hle : a.addr ≤ va / archPageSize * archPageSize)
    (hlt : va / archPageSize * archPageSize < a.addr + a.size) (hv : u.rtHwMmuV2p va = (m.shmAry i).addr) :
    i = id ∧ u.rtHwMmuV2p va = u.rtHwMmuV2p a.addr := by
  have hal := h.space.tabled.aligned a ha
  obtain ⟨b, -, hsize, hmod, -⟩ := h.objs.shape i hi
  have hcons : Consecutive (a.slots.map u.vtable) := by
    have := h.space.tabled.entries a ha
    rw [hshm] at this
    exact this
  obtain ⟨p, attr, hentry⟩ := hcons.entry
  have hstart := hentry 0 hal.pages_pos
  have hvpn : ∃ k < a.pages, va / archPageSize = a.vpn + k := by
    rw [hal.addr_eq, hal.size_eq, ← Nat.add_mul] at hlt
    rw [hal.addr_eq] at hle
    have h1 := Nat.le_of_mul_le_mul_right hle (by decide)
    have h2 := Nat.lt_of_mul_lt_mul_right hlt
    exact ⟨va / archPageSize - a.vpn, by omega, by omega⟩
  obtain ⟨k, hk, hvk⟩ := hvpn
  have hva : u.rtHwMmuV2p va = (p + k) * archPageSize + va % archPageSize := by
    unfold UserSpace.rtHwMmuV2p
    rw [hvk, hentry k hk]
  have haddr : u.rtHwMmuV2p a.addr = p * archPageSize := by
    unfold UserSpace.rtHwMmuV2p
    rw [show a.addr / archPageSize = a.vpn + 0 from rfl, hstart]
    simp only [hal.addr, Nat.add_zero]
  have hoff : va % archPageSize = 0 := by
    rw [hva] at hv
    unfold archPageSize at *
    omega
  have hbase : (m.shmAry id).addr = p * archPageSize := hb.2.2.symm.trans haddr
  have hpage : p + k ∈ m.pagesOfObj id := by
    unfold Mm.pagesOfObj
    rw [List.mem_range'_1, hbase, Nat.mul_div_cancel _ (by decide), hb.2.1]
    have : a.pages = a.size / archPageSize := rfl
    omega
  have hpage' : p + k ∈ m.pagesOfObj i := by
    have hq : p + k = (m.shmAry i).addr / archPageSize := by
      rw [← hv, hva, hoff, Nat.add_zero, Nat.mul_div_cancel _ (by decide)]
    rw [hq]
    exact h.objs.start_mem hi
  have hid := h.objs.page_inj hi hb.1 hpage' hpage
  refine ⟨hid, ?_⟩
  rw [hv, hid, hbase, haddr]

/-- `shmdt` for an address in an area of shared memory, or one that is not the start of an object. -/
def ShmdtOk (m : Mm) (u : UserSpace) (va : ℕ) : Prop :=
  m.lwpShmStructGet u va = none ∨
    ∃ a, lwpMapFind u.mapArea (va / archPageSize * archPageSize) = some a ∧ a.type = .shm

theorem Kept.unmapArea (h : Kept maxNr refs uses m x) (ha : a ∈ x.2.mapArea) :
    Kept maxNr refs uses m
      ((unmapRange a.type.paNeedFree a.vpn a.pages (x.1.detach x.2 a, x.2)).1,
        { (unmapRange a.type.paNeedFree a.vpn a.pages (x.1.detach x.2 a, x.2)).2 with
          mapArea := lwpMapAreaRemove x.2.mapArea a.addr }) := by
  obtain ⟨l₁, l₂, hx⟩ := List.append_of_mem ha
  have hord := h.balanced.space.ordered
  have hal := h.balanced.space.tabled.aligned
  rw [hx] at hord hal
  have hn₁ := (notMem_around hord (hal a (by simp)).size_pos hal).1
  have hremove : lwpMapAreaRemove x.2.mapArea a.addr = l₁ ++ l₂ := by
    unfold lwpMapAreaRemove
    rw [hx, List.eraseP_append_right _ fun b hb => by simpa using hn₁ b hb, List.eraseP_cons_of_pos (by simp)]
  have hsub : (l₁ ++ l₂).Sublist (l₁ ++ a :: l₂) := List.Sublist.append_left (List.sublist_cons_self a l₂) l₁
  rw [hremove]
  have hcarve := h.balanced.carve (hx ▸ List.perm_middle) (remains_nil a) (fun _ => rfl) (.refl _) (hord.sublist hsub)
  exact ⟨hcarve.1, h.same.trans hcarve.2⟩

theorem Kept.lwpShmdt (h : Kept maxNr refs uses m x) (hok : ShmdtOk x.1 x.2 va) :
    Kept maxNr refs uses m (x.1.lwpShmdt x.2 va).1 := by
  unfold Mm.lwpShmdt
  rcases hok with hnone | ⟨a, hf, hshm⟩
  · have hdec : x.1.lwpShmRefDec x.2 va = (x.1, -1) := by
      unfold Mm.lwpShmRefDec
      rw [hnone]
    rw [hdec]
    exact h
  · cases hget : x.1.lwpShmStructGet x.2 va with
    | none =>
      have hdec : x.1.lwpShmRefDec x.2 va = (x.1, -1) := by
        unfold Mm.lwpShmRefDec
        rw [hget]
      rw [hdec]
      exact h
    | some i =>
      obtain ⟨ha, hle, hlt, -⟩ := lwpMapFind_spec h.balanced.space.tabled.aligned hf
      obtain ⟨id, hb⟩ := h.balanced.space.shm a ha hshm
      obtain ⟨hi, hv⟩ := h.balanced.objs.of_find_pa hget
      obtain ⟨-, hva⟩ := h.balanced.shm_start ha hshm hb hi hle hlt hv.symm
      -- the reference that is given back is that of the area
      have hdec : x.1.lwpShmRefDec x.2 va = x.1.lwpShmRefDec x.2 a.addr := by
        unfold Mm.lwpShmRefDec Mm.lwpShmStructGet
        rw [hva]
      have hdetach : (x.1.lwpShmRefDec x.2 a.addr).1 = x.1.detach x.2 a := by
        unfold Mm.detach
        rw [if_pos hshm]
      have hnonneg : 0 ≤ (x.1.lwpShmRefDec x.2 a.addr).2 := by
        rw [h.balanced.lwpShmRefDec_eq ha hshm hb]
        have := h.balanced.ref_pos ha hshm hb
        show 0 ≤ (x.1.shmAry id).ref - 1
        omega
      have hne : va ≠ 0 := by
        rintro rfl
        have := (h.balanced.space.tabled.aligned a ha).addr_pos
        simp at hle
        omega
      dsimp only
      rw [hdec, if_pos hnonneg, hdetach]
      unfold lwpUnmapUser
      rw [if_neg hne]
      dsimp only
      rw [hf]
      dsimp only
      rw [mapArea_unmapRange]
      exact h.unmapArea ha

section Fork

variable {ans : List (Option MapAnswer)} {ok : Bool}

theorem Kept.rtPageRefInc (h : Kept maxNr refs uses m x) (p : ℕ) : Kept maxNr refs uses m (x.1.rtPageRefInc p, x.2) := by
  have hsame := Mm.same_setRef x.1 fun q => if q = p then x.1.pageRef q + 1 else x.1.pageRef q
  refine ⟨⟨h.balanced.objs.same hsame, h.balanced.space.same hsame, h.balanced.exact, ?_, h.balanced.apart⟩, h.same.trans hsame⟩
  intro q
  have := h.balanced.held q
  show _ ≤ if q = p then x.1.pageRef q + 1 else x.1.pageRef q
  split
  · exact this.trans (Nat.le_succ _)
  · exact this

theorem Kept.addText (h : Kept maxNr refs uses m x) {p mapVa : ℕ} (hp : p ≠ 0) (hobj : p ∉ x.1.objPages)
    (hcan : CanMap x.2 mapVa 1 va) :
    Kept maxNr refs uses m (x.1.rtPageRefInc p, x.2.addArea .text .uRo [p] va) := by
  have hsame : x.1.Same (x.1.rtPageRefInc p) := Mm.same_setRef x.1 _
  have hdrop : ∀ q, dropped AreaType.text.paNeedFree ([p].map fun q => some ⟨q, .uRo⟩) q = [p].count q := by
    intro q
    rw [dropped, if_pos (by rfl), pagesOf_map .uRo (by simpa using hp)]
  refine ⟨h.balanced.addArea hsame hcan ?_ (fun hs => by cases hs) ?_ ?_ ?_, h.same.trans hsame⟩
  · intro e he
    exact ⟨p, hp, by simpa using he⟩
  · intro id _
    simp [Mm.rtPageRefInc]
  · intro q
    rw [hdrop]
    show _ ≤ if q = p then x.1.pageRef q + 1 else x.1.pageRef q
    by_cases hq : q = p
    · subst hq
      simp
    · rw [if_neg hq, List.count_eq_zero_of_not_mem (by simpa using hq), Nat.add_zero]
  · intro q hq
    rw [hdrop, List.count_eq_zero, List.mem_singleton]
    rintro rfl
    exact hobj hq

theorem Kept.content (h : Kept maxNr refs uses m x) (c : ℕ → ℕ → UInt8) :
    Kept maxNr refs uses m ({ x.1 with content := c }, x.2) := by
  have hsame : x.1.Same { x.1 with content := c } := ⟨rfl, rfl, rfl, rfl, fun _ => rfl, fun _ => rfl, fun _ => rfl⟩
  exact ⟨⟨h.balanced.objs.same hsame, h.balanced.space.same hsame, h.balanced.exact, h.balanced.held, h.balanced.apart⟩,
    h.same.trans hsame⟩

theorem lwpDataPut_eq (parent : UserSpace) (v n : ℕ) (x : Mm × UserSpace) :
    ∃ c, lwpDataPut parent v n x = { x.1 with content := c } := by
  induction n generalizing v x with
  | zero => exact ⟨x.1.content, rfl⟩
  | succ n ih =>
    rw [lwpDataPut]
    split
    · exact ih _ _
    · exact ⟨x.1.content, rfl⟩

theorem lwpMapUserType_ne_zero {mapVa mapPa mapSize r : ℕ} {cached : Bool} {type : AreaType} (hs : mapSize ≠ 0)
    (hmod : mapVa % archPageSize = mapPa % archPageSize)
    (hy : lwpMapUserType x mapVa mapPa mapSize cached type (some ⟨va, true⟩) = some (y, r)) : r ≠ 0 := by
  unfold lwpMapUserType at hy
  rw [if_neg (by simp [hs, hmod])] at hy
  obtain ⟨⟨z, w⟩, hz, heq⟩ := Option.map_eq_some_iff.mp hy
  obtain ⟨-, rfl⟩ := Prod.mk.inj heq
  unfold lwpMapUserTypeLocked at hz
  simp only [↓reduceIte] at hz
  split at hz
  · next hcan =>
    simp only [Option.some.injEq, Prod.mk.injEq] at hz
    obtain ⟨-, rfl⟩ := hz
    have := hcan.1.2.2.1
    simp [this.ne']
  · cases hz

def DupAnswer.Maps : DupAnswer → Prop
  | .map (some a) => a.inserted = true
  | _ => False

instance : ∀ a : DupAnswer, Decidable a.Maps
  | .map (some a) => inferInstanceAs (Decidable (a.inserted = true))
  | .map none => isFalse not_false
  | .auto _ => isFalse not_false
  | .text _ => isFalse not_false

section Copy

variable (hspace : SpaceOk m parent) (huses : ∀ p ∈ heldBy parent.vtable parent.mapArea, 0 < uses p)

include huses in
theorem Kept.dupText {addr : ℕ} (h : Kept maxNr refs uses m x) (haddr : addr % archPageSize = 0)
    (hent : ∀ k < n, ∃ p, p ≠ 0 ∧ p ∈ heldBy parent.vtable parent.mapArea ∧
      parent.vtable (slot (addr / archPageSize + k)) = some ⟨p, .uRo⟩)
    (hd : dupText parent n addr ans x = some (y, ok)) : Kept maxNr refs uses m y := by
  induction n generalizing addr ans x with
  | zero =>
    cases hd
    exact h
  | succ n ih =>
    cases ans with
    | nil => cases hd
    | cons a as =>
      obtain ⟨p, hp, hheld, hpte⟩ := hent 0 (Nat.zero_lt_succ n)
      have hpa : parent.rtHwMmuV2p addr = p * archPageSize := by
        unfold UserSpace.rtHwMmuV2p
        rw [show addr / archPageSize = addr / archPageSize + 0 from rfl, hpte]
        simp only [haddr, Nat.add_zero]
      have hobj : p ∉ x.1.objPages := by
        intro hobj
        have := h.balanced.apart p hobj
        have := huses p hheld
        omega
      rw [RtSmart.dupText, hpa, Nat.mul_div_cancel _ (by decide)] at hd
      split at hd
      · cases hd
      · next z va hz =>
        have hstep : Kept maxNr refs uses m z := by
          rcases lwpMapUserType_aligned (Nat.mul_mod_left _ _) (by decide) (by decide) hz with ⟨-, hm, hu⟩ | ⟨hcan, rfl⟩
          · exact (h.rtPageRefInc p).untouched hm hu
          · rw [Nat.mul_div_cancel _ (by decide)]
            exact h.addText hp hobj hcan
        split at hd
        · cases hd
          exact hstep
        · refine ih hstep ?_ ?_ hd
          · unfold archPageSize at *
            omega
          · intro k hk
            have := hent (k + 1) (by omega)
            rwa [show (addr + archPageSize) / archPageSize + k = addr / archPageSize + (k + 1) by
              unfold archPageSize
              omega]

include hspace huses in
theorem Kept.dupMap {a : DupAnswer} (h : Kept maxNr refs uses m x) (hma : ma ∈ parent.mapArea)
    (hans : ma.type = .shm → a.Maps) (hd : dupMap parent x ma a = some (y, ok)) : Kept maxNr refs uses m y := by
  have hal := hspace.tabled.aligned ma hma
  cases a with
  | map ans =>
    simp only [RtSmart.dupMap] at hd
    split at hd
    · obtain ⟨⟨z, r⟩, hz, heq⟩ := Option.map_eq_some_iff.mp hd
      cases heq
      exact h.lwpMapUserPhy (.inl rfl) hz
    · obtain ⟨⟨z, r⟩, hz, heq⟩ := Option.map_eq_some_iff.mp hd
      cases heq
      exact h.lwpMapUserPhy (.inr rfl) hz
    · next hshm =>
      obtain ⟨id, hid, hsize, hv⟩ := hspace.shm ma hma hshm
      have hid' : x.1.Live id := h.same.live.mpr hid
      have hv' : parent.rtHwMmuV2p ma.addr = (x.1.shmAry id).addr := hv.trans (h.same.addr id).symm
      have hsize' : ma.size = (x.1.shmAry id).size := hsize.symm.trans (h.same.size id).symm
      have hinc : x.1.lwpShmRefInc parent ma.addr = (x.1.addShmRef id 1, (x.1.shmAry id).ref + 1) := by
        unfold Mm.lwpShmRefInc
        rw [h.balanced.objs.lwpShmStructGet_eq hid' parent ma.addr hv']
      have hpos : 0 < (x.1.shmAry id).ref + 1 := by
        rw [h.balanced.exact id hid']
        omega
      obtain ⟨-, -, -, hmod, -⟩ := h.balanced.objs.shape id hid'
      rw [hinc, if_pos hpos, hv', hsize'] at hd
      obtain ⟨⟨z, r⟩, hz, heq⟩ := Option.map_eq_some_iff.mp hd
      cases heq
      have hr : r ≠ 0 := by
        have hmaps := hans hshm
        obtain _ | ⟨va, inserted⟩ := ans
        · exact hmaps.elim
        · rw [show inserted = true from hmaps] at hz
          refine lwpMapUserType_ne_zero ?_ (hal.addr.trans hmod.symm) hz
          rw [← hsize']
          exact hal.size_pos.ne'
      have hle := hal.size_le
      rw [hsize'] at hle
      rcases lwpMapUserType_shm hmod (h.balanced.objs.size_mod hid') (by omega) hz with ⟨hzero, -⟩ | ⟨hcan, rfl⟩
      · exact absurd hzero hr
      · exact h.addShm hid' rfl hcan
    · cases hd
  | auto ans =>
    simp only [RtSmart.dupMap] at hd
    split at hd
    · obtain ⟨⟨z, r⟩, hz, heq⟩ := Option.map_eq_some_iff.mp hd
      have hstep := h.lwpMapUser hz
      dsimp only at heq
      split at heq
      · cases heq
        obtain ⟨c, hc⟩ := lwpDataPut_eq parent ma.vpn ma.pages z
        rw [hc]
        exact hstep.content c
      · cases heq
        exact hstep
    · cases hd
  | text ans =>
    simp only [RtSmart.dupMap] at hd
    split at hd
    · next htext =>
      refine h.dupText huses hal.addr ?_ hd
      intro k hk
      have hent := hspace.tabled.entries ma hma
      rw [htext] at hent
      have hslot : slot (ma.addr / archPageSize + k) ∈ ma.slots := mem_slots.mpr ⟨k, hk, rfl⟩
      obtain ⟨p, hp, hpte⟩ := hent _ (List.mem_map_of_mem hslot)
      refine ⟨p, hp, ?_, hpte⟩
      apply List.mem_flatMap.mpr
      refine ⟨ma, hma, ?_⟩
      rw [htext, if_pos (by rfl)]
      apply List.mem_filterMap.mpr
      exact ⟨_, List.mem_map_of_mem hslot, by rw [hpte]; simp [hp]⟩
    · cases hd

/-- The areas differ in `unmap_all_addr` only. -/
theorem Kept.relabel {g : MmArea → MmArea} (h : Kept maxNr refs uses m x)
    (hg : ∀ a, (g a).addr = a.addr ∧ (g a).size = a.size ∧ (g a).type = a.type) :
    Kept maxNr refs uses m (x.1, { x.2 with mapArea := x.2.mapArea.map g }) := by
  have hslots : ∀ a, (g a).slots = a.slots := by
    intro a
    unfold MmArea.slots MmArea.vpn MmArea.pages
    rw [(hg a).1, (hg a).2.1]
  have hflat : (x.2.mapArea.map g).flatMap MmArea.slots = x.2.mapArea.flatMap MmArea.slots := by
    rw [List.flatMap_map]
    exact List.flatMap_congr fun a _ => hslots a
  have hheld : heldBy x.2.vtable (x.2.mapArea.map g) = heldBy x.2.vtable x.2.mapArea := by
    unfold heldBy
    rw [List.flatMap_map]
    apply List.flatMap_congr
    intro a _
    rw [(hg a).2.2, hslots]
  have hareas : ∀ addr, shmAreas x.2.vtable (x.2.mapArea.map g) addr = shmAreas x.2.vtable x.2.mapArea addr := by
    intro addr
    unfold shmAreas
    rw [List.countP_map]
    apply List.countP_congr
    intro a _
    simp [(hg a).1, (hg a).2.2]
  have hb := h.balanced
  refine ⟨⟨hb.objs, ⟨⟨?_, ?_, ?_⟩, ?_, ?_⟩, ?_, ?_, ?_⟩, h.same⟩
  · intro b hb'
    obtain ⟨a, ha, rfl⟩ := List.mem_map.mp hb'
    obtain ⟨h1, h2, h3, h4, h5, h6⟩ := hb.space.tabled.aligned a ha
    constructor <;> simp only [(hg a).1, (hg a).2.1] <;> assumption
  · dsimp only
    rw [hflat]
    exact hb.space.tabled.nodup
  · intro b hb'
    obtain ⟨a, ha, rfl⟩ := List.mem_map.mp hb'
    rw [(hg a).2.2, hslots]
    exact hb.space.tabled.entries a ha
  · apply List.pairwise_map.mpr
    refine hb.space.ordered.imp ?_
    intro a b hab
    rw [(hg a).1, (hg a).2.1, (hg b).1]
    exact hab
  · intro b hb' hshm
    obtain ⟨a, ha, rfl⟩ := List.mem_map.mp hb'
    rw [(hg a).2.2] at hshm
    obtain ⟨id, hid, hsize, hv⟩ := hb.space.shm a ha hshm
    refine ⟨id, hid, ?_, ?_⟩
    · rw [(hg a).2.1]
      exact hsize
    · rw [(hg a).1]
      exact hv
  · intro id hid
    dsimp only
    rw [hareas]
    exact hb.exact id hid
  · intro p
    dsimp only
    rw [hheld]
    exact hb.held p
  · intro p hp
    dsimp only
    rw [hheld]
    exact hb.apart p hp

theorem Kept.setUnmapAll (h : Kept maxNr refs uses m x) (mapVa unmapAllVa : ℕ) :
    Kept maxNr refs uses m (x.1, { x.2 with mapArea := lwpMapAreaSetUnmapAllAddr x.2.mapArea mapVa unmapAllVa }) := by
  unfold lwpMapAreaSetUnmapAllAddr
  split
  · exact h
  · apply h.relabel
    intro a
    split <;> exact ⟨rfl, rfl, rfl⟩

include hspace huses in
theorem Kept.lwpDupUser {a : DupAnswer} (h : Kept maxNr refs uses m x) (hma : ma ∈ parent.mapArea)
    (hans : ma.type = .shm → a.Maps) (hd : lwpDupUser parent x ma a = some (y, ok)) : Kept maxNr refs uses m y := by
  obtain ⟨⟨z, b⟩, hz, heq⟩ := Option.map_eq_some_iff.mp hd
  have hstep := h.dupMap hspace huses hma hans hz
  dsimp only at heq
  split at heq
  · cases heq
    exact hstep.setUnmapAll ma.addr ma.unmapAllAddr
  · cases heq
    exact hstep

include hspace huses in
theorem Kept.copyProcess {as : List DupAnswer} (h : Kept maxNr refs uses m x) (hl : ∀ a ∈ l, a ∈ parent.mapArea)
    (hans : ∀ e ∈ l.zip as, e.1.type = .shm → e.2.Maps) (hd : copyProcess parent l as x = some (y, ok)) :
    Kept maxNr refs uses m y := by
  induction l generalizing as x with
  | nil =>
    cases hd
    exact h
  | cons ma l ih =>
    cases as with
    | nil => cases hd
    | cons a as =>
      rw [List.zip_cons_cons, List.forall_mem_cons] at hans
      rw [List.forall_mem_cons] at hl
      rw [RtSmart.copyProcess] at hd
      split at hd
      · cases hd
      · next z hz =>
        cases hd
        exact h.lwpDupUser hspace huses hl.1 hans.1 hz
      · next z hz => exact ih (h.lwpDupUser hspace huses hl.1 hans.1 hz) hl.2 hans.2 hd

include hspace huses in
theorem Kept.sysFork {as : List DupAnswer} {late : Bool} {c : Option UserSpace}
    (h : Balanced maxNr refs uses m .empty) (hans : ∀ e ∈ parent.mapArea.zip as, e.1.type = .shm → e.2.Maps)
    (hd : sysFork m parent as late = some (m', c)) : Kept maxNr refs uses m (m', c.getD .empty) := by
  obtain ⟨⟨y, ok⟩, hy, heq⟩ := Option.map_eq_some_iff.mp hd
  have hcopy := (Kept.of_balanced h).copyProcess hspace huses (fun _ ha => ha) hans hy
  dsimp only at heq
  split at heq
  · cases heq
    exact hcopy
  · cases heq
    obtain ⟨hgone, hnil⟩ := hcopy.lwpUnmapUserSpace
    exact ⟨hgone.balanced.forget hnil, hgone.same⟩

end Copy

end Fork

end RtSmart
