import RtSmart.Lwp.UserMm

/-!
What the areas of a process say about its page table: no two of them share an entry, and each entry of an area
is in use.
-/

namespace RtSmart

open Lib

variable {t t' : ℕ → Option Pte} {l l' : List MmArea} {a b : MmArea} {vpn n p s addr : ℕ} {x : Mm × UserSpace}
  {u : UserSpace} {f : Bool}

def slots (vpn n : ℕ) : List ℕ := (List.range' vpn n).map slot

def MmArea.slots (ma : MmArea) : List ℕ := RtSmart.slots ma.vpn ma.pages

@[simp] theorem slots_zero : slots vpn 0 = [] := rfl

theorem slots_succ : slots vpn (n + 1) = slot vpn :: slots (vpn + 1) n := by
  unfold slots
  rw [List.range'_succ, List.map_cons]

theorem slots_add (m : ℕ) : slots vpn (m + n) = slots vpn m ++ slots (vpn + m) n := by
  unfold slots
  rw [← List.map_append, ← List.range'_append_1]

@[simp] theorem length_slots : (slots vpn n).length = n := by
  simp [slots]

theorem mem_slots : s ∈ slots vpn n ↔ ∃ k < n, s = slot (vpn + k) := by
  simp only [slots, List.mem_map, List.mem_range'_1]
  constructor
  · rintro ⟨v, ⟨hle, hlt⟩, rfl⟩
    exact ⟨v - vpn, by omega, by congr 1; omega⟩
  · rintro ⟨k, hk, rfl⟩
    exact ⟨vpn + k, ⟨by omega, by omega⟩, rfl⟩

theorem nodup_slots (hn : n ≤ 2 ^ 27) : (slots vpn n).Nodup := by
  refine List.Nodup.map_on ?_ List.nodup_range'
  intro v hv w hw hvw
  rw [List.mem_range'_1] at hv hw
  unfold slot at hvw
  have hmod : v ≡ w [MOD 2 ^ 27] := hvw
  rcases le_total v w with hle | hle
  · have hdvd := (Nat.modEq_iff_dvd' hle).mp hmod
    have := Nat.eq_zero_of_dvd_of_lt hdvd (by omega)
    omega
  · have hdvd := (Nat.modEq_iff_dvd' hle).mp hmod.symm
    have := Nat.eq_zero_of_dvd_of_lt hdvd (by omega)
    omega

/-- The page an entry leads to, when `rt_hw_mmu_v2p` finds it. -/
def backing (e : Option Pte) : Option ℕ := e.bind fun pte => if pte.ppn = 0 then none else some pte.ppn

def pagesOf (es : List (Option Pte)) : List ℕ := es.filterMap backing

@[simp] theorem backing_none : backing none = none := rfl

@[simp] theorem backing_some (pte : Pte) : backing (some pte) = if pte.ppn = 0 then none else some pte.ppn := rfl

@[simp] theorem pagesOf_nil : pagesOf [] = [] := rfl

theorem pagesOf_append (es es' : List (Option Pte)) : pagesOf (es ++ es') = pagesOf es ++ pagesOf es' :=
  List.filterMap_append

def dropped (f : Bool) (es : List (Option Pte)) (p : ℕ) : ℕ := if f then (pagesOf es).count p else 0

@[simp] theorem dropped_nil : dropped f [] p = 0 := by
  simp [dropped]

theorem dropped_cons (f : Bool) (p : ℕ) (e : Option Pte) (es : List (Option Pte)) :
    dropped f (e :: es) p = dropped f [e] p + dropped f es p := by
  cases f with
  | false => rfl
  | true =>
    rw [← List.singleton_append]
    simp only [dropped, ↓reduceIte, pagesOf_append, List.count_append]

theorem unmapPage_eq (m : Mm) (u : UserSpace) : unmapPage f vpn (m, u) =
    (m.setRef fun p => m.pageRef p - dropped f [u.vtable (slot vpn)] p,
      if backing (u.vtable (slot vpn)) = none then u else u.setPte (slot vpn) none) := by
  unfold unmapPage
  dsimp only
  cases he : u.vtable (slot vpn) with
  | none =>
    have hzero : ∀ p, dropped f [none] p = 0 := fun p => by cases f <;> rfl
    simp [hzero, Mm.setRef]
  | some pte =>
    by_cases hp : pte.ppn = 0
    · have hzero : ∀ p, dropped f [some pte] p = 0 := fun p => by simp [dropped, pagesOf, hp]
      simp [hzero, hp, Mm.setRef]
    · cases f with
      | false => simp [hp, dropped, Mm.setRef]
      | true =>
        simp only [hp, ↓reduceIte, Mm.rtPagesFree, backing_some, reduceCtorEq, Prod.mk.injEq, and_true]
        congr 1
        funext q
        have hcount : dropped true [some pte] q = if pte.ppn = q then 1 else 0 := by
          simp [dropped, pagesOf, hp, List.count_singleton]
        rw [hcount]
        by_cases hq : pte.ppn = q
        · subst hq
          simp
        · have hout : ¬ (pte.ppn ≤ q ∧ q < pte.ppn + 1) := by omega
          rw [if_neg hout, if_neg hq, Nat.sub_zero]

def clearSlots (t : ℕ → Option Pte) (cut : List ℕ) : ℕ → Option Pte := fun s =>
  if s ∈ cut ∧ backing (t s) ≠ none then none else t s

theorem clearSlots_of_notMem {cut : List ℕ} (hs : s ∉ cut) : clearSlots t cut s = t s := if_neg fun h => hs h.1

theorem unmapRange_eq (m : Mm) (u : UserSpace) (hnd : (slots vpn n).Nodup) : unmapRange f vpn n (m, u) =
    (m.setRef fun p => m.pageRef p - dropped f ((slots vpn n).map u.vtable) p,
      { u with vtable := clearSlots u.vtable (slots vpn n) }) := by
  induction n generalizing vpn m u with
  | zero =>
    have hcleared : clearSlots u.vtable [] = u.vtable := funext fun s => clearSlots_of_notMem List.not_mem_nil
    simp [unmapRange, Mm.setRef, hcleared]
  | succ n ih =>
    rw [slots_succ, List.nodup_cons] at hnd
    obtain ⟨hout, hnd⟩ := hnd
    set u₁ := if backing (u.vtable (slot vpn)) = none then u else u.setPte (slot vpn) none with hu₁
    have hother : ∀ s, s ≠ slot vpn → u₁.vtable s = u.vtable s := by
      intro s hs
      rw [hu₁]
      split
      · rfl
      · exact Function.update_of_ne hs _ _
    have harea : u₁.mapArea = u.mapArea := by
      rw [hu₁]
      split <;> rfl
    -- the first turn leaves the other entries as they are
    have hmap : (slots (vpn + 1) n).map u₁.vtable = (slots (vpn + 1) n).map u.vtable := by
      apply List.map_congr_left
      intro s hs
      apply hother
      rintro rfl
      exact hout hs
    rw [unmapRange, unmapPage_eq, ← hu₁, ih _ _ hnd, hmap, slots_succ, List.map_cons]
    refine Prod.ext ?_ ?_
    · simp only [Mm.setRef, Mm.mk.injEq, true_and, and_true]
      funext p
      have hsplit := dropped_cons f p (u.vtable (slot vpn)) ((slots (vpn + 1) n).map u.vtable)
      omega
    · simp only [UserSpace.mk.injEq, harea, true_and]
      funext s
      by_cases hs : s = slot vpn
      · subst hs
        rw [clearSlots_of_notMem hout, hu₁]
        unfold clearSlots
        by_cases hb : backing (u.vtable (slot vpn)) = none
        · simp [hb]
        · simp [hb, UserSpace.setPte]
      · unfold clearSlots
        simp only [hother s hs, List.mem_cons, hs, false_or]

theorem mapArea_mapPages (attr : MmuAttr) (ps : List ℕ) : (mapPages attr vpn ps u).mapArea = u.mapArea := by
  induction ps generalizing vpn u with
  | nil => rfl
  | cons p ps ih => rw [mapPages, ih, UserSpace.setPte]

theorem vtable_mapPages (attr : MmuAttr) {ps : List ℕ} (hs : s ∉ slots vpn ps.length) :
    (mapPages attr vpn ps u).vtable s = u.vtable s := by
  induction ps generalizing vpn u with
  | nil => rfl
  | cons p ps ih =>
    rw [List.length_cons, slots_succ, List.mem_cons, not_or] at hs
    rw [mapPages, ih hs.2, UserSpace.setPte]
    exact Function.update_of_ne hs.1 _ _

theorem map_mapPages (attr : MmuAttr) {ps : List ℕ} (hnd : (slots vpn ps.length).Nodup) :
    (slots vpn ps.length).map (mapPages attr vpn ps u).vtable = ps.map fun p => some ⟨p, attr⟩ := by
  induction ps generalizing vpn u with
  | nil => rfl
  | cons p ps ih =>
    rw [List.length_cons, slots_succ, List.nodup_cons] at hnd
    rw [List.length_cons, slots_succ, List.map_cons, mapPages, ih hnd.2, vtable_mapPages _ hnd.1, List.map_cons]
    simp [UserSpace.setPte]

structure MmArea.Aligned (a : MmArea) : Prop where
  addr : a.addr % archPageSize = 0
  size : a.size % archPageSize = 0
  addr_pos : 0 < a.addr
  addr_lt : a.addr < 2 ^ 64
  size_pos : 0 < a.size
  size_le : a.size ≤ 2 ^ 39

theorem MmArea.Aligned.addr_eq (h : a.Aligned) : a.addr = a.vpn * archPageSize :=
  (Nat.div_mul_cancel (Nat.dvd_of_mod_eq_zero h.addr)).symm

theorem MmArea.Aligned.size_eq (h : a.Aligned) : a.size = a.pages * archPageSize :=
  (Nat.div_mul_cancel (Nat.dvd_of_mod_eq_zero h.size)).symm

theorem MmArea.Aligned.pages_pos (h : a.Aligned) : 0 < a.pages := by
  have hsize := h.size_eq
  have hpos := h.size_pos
  by_contra hz
  have hz : a.pages = 0 := by omega
  rw [hz, Nat.zero_mul] at hsize
  omega

theorem MmArea.Aligned.slot_mem (h : a.Aligned) : slot a.vpn ∈ a.slots :=
  mem_slots.mpr ⟨0, h.pages_pos, rfl⟩

def Consecutive (es : List (Option Pte)) : Prop :=
  ∃ p attr, es = (List.range' p es.length).map fun q => some ⟨q, attr⟩

def AreaType.Entries : AreaType → List (Option Pte) → Prop
  | .data, es => ∀ e ∈ es, ∃ p, p ≠ 0 ∧ e = some ⟨p, .uRwcb⟩
  | .text, es => ∀ e ∈ es, ∃ p, p ≠ 0 ∧ e = some ⟨p, .uRo⟩
  | _, es => Consecutive es

theorem Consecutive.of_part {es es' : List (Option Pte)} (h : Consecutive es) (hsub : es' <:+: es) : Consecutive es' := by
  obtain ⟨p, attr, hp⟩ := h
  obtain ⟨before, after, rfl⟩ := hsub
  have hlen : (before ++ es' ++ after).length = before.length + es'.length + after.length := by
    simp [Nat.add_assoc]
  rw [hlen, ← List.range'_append_1, ← List.range'_append_1, List.map_append, List.map_append] at hp
  refine ⟨p + before.length, attr, ?_⟩
  have hfront := (List.append_inj' hp (by simp)).1
  exact (List.append_inj hfront (by simp)).2

theorem map_slots_inj {g : ℕ → Option Pte} (h : (slots vpn n).map t = (List.range' p n).map g) {k : ℕ} (hk : k < n) :
    t (slot (vpn + k)) = g (p + k) := by
  induction n generalizing vpn p k with
  | zero => omega
  | succ n ih =>
    rw [slots_succ, List.range'_succ, List.map_cons, List.map_cons] at h
    obtain ⟨hhead, htail⟩ := List.cons.inj h
    cases k with
    | zero => exact hhead
    | succ k =>
      have := ih htail (Nat.lt_of_succ_lt_succ hk)
      rwa [show vpn + (k + 1) = vpn + 1 + k by omega, show p + (k + 1) = p + 1 + k by omega]

theorem Consecutive.entry (h : Consecutive (a.slots.map t)) :
    ∃ p attr, ∀ k < a.pages, t (slot (a.vpn + k)) = some ⟨p + k, attr⟩ := by
  obtain ⟨p, attr, hp⟩ := h
  rw [List.length_map, MmArea.slots, length_slots] at hp
  exact ⟨p, attr, fun k hk => map_slots_inj hp hk⟩

theorem AreaType.Entries.of_part {type : AreaType} {es es' : List (Option Pte)} (h : type.Entries es)
    (hsub : es' <:+: es) : type.Entries es' := by
  cases type with
  | data => exact fun e he => h e (hsub.subset he)
  | text => exact fun e he => h e (hsub.subset he)
  | phy | phyWt | phyCached | shm => exact Consecutive.of_part h hsub

theorem AreaType.Entries.ne_none {type : AreaType} {es : List (Option Pte)} (h : type.Entries es) {e : Option Pte}
    (he : e ∈ es) : e ≠ none := by
  have hcons : Consecutive es → e ≠ none := by
    rintro ⟨p, attr, hp⟩ rfl
    rw [hp] at he
    simp at he
  cases type with
  | data =>
    obtain ⟨p, -, rfl⟩ := h e he
    simp
  | text =>
    obtain ⟨p, -, rfl⟩ := h e he
    simp
  | phy => exact hcons h
  | phyWt => exact hcons h
  | phyCached => exact hcons h
  | shm => exact hcons h

structure Tabled (t : ℕ → Option Pte) (l : List MmArea) : Prop where
  aligned : ∀ a ∈ l, a.Aligned
  nodup : (l.flatMap MmArea.slots).Nodup
  entries : ∀ a ∈ l, a.type.Entries (a.slots.map t)

def heldBy (t : ℕ → Option Pte) (l : List MmArea) : List ℕ :=
  l.flatMap fun a => if a.type.paNeedFree then pagesOf (a.slots.map t) else []

def v2p (t : ℕ → Option Pte) (va : ℕ) : ℕ := (⟨[], t⟩ : UserSpace).rtHwMmuV2p va

def shmAreas (t : ℕ → Option Pte) (l : List MmArea) (addr : ℕ) : ℕ := l.countP fun a => a.type = .shm ∧ v2p t a.addr = addr

theorem Tabled.perm (h : Tabled t l) (hp : l.Perm l') : Tabled t l' where
  aligned a ha := h.aligned a (hp.mem_iff.mpr ha)
  nodup := (hp.flatMap_right MmArea.slots).nodup_iff.mp h.nodup
  entries a ha := h.entries a (hp.mem_iff.mpr ha)

theorem tabled_cons : Tabled t (a :: l) ↔ a.Aligned ∧ a.slots.Nodup ∧ a.slots.Disjoint (l.flatMap MmArea.slots) ∧
    a.type.Entries (a.slots.map t) ∧ Tabled t l := by
  constructor
  · rintro ⟨ha, hn, he⟩
    rw [List.flatMap_cons, List.nodup_append'] at hn
    rw [List.forall_mem_cons] at ha he
    exact ⟨ha.1, hn.1, hn.2.2, he.1, ha.2, hn.2.1, he.2⟩
  · rintro ⟨ha, hn, hd, he, h⟩
    refine ⟨List.forall_mem_cons.mpr ⟨ha, h.aligned⟩, ?_, List.forall_mem_cons.mpr ⟨he, h.entries⟩⟩
    rw [List.flatMap_cons, List.nodup_append']
    exact ⟨hn, h.nodup, hd⟩

theorem Tabled.mapped (h : Tabled t l) (hs : s ∈ l.flatMap MmArea.slots) : t s ≠ none := by
  obtain ⟨a, ha, hsa⟩ := List.mem_flatMap.mp hs
  exact (h.entries a ha).ne_none (List.mem_map_of_mem hsa)

theorem Tabled.congr (h : Tabled t l) (ht : ∀ s ∈ l.flatMap MmArea.slots, t' s = t s) : Tabled t' l where
  aligned := h.aligned
  nodup := h.nodup
  entries a ha := by
    have hmap : a.slots.map t' = a.slots.map t :=
      List.map_congr_left fun s hs => ht s (List.mem_flatMap.mpr ⟨a, ha, hs⟩)
    rw [hmap]
    exact h.entries a ha

theorem heldBy_congr (ht : ∀ s ∈ l.flatMap MmArea.slots, t' s = t s) : heldBy t' l = heldBy t l := by
  apply List.flatMap_congr
  intro a ha
  have hmap : a.slots.map t' = a.slots.map t :=
    List.map_congr_left fun s hs => ht s (List.mem_flatMap.mpr ⟨a, ha, hs⟩)
  rw [hmap]

theorem shmAreas_congr (ha : ∀ a ∈ l, a.Aligned) (ht : ∀ s ∈ l.flatMap MmArea.slots, t' s = t s) :
    shmAreas t' l addr = shmAreas t l addr := by
  apply List.countP_congr
  intro a hal
  have hslot : t' (slot a.vpn) = t (slot a.vpn) := ht _ (List.mem_flatMap.mpr ⟨a, hal, (ha a hal).slot_mem⟩)
  have hv : v2p t' a.addr = v2p t a.addr := by
    unfold v2p UserSpace.rtHwMmuV2p
    rw [show slot (a.addr / archPageSize) = slot a.vpn from rfl]
    simp only [hslot]
  rw [hv]

theorem heldBy_cons : heldBy t (a :: l) = (if a.type.paNeedFree then pagesOf (a.slots.map t) else []) ++ heldBy t l :=
  List.flatMap_cons

theorem heldBy_perm (hp : l.Perm l') : (heldBy t l).count p = (heldBy t l').count p :=
  (hp.flatMap_right _).count_eq p

theorem shmAreas_perm (hp : l.Perm l') : shmAreas t l addr = shmAreas t l' addr := hp.countP_eq _

theorem shmAreas_cons : shmAreas t (a :: l) addr =
    shmAreas t l addr + if a.type = .shm ∧ v2p t a.addr = addr then 1 else 0 := by
  simp [shmAreas, List.countP_cons]

/-- What is left of an area when some of its entries are cleared. -/
structure Remains (a : MmArea) (cut : List ℕ) (kept : List MmArea) : Prop where
  slots : a.slots.Perm (cut ++ kept.flatMap MmArea.slots)
  type : ∀ b ∈ kept, b.type = a.type
  aligned : ∀ b ∈ kept, b.Aligned
  part : ∀ b ∈ kept, b.slots <:+: a.slots

theorem remains_nil (a : MmArea) : Remains a a.slots [] where
  slots := by simp
  type := by simp
  aligned := by simp
  part := by simp

section Carve

variable {cut : List ℕ} {kept : List MmArea}

theorem Remains.nodup (hr : Remains a cut kept) (h : Tabled t (a :: l)) :
    (cut ++ (kept ++ l).flatMap MmArea.slots).Nodup := by
  have hperm : ((a :: l).flatMap MmArea.slots).Perm (cut ++ (kept ++ l).flatMap MmArea.slots) := by
    rw [List.flatMap_cons, List.flatMap_append, ← List.append_assoc]
    exact hr.slots.append_right _
  exact hperm.nodup_iff.mp h.nodup

theorem Remains.notMem_cut (hr : Remains a cut kept) (h : Tabled t (a :: l))
    (hs : s ∈ (kept ++ l).flatMap MmArea.slots) : s ∉ cut := fun hc =>
  (List.nodup_append'.mp (hr.nodup h)).2.2 hc hs

theorem Tabled.carve (h : Tabled t (a :: l)) (hr : Remains a cut kept) : Tabled (clearSlots t cut) (kept ++ l) := by
  have hsame : Tabled t (kept ++ l) := by
    refine ⟨?_, (List.nodup_append'.mp (hr.nodup h)).2.1, ?_⟩
    · intro b hb
      rcases List.mem_append.mp hb with hb | hb
      · exact hr.aligned b hb
      · exact h.aligned b (List.mem_cons_of_mem a hb)
    · intro b hb
      rcases List.mem_append.mp hb with hb | hb
      · rw [hr.type b hb]
        exact (h.entries a List.mem_cons_self).of_part ((hr.part b hb).map t)
      · exact h.entries b (List.mem_cons_of_mem a hb)
  exact hsame.congr fun s hs => clearSlots_of_notMem (hr.notMem_cut h hs)

theorem heldBy_kept (hr : Remains a cut kept) : (if a.type.paNeedFree then pagesOf (a.slots.map t) else []).count p =
    dropped a.type.paNeedFree (cut.map t) p + (heldBy t kept).count p := by
  have hheld : heldBy t kept = if a.type.paNeedFree then pagesOf ((kept.flatMap MmArea.slots).map t) else [] := by
    unfold heldBy
    have hflat : (kept.flatMap fun b => if b.type.paNeedFree then pagesOf (b.slots.map t) else []) =
        kept.flatMap fun b => if a.type.paNeedFree then pagesOf (b.slots.map t) else [] := by
      apply List.flatMap_congr
      intro b hb
      rw [hr.type b hb]
    rw [hflat]
    split
    · rw [List.map_flatMap, pagesOf, List.filterMap_flatMap]
      rfl
    · simp
  rw [hheld]
  unfold dropped
  split
  · have hperm := (hr.slots.map t).filterMap backing
    rw [List.map_append] at hperm
    have hcount := hperm.count_eq p
    rw [List.filterMap_append, List.count_append] at hcount
    exact hcount
  · simp

theorem heldBy_carve (h : Tabled t (a :: l)) (hr : Remains a cut kept) : (heldBy t (a :: l)).count p =
    dropped a.type.paNeedFree (cut.map t) p + (heldBy (clearSlots t cut) (kept ++ l)).count p := by
  have hsame : heldBy (clearSlots t cut) (kept ++ l) = heldBy t (kept ++ l) :=
    heldBy_congr fun s hs => clearSlots_of_notMem (hr.notMem_cut h hs)
  have happ : heldBy t (kept ++ l) = heldBy t kept ++ heldBy t l := List.flatMap_append
  rw [heldBy_cons, List.count_append, heldBy_kept hr, hsame, happ, List.count_append, Nat.add_assoc]

theorem shmAreas_carve (h : Tabled t (a :: l)) (hr : Remains a cut kept) (hshm : a.type = .shm → kept = []) :
    shmAreas t (a :: l) addr =
      shmAreas (clearSlots t cut) (kept ++ l) addr + if a.type = .shm ∧ v2p t a.addr = addr then 1 else 0 := by
  have hsame : shmAreas (clearSlots t cut) (kept ++ l) addr = shmAreas t (kept ++ l) addr := by
    apply shmAreas_congr
    · exact (h.carve hr).aligned
    · exact fun s hs => clearSlots_of_notMem (hr.notMem_cut h hs)
  have hkept : shmAreas t kept addr = 0 := by
    rw [shmAreas, List.countP_eq_zero]
    intro b hb hshmb
    simp only [decide_eq_true_eq] at hshmb
    rw [hr.type b hb] at hshmb
    rw [hshm hshmb.1] at hb
    exact List.not_mem_nil hb
  have happ : shmAreas t (kept ++ l) addr = shmAreas t kept addr + shmAreas t l addr := List.countP_append
  rw [shmAreas_cons, hsame, happ, hkept, Nat.zero_add]

end Carve

section Add

variable (h : Tabled t l) (hfree : ∀ s ∈ a.slots, t s = none) (ht : ∀ s ∉ a.slots, t' s = t s)

include h hfree ht

theorem Tabled.agree (hs : s ∈ l.flatMap MmArea.slots) : t' s = t s :=
  ht s fun hsa => h.mapped hs (hfree s hsa)

theorem Tabled.add (ha : a.Aligned) (hnd : a.slots.Nodup) (he : a.type.Entries (a.slots.map t')) : Tabled t' (a :: l) := by
  refine tabled_cons.mpr ⟨ha, hnd, ?_, he, h.congr fun s hs => h.agree hfree ht hs⟩
  intro s hsa hsl
  exact h.mapped hsl (hfree s hsa)

theorem heldBy_add : heldBy t' (a :: l) = (if a.type.paNeedFree then pagesOf (a.slots.map t') else []) ++ heldBy t l := by
  rw [heldBy_cons, heldBy_congr fun s hs => h.agree hfree ht hs]

theorem shmAreas_add : shmAreas t' (a :: l) addr =
    shmAreas t l addr + if a.type = .shm ∧ v2p t' a.addr = addr then 1 else 0 := by
  rw [shmAreas_cons, shmAreas_congr h.aligned fun s hs => h.agree hfree ht hs]

end Add

/-- The areas in the order of their addresses. -/
def Ordered (l : List MmArea) : Prop := l.Pairwise fun a b => a.addr + a.size ≤ b.addr

theorem lwpAreaInsert_perm (a : MmArea) (l : List MmArea) : (lwpAreaInsert a l).Perm (a :: l) := by
  induction l with
  | nil => exact .refl _
  | cons b l ih =>
    rw [lwpAreaInsert]
    split
    · exact .refl _
    · exact (ih.cons b).trans (.swap a b l)

theorem Ordered.insert (h : Ordered l) (ha : 0 < a.size) (hl : ∀ b ∈ l, 0 < b.size)
    (hd : ∀ b ∈ l, a.addr + a.size ≤ b.addr ∨ b.addr + b.size ≤ a.addr) : Ordered (lwpAreaInsert a l) := by
  induction l with
  | nil => exact List.pairwise_singleton _ a
  | cons b l ih =>
    obtain ⟨hb, h⟩ := List.pairwise_cons.mp h
    have hab := hd b List.mem_cons_self
    have hbpos := hl b List.mem_cons_self
    rw [lwpAreaInsert]
    split
    · next hlt =>
      have hle : a.addr + a.size ≤ b.addr := by omega
      refine List.pairwise_cons.mpr ⟨?_, List.pairwise_cons.mpr ⟨hb, h⟩⟩
      intro c hc
      rcases List.mem_cons.mp hc with rfl | hc
      · exact hle
      · have := hb c hc
        omega
    · refine List.pairwise_cons.mpr ⟨?_, ih h (fun c hc => hl c (List.mem_cons_of_mem b hc))
        fun c hc => hd c (List.mem_cons_of_mem b hc)⟩
      intro c hc
      rcases List.mem_cons.mp ((lwpAreaInsert_perm a l).mem_iff.mp hc) with rfl | hc
      · omega
      · exact hb c hc

theorem apart_of_slots (ha : a.Aligned) (hb : b.Aligned) (hd : a.slots.Disjoint b.slots) :
    a.addr + a.size ≤ b.addr ∨ b.addr + b.size ≤ a.addr := by
  have key : ∀ {c d : MmArea}, c.Aligned → d.Aligned → c.slots.Disjoint d.slots → c.addr ≤ d.addr →
      c.addr + c.size ≤ d.addr := by
    intro c d hc hd hdisj hle
    rw [hc.addr_eq, hd.addr_eq] at hle
    rw [hc.addr_eq, hc.size_eq, hd.addr_eq, ← Nat.add_mul]
    apply Nat.mul_le_mul_right
    have hvpn : c.vpn ≤ d.vpn := Nat.le_of_mul_le_mul_right hle (by decide)
    by_contra hlt
    refine hdisj ?_ hd.slot_mem
    exact mem_slots.mpr ⟨d.vpn - c.vpn, by omega, by congr 1; omega⟩
  rcases le_total a.addr b.addr with hle | hle
  · exact .inl (key ha hb hd hle)
  · exact .inr (key hb ha hd.symm hle)

theorem Tabled.ordered_insert (h : Tabled t (a :: l)) (hord : Ordered l) : Ordered (lwpAreaInsert a l) := by
  obtain ⟨ha, -, hd, -, hl⟩ := tabled_cons.mp h
  refine hord.insert ha.size_pos (fun b hb => (hl.aligned b hb).size_pos) ?_
  intro b hb
  apply apart_of_slots ha (hl.aligned b hb)
  intro s hsa hsb
  exact hd hsa (List.mem_flatMap.mpr ⟨b, hb, hsb⟩)

theorem CanMap.slots_nodup {mapVa va : ℕ} (h : CanMap u mapVa n va) : (slots (va / archPageSize) n).Nodup := nodup_slots h.2.1

theorem CanMap.free {mapVa va : ℕ} (h : CanMap u mapVa n va) (hs : s ∈ slots (va / archPageSize) n) : u.vtable s = none := by
  obtain ⟨k, hk, rfl⟩ := mem_slots.mp hs
  exact h.2.2.2.2.2.2 k hk

theorem CanMap.aligned {mapVa va : ℕ} {type : AreaType} {ua : ℕ} (h : CanMap u mapVa n va) :
    (⟨va, n * archPageSize, type, ua⟩ : MmArea).Aligned := by
  obtain ⟨hn, hle, hpos, hlt, hmod, -⟩ := h
  constructor
  · exact hmod
  · exact Nat.mul_mod_left _ _
  · exact hpos
  · exact hlt
  · exact Nat.mul_pos hn (by decide)
  · show n * 4096 ≤ 2 ^ 39
    omega

def UserSpace.addArea (u : UserSpace) (type : AreaType) (attr : MmuAttr) (ps : List ℕ) (va : ℕ) : UserSpace :=
  ⟨lwpAreaInsert ⟨va, ps.length * archPageSize, type, 0⟩ u.mapArea, (mapPages attr (va / archPageSize) ps u).vtable⟩

def Untouched (u u' : UserSpace) : Prop :=
  u'.mapArea = u.mapArea ∧ ∀ s, u.vtable s ≠ none → u'.vtable s = u.vtable s

theorem Untouched.refl (u : UserSpace) : Untouched u u := ⟨rfl, fun _ _ => rfl⟩

theorem CanMap.untouched {mapVa va : ℕ} (attr : MmuAttr) (ps : List ℕ) (h : CanMap u mapVa ps.length va) :
    Untouched u ⟨u.mapArea, clearSlots (mapPages attr (va / archPageSize) ps u).vtable (slots (va / archPageSize) ps.length)⟩ := by
  refine ⟨rfl, ?_⟩
  intro s hs
  have hout : s ∉ slots (va / archPageSize) ps.length := fun hmem => hs (h.free hmem)
  dsimp only
  rw [clearSlots_of_notMem hout, vtable_mapPages _ hout]

def mapAttr (type : AreaType) (cached : Bool) : MmuAttr := if type = .text then .uRo else if cached then .uRwcb else .uRw

def mapType (type : AreaType) (cached : Bool) : AreaType := if type = .phy ∧ cached then .phyCached else type

theorem lwpMapUserTypeLocked_cases {mapVa mapPa mapSize r : ℕ} {cached : Bool} {type : AreaType} {ans : Option MapAnswer}
    {y : Mm × UserSpace} (hs : mapSize % archPageSize = 0)
    (h : lwpMapUserTypeLocked x mapVa mapPa mapSize cached type ans = some (y, r)) :
    (r = 0 ∧ y.1 = x.1 ∧ Untouched x.2 y.2) ∨
      (CanMap x.2 mapVa (mapSize / archPageSize) r ∧
        y = (x.1, x.2.addArea (mapType type cached) (mapAttr type cached)
          (List.range' (mapPa / archPageSize) (mapSize / archPageSize)) r)) := by
  have hsize : mapSize / archPageSize * archPageSize = mapSize := Nat.div_mul_cancel (Nat.dvd_of_mod_eq_zero hs)
  unfold lwpMapUserTypeLocked at h
  cases ans with
  | none =>
    cases h
    exact .inl ⟨rfl, rfl, .refl _⟩
  | some ans =>
    obtain ⟨va, inserted⟩ := ans
    dsimp only at h
    split at h
    · next hcan =>
      cases inserted with
      | true =>
        simp only [↓reduceIte, Option.some.injEq, Prod.mk.injEq] at h
        obtain ⟨rfl, rfl⟩ := h
        refine .inr ⟨hcan.1, ?_⟩
        unfold UserSpace.addArea mapType mapAttr
        rw [List.length_range', hsize, mapArea_mapPages]
      | false =>
        have hlen : (List.range' (mapPa / archPageSize) (mapSize / archPageSize)).length = mapSize / archPageSize :=
          List.length_range'
        simp only [Bool.false_eq_true, ↓reduceIte, Option.some.injEq, Prod.mk.injEq] at h
        obtain ⟨rfl, rfl⟩ := h
        rw [unmapRange_eq _ _ hcan.1.slots_nodup]
        refine .inl ⟨rfl, ?_, ?_⟩
        · simp [Mm.setRef, dropped]
        · have hun := CanMap.untouched (mapAttr type cached)
            (List.range' (mapPa / archPageSize) (mapSize / archPageSize)) (hlen.symm ▸ hcan.1)
          rw [hlen] at hun
          rw [mapArea_mapPages]
          exact hun
    · cases h

theorem roundUp_mod (size : ℕ) : roundUp size % archPageSize = 0 := Nat.mul_mod_left _ _

theorem roundUp_eq {size : ℕ} (hmod : size % archPageSize = 0) (hle : size ≤ 2 ^ 39) : roundUp size = size := by
  unfold roundUp
  have hlt : size + archPageMask < 2 ^ 64 := by
    unfold archPageMask archPageSize
    omega
  rw [wadd_of_lt hlt]
  unfold archPageMask archPageSize at *
  omega

theorem lwpMapUserType_cases {mapVa mapPa mapSize r : ℕ} {cached : Bool} {type : AreaType} {ans : Option MapAnswer}
    {y : Mm × UserSpace} (h : lwpMapUserType x mapVa mapPa mapSize cached type ans = some (y, r)) :
    (r = 0 ∧ y.1 = x.1 ∧ Untouched x.2 y.2) ∨
      ∃ n va, n = roundUp (wadd 64 mapSize (mapPa % archPageSize)) / archPageSize ∧ CanMap x.2 mapVa n va ∧
        r = va + mapPa % archPageSize ∧
        y = (x.1, x.2.addArea (mapType type cached) (mapAttr type cached) (List.range' (mapPa / archPageSize) n) va) := by
  unfold lwpMapUserType at h
  split at h
  · cases h
    exact .inl ⟨rfl, rfl, .refl _⟩
  · obtain ⟨⟨z, va⟩, hz, heq⟩ := Option.map_eq_some_iff.mp h
    dsimp only at heq
    obtain ⟨rfl, rfl⟩ := Prod.mk.inj heq
    rcases lwpMapUserTypeLocked_cases (roundUp_mod _) hz with ⟨rfl, hm, hun⟩ | ⟨hcan, rfl⟩
    · exact .inl ⟨if_pos rfl, hm, hun⟩
    · have hpage : mapPa / archPageSize * archPageSize / archPageSize = mapPa / archPageSize :=
        Nat.mul_div_cancel _ (by decide)
      rw [hpage]
      exact .inr ⟨_, va, rfl, hcan, if_neg hcan.2.2.1.ne', rfl⟩

theorem lwpMapUserType_aligned {mapVa mapPa mapSize r : ℕ} {cached : Bool} {type : AreaType} {ans : Option MapAnswer}
    {y : Mm × UserSpace} (hpa : mapPa % archPageSize = 0) (hmod : mapSize % archPageSize = 0) (hle : mapSize ≤ 2 ^ 39)
    (h : lwpMapUserType x mapVa mapPa mapSize cached type ans = some (y, r)) :
    (r = 0 ∧ y.1 = x.1 ∧ Untouched x.2 y.2) ∨
      (CanMap x.2 mapVa (mapSize / archPageSize) r ∧
        y = (x.1, x.2.addArea (mapType type cached) (mapAttr type cached)
          (List.range' (mapPa / archPageSize) (mapSize / archPageSize)) r)) := by
  rcases lwpMapUserType_cases h with hfail | ⟨n, va, hn, hcan, hr, hy⟩
  · exact .inl hfail
  · have hlt : mapSize + 0 < 2 ^ 64 := by omega
    rw [hpa, wadd_of_lt hlt, Nat.add_zero, roundUp_eq hmod hle] at hn
    rw [hpa, Nat.add_zero] at hr
    subst hn hr
    exact .inr ⟨hcan, hy⟩

theorem foldl_rtPagesAlloc (ps : List ℕ) (m : Mm) :
    ps.foldl (fun m p => m.rtPagesAlloc p 1) m = m.setRef fun p => if p ∈ ps then 1 else m.pageRef p := by
  induction ps generalizing m with
  | nil => simp [Mm.setRef]
  | cons q ps ih =>
    rw [List.foldl_cons, ih]
    simp only [Mm.rtPagesAlloc, Mm.setRef, Mm.mk.injEq, true_and, and_true]
    funext p
    by_cases hp : p ∈ ps
    · simp [hp]
    · by_cases hq : p = q
      · subst hq
        simp
      · have hout : ¬ (q ≤ p ∧ p < q + 1) := by omega
        rw [if_neg hp, if_neg hout, if_neg (by simp [hp, hq])]

theorem pagesOf_map (attr : MmuAttr) {ps : List ℕ} (hne : ∀ p ∈ ps, p ≠ 0) :
    pagesOf (ps.map fun p => some ⟨p, attr⟩) = ps := by
  induction ps with
  | nil => rfl
  | cons q ps ih =>
    obtain ⟨hq, hps⟩ := List.forall_mem_cons.mp hne
    unfold pagesOf at *
    rw [List.map_cons, List.filterMap_cons_some (b := q) (by simp [hq]), ih hps]

theorem lwpMapUserLocked_cases {mapVa mapSize r : ℕ} {text : Bool} {ans : Option (MapAnswer × List ℕ)}
    {y : Mm × UserSpace} (hs : mapSize % archPageSize = 0)
    (h : lwpMapUserLocked x mapVa mapSize text ans = some (y, r)) :
    (r = 0 ∧ y.1 = x.1 ∧ Untouched x.2 y.2) ∨
      ∃ ps : List ℕ, ps.length = mapSize / archPageSize ∧ ps.Nodup ∧ (∀ p ∈ ps, p ≠ 0 ∧ x.1.pageRef p = 0) ∧
        CanMap x.2 mapVa ps.length r ∧
        y = (x.1.setRef fun p => if p ∈ ps then 1 else x.1.pageRef p,
          x.2.addArea (if text then .text else .data) (if text then .uRo else .uRwcb) ps r) := by
  have hsize : mapSize / archPageSize * archPageSize = mapSize := Nat.div_mul_cancel (Nat.dvd_of_mod_eq_zero hs)
  unfold lwpMapUserLocked at h
  cases ans with
  | none =>
    cases h
    exact .inl ⟨rfl, rfl, .refl _⟩
  | some ans =>
    obtain ⟨⟨va, inserted⟩, ps⟩ := ans
    dsimp only at h
    split at h
    · next hcan =>
      obtain ⟨hcan, hlen, hnd, hfresh⟩ := hcan
      rw [← hlen] at hcan
      rw [foldl_rtPagesAlloc] at h
      cases inserted with
      | true =>
        simp only [↓reduceIte, Option.some.injEq, Prod.mk.injEq] at h
        obtain ⟨rfl, rfl⟩ := h
        refine .inr ⟨ps, hlen, hnd, hfresh, hcan, ?_⟩
        unfold UserSpace.addArea
        rw [hlen, hsize, mapArea_mapPages]
      | false =>
        simp only [Bool.false_eq_true, ↓reduceIte, Option.some.injEq, Prod.mk.injEq] at h
        obtain ⟨rfl, rfl⟩ := h
        rw [← hlen, unmapRange_eq _ _ hcan.slots_nodup, map_mapPages _ hcan.slots_nodup]
        refine .inl ⟨rfl, ?_, ?_⟩
        -- the pages are given back
        · have hback : (fun p => (if p ∈ ps then 1 else x.1.pageRef p) -
              dropped true (ps.map fun p => some ⟨p, if text then .uRo else .uRwcb⟩) p) = x.1.pageRef := by
            funext p
            rw [dropped, if_pos rfl, pagesOf_map _ fun p hp => (hfresh p hp).1]
            by_cases hp : p ∈ ps
            · rw [if_pos hp, List.count_eq_one_of_mem hnd hp, (hfresh p hp).2]
            · rw [if_neg hp, List.count_eq_zero_of_not_mem hp, Nat.sub_zero]
          simp only [Mm.setRef, hback]
        · rw [mapArea_mapPages]
          exact hcan.untouched _ ps
    · cases h

theorem lwpMapUser_cases {mapVa mapSize r : ℕ} {text : Bool} {ans : Option (MapAnswer × List ℕ)}
    {y : Mm × UserSpace} (h : lwpMapUser x mapVa mapSize text ans = some (y, r)) :
    (r = 0 ∧ y.1 = x.1 ∧ Untouched x.2 y.2) ∨
      ∃ (ps : List ℕ) (va : ℕ), ps.length = roundUp (wadd 64 mapSize (mapVa % archPageSize)) / archPageSize ∧ ps.Nodup ∧
        (∀ p ∈ ps, p ≠ 0 ∧ x.1.pageRef p = 0) ∧ CanMap x.2 (mapVa / archPageSize * archPageSize) ps.length va ∧
        r = va + mapVa % archPageSize ∧
        y = (x.1.setRef fun p => if p ∈ ps then 1 else x.1.pageRef p,
          x.2.addArea (if text then .text else .data) (if text then .uRo else .uRwcb) ps va) := by
  unfold lwpMapUser at h
  split at h
  · cases h
    exact .inl ⟨rfl, rfl, .refl _⟩
  · obtain ⟨⟨z, va⟩, hz, heq⟩ := Option.map_eq_some_iff.mp h
    dsimp only at heq
    obtain ⟨rfl, rfl⟩ := Prod.mk.inj heq
    rcases lwpMapUserLocked_cases (roundUp_mod _) hz with ⟨rfl, hm, hun⟩ | ⟨ps, hlen, hnd, hfresh, hcan, rfl⟩
    · exact .inl ⟨if_pos rfl, hm, hun⟩
    · exact .inr ⟨ps, va, hlen, hnd, hfresh, hcan, if_neg hcan.2.2.1.ne', rfl⟩

end RtSmart
