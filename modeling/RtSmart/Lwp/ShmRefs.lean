import RtSmart.Lib.Transition
import RtSmart.Lwp.ShmOps
import RtSmart.Lwp.ShmObjects
import Mathlib.Algebra.BigOperators.Group.Finset.Basic

/-!
Processes that share memory, in any sequence of calls. The reference count of an object is the number of the
areas that map it.
-/

namespace RtSmart

open Lib Finset

structure ShmSys where
  mm : Mm
  space : ℕ → Option UserSpace

namespace ShmSys

/-- The calls, with what the allocators answer. A process gets areas of other types from `lwp_map_user` and
`lwp_map_user_phy`. -/
inductive Event
  | shmget (key size : ℕ) (create : Bool) (page : Option ℕ) (node : Bool)
  | shmrm (id : ℤ)
  | shmat (pid : ℕ) (id : ℤ) (va : ℕ) (ans : Option MapAnswer)
  | shmdt (pid va : ℕ)
  | munmap (pid addr length : ℕ) (memory : Bool)
  | fork (pid child : ℕ) (ans : List DupAnswer) (late : Bool)
  | exit (pid : ℕ)
  | spawn (pid : ℕ)
  | mapUser (pid va size : ℕ) (text : Bool) (ans : Option (MapAnswer × List ℕ))
  | mapPhy (pid va pa size : ℕ) (cached : Bool) (ans : Option MapAnswer)
  deriving DecidableEq, Repr

def put (s : ShmSys) (pid : ℕ) (x : Mm × UserSpace) : ShmSys := ⟨x.1, Function.update s.space pid (some x.2)⟩

def step (cfg : MmConfig) (s : ShmSys) : Event → Option ShmSys
  | .shmget key size create page node =>
    (s.mm.lwpShmget cfg.shmMaxNr key size create page node).map fun r => { s with mm := r.1 }
  | .shmrm id => some { s with mm := (s.mm.lwpShmrm cfg.shmMaxNr id).1 }
  | .shmat pid id va ans =>
    (s.space pid).bind fun u => (s.mm.lwpShmat u cfg.shmMaxNr id va ans).map fun r => s.put pid r.1
  | .shmdt pid va => (s.space pid).map fun u => s.put pid (s.mm.lwpShmdt u va).1
  | .munmap pid addr length memory => (s.space pid).map fun u => s.put pid (lwpMunmap cfg (s.mm, u) addr length memory).1
  | .fork pid child ans late =>
    if child < cfg.lwpMaxNr ∧ s.space child = none then
      (s.space pid).bind fun u =>
        (sysFork s.mm u ans late).map fun r => ⟨r.1, Function.update s.space child r.2⟩
    else none
  | .exit pid =>
    (s.space pid).map fun u => ⟨(lwpUnmapUserSpace (s.mm, u)).1, Function.update s.space pid none⟩
  | .spawn pid =>
    if pid < cfg.lwpMaxNr ∧ s.space pid = none then some { s with space := Function.update s.space pid (some .empty) }
    else none
  | .mapUser pid va size text ans =>
    (s.space pid).bind fun u => (lwpMapUser (s.mm, u) va size text ans).map fun r => s.put pid r.1
  | .mapPhy pid va pa size cached ans =>
    (s.space pid).bind fun u => (lwpMapUserType (s.mm, u) va pa size cached .phy ans).map fun r => s.put pid r.1

def init : ShmSys where
  mm := ⟨fun _ => ⟨0, 0, 0, 0⟩, none, 0, [], [], fun _ => 0, fun _ _ => 0⟩
  space := fun _ => none

/-- No `fork` fails while it maps shared memory into the child, and `shmdt` is not called for an address that
leads to the start of an object although it is not in an area of shared memory. -/
def Admits (s : ShmSys) : Event → Prop
  | .fork pid _ ans _ => ∀ u ∈ s.space pid, ∀ e ∈ u.mapArea.zip ans, e.1.type = .shm → e.2.Maps
  | .shmdt pid va => ∀ u ∈ s.space pid, ShmdtOk s.mm u va
  | _ => True

instance (m : Mm) (u : UserSpace) (va : ℕ) : Decidable (ShmdtOk m u va) :=
  match h : lwpMapFind u.mapArea (va / archPageSize * archPageSize) with
  | none => decidable_of_iff (m.lwpShmStructGet u va = none) (by simp [ShmdtOk, h])
  | some a => decidable_of_iff (m.lwpShmStructGet u va = none ∨ a.type = .shm) (by simp [ShmdtOk, h])

instance (s : ShmSys) : ∀ e, Decidable (s.Admits e)
  | .fork pid _ ans _ =>
    inferInstanceAs (Decidable (∀ u ∈ s.space pid, ∀ e ∈ u.mapArea.zip ans, e.1.type = .shm → e.2.Maps))
  | .shmdt pid va => inferInstanceAs (Decidable (∀ u ∈ s.space pid, ShmdtOk s.mm u va))
  | .shmget _ _ _ _ _ => isTrue trivial
  | .shmrm _ => isTrue trivial
  | .shmat _ _ _ _ => isTrue trivial
  | .munmap _ _ _ _ => isTrue trivial
  | .exit _ => isTrue trivial
  | .spawn _ => isTrue trivial
  | .mapUser _ _ _ _ _ => isTrue trivial
  | .mapPhy _ _ _ _ _ _ => isTrue trivial

variable {cfg : MmConfig} {s s' : ShmSys} {pid id p addr : ℕ} {u : UserSpace} {x : Mm × UserSpace}

def spaceOf (s : ShmSys) (pid : ℕ) : UserSpace := (s.space pid).getD .empty

/-- The areas of one process that map the object at the address, and its references to a page. -/
def areasOf (s : ShmSys) (addr pid : ℕ) : ℕ := shmAreas (s.spaceOf pid).vtable (s.spaceOf pid).mapArea addr

def usesOf (s : ShmSys) (p pid : ℕ) : ℕ := (heldBy (s.spaceOf pid).vtable (s.spaceOf pid).mapArea).count p

structure Inv (cfg : MmConfig) (s : ShmSys) : Prop where
  objs : s.mm.ObjOk cfg.shmMaxNr
  space : ∀ pid, SpaceOk s.mm (s.spaceOf pid)
  bound : ∀ pid, cfg.lwpMaxNr ≤ pid → s.space pid = none
  exact : ∀ id, s.mm.Live id →
    (s.mm.shmAry id).ref = (∑ pid ∈ range cfg.lwpMaxNr, s.areasOf (s.mm.shmAry id).addr pid : ℕ)
  held : ∀ p, ∑ pid ∈ range cfg.lwpMaxNr, s.usesOf p pid + s.mm.objPages.count p ≤ s.mm.pageRef p
  apart : ∀ p ∈ s.mm.objPages, ∑ pid ∈ range cfg.lwpMaxNr, s.usesOf p pid = 0

def refsBut (cfg : MmConfig) (s : ShmSys) (pid addr : ℕ) : ℕ := ∑ q ∈ (range cfg.lwpMaxNr).erase pid, s.areasOf addr q

def usesBut (cfg : MmConfig) (s : ShmSys) (pid p : ℕ) : ℕ := ∑ q ∈ (range cfg.lwpMaxNr).erase pid, s.usesOf p q

theorem Inv.lt_of_some (h : s.Inv cfg) (hu : s.space pid = some u) : pid < cfg.lwpMaxNr := by
  by_contra hge
  rw [h.bound pid (by omega)] at hu
  cases hu

theorem Inv.balanced (h : s.Inv cfg) (hpid : pid < cfg.lwpMaxNr) :
    Balanced cfg.shmMaxNr (s.refsBut cfg pid) (s.usesBut cfg pid) s.mm (s.spaceOf pid) := by
  have hmem := mem_range.mpr hpid
  have hrefs : ∀ addr, s.refsBut cfg pid addr + s.areasOf addr pid = ∑ q ∈ range cfg.lwpMaxNr, s.areasOf addr q :=
    fun addr => sum_erase_add _ _ hmem
  have huses : ∀ p, s.usesBut cfg pid p + s.usesOf p pid = ∑ q ∈ range cfg.lwpMaxNr, s.usesOf p q :=
    fun p => sum_erase_add _ _ hmem
  refine ⟨h.objs, h.space pid, ?_, ?_, ?_⟩
  · intro id hid
    rw [h.exact id hid, ← hrefs]
    rfl
  · intro p
    have := h.held p
    rw [← huses] at this
    exact this
  · intro p hp
    have := h.apart p hp
    rw [← huses] at this
    exact this

theorem spaceOf_update (o : Option UserSpace) (q : ℕ) (m : Mm) :
    (⟨m, Function.update s.space pid o⟩ : ShmSys).spaceOf q = if q = pid then o.getD .empty else s.spaceOf q := by
  unfold spaceOf
  by_cases hq : q = pid
  · subst hq
    simp
  · simp [hq]

theorem Inv.replace (h : s.Inv cfg) (hpid : pid < cfg.lwpMaxNr) (o : Option UserSpace) (m : Mm)
    (hk : Kept cfg.shmMaxNr (s.refsBut cfg pid) (s.usesBut cfg pid) s.mm (m, o.getD .empty)) :
    (⟨m, Function.update s.space pid o⟩ : ShmSys).Inv cfg := by
  have hmem := mem_range.mpr hpid
  set s₁ : ShmSys := ⟨m, Function.update s.space pid o⟩ with hs₁
  have hspace : ∀ q, s₁.spaceOf q = if q = pid then o.getD .empty else s.spaceOf q := fun q => spaceOf_update o q m
  have hself : s₁.spaceOf pid = o.getD .empty := by
    rw [hspace, if_pos rfl]
  have hother : ∀ q ∈ (range cfg.lwpMaxNr).erase pid, s₁.spaceOf q = s.spaceOf q := by
    intro q hq
    rw [hspace, if_neg (ne_of_mem_erase hq)]
  have hrefs : ∀ addr, ∑ q ∈ range cfg.lwpMaxNr, s₁.areasOf addr q =
      s.refsBut cfg pid addr + shmAreas (o.getD .empty).vtable (o.getD .empty).mapArea addr := by
    intro addr
    rw [← sum_erase_add _ _ hmem]
    congr 1
    · refine sum_congr rfl fun q hq => ?_
      unfold areasOf
      rw [hother q hq]
    · unfold areasOf
      rw [hself]
  have huses : ∀ p, ∑ q ∈ range cfg.lwpMaxNr, s₁.usesOf p q =
      s.usesBut cfg pid p + (heldBy (o.getD .empty).vtable (o.getD .empty).mapArea).count p := by
    intro p
    rw [← sum_erase_add _ _ hmem]
    congr 1
    · refine sum_congr rfl fun q hq => ?_
      unfold usesOf
      rw [hother q hq]
    · unfold usesOf
      rw [hself]
  refine ⟨hk.balanced.objs, ?_, ?_, ?_, ?_, ?_⟩
  · intro q
    rw [hspace]
    split
    · exact hk.balanced.space
    · exact (h.space q).same hk.same
  · intro q hq
    have hne : q ≠ pid := by omega
    show Function.update s.space pid o q = none
    rw [Function.update_of_ne hne]
    exact h.bound q hq
  · intro id hid
    rw [hrefs]
    exact hk.balanced.exact id hid
  · intro p
    rw [huses]
    exact hk.balanced.held p
  · intro p hp
    rw [huses]
    exact hk.balanced.apart p hp

theorem Inv.kept (h : s.Inv cfg) (hu : s.space pid = some u) :
    Kept cfg.shmMaxNr (s.refsBut cfg pid) (s.usesBut cfg pid) s.mm (s.mm, u) := by
  have hb := h.balanced (h.lt_of_some hu)
  rw [spaceOf, hu] at hb
  exact .of_balanced hb

theorem Inv.put (h : s.Inv cfg) (hu : s.space pid = some u)
    (hk : Kept cfg.shmMaxNr (s.refsBut cfg pid) (s.usesBut cfg pid) s.mm x) : (s.put pid x).Inv cfg :=
  h.replace (h.lt_of_some hu) (some x.2) x.1 hk

theorem Inv.fork {child : ℕ} {ans : List DupAnswer} {late : Bool} {m : Mm} {c : Option UserSpace} (h : s.Inv cfg)
    (hchild : child < cfg.lwpMaxNr) (hnone : s.space child = none) (hu : s.space pid = some u)
    (hans : ∀ e ∈ u.mapArea.zip ans, e.1.type = .shm → e.2.Maps) (hf : sysFork s.mm u ans late = some (m, c)) :
    (⟨m, Function.update s.space child c⟩ : ShmSys).Inv cfg ∧ s.mm.Same m := by
  have hb := h.balanced hchild
  rw [spaceOf, hnone] at hb
  have hparent : s.spaceOf pid = u := by
    rw [spaceOf, hu]
    rfl
  -- the parent holds the pages that it shares
  have huses : ∀ p ∈ heldBy u.vtable u.mapArea, 0 < s.usesBut cfg child p := by
    intro p hp
    have hne : pid ≠ child := by
      rintro rfl
      rw [hu] at hnone
      cases hnone
    have hmem : pid ∈ (range cfg.lwpMaxNr).erase child := mem_erase.mpr ⟨hne, mem_range.mpr (h.lt_of_some hu)⟩
    have hpos : 0 < s.usesOf p pid := by
      rw [usesOf, hparent]
      exact List.count_pos_iff.mpr hp
    exact hpos.trans_le (single_le_sum (fun _ _ => Nat.zero_le _) hmem)
  have hk := Kept.sysFork (hparent ▸ h.space pid) huses hb hans hf
  exact ⟨h.replace hchild c m hk, hk.same⟩

theorem Inv.exit (h : s.Inv cfg) (hu : s.space pid = some u) :
    (⟨(lwpUnmapUserSpace (s.mm, u)).1, Function.update s.space pid none⟩ : ShmSys).Inv cfg := by
  obtain ⟨hk, hnil⟩ := (h.kept hu).lwpUnmapUserSpace
  exact h.replace (h.lt_of_some hu) none _ ⟨hk.balanced.forget hnil, hk.same⟩

theorem Inv.spawn (h : s.Inv cfg) (hpid : pid < cfg.lwpMaxNr) (hnone : s.space pid = none) :
    ({ s with space := Function.update s.space pid (some .empty) } : ShmSys).Inv cfg := by
  have hb := h.balanced hpid
  rw [spaceOf, hnone] at hb
  exact h.replace hpid (some .empty) s.mm (.of_balanced hb)

theorem Inv.extend (h : s.Inv cfg) {m : Mm} (hobjs : m.ObjOk cfg.shmMaxNr) (hext : s.mm.Extends m)
    (hlive : ∀ id, m.Live id → s.mm.Live id) (hpages : m.objPages = s.mm.objPages) (href : m.pageRef = s.mm.pageRef) :
    ({ s with mm := m } : ShmSys).Inv cfg := by
  refine ⟨hobjs, fun pid => hext.spaceOk (h.space pid), h.bound, ?_, ?_, ?_⟩
  · intro id hid
    rw [show ({ s with mm := m } : ShmSys).mm = m from rfl, (hext id (hlive id hid)).2]
    exact h.exact id (hlive id hid)
  · intro p
    show _ + m.objPages.count p ≤ m.pageRef p
    rw [hpages, href]
    exact h.held p
  · intro p hp
    exact h.apart p (hpages ▸ hp)

theorem Inv.areas_eq_zero (h : s.Inv cfg) (hne : ∀ id, s.mm.Live id → (s.mm.shmAry id).addr ≠ addr) (pid : ℕ) :
    s.areasOf addr pid = 0 := by
  apply List.countP_eq_zero.mpr
  intro a ha hmaps
  simp only [decide_eq_true_eq] at hmaps
  obtain ⟨id, hid, -, hv⟩ := (h.space pid).shm a ha hmaps.1
  exact hne id hid (hv.symm.trans hmaps.2)

theorem Inv.insertObj {m : Mm} {key ppn bit : ℕ} (h : s.Inv cfg) (hobjs : m.ObjOk cfg.shmMaxNr) (ht : m.Taken id)
    (hk : m.shmTreeKey = s.mm.shmTreeKey) (hary : m.shmAry = s.mm.shmAry) (href : m.pageRef = s.mm.pageRef)
    (hkey : ∀ e ∈ m.shmTreeKey, e.1 ≠ key) (hbit : bit < archPageListSize) (hppn : ppn ≠ 0)
    (hfresh : ∀ k < 2 ^ bit, m.pageRef (ppn + k) = 0) :
    (⟨(m.rtPagesAlloc ppn (2 ^ bit)).insertObj id ⟨ppn * archPageSize, 2 ^ (bit + archPageShift), 0, key⟩, s.space⟩ :
      ShmSys).Inv cfg := by
  set p : ShmStruct := ⟨ppn * archPageSize, 2 ^ (bit + archPageShift), 0, key⟩ with hp
  set m₁ := m.rtPagesAlloc ppn (2 ^ bit) with hm₁
  have hrange : List.range' (p.addr / archPageSize) (p.size / archPageSize) = List.range' ppn (2 ^ bit) := by
    rw [hp]
    dsimp only
    rw [Nat.mul_div_cancel _ (by decide), pow_add, show archPageSize = 2 ^ archPageShift from rfl,
      Nat.mul_div_cancel _ (by decide)]
  have hlive : ∀ {i}, m₁.Live i ↔ s.mm.Live i := by
    intro i
    unfold Mm.Live
    rw [show m₁.shmTreeKey = s.mm.shmTreeKey from hk]
  have hpages : m₁.objPages = s.mm.objPages := by
    unfold Mm.objPages Mm.pagesOfObj
    rw [show m₁.shmTreeKey = s.mm.shmTreeKey from hk, show m₁.shmAry = s.mm.shmAry from hary]
  -- nobody uses the new pages
  have hnew : ∀ q ∈ List.range' ppn (2 ^ bit),
      ∑ pid ∈ range cfg.lwpMaxNr, s.usesOf q pid = 0 ∧ s.mm.objPages.count q = 0 := by
    intro q hq
    rw [List.mem_range'_1] at hq
    have hzero := hfresh (q - ppn) (by omega)
    rw [href, show ppn + (q - ppn) = q by omega] at hzero
    have := h.held q
    omega
  have ht₁ : m₁.Taken id := ⟨ht.not_live, ht.lt, ht.free⟩
  have hobjs₁ : m₁.ObjOk cfg.shmMaxNr := hobjs.same (Mm.same_setRef m _)
  have hout : ∀ q ∈ List.range' (p.addr / archPageSize) (p.size / archPageSize), q ∉ m₁.objPages := by
    rw [hrange, hpages]
    exact fun q hq => List.count_eq_zero.mp (hnew q hq).2
  have hobjs' : (m₁.insertObj id p).ObjOk cfg.shmMaxNr := by
    refine hobjs₁.insertObj ht₁ hkey hbit rfl (Nat.mul_mod_left _ _) ?_ hout
    exact Nat.mul_pos (Nat.pos_of_ne_zero hppn) (by decide)
  have hary' : ∀ i, s.mm.Live i → (m₁.insertObj id p).shmAry i = s.mm.shmAry i := by
    intro i hi
    rw [Mm.ary_of_live ht₁ (hlive.mpr hi)]
    exact congrFun hary i
  have hcount : ∀ q, (m₁.insertObj id p).objPages.count q =
      (List.range' ppn (2 ^ bit)).count q + s.mm.objPages.count q := by
    intro q
    rw [Mm.objPages_insertObj ht₁, hrange, hpages, List.count_append]
  refine ⟨hobjs', ?_, h.bound, ?_, ?_, ?_⟩
  · intro pid
    refine Mm.Extends.spaceOk ?_ (h.space pid)
    intro i hi
    exact ⟨Mm.live_insertObj.mpr (.inr (hlive.mpr hi)), hary' i hi⟩
  · intro i hi
    dsimp only at hi ⊢
    rcases Mm.live_insertObj.mp hi with rfl | hi
    · -- nothing maps the new object
      have hzero : ∀ pid, s.areasOf p.addr pid = 0 := by
        refine h.areas_eq_zero fun j hj heq => ?_
        refine hout (p.addr / archPageSize) ?_ (Mm.mem_objPages.mpr ⟨j, hlive.mpr hj, ?_⟩)
        · rw [hrange, List.mem_range'_1, hp]
          dsimp only
          rw [Nat.mul_div_cancel _ (by decide)]
          exact ⟨le_rfl, Nat.lt_add_of_pos_right (by positivity)⟩
        · rw [← heq, ← congrFun (show m₁.shmAry = s.mm.shmAry from hary) j]
          exact hobjs₁.start_mem (hlive.mpr hj)
      rw [Mm.shmAry_insertObj, if_pos rfl]
      have hsum : ∑ pid ∈ range cfg.lwpMaxNr, s.areasOf p.addr pid = 0 := sum_eq_zero fun pid _ => hzero pid
      show (0 : ℤ) = (∑ pid ∈ range cfg.lwpMaxNr, s.areasOf p.addr pid : ℕ)
      rw [hsum]
      rfl
    · rw [hary' i (hlive.mp hi)]
      exact h.exact i (hlive.mp hi)
  · intro q
    have hheld := h.held q
    have := hcount q
    show ∑ pid ∈ range cfg.lwpMaxNr, s.usesOf q pid + (m₁.insertObj id p).objPages.count q ≤
      if ppn ≤ q ∧ q < ppn + 2 ^ bit then 1 else m.pageRef q
    by_cases hq : q ∈ List.range' ppn (2 ^ bit)
    · obtain ⟨huse, hobj⟩ := hnew q hq
      rw [if_pos (List.mem_range'_1.mp hq), hcount, List.count_eq_one_of_mem List.nodup_range' hq, huse, hobj]
    · rw [if_neg fun hin => hq (List.mem_range'_1.mpr hin), hcount, List.count_eq_zero_of_not_mem hq, href, Nat.zero_add]
      exact hheld
  · intro q hq
    show ∑ pid ∈ range cfg.lwpMaxNr, s.usesOf q pid = 0
    rw [Mm.objPages_insertObj ht₁, hrange, hpages] at hq
    rcases List.mem_append.mp hq with hq | hq
    · exact (hnew q hq).1
    · exact h.apart q hq

theorem Inv.shmget {key size : ℕ} {create : Bool} {page : Option ℕ} {node : Bool} {m : Mm} {r : ℤ} (h : s.Inv cfg)
    (hs : s.mm.lwpShmget cfg.shmMaxNr key size create page node = some (m, r)) : ({ s with mm := m } : ShmSys).Inv cfg := by
  unfold Mm.lwpShmget at hs
  split at hs
  · cases hs
    exact h
  · next hfind =>
    split at hs
    · cases hs
      exact h
    · split at hs
      · next m₁ hal =>
        have hm₁ : m₁ = s.mm := by
          unfold Mm.shmIdAlloc at hal
          split at hal
          · cases hal
          · split at hal
            · cases hal
            · exact (Prod.mk.inj hal).1.symm
        cases hs
        rw [hm₁]
        exact h
      · next m₁ id hal =>
        obtain ⟨hobjs, ht, hk, hpa, hary, href⟩ := Mm.shmIdAlloc_spec h.objs hal
        have hlive : ∀ {i}, m₁.Live i ↔ s.mm.Live i := by
          intro i
          unfold Mm.Live
          rw [hk]
        -- the index goes back to the free list
        have hback : ∀ p : ShmStruct, ({ s with mm := (m₁.setShm id p).shmIdFree id } : ShmSys).Inv cfg := by
          intro p
          have hary' : ∀ i, s.mm.Live i → ((m₁.setShm id p).shmIdFree id).shmAry i = s.mm.shmAry i := by
            intro i hi
            have hne : i ≠ id := by
              rintro rfl
              exact ht.not_live (hlive.mpr hi)
            show ((m₁.setShm id p).setShm id _).shmAry i = _
            rw [Mm.shmAry_setShm, if_neg hne, Mm.shmAry_setShm, if_neg hne, hary]
          refine h.extend ((hobjs.setShm ht p).shmIdFree (ht.setShm p) cfg.shm_lt) ?_ ?_ ?_ href
          · exact fun i hi => ⟨hlive.mpr hi, hary' i hi⟩
          · exact fun i hi => hlive.mp hi
          · show (m₁.shmTreeKey.flatMap fun e => ((m₁.setShm id p).shmIdFree id).pagesOfObj e.2) = _
            rw [hk]
            apply List.flatMap_congr
            rintro ⟨key, i⟩ he
            unfold Mm.pagesOfObj
            rw [hary' i ⟨key, he⟩]
        dsimp only at hs
        split at hs
        · cases hs
          have hsame : m₁.setShm id (m₁.shmAry id) = m₁ := by
            unfold Mm.setShm
            rw [Function.update_eq_self]
          have := hback (m₁.shmAry id)
          rwa [hsame] at this
        · next ppn =>
          split at hs
          · next hok =>
            obtain ⟨hbit, hppn, -, hfresh⟩ := hok
            have hkey : ∀ e ∈ m₁.shmTreeKey, e.1 ≠ key := by
              intro e he heq
              rw [Mm.avlFind, Option.map_eq_none_iff, List.find?_eq_none] at hfind
              exact hfind e (hk ▸ he) (by simpa using heq)
            split at hs
            · cases hs
              exact h.insertObj hobjs ht hk hary href hkey hbit hppn hfresh
            · cases hs
              have hundo : ((((m₁.rtPagesAlloc ppn (2 ^ Mm.rtPageBits size)).setShm id
                  ⟨ppn * archPageSize, 2 ^ (Mm.rtPageBits size + archPageShift), 0, key⟩).shmIdFree id).rtPagesFree ppn
                    (2 ^ Mm.rtPageBits size)) =
                  (m₁.setShm id ⟨ppn * archPageSize, 2 ^ (Mm.rtPageBits size + archPageShift), 0, key⟩).shmIdFree id := by
                unfold Mm.rtPagesFree Mm.rtPagesAlloc Mm.shmIdFree Mm.setShm Mm.setRef
                dsimp only
                congr 1
                funext q
                by_cases hq : ppn ≤ q ∧ q < ppn + 2 ^ Mm.rtPageBits size
                · have hzero := hfresh (q - ppn) (by omega)
                  rw [show ppn + (q - ppn) = q by omega] at hzero
                  simp [hq, hzero]
                · simp only [hq, ↓reduceIte]
              rw [hundo]
              exact hback _
          · cases hs

theorem Inv.remove {i : ℕ} (h : s.Inv cfg) (hi : s.mm.Live i) (href : (s.mm.shmAry i).ref = 0) :
    (⟨((s.mm.rtPagesFree ((s.mm.shmAry i).addr / archPageSize) (2 ^ Mm.rtPageBits (s.mm.shmAry i).size)).eraseObj
      i).shmIdFree i, s.space⟩ : ShmSys).Inv cfg := by
  obtain ⟨b, hb, hsize, -⟩ := h.objs.shape i hi
  set m₁ := s.mm.rtPagesFree ((s.mm.shmAry i).addr / archPageSize) (2 ^ Mm.rtPageBits (s.mm.shmAry i).size) with hm₁
  have hsame : s.mm.Same m₁ := Mm.same_setRef s.mm _
  have hobjs₁ := h.objs.same hsame
  have hi₁ := hsame.live.mpr hi
  obtain ⟨hobjs₂, ht⟩ := hobjs₁.eraseObj hi₁
  set m₂ := (m₁.eraseObj i).shmIdFree i with hm₂
  have hlive : ∀ {j}, m₂.Live j ↔ s.mm.Live j ∧ j ≠ i := fun {j} => hobjs₁.live_eraseObj
  have hary : ∀ j, j ≠ i → m₂.shmAry j = s.mm.shmAry j := by
    intro j hj
    show ((m₁.eraseObj i).setShm i _).shmAry j = _
    rw [Mm.shmAry_setShm, if_neg hj]
    rfl
  have hpages : m₂.objPages = (m₁.eraseObj i).objPages := by
    apply List.flatMap_congr
    rintro ⟨key, j⟩ he
    have hj : j ≠ i := by
      rintro rfl
      exact ht.not_live ⟨key, he⟩
    unfold Mm.pagesOfObj
    rw [hary j hj]
    rfl
  have hperm : s.mm.objPages.Perm (s.mm.pagesOfObj i ++ m₂.objPages) := by
    rw [hpages]
    exact hobjs₁.objPages_eraseObj hi₁
  -- no area maps the object
  have hareas : ∀ pid ∈ range cfg.lwpMaxNr, s.areasOf (s.mm.shmAry i).addr pid = 0 := by
    have hsum := h.exact i hi
    rw [href] at hsum
    exact sum_eq_zero_iff.mp (by exact_mod_cast hsum.symm)
  have hnot : ∀ pid, ∀ a ∈ (s.spaceOf pid).mapArea, a.type = .shm →
      v2p (s.spaceOf pid).vtable a.addr ≠ (s.mm.shmAry i).addr := by
    intro pid a ha hshm hv
    by_cases hpid : pid < cfg.lwpMaxNr
    · have hzero := List.countP_eq_zero.mp (hareas pid (mem_range.mpr hpid)) a ha
      simp [hshm, hv] at hzero
    · rw [spaceOf, h.bound pid (by omega)] at ha
      exact absurd ha (List.not_mem_nil)
  have hbits : 2 ^ Mm.rtPageBits (s.mm.shmAry i).size = (s.mm.shmAry i).size / archPageSize := by
    rw [hsize, Mm.rtPageBits_pow hb, pow_add, show archPageSize = 2 ^ archPageShift from rfl,
      Nat.mul_div_cancel _ (by decide)]
  have hpageRef : ∀ q, m₂.pageRef q = s.mm.pageRef q - (s.mm.pagesOfObj i).count q := by
    intro q
    show (if _ then _ else _) = _
    rw [hbits]
    have hnd : (s.mm.pagesOfObj i).Nodup := List.nodup_range'
    by_cases hq : q ∈ s.mm.pagesOfObj i
    · rw [List.count_eq_one_of_mem hnd hq, if_pos (List.mem_range'_1.mp hq)]
    · rw [List.count_eq_zero_of_not_mem hq, if_neg fun hin => hq (List.mem_range'_1.mpr hin), Nat.sub_zero]
  have hcount : ∀ q, s.mm.objPages.count q = (s.mm.pagesOfObj i).count q + m₂.objPages.count q := by
    intro q
    rw [hperm.count_eq, List.count_append]
  refine ⟨hobjs₂.shmIdFree ht cfg.shm_lt, ?_, h.bound, ?_, ?_, ?_⟩
  · intro pid
    refine ⟨(h.space pid).tabled, (h.space pid).ordered, ?_⟩
    intro a ha hshm
    obtain ⟨j, hj, hsz, hv⟩ := (h.space pid).shm a ha hshm
    have hne : j ≠ i := by
      rintro rfl
      exact hnot pid a ha hshm hv
    refine ⟨j, hlive.mpr ⟨hj, hne⟩, ?_, ?_⟩
    · show (m₂.shmAry j).size = a.size
      rw [hary j hne]
      exact hsz
    · show _ = (m₂.shmAry j).addr
      rw [hary j hne]
      exact hv
  · intro j hj
    obtain ⟨hj, hne⟩ := hlive.mp hj
    show (m₂.shmAry j).ref = (∑ pid ∈ range cfg.lwpMaxNr, s.areasOf (m₂.shmAry j).addr pid : ℕ)
    rw [hary j hne]
    exact h.exact j hj
  · intro q
    have := h.held q
    have := hcount q
    have := hpageRef q
    show ∑ pid ∈ range cfg.lwpMaxNr, s.usesOf q pid + m₂.objPages.count q ≤ m₂.pageRef q
    omega
  · intro q hq
    exact h.apart q (hperm.mem_iff.mpr (List.mem_append_right _ hq))

theorem Inv.shmrm (h : s.Inv cfg) (i : ℤ) : ({ s with mm := (s.mm.lwpShmrm cfg.shmMaxNr i).1 } : ShmSys).Inv cfg := by
  unfold Mm.lwpShmrm
  split
  · exact h
  · next j hj =>
    dsimp only
    split
    · exact h
    · next href => exact h.remove (h.objs.of_shmIdToNode hj) (not_not.mp href)

theorem live_lwpShmget {m m' : Mm} {maxNr key size : ℕ} {create : Bool} {page : Option ℕ} {node : Bool} {r : ℤ}
    (hs : m.lwpShmget maxNr key size create page node = some (m', r)) (hid : m.Live id) : m'.Live id := by
  have hal : (m.shmIdAlloc maxNr).1.shmTreeKey = m.shmTreeKey := by
    unfold Mm.shmIdAlloc
    split
    · rfl
    · split <;> rfl
  have hsub : m.shmTreeKey ⊆ m'.shmTreeKey := by
    unfold Mm.lwpShmget at hs
    split at hs
    · cases hs
      exact List.Subset.refl _
    · split at hs
      · cases hs
        exact List.Subset.refl _
      · split at hs
        · next m₁ heq =>
          cases hs
          rw [heq] at hal
          exact hal ▸ List.Subset.refl _
        · next m₁ i heq =>
          rw [heq] at hal
          dsimp only at hs
          split at hs
          · cases hs
            exact hal ▸ List.Subset.refl _
          · split at hs
            · split at hs
              · cases hs
                exact hal ▸ List.subset_cons_self _ _
              · cases hs
                exact hal ▸ List.Subset.refl _
            · cases hs
  obtain ⟨k, hk⟩ := hid
  exact ⟨k, hsub hk⟩

theorem inv_init (cfg : MmConfig) : init.Inv cfg := by
  have hnot : ∀ id, ¬ init.mm.Live id := by
    rintro id ⟨key, he⟩
    exact List.not_mem_nil he
  have hempty : ∀ pid, init.spaceOf pid = .empty := fun _ => rfl
  refine ⟨⟨List.nodup_nil, List.nodup_nil, ?_, ?_, List.nodup_nil, ?_, List.nodup_nil, ?_, ?_, Nat.zero_le _⟩, ?_,
    fun _ _ => rfl, ?_, ?_, ?_⟩
  · exact fun e he => absurd he List.not_mem_nil
  · intro addr id
    exact ⟨fun he => absurd he List.not_mem_nil, fun hl => absurd hl.1 (hnot id)⟩
  · exact fun id hid => absurd hid (hnot id)
  · exact ⟨[], rfl, List.nodup_nil, fun id hid => absurd hid List.not_mem_nil⟩
  · exact fun id hid => absurd hid (hnot id)
  · intro pid
    rw [hempty]
    refine ⟨⟨?_, List.nodup_nil, ?_⟩, List.Pairwise.nil, ?_⟩
    · exact fun a ha => absurd ha List.not_mem_nil
    · exact fun a ha => absurd ha List.not_mem_nil
    · exact fun a ha => absurd ha List.not_mem_nil
  · exact fun id hid => absurd hid (hnot id)
  · intro p
    have hzero : ∀ pid, init.usesOf p pid = 0 := fun _ => rfl
    simp only [hzero, sum_const_zero]
    exact le_rfl
  · exact fun p hp => absurd hp List.not_mem_nil

theorem Inv.step {e : Event} (h : s.Inv cfg) (hadm : s.Admits e) (hs : s.step cfg e = some s') :
    s'.Inv cfg ∧ ∀ id, s.mm.Live id → s'.mm.Live id ∨ (s.mm.shmAry id).ref = 0 := by
  -- a call on one address space leaves the objects as they are
  have hput : ∀ {pid u x}, s.space pid = some u →
      Kept cfg.shmMaxNr (s.refsBut cfg pid) (s.usesBut cfg pid) s.mm x →
      (s.put pid x).Inv cfg ∧ ∀ id, s.mm.Live id → (s.put pid x).mm.Live id ∨ (s.mm.shmAry id).ref = 0 :=
    fun hu hk => ⟨h.put hu hk, fun id hid => .inl (hk.same.live.mpr hid)⟩
  cases e with
  | shmget key size create page node =>
    obtain ⟨⟨m, r⟩, hm, rfl⟩ := Option.map_eq_some_iff.mp hs
    exact ⟨h.shmget hm, fun id hid => .inl (live_lwpShmget hm hid)⟩
  | shmrm i =>
    cases hs
    refine ⟨h.shmrm i, ?_⟩
    intro id hid
    show (s.mm.lwpShmrm cfg.shmMaxNr i).1.Live id ∨ _
    unfold Mm.lwpShmrm
    split
    · exact .inl hid
    · next j hj =>
      dsimp only
      split
      · exact .inl hid
      · next href =>
        by_cases heq : id = j
        · subst heq
          exact .inr (not_not.mp href)
        · exact .inl (h.objs.live_eraseObj.mpr ⟨hid, heq⟩)
  | shmat pid i va ans =>
    obtain ⟨u, hu, hr⟩ := Option.bind_eq_some_iff.mp hs
    obtain ⟨⟨x, r⟩, hx, rfl⟩ := Option.map_eq_some_iff.mp hr
    exact hput hu ((h.kept hu).lwpShmat hx)
  | shmdt pid va =>
    obtain ⟨u, hu, rfl⟩ := Option.map_eq_some_iff.mp hs
    exact hput hu ((h.kept hu).lwpShmdt (hadm u hu))
  | munmap pid addr length memory =>
    obtain ⟨u, hu, rfl⟩ := Option.map_eq_some_iff.mp hs
    exact hput hu ((h.kept hu).lwpMunmap cfg memory)
  | fork pid child ans late =>
    simp only [ShmSys.step] at hs
    split at hs
    · next hchild =>
      obtain ⟨u, hu, hr⟩ := Option.bind_eq_some_iff.mp hs
      obtain ⟨⟨m, c⟩, hf, rfl⟩ := Option.map_eq_some_iff.mp hr
      obtain ⟨hinv, hsame⟩ := h.fork hchild.1 hchild.2 hu (hadm u hu) hf
      exact ⟨hinv, fun id hid => .inl (hsame.live.mpr hid)⟩
    · cases hs
  | exit pid =>
    obtain ⟨u, hu, rfl⟩ := Option.map_eq_some_iff.mp hs
    exact ⟨h.exit hu, fun id hid => .inl (((h.kept hu).lwpUnmapUserSpace).1.same.live.mpr hid)⟩
  | spawn pid =>
    simp only [ShmSys.step] at hs
    split at hs
    · next hpid =>
      cases hs
      exact ⟨h.spawn hpid.1 hpid.2, fun id hid => .inl hid⟩
    · cases hs
  | mapUser pid va size text ans =>
    obtain ⟨u, hu, hr⟩ := Option.bind_eq_some_iff.mp hs
    obtain ⟨⟨x, r⟩, hx, rfl⟩ := Option.map_eq_some_iff.mp hr
    exact hput hu ((h.kept hu).lwpMapUser hx)
  | mapPhy pid va pa size cached ans =>
    obtain ⟨u, hu, hr⟩ := Option.bind_eq_some_iff.mp hs
    obtain ⟨⟨x, r⟩, hx, rfl⟩ := Option.map_eq_some_iff.mp hr
    exact hput hu ((h.kept hu).lwpMapUserPhy (.inl rfl) hx)

theorem shm_refs_exact (cfg : MmConfig) (es : List Event) (s : ShmSys) (h : run (step cfg) init es = some s)
    (hm : Meets (step cfg) Admits init es) :
    (∀ id, s.mm.Live id →
      (s.mm.shmAry id).ref = (∑ pid ∈ range cfg.lwpMaxNr, s.areasOf (s.mm.shmAry id).addr pid : ℕ)) ∧
    (∀ id, s.mm.Live id → ∀ p ∈ s.mm.pagesOfObj id, 0 < s.mm.pageRef p) ∧
    (∀ e s', s.Admits e → s.step cfg e = some s' → ∀ id, s.mm.Live id → ¬ s'.mm.Live id →
      (s.mm.shmAry id).ref = 0) ∧
    (s.mm.shmTreeKey.map Prod.fst).Nodup ∧ (s.mm.shmTreeKey.map Prod.snd).Nodup := by
  have hinv : s.Inv cfg := run_invariant_of_meets (Inv cfg) (fun s e s' hi ha hs => (hi.step ha hs).1) h hm (inv_init cfg)
  refine ⟨hinv.exact, ?_, ?_, hinv.objs.keys, hinv.objs.ids⟩
  · intro id hid p hp
    have hcount := List.count_pos_iff.mpr (Mm.mem_objPages.mpr ⟨id, hid, hp⟩)
    have hheld := hinv.held p
    omega
  · intro e s' ha hs id hid hgone
    exact ((hinv.step ha hs).2 id hid).resolve_left hgone

/-- The shared-memory and process limits of the default configuration. -/
def exampleConfig : MmConfig where
  shmMaxNr := 64
  lwpMaxNr := 30
  userVaddrStart := 0x100000000
  userVaddrTop := 0xfffffffffffff000
  shm_lt := by decide
  start_pos := by decide
  top_lt := by decide

def exampleRun : List Event :=
  [.spawn 1, .mapUser 1 0x200000000 8192 true (some (⟨0x200000000, true⟩, [50, 51])),
    .shmget 7 4096 true (some 100) true, .shmat 1 0 0 (some ⟨0x100000000, true⟩),
    .fork 1 2 [.map (some ⟨0x100000000, true⟩), .text [some ⟨0x200000000, true⟩, some ⟨0x200001000, true⟩]] false,
    .shmrm 0, .shmdt 2 0x100000000, .munmap 1 0x100000000 4096 true, .exit 1]

theorem shm_refs_exact_example : ∃ s, run (step exampleConfig) init exampleRun = some s ∧ s.mm.Live 0 ∧
    (s.mm.shmAry 0).ref =
      (∑ pid ∈ range exampleConfig.lwpMaxNr, s.areasOf (s.mm.shmAry 0).addr pid : ℕ) := by
  have hm : Meets (step exampleConfig) Admits init exampleRun := by decide +kernel
  have hend : (run (step exampleConfig) init exampleRun).map (fun s => s.mm.shmTreeKey) = some [(7, 0)] := by
    decide +kernel
  obtain ⟨s, hs, htree⟩ := Option.map_eq_some_iff.mp hend
  have hlive : s.mm.Live 0 := ⟨7, by rw [htree]; exact List.mem_cons_self⟩
  exact ⟨s, hs, hlive, (shm_refs_exact exampleConfig exampleRun s hs hm).1 0 hlive⟩

/-- There is no memory for the page table of the child. -/
def failedFork : List Event :=
  [.spawn 1, .shmget 7 4096 true (some 100) true, .shmat 1 0 0 (some ⟨0x100000000, true⟩), .fork 1 2 [.map none] false]

/-- The reference of a child that was not started stays, and the object can never be removed. -/
theorem shm_ref_leaked : ∃ s, run (step exampleConfig) init failedFork = some s ∧ s.mm.Live 0 ∧
    (s.mm.shmAry 0).ref ≠
      (∑ pid ∈ range exampleConfig.lwpMaxNr, s.areasOf (s.mm.shmAry 0).addr pid : ℕ) := by
  have hend : (run (step exampleConfig) init failedFork).map (fun s => (s.mm.shmTreeKey, (s.mm.shmAry 0).ref,
      ∑ pid ∈ range exampleConfig.lwpMaxNr, s.areasOf (s.mm.shmAry 0).addr pid)) = some ([(7, 0)], 2, 1) := by
    decide +kernel
  obtain ⟨s, hs, heq⟩ := Option.map_eq_some_iff.mp hend
  obtain ⟨htree, href, hsum⟩ : s.mm.shmTreeKey = [(7, 0)] ∧ (s.mm.shmAry 0).ref = 2 ∧
      ∑ pid ∈ range exampleConfig.lwpMaxNr, s.areasOf (s.mm.shmAry 0).addr pid = 1 := by
    simpa only [Prod.mk.injEq] using heq
  refine ⟨s, hs, ⟨7, by rw [htree]; exact List.mem_cons_self⟩, ?_⟩
  rw [href, hsum]
  decide

end ShmSys

end RtSmart
