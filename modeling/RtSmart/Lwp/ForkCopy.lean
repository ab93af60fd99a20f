import RtSmart.Lwp.MunmapExact

/-!
The child of a `fork` has the areas of its parent, page by page, and a copy of what is in them.
-/

namespace RtSmart

open Lib

variable {m m' : Mm} {u c : UserSpace} {a ma : MmArea} {l l₁ l₂ : List MmArea} {fresh : List ℕ} {x y : Mm × UserSpace}
  {va n : ℕ}

def loadByte (m : Mm) (u : UserSpace) (va : ℕ) : Option UInt8 :=
  (u.vtable (slot (va / archPageSize))).map fun e => m.content e.ppn (va % archPageSize)

/-- A store of the process, or a call that stores for it; neither writes where the entry is read-only. -/
def storeByte (m : Mm) (u : UserSpace) (va : ℕ) (b : UInt8) : Mm :=
  match u.vtable (slot (va / archPageSize)) with
  | none => m
  | some e =>
    if e.attr = .uRo then m
    else { m with content := Function.update m.content e.ppn (Function.update (m.content e.ppn) (va % archPageSize) b) }

def TextApart (u : UserSpace) : Prop :=
  ∀ a ∈ u.mapArea, a.type = .data → ∀ b ∈ u.mapArea, b.type = .text → ∀ s ∈ a.slots, ∀ s' ∈ b.slots,
    ∀ e ∈ u.vtable s, ∀ e' ∈ u.vtable s', e.ppn ≠ e'.ppn

instance (u : UserSpace) : Decidable (TextApart u) := inferInstanceAs (Decidable (∀ _ ∈ _, _))

/-- What `fork` relies on: the table of the parent maps its areas, and the pages are in use. -/
structure ForkOk (m : Mm) (u : UserSpace) : Prop where
  areas : AreasOk u.mapArea
  tabled : Tabled u.vtable u.mapArea
  counted : ∀ a ∈ u.mapArea, a.type = .data ∨ a.type = .text ∨ a.type = .shm → ∀ s ∈ a.slots, ∀ e ∈ u.vtable s,
    0 < m.pageRef e.ppn
  shm : ∀ a ∈ u.mapArea, a.type = .shm → ∃ id, m.lwpShmStructGet u a.addr = some id ∧ 0 ≤ (m.shmAry id).ref
  apart : TextApart u

def textAreas (addr n : ℕ) : List MmArea := (List.range n).map fun k => ⟨addr + k * archPageSize, archPageSize, .text, 0⟩

def MmArea.forked (a : MmArea) : List MmArea :=
  if a.type = .text then
    ⟨a.addr, archPageSize, .text, a.unmapAllAddr⟩ :: textAreas (a.addr + archPageSize) (a.pages - 1)
  else [a]

def CopyOf (m m' : Mm) (fresh : List ℕ) : AreaType → Option Pte → Option Pte → Prop
  | .data, e, e' => ∃ p p', e = some ⟨p, .uRwcb⟩ ∧ e' = some ⟨p', .uRwcb⟩ ∧ p' ∈ fresh ∧ m'.content p' = m.content p
  | .text, e, e' => ∃ p, e = some ⟨p, .uRo⟩ ∧ e' = some ⟨p, .uRo⟩
  | _, e, e' => ∃ p attr attr', e = some ⟨p, attr⟩ ∧ e' = some ⟨p, attr'⟩

/-- The references only get more, and the objects are the same ones. -/
structure Mm.Grows (m m' : Mm) : Prop where
  refs : ∀ p, m.pageRef p ≤ m'.pageRef p
  pa : m'.shmTreePa = m.shmTreePa
  shmRef : ∀ id, (m.shmAry id).ref ≤ (m'.shmAry id).ref

theorem Mm.Grows.refl (m : Mm) : m.Grows m := ⟨fun _ => le_rfl, rfl, fun _ => le_rfl⟩

theorem Mm.Grows.trans {m'' : Mm} (h : m.Grows m') (h' : m'.Grows m'') : m.Grows m'' where
  refs p := (h.refs p).trans (h'.refs p)
  pa := h'.pa.trans h.pa
  shmRef id := (h.shmRef id).trans (h'.shmRef id)

/-- The areas of `l` are copied to the child, with the pages `fresh` for the data. -/
structure Copied (m : Mm) (u : UserSpace) (fresh : List ℕ) (l : List MmArea) (x : Mm × UserSpace) : Prop where
  areas : x.2.mapArea = l.flatMap MmArea.forked
  empty : ∀ s ∉ l.flatMap MmArea.slots, x.2.vtable s = none
  entries : ∀ a ∈ l, ∀ s ∈ a.slots, CopyOf m x.1 fresh a.type (u.vtable s) (x.2.vtable s)
  taken : ∀ p ∈ fresh, m.pageRef p = 0 ∧ 0 < x.1.pageRef p
  content : ∀ p ∉ fresh, x.1.content p = m.content p
  grows : m.Grows x.1

theorem copied_nil (m : Mm) (u : UserSpace) : Copied m u [] [] (m, .empty) :=
  ⟨rfl, fun _ _ => rfl, fun _ ha => (nomatch ha), fun _ hp => (nomatch hp), fun _ _ => rfl, .refl m⟩

theorem Copied.append {new : List ℕ} (h : Copied m u fresh l x) (hareas : y.2.mapArea = x.2.mapArea ++ a.forked)
    (hother : ∀ s ∉ a.slots, y.2.vtable s = x.2.vtable s) (hdisj : (l.flatMap MmArea.slots).Disjoint a.slots)
    (hentry : ∀ s ∈ a.slots, CopyOf m y.1 (fresh ++ new) a.type (u.vtable s) (y.2.vtable s))
    (hnew : ∀ p ∈ new, x.1.pageRef p = 0 ∧ 0 < y.1.pageRef p) (hcontent : ∀ p ∉ new, y.1.content p = x.1.content p)
    (hgrows : x.1.Grows y.1) : Copied m u (fresh ++ new) (l ++ [a]) y := by
  constructor
  · rw [hareas, h.areas, List.flatMap_append, List.flatMap_singleton]
  · intro s hs
    rw [List.flatMap_append, List.flatMap_singleton, List.mem_append, not_or] at hs
    rw [hother s hs.2, h.empty s hs.1]
  · intro b hb s hs
    rcases List.mem_append.mp hb with hb | hb
    · have hout : s ∉ a.slots := fun hmem => hdisj (List.mem_flatMap.mpr ⟨b, hb, hs⟩) hmem
      have hold := h.entries b hb s hs
      rw [hother s hout]
      cases htype : b.type with
      | data =>
        rw [htype] at hold
        obtain ⟨p, p', hp, hp', hmem, hcp⟩ := hold
        have hnot : p' ∉ new := fun hn => (h.taken p' hmem).2.ne' (hnew p' hn).1
        exact ⟨p, p', hp, hp', List.mem_append_left _ hmem, (hcontent p' hnot).trans hcp⟩
      | text => rwa [htype] at hold
      | phy => rwa [htype] at hold
      | phyWt => rwa [htype] at hold
      | phyCached => rwa [htype] at hold
      | shm => rwa [htype] at hold
    · rw [List.mem_singleton.mp hb] at hs ⊢
      exact hentry s hs
  · intro p hp
    rcases List.mem_append.mp hp with hp | hp
    · exact ⟨(h.taken p hp).1, (h.taken p hp).2.trans_le (hgrows.refs p)⟩
    · refine ⟨?_, (hnew p hp).2⟩
      have := h.grows.refs p
      have := (hnew p hp).1
      omega
  · intro p hp
    rw [List.mem_append, not_or] at hp
    rw [hcontent p hp.2, h.content p hp.1]
  · exact h.grows.trans hgrows

theorem lwpAreaInsert_last (a : MmArea) (l : List MmArea) (h : ∀ b ∈ l, b.addr ≤ a.addr) : lwpAreaInsert a l = l ++ [a] := by
  have := lwpAreaInsert_between a l [] h fun b hb => (nomatch hb)
  rwa [List.append_nil] at this

theorem entry_addArea {type : AreaType} {attr : MmuAttr} {ps : List ℕ} {mapVa k : ℕ} (hcan : CanMap u mapVa ps.length va)
    (hk : k < ps.length) :
    (u.addArea type attr ps va).vtable (slot (va / archPageSize + k)) = some ⟨ps[k], attr⟩ := by
  have hmap := map_mapPages (u := u) attr hcan.slots_nodup
  have hget := congrArg (fun es : List (Option Pte) => es[k]?) hmap
  simp only [List.getElem?_map, List.getElem?_eq_getElem hk, slots, List.getElem?_range' hk, Option.map_some,
    Option.some.injEq, Nat.one_mul] at hget
  exact hget

theorem other_addArea {type : AreaType} {attr : MmuAttr} {ps : List ℕ} {s : ℕ} (hs : s ∉ slots (va / archPageSize) ps.length) :
    (u.addArea type attr ps va).vtable s = u.vtable s := vtable_mapPages attr hs

theorem mapArea_addArea {type : AreaType} {attr : MmuAttr} {ps : List ℕ} (h : ∀ b ∈ u.mapArea, b.addr ≤ va) :
    (u.addArea type attr ps va).mapArea = u.mapArea ++ [⟨va, ps.length * archPageSize, type, 0⟩] :=
  lwpAreaInsert_last _ _ h

theorem mem_textAreas {b : MmArea} {addr : ℕ} :
    b ∈ textAreas addr n ↔ ∃ k < n, b = ⟨addr + k * archPageSize, archPageSize, .text, 0⟩ := by
  unfold textAreas
  simp only [List.mem_map, List.mem_range, eq_comm]

theorem textAreas_succ (addr n : ℕ) :
    textAreas addr (n + 1) = ⟨addr, archPageSize, .text, 0⟩ :: textAreas (addr + archPageSize) n := by
  unfold textAreas
  rw [List.range_succ_eq_map, List.map_cons, List.map_map, Nat.zero_mul, Nat.add_zero]
  congr 1
  apply List.map_congr_left
  intro k _
  show (⟨addr + (k + 1) * archPageSize, archPageSize, .text, 0⟩ : MmArea) = _
  rw [Nat.add_mul, Nat.one_mul, Nat.add_comm (k * archPageSize), Nat.add_assoc]

theorem mem_forked {b : MmArea} (ha : a.Aligned) (hb : b ∈ a.forked) :
    a.addr ≤ b.addr ∧ b.addr + b.size ≤ a.addr + a.size ∧ 0 < b.size := by
  have hsize := ha.size_eq
  have hpos := ha.pages_pos
  unfold MmArea.forked at hb
  split at hb
  · rcases List.mem_cons.mp hb with rfl | hb
    · dsimp only
      unfold archPageSize at *
      omega
    · obtain ⟨k, hk, rfl⟩ := mem_textAreas.mp hb
      dsimp only
      unfold archPageSize at *
      omega
  · rw [List.mem_singleton.mp hb]
    exact ⟨le_rfl, le_rfl, ha.size_pos⟩

theorem Mm.grows_rtPageRefInc (m : Mm) (p : ℕ) : m.Grows (m.rtPageRefInc p) := by
  refine ⟨fun q => ?_, rfl, fun _ => le_rfl⟩
  show m.pageRef q ≤ if q = p then m.pageRef q + 1 else m.pageRef q
  split <;> omega

theorem dupText_spec {addr : ℕ} {ans : List (Option MapAnswer)} (haddr : addr % archPageSize = 0) (hpos : 0 < addr)
    (hnd : (slots (addr / archPageSize) n).Nodup)
    (hent : ∀ k < n, ∃ p, u.vtable (slot (addr / archPageSize + k)) = some ⟨p, .uRo⟩)
    (hbefore : ∀ b ∈ x.2.mapArea, b.addr ≤ addr) (hd : dupText u n addr ans x = some (y, true)) :
    y.2.mapArea = x.2.mapArea ++ textAreas addr n ∧
      (∀ s, y.2.vtable s = if s ∈ slots (addr / archPageSize) n then u.vtable s else x.2.vtable s) ∧
      x.1.Grows y.1 ∧ y.1.content = x.1.content := by
  induction n generalizing addr ans x with
  | zero =>
    cases hd
    refine ⟨by simp [textAreas], fun s => ?_, .refl _, rfl⟩
    simp
  | succ n ih =>
    cases ans with
    | nil => cases hd
    | cons a as =>
      obtain ⟨p, hpte⟩ := hent 0 (Nat.zero_lt_succ n)
      have hpa : u.rtHwMmuV2p addr = p * archPageSize := by
        unfold UserSpace.rtHwMmuV2p
        rw [show addr / archPageSize = addr / archPageSize + 0 from rfl, hpte]
        simp only [haddr, Nat.add_zero]
      have hvpn : (addr + archPageSize) / archPageSize = addr / archPageSize + 1 := Nat.add_div_right _ (by decide)
      have hnext : (addr + archPageSize) % archPageSize = 0 := by
        rw [Nat.add_mod_right]
        exact haddr
      rw [slots_succ, List.nodup_cons] at hnd
      rw [dupText, hpa, Nat.mul_div_cancel _ (by decide)] at hd
      split at hd
      · cases hd
      · next z va hz =>
        split at hd
        · cases hd
        · next hva =>
          rw [not_not] at hva
          subst hva
          rcases lwpMapUserType_aligned (Nat.mul_mod_left _ _) (by decide) (by decide) hz with ⟨hzero, -⟩ | ⟨hcan, rfl⟩
          · omega
          · have hone : List.range' p (archPageSize / archPageSize) = [p] := rfl
            rw [Nat.mul_div_cancel _ (by decide), hone] at hd
            set w : UserSpace := x.2.addArea (mapType .text true) (mapAttr .text true) [p] va with hw
            have hareas : w.mapArea = x.2.mapArea ++ [⟨va, archPageSize, .text, 0⟩] := by
              rw [hw, mapArea_addArea hbefore, List.length_singleton, Nat.one_mul]
              rfl
            have hhere : w.vtable (slot (va / archPageSize + 0)) = some ⟨p, .uRo⟩ :=
              by
              have hpage : 0 < [p].length := Nat.one_pos
              exact entry_addArea hcan hpage
            have hother : ∀ s, s ≠ slot (va / archPageSize) → w.vtable s = x.2.vtable s := by
              intro s hs
              apply other_addArea
              simpa [slots, archPageSize] using hs
            have hbefore' : ∀ b ∈ w.mapArea, b.addr ≤ va + archPageSize := by
              intro b hb
              rw [hareas] at hb
              rcases List.mem_append.mp hb with hb | hb
              · exact (hbefore b hb).trans (Nat.le_add_right _ _)
              · rw [List.mem_singleton.mp hb]
                exact Nat.le_add_right _ _
            obtain ⟨h1, h2, h3, h4⟩ := ih hnext (by omega) (hvpn ▸ hnd.2) (fun k hk => by
              rw [hvpn, Nat.add_assoc, Nat.add_comm 1]
              exact hent (k + 1) (by omega)) hbefore' hd
            refine ⟨?_, ?_, (x.1.grows_rtPageRefInc p).trans h3, h4⟩
            · rw [h1, hareas, textAreas_succ, List.append_assoc]
              rfl
            · intro s
              rw [h2 s, hvpn, slots_succ]
              simp only [List.mem_cons]
              by_cases hs : s = slot (va / archPageSize)
              · subst hs
                rw [if_neg hnd.1, if_pos (.inl rfl)]
                exact hhere.trans hpte.symm
              · rw [hother s hs]
                simp [hs]

theorem lwpDataPut_content (f g : ℕ → ℕ) (attr : MmuAttr) {v : ℕ}
    (hd : ∀ k < n, x.2.vtable (slot (v + k)) = some ⟨f k, attr⟩) (hs : ∀ k < n, ∃ at', u.vtable (slot (v + k)) = some ⟨g k, at'⟩)
    (hinj : ∀ j < n, ∀ k < n, f j = f k → j = k) (hne : ∀ j < n, ∀ k < n, f j ≠ g k) :
    (∀ k < n, (lwpDataPut u v n x).content (f k) = x.1.content (g k)) ∧
      ∀ p, (∀ k < n, p ≠ f k) → (lwpDataPut u v n x).content p = x.1.content p := by
  induction n generalizing v f g x with
  | zero => exact ⟨fun k hk => absurd hk (Nat.not_lt_zero k), fun p _ => rfl⟩
  | succ n ih =>
    obtain ⟨at', hsrc⟩ := hs 0 (Nat.zero_lt_succ n)
    have hdst := hd 0 (Nat.zero_lt_succ n)
    rw [Nat.add_zero] at hsrc hdst
    have hshift : ∀ k, v + 1 + k = v + (k + 1) := fun k => by omega
    rw [lwpDataPut, hdst, hsrc]
    dsimp only
    set z : Mm × UserSpace := ({ x.1 with content := Function.update x.1.content (f 0) (x.1.content (g 0)) }, x.2) with hz
    have hzc : ∀ p, p ≠ f 0 → z.1.content p = x.1.content p := fun p hp => Function.update_of_ne hp _ _
    obtain ⟨h1, h2⟩ := ih (fun k => f (k + 1)) (fun k => g (k + 1)) (x := z)
      (fun k hk => by rw [hshift]; exact hd (k + 1) (by omega)) (fun k hk => by rw [hshift]; exact hs (k + 1) (by omega))
      (fun j hj k hk hjk => by have := hinj (j + 1) (by omega) (k + 1) (by omega) hjk; omega)
      (fun j hj k hk => hne (j + 1) (by omega) (k + 1) (by omega))
    constructor
    · intro k hk
      cases k with
      | zero =>
        rw [h2 (f 0) fun k hk hfk => by have := hinj 0 (by omega) (k + 1) (by omega) hfk; omega]
        exact Function.update_self _ _ _
      | succ k =>
        rw [h1 k (by omega)]
        exact hzc _ fun heq => hne 0 (by omega) (k + 1) hk heq.symm
    · intro p hp
      rw [h2 p fun k hk => hp (k + 1) (by omega)]
      exact hzc p (hp 0 (Nat.zero_lt_succ n))

section Step

variable {rest : List MmArea} (hok : ForkOk m u) (hu : u.mapArea = l ++ a :: rest) (h : Copied m u fresh l x)

include hok hu

theorem ForkOk.here : a ∈ u.mapArea ∧ a.Aligned ∧ a.addr + a.size < 2 ^ 64 := by
  have hmem : a ∈ u.mapArea := by
    rw [hu]
    simp
  exact ⟨hmem, hok.areas.aligned a hmem, hok.areas.below a hmem⟩

theorem ForkOk.slots_disjoint : (l.flatMap MmArea.slots).Disjoint a.slots := by
  have hnd := hok.tabled.nodup
  rw [hu, List.flatMap_append, List.flatMap_cons] at hnd
  exact fun s hs hs' => (List.nodup_append.mp hnd).2.2 s hs s (List.mem_append_left _ hs') rfl

include h in
theorem Copied.before {b : MmArea} (hb : b ∈ x.2.mapArea) : b.addr + b.size ≤ a.addr ∧ 0 < b.size := by
  rw [h.areas] at hb
  obtain ⟨d, hd, hb⟩ := List.mem_flatMap.mp hb
  have hdl : d ∈ u.mapArea := by
    rw [hu]
    exact List.mem_append_left _ hd
  obtain ⟨-, hend, hpos⟩ := mem_forked (hok.areas.aligned d hdl) hb
  have hord := hok.areas.ordered
  rw [hu] at hord
  exact ⟨hend.trans (hord.around.1 d hd), hpos⟩

include h in
theorem Copied.physical {z : Mm} {cached : Bool} {ans : Option MapAnswer}
    (htype : a.type = .phy ∧ cached = false ∨ a.type = .phyCached ∨ a.type = .shm) (hz : x.1.Grows z)
    (hcontent : z.content = x.1.content)
    (hy : lwpMapUserType (z, x.2) a.addr (u.rtHwMmuV2p a.addr) a.size cached a.type ans = some (y, a.addr)) :
    Copied m u fresh (l ++ [{ a with unmapAllAddr := 0 }]) y := by
  obtain ⟨hmem, hal, -⟩ := hok.here hu
  have hdisj := hok.slots_disjoint hu
  have hcons : Consecutive (a.slots.map u.vtable) := by
    have hent := hok.tabled.entries a hmem
    rcases htype with htype | htype | htype
    · rwa [htype.1] at hent
    · rwa [htype] at hent
    · rwa [htype] at hent
  obtain ⟨p, attr, hentry⟩ := hcons.entry
  have hpa : u.rtHwMmuV2p a.addr = p * archPageSize := by
    unfold UserSpace.rtHwMmuV2p
    rw [show a.addr / archPageSize = a.vpn + 0 from rfl, hentry 0 hal.pages_pos]
    simp only [hal.addr, Nat.add_zero]
  have hkeep : mapType a.type cached = a.type := by
    unfold mapType
    apply if_neg
    rcases htype with htype | htype | htype
    · simp [htype.2]
    · simp [htype]
    · simp [htype]
  have hnottext : a.type ≠ .text := by
    rcases htype with htype | htype | htype
    · simp [htype.1]
    · simp [htype]
    · simp [htype]
  have hcopy : ∀ e e', (∃ p attr attr', e = some ⟨p, attr⟩ ∧ e' = some ⟨p, attr'⟩) → CopyOf m y.1 (fresh ++ []) a.type e e' := by
    intro e e' he
    rcases htype with htype | htype | htype
    · rw [htype.1]
      exact he
    · rw [htype]
      exact he
    · rw [htype]
      exact he
  rw [hpa] at hy
  rcases lwpMapUserType_aligned (Nat.mul_mod_left _ _) hal.size hal.size_le hy with ⟨hzero, -⟩ | ⟨hcan, rfl⟩
  · exact absurd hzero hal.addr_pos.ne'
  · rw [Nat.mul_div_cancel _ (by decide), hkeep] at hcopy ⊢
    set ps := List.range' p (a.size / archPageSize) with hps
    have hlen : ps.length = a.pages := List.length_range'
    have hslots : slots (a.addr / archPageSize) ps.length = a.slots := by
      rw [hlen]
      rfl
    have hcan : CanMap x.2 a.addr ps.length a.addr := by
      rw [hlen]
      exact hcan
    rw [← List.append_nil fresh]
    apply h.append
    · rw [mapArea_addArea fun b hb => by have := h.before hok hu hb; omega, hlen, ← hal.size_eq]
      unfold MmArea.forked
      rw [if_neg hnottext]
    · intro s hs
      rw [other_addArea]
      rw [hslots]
      exact hs
    · exact hdisj
    · intro s hs
      obtain ⟨k, hk, rfl⟩ := mem_slots.mp hs
      have hk' : k < ps.length := hlen.symm ▸ hk
      apply hcopy
      refine ⟨p + k, attr, mapAttr a.type cached, hentry k hk, ?_⟩
      refine (entry_addArea hcan hk').trans ?_
      rw [List.getElem_range', Nat.one_mul]
    · exact fun p hp => (nomatch hp)
    · exact fun p _ => congrFun hcontent p
    · exact hz

include h in
theorem Copied.text {ans : List (Option MapAnswer)} (htype : a.type = .text)
    (hd : dupText u a.pages a.addr ans x = some (y, true)) : Copied m u fresh (l ++ [{ a with unmapAllAddr := 0 }]) y := by
  obtain ⟨hmem, hal, -⟩ := hok.here hu
  have hdisj := hok.slots_disjoint hu
  have hent : ∀ k < a.pages, ∃ p, u.vtable (slot (a.vpn + k)) = some ⟨p, .uRo⟩ := by
    intro k hk
    have hent := hok.tabled.entries a hmem
    rw [htype] at hent
    obtain ⟨p, -, hp⟩ := hent _ (List.mem_map_of_mem (mem_slots.mpr ⟨k, hk, rfl⟩))
    exact ⟨p, hp⟩
  have hnd : (slots a.vpn a.pages).Nodup := by
    have hnd := hok.tabled.nodup
    rw [hu, List.flatMap_append, List.flatMap_cons] at hnd
    exact (List.nodup_append.mp (List.nodup_append.mp hnd).2.1).1
  obtain ⟨hareas, htable, hgrows, hcontent⟩ := dupText_spec hal.addr hal.addr_pos hnd hent
    (fun b hb => by have := h.before hok hu hb; omega) hd
  rw [← List.append_nil fresh]
  apply h.append
  · rw [hareas]
    unfold MmArea.forked
    rw [if_pos htype]
    have hpages : a.pages = a.pages - 1 + 1 := (Nat.sub_add_cancel hal.pages_pos).symm
    rw [hpages, textAreas_succ]
    rfl
  · exact fun s hs => (htable s).trans (if_neg hs)
  · exact hdisj
  · intro s hs
    obtain ⟨k, hk, rfl⟩ := mem_slots.mp hs
    obtain ⟨p, hp⟩ := hent k hk
    show CopyOf m y.1 (fresh ++ []) a.type _ _
    rw [htype]
    exact ⟨p, hp, ((htable _).trans (if_pos hs)).trans hp⟩
  · exact fun p hp => (nomatch hp)
  · exact fun p _ => congrFun hcontent p
  · exact hgrows

include h in
theorem Copied.data {ans : Option (MapAnswer × List ℕ)} (htype : a.type = .data)
    (hy : lwpMapUser x a.addr a.size false ans = some (y, a.addr)) :
    ∃ new, Copied m u (fresh ++ new) (l ++ [{ a with unmapAllAddr := 0 }]) (lwpDataPut u a.vpn a.pages y, y.2) := by
  obtain ⟨hmem, hal, -⟩ := hok.here hu
  have hdisj := hok.slots_disjoint hu
  rcases lwpMapUser_cases hy with ⟨hzero, -⟩ | ⟨ps, va, hlen, hnd, hfresh, hcan, hr, rfl⟩
  · exact absurd hzero hal.addr_pos.ne'
  · have hlt : a.size + 0 < 2 ^ 64 := by
      have := hal.size_le
      omega
    rw [hal.addr, wadd_of_lt hlt, Nat.add_zero, roundUp_eq hal.size hal.size_le] at hlen
    rw [hal.addr, Nat.add_zero] at hr
    subst hr
    set y : Mm × UserSpace := (x.1.setRef fun p => if p ∈ ps then 1 else x.1.pageRef p,
      x.2.addArea (if false then .text else .data) (if false then .uRo else .uRwcb) ps a.addr) with hyeq
    have hlen : ps.length = a.pages := hlen
    have hdst : ∀ k < a.pages, y.2.vtable (slot (a.vpn + k)) = some ⟨ps.getD k 0, .uRwcb⟩ := by
      intro k hk
      have hk' : k < ps.length := hlen.symm ▸ hk
      rw [List.getD_eq_getElem ps 0 hk']
      exact entry_addArea hcan hk'
    have hget : ∀ k < a.pages, ps.getD k 0 ∈ ps := by
      intro k hk
      rw [List.getD_eq_getElem ps 0 (hlen.symm ▸ hk)]
      exact List.getElem_mem _
    have hsrc : ∀ k < a.pages, ∃ p, u.vtable (slot (a.vpn + k)) = some ⟨p, .uRwcb⟩ ∧ 0 < m.pageRef p := by
      intro k hk
      have hent := hok.tabled.entries a hmem
      rw [htype] at hent
      have hslot : slot (a.vpn + k) ∈ a.slots := mem_slots.mpr ⟨k, hk, rfl⟩
      obtain ⟨p, -, hp⟩ := hent _ (List.mem_map_of_mem hslot)
      exact ⟨p, hp, hok.counted a hmem (.inl htype) _ hslot _ hp⟩
    set g : ℕ → ℕ := fun k => ((u.vtable (slot (a.vpn + k))).map Pte.ppn).getD 0 with hg
    have hgk : ∀ k < a.pages, u.vtable (slot (a.vpn + k)) = some ⟨g k, .uRwcb⟩ ∧ 0 < m.pageRef (g k) := by
      intro k hk
      obtain ⟨p, hp, hpos⟩ := hsrc k hk
      have hgp : g k = p := by
        rw [hg]
        dsimp only
        rw [hp]
        rfl
      rw [hgp]
      exact ⟨hp, hpos⟩
    -- the new pages are not those of the parent, which are in use
    have hne : ∀ j < a.pages, ∀ k < a.pages, ps.getD j 0 ≠ g k := by
      intro j hj k hk heq
      have h1 := (hfresh _ (hget j hj)).2
      have h2 := (hgk k hk).2
      have h3 := h.grows.refs (g k)
      rw [heq] at h1
      omega
    have hinj : ∀ j < a.pages, ∀ k < a.pages, ps.getD j 0 = ps.getD k 0 → j = k := by
      intro j hj k hk heq
      rw [List.getD_eq_getElem ps 0 (hlen.symm ▸ hj), List.getD_eq_getElem ps 0 (hlen.symm ▸ hk)] at heq
      exact (List.Nodup.getElem_inj_iff hnd).mp heq
    obtain ⟨hput, hkeep⟩ := lwpDataPut_content (u := u) (x := y) (v := a.vpn) (fun k => ps.getD k 0) g .uRwcb hdst
      (fun k hk => ⟨_, (hgk k hk).1⟩) hinj hne
    obtain ⟨c, hc⟩ := lwpDataPut_eq u a.vpn a.pages y
    rw [hc] at hput hkeep ⊢
    refine ⟨ps, ?_⟩
    apply h.append
    · show (x.2.addArea _ _ ps a.addr).mapArea = _
      rw [mapArea_addArea fun b hb => by have := h.before hok hu hb; omega, hlen, ← hal.size_eq]
      unfold MmArea.forked
      rw [htype, if_neg (by decide)]
      rfl
    · intro s hs
      apply other_addArea
      rw [hlen]
      exact hs
    · exact hdisj
    · intro s hs
      obtain ⟨k, hk, rfl⟩ := mem_slots.mp hs
      have hk : k < a.pages := hk
      show CopyOf m _ (fresh ++ ps) a.type _ _
      rw [htype]
      refine ⟨g k, ps.getD k 0, (hgk k hk).1, hdst k hk, List.mem_append_right _ (hget k hk), ?_⟩
      refine (hput k hk).trans ?_
      apply h.content
      intro hmem'
      have := (h.taken _ hmem').1
      have := (hgk k hk).2
      omega
    · intro p hp
      refine ⟨(hfresh p hp).2, ?_⟩
      show 0 < if p ∈ ps then 1 else x.1.pageRef p
      rw [if_pos hp]
      exact Nat.one_pos
    · intro p hp
      apply hkeep
      rintro k hk rfl
      exact hp (hget k hk)
    · refine ⟨fun p => ?_, rfl, fun _ => le_rfl⟩
      show x.1.pageRef p ≤ if p ∈ ps then 1 else x.1.pageRef p
      split
      · next hp => rw [(hfresh p hp).2]; exact Nat.zero_le 1
      · exact le_rfl

include h in
theorem Copied.dupMap {ans : DupAnswer} (hd : dupMap u x a ans = some (y, true)) :
    ∃ new, Copied m u (fresh ++ new) (l ++ [{ a with unmapAllAddr := 0 }]) y := by
  obtain ⟨hmem, hal, -⟩ := hok.here hu
  have hphys : ∀ (z : Mm) (cached : Bool) (ans : Option MapAnswer),
      (a.type = .phy ∧ cached = false ∨ a.type = .phyCached ∨ a.type = .shm) → x.1.Grows z → z.content = x.1.content →
      ((lwpMapUserType (z, x.2) a.addr (u.rtHwMmuV2p a.addr) a.size cached a.type ans).map fun r =>
        (r.1, decide (r.2 = a.addr))) = some (y, true) →
      ∃ new, Copied m u (fresh ++ new) (l ++ [{ a with unmapAllAddr := 0 }]) y := by
    intro z cached ans htype hz hc hd
    obtain ⟨⟨w, r⟩, hw, heq⟩ := Option.map_eq_some_iff.mp hd
    simp only [Prod.mk.injEq, decide_eq_true_eq] at heq
    obtain ⟨rfl, rfl⟩ := heq
    refine ⟨[], ?_⟩
    rw [List.append_nil]
    exact h.physical hok hu htype hz hc hw
  cases ans with
  | map ans =>
    simp only [RtSmart.dupMap] at hd
    split at hd
    · next htype =>
      rw [← htype] at hd
      exact hphys x.1 false ans (.inl ⟨htype, rfl⟩) (.refl _) rfl hd
    · next htype =>
      rw [← htype] at hd
      exact hphys x.1 false ans (.inr (.inl htype)) (.refl _) rfl hd
    · next htype =>
      -- the object of the area is found, and its count was not negative
      obtain ⟨id, hid, href⟩ := hok.shm a hmem htype
      have hinc : x.1.lwpShmRefInc u a.addr = (x.1.addShmRef id 1, (x.1.shmAry id).ref + 1) := by
        unfold Mm.lwpShmRefInc Mm.lwpShmStructGet at *
        rw [h.grows.pa, hid]
      have hpos : 0 < (x.1.shmAry id).ref + 1 := by
        have := h.grows.shmRef id
        omega
      have hgrows : x.1.Grows (x.1.addShmRef id 1) := by
        refine ⟨fun _ => le_rfl, rfl, fun i => ?_⟩
        rw [Mm.shmAry_addShmRef]
        split
        · next heq =>
          rw [heq]
          exact Int.le_add_one le_rfl
        · exact le_rfl
      rw [hinc, if_pos hpos, ← htype] at hd
      exact hphys (x.1.addShmRef id 1) true ans (.inr (.inr htype)) hgrows rfl hd
    · cases hd
  | auto ans =>
    simp only [RtSmart.dupMap] at hd
    split at hd
    · next htype =>
      obtain ⟨⟨w, r⟩, hw, heq⟩ := Option.map_eq_some_iff.mp hd
      dsimp only at heq
      split at heq
      · next hr =>
        subst hr
        cases heq
        exact h.data hok hu htype hw
      · cases heq
    · cases hd
  | text ans =>
    simp only [RtSmart.dupMap] at hd
    split at hd
    · next htype =>
      refine ⟨[], ?_⟩
      rw [List.append_nil]
      exact h.text hok hu htype hd
    · cases hd

end Step

theorem setUnmapAll_at {b : MmArea} (ua : ℕ) (h₁ : ∀ d ∈ l₁, d.addr + d.size ≤ b.addr ∧ 0 < d.size)
    (h₂ : ∀ d ∈ l₂, b.addr < d.addr) (hsize : 0 < b.size) (h64 : b.addr + b.size < 2 ^ 64) :
    lwpMapAreaSetUnmapAllAddr (l₁ ++ b :: l₂) b.addr ua = l₁ ++ { b with unmapAllAddr := ua } :: l₂ := by
  have hfind : lwpMapFind (l₁ ++ b :: l₂) b.addr = some b := by
    unfold lwpMapFind
    have hnone : l₁.find? (fun d => d.addr ≤ b.addr ∧ b.addr < d.areaEnd) = none := by
      rw [List.find?_eq_none]
      intro d hd
      have hle := (h₁ d hd).1
      have hend : d.areaEnd = d.addr + d.size := Nat.mod_eq_of_lt (by omega)
      simp only [decide_eq_true_eq]
      omega
    have hend : b.areaEnd = b.addr + b.size := Nat.mod_eq_of_lt h64
    rw [List.find?_append, hnone, Option.none_or, List.find?_cons_of_pos]
    simp only [decide_eq_true_eq]
    omega
  have hkeep : ∀ k : List MmArea, (∀ d ∈ k, d.addr ≠ b.addr) →
      k.map (fun d => if d = b then { d with unmapAllAddr := ua } else d) = k := by
    intro k hk
    have hid : ∀ d ∈ k, (if d = b then { d with unmapAllAddr := ua } else d) = d := by
      intro d hd
      apply if_neg
      rintro rfl
      exact hk d hd rfl
    exact (List.map_congr_left hid).trans (List.map_id' k)
  unfold lwpMapAreaSetUnmapAllAddr
  rw [hfind]
  dsimp only
  rw [List.map_append, List.map_cons, if_pos rfl]
  rw [hkeep l₁ fun d hd => by have := h₁ d hd; omega, hkeep l₂ fun d hd => (h₂ d hd).ne']

theorem forked_eq (ha : a.Aligned) : ∃ (size : ℕ) (l : List MmArea), 0 < size ∧ size ≤ a.size ∧ (∀ d ∈ l, a.addr < d.addr) ∧
    ∀ ua, ({ a with unmapAllAddr := ua } : MmArea).forked = ⟨a.addr, size, a.type, ua⟩ :: l := by
  by_cases htext : a.type = .text
  · refine ⟨archPageSize, textAreas (a.addr + archPageSize) (a.pages - 1), by decide, ?_, ?_, ?_⟩
    · have := ha.size
      have := ha.size_pos
      unfold archPageSize at *
      omega
    · intro d hd
      obtain ⟨k, -, rfl⟩ := mem_textAreas.mp hd
      dsimp only
      unfold archPageSize
      omega
    · intro ua
      unfold MmArea.forked
      rw [if_pos htext, htext]
      rfl
  · refine ⟨a.size, [], ha.size_pos, le_rfl, fun d hd => (nomatch hd), ?_⟩
    intro ua
    unfold MmArea.forked
    rw [if_neg htext]

section Step

variable {rest : List MmArea} (hok : ForkOk m u) (hu : u.mapArea = l ++ a :: rest) (h : Copied m u fresh l x)

include hok hu h

theorem Copied.lwpDupUser {ans : DupAnswer} (hd : lwpDupUser u x a ans = some (y, true)) :
    ∃ new, Copied m u (fresh ++ new) (l ++ [a]) y := by
  obtain ⟨hmem, hal, h64⟩ := hok.here hu
  obtain ⟨⟨z, b⟩, hz, heq⟩ := Option.map_eq_some_iff.mp hd
  have hb : b = true := by
    dsimp only at heq
    split at heq
    · next hcase => exact hcase.1
    · exact (Prod.mk.inj heq).2
  subst hb
  obtain ⟨new, hnew⟩ := h.dupMap hok hu hz
  obtain ⟨size, tail, hpos, hle, htail, hforked⟩ := forked_eq hal
  have hz0 : z.2.mapArea = l.flatMap MmArea.forked ++ ⟨a.addr, size, a.type, 0⟩ :: tail := by
    rw [hnew.areas, List.flatMap_append, List.flatMap_singleton, hforked 0]
  have hareas : y.2.mapArea = (l ++ [a]).flatMap MmArea.forked := by
    have ha : a.forked = ⟨a.addr, size, a.type, a.unmapAllAddr⟩ :: tail := hforked a.unmapAllAddr
    rw [List.flatMap_append, List.flatMap_singleton, ha]
    dsimp only at heq
    split at heq
    · cases heq
      dsimp only
      rw [hz0]
      refine setUnmapAll_at (b := ⟨a.addr, size, a.type, 0⟩) a.unmapAllAddr ?_ htail hpos ?_
      · rw [← h.areas]
        exact fun d hd => h.before hok hu hd
      · dsimp only
        omega
    · next hcase =>
      cases heq
      have hzero : a.unmapAllAddr = 0 := by
        by_contra hne
        exact hcase ⟨rfl, hne⟩
      rw [hz0, hzero]
  have hrest : y.1 = z.1 ∧ y.2.vtable = z.2.vtable := by
    dsimp only at heq
    split at heq <;> cases heq <;> exact ⟨rfl, rfl⟩
  have hslots : (l ++ [a]).flatMap MmArea.slots = (l ++ [{ a with unmapAllAddr := 0 }]).flatMap MmArea.slots := by
    rw [List.flatMap_append, List.flatMap_append]
    rfl
  refine ⟨new, hareas, ?_, ?_, ?_, ?_, ?_⟩
  · intro s hs
    rw [hrest.2]
    exact hnew.empty s (hslots ▸ hs)
  · intro d hd s hs
    rw [hrest.1, hrest.2]
    rcases List.mem_append.mp hd with hd | hd
    · exact hnew.entries d (List.mem_append_left _ hd) s hs
    · rw [List.mem_singleton.mp hd] at hs ⊢
      exact hnew.entries { a with unmapAllAddr := 0 } (by simp) s hs
  · rw [hrest.1]
    exact hnew.taken
  · rw [hrest.1]
    exact hnew.content
  · rw [hrest.1]
    exact hnew.grows

end Step

theorem Copied.copyProcess {rest : List MmArea} {ans : List DupAnswer} (hok : ForkOk m u) (hu : u.mapArea = l ++ rest)
    (h : Copied m u fresh l x) (hd : copyProcess u rest ans x = some (y, true)) :
    ∃ fresh', Copied m u fresh' u.mapArea y := by
  induction rest generalizing l fresh x ans with
  | nil =>
    cases hd
    rw [hu, List.append_nil]
    exact ⟨fresh, h⟩
  | cons a rest ih =>
    cases ans with
    | nil => cases hd
    | cons b as =>
      rw [RtSmart.copyProcess] at hd
      split at hd
      · cases hd
      · cases hd
      · next z hz =>
        obtain ⟨new, hnew⟩ := h.lwpDupUser hok hu hz
        refine ih ?_ hnew hd
        rw [hu]
        simp

theorem pageTypes_textAreas {addr : ℕ} (haddr : addr % archPageSize = 0) (n : ℕ) :
    pageTypes (textAreas addr n) = (List.range' (addr / archPageSize) n).map fun v => (v, .text) := by
  induction n generalizing addr with
  | zero => rfl
  | succ n ih =>
    have hnext : (addr + archPageSize) % archPageSize = 0 := by
      rw [Nat.add_mod_right]
      exact haddr
    rw [textAreas_succ, List.range'_succ, List.map_cons, ← Nat.add_div_right addr (by decide : 0 < archPageSize), ← ih hnext]
    unfold pageTypes
    have hone : (⟨addr, archPageSize, .text, 0⟩ : MmArea).pages = 1 := Nat.div_self (show 0 < archPageSize by decide)
    rw [List.flatMap_cons, hone]
    rfl

theorem pageTypes_forked (hl : ∀ a ∈ l, a.Aligned) : pageTypes (l.flatMap MmArea.forked) = pageTypes l := by
  induction l with
  | nil => rfl
  | cons a l ih =>
    have ha := hl a List.mem_cons_self
    have hone : pageTypes a.forked = pageTypes [a] := by
      unfold MmArea.forked
      split
      · next htext =>
        have hpages : a.pages = a.pages - 1 + 1 := (Nat.sub_add_cancel ha.pages_pos).symm
        have hfirst : pageTypes (⟨a.addr, archPageSize, .text, a.unmapAllAddr⟩ :: textAreas (a.addr + archPageSize) (a.pages - 1)) =
            pageTypes (textAreas a.addr (a.pages - 1 + 1)) := by
          rw [textAreas_succ]
          rfl
        rw [hfirst, ← hpages, pageTypes_textAreas ha.addr]
        unfold pageTypes
        rw [List.flatMap_singleton, htext]
        rfl
      · rfl
    have hcons : pageTypes (a :: l) = pageTypes [a] ++ pageTypes l := by
      rw [← pageTypes_append]
      rfl
    rw [List.flatMap_cons, pageTypes_append, ih fun b hb => hl b (List.mem_cons_of_mem a hb), hone, hcons]

def MmArea.Has (a : MmArea) (va : ℕ) : Prop := a.addr ≤ va ∧ va < a.addr + a.size

theorem MmArea.Has.slot_mem (h : a.Has va) (ha : a.Aligned) : slot (va / archPageSize) ∈ a.slots := by
  obtain ⟨hle, hlt⟩ := h
  have haddr := ha.addr_eq
  have hsize := ha.size_eq
  refine mem_slots.mpr ⟨va / archPageSize - a.vpn, ?_, ?_⟩
  · unfold archPageSize at *
    omega
  · congr 1
    unfold archPageSize at *
    omega

def AreaType.Private (type : AreaType) : Prop := type = .data ∨ type = .text

def InPrivate (u : UserSpace) (va : ℕ) : Prop := ∃ a ∈ u.mapArea, a.type.Private ∧ a.Has va

section Stores

variable {m₁ m₂ : Mm} {A : Set ℕ} {b : UInt8}

def Agree (A : Set ℕ) (m₁ m₂ : Mm) : Prop := ∀ p ∈ A, m₁.content p = m₂.content p

theorem Agree.storeByte (h : Agree A m₁ m₂) : Agree A (storeByte m₁ u va b) (storeByte m₂ u va b) := by
  intro p hp
  unfold RtSmart.storeByte
  split
  · exact h p hp
  · next e he =>
    split
    · exact h p hp
    · dsimp only
      by_cases heq : p = e.ppn
      · subst heq
        rw [Function.update_self, Function.update_self, h _ hp]
      · rw [Function.update_of_ne heq, Function.update_of_ne heq, h p hp]

theorem Agree.storeByte_left (h : Agree A m₁ m₂)
    (hout : ∀ e ∈ u.vtable (slot (va / archPageSize)), e.attr ≠ .uRo → e.ppn ∉ A) : Agree A (RtSmart.storeByte m₁ u va b) m₂ := by
  intro p hp
  unfold RtSmart.storeByte
  split
  · exact h p hp
  · next e he =>
    split
    · exact h p hp
    · next hattr =>
      dsimp only
      rw [Function.update_of_ne, h p hp]
      rintro rfl
      exact hout e he hattr hp

def stores (u c : UserSpace) (m : Mm) (ws : List (Bool × ℕ × UInt8)) : Mm :=
  ws.foldl (fun m w => storeByte m (if w.1 then c else u) w.2.1 w.2.2) m

theorem Agree.stores (u c : UserSpace) (who : Bool) (ws : List (Bool × ℕ × UInt8)) (h : Agree A m₁ m₂)
    (hout : ∀ w ∈ ws, w.1 ≠ who → ∀ e ∈ (if w.1 then c else u).vtable (slot (w.2.1 / archPageSize)), e.attr ≠ .uRo →
      e.ppn ∉ A) : Agree A (stores u c m₁ ws) (RtSmart.stores u c m₂ (ws.filter fun w => w.1 = who)) := by
  induction ws generalizing m₁ m₂ with
  | nil => exact h
  | cons w ws ih =>
    rw [List.forall_mem_cons] at hout
    by_cases hw : w.1 = who
    · rw [List.filter_cons_of_pos (by simpa using hw)]
      exact ih h.storeByte hout.2
    · rw [List.filter_cons_of_neg (by simpa using hw)]
      exact ih (h.storeByte_left (hout.1 hw)) hout.2

theorem Agree.loadByte (h : Agree A m₁ m₂) (hin : ∀ e ∈ u.vtable (slot (va / archPageSize)), e.ppn ∈ A) :
    loadByte m₁ u va = loadByte m₂ u va := by
  unfold RtSmart.loadByte
  apply Option.map_congr
  intro e he
  rw [h e.ppn (hin e he)]

end Stores

/-- What a `fork` leaves behind. -/
structure Faithful (m m' : Mm) (u c : UserSpace) : Prop where
  areas : c.mapArea = u.mapArea.flatMap MmArea.forked
  pages : pageTypes c.mapArea = pageTypes u.mapArea
  -- every byte of the private areas is there
  reads : ∀ va, InPrivate u va → (loadByte m u va).isSome ∧ loadByte m' c va = loadByte m u va
  -- the other areas, and the text, are the same physical pages
  shared : ∀ a ∈ u.mapArea, a.type ≠ .data → ∀ va, a.Has va → c.rtHwMmuV2p va = u.rtHwMmuV2p va
  -- the parent reads what it read before, unless a physical area of it has a page that was free until now
  parent : ∀ a ∈ u.mapArea, ∀ va, a.Has va →
    (a.type.Private ∨ a.type = .shm ∨ ∀ e ∈ u.vtable (slot (va / archPageSize)), ¬ (m.pageRef e.ppn = 0 ∧ 0 < m'.pageRef e.ppn)) →
      loadByte m' u va = loadByte m u va
  -- neither sees what the other one writes to its private areas
  apart : ∀ ws : List (Bool × ℕ × UInt8), (∀ w ∈ ws, InPrivate u w.2.1) → ∀ va, InPrivate u va →
    loadByte (stores u c m' ws) u va = loadByte (stores u c m' (ws.filter fun w => w.1 = false)) u va ∧
      loadByte (stores u c m' ws) c va = loadByte (stores u c m' (ws.filter fun w => w.1 = true)) c va

section Faithful

variable (hok : ForkOk m u) (h : Copied m u fresh u.mapArea x)

include hok h

theorem Copied.private (hva : InPrivate u va) :
    (∃ p p', u.vtable (slot (va / archPageSize)) = some ⟨p, .uRwcb⟩ ∧ x.2.vtable (slot (va / archPageSize)) = some ⟨p', .uRwcb⟩ ∧
        p' ∈ fresh ∧ x.1.content p' = m.content p ∧ 0 < m.pageRef p ∧
        ∀ b ∈ u.mapArea, b.type = .text → ∀ s ∈ b.slots, ∀ e ∈ u.vtable s, p ≠ e.ppn) ∨
      ∃ p, u.vtable (slot (va / archPageSize)) = some ⟨p, .uRo⟩ ∧ x.2.vtable (slot (va / archPageSize)) = some ⟨p, .uRo⟩ ∧
        0 < m.pageRef p ∧ ∃ b ∈ u.mapArea, b.type = .text ∧ slot (va / archPageSize) ∈ b.slots := by
  obtain ⟨a, ha, htype, hhas⟩ := hva
  have hslot := hhas.slot_mem (hok.areas.aligned a ha)
  have hcopy := h.entries a ha _ hslot
  rcases htype with htype | htype
  · rw [htype] at hcopy
    obtain ⟨p, p', hp, hp', hmem, hc⟩ := hcopy
    exact .inl ⟨p, p', hp, hp', hmem, hc, hok.counted a ha (.inl htype) _ hslot _ hp,
      fun b hb hbt s hs e he => hok.apart a ha htype b hb hbt _ hslot s hs _ hp e he⟩
  · rw [htype] at hcopy
    obtain ⟨p, hp, hp'⟩ := hcopy
    exact .inr ⟨p, hp, hp', hok.counted a ha (.inr (.inl htype)) _ hslot _ hp, a, ha, htype, hslot⟩

omit hok in
theorem Copied.not_fresh {p : ℕ} (hp : 0 < m.pageRef p) : p ∉ fresh := fun hmem => hp.ne' (h.taken p hmem).1

theorem Copied.apart (ws : List (Bool × ℕ × UInt8)) (hws : ∀ w ∈ ws, InPrivate u w.2.1) (hva : InPrivate u va) :
    loadByte (stores u x.2 x.1 ws) u va = loadByte (stores u x.2 x.1 (ws.filter fun w => w.1 = false)) u va ∧
      loadByte (stores u x.2 x.1 ws) x.2 va = loadByte (stores u x.2 x.1 (ws.filter fun w => w.1 = true)) x.2 va := by
  constructor
  · -- the child writes to the new pages only
    refine Agree.loadByte (A := {p | p ∉ fresh}) (Agree.stores u x.2 false ws (fun _ _ => rfl) ?_) ?_
    · intro w hw hwho e he hattr
      have hwho : w.1 = true := Bool.eq_true_of_not_eq_false hwho
      rw [hwho, if_pos rfl] at he
      rcases h.private hok (hws w hw) with ⟨p, p', -, hp', hmem, -⟩ | ⟨p, -, hp', -⟩
      · rw [Option.mem_def, hp', Option.some.injEq] at he
        subst he
        exact fun hn => hn hmem
      · rw [Option.mem_def, hp', Option.some.injEq] at he
        subst he
        exact absurd rfl hattr
    · intro e he
      rcases h.private hok hva with ⟨p, p', hp, -, -, -, hpos, -⟩ | ⟨p, hp, -, hpos, -⟩
      · rw [Option.mem_def, hp, Option.some.injEq] at he
        subst he
        exact h.not_fresh hpos
      · rw [Option.mem_def, hp, Option.some.injEq] at he
        subst he
        exact h.not_fresh hpos
  · -- the child reads the new pages and those of the text
    refine Agree.loadByte (A := {p | p ∈ fresh ∨ ∃ b ∈ u.mapArea, b.type = .text ∧ ∃ s ∈ b.slots, ∃ e ∈ u.vtable s, e.ppn = p})
      (Agree.stores u x.2 true ws (fun _ _ => rfl) ?_) ?_
    · intro w hw hwho e he hattr
      have hwho : w.1 = false := Bool.eq_false_of_not_eq_true hwho
      rw [hwho, if_neg Bool.false_ne_true] at he
      rcases h.private hok (hws w hw) with ⟨p, p', hp, -, -, -, hpos, happart⟩ | ⟨p, hp, -⟩
      · rw [Option.mem_def, hp, Option.some.injEq] at he
        subst he
        rintro (hmem | ⟨b, hb, hbt, s, hs, e, he, heq⟩)
        · exact h.not_fresh hpos hmem
        · exact happart b hb hbt s hs e he heq.symm
      · rw [Option.mem_def, hp, Option.some.injEq] at he
        subst he
        exact absurd rfl hattr
    · intro e he
      rcases h.private hok hva with ⟨p, p', -, hp', hmem, -⟩ | ⟨p, hp, hp', -, b, hb, hbt, hs⟩
      · rw [Option.mem_def, hp', Option.some.injEq] at he
        subst he
        exact .inl hmem
      · rw [Option.mem_def, hp', Option.some.injEq] at he
        subst he
        exact .inr ⟨b, hb, hbt, _, hs, _, hp, rfl⟩

theorem Copied.faithful : Faithful m x.1 u x.2 where
  areas := h.areas
  pages := by
    rw [h.areas]
    exact pageTypes_forked hok.areas.aligned
  reads va hva := by
    unfold loadByte
    rcases h.private hok hva with ⟨p, p', hp, hp', -, hc, -⟩ | ⟨p, hp, hp', hpos, -⟩
    · rw [hp, hp']
      simp [hc]
    · rw [hp, hp']
      simp [h.content p (h.not_fresh hpos)]
  shared a ha htype va hva := by
    have hcopy := h.entries a ha _ (hva.slot_mem (hok.areas.aligned a ha))
    have hsame : ∃ p attr attr', u.vtable (slot (va / archPageSize)) = some ⟨p, attr⟩ ∧
        x.2.vtable (slot (va / archPageSize)) = some ⟨p, attr'⟩ := by
      cases hty : a.type with
      | data => exact absurd hty htype
      | text =>
        rw [hty] at hcopy
        obtain ⟨p, hp, hp'⟩ := hcopy
        exact ⟨p, _, _, hp, hp'⟩
      | phy => rwa [hty] at hcopy
      | phyWt => rwa [hty] at hcopy
      | phyCached => rwa [hty] at hcopy
      | shm => rwa [hty] at hcopy
    obtain ⟨p, attr, attr', hp, hp'⟩ := hsame
    unfold UserSpace.rtHwMmuV2p
    rw [hp, hp']
  parent a ha va hva hcase := by
    refine Agree.loadByte (A := {p | p ∉ fresh}) (fun p hp => h.content p hp) ?_
    intro e he
    have hslot := hva.slot_mem (hok.areas.aligned a ha)
    rcases hcase with hpriv | hshm | hphy
    · refine h.not_fresh (hok.counted a ha ?_ _ hslot e he)
      rcases hpriv with hd | ht
      · exact .inl hd
      · exact .inr (.inl ht)
    · exact h.not_fresh (hok.counted a ha (.inr (.inr hshm)) _ hslot e he)
    · exact fun hmem => hphy e he (h.taken _ hmem)
  apart ws hws va hva := h.apart hok ws hws hva

end Faithful

/-- A `fork` that succeeds leaves the parent as it is and copies its address space. -/
theorem fork_copies (cfg : MmConfig) (s s' : ShmSys) (pid child : ℕ) (ans : List DupAnswer) (u c : UserSpace)
    (hu : s.space pid = some u) (hok : ForkOk s.mm u) (hs : s.step cfg (.fork pid child ans false) = some s')
    (hc : s'.space child = some c) : s'.space pid = some u ∧ Faithful s.mm s'.mm u c := by
  simp only [ShmSys.step] at hs
  split at hs
  · next hchild =>
    rw [hu] at hs
    obtain ⟨⟨m', o⟩, hf, rfl⟩ := Option.map_eq_some_iff.mp hs
    have ho : o = some c := by simpa using hc
    have hne : pid ≠ child := by
      rintro rfl
      rw [hchild.2] at hu
      cases hu
    obtain ⟨⟨y, ok⟩, hy, heq⟩ := Option.map_eq_some_iff.mp hf
    refine ⟨?_, ?_⟩
    · dsimp only
      rw [Function.update_of_ne hne]
      exact hu
    · dsimp only at heq
      split at heq
      · next hcase =>
        obtain ⟨rfl, -⟩ := hcase
        obtain ⟨rfl, hyc⟩ := Prod.mk.inj heq
        rw [ho, Option.some.injEq] at hyc
        subst hyc
        obtain ⟨fresh, hfresh⟩ := (copied_nil s.mm u).copyProcess hok rfl hy
        exact hfresh.faithful hok
      · obtain ⟨-, hnone⟩ := Prod.mk.inj heq
        rw [ho] at hnone
        cases hnone
  · cases hs

theorem ShmSys.Inv.forkOk {cfg : MmConfig} {s : ShmSys} {pid : ℕ} (h : s.Inv cfg) (hu : s.space pid = some u)
    (hbelow : ∀ a ∈ u.mapArea, a.addr + a.size < 2 ^ 64) (hapart : TextApart u) : ForkOk s.mm u := by
  have hspace : s.spaceOf pid = u := by
    unfold ShmSys.spaceOf
    rw [hu]
    rfl
  have hb := h.balanced (h.lt_of_some hu)
  rw [hspace] at hb
  have hok := hb.space
  refine ⟨⟨hok.ordered, hok.tabled.aligned, hbelow⟩, hok.tabled, ?_, ?_, hapart⟩
  · intro a ha htype t ht e he
    have hheld := hb.held e.ppn
    by_cases hshm : a.type = .shm
    · -- the page is one of the object
      obtain ⟨id, hid, hsize, hv⟩ := hok.shm a ha hshm
      have hcons : Consecutive (a.slots.map u.vtable) := by
        have hent := hok.tabled.entries a ha
        rwa [hshm] at hent
      obtain ⟨p, attr, hentry⟩ := hcons.entry
      obtain ⟨k, hk, rfl⟩ := mem_slots.mp ht
      have hal := hok.tabled.aligned a ha
      have haddr : (s.mm.shmAry id).addr = p * archPageSize := by
        rw [← hv]
        unfold v2p UserSpace.rtHwMmuV2p
        dsimp only
        rw [show a.addr / archPageSize = a.vpn + 0 from rfl, hentry 0 hal.pages_pos]
        simp only [hal.addr, Nat.add_zero]
      rw [Option.mem_def, hentry k hk, Option.some.injEq] at he
      have hpage : e.ppn ∈ s.mm.pagesOfObj id := by
        rw [← he]
        unfold Mm.pagesOfObj
        rw [List.mem_range'_1, haddr, hsize, Nat.mul_div_cancel _ (by decide)]
        have hk : k < a.size / archPageSize := hk
        dsimp only
        omega
      have := List.count_pos_iff.mpr (Mm.mem_objPages.mpr ⟨id, hid, hpage⟩)
      omega
    · have hneed : a.type.paNeedFree = true := by
        rcases htype with htype | htype | htype
        · rw [htype]
          rfl
        · rw [htype]
          rfl
        · exact absurd htype hshm
      have hne : e.ppn ≠ 0 := by
        have hent := hok.tabled.entries a ha
        rcases htype with htype | htype | htype
        · rw [htype] at hent
          obtain ⟨p, hp, heq⟩ := hent _ (List.mem_map_of_mem ht)
          rw [Option.mem_def, heq, Option.some.injEq] at he
          rw [← he]
          exact hp
        · rw [htype] at hent
          obtain ⟨p, hp, heq⟩ := hent _ (List.mem_map_of_mem ht)
          rw [Option.mem_def, heq, Option.some.injEq] at he
          rw [← he]
          exact hp
        · exact absurd htype hshm
      have hmem : e.ppn ∈ heldBy u.vtable u.mapArea := by
        apply List.mem_flatMap.mpr
        refine ⟨a, ha, ?_⟩
        rw [if_pos hneed]
        apply List.mem_filterMap.mpr
        refine ⟨_, List.mem_map_of_mem ht, ?_⟩
        rw [Option.mem_def.mp he]
        simp [hne]
      have := List.count_pos_iff.mpr hmem
      omega
  · intro a ha hshm
    obtain ⟨id, hid, hsize, hv⟩ := hok.shm a ha hshm
    refine ⟨id, h.objs.lwpShmStructGet_eq hid u a.addr hv, ?_⟩
    rw [h.exact id hid]
    exact Int.natCast_nonneg _

/-- A process with an area of each kind. -/
def forkingRun : List ShmSys.Event :=
  [.spawn 1, .mapUser 1 0x200000000 8192 true (some (⟨0x200000000, true⟩, [50, 51])),
    .mapUser 1 0x300000000 4096 false (some (⟨0x300000000, true⟩, [52])), .shmget 7 4096 true (some 100) true,
    .shmat 1 0 0 (some ⟨0x100000000, true⟩), .mapPhy 1 0x400000000 0x90000000 4096 true (some ⟨0x400000000, true⟩)]

def forkAnswers : List DupAnswer :=
  [.map (some ⟨0x100000000, true⟩), .text [some ⟨0x200000000, true⟩, some ⟨0x200001000, true⟩],
    .auto (some (⟨0x300000000, true⟩, [60])), .map (some ⟨0x400000000, true⟩)]

theorem fork_copies_example : ∃ (s s' : ShmSys) (u c : UserSpace), run (ShmSys.step ShmSys.exampleConfig) ShmSys.init forkingRun = some s ∧
    s.space 1 = some u ∧ u.mapArea.length = 4 ∧ s.step ShmSys.exampleConfig (.fork 1 2 forkAnswers false) = some s' ∧
    s'.space 2 = some c ∧ Faithful s.mm s'.mm u c := by
  have hm : Meets (ShmSys.step ShmSys.exampleConfig) ShmSys.Admits ShmSys.init forkingRun := by decide +kernel
  have hrun : ((run (ShmSys.step ShmSys.exampleConfig) ShmSys.init forkingRun).any fun s => (s.space 1).any fun u =>
      decide (TextApart u) && decide (∀ a ∈ u.mapArea, a.addr + a.size < 2 ^ 64) && decide (u.mapArea.length = 4) &&
        (s.step ShmSys.exampleConfig (.fork 1 2 forkAnswers false)).any fun s' => (s'.space 2).isSome) = true := by
    decide +kernel
  obtain ⟨s, hs, hrun⟩ := (Option.any_eq_true _ _).mp hrun
  obtain ⟨u, hu, hrun⟩ := (Option.any_eq_true _ _).mp hrun
  simp only [Bool.and_eq_true, decide_eq_true_eq] at hrun
  obtain ⟨⟨⟨hapart, hbelow⟩, hlen⟩, hfork⟩ := hrun
  obtain ⟨s', hs', hsome⟩ := (Option.any_eq_true _ _).mp hfork
  obtain ⟨c, hc⟩ := Option.isSome_iff_exists.mp hsome
  have hinv : s.Inv ShmSys.exampleConfig := run_invariant_of_meets (ShmSys.Inv ShmSys.exampleConfig)
    (fun s e s' hi ha hs => (hi.step ha hs).1) hs hm (ShmSys.inv_init ShmSys.exampleConfig)
  have hok := hinv.forkOk hu hbelow hapart
  exact ⟨s, s', u, c, hs, hu, hlen, hs', hc, (fork_copies ShmSys.exampleConfig s s' 1 2 forkAnswers u c hu hok hs' hc).2⟩

/-- The two pages of the text are one area in the parent and two in the child. -/
theorem fork_splits_text : ∃ (s s' : ShmSys) (u c : UserSpace), run (ShmSys.step ShmSys.exampleConfig) ShmSys.init forkingRun = some s ∧
    s.space 1 = some u ∧ Ordered u.mapArea ∧ s.step ShmSys.exampleConfig (.fork 1 2 forkAnswers false) = some s' ∧
    s'.space 2 = some c ∧
    c.mapArea.map (fun a => (a.addr, a.size, a.type)) ≠ u.mapArea.map (fun a => (a.addr, a.size, a.type)) := by
  have hrun : ((run (ShmSys.step ShmSys.exampleConfig) ShmSys.init forkingRun).any fun s => (s.space 1).any fun u =>
      decide (u.mapArea.Pairwise fun a b => a.addr + a.size ≤ b.addr) &&
        (s.step ShmSys.exampleConfig (.fork 1 2 forkAnswers false)).any fun s' => (s'.space 2).any fun c =>
          decide (c.mapArea.map (fun a => (a.addr, a.size, a.type)) ≠ u.mapArea.map fun a => (a.addr, a.size, a.type))) =
        true := by
    decide +kernel
  obtain ⟨s, hs, hrun⟩ := (Option.any_eq_true _ _).mp hrun
  obtain ⟨u, hu, hrun⟩ := (Option.any_eq_true _ _).mp hrun
  simp only [Bool.and_eq_true, decide_eq_true_eq] at hrun
  obtain ⟨s', hs', hfork⟩ := (Option.any_eq_true _ _).mp hrun.2
  obtain ⟨c, hc, hne⟩ := (Option.any_eq_true _ _).mp hfork
  exact ⟨s, s', u, c, hs, hu, hrun.1, hs', hc, of_decide_eq_true hne⟩

end RtSmart
