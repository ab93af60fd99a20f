import RtSmart.Lwp.AvlHeap

/-!
What the operations of lwp_avl.c do to the tree, from every tree in order.
-/

namespace RtSmart

namespace AvlHeap

open Lib
open Lib.AvlTree (plugAll ascend depth plugAll_append before_append after_append toList_plugAll toList_ascend ok_plugAll ascend_ok toList_node Ok)

variable {s : AvlHeap} {q : Option ℕ} {t l r : AvlTree AvlEntry} {fs gs : List (AvlFrame AvlEntry)} {n h key : ℕ}

def Sorted (l : List AvlEntry) : Prop := l.Pairwise fun x y => x.key ≤ y.key

theorem sorted_node {a : AvlEntry} (hs : Sorted (AvlTree.node l a h r).toList) : Sorted l.toList ∧ Sorted r.toList ∧
    (∀ e ∈ l.toList, e.key ≤ a.key) ∧ ∀ e ∈ r.toList, a.key ≤ e.key := by
  rw [toList_node, Sorted, List.pairwise_append, List.pairwise_cons] at hs
  obtain ⟨hl, ⟨ha, hr⟩, hlr⟩ := hs
  exact ⟨hl, hr, fun e he => hlr e he a List.mem_cons_self, ha⟩

theorem RepCtx.down {a : AvlEntry} (hc : RepCtx s.node s.tree fs q) (ht : Rep s.node q (AvlTree.node l a h r)) :
    RepCtx s.node s.tree (⟨true, a, h, r⟩ :: fs) (s.node a.addr).avlLeft ∧
      RepCtx s.node s.tree (⟨false, a, h, l⟩ :: fs) (s.node a.addr).avlRight := by
  obtain ⟨rfl, hh, hk, hl, hr⟩ := ht
  exact ⟨⟨rfl, hr, hh, hk, hc⟩, rfl, hl, hh, hk, hc⟩

theorem depth_node (l : AvlTree AvlEntry) (a : AvlEntry) (h : ℕ) (r : AvlTree AvlEntry) :
    l.depth + 1 ≤ (AvlTree.node l a h r).depth ∧ r.depth + 1 ≤ (AvlTree.node l a h r).depth := by
  simp only [depth]
  omega

theorem stack_push (f : AvlFrame AvlEntry) (fs : List (AvlFrame AvlEntry)) :
    (stackOf fs).reverse ++ [placeOf fs] = (stackOf (f :: fs)).reverse := by
  rw [stackOf, List.reverse_cons]

theorem insertLoop_spec (key fuel : ℕ) (ht : Rep s.node q t) (hc : RepCtx s.node s.tree fs q)
    (hdepth : fs.length + t.depth ≤ avlMaxheight) (hfuel : t.depth < fuel) :
    ∃ gs, plugAll gs .nil = t ∧ RepCtx s.node s.tree (gs ++ fs) none ∧
      s.insertLoop key fuel (placeOf fs) (stackOf fs).reverse =
        some (placeOf (gs ++ fs), (stackOf (gs ++ fs)).reverse) ∧
      (Sorted t.toList → (∀ e ∈ AvlFrame.before gs, e.key ≤ key) ∧ ∀ e ∈ AvlFrame.after gs, key ≤ e.key) := by
  induction t generalizing q fs fuel with
  | nil =>
    obtain rfl : q = none := ht
    obtain ⟨fuel, rfl⟩ := Nat.exists_eq_add_of_lt hfuel
    refine ⟨[], rfl, hc, ?_, fun _ => ⟨by simp [AvlFrame.before], by simp [AvlFrame.after]⟩⟩
    rw [insertLoop, hc.deref]
    rfl
  | node l a h r ihl ihr =>
    obtain ⟨hdl, hdr⟩ := depth_node l a h r
    obtain ⟨fuel, rfl⟩ : ∃ k, fuel = k + 1 := ⟨fuel - 1, by omega⟩
    obtain ⟨hleft, hright⟩ := hc.down ht
    obtain ⟨rfl, hh, hk, hl, hr⟩ := ht
    rw [insertLoop, hc.deref]
    dsimp only
    rw [if_pos (by rw [List.length_reverse, length_stackOf]; omega), hk]
    split
    case isTrue hlt =>
      obtain ⟨gs, hgs, hctx, hloop, hord⟩ := ihl fuel hl hleft
        (by simp only [List.length_cons]; omega) (by omega)
      refine ⟨gs ++ [⟨true, a, h, r⟩], ?_, ?_, ?_, ?_⟩
      · rw [plugAll_append, hgs]
        rfl
      · rwa [List.append_assoc]
      · rw [stack_push ⟨true, a, h, r⟩ fs, List.append_assoc]
        exact hloop
      · intro hs
        obtain ⟨hsl, -, -, hge⟩ := sorted_node hs
        obtain ⟨hb, ha⟩ := hord hsl
        rw [before_append, after_append]
        refine ⟨by simpa [AvlFrame.before] using hb, ?_⟩
        intro e he
        rcases List.mem_append.mp he with he | he
        · exact ha e he
        · have : e = a ∨ e ∈ r.toList := by simpa [AvlFrame.after] using he
          rcases this with rfl | he
          · exact hlt.le
          · exact hlt.le.trans (hge e he)
    case isFalse hlt =>
      obtain ⟨gs, hgs, hctx, hloop, hord⟩ := ihr fuel hr hright
        (by simp only [List.length_cons]; omega) (by omega)
      refine ⟨gs ++ [⟨false, a, h, l⟩], ?_, ?_, ?_, ?_⟩
      · rw [plugAll_append, hgs]
        rfl
      · rwa [List.append_assoc]
      · rw [stack_push ⟨false, a, h, l⟩ fs, List.append_assoc]
        exact hloop
      · intro hs
        obtain ⟨-, hsr, hle, -⟩ := sorted_node hs
        obtain ⟨hb, ha⟩ := hord hsr
        rw [before_append, after_append]
        refine ⟨?_, by simpa [AvlFrame.after] using ha⟩
        intro e he
        rcases List.mem_append.mp he with he | he
        · have : e ∈ l.toList ∨ e = a := by simpa [AvlFrame.before] using he
          rcases this with he | rfl
          · exact (hle e he).trans (not_lt.mp hlt)
          · exact not_lt.mp hlt
        · exact hb e he

theorem sorted_insert {x y : List AvlEntry} {e : AvlEntry} (hs : Sorted (x ++ y)) (hx : ∀ d ∈ x, d.key ≤ e.key)
    (hy : ∀ d ∈ y, e.key ≤ d.key) : Sorted (x ++ e :: y) := by
  rw [Sorted, List.pairwise_append] at hs ⊢
  obtain ⟨h1, h2, h3⟩ := hs
  refine ⟨h1, List.pairwise_cons.mpr ⟨hy, h2⟩, ?_⟩
  intro a ha b hb
  rcases List.mem_cons.mp hb with rfl | hb
  · exact hx a ha
  · exact h3 a ha b hb

theorem lwpAvlInsert_spec (hh : s.Holds t) (hok : t.Ok) (hs : Sorted t.toList) (hdepth : t.depth < avlMaxheight)
    (hn : ∀ e ∈ t.toList, n ≠ e.addr) :
    ∃ s' t', s.lwpAvlInsert n = some s' ∧ s'.Holds t' ∧ t'.Ok ∧ Sorted t'.toList ∧
      t'.toList.Perm (⟨n, (s.node n).avlKey⟩ :: t.toList) := by
  have hroot : RepCtx s.node s.tree [] s.tree := rfl
  obtain ⟨gs, rfl, hctx, hloop, hord⟩ := insertLoop_spec (s.node n).avlKey (avlMaxheight + 1) hh.1 hroot
    (by simp only [List.length_nil]; omega) (by omega)
  rw [List.append_nil] at hctx hloop
  obtain ⟨hbefore, hafter⟩ := hord hs
  obtain ⟨hnil, hctxok⟩ := ok_plugAll.mp hok
  set e : AvlEntry := ⟨n, (s.node n).avlKey⟩ with he
  -- the new leaf is hung up at the empty place
  have hlist : (plugAll gs (.node .nil e 1 .nil)).toList = AvlFrame.before gs ++ e :: AvlFrame.after gs := by
    rw [toList_plugAll]
    simp
  have hlist0 : (plugAll gs .nil).toList = AvlFrame.before gs ++ AvlFrame.after gs := by
    rw [toList_plugAll]
    simp
  have hperm : (plugAll gs (.node .nil e 1 .nil)).toList.Perm (e :: (plugAll gs .nil).toList) := by
    rw [hlist, hlist0]
    exact List.perm_middle
  have hmem : ∀ x ∈ ctxList gs, n ≠ x.addr := by
    intro x hx
    apply hn
    rw [hlist0]
    exact hx
  set s1 := s.setNode n { s.node n with avlLeft := none, avlRight := none, avlHeight := 1 } with hs1
  have hctx1 : RepCtx s1.node s1.tree gs none := by
    apply hctx.congr
    intro x hx
    exact setNode_of_ne s _ (hmem x hx).symm
  have hleaf : Rep s1.node (some n) (.node .nil e 1 .nil) := by
    have hself : s1.node n = { s.node n with avlLeft := none, avlRight := none, avlHeight := 1 } :=
      Function.update_self _ _ _
    refine ⟨rfl, ?_, ?_, ?_, ?_⟩ <;> rw [he] <;> dsimp only <;> rw [hself]
    · rfl
    · rfl
  have hnodup : (addrs (plugAll gs (.node .nil e 1 .nil)).toList).Nodup := by
    rw [addrs, (hperm.map _).nodup_iff, List.map_cons, List.nodup_cons]
    refine ⟨?_, hh.2⟩
    intro hmem
    obtain ⟨x, hx, heq⟩ := List.mem_map.mp hmem
    exact hn x hx heq.symm
  obtain ⟨s', hreb, hholds⟩ := lwpAvlRebalance_spec (hctx1.replace hleaf hnodup)
  refine ⟨s', _, ?_, hholds, ?_, ?_, ?_⟩
  · unfold lwpAvlInsert
    rw [show [] = (stackOf []).reverse from rfl, show Nodeplace.ptree = placeOf [] from rfl, hloop]
    dsimp only
    rw [List.reverse_reverse]
    exact hreb
  · apply ascend_ok (n := 0)
    · simp [Ok]
    · exact hctxok
    · simp
    · simp
  · rw [toList_ascend, hlist]
    apply sorted_insert
    · rw [← hlist0]
      exact hs
    · exact hbefore
    · exact hafter
  · rw [toList_ascend]
    exact hperm

theorem Rep.key_eq (ht : Rep s.node q t) {e : AvlEntry} (he : e ∈ t.toList) : (s.node e.addr).avlKey = e.key := by
  induction t generalizing q with
  | nil => cases he
  | node l a h r ihl ihr =>
    obtain ⟨-, -, hk, hl, hr⟩ := ht
    rw [toList_node, List.mem_append, List.mem_cons] at he
    rcases he with he | rfl | he
    · exact ihl hl he
    · exact hk
    · exact ihr hr he

section Search

variable {target fuel : ℕ} {place next : Nodeplace} {state : SearchState} {rest : List (Nodeplace × SearchState)}
  {a : AvlEntry}

theorem search_empty (h : s.deref place = none) :
    s.searchLoop target (fuel + 1) ((place, state) :: rest) = s.searchLoop target fuel rest := by
  rw [searchLoop, h]

theorem search_back (h : s.deref place = some n) (hst : state = .equalRight ∨ state = .oneSide) :
    s.searchLoop target (fuel + 1) ((place, state) :: rest) = s.searchLoop target fuel rest := by
  rw [searchLoop, h]
  rcases hst with rfl | rfl <;> rfl

theorem search_found (h : s.deref place = some target) : s.searchLoop target (fuel + 1) ((place, .fresh) :: rest) =
    some (some (place :: rest.map Prod.fst).reverse) := by
  rw [searchLoop, h]
  dsimp only
  rw [if_pos rfl]

theorem search_left (h : s.deref place = some n) (hne : n ≠ target) (hk : (s.node target).avlKey < (s.node n).avlKey)
    (hroom : ¬ (rest.length + 1 ≥ avlMaxheight ∧ s.deref (.left n) ≠ none)) :
    s.searchLoop target (fuel + 1) ((place, .fresh) :: rest) =
      s.searchLoop target fuel ((.left n, .fresh) :: (place, .oneSide) :: rest) := by
  rw [searchLoop, h]
  dsimp only
  rw [if_neg hne, if_pos hk, if_neg hroom]

theorem search_right (h : s.deref place = some n) (hne : n ≠ target) (hk : (s.node n).avlKey < (s.node target).avlKey)
    (hroom : ¬ (rest.length + 1 ≥ avlMaxheight ∧ s.deref (.right n) ≠ none)) :
    s.searchLoop target (fuel + 1) ((place, .fresh) :: rest) =
      s.searchLoop target fuel ((.right n, .fresh) :: (place, .oneSide) :: rest) := by
  rw [searchLoop, h]
  dsimp only
  rw [if_neg hne, if_neg hk.asymm, if_pos hk, if_neg hroom]

theorem search_equal (h : s.deref place = some n) (hne : n ≠ target) (hk : (s.node target).avlKey = (s.node n).avlKey)
    (hroom : ¬ (rest.length + 1 ≥ avlMaxheight ∧ s.deref (.left n) ≠ none)) :
    s.searchLoop target (fuel + 1) ((place, .fresh) :: rest) =
      s.searchLoop target fuel ((.left n, .fresh) :: (place, .equalLeft) :: rest) := by
  rw [searchLoop, h]
  dsimp only
  rw [if_neg hne, if_neg hk.not_lt, if_neg hk.not_gt, if_neg hroom]

theorem search_across (h : s.deref place = some n)
    (hroom : ¬ (rest.length + 1 ≥ avlMaxheight ∧ s.deref (.right n) ≠ none)) :
    s.searchLoop target (fuel + 1) ((place, .equalLeft) :: rest) =
      s.searchLoop target fuel ((.right n, .fresh) :: (place, .equalRight) :: rest) := by
  rw [searchLoop, h]
  dsimp only
  rw [if_neg hroom]

theorem depth_pos_of_rep (ht : Rep s.node q t) (hq : q ≠ none) : 1 ≤ t.depth := by
  cases t with
  | nil => exact absurd ht hq
  | node l a h r =>
    simp only [depth]
    omega

theorem room (hlen : rest.length = fs.length) (ht : Rep s.node (s.deref next) t)
    (hdepth : fs.length + (t.depth + 1) ≤ avlMaxheight) :
    ¬ (rest.length + 1 ≥ avlMaxheight ∧ s.deref next ≠ none) := by
  rintro ⟨hge, hne⟩
  have := depth_pos_of_rep ht hne
  omega

theorem search_absent (rest : List (Nodeplace × SearchState)) (ht : Rep s.node q t) (hc : RepCtx s.node s.tree fs q) (hlen : rest.length = fs.length)
    (hdepth : fs.length + t.depth ≤ avlMaxheight) (hno : ∀ e ∈ t.toList, e.addr ≠ target) :
    ∃ c ≤ 4 * t.toList.length + 1, ∀ k,
      s.searchLoop target (k + c) ((placeOf fs, .fresh) :: rest) = s.searchLoop target k rest := by
  induction t generalizing q fs rest with
  | nil =>
    obtain rfl : q = none := ht
    exact ⟨1, by simp, fun k => search_empty hc.deref⟩
  | node l a h r ihl ihr =>
    obtain ⟨hdl, hdr⟩ := depth_node l a h r
    obtain ⟨hleft, hright⟩ := hc.down ht
    obtain ⟨rfl, hh, hk, hl, hr⟩ := ht
    have hsize : (AvlTree.node l a h r).toList.length = l.toList.length + r.toList.length + 1 := by
      simp
      omega
    have hne : a.addr ≠ target := hno a (by simp)
    have hnol : ∀ e ∈ l.toList, e.addr ≠ target := fun e he => hno e (by simp [he])
    have hnor : ∀ e ∈ r.toList, e.addr ≠ target := fun e he => hno e (by simp [he])
    have hroom : ¬ (rest.length + 1 ≥ avlMaxheight ∧ s.deref (.left a.addr) ≠ none) := room hlen hl (by omega)
    have hroom' : ¬ (rest.length + 1 ≥ avlMaxheight ∧ s.deref (.right a.addr) ≠ none) := room hlen hr (by omega)
    rcases lt_trichotomy (s.node target).avlKey (s.node a.addr).avlKey with hlt | heq | hgt
    · obtain ⟨cl, hcl, hsl⟩ := ihl ((placeOf fs, .oneSide) :: rest) hl hleft (by simp [hlen])
        (by simp only [List.length_cons]; omega) hnol
      refine ⟨cl + 2, by omega, ?_⟩
      intro k
      rw [show k + (cl + 2) = k + 1 + cl + 1 by omega, search_left hc.deref hne hlt hroom]
      exact (hsl (k + 1)).trans (search_back hc.deref (Or.inr rfl))
    · obtain ⟨cl, hcl, hsl⟩ := ihl ((placeOf fs, .equalLeft) :: rest) hl hleft (by simp [hlen])
        (by simp only [List.length_cons]; omega) hnol
      obtain ⟨cr, hcr, hsr⟩ := ihr ((placeOf fs, .equalRight) :: rest) hr hright (by simp [hlen])
        (by simp only [List.length_cons]; omega) hnor
      refine ⟨cl + cr + 3, by omega, ?_⟩
      intro k
      rw [show k + (cl + cr + 3) = k + 1 + cr + 1 + cl + 1 by omega, search_equal hc.deref hne heq hroom]
      refine (hsl (k + 1 + cr + 1)).trans ?_
      rw [search_across hc.deref hroom']
      exact (hsr (k + 1)).trans (search_back hc.deref (Or.inl rfl))
    · obtain ⟨cr, hcr, hsr⟩ := ihr ((placeOf fs, .oneSide) :: rest) hr hright (by simp [hlen])
        (by simp only [List.length_cons]; omega) hnor
      refine ⟨cr + 2, by omega, ?_⟩
      intro k
      rw [show k + (cr + 2) = k + 1 + cr + 1 by omega, search_right hc.deref hne hgt hroom']
      exact (hsr (k + 1)).trans (search_back hc.deref (Or.inr rfl))

theorem search_present (rest : List (Nodeplace × SearchState)) (ht : Rep s.node q t) (hc : RepCtx s.node s.tree fs q)
    (hrest : rest.map Prod.fst = stackOf fs) (hdepth : fs.length + t.depth ≤ avlMaxheight)
    (hd : (addrs t.toList).Nodup) (hs : Sorted t.toList) (ha : a ∈ t.toList) :
    ∃ gs l h r, plugAll gs (.node l a h r) = t ∧ ∃ c ≤ 4 * t.toList.length + 1, ∀ k,
      s.searchLoop a.addr (k + c) ((placeOf fs, .fresh) :: rest) =
        some (some (placeOf (gs ++ fs) :: stackOf (gs ++ fs)).reverse) := by
  induction t generalizing q fs rest with
  | nil => cases ha
  | node l b h r ihl ihr =>
    obtain ⟨hdl, hdr⟩ := depth_node l b h r
    obtain ⟨hleft, hright⟩ := hc.down ht
    have hkey := ht.key_eq ha
    obtain ⟨hndl, hndr, hlb, hrb, hdisj⟩ := nodup_node.mp hd
    obtain ⟨hsl, hsr, hle, hge⟩ := sorted_node hs
    obtain ⟨rfl, hh, hk, hl, hr⟩ := ht
    have hlen : rest.length = fs.length := by rw [← List.length_map, hrest, length_stackOf]
    have hsize : (AvlTree.node l b h r).toList.length = l.toList.length + r.toList.length + 1 := by
      simp
      omega
    have hroom : ¬ (rest.length + 1 ≥ avlMaxheight ∧ s.deref (.left b.addr) ≠ none) := room hlen hl (by omega)
    have hroom' : ¬ (rest.length + 1 ≥ avlMaxheight ∧ s.deref (.right b.addr) ≠ none) := room hlen hr (by omega)
    by_cases hab : b.addr = a.addr
    · obtain rfl : a = b := by
        rw [toList_node, List.mem_append, List.mem_cons] at ha
        rcases ha with ha | ha | ha
        · exact absurd hab.symm (hlb a ha)
        · exact ha
        · exact absurd hab.symm (hrb a ha)
      refine ⟨[], l, h, r, rfl, 1, by omega, ?_⟩
      intro k
      rw [search_found hc.deref, hrest]
      rfl
    -- the way goes on to the left or to the right
    have hgo : ∀ {gs : List (AvlFrame AvlEntry)} {f : AvlFrame AvlEntry},
        gs ++ f :: fs = gs ++ [f] ++ fs := fun {gs f} => by rw [List.append_assoc, List.singleton_append]
    have hmem : a ∈ l.toList ∨ a ∈ r.toList := by
      rw [toList_node, List.mem_append, List.mem_cons] at ha
      rcases ha with ha | rfl | ha
      · exact Or.inl ha
      · exact absurd rfl hab
      · exact Or.inr ha
    rcases lt_trichotomy (s.node a.addr).avlKey (s.node b.addr).avlKey with hlt | heq | hgt
    · have hal : a ∈ l.toList := by
        apply hmem.resolve_right
        intro har
        have := hge a har
        omega
      obtain ⟨gs, l', h', r', hplug, c, hcb, hstep⟩ := ihl ((placeOf fs, .oneSide) :: rest) hl hleft
        (by simp [hrest, stackOf]) (by simp only [List.length_cons]; omega) hndl hsl hal
      refine ⟨gs ++ [⟨true, b, h, r⟩], l', h', r', ?_, c + 1, by omega, ?_⟩
      · rw [plugAll_append, hplug]
        rfl
      · intro k
        rw [show k + (c + 1) = k + c + 1 by omega, search_left hc.deref hab hlt hroom, ← hgo]
        exact hstep k
    · by_cases hal : a ∈ l.toList
      · obtain ⟨gs, l', h', r', hplug, c, hcb, hstep⟩ := ihl ((placeOf fs, .equalLeft) :: rest) hl hleft
          (by simp [hrest, stackOf]) (by simp only [List.length_cons]; omega) hndl hsl hal
        refine ⟨gs ++ [⟨true, b, h, r⟩], l', h', r', ?_, c + 1, by omega, ?_⟩
        · rw [plugAll_append, hplug]
          rfl
        · intro k
          rw [show k + (c + 1) = k + c + 1 by omega, search_equal hc.deref hab heq hroom, ← hgo]
          exact hstep k
      · have har := hmem.resolve_left hal
        obtain ⟨cl, hcl, hsearch⟩ := search_absent ((placeOf fs, .equalLeft) :: rest) hl hleft (by simp [hlen])
          (by simp only [List.length_cons]; omega) fun e he => hdisj e he a har
        obtain ⟨gs, l', h', r', hplug, c, hcb, hstep⟩ := ihr ((placeOf fs, .equalRight) :: rest) hr hright
          (by simp [hrest, stackOf]) (by simp only [List.length_cons]; omega) hndr hsr har
        refine ⟨gs ++ [⟨false, b, h, l⟩], l', h', r', ?_, cl + c + 2, by omega, ?_⟩
        · rw [plugAll_append, hplug]
          rfl
        · intro k
          rw [show k + (cl + c + 2) = k + c + 1 + cl + 1 by omega, search_equal hc.deref hab heq hroom]
          refine (hsearch (k + c + 1)).trans ?_
          rw [search_across hc.deref hroom', ← hgo]
          exact hstep k
    · have har : a ∈ r.toList := by
        apply hmem.resolve_left
        intro hal
        have := hle a hal
        omega
      obtain ⟨gs, l', h', r', hplug, c, hcb, hstep⟩ := ihr ((placeOf fs, .oneSide) :: rest) hr hright
        (by simp [hrest, stackOf]) (by simp only [List.length_cons]; omega) hndr hsr har
      refine ⟨gs ++ [⟨false, b, h, l⟩], l', h', r', ?_, c + 1, by omega, ?_⟩
      · rw [plugAll_append, hplug]
        rfl
      · intro k
        rw [show k + (c + 1) = k + c + 1 by omega, search_right hc.deref hab hgt hroom', ← hgo]
        exact hstep k

end Search

theorem size_lt_pow (t : AvlTree AvlEntry) : t.toList.length < 2 ^ t.depth := by
  induction t with
  | nil => simp [depth]
  | node l a h r ihl ihr =>
    have hl : 2 ^ l.depth ≤ 2 ^ max l.depth r.depth := Nat.pow_le_pow_right (by decide) (le_max_left _ _)
    have hr : 2 ^ r.depth ≤ 2 ^ max l.depth r.depth := Nat.pow_le_pow_right (by decide) (le_max_right _ _)
    simp only [toList_node, List.length_append, List.length_cons, depth, pow_succ]
    omega

theorem search_bound (hdepth : t.depth < avlMaxheight) : 4 * t.toList.length + 1 < loopBound := by
  have hsize := size_lt_pow t
  have hpow : 2 ^ t.depth ≤ 2 ^ avlMaxheight := Nat.pow_le_pow_right (by decide) hdepth.le
  unfold avlMaxheight at hpow
  unfold loopBound
  omega

theorem find_absent (hh : s.Holds t) (hdepth : t.depth < avlMaxheight) (hno : ∀ e ∈ t.toList, e.addr ≠ n) :
    s.lwpAvlFindNodeplace n = some none := by
  have hroot : RepCtx s.node s.tree [] s.tree := rfl
  obtain ⟨c, hc, hstep⟩ := search_absent [] hh.1 hroot rfl (by simp only [List.length_nil]; omega) hno
  have hbound := search_bound hdepth
  obtain ⟨k, hk⟩ : ∃ k, loopBound = k + 1 + c := ⟨loopBound - c - 1, by omega⟩
  unfold lwpAvlFindNodeplace
  rw [hk]
  exact hstep (k + 1)

theorem find_present {a : AvlEntry} (hh : s.Holds t) (hdepth : t.depth < avlMaxheight) (hs : Sorted t.toList)
    (ha : a ∈ t.toList) : ∃ fs l h r, plugAll fs (.node l a h r) = t ∧
      s.lwpAvlFindNodeplace a.addr = some (some (placeOf fs :: stackOf fs).reverse) := by
  have hroot : RepCtx s.node s.tree [] s.tree := rfl
  obtain ⟨gs, l, h, r, hplug, c, hc, hstep⟩ := search_present [] hh.1 hroot rfl
    (by simp only [List.length_nil]; omega) hh.2 hs ha
  have hbound := search_bound hdepth
  rw [List.append_nil] at hstep
  refine ⟨gs, l, h, r, hplug, ?_⟩
  have hfuel := hstep (loopBound - c)
  rw [Nat.sub_add_cancel (hc.trans hbound.le)] at hfuel
  exact hfuel

theorem lastLoop_spec (fuel : ℕ) (ht : Rep s.node q t) (hc : RepCtx s.node s.tree fs q) (hq : q ≠ none)
    (hdepth : fs.length + t.depth ≤ avlMaxheight) (hfuel : t.depth < fuel + 1) :
    ∃ gs l m h, plugAll gs (.node l m h .nil) = t ∧ AvlFrame.after gs = [] ∧
      s.lastLoop fuel (placeOf fs) (stackOf fs).reverse =
        some (m.addr, placeOf (gs ++ fs), (stackOf (gs ++ fs)).reverse) := by
  induction t generalizing q fs fuel with
  | nil => exact absurd ht hq
  | node l a h r ihl ihr =>
    obtain ⟨hdl, hdr⟩ := depth_node l a h r
    obtain ⟨fuel, rfl⟩ : ∃ k, fuel = k + 1 := ⟨fuel - 1, by omega⟩
    obtain ⟨-, hright⟩ := hc.down ht
    obtain ⟨rfl, hh, hk, hl, hr⟩ := ht
    rw [lastLoop, hc.deref]
    dsimp only
    split
    case isTrue hnil =>
      rw [hnil] at hr
      cases r with
      | nil => exact ⟨[], l, a, h, rfl, rfl, rfl⟩
      | node => exact absurd hr.1 (by simp)
    case isFalse hne =>
      rw [if_pos (by rw [List.length_reverse, length_stackOf]; omega)]
      obtain ⟨gs, l', m, h', hplug, hafter, hloop⟩ := ihr fuel hr hright hne
        (by simp only [List.length_cons]; omega) (by omega)
      refine ⟨gs ++ [⟨false, a, h, l⟩], l', m, h', ?_, ?_, ?_⟩
      · rw [plugAll_append, hplug]
        rfl
      · rw [after_append, hafter]
        rfl
      · rw [stack_push ⟨false, a, h, l⟩ fs, List.append_assoc]
        exact hloop

theorem stack_patch (gs fs : List (AvlFrame AvlEntry)) (f g : AvlFrame AvlEntry) :
    ((stackOf (gs ++ f :: fs)).reverse.set (fs.length + 1) (placeOf (g :: fs))).reverse = stackOf (gs ++ g :: fs) := by
  induction gs with
  | nil =>
    have hlen : (stackOf (f :: fs)).reverse.length = fs.length + 1 := by simp
    rw [List.nil_append, List.nil_append, List.set_eq_of_length_le hlen.le, List.reverse_reverse]
    rfl
  | cons d gs ih =>
    rw [List.cons_append, List.cons_append, stackOf, stackOf, List.reverse_cons]
    cases gs with
    | nil =>
      have hlen : (stackOf (f :: fs)).reverse.length = fs.length + 1 := by simp
      rw [List.nil_append, List.nil_append, List.set_append_right _ _ hlen.le, hlen, Nat.sub_self]
      simp [stackOf]
    | cons d' gs =>
      have hlt : fs.length + 1 < (stackOf ((d' :: gs) ++ f :: fs)).reverse.length := by
        simp
      rw [List.set_append_left _ _ hlt, List.reverse_append, ih]
      rfl

theorem nodup_of_sublist {x y : List AvlEntry} (h : x.Sublist y) (hd : (addrs y).Nodup) : (addrs x).Nodup :=
  (h.map _).nodup hd

theorem Holds.exchange {a m : AvlEntry} {k : ℕ} (hh : s.Holds (plugAll (gs ++ ⟨true, a, h, r⟩ :: fs) (.node l m k .nil)))
    {s1 s2 s3 s4 : AvlHeap} (h1 : s1 = s.assign (placeOf (gs ++ ⟨true, a, h, r⟩ :: fs)) (s.node m.addr).avlLeft)
    (h2 : s2 = s1.assign (.left m.addr) (s1.node a.addr).avlLeft)
    (h3 : s3 = s2.assign (.right m.addr) (s2.node a.addr).avlRight)
    (h4 : s4 = s3.setHeight m.addr (s3.node a.addr).avlHeight) :
    (s4.assign (placeOf fs) (some m.addr)).Holds (plugAll (gs ++ ⟨true, m, h, r⟩ :: fs) l) := by
  obtain ⟨hrep, hd⟩ := hh
  obtain ⟨q, hq, hctx⟩ := rep_plugAll.mp hrep
  obtain ⟨rfl, -, hkm, hl, -⟩ := hq
  -- the node `m` leaves its place
  have hd1 : (addrs (plugAll (gs ++ ⟨true, a, h, r⟩ :: fs) l).toList).Nodup := by
    apply nodup_of_sublist _ hd
    rw [toList_plugAll, toList_plugAll]
    simp
  have hout : ∀ e ∈ (plugAll (gs ++ ⟨true, a, h, r⟩ :: fs) l).toList, e.addr ≠ m.addr := by
    obtain ⟨hdn, -, hdisj⟩ := nodup_plugAll.mp hd
    intro e he
    rw [(perm_plugAll _ _).mem_iff, List.mem_append] at he
    rcases he with he | he
    · exact (nodup_node.mp hdn).2.2.1 e he
    · exact (hdisj m (by simp) e he).symm
  have hs1 : s1.Holds (plugAll (gs ++ ⟨true, a, h, r⟩ :: fs) l) := by
    rw [h1]
    exact hctx.replace hl hd1
  have hkm1 : (s1.node m.addr).avlKey = m.key := by
    rw [h1, assign_of_not_mem]
    · exact hkm
    · intro e he
      exact (hout e ((perm_plugAll _ _).mem_iff.mpr (List.mem_append_right _ he))).symm
  have htree : plugAll (gs ++ ⟨true, a, h, r⟩ :: fs) l = plugAll fs (.node (plugAll gs l) a h r) := by
    rw [plugAll_append]
    rfl
  rw [htree] at hs1 hout
  obtain ⟨q, hq, hctx1⟩ := rep_plugAll.mp hs1.1
  obtain ⟨rfl, hha, -, hpl, hpr⟩ := hq
  have ham : a.addr ≠ m.addr := hout a ((perm_plugAll _ _).mem_iff.mpr (by simp))
  -- it takes the links and the height of `a`
  have hm4 : s4.node m.addr =
      ⟨(s1.node a.addr).avlLeft, (s1.node a.addr).avlRight, (s1.node a.addr).avlHeight, (s1.node m.addr).avlKey⟩ := by
    rw [h4, h3, h2]
    simp [AvlHeap.assign, setHeight, setNode, ham]
  have hother : ∀ n, n ≠ m.addr → s4.node n = s1.node n := by
    intro n hn
    rw [h4, h3, h2]
    simp [AvlHeap.assign, setHeight, setNode, hn]
  have hlist : ∀ e ∈ (plugAll gs l).toList ++ (r.toList ++ ctxList fs), s4.node e.addr = s1.node e.addr := by
    intro e he
    apply hother
    apply hout
    rw [(perm_plugAll _ _).mem_iff]
    simp only [List.mem_append, toList_node, List.mem_cons] at he ⊢
    tauto
  have hctx4 : RepCtx s4.node s4.tree fs (some a.addr) := by
    have htree4 : s4.tree = s1.tree := by rw [h4, h3, h2]; rfl
    rw [htree4]
    exact hctx1.congr fun e he => hlist e (by simp [he])
  have hm : Rep s4.node (some m.addr) (.node (plugAll gs l) m h r) := by
    refine ⟨rfl, ?_, ?_, ?_, ?_⟩ <;> rw [hm4]
    · exact hha
    · exact hkm1
    · exact hpl.congr fun e he => hlist e (by simp [he])
    · exact hpr.congr fun e he => hlist e (by simp [he])
  have hnew : plugAll (gs ++ ⟨true, m, h, r⟩ :: fs) l = plugAll fs (.node (plugAll gs l) m h r) := by
    rw [plugAll_append]
    rfl
  rw [hnew]
  apply hctx4.replace hm
  obtain ⟨hn, hcx, hdisj⟩ := nodup_plugAll.mp hs1.2
  refine nodup_plugAll.mpr ⟨?_, hcx, ?_⟩
  · rw [addrs, toList_node, (List.perm_middle.map _).nodup_iff, List.map_cons, List.nodup_cons]
    refine ⟨?_, nodup_of_sublist (by simp) hn⟩
    intro hmem
    obtain ⟨e, he, heq⟩ := List.mem_map.mp hmem
    refine hout e ((perm_plugAll _ _).mem_iff.mpr (List.mem_append_left _ ?_)) heq
    simp only [toList_node, List.mem_append, List.mem_cons] at he ⊢
    tauto
  · intro e he x hx
    rw [toList_node, List.mem_append, List.mem_cons] at he
    rcases he with he | rfl | he
    · exact hdisj e (by simp [he]) x hx
    · exact (hout x ((perm_plugAll _ _).mem_iff.mpr (List.mem_append_right _ hx))).symm
    · exact hdisj e (by simp [he]) x hx

theorem ctxOk_congr {n : ℕ} {a m : AvlEntry} (hc : AvlTree.CtxOk n (gs ++ ⟨true, a, h, r⟩ :: fs)) :
    AvlTree.CtxOk n (gs ++ ⟨true, m, h, r⟩ :: fs) := by
  induction gs generalizing n with
  | nil => exact hc
  | cons g gs ih =>
    obtain ⟨h1, h2, h3, h4, hrest⟩ := hc
    exact ⟨h1, h2, h3, h4, ih hrest⟩

theorem length_add_depth_le (fs : List (AvlFrame AvlEntry)) (t : AvlTree AvlEntry) :
    fs.length + t.depth ≤ (plugAll fs t).depth := by
  induction fs generalizing t with
  | nil => simp [plugAll]
  | cons f fs ih =>
    have hplug : t.depth + 1 ≤ (f.plug t).depth := by
      unfold AvlFrame.plug
      split <;> simp only [depth] <;> omega
    have := ih (f.plug t)
    rw [plugAll, List.length_cons]
    omega

theorem lwpAvlRemove_spec {a : AvlEntry} (hh : s.Holds t) (hok : t.Ok) (hs : Sorted t.toList)
    (hdepth : t.depth < avlMaxheight) (ha : a ∈ t.toList) :
    ∃ s' t', s.lwpAvlRemove a.addr = some s' ∧ s'.Holds t' ∧ t'.Ok ∧ ∃ x y, t.toList = x ++ a :: y ∧
      t'.toList = x ++ y := by
  obtain ⟨fs, l, h, r, rfl, hfind⟩ := find_present hh hdepth hs ha
  obtain ⟨q, hq, hctx⟩ := rep_plugAll.mp hh.1
  obtain ⟨hnodeok, hctxok⟩ := ok_plugAll.mp hok
  obtain ⟨rfl, hha, hka, hl, hr⟩ := id hq
  obtain ⟨hlok, hrok, hhh, hb1, hb2⟩ := id hnodeok
  have hlast : ((placeOf fs :: stackOf fs).reverse).getLast? = some (placeOf fs) := by simp
  unfold lwpAvlRemove
  rw [hfind]
  dsimp only
  rw [hlast]
  dsimp only
  rw [hctx.deref]
  dsimp only
  split
  case isTrue hnil =>
    obtain rfl : l = .nil := by
      rw [hnil] at hl
      cases l with
      | nil => rfl
      | node => exact absurd hl.1 (by simp)
    have hlist : (plugAll fs r).toList = AvlFrame.before fs ++ (r.toList ++ AvlFrame.after fs) := by
      rw [toList_plugAll, List.append_assoc]
    have hlist0 : (plugAll fs (.node .nil a h r)).toList = AvlFrame.before fs ++ a :: (r.toList ++ AvlFrame.after fs) := by
      rw [toList_plugAll]
      simp
    have hd : (addrs (plugAll fs r).toList).Nodup := by
      apply nodup_of_sublist _ hh.2
      rw [hlist, hlist0]
      simp
    obtain ⟨s', hreb, hholds⟩ := lwpAvlRebalance_spec (hctx.replace hr hd)
    refine ⟨s', _, ?_, hholds, ?_, _, _, hlist0, ?_⟩
    · rw [List.reverse_cons, List.dropLast_concat, List.reverse_reverse]
      exact hreb
    · simp only [AvlTree.height_nil] at hhh
      apply ascend_ok hrok hctxok <;> simp only [AvlTree.height_node] <;> omega
    · rw [toList_ascend, hlist]
  case isFalse hne =>
    obtain ⟨hleft, -⟩ := hctx.down hq
    have hdn := length_add_depth_le fs (.node l a h r)
    obtain ⟨hdl, -⟩ := depth_node l a h r
    obtain ⟨gs, l', m, k, rfl, hafter, hloop⟩ := lastLoop_spec (avlMaxheight + 1) hl hleft hne
      (by simp only [List.length_cons]; omega) (by omega)
    have hwhole : plugAll fs (.node (plugAll gs (.node l' m k .nil)) a h r) =
        plugAll (gs ++ ⟨true, a, h, r⟩ :: fs) (.node l' m k .nil) := by
      rw [plugAll_append]
      rfl
    rw [hwhole] at hh hok ⊢
    obtain ⟨⟨hlok', -, hk, -, -⟩, hctxok'⟩ := ok_plugAll.mp hok
    have hloop' : s.lastLoop (avlMaxheight + 1) (.left a.addr) (placeOf fs :: stackOf fs).reverse =
        some (m.addr, placeOf (gs ++ ⟨true, a, h, r⟩ :: fs), (stackOf (gs ++ ⟨true, a, h, r⟩ :: fs)).reverse) := hloop
    have hlen : (placeOf fs :: stackOf fs).reverse.length = fs.length + 1 := by simp
    rw [hloop']
    dsimp only
    rw [hlen, if_pos (by omega)]
    obtain ⟨s', hreb, hholds⟩ := lwpAvlRebalance_spec (hh.exchange rfl rfl rfl rfl)
    refine ⟨s', _, ?_, hholds, ?_, ?_⟩
    · have hpatch := stack_patch gs fs ⟨true, a, h, r⟩ ⟨true, m, h, r⟩
      have hplace : placeOf (⟨true, m, h, r⟩ :: fs) = .left m.addr := rfl
      rw [hplace] at hpatch
      rw [hpatch]
      exact hreb
    · simp only [AvlTree.height_node, AvlTree.height_nil] at hk hctxok'
      apply ascend_ok hlok' (ctxOk_congr hctxok') <;> omega
    · refine ⟨AvlFrame.before fs ++ (AvlFrame.before gs ++ (l'.toList ++ [m])), r.toList ++ AvlFrame.after fs, ?_, ?_⟩
      · rw [toList_plugAll, before_append, after_append, hafter]
        simp [AvlFrame.before, AvlFrame.after]
      · rw [toList_ascend, toList_plugAll, before_append, after_append, hafter]
        simp [AvlFrame.before, AvlFrame.after]

theorem lwpAvlRemove_absent (hh : s.Holds t) (hdepth : t.depth < avlMaxheight) (hno : ∀ e ∈ t.toList, e.addr ≠ n) :
    s.lwpAvlRemove n = some s := by
  unfold lwpAvlRemove
  rw [find_absent hh hdepth hno]

theorem findLoop_spec (key fuel : ℕ) (ht : Rep s.node q t) (hs : Sorted t.toList) (hfuel : t.depth < fuel) :
    ∃ res, s.findLoop key fuel q = some res ∧ (∀ n, res = some n → ⟨n, key⟩ ∈ t.toList) ∧
      (res = none → ∀ e ∈ t.toList, e.key ≠ key) := by
  induction t generalizing q fuel with
  | nil =>
    obtain rfl : q = none := ht
    obtain ⟨fuel, rfl⟩ : ∃ k, fuel = k + 1 := ⟨fuel - 1, by omega⟩
    exact ⟨none, rfl, by simp, by simp⟩
  | node l a h r ihl ihr =>
    obtain ⟨hdl, hdr⟩ := depth_node l a h r
    obtain ⟨fuel, rfl⟩ : ∃ k, fuel = k + 1 := ⟨fuel - 1, by omega⟩
    obtain ⟨hsl, hsr, hle, hge⟩ := sorted_node hs
    obtain ⟨rfl, hh, hk, hl, hr⟩ := ht
    rw [findLoop, hk]
    split
    case isTrue heq =>
      refine ⟨some a.addr, rfl, ?_, by simp⟩
      intro n hn
      obtain rfl : a.addr = n := Option.some.inj hn
      rw [heq]
      simp
    case isFalse hne =>
      split
      case isTrue hlt =>
        obtain ⟨res, hres, hsome, hnone⟩ := ihl fuel hl hsl (by omega)
        refine ⟨res, hres, fun n hn => by simp [hsome n hn], ?_⟩
        intro hr e he
        rw [toList_node, List.mem_append, List.mem_cons] at he
        rcases he with he | rfl | he
        · exact hnone hr e he
        · exact fun heq => hne heq.symm
        · have := hge e he
          omega
      case isFalse hge' =>
        obtain ⟨res, hres, hsome, hnone⟩ := ihr fuel hr hsr (by omega)
        refine ⟨res, hres, fun n hn => by simp [hsome n hn], ?_⟩
        intro hr e he
        rw [toList_node, List.mem_append, List.mem_cons] at he
        rcases he with he | rfl | he
        · have := hle e he
          omega
        · exact fun heq => hne heq.symm
        · exact hnone hr e he

end AvlHeap

end RtSmart
