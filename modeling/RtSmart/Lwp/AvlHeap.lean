import RtSmart.Lwp.Avl
import RtSmart.Lib.AvlTree

/-!
The tree that the nodes in memory form, with the places of its nodes as ways through it, and what the
rotations make of it.
-/

namespace RtSmart

open Lib

structure AvlEntry where
  addr : ℕ
  key : ℕ
  deriving DecidableEq, Repr

namespace AvlHeap

variable {node node' : ℕ → LwpAvlStruct} {s s' : AvlHeap} {p q : Option ℕ} {t : AvlTree AvlEntry}
  {f : AvlFrame AvlEntry} {fs : List (AvlFrame AvlEntry)}

/-- The pointer `p` leads to the tree `t`. -/
def Rep (node : ℕ → LwpAvlStruct) : Option ℕ → AvlTree AvlEntry → Prop
  | p, .nil => p = none
  | p, .node l a h r => p = some a.addr ∧ (node a.addr).avlHeight = h ∧ (node a.addr).avlKey = a.key ∧
    Rep node (node a.addr).avlLeft l ∧ Rep node (node a.addr).avlRight r

def child (node : ℕ → LwpAvlStruct) (n : ℕ) (left : Bool) : Option ℕ :=
  if left then (node n).avlLeft else (node n).avlRight

/-- The way from the root leads through the frames to the pointer `q`. -/
def RepCtx (node : ℕ → LwpAvlStruct) (tree : Option ℕ) : List (AvlFrame AvlEntry) → Option ℕ → Prop
  | [], q => tree = q
  | f :: fs, q => child node f.a.addr f.left = q ∧ Rep node (child node f.a.addr (!f.left)) f.sibling ∧
    (node f.a.addr).avlHeight = f.h ∧ (node f.a.addr).avlKey = f.a.key ∧ RepCtx node tree fs (some f.a.addr)

def addrs (l : List AvlEntry) : List ℕ := l.map AvlEntry.addr

def ctxList (fs : List (AvlFrame AvlEntry)) : List AvlEntry := AvlFrame.before fs ++ AvlFrame.after fs

def Holds (s : AvlHeap) (t : AvlTree AvlEntry) : Prop := Rep s.node s.tree t ∧ (addrs t.toList).Nodup

theorem perm_plugAll (fs : List (AvlFrame AvlEntry)) (t : AvlTree AvlEntry) :
    (AvlTree.plugAll fs t).toList.Perm (t.toList ++ ctxList fs) := by
  rw [AvlTree.toList_plugAll, ctxList, ← List.append_assoc]
  exact List.perm_append_comm.append_right _

theorem ctxList_cons_perm (f : AvlFrame AvlEntry) (fs : List (AvlFrame AvlEntry)) :
    (ctxList (f :: fs)).Perm (f.a :: f.sibling.toList ++ ctxList fs) := by
  rw [List.perm_iff_count]
  intro e
  rw [ctxList, ctxList, AvlFrame.before, AvlFrame.after]
  cases f.left <;> simp only [List.count_append, List.count_cons, List.count_nil, if_true, Bool.false_eq_true, if_false,
    List.cons_append] <;> omega

theorem mem_ctxList_cons {e : AvlEntry} : e ∈ ctxList (f :: fs) ↔ e = f.a ∨ e ∈ f.sibling.toList ∨ e ∈ ctxList fs := by
  rw [(ctxList_cons_perm f fs).mem_iff]
  simp

theorem nodup_plugAll : (addrs (AvlTree.plugAll fs t).toList).Nodup ↔
    (addrs t.toList).Nodup ∧ (addrs (ctxList fs)).Nodup ∧ ∀ e ∈ t.toList, ∀ x ∈ ctxList fs, e.addr ≠ x.addr := by
  rw [addrs, ((perm_plugAll fs t).map _).nodup_iff, List.map_append, List.nodup_append]
  simp only [addrs, List.mem_map, forall_exists_index, and_imp, forall_apply_eq_imp_iff₂]

theorem nodup_node {l r : AvlTree AvlEntry} {a : AvlEntry} {h : ℕ} :
    (addrs (AvlTree.node l a h r).toList).Nodup ↔ (addrs l.toList).Nodup ∧ (addrs r.toList).Nodup ∧
      (∀ d ∈ l.toList, d.addr ≠ a.addr) ∧ (∀ e ∈ r.toList, e.addr ≠ a.addr) ∧
      ∀ d ∈ l.toList, ∀ e ∈ r.toList, d.addr ≠ e.addr := by
  rw [addrs, AvlTree.toList_node, List.map_append, List.nodup_append, List.map_cons, List.nodup_cons]
  simp only [addrs, List.mem_map, List.mem_cons, forall_exists_index, and_imp, forall_apply_eq_imp_iff₂,
    forall_eq_or_imp, not_exists, not_and, forall_and]
  tauto

theorem Rep.congr (h : Rep node p t) (hn : ∀ e ∈ t.toList, node' e.addr = node e.addr) : Rep node' p t := by
  induction t generalizing p with
  | nil => exact h
  | node l a k r ihl ihr =>
    obtain ⟨hp, hk, hkey, hl, hr⟩ := h
    have ha := hn a (by simp)
    refine ⟨hp, by rw [ha]; exact hk, by rw [ha]; exact hkey, ?_, ?_⟩
    · rw [ha]
      apply ihl hl
      intro e he
      exact hn e (by simp [he])
    · rw [ha]
      apply ihr hr
      intro e he
      exact hn e (by simp [he])

theorem RepCtx.congr {tree : Option ℕ} (h : RepCtx node tree fs q)
    (hn : ∀ e ∈ ctxList fs, node' e.addr = node e.addr) : RepCtx node' tree fs q := by
  induction fs generalizing q with
  | nil => exact h
  | cons f fs ih =>
    obtain ⟨hq, hs, hh, hk, hc⟩ := h
    have ha := hn f.a (mem_ctxList_cons.mpr (Or.inl rfl))
    unfold RepCtx child
    rw [ha]
    refine ⟨hq, ?_, hh, hk, ?_⟩
    · apply hs.congr
      intro e he
      exact hn e (mem_ctxList_cons.mpr (Or.inr (Or.inl he)))
    · apply ih hc
      intro e he
      exact hn e (mem_ctxList_cons.mpr (Or.inr (Or.inr he)))

theorem rep_plug : Rep node p (f.plug t) ↔ p = some f.a.addr ∧ (node f.a.addr).avlHeight = f.h ∧
    (node f.a.addr).avlKey = f.a.key ∧ Rep node (child node f.a.addr f.left) t ∧
    Rep node (child node f.a.addr (!f.left)) f.sibling := by
  unfold AvlFrame.plug child
  cases f.left with
  | true => exact Iff.rfl
  | false =>
    simp only [Bool.false_eq_true, if_false, Bool.not_false, if_true, Rep]
    tauto

theorem rep_plugAll {tree : Option ℕ} :
    Rep node tree (AvlTree.plugAll fs t) ↔ ∃ q, Rep node q t ∧ RepCtx node tree fs q := by
  induction fs generalizing t with
  | nil => simp [AvlTree.plugAll, RepCtx]
  | cons f fs ih =>
    rw [AvlTree.plugAll, ih]
    constructor
    · rintro ⟨q, hq, hc⟩
      obtain ⟨rfl, hh, hk, ht, hs⟩ := rep_plug.mp hq
      exact ⟨_, ht, rfl, hs, hh, hk, hc⟩
    · rintro ⟨q, hq, rfl, hs, hh, hk, hc⟩
      exact ⟨some f.a.addr, rep_plug.mpr ⟨rfl, hh, hk, hq, hs⟩, hc⟩

def placeOf : List (AvlFrame AvlEntry) → Nodeplace
  | [] => .ptree
  | f :: _ => if f.left then .left f.a.addr else .right f.a.addr

theorem RepCtx.deref (h : RepCtx s.node s.tree fs q) : s.deref (placeOf fs) = q := by
  cases fs with
  | nil => exact h
  | cons f fs =>
    obtain ⟨hq, -⟩ := h
    unfold child at hq
    dsimp only [placeOf]
    split at hq
    case isTrue hl => rw [if_pos hl]; exact hq
    case isFalse hl => rw [if_neg hl]; exact hq

theorem Rep.heightof (h : Rep s.node p t) : s.heightof p = t.height := by
  cases t with
  | nil =>
    rw [show p = none from h]
    rfl
  | node l a k r =>
    obtain ⟨rfl, hk, -⟩ := h
    exact hk

theorem setNode_of_ne (s : AvlHeap) {n m : ℕ} (x : LwpAvlStruct) (h : m ≠ n) : (s.setNode n x).node m = s.node m :=
  Function.update_of_ne h _ _

theorem assign_of_not_mem (s : AvlHeap) (v : Option ℕ) {n : ℕ} (hn : ∀ e ∈ ctxList fs, n ≠ e.addr) :
    (s.assign (placeOf fs) v).node n = s.node n := by
  cases fs with
  | nil => rfl
  | cons f fs =>
    have ha := hn f.a (mem_ctxList_cons.mpr (Or.inl rfl))
    dsimp only [placeOf]
    split <;> exact setNode_of_ne s _ ha

theorem assign_tree_cons (s : AvlHeap) (v : Option ℕ) : (s.assign (placeOf (f :: fs)) v).tree = s.tree := by
  dsimp only [placeOf]
  split <;> rfl

theorem ctx_nodup_cons (h : (addrs (ctxList (f :: fs))).Nodup) : (addrs (ctxList fs)).Nodup ∧
    (∀ e ∈ f.sibling.toList, e.addr ≠ f.a.addr) ∧ ∀ e ∈ ctxList fs, e.addr ≠ f.a.addr := by
  rw [addrs, ((ctxList_cons_perm f fs).map _).nodup_iff, List.cons_append, List.map_cons, List.nodup_cons,
    List.map_append, List.nodup_append] at h
  obtain ⟨hnot, -, hfs, -⟩ := h
  refine ⟨hfs, ?_, ?_⟩
  · intro e he heq
    exact hnot (heq ▸ List.mem_append_left _ (List.mem_map_of_mem he))
  · intro e he heq
    exact hnot (heq ▸ List.mem_append_right _ (List.mem_map_of_mem he))

theorem RepCtx.assign (h : RepCtx s.node s.tree fs q) (hd : (addrs (ctxList fs)).Nodup) (v : Option ℕ) :
    RepCtx (s.assign (placeOf fs) v).node (s.assign (placeOf fs) v).tree fs v := by
  cases fs with
  | nil => rfl
  | cons f fs =>
    obtain ⟨hq, hs, hh, hk, hc⟩ := h
    obtain ⟨-, hsib, hrest⟩ := ctx_nodup_cons hd
    rw [assign_tree_cons]
    have hother : ∀ n, n ≠ f.a.addr → (s.assign (placeOf (f :: fs)) v).node n = s.node n := by
      intro n hn
      dsimp only [placeOf]
      split <;> exact setNode_of_ne s _ hn
    have hself : child (s.assign (placeOf (f :: fs)) v).node f.a.addr f.left = v ∧
        child (s.assign (placeOf (f :: fs)) v).node f.a.addr (!f.left) = child s.node f.a.addr (!f.left) ∧
        ((s.assign (placeOf (f :: fs)) v).node f.a.addr).avlHeight = (s.node f.a.addr).avlHeight ∧
        ((s.assign (placeOf (f :: fs)) v).node f.a.addr).avlKey = (s.node f.a.addr).avlKey := by
      dsimp only [placeOf]
      cases f.left <;> simp [child, AvlHeap.assign, setNode]
    obtain ⟨h1, h2, h3, h4⟩ := hself
    refine ⟨h1, ?_, h3.trans hh, h4.trans hk, ?_⟩
    · rw [h2]
      exact hs.congr fun e he => hother _ (hsib e he)
    · exact hc.congr fun e he => hother _ (hrest e he)

theorem RepCtx.replace (h : RepCtx s.node s.tree fs q) (ht : Rep s.node p t)
    (hd : (addrs (AvlTree.plugAll fs t).toList).Nodup) : (s.assign (placeOf fs) p).Holds (AvlTree.plugAll fs t) := by
  refine ⟨?_, hd⟩
  obtain ⟨-, hctx, hdisj⟩ := nodup_plugAll.mp hd
  refine rep_plugAll.mpr ⟨p, ?_, h.assign hctx p⟩
  apply ht.congr
  intro e he
  exact assign_of_not_mem s p fun x hx => hdisj e he x hx

theorem Rep.rotateRight {ll lr r : AvlTree AvlEntry} {a b : AvlEntry} {hl h h1 h2 : ℕ}
    (hrep : Rep s.node (some a.addr) (.node (.node ll b hl lr) a h r))
    (hd : (addrs (AvlTree.node (.node ll b hl lr) a h r).toList).Nodup)
    (ha : s'.node a.addr = { s.node a.addr with avlLeft := (s.node b.addr).avlRight, avlHeight := h1 })
    (hb : s'.node b.addr = { s.node b.addr with avlRight := some a.addr, avlHeight := h2 })
    (hother : ∀ n, n ≠ a.addr → n ≠ b.addr → s'.node n = s.node n) :
    Rep s'.node (some b.addr) (.node ll b h2 (.node lr a h1 r)) := by
  obtain ⟨-, -, hka, ⟨-, -, hkb, hll, hlr⟩, hr⟩ := hrep
  have hsame : ∀ e ∈ ll.toList ++ (lr.toList ++ r.toList), s'.node e.addr = s.node e.addr := by
    intro e he
    simp only [nodup_node] at hd
    simp only [AvlTree.toList_node, List.mem_append, List.mem_cons] at hd he
    apply hother <;> intro heq <;> grind
  refine ⟨rfl, ?_, ?_, ?_, ?_, ?_, ?_, ?_, ?_⟩
  · rw [hb]
  · rw [hb]; exact hkb
  · rw [hb]
    exact hll.congr fun e he => hsame e (by simp [he])
  · rw [hb]
  · rw [ha]
  · rw [ha]; exact hka
  · rw [ha]
    exact hlr.congr fun e he => hsame e (by simp [he])
  · rw [ha]
    exact hr.congr fun e he => hsame e (by simp [he])

theorem Rep.rotateLeft {l rl rr : AvlTree AvlEntry} {a b : AvlEntry} {hr h h1 h2 : ℕ}
    (hrep : Rep s.node (some a.addr) (.node l a h (.node rl b hr rr)))
    (hd : (addrs (AvlTree.node l a h (.node rl b hr rr)).toList).Nodup)
    (ha : s'.node a.addr = { s.node a.addr with avlRight := (s.node b.addr).avlLeft, avlHeight := h1 })
    (hb : s'.node b.addr = { s.node b.addr with avlLeft := some a.addr, avlHeight := h2 })
    (hother : ∀ n, n ≠ a.addr → n ≠ b.addr → s'.node n = s.node n) :
    Rep s'.node (some b.addr) (.node (.node l a h1 rl) b h2 rr) := by
  obtain ⟨-, -, hka, hl, -, -, hkb, hrl, hrr⟩ := hrep
  have hsame : ∀ e ∈ l.toList ++ (rl.toList ++ rr.toList), s'.node e.addr = s.node e.addr := by
    intro e he
    simp only [nodup_node] at hd
    simp only [AvlTree.toList_node, List.mem_append, List.mem_cons] at hd he
    apply hother <;> intro heq <;> grind
  refine ⟨rfl, ?_, ?_, ⟨?_, ?_, ?_, ?_, ?_⟩, ?_⟩
  · rw [hb]
  · rw [hb]; exact hkb
  · rw [hb]
  · rw [ha]
  · rw [ha]; exact hka
  · rw [ha]
    exact hl.congr fun e he => hsame e (by simp [he])
  · rw [ha]
    exact hrl.congr fun e he => hsame e (by simp [he])
  · rw [hb]
    exact hrr.congr fun e he => hsame e (by simp [he])

theorem Rep.rotateLeftRight {ll lrl lrr r : AvlTree AvlEntry} {a b c : AvlEntry} {hl hlr h h1 h2 h3 : ℕ}
    (hrep : Rep s.node (some a.addr) (.node (.node ll b hl (.node lrl c hlr lrr)) a h r))
    (hd : (addrs (AvlTree.node (.node ll b hl (.node lrl c hlr lrr)) a h r).toList).Nodup)
    (ha : s'.node a.addr = { s.node a.addr with avlLeft := (s.node c.addr).avlRight, avlHeight := h1 })
    (hb : s'.node b.addr = { s.node b.addr with avlRight := (s.node c.addr).avlLeft, avlHeight := h2 })
    (hc : s'.node c.addr = ⟨some b.addr, some a.addr, h3, (s.node c.addr).avlKey⟩)
    (hother : ∀ n, n ≠ a.addr → n ≠ b.addr → n ≠ c.addr → s'.node n = s.node n) :
    Rep s'.node (some c.addr) (.node (.node ll b h2 lrl) c h3 (.node lrr a h1 r)) := by
  obtain ⟨-, -, hka, ⟨-, -, hkb, hll, -, -, hkc, hlrl, hlrr⟩, hr⟩ := hrep
  have hsame : ∀ e ∈ ll.toList ++ (lrl.toList ++ (lrr.toList ++ r.toList)), s'.node e.addr = s.node e.addr := by
    intro e he
    simp only [nodup_node] at hd
    simp only [AvlTree.toList_node, List.mem_append, List.mem_cons] at hd he
    apply hother <;> intro heq <;> grind
  refine ⟨rfl, ?_, ?_, ⟨?_, ?_, ?_, ?_, ?_⟩, ?_, ?_, ?_, ?_, ?_⟩
  · rw [hc]
  · rw [hc]; exact hkc
  · rw [hc]
  · rw [hb]
  · rw [hb]; exact hkb
  · rw [hb]
    exact hll.congr fun e he => hsame e (by simp [he])
  · rw [hb]
    exact hlrl.congr fun e he => hsame e (by simp [he])
  · rw [hc]
  · rw [ha]
  · rw [ha]; exact hka
  · rw [ha]
    exact hlrr.congr fun e he => hsame e (by simp [he])
  · rw [ha]
    exact hr.congr fun e he => hsame e (by simp [he])

theorem Rep.rotateRightLeft {l rll rlr rr : AvlTree AvlEntry} {a b c : AvlEntry} {hr hrl h h1 h2 h3 : ℕ}
    (hrep : Rep s.node (some a.addr) (.node l a h (.node (.node rll c hrl rlr) b hr rr)))
    (hd : (addrs (AvlTree.node l a h (.node (.node rll c hrl rlr) b hr rr)).toList).Nodup)
    (ha : s'.node a.addr = { s.node a.addr with avlRight := (s.node c.addr).avlLeft, avlHeight := h1 })
    (hb : s'.node b.addr = { s.node b.addr with avlLeft := (s.node c.addr).avlRight, avlHeight := h2 })
    (hc : s'.node c.addr = ⟨some a.addr, some b.addr, h3, (s.node c.addr).avlKey⟩)
    (hother : ∀ n, n ≠ a.addr → n ≠ b.addr → n ≠ c.addr → s'.node n = s.node n) :
    Rep s'.node (some c.addr) (.node (.node l a h1 rll) c h3 (.node rlr b h2 rr)) := by
  obtain ⟨-, -, hka, hl, -, -, hkb, ⟨-, -, hkc, hrll, hrlr⟩, hrr⟩ := hrep
  have hsame : ∀ e ∈ l.toList ++ (rll.toList ++ (rlr.toList ++ rr.toList)), s'.node e.addr = s.node e.addr := by
    intro e he
    simp only [nodup_node] at hd
    simp only [AvlTree.toList_node, List.mem_append, List.mem_cons] at hd he
    apply hother <;> intro heq <;> grind
  refine ⟨rfl, ?_, ?_, ⟨?_, ?_, ?_, ?_, ?_⟩, ?_, ?_, ?_, ?_, ?_⟩
  · rw [hc]
  · rw [hc]; exact hkc
  · rw [hc]
  · rw [ha]
  · rw [ha]; exact hka
  · rw [ha]
    exact hl.congr fun e he => hsame e (by simp [he])
  · rw [ha]
    exact hrll.congr fun e he => hsame e (by simp [he])
  · rw [hc]
  · rw [hb]
  · rw [hb]; exact hkb
  · rw [hb]
    exact hrlr.congr fun e he => hsame e (by simp [he])
  · rw [hb]
    exact hrr.congr fun e he => hsame e (by simp [he])

theorem nodup_balance (l : AvlTree AvlEntry) (a : AvlEntry) (h : ℕ) (r : AvlTree AvlEntry)
    (hd : (addrs (AvlTree.plugAll fs (.node l a h r)).toList).Nodup) :
    (addrs (AvlTree.plugAll fs (AvlTree.balance l a h r).1).toList).Nodup := by
  rw [AvlTree.toList_plugAll, AvlTree.toList_balance]
  rw [AvlTree.toList_plugAll] at hd
  exact hd

theorem RepCtx.of_below (hc : RepCtx s.node s.tree fs q) (htree : s'.tree = s.tree)
    (hd : (addrs (AvlTree.plugAll fs t).toList).Nodup)
    (hother : ∀ n, (∀ e ∈ t.toList, n ≠ e.addr) → s'.node n = s.node n) : RepCtx s'.node s'.tree fs q := by
  rw [htree]
  apply hc.congr
  intro x hx
  apply hother
  intro e he heq
  exact (nodup_plugAll.mp hd).2.2 e he x hx heq.symm

theorem rebalanceNode_spec {l r : AvlTree AvlEntry} {a : AvlEntry} {h : ℕ} (hc : RepCtx s.node s.tree fs q)
    (ht : Rep s.node q (.node l a h r)) (hd : (addrs (AvlTree.plugAll fs (.node l a h r)).toList).Nodup) :
    ∃ s', s.rebalanceNode (placeOf fs) = some (s', (AvlTree.balance l a h r).2) ∧
      s'.Holds (AvlTree.plugAll fs (AvlTree.balance l a h r).1) := by
  obtain ⟨rfl, hh, -, hl, hr⟩ := id ht
  have hnb := nodup_balance l a h r hd
  have hdn := (nodup_plugAll.mp hd).1
  have hbelow : ∀ s' : AvlHeap, s'.tree = s.tree →
      (∀ n, (∀ e ∈ (AvlTree.node l a h r).toList, n ≠ e.addr) → s'.node n = s.node n) →
      RepCtx s'.node s'.tree fs (some a.addr) := fun s' htree hother => hc.of_below htree hd hother
  unfold rebalanceNode
  rw [hc.deref]
  dsimp only
  rw [hl.heightof, hr.heightof]
  unfold AvlTree.balance at hnb ⊢
  split
  case isTrue hgt =>
    rw [if_pos hgt] at hnb
    cases l with
    | nil => simp at hgt
    | node ll b k lr =>
      obtain ⟨hb, hk, -, hll, hlr⟩ := id hl
      simp only [hb]
      rw [hll.heightof, hlr.heightof]
      have hab : a.addr ≠ b.addr := by
        simp only [nodup_node] at hdn
        simp only [AvlTree.toList_node, List.mem_append, List.mem_cons] at hdn
        grind
      dsimp only at hnb ⊢
      by_cases hge : lr.height ≤ ll.height
      · rw [if_pos hge] at hnb ⊢
        rw [if_pos hge]
        refine ⟨_, rfl, RepCtx.replace (hbelow _ rfl ?_) ?_ hnb⟩
        · intro n hn
          have hna := hn a (by simp)
          have hnb := hn b (by simp)
          simp [AvlHeap.assign, setHeight, setNode, hna, hnb]
        · apply ht.rotateRight hdn
          · simp [AvlHeap.assign, setHeight, setNode, hab, hab.symm]
          · simp [AvlHeap.assign, setHeight, setNode, hab, hab.symm]
          · intro n hna hnb
            simp [AvlHeap.assign, setHeight, setNode, hna, hnb]
      · rw [if_neg hge] at hnb ⊢
        rw [if_neg hge]
        cases lr with
        | nil => simp at hge
        | node lrl c k' lrr =>
          obtain ⟨hcp, hk', -, -, -⟩ := id hlr
          have hac : a.addr ≠ c.addr := by
            simp only [nodup_node] at hdn
            simp only [AvlTree.toList_node, List.mem_append, List.mem_cons] at hdn
            grind
          have hbc : b.addr ≠ c.addr := by
            simp only [nodup_node] at hdn
            simp only [AvlTree.toList_node, List.mem_append, List.mem_cons] at hdn
            grind
          simp only [hcp]
          refine ⟨_, rfl, RepCtx.replace (hbelow _ rfl ?_) ?_ hnb⟩
          · intro n hn
            have hna := hn a (by simp)
            have hnb := hn b (by simp)
            have hnc := hn c (by simp)
            simp [AvlHeap.assign, setHeight, setNode, hna, hnb, hnc]
          · apply ht.rotateLeftRight hdn
            · simp [AvlHeap.assign, setHeight, setNode, hab, hac, hbc, hab.symm, hac.symm, hbc.symm]
            · simp [AvlHeap.assign, setHeight, setNode, hab, hac, hbc, hab.symm, hac.symm, hbc.symm]
            · simp [AvlHeap.assign, setHeight, setNode, hab, hac, hbc, hab.symm, hac.symm, hbc.symm]
            · intro n hna hnb hnc
              simp [AvlHeap.assign, setHeight, setNode, hna, hnb, hnc]
  case isFalse hle =>
    rw [if_neg hle] at hnb
    split
    case isTrue hgt =>
      rw [if_pos hgt] at hnb
      cases r with
      | nil => simp at hgt
      | node rl b k rr =>
        obtain ⟨hb, hk, -, hrl, hrr⟩ := id hr
        simp only [hb]
        rw [hrl.heightof, hrr.heightof]
        have hab : a.addr ≠ b.addr := by
          simp only [nodup_node] at hdn
          simp only [AvlTree.toList_node, List.mem_append, List.mem_cons] at hdn
          grind
        dsimp only at hnb ⊢
        by_cases hge : rl.height ≤ rr.height
        · rw [if_pos hge] at hnb ⊢
          rw [if_pos hge]
          refine ⟨_, rfl, RepCtx.replace (hbelow _ rfl ?_) ?_ hnb⟩
          · intro n hn
            have hna := hn a (by simp)
            have hnb := hn b (by simp)
            simp [AvlHeap.assign, setHeight, setNode, hna, hnb]
          · apply ht.rotateLeft hdn
            · simp [AvlHeap.assign, setHeight, setNode, hab, hab.symm]
            · simp [AvlHeap.assign, setHeight, setNode, hab, hab.symm]
            · intro n hna hnb
              simp [AvlHeap.assign, setHeight, setNode, hna, hnb]
        · rw [if_neg hge] at hnb ⊢
          rw [if_neg hge]
          cases rl with
          | nil => simp at hge
          | node rll c k' rlr =>
            obtain ⟨hcp, hk', -, -, -⟩ := id hrl
            have hac : a.addr ≠ c.addr := by
              simp only [nodup_node] at hdn
              simp only [AvlTree.toList_node, List.mem_append, List.mem_cons] at hdn
              grind
            have hbc : b.addr ≠ c.addr := by
              simp only [nodup_node] at hdn
              simp only [AvlTree.toList_node, List.mem_append, List.mem_cons] at hdn
              grind
            simp only [hcp]
            refine ⟨_, rfl, RepCtx.replace (hbelow _ rfl ?_) ?_ hnb⟩
            · intro n hn
              have hna := hn a (by simp)
              have hnb := hn b (by simp)
              have hnc := hn c (by simp)
              simp [AvlHeap.assign, setHeight, setNode, hna, hnb, hnc]
            · apply ht.rotateRightLeft hdn
              · simp [AvlHeap.assign, setHeight, setNode, hab, hac, hbc, hab.symm, hac.symm, hbc.symm]
              · simp [AvlHeap.assign, setHeight, setNode, hab, hac, hbc, hab.symm, hac.symm, hbc.symm]
              · simp [AvlHeap.assign, setHeight, setNode, hab, hac, hbc, hab.symm, hac.symm, hbc.symm]
              · intro n hna hnb hnc
                simp [AvlHeap.assign, setHeight, setNode, hna, hnb, hnc]
    case isFalse hle' =>
      rw [if_neg hle'] at hnb
      rw [hh]
      dsimp only at hnb ⊢
      generalize (if l.height < r.height then r.height else l.height) + 1 = k at hnb ⊢
      split
      case isTrue hk => exact ⟨s, rfl, rep_plugAll.mpr ⟨_, ht, hc⟩, hd⟩
      case isFalse hk =>
        rw [if_neg hk] at hnb
        refine ⟨_, rfl, ?_, hnb⟩
        have hother : ∀ n, n ≠ a.addr → (s.setHeight a.addr k).node n = s.node n := fun n hn => setNode_of_ne s _ hn
        refine rep_plugAll.mpr ⟨some a.addr, ?_, hbelow _ rfl fun n hn => hother n (hn a (by simp))⟩
        obtain ⟨-, -, hkey, -, -⟩ := ht
        have hself : (s.setHeight a.addr k).node a.addr = { s.node a.addr with avlHeight := k } :=
          Function.update_self _ _ _
        refine ⟨rfl, ?_, ?_, ?_, ?_⟩
        · rw [hself]
        · rw [hself]; exact hkey
        · rw [hself]
          exact hl.congr fun e he => hother _ ((nodup_node.mp hdn).2.2.1 e he)
        · rw [hself]
          exact hr.congr fun e he => hother _ ((nodup_node.mp hdn).2.2.2.1 e he)

def stackOf : List (AvlFrame AvlEntry) → List Nodeplace
  | [] => []
  | _ :: fs => placeOf fs :: stackOf fs

@[simp] theorem length_stackOf (fs : List (AvlFrame AvlEntry)) : (stackOf fs).length = fs.length := by
  induction fs with
  | nil => rfl
  | cons f fs ih => rw [stackOf, List.length_cons, ih, List.length_cons]

theorem lwpAvlRebalance_spec (h : s.Holds (AvlTree.plugAll fs t)) :
    ∃ s', s.lwpAvlRebalance (stackOf fs) = some s' ∧ s'.Holds (AvlTree.ascend fs t) := by
  induction fs generalizing s t with
  | nil => exact ⟨s, rfl, h⟩
  | cons f fs ih =>
    obtain ⟨q, hq, hc⟩ := rep_plugAll.mp h.1
    have hstep : ∃ s', s.rebalanceNode (placeOf fs) = some (s', (f.balance t).2) ∧
        s'.Holds (AvlTree.plugAll fs (f.balance t).1) := by
      have hplug : Rep s.node (some f.a.addr) (f.plug t) := by
        obtain ⟨hq', hs, hh, hk, -⟩ := hc
        rw [← hq'] at hq
        exact rep_plug.mpr ⟨rfl, hh, hk, hq, hs⟩
      have hctx := hc.2.2.2.2
      have hd := h.2
      rw [AvlTree.plugAll] at hd
      unfold AvlFrame.plug at hplug hd
      unfold AvlFrame.balance
      split
      case isTrue hl =>
        rw [if_pos hl] at hplug hd
        exact rebalanceNode_spec hctx hplug hd
      case isFalse hl =>
        rw [if_neg hl] at hplug hd
        exact rebalanceNode_spec hctx hplug hd
    obtain ⟨s', hs', hholds⟩ := hstep
    rw [stackOf, lwpAvlRebalance, hs', AvlTree.ascend]
    cases hb : (f.balance t).2 with
    | true => exact ⟨s', rfl, hholds⟩
    | false => exact ih hholds

end AvlHeap

end RtSmart
