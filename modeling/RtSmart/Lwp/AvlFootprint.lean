import RtSmart.Lwp.AvlHeap

/-!
The tree operations write only to the nodes that can be reached from the tree, and to the node they insert.
-/

namespace RtSmart.AvlHeap

variable {s s' s'' : AvlHeap} {X : ℕ → Prop} {place : Nodeplace} {n : ℕ}

/-- No pointer leads out of the nodes `X`. -/
structure Closed (s : AvlHeap) (X : ℕ → Prop) : Prop where
  tree : ∀ n, s.tree = some n → X n
  left : ∀ m, X m → ∀ n, (s.node m).avlLeft = some n → X n
  right : ∀ m, X m → ∀ n, (s.node m).avlRight = some n → X n

def PlaceIn (X : ℕ → Prop) : Nodeplace → Prop
  | .ptree => True
  | .left n => X n
  | .right n => X n

structure Within (X : ℕ → Prop) (s s' : AvlHeap) : Prop where
  closed : s'.Closed X
  same : ∀ m, ¬ X m → s'.node m = s.node m

theorem Closed.within (h : s.Closed X) : Within X s s := ⟨h, fun _ _ => rfl⟩

theorem Closed.deref (h : s.Closed X) (hp : PlaceIn X place) (hn : s.deref place = some n) : X n := by
  cases place with
  | ptree => exact h.tree n hn
  | left m => exact h.left m hp n hn
  | right m => exact h.right m hp n hn

theorem Within.setNode (h : Within X s s') {x : LwpAvlStruct} (hn : X n) (hl : ∀ m, x.avlLeft = some m → X m)
    (hr : ∀ m, x.avlRight = some m → X m) : Within X s (s'.setNode n x) where
  closed :=
    { tree := h.closed.tree
      left := by
        intro m hm k hk
        by_cases hmn : m = n
        · subst hmn
          exact hl k (by simpa [AvlHeap.setNode] using hk)
        · rw [setNode_of_ne _ _ hmn] at hk
          exact h.closed.left m hm k hk
      right := by
        intro m hm k hk
        by_cases hmn : m = n
        · subst hmn
          exact hr k (by simpa [AvlHeap.setNode] using hk)
        · rw [setNode_of_ne _ _ hmn] at hk
          exact h.closed.right m hm k hk }
  same := by
    intro m hm
    rw [setNode_of_ne _ _ (by rintro rfl; exact hm hn)]
    exact h.same m hm

theorem Within.assign (h : Within X s s') {v : Option ℕ} (place : Nodeplace) (hp : PlaceIn X place) (hv : ∀ m, v = some m → X m) :
    Within X s (s'.assign place v) := by
  cases place with
  | ptree => exact ⟨⟨hv, h.closed.left, h.closed.right⟩, h.same⟩
  | left m => exact h.setNode hp hv (h.closed.right m hp)
  | right m => exact h.setNode hp (h.closed.left m hp) hv

theorem Within.setHeight (h : Within X s s') (hn : X n) (k : ℕ) : Within X s (s'.setHeight n k) :=
  h.setNode hn (h.closed.left n hn) (h.closed.right n hn)

theorem Rep.child_mem {t : Lib.AvlTree AvlEntry} {q : Option ℕ} (h : Rep s.node q t) {m : ℕ} (hm : m ∈ addrs t.toList)
    {b : Bool} (hn : child s.node m b = some n) : n ∈ addrs t.toList := by
  induction t generalizing q with
  | nil => cases hm
  | node l a k r ihl ihr =>
    obtain ⟨-, -, -, hl, hr⟩ := h
    have hroot : ∀ {t : Lib.AvlTree AvlEntry} {q : Option ℕ}, Rep s.node q t → q = some n → n ∈ addrs t.toList := by
      intro t q ht hq
      cases t with
      | nil => rw [show q = none from ht] at hq; cases hq
      | node l a k r =>
        obtain rfl := Option.some.inj (ht.1.symm.trans hq)
        simp [addrs]
    simp only [addrs, Lib.AvlTree.toList_node, List.map_append, List.map_cons, List.mem_append, List.mem_cons] at hm ⊢
    rcases hm with hm | rfl | hm
    · exact .inl (ihl hl hm)
    · cases b with
      | true => exact .inl (hroot hl hn)
      | false => exact .inr (.inr (hroot hr hn))
    · exact .inr (.inr (ihr hr hm))

theorem Holds.closed {t : Lib.AvlTree AvlEntry} (h : s.Holds t) : s.Closed (· ∈ addrs t.toList) where
  tree n hn := by
    cases t with
    | nil => rw [show s.tree = none from h.1] at hn; cases hn
    | node l a k r =>
      obtain rfl := Option.some.inj (h.1.1.symm.trans hn)
      simp [addrs]
  left m hm n hn := h.1.child_mem hm (b := true) hn
  right m hm n hn := h.1.child_mem hm (b := false) hn

theorem some_in (hn : X n) (m : ℕ) (hm : some n = some m) : X m := by
  obtain rfl := Option.some.inj hm
  exact hn

theorem Within.rebalanceNode (h : Within X s s') (hp : PlaceIn X place) {b : Bool}
    (hr : s'.rebalanceNode place = some (s'', b)) : Within X s s'' := by
  unfold AvlHeap.rebalanceNode at hr
  cases hd : s'.deref place with
  | none => simp [hd] at hr
  | some node =>
    have hnode := h.closed.deref hp hd
    have hleft := h.closed.left node hnode
    have hright := h.closed.right node hnode
    simp only [hd] at hr
    split at hr
    · -- a rotation to the right
      cases hl : (s'.node node).avlLeft with
      | none => simp [hl] at hr
      | some l =>
        have hX := hleft l hl
        simp only [hl] at hr
        split at hr
        · have h1 := h.assign (.left node) hnode (h.closed.right l hX)
          have h2 := h1.assign (.right l) hX (some_in hnode)
          obtain ⟨rfl, -⟩ := Prod.mk.inj (Option.some.inj hr)
          exact ((h2.setHeight hnode _).setHeight hX _).assign place hp (some_in hX)
        · cases hlr : (s'.node l).avlRight with
          | none => simp [hlr] at hr
          | some m =>
            have hXm := h.closed.right l hX m hlr
            simp only [hlr] at hr
            have h1 := h.assign (.right l) hX (h.closed.left m hXm)
            have h2 := h1.assign (.left node) hnode (h1.closed.right m hXm)
            have h3 := h2.assign (.left m) hXm (some_in hX)
            have h4 := h3.assign (.right m) hXm (some_in hnode)
            obtain ⟨rfl, -⟩ := Prod.mk.inj (Option.some.inj hr)
            exact (((h4.setHeight hnode _).setHeight hX _).setHeight hXm _).assign place hp (some_in hXm)
    · split at hr
      · -- a rotation to the left
        cases hl : (s'.node node).avlRight with
        | none => simp [hl] at hr
        | some l =>
          have hX := hright l hl
          simp only [hl] at hr
          split at hr
          · have h1 := h.assign (.right node) hnode (h.closed.left l hX)
            have h2 := h1.assign (.left l) hX (some_in hnode)
            obtain ⟨rfl, -⟩ := Prod.mk.inj (Option.some.inj hr)
            exact ((h2.setHeight hnode _).setHeight hX _).assign place hp (some_in hX)
          · cases hlr : (s'.node l).avlLeft with
            | none => simp [hlr] at hr
            | some m =>
              have hXm := h.closed.left l hX m hlr
              simp only [hlr] at hr
              have h1 := h.assign (.left l) hX (h.closed.right m hXm)
              have h2 := h1.assign (.right node) hnode (h1.closed.left m hXm)
              have h3 := h2.assign (.right m) hXm (some_in hX)
              have h4 := h3.assign (.left m) hXm (some_in hnode)
              obtain ⟨rfl, -⟩ := Prod.mk.inj (Option.some.inj hr)
              exact (((h4.setHeight hnode _).setHeight hX _).setHeight hXm _).assign place hp (some_in hXm)
      · by_cases heq : (if s'.heightof (s'.node node).avlLeft < s'.heightof (s'.node node).avlRight then
            s'.heightof (s'.node node).avlRight else s'.heightof (s'.node node).avlLeft) + 1 = (s'.node node).avlHeight
        · rw [if_pos heq] at hr
          obtain ⟨rfl, -⟩ := Prod.mk.inj (Option.some.inj hr)
          exact h
        · rw [if_neg heq] at hr
          obtain ⟨rfl, -⟩ := Prod.mk.inj (Option.some.inj hr)
          exact h.setHeight hnode _

theorem Within.rebalance (h : Within X s s') {stack : List Nodeplace} (hp : ∀ place ∈ stack, PlaceIn X place)
    (hr : s'.lwpAvlRebalance stack = some s'') : Within X s s'' := by
  induction stack generalizing s' with
  | nil => exact Option.some.inj hr ▸ h
  | cons place rest ih =>
    rw [lwpAvlRebalance] at hr
    cases hn : s'.rebalanceNode place with
    | none => simp [hn] at hr
    | some r =>
      obtain ⟨s1, b⟩ := r
      have h1 := h.rebalanceNode (hp place (by simp)) hn
      cases b with
      | true =>
        simp only [hn, Option.some.injEq] at hr
        exact hr ▸ h1
      | false =>
        simp only [hn] at hr
        exact ih h1 (fun p hm => hp p (by simp [hm])) hr

theorem Closed.insertLoop (h : s.Closed X) {key fuel : ℕ} {stack stack' : List Nodeplace} {place' : Nodeplace}
    (place : Nodeplace) (hp : PlaceIn X place) (hs : ∀ p ∈ stack, PlaceIn X p) (hr : s.insertLoop key fuel place stack = some (place', stack')) :
    PlaceIn X place' ∧ ∀ p ∈ stack', PlaceIn X p := by
  induction fuel generalizing place stack with
  | zero => cases hr
  | succ fuel ih =>
    rw [AvlHeap.insertLoop] at hr
    cases hd : s.deref place with
    | none =>
      simp only [hd, Option.some.injEq, Prod.mk.injEq] at hr
      obtain ⟨rfl, rfl⟩ := hr
      exact ⟨hp, hs⟩
    | some node =>
      simp only [hd] at hr
      split at hr
      · refine ih _ ?_ ?_ hr
        · split <;> exact h.deref hp hd
        · intro p hm
          rcases List.mem_append.mp hm with hm | hm
          · exact hs p hm
          · rw [List.mem_singleton.mp hm]
            exact hp
      · cases hr

theorem PlaceIn.mono {Y : ℕ → Prop} (hp : PlaceIn X place) (hXY : ∀ m, X m → Y m) : PlaceIn Y place := by
  cases place with
  | ptree => trivial
  | left m => exact hXY m hp
  | right m => exact hXY m hp

theorem Closed.insert (h : s.Closed X) (hn : ¬ X n) (hr : s.lwpAvlInsert n = some s') :
    Within (fun m => X m ∨ m = n) s s' := by
  unfold lwpAvlInsert at hr
  cases hl : s.insertLoop (s.node n).avlKey (avlMaxheight + 1) .ptree [] with
  | none => simp [hl] at hr
  | some r =>
    obtain ⟨place, stack⟩ := r
    obtain ⟨hp, hs⟩ := h.insertLoop .ptree trivial (by simp) hl
    simp only [hl] at hr
    have h1 : Within (fun m => X m ∨ m = n) s
        (s.setNode n { s.node n with avlLeft := none, avlRight := none, avlHeight := 1 }) := by
      refine ⟨⟨fun m hm => .inl (h.tree m hm), ?_, ?_⟩, ?_⟩
      · rintro m (hm | rfl) k hk
        · rw [setNode_of_ne _ _ (by rintro rfl; exact hn hm)] at hk
          exact .inl (h.left m hm k hk)
        · simp [setNode] at hk
      · rintro m (hm | rfl) k hk
        · rw [setNode_of_ne _ _ (by rintro rfl; exact hn hm)] at hk
          exact .inl (h.right m hm k hk)
        · simp [setNode] at hk
      · intro m hm
        exact setNode_of_ne _ _ fun hmn => hm (.inr hmn)
    refine (h1.assign place (hp.mono fun m hm => .inl hm) (some_in (.inr rfl))).rebalance ?_ hr
    intro p hm
    exact (hs p (List.mem_reverse.mp hm)).mono fun m hm => .inl hm

theorem Closed.searchLoop (h : s.Closed X) {target fuel : ℕ} {todo : List (Nodeplace × SearchState)}
    {stack : List Nodeplace} (hp : ∀ p ∈ todo, PlaceIn X p.1) (hr : s.searchLoop target fuel todo = some (some stack)) :
    ∀ p ∈ stack, PlaceIn X p := by
  induction fuel generalizing todo with
  | zero => cases hr
  | succ fuel ih =>
    cases todo with
    | nil => simp [AvlHeap.searchLoop] at hr
    | cons top rest =>
      obtain ⟨place, state⟩ := top
      have hrest : ∀ p ∈ rest, PlaceIn X p.1 := fun p hm => hp p (by simp [hm])
      rw [AvlHeap.searchLoop] at hr
      cases hd : s.deref place with
      | none =>
        simp only [hd] at hr
        exact ih hrest hr
      | some node =>
        have hnode := h.deref (hp _ List.mem_cons_self) hd
        -- going on to a side of the node
        have hdown : ∀ st next, PlaceIn X next → (if rest.length + 1 ≥ avlMaxheight ∧ s.deref next ≠ none then some none
            else s.searchLoop target fuel ((next, .fresh) :: (place, st) :: rest)) = some (some stack) →
              ∀ p ∈ stack, PlaceIn X p := by
          intro st next hnext hif
          split at hif
          · cases hif
          · refine ih ?_ hif
            intro p hm
            rcases List.mem_cons.mp hm with rfl | hm
            · exact hnext
            rcases List.mem_cons.mp hm with rfl | hm
            · exact hp (place, state) List.mem_cons_self
            · exact hrest p hm
        simp only [hd] at hr
        cases state with
        | fresh =>
          dsimp only at hr
          split at hr
          · obtain rfl := Option.some.inj (Option.some.inj hr)
            intro p hm
            rw [List.mem_reverse, List.mem_cons, List.mem_map] at hm
            rcases hm with rfl | ⟨q, hq, rfl⟩
            · exact hp (p, .fresh) List.mem_cons_self
            · exact hrest q hq
          split at hr
          · exact hdown _ (.left node) hnode hr
          split at hr
          · exact hdown _ (.right node) hnode hr
          · exact hdown _ (.left node) hnode hr
        | equalLeft => exact hdown _ (.right node) hnode hr
        | equalRight => exact ih hrest hr
        | oneSide => exact ih hrest hr

theorem Closed.lastLoop (h : s.Closed X) {fuel node : ℕ} {stack stack' : List Nodeplace} {place' : Nodeplace}
    (place : Nodeplace) (hp : PlaceIn X place) (hs : ∀ p ∈ stack, PlaceIn X p)
    (hr : s.lastLoop fuel place stack = some (node, place', stack')) :
    X node ∧ PlaceIn X place' ∧ ∀ p ∈ stack', PlaceIn X p := by
  induction fuel generalizing place stack with
  | zero => cases hr
  | succ fuel ih =>
    rw [AvlHeap.lastLoop] at hr
    cases hd : s.deref place with
    | none => simp [hd] at hr
    | some m =>
      have hm := h.deref hp hd
      simp only [hd] at hr
      split at hr
      · simp only [Option.some.injEq, Prod.mk.injEq] at hr
        obtain ⟨rfl, rfl, rfl⟩ := hr
        exact ⟨hm, hp, hs⟩
      split at hr
      · refine ih _ (show PlaceIn X (.right m) from hm) ?_ hr
        intro p hmem
        rcases List.mem_append.mp hmem with hmem | hmem
        · exact hs p hmem
        · rw [List.mem_singleton.mp hmem]
          exact hp
      · cases hr

theorem Closed.remove (h : s.Closed X) (hr : s.lwpAvlRemove n = some s') : Within X s s' := by
  unfold lwpAvlRemove at hr
  split at hr
  · cases hr
  · exact Option.some.inj hr ▸ h.within
  next stack hf =>
    have hstack := h.searchLoop (by simp [PlaceIn]) hf
    split at hr
    · cases hr
    next place hlast =>
      have hp := hstack place (List.mem_of_getLast? hlast)
      split at hr
      · cases hr
      next m hd =>
        have hm := h.deref hp hd
        split at hr
        · refine (h.within.assign place hp (h.right m hm)).rebalance ?_ hr
          intro p hmem
          exact hstack p (List.dropLast_subset _ (List.mem_reverse.mp hmem))
        split at hr
        · cases hr
        next node place' stack' hloop =>
          obtain ⟨hnode, hp', hs'⟩ := h.lastLoop (.left m) hm hstack hloop
          split at hr
          · have h1 := h.within.assign place' hp' (h.left node hnode)
            have h2 := h1.assign (.left node) hnode (h1.closed.left m hm)
            have h3 := h2.assign (.right node) hnode (h2.closed.right m hm)
            refine ((h3.setHeight hnode _).assign place hp (some_in hnode)).rebalance ?_ hr
            intro p hmem
            rcases List.mem_or_eq_of_mem_set (List.mem_reverse.mp hmem) with hmem | rfl
            · exact hs' p hmem
            · exact hnode
          · cases hr

end RtSmart.AvlHeap
