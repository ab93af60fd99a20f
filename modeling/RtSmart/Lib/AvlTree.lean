import Mathlib.Data.Nat.Fib.Basic
import Mathlib.Tactic

namespace RtSmart.Lib

/-- Each node carries the height it is supposed to have. -/
inductive AvlTree (α : Type*)
  | nil
  | node (l : AvlTree α) (a : α) (h : ℕ) (r : AvlTree α)

namespace AvlTree

variable {α : Type*}

def height : AvlTree α → ℕ
  | nil => 0
  | node _ _ h _ => h

def depth : AvlTree α → ℕ
  | nil => 0
  | node l _ _ r => max l.depth r.depth + 1

def toList : AvlTree α → List α
  | nil => []
  | node l a _ r => l.toList ++ a :: r.toList

def Ok : AvlTree α → Prop
  | nil => True
  | node l _ h r => l.Ok ∧ r.Ok ∧ h = max l.height r.height + 1 ∧ l.height ≤ r.height + 1 ∧ r.height ≤ l.height + 1

@[simp] theorem height_nil : (nil : AvlTree α).height = 0 := rfl

@[simp] theorem height_node (l r : AvlTree α) (a : α) (h : ℕ) : (node l a h r).height = h := rfl

@[simp] theorem toList_nil : (nil : AvlTree α).toList = [] := rfl

@[simp] theorem toList_node (l r : AvlTree α) (a : α) (h : ℕ) : (node l a h r).toList = l.toList ++ a :: r.toList := rfl

theorem ok_node {l r : AvlTree α} {a : α} {h : ℕ} : (node l a h r).Ok ↔ l.Ok ∧ r.Ok ∧
    h = max l.height r.height + 1 ∧ l.height ≤ r.height + 1 ∧ r.height ≤ l.height + 1 := Iff.rfl

theorem Ok.height_eq {t : AvlTree α} (h : t.Ok) : t.height = t.depth := by
  induction t with
  | nil => rfl
  | node l a k r ihl ihr =>
    obtain ⟨hl, hr, hk, -⟩ := h
    rw [height_node, hk, ihl hl, ihr hr, depth]

/-- The heights are right and the sides of no node differ by more than one. -/
def Exact : AvlTree α → Prop
  | nil => True
  | node l _ h r => l.Exact ∧ r.Exact ∧ h = max l.depth r.depth + 1 ∧ l.depth ≤ r.depth + 1 ∧ r.depth ≤ l.depth + 1

theorem Ok.exact {t : AvlTree α} (h : t.Ok) : t.Exact := by
  induction t with
  | nil => trivial
  | node l a k r ihl ihr =>
    obtain ⟨hl, hr, hk⟩ := h
    rw [hl.height_eq, hr.height_eq] at hk
    exact ⟨ihl hl, ihr hr, hk⟩

theorem depth_le_length (t : AvlTree α) : t.depth ≤ t.toList.length := by
  induction t with
  | nil => simp [depth]
  | node l a k r ihl ihr =>
    simp only [depth, toList_node, List.length_append, List.length_cons]
    omega

theorem Ok.fib_le_length {t : AvlTree α} (h : t.Ok) : Nat.fib (t.depth + 2) ≤ t.toList.length + 1 := by
  induction t with
  | nil => simp [depth]
  | node l a k r ihl ihr =>
    obtain ⟨hl, hr, -, hlr, hrl⟩ := h
    rw [hl.height_eq, hr.height_eq] at hlr hrl
    specialize ihl hl
    specialize ihr hr
    simp only [depth, toList_node, List.length_append, List.length_cons]
    -- the lower side is at most one lower
    rcases le_total l.depth r.depth with hd | hd
    · have hfib : Nat.fib (r.depth + 1) ≤ Nat.fib (l.depth + 2) := Nat.fib_mono (by omega)
      have hstep : Nat.fib (r.depth + 1 + 2) = Nat.fib (r.depth + 1) + Nat.fib (r.depth + 2) := Nat.fib_add_two
      rw [max_eq_right hd]
      omega
    · have hfib : Nat.fib (l.depth + 1) ≤ Nat.fib (r.depth + 2) := Nat.fib_mono (by omega)
      have hstep : Nat.fib (l.depth + 1 + 2) = Nat.fib (l.depth + 1) + Nat.fib (l.depth + 2) := Nat.fib_add_two
      rw [max_eq_left hd]
      omega

/-- One step of the way up: a subtree whose sides differ by two is rotated; `true` says that nothing changes above. -/
def balance (l : AvlTree α) (a : α) (h : ℕ) (r : AvlTree α) : AvlTree α × Bool :=
  if r.height + 1 < l.height then
    match l with
    | nil => (node nil a h r, true)
    | node ll b hl lr =>
      if lr.height ≤ ll.height then (node ll b (1 + (1 + lr.height)) (node lr a (1 + lr.height) r), false)
      else
        match lr with
        | nil => (node (node ll b hl nil) a h r, true)
        | node lrl c hlr lrr => (node (node ll b hlr lrl) c hl (node lrr a hlr r), false)
  else if l.height + 1 < r.height then
    match r with
    | nil => (node l a h nil, true)
    | node rl b hr rr =>
      if rl.height ≤ rr.height then (node (node l a (1 + rl.height) rl) b (1 + (1 + rl.height)) rr, false)
      else
        match rl with
        | nil => (node l a h (node nil b hr rr), true)
        | node rll c hrl rlr => (node (node l a hrl rll) c hr (node rlr b hrl rr), false)
  else
    let k := (if l.height < r.height then r.height else l.height) + 1
    if k = h then (node l a h r, true) else (node l a k r, false)

theorem toList_balance (l : AvlTree α) (a : α) (h : ℕ) (r : AvlTree α) :
    (balance l a h r).1.toList = l.toList ++ a :: r.toList := by
  unfold balance
  split
  · cases l with
    | nil => rfl
    | node ll b hl lr =>
      dsimp only
      split
      · simp
      · cases lr with
        | nil => simp
        | node lrl c hlr lrr => simp
  · split
    · cases r with
      | nil => rfl
      | node rl b hr rr =>
        dsimp only
        split
        · simp
        · cases rl with
          | nil => simp
          | node rll c hrl rlr => simp
    · simp only
      generalize (if l.height < r.height then r.height else l.height) + 1 = k
      split <;> rfl

/-- The height `h` of a node is the one from before, when its side of height `n` had a height `m` that differed by one
at most. -/
def Stale (h m n k : ℕ) : Prop := h = max m k + 1 ∧ m ≤ k + 1 ∧ k ≤ m + 1 ∧ n ≤ m + 1 ∧ m ≤ n + 1

theorem balance_ok {l r : AvlTree α} {h m : ℕ} (a : α) (hl : l.Ok) (hr : r.Ok)
    (hs : Stale h m l.height r.height ∨ Stale h m r.height l.height) :
    (balance l a h r).1.Ok ∧ (balance l a h r).1.height ≤ h + 1 ∧ h ≤ (balance l a h r).1.height + 1 ∧
      ((balance l a h r).2 = true → (balance l a h r).1.height = h) := by
  unfold Stale at hs
  unfold balance
  split
  case isTrue hgt =>
    cases l with
    | nil => simp at hgt
    | node ll b k lr =>
      obtain ⟨hll, hlr, hk, h1, h2⟩ := hl
      simp only [height_node] at *
      split
      case isTrue hge =>
        simp only [ok_node, height_node, Bool.false_eq_true, false_implies, and_true]
        refine ⟨⟨hll, ⟨hlr, hr, ?_⟩, ?_⟩, ?_⟩ <;> omega
      case isFalse hge =>
        cases lr with
        | nil => simp at hge
        | node lrl c k' lrr =>
          obtain ⟨hlrl, hlrr, hk', h3, h4⟩ := hlr
          simp only [height_node] at *
          simp only [ok_node, height_node, Bool.false_eq_true, false_implies, and_true]
          refine ⟨⟨⟨hll, hlrl, ?_⟩, ⟨hlrr, hr, ?_⟩, ?_⟩, ?_⟩ <;> omega
  case isFalse hle =>
    split
    case isTrue hgt =>
      cases r with
      | nil => simp at hgt
      | node rl b k rr =>
        obtain ⟨hrl, hrr, hk, h1, h2⟩ := hr
        simp only [height_node] at *
        split
        case isTrue hge =>
          simp only [ok_node, height_node, Bool.false_eq_true, false_implies, and_true]
          refine ⟨⟨⟨hl, hrl, ?_⟩, hrr, ?_⟩, ?_⟩ <;> omega
        case isFalse hge =>
          cases rl with
          | nil => simp at hge
          | node rll c k' rlr =>
            obtain ⟨hrll, hrlr, hk', h3, h4⟩ := hrl
            simp only [height_node] at *
            simp only [ok_node, height_node, Bool.false_eq_true, false_implies, and_true]
            refine ⟨⟨⟨hl, hrll, ?_⟩, ⟨hrlr, hrr, ?_⟩, ?_⟩, ?_⟩ <;> omega
    case isFalse hle' =>
      have hmax : (if l.height < r.height then r.height else l.height) = max l.height r.height := by
        split <;> omega
      simp only [hmax]
      split
      case isTrue hk =>
        simp only [ok_node, height_node, implies_true, and_true]
        refine ⟨⟨hl, hr, ?_⟩, ?_⟩ <;> omega
      case isFalse hk =>
        simp only [ok_node, height_node, Bool.false_eq_true, false_implies, and_true]
        refine ⟨⟨hl, hr, ?_, ?_⟩, ?_⟩
        · trivial
        · omega
        · omega

end AvlTree

/-- A node on the way down, with the subtree that the way does not take. -/
structure AvlFrame (α : Type*) where
  left : Bool
  a : α
  h : ℕ
  sibling : AvlTree α

def AvlFrame.plug {α : Type*} (f : AvlFrame α) (t : AvlTree α) : AvlTree α :=
  if f.left then .node t f.a f.h f.sibling else .node f.sibling f.a f.h t

def AvlFrame.balance {α : Type*} (f : AvlFrame α) (t : AvlTree α) : AvlTree α × Bool :=
  if f.left then AvlTree.balance t f.a f.h f.sibling else AvlTree.balance f.sibling f.a f.h t

/-- The elements before and after the place the way leads to; the innermost frame is the first. -/
def AvlFrame.before {α : Type*} : List (AvlFrame α) → List α
  | [] => []
  | f :: fs => before fs ++ if f.left then [] else f.sibling.toList ++ [f.a]

def AvlFrame.after {α : Type*} : List (AvlFrame α) → List α
  | [] => []
  | f :: fs => (if f.left then f.a :: f.sibling.toList else []) ++ after fs

namespace AvlTree

variable {α : Type*} {t : AvlTree α} {fs : List (AvlFrame α)}

def plugAll : List (AvlFrame α) → AvlTree α → AvlTree α
  | [], t => t
  | f :: fs, t => plugAll fs (f.plug t)

def ascend : List (AvlFrame α) → AvlTree α → AvlTree α
  | [], t => t
  | f :: fs, t => if (f.balance t).2 then plugAll fs (f.balance t).1 else ascend fs (f.balance t).1

theorem plugAll_append (gs fs : List (AvlFrame α)) (t : AvlTree α) :
    plugAll (gs ++ fs) t = plugAll fs (plugAll gs t) := by
  induction gs generalizing t with
  | nil => rfl
  | cons g gs ih => rw [List.cons_append, plugAll, ih, plugAll]

theorem before_append (gs fs : List (AvlFrame α)) :
    AvlFrame.before (gs ++ fs) = AvlFrame.before fs ++ AvlFrame.before gs := by
  induction gs with
  | nil => simp [AvlFrame.before]
  | cons g gs ih => rw [List.cons_append, AvlFrame.before, ih, AvlFrame.before, List.append_assoc]

theorem after_append (gs fs : List (AvlFrame α)) :
    AvlFrame.after (gs ++ fs) = AvlFrame.after gs ++ AvlFrame.after fs := by
  induction gs with
  | nil => simp [AvlFrame.after]
  | cons g gs ih => rw [List.cons_append, AvlFrame.after, ih, AvlFrame.after, List.append_assoc]

theorem toList_plugAll (fs : List (AvlFrame α)) (t : AvlTree α) :
    (plugAll fs t).toList = AvlFrame.before fs ++ t.toList ++ AvlFrame.after fs := by
  induction fs generalizing t with
  | nil => simp [plugAll, AvlFrame.before, AvlFrame.after]
  | cons f fs ih =>
    rw [plugAll, ih, AvlFrame.plug, AvlFrame.before, AvlFrame.after]
    split <;> simp

theorem toList_frame_balance (f : AvlFrame α) (t : AvlTree α) : (f.balance t).1.toList = (f.plug t).toList := by
  unfold AvlFrame.balance AvlFrame.plug
  split <;> rw [toList_balance] <;> rfl

theorem toList_ascend (fs : List (AvlFrame α)) (t : AvlTree α) : (ascend fs t).toList = (plugAll fs t).toList := by
  induction fs generalizing t with
  | nil => rfl
  | cons f fs ih =>
    rw [ascend]
    split
    · rw [plugAll, toList_plugAll, toList_plugAll, toList_frame_balance]
    · rw [ih, plugAll, toList_plugAll, toList_plugAll, toList_frame_balance]

/-- The frames belong to a tree in order whose subtree at this place has the height `n`. -/
def CtxOk : ℕ → List (AvlFrame α) → Prop
  | _, [] => True
  | n, f :: fs => f.sibling.Ok ∧ f.h = max n f.sibling.height + 1 ∧ n ≤ f.sibling.height + 1 ∧ f.sibling.height ≤ n + 1 ∧
    CtxOk f.h fs

@[simp] theorem height_plug (f : AvlFrame α) (t : AvlTree α) : (f.plug t).height = f.h := by
  unfold AvlFrame.plug
  split <;> rfl

theorem ok_plug {f : AvlFrame α} : (f.plug t).Ok ↔ t.Ok ∧ f.sibling.Ok ∧ f.h = max t.height f.sibling.height + 1 ∧
    t.height ≤ f.sibling.height + 1 ∧ f.sibling.height ≤ t.height + 1 := by
  unfold AvlFrame.plug
  split
  · exact ok_node
  · rw [ok_node, max_comm]
    tauto

theorem ok_plugAll : (plugAll fs t).Ok ↔ t.Ok ∧ CtxOk t.height fs := by
  induction fs generalizing t with
  | nil => simp [plugAll, CtxOk]
  | cons f fs ih =>
    rw [plugAll, ih, ok_plug, height_plug, CtxOk]
    tauto

theorem ascend_ok {n : ℕ} (h : t.Ok) (hc : CtxOk n fs) (hn : t.height ≤ n + 1) (hn' : n ≤ t.height + 1) :
    (ascend fs t).Ok := by
  induction fs generalizing t n with
  | nil => exact h
  | cons f fs ih =>
    obtain ⟨hs, hh, h1, h2, hc⟩ := hc
    have hstale : Stale f.h n t.height f.sibling.height := ⟨hh, h1, h2, hn, hn'⟩
    have hbal : (f.balance t).1.Ok ∧ (f.balance t).1.height ≤ f.h + 1 ∧ f.h ≤ (f.balance t).1.height + 1 ∧
        ((f.balance t).2 = true → (f.balance t).1.height = f.h) := by
      unfold AvlFrame.balance
      split
      · exact balance_ok f.a h hs (Or.inl hstale)
      · exact balance_ok f.a hs h (Or.inr hstale)
    obtain ⟨hok, hle, hge, hstop⟩ := hbal
    rw [ascend]
    split
    case isTrue hb =>
      rw [ok_plugAll, hstop hb]
      exact ⟨hok, hc⟩
    case isFalse => exact ih hok hc hle hge

end AvlTree

end RtSmart.Lib
