import Mathlib.Tactic

/-!
Skip lists as a family of rows, the bottom row last: the search that descends through the rows, and
the insertion behind the place it finds. A row position is the element before it, `none` for the head.
-/

namespace RtSmart.Lib

variable {α : Type*}

namespace SkipList

def advance (passes : α → Bool) : Option α → List α → Option α
  | h, [] => h
  | h, t :: l => if passes t then advance passes (some t) l else h

def after [DecidableEq α] : List α → Option α → List α
  | l, none => l
  | [], some _ => []
  | x :: l, some h => if x = h then l else after l (some h)

def insertAfter [DecidableEq α] (t : α) : List α → Option α → List α
  | l, none => t :: l
  | [], some _ => [t]
  | x :: l, some h => if x = h then x :: t :: l else x :: insertAfter t l (some h)

-- a row is searched from the place where the search of the row above it stopped
def descend [DecidableEq α] (passes : α → Bool) (rows : ℕ → List α) : ℕ → Option α
  | 0 => advance passes none (rows 0)
  | k + 1 => advance passes (descend passes rows k) (after (rows (k + 1)) (descend passes rows k))

variable {passes : α → Bool} {l : List α} {rows : ℕ → List α} {t : α}

def Falling (passes : α → Bool) (l : List α) : Prop := l.Pairwise fun a b => passes b → passes a

theorem advance_eq (h : Option α) (hf : Falling passes l) :
    advance passes h l = ((l.filter passes).getLast?).or h := by
  induction l generalizing h with
  | nil => rfl
  | cons t l ih =>
    obtain ⟨hhead, htail⟩ := List.pairwise_cons.mp hf
    by_cases ht : passes t
    · simp only [advance, ht, if_true, List.filter_cons_of_pos, ih (some t) htail]
      cases hl : l.filter passes with
      | nil => simp
      | cons x xs => simp [List.getLast?_eq_some_getLast]
    · have hnil : l.filter passes = [] := by
        apply List.filter_eq_nil_iff.mpr
        intro b hb hpb
        exact ht (hhead b hb hpb)
      simp [advance, ht, hnil]

theorem after_append [DecidableEq α] {pre post : List α} {h : α} (hn : h ∉ pre) : after (pre ++ h :: post) (some h) = post := by
  induction pre with
  | nil => simp [after]
  | cons x pre ih =>
    rw [List.mem_cons, not_or] at hn
    simp only [List.cons_append, after, if_neg (Ne.symm hn.1), ih hn.2]

theorem insertAfter_append [DecidableEq α] {pre post : List α} {h : α} (hn : h ∉ pre) :
    insertAfter t (pre ++ h :: post) (some h) = pre ++ h :: t :: post := by
  induction pre with
  | nil => simp [insertAfter]
  | cons x pre ih =>
    rw [List.mem_cons, not_or] at hn
    simp only [List.cons_append, insertAfter, if_neg (Ne.symm hn.1), ih hn.2]

theorem insertAfter_perm [DecidableEq α] (t : α) (l : List α) (h : Option α) : (insertAfter t l h).Perm (t :: l) := by
  cases h with
  | none =>
    unfold insertAfter
    exact List.Perm.refl _
  | some h =>
    induction l with
    | nil => exact List.Perm.refl _
    | cons x l ih =>
      unfold insertAfter
      split
      · exact List.Perm.swap t x l
      · exact (ih.cons x).trans (List.Perm.swap t x l)

theorem Falling.sublist {l' : List α} (hf : Falling passes l) (hs : l'.Sublist l) : Falling passes l' :=
  List.Pairwise.sublist hs hf

theorem Falling.filter_append (hf : Falling passes l) : l.filter passes ++ l.filter (fun a => !passes a) = l := by
  induction l with
  | nil => rfl
  | cons t l ih =>
    obtain ⟨hhead, htail⟩ := List.pairwise_cons.mp hf
    by_cases ht : passes t
    · simp [ht, ih htail]
    · have hnone : ∀ b ∈ l, passes b = false := by
        intro b hb
        simpa using fun hpb => ht (hhead b hb hpb)
      have hnil : l.filter passes = [] := List.filter_eq_nil_iff.mpr (by simpa using hnone)
      have hall : l.filter (fun a => !passes a) = l := List.filter_eq_self.mpr (by simpa using hnone)
      simp [ht, hnil, hall]

theorem Falling.advance_after [DecidableEq α] (hf : Falling passes l) (hd : l.Nodup) {h : Option α}
    (hh : ∀ x ∈ h, x ∈ l ∧ passes x) : advance passes h (after l h) = (l.filter passes).getLast? := by
  cases h with
  | none => simp [after, advance_eq none hf]
  | some x =>
    obtain ⟨hx, hp⟩ := hh x rfl
    obtain ⟨pre, post, rfl⟩ := List.append_of_mem hx
    have hn : x ∉ pre := by
      intro hmem
      exact (List.nodup_append.mp hd).2.2 x hmem x (by simp) rfl
    have hpost : Falling passes post := hf.sublist (List.sublist_append_of_sublist_right (List.sublist_cons_self x post))
    rw [after_append hn, advance_eq _ hpost]
    simp only [List.filter_append, List.filter_cons_of_pos hp]
    cases hl : post.filter passes with
    | nil => simp
    | cons y ys => simp [List.getLast?_eq_some_getLast]

theorem descend_eq [DecidableEq α] (k : ℕ) (hf : Falling passes (rows k)) (hd : (rows k).Nodup)
    (hs : ∀ j < k, (rows j).Sublist (rows (j + 1))) :
    descend passes rows k = ((rows k).filter passes).getLast? := by
  induction k with
  | zero => simp [descend, advance_eq none hf]
  | succ k ih =>
    have hsub := hs k (Nat.lt_succ_self k)
    have hk := ih (hf.sublist hsub) (hsub.nodup hd) fun j hj => hs j (Nat.lt_succ_of_lt hj)
    rw [descend]
    apply hf.advance_after hd
    intro x hx
    rw [hk] at hx
    have hmem := List.mem_filter.mp (List.mem_of_getLast? hx)
    exact ⟨hsub.subset hmem.1, hmem.2⟩

theorem insertAfter_eq [DecidableEq α] (hf : Falling passes l) (hd : l.Nodup) :
    insertAfter t l (l.filter passes).getLast? = l.filter passes ++ t :: l.filter (fun a => !passes a) := by
  rcases List.eq_nil_or_concat' (l.filter passes) with hnil | ⟨pre, x, hcat⟩
  · have hsplit := hf.filter_append
    rw [hnil, List.nil_append] at hsplit
    simp only [hnil, List.getLast?_nil, insertAfter, List.nil_append, hsplit]
  · have hsplit : pre ++ x :: l.filter (fun a => !passes a) = l := by
      have happ := hf.filter_append
      rw [hcat, List.append_assoc] at happ
      exact happ
    have hn : x ∉ pre := by
      intro hmem
      rw [← hsplit] at hd
      exact (List.nodup_append.mp hd).2.2 x hmem x (by simp) rfl
    rw [hcat, List.getLast?_concat]
    calc insertAfter t l (some x)
        = insertAfter t (pre ++ x :: l.filter (fun a => !passes a)) (some x) := by rw [hsplit]
      _ = pre ++ [x] ++ t :: l.filter (fun a => !passes a) := by rw [insertAfter_append hn]; simp

/-- The row with `t` at the place where the search ends. -/
def place (passes : α → Bool) (t : α) (l : List α) : List α :=
  l.filter passes ++ t :: l.filter fun a => !passes a

theorem place_sublist {l' : List α} (hs : l.Sublist l') : (place passes t l).Sublist (place passes t l') :=
  (hs.filter _).append ((hs.filter _).cons_cons t)

theorem sublist_place (hf : Falling passes l) : l.Sublist (place passes t l) := by
  have hsub : (l.filter passes ++ l.filter fun a => !passes a).Sublist (place passes t l) :=
    (List.Sublist.refl _).append (List.sublist_cons_self _ _)
  rwa [hf.filter_append] at hsub

theorem mem_place (x : α) : x ∈ place passes t l ↔ x = t ∨ x ∈ l := by
  cases hx : passes x
  · simp [place, hx]
  · simp [place, hx]
    tauto

theorem nodup_place (hd : l.Nodup) (ht : t ∉ l) : (place passes t l).Nodup := by
  have hperm : (place passes t l).Perm (t :: l) := by
    apply List.perm_middle.trans
    exact List.Perm.cons t (List.filter_append_perm passes l)
  exact hperm.nodup_iff.mpr (List.nodup_cons.mpr ⟨ht, hd⟩)

end SkipList

end RtSmart.Lib
