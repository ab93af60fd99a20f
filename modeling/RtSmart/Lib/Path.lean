import Mathlib.Tactic

/-!
Paths over an alphabet with a separator and a dot. The names of a path are resolved from left to
right into a stack that holds the innermost directory first.
-/

namespace RtSmart.Lib.Path

variable {α : Type*} [DecidableEq α] (sep dot : α)

def place (st : List (List α)) (name : List α) : List (List α) :=
  if name = [] ∨ name = [dot] then st
  else if name = [dot, dot] then st.tail
  else name :: st

def resolve (st : List (List α)) (path : List α) : List (List α) :=
  (path.splitOn sep).foldl (place dot) st

/-- The path that names the directory reached through `st` and nothing else. -/
def render : List (List α) → List α
  | [] => [sep]
  | c :: st => (c :: st).reverse.flatMap (sep :: ·)

/-- A name that stands for a directory of its own. -/
structure Proper (name : List α) : Prop where
  ne_nil : name ≠ []
  ne_dot : name ≠ [dot]
  ne_up : name ≠ [dot, dot]
  no_sep : sep ∉ name

instance (name : List α) : Decidable (Proper sep dot name) :=
  decidable_of_iff (name ≠ [] ∧ name ≠ [dot] ∧ name ≠ [dot, dot] ∧ sep ∉ name)
    ⟨fun h => ⟨h.1, h.2.1, h.2.2.1, h.2.2.2⟩, fun h => ⟨h.ne_nil, h.ne_dot, h.ne_up, h.no_sep⟩⟩

variable {sep dot} {st : List (List α)} {name path rest : List α}

theorem place_proper (h : Proper sep dot name) : place dot st name = name :: st := by
  rw [place, if_neg (by simp [h.ne_nil, h.ne_dot]), if_neg h.ne_up]

theorem resolve_cons (h : sep ∉ name) :
    resolve sep dot st (name ++ sep :: rest) = resolve sep dot (place dot st name) rest := by
  rw [resolve, List.splitOn_append_cons_self_of_not_mem h]
  rfl

theorem resolve_last (h : sep ∉ name) : resolve sep dot st name = place dot st name := by
  rw [resolve, List.splitOn_eq_singleton h]
  rfl

theorem resolve_sep : resolve sep dot st (sep :: rest) = resolve sep dot st rest := by
  have h : resolve sep dot st ([] ++ sep :: rest) = resolve sep dot (place dot st []) rest := resolve_cons (by simp)
  rwa [place, if_pos (by simp)] at h

theorem resolve_dropWhile (path : List α) :
    resolve sep dot st (path.dropWhile (· == sep)) = resolve sep dot st path := by
  induction path with
  | nil => rfl
  | cons a path ih =>
    by_cases h : a = sep
    · subst h
      rw [List.dropWhile_cons_of_pos (by simp), ih, resolve_sep]
    · rw [List.dropWhile_cons_of_neg (by simpa using h)]

theorem proper_place (hst : ∀ c ∈ st, Proper sep dot c) (h : sep ∉ name) :
    ∀ c ∈ place dot st name, Proper sep dot c := by
  unfold place
  split_ifs with h1 h2
  · exact hst
  · exact fun c hc => hst c (List.mem_of_mem_tail hc)
  · push Not at h1
    intro c hc
    rcases List.mem_cons.mp hc with rfl | hc
    · exact ⟨h1.1, h1.2, h2, h⟩
    · exact hst c hc

theorem sep_not_mem_splitOn (path : List α) : ∀ c ∈ path.splitOn sep, sep ∉ c := by
  induction path with
  | nil => simp
  | cons a path ih =>
    rw [List.splitOn_cons_eq_if_modifyHead]
    split_ifs with h
    · simpa using ih
    · obtain ⟨c, l, hl⟩ := List.exists_cons_of_ne_nil (List.splitOn_ne_nil sep path)
      rw [hl] at ih ⊢
      simp only [List.modifyHead_cons, List.mem_cons, forall_eq_or_imp] at ih ⊢
      exact ⟨by simpa [Ne.symm (by simpa using h : a ≠ sep)] using ih.1, ih.2⟩

theorem proper_foldl (names : List (List α)) (hst : ∀ c ∈ st, Proper sep dot c) (h : ∀ c ∈ names, sep ∉ c) :
    ∀ c ∈ names.foldl (place dot) st, Proper sep dot c := by
  induction names generalizing st with
  | nil => exact hst
  | cons a names ih =>
    exact ih (proper_place hst (h a (by simp))) fun c hc => h c (by simp [hc])

theorem proper_resolve (hst : ∀ c ∈ st, Proper sep dot c) : ∀ c ∈ resolve sep dot st path, Proper sep dot c :=
  proper_foldl _ hst (sep_not_mem_splitOn path)

theorem splitOn_sep (rest : List α) : (sep :: rest).splitOn sep = [] :: rest.splitOn sep :=
  List.splitOn_append_cons_self_of_not_mem (List.not_mem_nil : sep ∉ []) rest

theorem splitOn_flatMap (l : List (List α)) (hl : ∀ c ∈ l, sep ∉ c) :
    (l.flatMap (sep :: ·)).splitOn sep = [] :: l := by
  induction l with
  | nil => rfl
  | cons c l ih =>
    have hc := hl c (by simp)
    have htail := ih fun d hd => hl d (by simp [hd])
    rw [List.flatMap_cons, List.cons_append, splitOn_sep]
    cases l with
    | nil => rw [List.flatMap_nil, List.append_nil, List.splitOn_eq_singleton hc]
    | cons d l =>
      rw [List.flatMap_cons, List.cons_append, splitOn_sep, List.cons.injEq] at htail
      rw [List.flatMap_cons, List.cons_append, List.splitOn_append_cons_self_of_not_mem hc, htail.2]

theorem not_mem_takeWhile (sep : α) (path : List α) : sep ∉ path.takeWhile (· != sep) := by
  intro h
  have := List.all_eq_true.mp (List.all_takeWhile (p := (· != sep)) (l := path)) sep h
  simp at this

omit [DecidableEq α] in
theorem render_cons (st : List (List α)) : ∃ rest, render sep st = sep :: rest := by
  cases st with
  | nil => exact ⟨[], rfl⟩
  | cons c st =>
    obtain ⟨a, l, hl⟩ := List.exists_cons_of_ne_nil (List.reverse_ne_nil_iff.mpr (List.cons_ne_nil c st))
    rw [render, hl]
    exact ⟨_, rfl⟩

omit [DecidableEq α] in
theorem render_getLast (hst : ∀ c ∈ st, Proper sep dot c) (h : (render sep st).getLast? = some sep) :
    render sep st = [sep] := by
  cases st with
  | nil => rfl
  | cons c st =>
    have hc := hst c (by simp)
    have hlast : (render sep (c :: st)).getLast? = c.getLast? := by
      rw [render, List.reverse_cons, List.flatMap_append, List.flatMap_singleton, List.getLast?_append,
        List.getLast?_cons, List.getLast?_eq_some_getLast hc.ne_nil]
      rfl
    rw [hlast] at h
    exact absurd (List.mem_of_getLast? h) hc.no_sep

theorem resolve_flatMap (l : List (List α)) (hl : ∀ c ∈ l, Proper sep dot c) :
    resolve sep dot st (l.flatMap (sep :: ·)) = l.reverse ++ st := by
  induction l generalizing st with
  | nil => simp [resolve, place]
  | cons c l ih =>
    have hc := hl c (by simp)
    have hl' : ∀ c ∈ l, Proper sep dot c := fun d hd => hl d (by simp [hd])
    rw [List.flatMap_cons, List.cons_append, resolve_sep]
    cases l with
    | nil => simp [resolve_last hc.no_sep, place_proper hc]
    | cons d l =>
      have hd : resolve sep dot (c :: st) ((d :: l).flatMap (sep :: ·)) = (d :: l).reverse ++ c :: st := ih hl'
      rw [List.flatMap_cons, List.cons_append, resolve_sep] at hd
      rw [List.flatMap_cons, List.cons_append, resolve_cons hc.no_sep, place_proper hc, hd]
      simp

theorem resolve_render (hst : ∀ c ∈ st, Proper sep dot c) : resolve sep dot [] (render sep st) = st := by
  cases st with
  | nil =>
    rw [render, resolve_sep]
    rfl
  | cons c st =>
    rw [render, resolve_flatMap _ fun d hd => hst d (List.mem_reverse.mp hd)]
    simp

omit [DecidableEq α] in
theorem flatMap_head (l : List (List α)) : l.flatMap (sep :: ·) = [] ∨ (l.flatMap (sep :: ·)).head? = some sep := by
  cases l with
  | nil => exact Or.inl rfl
  | cons c l => exact Or.inr rfl

theorem name_cancel {c d u v : List α} (hc : sep ∉ c) (hd : sep ∉ d) (hu : u = [] ∨ u.head? = some sep)
    (hv : v = [] ∨ v.head? = some sep) (h : c ++ u = d ++ v) : c = d ∧ u = v := by
  have hcut {e w : List α} (he : sep ∉ e) (hw : w = [] ∨ w.head? = some sep) :
      (e ++ w).takeWhile (· != sep) = e := by
    have hall : ∀ a ∈ e, (a != sep) = true := by
      intro a ha
      simp only [bne_iff_ne, ne_eq]
      rintro rfl
      exact he ha
    rw [List.takeWhile_append_of_pos hall]
    cases w with
    | nil => simp
    | cons b w =>
      have hb : b = sep := by simpa using hw
      simp [hb]
  have hcd : c = d := by rw [← hcut hc hu, h, hcut hd hv]
  subst hcd
  exact ⟨rfl, List.append_cancel_left h⟩

theorem flatMap_prefix_iff (l k : List (List α)) (hl : ∀ c ∈ l, sep ∉ c) (hk : ∀ c ∈ k, sep ∉ c) :
    (∃ x, k.flatMap (sep :: ·) = l.flatMap (sep :: ·) ++ x ∧ (x = [] ∨ x.head? = some sep)) ↔ l <+: k := by
  constructor
  · rintro ⟨x, h, hx⟩
    induction l generalizing k with
    | nil => exact List.nil_prefix
    | cons c l ih =>
      cases k with
      | nil => simp at h
      | cons d k =>
        rw [List.flatMap_cons, List.flatMap_cons, List.cons_append, List.cons_append, List.cons_append,
          List.cons.injEq, List.append_assoc] at h
        have hu : l.flatMap (sep :: ·) ++ x = [] ∨ (l.flatMap (sep :: ·) ++ x).head? = some sep := by
          rcases @flatMap_head α sep l with hnil | hhead
          · rwa [hnil, List.nil_append]
          · refine Or.inr ?_
            rw [List.head?_append, hhead]
            rfl
        obtain ⟨rfl, hrest⟩ := name_cancel (hk d (by simp)) (hl c (by simp)) (flatMap_head k) hu h.2
        exact List.prefix_cons_inj _ |>.mpr
          (ih k (fun e he => hl e (by simp [he])) (fun e he => hk e (by simp [he])) hrest)
  · rintro ⟨r, rfl⟩
    exact ⟨r.flatMap (sep :: ·), List.flatMap_append, flatMap_head r⟩

end RtSmart.Lib.Path
