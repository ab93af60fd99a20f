import Mathlib.Data.List.TakeWhile
import RtSmart.Dfs.Tmpfs

namespace RtSmart

open Lib Lib.Path

namespace TmpfsSb

variable {s s' : TmpfsSb} {a d p : ℕ} {c name parent : List Char} {names l : List (List Char)}

/-! Lookup goes from name to name. -/

def walk (s : TmpfsSb) : ℕ → List (List Char) → Option ℕ
  | a, [] => some a
  | a, c :: names => (s.findEntry a c).bind fun f => walk s f names

theorem walk_append (names l : List (List Char)) :
    s.walk a (names ++ l) = (s.walk a names).bind fun b => s.walk b l := by
  induction names generalizing a with
  | nil => rfl
  | cons c names ih =>
    rw [List.cons_append, walk, walk]
    cases s.findEntry a c with
    | none => rfl
    | some f => exact ih

def tails (names : List (List Char)) : List Char := names.flatMap ('/' :: ·)

theorem getSubdir_append (hc : Proper '/' '.' c) : getSubdir (c ++ tails names) = c := by
  have hdrop : (c ++ tails names).dropWhile (· = '/') = c ++ tails names := by
    cases c with
    | nil => exact absurd rfl hc.ne_nil
    | cons x c =>
      have hx : ¬x = '/' := fun hx => hc.no_sep (hx ▸ List.mem_cons_self)
      rw [List.cons_append, List.dropWhile_cons_of_neg (by simpa using hx)]
  have htake : c.takeWhile (· ≠ '/') = c := by
    apply List.takeWhile_eq_self_iff.mpr
    intro x hx
    exact decide_eq_true fun h => hc.no_sep (h ▸ hx)
  rw [getSubdir, hdrop]
  cases names with
  | nil => simpa [tails] using htake
  | cons e names =>
    rw [tails, List.flatMap_cons, List.cons_append, List.takeWhile_append, htake, if_pos rfl,
      List.takeWhile_cons_of_neg (by simp), List.append_nil]

theorem lookupLoop_name {curpath rest : List Char} (hc : '/' ∉ c) :
    s.lookupLoop a curpath (c ++ rest) = s.lookupLoop a curpath rest := by
  induction c with
  | nil => rfl
  | cons x c ih =>
    have hx : x ≠ '/' := fun hx => hc (hx ▸ List.mem_cons_self)
    rw [List.cons_append, lookupLoop, if_neg hx]
    exact ih fun h => hc (List.mem_cons_of_mem x h)

/-- The walk along the names with the copy of each; `none` when one does not fit. -/
def copied (s : TmpfsSb) : ℕ → List (List Char) → Option (Option ℕ)
  | a, [] => some (some a)
  | a, c :: names =>
    if tmpfsNameMax < c.length then none
    else
      match s.findEntry a c with
      | none => some none
      | some f => copied s f names

theorem lookupLoop_copied (hnames : ∀ e ∈ c :: names, Proper '/' '.' e) :
    s.lookupLoop a (c ++ tails names) (c ++ tails names) = s.copied a (c :: names) := by
  induction names generalizing a c with
  | nil =>
    have hc := hnames c List.mem_cons_self
    have hsub : getSubdir (c ++ tails []) = c := getSubdir_append hc
    rw [tails, List.flatMap_nil] at hsub ⊢
    rw [lookupLoop_name hc.no_sep, lookupLoop, hsub, List.append_nil, copied]
    cases s.findEntry a c <;> rfl
  | cons e names ih =>
    have hc := hnames c List.mem_cons_self
    have hsub : getSubdir (c ++ tails (e :: names)) = c := getSubdir_append hc
    rw [lookupLoop_name hc.no_sep]
    change s.lookupLoop a (c ++ tails (e :: names)) ('/' :: (e ++ tails names)) = _
    rw [lookupLoop, if_pos rfl, hsub, copied]
    cases s.findEntry a c with
    | none => rfl
    | some f =>
      dsimp only
      rw [ih fun x hx => hnames x (List.mem_cons_of_mem c hx)]

theorem chars_cons (h : ∀ e ∈ c :: names, Proper '/' '.' e) :
    (⟨c :: names, h⟩ : NormPath).chars = '/' :: (c ++ tails names) := by
  have hrev : ∀ m : List (List Char), render '/' (m ++ [c]) = (m ++ [c]).reverse.flatMap ('/' :: ·) := by
    intro m
    cases m <;> rfl
  rw [NormPath.chars, List.reverse_cons, hrev, List.reverse_append, List.reverse_reverse]
  rfl

theorem dfsTmpfsLookup_copied (path : NormPath) : s.dfsTmpfsLookup path.chars = s.copied 0 path.names := by
  obtain ⟨names, hproper⟩ := path
  cases names with
  | nil => rfl
  | cons c names =>
    have hc := hproper c List.mem_cons_self
    have hdrop : ('/' :: (c ++ tails names)).dropWhile (· = '/') = c ++ tails names := by
      rw [List.dropWhile_cons_of_pos (by simp)]
      cases c with
      | nil => exact absurd rfl hc.ne_nil
      | cons x c =>
        have hx : ¬x = '/' := fun hx => hc.no_sep (hx ▸ List.mem_cons_self)
        rw [List.cons_append, List.dropWhile_cons_of_neg (by simpa using hx)]
    have hne : c ++ tails names ≠ [] := fun hnil => hc.ne_nil (List.append_eq_nil_iff.mp hnil).1
    rw [chars_cons, dfsTmpfsLookup]
    simp only [hdrop, if_neg hne]
    exact lookupLoop_copied hproper

theorem copied_eq {r : Option ℕ} (h : s.copied a names = some r) : r = s.walk a names := by
  induction names generalizing a with
  | nil =>
    cases h
    rfl
  | cons c names ih =>
    rw [copied] at h
    split_ifs at h
    rw [walk]
    cases hf : s.findEntry a c with
    | none =>
      rw [hf] at h
      cases h
      rfl
    | some f =>
      rw [hf] at h
      exact ih h

theorem dfsTmpfsLookup_eq {path : NormPath} {r : Option ℕ} (h : s.dfsTmpfsLookup path.chars = some r) :
    r = s.walk 0 path.names := by
  rw [dfsTmpfsLookup_copied] at h
  exact copied_eq h

/-! The parent of a path. -/

theorem separateLoop_name {rest : List Char} (hc : '/' ∉ c) :
    separateLoop parent name (c ++ rest) = separateLoop parent (name ++ c) rest := by
  induction c generalizing name with
  | nil => rw [List.nil_append, List.append_nil]
  | cons x c ih =>
    have hx : x ≠ '/' := fun hx => hc (hx ▸ List.mem_cons_self)
    rw [List.cons_append, separateLoop, if_neg hx, ih fun h => hc (List.mem_cons_of_mem x h), List.append_assoc]
    rfl

theorem separateLoop_names (hnames : ∀ e ∈ c :: names, Proper '/' '.' e) :
    separateLoop parent [] (c ++ tails names) =
      some (if parent ++ tails (c :: names).dropLast = [] then ['/'] else parent ++ tails (c :: names).dropLast,
        (c :: names).getLast (List.cons_ne_nil c names)) := by
  induction names generalizing parent c with
  | nil =>
    have hc := hnames c List.mem_cons_self
    rw [separateLoop_name hc.no_sep, tails, List.flatMap_nil, separateLoop, if_neg (by simpa using hc.ne_nil)]
    simp [tails]
  | cons e names ih =>
    have hc := hnames c List.mem_cons_self
    rw [separateLoop_name hc.no_sep]
    change separateLoop parent ([] ++ c) ('/' :: (e ++ tails names)) = _
    rw [separateLoop, if_pos rfl, if_neg (by simpa using hc.ne_nil),
      ih fun x hx => hnames x (List.mem_cons_of_mem c hx)]
    simp [tails]

end TmpfsSb

def NormPath.parent (path : NormPath) : NormPath :=
  ⟨path.names.dropLast, fun c hc => path.proper c (List.mem_of_mem_dropLast hc)⟩

namespace TmpfsSb

variable {s s' : TmpfsSb} {a d p : ℕ} {c name : List Char} {names l : List (List Char)} {path : NormPath}

theorem pathSeparate_eq {parentPath fileName : List Char} (h : pathSeparate path.chars = some (parentPath, fileName)) :
    parentPath = path.parent.chars ∧ path.names = path.parent.names ++ [fileName] := by
  obtain ⟨names, hproper⟩ := path
  cases names with
  | nil => cases h
  | cons c names =>
    rw [chars_cons, pathSeparate, List.tail_cons, separateLoop_names hproper] at h
    simp only [List.nil_append, Option.some.injEq, Prod.mk.injEq] at h
    obtain ⟨hparent, hname⟩ := h
    constructor
    · rw [← hparent]
      cases hd : (c :: names).dropLast with
      | nil =>
        simp only [NormPath.parent, hd]
        rfl
      | cons e rest =>
        have hrest : ∀ x ∈ e :: rest, Proper '/' '.' x := by
          intro x hx
          rw [← hd] at hx
          exact hproper x (List.mem_of_mem_dropLast hx)
        simp only [NormPath.parent, hd, chars_cons hrest]
        rfl
    · rw [← hname]
      exact (List.dropLast_append_getLast _).symm

/-! The tree. -/

structure Tree (s : TmpfsSb) : Prop where
  linked : LinkTree s.subdirs 0 (s.live : Set ℕ)
  dirs : ∀ a, s.subdirs a ≠ [] → (s.file a).type = .dir
  names : ∀ a, ((s.subdirs a).map fun f => (s.file f).name).Nodup

theorem tree_mount : Tree mount where
  linked :=
    { rooted := by simp [mount]
      free := fun _ h => nomatch h
      parent := fun _ _ _ h => nomatch h
      nodup := fun _ => List.nodup_nil
      closed := fun _ _ h => nomatch h
      reach := by
        intro n hn
        have hz : n = 0 := by simpa [mount] using hn
        exact ⟨[], hz ▸ .nil⟩ }
  dirs _ h := absurd rfl h
  names _ := List.nodup_nil

theorem findEntry_mem {f : ℕ} (h : s.findEntry a c = some f) : f ∈ s.subdirs a ∧ (s.file f).name = c := by
  rw [findEntry] at h
  constructor
  · exact List.mem_of_find?_eq_some h
  · simpa using List.find?_some h

theorem walk_down (h : s.walk a names = some d) :
    ∃ m, Down s.subdirs a m d ∧ m.map (fun f => (s.file f).name) = names := by
  induction names generalizing a with
  | nil =>
    cases h
    exact ⟨[], .nil, rfl⟩
  | cons c names ih =>
    obtain ⟨f, hf, hrest⟩ := Option.bind_eq_some_iff.mp h
    obtain ⟨hmem, hname⟩ := findEntry_mem hf
    obtain ⟨m, hm, hnames⟩ := ih hrest
    refine ⟨f :: m, (Down.nil.snoc hmem).trans hm, ?_⟩
    rw [List.map_cons, hname, hnames]

theorem Tree.live_of_walk (h : Tree s) (hw : s.walk 0 names = some d) : d ∈ s.live := by
  obtain ⟨m, hm, -⟩ := walk_down hw
  cases hm with
  | nil => exact h.linked.rooted
  | snoc _ hc => exact (h.linked.closed _ _ hc).2

theorem Tree.prefix_of_down (h : Tree s) {m : List ℕ} (hd : s.walk 0 names = some d) (hp : s.walk 0 l = some p)
    (hm : Down s.subdirs d m p) : names <+: l := by
  obtain ⟨md, hmd, rfl⟩ := walk_down hd
  obtain ⟨mp, hmp, rfl⟩ := walk_down hp
  rw [h.linked.unique hmp (hmd.trans hm), List.map_append]
  exact List.prefix_append _ _

theorem not_mem_names_of_findEntry (h : s.findEntry p name = none) :
    name ∉ (s.subdirs p).map fun f => (s.file f).name := by
  intro hmem
  obtain ⟨f, hf, hname⟩ := List.mem_map.mp hmem
  have hno := List.find?_eq_none.mp h f hf
  exact hno (decide_eq_true hname)

/-- The condition on a step: an entry is made in a directory only, and the part of its path before its name fits into
`parent_path`; a directory that is unlinked is empty and not the root, and a renamed one does not go below itself. -/
def Allowed (s : TmpfsSb) : TmpfsOp → Prop
  | .open path flags _ =>
    flags.creat = true → s.walk 0 path.names = none →
      path.parent.chars.length < dfsPathMax ∧ ∀ p ∈ s.walk 0 path.parent.names, (s.file p).type = .dir
  | .unlink path => ∀ d ∈ s.walk 0 path.names, d ≠ 0 ∧ s.subdirs d = []
  | .rename oldpath newpath =>
    s.walk 0 newpath.names = none → s.walk 0 oldpath.names ≠ none →
      newpath.parent.chars.length < dfsPathMax ∧ ¬oldpath.names <+: newpath.parent.names ∧
        ∀ p ∈ s.walk 0 newpath.parent.names, (s.file p).type = .dir

instance (s : TmpfsSb) (op : TmpfsOp) : Decidable (s.Allowed op) :=
  match op with
  | .open path flags _ =>
    inferInstanceAs (Decidable (flags.creat = true → s.walk 0 path.names = none →
      path.parent.chars.length < dfsPathMax ∧ ∀ p ∈ s.walk 0 path.parent.names, (s.file p).type = .dir))
  | .unlink path => inferInstanceAs (Decidable (∀ d ∈ s.walk 0 path.names, d ≠ 0 ∧ s.subdirs d = []))
  | .rename oldpath newpath =>
    inferInstanceAs (Decidable (s.walk 0 newpath.names = none → s.walk 0 oldpath.names ≠ none →
      newpath.parent.chars.length < dfsPathMax ∧ ¬oldpath.names <+: newpath.parent.names ∧
        ∀ p ∈ s.walk 0 newpath.parent.names, (s.file p).type = .dir))

/-! Creation. -/

section Create

variable {flags : TmpfsFlags} {alloc : Option ℕ} {e : TmpfsErr}

theorem Tree.create (h : Tree s) (hp : p ∈ s.live) (hdir : (s.file p).type = .dir)
    (hname : s.findEntry p name = none) (hs : s.create p name flags alloc = some (s', e)) : s'.Tree := by
  unfold TmpfsSb.create at hs
  cases alloc with
  | none =>
    cases hs
    exact h
  | some d =>
    by_cases hd : d ∈ s.live
    · simp [hd] at hs
    · simp only [if_neg hd, Option.some.injEq, Prod.mk.injEq] at hs
      obtain ⟨rfl, -⟩ := hs
      have hpd : p ≠ d := fun hpd => hd (hpd ▸ hp)
      have hleaf : s.subdirs d = [] := h.linked.leaf_of_not_live (by simpa using hd)
      set f : TmpfsFile := ⟨if flags.directory then .dir else .file, name, []⟩ with hf
      set t : TmpfsSb := { s.setFile d f with live := insert d s.live } with ht
      have hfile : ∀ a, (t.listInsertAfter p d).file a =
          if a = p then { s.file p with subdirs := d :: s.subdirs p } else if a = d then f else s.file a := by
        intro a
        by_cases hap : a = p
        · subst hap
          simp [listInsertAfter, ht, setFile, subdirs, hpd]
        · by_cases had : a = d
          · subst had
            simp [listInsertAfter, ht, setFile, hap]
          · simp [listInsertAfter, ht, setFile, hap, had]
      have hsub : (t.listInsertAfter p d).subdirs = LinkTree.link s.subdirs p d := by
        funext a
        rw [subdirs, hfile]
        by_cases hap : a = p
        · subst hap
          simp [LinkTree.link]
        · by_cases had : a = d
          · subst had
            simp [LinkTree.link, hap, hf, hleaf]
          · simp [LinkTree.link, hap, had, subdirs]
      have hold : ∀ b ∈ s.live, ((t.listInsertAfter p d).file b).name = (s.file b).name := by
        intro b hb
        have hbd : b ≠ d := fun hbd => hd (hbd ▸ hb)
        rw [hfile]
        by_cases hbp : b = p
        · rw [if_pos hbp, hbp]
        · rw [if_neg hbp, if_neg hbd]
      have hmap : ∀ a, (s.subdirs a).map (fun b => ((t.listInsertAfter p d).file b).name) =
          (s.subdirs a).map fun b => (s.file b).name := by
        intro a
        apply List.map_congr_left
        intro b hb
        exact hold b (by simpa using (h.linked.closed a b hb).2)
      have hnew : ((t.listInsertAfter p d).file d).name = name := by
        rw [hfile, if_neg (Ne.symm hpd), if_pos rfl]
      constructor
      · rw [hsub]
        have hlive : ((t.listInsertAfter p d).live : Set ℕ) = insert d (s.live : Set ℕ) := by
          simp [listInsertAfter, ht]
        rw [hlive]
        exact h.linked.insert (by simpa using hp) (by simpa using hd)
      · intro a ha
        rw [hfile]
        by_cases hap : a = p
        · rw [if_pos hap]
          exact hdir
        · rw [hsub, LinkTree.link, Function.update_of_ne hap] at ha
          have had : a ≠ d := by
            rintro rfl
            exact ha hleaf
          rw [if_neg hap, if_neg had]
          exact h.dirs a ha
      · intro a
        rw [hsub]
        by_cases hap : a = p
        · subst hap
          rw [LinkTree.link, Function.update_self, List.map_cons, hnew, hmap]
          exact List.nodup_cons.mpr ⟨not_mem_names_of_findEntry hname, h.names a⟩
        · rw [LinkTree.link, Function.update_of_ne hap, hmap]
          exact h.names a

theorem Tree.dfsTmpfsOpen (h : Tree s)
    (ha : s.Allowed (.open path flags alloc))
    (hs : s.dfsTmpfsOpen path.chars flags alloc = some (s', e)) : s'.Tree := by
  obtain ⟨r, hr, hs⟩ := Option.bind_eq_some_iff.mp hs
  have hwalk := dfsTmpfsLookup_eq hr
  cases r with
  | some d =>
    cases hs
    exact h
  | none =>
    simp only at hs
    by_cases hcreat : flags.creat = true
    · rw [if_pos hcreat] at hs
      cases hsep : pathSeparate path.chars with
      | none =>
        rw [hsep] at hs
        cases hs
        exact h
      | some r =>
        obtain ⟨parentPath, fileName⟩ := r
        obtain ⟨rfl, hnames⟩ := pathSeparate_eq hsep
        simp only [hsep] at hs
        by_cases hlong : Overruns path.parent.chars fileName
        · simp [hlong] at hs
        · rw [if_neg hlong] at hs
          obtain ⟨q, hq, hs⟩ := Option.bind_eq_some_iff.mp hs
          have hparent := dfsTmpfsLookup_eq hq
          cases q with
          | none =>
            cases hs
            exact h
          | some p =>
            have hnone := hwalk.symm
            rw [hnames, walk_append, ← hparent] at hwalk
            have hfree : s.findEntry p fileName = none := by
              cases hf : s.findEntry p fileName with
              | none => rfl
              | some f => simp [walk, hf] at hwalk
            exact h.create (h.live_of_walk hparent.symm) ((ha hcreat hnone).2 p hparent.symm) hfree hs
    · rw [if_neg hcreat] at hs
      cases hs
      exact h

end Create

/-! Removal. -/

theorem Tree.dfsTmpfsUnlink {e : TmpfsErr} (h : Tree s) (ha : ∀ d ∈ s.walk 0 path.names, d ≠ 0 ∧ s.subdirs d = [])
    (hs : s.dfsTmpfsUnlink path.chars = some (s', e)) : s'.Tree := by
  obtain ⟨r, hr, hs⟩ := Option.bind_eq_some_iff.mp hs
  have hwalk := dfsTmpfsLookup_eq hr
  cases r with
  | none =>
    cases hs
    exact h
  | some d =>
    cases hs
    obtain ⟨hroot, hleaf⟩ := ha d hwalk.symm
    constructor
    · have hlive : ((s.live.erase d : Finset ℕ) : Set ℕ) = (s.live : Set ℕ) \ {d} := Finset.coe_erase d s.live
      change LinkTree (LinkTree.unlink s.subdirs d) 0 ((s.live.erase d : Finset ℕ) : Set ℕ)
      rw [hlive]
      exact h.linked.remove hroot hleaf
    · intro a hne
      apply h.dirs a
      intro hnil
      apply hne
      change (s.subdirs a).erase d = []
      rw [hnil]
      rfl
    · intro a
      exact List.Nodup.sublist ((List.erase_sublist).map _) (h.names a)

/-! Renaming. -/

theorem Tree.renamed (h : Tree s) (hp : p ∈ s.live) (hd : d ∈ s.live) (hdp : ∀ m, ¬Down s.subdirs d m p)
    (hdir : (s.file p).type = .dir) (hname : s.findEntry p name = none) :
    (((s.listRemove d).setFile d { (s.listRemove d).file d with name := name }).listInsertAfter p d).Tree := by
  set t := ((s.listRemove d).setFile d { (s.listRemove d).file d with name := name }).listInsertAfter p d with ht
  have hpd : p ≠ d := fun hpd => hdp [] (hpd ▸ .nil)
  have hsub : t.subdirs = LinkTree.link (LinkTree.unlink s.subdirs d) p d := by
    funext a
    by_cases hap : a = p
    · subst hap
      simp [ht, subdirs, listInsertAfter, setFile, listRemove, hpd, LinkTree.link, LinkTree.unlink]
    · by_cases had : a = d
      · subst had
        simp [ht, subdirs, listInsertAfter, setFile, listRemove, hap, LinkTree.link, LinkTree.unlink]
      · simp [ht, subdirs, listInsertAfter, setFile, listRemove, hap, had, LinkTree.link, LinkTree.unlink]
  have htype : ∀ a, (t.file a).type = (s.file a).type := by
    intro a
    by_cases hap : a = p
    · subst hap
      simp [ht, listInsertAfter, setFile, listRemove, hpd]
    · by_cases had : a = d
      · subst had
        simp [ht, listInsertAfter, setFile, listRemove, hap]
      · simp [ht, listInsertAfter, setFile, listRemove, hap, had]
  have hnew : (t.file d).name = name := by
    simp [ht, listInsertAfter, setFile, Ne.symm hpd]
  have hold : ∀ a ≠ d, (t.file a).name = (s.file a).name := by
    intro a had
    by_cases hap : a = p
    · subst hap
      simp [ht, listInsertAfter, setFile, listRemove, hpd]
    · simp [ht, listInsertAfter, setFile, listRemove, hap, had]
  have hmap : ∀ a, ((s.subdirs a).erase d).map (fun b => (t.file b).name) =
      ((s.subdirs a).erase d).map fun b => (s.file b).name := by
    intro a
    apply List.map_congr_left
    intro b hb
    exact hold b (h.linked.mem_unlink.mp hb).1
  have hkeep : ∀ a, (((s.subdirs a).erase d).map fun b => (s.file b).name).Nodup := fun a =>
    List.Nodup.sublist (List.erase_sublist.map _) (h.names a)
  constructor
  · rw [hsub]
    exact h.linked.move (by simpa using hp) (by simpa using hd) hdp
  · intro a ha
    rw [htype]
    by_cases hap : a = p
    · rw [hap]
      exact hdir
    · rw [hsub, LinkTree.link, Function.update_of_ne hap] at ha
      apply h.dirs a
      intro hnil
      apply ha
      rw [LinkTree.unlink, hnil]
      rfl
  · intro a
    rw [hsub]
    by_cases hap : a = p
    · subst hap
      rw [LinkTree.link, Function.update_self, List.map_cons, hnew, LinkTree.unlink, hmap]
      refine List.nodup_cons.mpr ⟨fun hmem => ?_, hkeep a⟩
      exact not_mem_names_of_findEntry hname ((List.erase_sublist.map _).subset hmem)
    · rw [LinkTree.link, Function.update_of_ne hap, LinkTree.unlink, hmap]
      exact hkeep a

/-- What a call of `dfs_tmpfs_rename` comes to. -/
theorem dfsTmpfsRename_cases {oldpath newpath : NormPath} {e : TmpfsErr}
    (hs : s.dfsTmpfsRename oldpath.chars newpath.chars = some (s', e)) :
    (s' = s ∧ e ≠ .eok) ∨
    (e = .eok ∧ ∃ d p name, s.walk 0 newpath.names = none ∧ s.walk 0 oldpath.names = some d ∧
      s.walk 0 newpath.parent.names = some p ∧ newpath.names = newpath.parent.names ++ [name] ∧
      s' = ((s.listRemove d).setFile d { (s.listRemove d).file d with name := name }).listInsertAfter p d) := by
  obtain ⟨r, hr, hs⟩ := Option.bind_eq_some_iff.mp hs
  have hnew := dfsTmpfsLookup_eq hr
  cases r with
  | some f =>
    cases hs
    exact .inl ⟨rfl, nofun⟩
  | none =>
    obtain ⟨q, hq, hs⟩ := Option.bind_eq_some_iff.mp hs
    have hold := dfsTmpfsLookup_eq hq
    cases q with
    | none =>
      cases hs
      exact .inl ⟨rfl, nofun⟩
    | some d =>
      cases hsep : pathSeparate newpath.chars with
      | none =>
        simp only [hsep] at hs
        cases hs
        exact .inl ⟨rfl, nofun⟩
      | some r =>
        obtain ⟨parentPath, fileName⟩ := r
        obtain ⟨rfl, hnames⟩ := pathSeparate_eq hsep
        simp only [hsep] at hs
        by_cases hlong : Overruns newpath.parent.chars fileName
        · simp [hlong] at hs
        · rw [if_neg hlong] at hs
          obtain ⟨u, hu, hs⟩ := Option.bind_eq_some_iff.mp hs
          have hparent := dfsTmpfsLookup_eq hu
          cases u with
          | none => cases hs
          | some p =>
            cases hs
            exact .inr ⟨rfl, d, p, fileName, hnew.symm, hold.symm, hparent.symm, hnames, rfl⟩

theorem Tree.step {op : TmpfsOp} (h : Tree s) (ha : s.Allowed op) (hs : s.step op = some s') : s'.Tree := by
  obtain ⟨⟨t, e⟩, happly, rfl⟩ := Option.map_eq_some_iff.mp hs
  cases op with
  | «open» path flags alloc => exact h.dfsTmpfsOpen ha happly
  | unlink path => exact h.dfsTmpfsUnlink ha happly
  | rename oldpath newpath =>
    rcases dfsTmpfsRename_cases happly with ⟨rfl, -⟩ | ⟨-, d, p, name, hnew, hold, hparent, hnames, rfl⟩
    · exact h
    · obtain ⟨-, hbelow, hdir⟩ := ha hnew (by simp [hold])
      have hfree : s.findEntry p name = none := by
        rw [hnames, walk_append, hparent] at hnew
        cases hf : s.findEntry p name with
        | none => rfl
        | some f => simp [walk, hf] at hnew
      apply h.renamed (h.live_of_walk hparent) (h.live_of_walk hold) _ (hdir p hparent) hfree
      intro m hm
      exact hbelow (h.prefix_of_down hold hparent hm)

/-- Any run of opens, unlinks and renames whose steps meet the condition keeps the tree. -/
theorem tmpfs_tree {es : List TmpfsOp} (h : run step mount es = some s) (hm : Meets step Allowed mount es) :
    (∀ n ∈ s.live, ∃! m, Down s.subdirs 0 m n) ∧ (∀ n m, Down s.subdirs n m n → m = []) ∧
    (∀ a, ∀ b ∈ s.subdirs a, a ∈ s.live ∧ b ∈ s.live ∧ (s.file a).type = .dir) ∧
    (∀ a, ((s.subdirs a).map fun f => (s.file f).name).Nodup) ∧
    (∀ path s' d, s.Allowed (.unlink path) → s.apply (.unlink path) = some (s', .eok) →
      s.walk 0 path.names = some d → ∀ n ∈ s.live, n = d ∧ s.subdirs d = [] ∨ n ∈ s'.live) ∧
    ∀ oldpath newpath s' e, s.apply (.rename oldpath newpath) = some (s', e) → e ≠ .eok → s' = s := by
  have ht : s.Tree := run_invariant_of_meets Tree (fun _ _ _ ht ha hs => ht.step ha hs) h hm tree_mount
  refine ⟨fun n hn => ht.linked.reach_unique hn, fun n m hl => ht.linked.acyclic hl, ?_, ht.names, ?_, ?_⟩
  · intro a b hb
    obtain ⟨hal, hbl⟩ := ht.linked.closed a b hb
    refine ⟨hal, hbl, ht.dirs a ?_⟩
    exact List.ne_nil_of_mem hb
  · intro path s' d ha hs hd n hn
    obtain ⟨r, hr, hs⟩ := Option.bind_eq_some_iff.mp hs
    rw [dfsTmpfsLookup_eq hr, hd] at hs
    cases hs
    by_cases hnd : n = d
    · exact .inl ⟨hnd, (ha d hd).2⟩
    · exact .inr (Finset.mem_erase.mpr ⟨hnd, hn⟩)
  · intro oldpath newpath s' e hs he
    rcases dfsTmpfsRename_cases hs with ⟨hsame, -⟩ | ⟨hok, -⟩
    · exact hsame
    · exact absurd hok he

def pathA : NormPath := ⟨[['a']], by decide⟩

def pathB : NormPath := ⟨[['b']], by decide⟩

def pathAB : NormPath := ⟨[['a'], ['b']], by decide⟩

def renameSteps : List TmpfsOp :=
  [.open pathA ⟨true, true⟩ (some 1), .open pathAB ⟨true, false⟩ (some 2), .rename pathA pathB]

theorem tmpfs_tree_renamed : ∃ s, run step mount renameSteps = some s ∧ 2 ∈ s.live ∧
    ∃! m, Down s.subdirs 0 m 2 := by
  have hrun : ((run step mount renameSteps).any fun s => 2 ∈ s.live) = true := by decide
  obtain ⟨s, hs, hp⟩ := (Option.any_eq_true _ _).mp hrun
  have hlive : 2 ∈ s.live := of_decide_eq_true hp
  exact ⟨s, hs, hlive, (tmpfs_tree hs (by decide)).1 2 hlive⟩

/-- A directory is unlinked while it has an entry. -/
theorem unlinked_with_entries : ¬ ∀ es s, run step mount es = some s → ∀ n ∈ s.live, ∃ m, Down s.subdirs 0 m n := by
  intro h
  have hrun : ((run step mount
      [.open pathA ⟨true, true⟩ (some 1), .open pathAB ⟨true, false⟩ (some 2), .unlink pathA]).any fun s =>
        2 ∈ s.live ∧ s.subdirs 0 = []) = true := by
    decide
  obtain ⟨s, hs, hp⟩ := (Option.any_eq_true _ _).mp hrun
  obtain ⟨hlive, hroot⟩ := of_decide_eq_true hp
  obtain ⟨m, hm⟩ := h _ s hs 2 hlive
  have hstuck : ∀ m n, Down s.subdirs 0 m n → n = 0 := by
    intro m n hd
    induction hd with
    | nil => rfl
    | snoc _ hc ih =>
      rw [ih, hroot] at hc
      cases hc
  exact absurd (hstuck m 2 hm) (by decide)

end TmpfsSb

end RtSmart
