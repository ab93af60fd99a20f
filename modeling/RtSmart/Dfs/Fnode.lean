import RtSmart.Dfs.FdNodes

/-!
The table of open files: while no descriptor whose close found its file node in other use turns out to be
the last user, and `dfs_mount` checks only directories that nobody has open, a node is in the table exactly
as long as there are files that use it, and they are as many as it counts.
-/

namespace RtSmart

open Lib Lib.Path

section path

variable {st : List (List Char)} {a b p x : List Char} {fs : Filesystem} {table : List Filesystem}

theorem render_head (st : List (List Char)) : ∃ x, render '/' st = '/' :: x := by
  cases st with
  | nil => exact ⟨[], rfl⟩
  | cons c st =>
    obtain ⟨d, l, hl⟩ := List.exists_cons_of_ne_nil (List.reverse_ne_nil_iff.mpr (List.cons_ne_nil c st))
    exact ⟨d ++ l.flatMap ('/' :: ·), by rw [render, hl]; rfl⟩

theorem render_second (hst : ∀ c ∈ st, Proper '/' '.' c) (h : render '/' st = '/' :: x) : x.head? ≠ some '/' := by
  cases st with
  | nil =>
    cases h
    simp
  | cons c st =>
    obtain ⟨d, l, hl⟩ := List.exists_cons_of_ne_nil (List.reverse_ne_nil_iff.mpr (List.cons_ne_nil c st))
    have hd : Proper '/' '.' d := hst d (List.mem_reverse.mp (hl ▸ List.mem_cons_self))
    rw [render, hl] at h
    obtain ⟨q, m, rfl⟩ := List.exists_cons_of_ne_nil hd.ne_nil
    rw [List.flatMap_cons, List.cons_append, List.cons_append, List.cons.injEq] at h
    rw [← h.2, List.head?_cons]
    intro hq
    rw [Option.some.injEq] at hq
    exact hd.no_sep (hq ▸ List.mem_cons_self)

theorem render_last (hst : ∀ c ∈ st, Proper '/' '.' c) (h : render '/' st = x ++ ['/']) : x = [] := by
  cases st with
  | nil =>
    have : x ++ ['/'] = [] ++ ['/'] := h.symm
    exact List.append_cancel_right this
  | cons c st =>
    exfalso
    have hc := hst c List.mem_cons_self
    obtain ⟨m, q, hm⟩ := (List.eq_nil_or_concat c).resolve_left hc.ne_nil
    rw [render, List.reverse_cons, List.flatMap_append, hm] at h
    have hq := congrArg List.getLast? h
    simp only [List.flatMap_cons, List.flatMap_nil, List.append_nil, List.concat_eq_append, ← List.cons_append,
      ← List.append_assoc, List.getLast?_append, List.getLast?_singleton, Option.some_or, Option.some.injEq] at hq
    exact hc.no_sep (by rw [hm, List.concat_eq_append, hq]; simp)

theorem lookupFrom_covers {fs r : Option Filesystem} {len : ℕ} (hfs : ∀ e ∈ fs, e.covers a = true)
    (hr : lookupFrom a fs len table = r) : ∀ e ∈ r, e.covers a = true := by
  induction table generalizing fs len with
  | nil => exact hr ▸ hfs
  | cons iter l ih =>
    rw [lookupFrom] at hr
    split_ifs at hr with hc
    · refine ih ?_ hr
      rintro e ⟨⟩
      exact (Bool.and_eq_true_iff.mp hc).1
    · exact ih hfs hr

theorem dfsFilesystemLookup_covers (h : dfsFilesystemLookup table a = some fs) : fs.covers a = true :=
  lookupFrom_covers (by simp) h fs rfl

theorem covers_prefix (h : fs.covers a = true) :
    ∃ p x, fs.path = some p ∧ a = p ++ x ∧ (1 < p.length → x ≠ [] → x.head? = some '/') := by
  unfold Filesystem.covers at h
  split at h
  · next p ops hp hops =>
    rw [Bool.and_eq_true] at h
    obtain ⟨x, rfl⟩ := List.isPrefixOf_iff_prefix.mp h.1
    refine ⟨p, x, hp, rfl, fun h1 hx => ?_⟩
    have h2 := h.2
    obtain ⟨q, m, rfl⟩ := List.exists_cons_of_ne_nil hx
    simpa [h1] using h2
  · cases h

theorem dfsSubdir_append (p x : List Char) : (dfsSubdir p (p ++ x)).getD ['/'] =
    if x = [] then ['/'] else if x.head? ≠ some '/' ∧ p ≠ [] then p.drop (p.length - 1) ++ x else x := by
  unfold dfsSubdir
  by_cases hx : x = []
  · simp [hx]
  · have hne : p.length ≠ (p ++ x).length := by
      have := List.length_pos_iff.mpr hx
      simp only [List.length_append]
      omega
    rw [if_neg hne, if_neg hx, List.drop_left]
    dsimp only
    split_ifs with h1
    · rw [Option.getD_some, List.drop_append_of_le_length (by omega)]
    · rfl

theorem fnodePath_inj {cfg : DfsConfig} {st' : List (List Char)} (hst : ∀ c ∈ st, Proper '/' '.' c)
    (hst' : ∀ c ∈ st', Proper '/' '.' c) (ha : fs.covers (render '/' st) = true) (hb : fs.covers (render '/' st') = true)
    (h : fnodePath cfg fs (render '/' st) = fnodePath cfg fs (render '/' st')) : render '/' st = render '/' st' := by
  unfold fnodePath at h
  split_ifs at h
  · exact h
  obtain ⟨p, x, hp, hax, hx⟩ := covers_prefix ha
  obtain ⟨p', y, hp', hby, hy⟩ := covers_prefix hb
  rw [hp] at hp'
  cases hp'
  rw [hp, Option.getD_some, hax, hby, dfsSubdir_append, dfsSubdir_append] at h
  obtain ⟨a, ha'⟩ := render_head st
  obtain ⟨b, hb'⟩ := render_head st'
  rw [hax, hby]
  match p with
  | [] =>
    have hxa : x = '/' :: a := by rw [← ha', hax]; rfl
    have hyb : y = '/' :: b := by rw [← hb', hby]; rfl
    simpa [hxa, hyb] using h
  | [q] =>
    have hxa : q = '/' ∧ x = a := by simpa [hax] using ha'
    have hyb : q = '/' ∧ y = b := by simpa [hby] using hb'
    have hx' := render_second hst ha'
    have hy' := render_second hst' hb'
    obtain ⟨rfl, rfl⟩ := hxa
    obtain ⟨-, rfl⟩ := hyb
    have hroot : ∀ z : List Char, z.head? ≠ some '/' → (if z = [] then ['/'] else
        if z.head? ≠ some '/' ∧ ['/'] ≠ [] then ['/'].drop (['/'].length - 1) ++ z else z) = '/' :: z := by
      intro z hz
      split_ifs with h1 h2
      · rw [h1]
      · rfl
      · exact absurd ⟨hz, by simp⟩ h2
    rw [hroot x hx', hroot y hy'] at h
    exact h
  | q :: r :: p =>
    have hlong : 1 < (q :: r :: p).length := by simp
    have hsub : ∀ z : List Char, (z ≠ [] → z.head? = some '/') → (if z = [] then ['/'] else
        if z.head? ≠ some '/' ∧ (q :: r :: p) ≠ [] then (q :: r :: p).drop ((q :: r :: p).length - 1) ++ z else z) =
          if z = [] then ['/'] else z := by
      intro z hz
      split_ifs with h1 h2
      · rfl
      · exact absurd (hz h1) h2.1
      · rfl
    rw [hsub x (hx hlong), hsub y (hy hlong)] at h
    have hslash : ∀ st z, (∀ c ∈ st, Proper '/' '.' c) → render '/' st = (q :: r :: p) ++ z → z ≠ ['/'] := by
      rintro st z hst hz rfl
      cases render_last hst hz
    split_ifs at h with h1 h2 h2
    · rw [h1, h2]
    · exact absurd h.symm (hslash st' y hst' hby)
    · exact absurd h (hslash st x hst hax)
    · rw [h]

end path

def DfsFd.user (x : DfsFd) : Option ℕ := if x.freed = 0 then x.fnode else none

/-- The node has the full path of a file that its file system covers, and the path that belongs to it. -/
def Made (cfg : DfsConfig) (n : DfsFnode) : Prop :=
  (∃ st, (∀ c ∈ st, Proper '/' '.' c) ∧ n.fullpath = render '/' st) ∧ n.fs.covers n.fullpath = true ∧
    n.path = fnodePath cfg n.fs n.fullpath

structure FnodeInv (cfg : DfsConfig) (s : FdSys) : Prop where
  finite : ∀ f, (refSet (fun d => (s.fds d).user) f).Finite
  count : ∀ f ∈ s.hash, (s.fnodes f).refCount = refs (fun d => (s.fds d).user) f
  used : ∀ d f, (s.fds d).user = some f → f ∈ s.hash
  pos : ∀ f ∈ s.hash, 0 < (s.fnodes f).refCount
  hashed : ∀ f, f ∈ s.hash ↔ f < s.nextFnode ∧ (s.fnodes f).freed = 0
  once : ∀ f, (s.fnodes f).freed ≤ 1
  nodup : s.hash.Nodup
  fresh : ∀ f, s.nextFnode ≤ f → (s.fnodes f).freed = 0
  paths : ∀ f ∈ s.hash, ∀ g ∈ s.hash, (s.fnodes f).fullpath = (s.fnodes g).fullpath → f = g
  made : ∀ f ∈ s.hash, Made cfg (s.fnodes f)

namespace FnodeInv

variable {cfg : DfsConfig} {s s' : FdSys} {c d f : ℕ} {x : DfsFd} {y : DfsFnode} {e : FdEvent}

theorem init : FnodeInv cfg .init where
  finite f := by simp [refSet, FdSys.init, DfsFd.user]
  count f hf := by cases hf
  used d f hd := by simp [FdSys.init, DfsFd.user] at hd
  pos f hf := by cases hf
  hashed f := by simp [FdSys.init]
  once f := by simp [FdSys.init]
  nodup := List.nodup_nil
  fresh f _ := rfl
  paths f hf := by cases hf
  made f hf := by cases hf

theorem keep (h : FnodeInv cfg s) (husers : ∀ d, (s'.fds d).user = (s.fds d).user)
    (hfnodes : ∀ f, ∃ t, s'.fnodes f = { s.fnodes f with type := t }) (hnext : s'.nextFnode = s.nextFnode)
    (hhash : s'.hash = s.hash) : FnodeInv cfg s' := by
  have hu : (fun d => (s'.fds d).user) = fun d => (s.fds d).user := funext husers
  have hcount : ∀ f, (s'.fnodes f).refCount = (s.fnodes f).refCount := fun f => by
    obtain ⟨t, ht⟩ := hfnodes f
    rw [ht]
  have hfreed : ∀ f, (s'.fnodes f).freed = (s.fnodes f).freed := fun f => by
    obtain ⟨t, ht⟩ := hfnodes f
    rw [ht]
  have hpath : ∀ f, (s'.fnodes f).fullpath = (s.fnodes f).fullpath := fun f => by
    obtain ⟨t, ht⟩ := hfnodes f
    rw [ht]
  refine ⟨?_, fun f hf => ?_, fun d f hd => ?_, fun f hf => ?_, fun f => ?_, fun f => ?_, hhash ▸ h.nodup, fun f hf => ?_,
    fun f hf g hg he => ?_, fun f hf => ?_⟩
  · rw [hu]
    exact h.finite
  · rw [hu, hcount]
    exact h.count f (hhash ▸ hf)
  · rw [hhash]
    exact h.used d f ((husers d).symm.trans hd)
  · rw [hcount]
    exact h.pos f (hhash ▸ hf)
  · rw [hhash, hfreed, hnext]
    exact h.hashed f
  · rw [hfreed]
    exact h.once f
  · rw [hfreed]
    exact h.fresh f (hnext ▸ hf)
  · rw [hpath, hpath] at he
    exact h.paths f (hhash ▸ hf) g (hhash ▸ hg) he
  · obtain ⟨t, ht⟩ := hfnodes f
    rw [ht]
    exact h.made f (hhash ▸ hf)

theorem lose (h : FnodeInv cfg s) (hd : (s.fds d).user = some f)
    (husers : (fun b => (s'.fds b).user) = Function.update (fun b => (s.fds b).user) d none)
    (hfnodes : s'.fnodes = Function.update s.fnodes f y) (hnext : s'.nextFnode = s.nextFnode)
    (hpath : y.fullpath = (s.fnodes f).fullpath) (hmade : y.fs = (s.fnodes f).fs ∧ y.path = (s.fnodes f).path)
    (hy : (2 ≤ (s.fnodes f).refCount ∧ y.refCount + 1 = (s.fnodes f).refCount ∧ y.freed = (s.fnodes f).freed ∧
        s'.hash = s.hash) ∨
      ((s.fnodes f).refCount = 1 ∧ y.freed = (s.fnodes f).freed + 1 ∧ s'.hash = s.hash.erase f)) :
    FnodeInv cfg s' := by
  have hf := h.used d f hd
  have hfreed := ((h.hashed f).mp hf).2
  have hcount := h.count f hf
  have hself : s'.fnodes f = y := by rw [hfnodes, Function.update_self]
  have hother : ∀ g, g ≠ f → s'.fnodes g = s.fnodes g := fun g hg => by rw [hfnodes, Function.update_of_ne hg]
  have hmem : ∀ g, g ∈ s'.hash → g ∈ s.hash := by
    rcases hy with ⟨-, -, -, hh⟩ | ⟨-, -, hh⟩
    · rw [hh]
      exact fun _ hg => hg
    · rw [hh]
      exact fun _ hg => List.mem_of_mem_erase hg
  have hkept : ∀ g, g ≠ f → (g ∈ s'.hash ↔ g ∈ s.hash) := by
    intro g hg
    rcases hy with ⟨-, -, -, hh⟩ | ⟨-, -, hh⟩
    · rw [hh]
    · rw [hh, List.mem_erase_of_ne hg]
  have hrefs : ∀ g, refs (fun b => (s'.fds b).user) g + (if some f = some g then 1 else 0) =
      refs (fun b => (s.fds b).user) g := by
    intro g
    have := refs_update (h.finite g) d none
    rw [husers]
    simpa [hd] using this
  refine ⟨fun g => ?_, fun g hg => ?_, fun b g hb => ?_, fun g hg => ?_, fun g => ?_, fun g => ?_, ?_, fun g hg => ?_,
    fun g hg g' hg' he => ?_, fun g hg => ?_⟩
  · rw [husers]
    exact refSet_update_finite (h.finite g) _ _
  · have hr := hrefs g
    by_cases hgf : g = f
    · subst hgf
      rcases hy with ⟨h2, h1, -, -⟩ | ⟨-, -, hh⟩
      · rw [if_pos rfl] at hr
        rw [hself]
        omega
      · rw [hh] at hg
        exact absurd hg h.nodup.not_mem_erase
    · rw [if_neg (by simpa using Ne.symm hgf)] at hr
      rw [hother g hgf, h.count g (hmem g hg)]
      omega
  · have hb' : Function.update (fun b => (s.fds b).user) d none b = some g := (congrFun husers b).symm.trans hb
    by_cases hbd : b = d
    · rw [hbd, Function.update_self] at hb'
      cases hb'
    rw [Function.update_of_ne hbd] at hb'
    have hg := h.used b g hb'
    by_cases hgf : g = f
    · subst hgf
      rcases hy with ⟨-, -, -, hh⟩ | ⟨h1, -, -⟩
      · rw [hh]
        exact hg
      · exact absurd (eq_of_refs_le_one (h.finite g) (by omega) hb' hd) hbd
    · exact (hkept g hgf).mpr hg
  · by_cases hgf : g = f
    · subst hgf
      rcases hy with ⟨h2, h1, -, -⟩ | ⟨-, -, hh⟩
      · rw [hself]
        omega
      · rw [hh] at hg
        exact absurd hg h.nodup.not_mem_erase
    · rw [hother g hgf]
      exact h.pos g (hmem g hg)
  · by_cases hgf : g = f
    · subst hgf
      rcases hy with ⟨-, -, h0, hh⟩ | ⟨-, h1, hh⟩
      · rw [hh, hself, h0, hnext]
        exact h.hashed g
      · rw [hh, hself, h1]
        simp [h.nodup.not_mem_erase]
    · rw [hkept g hgf, hother g hgf, hnext]
      exact h.hashed g
  · by_cases hgf : g = f
    · rw [hgf, hself]
      omega
    · rw [hother g hgf]
      exact h.once g
  · rcases hy with ⟨-, -, -, hh⟩ | ⟨-, -, hh⟩
    · rw [hh]
      exact h.nodup
    · rw [hh]
      exact h.nodup.erase f
  · have hgf : g ≠ f := by
      rintro rfl
      have := ((h.hashed g).mp hf).1
      omega
    rw [hother g hgf]
    exact h.fresh g (hnext ▸ hg)
  · have hsame : ∀ g, (s'.fnodes g).fullpath = (s.fnodes g).fullpath := fun g => by
      by_cases hgf : g = f
      · rw [hgf, hself, hpath]
      · rw [hother g hgf]
    rw [hsame, hsame] at he
    exact h.paths g (hmem g hg) g' (hmem g' hg') he
  · by_cases hgf : g = f
    · have := h.made f hf
      rw [hgf, hself, Made, hpath, hmade.1, hmade.2]
      exact this
    · rw [hother g hgf]
      exact h.made g (hmem g hg)

theorem gain (h : FnodeInv cfg s) (hd : (s.fds d).user = none) (hf : f ∈ s.hash)
    (husers : (fun b => (s'.fds b).user) = Function.update (fun b => (s.fds b).user) d (some f))
    (hfnodes : s'.fnodes = Function.update s.fnodes f { s.fnodes f with refCount := (s.fnodes f).refCount + 1 })
    (hnext : s'.nextFnode = s.nextFnode) (hhash : s'.hash = s.hash) : FnodeInv cfg s' := by
  have hrefs : ∀ g, refs (fun b => (s'.fds b).user) g =
      refs (fun b => (s.fds b).user) g + (if some f = some g then 1 else 0) := by
    intro g
    have := refs_update (h.finite g) d (some f)
    rw [husers]
    simpa [hd] using this
  have hcount : ∀ g, (s'.fnodes g).refCount = (s.fnodes g).refCount + (if some f = some g then 1 else 0) := fun g => by
    by_cases hg : g = f
    · rw [hg, hfnodes, Function.update_self, if_pos rfl]
    · rw [hfnodes, Function.update_of_ne hg, if_neg (by simpa using Ne.symm hg), Nat.add_zero]
  have hrest : ∀ g, ∃ n, s'.fnodes g = { s.fnodes g with refCount := n } := fun g => by
    by_cases hg : g = f
    · exact ⟨(s.fnodes f).refCount + 1, by rw [hg, hfnodes, Function.update_self]⟩
    · exact ⟨(s.fnodes g).refCount, by rw [hfnodes, Function.update_of_ne hg]⟩
  have hfreed : ∀ g, (s'.fnodes g).freed = (s.fnodes g).freed := fun g => by
    obtain ⟨n, hg⟩ := hrest g
    rw [hg]
  have hpath : ∀ g, (s'.fnodes g).fullpath = (s.fnodes g).fullpath := fun g => by
    obtain ⟨n, hg⟩ := hrest g
    rw [hg]
  refine ⟨fun g => ?_, fun g hg => ?_, fun b g hb => ?_, fun g hg => ?_, fun g => ?_, fun g => ?_, hhash ▸ h.nodup,
    fun g hg => ?_, fun g hg g' hg' he => ?_, fun g hg => ?_⟩
  · rw [husers]
    exact refSet_update_finite (h.finite g) _ _
  · rw [hcount, hrefs, h.count g (hhash ▸ hg)]
  · rw [hhash]
    have hb' : Function.update (fun b => (s.fds b).user) d (some f) b = some g := (congrFun husers b).symm.trans hb
    by_cases hbd : b = d
    · rw [hbd, Function.update_self] at hb'
      exact Option.some.inj hb' ▸ hf
    · rw [Function.update_of_ne hbd] at hb'
      exact h.used b g hb'
  · have := h.pos g (hhash ▸ hg)
    rw [hcount]
    omega
  · rw [hhash, hfreed, hnext]
    exact h.hashed g
  · rw [hfreed]
    exact h.once g
  · rw [hfreed]
    exact h.fresh g (hnext ▸ hg)
  · rw [hpath, hpath] at he
    exact h.paths g (hhash ▸ hg) g' (hhash ▸ hg') he
  · obtain ⟨n, hn⟩ := hrest g
    rw [hn]
    exact h.made g (hhash ▸ hg)

theorem create (h : FnodeInv cfg s) (hd : (s.fds d).user = none)
    (husers : (fun b => (s'.fds b).user) = Function.update (fun b => (s.fds b).user) d (some s.nextFnode))
    (hfnodes : s'.fnodes = Function.update s.fnodes s.nextFnode y) (hnext : s'.nextFnode = s.nextFnode + 1)
    (hhash : s'.hash = s.nextFnode :: s.hash) (hone : y.refCount = 1) (hfreed : y.freed = 0) (hmade : Made cfg y)
    (hpath : ∀ g ∈ s.hash, (s.fnodes g).fullpath ≠ y.fullpath) : FnodeInv cfg s' := by
  have hlt : ∀ g ∈ s.hash, g < s.nextFnode := fun g hg => ((h.hashed g).mp hg).1
  have hself : s'.fnodes s.nextFnode = y := by rw [hfnodes, Function.update_self]
  have hother : ∀ g, g ≠ s.nextFnode → s'.fnodes g = s.fnodes g := fun g hg => by rw [hfnodes, Function.update_of_ne hg]
  have hcases : ∀ g, g ∈ s'.hash → g = s.nextFnode ∨ g ∈ s.hash ∧ g ≠ s.nextFnode := fun g hg => by
    rw [hhash, List.mem_cons] at hg
    rcases hg with rfl | hg
    · exact .inl rfl
    · exact .inr ⟨hg, (hlt g hg).ne⟩
  have hrefs : ∀ g, refs (fun b => (s'.fds b).user) g =
      refs (fun b => (s.fds b).user) g + (if some s.nextFnode = some g then 1 else 0) := by
    intro g
    have := refs_update (h.finite g) d (some s.nextFnode)
    rw [husers]
    simpa [hd] using this
  have hnone : refs (fun b => (s.fds b).user) s.nextFnode = 0 :=
    (refs_eq_zero_iff (h.finite _)).mpr fun b hb => lt_irrefl _ (hlt _ (h.used b _ hb))
  refine ⟨fun g => ?_, fun g hg => ?_, fun b g hb => ?_, fun g hg => ?_, fun g => ?_, fun g => ?_, ?_, fun g hg => ?_,
    fun g hg g' hg' he => ?_, fun g hg => ?_⟩
  · rw [husers]
    exact refSet_update_finite (h.finite g) _ _
  · rcases hcases g hg with rfl | ⟨hg, hne⟩
    · rw [hself, hone, hrefs, hnone, if_pos rfl]
    · rw [hother g hne, hrefs, if_neg (by simpa using Ne.symm hne), h.count g hg, Nat.add_zero]
  · rw [hhash, List.mem_cons]
    have hb' : Function.update (fun b => (s.fds b).user) d (some s.nextFnode) b = some g :=
      (congrFun husers b).symm.trans hb
    by_cases hbd : b = d
    · rw [hbd, Function.update_self] at hb'
      exact .inl (Option.some.inj hb').symm
    · rw [Function.update_of_ne hbd] at hb'
      exact .inr (h.used b g hb')
  · rcases hcases g hg with rfl | ⟨hg, hne⟩
    · rw [hself, hone]
      exact one_pos
    · rw [hother g hne]
      exact h.pos g hg
  · by_cases hne : g = s.nextFnode
    · rw [hne, hself, hhash, hnext, hfreed]
      simp
    · rw [hother g hne, hhash, hnext, List.mem_cons, h.hashed g]
      omega
  · by_cases hne : g = s.nextFnode
    · rw [hne, hself, hfreed]
      exact zero_le_one
    · rw [hother g hne]
      exact h.once g
  · rw [hhash, List.nodup_cons]
    exact ⟨fun hg => lt_irrefl _ (hlt _ hg), h.nodup⟩
  · have hne : g ≠ s.nextFnode := by omega
    rw [hother g hne]
    exact h.fresh g (by omega)
  · rcases hcases g hg with rfl | ⟨hg, hne⟩
    · rcases hcases g' hg' with rfl | ⟨hg', hne'⟩
      · rfl
      · rw [hself, hother g' hne'] at he
        exact absurd he.symm (hpath g' hg')
    · rcases hcases g' hg' with rfl | ⟨hg', hne'⟩
      · rw [hself, hother g hne] at he
        exact absurd he (hpath g hg)
      · rw [hother g hne, hother g' hne'] at he
        exact h.paths g hg g' hg' he
  · rcases hcases g hg with rfl | ⟨hg, hne⟩
    · rw [hself]
      exact hmade
    · rw [hother g hne]
      exact h.made g hg

section step

variable {o : Opener} {σ : FdSlot} {k : PutNext} {result : CloseResult}

theorem user_update (fds : ℕ → DfsFd) (e : ℕ) (x : DfsFd) :
    (fun b => (Function.update fds e x b).user) = Function.update (fun b => (fds b).user) e x.user := by
  funext b
  by_cases hb : b = e
  · rw [hb, Function.update_self, Function.update_self]
  · rw [Function.update_of_ne hb, Function.update_of_ne hb]

theorem same (h : FnodeInv cfg s) (husers : ∀ d, (s'.fds d).user = (s.fds d).user)
    (hfnodes : s'.fnodes = s.fnodes) (hnext : s'.nextFnode = s.nextFnode) (hhash : s'.hash = s.hash) : FnodeInv cfg s' := by
  refine h.keep husers (fun f => ?_) hnext hhash
  exact ⟨(s.fnodes f).type, congrFun hfnodes f⟩

theorem user_of_fnode_none (hd : (s.fds d).fnode = none) : (s.fds d).user = none := by
  rw [DfsFd.user, hd, ite_self]

theorem finish {r : FdRet} (h : FnodeInv cfg s) : FnodeInv cfg (s.finish c r) := h.same (fun _ => rfl) rfl rfl rfl

theorem setPc {p : FdPc} (h : FnodeInv cfg s) : FnodeInv cfg (s.setPc c p) := h.same (fun _ => rfl) rfl rfl rfl

theorem putDone (h : FnodeInv cfg s) : FnodeInv cfg (s.putDone c k) := by
  cases k with
  | ret r => exact h.finish
  | retry => exact h.setPc

theorem setFd (h : FnodeInv cfg s) (hx : x.user = (s.fds d).user) : FnodeInv cfg (s.setFd d x) := by
  refine h.same (fun b => ?_) rfl rfl rfl
  exact NodeInv.update_field DfsFd.user b hx

theorem setSlot {v : Option ℕ} (h : FnodeInv cfg s) : FnodeInv cfg (s.setSlot σ v) := h.same (fun _ => rfl) rfl rfl rfl

theorem setMaxfd {t nr : ℕ} (h : FnodeInv cfg s) : FnodeInv cfg (s.setMaxfd t nr) := h.same (fun _ => rfl) rfl rfl rfl

/-- `fd_free` leaves a node that has other users to them. -/
theorem fdFree (h : FnodeInv cfg s) (hd : ∀ f ∈ (s.fds d).fnode, (s.fds d).freed = 0 ∧ 2 ≤ (s.fnodes f).refCount) :
    FnodeInv cfg (s.fdFree d) := by
  have hfreed : ({ s.fds d with freed := (s.fds d).freed + 1 } : DfsFd).user = none := if_neg (Nat.succ_ne_zero _)
  unfold FdSys.fdFree
  split
  · next hnone =>
    refine h.setFd ?_
    rw [hfreed, DfsFd.user, hnone, ite_self]
  · next f hf =>
    obtain ⟨hlive, htwo⟩ := hd f hf
    have huser : (s.fds d).user = some f := by rw [DfsFd.user, if_pos hlive, hf]
    refine h.lose huser ?_ rfl rfl rfl ⟨rfl, rfl⟩ (.inl ⟨htwo, ?_, ?_, rfl⟩)
    · exact (user_update s.fds d _).trans (congrArg _ hfreed)
    · exact Nat.sub_add_cancel (by omega)
    · have hne : (s.fnodes f).refCount - 1 ≠ 0 := by omega
      rw [if_neg hne, Nat.add_zero]

theorem fdtFdNew {t : ℕ} {mem calloc : Bool} (h : FnodeInv cfg s) (hn : NodeInv s) :
    FnodeInv cfg (s.fdtFdNew cfg c t mem calloc) := by
  unfold FdSys.fdtFdNew
  split
  · exact h.finish
  split_ifs
  · refine h.same (fun b => ?_) rfl rfl rfl
    exact NodeInv.update_field DfsFd.user b (user_of_fnode_none (hn.fresh _ le_rfl)).symm
  · exact h.setMaxfd.finish

theorem mountCheck (h : FnodeInv cfg s) (hn : NodeInv s) : FnodeInv cfg (s.mountCheck c) := by
  refine h.same (fun b => ?_) rfl rfl rfl
  exact NodeInv.update_field DfsFd.user b (user_of_fnode_none (hn.fresh _ le_rfl)).symm

theorem fdGetRef (h : FnodeInv cfg s) : FnodeInv cfg (s.fdGetRef c σ) := by
  unfold FdSys.fdGetRef
  split
  · exact h.finish
  split_ifs
  · exact setPc (setFd h rfl)
  · exact h.finish

theorem fdPut (h : FnodeInv cfg s) : FnodeInv cfg (s.fdPut c d k) := by
  unfold FdSys.fdPut
  split_ifs
  · exact putDone (setFd h rfl)
  · exact setPc (setFd h rfl)

theorem fdPutClosed (h : FnodeInv cfg s)
    (hd : result ≠ .retry → ∀ f ∈ (s.fds d).fnode, (s.fds d).freed = 0 ∧ 2 ≤ (s.fnodes f).refCount) :
    FnodeInv cfg (s.fdPutClosed c d k result) := by
  unfold FdSys.fdPutClosed
  split_ifs with hr
  · refine putDone ?_
    refine h.same (fun b => ?_) rfl rfl rfl
    exact NodeInv.update_field DfsFd.user b rfl
  · refine putDone (fdFree (h.setFd rfl) ?_)
    simpa [FdSys.setFd] using hd hr

theorem fdtFdClose {type : Option FileType} (h : FnodeInv cfg s) : FnodeInv cfg (s.fdtFdClose c σ type) := by
  unfold FdSys.fdtFdClose
  split
  · exact h.finish
  split
  · exact h.finish
  split_ifs
  · exact h.finish
  · exact finish (setFd h.setSlot rfl)
  · exact setPc (setFd h rfl)

theorem fdtFdClosed (h : FnodeInv cfg s)
    (hd : result ≠ .retry → ∀ f ∈ (s.fds d).fnode, (s.fds d).freed = 0 ∧ 2 ≤ (s.fnodes f).refCount) :
    FnodeInv cfg (s.fdtFdClosed c σ d result) := by
  unfold FdSys.fdtFdClosed
  by_cases hr : result = .retry
  · rw [if_pos hr]
    exact finish (setFd h rfl)
  · rw [if_neg hr]
    refine finish (fdFree (h.setSlot.setFd rfl) ?_)
    simpa [FdSys.setFd, FdSys.setSlot] using hd hr

theorem fdtFdRelease (h : FnodeInv cfg s) (hd : ∀ d, s.slot σ = some d → (s.fds d).fnode = none) :
    FnodeInv cfg (s.fdtFdRelease σ) := by
  unfold FdSys.fdtFdRelease
  split_ifs
  · split
    · exact h
    · next d hσ =>
      dsimp only
      split_ifs
      · refine fdFree (h.setSlot.setFd rfl) ?_
        simp [FdSys.setFd, FdSys.setSlot, hd d hσ]
      · exact h.setSlot.setFd rfl
  · exact h

theorem sysDup {t oldfd : ℕ} {mem : Bool} (h : FnodeInv cfg s) : FnodeInv cfg (s.sysDup cfg c t oldfd mem) := by
  unfold FdSys.sysDup
  split
  · exact h.finish
  split_ifs
  · exact h.finish
  split
  · exact h.finish
  · exact finish (setFd h.setMaxfd.setSlot rfl)

theorem sysDup2 {t oldfd newfd : ℕ} {mem : Bool} (h : FnodeInv cfg s) :
    FnodeInv cfg (s.sysDup2 cfg c t oldfd newfd mem) := by
  unfold FdSys.sysDup2
  split
  · exact h.finish
  split_ifs
  · exact h.finish
  split
  · exact h.finish
  dsimp only
  split
  · exact finish (setFd h.setMaxfd.setSlot rfl)
  split_ifs
  · exact h.setMaxfd.finish
  · exact h.setMaxfd.finish
  · exact setPc (setFd h.setMaxfd.setSlot rfl)

theorem fdAssociate (h : FnodeInv cfg s) : FnodeInv cfg (s.fdAssociate c σ d) := by
  unfold FdSys.fdAssociate
  split_ifs
  · exact h.finish
  · exact finish (setFd h.setSlot rfl)
  · exact h.finish

theorem openFailed {errno : FdErr} (h : FnodeInv cfg s) (hnone : (s.fds d).fnode = none) :
    FnodeInv cfg (s.openFailed c o d errno) := by
  cases o with
  | slot σ => exact h.setPc
  | mount =>
    refine (h.setFd ?_).finish
    rw [user_of_fnode_none hnone, DfsFd.user]
    exact if_neg (Nat.succ_ne_zero _)

theorem dfsFileOpen {cwd : WorkDir} {path : List Char} {table : List Filesystem} {alloc calloc : Bool}
    (h : FnodeInv cfg s) (hnone : (s.fds d).fnode = none) (hlive : (s.fds d).freed = 0) :
    FnodeInv cfg (s.dfsFileOpen cfg c o d cwd path table alloc calloc) := by
  have huser := user_of_fnode_none hnone
  have hself : ∀ f, ({ s.fds d with fnode := some f } : DfsFd).user = some f := fun f => if_pos hlive
  unfold FdSys.dfsFileOpen
  split
  · exact h.openFailed hnone
  next fullpath hpath =>
  split
  · next f hf =>
    refine setPc (h.gain huser (List.mem_of_find?_eq_some hf) ?_ rfl rfl rfl)
    exact (user_update s.fds d _).trans (congrArg _ (hself f))
  next hfind =>
  split
  · exact h.openFailed hnone
  next fs hfs =>
  split_ifs
  · exact h.openFailed hnone
  · exact h.openFailed hnone
  refine setPc (h.create huser ?_ rfl rfl rfl rfl rfl ?_ fun g hg => ?_)
  · exact (user_update s.fds d _).trans (congrArg _ (hself s.nextFnode))
  · refine ⟨⟨resolve '/' '.' [] (joinPath cwd.val path), proper_resolve (by simp), ?_⟩, dfsFilesystemLookup_covers hfs, rfl⟩
    split_ifs at hpath
    rw [dfsNormalizePath_eq] at hpath
    exact (Option.some.inj hpath).symm
  · have := List.find?_eq_none.mp hfind g hg
    simpa using this

theorem dfsFileOpened {directory : Bool} (h : FnodeInv cfg s) : FnodeInv cfg (s.dfsFileOpened c o d f directory) := by
  have hfnodes : ∀ y : DfsFnode, (∃ t, y = { s.fnodes f with type := t }) →
      ∀ g, ∃ t, Function.update s.fnodes f y g = { s.fnodes g with type := t } := by
    rintro y ⟨t, rfl⟩ g
    by_cases hg : g = f
    · exact ⟨t, by rw [hg, Function.update_self]⟩
    · exact ⟨(s.fnodes g).type, by rw [Function.update_of_ne hg]⟩
  cases o with
  | slot σ =>
    refine h.keep (fun b => ?_) (hfnodes _ ⟨_, rfl⟩) rfl rfl
    exact NodeInv.update_field DfsFd.user b rfl
  | mount => exact h.keep (fun _ => rfl) (hfnodes _ ⟨_, rfl⟩) rfl rfl

theorem dfsFileOpenFailed (h : FnodeInv cfg s) (hd : (s.fds d).user = some f) :
    FnodeInv cfg (s.dfsFileOpenFailed c o d f) := by
  have hpos := h.pos f (h.used d f hd)
  refine openFailed ?_ (by simp [FdSys.setFd])
  refine h.lose hd ?_ rfl rfl rfl ⟨rfl, rfl⟩ ?_
  · refine (user_update s.fds d _).trans (congrArg _ ?_)
    exact ite_self none
  · by_cases hone : (s.fnodes f).refCount = 1
    · refine .inr ⟨hone, ?_, ?_⟩
      · simp [hone]
      · simp [hone]
    · have hne : (s.fnodes f).refCount - 1 ≠ 0 := by omega
      refine .inl ⟨by omega, Nat.sub_add_cancel hpos, ?_, ?_⟩
      · rw [if_neg hne, Nat.add_zero]
      · exact if_neg hne

/-- `dfs_file_close` takes the node from its last user, or leaves everything as it is. -/
theorem dfsFileClose_cases {r : FdSys × CloseResult} (hr : s.dfsFileClose d result = some r) :
    r.1 = s ∨ ∃ f, (s.fds d).fnode = some f ∧ (s.fnodes f).refCount = 1 ∧
      r.1 = { (s.setFd d { s.fds d with fnode := none }).setFnode f
        { s.fnodes f with freed := (s.fnodes f).freed + 1 } with hash := s.hash.erase f } := by
  unfold FdSys.dfsFileClose at hr
  split at hr
  · cases hr
    exact .inl rfl
  next f hf =>
  split_ifs at hr with h1 h2 h3 h4 <;> cases hr
  · exact .inl rfl
  · exact .inl rfl
  · exact .inr ⟨f, hf, h4, rfl⟩
  · exact .inl rfl

theorem dfsFileClose {r : FdSys × CloseResult} (h : FnodeInv cfg s) (hlive : (s.fds d).freed = 0)
    (hr : s.dfsFileClose d result = some r) : FnodeInv cfg r.1 := by
  obtain heq | ⟨f, hf, hone, heq⟩ := dfsFileClose_cases hr
  · rw [heq]
    exact h
  · have huser : (s.fds d).user = some f := by rw [DfsFd.user, if_pos hlive, hf]
    rw [heq]
    refine h.lose huser ?_ rfl rfl rfl ⟨rfl, rfl⟩ (.inr ⟨hone, rfl, rfl⟩)
    refine (user_update s.fds d _).trans (congrArg _ ?_)
    exact ite_self none

/-- `dfs_mount` gives up a directory that nobody else has open. -/
theorem mountClose {r : FdSys × CloseResult} (h : FnodeInv cfg s) (hone : (s.fds d).refCount = 1)
    (hlive : (s.fds d).freed = 0) (hr : s.dfsFileClose d result = some r) (hres : result ≠ .retry)
    (hd : ∀ f ∈ (s.fds d).fnode, (s.fnodes f).refCount = 1) : FnodeInv cfg ((r.1.pop d).finish c .done) := by
  have hpop : (r.1.fds d).fnode = none := by
    unfold FdSys.dfsFileClose at hr
    split at hr
    · next hnone =>
      cases hr
      exact hnone
    next f hf =>
    have hf1 := hd f hf
    rw [if_neg (not_not.mpr hone)] at hr
    have hne : ¬ ((s.fnodes f).refCount = 0 ∨ result = .retry) := fun h => h.elim (by omega) hres
    rw [if_neg hne, if_pos hf1] at hr
    split_ifs at hr
    cases hr
    simp [FdSys.setFnode, FdSys.setFd]
  refine (setFd (h.dfsFileClose hlive hr) ?_).finish
  rw [user_of_fnode_none hpop, DfsFd.user]
  exact if_neg (Nat.succ_ne_zero _)

end step

end FnodeInv

namespace FdPc

def dropped : FdPc → Option ℕ
  | .put d _ .done | .put d _ .terminal => some d
  | .closed _ d .done | .closed _ d .terminal => some d
  | _ => none

/-- The file of the check in `dfs_mount`. -/
def checked : FdPc → Option ℕ
  | .mounted d => some d
  | _ => none

end FdPc

namespace FdSys

/-- A close that found other users of its file node still leaves one behind when it drops the file, and
`dfs_mount` checks a directory that nobody else has open and that its driver closes. -/
def Shared (s : FdSys) : FdEvent → Prop
  | .closed c => ∀ d ∈ (s.pc c).dropped, ∀ f ∈ (s.fds d).fnode, 2 ≤ (s.fnodes f).refCount
  | .fileClose c result => ∀ d ∈ (s.pc c).checked, result ≠ .retry ∧ ∀ f ∈ (s.fds d).fnode, (s.fnodes f).refCount = 1
  | _ => True

instance (s : FdSys) (e : FdEvent) : Decidable (s.Shared e) :=
  match e with
  | .closed c => inferInstanceAs (Decidable (∀ d ∈ (s.pc c).dropped, ∀ f ∈ (s.fds d).fnode, 2 ≤ (s.fnodes f).refCount))
  | .fileClose c result =>
    inferInstanceAs (Decidable (∀ d ∈ (s.pc c).checked, result ≠ .retry ∧
      ∀ f ∈ (s.fds d).fnode, (s.fnodes f).refCount = 1))
  | .newTable _ _ | .fdNew _ _ _ _ | .fdGet _ _ | .openGet _ | .openFind _ _ _ _ _ _ | .openFlags _ _ | .opened _ _
  | .openFailed _ | .release _ | .getRef _ _ | .put _ | .close _ _ _ | .dup _ _ _ _ | .dup2 _ _ _ _ _ | .associate _ _
  | .retry _ | .retryNext _ | .mount _ => isTrue trivial

end FdSys

namespace FnodeInv

variable {cfg : DfsConfig} {s s' : FdSys} {c d f : ℕ} {e : FdEvent}

theorem freed_of_last (hi : FdInv s) (hl : (s.pc c).last = true) (hd : (s.pc c).file = some d) :
    (s.fds d).refCount = 1 ∧ (s.fds d).freed = 0 := by
  have hone := (hi.call c).last hl d hd
  have hfreed := hi.freed d
  rw [if_neg (by omega)] at hfreed
  exact ⟨hone, hfreed⟩

theorem freed_of_opens {o : Opener} (hi : FdInv s) (hc : (s.pc c).Opens o d) : (s.fds d).freed = 0 := by
  cases o with
  | slot σ =>
    have hσ := ((hi.call c).slot σ hc.site).trans hc.file
    have hpos := hi.slot_pos hσ
    have hcount := hi.count_eq d
    have hfreed := hi.freed d
    rwa [if_neg (by omega)] at hfreed
  | mount => exact (freed_of_last hi hc.last hc.file).2

theorem step (h : FnodeInv cfg s) (hn : NodeInv s) (hok : s.Shared e) (hs : s.step cfg e = some s') :
    FnodeInv cfg s' := by
  cases e with
  | newTable t n =>
    simp only [FdSys.step] at hs
    split_ifs at hs
    cases hs
    exact h.setMaxfd
  | fdNew c t mem calloc =>
    obtain ⟨-, rfl⟩ := FdSys.start_some hs
    exact h.fdtFdNew hn
  | fdGet c σ =>
    obtain ⟨-, rfl⟩ := FdSys.start_some hs
    split
    · exact h.setPc
    · exact h.finish
  | openGet c =>
    simp only [FdSys.step] at hs
    split at hs <;> cases hs
    split
    · exact h.setPc
    · exact h.setPc
  | openFind c cwd path table alloc calloc =>
    simp only [FdSys.step] at hs
    split at hs <;> cases hs
    next o d hc _ =>
    have hnode := hn.node c
    rw [hc] at hnode
    have hopens : (s.pc c).Opens o d := hc ▸ .opening o d
    exact h.dfsFileOpen hnode (freed_of_opens hn.inv hopens)
  | openFlags c closing =>
    simp only [FdSys.step] at hs
    split at hs <;> cases hs
    exact setPc (setFd h rfl)
  | opened c directory =>
    simp only [FdSys.step] at hs
    split at hs <;> cases hs
    exact h.dfsFileOpened
  | openFailed c =>
    simp only [FdSys.step] at hs
    split at hs
    · next o d f hc =>
      split_ifs at hs
      cases hs
      have hnode := hn.node c
      rw [hc] at hnode
      have hopens : (s.pc c).Opens o d := hc ▸ .driver o d f
      refine h.dfsFileOpenFailed ?_
      rw [DfsFd.user, if_pos (freed_of_opens hn.inv hopens)]
      exact hnode
    · cases hs
  | release c =>
    simp only [FdSys.step] at hs
    split at hs <;> cases hs
    next σ d errno hc =>
    have hnode := hn.node c
    rw [hc] at hnode
    have hσ : s.slot σ = some d := (hn.inv.call c).slot σ (by rw [hc]; rfl) |>.trans (by rw [hc]; rfl)
    refine finish (fdtFdRelease (setFd h rfl) fun b hb => ?_)
    obtain rfl : b = d := Option.some.inj (hb.symm.trans hσ)
    simpa [FdSys.setFd, NodeOk] using hnode
  | getRef c σ =>
    obtain ⟨-, rfl⟩ := FdSys.start_some hs
    exact h.fdGetRef
  | put c =>
    simp only [FdSys.step] at hs
    split at hs
    · split_ifs at hs
      cases hs
      exact h.fdPut
    · cases hs
  | close c σ type =>
    obtain ⟨-, rfl⟩ := FdSys.start_some hs
    exact h.fdtFdClose
  | fileClose c result =>
    simp only [FdSys.step] at hs
    split at hs
    · next d k hc =>
      obtain ⟨r, hr, rfl⟩ := Option.map_eq_some_iff.mp hs
      exact setPc (h.dfsFileClose (freed_of_last (c := c) hn.inv (by rw [hc]; rfl) (by rw [hc]; rfl)).2 hr)
    · next σ d hc =>
      obtain ⟨r, hr, rfl⟩ := Option.map_eq_some_iff.mp hs
      exact setPc (h.dfsFileClose (freed_of_last (c := c) hn.inv (by rw [hc]; rfl) (by rw [hc]; rfl)).2 hr)
    · next d hc =>
      obtain ⟨r, hr, rfl⟩ := Option.map_eq_some_iff.mp hs
      obtain ⟨hone, hlive⟩ := freed_of_last (c := c) (d := d) hn.inv (by rw [hc]; rfl) (by rw [hc]; rfl)
      obtain ⟨hres, hd⟩ := hok d (by rw [hc]; rfl)
      exact h.mountClose hone hlive hr hres hd
    · cases hs
  | closed c =>
    simp only [FdSys.step] at hs
    split at hs <;> cases hs
    · next d k result hc =>
      have hlive := (freed_of_last (c := c) (d := d) hn.inv (by rw [hc]; rfl) (by rw [hc]; rfl)).2
      refine h.fdPutClosed fun hres f hf => ⟨hlive, hok d ?_ f hf⟩
      rw [hc]
      cases result with
      | retry => exact absurd rfl hres
      | done => rfl
      | terminal => rfl
    · next σ d result hc =>
      have hlive := (freed_of_last (c := c) (d := d) hn.inv (by rw [hc]; rfl) (by rw [hc]; rfl)).2
      refine h.fdtFdClosed fun hres f hf => ⟨hlive, hok d ?_ f hf⟩
      rw [hc]
      cases result with
      | retry => exact absurd rfl hres
      | done => rfl
      | terminal => rfl
  | dup c t oldfd mem =>
    obtain ⟨-, rfl⟩ := FdSys.start_some hs
    exact h.sysDup
  | dup2 c t oldfd newfd mem =>
    obtain ⟨-, rfl⟩ := FdSys.start_some hs
    exact h.sysDup2
  | associate c σ =>
    simp only [FdSys.step] at hs
    split at hs <;> cases hs
    exact h.fdAssociate
  | retry c =>
    obtain ⟨-, rfl⟩ := FdSys.start_some hs
    unfold FdSys.fdRetryFailedCloses
    split_ifs
    · exact h.finish
    · exact h.same (fun _ => rfl) rfl rfl rfl
  | retryNext c =>
    simp only [FdSys.step] at hs
    split at hs <;> cases hs
    unfold FdSys.fdRetryNext
    split
    · exact h.same (fun _ => rfl) rfl rfl rfl
    · exact h.same (fun _ => rfl) rfl rfl rfl
  | mount c =>
    obtain ⟨-, rfl⟩ := FdSys.start_some hs
    exact h.mountCheck hn

end FnodeInv

/-- The table and the counts, as the callers of `dfs_file_open` and `dfs_file_close` see them. -/
structure FdSys.Coherent (s : FdSys) : Prop where
  hashed : ∀ f < s.nextFnode, (s.fnodes f).freed = 0 → (f ∈ s.hash ↔ 0 < (s.fnodes f).refCount)
  count : ∀ f ∈ s.hash, {d | (s.fds d).freed = 0 ∧ (s.fds d).fnode = some f}.Finite ∧
    (s.fnodes f).refCount = {d | (s.fds d).freed = 0 ∧ (s.fds d).fnode = some f}.ncard
  used : ∀ d f, (s.fds d).freed = 0 → (s.fds d).fnode = some f → f ∈ s.hash
  paths : ∀ f ∈ s.hash, ∀ g ∈ s.hash, (s.fnodes f).fs = (s.fnodes g).fs → (s.fnodes f).path = (s.fnodes g).path → f = g
  nodup : s.hash.Nodup
  freed : ∀ f, (s.fnodes f).freed ≤ 1 ∧ ((s.fnodes f).freed = 1 → f ∉ s.hash)

theorem FnodeInv.coherent {cfg : DfsConfig} {s : FdSys} (h : FnodeInv cfg s) : s.Coherent := by
  have hset : ∀ f, refSet (fun d => (s.fds d).user) f = {d | (s.fds d).freed = 0 ∧ (s.fds d).fnode = some f} := by
    intro f
    ext d
    simp [refSet, DfsFd.user]
  refine ⟨fun f hf hfreed => ?_, fun f hf => ⟨?_, ?_⟩, fun d f hfreed hd => ?_, fun f hf g hg hfs hpath => ?_, h.nodup,
    fun f => ⟨h.once f, fun hfreed hf => ?_⟩⟩
  · have hmem := (h.hashed f).mpr ⟨hf, hfreed⟩
    exact ⟨fun _ => h.pos f hmem, fun _ => hmem⟩
  · rw [← hset]
    exact h.finite f
  · rw [← hset]
    exact h.count f hf
  · refine h.used d f ?_
    rw [DfsFd.user, if_pos hfreed, hd]
  · obtain ⟨⟨st, hst, hf'⟩, hcovers, hp⟩ := h.made f hf
    obtain ⟨⟨st', hst', hg'⟩, hcovers', hp'⟩ := h.made g hg
    rw [hf'] at hcovers hp
    rw [← hfs, hg'] at hcovers' hp'
    refine h.paths f hf g hg ?_
    rw [hf', hg']
    exact fnodePath_inj hst hst' hcovers hcovers' (hp.symm.trans (hpath.trans hp'))
  · have := ((h.hashed f).mp hf).2
    omega

end RtSmart
