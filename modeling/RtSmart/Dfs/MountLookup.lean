import RtSmart.Dfs.Fnode

/-!
`dfs_filesystem_lookup` finds the innermost mount point above a path, whatever the order of the table.
-/

namespace RtSmart

open Lib Lib.Path

/-- A file system that is mounted on the directory reached through `m`. -/
structure Filesystem.MountedOn (fs : Filesystem) (m : List (List Char)) : Prop where
  ops : fs.ops.isSome
  path : fs.path = some (render '/' m)
  proper : ∀ c ∈ m, Proper '/' '.' c

/-- The mount points are normalized and differ from each other. -/
structure MountTable (table : List Filesystem) : Prop where
  normal : ∀ fs ∈ table, fs.path.isSome → fs.ops.isSome → ∃ m, fs.MountedOn m
  distinct : ∀ fs ∈ table, ∀ fs' ∈ table, ∀ m, fs.MountedOn m → fs'.MountedOn m → fs = fs'

section lookup

variable {fs fs' : Filesystem} {table l : List Filesystem} {m m' st : List (List Char)}

theorem render_ne_nil (h : m ≠ []) : render '/' m = m.reverse.flatMap ('/' :: ·) := by
  cases m with
  | nil => exact absurd rfl h
  | cons c m => rfl

theorem one_lt_length_render (h : m ≠ []) (hm : ∀ c ∈ m, Proper '/' '.' c) : 1 < (render '/' m).length := by
  cases m with
  | nil => exact absurd rfl h
  | cons c m =>
    have hc := List.length_pos_iff.mpr (hm c List.mem_cons_self).ne_nil
    rw [render, List.reverse_cons, List.flatMap_append, List.length_append, List.flatMap_singleton, List.length_cons]
    omega

theorem covers_iff_append (h : fs.MountedOn m) (a : List Char) :
    fs.covers a = true ↔
      ∃ x, a = render '/' m ++ x ∧ (1 < (render '/' m).length → x = [] ∨ x.head? = some '/') := by
  obtain ⟨ops, hops⟩ := Option.isSome_iff_exists.mp h.ops
  constructor
  · intro hc
    obtain ⟨p, x, hp, hx, hsep⟩ := covers_prefix hc
    rw [h.path, Option.some.injEq] at hp
    subst hp
    refine ⟨x, hx, fun h1 => ?_⟩
    by_cases hnil : x = []
    · exact Or.inl hnil
    · exact Or.inr (hsep h1 hnil)
  · rintro ⟨x, rfl, hsep⟩
    unfold Filesystem.covers
    rw [h.path, hops]
    simp only [Bool.and_eq_true, Bool.not_eq_true', Bool.and_eq_false_iff, decide_eq_false_iff_not]
    refine ⟨List.isPrefixOf_iff_prefix.mpr (List.prefix_append _ _), ?_⟩
    by_cases h1 : 1 < (render '/' m).length
    · rcases hsep h1 with rfl | hx
      · exact Or.inl (Or.inr (by simp))
      · refine Or.inr ?_
        rw [List.getElem?_append_right le_rfl, Nat.sub_self, ← List.head?_eq_getElem?, hx]
        rfl
    · exact Or.inl (Or.inl h1)

theorem covers_iff (h : fs.MountedOn m) (hst : ∀ c ∈ st, Proper '/' '.' c) :
    fs.covers (render '/' st) = true ↔ m <:+ st := by
  rw [covers_iff_append h]
  by_cases hm : m = []
  · subst hm
    obtain ⟨x, hx⟩ := @render_cons Char '/' st
    exact iff_of_true ⟨x, hx, fun h1 => absurd h1 (by simp [render])⟩ List.nil_suffix
  have hlen := one_lt_length_render hm h.proper
  by_cases hnil : st = []
  · subst hnil
    refine iff_of_false ?_ fun hs => hm (List.suffix_nil.mp hs)
    rintro ⟨x, hx, -⟩
    have hle := congrArg List.length hx
    rw [List.length_append, render, List.length_singleton] at hle
    omega
  · have hsep {k : List (List Char)} (hk : ∀ c ∈ k, Proper '/' '.' c) : ∀ c ∈ k.reverse, '/' ∉ c :=
      fun c hc => (hk c (List.mem_reverse.mp hc)).no_sep
    rw [render_ne_nil hm] at hlen ⊢
    rw [render_ne_nil hnil, ← List.reverse_prefix, ← flatMap_prefix_iff _ _ (hsep h.proper) (hsep hst)]
    constructor
    · rintro ⟨x, hx, hs⟩
      exact ⟨x, hx, hs hlen⟩
    · rintro ⟨x, hx, hs⟩
      exact ⟨x, hx, fun _ => hs⟩

/-- The length that `dfs_filesystem_lookup` compares. -/
def Filesystem.pathLen (fs : Filesystem) : ℕ := (fs.path.getD []).length

theorem lookupFrom_some {path : List Char} {cur : Option Filesystem} {len : ℕ} (hcur : ∀ e ∈ cur, e.pathLen = len)
    (h : lookupFrom path cur len l = some fs) :
    (cur = some fs ∨ fs ∈ l ∧ fs.covers path = true) ∧ len ≤ fs.pathLen ∧
      ∀ e ∈ l, e.covers path = true → e.pathLen ≤ fs.pathLen := by
  induction l generalizing cur len with
  | nil => exact ⟨Or.inl h, (hcur fs h).ge, by simp⟩
  | cons iter l ih =>
    rw [lookupFrom] at h
    by_cases htake : (iter.covers path && decide (len ≤ (iter.path.getD []).length)) = true
    · rw [if_pos htake] at h
      rw [Bool.and_eq_true, decide_eq_true_eq] at htake
      obtain ⟨hfrom, hlen, hmax⟩ := ih (by rintro e ⟨⟩; rfl) h
      refine ⟨?_, htake.2.trans hlen, ?_⟩
      · rcases hfrom with ⟨⟨⟩⟩ | ⟨hmem, hc⟩
        · exact Or.inr ⟨List.mem_cons_self, htake.1⟩
        · exact Or.inr ⟨List.mem_cons_of_mem _ hmem, hc⟩
      · intro e he hc
        rcases List.mem_cons.mp he with rfl | he
        · exact hlen
        · exact hmax e he hc
    · rw [if_neg htake] at h
      obtain ⟨hfrom, hlen, hmax⟩ := ih hcur h
      refine ⟨hfrom.imp id fun hfs => ⟨List.mem_cons_of_mem _ hfs.1, hfs.2⟩, hlen, fun e he hc => ?_⟩
      rcases List.mem_cons.mp he with rfl | he
      · rw [hc, Bool.true_and, decide_eq_true_eq] at htake
        exact (Nat.lt_of_not_le htake).le.trans hlen
      · exact hmax e he hc

theorem lookupFrom_ne_none (path : List Char) (fs : Filesystem) (len : ℕ) (l : List Filesystem) :
    lookupFrom path (some fs) len l ≠ none := by
  induction l generalizing fs len with
  | nil => exact Option.some_ne_none fs
  | cons iter l ih =>
    rw [lookupFrom]
    split_ifs
    · exact ih _ _
    · exact ih _ _

theorem lookupFrom_none {path : List Char} (h : lookupFrom path none 0 l = none) :
    ∀ e ∈ l, e.covers path = false := by
  induction l with
  | nil => simp
  | cons iter l ih =>
    rw [lookupFrom] at h
    cases hc : iter.covers path with
    | false =>
      rw [hc, Bool.false_and, if_neg (by simp)] at h
      intro e he
      rcases List.mem_cons.mp he with rfl | he
      · exact hc
      · exact ih h e he
    | true =>
      rw [hc, Bool.true_and, if_pos (by simp)] at h
      exact absurd h (lookupFrom_ne_none _ _ _ _)

theorem Filesystem.MountedOn.pathLen (h : fs.MountedOn m) : fs.pathLen = (render '/' m).length := by
  rw [Filesystem.pathLen, h.path, Option.getD_some]

theorem mountedOn_of_covers (ht : MountTable table) (hfs : fs ∈ table) {path : List Char} (h : fs.covers path = true) :
    ∃ m, fs.MountedOn m := by
  apply ht.normal fs hfs
  · obtain ⟨p, -, hp, -⟩ := covers_prefix h
    rw [hp]
    rfl
  · unfold Filesystem.covers at h
    split at h
    · next hops => exact Option.isSome_iff_exists.mpr ⟨_, hops⟩
    · cases h

theorem suffix_of_length_le (hm : m <:+ st) (hm' : m' <:+ st) (hp : ∀ c ∈ m', Proper '/' '.' c)
    (hle : (render '/' m').length ≤ (render '/' m).length) : m' <:+ m := by
  rcases List.suffix_or_suffix_of_suffix hm' hm with h | h
  · exact h
  obtain ⟨k, rfl⟩ := h
  cases k with
  | nil => exact List.suffix_rfl
  | cons c k =>
    exfalso
    have hc := List.length_pos_iff.mpr (hp c (by simp)).ne_nil
    by_cases hnil : m = []
    · subst hnil
      have hlen := one_lt_length_render (by simp) hp
      simp only [render, List.length_singleton, List.cons_append] at hle hlen
      omega
    · rw [render_ne_nil hnil, render_ne_nil (by simp), List.reverse_append, List.flatMap_append, List.length_append,
        List.reverse_cons, List.flatMap_append, List.length_append, List.flatMap_singleton, List.length_cons] at hle
      omega

/-- The mount point of `fs` is the innermost above the directory reached through `st`. -/
structure Innermost (table : List Filesystem) (st m : List (List Char)) (fs : Filesystem) : Prop where
  mem : fs ∈ table
  mounted : fs.MountedOn m
  above : m <:+ st
  last : ∀ fs' ∈ table, ∀ m', fs'.MountedOn m' → m' <:+ st → m' <:+ m

theorem lookup_sound (ht : MountTable table) (hst : ∀ c ∈ st, Proper '/' '.' c)
    (h : dfsFilesystemLookup table (render '/' st) = some fs) : ∃ m, Innermost table st m fs := by
  obtain ⟨hfrom, -, hmax⟩ := lookupFrom_some (by simp) h
  rcases hfrom with ⟨⟨⟩⟩ | ⟨hmem, hc⟩
  obtain ⟨m, hm⟩ := mountedOn_of_covers ht hmem hc
  have habove := (covers_iff hm hst).mp hc
  refine ⟨m, hmem, hm, habove, fun fs' hfs' m' hm' habove' => ?_⟩
  have hlen := hmax fs' hfs' ((covers_iff hm' hst).mpr habove')
  rw [hm.pathLen, hm'.pathLen] at hlen
  exact suffix_of_length_le habove habove' hm'.proper hlen

theorem innermost_unique (ht : MountTable table) (h : Innermost table st m fs) (h' : Innermost table st m' fs') :
    fs = fs' := by
  have hle := h'.last fs h.mem m h.mounted h.above
  have hge := h.last fs' h'.mem m' h'.mounted h'.above
  have heq : m = m' := hle.eq_of_length (hle.length_le.antisymm hge.length_le)
  subst heq
  exact ht.distinct fs h.mem fs' h'.mem m h.mounted h'.mounted

theorem dfsSubdir_render {rel : List (List Char)} (hp : ∀ c ∈ rel ++ m, Proper '/' '.' c) :
    dfsSubdir (render '/' m) (render '/' (rel ++ m)) = if rel = [] then none else some (render '/' rel) := by
  by_cases hrel : rel = []
  · rw [if_pos hrel, dfsSubdir, hrel, List.nil_append, if_pos rfl]
  have hp' : ∀ c ∈ rel, Proper '/' '.' c := fun c hc => hp c (List.mem_append_left m hc)
  have hrender : render '/' rel = rel.reverse.flatMap ('/' :: ·) := render_ne_nil hrel
  rw [if_neg hrel]
  by_cases hm : m = []
  · subst hm
    obtain ⟨x, hx⟩ := @render_cons Char '/' rel
    have hlen := one_lt_length_render hrel hp'
    have hsecond := render_second hp' hx
    rw [List.append_nil, hx] at *
    rw [dfsSubdir, render, if_neg (by simp only [List.length_singleton]; omega)]
    simp only [List.length_singleton, List.drop_succ_cons, List.drop_zero]
    rw [if_pos ⟨hsecond, by simp⟩, Nat.sub_self, List.drop_zero]
  · have happ : render '/' (rel ++ m) = render '/' m ++ render '/' rel := by
      rw [render_ne_nil (by simp [hm]), render_ne_nil hm, hrender, List.reverse_append, List.flatMap_append]
    obtain ⟨x, hx⟩ := @render_cons Char '/' rel
    rw [happ, dfsSubdir, if_neg (by rw [List.length_append, hx, List.length_cons]; omega), List.drop_left]
    dsimp only
    rw [if_neg (by rw [hx]; simp)]

theorem resolve_append (a b : List Char) (st : List (List Char)) :
    resolve '/' '.' st (a ++ '/' :: b) = resolve '/' '.' (resolve '/' '.' st a) b := by
  rw [resolve, List.splitOn_append_cons_self, List.foldl_append]
  rfl

theorem resolve_rest (m rel : List (List Char)) (hp : ∀ c ∈ rel ++ m, Proper '/' '.' c) :
    resolve '/' '.' [] (render '/' m ++ '/' :: (if rel = [] then none else some (render '/' rel)).getD ['/']) =
      rel ++ m := by
  rw [resolve_append, resolve_render fun c hc => hp c (List.mem_append_right rel hc)]
  by_cases hrel : rel = []
  · rw [if_pos hrel, Option.getD_none, resolve_sep, hrel]
    rfl
  · have hp' : ∀ c ∈ rel.reverse, Proper '/' '.' c :=
      fun c hc => hp c (List.mem_append_left m (List.mem_reverse.mp hc))
    rw [if_neg hrel, Option.getD_some, render_ne_nil hrel, resolve_flatMap _ hp', List.reverse_reverse]

/-- The lookup finds the file system whose mount point is the longest prefix by whole names, if there is one,
and the rest of the path is the way from there. -/
theorem filesystem_lookup_innermost (table : List Filesystem) (st : List (List Char)) (ht : MountTable table)
    (hst : ∀ c ∈ st, Proper '/' '.' c) :
    (∀ fs, dfsFilesystemLookup table (render '/' st) = some fs ↔ ∃ m, Innermost table st m fs) ∧
      (dfsFilesystemLookup table (render '/' st) = none ↔ ∀ fs ∈ table, ∀ m, fs.MountedOn m → ¬m <:+ st) ∧
      ∀ fs m, Innermost table st m fs → ∃ rel, st = rel ++ m ∧
        dfsSubdir (render '/' m) (render '/' st) = (if rel = [] then none else some (render '/' rel)) ∧
        resolve '/' '.' [] (render '/' m ++ '/' :: (dfsSubdir (render '/' m) (render '/' st)).getD ['/']) = st := by
  have hsome (fs : Filesystem) : dfsFilesystemLookup table (render '/' st) = some fs ↔ ∃ m, Innermost table st m fs := by
    refine ⟨lookup_sound ht hst, fun ⟨m, hm⟩ => ?_⟩
    cases hl : dfsFilesystemLookup table (render '/' st) with
    | none =>
      have hno := lookupFrom_none hl fs hm.mem
      rw [(covers_iff hm.mounted hst).mpr hm.above] at hno
      cases hno
    | some fs' =>
      obtain ⟨m', hm'⟩ := lookup_sound ht hst hl
      rw [innermost_unique ht hm hm']
  refine ⟨hsome, ⟨fun hl fs hfs m hm habove => ?_, fun hno => ?_⟩, ?_⟩
  · have hc := lookupFrom_none hl fs hfs
    rw [(covers_iff hm hst).mpr habove] at hc
    cases hc
  · cases hl : dfsFilesystemLookup table (render '/' st) with
    | none => rfl
    | some fs =>
      obtain ⟨m, hm⟩ := lookup_sound ht hst hl
      exact absurd hm.above (hno fs hm.mem m hm.mounted)
  · rintro fs m hm
    obtain ⟨rel, rfl⟩ := hm.above
    refine ⟨rel, rfl, dfsSubdir_render hst, ?_⟩
    rw [dfsSubdir_render hst]
    exact resolve_rest m rel hst

def rootFs : Filesystem := ⟨none, some ['/'], some romfs, none⟩

def mntFs : Filesystem := ⟨none, some ['/', 'm', 'n', 't'], some romfs, none⟩

theorem mountTable_rootFs : MountTable [rootFs, mntFs] where
  normal := by
    intro fs hfs _ _
    rcases List.mem_pair.mp hfs with rfl | rfl
    · exact ⟨[], rfl, rfl, by simp⟩
    · exact ⟨[['m', 'n', 't']], rfl, rfl, by decide⟩
  distinct := by
    intro fs hfs fs' hfs' m hm hm'
    have hpath := hm.path.trans hm'.path.symm
    rcases List.mem_pair.mp hfs with rfl | rfl <;> rcases List.mem_pair.mp hfs' with rfl | rfl
    · rfl
    · exact absurd hpath (by decide)
    · exact absurd hpath (by decide)
    · rfl

theorem filesystem_lookup_innermost_mnt2 :
    ∃ m, Innermost [rootFs, mntFs] [['x'], ['m', 'n', 't', '2']] m rootFs :=
  ((filesystem_lookup_innermost [rootFs, mntFs] [['x'], ['m', 'n', 't', '2']] mountTable_rootFs (by decide)).1 rootFs).mp
    (by decide)

end lookup

end RtSmart
