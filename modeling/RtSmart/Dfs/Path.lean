import RtSmart.Lib.Path

namespace RtSmart

open Lib Lib.Path

/-- A working directory: `lwp_getcwd` falls back to the global one unless it starts with a slash. -/
def WorkDir := { dir : List Char // dir.head? = some '/' }

/-- The label `up_one`. Here and below the characters before `dst` are given last one first, and the
end of a list is the terminating zero. -/
def upOne : List Char → Option (List Char)
  | [] => none
  | c :: dst => if c = '/' ∧ dst = [] then some ['/'] else some (dst.dropWhile (· != '/'))

/-- The loop of `dfs_normalize_path`. -/
def normalizeLoop : List Char → List Char → Option (List Char)
  | ['.'], dst => some dst
  | '.' :: '/' :: src, dst => normalizeLoop (src.dropWhile (· == '/')) dst
  | ['.', '.'], dst => (upOne dst).bind fun dst => normalizeLoop [] dst
  | '.' :: '.' :: '/' :: src, dst => (upOne dst).bind fun dst => normalizeLoop (src.dropWhile (· == '/')) dst
  | src, dst =>
    match _hrest : src.dropWhile (· != '/') with
    | [] => some ((src.takeWhile (· != '/')).reverse ++ dst)
    | _ :: rest => normalizeLoop (rest.dropWhile (· == '/')) ('/' :: ((src.takeWhile (· != '/')).reverse ++ dst))
termination_by src => src.length
decreasing_by
  · have := (List.dropWhile_suffix (l := src) (· == '/')).length_le
    simp only [List.length_cons]
    omega
  · simp
  · have := (List.dropWhile_suffix (l := src) (· == '/')).length_le
    simp only [List.length_cons]
    omega
  · have h1 := (List.dropWhile_suffix (l := rest) (· == '/')).length_le
    have h2 := (List.dropWhile_suffix (l := src) (· != '/')).length_le
    rw [_hrest, List.length_cons] at h2
    omega

/-- The end of `dfs_normalize_path`: a slash at the end goes unless it is the whole path, and an empty
path becomes the root. -/
def normalizeEnd : List Char → List Char
  | [] => ['/']
  | c :: dst => if c = '/' ∧ dst ≠ [] then dst.reverse else (c :: dst).reverse

def joinPath (directory filename : List Char) : List Char :=
  if filename.head? = some '/' then filename else directory ++ '/' :: filename

def dfsNormalizePath (directory : WorkDir) (filename : List Char) : Option (List Char) :=
  (normalizeLoop (joinPath directory.val filename) []).map normalizeEnd

section resolve

variable {st : List (List Char)} {src : List Char}

/-- The buffer before `dst` between two names: each directory, followed by a slash. -/
def dirs (st : List (List Char)) : List Char :=
  (st.flatMap fun c => '/' :: c.reverse) ++ ['/']

theorem dirs_cons (c : List Char) : dirs (c :: st) = '/' :: (c.reverse ++ dirs st) := by
  simp [dirs]

theorem dirs_reverse (st : List (List Char)) : (dirs st).reverse = st.reverse.flatMap ('/' :: ·) ++ ['/'] := by
  induction st with
  | nil => rfl
  | cons c st ih => simp [dirs_cons, ih]

theorem dirs_head (st : List (List Char)) : ∃ l, dirs st = '/' :: l := by
  cases st with
  | nil => exact ⟨[], rfl⟩
  | cons c st => exact ⟨_, dirs_cons c⟩

theorem normalizeEnd_dirs (st : List (List Char)) : normalizeEnd (dirs st) = render '/' st := by
  cases st with
  | nil => rfl
  | cons c st =>
    obtain ⟨l, hl⟩ := dirs_head st
    have hne : c.reverse ++ dirs st ≠ [] := by simp [hl]
    rw [dirs_cons, normalizeEnd, if_pos ⟨rfl, hne⟩, render, List.reverse_append, dirs_reverse]
    simp

theorem normalizeEnd_name {c : List Char} (hc : Proper '/' '.' c) :
    normalizeEnd (c.reverse ++ dirs st) = render '/' (c :: st) := by
  obtain ⟨a, l, hl⟩ := List.exists_cons_of_ne_nil (List.reverse_ne_nil_iff.mpr hc.ne_nil)
  have ha : a ≠ '/' := by
    rintro rfl
    exact hc.no_sep (List.mem_reverse.mp (hl ▸ List.mem_cons_self))
  have h : normalizeEnd (a :: (l ++ dirs st)) = (a :: (l ++ dirs st)).reverse := by
    rw [normalizeEnd, if_neg fun h => ha h.1]
  rw [hl, List.cons_append, h, ← List.cons_append, ← hl, List.reverse_append, dirs_reverse]
  simp [render]

theorem upOne_dirs (hst : ∀ c ∈ st, Proper '/' '.' c) : upOne (dirs st) = some (dirs st.tail) := by
  cases st with
  | nil => rfl
  | cons c st =>
    obtain ⟨l, hl⟩ := dirs_head st
    have hc : ∀ a ∈ c.reverse, (a != '/') = true := by
      intro a ha
      simp only [bne_iff_ne, ne_eq]
      rintro rfl
      exact (hst c (by simp)).no_sep (List.mem_reverse.mp ha)
    rw [dirs_cons, upOne, if_neg (by simp [hl]), List.dropWhile_append_of_pos hc, List.tail_cons, hl,
      List.dropWhile_cons_of_neg (by simp)]

theorem dropWhile_slash_head (src : List Char) : (src.dropWhile (· == '/')).head? ≠ some '/' := by
  intro h
  have := List.head?_dropWhile_not (· == '/') src
  rw [h] at this
  simp at this

theorem normalizeLoop_eq (src dst : List Char) : ∀ st, (∀ c ∈ st, Proper '/' '.' c) → dst = dirs st →
    src.head? ≠ some '/' →
      (normalizeLoop src dst).map normalizeEnd = some (render '/' (resolve '/' '.' st src)) := by
  induction src, dst using normalizeLoop.induct with
  | case1 dst =>
    rintro st hst rfl -
    rw [normalizeLoop, resolve_last (by decide), place, if_pos (by simp), Option.map_some, normalizeEnd_dirs]
  | case2 src dst ih =>
    rintro st hst rfl -
    have hr : resolve '/' '.' st ('.' :: '/' :: src) = resolve '/' '.' st src := by
      have h : resolve '/' '.' st (['.'] ++ '/' :: src) = resolve '/' '.' (place '.' st ['.']) src :=
        resolve_cons (by decide)
      rwa [place, if_pos (by simp)] at h
    rw [normalizeLoop, ih st hst rfl (dropWhile_slash_head src), resolve_dropWhile, hr]
  | case3 dst ih =>
    rintro st hst rfl -
    rw [normalizeLoop, upOne_dirs hst, Option.bind_some,
      ih (dirs st.tail) st.tail (fun c hc => hst c (List.mem_of_mem_tail hc)) rfl (by simp)]
    rfl
  | case4 src dst ih =>
    rintro st hst rfl -
    have hr : resolve '/' '.' st ('.' :: '.' :: '/' :: src) = resolve '/' '.' st.tail src := by
      have h : resolve '/' '.' st (['.', '.'] ++ '/' :: src) = resolve '/' '.' (place '.' st ['.', '.']) src :=
        resolve_cons (by decide)
      rwa [place, if_neg (by simp), if_pos rfl] at h
    rw [normalizeLoop, upOne_dirs hst, Option.bind_some,
      ih (dirs st.tail) st.tail (fun c hc => hst c (List.mem_of_mem_tail hc)) rfl (dropWhile_slash_head src),
      resolve_dropWhile, hr]
  | case5 src dst h1 h2 h3 h4 hrest =>
    rintro st hst rfl -
    have hname : src.takeWhile (· != '/') = src := by
      have h := List.takeWhile_append_dropWhile (p := (· != '/')) (l := src)
      rwa [hrest, List.append_nil] at h
    have hno : '/' ∉ src := hname ▸ not_mem_takeWhile '/' src
    rw [normalizeLoop, hname, resolve_last hno]
    · split
      · by_cases hnil : src = []
        · subst hnil
          exact congrArg some (normalizeEnd_dirs st)
        · have hp : Proper '/' '.' src := ⟨hnil, h1, h3, hno⟩
          rw [Option.map_some, normalizeEnd_name hp, place_proper hp]
      · next h => simp [hrest] at h
    all_goals assumption
  | case6 src dst h1 h2 h3 h4 a rest hrest ih =>
    rintro st hst rfl hsrc
    have ha : a = '/' := by
      have h := List.head?_dropWhile_not (· != '/') src
      rw [hrest] at h
      simpa using h
    subst ha
    have hcut : src.takeWhile (· != '/') ++ '/' :: rest = src := by
      rw [← hrest]
      exact List.takeWhile_append_dropWhile
    have hno := not_mem_takeWhile '/' src
    generalize hname : src.takeWhile (· != '/') = name at hcut hno ih
    subst hcut
    have hp : Proper '/' '.' name := by
      refine ⟨?_, ?_, ?_, hno⟩
      · rintro rfl
        simp at hsrc
      · rintro rfl
        exact h2 rest rfl
      · rintro rfl
        exact h4 rest rfl
    have hst' : ∀ c ∈ name :: st, Proper '/' '.' c := by
      intro c hc
      rcases List.mem_cons.mp hc with rfl | hc
      · exact hp
      · exact hst c hc
    have hih := ih (name :: st) hst' (dirs_cons name).symm (dropWhile_slash_head rest)
    rw [resolve_dropWhile] at hih
    rw [resolve_cons hno, place_proper hp, ← hih, normalizeLoop]
    · split
      · next h => simp [hrest] at h
      · next h =>
        rw [hrest, List.cons.injEq] at h
        rw [hname, h.2]
    all_goals assumption

theorem joinPath_head (directory : WorkDir) (filename : List Char) :
    ∃ rest, joinPath directory.val filename = '/' :: rest := by
  have hroot : ∀ l : List Char, l.head? = some '/' → ∃ rest, l = '/' :: rest := by
    intro l hl
    cases l with
    | nil => simp at hl
    | cons a l => exact ⟨l, by simpa using hl⟩
  unfold joinPath
  split_ifs with h
  · exact hroot _ h
  · obtain ⟨rest, hd⟩ := hroot _ directory.property
    exact ⟨rest ++ '/' :: filename, by rw [hd]; rfl⟩

theorem normalizeLoop_root (rest : List Char) :
    normalizeLoop ('/' :: rest) [] = normalizeLoop (rest.dropWhile (· == '/')) (dirs []) := by
  rw [normalizeLoop]
  · rfl
  all_goals simp

/-- `dfs_normalize_path` computes the one path of the directory that its arguments name. -/
theorem dfsNormalizePath_eq (directory : WorkDir) (filename : List Char) :
    dfsNormalizePath directory filename =
      some (render '/' (resolve '/' '.' [] (joinPath directory.val filename))) := by
  obtain ⟨rest, hrest⟩ := joinPath_head directory filename
  rw [dfsNormalizePath, hrest, normalizeLoop_root, normalizeLoop_eq _ _ [] (by simp) rfl (dropWhile_slash_head rest),
    resolve_dropWhile, resolve_sep]

example : dfsNormalizePath ⟨"/a/b".toList, rfl⟩ "../c//./d/..".toList = some "/a/c".toList := by decide +kernel

theorem dfsNormalizePath_idem {directory : WorkDir} {filename p : List Char}
    (h : dfsNormalizePath directory filename = some p) (d : WorkDir) : dfsNormalizePath d p = some p := by
  rw [dfsNormalizePath_eq, Option.some.injEq] at h
  subst h
  generalize hst : resolve '/' '.' [] (joinPath directory.val filename) = st
  have hp : ∀ c ∈ st, Proper '/' '.' c := hst ▸ proper_resolve (by simp)
  have hroot : (render '/' st).head? = some '/' := by
    obtain ⟨l, hl⟩ := render_cons st
    rw [hl]
    rfl
  rw [dfsNormalizePath_eq, joinPath, if_pos hroot, resolve_render hp]

end resolve

end RtSmart
