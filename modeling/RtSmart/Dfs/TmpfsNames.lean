import RtSmart.Dfs.TmpfsTree

/-!
The buffers for one name in `dfs_tmpfs.c`: `subdir_name`, which `dfs_tmpfs_lookup` lets `_get_subdir` fill, and
`file_name`, which `_path_separate` fills and terminates.
-/

namespace RtSmart

open Lib Lib.Path

/-- The calls that take a path. -/
inductive TmpfsCall
  | stat (path : NormPath)
  | op (op : TmpfsOp)
deriving DecidableEq

namespace TmpfsSb

variable {s s' : TmpfsSb} {a d p : ℕ} {c : List Char} {names l : List (List Char)} {path : NormPath}

/-- Each name that the walk reaches fits into `subdir_name`. -/
def Reached (s : TmpfsSb) (a : ℕ) (names : List (List Char)) : Prop :=
  ∀ l c rest, names = l ++ c :: rest → (s.walk a l).isSome = true → c.length ≤ tmpfsNameMax

theorem reached_cons : s.Reached a (c :: names) ↔
    c.length ≤ tmpfsNameMax ∧ ∀ f, s.findEntry a c = some f → s.Reached f names := by
  constructor
  · intro h
    refine ⟨h [] c names rfl rfl, fun f hf l e rest hnames hl => ?_⟩
    refine h (c :: l) e rest (congrArg (c :: ·) hnames) ?_
    rwa [walk, hf, Option.bind_some]
  · rintro ⟨hc, hrest⟩ l e rest hnames hl
    cases l with
    | nil =>
      obtain ⟨rfl, -⟩ := List.cons.inj hnames
      exact hc
    | cons x l =>
      obtain ⟨rfl, htail⟩ := List.cons.inj hnames
      rw [walk] at hl
      cases hf : s.findEntry a c with
      | none => simp [hf] at hl
      | some f =>
        rw [hf, Option.bind_some] at hl
        exact hrest f hf l e rest htail hl

theorem copied_isSome : (s.copied a names).isSome = true ↔ s.Reached a names := by
  induction names generalizing a with
  | nil => exact ⟨fun _ l c rest h => by simp at h, fun _ => rfl⟩
  | cons c names ih =>
    rw [reached_cons, copied]
    by_cases hc : tmpfsNameMax < c.length
    · rw [if_pos hc]
      simp [Nat.not_le.mpr hc]
    · rw [if_neg hc]
      cases hf : s.findEntry a c with
      | none => simp [Nat.not_lt.mp hc]
      | some f => simpa [Nat.not_lt.mp hc] using ih

theorem lookup_isSome (path : NormPath) : (s.dfsTmpfsLookup path.chars).isSome = true ↔ s.Reached 0 path.names := by
  rw [dfsTmpfsLookup_copied, copied_isSome]

theorem lookup_eq_none_iff (h : s.Reached 0 path.names) :
    s.dfsTmpfsLookup path.chars = some none ↔ s.walk 0 path.names = none := by
  obtain ⟨r, hr⟩ := Option.isSome_iff_exists.mp ((lookup_isSome path).mpr h)
  rw [hr, dfsTmpfsLookup_eq hr, Option.some.injEq]

theorem Reached.parent (h : s.Reached 0 path.names) : s.Reached 0 path.parent.names := by
  intro l c rest hnames hl
  have hprefix : path.parent.names <+: path.names := List.dropLast_prefix path.names
  obtain ⟨t, ht⟩ := hprefix
  rw [hnames] at ht
  refine h l c (rest ++ t) ?_ hl
  rw [← ht, List.append_assoc, List.cons_append]

def SeparateInBounds (s : TmpfsSb) (path : List Char) : Prop :=
  ∀ parentPath fileName, pathSeparate path = some (parentPath, fileName) →
    fileName.length < tmpfsNameMax ∧ (s.dfsTmpfsLookup parentPath).isSome = true

/-- No copy of a name leaves its buffer. -/
def InBounds (s : TmpfsSb) : TmpfsCall → Prop
  | .stat path => (s.dfsTmpfsLookup path.chars).isSome = true
  | .op (.unlink path) => (s.dfsTmpfsLookup path.chars).isSome = true
  | .op (.open path flags _) =>
    (s.dfsTmpfsLookup path.chars).isSome = true ∧
      (s.dfsTmpfsLookup path.chars = some none → flags.creat = true → s.SeparateInBounds path.chars)
  | .op (.rename oldpath newpath) =>
    (s.dfsTmpfsLookup newpath.chars).isSome = true ∧
      (s.dfsTmpfsLookup newpath.chars = some none →
        (s.dfsTmpfsLookup oldpath.chars).isSome = true ∧
          (s.dfsTmpfsLookup oldpath.chars ≠ some none → s.SeparateInBounds newpath.chars))

/-- The last name fits into `file_name`. -/
def LastFits (path : NormPath) : Prop := ∀ c ∈ path.names.getLast?, c.length < tmpfsNameMax

theorem pathSeparate_isSome (h : path.names ≠ []) :
    ∃ parentPath fileName, pathSeparate path.chars = some (parentPath, fileName) := by
  obtain ⟨names, hproper⟩ := path
  cases names with
  | nil => exact absurd rfl h
  | cons c names =>
    rw [chars_cons, pathSeparate, List.tail_cons, separateLoop_names hproper]
    exact ⟨_, _, rfl⟩

theorem separateInBounds_iff (h : s.Reached 0 path.names) : s.SeparateInBounds path.chars ↔ LastFits path := by
  constructor
  · intro hsep c hc
    have hne : path.names ≠ [] := by
      rintro hnil
      simp [hnil] at hc
    obtain ⟨parentPath, fileName, hp⟩ := pathSeparate_isSome hne
    have hlast := (pathSeparate_eq hp).2
    rw [hlast, List.getLast?_concat, Option.mem_some_iff] at hc
    exact hc ▸ (hsep parentPath fileName hp).1
  · intro hlast parentPath fileName hp
    obtain ⟨rfl, hnames⟩ := pathSeparate_eq hp
    refine ⟨hlast fileName ?_, (lookup_isSome _).mpr h.parent⟩
    rw [hnames, List.getLast?_concat, Option.mem_some_iff]

/-- What keeps the copies of a call in their buffers, in terms of the names. -/
def Short (s : TmpfsSb) : TmpfsCall → Prop
  | .stat path => s.Reached 0 path.names
  | .op (.unlink path) => s.Reached 0 path.names
  | .op (.open path flags _) =>
    s.Reached 0 path.names ∧ (s.walk 0 path.names = none → flags.creat = true → LastFits path)
  | .op (.rename oldpath newpath) =>
    s.Reached 0 newpath.names ∧
      (s.walk 0 newpath.names = none →
        s.Reached 0 oldpath.names ∧ (s.walk 0 oldpath.names ≠ none → LastFits newpath))

theorem inBounds_iff (call : TmpfsCall) : s.InBounds call ↔ s.Short call := by
  cases call with
  | stat path => exact lookup_isSome path
  | op op =>
    cases op with
    | «open» path flags alloc =>
      simp only [InBounds, Short, lookup_isSome]
      refine and_congr_right fun h => ?_
      rw [lookup_eq_none_iff h, separateInBounds_iff h]
    | unlink path => exact lookup_isSome path
    | rename oldpath newpath =>
      simp only [InBounds, Short, lookup_isSome]
      refine and_congr_right fun h => ?_
      rw [lookup_eq_none_iff h, separateInBounds_iff h]
      refine imp_congr_right fun _ => and_congr_right fun hold => ?_
      rw [ne_eq, lookup_eq_none_iff hold]

/-! A name that does not fit is not the name of anything. -/

def NamesFit (s : TmpfsSb) : Prop := ∀ a, (s.file a).name.length < tmpfsNameMax

theorem namesFit_mount : mount.NamesFit := by
  intro a
  change ['/'].length < tmpfsNameMax
  decide

theorem NamesFit.listRemove (h : s.NamesFit) : (s.listRemove d).NamesFit := fun a => h a

theorem NamesFit.listInsertAfter (h : s.NamesFit) : (s.listInsertAfter p d).NamesFit := by
  intro a
  by_cases ha : a = p
  · subst ha
    simpa [TmpfsSb.listInsertAfter] using h a
  · simpa [TmpfsSb.listInsertAfter, Function.update_of_ne ha] using h a

theorem NamesFit.setFile (h : s.NamesFit) {f : TmpfsFile} (hf : f.name.length < tmpfsNameMax) :
    (s.setFile d f).NamesFit := by
  intro a
  by_cases ha : a = d
  · subst ha
    simpa [TmpfsSb.setFile] using hf
  · simpa [TmpfsSb.setFile, Function.update_of_ne ha] using h a

theorem NamesFit.create (h : s.NamesFit) {flags : TmpfsFlags} {alloc : Option ℕ} {e : TmpfsErr}
    (hc : c.length < tmpfsNameMax) (hs : s.create p c flags alloc = some (s', e)) : s'.NamesFit := by
  cases alloc with
  | none =>
    cases hs
    exact h
  | some d =>
    rw [TmpfsSb.create] at hs
    by_cases hl : d ∈ s.live
    · rw [if_pos hl] at hs
      exact nomatch hs
    · rw [if_neg hl] at hs
      obtain ⟨rfl, -⟩ := Prod.mk.inj (Option.some.inj hs)
      have hfile : (s.setFile d ⟨if flags.directory then .dir else .file, c, []⟩).NamesFit := h.setFile hc
      exact NamesFit.listInsertAfter hfile

theorem NamesFit.step {op : TmpfsOp} (h : s.NamesFit) (hstep : s.step op = some s') : s'.NamesFit := by
  obtain ⟨⟨t, e⟩, ha, rfl⟩ := Option.map_eq_some_iff.mp hstep
  cases op with
  | «open» path flags alloc =>
    obtain ⟨r, -, hs⟩ := Option.bind_eq_some_iff.mp ha
    cases r with
    | some d =>
      cases hs
      exact h
    | none =>
      dsimp only at hs
      split at hs
      · split at hs
        · cases hs
          exact h
        · split at hs
          · exact nomatch hs
          · rename_i hlen
            obtain ⟨r, -, hs⟩ := Option.bind_eq_some_iff.mp hs
            cases r with
            | none =>
              cases hs
              exact h
            | some p => exact h.create (Nat.lt_of_not_le (not_or.mp hlen).2) hs
      · cases hs
        exact h
  | unlink path =>
    obtain ⟨r, -, hs⟩ := Option.bind_eq_some_iff.mp ha
    cases r with
    | none =>
      cases hs
      exact h
    | some d =>
      cases hs
      exact h.listRemove
  | rename oldpath newpath =>
    obtain ⟨r, -, hs⟩ := Option.bind_eq_some_iff.mp ha
    cases r with
    | some d =>
      cases hs
      exact h
    | none =>
      obtain ⟨r, -, hs⟩ := Option.bind_eq_some_iff.mp hs
      cases r with
      | none =>
        cases hs
        exact h
      | some d =>
        dsimp only at hs
        split at hs
        · cases hs
          exact h
        · split at hs
          · exact nomatch hs
          · rename_i hlen
            obtain ⟨r, -, hs⟩ := Option.bind_eq_some_iff.mp hs
            cases r with
            | none => exact nomatch hs
            | some p =>
              cases hs
              exact ((h.listRemove).setFile (Nat.lt_of_not_le (not_or.mp hlen).2)).listInsertAfter

theorem NamesFit.length_lt (h : s.NamesFit) (hw : s.walk a names = some d) (hc : c ∈ names) :
    c.length < tmpfsNameMax := by
  induction names generalizing a with
  | nil => cases hc
  | cons e names ih =>
    obtain ⟨f, hf, hrest⟩ := Option.bind_eq_some_iff.mp hw
    rcases List.mem_cons.mp hc with rfl | hc
    · rw [← (findEntry_mem hf).2]
      exact h f
    · exact ih hrest hc

def Long (path : NormPath) : Prop := ∃ c ∈ path.names, tmpfsNameMax ≤ c.length

theorem NamesFit.walk_none (h : s.NamesFit) (hlong : Long path) : s.walk 0 path.names = none := by
  obtain ⟨c, hc, hlen⟩ := hlong
  cases hw : s.walk 0 path.names with
  | none => rfl
  | some d => exact absurd (h.length_lt hw hc) (Nat.not_lt.mpr hlen)

theorem Long.parent (h : Long path) (hnames : path.names = path.parent.names ++ [c]) (hc : c.length < tmpfsNameMax) :
    Long path.parent := by
  obtain ⟨e, he, hlen⟩ := h
  rw [hnames, List.mem_append, List.mem_singleton] at he
  rcases he with he | rfl
  · exact ⟨e, he, hlen⟩
  · exact absurd hlen (Nat.not_le.mpr hc)

/-- The call finds nothing and changes nothing when a name is too long. -/
def Refused (s : TmpfsSb) : TmpfsCall → Prop
  | .stat path => Long path → ∀ r, s.dfsTmpfsLookup path.chars = some r → r = none
  | .op (.open path flags alloc) => Long path → ∀ r, s.apply (.open path flags alloc) = some r → r.1 = s ∧ r.2 ≠ .eok
  | .op (.unlink path) => Long path → ∀ r, s.apply (.unlink path) = some r → r.1 = s ∧ r.2 ≠ .eok
  | .op (.rename oldpath newpath) =>
    Long oldpath ∨ Long newpath → ∀ r, s.apply (.rename oldpath newpath) = some r → r.1 = s ∧ r.2 ≠ .eok

section refused

variable {r : TmpfsSb × TmpfsErr}

theorem NamesFit.lookup_long (h : s.NamesFit) (hlong : Long path) {f : Option ℕ}
    (hf : s.dfsTmpfsLookup path.chars = some f) : f = none :=
  (dfsTmpfsLookup_eq hf).trans (h.walk_none hlong)

theorem NamesFit.parent_long (h : s.NamesFit) (hlong : Long path) {parentPath fileName : List Char}
    (hp : pathSeparate path.chars = some (parentPath, fileName)) (hlen : fileName.length < tmpfsNameMax) {f : Option ℕ}
    (hf : s.dfsTmpfsLookup parentPath = some f) : f = none := by
  obtain ⟨rfl, hnames⟩ := pathSeparate_eq hp
  exact h.lookup_long (hlong.parent hnames hlen) hf

theorem NamesFit.refused_open (h : s.NamesFit) (hlong : Long path) {flags : TmpfsFlags} {alloc : Option ℕ}
    (hs : s.apply (.open path flags alloc) = some r) : r.1 = s ∧ r.2 ≠ .eok := by
  obtain ⟨f, hf, hs⟩ := Option.bind_eq_some_iff.mp hs
  obtain rfl := h.lookup_long hlong hf
  dsimp only at hs
  split at hs
  · split at hs
    · cases hs
      exact ⟨rfl, nofun⟩
    · rename_i parentPath fileName hp
      split at hs
      · exact nomatch hs
      · rename_i hlen
        obtain ⟨f, hf, hs⟩ := Option.bind_eq_some_iff.mp hs
        obtain rfl := h.parent_long hlong hp (Nat.lt_of_not_le (not_or.mp hlen).2) hf
        cases hs
        exact ⟨rfl, nofun⟩
  · cases hs
    exact ⟨rfl, nofun⟩

theorem NamesFit.refused_rename (h : s.NamesFit) {oldpath newpath : NormPath} (hlong : Long oldpath ∨ Long newpath)
    (hs : s.apply (.rename oldpath newpath) = some r) : r.1 = s ∧ r.2 ≠ .eok := by
  obtain ⟨f, hf, hs⟩ := Option.bind_eq_some_iff.mp hs
  cases f with
  | some d =>
    cases hs
    exact ⟨rfl, nofun⟩
  | none =>
    obtain ⟨f, hold, hs⟩ := Option.bind_eq_some_iff.mp hs
    cases f with
    | none =>
      cases hs
      exact ⟨rfl, nofun⟩
    | some d =>
      have hnew : Long newpath := by
        rcases hlong with hlong | hlong
        · exact nomatch h.lookup_long hlong hold
        · exact hlong
      dsimp only at hs
      split at hs
      · cases hs
        exact ⟨rfl, nofun⟩
      · rename_i parentPath fileName hp
        split at hs
        · exact nomatch hs
        · rename_i hlen
          obtain ⟨f, hf, hs⟩ := Option.bind_eq_some_iff.mp hs
          obtain rfl := h.parent_long hnew hp (Nat.lt_of_not_le (not_or.mp hlen).2) hf
          exact nomatch hs

theorem NamesFit.refused (h : s.NamesFit) (call : TmpfsCall) : s.Refused call := by
  cases call with
  | stat path => exact fun hlong _ hf => h.lookup_long hlong hf
  | op op =>
    cases op with
    | «open» path flags alloc => exact fun hlong _ hs => h.refused_open hlong hs
    | unlink path =>
      intro hlong r hs
      obtain ⟨f, hf, hs⟩ := Option.bind_eq_some_iff.mp hs
      obtain rfl := h.lookup_long hlong hf
      cases hs
      exact ⟨rfl, nofun⟩
    | rename oldpath newpath => exact fun hlong _ hs => h.refused_rename hlong hs

end refused

/-- In any state that calls lead to, the next one keeps to its buffers and refuses the names that do not fit as long
as those that it reaches do. -/
theorem tmpfs_names_bounded {es : List TmpfsOp} (h : run step mount es = some s) (call : TmpfsCall) :
    s.InBounds call ∧ s.Refused call ↔ s.Short call := by
  have hfit : s.NamesFit := run_invariant NamesFit (fun _ _ _ hi hs => hi.step hs) h namesFit_mount
  rw [inBounds_iff, and_iff_left (hfit.refused call)]

theorem tmpfs_names_bounded_stat : mount.InBounds (.stat pathAB) ∧ mount.Refused (.stat pathAB) :=
  (@tmpfs_names_bounded mount [] rfl (.stat pathAB)).mpr (copied_isSome.mp (by decide))

/-- A name of 33 characters is copied over the end of `subdir_name`, and the end of one of 32 over that of
`file_name`. -/
theorem tmpfs_names_overrun :
    ¬mount.InBounds (.stat ⟨[List.replicate 33 'a'], by decide⟩) ∧
      ¬mount.InBounds (.op (.open ⟨[List.replicate 32 'a'], by decide⟩ ⟨true, false⟩ (some 1))) := by
  constructor
  · rw [inBounds_iff]
    intro h
    exact absurd (h [] (List.replicate 33 'a') [] rfl rfl) (by decide)
  · rw [inBounds_iff]
    intro h
    exact absurd (h.2 (by decide) rfl (List.replicate 32 'a') (by decide)) (by decide)

end TmpfsSb

end RtSmart
