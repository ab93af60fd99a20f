import RtSmart.Lib.Transition
import RtSmart.Dfs.Path

namespace RtSmart

open Lib

structure FilesystemOps where
  name : List Char
  hasMount : Bool
  hasUnmount : Bool
deriving DecidableEq

/-- `fs->data`: the type a file system was mounted as, until its driver puts its own pointer there. -/
inductive FsData
  | typeName (filesystemtype : List Char)
  | driver (data : ℕ)
deriving DecidableEq

structure Filesystem where
  devId : Option ℕ
  path : Option (List Char)
  ops : Option FilesystemOps
  data : Option FsData
deriving DecidableEq

/-- An entry after `memset(fs, 0, sizeof(struct dfs_filesystem))`. -/
def Filesystem.zero : Filesystem := ⟨none, none, none, none⟩

inductive DfsErr
  | enodev
  | enosys
  | enotdir
  | einval
  | enospc
deriving DecidableEq

/-- A return value of `0`, or of `-1` with the `errno` that was set. -/
inductive DfsRet
  | ok
  | failed (errno : Option DfsErr)
deriving DecidableEq

/-- What a call of `dfs_mount` is told by the code it calls. -/
structure MountAnswers where
  rtDeviceFind : List Char → Option ℕ
  alloc : Bool
  openDirectory : Bool
  rtDeviceOpen : Bool
  mount : Option (Option FsData)

structure DfsSys where
  types : List (Option FilesystemOps)
  table : List Filesystem

/-- `dfs_init`. -/
def DfsSys.init (typesMax filesystemsMax : ℕ) : DfsSys :=
  ⟨List.replicate typesMax none, List.replicate filesystemsMax .zero⟩

def DfsSys.dfsRegister (s : DfsSys) (ops : FilesystemOps) : DfsSys :=
  if s.types.any (fun t => t.any (·.name == ops.name)) then s
  else
    match s.types.findIdx? (·.isNone) with
    | none => s
    | some i => { s with types := s.types.set i (some ops) }

def findType (filesystemtype : List Char) : List (Option FilesystemOps) → Option FilesystemOps
  | [] => none
  | some ops :: l => if ops.name.isPrefixOf filesystemtype then some ops else findType filesystemtype l
  | none :: l => findType filesystemtype l

/-- Whether `dfs_filesystem_lookup` may choose an entry for a path. -/
def Filesystem.covers (fs : Filesystem) (path : List Char) : Bool :=
  match fs.path, fs.ops with
  | some p, some _ =>
    p.isPrefixOf path && !(decide (1 < p.length) && decide (p.length < path.length) && path[p.length]? != some '/')
  | _, _ => false

/-- The walk of `dfs_filesystem_lookup`: of the entries that cover the path the last of the longest. -/
def lookupFrom (path : List Char) (fs : Option Filesystem) (len : ℕ) : List Filesystem → Option Filesystem
  | [] => fs
  | iter :: l =>
    let fspath := (iter.path.getD []).length
    if iter.covers path && decide (len ≤ fspath) then lookupFrom path (some iter) fspath l
    else lookupFrom path fs len l

def dfsFilesystemLookup (table : List Filesystem) (path : List Char) : Option Filesystem :=
  lookupFrom path none 0 table

/-- How the walk of `dfs_mount` along the table ends: a null path is passed to `strcmp`, the path is
mounted, or the first empty entry is found, if there is one. -/
inductive Scan
  | fault
  | mounted
  | room (fs : Option ℕ)
deriving DecidableEq

def scanTable (path : List Char) (fs : Option ℕ) (i : ℕ) : List Filesystem → Scan
  | [] => .room fs
  | iter :: l =>
    match iter.ops, iter.path with
    | none, _ => scanTable path (fs.or (some i)) (i + 1) l
    | some _, none => .fault
    | some _, some p => if p = path then .mounted else scanTable path fs (i + 1) l

def uncheckedPath (fullpath : List Char) : Bool :=
  fullpath == "/".toList || fullpath == "/dev".toList || fullpath == "/proc".toList

def DfsSys.dfsMount (s : DfsSys) (ans : MountAnswers) (cwd : WorkDir) (deviceName : Option (List Char))
    (path filesystemtype : List Char) : Option (DfsSys × DfsRet) :=
  let devId := match deviceName with
    | none => some none
    | some name => (ans.rtDeviceFind name).map some
  match devId, findType filesystemtype s.types with
  | none, _ => some (s, .failed (some .enodev))
  | _, none => some (s, .failed (some .enodev))
  | some devId, some ops =>
    if !ops.hasMount then some (s, .failed (some .enosys))
    else
      match if ans.alloc then dfsNormalizePath cwd path else none with
      | none => some (s, .failed (some .enotdir))
      | some fullpath =>
        if !uncheckedPath fullpath && !((dfsFilesystemLookup s.table fullpath).isSome && ans.openDirectory) then
          some (s, .failed (some .enotdir))
        else
          -- compared with the path as it was passed, while the table holds full paths
          match scanTable path none 0 s.table with
          | .fault => none
          | .mounted => some (s, .failed (some .einval))
          | .room none => some (s, .failed (some .enospc))
          | .room (some i) =>
            let fs : Filesystem := ⟨devId, some fullpath, some ops, some (.typeName filesystemtype)⟩
            let table := s.table.set i fs
            if devId.isSome && !ans.rtDeviceOpen then some (⟨s.types, table.set i .zero⟩, .failed none)
            else
              match ans.mount with
              | none => some (⟨s.types, table.set i .zero⟩, .failed none)
              | some data => some (⟨s.types, table.set i { fs with data := data }⟩, .ok)

def DfsSys.dfsUnmount (s : DfsSys) (alloc unmount : Bool) (cwd : WorkDir) (specialfile : List Char) :
    Option (DfsSys × DfsRet) :=
  match if alloc then dfsNormalizePath cwd specialfile else none with
  | none => some (s, .failed (some .enotdir))
  | some fullpath =>
    match s.table.findIdx? (·.path == some fullpath) with
    | none => some (s, .failed none)
    | some i =>
      match s.table[i]?.bind (·.ops) with
      | none => none
      | some ops =>
        if ops.hasUnmount && unmount then some (⟨s.types, s.table.set i .zero⟩, .ok) else some (s, .failed none)

inductive MountEvent
  | register (ops : FilesystemOps)
  | mount (ans : MountAnswers) (cwd : WorkDir) (deviceName : Option (List Char)) (path filesystemtype : List Char)
  | unmount (alloc unmount : Bool) (cwd : WorkDir) (specialfile : List Char)

def DfsSys.step (s : DfsSys) : MountEvent → Option DfsSys
  | .register ops => some (s.dfsRegister ops)
  | .mount ans cwd dev path type => (s.dfsMount ans cwd dev path type).map Prod.fst
  | .unmount alloc unmount cwd specialfile => (s.dfsUnmount alloc unmount cwd specialfile).map Prod.fst

def MountedAt (table : List Filesystem) (p : List Char) (i : ℕ) : Prop :=
  ∃ fs, table[i]? = some fs ∧ fs.ops.isSome ∧ fs.path = some p

/-- The table's invariant: an entry is in use or cleared, and no two entries in use have one path. -/
structure MountInv (table : List Filesystem) : Prop where
  cleared : ∀ fs ∈ table, fs.ops = none → fs = .zero
  path : ∀ fs ∈ table, fs.ops.isSome → fs.path.isSome
  distinct : ∀ p i j, MountedAt table p i → MountedAt table p j → i = j

section scan

variable {path p : List Char} {table l : List Filesystem} {fs r : Option ℕ} {e e' : Filesystem} {i k : ℕ}

theorem scanTable_ne_fault (h : ∀ e ∈ l, e.ops.isSome → e.path.isSome) : scanTable path fs i l ≠ .fault := by
  induction l generalizing fs i with
  | nil => simp [scanTable]
  | cons e l ih =>
    have hl : ∀ e ∈ l, e.ops.isSome → e.path.isSome := fun d hd => h d (by simp [hd])
    have he := h e (by simp)
    rw [scanTable]
    split
    · exact ih hl
    · next h1 h2 => simp [h1, h2] at he
    · split_ifs
      · simp
      · exact ih hl

theorem scanTable_room (h : scanTable path fs i l = .room r) :
    (∀ e ∈ l, e.ops.isSome → e.path ≠ some path) ∧
      (r = fs ∨ ∃ j e, l[j]? = some e ∧ e.ops = none ∧ r = some (i + j)) := by
  induction l generalizing fs i with
  | nil => exact ⟨by simp, .inl (by simpa [scanTable] using h.symm)⟩
  | cons e l ih =>
    rw [scanTable] at h
    split at h
    · next h1 =>
      obtain ⟨hne, hr⟩ := ih h
      refine ⟨by simpa [h1] using hne, ?_⟩
      rcases hr with hr | ⟨j, d, hj, hd, hr⟩
      · cases fs with
        | none => exact .inr ⟨0, e, rfl, h1, by simpa using hr⟩
        | some k => exact .inl (by simpa using hr)
      · exact .inr ⟨j + 1, d, by simpa using hj, hd, by rw [hr]; congr 1; omega⟩
    · simp at h
    · next q h1 h2 =>
      split_ifs at h with hq
      obtain ⟨hne, hr⟩ := ih h
      refine ⟨?_, ?_⟩
      · intro d hd
        rcases List.mem_cons.mp hd with rfl | hd
        · simpa [h2] using fun _ => hq
        · exact hne d hd
      · rcases hr with hr | ⟨j, d, hj, hd, hr⟩
        · exact .inl hr
        · exact .inr ⟨j + 1, d, by simpa using hj, hd, by rw [hr]; congr 1; omega⟩

theorem scanTable_free (h : scanTable path none 0 table = .room (some i)) :
    (∃ e, table[i]? = some e ∧ e.ops = none) ∧ ∀ e ∈ table, e.ops.isSome → e.path ≠ some path := by
  obtain ⟨hne, hr⟩ := scanTable_room h
  rcases hr with hr | ⟨j, e, hj, he, hr⟩
  · simp at hr
  · rw [Nat.zero_add, Option.some.injEq] at hr
    subst hr
    exact ⟨⟨e, hj, he⟩, hne⟩

end scan

section operations

variable {s s' : DfsSys} {ans : MountAnswers} {cwd : WorkDir} {dev : Option (List Char)} {path type p : List Char}
  {r : DfsRet} {i j : ℕ} {fs : Filesystem} {table : List Filesystem} {alloc done : Bool}

theorem DfsSys.dfsMount_ne_none (h : MountInv s.table) : s.dfsMount ans cwd dev path type ≠ none := by
  have hscan : scanTable path none 0 s.table ≠ .fault := scanTable_ne_fault h.path
  unfold DfsSys.dfsMount
  dsimp only
  repeat' split
  all_goals simp_all

/-- What a call of `dfs_mount` can do to the table. -/
theorem DfsSys.dfsMount_cases (h : s.dfsMount ans cwd dev path type = some (s', r)) :
    (∃ errno, r = .failed errno ∧ s' = s) ∨
      ∃ i full, scanTable path none 0 s.table = .room (some i) ∧ dfsNormalizePath cwd path = some full ∧
        ((∃ errno fs, r = .failed errno ∧ s' = ⟨s.types, (s.table.set i fs).set i .zero⟩) ∨
          ∃ fs fs', r = .ok ∧ fs'.path = some full ∧ fs'.ops.isSome ∧
            s' = ⟨s.types, (s.table.set i fs).set i fs'⟩) := by
  unfold DfsSys.dfsMount at h
  dsimp only at h
  split at h
  · cases h
    exact .inl ⟨_, rfl, rfl⟩
  · cases h
    exact .inl ⟨_, rfl, rfl⟩
  split at h
  · cases h
    exact .inl ⟨_, rfl, rfl⟩
  split at h
  · cases h
    exact .inl ⟨_, rfl, rfl⟩
  next full hfull =>
  have hnorm : dfsNormalizePath cwd path = some full := by
    split_ifs at hfull
    exact hfull
  split at h
  · cases h
    exact .inl ⟨_, rfl, rfl⟩
  split at h
  · cases h
  · cases h
    exact .inl ⟨_, rfl, rfl⟩
  · cases h
    exact .inl ⟨_, rfl, rfl⟩
  next i hi =>
  refine .inr ⟨i, full, hi, hnorm, ?_⟩
  split at h
  · cases h
    exact .inl ⟨_, _, rfl, rfl⟩
  split at h
  · cases h
    exact .inl ⟨_, _, rfl, rfl⟩
  · cases h
    exact .inr ⟨_, _, rfl, rfl, rfl, rfl⟩

theorem DfsSys.dfsUnmount_cases (h : s.dfsUnmount alloc done cwd path = some (s', r)) :
    (∃ errno, r = .failed errno ∧ s' = s) ∨
      ∃ i full fs, dfsNormalizePath cwd path = some full ∧ s.table[i]? = some fs ∧ fs.ops.isSome ∧
        fs.path = some full ∧ r = .ok ∧ s' = ⟨s.types, s.table.set i .zero⟩ := by
  unfold DfsSys.dfsUnmount at h
  split at h
  · cases h
    exact .inl ⟨_, rfl, rfl⟩
  next full hfull =>
  have hnorm : dfsNormalizePath cwd path = some full := by
    split_ifs at hfull
    exact hfull
  split at h
  · cases h
    exact .inl ⟨_, rfl, rfl⟩
  next i hi =>
  split at h
  · cases h
  next ops hops =>
  obtain ⟨fs, hfs, hfo⟩ := Option.bind_eq_some_iff.mp hops
  have hp : fs.path = some full := by
    obtain ⟨hlt, hpath, -⟩ := List.findIdx?_eq_some_iff_getElem.mp hi
    rw [List.getElem?_eq_getElem hlt, Option.some.injEq] at hfs
    rw [← hfs]
    simpa using hpath
  split at h
  · cases h
    exact .inr ⟨i, full, fs, hnorm, hfs, by simp [hfo], hp, rfl, rfl⟩
  · cases h
    exact .inl ⟨_, rfl, rfl⟩

theorem MountInv.set_zero (h : MountInv table) (hi : ∃ e, table[i]? = some e ∧ e.ops = none) :
    table.set i .zero = table := by
  obtain ⟨e, he, hops⟩ := hi
  have hz := h.cleared e (List.mem_of_getElem? he) hops
  subst hz
  obtain ⟨hlt, hget⟩ := List.getElem?_eq_some_iff.mp he
  rw [← hget]
  exact List.set_getElem_self hlt

theorem mountedAt_set_ne (hij : j ≠ i) : MountedAt (table.set i fs) p j ↔ MountedAt table p j := by
  unfold MountedAt
  rw [List.getElem?_set_ne (Ne.symm hij)]

theorem not_mountedAt_set_zero : ¬ MountedAt (table.set i .zero) p i := by
  rintro ⟨fs, hfs, hops, -⟩
  rw [List.getElem?_set_self'] at hfs
  obtain ⟨a, -, ha⟩ := Option.map_eq_some_iff.mp hfs
  rw [← ha] at hops
  simp [Function.const, Filesystem.zero] at hops

theorem MountInv.clear (h : MountInv table) : MountInv (table.set i .zero) := by
  have hmem : ∀ e ∈ table.set i .zero, e ∈ table ∨ e = .zero := fun e he => List.mem_or_eq_of_mem_set he
  refine ⟨fun e he hops => ?_, fun e he hops => ?_, fun p a b ha hb => ?_⟩
  · rcases hmem e he with he | rfl
    · exact h.cleared e he hops
    · rfl
  · rcases hmem e he with he | rfl
    · exact h.path e he hops
    · simp [Filesystem.zero] at hops
  · have hai : a ≠ i := by
      rintro rfl
      exact not_mountedAt_set_zero ha
    have hbi : b ≠ i := by
      rintro rfl
      exact not_mountedAt_set_zero hb
    exact h.distinct p a b ((mountedAt_set_ne hai).mp ha) ((mountedAt_set_ne hbi).mp hb)

theorem MountInv.take (h : MountInv table) (hops : fs.ops.isSome) (hp : fs.path = some p)
    (hnot : ∀ j, ¬ MountedAt table p j) : MountInv (table.set i fs) := by
  have hmem : ∀ e ∈ table.set i fs, e ∈ table ∨ e = fs := fun e he => List.mem_or_eq_of_mem_set he
  have hself : ∀ q a, MountedAt (table.set i fs) q a → a = i → q = p := by
    rintro q a ⟨e, he, -, hq⟩ rfl
    rw [List.getElem?_set_self'] at he
    obtain ⟨c, -, hc⟩ := Option.map_eq_some_iff.mp he
    rw [← hc] at hq
    exact Option.some.inj (hq.symm.trans hp)
  refine ⟨fun e he ho => ?_, fun e he ho => ?_, fun q a b ha hb => ?_⟩
  · rcases hmem e he with he | rfl
    · exact h.cleared e he ho
    · simp [ho] at hops
  · rcases hmem e he with he | rfl
    · exact h.path e he ho
    · simp [hp]
  · by_cases hai : a = i <;> by_cases hbi : b = i
    · rw [hai, hbi]
    · exact absurd (hself q a ha hai ▸ (mountedAt_set_ne hbi).mp hb) (hnot b)
    · exact absurd (hself q b hb hbi ▸ (mountedAt_set_ne hai).mp ha) (hnot a)
    · exact h.distinct q a b ((mountedAt_set_ne hai).mp ha) ((mountedAt_set_ne hbi).mp hb)

theorem MountInv.refused {errno : Option DfsErr} (h : MountInv s.table)
    (hm : s.dfsMount ans cwd dev path type = some (s', .failed errno)) : s' = s := by
  rcases DfsSys.dfsMount_cases hm with ⟨_, -, rfl⟩ | ⟨i, full, hscan, -, ⟨_, fs, -, rfl⟩ | ⟨_, _, hr, -⟩⟩
  · rfl
  · rw [List.set_set, h.set_zero (scanTable_free hscan).1]
  · cases hr

/-- The request is spelled as the path it stands for, or nothing is mounted there. -/
def DfsSys.SpelledOut (s : DfsSys) : MountEvent → Prop
  | .mount _ cwd _ path _ => ∀ full ∈ dfsNormalizePath cwd path,
      path = full ∨ ∀ fs ∈ s.table, fs.ops.isSome → fs.path ≠ some full
  | _ => True

instance (s : DfsSys) (e : MountEvent) : Decidable (s.SpelledOut e) :=
  match e with
  | .register _ => isTrue trivial
  | .mount _ cwd _ path _ => inferInstanceAs (Decidable (∀ full ∈ dfsNormalizePath cwd path,
      path = full ∨ ∀ fs ∈ s.table, fs.ops.isSome → fs.path ≠ some full))
  | .unmount .. => isTrue trivial

theorem MountInv.mount (h : MountInv s.table) (hok : s.SpelledOut (.mount ans cwd dev path type))
    (hm : s.dfsMount ans cwd dev path type = some (s', r)) : MountInv s'.table := by
  rcases DfsSys.dfsMount_cases hm with ⟨_, -, rfl⟩ | ⟨i, full, hscan, hfull, ⟨_, fs, -, rfl⟩ | ⟨_, fs, -, hp, ho, rfl⟩⟩
  · exact h
  · rw [List.set_set]
    exact h.clear
  · rw [List.set_set]
    apply h.take ho hp
    rintro j ⟨e, he, hops, hpe⟩
    rcases hok full hfull with rfl | hnot
    · exact (scanTable_free hscan).2 e (List.mem_of_getElem? he) hops hpe
    · exact hnot e (List.mem_of_getElem? he) hops hpe

theorem MountInv.unmount (h : MountInv s.table) (hu : s.dfsUnmount alloc done cwd path = some (s', r)) :
    MountInv s'.table := by
  rcases DfsSys.dfsUnmount_cases hu with ⟨_, -, rfl⟩ | ⟨i, full, fs, -, -, -, -, -, rfl⟩
  · exact h
  · exact h.clear

theorem DfsSys.dfsUnmount_ne_none (h : MountInv s.table) : s.dfsUnmount alloc done cwd path ≠ none := by
  unfold DfsSys.dfsUnmount
  split
  · simp
  next full hfull =>
  split
  · simp
  next i hi =>
  obtain ⟨hlt, hpath, -⟩ := List.findIdx?_eq_some_iff_getElem.mp hi
  have hops : s.table[i].ops ≠ none := by
    intro hnone
    rw [h.cleared _ (List.getElem_mem hlt) hnone] at hpath
    simp [Filesystem.zero] at hpath
  rw [List.getElem?_eq_getElem hlt, Option.bind_some]
  split
  · next h' => exact absurd h' hops
  · split_ifs <;> simp

theorem MountInv.dfsUnmount {ops : FilesystemOps} (h : MountInv s.table) (hp : dfsNormalizePath cwd path = some p)
    (hfs : s.table[i]? = some fs) (hops : fs.ops = some ops) (hpath : fs.path = some p) (hu : ops.hasUnmount = true) :
    s.dfsUnmount true true cwd path = some (⟨s.types, s.table.set i .zero⟩, .ok) := by
  obtain ⟨k, hk⟩ : ∃ k, s.table.findIdx? (·.path == some p) = some k := by
    rw [← Option.isSome_iff_exists, List.findIdx?_isSome, List.any_eq_true]
    exact ⟨fs, List.mem_of_getElem? hfs, by simp [hpath]⟩
  obtain ⟨hlt, hkp, -⟩ := List.findIdx?_eq_some_iff_getElem.mp hk
  have hkops : s.table[k].ops.isSome := by
    rw [Option.isSome_iff_ne_none]
    intro hnone
    rw [h.cleared _ (List.getElem_mem hlt) hnone] at hkp
    simp [Filesystem.zero] at hkp
  have hki : k = i := h.distinct p k i ⟨_, List.getElem?_eq_getElem hlt, hkops, by simpa using hkp⟩
    ⟨fs, hfs, by simp [hops], hpath⟩
  subst hki
  simp only [DfsSys.dfsUnmount, if_true, hp, hk, hfs, Option.bind_some, hops, hu, Bool.and_self]

theorem mountInv_init (typesMax filesystemsMax : ℕ) : MountInv (DfsSys.init typesMax filesystemsMax).table := by
  have hmem : ∀ e ∈ (DfsSys.init typesMax filesystemsMax).table, e = .zero := fun e he => List.eq_of_mem_replicate he
  refine ⟨fun e he _ => hmem e he, fun e he ho => ?_, ?_⟩
  · rw [hmem e he] at ho
    simp [Filesystem.zero] at ho
  · rintro p i j ⟨e, he, ho, -⟩
    rw [hmem e (List.mem_of_getElem? he)] at ho
    simp [Filesystem.zero] at ho

theorem MountInv.step {e : MountEvent} (h : MountInv s.table) (hok : s.SpelledOut e) :
    ∃ s', s.step e = some s' ∧ MountInv s'.table := by
  cases e with
  | register ops =>
    refine ⟨_, rfl, ?_⟩
    unfold DfsSys.dfsRegister
    split_ifs
    · exact h
    · split
      · exact h
      · exact h
  | mount ans cwd dev path type =>
    obtain ⟨⟨s', r⟩, hm⟩ := Option.ne_none_iff_exists'.mp (DfsSys.dfsMount_ne_none h)
    exact ⟨s', by rw [DfsSys.step, hm]; rfl, h.mount hok hm⟩
  | unmount alloc done cwd path =>
    obtain ⟨⟨s', r⟩, hu⟩ := Option.ne_none_iff_exists'.mp (DfsSys.dfsUnmount_ne_none h)
    exact ⟨s', by rw [DfsSys.step, hu]; rfl, h.unmount hu⟩

end operations

/-- In every run of mounts and unmounts of which no mount asks for a mounted directory under another
spelling of its path: the mount points are distinct, a refused request changes nothing and an unmount
clears the one entry of the directory it names. -/
theorem mount_points_distinct (typesMax filesystemsMax : ℕ) (es : List MountEvent)
    (hok : Meets DfsSys.step DfsSys.SpelledOut (.init typesMax filesystemsMax) es) :
    ∃ s, run DfsSys.step (.init typesMax filesystemsMax) es = some s ∧
      (∀ p i j, MountedAt s.table p i → MountedAt s.table p j → i = j) ∧
      (∀ ans cwd dev path type s' errno,
        s.dfsMount ans cwd dev path type = some (s', .failed errno) → s' = s) ∧
      (∀ cwd path p i fs ops, dfsNormalizePath cwd path = some p → s.table[i]? = some fs → fs.ops = some ops →
        fs.path = some p → ops.hasUnmount = true →
          s.dfsUnmount true true cwd path = some (⟨s.types, s.table.set i .zero⟩, .ok)) ∧
      ∀ alloc done cwd path s' r, s.dfsUnmount alloc done cwd path = some (s', r) →
        (∃ errno, r = .failed errno ∧ s' = s) ∨
          ∃ p i, r = .ok ∧ dfsNormalizePath cwd path = some p ∧ MountedAt s.table p i ∧
            (∀ j, MountedAt s.table p j → j = i) ∧ s' = ⟨s.types, s.table.set i .zero⟩ := by
  obtain ⟨s, hs, h⟩ := run_total_of_meets (fun s => MountInv s.table) (fun s e h hok => h.step hok) hok
    (mountInv_init typesMax filesystemsMax)
  refine ⟨s, hs, h.distinct, fun ans cwd dev path type s' errno hm => h.refused hm,
    fun cwd path p i fs ops hp hfs ho hpath hu => h.dfsUnmount hp hfs ho hpath hu, ?_⟩
  intro alloc done cwd path s' r hu
  rcases DfsSys.dfsUnmount_cases hu with ⟨errno, hr, hs'⟩ | ⟨i, p, fs, hp, hfs, ho, hpath, hr, hs'⟩
  · exact .inl ⟨errno, hr, hs'⟩
  · have hi : MountedAt s.table p i := ⟨fs, hfs, ho, hpath⟩
    exact .inr ⟨p, i, hr, hp, hi, fun j hj => h.distinct p j i hj hi, hs'⟩

def romfs : FilesystemOps := ⟨"rom".toList, true, true⟩

def calm : MountAnswers := ⟨fun _ => none, true, true, true, some none⟩

def rootDir : WorkDir := ⟨['/'], rfl⟩

theorem mount_points_distinct_example :
    ∃ s, run DfsSys.step (.init 2 2) [.register romfs, .mount calm rootDir none "/".toList "rom".toList,
        .mount calm rootDir none "mnt/../sd/".toList "rom".toList] = some s ∧
      ∀ p i j, MountedAt s.table p i → MountedAt s.table p j → i = j := by
  obtain ⟨s, hs, h, -⟩ := mount_points_distinct 2 2 [.register romfs,
    .mount calm rootDir none "/".toList "rom".toList, .mount calm rootDir none "mnt/../sd/".toList "rom".toList]
    (by decide +kernel)
  exact ⟨s, hs, h⟩

/-- A slash at the end hides that the directory is a mount point. -/
theorem mounted_twice : ¬ ∀ es s, run DfsSys.step (.init 2 4) es = some s →
    ∀ p i j, MountedAt s.table p i → MountedAt s.table p j → i = j := by
  intro h
  have hrun : ((run DfsSys.step (.init 2 4) [.register romfs, .mount calm rootDir none "/".toList "rom".toList,
      .mount calm rootDir none "/mnt".toList "rom".toList,
      .mount calm rootDir none "/mnt/".toList "rom".toList]).any fun s =>
        s.table[1]?.any (fun fs => fs.ops.isSome && fs.path == some "/mnt".toList) &&
        s.table[2]?.any (fun fs => fs.ops.isSome && fs.path == some "/mnt".toList)) = true := by
    decide +kernel
  obtain ⟨s, hs, hp⟩ := (Option.any_eq_true _ _).mp hrun
  simp only [Bool.and_eq_true, Option.any_eq_true, beq_iff_eq] at hp
  obtain ⟨⟨a, ha, ha1, ha2⟩, ⟨b, hb, hb1, hb2⟩⟩ := hp
  have := h _ s hs _ 1 2 ⟨a, ha, ha1, ha2⟩ ⟨b, hb, hb1, hb2⟩
  omega

end RtSmart
