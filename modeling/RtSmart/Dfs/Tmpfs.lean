import RtSmart.Lib.LinkTree
import RtSmart.Lib.Path
import RtSmart.Lib.Transition

/-!
The directory tree of tmpfs (`dfs_tmpfs.c`): lookup, open with its creation, unlink and rename. The
contents of the files are left out.
-/

namespace RtSmart

open Lib Lib.Path

abbrev tmpfsNameMax : ℕ := 32

abbrev dfsPathMax : ℕ := 256

inductive TmpfsType
  | file
  | dir
deriving DecidableEq

/-- `subdirs` lists the entries in the order of their `sibling` links. -/
structure TmpfsFile where
  type : TmpfsType
  name : List Char
  subdirs : List ℕ
deriving DecidableEq

/-- The memory that the superblock leads to: the `tmpfs_file` at each address, and the addresses in use. The
root is at address 0. -/
structure TmpfsSb where
  file : ℕ → TmpfsFile
  live : Finset ℕ

inductive TmpfsErr
  | eok
  | enoent
  | enomem
  | eexist
deriving DecidableEq

/-- A normalized path: the names from the root on. -/
structure NormPath where
  names : List (List Char)
  proper : ∀ c ∈ names, Proper '/' '.' c
deriving DecidableEq

def NormPath.chars (p : NormPath) : List Char := render '/' p.names.reverse

structure TmpfsFlags where
  creat : Bool
  directory : Bool
deriving DecidableEq

inductive TmpfsOp
  /-- `alloc` is the answer of `rt_calloc`, used when a file is created. -/
  | open (path : NormPath) (flags : TmpfsFlags) (alloc : Option ℕ)
  | unlink (path : NormPath)
  | rename (oldpath newpath : NormPath)
deriving DecidableEq

namespace TmpfsSb

/-- `dfs_tmpfs_mount` -/
def mount : TmpfsSb where
  file _ := ⟨.dir, ['/'], []⟩
  live := {0}

def subdirs (s : TmpfsSb) (a : ℕ) : List ℕ := (s.file a).subdirs

/-- `_path_separate`: the part before the last separator, which gets `/` when it is empty, and the last
name; `none` when `file_name` is left empty. -/
def separateLoop (parent name : List Char) : List Char → Option (List Char × List Char)
  | [] => if name = [] then none else some (if parent = [] then ['/'] else parent, name)
  | c :: rest =>
    if c = '/' then
      if name = [] then none else separateLoop (parent ++ '/' :: name) [] rest
    else separateLoop parent (name ++ [c]) rest

def pathSeparate (path : List Char) : Option (List Char × List Char) := separateLoop [] [] path.tail

/-- What `_path_separate` writes, with its zeros, goes past the end of `parent_path` or of `file_name`. -/
def Overruns (parentPath fileName : List Char) : Prop :=
  dfsPathMax ≤ parentPath.length ∨ tmpfsNameMax ≤ fileName.length

instance (parentPath fileName : List Char) : Decidable (Overruns parentPath fileName) := inferInstanceAs (Decidable (_ ∨ _))

def getSubdir (path : List Char) : List Char := (path.dropWhile (· = '/')).takeWhile (· ≠ '/')

def findEntry (s : TmpfsSb) (a : ℕ) (name : List Char) : Option ℕ :=
  (s.subdirs a).find? fun f => (s.file f).name = name

/-- The scan for the end of a name and the search of its directory. The outer `none` says that `_get_subdir`
writes past the end of `subdir_name`. -/
def lookupLoop (s : TmpfsSb) (curfile : ℕ) (curpath : List Char) : List Char → Option (Option ℕ)
  | [] => if tmpfsNameMax < (getSubdir curpath).length then none else some (s.findEntry curfile curpath)
  | c :: subpath =>
    if c = '/' then
      if tmpfsNameMax < (getSubdir curpath).length then none
      else
        match s.findEntry curfile (getSubdir curpath) with
        | none => some none
        | some file => lookupLoop s file subpath subpath
    else lookupLoop s curfile curpath subpath

def dfsTmpfsLookup (s : TmpfsSb) (path : List Char) : Option (Option ℕ) :=
  let subpath := path.dropWhile (· = '/')
  if subpath = [] then some (some 0) else lookupLoop s 0 subpath subpath

/-- `rt_list_remove` of the `sibling` link. -/
def listRemove (s : TmpfsSb) (d : ℕ) : TmpfsSb :=
  { s with file := fun a => { s.file a with subdirs := (s.subdirs a).erase d } }

/-- `rt_list_insert_after` of the `sibling` link to the head of `subdirs`. -/
def listInsertAfter (s : TmpfsSb) (p d : ℕ) : TmpfsSb :=
  { s with file := Function.update s.file p { s.file p with subdirs := d :: s.subdirs p } }

def setFile (s : TmpfsSb) (a : ℕ) (f : TmpfsFile) : TmpfsSb := { s with file := Function.update s.file a f }

/-- What `dfs_tmpfs_open` answers for a file that is there. -/
def openExisting (s : TmpfsSb) (d : ℕ) (flags : TmpfsFlags) : TmpfsErr :=
  match (s.file d).type with
  | .dir => if flags.directory then .eok else .enomem
  | .file => if flags.directory then .enomem else .eok

/-- The allocation of a file and its place in `p`; `none` when the allocator gives an address that is in
use. -/
def create (s : TmpfsSb) (p : ℕ) (fileName : List Char) (flags : TmpfsFlags) :
    Option ℕ → Option (TmpfsSb × TmpfsErr)
  | none => some (s, .enomem)
  | some d =>
    if d ∈ s.live then none
    else
      let s := { s.setFile d ⟨if flags.directory then .dir else .file, fileName, []⟩ with live := insert d s.live }
      some (s.listInsertAfter p d, .eok)

/-- `dfs_tmpfs_open` of a node with one reference. `none` when a name or the directory part does not fit its buffer. -/
def dfsTmpfsOpen (s : TmpfsSb) (path : List Char) (flags : TmpfsFlags) (alloc : Option ℕ) :
    Option (TmpfsSb × TmpfsErr) :=
  (s.dfsTmpfsLookup path).bind fun
    | some d => some (s, s.openExisting d flags)
    | none =>
      if flags.creat then
        match pathSeparate path with
        | none => some (s, .enoent)
        | some (parentPath, fileName) =>
          if Overruns parentPath fileName then none
          else
            (s.dfsTmpfsLookup parentPath).bind fun
              | none => some (s, .enoent)
              | some p => s.create p fileName flags alloc
      else some (s, .enoent)

def dfsTmpfsUnlink (s : TmpfsSb) (path : List Char) : Option (TmpfsSb × TmpfsErr) :=
  (s.dfsTmpfsLookup path).bind fun
    | none => some (s, .enoent)
    | some d => some ({ s.listRemove d with live := s.live.erase d }, .eok)

/-- `none` also when the assertion that the new parent exists fails. -/
def dfsTmpfsRename (s : TmpfsSb) (oldpath newpath : List Char) : Option (TmpfsSb × TmpfsErr) :=
  (s.dfsTmpfsLookup newpath).bind fun
    | some _ => some (s, .eexist)
    | none =>
      (s.dfsTmpfsLookup oldpath).bind fun
        | none => some (s, .enoent)
        | some d =>
          match pathSeparate newpath with
          | none => some (s, .enoent)
          | some (parentPath, fileName) =>
            if Overruns parentPath fileName then none
            else
              (s.dfsTmpfsLookup parentPath).bind fun
                | none => none
                | some p =>
                  let s := s.listRemove d
                  let s := s.setFile d { s.file d with name := fileName }
                  some (s.listInsertAfter p d, .eok)

def apply (s : TmpfsSb) : TmpfsOp → Option (TmpfsSb × TmpfsErr)
  | .open path flags alloc => s.dfsTmpfsOpen path.chars flags alloc
  | .unlink path => s.dfsTmpfsUnlink path.chars
  | .rename oldpath newpath => s.dfsTmpfsRename oldpath.chars newpath.chars

def step (s : TmpfsSb) (op : TmpfsOp) : Option TmpfsSb := (s.apply op).map Prod.fst

end TmpfsSb

end RtSmart
