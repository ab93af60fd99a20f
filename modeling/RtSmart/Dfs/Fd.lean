import RtSmart.Lib.Transition
import RtSmart.Dfs.Mount

/-!
The descriptor tables (`dfs.c`), the table of open files (`dfs_file.c`) and the calls that use them. A step
is a section made with `fdlock` or with the lock of the file manager held, or a call into a file system
driver; between two of its steps a call gives way to any other. A section changes the count of a file node in one
go here; `FnodeSys` has the read and the write apart.
-/

namespace RtSmart

open Lib

/-- A descriptor table and an index into it. -/
abbrev FdSlot := ℕ × ℕ

inductive FileType
  | regular
  | socket
  | directory
  | user
  | device
deriving DecidableEq

structure DfsFnode where
  refCount : ℕ
  fs : Filesystem
  path : List Char
  fullpath : List Char
  type : FileType
  /-- How often it was given to `rt_free`. -/
  freed : ℕ

/-- `closing` is the flag `DFS_F_CLOSING`. Two fields record what the code does not: `detached`, that the
one reference left is that of the call that gives it back, and `openAt`, the slot of an `open` that is
still working on it. -/
structure DfsFd where
  refCount : ℕ
  fnode : Option ℕ
  closing : Bool
  /-- How often it was given to `rt_free`, which `magic` does not outlive. -/
  freed : ℕ
  detached : Bool
  openAt : Option FdSlot

inductive FdErr
  | ebadf
  | enotsock
  | enomem
  | enoent
  | enosys
  | einval
  | enotdir
  | driver
deriving DecidableEq

inductive FdRet
  | fd (fd : ℕ)
  | done
  | minusOne
  | failed (errno : FdErr)
deriving DecidableEq

/-- What a driver's `close` answers: success, a failure after which its state is gone
(`DFS_F_CLOSE_TERMINAL`), or one after which it is to be tried again. -/
inductive CloseResult
  | done
  | terminal
  | retry
deriving DecidableEq

/-- Where a call goes on after `fd_put`: it returns, or it is a pass of `fd_retry_failed_closes`. -/
inductive PutNext
  | ret (r : FdRet)
  | retry
deriving DecidableEq

/-- Who calls `dfs_file_open`: `open`, for a slot, or `dfs_mount`, with a `dfs_fd` on its stack. -/
inductive Opener
  | slot (σ : FdSlot)
  | mount
deriving DecidableEq

inductive FdPc
  | idle
  /-- Has a file from `fd_get`, without a reference. -/
  | looked (d : ℕ)
  /-- Owes an `fd_put`. -/
  | holds (d : ℕ) (k : PutNext)
  /-- In `fd_put` with the last reference, before `dfs_file_close`. -/
  | putting (d : ℕ) (k : PutNext)
  | put (d : ℕ) (k : PutNext) (result : CloseResult)
  /-- In `fdt_fd_close` with the last reference, before `dfs_file_close`. -/
  | closing (σ : FdSlot) (d : ℕ)
  | closed (σ : FdSlot) (d : ℕ) (result : CloseResult)
  /-- In `open`, after `fd_new`. -/
  | allocated (σ : FdSlot) (d : ℕ)
  | opening (o : Opener) (d : ℕ)
  /-- In `dfs_file_open`, with a file node. -/
  | found (o : Opener) (d : ℕ) (fnode : ℕ)
  | driver (o : Opener) (d : ℕ) (fnode : ℕ)
  /-- In `open`, before `fd_release`. -/
  | failing (σ : FdSlot) (d : ℕ) (errno : FdErr)
  /-- In `dfs_mount`, before `dfs_file_close`. -/
  | mounted (d : ℕ)
  | retrying
deriving DecidableEq

structure DfsConfig where
  fdMax : ℕ
  stdioOffset : ℕ
  /-- `DFS_FS_FLAG_FULLPATH`. -/
  fullpath : Filesystem → Bool
  hasOpen : Filesystem → Bool

/-- `failed` is the list `failed_closes`, `pending` what is left of it to the pass that took it. -/
structure FdSys where
  fds : ℕ → DfsFd
  next : ℕ
  slot : FdSlot → Option ℕ
  maxfd : ℕ → ℕ
  failed : List ℕ
  pending : List ℕ
  retrying : Bool
  fnodes : ℕ → DfsFnode
  nextFnode : ℕ
  hash : List ℕ
  fmLock : Option ℕ
  pc : ℕ → FdPc
  ret : ℕ → Option FdRet

namespace FdSys

def init : FdSys where
  fds _ := ⟨0, none, false, 0, false, none⟩
  next := 0
  slot _ := none
  maxfd _ := 0
  failed := []
  pending := []
  retrying := false
  fnodes _ := ⟨0, .zero, [], [], .regular, 0⟩
  nextFnode := 0
  hash := []
  fmLock := none
  pc _ := .idle
  ret _ := none

def setFd (s : FdSys) (d : ℕ) (x : DfsFd) : FdSys := { s with fds := Function.update s.fds d x }

def setFnode (s : FdSys) (f : ℕ) (x : DfsFnode) : FdSys := { s with fnodes := Function.update s.fnodes f x }

def setSlot (s : FdSys) (σ : FdSlot) (v : Option ℕ) : FdSys := { s with slot := Function.update s.slot σ v }

def setPc (s : FdSys) (c : ℕ) (p : FdPc) : FdSys := { s with pc := Function.update s.pc c p }

def finish (s : FdSys) (c : ℕ) (r : FdRet) : FdSys :=
  { s.setPc c .idle with ret := Function.update s.ret c (some r) }

def setMaxfd (s : FdSys) (t nr : ℕ) : FdSys := { s with maxfd := Function.update s.maxfd t nr }

end FdSys

/-- The size a table has after `fd_slot_expand`; `mem` tells whether `rt_realloc` succeeds. -/
def fdSlotExpand (cfg : DfsConfig) (maxfd fd : ℕ) (mem : Bool) : Option ℕ :=
  if fd < maxfd then some maxfd
  else if cfg.fdMax ≤ fd then none
  else if mem then some (min ((fd + 4) / 4 * 4) cfg.fdMax) else none

namespace FdSys

variable (cfg : DfsConfig) (s : FdSys)

def fdSlotAlloc (t startfd : ℕ) (mem : Bool) : Option (ℕ × ℕ) :=
  match (List.range (s.maxfd t)).find? (fun idx => startfd ≤ idx && (s.slot (t, idx)).isNone) with
  | some idx => some (idx, s.maxfd t)
  | none =>
    let idx := max (s.maxfd t) startfd
    (fdSlotExpand cfg (s.maxfd t) idx mem).map (idx, ·)

def fdtFdNew (c t : ℕ) (mem calloc : Bool) : FdSys :=
  match s.fdSlotAlloc cfg t cfg.stdioOffset mem with
  | none => s.finish c (.failed .enomem)
  | some (idx, nr) =>
    if calloc then
      { ((s.setMaxfd t nr).setFd s.next ⟨1, none, false, 0, false, some (t, idx)⟩).setSlot (t, idx) (some s.next) with
        next := s.next + 1 }.setPc c (.allocated (t, idx) s.next)
    else (s.setMaxfd t nr).finish c (.failed .enomem)

def fdtFdGetLocked (σ : FdSlot) : Option ℕ :=
  if σ.2 < s.maxfd σ.1 then
    match s.slot σ with
    | none => none
    | some d => if (s.fds d).freed = 0 ∧ (s.fds d).closing = false then some d else none
  else none

def fdGetRef (c : ℕ) (σ : FdSlot) : FdSys :=
  match s.fdtFdGetLocked σ with
  | none => s.finish c (.failed .ebadf)
  | some d =>
    if (s.fds d).fnode.isSome then
      (s.setFd d { s.fds d with refCount := (s.fds d).refCount + 1 }).setPc c (.holds d (.ret .done))
    else s.finish c (.failed .ebadf)

def fdFree (d : ℕ) : FdSys :=
  match (s.fds d).fnode with
  | none => s.setFd d { s.fds d with freed := (s.fds d).freed + 1 }
  | some f =>
    let n := (s.fnodes f).refCount - 1
    (s.setFnode f { s.fnodes f with
      refCount := n
      freed := (s.fnodes f).freed + if n = 0 then 1 else 0 }).setFd d { s.fds d with freed := (s.fds d).freed + 1 }

def putDone (c : ℕ) : PutNext → FdSys
  | .ret r => s.finish c r
  | .retry => s.setPc c .retrying

def fdPut (c d : ℕ) (k : PutNext) : FdSys :=
  if 1 < (s.fds d).refCount then
    (s.setFd d { s.fds d with refCount := (s.fds d).refCount - 1 }).putDone c k
  else (s.setFd d { s.fds d with detached := true }).setPc c (.putting d k)

/-- The rest of `fd_put`, after `dfs_file_close`. -/
def fdPutClosed (c d : ℕ) (k : PutNext) (result : CloseResult) : FdSys :=
  if result = .retry then
    { s.setFd d { s.fds d with closing := true } with failed := d :: s.failed }.putDone c k
  else ((s.setFd d { s.fds d with refCount := (s.fds d).refCount - 1 }).fdFree d).putDone c k

def fdtFdClose (c : ℕ) (σ : FdSlot) (type : Option FileType) : FdSys :=
  match s.fdtFdGetLocked σ with
  | none => s.finish c (.failed .ebadf)
  | some d =>
    match (s.fds d).fnode with
    | none => s.finish c (.failed .ebadf)
    | some f =>
      if type.any (fun type => (s.fnodes f).type != type) then s.finish c (.failed .enotsock)
      else if 1 < (s.fds d).refCount then
        ((s.setSlot σ none).setFd d { s.fds d with refCount := (s.fds d).refCount - 1 }).finish c .done
      else (s.setFd d { s.fds d with closing := true }).setPc c (.closing σ d)

/-- The rest of `fdt_fd_close`, after `dfs_file_close`. -/
def fdtFdClosed (c : ℕ) (σ : FdSlot) (d : ℕ) (result : CloseResult) : FdSys :=
  if result = .retry then (s.setFd d { s.fds d with closing := false }).finish c (.failed .driver)
  else
    (((s.setSlot σ none).setFd d { s.fds d with refCount := (s.fds d).refCount - 1 }).fdFree d).finish c
      (if result = .done then .done else .failed .driver)

def fdtFdRelease (σ : FdSlot) : FdSys :=
  if σ.2 < s.maxfd σ.1 then
    match s.slot σ with
    | none => s
    | some d =>
      let s' := (s.setSlot σ none).setFd d { s.fds d with refCount := (s.fds d).refCount - 1 }
      if (s.fds d).refCount - 1 = 0 then s'.fdFree d else s'
  else s

def sysDup (c t oldfd : ℕ) (mem : Bool) : FdSys :=
  match if oldfd < s.maxfd t then s.slot (t, oldfd) else none with
  | none => s.finish c .minusOne
  | some d =>
    if (s.fds d).closing then s.finish c .minusOne
    else
      match s.fdSlotAlloc cfg t cfg.stdioOffset mem with
      | none => s.finish c .minusOne
      | some (newfd, nr) =>
        (((s.setMaxfd t nr).setSlot (t, newfd) (some d)).setFd d
          { s.fds d with refCount := (s.fds d).refCount + 1 }).finish c (.fd newfd)

def sysDup2 (c t oldfd newfd : ℕ) (mem : Bool) : FdSys :=
  match if oldfd < s.maxfd t then s.slot (t, oldfd) else none with
  | none => s.finish c .minusOne
  | some d =>
    if (s.fds d).closing then s.finish c .minusOne
    else
      match fdSlotExpand cfg (s.maxfd t) newfd mem with
      | none => s.finish c .minusOne
      | some nr =>
        let s := s.setMaxfd t nr
        let s' := (s.setSlot (t, newfd) (some d)).setFd d { s.fds d with refCount := (s.fds d).refCount + 1 }
        match s.slot (t, newfd) with
        | none => s'.finish c (.fd newfd)
        | some replaced =>
          if replaced = d then s.finish c (.fd newfd)
          else if (s.fds replaced).closing then s.finish c .minusOne
          else s'.setPc c (.holds replaced (.ret (.fd newfd)))

def fdAssociate (c : ℕ) (σ : FdSlot) (file : ℕ) : FdSys :=
  if σ.2 < s.maxfd σ.1 then
    if (s.slot σ).isSome ∨ (s.fds file).closing then s.finish c .minusOne
    else
      ((s.setSlot σ (some file)).setFd file { s.fds file with refCount := (s.fds file).refCount + 1 }).finish c
        (.fd σ.2)
  else s.finish c .minusOne

/-- The beginning of `fd_retry_failed_closes`. -/
def fdRetryFailedCloses (c : ℕ) : FdSys :=
  if s.retrying ∨ s.failed = [] then s.finish c .done
  else { s with retrying := true, pending := s.failed, failed := [] }.setPc c .retrying

/-- One turn of the loop of `fd_retry_failed_closes`, or its end. -/
def fdRetryNext (c : ℕ) : FdSys :=
  match s.pending with
  | [] => { s with retrying := false }.finish c .done
  | d :: next => { s with pending := next }.setPc c (.holds d .retry)

def dfsFnodeFind (path : List Char) : Option ℕ := s.hash.find? fun f => (s.fnodes f).fullpath == path

end FdSys

def dfsSubdir (directory filename : List Char) : Option (List Char) :=
  if directory.length = filename.length then none
  else
    let dir := filename.drop directory.length
    if dir.head? ≠ some '/' ∧ directory ≠ [] then some (filename.drop (directory.length - 1)) else some dir

def fnodePath (cfg : DfsConfig) (fs : Filesystem) (fullpath : List Char) : List Char :=
  if cfg.fullpath fs then fullpath else (dfsSubdir (fs.path.getD []) fullpath).getD ['/']

namespace FdSys

variable (cfg : DfsConfig) (s : FdSys)

/-- The stack frame of `dfs_mount` goes. -/
def pop (d : ℕ) : FdSys := s.setFd d { s.fds d with refCount := 0, freed := (s.fds d).freed + 1 }

/-- `dfs_file_open` has returned an error. -/
def openFailed (c : ℕ) (o : Opener) (d : ℕ) (errno : FdErr) : FdSys :=
  match o with
  | .slot σ => s.setPc c (.failing σ d errno)
  | .mount => (s.pop d).finish c (.failed .enotdir)

/-- `dfs_file_open` up to `fd->fnode`; the lock is kept when the file node is new. `alloc` and `calloc` tell
whether memory is found for the full path and for the node. -/
def dfsFileOpen (c : ℕ) (o : Opener) (d : ℕ) (cwd : WorkDir) (path : List Char) (table : List Filesystem)
    (alloc calloc : Bool) : FdSys :=
  match if alloc then dfsNormalizePath cwd path else none with
  | none => s.openFailed c o d .enomem
  | some fullpath =>
    match s.dfsFnodeFind fullpath with
    | some f =>
      ((s.setFnode f { s.fnodes f with refCount := (s.fnodes f).refCount + 1 }).setFd d
        { s.fds d with fnode := some f }).setPc c (.found o d f)
    | none =>
      match dfsFilesystemLookup table fullpath with
      | none => s.openFailed c o d .enoent
      | some fs =>
        if calloc = false then s.openFailed c o d .enomem
        else if cfg.hasOpen fs = false then s.openFailed c o d .enosys
        else
          { (s.setFnode s.nextFnode ⟨1, fs, fnodePath cfg fs fullpath, fullpath, .regular, 0⟩).setFd d
              { s.fds d with fnode := some s.nextFnode } with
            nextFnode := s.nextFnode + 1
            hash := s.nextFnode :: s.hash
            fmLock := some c }.setPc c (.found o d s.nextFnode)

/-- `fd->flags = flags`, where the caller's flags may hold `DFS_F_CLOSING`. -/
def dfsFileOpenFlags (c : ℕ) (o : Opener) (d f : ℕ) (closing : Bool) : FdSys :=
  (s.setFd d { s.fds d with closing := closing }).setPc c (.driver o d f)

/-- The rest of `dfs_file_open` after the driver has opened the file. -/
def dfsFileOpened (c : ℕ) (o : Opener) (d f : ℕ) (directory : Bool) : FdSys :=
  let s := { s.setFnode f { s.fnodes f with type := if directory then .directory else (s.fnodes f).type } with
    fmLock := if s.fmLock = some c then none else s.fmLock }
  match o with
  | .slot σ => (s.setFd d { s.fds d with openAt := none }).finish c (.fd σ.2)
  | .mount => s.setPc c (.mounted d)

/-- The rest of `dfs_file_open` after the driver has failed. -/
def dfsFileOpenFailed (c : ℕ) (o : Opener) (d f : ℕ) : FdSys :=
  let n := (s.fnodes f).refCount - 1
  ({ (s.setFnode f { s.fnodes f with
      refCount := n
      freed := (s.fnodes f).freed + if n = 0 then 1 else 0 }).setFd d { s.fds d with fnode := none } with
    hash := if n = 0 then s.hash.erase f else s.hash
    fmLock := none }).openFailed c o d .driver

/-- `dfs_file_close`, which waits for the lock of the file manager when it has something to close. -/
def dfsFileClose (d : ℕ) (result : CloseResult) : Option (FdSys × CloseResult) :=
  match (s.fds d).fnode with
  | none => some (s, .retry)
  | some f =>
    if (s.fds d).refCount ≠ 1 then some (s, .done)
    else if s.fmLock.isSome then none
    else if (s.fnodes f).refCount = 0 ∨ result = .retry then some (s, .retry)
    else if (s.fnodes f).refCount = 1 then
      some ({ (s.setFd d { s.fds d with fnode := none }).setFnode f
        { s.fnodes f with freed := (s.fnodes f).freed + 1 } with hash := s.hash.erase f }, result)
    else some (s, result)

/-- `fd_init` and the beginning of the check that `dfs_mount` makes of the path. -/
def mountCheck (c : ℕ) : FdSys :=
  { s.setFd s.next ⟨1, none, false, 0, true, none⟩ with next := s.next + 1 }.setPc c (.opening .mount s.next)

end FdSys

inductive FdEvent
  /-- A process gets a table of `n` slots. -/
  | newTable (t n : ℕ)
  | fdNew (c t : ℕ) (mem calloc : Bool)
  | fdGet (c : ℕ) (σ : FdSlot)
  | openGet (c : ℕ)
  | openFind (c : ℕ) (cwd : WorkDir) (path : List Char) (table : List Filesystem) (alloc calloc : Bool)
  | openFlags (c : ℕ) (closing : Bool)
  | opened (c : ℕ) (directory : Bool)
  | openFailed (c : ℕ)
  | release (c : ℕ)
  | getRef (c : ℕ) (σ : FdSlot)
  | put (c : ℕ)
  | close (c : ℕ) (σ : FdSlot) (type : Option FileType)
  | fileClose (c : ℕ) (result : CloseResult)
  | closed (c : ℕ)
  | dup (c t oldfd : ℕ) (mem : Bool)
  | dup2 (c t oldfd newfd : ℕ) (mem : Bool)
  | associate (c : ℕ) (σ : FdSlot)
  | retry (c : ℕ)
  | retryNext (c : ℕ)
  | mount (c : ℕ)

namespace FdSys

/-- The call starts if it is not inside another one. -/
def start (s : FdSys) (c : ℕ) (s' : FdSys) : Option FdSys := if s.pc c = .idle then some s' else none

def step (cfg : DfsConfig) (s : FdSys) : FdEvent → Option FdSys
  | .newTable t n => if s.maxfd t = 0 then some (s.setMaxfd t n) else none
  | .fdNew c t mem calloc => s.start c (s.fdtFdNew cfg c t mem calloc)
  | .fdGet c σ =>
    s.start c
      (match s.fdtFdGetLocked σ with
      | some d => s.setPc c (.looked d)
      | none => s.finish c .minusOne)
  | .openGet c =>
    match s.pc c with
    | .allocated σ d =>
      some
        (match s.fdtFdGetLocked σ with
        | some d => s.setPc c (.opening (.slot σ) d)
        | none => s.setPc c (.failing σ d .einval))
    | _ => none
  | .openFind c cwd path table alloc calloc =>
    match s.pc c, s.fmLock with
    | .opening o d, none => some (s.dfsFileOpen cfg c o d cwd path table alloc calloc)
    | _, _ => none
  | .openFlags c closing =>
    match s.pc c with
    | .found o d f => some (s.dfsFileOpenFlags c o d f closing)
    | _ => none
  | .opened c directory =>
    match s.pc c with
    | .driver o d f => some (s.dfsFileOpened c o d f directory)
    | _ => none
  | .openFailed c =>
    match s.pc c with
    | .driver o d f => if s.fmLock = none ∨ s.fmLock = some c then some (s.dfsFileOpenFailed c o d f) else none
    | _ => none
  | .release c =>
    match s.pc c with
    | .failing σ d errno =>
      some (((s.setFd d { s.fds d with openAt := none }).fdtFdRelease σ).finish c (.failed errno))
    | _ => none
  | .getRef c σ => s.start c (s.fdGetRef c σ)
  | .put c =>
    match s.pc c with
    | .holds d k => if 0 < (s.fds d).refCount then some (s.fdPut c d k) else none
    | _ => none
  | .close c σ type => s.start c (s.fdtFdClose c σ type)
  | .fileClose c result =>
    match s.pc c with
    | .putting d k => (s.dfsFileClose d result).map fun r => r.1.setPc c (.put d k r.2)
    | .closing σ d => (s.dfsFileClose d result).map fun r => r.1.setPc c (.closed σ d r.2)
    | .mounted d => (s.dfsFileClose d result).map fun r => (r.1.pop d).finish c .done
    | _ => none
  | .closed c =>
    match s.pc c with
    | .put d k result => some (s.fdPutClosed c d k result)
    | .closed σ d result => some (s.fdtFdClosed c σ d result)
    | _ => none
  | .dup c t oldfd mem => s.start c (s.sysDup cfg c t oldfd mem)
  | .dup2 c t oldfd newfd mem => s.start c (s.sysDup2 cfg c t oldfd newfd mem)
  | .associate c σ =>
    match s.pc c with
    | .looked d => some (s.fdAssociate c σ d)
    | _ => none
  | .retry c => s.start c (s.fdRetryFailedCloses c)
  | .retryNext c =>
    match s.pc c with
    | .retrying => some (s.fdRetryNext c)
    | _ => none
  | .mount c => s.start c (s.mountCheck c)

end FdSys

end RtSmart
