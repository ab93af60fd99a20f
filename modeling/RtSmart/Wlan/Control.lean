import RtSmart.Lib.Counted
import RtSmart.Lib.Transition

/-!
The control device of a WLAN radio (`wlan_offload_control.c`), with the part of DFS that calls it: `fm_lock`,
`fdlock`, the file node and the references of the descriptor. A step is a section made with a lock held or a call
that blocks. `fnode->ref_count` is changed under `fm_lock` by an open and under `fdlock` by `fd_free`, so reading
it and writing it are two steps. A descriptor pins itself for every read and write (`fd_get_ref`), and its close
callback is made with the last reference. Requests that are refused for their arguments are left out. The radio is
unregistered once. `active_operations` is a natural number: a process has far fewer threads than 65536.
-/

namespace RtSmart

open Lib

inductive ControlResult
  | ok (count : ℕ)
  | enodev
  | eio
  | ebusy
  | enxio
  | emsgsize
  | eagain
  /-- What `rt_wqueue_wait` or the dispatch of a request returned. -/
  | error (result : ℤ)
deriving DecidableEq

inductive ControlPc
  | idle
  /-- The file node has been found, and its count read. -/
  | entering (read : ℕ)
  /-- The open callback is to come; `locked` when `fm_lock` is held, that is, when the file node is new. -/
  | opening (locked : Bool)
  | failing (locked : Bool) (result : ControlResult)
  /-- The count of the file node that is given back has been read. -/
  | leaving (read : ℕ) (result : ControlResult)
  | reading (count : ℕ) (nonblock : Bool)
  | waiting (count : ℕ) (nonblock : Bool)
  /-- `late` when the write began after the unregistration of the radio did. -/
  | writing (late : Bool)
  | dispatching (late : Bool)
  | finishing (result : ControlResult)
  | putting (result : ControlResult)
  /-- In `dfs_file_close`, called by `fd_put` when `put`. -/
  | closing (put : Bool)
  | closed (destroy : Bool)
  /-- In `fd_free`, with the count once it has been read. -/
  | freeing (read : Option ℕ)
deriving DecidableEq

inductive ControlRemover
  | pending
  | waiting (wait : Bool)
  /-- `rt_device_unregister` has been called. -/
  | unnamed
  | detached (destroy : Bool)
  | done
deriving DecidableEq

/-- The descriptor: its references in the tables, and those of the calls in progress. -/
inductive ControlFd
  | none
  | live (tables pins : ℕ)
  | closing (t : ℕ)
  /-- In the list `failed_closes`. -/
  | failed
deriving DecidableEq

/-- A request that has reached the radio; `radio` when `control->radio` was not null. -/
structure ControlRequest where
  late : Bool
  radio : Bool
deriving DecidableEq

structure ControlSys where
  queue : List ℕ
  dropped : ℕ
  opened : Bool
  registered : Bool
  attached : Bool
  radio : Bool
  removing : Bool
  unregistering : Bool
  destroying : Bool
  active : ℕ
  idleSem : ℕ
  /-- `rt_device_find` finds the device. -/
  named : Bool
  /-- The file node is in the hash table of DFS. -/
  hashed : Bool
  /-- `fnode->ref_count` -/
  refs : ℕ
  fmLock : Option ℕ
  fdLock : Option ℕ
  fd : ControlFd
  remover : ControlRemover
  freed : ℕ
  pc : ℕ → ControlPc
  results : List (ℕ × ControlResult)
  requests : List ControlRequest

inductive ControlEvent
  | openFile (t : ℕ)
  | enter (t : ℕ)
  | open (t : ℕ)
  | giveUp (t : ℕ)
  | leave (t : ℕ)
  | read (t : ℕ) (count : ℕ) (nonblock : Bool)
  | readSection (t : ℕ)
  /-- `rt_wqueue_wait` returns. -/
  | wake (t : ℕ) (result : ℤ)
  | write (t : ℕ)
  | writeSection (t : ℕ)
  | dispatch (t : ℕ) (result : ℤ)
  | writeFinish (t : ℕ)
  | put (t : ℕ)
  | dup
  | close (t : ℕ)
  | retry (t : ℕ)
  | closeSection (t : ℕ)
  | closeDone (t : ℕ)
  | freeLoad (t : ℕ)
  | freeStore (t : ℕ)
  | enqueue (length : ℕ)
  | unregister
  | await
  | detach
  | release
deriving DecidableEq

namespace ControlSys

/-- After `rt_wlan_offload_control_register`. -/
def init : ControlSys where
  queue := []
  dropped := 0
  opened := false
  registered := true
  attached := true
  radio := true
  removing := false
  unregistering := false
  destroying := false
  active := 0
  idleSem := 0
  named := true
  hashed := false
  refs := 0
  fmLock := none
  fdLock := none
  fd := .none
  remover := .pending
  freed := 0
  pc := fun _ => .idle
  results := []
  requests := []

def setPc (s : ControlSys) (t : ℕ) (p : ControlPc) : ControlSys :=
  { s with pc := Function.update s.pc t p }

def ret (s : ControlSys) (t : ℕ) (r : ControlResult) : ControlSys :=
  { s.setPc t .idle with results := (t, r) :: s.results }

def unusable (s : ControlSys) : Bool :=
  !s.registered || s.removing || !s.opened

/-- `dfs_file_open`, up to the open callback of the device or to where it counts its reference to the file node. -/
def openFile (s : ControlSys) (t : ℕ) : Option ControlSys :=
  match s.fmLock with
  | some _ => none
  | none =>
    if s.hashed then some { s.setPc t (.entering s.refs) with fmLock := some t }
    else if s.named then some { s.setPc t (.opening true) with hashed := true, refs := 1, fmLock := some t }
    else some (s.ret t .enodev)

def enter (s : ControlSys) (t : ℕ) (read : ℕ) : ControlSys :=
  { s.setPc t (.opening false) with refs := read + 1, fmLock := none }

/-- `wlan_offload_control_open`; on success `fm_lock` is released. The first open comes by way of
`dfs_device_fs_open`, which says `-EIO` when it fails. -/
def openSection (s : ControlSys) (t : ℕ) (locked : Bool) : ControlSys :=
  if !s.registered || s.removing then s.setPc t (.failing locked (if locked then .eio else .enodev))
  else if s.opened then s.setPc t (.failing locked (if locked then .eio else .ebusy))
  else
    { s.ret t (.ok 0) with
      queue := []
      opened := true
      fd := .live 1 0
      fmLock := if locked then none else s.fmLock }

/-- `dfs_file_open` after a failure, up to `fnode->ref_count--`. -/
def giveUp (s : ControlSys) (t : ℕ) (locked : Bool) (r : ControlResult) : Option ControlSys :=
  if locked || s.fmLock.isNone then some { s.setPc t (.leaving s.refs r) with fmLock := some t }
  else none

/-- The end of `dfs_file_open` after a failure. -/
def leave (s : ControlSys) (t : ℕ) (read : ℕ) (r : ControlResult) : ControlSys :=
  { s.ret t r with refs := read - 1, hashed := s.hashed && read - 1 ≠ 0, fmLock := none }

/-- `fd_get_ref` -/
def pin (s : ControlSys) (t : ℕ) (p : ControlPc) : Option ControlSys :=
  match s.fd with
  | .live (tables + 1) pins => some { s.setPc t p with fd := .live (tables + 1) (pins + 1) }
  | _ => none

/-- One turn of `wlan_offload_control_read`. -/
def readSection (s : ControlSys) (t : ℕ) (count : ℕ) (nonblock : Bool) : ControlSys :=
  match s.queue with
  | length :: queue =>
    if count < length then s.setPc t (.putting .emsgsize)
    else { s.setPc t (.putting (.ok length)) with queue := queue }
  | [] =>
    if s.unusable then s.setPc t (.putting .enodev)
    else if nonblock then s.setPc t (.putting .eagain)
    else s.setPc t (.waiting count nonblock)

/-- The first section of `wlan_offload_control_write`. -/
def writeSection (s : ControlSys) (t : ℕ) (late : Bool) : ControlSys :=
  if s.unusable then s.setPc t (.putting .enodev)
  else { s.setPc t (.dispatching late) with active := s.active + 1 }

/-- `wlan_offload_control_dispatch` -/
def dispatch (s : ControlSys) (t : ℕ) (late : Bool) (result : ℤ) : ControlSys :=
  { s.setPc t (.finishing (if result = 0 then .ok 0 else .error result)) with
    requests := ⟨late, s.radio⟩ :: s.requests }

/-- The last section of `wlan_offload_control_write`. -/
def writeFinish (s : ControlSys) (t : ℕ) (r : ControlResult) : ControlSys :=
  { s.setPc t (.putting r) with
    active := s.active - 1
    idleSem := if s.active - 1 = 0 ∧ s.unregistering then s.idleSem + 1 else s.idleSem }

/-- `fd_put` -/
def put (s : ControlSys) (t : ℕ) (r : ControlResult) : Option ControlSys :=
  match s.fd with
  | .live tables pins =>
    if 1 < tables + pins then some { s.ret t r with fd := .live tables (pins - 1) }
    else some { s.setPc t (.closing true) with fd := .closing t, results := (t, r) :: s.results }
  | _ => none

/-- `fdt_fd_close`, up to `dfs_file_close`. -/
def close (s : ControlSys) (t : ℕ) : Option ControlSys :=
  match s.fd with
  | .live (tables + 1) pins =>
    if 1 < tables + 1 + pins then some { s.ret t (.ok 0) with fd := .live tables pins }
    else some { s.setPc t (.closing false) with fd := .closing t }
  | _ => none

/-- `dfs_file_close` finds that nothing refers to the file node. Its caller keeps the descriptor. -/
def refuseClose (s : ControlSys) (t : ℕ) (put : Bool) : ControlSys :=
  if put then { s.setPc t .idle with fd := .failed } else { s.ret t .enxio with fd := .live 1 0 }

/-- `dfs_file_close` takes `fm_lock`; the section of `wlan_offload_control_close`. -/
def closeSection (s : ControlSys) (t : ℕ) (put : Bool) : ControlSys :=
  let destroy := !s.registered && s.active = 0 && !s.unregistering && !s.destroying
  { s.setPc t (.closed destroy) with
    queue := []
    opened := false
    fd := .none
    destroying := s.destroying || destroy
    fmLock := some t
    results := if put then s.results else (t, .ok 0) :: s.results }

/-- The readers are woken, the control is destroyed if it is to be, and `dfs_file_close` takes the file node out of
the table when nothing else refers to it; otherwise it is left to `fd_free`. -/
def closeDone (s : ControlSys) (t : ℕ) (destroy : Bool) : ControlSys :=
  let s := { s with freed := if destroy then s.freed + 1 else s.freed, fmLock := none }
  if s.refs = 1 then { s.setPc t .idle with hashed := false, refs := 0 } else s.setPc t (.freeing none)

/-- `fd_free` frees the file node with its last reference, but leaves it in the table. -/
def freeStore (s : ControlSys) (t : ℕ) (read : ℕ) : ControlSys :=
  { s.setPc t .idle with refs := read - 1, fdLock := none }

/-- `wlan_offload_control_enqueue` -/
def enqueue (s : ControlSys) (length : ℕ) : ControlSys :=
  if s.unusable then s
  else if s.queue.length = 32 then { s with queue := s.queue.tail ++ [length], dropped := s.dropped + 1 }
  else { s with queue := s.queue ++ [length] }

/-- `rt_wlan_offload_control_unregister`, in four steps -/
def unregister (s : ControlSys) : ControlSys :=
  { s with
    registered := false
    removing := true
    unregistering := true
    remover := .waiting (s.active ≠ 0) }

def await (s : ControlSys) (wait : Bool) : Option ControlSys :=
  if wait then
    match s.idleSem with
    | 0 => none
    | n + 1 => some { s with idleSem := n, named := false, remover := .unnamed }
  else some { s with named := false, remover := .unnamed }

def detach (s : ControlSys) : ControlSys :=
  let destroy := !s.opened && !s.destroying
  { s with
    attached := false
    radio := false
    unregistering := false
    destroying := s.destroying || destroy
    remover := .detached destroy }

def release (s : ControlSys) (destroy : Bool) : ControlSys :=
  { s with freed := if destroy then s.freed + 1 else s.freed, remover := .done }

def step (s : ControlSys) : ControlEvent → Option ControlSys
  | .openFile t => if s.pc t = .idle then s.openFile t else none
  | .enter t =>
    match s.pc t with
    | .entering read => some (s.enter t read)
    | _ => none
  | .open t =>
    match s.pc t with
    | .opening locked => some (s.openSection t locked)
    | _ => none
  | .giveUp t =>
    match s.pc t with
    | .failing locked r => s.giveUp t locked r
    | _ => none
  | .leave t =>
    match s.pc t with
    | .leaving read r => some (s.leave t read r)
    | _ => none
  | .read t count nonblock => if s.pc t = .idle ∧ s.fdLock = none then s.pin t (.reading count nonblock) else none
  | .readSection t =>
    match s.pc t with
    | .reading count nonblock => some (s.readSection t count nonblock)
    | _ => none
  | .wake t result =>
    match s.pc t with
    | .waiting count nonblock =>
      some (s.setPc t (if result = 0 then .reading count nonblock else .putting (.error result)))
    | _ => none
  | .write t => if s.pc t = .idle ∧ s.fdLock = none then s.pin t (.writing (!s.registered)) else none
  | .writeSection t =>
    match s.pc t with
    | .writing late => some (s.writeSection t late)
    | _ => none
  | .dispatch t result =>
    match s.pc t with
    | .dispatching late => some (s.dispatch t late result)
    | _ => none
  | .writeFinish t =>
    match s.pc t with
    | .finishing r => some (s.writeFinish t r)
    | _ => none
  | .put t =>
    match s.pc t with
    | .putting r => if s.fdLock = none then s.put t r else none
    | _ => none
  | .dup =>
    match s.fd with
    | .live (tables + 1) pins => if s.fdLock = none then some { s with fd := .live (tables + 2) pins } else none
    | _ => none
  | .close t => if s.pc t = .idle ∧ s.fdLock = none then s.close t else none
  -- `fd_retry_failed_closes`
  | .retry t =>
    if s.pc t = .idle ∧ s.fd = .failed then some { s.setPc t (.closing true) with fd := .closing t } else none
  | .closeSection t =>
    match s.pc t with
    | .closing put =>
      if s.fmLock = none then some (if s.refs = 0 then s.refuseClose t put else s.closeSection t put) else none
    | _ => none
  | .closeDone t =>
    match s.pc t with
    | .closed destroy => some (s.closeDone t destroy)
    | _ => none
  | .freeLoad t =>
    if s.pc t = .freeing none ∧ s.fdLock = none then
      some { s.setPc t (.freeing (some s.refs)) with fdLock := some t }
    else none
  | .freeStore t =>
    match s.pc t with
    | .freeing (some read) => some (s.freeStore t read)
    | _ => none
  | .enqueue length => some (s.enqueue length)
  | .unregister => if s.remover = .pending then some s.unregister else none
  | .await =>
    match s.remover with
    | .waiting wait => s.await wait
    | _ => none
  | .detach => if s.remover = .unnamed then some s.detach else none
  | .release =>
    match s.remover with
    | .detached destroy => some (s.release destroy)
    | _ => none

end ControlSys

end RtSmart
