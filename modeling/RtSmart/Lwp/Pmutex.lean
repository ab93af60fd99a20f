import RtSmart.Ipc.Mutex
import RtSmart.Ipc.Semaphore

/-!
The process mutexes of `lwp_pmutex.c`: the threads of one process call `sys_pmutex` on one user address.
A step is a section that runs under `_pmutex_tree_lock` or with interrupts disabled; the steps of
different threads interleave freely.
-/

namespace RtSmart

open Lib

inductive PmutexType where
  | normal | recursive | errorcheck
  deriving DecidableEq, Repr

/-- A `struct rt_pmutex` with its kernel lock: `value` is that of `ksem`, `owner` and `hold` are those of
`kmutex`, `waiters` the threads suspended on either. `linked` stands for `node.data != RT_NULL`. -/
structure Pmutex where
  type : PmutexType
  value : ℕ
  owner : Option Tid
  hold : ℕ
  waiters : List Tid
  linked : Bool
  destroying : Bool
  operationCount : ℕ

/-- The positive numbers that `sys_pmutex` returns. -/
inductive PmutexRet where
  | ok | eagain | eintr | einval | enomem | eperm | ebusy | etimedout | edeadlk
  deriving DecidableEq, Repr

/-- `lock` with `first` set is the first try of `PMUTEX_LOCK`, `init` with a time the initialisation that
follows when it finds no mutex. -/
inductive PmutexOp where
  | init (time : Option ℤ)
  | lock (time : ℤ) (first : Bool)
  | unlock
  | destroy
  deriving DecidableEq, Repr

/-- Where a thread stands in its call. -/
inductive Pc where
  | idle
  | wants (op : PmutexOp)
  | inside (op : PmutexOp)
  | creating (time : Option ℤ)
  | adding (time : Option ℤ) (o : Oid)
  | undoing (time : Option ℤ) (o : Oid)
  | dropping (time : Option ℤ) (o : Oid)
  | got (op : PmutexOp) (o : Oid)
  | locking (time : ℤ) (o : Oid)
  | blocked (time : ℤ) (o : Oid)
  | unlocking (o : Oid)
  | tested (o : Oid)
  | putting (op : PmutexOp) (o : Oid) (ret : PmutexRet)
  | checking (o : Oid) (active : ℕ)
  | busy (o : Oid)
  | removing (o : Oid)
  | deleting (o : Oid)
  | lastPut (o : Oid)
  | releasing (o : Oid) (next : Pc)
  | finishing (op : PmutexOp) (ret : PmutexRet)
  | returned (op : PmutexOp) (ret : PmutexRet)
  deriving DecidableEq, Repr

/-- The mutexes are numbered in the order of their creation, and `tree` is the entry of the user address in
`pmutex_search_head`. `condemned` marks a mutex whose removal has been decided, `released` counts the calls of
`pmutex_release` for it, and `seen` is what the last destroy call of a thread found: a mutex that is locked or in
use. -/
structure PmutexSys where
  pmutex : Oid → Pmutex
  next : Oid
  tree : Option Oid
  lockOwner : Option Tid
  pc : Tid → Pc
  condemned : Oid → Bool
  released : Oid → ℕ
  seen : Tid → Bool

namespace Pmutex

def isLocked (m : Pmutex) : Bool :=
  match m.type with
  | .normal => m.value = 0
  | _ => m.owner ≠ none

def create (type : PmutexType) : Pmutex where
  type := type
  value := 1
  owner := none
  hold := 0
  waiters := []
  linked := true
  destroying := false
  operationCount := 0

/-- The wait of a thread that did not get the lock; `pos` is its place among the waiters. -/
def wait (m : Pmutex) (t : Tid) (time : ℤ) (pos : ℕ) (interrupted : Bool) : Pmutex × Option PmutexRet :=
  if time = 0 then (m, some .ebusy)
  else if interrupted = true then (m, some .eintr)
  else ({ m with waiters := m.waiters.take pos ++ t :: m.waiters.drop pos }, none)

def takeMutex (m : Pmutex) (t : Tid) (time : ℤ) (pos : ℕ) (interrupted : Bool) : Pmutex × Option PmutexRet :=
  if m.owner = some t then
    if m.hold < rtMutexHoldMax then ({ m with hold := m.hold + 1 }, some .ok) else (m, some .eagain)
  else if m.owner = none then ({ m with owner := some t, hold := 1 }, some .ok)
  else m.wait t time pos interrupted

/-- The kernel lock in `_pthread_mutex_lock_timeout`; no result means that the thread waits. -/
def take (m : Pmutex) (t : Tid) (time : ℤ) (pos : ℕ) (interrupted : Bool) : Pmutex × Option PmutexRet :=
  match m.type with
  | .normal =>
    if 0 < m.value then ({ m with value := m.value - 1 }, some .ok) else m.wait t time pos interrupted
  | .recursive => m.takeMutex t time pos interrupted
  | .errorcheck => if m.owner = some t then (m, some .edeadlk) else m.takeMutex t time pos interrupted

/-- `rt_sem_release` and `rt_mutex_release` in `_pthread_mutex_unlock`, with the waiter that gets the lock. -/
def unlock (m : Pmutex) (t : Tid) : Pmutex × PmutexRet × Option Tid :=
  match m.type with
  | .normal =>
    match m.waiters with
    | w :: ws => ({ m with waiters := ws }, .ok, some w)
    | [] => if m.value < rtSemValueMax then ({ m with value := m.value + 1 }, .ok, none) else (m, .eperm, none)
  | _ =>
    if m.owner ≠ some t then (m, .eperm, none)
    else if m.hold - 1 ≠ 0 then ({ m with hold := m.hold - 1 }, .ok, none)
    else
      match m.waiters with
      | w :: ws => ({ m with owner := some w, hold := 1, waiters := ws }, .ok, some w)
      | [] => ({ m with owner := none, hold := 0 }, .ok, none)

end Pmutex

namespace PmutexSys

def init : PmutexSys where
  pmutex _ := Pmutex.create .normal
  next := 0
  tree := none
  lockOwner := none
  pc _ := .idle
  condemned _ := false
  released _ := 0
  seen _ := false

def setPc (s : PmutexSys) (t : Tid) (p : Pc) : PmutexSys := { s with pc := Function.update s.pc t p }

def setPmutex (s : PmutexSys) (o : Oid) (m : Pmutex) : PmutexSys :=
  { s with pmutex := Function.update s.pmutex o m }

/-- What `sys_pmutex` does with the result of one of its parts. -/
def proceed : PmutexOp → PmutexRet → Pc
  | .lock time true, .enomem => .wants (.init (some time))
  | .init (some time), .ok => .wants (.lock time false)
  | op, ret => .returned op ret

/-- The error when `_pmutex_lock` cannot be taken. -/
def notTaken : PmutexOp → PmutexRet
  | .lock _ _ => .eintr
  | _ => .eagain

/-- The error when the mutex is not in the tree. -/
def notFound : PmutexOp → PmutexRet
  | .lock _ _ => .enomem
  | .unlock => .eperm
  | _ => .einval

def treeRemove (s : PmutexSys) (o : Oid) : PmutexSys :=
  if (s.pmutex o).linked = true then
    { s.setPmutex o { s.pmutex o with linked := false } with tree := none }
  else s

/-- The section of `pmutex_put`; `releasing` is the call of `pmutex_release` after it. -/
def put (s : PmutexSys) (t : Tid) (o : Oid) (next : Pc) : PmutexSys :=
  let m := { s.pmutex o with operationCount := (s.pmutex o).operationCount - 1 }
  (s.setPmutex o m).setPc t
    (if m.destroying = true ∧ m.operationCount = 0 then .releasing o next else next)

/-- The section of `pmutex_destory`. -/
def destory (s : PmutexSys) (t : Tid) (o : Oid) (next : Pc) : PmutexSys :=
  let s := s.treeRemove o
  let m := { s.pmutex o with destroying := true }
  (s.setPmutex o m).setPc t (if m.operationCount = 0 then .releasing o next else next)

/-- The section of `pmutex_get`. -/
def get (s : PmutexSys) (t : Tid) (op : PmutexOp) : PmutexSys :=
  match s.tree with
  | none => s.setPc t (.finishing op (notFound op))
  | some o =>
    let m := s.pmutex o
    if m.destroying = true then s.setPc t (.finishing op (notFound op))
    else
      let s' := s.setPmutex o { m with operationCount := m.operationCount + 1 }
      match op with
      | .destroy =>
        { s'.setPc t (.checking o m.operationCount) with
          seen := Function.update s.seen t (m.operationCount ≠ 0 ∨ m.isLocked = true) }
      | op => s'.setPc t (.got op o)

/-- The waiter that an unlock chose returns from its wait. -/
def grant (s : PmutexSys) : Option Tid → PmutexSys
  | some w =>
    match s.pc w with
    | .blocked time o => s.setPc w (.putting (.lock time false) o .ok)
    | _ => s
  | none => s

inductive Event where
  | call (t : Tid) (op : PmutexOp)
  | inaccessible (t : Tid)
  | takeGlobal (t : Tid) (taken : Bool)
  | lookup (t : Tid)
  | create (t : Tid) (type : Option PmutexType)
  | objectAdd (t : Tid) (added : Bool)
  | treeRemove (t : Tid)
  | destory (t : Tid)
  | releaseGlobal (t : Tid)
  | kernelTake (t : Tid) (pos : ℕ) (interrupted : Bool)
  | wake (t : Tid) (timeout : Bool)
  | unlockTest (t : Tid)
  | kernelRelease (t : Tid)
  | isLocked (t : Tid)
  | put (t : Tid)
  | release (t : Tid)

def PmutexOp.isCall : PmutexOp → Bool
  | .init none => true
  | .lock _ true => true
  | .unlock => true
  | .destroy => true
  | _ => false

def step (s : PmutexSys) : Event → Option PmutexSys
  | .call t op =>
    match s.pc t with
    | .idle | .returned _ _ =>
      if PmutexOp.isCall op = true then
        some { s.setPc t (.wants op) with seen := Function.update s.seen t false }
      else none
    | _ => none
  | .inaccessible t =>
    match s.pc t with
    | .wants (.init time) => some (s.setPc t (proceed (.init time) .einval))
    | .wants (.lock time first) => some (s.setPc t (proceed (.lock time first) .einval))
    | _ => none
  | .takeGlobal t taken =>
    match s.pc t with
    | .wants op =>
      if taken = false then some (s.setPc t (proceed op (notTaken op)))
      else if s.lockOwner = none then some { s.setPc t (.inside op) with lockOwner := some t }
      else none
    | _ => none
  | .lookup t =>
    match s.pc t with
    | .inside (.init time) =>
      if s.tree.any (fun o => !(s.pmutex o).destroying) = true then some (s.setPc t (.finishing (.init time) .ok))
      else some (s.setPc t (.creating time))
    | .inside op => some (s.get t op)
    | _ => none
  | .create t type =>
    match s.pc t, type with
    | .creating time, none => some (s.setPc t (.finishing (.init time) .enomem))
    | .creating time, some type =>
      some { (s.setPmutex s.next (Pmutex.create type)).setPc t (.adding time s.next) with
             tree := some s.next, next := s.next + 1 }
    | _, _ => none
  | .objectAdd t added =>
    match s.pc t with
    | .adding time o =>
      if added = true then some (s.setPc t (.finishing (.init time) .ok))
      else some { s.setPc t (.undoing time o) with condemned := Function.update s.condemned o true }
    | _ => none
  | .treeRemove t =>
    match s.pc t with
    | .undoing time o => some ((s.treeRemove o).setPc t (.dropping time o))
    | .removing o => some ((s.treeRemove o).setPc t (.deleting o))
    | _ => none
  | .destory t =>
    match s.pc t with
    | .dropping time o => some (s.destory t o (.finishing (.init time) .enomem))
    | .deleting o => some (s.destory t o (.lastPut o))
    | _ => none
  | .releaseGlobal t =>
    match s.pc t with
    | .got (.lock time _) o => some { s.setPc t (.locking time o) with lockOwner := none }
    | .got .unlock o => some { s.setPc t (.unlocking o) with lockOwner := none }
    | .finishing op ret => some { s.setPc t (proceed op ret) with lockOwner := none }
    | _ => none
  | .kernelTake t pos interrupted =>
    match s.pc t with
    | .locking time o =>
      match (s.pmutex o).take t time pos interrupted with
      | (m, some ret) => some ((s.setPmutex o m).setPc t (.putting (.lock time false) o ret))
      | (m, none) => some ((s.setPmutex o m).setPc t (.blocked time o))
    | _ => none
  | .wake t timeout =>
    match s.pc t with
    | .blocked time o =>
      if timeout = true ∧ time < 0 then none
      else
        some ((s.setPmutex o { s.pmutex o with waiters := (s.pmutex o).waiters.erase t }).setPc t
          (.putting (.lock time false) o (if timeout = true then .etimedout else .eintr)))
    | _ => none
  | .unlockTest t =>
    match s.pc t with
    | .unlocking o =>
      if (s.pmutex o).type ≠ .normal then none
      else if 1 ≤ (s.pmutex o).value then some (s.setPc t (.putting .unlock o .eperm))
      else some (s.setPc t (.tested o))
    | _ => none
  | .kernelRelease t =>
    match s.pc t with
    | .tested o =>
      let r := (s.pmutex o).unlock t
      some (((s.setPmutex o r.1).grant r.2.2).setPc t (.putting .unlock o r.2.1))
    | .unlocking o =>
      if (s.pmutex o).type = .normal then none
      else
        let r := (s.pmutex o).unlock t
        some (((s.setPmutex o r.1).grant r.2.2).setPc t (.putting .unlock o r.2.1))
    | _ => none
  | .isLocked t =>
    match s.pc t with
    | .checking o active =>
      if active ≠ 0 ∨ (s.pmutex o).isLocked = true then some (s.setPc t (.busy o))
      else some { s.setPc t (.removing o) with condemned := Function.update s.condemned o true }
    | _ => none
  | .put t =>
    match s.pc t with
    | .putting op o ret => some (s.put t o (.returned op ret))
    | .busy o => some (s.put t o (.finishing .destroy .ebusy))
    | .lastPut o => some (s.put t o (.finishing .destroy .ok))
    | _ => none
  | .release t =>
    match s.pc t with
    | .releasing o next => some { s.setPc t next with released := Function.update s.released o (s.released o + 1) }
    | _ => none

end PmutexSys

end RtSmart
