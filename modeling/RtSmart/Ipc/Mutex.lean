import RtSmart.Ipc.WaitList

namespace RtSmart

open Lib Kernel

def rtMutexHoldMax : ℕ := 0xff

structure Mutex where
  owner : Option Tid
  hold : ℕ
  priority : ℕ
  ceilingPriority : ℕ

def rtMutexInit : Mutex := ⟨none, 0, 0xff, 0xff⟩

/-- The kernel with its mutexes; `taken` is the list of a thread's `taken_object_list`. -/
structure MutexState where
  k : Kernel
  mutex : Oid → Mutex
  taken : Tid → List Oid

namespace MutexState

def setThread (s : MutexState) (t : Tid) (f : Thread → Thread) : MutexState := { s with k := s.k.setThread t f }

def setMutex (s : MutexState) (m : Oid) (f : Mutex → Mutex) : MutexState :=
  { s with mutex := Function.update s.mutex m (f (s.mutex m)) }

@[simp] theorem setThread_k (s : MutexState) (t : Tid) (f : Thread → Thread) : (s.setThread t f).k = s.k.setThread t f := rfl
@[simp] theorem setThread_mutex (s : MutexState) (t : Tid) (f : Thread → Thread) : (s.setThread t f).mutex = s.mutex := rfl
@[simp] theorem setThread_taken (s : MutexState) (t : Tid) (f : Thread → Thread) : (s.setThread t f).taken = s.taken := rfl
@[simp] theorem setMutex_k (s : MutexState) (m : Oid) (f : Mutex → Mutex) : (s.setMutex m f).k = s.k := rfl
@[simp] theorem setMutex_taken (s : MutexState) (m : Oid) (f : Mutex → Mutex) : (s.setMutex m f).taken = s.taken := rfl

@[simp] theorem setMutex_mutex_self (s : MutexState) (m : Oid) (f : Mutex → Mutex) :
    (s.setMutex m f).mutex m = f (s.mutex m) := by
  simp [setMutex]

@[simp] theorem setMutex_mutex_of_ne (s : MutexState) {m m' : Oid} (f : Mutex → Mutex) (h : m' ≠ m) :
    (s.setMutex m f).mutex m' = s.mutex m' := by
  simp [setMutex, h]

/-- The priority that `_mutex_update_priority` stores: that of the first waiter. -/
def waiterPriority (k : Kernel) (m : Oid) : ℕ :=
  match k.list (.suspend m) with
  | [] => 0xff
  | t :: _ => (k.thread t).currentPriority

def mutexUpdatePriority (s : MutexState) (m : Oid) : MutexState :=
  s.setMutex m fun mx => { mx with priority := waiterPriority s.k m }

def threadGetMutexPriority (s : MutexState) (t : Tid) : ℕ :=
  (s.taken t).foldl (fun priority m => if (s.mutex m).priority < priority then (s.mutex m).priority else priority)
    (s.k.thread t).initPriority

/-- `_thread_update_priority`. The recursion follows the chain of pending mutexes; `fuel` bounds it,
and a call that needs more, or meets a pending mutex without an owner, gives no state. -/
def threadUpdatePriority : ℕ → MutexState → Tid → ℕ → SuspendFlag → Option MutexState
  | 0, _, _, _, _ => none
  | fuel + 1, s, t, priority, sf =>
    let s := { s with k := s.k.rtThreadControl t .updatePriority priority }
    -- the test `== RT_THREAD_SUSPEND` sees the interruptible state only
    if (s.k.thread t).stat = .suspend .interruptible then
      match (s.k.thread t).pendingObject with
      | none => some s
      | some m =>
        let s := { s with k := ((s.k.rtListRemove t).rtIpcListSuspend (.suspend m) t .prio sf).1 }
        let s := s.mutexUpdatePriority m
        match (s.mutex m).owner with
        | none => none
        | some o =>
          if s.threadGetMutexPriority o ≠ (s.k.thread o).currentPriority then
            threadUpdatePriority fuel s o (s.threadGetMutexPriority o) sf
          else some s
    else some s

/-- The part of `_rt_mutex_take` that raises the owner's priority to that of a new waiter. -/
def inherit (fuel : ℕ) (s : MutexState) (m : Oid) (o : Tid) (priority : ℕ) (sf : SuspendFlag) :
    Option MutexState :=
  if priority < (s.mutex m).priority then
    let s := s.setMutex m fun mx => { mx with priority := priority }
    if priority < (s.k.thread o).currentPriority then threadUpdatePriority fuel s o priority sf else some s
  else some s

/-- `_rt_mutex_take` up to its call of `rt_schedule`; no return value means that the thread waits. -/
def rtMutexTake (fuel : ℕ) (s : MutexState) (m : Oid) (t : Tid) (timeout : ℤ) (sf : SuspendFlag) :
    Option (MutexState × Option Err) :=
  let mx := s.mutex m
  let s := s.setThread t fun th => { th with error := .eok }
  match mx.owner with
  | none =>
    let s := s.setMutex m fun mx => { mx with owner := some t, priority := 0xff, hold := 1 }
    if mx.ceilingPriority ≠ 0xff then
      if mx.ceilingPriority < (s.k.thread t).currentPriority then
        (threadUpdatePriority fuel s t mx.ceilingPriority sf).map fun s => (s, some .eok)
      else some (s, some .eok)
    else some ({ s with taken := Function.update s.taken t (m :: s.taken t) }, some .eok)
  | some o =>
    if o = t then
      if mx.hold < rtMutexHoldMax then some (s.setMutex m fun mx => { mx with hold := mx.hold + 1 }, some .eok)
      else some (s, some .efull)
    else if timeout = 0 then some (s.setThread t fun th => { th with error := .etimeout }, some .etimeout)
    else
      let priority := (s.k.thread t).currentPriority
      match (s.k.setThread t fun th => { th with error := .eintr }).rtIpcListSuspend (.suspend m) t .prio sf with
      | (k, .eok) =>
        let s := { s with k := k.setThread t fun th => { th with pendingObject := some m } }
        (inherit fuel s m o priority sf).map fun s =>
          (if 0 < timeout then { s with k := s.k.rtTimerStart t } else s, none)
      | (k, ret) => some ({ s with k := k }, some ret)

/-- The rest of `_rt_mutex_take`, after the thread has run again. -/
def rtMutexTakeEnd (fuel : ℕ) (s : MutexState) (m : Oid) (t : Tid) (sf : SuspendFlag) : Option (MutexState × Err) :=
  let ret := (s.k.thread t).error
  if ret = .eok then some (s, .eok)
  else
    let s := s.setThread t fun th => { th with pendingObject := none }
    let s := s.mutexUpdatePriority m
    match (s.mutex m).owner with
    | none => some (s, ret)
    | some o =>
      if (s.k.thread o).currentPriority = (s.k.thread t).currentPriority ∧
          s.threadGetMutexPriority o ≠ (s.k.thread o).currentPriority then
        (threadUpdatePriority fuel s o (s.threadGetMutexPriority o) sf).map fun s => (s, ret)
      else some (s, ret)

/-- Ownership passes to the waiter `u`. -/
def handOver (s : MutexState) (m : Oid) (u : Tid) : MutexState :=
  let s := { s with k := s.k.rtListRemove u }
  let s := s.setMutex m fun mx => { mx with owner := some u, hold := 1 }
  let s := { s with taken := Function.update s.taken u (m :: s.taken u) }
  let s := s.setThread u fun th => { th with pendingObject := none, error := .eok }
  let s := { s with k := (s.k.rtThreadResume u).1 }
  s.mutexUpdatePriority m

/-- The part of `rt_mutex_release` that takes the mutex off the thread's list and lowers the
thread's priority. -/
def lastRelease (s : MutexState) (m : Oid) (t : Tid) : MutexState :=
  let s := { s with taken := fun u => (s.taken u).erase m }
  if (s.mutex m).ceilingPriority ≠ 0xff ∨ (s.k.thread t).currentPriority = (s.mutex m).priority then
    { s with k := s.k.rtThreadControl t .updatePriority (s.threadGetMutexPriority t) }
  else s

def rtMutexRelease (s : MutexState) (m : Oid) (t : Tid) : MutexState × Err :=
  if (s.mutex m).owner ≠ some t then (s.setThread t fun th => { th with error := .error }, .error)
  else
    let s := s.setMutex m fun mx => { mx with hold := mx.hold - 1 }
    if (s.mutex m).hold = 0 then
      let s := s.lastRelease m t
      match s.k.list (.suspend m) with
      | [] => (s.setMutex m fun mx => { mx with owner := none, priority := 0xff }, .eok)
      | u :: _ => (s.handOver m u, .eok)
    else (s, .eok)

def rtMutexSetprioceiling (s : MutexState) (m : Oid) (priority : ℕ) : MutexState :=
  if priority < s.k.priorityMax then s.setMutex m fun mx => { mx with ceilingPriority := priority } else s

end MutexState

/-- `waiting` is the call of `_rt_mutex_take` in which a thread is past `rt_schedule`. `acquired` and
`released` count the successful takes and releases of each thread; a waiter that gets the mutex from
a release has taken it. -/
structure MutexSys extends MutexState where
  waiting : Tid → Option (Oid × SuspendFlag)
  acquired : Oid → Tid → ℕ
  released : Oid → Tid → ℕ

namespace MutexSys

def init (k : Kernel) : MutexSys where
  k := k
  mutex _ := rtMutexInit
  taken _ := []
  waiting _ := none
  acquired _ _ := 0
  released _ _ := 0

inductive Event where
  | take (fuel : ℕ) (t : Tid) (m : Oid) (timeout : ℤ) (sf : SuspendFlag)
  | ret (fuel : ℕ) (t : Tid)
  | release (t : Tid) (m : Oid)
  | changePriority (t : Tid) (priority : ℕ)
  | setprioceiling (m : Oid) (priority : ℕ)
  | kernel (e : KernelEvent)

def bump (f : Oid → Tid → ℕ) (m : Oid) (t : Tid) : Oid → Tid → ℕ :=
  Function.update f m (Function.update (f m) t (f m t + 1))

/-- The waiter that a release of `m` by `t` makes the owner. -/
def successor (s : MutexState) (m : Oid) (t : Tid) : Option Tid :=
  if (s.mutex m).owner = some t ∧ (s.mutex m).hold = 1 then (s.k.list (.suspend m)).head? else none

def took (s : MutexSys) (m : Oid) (t : Tid) (sf : SuspendFlag) : MutexState × Option Err → MutexSys
  | (st, none) => { s with toMutexState := st, waiting := Function.update s.waiting t (some (m, sf)) }
  | (st, some ret) =>
    { s with toMutexState := st, acquired := if ret = .eok then bump s.acquired m t else s.acquired }

def step (s : MutexSys) : Event → Option MutexSys
  | .take fuel t m timeout sf =>
    if s.k.Runs t ∧ s.waiting t = none then
      (s.toMutexState.rtMutexTake fuel m t timeout sf).map (s.took m t sf)
    else none
  | .ret fuel t =>
    match s.waiting t with
    | none => none
    | some (m, sf) =>
      if s.k.Runs t then
        (s.toMutexState.rtMutexTakeEnd fuel m t sf).map fun r =>
          { s with toMutexState := r.1, waiting := Function.update s.waiting t none }
      else none
  | .release t m =>
    if s.k.Runs t ∧ s.waiting t = none then
      let r := s.toMutexState.rtMutexRelease m t
      some { s with toMutexState := r.1
                    released := if r.2 = .eok then bump s.released m t else s.released
                    acquired := match successor s.toMutexState m t with
                      | none => s.acquired
                      | some u => bump s.acquired m u }
    else none
  | .changePriority t priority =>
    if priority < s.k.priorityMax then some { s with k := s.k.rtThreadControl t .changePriority priority } else none
  | .setprioceiling m priority => some { s with toMutexState := s.toMutexState.rtMutexSetprioceiling m priority }
  | .kernel e => (s.k.kernelStep e).map fun k => { s with k := k }

end MutexSys

end RtSmart
