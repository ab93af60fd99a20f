import RtSmart.Kernel.Thread
import RtSmart.Lib.Transition

/-!
`poll` and `rt_poll_wait` (`poll.c`) over wait queues that drivers wake (`waitqueue.c`). Each call of one of
the two has a number of its own. A driver makes bits of its state ready and wakes its queue for them
afterwards. A step is a section with interrupts disabled, one driver's registration, one driver's report,
or the rest of the code between two of these.
-/

namespace RtSmart

open Lib

abbrev PollMask := BitVec 64

/-- What a call of `rt_wqueue_wait` and a poller leave in a wait queue. `key` is `wqn.key`. -/
inductive PollNode
  | plain (thread : ℕ)
  | poll (poller : ℕ) (key : PollMask)
deriving DecidableEq

/-- `events | POLLERR | POLLHUP` as it gets into `wqn.key`. -/
def pollInterest (events : BitVec 16) : PollMask := ((events ||| 0x0c).signExtend 32).setWidth 64

def pollMaskDefault : PollMask := 3

/-- A `struct pollfd` with the file that its descriptor stands for. -/
inductive PollFd
  | ignored
  | invalid
  /-- A file without a `poll` operation. -/
  | always (events : BitVec 16)
  | driver (queue : ℕ) (events : BitVec 16)
deriving DecidableEq

inductive PollResult
  | ready
  | timeout
  | eintr
  | error
deriving DecidableEq

inductive PollPc
  | out
  /-- The head of the loop of `rt_poll_wait`. -/
  | clear
  | scan (rest : List PollFd)
  /-- The driver has called `rt_poll_add` and has not read its state yet. -/
  | report (queue : ℕ) (events : BitVec 16) (rest : List PollFd)
  /-- Before the critical section of `poll_wait_timeout`. -/
  | prepare
  | suspended (timer : Bool)
  | readied
  | teardown (result : PollResult)
  | done (result : PollResult)
deriving DecidableEq

/-- `struct rt_poll_table` with the arguments and the local variables of the call. `proc` says whether `req._proc` is
set, `err` is `thread->error`. -/
structure Poller where
  fds : List PollFd
  timeout : ℤ
  /-- The call is `rt_poll_wait`. -/
  single : Bool
  proc : Bool
  triggered : Bool
  sleeping : Bool
  nodes : List (ℕ × PollMask)
  error : Bool
  err : Err
  istimeout : Bool
  num : ℕ
  pc : PollPc
deriving DecidableEq

/-- `owed`: the bits that have become ready and whose wake-up is still to come. `spent p d`: the bits whose
`rt_wqueue_wakeup` went to a waiter ahead of a node of `p` in the queue of `d`. -/
structure PollSys where
  ready : ℕ → PollMask
  owed : ℕ → PollMask
  waitingList : ℕ → List PollNode
  poller : ℕ → Poller
  spent : ℕ → ℕ → PollMask

inductive PollEvent
  | arrive (queue : ℕ) (bits : PollMask)
  | consume (queue : ℕ) (bits : PollMask)
  | wakeup (queue : ℕ) (key : PollMask)
  | wakeupAll (queue : ℕ) (key : PollMask)
  /-- Another thread enters or leaves `rt_wqueue_wait`. -/
  | enter (queue thread : ℕ)
  | leave (queue thread : ℕ)
  | poll (p : ℕ) (fds : List PollFd) (timeout : ℤ)
  | pollWait (p queue : ℕ) (events : BitVec 16) (timeout : ℤ)
  | clear (p : ℕ)
  /-- The next descriptor, or the end of the scan. `alloc` is whether `rt_malloc` succeeds, `elapsed` whether
  the time of `rt_poll_wait` is over. -/
  | scan (p : ℕ) (alloc elapsed : Bool)
  | report (p : ℕ)
  | fail (p : ℕ)
  /-- `poll_wait_timeout`; `suspended` is whether `rt_thread_suspend_with_flag` succeeds. -/
  | wait (p : ℕ) (suspended : Bool)
  | expire (p : ℕ)
  | signal (p : ℕ)
  | resume (p : ℕ)
  | remove (p : ℕ)
deriving DecidableEq

namespace Poller

def out : Poller := ⟨[], 0, false, false, false, false, [], false, .eok, false, 0, .out⟩

/-- `__wqueue_pollwake` after the test of the key, and `rt_thread_resume` when it returns 0. -/
def pollwake (x : Poller) : Poller × Bool :=
  if x.sleeping then
    ({ x with
        triggered := true
        sleeping := false
        err := .eok
        pc := match x.pc with
          | .suspended _ => .readied
          | pc => pc }, true)
  else ({ x with triggered := true }, false)

/-- `poll_table_init` and the first lines of `poll_do`. -/
def pollStart (fds : List PollFd) (timeout : ℤ) : Poller :=
  { out with fds := fds, timeout := timeout, proc := timeout ≠ 0, istimeout := timeout = 0, pc := .scan fds }

def pollWaitStart (queue : ℕ) (events : BitVec 16) (timeout : ℤ) : Poller :=
  { out with fds := [.driver queue events], timeout := timeout, single := true, proc := timeout ≠ 0, pc := .clear }

/-- A descriptor that is not a driver's, with the mask that `do_pollfd` returns. -/
def scanMask (x : Poller) (mask : PollMask) (rest : List PollFd) : Poller :=
  if mask ≠ 0 then { x with num := x.num + 1, proc := false, pc := .scan rest } else { x with pc := .scan rest }

def scanEnd (x : Poller) (elapsed : Bool) : Poller :=
  let x := { x with proc := false }
  if x.num ≠ 0 then { x with pc := .teardown .ready }
  else if x.single then
    if x.error then { x with pc := .teardown .error }
    else if 0 ≤ x.timeout ∧ (x.timeout = 0 ∨ elapsed) then { x with pc := .teardown .timeout }
    else { x with pc := .prepare }
  else if x.istimeout then { x with pc := .teardown .timeout }
  else { x with pc := .prepare }

/-- What the callers do with the result of `poll_wait_timeout`, which is `!triggered` unless it is `-EINTR`. -/
def waitEnd (x : Poller) : Poller :=
  if x.single then { x with pc := .clear }
  else { x with istimeout := x.istimeout || !x.triggered, num := 0, pc := .scan x.fds }

def waitTimeout (x : Poller) (suspended : Bool) : Poller :=
  if x.timeout ≠ 0 ∧ x.triggered = false then
    if suspended then { x with err := .eintr, sleeping := true, pc := .suspended (0 < x.timeout) }
    else { x with err := .eintr, pc := .teardown .eintr }
  else x.waitEnd

def resumed (x : Poller) : Poller :=
  let x := { x with sleeping := false }
  if x.err = .eintr then { x with pc := .teardown .eintr } else x.waitEnd

end Poller

namespace PollSys

def init : PollSys := ⟨fun _ => 0, fun _ => 0, fun _ => [], fun _ => .out, fun _ _ => 0⟩

def setPoller (s : PollSys) (p : ℕ) (x : Poller) : PollSys :=
  { s with poller := Function.update s.poller p x }

def callback (key : PollMask) (poller : ℕ → Poller) : PollNode → (ℕ → Poller) × Bool
  | .plain _ => (poller, true)
  | .poll p k =>
    if key ≠ 0 ∧ key &&& k = 0 then (poller, false)
    else (Function.update poller p (poller p).pollwake.1, (poller p).pollwake.2)

/-- The loop of `rt_wqueue_wakeup`: the pollers, the queue that is left, and the part of it that was not
reached. -/
def wakeOne (key : PollMask) (poller : ℕ → Poller) :
    List PollNode → (ℕ → Poller) × List PollNode × List PollNode
  | [] => (poller, [], [])
  | n :: l =>
    let r := callback key poller n
    if r.2 then (r.1, l, l)
    else
      let r := wakeOne key r.1 l
      (r.1, n :: r.2.1, r.2.2)

/-- The loop of `rt_wqueue_wakeup_all`. -/
def wakeAll (key : PollMask) (poller : ℕ → Poller) (l : List PollNode) : ℕ → Poller :=
  l.foldl (fun poller n => (callback key poller n).1) poller

/-- The bits of `mask` that a wake-up is about. -/
def covered (mask key : PollMask) : PollMask := if key = 0 then mask else mask &&& key

def isOwned (p : ℕ) : PollNode → Bool
  | .plain _ => false
  | .poll q _ => p = q

def rtWqueueWakeup (s : PollSys) (d : ℕ) (key : PollMask) : PollSys :=
  let r := wakeOne key s.poller (s.waitingList d)
  let bits := covered (s.owed d) key
  { s with
    owed := Function.update s.owed d (s.owed d &&& ~~~bits)
    poller := r.1
    waitingList := Function.update s.waitingList d r.2.1
    spent := fun p e => if e = d ∧ r.2.2.any (isOwned p) then s.spent p e ||| bits else s.spent p e }

def rtWqueueWakeupAll (s : PollSys) (d : ℕ) (key : PollMask) : PollSys :=
  { s with
    owed := Function.update s.owed d (s.owed d &&& ~~~covered (s.owed d) key)
    poller := wakeAll key s.poller (s.waitingList d) }

/-- `rt_poll_add`: `_poll_add` when `_proc` is set. -/
def rtPollAdd (s : PollSys) (p d : ℕ) (key : PollMask) (alloc : Bool) : PollSys :=
  if (s.poller p).proc then
    if alloc then
      { s.setPoller p { s.poller p with nodes := (d, key) :: (s.poller p).nodes } with
        waitingList := Function.update s.waitingList d (s.waitingList d ++ [.poll p key]) }
    else s.setPoller p { s.poller p with error := true }
  else s

def setPc (s : PollSys) (p : ℕ) (pc : PollPc) : PollSys := s.setPoller p { s.poller p with pc := pc }

def scanFd (s : PollSys) (p : ℕ) (alloc : Bool) (rest : List PollFd) : PollFd → PollSys
  | .ignored => s.setPoller p ((s.poller p).scanMask 0 rest)
  | .invalid => s.setPoller p ((s.poller p).scanMask 0x10 rest)
  | .always events => s.setPoller p ((s.poller p).scanMask (pollMaskDefault &&& pollInterest events) rest)
  | .driver d events => (s.rtPollAdd p d (pollInterest events) alloc).setPc p (.report d events rest)

def step (s : PollSys) : PollEvent → Option PollSys
  | .arrive d bits =>
    some { s with
      ready := Function.update s.ready d (s.ready d ||| bits)
      owed := Function.update s.owed d (s.owed d ||| bits) }
  | .consume d bits => some { s with ready := Function.update s.ready d (s.ready d &&& ~~~bits) }
  | .wakeup d key => some (s.rtWqueueWakeup d key)
  | .wakeupAll d key => some (s.rtWqueueWakeupAll d key)
  | .enter d t => some { s with waitingList := Function.update s.waitingList d (s.waitingList d ++ [.plain t]) }
  | .leave d t => some { s with waitingList := Function.update s.waitingList d ((s.waitingList d).erase (.plain t)) }
  | .poll p fds timeout =>
    if (s.poller p).pc = .out then some (s.setPoller p (.pollStart fds timeout)) else none
  | .pollWait p d events timeout =>
    if (s.poller p).pc = .out then some (s.setPoller p (.pollWaitStart d events timeout)) else none
  | .clear p =>
    if (s.poller p).pc = .clear then
      some (s.setPoller p { s.poller p with triggered := false, num := 0, pc := .scan (s.poller p).fds })
    else none
  | .scan p alloc elapsed =>
    match (s.poller p).pc with
    | .scan [] => some (s.setPoller p ((s.poller p).scanEnd elapsed))
    | .scan (fd :: rest) => some (s.scanFd p alloc rest fd)
    | _ => none
  | .report p =>
    match (s.poller p).pc with
    | .report d events rest => some (s.setPoller p ((s.poller p).scanMask (s.ready d &&& pollInterest events) rest))
    | _ => none
  | .fail p =>
    match (s.poller p).pc with
    | .report _ _ _ => some (s.setPoller p { s.poller p with proc := false, pc := .teardown .error })
    | _ => none
  | .wait p suspended =>
    if (s.poller p).pc = .prepare then some (s.setPoller p ((s.poller p).waitTimeout suspended)) else none
  | .expire p =>
    if (s.poller p).pc = .suspended true then some (s.setPoller p { s.poller p with err := .etimeout, pc := .readied })
    else none
  | .signal p =>
    match (s.poller p).pc with
    | .suspended _ => some (s.setPc p .readied)
    | _ => none
  | .resume p => if (s.poller p).pc = .readied then some (s.setPoller p (s.poller p).resumed) else none
  | .remove p =>
    match (s.poller p).pc, (s.poller p).nodes with
    | .teardown result, [] => some (s.setPc p (.done result))
    | .teardown _, (d, key) :: nodes =>
      some { s.setPoller p { s.poller p with nodes := nodes } with
        waitingList := Function.update s.waitingList d ((s.waitingList d).erase (.poll p key)) }
    | _, _ => none

end PollSys

end RtSmart
