import RtSmart.Kernel.Timer
import RtSmart.Lib.Transition

/-!
A work queue (`workqueue.c`): the calls that submit and cancel work items, and the worker thread. A step is
a section made with the lock of the queue held, a section of `rt_completion_wait`, a call of a work
function, or a tick. The submissions are numbered as they are accepted.
-/

namespace RtSmart

open Lib

/-- The two flags of `rt_work.flags`. -/
structure RtWork where
  pending : Bool
  submitting : Bool
  timeoutTick : BitVec 32
deriving DecidableEq

inductive WorkErr
  | eok
  | error
  | ebusy
deriving DecidableEq

inductive WorkerPc
  | check
  /-- Before `rt_completion_wait`. -/
  | wait (delayTick : ℤ)
  /-- Suspended there, until the thread timer goes off if it was started. -/
  | asleep (timer : Option ℕ)
  | woken
  | running (work : ℕ)
deriving DecidableEq

/-- `completed` is the flag of `wakeup_completion`, and the clock shows `time` without its wrap. From `next`
on the state records what the code does not: which submission is the last of each item and when it is
due, whether `rt_workqueue_urgent_work` has put the item where it is, the submissions that have been run,
with the time, and those that have been cancelled or replaced by another one of the same item. -/
structure Workqueue where
  work : ℕ → RtWork
  workList : List ℕ
  delayedList : List ℕ
  workCurrent : Option ℕ
  completed : Bool
  pc : WorkerPc
  time : ℕ
  next : ℕ
  token : ℕ → ℕ
  due : ℕ → ℕ
  urged : ℕ → Bool
  ran : List (ℕ × ℕ)
  cancelled : List ℕ
  replaced : List ℕ

inductive WorkEvent
  | submit (work : ℕ) (ticks : BitVec 32)
  | urgent (work : ℕ)
  | cancel (work : ℕ)
  | tick
  /-- A turn of the worker's loop, up to the wait or the call of the work function. -/
  | turn
  | wait
  | expire
  | resume
  | finish
deriving DecidableEq

namespace Workqueue

/-- `rt_workqueue_create`, with work items from `rt_work_init`. -/
def init (time : ℕ) : Workqueue where
  work _ := ⟨false, false, 0⟩
  workList := []
  delayedList := []
  workCurrent := none
  completed := false
  pc := .check
  time := time
  next := 0
  token _ := 0
  due _ := 0
  urged _ := false
  ran := []
  cancelled := []
  replaced := []

def rtTickGet (s : Workqueue) : BitVec 32 := .ofNat 32 s.time

def setWork (s : Workqueue) (w : ℕ) (x : RtWork) : Workqueue := { s with work := Function.update s.work w x }

/-- `rt_list_remove`. -/
def remove (s : Workqueue) (w : ℕ) : Workqueue :=
  { s with workList := s.workList.erase w, delayedList := s.delayedList.erase w }

def displaced (s : Workqueue) (w : ℕ) : List ℕ :=
  if w ∈ s.workList ++ s.delayedList then [s.token w] else []

def accept (s : Workqueue) (w ticks : ℕ) : Workqueue :=
  { s with
    next := s.next + 1
    token := Function.update s.token w s.next
    due := Function.update s.due s.next (s.time + ticks) }

def rtCompletionDone (s : Workqueue) : Workqueue :=
  if s.completed then s
  else
    { s with
      completed := true
      pc :=
        match s.pc with
        | .asleep _ => .woken
        | p => p }

/-- The place that the loop in `_workqueue_submit_work` finds. -/
def insertDelayed (work : ℕ → RtWork) (w : ℕ) : List ℕ → List ℕ
  | [] => [w]
  | v :: l =>
    if ((work v).timeoutTick - (work w).timeoutTick).toNat < rtTickMax / 2 then w :: v :: l
    else v :: insertDelayed work w l

def workqueueSubmitWork (s : Workqueue) (w : ℕ) (ticks : BitVec 32) : Workqueue × WorkErr :=
  let s := { (s.remove w).setWork w ⟨false, false, (s.work w).timeoutTick⟩ with
    urged := Function.update s.urged w false
    replaced := s.displaced w ++ s.replaced }
  if ticks = 0 then
    let s := s.setWork w { s.work w with pending := true }
    (({ s with workList := s.workList ++ [w] }.accept w 0).rtCompletionDone, .eok)
  else if ticks.toNat < rtTickMax / 2 then
    let s := s.setWork w { s.work w with submitting := true, timeoutTick := s.rtTickGet + ticks }
    (({ s with delayedList := insertDelayed s.work w s.delayedList }.accept w ticks.toNat).rtCompletionDone, .eok)
  else (s, .error)

def rtWorkqueueUrgentWork (s : Workqueue) (w : ℕ) : Workqueue :=
  let s := { s.remove w with
    urged := Function.update s.urged w true
    replaced := s.displaced w ++ s.replaced }
  ({ s with workList := w :: s.workList }.accept w 0).rtCompletionDone

def workqueueCancelWork (s : Workqueue) (w : ℕ) : Workqueue × WorkErr :=
  ({ (s.remove w).setWork w ⟨false, false, (s.work w).timeoutTick⟩ with
      urged := Function.update s.urged w false
      cancelled := s.displaced w ++ s.cancelled },
    if s.workCurrent ≠ some w then .eok else .ebusy)

def expired (s : Workqueue) (w : ℕ) : Bool := (s.rtTickGet - (s.work w).timeoutTick).toNat < rtTickMax / 2

/-- The loop of `timer check`, over the delayed list. -/
def timerCheck : List ℕ → Workqueue → Workqueue
  | [], s => s
  | w :: l, s =>
    if s.expired w then
      timerCheck l
        ({ s with delayedList := l, workList := s.workList ++ [w] }.setWork w
          { s.work w with submitting := false, pending := true })
    else s

def delayTick (s : Workqueue) : ℤ :=
  match s.delayedList with
  | [] => -1
  | w :: _ => ((s.work w).timeoutTick - s.rtTickGet).toInt

def threadTurn (s : Workqueue) : Workqueue :=
  let s := timerCheck s.delayedList s
  match s.workList with
  | [] => { s with pc := .wait s.delayTick }
  | w :: l =>
    { s.setWork w { s.work w with pending := false } with
      workList := l
      workCurrent := some w
      pc := .running w
      ran := (s.token w, s.time) :: s.ran }

def rtCompletionWait (s : Workqueue) (timeout : ℤ) : Workqueue :=
  if s.completed then { s with completed := false, pc := .check }
  else if timeout = 0 then { s with pc := .check }
  else { s with pc := .asleep (if 0 < timeout then some (s.time + timeout.toNat) else none) }

def step (s : Workqueue) : WorkEvent → Option Workqueue
  | .submit w ticks => some (s.workqueueSubmitWork w ticks).1
  | .urgent w => some (s.rtWorkqueueUrgentWork w)
  | .cancel w => some (s.workqueueCancelWork w).1
  | .tick => some { s with time := s.time + 1 }
  | .turn => if s.pc = .check then some s.threadTurn else none
  | .wait =>
    match s.pc with
    | .wait delayTick => some (s.rtCompletionWait delayTick)
    | _ => none
  | .expire =>
    match s.pc with
    | .asleep (some timer) => if timer ≤ s.time then some { s with pc := .woken } else none
    | _ => none
  | .resume => if s.pc = .woken then some { s with completed := false, pc := .check } else none
  | .finish =>
    match s.pc with
    | .running _ => some { s with workCurrent := none, pc := .check }
    | _ => none

end Workqueue

end RtSmart
