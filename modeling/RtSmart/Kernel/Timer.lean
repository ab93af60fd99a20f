import RtSmart.Lib.SkipList
import RtSmart.Lib.Transition

/-!
The timers of timer.c: the hard and the soft skip list, `rt_timer_start`, `rt_timer_stop`,
`rt_timer_control`, and the two checks, each cut at the call of the timeout function.
-/

namespace RtSmart

open Lib

def rtTickMax : ℕ := 2 ^ 32 - 1

structure RtTimer where
  activated : Bool
  periodic : Bool
  soft : Bool
  timeoutFunc : BitVec 64
  parameter : BitVec 64
  initTick : BitVec 32
  timeoutTick : BitVec 32
  deriving DecidableEq, Repr

inductive TimerCmd
  | getTime
  | setTime (arg : BitVec 32)
  | setOneshot
  | setPeriodic
  | getState
  | getFunc
  | setFunc (arg : BitVec 64)
  | getParm
  | setParm (arg : BitVec 64)
  | getRemainTime
  deriving DecidableEq, Repr

-- the lists, the temporary lists and the timers under expiry are kept by kind: `true` is the soft one
structure TimerSys where
  tick : BitVec 32
  timer : ℕ → RtTimer
  rows : Bool → ℕ → List ℕ
  list : Bool → List ℕ
  expiring : Bool → Option ℕ
  randomNr : BitVec 32
  -- how often a timer was started so far, and when each one was last started
  starts : ℕ
  startNo : ℕ → ℕ

namespace TimerSys

def setTimer (s : TimerSys) (t : ℕ) (f : RtTimer → RtTimer) : TimerSys :=
  { s with timer := Function.update s.timer t (f (s.timer t)) }

@[simp] theorem setTimer_self (s : TimerSys) (t : ℕ) (f : RtTimer → RtTimer) :
    (s.setTimer t f).timer t = f (s.timer t) := Function.update_self _ _ _

theorem setTimer_of_ne (s : TimerSys) {t u : ℕ} (f : RtTimer → RtTimer) (h : u ≠ t) :
    (s.setTimer t f).timer u = s.timer u := Function.update_of_ne h _ _

/-- `_rt_timer_remove`: the nodes of the timer leave whatever list they are on. -/
def remove (s : TimerSys) (t : ℕ) : TimerSys :=
  { s with rows := fun kind i => (s.rows kind i).erase t, list := fun kind => (s.list kind).erase t }

def deactivate (s : TimerSys) (t : ℕ) : TimerSys := s.setTimer t fun x => { x with activated := false }

/-- Whether the search in `rt_timer_start` goes past a timer. -/
def passes (timer : ℕ → RtTimer) (new : BitVec 32) (t : ℕ) : Bool :=
  if (timer t).timeoutTick - new = 0 then true
  else if ((timer t).timeoutTick - new).toNat < rtTickMax / 2 then false
  else true

/-- The rows above the bottom one that a timer enters, `n` of them at most. -/
def extraRows (mask : BitVec 32) : ℕ → BitVec 32 → ℕ
  | 0, _ => 0
  | n + 1, tst => if tst &&& mask = 0 then extraRows mask n (tst >>> ((mask.toNat + 1) / 2)) + 1 else 0

def insertRows (level extra t : ℕ) (timer : ℕ → RtTimer) (rows : ℕ → List ℕ) : ℕ → List ℕ := fun i =>
  if i < level ∧ level - 1 - i ≤ extra then
    SkipList.insertAfter t (rows i) (SkipList.descend (passes timer (timer t).timeoutTick) rows i)
  else rows i

def setTimeout (s : TimerSys) (t : ℕ) : TimerSys :=
  s.setTimer t fun x => { x with timeoutTick := s.tick + x.initTick }

def link (level : ℕ) (mask : BitVec 32) (s : TimerSys) (t : ℕ) : TimerSys :=
  let kind := (s.timer t).soft
  let extra := extraRows mask (level - 1) (s.randomNr + 1)
  { s with
    rows := Function.update s.rows kind (insertRows level extra t s.timer (s.rows kind))
    randomNr := s.randomNr + 1
    starts := s.starts + 1
    startNo := Function.update s.startNo t s.starts }

-- `none` is a failed assertion
def rtTimerStart (level : ℕ) (mask : BitVec 32) (s : TimerSys) (t : ℕ) : Option TimerSys :=
  let s := (s.remove t).deactivate t
  if (s.timer t).initTick.toNat < rtTickMax / 2 then
    some (((s.setTimeout t).link level mask t).setTimer t fun x => { x with activated := true })
  else none

def rtTimerStop (s : TimerSys) (t : ℕ) : TimerSys × Bool :=
  if (s.timer t).activated then ((s.remove t).deactivate t, true) else (s, false)

/-- The value left in `arg`, if any. -/
def rtTimerControl (s : TimerSys) (t : ℕ) : TimerCmd → TimerSys × Option (BitVec 64)
  | .getTime => (s, some ((s.timer t).initTick.setWidth 64))
  | .setTime arg => (s.setTimer t fun x => { x with initTick := arg }, none)
  | .setOneshot => (s.setTimer t fun x => { x with periodic := false }, none)
  | .setPeriodic => (s.setTimer t fun x => { x with periodic := true }, none)
  | .getState => (s, some (if (s.timer t).activated then 1 else 0))
  | .getFunc => (s, some (s.timer t).timeoutFunc)
  | .setFunc arg => (s.setTimer t fun x => { x with timeoutFunc := arg }, none)
  | .getParm => (s, some (s.timer t).parameter)
  | .setParm arg => (s.setTimer t fun x => { x with parameter := arg }, none)
  | .getRemainTime => (s, some ((s.timer t).timeoutTick.setWidth 64))

def expired (now deadline : BitVec 32) : Prop := (now - deadline).toNat < rtTickMax / 2

instance (now deadline : BitVec 32) : Decidable (expired now deadline) := inferInstanceAs (Decidable (_ < _))

/-- One pass through the loop of `rt_timer_check` or `rt_soft_timer_check`, up to the call of the
timeout function. -/
def checkExpire (level : ℕ) (s : TimerSys) (kind : Bool) : Option TimerSys :=
  if s.expiring kind ≠ none then none
  else
    match s.rows kind (level - 1) with
    | [] => some s
    | t :: _ =>
      if expired s.tick (s.timer t).timeoutTick then
        let s := s.remove t
        let s := if (s.timer t).periodic then s else s.deactivate t
        some { s with
          list := Function.update s.list kind (t :: s.list kind)
          expiring := Function.update s.expiring kind (some t) }
      else some s

def checkFinish (level : ℕ) (mask : BitVec 32) (s : TimerSys) (kind : Bool) : Option TimerSys :=
  match s.expiring kind with
  | none => none
  | some t =>
    let s := { s with expiring := Function.update s.expiring kind none }
    if s.list kind = [] then some s
    else
      let s := { s with list := Function.update s.list kind ((s.list kind).erase t) }
      if (s.timer t).periodic ∧ (s.timer t).activated then rtTimerStart level mask (s.deactivate t) t
      else some s

inductive Event
  | tick (n : BitVec 32)
  | start (t : ℕ)
  | stop (t : ℕ)
  | control (t : ℕ) (cmd : TimerCmd)
  | expire (kind : Bool)
  | finish (kind : Bool)
  deriving DecidableEq, Repr

def step (level : ℕ) (mask : BitVec 32) (s : TimerSys) : Event → Option TimerSys
  | .tick n => some { s with tick := s.tick + n }
  | .start t => rtTimerStart level mask s t
  | .stop t => some (rtTimerStop s t).1
  | .control t cmd => some (rtTimerControl s t cmd).1
  | .expire kind => checkExpire level s kind
  | .finish kind => checkFinish level mask s kind

/-- Timers as `_rt_timer_init` leaves them. -/
def init (tick : BitVec 32) (timer : ℕ → RtTimer) : TimerSys where
  tick := tick
  timer := fun t => { timer t with activated := false, timeoutTick := 0 }
  rows := fun _ _ => []
  list := fun _ => []
  expiring := fun _ => none
  randomNr := 0
  starts := 0
  startNo := fun _ => 0

/-- `rt_timer_list_next_timeout`. -/
def nextTimeout (level : ℕ) (s : TimerSys) (kind : Bool) : BitVec 32 :=
  match s.rows kind (level - 1) with
  | [] => BitVec.ofNat 32 rtTickMax
  | t :: _ => (s.timer t).timeoutTick

inductive TimerWait
  | suspend
  | delay (ticks : BitVec 32)
  | go
  deriving DecidableEq, Repr

/-- What an iteration of `rt_thread_timer_entry` does before it calls `rt_soft_timer_check`. -/
def timerEntryWait (level : ℕ) (s : TimerSys) : TimerWait :=
  let next := nextTimeout level s true
  if next = BitVec.ofNat 32 rtTickMax then .suspend
  else if (next - s.tick).toNat < rtTickMax / 2 then .delay (next - s.tick)
  else .go

end TimerSys

end RtSmart
