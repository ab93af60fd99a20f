import RtSmart.Kernel.Thread

namespace RtSmart

/-- The priority attributes that `rt_thread_startup` and `rt_thread_control` recalculate. -/
def Thread.setMask (priorityMax : ℕ) (th : Thread) : Thread :=
  if 32 < priorityMax then
    { th with number := th.currentPriority / 8
              numberMask := BitVec.twoPow 32 (th.currentPriority / 8)
              highMask := BitVec.twoPow 8 (th.currentPriority % 8) }
  else { th with numberMask := BitVec.twoPow 32 th.currentPriority }

def lowestBitBitmap : List ℕ :=
  [0, 0, 1, 0, 2, 0, 1, 0, 3, 0, 1, 0, 2, 0, 1, 0, 4, 0, 1, 0, 2, 0, 1, 0, 3, 0, 1, 0, 2, 0, 1, 0,
   5, 0, 1, 0, 2, 0, 1, 0, 3, 0, 1, 0, 2, 0, 1, 0, 4, 0, 1, 0, 2, 0, 1, 0, 3, 0, 1, 0, 2, 0, 1, 0,
   6, 0, 1, 0, 2, 0, 1, 0, 3, 0, 1, 0, 2, 0, 1, 0, 4, 0, 1, 0, 2, 0, 1, 0, 3, 0, 1, 0, 2, 0, 1, 0,
   5, 0, 1, 0, 2, 0, 1, 0, 3, 0, 1, 0, 2, 0, 1, 0, 4, 0, 1, 0, 2, 0, 1, 0, 3, 0, 1, 0, 2, 0, 1, 0,
   7, 0, 1, 0, 2, 0, 1, 0, 3, 0, 1, 0, 2, 0, 1, 0, 4, 0, 1, 0, 2, 0, 1, 0, 3, 0, 1, 0, 2, 0, 1, 0,
   5, 0, 1, 0, 2, 0, 1, 0, 3, 0, 1, 0, 2, 0, 1, 0, 4, 0, 1, 0, 2, 0, 1, 0, 3, 0, 1, 0, 2, 0, 1, 0,
   6, 0, 1, 0, 2, 0, 1, 0, 3, 0, 1, 0, 2, 0, 1, 0, 4, 0, 1, 0, 2, 0, 1, 0, 3, 0, 1, 0, 2, 0, 1, 0,
   5, 0, 1, 0, 2, 0, 1, 0, 3, 0, 1, 0, 2, 0, 1, 0, 4, 0, 1, 0, 2, 0, 1, 0, 3, 0, 1, 0, 2, 0, 1, 0]

/-- Byte `i` of the word, the index that `__rt_ffs` looks up. -/
def byte (value : BitVec 32) (i : ℕ) : BitVec 8 := value.extractLsb' (8 * i) 8

def lowestBit (b : BitVec 8) : ℕ := lowestBitBitmap.getD b.toNat 0

def rtFfs (value : BitVec 32) : ℕ :=
  if value = 0 then 0
  else if byte value 0 ≠ 0 then lowestBit (byte value 0) + 1
  else if byte value 1 ≠ 0 then lowestBit (byte value 1) + 9
  else if byte value 2 ≠ 0 then lowestBit (byte value 2) + 17
  else lowestBit (byte value 3) + 25

def lwpSuspendSigcheck (th : Thread) (flag : SuspendFlag) : Bool :=
  let set := th.signal &&& ~~~th.signalMask
  match flag with
  | .interruptible => set = 0
  | .killable => set = 0 || !set.getLsbD 8
  | .uninterruptible => true

namespace Kernel

def rtScheduleInsertThread (k : Kernel) (t : Tid) : Kernel :=
  if k.current = some t then k.setThread t fun th => { th with stat := .running }
  else
    let th := k.thread t
    let k := k.setThread t fun th => { th with stat := .ready }
    let k := k.rtListInsertBefore (.ready th.currentPriority) t
    let k := if 32 < k.priorityMax then
        { k with readyTable := Function.update k.readyTable th.number (k.readyTable th.number ||| th.highMask) }
      else k
    { k with readyPriorityGroup := k.readyPriorityGroup ||| th.numberMask }

def rtScheduleRemoveThread (k : Kernel) (t : Tid) : Kernel :=
  let th := k.thread t
  let k := k.rtListRemove t
  if k.list (.ready th.currentPriority) = [] then
    if 32 < k.priorityMax then
      { k with
        readyTable := Function.update k.readyTable th.number (k.readyTable th.number &&& ~~~th.highMask)
        readyPriorityGroup := if k.readyTable th.number &&& ~~~th.highMask = 0 then
            k.readyPriorityGroup &&& ~~~th.numberMask
          else k.readyPriorityGroup }
    else { k with readyPriorityGroup := k.readyPriorityGroup &&& ~~~th.numberMask }
  else k

def getHighestPriority (k : Kernel) : ℕ :=
  if 32 < k.priorityMax then
    let number := rtFfs k.readyPriorityGroup - 1
    number * 8 + rtFfs ((k.readyTable number).setWidth 32) - 1
  else rtFfs k.readyPriorityGroup - 1

/-- The tail of `rt_schedule`: `toThread` gets the processor, and `fromThread` goes back to its
ready queue when it was still running. -/
def switchTo (k : Kernel) (fromThread toThread : Tid) (needInsert : Bool) : Kernel :=
  let k := { k with current := some toThread }
  let k := if needInsert then k.rtScheduleInsertThread fromThread else k
  (k.rtScheduleRemoveThread toThread).setThread toThread fun th => { th with stat := .running }

def rtSchedule (k : Kernel) : Kernel :=
  match k.current, (k.list (.ready k.getHighestPriority)).head? with
  | some cur, some highest =>
    if k.schedulerLockNest ≠ 0 ∨ k.readyPriorityGroup = 0 then k
    else
      let th := k.thread cur
      if th.stat = .running then
        let k' := k.setThread cur fun th => { th with yield := false }
        if th.currentPriority < k.getHighestPriority ∨
            (th.currentPriority = k.getHighestPriority ∧ th.yield = false) then
          (k'.rtScheduleRemoveThread cur).setThread cur fun th => { th with stat := .running }
        else k'.switchTo cur highest true
      else k.switchTo cur highest false
  | _, _ => k

def rtThreadSuspendWithFlag (k : Kernel) (t : Tid) (flag : SuspendFlag) : Kernel × Err :=
  let th := k.thread t
  if th.stat ≠ .ready ∧ th.stat ≠ .running then (k, .error)
  else if lwpSuspendSigcheck th flag = false then (k, .eintr)
  else
    ((k.rtScheduleRemoveThread t).setThread t fun th =>
      { th with stat := .suspend flag, timer := false }, .eok)

def rtThreadResume (k : Kernel) (t : Tid) : Kernel × Err :=
  if (k.thread t).stat.suspended = false then (k, .error)
  else
    (((k.rtListRemove t).setThread t fun th => { th with timer := false }).rtScheduleInsertThread t, .eok)

/-- The expiry of the one-shot thread timer and its callback `rt_thread_timeout`. -/
def rtThreadTimeout (k : Kernel) (t : Tid) : Kernel :=
  ((k.setThread t fun th => { th with error := .etimeout, timer := false }).rtListRemove
    t).rtScheduleInsertThread t

inductive ControlCmd where
  | changePriority | updatePriority
  deriving DecidableEq, Repr

def setPriority (k : Kernel) (t : Tid) (cmd : ControlCmd) (priority : ℕ) : Kernel :=
  k.setThread t fun th =>
    Thread.setMask k.priorityMax
      { th with currentPriority := priority
                initPriority := if cmd = .changePriority then priority else th.initPriority }

def rtThreadControl (k : Kernel) (t : Tid) (cmd : ControlCmd) (priority : ℕ) : Kernel :=
  if (k.thread t).stat = .ready then
    ((k.rtScheduleRemoveThread t).setPriority t cmd priority).rtScheduleInsertThread t
  else k.setPriority t cmd priority

/-- The part of `rt_thread_startup` before its call of `rt_schedule`. -/
def makeReady (k : Kernel) (t : Tid) : Kernel :=
  let k := k.setThread t fun th =>
    { Thread.setMask k.priorityMax { th with currentPriority := th.initPriority } with
      stat := .suspend .interruptible, yield := false }
  (k.rtThreadResume t).1

def rtThreadStartup (k : Kernel) (t : Tid) : Kernel :=
  let k := k.makeReady t
  if k.current = none then k else k.rtSchedule

def rtThreadYield (k : Kernel) : Kernel :=
  match k.current with
  | none => k
  | some t =>
    (k.setThread t fun th => { th with remainingTick := th.initTick, yield := true }).rtSchedule

/-- What `rt_thread_detach` and `rt_thread_delete` do to a thread that waits for no mutex. -/
def rtThreadClose (k : Kernel) (t : Tid) : Kernel :=
  if (k.thread t).stat = .close then k
  else
    let k := if (k.thread t).stat = .init then k else k.rtScheduleRemoveThread t
    k.setThread t fun th => { th with stat := .close, yield := false, timer := false }

def rtThreadExit (k : Kernel) : Kernel :=
  match k.current with
  | none => k
  | some t =>
    ((k.rtScheduleRemoveThread t).setThread t fun th =>
      { th with stat := .close, yield := false, timer := false }).rtSchedule

def rtSystemSchedulerStart (k : Kernel) : Kernel :=
  match (k.list (.ready k.getHighestPriority)).head? with
  | none => k
  | some toThread =>
    ({ k with current := some toThread }.rtScheduleRemoveThread toThread).setThread toThread fun th =>
      { th with stat := .running, yield := false }

def rtEnterCritical (k : Kernel) : Kernel := { k with schedulerLockNest := k.schedulerLockNest + 1 }

def rtExitCritical (k : Kernel) : Kernel :=
  let k := { k with schedulerLockNest := k.schedulerLockNest - 1 }
  if k.schedulerLockNest = 0 ∧ k.current ≠ none then k.rtSchedule else k

end Kernel

end RtSmart
