import Mathlib.Tactic

/-!
The thread control block, the thread lists and the ready table of the single-core kernel.
Threads and kernel objects are named by numbers that stand for their addresses.
-/

namespace RtSmart

abbrev Tid := ℕ
abbrev Oid := ℕ

inductive Err where
  | eok | error | etimeout | efull | eintr | einval
  deriving DecidableEq, Repr

inductive SuspendFlag where
  | interruptible | killable | uninterruptible
  deriving DecidableEq, Repr

/-- The state in the low three bits of `rt_thread.stat`. -/
inductive Stat where
  | init | close | ready | running
  | suspend (flag : SuspendFlag)
  deriving DecidableEq, Repr

namespace Stat

/-- `(stat & RT_THREAD_SUSPEND_MASK) == RT_THREAD_SUSPEND_MASK`. -/
def suspended : Stat → Bool
  | .suspend _ => true
  | _ => false

end Stat

structure Thread where
  stat : Stat
  yield : Bool
  error : Err
  currentPriority : ℕ
  initPriority : ℕ
  number : ℕ
  highMask : BitVec 8
  numberMask : BitVec 32
  pendingObject : Option Oid
  eventSet : BitVec 32
  eventInfo : BitVec 8
  signal : BitVec 64
  signalMask : BitVec 64
  timer : Bool
  initTick : ℕ
  remainingTick : ℕ

inductive ListHead where
  | ready (priority : ℕ)
  | suspend (object : Oid)
  | sender (object : Oid)
  deriving DecidableEq, Repr

structure Kernel where
  priorityMax : ℕ
  thread : Tid → Thread
  list : ListHead → List Tid
  readyPriorityGroup : BitVec 32
  readyTable : ℕ → BitVec 8
  current : Option Tid
  schedulerLockNest : ℕ

namespace Kernel

def setThread (k : Kernel) (t : Tid) (f : Thread → Thread) : Kernel :=
  { k with thread := Function.update k.thread t (f (k.thread t)) }

/-- `rt_list_remove(&thread->tlist)`: the node leaves the list it is linked in, if any. -/
def rtListRemove (k : Kernel) (t : Tid) : Kernel :=
  { k with list := fun h => (k.list h).erase t }

def rtListInsertBefore (k : Kernel) (h : ListHead) (t : Tid) : Kernel :=
  { k with list := Function.update k.list h (k.list h ++ [t]) }

section simps

variable (k : Kernel) (t : Tid) (f : Thread → Thread) (h : ListHead)

@[simp] theorem setThread_thread_self : (k.setThread t f).thread t = f (k.thread t) := by
  simp [setThread]

@[simp] theorem setThread_thread_of_ne {u : Tid} (hu : u ≠ t) :
    (k.setThread t f).thread u = k.thread u := by
  simp [setThread, hu]

@[simp] theorem setThread_list : (k.setThread t f).list = k.list := rfl
@[simp] theorem setThread_current : (k.setThread t f).current = k.current := rfl
@[simp] theorem setThread_priorityMax : (k.setThread t f).priorityMax = k.priorityMax := rfl
@[simp] theorem setThread_group : (k.setThread t f).readyPriorityGroup = k.readyPriorityGroup := rfl
@[simp] theorem setThread_table : (k.setThread t f).readyTable = k.readyTable := rfl
@[simp] theorem setThread_lock : (k.setThread t f).schedulerLockNest = k.schedulerLockNest := rfl

@[simp] theorem rtListRemove_thread : (k.rtListRemove t).thread = k.thread := rfl
@[simp] theorem rtListRemove_list : (k.rtListRemove t).list h = (k.list h).erase t := rfl
@[simp] theorem rtListRemove_current : (k.rtListRemove t).current = k.current := rfl
@[simp] theorem rtListRemove_priorityMax : (k.rtListRemove t).priorityMax = k.priorityMax := rfl
@[simp] theorem rtListRemove_group : (k.rtListRemove t).readyPriorityGroup = k.readyPriorityGroup := rfl
@[simp] theorem rtListRemove_table : (k.rtListRemove t).readyTable = k.readyTable := rfl

@[simp] theorem rtListInsertBefore_thread : (k.rtListInsertBefore h t).thread = k.thread := rfl
@[simp] theorem rtListInsertBefore_current : (k.rtListInsertBefore h t).current = k.current := rfl
@[simp] theorem rtListInsertBefore_priorityMax :
    (k.rtListInsertBefore h t).priorityMax = k.priorityMax := rfl
@[simp] theorem rtListInsertBefore_group :
    (k.rtListInsertBefore h t).readyPriorityGroup = k.readyPriorityGroup := rfl
@[simp] theorem rtListInsertBefore_table : (k.rtListInsertBefore h t).readyTable = k.readyTable := rfl

theorem setThread_thread (u : Tid) :
    (k.setThread t f).thread u = if u = t then f (k.thread t) else k.thread u := by
  by_cases hu : u = t
  · subst hu; simp
  · simp [hu]

theorem rtListInsertBefore_list (h' : ListHead) :
    (k.rtListInsertBefore h t).list h' = if h' = h then k.list h ++ [t] else k.list h' := by
  simp [rtListInsertBefore, Function.update_apply]

end simps

end Kernel

end RtSmart
