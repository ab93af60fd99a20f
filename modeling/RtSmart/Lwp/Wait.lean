import RtSmart.Kernel.Thread
import RtSmart.Lib.Transition
import Mathlib.Data.Set.Card

/-!
Processes, their children and `waitpid` (`lwp_pid.c`). Processes are numbered in the order of their creation. A step is
a section that runs with interrupts disabled; one pass of the loop in `lwp_free` is a step, although the source may
make several passes in one section.
-/

namespace RtSmart

open Lib

/-- Where `lwp_free` stands for a process. -/
inductive LwpStage where
  | fresh
  | running
  | cleanup
  | freeing (child : ℕ)
  | freeingSelf
  | exited
  deriving DecidableEq, Repr

/-- `children` is the list from `first_child` through the `sibling` fields. -/
structure Lwp where
  pid : ℤ
  parent : Option ℕ
  children : List ℕ
  ref : ℕ
  finish : Bool
  waitInProgress : Bool
  waitList : List Tid
  stage : LwpStage

inductive WaitPc where
  | idle
  | waiting (child : ℕ) (pid : ℤ)
  | woken (child : ℕ) (pid : ℤ) (ok : Bool)
  | prepared (child : ℕ) (pid : ℤ)
  deriving DecidableEq, Repr

/-- `thread` is the process of a live thread. `pidPut` and `freed` count what `lwp_pid_put` and `rt_free` did for a
process, `delivered` the wait calls that returned its exit status. -/
structure WaitSys where
  lwp : ℕ → Lwp
  next : ℕ
  pidTable : ℤ → Option ℕ
  thread : Tid → Option ℕ
  pc : Tid → WaitPc
  pidPut : ℕ → ℕ
  freed : ℕ → ℕ
  delivered : ℕ → ℕ

namespace WaitSys

def lwpNew (pid : ℤ) : Lwp where
  pid := pid
  parent := none
  children := []
  ref := 1
  finish := false
  waitInProgress := false
  waitList := []
  stage := .fresh

def init : WaitSys where
  lwp _ := lwpNew 0
  next := 0
  pidTable _ := none
  thread _ := none
  pc _ := .idle
  pidPut _ := 0
  freed _ := 0
  delivered _ := 0

def setLwp (s : WaitSys) (c : ℕ) (f : Lwp → Lwp) : WaitSys :=
  { s with lwp := Function.update s.lwp c (f (s.lwp c)) }

def setPc (s : WaitSys) (t : Tid) (p : WaitPc) : WaitSys := { s with pc := Function.update s.pc t p }

/-- `lwp_pid_put(lwp_to_pid(lwp))`. -/
def lwpPidPut (s : WaitSys) (c : ℕ) : WaitSys :=
  { s with pidTable := Function.update s.pidTable (s.lwp c).pid none
           pidPut := Function.update s.pidPut c (s.pidPut c + 1) }

def rtFree (s : WaitSys) (c : ℕ) : WaitSys :=
  { s with freed := Function.update s.freed c (s.freed c + 1) }

/-- One pass of the loop over the children in `lwp_free`. -/
def freeChild (s : WaitSys) (p c : ℕ) (cs : List ℕ) : WaitSys :=
  let s := s.setLwp p fun l => { l with children := cs }
  if (s.lwp c).finish = true then (s.lwpPidPut c).setLwp p fun l => { l with stage := .freeing c }
  else s.setLwp c fun l => { l with parent := none }

/-- The first waiter is resumed with `RT_EOK`. -/
def wakeWaiter (s : WaitSys) (p : ℕ) : WaitSys :=
  match (s.lwp p).waitList with
  | [] => s
  | t :: ts => (s.setLwp p fun l => { l with waitList := ts }).setPc t (.woken p (s.lwp p).pid true)

/-- The end of `lwp_free`. -/
def publish (s : WaitSys) (p : ℕ) : WaitSys :=
  let s := s.setLwp p fun l => { l with finish := true }
  if (s.lwp p).parent = none then (s.lwpPidPut p).setLwp p fun l => { l with stage := .freeingSelf }
  else (s.wakeWaiter p).setLwp p fun l => { l with stage := .exited }

/-- `lwp_waitpid_prepare` up to its call of `rt_schedule`, for a thread of process `p`. -/
def lwpWaitpidPrepare (s : WaitSys) (t : Tid) (p : ℕ) (pid : ℤ) : WaitSys :=
  match s.pidTable pid with
  | none => s
  | some c =>
    if (s.lwp c).parent ≠ some p then s
    else if (s.lwp c).waitInProgress = true ∨ (s.lwp c).waitList ≠ [] then s
    else if (s.lwp c).finish = true then
      (s.setLwp c fun l => { l with waitInProgress := true }).setPc t (.prepared c pid)
    else
      (s.setLwp c fun l => { l with waitInProgress := true, waitList := l.waitList ++ [t] }).setPc t (.waiting c pid)

/-- `lwp_waitpid_finalize` for a thread of process `p`. -/
def lwpWaitpidFinalize (s : WaitSys) (p : ℕ) (pid : ℤ) (reap : Bool) : WaitSys :=
  match s.pidTable pid with
  | none => s
  | some c =>
    if (s.lwp c).parent ≠ some p ∨ (s.lwp c).waitInProgress = false then s
    else if reap = true then
      let s := ((s.setLwp p fun l => { l with children := l.children.erase c }).lwpPidPut c).rtFree c
      { s with delivered := Function.update s.delivered c (s.delivered c + 1) }
    else s.setLwp c fun l => { l with waitInProgress := false }

inductive Event where
  | lwpNew (pid : ℤ)
  | link (t : Tid) (c : ℕ)
  | start (c : ℕ) (u : Tid)
  | spawn (t u : Tid)
  | abandon (c : ℕ)
  | exitThread (t : Tid)
  | freeChild (p : ℕ)
  | rtFree (p : ℕ)
  | publish (p : ℕ)
  | prepare (t : Tid) (pid : ℤ) (options : ℤ)
  | exitRequest (t : Tid)
  | resume (t : Tid)
  | finalize (t : Tid) (reap : Bool)

def step (s : WaitSys) : Event → Option WaitSys
  | .lwpNew pid =>
    if 0 < pid ∧ s.pidTable pid = none then
      some { s with lwp := Function.update s.lwp s.next (lwpNew pid), next := s.next + 1
                    pidTable := Function.update s.pidTable pid (some s.next) }
    else none
  | .link t c =>
    match s.thread t with
    | some p =>
      if s.pc t = .idle ∧ c < s.next ∧ (s.lwp c).stage = .fresh ∧ (s.lwp c).parent = none then
        some ((s.setLwp p fun l => { l with children := c :: l.children }).setLwp c fun l => { l with parent := some p })
      else none
    | none => none
  | .start c u =>
    if c < s.next ∧ (s.lwp c).stage = .fresh ∧ s.thread u = none ∧ s.pc u = .idle then
      some { s.setLwp c fun l => { l with stage := .running } with thread := Function.update s.thread u (some c) }
    else none
  | .spawn t u =>
    match s.thread t with
    | some p =>
      if s.thread u = none ∧ s.pc u = .idle then
        some { s.setLwp p fun l => { l with ref := l.ref + 1 } with thread := Function.update s.thread u (some p) }
      else none
    | none => none
  | .abandon c =>
    if c < s.next ∧ (s.lwp c).stage = .fresh then
      some (s.setLwp c fun l => { l with ref := l.ref - 1, stage := .cleanup })
    else none
  | .exitThread t =>
    match s.thread t with
    | some p =>
      if s.pc t = .idle then
        some { s.setLwp p fun l =>
                 { l with ref := l.ref - 1, stage := if l.ref - 1 = 0 then .cleanup else l.stage } with
               thread := Function.update s.thread t none }
      else none
    | none => none
  | .freeChild p =>
    match (s.lwp p).stage, (s.lwp p).children with
    | .cleanup, c :: cs => some (s.freeChild p c cs)
    | _, _ => none
  | .rtFree p =>
    match (s.lwp p).stage with
    | .freeing c => some ((s.rtFree c).setLwp p fun l => { l with stage := .cleanup })
    | .freeingSelf => some ((s.rtFree p).setLwp p fun l => { l with stage := .exited })
    | _ => none
  | .publish p =>
    if (s.lwp p).stage = .cleanup ∧ (s.lwp p).children = [] then some (s.publish p) else none
  | .prepare t pid _ =>
    match s.thread t with
    | some p => if s.pc t = .idle then some (s.lwpWaitpidPrepare t p pid) else none
    | none => none
  | .exitRequest t =>
    match s.pc t with
    | .waiting c pid =>
      some ((s.setLwp c fun l => { l with waitList := l.waitList.erase t }).setPc t (.woken c pid false))
    | _ => none
  | .resume t =>
    match s.pc t with
    | .woken c pid true => some (s.setPc t (.prepared c pid))
    | .woken c _ false => some ((s.setLwp c fun l => { l with waitInProgress := false }).setPc t .idle)
    | _ => none
  | .finalize t reap =>
    match s.thread t, s.pc t with
    | some p, .prepared _ pid => some ((s.lwpWaitpidFinalize p pid reap).setPc t .idle)
    | _, _ => none

end WaitSys

end RtSmart
