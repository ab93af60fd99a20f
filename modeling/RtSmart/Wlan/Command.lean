import RtSmart.Lib.Search
import RtSmart.Lib.Transition

/-!
The command manager of the WLAN offload layer (`wlan_offload_command.c`). A step is a section made with
`manager->lock` held, or a return of the transport's `push` or of `rt_completion_wait`. Each call of
`rt_wlan_offload_command_execute` has a number of its own, which stands for the address of its
`rt_wlan_offload_pending_command`.
-/

namespace RtSmart

open Lib

abbrev rtEok : ℤ := 0
abbrev rtEtimeout : ℤ := 2
abbrev rtEfull : ℤ := 3
abbrev rtEempty : ℤ := 4
abbrev rtEbusy : ℤ := 7
abbrev rtEio : ℤ := 8
abbrev rtEintr : ℤ := 9
abbrev rtEinval : ℤ := 10

/-- `RT_WLAN_OFFLOAD_COMMAND_RESPONSE_ANY` -/
abbrev commandResponseAny : BitVec 16 := 0xffff

/-- `struct rt_wlan_offload_pending_command`; `response` is the buffer of the caller, `none` for a null
pointer. -/
structure PendingCommand where
  token : BitVec 32
  commandId : BitVec 16
  confirmationId : BitVec 16
  response : Option (List UInt8)
  responseCapacity : ℕ
  responseLength : ℕ
  result : ℤ
  pending : Bool
deriving DecidableEq

inductive CommandManagerState
  | ready
  | failed
deriving DecidableEq

/-- Where a call of `rt_wlan_offload_command_execute` stands. -/
inductive ExecutePc
  | idle
  | pushing
  | waiting
  /-- `rt_completion_wait` has returned `waitResult`, and the lock is not taken yet. -/
  | expired (waitResult : ℤ)
  | returned (result : ℤ)
deriving DecidableEq

structure ExecuteArgs where
  commandId : BitVec 16
  confirmationId : BitVec 16
  request : Option (List UInt8)
  requestLength : ℕ
  response : Option (List UInt8)
  responseCapacity : ℕ
  timeout : ℤ
deriving DecidableEq

/-- What the transport hands to `rt_wlan_offload_command_complete`. -/
structure Confirmation where
  token : BitVec 32
  confirmationId : BitVec 16
  status : ℤ
  response : Option (List UInt8)
  responseLength : ℕ
deriving DecidableEq

structure CommandManager where
  state : CommandManagerState
  pending : List ℕ
  nextToken : BitVec 32
  pendingCount : BitVec 16
  maxPending : BitVec 16
  command : ℕ → PendingCommand
  completed : ℕ → Bool
  pc : ℕ → ExecutePc

inductive CommandEvent
  | execute (c : ℕ) (args : ExecuteArgs)
  | pushed (c : ℕ) (result : ℤ)
  /-- `rt_completion_wait` returns `RT_EOK`. -/
  | wake (c : ℕ)
  /-- `rt_completion_wait` returns an error: a timeout or an interruption. -/
  | expire (c : ℕ) (waitResult : ℤ)
  | timeout (c : ℕ)
  | complete (k : Confirmation)
  | fail (status : ℤ)
  | reset
deriving DecidableEq

/-- The answer as it is written into the command. -/
def PendingCommand.deliver (x : PendingCommand) (k : Confirmation) : PendingCommand :=
  { x with
    responseLength := k.responseLength
    response :=
      if k.responseLength ≠ 0 ∧ x.responseCapacity ≠ 0 then
        let n := min k.responseLength x.responseCapacity
        x.response.map fun buffer => (k.response.getD []).take n ++ buffer.drop n
      else x.response
    result :=
      if k.status = rtEok ∧ x.response.isSome ∧ x.responseCapacity < k.responseLength then -rtEfull
      else k.status }

namespace CommandManager

/-- `rt_wlan_offload_command_manager_init` -/
def managerInit (maxPending : BitVec 16) : Option CommandManager :=
  if maxPending = 0 then none
  else
    some
      { state := .ready
        pending := []
        nextToken := 0
        pendingCount := 0
        maxPending := maxPending
        command := fun _ => ⟨0, 0, 0, none, 0, 0, 0, false⟩
        completed := fun _ => false
        pc := fun _ => .idle }

def setCommand (s : CommandManager) (c : ℕ) (x : PendingCommand) : CommandManager :=
  { s with command := Function.update s.command c x }

def setPc (s : CommandManager) (c : ℕ) (p : ExecutePc) : CommandManager :=
  { s with pc := Function.update s.pc c p }

/-- `rt_completion_done` -/
def completionDone (s : CommandManager) (c : ℕ) : CommandManager :=
  { s with completed := Function.update s.completed c true }

def removeLocked (s : CommandManager) (c : ℕ) : CommandManager :=
  if (s.command c).pending then
    { s.setCommand c { s.command c with pending := false } with
      pending := s.pending.erase c
      pendingCount := s.pendingCount - 1 }
  else s

def succToken (t : BitVec 32) : BitVec 32 := if t + 1 = 0 then t + 1 + 1 else t + 1

def tokenInUse (s : CommandManager) (t : BitVec 32) : Bool :=
  s.pendingCount ≠ 0 && s.pending.any fun c => (s.command c).token = t

def allocTokenLocked (s : CommandManager) (fuel : ℕ) : Option (BitVec 32) :=
  firstUnused succToken s.tokenInUse fuel s.nextToken

/-- The first locked section; `none` when the loop over the tokens does not end. -/
def commandExecute (s : CommandManager) (c : ℕ) (args : ExecuteArgs) : Option CommandManager :=
  if (args.requestLength ≠ 0 ∧ args.request = none) ∨
      (args.responseCapacity ≠ 0 ∧ args.response = none) ∨ args.timeout = 0 then
    some (s.setPc c (.returned (-rtEinval)))
  else if s.state ≠ .ready then some (s.setPc c (.returned (-rtEio)))
  else if s.maxPending ≤ s.pendingCount then some (s.setPc c (.returned (-rtEfull)))
  else
    (s.allocTokenLocked (s.pending.length + 1)).map fun t =>
      { (s.setCommand c ⟨t, args.commandId, args.confirmationId, args.response, args.responseCapacity, 0,
          -rtEintr, true⟩).setPc c .pushing with
        completed := Function.update s.completed c false
        nextToken := t
        pending := s.pending ++ [c]
        pendingCount := s.pendingCount + 1 }

/-- The section after `push`. -/
def commandPushed (s : CommandManager) (c : ℕ) (result : ℤ) : CommandManager :=
  if result ≠ rtEok then
    let s :=
      if (s.command c).pending then
        let s := s.removeLocked c
        s.setCommand c { s.command c with result := result }
      else s
    s.setPc c (.returned (s.command c).result)
  else s.setPc c .waiting

/-- The section after an `rt_completion_wait` that has failed. -/
def commandTimeout (s : CommandManager) (c : ℕ) (waitResult : ℤ) : CommandManager :=
  let s :=
    if (s.command c).pending then
      let s := s.removeLocked c
      s.setCommand c { s.command c with result := waitResult }
    else s
  s.setPc c (.returned (s.command c).result)

/-- The search of `rt_wlan_offload_command_complete`. -/
def findCandidate (command : ℕ → PendingCommand) (k : Confirmation) :
    Option ℕ → List ℕ → Except ℤ (Option ℕ)
  | found, [] => .ok found
  | found, c :: l =>
    if (command c).confirmationId ≠ commandResponseAny ∧ (command c).confirmationId ≠ k.confirmationId then
      findCandidate command k found l
    else if k.token ≠ 0 ∧ (command c).token ≠ k.token then findCandidate command k found l
    else if k.token = 0 ∧ found.isSome then .error (-rtEbusy)
    else if k.token ≠ 0 then .ok (some c)
    else findCandidate command k (some c) l

def commandComplete (s : CommandManager) (k : Confirmation) : CommandManager × ℤ :=
  if k.responseLength ≠ 0 ∧ k.response = none then (s, -rtEinval)
  else
    match findCandidate s.command k none s.pending with
    | .error e => (s, e)
    | .ok none => (s, -rtEempty)
    | .ok (some c) =>
      (((s.setCommand c ((s.command c).deliver k)).removeLocked c).completionDone c, rtEok)

def failOne (status : ℤ) (s : CommandManager) (c : ℕ) : CommandManager :=
  ((s.setCommand c { s.command c with result := status }).removeLocked c).completionDone c

def managerFail (s : CommandManager) (status : ℤ) : CommandManager × ℤ :=
  if status = rtEok then (s, -rtEinval)
  else (s.pending.foldl (failOne status) { s with state := .failed }, rtEok)

def managerReset (s : CommandManager) : CommandManager × ℤ :=
  if s.pendingCount ≠ 0 then (s, -rtEbusy) else ({ s with state := .ready }, rtEok)

def step (s : CommandManager) : CommandEvent → Option CommandManager
  | .execute c args => if s.pc c = .idle then s.commandExecute c args else none
  | .pushed c result => if s.pc c = .pushing then some (s.commandPushed c result) else none
  | .wake c =>
    if s.pc c = .waiting ∧ s.completed c = true then some (s.setPc c (.returned (s.command c).result))
    else none
  | .expire c waitResult =>
    if s.pc c = .waiting ∧ s.completed c = false ∧ waitResult ≠ rtEok then
      some (s.setPc c (.expired waitResult))
    else none
  | .timeout c =>
    match s.pc c with
    | .expired waitResult => some (s.commandTimeout c waitResult)
    | _ => none
  | .complete k => some (s.commandComplete k).1
  | .fail status => some (s.managerFail status).1
  | .reset => some s.managerReset.1

end CommandManager

end RtSmart
