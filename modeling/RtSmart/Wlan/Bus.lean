import RtSmart.Lib.Transition
import RtSmart.Wlan.Command

/-!
The bus of the WLAN offload layer (`wlan_offload_bus.c`), from its initialization on. A step is a section
made with `state_lock` held, the taking of `tx_lock`, or the return of a callback of the transport.
`rt_wlan_offload_bus_deinit` is left out.
-/

namespace RtSmart

open Lib

abbrev rtEnosys : ℤ := 6

/-- `enum rt_wlan_offload_bus_state` -/
inductive BusState
  | stopped
  | starting
  | started
  | stopping
  | suspended
  | failed
deriving DecidableEq

/-- `enum rt_wlan_offload_bus_event` -/
inductive BusNotice
  | available
  | unavailable
  | error
  | wake
deriving DecidableEq

/-- `rt_wlan_offload_bus_ops`: the callbacks that are made with `tx_lock` held. -/
inductive BusOp
  | start
  | stop
  | transmit
  | transmitPriority
  | transmitv
  | reset
  | suspend
  | resume
  | control
deriving DecidableEq

/-- What is asked of the bus. A null pointer is `none`. -/
inductive BusCall
  | start
  | stop
  | suspend
  | resume
  | transmitPriority (priority : ℤ) (data : Option (List UInt8))
  | transmitv (priority : ℤ) (vectors : List (Option (List UInt8)))
  | reset
  | control (command : ℤ)
deriving DecidableEq

/-- `struct rt_wlan_offload_bus_config`; a missing `start` or `stop` callback is one that returns `RT_EOK`. -/
structure BusConfig where
  maxTxSize : ℕ
  /-- `RT_WLAN_OFFLOAD_BUS_CAP_TX_PRIORITY` -/
  capTxPriority : Bool
  hasTransmitPriority : Bool
  hasTransmitv : Bool
  hasSuspend : Bool
  hasResume : Bool
  hasReset : Bool
  hasControl : Bool
deriving DecidableEq

inductive BusPc
  | idle
  /-- `tx_lock` is still to be taken; `previous` is `previous_state` of a stop. -/
  | waiting (call : BusCall) (previous : BusState)
  /-- `tx_lock` is held, and the state is not looked at yet. -/
  | gate (call : BusCall)
  | callback (call : BusCall) (previous : BusState)
  /-- The callback has returned `result`, and `state_lock` is still to be taken. -/
  | leaving (call : BusCall) (previous : BusState) (result : ℤ)
deriving DecidableEq

inductive BusTrace
  | enter (t : ℕ) (op : BusOp)
  | leave (t : ℕ) (op : BusOp) (result : ℤ)
deriving DecidableEq

/-- A call has returned, with the state of the bus at that point. -/
structure BusReturn where
  thread : ℕ
  call : BusCall
  result : ℤ
  state : BusState
deriving DecidableEq

structure Bus where
  state : BusState
  txLock : Option ℕ
  pc : ℕ → BusPc
  trace : List BusTrace
  returns : List BusReturn
  /-- The states in which the transport has reported an error. -/
  failedIn : List BusState

inductive BusEvent
  | call (t : ℕ) (c : BusCall)
  /-- `tx_lock` is taken. -/
  | take (t : ℕ)
  | check (t : ℕ)
  | leave (t : ℕ) (result : ℤ)
  | finish (t : ℕ)
  | notify (event : BusNotice)
deriving DecidableEq

/-- `RT_WLAN_OFFLOAD_BUS_PRIORITY_LOW` to `RT_WLAN_OFFLOAD_BUS_PRIORITY_CONTROL` -/
def busPriorityOk (priority : ℤ) : Bool :=
  0 ≤ priority && priority ≤ 3

/-- The length of a frame, `total_length` of a vector. -/
def BusCall.length : BusCall → ℕ
  | .transmitPriority _ data => (data.getD []).length
  | .transmitv _ vectors => (vectors.map fun v => (v.getD []).length).sum
  | _ => 0

/-- The arguments pass the checks that are made before any lock is taken. -/
def BusCall.valid : BusCall → Bool
  | .transmitPriority priority data => busPriorityOk priority && data.any fun d => !d.isEmpty
  | .transmitv priority vectors =>
    busPriorityOk priority && !vectors.isEmpty && (vectors.all fun v => v.any fun d => !d.isEmpty) &&
      (vectors.map fun v => (v.getD []).length).sum < 2 ^ 64
  | _ => true

def BusCall.settle (c : BusCall) (previous : BusState) (result : ℤ) (state : BusState) : BusState × ℤ :=
  match c with
  | .stop => (if result = rtEok then .stopped else if state = .stopping then previous else state, result)
  | .suspend =>
    (if result ≠ rtEok ∧ state = .suspended then .started else state,
      if result = rtEok ∧ state = .failed then -rtEio else result)
  | _ =>
    (if state = .starting then if result = rtEok then .started else .failed else state,
      if state = .failed ∧ result = rtEok then -rtEio else result)

namespace BusConfig

def op (cfg : BusConfig) : BusCall → BusOp
  | .start => .start
  | .stop => .stop
  | .suspend => .suspend
  | .resume => .resume
  | .transmitPriority .. =>
    if cfg.capTxPriority && cfg.hasTransmitPriority then .transmitPriority else .transmit
  | .transmitv .. => .transmitv
  | .reset => .reset
  | .control _ => .control

/-- The section of a transmission, a reset or a control under `state_lock`: the error, if there is one. -/
def gate (cfg : BusConfig) (state : BusState) (c : BusCall) : Option ℤ :=
  match c with
  | .transmitPriority .. =>
    if state ≠ .started then some (-rtEbusy)
    else if cfg.maxTxSize ≠ 0 ∧ cfg.maxTxSize < c.length then some (-rtEinval)
    else none
  | .transmitv .. =>
    if state ≠ .started then some (-rtEbusy)
    else if (cfg.maxTxSize ≠ 0 ∧ cfg.maxTxSize < c.length) ∨ !cfg.hasTransmitv then
      some (if cfg.hasTransmitv then -rtEinval else -rtEnosys)
    else none
  | .reset =>
    if state = .starting ∨ state = .stopping then some (-rtEbusy)
    else if !cfg.hasReset then some (-rtEnosys)
    else none
  | .control _ =>
    if state = .starting ∨ state = .stopping then some (-rtEbusy)
    else if !cfg.hasControl then some (-rtEnosys)
    else none
  | .start | .stop | .suspend | .resume => none

end BusConfig

namespace Bus

/-- `rt_wlan_offload_bus_init` -/
def init : Bus where
  state := .stopped
  txLock := none
  pc := fun _ => .idle
  trace := []
  returns := []
  failedIn := []

def setPc (s : Bus) (t : ℕ) (p : BusPc) : Bus :=
  { s with pc := Function.update s.pc t p }

/-- The call returns. -/
def ret (s : Bus) (t : ℕ) (c : BusCall) (result : ℤ) : Bus :=
  { s.setPc t .idle with returns := ⟨t, c, result, s.state⟩ :: s.returns }

def enter (s : Bus) (cfg : BusConfig) (t : ℕ) (c : BusCall) (previous : BusState) : Bus :=
  { s.setPc t (.callback c previous) with txLock := some t, trace := .enter t (cfg.op c) :: s.trace }

/-- The first section of a call, and what is checked before it. -/
def call (s : Bus) (cfg : BusConfig) (t : ℕ) (c : BusCall) : Bus :=
  if !c.valid then s.ret t c (-rtEinval)
  else
    match c with
    | .start =>
      if s.state = .started then s.ret t .start rtEok
      else if s.state ≠ .stopped then s.ret t .start (-rtEbusy)
      else { s.setPc t (.waiting .start s.state) with state := .starting }
    | .stop =>
      if s.state = .stopped then s.ret t .stop rtEok
      else if s.state = .starting ∨ s.state = .stopping then s.ret t .stop (-rtEbusy)
      else { s.setPc t (.waiting .stop s.state) with state := .stopping }
    | .suspend =>
      if s.state ≠ .started then s.ret t .suspend (-rtEbusy)
      else if !cfg.hasSuspend then s.ret t .suspend (-rtEnosys)
      else { s.setPc t (.waiting .suspend s.state) with state := .suspended }
    | .resume =>
      if s.state ≠ .suspended then s.ret t .resume (-rtEbusy)
      else if !cfg.hasResume then s.ret t .resume (-rtEnosys)
      else { s.setPc t (.waiting .resume s.state) with state := .starting }
    | c => s.setPc t (.waiting c s.state)

/-- `tx_lock` is taken: a start, stop, suspend or resume goes on to its callback. -/
def take (s : Bus) (cfg : BusConfig) (t : ℕ) (c : BusCall) (previous : BusState) : Bus :=
  match c with
  | .start | .stop | .suspend | .resume => s.enter cfg t c previous
  | c => { s.setPc t (.gate c) with txLock := some t }

def check (s : Bus) (cfg : BusConfig) (t : ℕ) (c : BusCall) : Bus :=
  match cfg.gate s.state c with
  | some error => { s.ret t c error with txLock := none }
  | none => s.enter cfg t c s.state

/-- The callback returns, and `tx_lock` is released. -/
def leave (s : Bus) (cfg : BusConfig) (t : ℕ) (c : BusCall) (previous : BusState) (result : ℤ) : Bus :=
  let s := { s with txLock := none, trace := .leave t (cfg.op c) result :: s.trace }
  match c with
  | .start | .stop | .suspend | .resume => s.setPc t (.leaving c previous result)
  | c => s.ret t c result

/-- The last section of a start, stop, suspend or resume. -/
def finish (s : Bus) (t : ℕ) (c : BusCall) (previous : BusState) (result : ℤ) : Bus :=
  { s with state := (c.settle previous result s.state).1 }.ret t c (c.settle previous result s.state).2

/-- `rt_wlan_offload_bus_notify` -/
def notify (s : Bus) (event : BusNotice) : Bus :=
  if event = .error ∨ event = .unavailable then { s with state := .failed, failedIn := s.state :: s.failedIn }
  else s

def step (cfg : BusConfig) (s : Bus) : BusEvent → Option Bus
  | .call t c =>
    match s.pc t with
    | .idle => some (s.call cfg t c)
    | _ => none
  | .take t =>
    match s.pc t, s.txLock with
    | .waiting c previous, none => some (s.take cfg t c previous)
    | _, _ => none
  | .check t =>
    match s.pc t with
    | .gate c => some (s.check cfg t c)
    | _ => none
  | .leave t result =>
    match s.pc t with
    | .callback c previous => some (s.leave cfg t c previous result)
    | _ => none
  | .finish t =>
    match s.pc t with
    | .leaving c previous result => some (s.finish t c previous result)
    | _ => none
  | .notify event => some (s.notify event)

end Bus

end RtSmart
