import RtSmart.Ipc.MessageQueue
import RtSmart.Lib.Holders

/-!
Threads and interrupt handlers on message queues. A call leaves its first critical section with a
slot in its hands, and other calls may run before it enters the second one.
-/

namespace RtSmart

open Lib Kernel

/-- A thread, or an interrupt handler on top of it when the level is not zero. -/
structure Agent where
  self : Tid
  level : ℕ
  deriving DecidableEq

structure Msg where
  id : ℕ
  urgent : Bool
  bytes : List Byte

/-- A receive that has returned: the message, the size of the buffer and the bytes copied to it. -/
structure Delivery where
  msg : Msg
  size : ℕ
  bytes : List Byte

-- the buffer gets the payload of the slot, and behind a short message what the slot held before
def Delivery.Exact (d : Delivery) (msgSize : ℕ) : Prop :=
  d.bytes.length = min d.size msgSize ∧ d.bytes.take d.msg.bytes.length = d.msg.bytes.take d.bytes.length

/-- A message queue and its history: `label` is the message in a queued slot, a message is accepted
when its slot is linked and received when the slot is unlinked. -/
structure Tracked extends MessageQueue where
  label : Slot → Msg
  accepted : List Msg
  received : List Msg
  returned : List Delivery

/-- Where an agent is inside a call. `copyIn` and `copyOut` are the windows between the two critical
sections: `cleared` says that the pointer of the slot is null, `n` and `out` are what `rt_memcpy`
has copied. -/
inductive MqOp where
  | sendWait (o : Oid) (buffer : List Byte) (timeout : ℤ) (sf : SuspendFlag)
  | recvWait (o : Oid) (size : ℕ) (timeout : ℤ) (sf : SuspendFlag)
  | copyIn (o : Oid) (msg : Slot) (buffer : List Byte) (urgent : Bool) (cleared : Bool) (n : ℕ)
  | copyOut (o : Oid) (msg : Slot) (size : ℕ) (m : Msg) (out : List Byte)

namespace MqOp

def obj : MqOp → Oid
  | .sendWait o _ _ _ => o
  | .recvWait o _ _ _ => o
  | .copyIn o _ _ _ _ _ => o
  | .copyOut o _ _ _ _ => o

def head : MqOp → Option ListHead
  | .sendWait o _ _ _ => some (.sender o)
  | .recvWait o _ _ _ => some (.suspend o)
  | _ => none

def slot (o : Oid) : MqOp → Option Slot
  | .copyIn o' msg _ _ _ _ => if o' = o then some msg else none
  | .copyOut o' msg _ _ _ => if o' = o then some msg else none
  | _ => none

def reads (o : Oid) : MqOp → Option Msg
  | .copyOut o' _ _ m _ => if o' = o then some m else none
  | _ => none

theorem slot_of_ne {op : MqOp} {o : Oid} (h : o ≠ op.obj) : op.slot o = none := by
  cases op <;> simp_all [slot, obj, eq_comm]

theorem reads_of_ne {op : MqOp} {o : Oid} (h : o ≠ op.obj) : op.reads o = none := by
  cases op <;> simp_all [reads, obj, eq_comm]

end MqOp

structure MqSys where
  k : Kernel
  q : Oid → Tracked
  op : Agent → Option MqOp

namespace MqSys

def init (k : Kernel) (mq : Oid → MessageQueue) : MqSys where
  k := k
  q o := ⟨mq o, fun _ => ⟨0, false, []⟩, [], [], []⟩
  op _ := none

inductive Event where
  | send (a : Agent) (o : Oid) (buffer : List Byte) (timeout : ℤ) (sf : SuspendFlag)
  | urgent (a : Agent) (o : Oid) (buffer : List Byte)
  | recv (a : Agent) (o : Oid) (size : ℕ) (timeout : ℤ) (sf : SuspendFlag)
  | ret (t : Tid) (delta : ℕ)
  | work (a : Agent)
  | finish (a : Agent)
  | kernel (e : KernelEvent)

/-- The agent `a` goes on with `x` and leaves the queue `o` as `q`. -/
def act (s : MqSys) (k : Kernel) (a : Agent) (x : Option MqOp) (o : Oid) (q : Tracked) : MqSys :=
  ⟨k, Function.update s.q o q, Function.update s.op a x⟩

def sent (s : MqSys) (a : Agent) (o : Oid) (buffer : List Byte) (timeout : ℤ) (sf : SuspendFlag) (urgent : Bool) :
    Kernel × MessageQueue × MqResult → MqSys
  | (k, mq, .done _) => s.act k a none o { s.q o with toMessageQueue := mq }
  | (k, mq, .wait) => s.act k a (some (.sendWait o buffer timeout sf)) o { s.q o with toMessageQueue := mq }
  | (k, mq, .slot msg) =>
    s.act k a (some (.copyIn o msg buffer urgent urgent 0)) o { s.q o with toMessageQueue := mq }

def got (s : MqSys) (a : Agent) (o : Oid) (size : ℕ) (timeout : ℤ) (sf : SuspendFlag) :
    Kernel × MessageQueue × MqResult → MqSys
  | (k, mq, .done _) => s.act k a none o { s.q o with toMessageQueue := mq }
  | (k, mq, .wait) => s.act k a (some (.recvWait o size timeout sf)) o { s.q o with toMessageQueue := mq }
  | (k, mq, .slot msg) =>
    let m := (s.q o).label msg
    s.act k a (some (.copyOut o msg size m [])) o
      { s.q o with toMessageQueue := mq, received := (s.q o).received ++ [m] }

def worked (s : MqSys) (a : Agent) : Option MqSys :=
  match s.op a with
  | some (.copyIn o msg buffer urgent cleared n) =>
    let q := s.q o
    if cleared = false then
      some (s.act s.k a (some (.copyIn o msg buffer urgent true n)) o { q with next := Function.update q.next msg none })
    else if h : n < buffer.length then
      some (s.act s.k a (some (.copyIn o msg buffer urgent cleared (n + 1))) o
        { q with data := Function.update q.data msg (Function.update (q.data msg) n buffer[n]) })
    else none
  | some (.copyOut o msg size m out) =>
    if out.length < min size (s.q o).msgSize then
      some (s.act s.k a (some (.copyOut o msg size m (out ++ [(s.q o).data msg out.length]))) o (s.q o))
    else none
  | _ => none

/-- The second critical section. -/
def finished (s : MqSys) (a : Agent) : Option MqSys :=
  match s.op a with
  | some (.copyIn o msg buffer urgent cleared n) =>
    if cleared = true ∧ n = buffer.length then
      let q := s.q o
      let m : Msg := ⟨q.accepted.length, urgent, buffer⟩
      let r := mqPosted s.k (if urgent then mqLinkUrgent q.toMessageQueue msg else mqLink q.toMessageQueue msg) o
      some (s.act r.1 a none o
        { q with
          toMessageQueue := r.2.1
          label := Function.update q.label msg m
          accepted := if r.2.2 = .eok then q.accepted ++ [m] else q.accepted })
    else none
  | some (.copyOut o msg size m out) =>
    if out.length = min size (s.q o).msgSize then
      let q := s.q o
      let r := mqPutFree s.k q.toMessageQueue o msg
      some (s.act r.1 a none o { q with toMessageQueue := r.2, returned := q.returned ++ [⟨m, size, out⟩] })
    else none
  | _ => none

/-- The agent has the processor; a handler takes it whenever it is called. -/
def Active (s : MqSys) (a : Agent) : Prop := a.level = 0 → s.k.Runs a.self

instance (s : MqSys) (a : Agent) : Decidable (s.Active a) := inferInstanceAs (Decidable (_ → _))

def step (s : MqSys) : Event → Option MqSys
  | .send a o buffer timeout sf =>
    -- a handler must not wait
    if s.Active a ∧ (s.op a).isNone = true ∧ (a.level = 0 ∨ timeout = 0) then
      some (s.sent a o buffer timeout sf false
        (rtMqSendWait s.k (s.q o).toMessageQueue o a.self buffer.length timeout sf))
    else none
  | .urgent a o buffer =>
    if s.Active a ∧ (s.op a).isNone = true then
      some (s.sent a o buffer 0 .uninterruptible true (s.k, rtMqUrgent (s.q o).toMessageQueue buffer.length))
    else none
  | .recv a o size timeout sf =>
    if s.Active a ∧ (s.op a).isNone = true ∧ (a.level = 0 ∨ timeout = 0) then
      (rtMqRecv s.k (s.q o).toMessageQueue o a.self timeout sf).map (s.got a o size timeout sf)
    else none
  | .ret t delta =>
    if s.k.Runs t then
      match s.op ⟨t, 0⟩ with
      | some (.sendWait o buffer timeout sf) =>
        some (s.sent ⟨t, 0⟩ o buffer (remaining timeout delta) sf false
          (rtMqSendWaitEnd s.k (s.q o).toMessageQueue o t timeout sf delta))
      | some (.recvWait o size timeout sf) =>
        (rtMqRecvEnd s.k (s.q o).toMessageQueue o t timeout sf delta).map
          (s.got ⟨t, 0⟩ o size (remaining timeout delta) sf)
      | _ => none
    else none
  | .work a => if s.Active a then s.worked a else none
  | .finish a => if s.Active a then s.finished a else none
  | .kernel e => (s.k.kernelStep e).map fun k => { s with k := k }

end MqSys

end RtSmart
