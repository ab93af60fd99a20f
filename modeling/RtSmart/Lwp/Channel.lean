import RtSmart.Lib.Transition

/-!
The IPC channels of lwp_ipc.c: the pool of messages, the channels with their lists of messages and
threads, and the calls, each cut where the calling thread is suspended.
-/

namespace RtSmart

inductive ChanErr
  | eok
  | error
  | etimeout
  | enomem
  | eintr
  | eio
  deriving DecidableEq, Repr

inductive IpcStat
  | idle
  | wait
  | active
  deriving DecidableEq, Repr

/-- The calls in which a thread can be suspended; they also name the two timeout functions. -/
inductive ChanCall
  | sendRecv
  | recv
  deriving DecidableEq, Repr

inductive WakeupFunc
  | senderWaitRecv
  | senderWaitReply
  | receiver
  deriving DecidableEq, Repr

structure RtChannelMsg where
  sender : ℕ
  type : BitVec 32
  buf : BitVec 64
  length : BitVec 64
  deriving DecidableEq, Repr

-- `tag` numbers the calls that send; it is not part of the program
structure RtIpcMsg where
  msg : RtChannelMsg
  needReply : Bool
  tag : ℕ
  deriving DecidableEq, Repr

structure RtChannel where
  created : Bool
  alive : Bool
  ref : ℕ
  stat : IpcStat
  reply : Option ℕ
  suspendThread : List ℕ
  waitThread : List ℕ
  waitMsg : List ℕ
  deriving DecidableEq, Repr

/-- `call` is the call whose second half the thread has still to run, `channel` the `user_data` of its
wake-up function, `timer` the timeout function of its running timer, `tag` its last request. -/
structure ChanThread where
  suspended : Bool
  call : Option ChanCall
  channel : ℕ
  error : ChanErr
  msgRet : Option ℕ
  wakeup : Option WakeupFunc
  timer : Option ChanCall
  tag : ℕ
  deriving DecidableEq, Repr

-- the fields from `sends` on are the history of the run: the number of calls that send, the request last
-- received on each channel, the requests received, the replies with their channel and the request they
-- answer, and the requests whose `send_recv` returned, with the channel and the reply, or failed
structure ChanSys where
  msgs : ℕ → RtIpcMsg
  freeList : List ℕ
  used : ℕ
  chan : ℕ → RtChannel
  thread : ℕ → ChanThread
  sends : ℕ
  serving : ℕ → Option ℕ
  received : List ℕ
  given : List (ℕ × Option ℕ × RtChannelMsg)
  completed : List (ℕ × ℕ × RtChannelMsg)
  failed : List ℕ

def RtChannel.unlink (ch : RtChannel) (t : ℕ) : RtChannel :=
  { ch with suspendThread := ch.suspendThread.erase t, waitThread := ch.waitThread.erase t }

namespace ChanSys

def setThread (s : ChanSys) (t : ℕ) (f : ChanThread → ChanThread) : ChanSys :=
  { s with thread := Function.update s.thread t (f (s.thread t)) }

def setChan (s : ChanSys) (c : ℕ) (f : RtChannel → RtChannel) : ChanSys :=
  { s with chan := Function.update s.chan c (f (s.chan c)) }

/-- `_ipc_msg_alloc`. -/
def msgAlloc (max : ℕ) (s : ChanSys) : Option (ℕ × ChanSys) :=
  match s.freeList with
  | p :: l => some (p, { s with freeList := l })
  | [] => if s.used < max then some (s.used, { s with used := s.used + 1 }) else none

/-- `_ipc_msg_free`. -/
def msgFree (s : ChanSys) (p : ℕ) : ChanSys := { s with freeList := p :: s.freeList }

/-- `rt_ipc_msg_init`. -/
def msgInit (s : ChanSys) (p : ℕ) (m : RtIpcMsg) : ChanSys := { s with msgs := Function.update s.msgs p m }

/-- The thread leaves the list it is suspended on and becomes ready. -/
def wake (s : ChanSys) (t : ℕ) : ChanSys :=
  { s with
    chan := fun c => (s.chan c).unlink t
    thread := Function.update s.thread t { s.thread t with suspended := false, timer := none, wakeup := none } }

/-- `rt_thread_resume`. -/
def resume (s : ChanSys) (t : ℕ) : ChanSys := if (s.thread t).suspended then s.wake t else s

/-- The thread is suspended in a call, with its wake-up function and, for a positive time, its timer. -/
def suspend (s : ChanSys) (t c : ℕ) (call : ChanCall) (w : WakeupFunc) (time : ℤ) : ChanSys :=
  s.setThread t fun x => { x with
    suspended := true
    call := some call
    channel := c
    error := .eok
    wakeup := some w
    timer := if time > 0 then some call else none }

def deliver (s : ChanSys) (r p : ℕ) : ChanSys :=
  (s.setThread r fun x => { x with msgRet := some p, error := .eok }).resume r

/-- The first half of `_rt_raw_channel_send_recv_timeout`: `sig` says that a pending signal keeps the
thread from being suspended. There is no result code while the thread is suspended; no result at all is a
failed assertion. -/
def sendRecvTimeout (max : ℕ) (s : ChanSys) (c self : ℕ) (data : RtChannelMsg) (needReply : Bool) (time : ℤ)
    (sig : Bool) : Option (ChanSys × Option ChanErr) :=
  if !(s.chan c).alive then some (s, some .eio)
  else if needReply ∧ time = 0 then some (s, some .etimeout)
  else
    match s.msgAlloc max with
    | none => some (s, some .enomem)
    | some (p, s) =>
      let tag := s.sends
      let s := { s.msgInit p ⟨{ data with sender := self }, needReply, tag⟩ with sends := tag + 1 }
      let s := if needReply then s.setThread self fun x => { x with error := .eok } else s
      match (s.chan c).stat with
      | .idle | .active =>
        if needReply then
          if sig then some (s.msgFree p, some .eintr)
          else
            let s := (s.suspend self c .sendRecv .senderWaitRecv time).setThread self fun x => { x with tag := tag }
            some (s.setChan c fun ch => { ch with
              waitThread := ch.waitThread ++ [self], waitMsg := ch.waitMsg ++ [p] }, none)
        else some (s.setChan c fun ch => { ch with waitMsg := ch.waitMsg ++ [p] }, some .eok)
      | .wait =>
        match (s.chan c).suspendThread with
        | [] => none
        | r :: _ =>
          if needReply then
            if sig then some (s.msgFree p, some .eintr)
            else
              let s := (s.suspend self c .sendRecv .senderWaitReply time).setThread self fun x => { x with tag := tag }
              let s := s.setChan c fun ch => { ch with
                waitThread := ch.waitThread ++ [self], reply := some self, stat := .active }
              some (s.deliver r p, none)
          else some ((s.setChan c fun ch => { ch with stat := .idle }).deliver r p, some .eok)

/-- The first half of `_rt_raw_channel_recv_timeout`. -/
def recvTimeout (s : ChanSys) (c self : ℕ) (time : ℤ) (sig : Bool) : Option (ChanSys × Option ChanErr) :=
  if !(s.chan c).alive then some (s, some .eio)
  else if (s.chan c).stat ≠ .idle then some (s, some .error)
  else
    match (s.chan c).waitMsg with
    | m :: l =>
      let s := s.setChan c fun ch => { ch with waitMsg := l }
      let s := { s with
        received := (s.msgs m).tag :: s.received
        serving := Function.update s.serving c (some (s.msgs m).tag) }
      if (s.msgs m).needReply then
        match (s.chan c).waitThread with
        | [] => none
        | u :: w =>
          let s := s.setChan c fun ch => { ch with waitThread := w, reply := some u, stat := .active }
          some (s.msgFree m, some .eok)
      else some (s.msgFree m, some .eok)
    | [] =>
      if time = 0 then some (s, some .etimeout)
      else if sig then some (s, some .eintr)
      else
        let s := s.suspend self c .recv .receiver time
        some (s.setChan c fun ch => { ch with suspendThread := ch.suspendThread ++ [self], stat := .wait }, none)

/-- `rt_raw_channel_reply`. -/
def rawReply (max : ℕ) (s : ChanSys) (c self : ℕ) (data : RtChannelMsg) : ChanSys × ChanErr :=
  if !(s.chan c).alive then (s, .eio)
  else if (s.chan c).stat ≠ .active then (s, .error)
  else
    match (s.chan c).reply with
    | none => (s, .error)
    | some u =>
      match s.msgAlloc max with
      | none => (s, .enomem)
      | some (p, s) =>
        let m := { data with sender := self }
        let s := s.msgInit p ⟨m, false, (s.thread u).tag⟩
        let s := { s with given := (c, s.serving c, m) :: s.given }
        let s := (s.setThread u fun x => { x with msgRet := some p }).resume u
        (s.setChan c fun ch => { ch with stat := .idle, reply := none }, .eok)

/-- The second half of the two calls, which the thread runs once it is ready again. -/
def finish (s : ChanSys) (t : ℕ) (call : ChanCall) : Option (ChanSys × ChanErr) :=
  let err := (s.thread t).error
  let c := (s.thread t).channel
  if err ≠ .eok then
    let s := s.setThread t fun x => { x with call := none }
    match call with
    | .sendRecv => some ({ s with failed := (s.thread t).tag :: s.failed }, err)
    | .recv => some (s, err)
  else
    match (s.thread t).msgRet with
    | none => none
    | some p =>
      let s := (s.msgFree p).setThread t fun x => { x with call := none, msgRet := none }
      match call with
      | .sendRecv => some ({ s with completed := (c, (s.thread t).tag, (s.msgs p).msg) :: s.completed }, .eok)
      | .recv => some ({ s with
          received := (s.msgs p).tag :: s.received
          serving := Function.update s.serving c (some (s.msgs p).tag) }, .eok)

def withdraw (s : ChanSys) (c t : ℕ) : ChanSys :=
  if (s.chan c).stat = .active ∧ (s.chan c).reply = some t then
    s.setChan c fun ch => { ch with stat := .idle, reply := none }
  else
    match (s.chan c).waitMsg.find? fun m => (s.msgs m).needReply && (s.msgs m).msg.sender == t with
    | none => s
    | some m => (s.setChan c fun ch => { ch with waitMsg := ch.waitMsg.erase m }).msgFree m

def senderTimeout (s : ChanSys) (t : ℕ) : ChanSys :=
  ((s.withdraw (s.thread t).channel t).setThread t fun x => { x with error := .etimeout }).wake t

def receiverTimeout (s : ChanSys) (t : ℕ) : ChanSys :=
  ((s.setChan (s.thread t).channel fun ch => { ch with stat := .idle }).setThread t fun x =>
    { x with error := .etimeout }).wake t

/-- `rt_thread_wakeup` with the three wake-up functions. -/
def threadWakeup (s : ChanSys) (t : ℕ) : Option ChanSys :=
  let c := (s.thread t).channel
  match (s.thread t).wakeup with
  | none => some (s.resume t)
  | some .senderWaitRecv =>
    some (((s.withdraw c t).setThread t fun x => { x with error := .eintr }).resume t)
  | some .senderWaitReply =>
    if (s.chan c).stat = .active ∧ (s.chan c).reply = some t then
      let s := s.setChan c fun ch => { ch with stat := .idle, reply := none }
      some ((s.setThread t fun x => { x with error := .eintr }).resume t)
    else none
  | some .receiver =>
    let s := s.setChan c fun ch => { ch with stat := .idle }
    let s := s.setThread t fun x => { x with error := .eintr }
    match (s.chan c).suspendThread with
    | [] => none
    | r :: _ => some (s.resume r)

/-- `rt_channel_list_resume_all`. -/
def resumeAll (s : ChanSys) (l : List ℕ) : ChanSys :=
  l.foldl (fun s t => (s.setThread t fun x => { x with error := .error }).resume t) s

/-- The last reference is gone. -/
def release (s : ChanSys) (c : ℕ) : ChanSys :=
  let s := s.resumeAll (s.chan c).suspendThread
  let s := s.resumeAll (s.chan c).waitThread
  s.setChan c fun ch => { ch with waitMsg := [], alive := false }

def dropRef (s : ChanSys) (c : ℕ) : ChanSys :=
  let s := s.setChan c fun ch => { ch with ref := (ch.ref + (2 ^ 64 - 1)) % 2 ^ 64 }
  if (s.chan c).ref = 0 then s.release c else s

/-- `rt_raw_channel_close`. -/
def rawClose (s : ChanSys) (c : ℕ) : ChanSys × ChanErr :=
  if !(s.chan c).alive then (s, .eio)
  else if (s.chan c).ref = 0 then (s, .eio)
  else (s.dropRef c, .eok)

/-- `channel_fops_close`, with the reference count of the file node. -/
def fopsClose (s : ChanSys) (c refCount : ℕ) : ChanSys := if refCount = 1 then s.dropRef c else s

/-- `rt_raw_channel_open`: an existing channel, or a new one. -/
def rawOpen (s : ChanSys) (c : ℕ) : Option ChanSys :=
  if (s.chan c).alive then some (s.setChan c fun ch => { ch with ref := (ch.ref + 1) % 2 ^ 64 })
  else if (s.chan c).created then none
  else some (s.setChan c fun _ => ⟨true, true, 1, .idle, none, [], [], []⟩)

inductive Event
  | openCh (c : ℕ)
  | send (c t : ℕ) (data : RtChannelMsg)
  | sendRecv (c t : ℕ) (data : RtChannelMsg) (time : ℤ) (sig : Bool)
  | recv (c t : ℕ) (time : ℤ) (sig : Bool)
  | reply (c t : ℕ) (data : RtChannelMsg)
  | finish (t : ℕ)
  | timeout (t : ℕ)
  | wakeup (t : ℕ)
  | closeCh (c : ℕ)
  | closeFile (c refCount : ℕ)
  deriving DecidableEq, Repr

/-- A thread makes a call when it is running and in no other one. -/
def free (s : ChanSys) (t : ℕ) : Prop := (s.thread t).suspended = false ∧ (s.thread t).call = none

instance (s : ChanSys) (t : ℕ) : Decidable (s.free t) := inferInstanceAs (Decidable (_ ∧ _))

def step (max : ℕ) (s : ChanSys) : Event → Option ChanSys
  | .openCh c => s.rawOpen c
  | .send c t data => (s.sendRecvTimeout max c t data false (-1) false).map Prod.fst
  | .sendRecv c t data time sig =>
    if s.free t then (s.sendRecvTimeout max c t data true time sig).map Prod.fst else none
  | .recv c t time sig => if s.free t then (s.recvTimeout c t time sig).map Prod.fst else none
  | .reply c t data => if s.free t then some (s.rawReply max c t data).1 else none
  | .finish t =>
    match (s.thread t).suspended, (s.thread t).call with
    | false, some call => (s.finish t call).map Prod.fst
    | _, _ => none
  | .timeout t =>
    match (s.thread t).timer with
    | some .sendRecv => some (s.senderTimeout t)
    | some .recv => some (s.receiverTimeout t)
    | none => none
  | .wakeup t => s.threadWakeup t
  | .closeCh c => some (s.rawClose c).1
  | .closeFile c refCount => some (s.fopsClose c refCount)

def init : ChanSys where
  msgs := fun _ => ⟨⟨0, 0, 0, 0⟩, false, 0⟩
  freeList := []
  used := 0
  chan := fun _ => ⟨false, false, 0, .idle, none, [], [], []⟩
  thread := fun _ => ⟨false, none, 0, .eok, none, none, none, 0⟩
  sends := 0
  serving := fun _ => none
  received := []
  given := []
  completed := []
  failed := []

end ChanSys

end RtSmart
