import RtSmart.Lib.Transition
import RtSmart.Wlan.SupplicantFrame

/-!
The embedded supplicant and the threads that run its handlers (`wlan_offload_supplicant.c`). Every section under
`supplicant->lock` is one step, and so is every call of the driver between two of them; the results of the driver,
of the random source and of the SAE computations come with the events.
-/

namespace RtSmart

open Lib

/-- The places of the EAPOL handler after its first locked section. -/
inductive SupplicantStage
  | gtk
  | defaultKey
  | pairwise
  | igtk
  | transmit
  | authorize
  | commit
deriving DecidableEq

def SupplicantStage.next : SupplicantStage → SupplicantStage
  | .gtk => .defaultKey
  | .defaultKey => .pairwise
  | .pairwise => .igtk
  | .igtk => .transmit
  | .transmit => .authorize
  | .authorize | .commit => .commit

def SupplicantWork.calls (w : SupplicantWork) : SupplicantStage → Bool
  | .gtk | .defaultKey => w.keys.gtk ≠ []
  | .pairwise => w.installPairwise
  | .igtk => w.keys.igtk ≠ []
  | .transmit => w.response.isSome
  | .authorize => w.installPairwise && w.protocol = .rsn || w.groupRekey && w.initialGroup
  | .commit => false

/-- A `CONNECT_RESULT` of the supplicant, with the attempt that its request id was taken from. On its way out it
passes the supplicant's own filter, which no longer knows its request id. -/
structure SupplicantReport where
  attempt : ℕ
  requestId : BitVec 32
  success : Bool
deriving DecidableEq

/-- Where a thread goes on that has released the lock, with the number of the attempt it works for. -/
inductive SupplicantPc
  | idle
  | work (stage : SupplicantStage) (a : ℕ) (w : SupplicantWork)
  | fail (a : ℕ) (external : Bool)
  | report (a : ℕ) (r : SupplicantReport) (disconnect : Bool)
  | disconnect (a : ℕ)
  | sae (a : ℕ) (external : Bool)
  | timeout (a : ℕ)
deriving DecidableEq

inductive SupplicantTrace
  | key (a : ℕ) (pmk : Bytes 32)
  | message1 (a : ℕ) (anonce : Bytes 32)
  | message3 (a : ℕ) (p : WpaProfile) (ptk : Bytes 64) (frame : List UInt8)
  | groupKey (a : ℕ) (rekey : Bool) (replay : Bytes 8) (index : UInt8) (key : List UInt8) (ok : Bool)
  | pairwiseKey (a : ℕ) (peer : Bytes 6) (key : List UInt8) (ok : Bool)
  | transmit (a : ℕ) (destination : Bytes 6) (frame : List UInt8) (ok : Bool)
  | authorize (a : ℕ) (bssid : Bytes 6) (ok : Bool)
  | cleared (a target : ℕ)
  | disconnect (a : ℕ) (target : Option ℕ)
  | result (a : ℕ) (r : SupplicantReport)
  | passed (requestId : BitVec 32) (ok : Bool)
deriving DecidableEq

/-- The supplicant and its threads. `attempt` counts the sessions that have been prepared and `trace` records
what has happened, the latest first; both are history. -/
structure SupplicantSys where
  session : Supplicant
  timer : Bool
  pc : ℕ → SupplicantPc
  attempt : ℕ
  trace : List SupplicantTrace

/-- What a connect request brings. -/
structure SupplicantRequest where
  requestId : BitVec 32
  profile : WpaProfile
  bssid : Bytes 6
  ownAddress : Bytes 6
  pmk : Bytes 32
  snonce : Bytes 32
deriving DecidableEq

inductive SupplicantEvent
  | prepare (r : SupplicantRequest) (ok : Bool)
  | cancel
  | frame (t : ℕ) (source destination : Bytes 6) (data : List UInt8) (memory : SupplicantMemory)
  | driver (t : ℕ) (ok : Bool)
  | commit (t : ℕ) (timerOk : Bool)
  | fail (t : ℕ)
  | report (t : ℕ)
  | disconnect (t : ℕ)
  | timerExpires (t : ℕ)
  | timeout (t : ℕ)
  | connectResult (requestId : BitVec 32) (ok : Bool) (bssid : Bytes 6)
  | linkDown
  | tkipMicFailure (t : ℕ) (second : Bool)
  | externalAuth (t : ℕ) (requestId : BitVec 32) (bssid : Bytes 6) (matched computed : Bool)
  | saeCommit (t : ℕ) (ownAddress peer : Bytes 6) (accepted : Bool)
  | saeConfirm (t : ℕ) (ownAddress peer : Bytes 6) (pmk : Option (Bytes 32))
  | saeSent (t : ℕ) (ok : Bool)
deriving DecidableEq

namespace SupplicantSys

def start : SupplicantSys :=
  { session := Supplicant.cleared, timer := false, pc := fun _ => .idle, attempt := 0, trace := [] }

def goto (s : SupplicantSys) (t : ℕ) (p : SupplicantPc) : SupplicantSys := { s with pc := Function.update s.pc t p }

def record (s : SupplicantSys) (e : SupplicantTrace) : SupplicantSys := { s with trace := e :: s.trace }

/-- `supplicant_clear_locked`, with the timer stopped. -/
def clear (s : SupplicantSys) : SupplicantSys := { s with session := Supplicant.cleared, timer := false }

/-- `rt_wlan_offload_supplicant_prepare` on an idle session. -/
def prepare (s : SupplicantSys) (r : SupplicantRequest) : SupplicantSys :=
  { s with
    session := { s.session with
      requestId := r.requestId, state := if r.profile.sae then .saeWaitExternal else .associating
      profile := some r.profile, bssid := r.bssid, ownAddress := r.ownAddress, snonce := r.snonce
      pmk := if r.profile.sae then s.session.pmk else r.pmk }
    timer := true
    attempt := s.attempt + 1
    trace := if r.profile.sae then s.trace else .key (s.attempt + 1) r.pmk :: s.trace }

def callTrace (w : SupplicantWork) (a : ℕ) (ok : Bool) : SupplicantStage → List SupplicantTrace
  | .gtk => [.groupKey a w.groupRekey w.replay w.keys.gtkIndex (tkipOrder w.groupCipher w.keys.gtk) ok]
  | .pairwise => [.pairwiseKey a w.bssid w.pairwiseKey ok]
  | .transmit => [.transmit a w.source (w.response.getD []) ok]
  | .authorize => [.authorize a w.bssid ok]
  | .defaultKey | .igtk | .commit => []

/-- Where the handler goes when its status is no longer `RT_EOK`. -/
def failed (a : ℕ) (w : SupplicantWork) : SupplicantPc :=
  if w.installPairwise || w.initialGroup then .fail a false else .idle

def receive (c : SupplicantCrypto) (s : SupplicantSys) (t : ℕ) (memory : SupplicantMemory) (source destination : Bytes 6)
    (data : List UInt8) : SupplicantSys :=
  match supplicantEapol c s.session memory source destination data with
  | (x, none) => { s with session := x }
  | (x, some w) =>
    let s := { s with session := x, timer := s.timer && !w.installPairwise }
    let s :=
      match w.kind, x.profile with
      | .message1, _ => s.record (.message1 s.attempt x.anonce)
      | .message3, some p => if w.ok then s.record (.message3 s.attempt p x.ptk data) else s
      | _, _ => s
    s.goto t (if w.ok then .work .gtk s.attempt w else failed s.attempt w)

/-- The session becomes `CONNECTED`, and its request is answered. -/
def complete (s : SupplicantSys) (t a : ℕ) : SupplicantSys :=
  { s with session := { s.session with state := .connected, requestId := 0 }, timer := false }.goto t
    (.report a ⟨s.attempt, s.session.requestId, true⟩ false)

def commit (s : SupplicantSys) (t a : ℕ) (w : SupplicantWork) (timerOk : Bool) : SupplicantSys :=
  if w.installPairwise then
    if s.session.state = .installing then
      let s := { s with session := { s.session with replay := w.replay } }
      if w.protocol = .wpa then
        { s with session := { s.session with state := .waitG1 }, timer := timerOk }.goto t
          (if timerOk then .idle else .fail a false)
      else s.complete t a
    else s.goto t .idle
  else if w.groupRekey then
    let s := { s with session := { s.session with replay := w.replay } }
    if w.initialGroup ∧ s.session.state = .waitG1 then s.complete t a else s.goto t .idle
  else s.goto t .idle

/-- The session is cleared for a failure or a timeout of attempt `a`, and its request is answered. -/
def fail (s : SupplicantSys) (t a : ℕ) (disconnect : Bool) : SupplicantSys :=
  let r : SupplicantReport := ⟨s.attempt, s.session.requestId, false⟩
  (if s.session.state = .idle then s.clear else s.clear.record (.cleared a s.attempt)).goto t (.report a r disconnect)

def step (c : SupplicantCrypto) (s : SupplicantSys) : SupplicantEvent → Option SupplicantSys
  | .prepare r ok => some (if s.session.state = .idle then if ok then s.prepare r else s.clear else s)
  | .cancel => some s.clear
  | .frame t source destination data memory =>
    if s.pc t = .idle then
      match supplicantFrame data with
      | none => some s
      | some data => some (s.receive c t memory source destination data)
    else none
  | .driver t ok =>
    match s.pc t with
    | .work .commit _ _ => none
    | .work stage a w =>
      if w.calls stage then
        some ({ s with trace := callTrace w a ok stage ++ s.trace }.goto t
          (if ok then .work stage.next a w else failed a w))
      else some (s.goto t (.work stage.next a w))
    | _ => none
  | .commit t timerOk =>
    match s.pc t with
    | .work .commit a w => some (s.commit t a w timerOk)
    | _ => none
  | .fail t =>
    match s.pc t with
    | .fail a external => some (s.fail t a !external)
    | _ => none
  | .report t =>
    match s.pc t with
    | .report a r disconnect =>
      some ((if r.requestId = 0 then s else s.record (.result a r)).goto t (if disconnect then .disconnect a else .idle))
    | _ => none
  | .disconnect t =>
    match s.pc t with
    | .disconnect a =>
      some ((s.record (.disconnect a (if s.session.state = .idle then none else some s.attempt))).goto t .idle)
    | _ => none
  | .timerExpires t =>
    if s.pc t = .idle ∧ s.timer then some ({ s with timer := false }.goto t (.timeout s.attempt)) else none
  | .timeout t =>
    match s.pc t with
    | .timeout a =>
      some (if s.session.state = .idle ∨ s.session.state = .connected then s.goto t .idle
        else
          let r : SupplicantReport := ⟨s.attempt, s.session.requestId, false⟩
          ({ s with session := Supplicant.cleared }.record (.cleared a s.attempt)).goto t
            (if r.requestId = 0 then .idle else .report a r true))
    | _ => none
  | .connectResult requestId ok bssid =>
    if requestId = s.session.requestId ∧
        (s.session.state = .associating ∨ s.session.state = .waitM1 ∨ s.session.state = .waitM3) then
      if ok then
        some { s with session := { s.session with
          bssid := if bssid = zeroBytes 6 then s.session.bssid else bssid
          state := if s.session.state = .associating then .waitM1 else s.session.state } }
      else some (s.clear.record (.passed requestId false))
    else some (s.record (.passed requestId ok))
  | .linkDown => some s.clear
  | .tkipMicFailure t second =>
    if s.pc t = .idle then
      some (if second ∧ s.session.state = .connected ∧
          (s.session.profile.any fun p => p.pairwiseCipher = .tkip || p.groupCipher = .tkip) then
        s.clear.goto t (.disconnect s.attempt)
      else s)
    else none
  | .externalAuth t requestId bssid matched computed =>
    if s.pc t = .idle then
      some (if s.session.state = .saeWaitExternal ∧ (s.session.profile.any fun p => p.sae) ∧
          requestId = s.session.requestId then
        if matched ∧ (s.session.bssid = zeroBytes 6 ∨ bssid = s.session.bssid) then
          if computed then
            { s with session := { s.session with bssid := bssid, state := .saeWaitCommit } }.goto t (.sae s.attempt true)
          else { s with session := { s.session with bssid := bssid } }.goto t (.fail s.attempt true)
        else s.goto t (.fail s.attempt true)
      else s)
    else none
  | .saeCommit t ownAddress peer accepted =>
    if s.pc t = .idle then
      some (if (s.session.profile.any fun p => p.sae) ∧ ownAddress = s.session.ownAddress ∧ peer = s.session.bssid ∧
          s.session.state = .saeWaitCommit then
        if accepted then
          { s with session := { s.session with state := .saeWaitConfirm } }.goto t (.sae s.attempt false)
        else s.goto t (.fail s.attempt false)
      else s)
    else none
  | .saeConfirm t ownAddress peer pmk =>
    if s.pc t = .idle then
      some (if (s.session.profile.any fun p => p.sae) ∧ ownAddress = s.session.ownAddress ∧ peer = s.session.bssid ∧
          s.session.state = .saeWaitConfirm then
        match pmk with
        | some pmk =>
          ({ s with session := { s.session with pmk := pmk, state := .associating } }.record (.key s.attempt pmk)).goto t
            (.sae s.attempt false)
        | none => s.goto t (.fail s.attempt false)
      else s)
    else none
  | .saeSent t ok =>
    match s.pc t with
    | .sae a external => some (s.goto t (if ok then .idle else .fail a external))
    | _ => none

end SupplicantSys

end RtSmart
