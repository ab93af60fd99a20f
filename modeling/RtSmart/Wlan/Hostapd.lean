import RtSmart.Lib.Transition
import RtSmart.Wlan.HostapdStation

/-!
The embedded authenticator in a secure access point (`wlan_offload_hostapd.c`), from its start until it is
stopped. Every section under `hostapd->lock` is one step; between them a thread keeps what the handler keeps
in its local variables. Results of the driver and of the random source come with the events.
-/

namespace RtSmart

open Lib

/-- A pointer to a station slot. The other fields are history: the stamps and the PTK that the slot held when the
lock was released. -/
structure StationRef where
  slot : ℕ
  occupancy : ℕ
  association : Option ℕ
  ptk : Bytes 48
deriving DecidableEq

/-- Where a thread goes on that has released the lock. -/
inductive HostapdPc
  | idle
  | remove (r : StationRef) (again : Option (Bytes 6))
  | authAgain (mac : Bytes 6)
  | assocAdd (mac : Bytes 6)
  | assocSend (mac : Bytes 6) (built : Bool)
  | installGtk (r : StationRef)
  | addGtk (r : StationRef)
  | installPairwise (r : StationRef)
  | buildMessage3 (r : StationRef)
  | sendMessage3 (r : StationRef)
  | authorize (r : StationRef)
  | finish (r : StationRef)
deriving DecidableEq

/-- The slot pointer that a thread still uses. -/
def HostapdPc.ref : HostapdPc → Option StationRef
  | .idle | .authAgain _ | .assocAdd _ | .assocSend _ _ => none
  | .remove r _ | .installGtk r | .addGtk r | .installPairwise r | .buildMessage3 r | .sendMessage3 r
  | .authorize r | .finish r => some r

/-- A message that was accepted from `mac`, with the key its MIC was verified under. -/
structure AcceptedMessage where
  association : Option ℕ
  mac : Bytes 6
  ptk : Bytes 48
  frame : List UInt8
deriving DecidableEq

/-- A call of `rt_wlan_offload_set_station_authorized(…, RT_TRUE)`, and the association that its address has
at that moment. -/
structure AuthorizedCall where
  association : Option ℕ
  mac : Bytes 6
deriving DecidableEq

/-- The authenticator and its threads. The fields from `occupancy` on are history: a stamp for the last
allocation of a slot, one for the association that is going on in it, and what has been accepted and
authorized so far. -/
structure Hostapd where
  station : ℕ → Station
  gtkInstalled : Bool
  replayCounter : BitVec 64
  pc : ℕ → HostapdPc
  occupancy : ℕ → ℕ
  association : ℕ → Option ℕ
  stamp : ℕ
  accepted2 : List AcceptedMessage
  accepted4 : List AcceptedMessage
  authorized : List AuthorizedCall

inductive HostapdEvent
  | auth (t : ℕ) (mac : Bytes 6) (success : Bool)
  | authAgain (t : ℕ)
  | assoc (t : ℕ) (mac : Bytes 6) (success : Bool)
  | associate (t : ℕ) (added : Bool) (random : Bytes 32 × Bool)
  | assocSent (t : ℕ) (ok : Bool)
  | deauth (t : ℕ) (mac : Bytes 6)
  | expire (t : ℕ) (mac : Bytes 6)
  | clear (t : ℕ)
  | delStation (mac : Bytes 6)
  | channelChanged
  | eapol (t : ℕ) (source destination : Bytes 6) (data : List UInt8)
  | checkGtk (t : ℕ)
  | gtkAdded (t : ℕ) (ok : Bool)
  | pairwiseAdded (t : ℕ) (ok : Bool)
  | message3 (t : ℕ)
  | message3Sent (t : ℕ) (ok : Bool)
  | setAuthorized (t : ℕ) (ok : Bool)
  | finish (t : ℕ)
deriving DecidableEq

namespace Hostapd

def start : Hostapd :=
  { station := fun _ => Station.cleared, gtkInstalled := false, replayCounter := 0, pc := fun _ => .idle
    occupancy := fun _ => 0, association := fun _ => none, stamp := 0, accepted2 := [], accepted4 := []
    authorized := [] }

/-- `hostapd_find_station_locked` -/
def find (cfg : HostapdConfig) (s : Hostapd) (mac : Bytes 6) : Option ℕ :=
  (List.range cfg.maxStations).find? fun i => (s.station i).state ≠ .free && (s.station i).mac = mac

def firstFree (cfg : HostapdConfig) (s : Hostapd) : Option ℕ :=
  (List.range cfg.maxStations).find? fun i => (s.station i).state = .free

def setStation (s : Hostapd) (i : ℕ) (x : Station) : Hostapd :=
  { s with station := Function.update s.station i x }

def goto (s : Hostapd) (t : ℕ) (p : HostapdPc) : Hostapd := { s with pc := Function.update s.pc t p }

/-- `hostapd_station_clear` on a slot -/
def clear (s : Hostapd) (i : ℕ) : Hostapd :=
  { s.setStation i Station.cleared with association := Function.update s.association i none }

/-- `hostapd_allocate_station_locked` -/
def allocate (cfg : HostapdConfig) (s : Hostapd) (mac : Bytes 6) : Hostapd :=
  match s.firstFree cfg with
  | none => s
  | some i =>
    { s.setStation i { s.station i with state := .authenticated, aid := i + 1, mac := mac } with
      occupancy := Function.update s.occupancy i s.stamp
      association := Function.update s.association i none
      stamp := s.stamp + 1 }

def ref (s : Hostapd) (i : ℕ) : StationRef := ⟨i, s.occupancy i, s.association i, (s.station i).ptk⟩

/-- The second locked section of `hostapd_handle_assoc`. A message 1 that is built begins an association. -/
def associate (c : WlanCrypto) (s : Hostapd) (i : ℕ) (random : Bytes 32 × Bool) : Hostapd × Bool :=
  let r := hostapdBuildMessage1 c s.replayCounter { s.station i with firmwareAdded := true } random
  let s := { s.setStation i r.2.1 with replayCounter := r.1 }
  (if r.2.2 then { s with association := Function.update s.association i (some s.stamp), stamp := s.stamp + 1 }
    else s, r.2.2)

/-- The locked section of `rt_wlan_offload_hostapd_handle_eapol` for the station in slot `i`. -/
def receive (c : WlanCrypto) (cfg : HostapdConfig) (s : Hostapd) (t i : ℕ) (source : Bytes 6) (data : List UInt8) :
    Hostapd :=
  let r := hostapdEapol c cfg (s.station i) data
  let accepted : AcceptedMessage := ⟨s.association i, source, r.1.ptk, data⟩
  let s := s.setStation i r.1
  match r.2 with
  | .message2 =>
    { s with accepted2 := accepted :: s.accepted2 }.goto t
      (if s.gtkInstalled then .installPairwise (s.ref i) else .installGtk (s.ref i))
  | .message4 => { s with accepted4 := accepted :: s.accepted4 }.goto t (.authorize (s.ref i))
  | .badMic | .dropped => s

/-- The locked section around `hostapd_build_message3_locked`. -/
def message3 (c : WlanCrypto) (cfg : HostapdConfig) (s : Hostapd) (t : ℕ) (r : StationRef) : Hostapd :=
  let m := hostapdBuildMessage3 c cfg s.replayCounter (s.station r.slot)
  { s.setStation r.slot m.2.1 with replayCounter := m.1 }.goto t (if m.2.2 then .sendMessage3 r else .remove r none)

def step (c : WlanCrypto) (cfg : HostapdConfig) (s : Hostapd) : HostapdEvent → Option Hostapd
  | .auth t mac success =>
    if s.pc t = .idle then
      match s.find cfg mac with
      | some i =>
        some (if success ∧ (s.station i).state ≠ .authenticated then s.goto t (.remove (s.ref i) (some mac)) else s)
      | none => some (if success then s.allocate cfg mac else s)
    else none
  | .authAgain t =>
    match s.pc t with
    | .authAgain mac => some ((s.allocate cfg mac).goto t .idle)
    | _ => none
  | .assoc t mac success =>
    if s.pc t = .idle then
      match s.find cfg mac with
      | some i => some (if success ∧ (s.station i).state = .authenticated then s.goto t (.assocAdd mac) else s)
      | none => some s
    else none
  | .associate t added random =>
    match s.pc t with
    | .assocAdd mac =>
      if added then
        match s.find cfg mac with
        | some i => some ((s.associate c i random).1.goto t (.assocSend mac (s.associate c i random).2))
        | none => some (s.goto t .idle)
      else some (s.goto t .idle)
    | _ => none
  | .assocSent t ok =>
    match s.pc t with
    | .assocSend mac built =>
      match s.find cfg mac with
      | some i => some (s.goto t (if built ∧ ok then .idle else .remove (s.ref i) none))
      | none => some (s.goto t .idle)
    | _ => none
  | .deauth t mac =>
    if s.pc t = .idle then
      match s.find cfg mac with
      | some i => some (s.goto t (.remove (s.ref i) none))
      | none => some s
    else none
  | .expire t mac =>
    if s.pc t = .idle then
      match s.find cfg mac with
      | some i =>
        some (if (s.station i).state = .waitM2 ∨ (s.station i).state = .waitM4 then s.goto t (.remove (s.ref i) none)
          else s)
      | none => some s
    else none
  | .clear t =>
    match s.pc t with
    | .remove r again => some ((s.clear r.slot).goto t (again.elim .idle .authAgain))
    | _ => none
  | .delStation mac => some ((s.find cfg mac).elim s s.clear)
  | .channelChanged =>
    some { s with station := fun _ => Station.cleared, association := fun _ => none, gtkInstalled := false }
  | .eapol t source destination data =>
    if s.pc t = .idle then
      match hostapdFrame data with
      | none => some s
      | some data =>
        match if destination = cfg.address then s.find cfg source else none with
        | some i => some (s.receive c cfg t i source data)
        | none => some s
    else none
  | .checkGtk t =>
    match s.pc t with
    | .installGtk r => some (s.goto t (if s.gtkInstalled then .installPairwise r else .addGtk r))
    | _ => none
  | .gtkAdded t ok =>
    match s.pc t with
    | .addGtk r =>
      some (if ok then { s with gtkInstalled := true }.goto t (.installPairwise r) else s.goto t (.remove r none))
    | _ => none
  | .pairwiseAdded t ok =>
    match s.pc t with
    | .installPairwise r => some (s.goto t (if ok then .buildMessage3 r else .remove r none))
    | _ => none
  | .message3 t =>
    match s.pc t with
    | .buildMessage3 r => some (s.message3 c cfg t r)
    | _ => none
  | .message3Sent t ok =>
    match s.pc t with
    | .sendMessage3 r => some (s.goto t (if ok then .idle else .remove r none))
    | _ => none
  | .setAuthorized t ok =>
    match s.pc t with
    | .authorize r =>
      some ({ s with authorized := ⟨s.association r.slot, (s.station r.slot).mac⟩ :: s.authorized }.goto t
        (if ok then .finish r else .remove r none))
    | _ => none
  | .finish t =>
    match s.pc t with
    | .finish r =>
      some ((s.setStation r.slot { s.station r.slot with state := .authorized, reported := true, lastEapol := [] }).goto
        t .idle)
    | _ => none

end Hostapd

end RtSmart
