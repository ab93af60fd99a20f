import RtSmart.Wlan.Bus

/-!
Requests and completions of the WLAN offload core (`wlan_offload.c`): the submissions, `rt_wlan_offload_report_event`
and what else clears a pending request. A section under `operation_lock` is one step, so that events may come while
the driver works on a request. Reconnection, recovery, the promiscuous mode and the management filter are left out.
-/

namespace RtSmart

open Lib

inductive OffloadRadioState
  | unregistered
  | registered
  | starting
  | started
  | offline
  | failed
deriving DecidableEq

inductive OffloadIftype
  | station
  | ap
deriving DecidableEq

/-- `struct rt_wlan_offload_channel_definition` -/
structure OffloadChannel where
  band : ℕ
  width : ℕ
  primaryChannel : ℕ
  primaryFrequencyMhz : ℕ
  centerFrequency1Mhz : ℕ
  centerFrequency2Mhz : ℕ
deriving DecidableEq

structure OffloadBytes where
  data : Option (List UInt8)
  length : ℕ
deriving DecidableEq

def OffloadBytes.missing (b : OffloadBytes) : Bool :=
  b.length ≠ 0 ∧ b.data = none

/-- `struct rt_wlan_offload_network` -/
structure OffloadNetwork where
  ssid : List UInt8
  bssid : List UInt8
  channel : OffloadChannel
  rssi : ℤ
  security : ℕ
  beaconInterval : ℕ
  capability : ℕ
  ies : OffloadBytes
deriving DecidableEq

/-- `struct rt_wlan_offload_bss_cache_entry` -/
structure BssCacheEntry where
  valid : Bool
  ssid : List UInt8
  bssid : List UInt8
  channel : OffloadChannel
  rssi : ℤ
  security : ℕ
  beaconInterval : ℕ
  capability : ℕ
  securityIes : List UInt8
deriving DecidableEq

/-- `struct rt_wlan_offload_vif`; a pending id of 0 is none. -/
structure OffloadVif where
  registered : Bool
  enabled : Bool
  linkUp : Bool
  pendingScanId : ℕ
  pendingConnectId : ℕ
  pendingApId : ℕ
deriving DecidableEq

structure OffloadRadio where
  state : OffloadRadioState
  vifs : OffloadIftype → OffloadVif
  bssCache : List BssCacheEntry

/-- What the radio was registered with, and the two checks that stand in other places of the component:
`wlan_offload_validate_channel` and `rt_wlan_offload_supplicant_supports`. -/
structure OffloadConfig where
  permanentAddress : List UInt8
  maxScanSsids : ℕ
  maxScanIeLength : ℕ
  maxStations : ℕ
  externalSupplicant : Bool
  hasScan : Bool
  hasConnect : Bool
  hasAssoc : Bool
  hasStartAp : Bool
  hasStopAp : Bool
  validateChannel : OffloadChannel → Bool → Bool
  supplicantSupports : ℕ → Bool

structure OffloadScanRequest where
  requestId : ℕ
  ssids : Option (List ℕ)
  ssidCount : ℕ
  channels : Option (List OffloadChannel)
  channelCount : ℕ
  ies : OffloadBytes

structure OffloadConnectRequest where
  requestId : ℕ
  ssidLength : ℕ
  keyLength : ℕ
  channel : OffloadChannel
  ies : OffloadBytes

structure OffloadAssocRequest where
  requestId : ℕ
  ies : OffloadBytes

structure OffloadApSettings where
  requestId : ℕ
  ssidLength : ℕ
  keyLength : ℕ
  channel : OffloadChannel
  maxStations : ℕ
  beaconIes : OffloadBytes

/-- `enum rt_wlan_offload_event_type` -/
inductive OffloadEventType
  | radioOnline
  | radioOffline
  | scanResult
  | scanDone
  | connectResult
  | disconnected
  | apStarted
  | apStopped
  | newStation
  | delStation
  | authRx
  | assocRx
  | mgmtRx
  | mgmtTxStatus
  | eapolRx
  | regulatoryChanged
  | externalAuthRequired
  | firmwareError
  | tkipMicFailure
deriving DecidableEq

/-- `struct rt_wlan_offload_event`. `iftype` is `none` for a value that is no interface; `payloadOk` says whether the
checks of a frame, an authentication request or a firmware dump go through. -/
structure OffloadEvent where
  type : OffloadEventType
  iftype : Option OffloadIftype
  requestId : ℕ
  status : ℤ
  network : OffloadNetwork
  payloadOk : Bool

/-- `rt_wlan_dev_event_t`, with the data that goes up. -/
inductive WlanDevEvent
  | scanReport (network : OffloadNetwork)
  | scanDone
  | connect
  | connectFail
  | disconnect
  | apStart (bssid : List UInt8)
  | apStop
  | apAssociated
  | apDisassociated
deriving DecidableEq

/-- What goes up: an indication of `rt_wlan_dev`, or the event itself to the handler and the control device. -/
inductive OffloadOutput
  | indicate (iftype : OffloadIftype) (event : WlanDevEvent)
  | handler (type : OffloadEventType)
deriving DecidableEq

abbrev rtWlanSsidMaxLength : ℕ := 32
abbrev rtWlanPasswordMaxLength : ℕ := 64
abbrev bssCacheCount : ℕ := 64
abbrev bssSecurityIeMaxLength : ℕ := 514

/-! ### The BSS cache -/

/-- `wlan_offload_mac_is_zero` -/
def offloadMacIsZero (mac : List UInt8) : Bool :=
  mac.all (· = 0)

def isSecurityElement (tag : UInt8) (body : List UInt8) : Bool :=
  tag = 48 ∨ tag = 221 ∧ 4 ≤ body.length ∧ body.take 4 = [0x00, 0x50, 0xf2, 0x01]

/-- The loop of `wlan_offload_copy_security_ies`. -/
def copySecurityIes (capacity : ℕ) (copied : List UInt8) (ies : List UInt8) : List UInt8 :=
  match ies with
  | tag :: len :: rest =>
    if rest.length < len.toNat then copied
    else
      let body := rest.take len.toNat
      if isSecurityElement tag body then
        if capacity - copied.length < 2 + len.toNat then []
        else copySecurityIes capacity (copied ++ tag :: len :: body) (rest.drop len.toNat)
      else copySecurityIes capacity copied (rest.drop len.toNat)
  | _ => copied
termination_by ies.length
decreasing_by all_goals simp only [List.length_cons, List.length_drop]; omega

def emptyBssEntry : BssCacheEntry :=
  { valid := false, ssid := [], bssid := List.replicate 6 0, channel := ⟨0, 0, 0, 0, 0, 0⟩, rssi := 0, security := 0,
    beaconInterval := 0, capability := 0, securityIes := [] }

/-- `wlan_offload_bss_cache_clear_locked` -/
def emptyBssCache : List BssCacheEntry :=
  List.replicate bssCacheCount emptyBssEntry

def weakestBss (cache : List BssCacheEntry) : Option ℕ :=
  (List.range cache.length).foldl
    (fun weakest i =>
      match cache[i]? with
      | some c =>
        if c.valid ∧ weakest.all (fun w => c.rssi < (cache.getD w emptyBssEntry).rssi) then some i else weakest
      | none => weakest)
    none

/-- The entry that `wlan_offload_bss_cache_update_locked` fills. -/
def bssCacheSlot (cache : List BssCacheEntry) (network : OffloadNetwork) : Option ℕ :=
  match cache.findIdx? fun c => c.valid ∧ c.bssid = network.bssid with
  | some i => some i
  | none =>
    match cache.findIdx? fun c => !c.valid with
    | some i => some i
    | none => (weakestBss cache).filter fun w => (cache.getD w emptyBssEntry).rssi < network.rssi

/-- `wlan_offload_bss_cache_update_locked` -/
def bssCacheUpdate (cfg : OffloadConfig) (cache : List BssCacheEntry) (network : OffloadNetwork) :
    List BssCacheEntry :=
  if rtWlanSsidMaxLength < network.ssid.length ∨ offloadMacIsZero network.bssid ∨
      !cfg.supplicantSupports network.security then
    cache
  else
    match bssCacheSlot cache network with
    | none => cache
    | some i =>
      let ies := copySecurityIes bssSecurityIeMaxLength [] ((network.ies.data.getD []).take network.ies.length)
      cache.set i
        { valid := !ies.isEmpty, ssid := network.ssid, bssid := network.bssid, channel := network.channel,
          rssi := network.rssi, security := network.security, beaconInterval := network.beaconInterval,
          capability := network.capability, securityIes := ies }

namespace OffloadRadio

def setVif (r : OffloadRadio) (ift : OffloadIftype) (vif : OffloadVif) : OffloadRadio :=
  { r with vifs := Function.update r.vifs ift vif }

/-- `wlan_offload_get_vif_locked` -/
def getVif (r : OffloadRadio) (ift : Option OffloadIftype) : Option OffloadIftype :=
  ift.filter fun i => (r.vifs i).registered

/-- `wlan_offload_operation_enter` -/
def operationEnter (r : OffloadRadio) : ℤ :=
  if r.state = .unregistered then -rtEinval else if r.state ≠ .started then -rtEbusy else rtEok

/-! ### Submissions, up to the call of the driver -/

/-- `wlan_offload_scan_submit` -/
def scanSubmit (cfg : OffloadConfig) (r : OffloadRadio) (ift : OffloadIftype) (request : OffloadScanRequest) :
    OffloadRadio × ℤ :=
  let vif := r.vifs ift
  if ift ≠ .station ∨ request.requestId = 0 ∨ request.ssidCount ≠ 0 ∧ request.ssids = none ∨
      cfg.maxScanSsids < request.ssidCount ∨ request.channelCount ≠ 0 ∧ request.channels = none ∨
      request.ies.missing ∨ cfg.maxScanIeLength < request.ies.length then
    (r, -rtEinval)
  else if !vif.enabled ∨ vif.pendingScanId ≠ 0 then (r, -rtEbusy)
  else if !cfg.hasScan then (r, -rtEnosys)
  else if ((request.ssids.getD []).take request.ssidCount).any (rtWlanSsidMaxLength < ·) then (r, -rtEinval)
  else if ((request.channels.getD []).take request.channelCount).any (!cfg.validateChannel · false) then
    (r, -rtEinval)
  else ({ r with bssCache := emptyBssCache }.setVif ift { vif with pendingScanId := request.requestId }, rtEok)

/-- `wlan_offload_connect_submit` -/
def connectSubmit (cfg : OffloadConfig) (r : OffloadRadio) (ift : OffloadIftype) (request : OffloadConnectRequest) :
    OffloadRadio × ℤ :=
  let vif := r.vifs ift
  if ift ≠ .station ∨ request.requestId = 0 ∨ rtWlanSsidMaxLength < request.ssidLength ∨
      rtWlanPasswordMaxLength < request.keyLength ∨ !cfg.validateChannel request.channel true ∨
      request.ies.missing then
    (r, -rtEinval)
  else if !vif.enabled ∨ vif.pendingConnectId ≠ 0 then (r, -rtEbusy)
  else if !cfg.hasConnect then (r, -rtEnosys)
  else (r.setVif ift { vif with pendingConnectId := request.requestId }, rtEok)

/-- `rt_wlan_offload_assoc`; that the driver has no such callback is found out after the id is set. -/
def assocSubmit (cfg : OffloadConfig) (r : OffloadRadio) (ift : OffloadIftype) (request : OffloadAssocRequest) :
    OffloadRadio × ℤ :=
  let vif := r.vifs ift
  if request.requestId = 0 ∨ request.ies.missing then (r, -rtEinval)
  else if ift ≠ .station ∨ !cfg.externalSupplicant then (r, -rtEinval)
  else if !vif.enabled ∨ vif.pendingConnectId ≠ 0 then (r, -rtEbusy)
  else (r.setVif ift { vif with pendingConnectId := request.requestId }, rtEok)

/-- `wlan_offload_start_ap_submit` -/
def startApSubmit (cfg : OffloadConfig) (r : OffloadRadio) (ift : OffloadIftype) (settings : OffloadApSettings) :
    OffloadRadio × ℤ :=
  let vif := r.vifs ift
  if ift ≠ .ap ∨ settings.requestId = 0 ∨ rtWlanSsidMaxLength < settings.ssidLength ∨
      rtWlanPasswordMaxLength < settings.keyLength ∨ !cfg.validateChannel settings.channel false ∨
      settings.maxStations ≠ 0 ∧ cfg.maxStations ≠ 0 ∧ cfg.maxStations < settings.maxStations ∨
      settings.beaconIes.missing then
    (r, -rtEinval)
  else if !vif.enabled ∨ vif.pendingApId ≠ 0 then (r, -rtEbusy)
  else if !cfg.hasStartAp then (r, -rtEnosys)
  else (r.setVif ift { vif with pendingApId := settings.requestId }, rtEok)

/-- `wlan_offload_stop_ap_submit` -/
def stopApSubmit (cfg : OffloadConfig) (r : OffloadRadio) (ift : OffloadIftype) (requestId : ℕ) : OffloadRadio × ℤ :=
  let vif := r.vifs ift
  if ift ≠ .ap ∨ requestId = 0 then (r, -rtEinval)
  else if !vif.enabled ∨ vif.pendingApId ≠ 0 then (r, -rtEbusy)
  else if !cfg.hasStopAp then (r, -rtEnosys)
  else (r.setVif ift { vif with pendingApId := requestId }, rtEok)

/-! ### Events -/

def dropLinks (r : OffloadRadio) : OffloadRadio :=
  let sta := r.vifs .station
  let ap := r.vifs .ap
  { r.setVif .station { sta with linkUp := false, pendingScanId := 0, pendingConnectId := 0 } with
    bssCache := emptyBssCache }.setVif .ap { ap with linkUp := false, pendingApId := 0 }

def linkLoss (r : OffloadRadio) : List OffloadOutput :=
  (if (r.vifs .station).linkUp ∧ (r.vifs .station).registered then [.indicate .station .disconnect] else []) ++
    if (r.vifs .ap).linkUp ∧ (r.vifs .ap).registered then [.indicate .ap .apStop] else []

/-- `wlan_offload_set_radio_online_internal` -/
def setRadioOnline (r : OffloadRadio) (online : Bool) : OffloadRadio × List OffloadOutput × ℤ :=
  if online then
    if r.state = .started then (r, [], rtEok)
    else if r.state ≠ .offline then (r, [], -rtEbusy)
    else ({ r with state := .started }, [.handler .radioOnline], rtEok)
  else
    if r.state = .offline then (r, [], rtEok)
    else if r.state ≠ .started then (r, [], -rtEbusy)
    else ({ r.dropLinks with state := .offline }, r.linkLoss ++ [.handler .radioOffline], rtEok)

/-- `wlan_offload_network_to_wlan_info`, whether it goes through. -/
def networkOk (cfg : OffloadConfig) (network : OffloadNetwork) : Bool :=
  network.ssid.length ≤ rtWlanSsidMaxLength ∧ cfg.validateChannel network.channel false ∧ !network.ies.missing

def eventIftype : OffloadEventType → Option OffloadIftype
  | .scanResult | .scanDone | .connectResult | .disconnected | .authRx | .assocRx | .externalAuthRequired =>
    some .station
  | .apStarted | .apStopped | .newStation | .delStation => some .ap
  | _ => none

/-- The `switch` of `rt_wlan_offload_report_event`: the radio and the indication; `none` where it refuses. -/
def handleEvent (cfg : OffloadConfig) (r : OffloadRadio) (ift : OffloadIftype) (e : OffloadEvent) :
    Option (OffloadRadio × List OffloadOutput) :=
  let vif := r.vifs ift
  match e.type with
  | .scanResult =>
    if e.requestId = 0 ∨ e.requestId ≠ vif.pendingScanId ∨ !networkOk cfg e.network then none
    else
      some ({ r with bssCache := bssCacheUpdate cfg r.bssCache e.network },
        [.indicate ift (.scanReport e.network)])
  | .scanDone =>
    if e.requestId = 0 ∨ e.requestId ≠ vif.pendingScanId then none
    else some (r.setVif ift { vif with pendingScanId := 0 }, [.indicate ift .scanDone])
  | .connectResult =>
    if e.requestId = 0 ∨ e.requestId ≠ vif.pendingConnectId then none
    else
      some (r.setVif ift { vif with pendingConnectId := 0, linkUp := e.status = rtEok },
        [.indicate ift (if e.status = rtEok then .connect else .connectFail)])
  | .disconnected =>
    some (r.setVif ift { vif with pendingConnectId := 0, linkUp := false }, [.indicate ift .disconnect])
  | .apStarted =>
    if vif.pendingApId ≠ 0 ∧ e.requestId ≠ vif.pendingApId then none
    else
      some (r.setVif ift { vif with pendingApId := 0, linkUp := e.status = rtEok },
        if e.status = rtEok then
          [.indicate ift (.apStart (if offloadMacIsZero e.network.bssid then cfg.permanentAddress
            else e.network.bssid))]
        else [])
  | .apStopped =>
    if vif.pendingApId ≠ 0 ∧ e.requestId ≠ vif.pendingApId then none
    else some (r.setVif ift { vif with pendingApId := 0, linkUp := false }, [.indicate ift .apStop])
  | .newStation => some (r, [.indicate ift .apAssociated])
  | .delStation => some (r, [.indicate ift .apDisassociated])
  | .authRx | .assocRx | .mgmtRx | .mgmtTxStatus | .eapolRx | .externalAuthRequired =>
    if e.payloadOk then some (r, []) else none
  | .tkipMicFailure => some (r, [])
  | .regulatoryChanged | .firmwareError | .radioOnline | .radioOffline => none

def firmwareError (r : OffloadRadio) (e : OffloadEvent) : OffloadRadio × List OffloadOutput × ℤ :=
  if !e.payloadOk then (r, [], -rtEinval)
  else if r.state = .starting then (r, [], -rtEbusy)
  else ({ r.dropLinks with state := .failed }, r.linkLoss ++ [.handler .firmwareError], rtEok)

/-- `rt_wlan_offload_report_event`; `consumed` is the answer of the two filters. -/
def reportEvent (cfg : OffloadConfig) (r : OffloadRadio) (e : OffloadEvent) (consumed : Bool) :
    OffloadRadio × List OffloadOutput × ℤ :=
  if consumed then (r, [], rtEok)
  else if e.type = .radioOnline ∨ e.type = .radioOffline then r.setRadioOnline (e.type = .radioOnline)
  else if r.state = .unregistered then (r, [], -rtEbusy)
  else if e.type = .regulatoryChanged then (r, [.handler e.type], rtEok)
  else if e.type = .firmwareError then r.firmwareError e
  else if r.state ≠ .started then (r, [], -rtEbusy)
  else
    match r.getVif e.iftype with
    | none => (r, [], -rtEinval)
    | some ift =>
      if (eventIftype e.type).any (· ≠ ift) then (r, [], -rtEinval)
      else
        match r.handleEvent cfg ift e with
        | none => (r, [], -rtEinval)
        | some (r, outputs) => (r, outputs ++ [.handler e.type], rtEok)

/-! ### What else clears a pending request -/

/-- `wlan_offload_change_interface_submit`, once the driver has changed the interface. -/
def interfaceChanged (r : OffloadRadio) (ift : OffloadIftype) (enabled : Bool) : OffloadRadio :=
  let vif := r.vifs ift
  r.setVif ift (if enabled then { vif with enabled := true }
    else { vif with enabled := false, linkUp := false, pendingScanId := 0, pendingConnectId := 0, pendingApId := 0 })

/-- `wlan_offload_wlan_init`, up to the start of the bus and the driver. -/
def wlanInit (r : OffloadRadio) : OffloadRadio :=
  if r.state = .failed ∨ r.state = .registered then
    { r with
      state := .starting
      vifs := fun ift => { r.vifs ift with
        enabled := false, linkUp := false, pendingScanId := 0, pendingConnectId := 0, pendingApId := 0 } }
  else r

/-- The rest of it, with what `start` has returned. -/
def wlanInitDone (r : OffloadRadio) (ret : ℤ) : OffloadRadio :=
  if ret ≠ rtEok then { r with state := .failed }
  else if r.state = .starting then { r with state := .started }
  else r

end OffloadRadio

inductive OffloadSlot
  | scan
  | connect
  | ap
deriving DecidableEq

def OffloadSlot.iftype : OffloadSlot → OffloadIftype
  | .scan | .connect => .station
  | .ap => .ap

def OffloadVif.pending (vif : OffloadVif) : OffloadSlot → ℕ
  | .scan => vif.pendingScanId
  | .connect => vif.pendingConnectId
  | .ap => vif.pendingApId

def OffloadVif.clearPending (vif : OffloadVif) : OffloadSlot → OffloadVif
  | .scan => { vif with pendingScanId := 0 }
  | .connect => { vif with pendingConnectId := 0 }
  | .ap => { vif with pendingApId := 0 }

/-- A submission whose callback the driver has not returned from, with its number. -/
structure OffloadSubmission where
  slot : OffloadSlot
  requestId : ℕ
  stamp : ℕ
deriving DecidableEq

/-- The radio and the submissions in the driver. For the statements: how many submissions there were, the last one for
each pending id, those whose completion was accepted, those that have ended (completed, failed or given up), and what
the last step sent up. -/
structure OffloadSys where
  cfg : OffloadConfig
  radio : OffloadRadio
  inflight : List OffloadSubmission
  initRunning : Bool
  stamps : ℕ
  owner : OffloadSlot → ℕ
  completed : List ℕ
  ended : List ℕ
  outputs : List OffloadOutput

inductive OffloadStep
  | scan (iftype : Option OffloadIftype) (request : OffloadScanRequest)
  | connect (iftype : Option OffloadIftype) (request : OffloadConnectRequest)
  | assoc (iftype : Option OffloadIftype) (request : OffloadAssocRequest)
  | startAp (iftype : Option OffloadIftype) (settings : OffloadApSettings)
  | stopAp (iftype : Option OffloadIftype) (requestId : ℕ)
  /-- The driver returns from the callback of a submission. -/
  | driverReturn (submission : OffloadSubmission) (ret : ℤ)
  | report (event : OffloadEvent) (consumed : Bool)
  | interfaceChanged (iftype : OffloadIftype) (enabled : Bool)
  | wlanInit
  | wlanInitDone (ret : ℤ)

/-- The request whose completion an event of this type is. -/
def OffloadEventType.slot : OffloadEventType → Option OffloadSlot
  | .scanResult | .scanDone => some .scan
  | .connectResult => some .connect
  | .apStarted | .apStopped => some .ap
  | _ => none

def OffloadEventType.ends : OffloadEventType → Bool
  | .scanDone | .connectResult | .apStarted | .apStopped => true
  | _ => false

namespace OffloadSys

def pending (s : OffloadSys) (slot : OffloadSlot) : ℕ :=
  (s.radio.vifs slot.iftype).pending slot

/-- The submissions that have ended once the radio is `r`. -/
def retired (s : OffloadSys) (r : OffloadRadio) : List ℕ :=
  ([OffloadSlot.scan, .connect, .ap].filter fun slot =>
    s.pending slot ≠ 0 ∧ (r.vifs slot.iftype).pending slot = 0).map s.owner

/-- The radio becomes `r` and sends up `outputs`. -/
def become (s : OffloadSys) (r : OffloadRadio) (outputs : List OffloadOutput) : OffloadSys :=
  { s with radio := r, ended := s.retired r ++ s.ended, outputs := outputs }

/-- A submission, refused or handed to the driver. -/
def submit (s : OffloadSys) (slot : OffloadSlot) (requestId : ℕ) (out : OffloadRadio × ℤ) : OffloadSys :=
  if out.2 = rtEok then
    { s.become out.1 [] with
      inflight := ⟨slot, requestId, s.stamps⟩ :: s.inflight
      owner := Function.update s.owner slot s.stamps
      stamps := s.stamps + 1 }
  else s.become out.1 []

def operation (s : OffloadSys) (iftype : Option OffloadIftype) (f : OffloadIftype → OffloadSys) : OffloadSys :=
  if s.radio.operationEnter ≠ rtEok then s.become s.radio []
  else
    match s.radio.getVif iftype with
    | none => s.become s.radio []
    | some ift => f ift

def driverReturn (s : OffloadSys) (sub : OffloadSubmission) (ret : ℤ) : OffloadSys :=
  let s' := { s with inflight := s.inflight.erase sub }
  if ret ≠ rtEok ∧ s.pending sub.slot = sub.requestId then
    s'.become (s.radio.setVif sub.slot.iftype ((s.radio.vifs sub.slot.iftype).clearPending sub.slot)) []
  else s'.become s.radio []

/-- The completion of a request is written down if it is accepted; an event without an id completes none. -/
def report (s : OffloadSys) (e : OffloadEvent) (consumed : Bool) : OffloadSys :=
  let out := s.radio.reportEvent s.cfg e consumed
  let s' := s.become out.1 out.2.1
  match e.type.slot with
  | some slot =>
    if out.2.1 ≠ [] ∧ e.type.ends ∧ e.requestId ≠ 0 then { s' with completed := s.owner slot :: s.completed } else s'
  | none => s'

def step (s : OffloadSys) : OffloadStep → Option OffloadSys
  | .scan iftype request =>
    some (s.operation iftype fun ift => s.submit .scan request.requestId (s.radio.scanSubmit s.cfg ift request))
  | .connect iftype request =>
    some (s.operation iftype fun ift => s.submit .connect request.requestId (s.radio.connectSubmit s.cfg ift request))
  | .assoc iftype request =>
    some (s.operation iftype fun ift => s.submit .connect request.requestId (s.radio.assocSubmit s.cfg ift request))
  | .startAp iftype settings =>
    some (s.operation iftype fun ift => s.submit .ap settings.requestId (s.radio.startApSubmit s.cfg ift settings))
  | .stopAp iftype requestId =>
    some (s.operation iftype fun ift => s.submit .ap requestId (s.radio.stopApSubmit s.cfg ift requestId))
  | .driverReturn sub ret => if sub ∈ s.inflight then some (s.driverReturn sub ret) else none
  | .report e consumed => some (s.report e consumed)
  | .interfaceChanged ift enabled => some (s.become (s.radio.interfaceChanged ift enabled) [])
  | .wlanInit => if s.initRunning then none else some { s.become s.radio.wlanInit [] with initRunning := true }
  | .wlanInitDone ret =>
    if s.initRunning then some { s.become (s.radio.wlanInitDone ret) [] with initRunning := false } else none

/-- A radio that has been registered. -/
def init (cfg : OffloadConfig) (sta ap : Bool) : OffloadSys :=
  let vif (registered : Bool) : OffloadVif := ⟨registered, false, false, 0, 0, 0⟩
  { cfg := cfg
    radio := { state := .registered, vifs := fun | .station => vif sta | .ap => vif ap, bssCache := emptyBssCache }
    inflight := []
    initRunning := false
    stamps := 0
    owner := fun _ => 0
    completed := []
    ended := []
    outputs := [] }

end OffloadSys

end RtSmart
