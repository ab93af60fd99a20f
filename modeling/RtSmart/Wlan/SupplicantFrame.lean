import RtSmart.Wlan.HostapdStation

/-! The frames of the embedded supplicant and its session (`wlan_offload_supplicant.c`). -/

namespace RtSmart

open Lib

/-- The further primitives that the supplicant's profiles use: HMAC-MD5, HMAC-SHA256, AES-CMAC and RC4 with a
skipped prefix. -/
structure SupplicantCrypto extends WlanCrypto where
  hmacMd5 : List UInt8 → List UInt8 → Bytes 16
  hmacSha256 : List UInt8 → List UInt8 → Bytes 32
  aesCmac : List UInt8 → List UInt8 → Option (Bytes 16)
  rc4Skip : List UInt8 → ℕ → List UInt8 → Option (List UInt8)

inductive WpaProtocol
  | wpa
  | rsn
deriving DecidableEq

inductive WlanCipher
  | none
  | tkip
  | ccmp
  | aesCmac
deriving DecidableEq

/-- `struct wlan_offload_wpa_profile` -/
structure WpaProfile where
  protocol : WpaProtocol
  pairwiseCipher : WlanCipher
  groupCipher : WlanCipher
  associationIe : List UInt8
  sae : Bool
  sha256Akm : Bool
  mfpRequired : Bool
deriving DecidableEq

/-- `g_wpa2_ccmp_profile`; its element is `g_wpa2_psk_ccmp_rsn_ie`. -/
def wpa2CcmpProfile : WpaProfile :=
  { protocol := .rsn, pairwiseCipher := .ccmp, groupCipher := .ccmp
    associationIe := [0x30, 0x14, 0x01, 0x00, 0x00, 0x0f, 0xac, 0x04, 0x01, 0x00, 0x00, 0x0f, 0xac, 0x04, 0x01, 0x00, 0x00,
      0x0f, 0xac, 0x02, 0x00, 0x00]
    sae := false, sha256Akm := false, mfpRequired := false }

inductive SupplicantState
  | idle
  | saeWaitExternal
  | saeWaitCommit
  | saeWaitConfirm
  | associating
  | waitM1
  | waitM3
  | installing
  | waitG1
  | connected
deriving DecidableEq

/-- `struct rt_wlan_offload_supplicant` without its SAE session, its channel and the clocks of the TKIP
countermeasures. -/
structure Supplicant where
  state : SupplicantState
  requestId : BitVec 32
  bssid : Bytes 6
  ownAddress : Bytes 6
  pmk : Bytes 32
  ptk : Bytes 64
  anonce : Bytes 32
  snonce : Bytes 32
  replay : Bytes 8
  eapolVersion : UInt8
  descriptorType : UInt8
  keyLength : BitVec 16
  profile : Option WpaProfile
deriving DecidableEq

namespace Supplicant

/-- `supplicant_clear_locked` -/
def cleared : Supplicant :=
  { state := .idle, requestId := 0, bssid := zeroBytes 6, ownAddress := zeroBytes 6, pmk := zeroBytes 32
    ptk := zeroBytes 64, anonce := zeroBytes 32, snonce := zeroBytes 32, replay := zeroBytes 8, eapolVersion := 0
    descriptorType := 0, keyLength := 0, profile := none }

end Supplicant

def supplicantCipherKeyLength : WlanCipher → ℕ
  | .tkip => 32
  | _ => 16

def supplicantCipherDescriptorVersion (p : WpaProfile) : BitVec 16 :=
  if p.sae then 0 else if p.sha256Akm then 3 else if p.pairwiseCipher = .tkip then 1 else 2

/-- The loop of `rt_wlan_offload_sha256_prf` for the `n` bytes that are still to be generated. -/
def sha256PrfLoop (digest : ℕ → Bytes 32) : ℕ → ℕ → ℕ → List UInt8
  | 0, _, _ => []
  | fuel + 1, counter, n =>
    if n = 0 then [] else (digest counter).1.take (min n 32) ++ sha256PrfLoop digest fuel (counter + 1) (n - min n 32)

/-- `rt_wlan_offload_sha256_prf` for an output of `n` bytes; `none` for its result `-1`. -/
def sha256Prf (c : SupplicantCrypto) (key label data : List UInt8) (n : ℕ) : Option (List UInt8) :=
  if 8191 < n ∨ 256 < 2 + label.length + data.length + 2 then none
  else some (sha256PrfLoop (fun counter => c.hmacSha256 key (UInt8.ofNat counter :: UInt8.ofNat (counter / 256) ::
    (label ++ (data ++ [UInt8.ofNat (n * 8), UInt8.ofNat (n * 8 / 256)])))) n 1 n)

/-- The pairwise key for two addresses and two nonces; `output` is the buffer before the call. -/
def supplicantPtk (c : SupplicantCrypto) (p : WpaProfile) (pmk : Bytes 32) (bssid ownAddress : Bytes 6)
    (anonce snonce : Bytes 32) (output : Bytes 64) : Bytes 64 :=
  let context := ordered bssid.1 ownAddress.1 ++ ordered anonce.1 snonce.1
  if p.sha256Akm then
    match sha256Prf c pmk.1 pairwiseLabel context 48 with
    | some first => ofBytes 64 (first ++ output.1.drop 48)
    | none => output
  else wpaPrf c.toWlanCrypto pmk.1 pairwiseLabel context output

def supplicantDerivePtk (c : SupplicantCrypto) (p : WpaProfile) (x : Supplicant) : Supplicant :=
  { x with ptk := supplicantPtk c p x.pmk x.bssid x.ownAddress x.anonce x.snonce x.ptk }

/-- The MIC of a frame whose MIC field is clear, in the algorithm of the profile and of `keyInfo`. -/
def supplicantMic (c : SupplicantCrypto) (p : WpaProfile) (ptk : Bytes 64) (keyInfo : BitVec 16) (data : List UInt8) :
    Option (Bytes 16) :=
  if p.sha256Akm then c.aesCmac (ptk.1.take 16) data
  else if keyInfo &&& wpaKeyInfoVersionMask = 1 then some (c.hmacMd5 (ptk.1.take 16) data)
  else some (frameMic c.toWlanCrypto ptk data)

/-- `supplicant_make_key_frame`; `memory` says whether its allocation succeeds. -/
def supplicantMakeKeyFrame (c : SupplicantCrypto) (p : WpaProfile) (x : Supplicant) (memory : Bool)
    (keyInfo keyLength : BitVec 16) (replay : Bytes 8) (nonce : Bytes 32) (keyData : List UInt8) :
    Option (List UInt8) :=
  let frame := keyFrame x.eapolVersion x.descriptorType keyInfo keyLength replay nonce (zeroBytes 16) keyData
  if memory then
    if keyInfo &&& wpaKeyInfoMic ≠ 0 then
      (supplicantMic c p x.ptk keyInfo frame).map fun mic =>
        keyFrame x.eapolVersion x.descriptorType keyInfo keyLength replay nonce mic keyData
    else some frame
  else none

def supplicantVerifyMic (c : SupplicantCrypto) (p : WpaProfile) (memory : Bool) (ptk : Bytes 64) (data : List UInt8) :
    Bool :=
  memory && supplicantMic c p ptk (getBe16 data 5) (clearMic data) = some (bytesAt 81 16 data)

/-- `supplicant_decrypt_key_data`; the caller has checked that there are key data. -/
def supplicantDecryptKeyData (c : SupplicantCrypto) (p : WpaProfile) (x : Supplicant) (memory : Bool)
    (data : List UInt8) : Option (List UInt8) :=
  let length := (getBe16 data 97).toNat
  let version := getBe16 data 5 &&& wpaKeyInfoVersionMask
  if data.length - 99 < length ∨ memory = false then none
  else if version = 1 then
    c.rc4Skip ((bytesAt 49 16 data).1 ++ (bytesAt 16 16 x.ptk.1).1) 256 ((data.drop 99).take length)
  else if (version = 2 ∨ version = 3 ∨ version = 0 ∧ p.sae) ∧ 24 ≤ length ∧ length % 8 = 0 then
    aesUnwrap c.toWlanCrypto (bytesAt 16 16 x.ptk.1) ((data.drop 99).take length)
  else none

/-- The keys that a message carries; a length of zero says that there is none. -/
structure GroupKeys where
  gtk : List UInt8
  gtkIndex : UInt8
  igtk : List UInt8
  igtkIndex : UInt8
  igtkSequence : Bytes 6
deriving DecidableEq

def GroupKeys.empty : GroupKeys := ⟨[], 0, [], 0, zeroBytes 6⟩

inductive ExtractStatus
  | ok
  | empty
  | error
deriving DecidableEq

/-- The loop of `supplicant_extract_gtk` over the elements that are left. -/
def extractLoop : ℕ → List UInt8 → ExtractStatus → GroupKeys → ExtractStatus × GroupKeys
  | fuel + 1, id :: length :: rest, status, keys =>
    if id = 0 ∧ length = 0 then (status, keys)
    else if rest.length < length.toNat then (.error, keys)
    else if id = 0xdd ∧ 22 ≤ length.toNat ∧ rest.take 4 = [0x00, 0x0f, 0xac, 0x01] then
      if 32 < length.toNat - 6 then (.error, keys)
      else extractLoop fuel (rest.drop length.toNat) .ok
        { keys with gtkIndex := byteAt rest 4 &&& 3, gtk := (rest.drop 6).take (length.toNat - 6) }
    else if id = 0xdd ∧ length.toNat = 28 ∧ rest.take 4 = [0x00, 0x0f, 0xac, 0x09] then
      if getLe16 rest 4 < 4 ∨ 5 < getLe16 rest 4 then (.error, keys)
      else extractLoop fuel (rest.drop length.toNat) .ok
        { keys with
          igtkIndex := UInt8.ofNat (getLe16 rest 4), igtkSequence := bytesAt 6 6 rest
          igtk := (rest.drop 12).take 16 }
    else extractLoop fuel (rest.drop length.toNat) status keys
  | _, _, status, keys => (status, keys)

def supplicantExtractGtk (c : SupplicantCrypto) (p : WpaProfile) (x : Supplicant) (memory : Bool) (data : List UInt8) :
    ExtractStatus × GroupKeys :=
  let keyInfo := getBe16 data 5
  let keyLength := (getBe16 data 7).toNat
  if getBe16 data 97 = 0 then (.ok, .empty)
  else if p.protocol = .rsn ∧ keyInfo &&& wpaKeyInfoEncrypted = 0 then (.error, .empty)
  else
    match supplicantDecryptKeyData c p x memory data with
    | none => (.error, .empty)
    | some plain =>
      if p.protocol = .wpa then
        if keyLength ≠ supplicantCipherKeyLength p.groupCipher ∨ plain.length < keyLength then (.error, .empty)
        else (.ok, { GroupKeys.empty with
          gtkIndex := UInt8.ofNat ((keyInfo &&& wpaKeyInfoIndexMask).toNat / 16), gtk := plain.take keyLength })
      else extractLoop plain.length plain .empty .empty

structure SupplicantMemory where
  copy : Bool
  plain : Bool
  frame : Bool
deriving DecidableEq

def supplicantHandleMessage1 (c : SupplicantCrypto) (p : WpaProfile) (x : Supplicant) (memory : SupplicantMemory)
    (data : List UInt8) : Supplicant × Option (List UInt8) :=
  let x := supplicantDerivePtk c p { x with
    replay := bytesAt 9 8 data, anonce := bytesAt 17 32 data, eapolVersion := byteAt data 0
    descriptorType := byteAt data 4, keyLength := getBe16 data 7 }
  match supplicantMakeKeyFrame c p x memory.frame
      (getBe16 data 5 &&& wpaKeyInfoVersionMask ||| wpaKeyInfoPairwise ||| wpaKeyInfoMic) x.keyLength x.replay x.snonce
      p.associationIe with
  | some response => ({ x with state := .waitM3 }, some response)
  | none => (x, none)

def message4KeyInfo (p : WpaProfile) (keyInfo : BitVec 16) : BitVec 16 :=
  keyInfo &&& wpaKeyInfoVersionMask ||| wpaKeyInfoPairwise ||| wpaKeyInfoMic |||
    if p.protocol = .rsn then wpaKeyInfoSecure else 0

def supplicantHandleMessage3 (c : SupplicantCrypto) (p : WpaProfile) (x : Supplicant) (memory : SupplicantMemory)
    (data : List UInt8) : Supplicant × Option (GroupKeys × List UInt8) :=
  if supplicantVerifyMic c p memory.copy x.ptk data then
    let extracted := if p.protocol = .rsn then supplicantExtractGtk c p x memory.plain data else (.ok, .empty)
    if extracted.1 = .error ∨ p.protocol = .rsn ∧ p.mfpRequired ∧ extracted.2.igtk = [] then (x, none)
    else
      match supplicantMakeKeyFrame c p x memory.frame (message4KeyInfo p (getBe16 data 5)) x.keyLength (bytesAt 9 8 data)
          (zeroBytes 32) [] with
      | some response => ({ x with replay := bytesAt 9 8 data, state := .installing }, some (extracted.2, response))
      | none => (x, none)
  else (x, none)

def supplicantHandleGroupMessage1 (c : SupplicantCrypto) (p : WpaProfile) (x : Supplicant) (memory : SupplicantMemory)
    (data : List UInt8) : Option (GroupKeys × List UInt8) :=
  if supplicantVerifyMic c p memory.copy x.ptk data then
    let extracted := supplicantExtractGtk c p x memory.plain data
    if extracted.1 ≠ .ok ∨ extracted.2.gtk = [] then none
    else
      (supplicantMakeKeyFrame c p x memory.frame
        (getBe16 data 5 &&& wpaKeyInfoVersionMask |||
          (if p.protocol = .wpa then getBe16 data 5 &&& wpaKeyInfoIndexMask else 0) ||| wpaKeyInfoMic |||
          wpaKeyInfoSecure) (getBe16 data 7) (bytesAt 9 8 data) (zeroBytes 32) []).map fun response =>
        (extracted.2, response)
  else none


/-- The frame as far as its body length says, when the first checks of
`rt_wlan_offload_supplicant_handle_eapol` let it pass. -/
def supplicantFrame (data : List UInt8) : Option (List UInt8) :=
  if data.length < 99 ∨ byteAt data 1 ≠ 3 ∨ byteAt data 4 ≠ 2 ∧ byteAt data 4 ≠ 254 then none
  else
    let bodyLength := (getBe16 data 2).toNat
    if data.length < bodyLength + 4 ∨ bodyLength < 95 ∨ bodyLength - 95 < (getBe16 data 97).toNat then none
    else if 3 < getBe16 data 5 &&& wpaKeyInfoVersionMask ∨
        getBe16 data 5 &&& (wpaKeyInfoError ||| wpaKeyInfoRequest) ≠ 0 then none
    else some (data.take (bodyLength + 4))

/-- The checks of the handler under the lock, in a session with profile `p`. -/
def supplicantAccepts (p : WpaProfile) (x : Supplicant) (source destination : Bytes 6) (data : List UInt8) : Bool :=
  let version := getBe16 data 5 &&& wpaKeyInfoVersionMask
  byteAt data 4 = (if p.protocol = .rsn then 2 else 254) &&
    (version = supplicantCipherDescriptorVersion p ||
      (getBe16 data 5 &&& wpaKeyInfoPairwise = 0 && p.pairwiseCipher = .ccmp && p.groupCipher = .tkip &&
        version = 1)) &&
    (x.bssid = zeroBytes 6 || source = x.bssid) && destination = x.ownAddress

inductive SupplicantMessage
  | message1
  | message3
  | message3Again
  | group
  | other
deriving DecidableEq

abbrev pairwiseMask : BitVec 16 := wpaKeyInfoPairwise ||| wpaKeyInfoAck ||| wpaKeyInfoMic

def supplicantMessage (c : SupplicantCrypto) (p : WpaProfile) (x : Supplicant) (memory : SupplicantMemory)
    (data : List UInt8) : SupplicantMessage :=
  let keyInfo := getBe16 data 5
  let replay := (bytesAt 9 8 data).1
  if keyInfo &&& pairwiseMask = wpaKeyInfoPairwise ||| wpaKeyInfoAck ∧
      (x.state = .associating ∨ x.state = .waitM1 ∨ x.state = .waitM3 ∧ memLt replay x.replay.1 = false) then .message1
  else if keyInfo &&& pairwiseMask = pairwiseMask ∧ x.state = .waitM3 ∧ memLt replay x.replay.1 = false then .message3
  else if keyInfo &&& pairwiseMask = pairwiseMask ∧ (x.state = .waitG1 ∨ x.state = .connected) ∧ replay = x.replay.1 ∧
      supplicantVerifyMic c p memory.copy x.ptk data then .message3Again
  else if keyInfo &&& wpaKeyInfoPairwise = 0 ∧
      keyInfo &&& (wpaKeyInfoAck ||| wpaKeyInfoMic ||| wpaKeyInfoSecure) =
        wpaKeyInfoAck ||| wpaKeyInfoMic ||| wpaKeyInfoSecure ∧
      (x.state = .waitG1 ∨ x.state = .connected) ∧ memLt x.replay.1 replay then .group
  else .other

def tkipOrder (cipher : WlanCipher) (key : List UInt8) : List UInt8 :=
  if cipher = .tkip ∧ key.length = 32 then key.take 16 ++ (key.drop 24 ++ (key.drop 16).take 8) else key

/-- What the handler keeps in its local variables when it releases the lock; `kind` is the branch it took and `ok`
its `status`. -/
structure SupplicantWork where
  kind : SupplicantMessage
  ok : Bool
  keys : GroupKeys
  keyRsc : Bytes 6
  installPairwise : Bool
  groupRekey : Bool
  initialGroup : Bool
  pairwiseKey : List UInt8
  pairwiseCipher : WlanCipher
  groupCipher : WlanCipher
  protocol : WpaProtocol
  replay : Bytes 8
  bssid : Bytes 6
  source : Bytes 6
  response : Option (List UInt8)
deriving DecidableEq

/-- The work that the handler of a frame from `source` begins with. -/
def SupplicantWork.begin (p : WpaProfile) (kind : SupplicantMessage) (source : Bytes 6) (data : List UInt8) :
    SupplicantWork :=
  { kind := kind, ok := false, keys := .empty, keyRsc := zeroBytes 6, installPairwise := false, groupRekey := false
    initialGroup := false, pairwiseKey := [], pairwiseCipher := p.pairwiseCipher, groupCipher := p.groupCipher
    protocol := p.protocol, replay := bytesAt 9 8 data, bssid := zeroBytes 6, source := source, response := none }

/-- The first locked section of `rt_wlan_offload_supplicant_handle_eapol`; `none` when the handler returns
from it. -/
def supplicantEapol (c : SupplicantCrypto) (x : Supplicant) (memory : SupplicantMemory) (source destination : Bytes 6)
    (data : List UInt8) : Supplicant × Option SupplicantWork :=
  match x.profile with
  | none => (x, none)
  | some p =>
    if x.state = .idle ∨ supplicantAccepts p x source destination data = false then (x, none)
    else
      let x := { x with bssid := if x.bssid = zeroBytes 6 then source else x.bssid }
      let w := SupplicantWork.begin p (supplicantMessage c p x memory data) source data
      match supplicantMessage c p x memory data with
      | .message1 =>
        let r := supplicantHandleMessage1 c p x memory data
        (r.1, some { w with ok := r.2.isSome, response := r.2 })
      | .message3 =>
        let w := { w with keyRsc := bytesAt 65 6 data }
        let r := supplicantHandleMessage3 c p x memory data
        match r.2 with
        | none => (r.1, some w)
        | some (keys, response) =>
          (r.1, some { w with
            ok := true, keys := keys, installPairwise := true, bssid := x.bssid, response := some response
            pairwiseKey := tkipOrder p.pairwiseCipher
              ((x.ptk.1.drop 32).take (supplicantCipherKeyLength p.pairwiseCipher)) })
      | .message3Again =>
        let response := supplicantMakeKeyFrame c p x memory.frame (message4KeyInfo p (getBe16 data 5))
          (getBe16 data 7) (bytesAt 9 8 data) (zeroBytes 32) []
        (x, some { w with ok := response.isSome, response := response })
      | .group =>
        let w := { w with initialGroup := x.state = .waitG1, bssid := x.bssid, keyRsc := bytesAt 65 6 data }
        match supplicantHandleGroupMessage1 c p x memory data with
        | none => (x, some w)
        | some (keys, response) =>
          (x, some { w with ok := true, keys := keys, groupRekey := true, response := some response })
      | .other => (x, none)


/-! What one frame can do to the session. -/

/-- The work neither installs a pairwise key nor a new group key. -/
structure SupplicantWork.Quiet (w : SupplicantWork) : Prop where
  pairwise : w.installPairwise = false
  group : w.groupRekey = false
  initial : w.initialGroup = false

def Supplicant.challenged (c : SupplicantCrypto) (p : WpaProfile) (x : Supplicant) (data : List UInt8) : Supplicant :=
  supplicantDerivePtk c p { x with
    replay := bytesAt 9 8 data, anonce := bytesAt 17 32 data, eapolVersion := byteAt data 0
    descriptorType := byteAt data 4, keyLength := getBe16 data 7 }

inductive SupplicantReceived (c : SupplicantCrypto) (p : WpaProfile) (x : Supplicant) (data : List UInt8) :
    Supplicant → Option SupplicantWork → Prop
  | ignored : SupplicantReceived c p x data x none
  | message1 {x' : Supplicant} {w : SupplicantWork} (hstate : x.state = .associating ∨ x.state = .waitM1 ∨
      x.state = .waitM3 ∧ memLt (bytesAt 9 8 data).1 x.replay.1 = false) (hkind : w.kind = .message1) (hw : w.Quiet)
      (hx : x' = { x.challenged c p data with state := if w.ok then .waitM3 else x.state }) :
    SupplicantReceived c p x data x' (some w)
  | message3 {w : SupplicantWork} (hstate : x.state = .waitM3) (hreplay : memLt (bytesAt 9 8 data).1 x.replay.1 = false)
      (hkind : w.kind = .message3) (hok : w.ok = true) (hmic : supplicantVerifyMic c p true x.ptk data = true)
      (hpairwise : w.installPairwise = true) (hgroup : w.groupRekey = false) (hinitial : w.initialGroup = false)
      (hw : w.replay = bytesAt 9 8 data) (hprotocol : w.protocol = p.protocol)
      (hkey : w.pairwiseKey = tkipOrder p.pairwiseCipher
        ((x.ptk.1.drop 32).take (supplicantCipherKeyLength p.pairwiseCipher))) :
    SupplicantReceived c p x data { x with replay := bytesAt 9 8 data, state := .installing } (some w)
  | refused {w : SupplicantWork} (hkind : w.kind = .message3 ∧ w.ok = false ∨ w.kind = .message3Again) (hw : w.Quiet) :
    SupplicantReceived c p x data x (some w)
  | group {w : SupplicantWork} (hstate : x.state = .waitG1 ∨ x.state = .connected)
      (hreplay : memLt x.replay.1 (bytesAt 9 8 data).1 = true) (hkind : w.kind = .group)
      (hpairwise : w.installPairwise = false) (hgroup : w.groupRekey = w.ok)
      (hinitial : w.initialGroup = true → x.state = .waitG1) (hw : w.replay = bytesAt 9 8 data) :
    SupplicantReceived c p x data x (some w)

section Received

variable {c : SupplicantCrypto} {p : WpaProfile} {x x' : Supplicant} {memory : SupplicantMemory}
  {source destination : Bytes 6} {data : List UInt8} {w : Option SupplicantWork}

theorem supplicantVerifyMic_copy {copy : Bool} {ptk : Bytes 64} (h : supplicantVerifyMic c p copy ptk data = true) :
    supplicantVerifyMic c p true ptk data = true := by
  rw [supplicantVerifyMic, Bool.and_eq_true] at h
  rw [supplicantVerifyMic, Bool.true_and]
  exact h.2

theorem supplicantHandleMessage3_some {keys : GroupKeys} {response : List UInt8}
    (h : supplicantHandleMessage3 c p x memory data = (x', some (keys, response))) :
    x' = { x with replay := bytesAt 9 8 data, state := .installing } ∧
      supplicantVerifyMic c p true x.ptk data = true := by
  rw [supplicantHandleMessage3] at h
  by_cases hmic : supplicantVerifyMic c p memory.copy x.ptk data
  · rw [if_pos hmic] at h
    refine ⟨?_, supplicantVerifyMic_copy hmic⟩
    dsimp only at h
    split_ifs at h
    · cases h
    · split at h
      · cases h
        rfl
      · cases h
    · cases h
    · split at h
      · cases h
        rfl
      · cases h
  · rw [if_neg hmic] at h
    cases h

theorem supplicantHandleMessage3_none (h : supplicantHandleMessage3 c p x memory data = (x', none)) : x' = x := by
  rw [supplicantHandleMessage3] at h
  dsimp only at h
  split_ifs at h
  · cases h
    rfl
  · split at h
    · cases h
    · cases h
      rfl
  · cases h
    rfl
  · split at h
    · cases h
    · cases h
      rfl
  · cases h
    rfl

theorem supplicantMessage_message1 (h : supplicantMessage c p x memory data = .message1) :
    x.state = .associating ∨ x.state = .waitM1 ∨ x.state = .waitM3 ∧ memLt (bytesAt 9 8 data).1 x.replay.1 = false := by
  rw [supplicantMessage] at h
  split_ifs at h with h1
  exact h1.2

theorem supplicantMessage_message3 (h : supplicantMessage c p x memory data = .message3) :
    x.state = .waitM3 ∧ memLt (bytesAt 9 8 data).1 x.replay.1 = false := by
  rw [supplicantMessage] at h
  split_ifs at h with h1 h3
  exact h3.2

theorem supplicantMessage_group (h : supplicantMessage c p x memory data = .group) :
    (x.state = .waitG1 ∨ x.state = .connected) ∧ memLt x.replay.1 (bytesAt 9 8 data).1 = true := by
  rw [supplicantMessage] at h
  split_ifs at h with h1 h3 h3' hg
  exact hg.2.2

theorem supplicantHandleMessage1_eq (c : SupplicantCrypto) (p : WpaProfile) (x : Supplicant) (memory : SupplicantMemory)
    (data : List UInt8) : ∃ response, supplicantHandleMessage1 c p x memory data =
    ({ x.challenged c p data with state := if Option.isSome response then .waitM3 else x.state }, response) := by
  rw [supplicantHandleMessage1]
  dsimp only
  split
  · rename_i response _
    exact ⟨some response, rfl⟩
  · exact ⟨none, rfl⟩

theorem supplicantEapol_received (hp : x.profile = some p)
    (h : supplicantEapol c x memory source destination data = (x', w)) : x' = x ∧ w = none ∨ x.state ≠ .idle ∧
      SupplicantReceived c p { x with bssid := if x.bssid = zeroBytes 6 then source else x.bssid } data x' w := by
  rw [supplicantEapol] at h
  set y := { x with bssid := if x.bssid = zeroBytes 6 then source else x.bssid } with hy
  rw [hp] at h
  dsimp only at h
  by_cases hreject : x.state = .idle ∨ supplicantAccepts p x source destination data = false
  · rw [if_pos hreject] at h
    cases h
    exact .inl ⟨rfl, rfl⟩
  · rw [if_neg hreject] at h
    right
    refine ⟨fun hidle => hreject (.inl hidle), ?_⟩
    cases hk : supplicantMessage c p y memory data with
    | message1 =>
      obtain ⟨response, hr⟩ := supplicantHandleMessage1_eq c p y memory data
      simp only [hk, hr] at h
      rw [Prod.mk.injEq] at h
      obtain ⟨rfl, rfl⟩ := h
      apply SupplicantReceived.message1 (supplicantMessage_message1 hk)
      · rfl
      · exact ⟨rfl, rfl, rfl⟩
      · rfl
    | message3 =>
      obtain ⟨hstate, hreplay⟩ := supplicantMessage_message3 hk
      cases hr : supplicantHandleMessage3 c p y memory data with
      | mk y' r =>
        cases r with
        | none =>
          simp only [hk, hr] at h
          rw [Prod.mk.injEq] at h
          obtain ⟨rfl, rfl⟩ := h
          rw [supplicantHandleMessage3_none hr]
          exact .refused (.inl ⟨rfl, rfl⟩) ⟨rfl, rfl, rfl⟩
        | some kr =>
          obtain ⟨hy', hmic⟩ := supplicantHandleMessage3_some hr
          simp only [hk, hr] at h
          rw [Prod.mk.injEq] at h
          obtain ⟨rfl, rfl⟩ := h
          rw [hy']
          exact .message3 hstate hreplay rfl rfl hmic rfl rfl rfl rfl rfl rfl
    | message3Again =>
      simp only [hk] at h
      rw [Prod.mk.injEq] at h
      obtain ⟨rfl, rfl⟩ := h
      exact .refused (.inr rfl) ⟨rfl, rfl, rfl⟩
    | group =>
      obtain ⟨hstate, hreplay⟩ := supplicantMessage_group hk
      cases hr : supplicantHandleGroupMessage1 c p y memory data with
      | none | some kr =>
        simp only [hk, hr] at h
        rw [Prod.mk.injEq] at h
        obtain ⟨rfl, rfl⟩ := h
        exact .group hstate hreplay rfl rfl rfl of_decide_eq_true rfl
    | other =>
      simp only [hk] at h
      rw [Prod.mk.injEq] at h
      obtain ⟨rfl, rfl⟩ := h
      exact .ignored

end Received

end RtSmart
