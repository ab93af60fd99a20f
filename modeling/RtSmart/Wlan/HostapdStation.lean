import RtSmart.Wlan.Eapol

/-! One station of the embedded authenticator: its key derivation and its frames (`wlan_offload_hostapd.c`). -/

namespace RtSmart

open Lib

inductive StationState
  | free
  | authenticated
  | waitM2
  | waitM4
  | authorized
deriving DecidableEq

/-- `struct wlan_offload_hostapd_station` without its retry timer. -/
structure Station where
  state : StationState
  mac : Bytes 6
  aid : ℕ
  firmwareAdded : Bool
  reported : Bool
  anonce : Bytes 32
  snonce : Bytes 32
  ptk : Bytes 48
  replay : Bytes 8
  lastEapol : List UInt8
deriving DecidableEq

/-- What `rt_wlan_offload_hostapd_prepare` sets up. -/
structure HostapdConfig where
  address : Bytes 6
  pmk : Bytes 32
  gtk : Bytes 16
  maxStations : ℕ
  maxStations_le : maxStations ≤ 10

/-- `g_hostapd_rsn_ie` -/
def hostapdRsnIe : List UInt8 :=
  [0x30, 0x14, 0x01, 0x00, 0x00, 0x0f, 0xac, 0x04, 0x01, 0x00, 0x00, 0x0f, 0xac, 0x04, 0x01, 0x00, 0x00, 0x0f, 0xac,
    0x02, 0x00, 0x00]

/-- `"Pairwise key expansion"` -/
def pairwiseLabel : List UInt8 :=
  [0x50, 0x61, 0x69, 0x72, 0x77, 0x69, 0x73, 0x65, 0x20, 0x6b, 0x65, 0x79, 0x20, 0x65, 0x78, 0x70, 0x61, 0x6e, 0x73,
    0x69, 0x6f, 0x6e]

/-- The smaller of two strings before the other one; the first argument goes second when they are equal. -/
def ordered (a b : List UInt8) : List UInt8 := if memLt a b then a ++ b else b ++ a

namespace Station

/-- `hostapd_station_clear` -/
def cleared : Station :=
  ⟨.free, zeroBytes 6, 0, false, false, zeroBytes 32, zeroBytes 32, zeroBytes 48, zeroBytes 8, []⟩

end Station

def hostapdPtk (c : WlanCrypto) (cfg : HostapdConfig) (mac : Bytes 6) (anonce snonce : Bytes 32) : Bytes 48 :=
  wpaPrf c cfg.pmk.1 pairwiseLabel (ordered cfg.address.1 mac.1 ++ ordered anonce.1 snonce.1) (zeroBytes 48)

def hostapdDerivePtk (c : WlanCrypto) (cfg : HostapdConfig) (x : Station) : Station :=
  { x with ptk := hostapdPtk c cfg x.mac x.anonce x.snonce }

def frameMic (c : WlanCrypto) {n : ℕ} (ptk : Bytes n) (data : List UInt8) : Bytes 16 :=
  ofBytes 16 (c.hmacSha1 (ptk.1.take 16) data).1

def hostapdVerifyMic (c : WlanCrypto) (ptk : Bytes 48) (data : List UInt8) : Bool :=
  if 192 < data.length ∨ data.length < 99 then false else bytesAt 81 16 data = frameMic c ptk (clearMic data)

/-- The loop over `count` suites from `position` on: whether one of them is `suite`, and the place after
them; `none` when they do not fit. -/
def suiteLoop (body suite : List UInt8) : ℕ → ℕ → Option (Bool × ℕ)
  | 0, position => some (false, position)
  | count + 1, position =>
    if position + 4 ≤ body.length then
      (suiteLoop body suite count (position + 4)).map fun r => ((bytesAt position 4 body).1 = suite || r.1, r.2)
    else none

def rsnBodyValid (body : List UInt8) : Bool :=
  if body.length < 18 ∨ getLe16 body 0 ≠ 1 ∨ (bytesAt 2 4 body).1 ≠ [0x00, 0x0f, 0xac, 0x04] then false
  else
    match suiteLoop body [0x00, 0x0f, 0xac, 0x04] (getLe16 body 6) 8 with
    | none => false
    | some (pairwiseCcmp, position) =>
      if body.length < position + 2 then false
      else
        match suiteLoop body [0x00, 0x0f, 0xac, 0x02] (getLe16 body position) (position + 2) with
        | none => false
        | some (psk, _) => pairwiseCcmp && psk

/-- The loop of `hostapd_rsn_ie_valid` over the elements that are left. -/
def rsnIeLoop : ℕ → List UInt8 → Bool
  | fuel + 1, id :: length :: rest =>
    if rest.length < length.toNat then false
    else if id ≠ 48 then rsnIeLoop fuel (rest.drop length.toNat)
    else rsnBodyValid (rest.take length.toNat)
  | _, _ => false

def rsnIeValid (ies : List UInt8) : Bool := rsnIeLoop ies.length ies

def hostapdMakeKeyFrame (c : WlanCrypto) (x : Station) (keyInfo : BitVec 16) (nonce : Bytes 32) (keyData : List UInt8) :
    Option (List UInt8) :=
  if 192 < 99 + keyData.length then none
  else
    let frame := keyFrame 2 2 keyInfo 16 x.replay nonce (zeroBytes 16) keyData
    some (if keyInfo &&& wpaKeyInfoMic ≠ 0 then
      keyFrame 2 2 keyInfo 16 x.replay nonce (frameMic c x.ptk frame) keyData
    else frame)

/-- `replay_counter` after `hostapd_next_replay_locked`. -/
def nextReplay (counter : BitVec 64) : BitVec 64 := if counter + 1 = 0 then counter + 1 + 1 else counter + 1

def replayBytes (counter : BitVec 64) : Bytes 8 :=
  ⟨(List.range 8).map fun i => UInt8.ofNat (counter.toNat / 256 ^ (7 - i)), by simp⟩

abbrev message1Info : BitVec 16 := wpaKeyInfoVersion2 ||| wpaKeyInfoPairwise ||| wpaKeyInfoAck

abbrev message3Info : BitVec 16 :=
  wpaKeyInfoVersion2 ||| wpaKeyInfoPairwise ||| wpaKeyInfoInstall ||| wpaKeyInfoAck ||| wpaKeyInfoMic |||
    wpaKeyInfoSecure ||| wpaKeyInfoEncrypted

/-- `hostapd_build_message1_locked`; `random` is what `hostapd_random` leaves in `anonce` and whether it
succeeds. The result says whether the message was built. -/
def hostapdBuildMessage1 (c : WlanCrypto) (counter : BitVec 64) (x : Station) (random : Bytes 32 × Bool) :
    BitVec 64 × Station × Bool :=
  let counter := nextReplay counter
  let x := { x with replay := replayBytes counter, anonce := random.1 }
  if random.2 then
    match hostapdMakeKeyFrame c x message1Info x.anonce [] with
    | some frame => (counter, { x with lastEapol := frame, state := .waitM2 }, true)
    | none => (counter, x, false)
  else (counter, x, false)

def message3Plain (cfg : HostapdConfig) : List UInt8 :=
  hostapdRsnIe ++ ([0xdd, 22, 0x00, 0x0f, 0xac, 0x01, 0x01, 0x00] ++ (cfg.gtk.1 ++ [0xdd, 0x00]))

/-- `hostapd_build_message3_locked` -/
def hostapdBuildMessage3 (c : WlanCrypto) (cfg : HostapdConfig) (counter : BitVec 64) (x : Station) :
    BitVec 64 × Station × Bool :=
  match aesWrap c (bytesAt 16 16 x.ptk.1) (message3Plain cfg) with
  | none => (counter, x, false)
  | some wrapped =>
    let counter := nextReplay counter
    let x := { x with replay := replayBytes counter }
    match hostapdMakeKeyFrame c x message3Info x.anonce wrapped with
    | none => (counter, x, false)
    | some frame => (counter, { x with lastEapol := frame, state := .waitM4 }, true)

/-- The frame as far as its body length says, when the first checks of
`rt_wlan_offload_hostapd_handle_eapol` let it pass. -/
def hostapdFrame (data : List UInt8) : Option (List UInt8) :=
  if data.length < 99 ∨ byteAt data 1 ≠ 3 ∨ byteAt data 4 ≠ 2 then none
  else
    let bodyLength := (getBe16 data 2).toNat
    if data.length < bodyLength + 4 ∨ bodyLength < 95 ∨ bodyLength - 95 < (getBe16 data 97).toNat then none
    else if getBe16 data 5 &&& wpaKeyInfoVersionMask ≠ wpaKeyInfoVersion2 ∨
        getBe16 data 5 &&& (wpaKeyInfoAck ||| wpaKeyInfoError ||| wpaKeyInfoRequest) ≠ 0 then none
    else some (data.take (bodyLength + 4))

abbrev messageMask : BitVec 16 := wpaKeyInfoPairwise ||| wpaKeyInfoMic ||| wpaKeyInfoSecure

def isMessage2 (data : List UInt8) : Bool := getBe16 data 5 &&& messageMask = wpaKeyInfoPairwise ||| wpaKeyInfoMic

def isMessage4 (data : List UInt8) : Bool :=
  getBe16 data 5 &&& messageMask = wpaKeyInfoPairwise ||| wpaKeyInfoMic ||| wpaKeyInfoSecure

inductive EapolVerdict
  | message2
  | badMic
  | message4
  | dropped
deriving DecidableEq

def hostapdEapol (c : WlanCrypto) (cfg : HostapdConfig) (x : Station) (data : List UInt8) : Station × EapolVerdict :=
  if isMessage2 data ∧ x.state = .waitM2 ∧ bytesAt 9 8 data = x.replay ∧ getBe16 data 97 ≠ 0 ∧
      rsnIeValid ((data.drop 99).take (getBe16 data 97).toNat) then
    let x := hostapdDerivePtk c cfg { x with snonce := bytesAt 17 32 data }
    if hostapdVerifyMic c x.ptk data then (x, .message2) else (x, .badMic)
  else if isMessage4 data ∧ x.state = .waitM4 ∧ bytesAt 9 8 data = x.replay ∧ hostapdVerifyMic c x.ptk data then
    (x, .message4)
  else (x, .dropped)


/-! What one call leaves as it was. -/

section Station

variable {c : WlanCrypto} {cfg : HostapdConfig} {counter counter' : BitVec 64} {x x' : Station} {built : Bool}
  {v : EapolVerdict} {data : List UInt8}

theorem hostapdBuildMessage1_frame {random : Bytes 32 × Bool}
    (h : hostapdBuildMessage1 c counter x random = (counter', x', built)) :
    x'.mac = x.mac ∧ x'.aid = x.aid ∧ x'.ptk = x.ptk ∧ x'.state = if built then .waitM2 else x.state := by
  rw [hostapdBuildMessage1] at h
  cases hr : random.2 with
  | false =>
    simp only [hr, if_neg Bool.false_ne_true] at h
    cases h
    exact ⟨rfl, rfl, rfl, rfl⟩
  | true =>
    simp only [hr, if_true] at h
    cases hf : hostapdMakeKeyFrame c { x with replay := replayBytes (nextReplay counter), anonce := random.1 }
        message1Info random.1 [] <;>
    · rw [hf] at h
      cases h
      exact ⟨rfl, rfl, rfl, rfl⟩

theorem hostapdBuildMessage3_frame (h : hostapdBuildMessage3 c cfg counter x = (counter', x', built)) :
    x'.mac = x.mac ∧ x'.aid = x.aid ∧ x'.ptk = x.ptk ∧ x'.state = if built then .waitM4 else x.state := by
  rw [hostapdBuildMessage3] at h
  cases hw : aesWrap c (bytesAt 16 16 x.ptk.1) (message3Plain cfg) with
  | none =>
    rw [hw] at h
    cases h
    exact ⟨rfl, rfl, rfl, rfl⟩
  | some wrapped =>
    simp only [hw] at h
    cases hf : hostapdMakeKeyFrame c { x with replay := replayBytes (nextReplay counter) } message3Info x.anonce
        wrapped <;>
    · rw [hf] at h
      cases h
      exact ⟨rfl, rfl, rfl, rfl⟩

theorem hostapdEapol_cases (h : hostapdEapol c cfg x data = (x', v)) :
    (x.state = .waitM2 ∧ ∃ snonce, x' = { x with snonce := snonce, ptk := hostapdPtk c cfg x.mac x.anonce snonce } ∧
      (v = .message2 ∧ hostapdVerifyMic c x'.ptk data = true ∨ v = .badMic)) ∨
    (x.state = .waitM4 ∧ x' = x ∧ v = .message4 ∧ hostapdVerifyMic c x.ptk data = true) ∨
    (x' = x ∧ v = .dropped) := by
  rw [hostapdEapol] at h
  by_cases h2 : isMessage2 data ∧ x.state = .waitM2 ∧ bytesAt 9 8 data = x.replay ∧ getBe16 data 97 ≠ 0 ∧
      rsnIeValid ((data.drop 99).take (getBe16 data 97).toNat)
  · rw [if_pos h2] at h
    left
    refine ⟨h2.2.1, bytesAt 17 32 data, ?_⟩
    by_cases hmic : hostapdVerifyMic c (hostapdDerivePtk c cfg { x with snonce := bytesAt 17 32 data }).ptk data
    · rw [if_pos hmic] at h
      cases h
      exact ⟨rfl, .inl ⟨rfl, hmic⟩⟩
    · rw [if_neg hmic] at h
      cases h
      exact ⟨rfl, .inr rfl⟩
  · rw [if_neg h2] at h
    right
    by_cases h4 : isMessage4 data ∧ x.state = .waitM4 ∧ bytesAt 9 8 data = x.replay ∧ hostapdVerifyMic c x.ptk data
    · rw [if_pos h4] at h
      cases h
      exact .inl ⟨h4.2.1, rfl, rfl, h4.2.2.2⟩
    · rw [if_neg h4] at h
      cases h
      exact .inr ⟨rfl, rfl⟩

end Station


/-! Frames that the other side has signed are taken. -/

/-- A frame whose MIC is right under `ptk`. -/
def signedFrame (c : WlanCrypto) {n : ℕ} (ptk : Bytes n) (version : UInt8) (keyInfo keyLength : BitVec 16)
    (replay : Bytes 8) (nonce : Bytes 32) (keyData : List UInt8) : List UInt8 :=
  keyFrame version 2 keyInfo keyLength replay nonce
    (frameMic c ptk (keyFrame version 2 keyInfo keyLength replay nonce (zeroBytes 16) keyData)) keyData

abbrev message2Info : BitVec 16 := wpaKeyInfoVersion2 ||| wpaKeyInfoPairwise ||| wpaKeyInfoMic

abbrev message4Info : BitVec 16 := wpaKeyInfoVersion2 ||| wpaKeyInfoPairwise ||| wpaKeyInfoMic ||| wpaKeyInfoSecure

section Signed

variable {c : WlanCrypto} {cfg : HostapdConfig} {x : Station} {version : UInt8} {keyInfo keyLength : BitVec 16}
  {replay : Bytes 8} {nonce : Bytes 32} {keyData : List UInt8}

theorem hostapdFrame_keyFrame {mic : Bytes 16} (hlen : keyData.length ≤ 93)
    (hversion : keyInfo &&& wpaKeyInfoVersionMask = wpaKeyInfoVersion2)
    (hinfo : keyInfo &&& (wpaKeyInfoAck ||| wpaKeyInfoError ||| wpaKeyInfoRequest) = 0) :
    hostapdFrame (keyFrame version 2 keyInfo keyLength replay nonce mic keyData) =
      some (keyFrame version 2 keyInfo keyLength replay nonce mic keyData) := by
  have hbody : (BitVec.ofNat 16 (95 + keyData.length)).toNat = 95 + keyData.length :=
    (BitVec.toNat_ofNat _ _).trans (Nat.mod_eq_of_lt (by omega))
  have hdata : (BitVec.ofNat 16 keyData.length).toNat = keyData.length :=
    (BitVec.toNat_ofNat _ _).trans (Nat.mod_eq_of_lt (by omega))
  have htake : (keyFrame version 2 keyInfo keyLength replay nonce mic keyData).take (95 + keyData.length + 4) =
      keyFrame version 2 keyInfo keyLength replay nonce mic keyData := by
    apply List.take_of_length_le
    rw [keyFrame_length]
    omega
  rw [hostapdFrame, keyFrame_type, keyFrame_descriptor, keyFrame_bodyLength, keyFrame_dataLength, keyFrame_keyInfo,
    keyFrame_length, hversion, hinfo, hbody, hdata, if_neg (by simp), if_neg (by omega), if_neg (by simp), htake]

theorem hostapdFrame_signed {ptk : Bytes 48} (hlen : keyData.length ≤ 93)
    (hversion : keyInfo &&& wpaKeyInfoVersionMask = wpaKeyInfoVersion2)
    (hinfo : keyInfo &&& (wpaKeyInfoAck ||| wpaKeyInfoError ||| wpaKeyInfoRequest) = 0) :
    hostapdFrame (signedFrame c ptk version keyInfo keyLength replay nonce keyData) =
      some (signedFrame c ptk version keyInfo keyLength replay nonce keyData) :=
  hostapdFrame_keyFrame hlen hversion hinfo

theorem hostapdVerifyMic_signed {ptk : Bytes 48} (hlen : keyData.length ≤ 93) :
    hostapdVerifyMic c ptk (signedFrame c ptk version keyInfo keyLength replay nonce keyData) = true := by
  have hmic : bytesAt 81 16 (signedFrame c ptk version keyInfo keyLength replay nonce keyData) =
      frameMic c ptk (clearMic (signedFrame c ptk version keyInfo keyLength replay nonce keyData)) := by
    rw [signedFrame, keyFrame_mic, clearMic_keyFrame]
  rw [hostapdVerifyMic, ← hmic, signedFrame, keyFrame_length, if_neg (by omega)]
  simp

theorem rsnIeValid_hostapdRsnIe : rsnIeValid hostapdRsnIe = true := by decide

theorem hostapdEapol_message2 (hstate : x.state = .waitM2) :
    hostapdEapol c cfg x (signedFrame c (hostapdPtk c cfg x.mac x.anonce nonce) version message2Info keyLength x.replay
      nonce hostapdRsnIe) =
      ({ x with snonce := nonce, ptk := hostapdPtk c cfg x.mac x.anonce nonce }, .message2) := by
  set ptk := hostapdPtk c cfg x.mac x.anonce nonce with hptk
  set data := signedFrame c ptk version message2Info keyLength x.replay nonce hostapdRsnIe with hdata
  have htype : isMessage2 data = true := by
    rw [isMessage2, hdata, signedFrame, keyFrame_keyInfo]
    rfl
  have hreplay : bytesAt 9 8 data = x.replay := keyFrame_replay
  have hlength : getBe16 data 97 = 22 := keyFrame_dataLength
  have hrsn : rsnIeValid ((data.drop 99).take (getBe16 data 97).toNat) = true := by
    rw [hlength, hdata, signedFrame, keyFrame_data]
    exact rsnIeValid_hostapdRsnIe
  have hnonce : bytesAt 17 32 data = nonce := keyFrame_nonce
  have hmic : hostapdVerifyMic c ptk data = true := hostapdVerifyMic_signed (by decide)
  rw [hostapdEapol, if_pos ⟨htype, hstate, hreplay, by rw [hlength]; decide, hrsn⟩, hnonce]
  exact if_pos hmic

theorem hostapdEapol_message4 (hstate : x.state = .waitM4) :
    hostapdEapol c cfg x (signedFrame c x.ptk version message4Info keyLength x.replay nonce []) = (x, .message4) := by
  set data := signedFrame c x.ptk version message4Info keyLength x.replay nonce [] with hdata
  have htype : isMessage4 data = true := by
    rw [isMessage4, hdata, signedFrame, keyFrame_keyInfo]
    rfl
  have hreplay : bytesAt 9 8 data = x.replay := keyFrame_replay
  have hmic : hostapdVerifyMic c x.ptk data = true := hostapdVerifyMic_signed (Nat.zero_le _)
  have hnot : ¬(isMessage2 data ∧ x.state = .waitM2 ∧ bytesAt 9 8 data = x.replay ∧ getBe16 data 97 ≠ 0 ∧
      rsnIeValid ((data.drop 99).take (getBe16 data 97).toNat)) := by
    rw [hstate]
    rintro ⟨_, hwrong, _⟩
    cases hwrong
  rw [hostapdEapol, if_neg hnot, if_pos ⟨htype, hstate, hreplay, hmic⟩]

theorem hostapdBuildMessage1_built {counter : BitVec 64} {anonce : Bytes 32} :
    hostapdBuildMessage1 c counter x (anonce, true) = (nextReplay counter,
      { x with
        replay := replayBytes (nextReplay counter), anonce := anonce, state := .waitM2
        lastEapol := keyFrame 2 2 message1Info 16 (replayBytes (nextReplay counter)) anonce (zeroBytes 16) [] }, true) :=
  rfl

theorem message3Plain_length : (message3Plain cfg).length = 48 := by
  rw [message3Plain, List.length_append, List.length_append, List.length_append, cfg.gtk.2]
  rfl

theorem hostapdBuildMessage3_built (c : WlanCrypto) (cfg : HostapdConfig) (x : Station) (counter : BitVec 64) :
    ∃ wrapped, aesWrap c (bytesAt 16 16 x.ptk.1) (message3Plain cfg) = some wrapped ∧ wrapped.length = 56 ∧
      hostapdBuildMessage3 c cfg counter x = (nextReplay counter,
        { x with
          replay := replayBytes (nextReplay counter), state := .waitM4
          lastEapol := signedFrame c x.ptk 2 message3Info 16 (replayBytes (nextReplay counter)) x.anonce wrapped },
        true) := by
  have hlen : (message3Plain cfg).length = 48 := message3Plain_length
  have hsome : ∃ wrapped, aesWrap c (bytesAt 16 16 x.ptk.1) (message3Plain cfg) = some wrapped ∧
      wrapped.length = (message3Plain cfg).length + 8 := aesWrap_isSome c _ (by omega) (by omega)
  obtain ⟨wrapped, hwrap, hw⟩ := hsome
  rw [hlen] at hw
  refine ⟨wrapped, hwrap, hw, ?_⟩
  have hinfo : message3Info &&& wpaKeyInfoMic ≠ 0 := by decide
  simp only [hostapdBuildMessage3, hwrap, hostapdMakeKeyFrame, if_neg (show ¬192 < 99 + wrapped.length by omega),
    if_pos hinfo, signedFrame]

end Signed

end RtSmart
