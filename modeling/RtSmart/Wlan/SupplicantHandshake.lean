import RtSmart.Wlan.HostapdInv
import RtSmart.Wlan.Supplicant

/-! One WPA2 handshake on the supplicant's side: it takes the two messages of an authenticator that knows its key. -/

namespace RtSmart

open Lib

section Frames

variable {c : SupplicantCrypto} {m n : ℕ} {a : Bytes m} {b : Bytes n} {x : Supplicant} {keyInfo keyLength : BitVec 16}
  {replay : Bytes 8} {nonce : Bytes 32} {mic : Bytes 16} {keyData : List UInt8}

theorem frameMic_congr {c : WlanCrypto} (h : a.1.take 16 = b.1.take 16) (data : List UInt8) :
    frameMic c a data = frameMic c b data := by
  rw [frameMic, frameMic, h]

theorem signedFrame_congr {c : WlanCrypto} {version : UInt8} (h : a.1.take 16 = b.1.take 16) :
    signedFrame c a version keyInfo keyLength replay nonce keyData =
      signedFrame c b version keyInfo keyLength replay nonce keyData := by
  rw [signedFrame, signedFrame, frameMic_congr h]

theorem supplicantMic_wpa2 {ptk : Bytes 64} (hversion : keyInfo &&& wpaKeyInfoVersionMask = wpaKeyInfoVersion2)
    (data : List UInt8) :
    supplicantMic c wpa2CcmpProfile ptk keyInfo data = some (frameMic c.toWlanCrypto ptk data) := by
  rw [supplicantMic, if_neg (by decide), hversion, if_neg (by decide)]

theorem supplicantVerifyMic_signed {ptk : Bytes 64} {version : UInt8}
    (hversion : keyInfo &&& wpaKeyInfoVersionMask = wpaKeyInfoVersion2) :
    supplicantVerifyMic c wpa2CcmpProfile true ptk
      (signedFrame c.toWlanCrypto ptk version keyInfo keyLength replay nonce keyData) = true := by
  rw [supplicantVerifyMic, signedFrame, keyFrame_keyInfo, supplicantMic_wpa2 hversion, keyFrame_mic, clearMic_keyFrame]
  simp

theorem supplicantMakeKeyFrame_signed (hdescriptor : x.descriptorType = 2) (hmic : keyInfo &&& wpaKeyInfoMic ≠ 0)
    (hversion : keyInfo &&& wpaKeyInfoVersionMask = wpaKeyInfoVersion2) :
    supplicantMakeKeyFrame c wpa2CcmpProfile x true keyInfo keyLength replay nonce keyData =
      some (signedFrame c.toWlanCrypto x.ptk x.eapolVersion keyInfo keyLength replay nonce keyData) := by
  rw [supplicantMakeKeyFrame, if_pos rfl, if_pos hmic, supplicantMic_wpa2 hversion, hdescriptor]
  rfl

theorem supplicantFrame_keyFrame {version : UInt8} (hlen : keyData.length ≤ 93)
    (hversion : keyInfo &&& wpaKeyInfoVersionMask = wpaKeyInfoVersion2)
    (hinfo : keyInfo &&& (wpaKeyInfoError ||| wpaKeyInfoRequest) = 0) :
    supplicantFrame (keyFrame version 2 keyInfo keyLength replay nonce mic keyData) =
      some (keyFrame version 2 keyInfo keyLength replay nonce mic keyData) := by
  have hbody : (BitVec.ofNat 16 (95 + keyData.length)).toNat = 95 + keyData.length :=
    (BitVec.toNat_ofNat _ _).trans (Nat.mod_eq_of_lt (by omega))
  have hdata : (BitVec.ofNat 16 keyData.length).toNat = keyData.length :=
    (BitVec.toNat_ofNat _ _).trans (Nat.mod_eq_of_lt (by omega))
  have htake : (keyFrame version 2 keyInfo keyLength replay nonce mic keyData).take (95 + keyData.length + 4) =
      keyFrame version 2 keyInfo keyLength replay nonce mic keyData := by
    apply List.take_of_length_le
    rw [keyFrame_length]
    omega
  rw [supplicantFrame, keyFrame_type, keyFrame_descriptor, keyFrame_bodyLength, keyFrame_dataLength, keyFrame_keyInfo,
    keyFrame_length, hversion, hinfo, hbody, hdata, if_neg (by simp), if_neg (by omega), if_neg (by decide), htake]

theorem supplicantAccepts_keyFrame {source : Bytes 6} (hsource : x.bssid = zeroBytes 6 ∨ x.bssid = source)
    (hversion : keyInfo &&& wpaKeyInfoVersionMask = wpaKeyInfoVersion2) :
    supplicantAccepts wpa2CcmpProfile x source x.ownAddress
      (keyFrame 2 2 keyInfo keyLength replay nonce mic keyData) = true := by
  have hbssid : (decide (x.bssid = zeroBytes 6) || decide (source = x.bssid)) = true := by
    cases hsource with
    | inl hzero => rw [decide_eq_true hzero, Bool.true_or]
    | inr heq => rw [decide_eq_true heq.symm, Bool.or_true]
  rw [supplicantAccepts, keyFrame_descriptor, keyFrame_keyInfo, hversion, hbssid]
  simp [wpa2CcmpProfile, supplicantCipherDescriptorVersion]

end Frames

section Messages

variable {c : SupplicantCrypto} {cfg : HostapdConfig} {x : Supplicant} {source : Bytes 6} {replay : Bytes 8}
  {anonce : Bytes 32} {wrapped : List UInt8}

abbrev HostapdConfig.groupKeys (cfg : HostapdConfig) : GroupKeys := ⟨cfg.gtk.1, 1, [], 0, zeroBytes 6⟩

theorem extractLoop_message3Plain :
    extractLoop 48 (message3Plain cfg) .empty .empty = (.ok, cfg.groupKeys) := by
  have hkey : (cfg.gtk.1 ++ [0xdd, 0x00]).take 16 = cfg.gtk.1 := List.take_left' cfg.gtk.2
  have hrest : (cfg.gtk.1 ++ [(0xdd : UInt8), 0x00]).drop 16 = [0xdd, 0x00] := List.drop_left' cfg.gtk.2
  have hlen : cfg.gtk.1.length = 16 := cfg.gtk.2
  rw [message3Plain, hostapdRsnIe]
  simp [extractLoop, byteAt, GroupKeys.empty, hkey, hrest, hlen]
  rfl

def Supplicant.derived (c : SupplicantCrypto) (x : Supplicant) (source : Bytes 6) (replay : Bytes 8)
    (anonce : Bytes 32) : Supplicant :=
  { x with
    bssid := source, replay := replay, anonce := anonce, eapolVersion := 2, descriptorType := 2, keyLength := 16
    ptk := supplicantPtk c wpa2CcmpProfile x.pmk source x.ownAddress anonce x.snonce x.ptk, state := .waitM3 }

abbrev message1 (replay : Bytes 8) (anonce : Bytes 32) : List UInt8 :=
  keyFrame 2 2 message1Info 16 replay anonce (zeroBytes 16) []

abbrev message2 (c : WlanCrypto) {n : ℕ} (ptk : Bytes n) (replay : Bytes 8) (snonce : Bytes 32) : List UInt8 :=
  signedFrame c ptk 2 message2Info 16 replay snonce hostapdRsnIe

abbrev message3 (c : WlanCrypto) {n : ℕ} (ptk : Bytes n) (replay : Bytes 8) (anonce : Bytes 32) (wrapped : List UInt8) :
    List UInt8 :=
  signedFrame c ptk 2 message3Info 16 replay anonce wrapped

abbrev message4 (c : WlanCrypto) {n : ℕ} (ptk : Bytes n) (replay : Bytes 8) : List UInt8 :=
  signedFrame c ptk 2 message4Info 16 replay (zeroBytes 32) []

abbrev SupplicantMemory.full : SupplicantMemory := ⟨true, true, true⟩

theorem supplicantEapol_message1 (hprofile : x.profile = some wpa2CcmpProfile)
    (hstate : x.state = .associating ∨ x.state = .waitM1) (hsource : x.bssid = zeroBytes 6 ∨ x.bssid = source) :
    supplicantEapol c x .full source x.ownAddress (message1 replay anonce) =
      (x.derived c source replay anonce,
        some { SupplicantWork.begin wpa2CcmpProfile .message1 source (message1 replay anonce) with
          ok := true
          response := some (message2 c.toWlanCrypto (x.derived c source replay anonce).ptk replay x.snonce) }) := by
  have hidle : x.state ≠ .idle := by
    intro hidle
    rw [hidle] at hstate
    cases hstate with
    | inl h => cases h
    | inr h => cases h
  have hbssid : (if x.bssid = zeroBytes 6 then source else x.bssid) = source := by
    split_ifs with hzero
    · rfl
    · exact hsource.resolve_left hzero
  have haccepts : supplicantAccepts wpa2CcmpProfile x source x.ownAddress (message1 replay anonce) = true :=
    supplicantAccepts_keyFrame hsource (by decide)
  have hkind : supplicantMessage c wpa2CcmpProfile { x with bssid := source } .full (message1 replay anonce) =
      .message1 := by
    apply if_pos
    refine ⟨?_, hstate.imp_right .inl⟩
    rw [keyFrame_keyInfo]
    decide
  have hhandle : supplicantHandleMessage1 c wpa2CcmpProfile { x with bssid := source } .full (message1 replay anonce) =
      (x.derived c source replay anonce,
        some (message2 c.toWlanCrypto (x.derived c source replay anonce).ptk replay x.snonce)) := by
    rw [supplicantHandleMessage1, keyFrame_replay, keyFrame_nonce, keyFrame_version, keyFrame_descriptor,
      keyFrame_keyInfo, keyFrame_keyLength]
    dsimp only
    rw [supplicantMakeKeyFrame_signed rfl (by decide) (by decide)]
    rfl
  have hy : { x with bssid := if x.bssid = zeroBytes 6 then source else x.bssid } = { x with bssid := source } := by
    rw [hbssid]
  rw [supplicantEapol, hy]
  generalize ({ x with bssid := source } : Supplicant) = y at hkind hhandle
  rw [hprofile]
  dsimp only
  rw [if_neg (by rw [haccepts]; simp [hidle])]
  simp only [hkind, hhandle]
  rfl

/-- What the handler of message 3 goes on with. -/
def Supplicant.accepted (c : SupplicantCrypto) (cfg : HostapdConfig) (x : Supplicant) (replay : Bytes 8)
    (data : List UInt8) : SupplicantWork :=
  { SupplicantWork.begin wpa2CcmpProfile .message3 x.bssid data with
    keyRsc := bytesAt 65 6 data, ok := true, keys := cfg.groupKeys, installPairwise := true, bssid := x.bssid
    response := some (message4 c.toWlanCrypto x.ptk replay)
    pairwiseKey := (x.ptk.1.drop 32).take 16 }

theorem supplicantExtractGtk_message3
    (hunwrap : aesUnwrap c.toWlanCrypto (bytesAt 16 16 x.ptk.1) wrapped = some (message3Plain cfg))
    (hlen : wrapped.length = 56) :
    supplicantExtractGtk c wpa2CcmpProfile x true (message3 c.toWlanCrypto x.ptk replay anonce wrapped) =
      (.ok, cfg.groupKeys) := by
  set data := message3 c.toWlanCrypto x.ptk replay anonce wrapped with hdata
  have hdataLength : getBe16 data 97 = .ofNat 16 wrapped.length := keyFrame_dataLength
  have hinfo : getBe16 data 5 = message3Info := keyFrame_keyInfo
  have hlength : data.length = 99 + wrapped.length := keyFrame_length
  have hdrop : data.drop 99 = wrapped := keyFrame_data
  have htake : wrapped.take 56 = wrapped := List.take_of_length_le (le_of_eq hlen)
  have hplain : supplicantDecryptKeyData c wpa2CcmpProfile x true data = some (message3Plain cfg) := by
    rw [supplicantDecryptKeyData, hdataLength, hinfo, hlength, hdrop, hlen, if_neg (by decide), if_neg (by decide),
      if_pos (by decide)]
    change aesUnwrap c.toWlanCrypto (bytesAt 16 16 x.ptk.1) (wrapped.take 56) = _
    rw [htake, hunwrap]
  have hplainLength : (message3Plain cfg).length = 48 := message3Plain_length
  rw [supplicantExtractGtk, hdataLength, hinfo, hplain, hlen]
  dsimp only
  rw [if_neg (by decide), if_neg (by decide), if_neg (by decide), hplainLength]
  exact extractLoop_message3Plain

theorem supplicantEapol_message3 (hprofile : x.profile = some wpa2CcmpProfile) (hstate : x.state = .waitM3)
    (hframe : x.eapolVersion = 2 ∧ x.descriptorType = 2 ∧ x.keyLength = 16)
    (hreplay : memLt replay.1 x.replay.1 = false)
    (hunwrap : aesUnwrap c.toWlanCrypto (bytesAt 16 16 x.ptk.1) wrapped = some (message3Plain cfg))
    (hlen : wrapped.length = 56) :
    supplicantEapol c x .full x.bssid x.ownAddress (message3 c.toWlanCrypto x.ptk replay anonce wrapped) =
      ({ x with replay := replay, state := .installing },
        some (x.accepted c cfg replay (message3 c.toWlanCrypto x.ptk replay anonce wrapped))) := by
  set data := message3 c.toWlanCrypto x.ptk replay anonce wrapped with hdata
  obtain ⟨hversion, hdescriptor, hkeyLength⟩ := hframe
  have hidle : x.state ≠ .idle := by
    rw [hstate]
    intro hidle
    cases hidle
  have hy : { x with bssid := if x.bssid = zeroBytes 6 then x.bssid else x.bssid } = x := by
    rw [ite_self]
  have haccepts : supplicantAccepts wpa2CcmpProfile x x.bssid x.ownAddress data = true :=
    supplicantAccepts_keyFrame (.inr rfl) (by decide)
  have hbytes : bytesAt 9 8 data = replay := keyFrame_replay
  have hinfo : getBe16 data 5 = message3Info := keyFrame_keyInfo
  have hkind : supplicantMessage c wpa2CcmpProfile x .full data = .message3 := by
    have hmask : message3Info &&& pairwiseMask ≠ wpaKeyInfoPairwise ||| wpaKeyInfoAck := by decide
    rw [supplicantMessage, hbytes, hinfo]
    dsimp only
    rw [if_neg fun h => hmask h.1]
    exact if_pos ⟨by decide, hstate, hreplay⟩
  have hmic : supplicantVerifyMic c wpa2CcmpProfile true x.ptk data = true := supplicantVerifyMic_signed (by decide)
  have hextract : supplicantExtractGtk c wpa2CcmpProfile x true data = (.ok, cfg.groupKeys) :=
    supplicantExtractGtk_message3 hunwrap hlen
  have hresponse : supplicantMakeKeyFrame c wpa2CcmpProfile x true (message4KeyInfo wpa2CcmpProfile message3Info) 16
      replay (zeroBytes 32) [] = some (message4 c.toWlanCrypto x.ptk replay) := by
    rw [supplicantMakeKeyFrame_signed hdescriptor (by decide) (by decide), hversion]
    rfl
  have hnot : ¬(ExtractStatus.ok = .error ∨ wpa2CcmpProfile.protocol = .rsn ∧ wpa2CcmpProfile.mfpRequired = true ∧
      cfg.groupKeys.igtk = []) := by
    rintro (herror | ⟨_, hrequired, _⟩)
    · cases herror
    · cases hrequired
  have hhandle : supplicantHandleMessage3 c wpa2CcmpProfile x .full data =
      ({ x with replay := replay, state := .installing },
        some (cfg.groupKeys, message4 c.toWlanCrypto x.ptk replay)) := by
    rw [supplicantHandleMessage3, if_pos hmic, hinfo, hbytes, hkeyLength]
    dsimp only
    rw [if_pos (show wpa2CcmpProfile.protocol = .rsn from rfl), hextract, if_neg hnot, hresponse]
  rw [supplicantEapol, hy, hprofile]
  dsimp only
  rw [if_neg (by rw [haccepts]; simp [hidle])]
  have hkey : tkipOrder wpa2CcmpProfile.pairwiseCipher
      ((x.ptk.1.drop 32).take (supplicantCipherKeyLength wpa2CcmpProfile.pairwiseCipher)) = (x.ptk.1.drop 32).take 16 :=
    if_neg fun h => by cases h.1
  simp only [hkind, hhandle, hkey]
  rw [← hprofile]
  rfl

end Messages

def SupplicantWork.left (w : SupplicantWork) (a : ℕ) (stage : SupplicantStage) : List SupplicantTrace :=
  if w.calls stage then SupplicantSys.callTrace w a true stage else []

def SupplicantWork.leaves (w : SupplicantWork) (a : ℕ) : List SupplicantTrace :=
  w.left a .authorize ++ (w.left a .transmit ++ (w.left a .igtk ++ (w.left a .pairwise ++ (w.left a .defaultKey ++
    w.left a .gtk))))

namespace SupplicantSys

variable {c : SupplicantCrypto} {cfg : HostapdConfig} {s : SupplicantSys} {t a : ℕ} {w : SupplicantWork}
  {p q : SupplicantPc} {stage : SupplicantStage} {source : Bytes 6} {replay : Bytes 8} {anonce : Bytes 32}
  {wrapped : List UInt8} {x : Supplicant} {timer : Bool} {l : List SupplicantTrace}

/-- `s` while thread `t` handles a frame, with what the handler changes. -/
def handling (s : SupplicantSys) (t : ℕ) (x : Supplicant) (timer : Bool) (l : List SupplicantTrace) (p : SupplicantPc) :
    SupplicantSys :=
  { session := x, timer := timer, pc := Function.update s.pc t p, attempt := s.attempt, trace := l }

theorem handling_pc : (s.handling t x timer l p).pc t = p := Function.update_self _ _ _

theorem handling_goto : (s.handling t x timer l p).goto t q = s.handling t x timer l q := by
  rw [goto, handling, handling, Function.update_idem]

theorem handling_idle (h : s.pc t = .idle) :
    s.handling t x timer l .idle = { s with session := x, timer := timer, trace := l } := by
  rw [handling, ← h, Function.update_eq_self]

theorem step_driver (hstage : stage ≠ .commit) :
    step c (s.handling t x timer l (.work stage a w)) (.driver t true) =
      some (s.handling t x timer (w.left a stage ++ l) (.work stage.next a w)) := by
  have hsplit : step c (s.handling t x timer l (.work stage a w)) (.driver t true) =
      if w.calls stage then
        some ((s.handling t x timer (callTrace w a true stage ++ l) (.work stage a w)).goto t (.work stage.next a w))
      else some ((s.handling t x timer l (.work stage a w)).goto t (.work stage.next a w)) := by
    rw [step, handling_pc]
    cases stage with
    | commit => exact absurd rfl hstage
    | gtk => rfl
    | defaultKey => rfl
    | pairwise => rfl
    | igtk => rfl
    | transmit => rfl
    | authorize => rfl
  rw [hsplit, SupplicantWork.left, handling_goto, handling_goto]
  split_ifs
  · rfl
  · rfl

abbrev driverCalls (t : ℕ) : List SupplicantEvent := List.replicate 6 (.driver t true)

theorem run_driver : run (step c) (s.handling t x timer l (.work .gtk a w)) (driverCalls t) =
    some (s.handling t x timer (w.leaves a ++ l) (.work .commit a w)) := by
  have hgtk : step c (s.handling t x timer l (.work .gtk a w)) (.driver t true) =
      some (s.handling t x timer (w.left a .gtk ++ l) (.work .defaultKey a w)) := step_driver (by decide)
  have hdefault : ∀ l, step c (s.handling t x timer l (.work .defaultKey a w)) (.driver t true) =
      some (s.handling t x timer (w.left a .defaultKey ++ l) (.work .pairwise a w)) := fun l => step_driver (by decide)
  have hpairwise : ∀ l, step c (s.handling t x timer l (.work .pairwise a w)) (.driver t true) =
      some (s.handling t x timer (w.left a .pairwise ++ l) (.work .igtk a w)) := fun l => step_driver (by decide)
  have higtk : ∀ l, step c (s.handling t x timer l (.work .igtk a w)) (.driver t true) =
      some (s.handling t x timer (w.left a .igtk ++ l) (.work .transmit a w)) := fun l => step_driver (by decide)
  have htransmit : ∀ l, step c (s.handling t x timer l (.work .transmit a w)) (.driver t true) =
      some (s.handling t x timer (w.left a .transmit ++ l) (.work .authorize a w)) := fun l => step_driver (by decide)
  have hauthorize : ∀ l, step c (s.handling t x timer l (.work .authorize a w)) (.driver t true) =
      some (s.handling t x timer (w.left a .authorize ++ l) (.work .commit a w)) := fun l => step_driver (by decide)
  change run (step c) _ [_, _, _, _, _, _] = _
  rw [run, hgtk, Option.bind_some, run, hdefault, Option.bind_some, run, hpairwise, Option.bind_some, run, higtk,
    Option.bind_some, run, htransmit, Option.bind_some, run, hauthorize, Option.bind_some, run, SupplicantWork.leaves]
  simp only [List.append_assoc]

theorem run_message1 (hpc : s.pc t = .idle) (hprofile : s.session.profile = some wpa2CcmpProfile)
    (hstate : s.session.state = .associating ∨ s.session.state = .waitM1)
    (hsource : s.session.bssid = zeroBytes 6 ∨ s.session.bssid = source) :
    run (step c) s (.frame t source s.session.ownAddress (message1 replay anonce) .full ::
      (driverCalls t ++ [.commit t true])) =
    some { s with
      session := s.session.derived c source replay anonce
      trace := .transmit s.attempt source
          (message2 c.toWlanCrypto (s.session.derived c source replay anonce).ptk replay s.session.snonce) true ::
        .message1 s.attempt anonce :: s.trace } := by
  set x := s.session.derived c source replay anonce with hx
  set w : SupplicantWork := { SupplicantWork.begin wpa2CcmpProfile .message1 source (message1 replay anonce) with
    ok := true
    response := some (message2 c.toWlanCrypto x.ptk replay s.session.snonce) }
    with hw
  have hdata : supplicantFrame (message1 replay anonce) = some (message1 replay anonce) :=
    supplicantFrame_keyFrame (Nat.zero_le _) (by decide) (by decide)
  have hfirst : step c s (.frame t source s.session.ownAddress (message1 replay anonce) .full) =
      some (s.handling t x s.timer (.message1 s.attempt anonce :: s.trace) (.work .gtk s.attempt w)) := by
    rw [step, if_pos hpc, hdata]
    dsimp only
    rw [receive, supplicantEapol_message1 hprofile hstate hsource]
    simp only [SupplicantWork.begin, Bool.not_false, Bool.and_true]
    rfl
  have hcommit : ∀ l, step c (s.handling t x s.timer l (.work .commit s.attempt w)) (.commit t true) =
      some (s.handling t x s.timer l .idle) := by
    intro l
    rw [step, handling_pc]
    exact congrArg some handling_goto
  have hleaves : w.leaves s.attempt =
      [.transmit s.attempt source (message2 c.toWlanCrypto x.ptk replay s.session.snonce) true] := rfl
  rw [run, hfirst, Option.bind_some]
  apply run_append run_driver
  rw [run, hcommit, Option.bind_some, run, hleaves, handling_idle hpc]
  rfl

section Message3

variable (hpc : s.pc t = .idle) (hprofile : s.session.profile = some wpa2CcmpProfile) (hstate : s.session.state = .waitM3)
  (hframe : s.session.eapolVersion = 2 ∧ s.session.descriptorType = 2 ∧ s.session.keyLength = 16)
  (hreplay : memLt replay.1 s.session.replay.1 = false)
  (hunwrap : aesUnwrap c.toWlanCrypto (bytesAt 16 16 s.session.ptk.1) wrapped = some (message3Plain cfg))
  (hlen : wrapped.length = 56)

include hpc hprofile hstate hframe hreplay hunwrap hlen

theorem step_message3 :
    step c s (.frame t s.session.bssid s.session.ownAddress
      (message3 c.toWlanCrypto s.session.ptk replay anonce wrapped) .full) =
    some (s.handling t { s.session with replay := replay, state := .installing } false
      (.message3 s.attempt wpa2CcmpProfile s.session.ptk (message3 c.toWlanCrypto s.session.ptk replay anonce wrapped) ::
        s.trace)
      (.work .gtk s.attempt
        (s.session.accepted c cfg replay (message3 c.toWlanCrypto s.session.ptk replay anonce wrapped)))) := by
  have hdata : supplicantFrame (message3 c.toWlanCrypto s.session.ptk replay anonce wrapped) =
      some (message3 c.toWlanCrypto s.session.ptk replay anonce wrapped) :=
    supplicantFrame_keyFrame (by omega) (by decide) (by decide)
  rw [step, if_pos hpc, hdata]
  dsimp only
  rw [receive, supplicantEapol_message3 hprofile hstate hframe hreplay hunwrap hlen]
  simp only [Supplicant.accepted, SupplicantWork.begin, hprofile, if_true, Bool.not_true, Bool.and_false]
  rfl

theorem run_message3 :
    run (step c) s (.frame t s.session.bssid s.session.ownAddress
      (message3 c.toWlanCrypto s.session.ptk replay anonce wrapped) .full :: (driverCalls t ++ [.commit t true])) =
    some (s.handling t { s.session with replay := replay, state := .connected, requestId := 0 } false
      (.authorize s.attempt s.session.bssid true ::
        .transmit s.attempt s.session.bssid (message4 c.toWlanCrypto s.session.ptk replay) true ::
        .pairwiseKey s.attempt s.session.bssid ((s.session.ptk.1.drop 32).take 16) true ::
        .groupKey s.attempt false replay 1 cfg.gtk.1 true ::
        .message3 s.attempt wpa2CcmpProfile s.session.ptk
          (message3 c.toWlanCrypto s.session.ptk replay anonce wrapped) :: s.trace)
      (.report s.attempt ⟨s.attempt, s.session.requestId, true⟩ false)) := by
  set data := message3 c.toWlanCrypto s.session.ptk replay anonce wrapped with hdata
  set w := s.session.accepted c cfg replay data with hw
  have hbytes : bytesAt 9 8 data = replay := keyFrame_replay
  have hcommit : ∀ l, step c (s.handling t { s.session with replay := replay, state := .installing } false l
      (.work .commit s.attempt w)) (.commit t true) =
      some (s.handling t { s.session with replay := replay, state := .connected, requestId := 0 } false l
        (.report s.attempt ⟨s.attempt, s.session.requestId, true⟩ false)) := by
    intro l
    have hnext : w.replay = replay := hbytes
    rw [step, handling_pc]
    dsimp only
    rw [commit, if_pos (show w.installPairwise = true from rfl), hnext]
    exact congrArg some handling_goto
  have hgtk : w.left s.attempt .gtk = [.groupKey s.attempt false replay 1 cfg.gtk.1 true] := by
    have hsome : w.keys.gtk ≠ [] := by
      intro hnil
      have hlength : cfg.gtk.1.length = 16 := cfg.gtk.2
      rw [show cfg.gtk.1 = [] from hnil] at hlength
      cases hlength
    have horder : tkipOrder w.groupCipher cfg.gtk.1 = cfg.gtk.1 := if_neg fun h => by cases h.1
    have hcalls : w.calls .gtk = true := decide_eq_true hsome
    rw [SupplicantWork.left, if_pos hcalls]
    change [SupplicantTrace.groupKey _ _ (bytesAt 9 8 data) _ (tkipOrder w.groupCipher cfg.gtk.1) _] = _
    rw [hbytes, horder]
    rfl
  have hdefault : w.left s.attempt .defaultKey = [] := by
    rw [SupplicantWork.left]
    split_ifs
    · rfl
    · rfl
  have hleaves : w.leaves s.attempt = [.authorize s.attempt s.session.bssid true,
      .transmit s.attempt s.session.bssid (message4 c.toWlanCrypto s.session.ptk replay) true,
      .pairwiseKey s.attempt s.session.bssid ((s.session.ptk.1.drop 32).take 16) true,
      .groupKey s.attempt false replay 1 cfg.gtk.1 true] := by
    rw [SupplicantWork.leaves, hgtk, hdefault]
    rfl
  rw [run, step_message3 hpc hprofile hstate hframe hreplay hunwrap hlen, Option.bind_some]
  apply run_append run_driver
  rw [run, hcommit, Option.bind_some, run, hleaves]
  rfl

end Message3

/-! A station that joins the access point of `demoHostapd`. -/

open Hostapd (demoStation demoHostapd nullCrypto)

def demoRequest : SupplicantRequest :=
  { requestId := 1, profile := wpa2CcmpProfile, bssid := demoStation 1, ownAddress := demoStation 2
    pmk := zeroBytes 32, snonce := zeroBytes 32 }

def demoAnswered (c : SupplicantCrypto) : SupplicantSys :=
  { start.prepare demoRequest with
    session := (start.prepare demoRequest).session.derived c (demoStation 1) (replayBytes 1) (zeroBytes 32)
    trace := .transmit 1 (demoStation 1) (message2 c.toWlanCrypto
        ((start.prepare demoRequest).session.derived c (demoStation 1) (replayBytes 1) (zeroBytes 32)).ptk
        (replayBytes 1) (zeroBytes 32)) true ::
      .message1 1 (zeroBytes 32) :: .key 1 (zeroBytes 32) :: [] }

def demoMessage1 : List SupplicantEvent :=
  .frame 0 (demoStation 1) (demoStation 2) (message1 (replayBytes 1) (zeroBytes 32)) .full ::
    (driverCalls 0 ++ [.commit 0 true])

def demoFrame3 (c : SupplicantCrypto) (wrapped : List UInt8) : SupplicantEvent :=
  .frame 0 (demoStation 1) (demoStation 2)
    (message3 c.toWlanCrypto (demoAnswered c).session.ptk (replayBytes 2) (zeroBytes 32) wrapped) .full

theorem run_demoMessage1 (c : SupplicantCrypto) :
    run (step c) (start.prepare demoRequest) demoMessage1 = some (demoAnswered c) :=
  run_message1 rfl rfl (.inl rfl) (.inr rfl)

theorem demo_wrapped (c : SupplicantCrypto) : ∃ wrapped : List UInt8,
    aesUnwrap c.toWlanCrypto (bytesAt 16 16 (demoAnswered c).session.ptk.1) wrapped =
      some (message3Plain demoHostapd) ∧ wrapped.length = 56 := by
  have hlen : (message3Plain demoHostapd).length = 48 := message3Plain_length
  obtain ⟨wrapped, hwrap, hlength⟩ := aesWrap_isSome c.toWlanCrypto (bytesAt 16 16 (demoAnswered c).session.ptk.1)
    (show 16 ≤ (message3Plain demoHostapd).length by omega) (by omega)
  exact ⟨wrapped, aesUnwrap_aesWrap c.toWlanCrypto _ hwrap, by omega⟩

def nullSupplicant : SupplicantCrypto :=
  { nullCrypto with
    hmacMd5 := fun _ _ => zeroBytes 16, hmacSha256 := fun _ _ => zeroBytes 32, aesCmac := fun _ _ => none
    rc4Skip := fun _ _ _ => none }

theorem demoReplay : memLt (replayBytes 2).1 (replayBytes 1).1 = false := by decide

def demoInstalling (c : SupplicantCrypto) (wrapped : List UInt8) : SupplicantSys :=
  (demoAnswered c).handling 0 { (demoAnswered c).session with replay := replayBytes 2, state := .installing } false
    (.message3 1 wpa2CcmpProfile (demoAnswered c).session.ptk
      (message3 c.toWlanCrypto (demoAnswered c).session.ptk (replayBytes 2) (zeroBytes 32) wrapped) ::
      (demoAnswered c).trace)
    (.work .gtk 1 ((demoAnswered c).session.accepted c demoHostapd (replayBytes 2)
      (message3 c.toWlanCrypto (demoAnswered c).session.ptk (replayBytes 2) (zeroBytes 32) wrapped)))

def demoConnected (c : SupplicantCrypto) (wrapped : List UInt8) : SupplicantSys :=
  (demoAnswered c).handling 0
    { (demoAnswered c).session with replay := replayBytes 2, state := .connected, requestId := 0 } false
    (.authorize 1 (demoStation 1) true ::
      .transmit 1 (demoStation 1) (message4 c.toWlanCrypto (demoAnswered c).session.ptk (replayBytes 2)) true ::
      .pairwiseKey 1 (demoStation 1) (((demoAnswered c).session.ptk.1.drop 32).take 16) true ::
      .groupKey 1 false (replayBytes 2) 1 demoHostapd.gtk.1 true :: (demoInstalling c wrapped).trace)
    (.report 1 ⟨1, 1, true⟩ false)

section Demo

variable (hunwrap : aesUnwrap c.toWlanCrypto (bytesAt 16 16 (demoAnswered c).session.ptk.1) wrapped =
  some (message3Plain demoHostapd)) (hlen : wrapped.length = 56)

include hunwrap hlen

theorem step_demoFrame3 : step c (demoAnswered c) (demoFrame3 c wrapped) = some (demoInstalling c wrapped) :=
  step_message3 rfl rfl rfl ⟨rfl, rfl, rfl⟩ demoReplay hunwrap hlen

theorem run_demoMessage3 : run (step c) (demoAnswered c) (demoFrame3 c wrapped :: (driverCalls 0 ++ [.commit 0 true])) =
    some (demoConnected c wrapped) :=
  run_message3 rfl rfl rfl ⟨rfl, rfl, rfl⟩ demoReplay hunwrap hlen

end Demo

end SupplicantSys

end RtSmart
