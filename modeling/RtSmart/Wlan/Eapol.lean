import RtSmart.Wlan.Crypto

/-! The layout of EAPOL-Key frames, as the two sides of the handshake read and write it. -/

namespace RtSmart

open Lib

abbrev wpaKeyInfoVersionMask : BitVec 16 := 0x0007
abbrev wpaKeyInfoVersion2 : BitVec 16 := 0x0002
abbrev wpaKeyInfoPairwise : BitVec 16 := 0x0008
abbrev wpaKeyInfoIndexMask : BitVec 16 := 0x0030
abbrev wpaKeyInfoInstall : BitVec 16 := 0x0040
abbrev wpaKeyInfoAck : BitVec 16 := 0x0080
abbrev wpaKeyInfoMic : BitVec 16 := 0x0100
abbrev wpaKeyInfoSecure : BitVec 16 := 0x0200
abbrev wpaKeyInfoError : BitVec 16 := 0x0400
abbrev wpaKeyInfoRequest : BitVec 16 := 0x0800
abbrev wpaKeyInfoEncrypted : BitVec 16 := 0x1000

/-- `data[i]`; the callers have checked the length. -/
def byteAt (data : List UInt8) (i : ℕ) : UInt8 := (data.drop i).headD 0

/-- `hostapd_get_be16`, `supplicant_get_be16` -/
def getBe16 (data : List UInt8) (i : ℕ) : BitVec 16 :=
  .ofNat 16 ((byteAt data i).toNat * 256 + (byteAt data (i + 1)).toNat)

/-- `hostapd_get_le16`, `supplicant_get_le16` -/
def getLe16 (data : List UInt8) (i : ℕ) : ℕ := (byteAt data i).toNat + (byteAt data (i + 1)).toNat * 256

/-- `hostapd_put_be16`, `supplicant_put_be16` -/
def putBe16 (v : BitVec 16) : List UInt8 := [.ofNat (v.toNat / 256), .ofNat v.toNat]

/-- `rt_memcmp(left, right, n) < 0` -/
def memLt : List UInt8 → List UInt8 → Bool
  | [], _ => false
  | _, [] => false
  | a :: l, b :: m => if a = b then memLt l m else a < b

def keyFrame (version descriptor : UInt8) (keyInfo keyLength : BitVec 16) (replay : Bytes 8) (nonce : Bytes 32)
    (mic : Bytes 16) (keyData : List UInt8) : List UInt8 :=
  version :: 3 :: (putBe16 (.ofNat 16 (95 + keyData.length)) ++ (descriptor :: (putBe16 keyInfo ++
    (putBe16 keyLength ++ (replay.1 ++ (nonce.1 ++ ((zeroBytes 32).1 ++ (mic.1 ++
      (putBe16 (.ofNat 16 keyData.length) ++ keyData)))))))))

def clearMic (data : List UInt8) : List UInt8 := data.take 81 ++ ((zeroBytes 16).1 ++ data.drop 97)

theorem byteAt_append {pre post : List UInt8} {i : ℕ} {x : UInt8} (h : pre.length = i) :
    byteAt (pre ++ x :: post) i = x := by
  rw [byteAt, List.drop_left' h]
  rfl

theorem getBe16_append (pre : List UInt8) {post : List UInt8} {i : ℕ} (v : BitVec 16) (h : pre.length = i) :
    getBe16 (pre ++ (putBe16 v ++ post)) i = v := by
  have hlow : byteAt (pre ++ (putBe16 v ++ post)) (i + 1) = .ofNat v.toNat := by
    have hpre : (pre ++ [UInt8.ofNat (v.toNat / 256)]).length = i + 1 := by
      rw [List.length_append, h]
      rfl
    have hsplit : byteAt ((pre ++ [UInt8.ofNat (v.toNat / 256)]) ++ UInt8.ofNat v.toNat :: post) (i + 1) =
        .ofNat v.toNat := byteAt_append hpre
    rwa [List.append_assoc] at hsplit
  have hhigh : byteAt (pre ++ (putBe16 v ++ post)) i = .ofNat (v.toNat / 256) := byteAt_append h
  have hv := v.isLt
  rw [getBe16, hlow, hhigh]
  apply BitVec.eq_of_toNat_eq
  simp only [UInt8.toNat_ofNat', BitVec.toNat_ofNat]
  omega

section KeyFrame

variable {version descriptor : UInt8} {keyInfo keyLength : BitVec 16} {replay : Bytes 8} {nonce : Bytes 32}
  {mic : Bytes 16} {keyData : List UInt8}

theorem keyFrame_length :
    (keyFrame version descriptor keyInfo keyLength replay nonce mic keyData).length = 99 + keyData.length := by
  simp only [keyFrame, putBe16, zeroBytes, List.length_cons, List.length_append, List.length_nil,
    List.length_replicate, replay.2, nonce.2, mic.2]
  omega

def frameHead (version descriptor : UInt8) (keyInfo keyLength : BitVec 16) (n : ℕ) : List UInt8 :=
  version :: 3 :: (putBe16 (.ofNat 16 (95 + n)) ++ (descriptor :: (putBe16 keyInfo ++ putBe16 keyLength)))

theorem keyFrame_eq : keyFrame version descriptor keyInfo keyLength replay nonce mic keyData =
    frameHead version descriptor keyInfo keyLength keyData.length ++ (replay.1 ++ (nonce.1 ++ ((zeroBytes 32).1 ++
      (mic.1 ++ (putBe16 (.ofNat 16 keyData.length) ++ keyData))))) := rfl

theorem keyFrame_version : byteAt (keyFrame version descriptor keyInfo keyLength replay nonce mic keyData) 0 = version := rfl

theorem keyFrame_type : byteAt (keyFrame version descriptor keyInfo keyLength replay nonce mic keyData) 1 = 3 := rfl

theorem keyFrame_descriptor :
    byteAt (keyFrame version descriptor keyInfo keyLength replay nonce mic keyData) 4 = descriptor := rfl

theorem keyFrame_bodyLength : getBe16 (keyFrame version descriptor keyInfo keyLength replay nonce mic keyData) 2 =
    .ofNat 16 (95 + keyData.length) :=
  getBe16_append [version, 3] _ rfl

theorem keyFrame_keyInfo :
    getBe16 (keyFrame version descriptor keyInfo keyLength replay nonce mic keyData) 5 = keyInfo :=
  getBe16_append (version :: 3 :: (putBe16 (.ofNat 16 (95 + keyData.length)) ++ [descriptor])) _ rfl

theorem keyFrame_keyLength :
    getBe16 (keyFrame version descriptor keyInfo keyLength replay nonce mic keyData) 7 = keyLength :=
  getBe16_append (version :: 3 :: (putBe16 (.ofNat 16 (95 + keyData.length)) ++ (descriptor :: putBe16 keyInfo))) _ rfl

theorem keyFrame_replay : bytesAt 9 8 (keyFrame version descriptor keyInfo keyLength replay nonce mic keyData) = replay :=
  Block.slice_append 0 replay rfl

theorem keyFrame_nonce : bytesAt 17 32 (keyFrame version descriptor keyInfo keyLength replay nonce mic keyData) = nonce := by
  rw [keyFrame_eq, ← List.append_assoc]
  apply Block.slice_append
  rw [List.length_append, replay.2]
  rfl

/-- What lies before the MIC. -/
theorem keyFrame_split : ∃ pre : List UInt8, pre.length = 81 ∧ ∀ mic : Bytes 16,
    keyFrame version descriptor keyInfo keyLength replay nonce mic keyData =
      pre ++ (mic.1 ++ (putBe16 (.ofNat 16 keyData.length) ++ keyData)) := by
  refine ⟨frameHead version descriptor keyInfo keyLength keyData.length ++
    (replay.1 ++ (nonce.1 ++ (zeroBytes 32).1)), ?_, fun mic => ?_⟩
  · simp only [frameHead, putBe16, zeroBytes, List.length_append, List.length_cons, List.length_nil,
      List.length_replicate, replay.2, nonce.2]
  · simp only [keyFrame_eq, List.append_assoc]

theorem keyFrame_mic : bytesAt 81 16 (keyFrame version descriptor keyInfo keyLength replay nonce mic keyData) = mic := by
  obtain ⟨pre, hpre, hsplit⟩ := keyFrame_split
  rw [hsplit]
  exact Block.slice_append 0 mic hpre

theorem keyFrame_dataLength : getBe16 (keyFrame version descriptor keyInfo keyLength replay nonce mic keyData) 97 =
    .ofNat 16 keyData.length := by
  obtain ⟨pre, hpre, hsplit⟩ := keyFrame_split
  rw [hsplit, ← List.append_assoc]
  apply getBe16_append
  rw [List.length_append, hpre, mic.2]

theorem keyFrame_data :
    (keyFrame version descriptor keyInfo keyLength replay nonce mic keyData).drop 99 = keyData := by
  obtain ⟨pre, hpre, hsplit⟩ := keyFrame_split
  rw [hsplit, ← List.append_assoc, ← List.append_assoc]
  apply List.drop_left'
  rw [List.length_append, List.length_append, hpre, mic.2]
  rfl

theorem clearMic_keyFrame : clearMic (keyFrame version descriptor keyInfo keyLength replay nonce mic keyData) =
    keyFrame version descriptor keyInfo keyLength replay nonce (zeroBytes 16) keyData := by
  obtain ⟨pre, hpre, hsplit⟩ := keyFrame_split
  have hdrop : (pre ++ (mic.1 ++ (putBe16 (.ofNat 16 keyData.length) ++ keyData))).drop 97 =
      putBe16 (.ofNat 16 keyData.length) ++ keyData := by
    rw [← List.append_assoc]
    apply List.drop_left'
    rw [List.length_append, hpre, mic.2]
  rw [hsplit, hsplit, clearMic, List.take_left' hpre, hdrop]

end KeyFrame

end RtSmart
