import RtSmart.Wlan.KeyData

/-!
The security elements of an access point and the profile that the supplicant chooses for them. In the parsers `none` is a read
outside of the bytes they are given.
-/

namespace RtSmart.SecurityIe

open KeyData (readBytes readLe16 readBytes_eq)

/-- The fields of `struct wlan_offload_ap_security` for the RSN element. -/
structure RsnSecurity where
  seen : Bool
  groupTkip : Bool
  groupCcmp : Bool
  pairwiseTkip : Bool
  pairwiseCcmp : Bool
  psk : Bool
  pskSha256 : Bool
  ftPsk : Bool
  sae : Bool
  ftSae : Bool
  mfpCapable : Bool
  mfpRequired : Bool
  groupMgmtBipCmac : Bool
deriving DecidableEq

structure WpaSecurity where
  seen : Bool
  groupTkip : Bool
  groupCcmp : Bool
  pairwiseTkip : Bool
  pairwiseCcmp : Bool
  psk : Bool
deriving DecidableEq

structure ApSecurity where
  rsn : RsnSecurity
  wpa : WpaSecurity
deriving DecidableEq

def RsnSecurity.zero : RsnSecurity :=
  ⟨false, false, false, false, false, false, false, false, false, false, false, false, false⟩

def WpaSecurity.zero : WpaSecurity := ⟨false, false, false, false, false, false⟩

def ApSecurity.zero : ApSecurity := ⟨.zero, .zero⟩

def suiteOui (rsn : Bool) : List UInt8 := if rsn then [0x00, 0x0f, 0xac] else [0x00, 0x50, 0xf2]

def supplicantSuiteOui (suite : List UInt8) (rsn : Bool) : Bool := suite.take 3 = suiteOui rsn

def supplicantParseCipher (rsn group : Bool) (info : ApSecurity) (suite : List UInt8) : ApSecurity :=
  if supplicantSuiteOui suite rsn = false then info
  else if group then
    if suite[3]? = some 2 then
      if rsn then { info with rsn := { info.rsn with groupTkip := true } }
      else { info with wpa := { info.wpa with groupTkip := true } }
    else if suite[3]? = some 4 then
      if rsn then { info with rsn := { info.rsn with groupCcmp := true } }
      else { info with wpa := { info.wpa with groupCcmp := true } }
    else info
  else if suite[3]? = some 2 then
    if rsn then { info with rsn := { info.rsn with pairwiseTkip := true } }
    else { info with wpa := { info.wpa with pairwiseTkip := true } }
  else if suite[3]? = some 4 then
    if rsn then { info with rsn := { info.rsn with pairwiseCcmp := true } }
    else { info with wpa := { info.wpa with pairwiseCcmp := true } }
  else info

def supplicantParseRsnAkm (info : ApSecurity) (suite : List UInt8) : ApSecurity :=
  if supplicantSuiteOui suite true = false then info
  else if suite[3]? = some 2 then { info with rsn := { info.rsn with psk := true } }
  else if suite[3]? = some 4 then { info with rsn := { info.rsn with ftPsk := true } }
  else if suite[3]? = some 6 then { info with rsn := { info.rsn with pskSha256 := true } }
  else if suite[3]? = some 8 then { info with rsn := { info.rsn with sae := true } }
  else if suite[3]? = some 9 then { info with rsn := { info.rsn with ftSae := true } }
  else info

/-- The body of the last loop of `supplicant_parse_wpa_ie`. -/
def parseWpaAkm (info : ApSecurity) (suite : List UInt8) : ApSecurity :=
  if supplicantSuiteOui suite false ∧ suite[3]? = some 2 then { info with wpa := { info.wpa with psk := true } } else info

/-- The loops over `count` suites; a turn is taken to read all the four bytes of its suite. -/
def forSuites (body : List UInt8) (handle : ApSecurity → List UInt8 → ApSecurity) : ℕ → ℕ → ApSecurity → Option ApSecurity
  | 0, _, info => some info
  | count + 1, position, info => do
    let suite ← readBytes body position 4
    forSuites body handle count (position + 4) (handle info suite)

/-- A count and its loop, which each parser has two of; the inner `none` is `RT_FALSE`. -/
def parseSuites (body : List UInt8) (handle : ApSecurity → List UInt8 → ApSecurity) (position : ℕ) (info : ApSecurity) :
    Option (Option (ApSecurity × ℕ)) :=
  if body.length < position + 2 then some none
  else do
    let count ← readLe16 body position
    if (body.length - (position + 2)) / 4 < count then some none
    else do
      let parsed ← forSuites body handle count (position + 2) info
      some (some (parsed, position + 2 + 4 * count))

/-- The end of `supplicant_parse_rsn_ie`: capabilities, PMKIDs and the group management suite, each of which may be left out. -/
def parseCapabilities (body : List UInt8) (position : ℕ) (info : ApSecurity) : Option (ApSecurity × ℕ) :=
  if position + 2 ≤ body.length then do
    let capabilities ← readLe16 body position
    some ({ info with rsn := { info.rsn with
      mfpRequired := decide (capabilities &&& 0x0040 ≠ 0), mfpCapable := decide (capabilities &&& 0x0080 ≠ 0) } }, position + 2)
  else some (info, position)

def parsePmkids (body : List UInt8) (position : ℕ) : Option (Option ℕ) :=
  if position + 2 ≤ body.length then do
    let count ← readLe16 body position
    if (body.length - (position + 2)) / 16 < count then some none else some (some (position + 2 + count * 16))
  else some (some position)

def parseGroupManagement (body : List UInt8) (position : ℕ) (info : ApSecurity) : Option (Option ApSecurity) :=
  if position < body.length then
    if body.length - position < 4 then some none
    else do
      let suite ← readBytes body position 4
      some (some { info with rsn := { info.rsn with
        groupMgmtBipCmac := decide (supplicantSuiteOui suite true = true ∧ suite[3]? = some 6) } })
  else if info.rsn.mfpCapable then some (some { info with rsn := { info.rsn with groupMgmtBipCmac := true } })
  else some (some info)

/-- `RT_FALSE` leaves what is in `info`: the parser works on a copy. -/
def supplicantParseRsnIe (info : ApSecurity) (body : List UInt8) : Option (Bool × ApSecurity) :=
  if body.length < 8 then some (false, info)
  else do
    let version ← readLe16 body 0
    if version ≠ 1 then some (false, info)
    else do
      let group ← readBytes body 2 4
      match ← parseSuites body (supplicantParseCipher true false) 6 (supplicantParseCipher true true info group) with
      | none => some (false, info)
      | some (pairwise, position) =>
        match ← parseSuites body supplicantParseRsnAkm position pairwise with
        | none => some (false, info)
        | some (akms, position) => do
          let (capable, position) ← parseCapabilities body position akms
          match ← parsePmkids body position with
          | none => some (false, info)
          | some position =>
            match ← parseGroupManagement body position capable with
            | none => some (false, info)
            | some parsed => some (true, { parsed with rsn := { parsed.rsn with seen := true } })

def wpaPrefix : List UInt8 := [0x00, 0x50, 0xf2, 0x01]

def supplicantParseWpaIe (info : ApSecurity) (body : List UInt8) : Option (Bool × ApSecurity) :=
  if body.length < 12 then some (false, info)
  else do
    let id ← readBytes body 0 4
    if id ≠ wpaPrefix then some (false, info)
    else do
      let version ← readLe16 body 4
      if version ≠ 1 then some (false, info)
      else do
        let group ← readBytes body 6 4
        match ← parseSuites body (supplicantParseCipher false false) 10 (supplicantParseCipher false true info group) with
        | none => some (false, info)
        | some (pairwise, position) =>
          match ← parseSuites body parseWpaAkm position pairwise with
          | none => some (false, info)
          | some (parsed, _) => some (true, { parsed with wpa := { parsed.wpa with seen := true } })

def isWpa (ies : List UInt8) (offset : ℕ) (element elementLength : UInt8) : Option Bool :=
  if element = 221 ∧ 4 ≤ elementLength.toNat then (readBytes ies (offset + 2) 4).map fun id => decide (id = wpaPrefix)
  else some false

/-- The loop of `supplicant_parse_ap_ies`, which has a number of turns to come to an end. -/
def apWalk (ies : List UInt8) : ℕ → ℕ → Bool → Bool → Bool → ApSecurity → Option (Bool × ApSecurity)
  | 0, _, _, _, _, _ => none
  | n + 1, offset, parsed, rsnSeen, wpaSeen, info =>
    if ies.length < offset + 2 then some (parsed, info)
    else do
      let element ← ies[offset]?
      let elementLength ← ies[offset + 1]?
      if ies.length < offset + 2 + elementLength.toNat then some (parsed, info)
      else do
        let next := offset + 2 + elementLength.toNat
        if element = 48 then
          if rsnSeen then apWalk ies n next parsed rsnSeen wpaSeen info
          else do
            let body ← readBytes ies (offset + 2) elementLength.toNat
            let (result, info) ← supplicantParseRsnIe info body
            apWalk ies n next (parsed || result) true wpaSeen info
        else do
          let wpa ← isWpa ies offset element elementLength
          if wpa ∧ wpaSeen = false then do
            let body ← readBytes ies (offset + 2) elementLength.toNat
            let (result, info) ← supplicantParseWpaIe info body
            apWalk ies n next (parsed || result) rsnSeen true info
          else apWalk ies n next parsed rsnSeen wpaSeen info

def supplicantParseApIes (ies : List UInt8) : Option (Bool × ApSecurity) :=
  apWalk ies (ies.length + 1) 0 false false false .zero

/-! The profiles. -/

/-- The bytes of the RSN elements of the profiles: a group cipher, a pairwise cipher, an AKM and what follows. -/
def rsnIe (length group pairwise akm : UInt8) (rest : List UInt8) : List UInt8 :=
  [0x30, length, 0x01, 0x00, 0x00, 0x0f, 0xac, group, 0x01, 0x00, 0x00, 0x0f, 0xac, pairwise, 0x01, 0x00, 0x00, 0x0f, 0xac, akm]
    ++ rest

def wpaIe (group pairwise : UInt8) : List UInt8 :=
  [0xdd, 0x16, 0x00, 0x50, 0xf2, 0x01, 0x01, 0x00, 0x00, 0x50, 0xf2, group, 0x01, 0x00, 0x00, 0x50, 0xf2, pairwise, 0x01, 0x00,
    0x00, 0x50, 0xf2, 0x02]

def wpa2TkipProfile : WpaProfile := ⟨.rsn, .tkip, .tkip, rsnIe 0x14 0x02 0x02 0x02 [0x00, 0x00], false, false, false⟩

def wpa2TkipCcmpProfile : WpaProfile := ⟨.rsn, .tkip, .ccmp, rsnIe 0x14 0x04 0x02 0x02 [0x00, 0x00], false, false, false⟩

def wpa2MixedProfile : WpaProfile := ⟨.rsn, .ccmp, .tkip, rsnIe 0x14 0x02 0x04 0x02 [0x00, 0x00], false, false, false⟩

def wpaTkipProfile : WpaProfile := ⟨.wpa, .tkip, .tkip, wpaIe 0x02 0x02, false, false, false⟩

def wpaCcmpProfile : WpaProfile := ⟨.wpa, .ccmp, .tkip, wpaIe 0x02 0x04, false, false, false⟩

def wpaCcmpGroupCcmpProfile : WpaProfile := ⟨.wpa, .ccmp, .ccmp, wpaIe 0x04 0x04, false, false, false⟩

def wpa2CcmpPmfProfile : WpaProfile :=
  ⟨.rsn, .ccmp, .ccmp, rsnIe 0x1a 0x04 0x04 0x02 [0x80, 0x00, 0x00, 0x00, 0x00, 0x0f, 0xac, 0x06], false, false, true⟩

def wpa2Sha256CcmpProfile : WpaProfile :=
  ⟨.rsn, .ccmp, .ccmp, rsnIe 0x1a 0x04 0x04 0x06 [0x80, 0x00, 0x00, 0x00, 0x00, 0x0f, 0xac, 0x06], false, true, true⟩

def wpa3SaeProfile : WpaProfile :=
  ⟨.rsn, .ccmp, .ccmp, rsnIe 0x1a 0x04 0x04 0x08 [0xc0, 0x00, 0x00, 0x00, 0x00, 0x0f, 0xac, 0x06], true, true, true⟩

def wpaProfiles : List WpaProfile :=
  [wpa2CcmpProfile, wpa2TkipProfile, wpa2TkipCcmpProfile, wpa2MixedProfile, wpaTkipProfile, wpaCcmpProfile,
    wpaCcmpGroupCcmpProfile, wpa2CcmpPmfProfile, wpa2Sha256CcmpProfile, wpa3SaeProfile]

def tkipEnabled : BitVec 32 := 0x0002

def aesEnabled : BitVec 32 := 0x0004

def aesCmacEnabled : BitVec 32 := 0x0010

def saeEnabled : BitVec 32 := 0x0020

def sha256Enabled : BitVec 32 := 0x0100

def wpaSecurity : BitVec 32 := 0x00200000

def wpa2Security : BitVec 32 := 0x00400000

def wpa3Security : BitVec 32 := 0x00800000

def securityWpa2AesPsk : BitVec 32 := wpa2Security ||| aesEnabled

def securityWpa2AesCmac : BitVec 32 := wpa2Security ||| aesCmacEnabled

def securityWpa2AesPskSha256 : BitVec 32 := wpa2Security ||| aesEnabled ||| sha256Enabled

def securityWpa3AesPsk : BitVec 32 := wpa3Security ||| aesEnabled

def securityWpa3Sae : BitVec 32 := wpa3Security ||| aesEnabled ||| saeEnabled

def securityWpa2Wpa3MixedPsk : BitVec 32 := wpa2Security ||| wpa3Security ||| aesEnabled ||| saeEnabled

def supplicantProfile (security : BitVec 32) : Option WpaProfile :=
  if security = wpaSecurity ||| tkipEnabled then some wpaTkipProfile
  else if security = wpaSecurity ||| aesEnabled then some wpaCcmpProfile
  else if security = wpa2Security ||| tkipEnabled then some wpa2TkipProfile
  else if security = wpa2Security ||| aesEnabled ||| tkipEnabled then some wpa2MixedProfile
  else if security = securityWpa2AesCmac then some wpa2CcmpPmfProfile
  else if security = securityWpa2AesPsk then some wpa2CcmpProfile
  else if security = wpaSecurity ||| wpa2Security then some wpaTkipProfile
  else if security = securityWpa2AesPskSha256 then some wpa2Sha256CcmpProfile
  else if security = securityWpa3AesPsk ∨ security = securityWpa3Sae ∨ security = securityWpa2Wpa3MixedPsk then
    some wpa3SaeProfile
  else none

def supplicantRsnSaeProfile (info : ApSecurity) : Option WpaProfile :=
  if info.rsn.sae = false ∨ info.rsn.mfpCapable = false ∨ info.rsn.groupMgmtBipCmac = false then none
  else if info.rsn.pairwiseCcmp ∧ info.rsn.groupCcmp then some wpa3SaeProfile
  else none

def supplicantRsnSha256Profile (info : ApSecurity) : Option WpaProfile :=
  if info.rsn.pskSha256 = false ∨ info.rsn.mfpCapable = false ∨ info.rsn.groupMgmtBipCmac = false then none
  else if info.rsn.pairwiseCcmp ∧ info.rsn.groupCcmp then some wpa2Sha256CcmpProfile
  else none

/-- The part of `supplicant_rsn_profile` behind the preferences. -/
def rsnPlainProfile (info : ApSecurity) : Option WpaProfile :=
  if info.rsn.psk = false then (supplicantRsnSha256Profile info).or (supplicantRsnSaeProfile info)
  else if info.rsn.mfpRequired then
    if info.rsn.pairwiseCcmp ∧ info.rsn.groupCcmp ∧ info.rsn.mfpCapable ∧ info.rsn.groupMgmtBipCmac then
      some wpa2CcmpPmfProfile
    else none
  else if info.rsn.pairwiseCcmp then
    if info.rsn.groupTkip then some wpa2MixedProfile else if info.rsn.groupCcmp then some wpa2CcmpProfile else none
  else if info.rsn.pairwiseTkip then
    if info.rsn.groupTkip then some wpa2TkipProfile else if info.rsn.groupCcmp then some wpa2TkipCcmpProfile else none
  else none

def supplicantRsnProfile (info : ApSecurity) (preferSae preferSha256 requireMfp : Bool) : Option WpaProfile :=
  if info.rsn.seen = false then none
  else if preferSae then supplicantRsnSaeProfile info
  else if requireMfp then
    if info.rsn.psk ∧ info.rsn.pairwiseCcmp ∧ info.rsn.groupCcmp ∧ info.rsn.mfpCapable ∧ info.rsn.groupMgmtBipCmac then
      some wpa2CcmpPmfProfile
    else none
  else if preferSha256 ∧ ((supplicantRsnSha256Profile info).isSome ∨ info.rsn.psk = false) then supplicantRsnSha256Profile info
  else rsnPlainProfile info

def supplicantWpaProfile (info : ApSecurity) : Option WpaProfile :=
  if info.wpa.seen = false ∨ info.wpa.psk = false then none
  else if info.wpa.pairwiseCcmp then
    if info.wpa.groupCcmp then some wpaCcmpGroupCcmpProfile else if info.wpa.groupTkip then some wpaCcmpProfile else none
  else if info.wpa.pairwiseTkip ∧ info.wpa.groupTkip then some wpaTkipProfile
  else none

/-- The part of `supplicant_profile_for_request` behind the parser. -/
def profileOfInfo (security : BitVec 32) (info : ApSecurity) : Option WpaProfile :=
  let preferSae := decide (security &&& saeEnabled ≠ 0 ∧ security &&& wpa2Security = 0 ∨ security = securityWpa3AesPsk)
  let rsn :=
    if security &&& (wpa2Security ||| wpa3Security) ≠ 0 then
      supplicantRsnProfile info preferSae (decide (security = securityWpa2AesPskSha256)) (decide (security = securityWpa2AesCmac))
    else none
  rsn.or (if security &&& wpaSecurity ≠ 0 then supplicantWpaProfile info else none)

/-- The elements of the scan result are empty where there are none; the inner `none` is `RT_NULL`. -/
def supplicantProfileForRequest (security : BitVec 32) (bssIes : List UInt8) : Option (Option WpaProfile) :=
  (if bssIes = [] then some (false, .zero) else supplicantParseApIes bssIes).map fun (parsed, info) =>
    if parsed then profileOfInfo security info else supplicantProfile security

/-! The elements by themselves. -/

def suiteOf (rsn : Bool) (type : UInt8) : List UInt8 := suiteOui rsn ++ [type]

structure RsnElement where
  group : List UInt8
  pairwise : List (List UInt8)
  akms : List (List UInt8)
  capabilities : Option ℕ
  groupManagement : Option (List UInt8)

structure WpaElement where
  group : List UInt8
  pairwise : List (List UInt8)
  akms : List (List UInt8)

def suitesOf : ℕ → List UInt8 → List (List UInt8)
  | 0, _ => []
  | n + 1, l => l.take 4 :: suitesOf n (l.drop 4)

def suiteList : List UInt8 → Option (List (List UInt8) × List UInt8)
  | low :: high :: rest =>
    if 4 * (low.toNat + high.toNat * 256) ≤ rest.length then
      some (suitesOf (low.toNat + high.toNat * 256) rest, rest.drop (4 * (low.toNat + high.toNat * 256)))
    else none
  | _ => none

def capabilitiesOf : List UInt8 → Option ℕ × List UInt8
  | low :: high :: rest => (some (low.toNat + high.toNat * 256), rest)
  | rest => (none, rest)

def pmkidsOf : List UInt8 → Option (List UInt8)
  | low :: high :: rest =>
    if 16 * (low.toNat + high.toNat * 256) ≤ rest.length then some (rest.drop (16 * (low.toNat + high.toNat * 256))) else none
  | rest => some rest

def groupManagementOf (rest : List UInt8) : Option (Option (List UInt8)) :=
  if rest = [] then some none else if rest.length < 4 then none else some (some (rest.take 4))

def rsnElement (body : List UInt8) : Option RsnElement :=
  if body.take 2 ≠ [1, 0] ∨ body.length < 6 then none
  else do
    let (pairwise, rest) ← suiteList (body.drop 6)
    let (akms, rest) ← suiteList rest
    let rest' ← pmkidsOf (capabilitiesOf rest).2
    let groupManagement ← groupManagementOf rest'
    some ⟨(body.drop 2).take 4, pairwise, akms, (capabilitiesOf rest).1, groupManagement⟩

def wpaElement (body : List UInt8) : Option WpaElement :=
  if body.take 6 ≠ wpaPrefix ++ [1, 0] ∨ body.length < 10 then none
  else do
    let (pairwise, rest) ← suiteList (body.drop 10)
    let (akms, _) ← suiteList rest
    some ⟨(body.drop 6).take 4, pairwise, akms⟩

def elements : List UInt8 → List (UInt8 × List UInt8)
  | element :: length :: rest =>
    if length.toNat ≤ rest.length then (element, rest.take length.toNat) :: elements (rest.drop length.toNat) else []
  | _ => []
termination_by l => l.length
decreasing_by simp only [List.length_drop, List.length_cons]; omega

def IsRsn (e : UInt8 × List UInt8) : Bool := e.1 == 48

def IsWpa (e : UInt8 × List UInt8) : Bool := e.1 == 221 && decide (e.2.take 4 = wpaPrefix)

/-- The security of an access point is what its first element of a kind says, as far as that is well formed. -/
def rsnOf (ies : List UInt8) : Option RsnElement := ((elements ies).find? IsRsn).bind fun e => rsnElement e.2

def wpaOf (ies : List UInt8) : Option WpaElement := ((elements ies).find? IsWpa).bind fun e => wpaElement e.2

def RsnElement.mfpCapable (e : RsnElement) : Bool := decide (e.capabilities.getD 0 &&& 0x0080 ≠ 0)

def RsnElement.mfpRequired (e : RsnElement) : Bool := decide (e.capabilities.getD 0 &&& 0x0040 ≠ 0)

def RsnElement.managementSuite (e : RsnElement) : List UInt8 := e.groupManagement.getD (suiteOf true 6)

/-- What the parser adds to what it knows. -/
def RsnSecurity.add (s : RsnSecurity) (e : RsnElement) : RsnSecurity :=
  let capable := match e.capabilities with
    | none => s.mfpCapable
    | some capabilities => decide (capabilities &&& 0x0080 ≠ 0)
  { seen := true
    groupTkip := s.groupTkip || decide (e.group = suiteOf true 2)
    groupCcmp := s.groupCcmp || decide (e.group = suiteOf true 4)
    pairwiseTkip := s.pairwiseTkip || decide (suiteOf true 2 ∈ e.pairwise)
    pairwiseCcmp := s.pairwiseCcmp || decide (suiteOf true 4 ∈ e.pairwise)
    psk := s.psk || decide (suiteOf true 2 ∈ e.akms)
    pskSha256 := s.pskSha256 || decide (suiteOf true 6 ∈ e.akms)
    ftPsk := s.ftPsk || decide (suiteOf true 4 ∈ e.akms)
    sae := s.sae || decide (suiteOf true 8 ∈ e.akms)
    ftSae := s.ftSae || decide (suiteOf true 9 ∈ e.akms)
    mfpCapable := capable
    mfpRequired := match e.capabilities with
      | none => s.mfpRequired
      | some capabilities => decide (capabilities &&& 0x0040 ≠ 0)
    groupMgmtBipCmac := match e.groupManagement with
      | some suite => decide (suite = suiteOf true 6)
      | none => capable || s.groupMgmtBipCmac }

def WpaSecurity.add (s : WpaSecurity) (e : WpaElement) : WpaSecurity :=
  { seen := true
    groupTkip := s.groupTkip || decide (e.group = suiteOf false 2)
    groupCcmp := s.groupCcmp || decide (e.group = suiteOf false 4)
    pairwiseTkip := s.pairwiseTkip || decide (suiteOf false 2 ∈ e.pairwise)
    pairwiseCcmp := s.pairwiseCcmp || decide (suiteOf false 4 ∈ e.pairwise)
    psk := s.psk || decide (suiteOf false 2 ∈ e.akms) }

def ApSecurity.add (info : ApSecurity) (r : Option RsnElement) (w : Option WpaElement) : ApSecurity :=
  { rsn := r.elim info.rsn info.rsn.add, wpa := w.elim info.wpa info.wpa.add }

section

variable {body ies rest : List UInt8} {position : ℕ} {info : ApSecurity} {suite : List UInt8}

theorem readLe16_at {low high : UInt8} (h : body.drop position = low :: high :: rest) :
    readLe16 body position = some (low.toNat + high.toNat * 256) := by
  have hlow : body[position]? = some low := by
    rw [show position = position + 0 from rfl, ← List.getElem?_drop, h]
    rfl
  have hhigh : body[position + 1]? = some high := by
    rw [← List.getElem?_drop, h]
    rfl
  rw [readLe16, hlow, hhigh]
  rfl

theorem length_of_drop (h : body.drop position = rest) (hp : position ≤ body.length) :
    body.length = position + rest.length := by
  rw [← h, List.length_drop]
  omega

/-! One suite. -/

theorem suite_cases (h : suite.length = 4) : ∃ a b c d, suite = [a, b, c, d] := by
  match suite, h with
  | [a, b, c, d], _ => exact ⟨a, b, c, d, rfl⟩

theorem suite_iff (rsn : Bool) (type : UInt8) (h : suite.length = 4) :
    suite = suiteOf rsn type ↔ supplicantSuiteOui suite rsn = true ∧ suite[3]? = some type := by
  obtain ⟨a, b, c, d, rfl⟩ := suite_cases h
  cases rsn
  · simp [supplicantSuiteOui, suiteOf, suiteOui, and_assoc]
  · simp [supplicantSuiteOui, suiteOf, suiteOui, and_assoc]

theorem parseCipher_rsnGroup (h : suite.length = 4) : supplicantParseCipher true true info suite = { info with rsn :=
    { info.rsn with
      groupTkip := info.rsn.groupTkip || decide (suite = suiteOf true 2)
      groupCcmp := info.rsn.groupCcmp || decide (suite = suiteOf true 4) } } := by
  simp only [suite_iff true _ h, supplicantParseCipher]
  split_ifs <;> simp_all

theorem parseCipher_rsnPairwise (h : suite.length = 4) : supplicantParseCipher true false info suite = { info with rsn :=
    { info.rsn with
      pairwiseTkip := info.rsn.pairwiseTkip || decide (suite = suiteOf true 2)
      pairwiseCcmp := info.rsn.pairwiseCcmp || decide (suite = suiteOf true 4) } } := by
  simp only [suite_iff true _ h, supplicantParseCipher]
  split_ifs <;> simp_all

theorem parseCipher_wpaGroup (h : suite.length = 4) : supplicantParseCipher false true info suite = { info with wpa :=
    { info.wpa with
      groupTkip := info.wpa.groupTkip || decide (suite = suiteOf false 2)
      groupCcmp := info.wpa.groupCcmp || decide (suite = suiteOf false 4) } } := by
  simp only [suite_iff false _ h, supplicantParseCipher]
  split_ifs <;> simp_all

theorem parseCipher_wpaPairwise (h : suite.length = 4) : supplicantParseCipher false false info suite = { info with wpa :=
    { info.wpa with
      pairwiseTkip := info.wpa.pairwiseTkip || decide (suite = suiteOf false 2)
      pairwiseCcmp := info.wpa.pairwiseCcmp || decide (suite = suiteOf false 4) } } := by
  simp only [suite_iff false _ h, supplicantParseCipher]
  split_ifs <;> simp_all

theorem parseRsnAkm_eq (h : suite.length = 4) : supplicantParseRsnAkm info suite = { info with rsn :=
    { info.rsn with
      psk := info.rsn.psk || decide (suite = suiteOf true 2)
      pskSha256 := info.rsn.pskSha256 || decide (suite = suiteOf true 6)
      ftPsk := info.rsn.ftPsk || decide (suite = suiteOf true 4)
      sae := info.rsn.sae || decide (suite = suiteOf true 8)
      ftSae := info.rsn.ftSae || decide (suite = suiteOf true 9) } } := by
  simp only [suite_iff true _ h, supplicantParseRsnAkm]
  split_ifs <;> simp_all

theorem parseWpaAkm_eq (h : suite.length = 4) : parseWpaAkm info suite = { info with wpa :=
    { info.wpa with psk := info.wpa.psk || decide (suite = suiteOf false 2) } } := by
  simp only [suite_iff false _ h, parseWpaAkm]
  by_cases hpsk : supplicantSuiteOui suite false = true ∧ suite[3]? = some 2
  · rw [if_pos hpsk, decide_eq_true hpsk, Bool.or_true]
  · rw [if_neg hpsk, decide_eq_false hpsk, Bool.or_false]

/-! All the suites of a list. -/

variable {suites : List (List UInt8)}

theorem foldl_rsnPairwise (h : ∀ s ∈ suites, s.length = 4) :
    suites.foldl (supplicantParseCipher true false) info = { info with rsn :=
      { info.rsn with
        pairwiseTkip := info.rsn.pairwiseTkip || decide (suiteOf true 2 ∈ suites)
        pairwiseCcmp := info.rsn.pairwiseCcmp || decide (suiteOf true 4 ∈ suites) } } := by
  induction suites generalizing info with
  | nil => simp
  | cons s suites ih =>
    rw [List.forall_mem_cons] at h
    rw [List.foldl_cons, parseCipher_rsnPairwise h.1, ih h.2]
    simp only [List.mem_cons, Bool.decide_or, Bool.or_assoc, eq_comm]

theorem foldl_wpaPairwise (h : ∀ s ∈ suites, s.length = 4) :
    suites.foldl (supplicantParseCipher false false) info = { info with wpa :=
      { info.wpa with
        pairwiseTkip := info.wpa.pairwiseTkip || decide (suiteOf false 2 ∈ suites)
        pairwiseCcmp := info.wpa.pairwiseCcmp || decide (suiteOf false 4 ∈ suites) } } := by
  induction suites generalizing info with
  | nil => simp
  | cons s suites ih =>
    rw [List.forall_mem_cons] at h
    rw [List.foldl_cons, parseCipher_wpaPairwise h.1, ih h.2]
    simp only [List.mem_cons, Bool.decide_or, Bool.or_assoc, eq_comm]

theorem foldl_rsnAkm (h : ∀ s ∈ suites, s.length = 4) :
    suites.foldl supplicantParseRsnAkm info = { info with rsn :=
      { info.rsn with
        psk := info.rsn.psk || decide (suiteOf true 2 ∈ suites)
        pskSha256 := info.rsn.pskSha256 || decide (suiteOf true 6 ∈ suites)
        ftPsk := info.rsn.ftPsk || decide (suiteOf true 4 ∈ suites)
        sae := info.rsn.sae || decide (suiteOf true 8 ∈ suites)
        ftSae := info.rsn.ftSae || decide (suiteOf true 9 ∈ suites) } } := by
  induction suites generalizing info with
  | nil => simp
  | cons s suites ih =>
    rw [List.forall_mem_cons] at h
    rw [List.foldl_cons, parseRsnAkm_eq h.1, ih h.2]
    simp only [List.mem_cons, Bool.decide_or, Bool.or_assoc, eq_comm]

theorem foldl_wpaAkm (h : ∀ s ∈ suites, s.length = 4) :
    suites.foldl parseWpaAkm info = { info with wpa :=
      { info.wpa with psk := info.wpa.psk || decide (suiteOf false 2 ∈ suites) } } := by
  induction suites generalizing info with
  | nil => simp
  | cons s suites ih =>
    rw [List.forall_mem_cons] at h
    rw [List.foldl_cons, parseWpaAkm_eq h.1, ih h.2]
    simp only [List.mem_cons, Bool.decide_or, Bool.or_assoc, eq_comm]

theorem length_suitesOf {n : ℕ} (h : 4 * n ≤ rest.length) : ∀ s ∈ suitesOf n rest, s.length = 4 := by
  induction n generalizing rest with
  | zero => exact fun s hs => absurd hs List.not_mem_nil
  | succ n ih =>
    rw [suitesOf, List.forall_mem_cons]
    constructor
    · rw [List.length_take]
      omega
    · apply ih
      rw [List.length_drop]
      omega

/-! The parsers go through the element as its decoding does. -/

theorem forSuites_eq (handle : ApSecurity → List UInt8 → ApSecurity) {count : ℕ} (h : 4 * count ≤ (body.drop position).length) :
    forSuites body handle count position info = some ((suitesOf count (body.drop position)).foldl handle info) := by
  induction count generalizing position info with
  | zero => rfl
  | succ count ih =>
    rw [List.length_drop] at h
    rw [forSuites, readBytes_eq (by omega), suitesOf, List.foldl_cons, List.drop_drop]
    apply ih
    rw [List.length_drop]
    omega

theorem parseSuites_spec (info : ApSecurity) (handle : ApSecurity → List UInt8 → ApSecurity) (h : body.drop position = rest)
    (hp : position ≤ body.length) :
    match suiteList rest with
    | none => parseSuites body handle position info = some none
    | some (suites, rest') => (∀ s ∈ suites, s.length = 4) ∧ ∃ position', body.drop position' = rest' ∧
        position' ≤ body.length ∧ parseSuites body handle position info = some (some (suites.foldl handle info, position')) := by
  have hlength := length_of_drop h hp
  match rest, h, hlength with
  | [], _, hlength =>
    exact if_pos (by rw [hlength]; simp)
  | [x], _, hlength =>
    exact if_pos (by rw [hlength]; simp)
  | low :: high :: rest, h, hlength =>
    have hdrop : body.drop (position + 2) = rest := by rw [← List.drop_drop, h]; rfl
    simp only [List.length_cons] at hlength
    have hparse : parseSuites body handle position info =
        if rest.length / 4 < low.toNat + high.toNat * 256 then some none
        else (forSuites body handle (low.toNat + high.toNat * 256) (position + 2) info).bind fun parsed =>
          some (some (parsed, position + 2 + 4 * (low.toNat + high.toNat * 256))) := by
      rw [parseSuites, if_neg (by omega), readLe16_at h, show body.length - (position + 2) = rest.length by omega]
      rfl
    rw [suiteList, hparse]
    by_cases hcount : 4 * (low.toNat + high.toNat * 256) ≤ rest.length
    · rw [if_pos hcount, if_neg (by omega), forSuites_eq handle (by rw [hdrop]; exact hcount), hdrop]
      refine ⟨length_suitesOf hcount, _, ?_, ?_, rfl⟩
      · rw [← List.drop_drop, hdrop]
      · omega
    · rw [if_neg hcount, if_pos (by omega)]

theorem capabilities_spec (info : ApSecurity) (h : body.drop position = rest) (hp : position ≤ body.length) :
    ∃ position', body.drop position' = (capabilitiesOf rest).2 ∧ position' ≤ body.length ∧
      parseCapabilities body position info = some
        (match (capabilitiesOf rest).1 with
          | none => info
          | some c => { info with rsn := { info.rsn with
              mfpRequired := decide (c &&& 0x0040 ≠ 0), mfpCapable := decide (c &&& 0x0080 ≠ 0) } }, position') := by
  have hlength := length_of_drop h hp
  match rest, h, hlength with
  | [], h, hlength =>
    exact ⟨position, h, hp, if_neg (by rw [hlength]; simp)⟩
  | [x], h, hlength =>
    exact ⟨position, h, hp, if_neg (by rw [hlength]; simp)⟩
  | low :: high :: rest, h, hlength =>
    simp only [List.length_cons] at hlength
    refine ⟨position + 2, ?_, by omega, ?_⟩
    · rw [← List.drop_drop, h]
      rfl
    · rw [parseCapabilities, if_pos (by omega), readLe16_at h]
      rfl

theorem pmkids_spec (h : body.drop position = rest) (hp : position ≤ body.length) :
    match pmkidsOf rest with
    | none => parsePmkids body position = some none
    | some rest' => ∃ position', body.drop position' = rest' ∧ position' ≤ body.length ∧
        parsePmkids body position = some (some position') := by
  have hlength := length_of_drop h hp
  match rest, h, hlength with
  | [], h, hlength =>
    exact ⟨position, h, hp, if_neg (by rw [hlength]; simp)⟩
  | [x], h, hlength =>
    exact ⟨position, h, hp, if_neg (by rw [hlength]; simp)⟩
  | low :: high :: rest, h, hlength =>
    simp only [List.length_cons] at hlength
    have hdrop : body.drop (position + 2) = rest := by rw [← List.drop_drop, h]; rfl
    have hparse : parsePmkids body position =
        if rest.length / 16 < low.toNat + high.toNat * 256 then some none
        else some (some (position + 2 + (low.toNat + high.toNat * 256) * 16)) := by
      rw [parsePmkids, if_pos (by omega), readLe16_at h, show body.length - (position + 2) = rest.length by omega]
      rfl
    rw [pmkidsOf, hparse]
    by_cases hcount : 16 * (low.toNat + high.toNat * 256) ≤ rest.length
    · rw [if_pos hcount, if_neg (by omega)]
      refine ⟨_, ?_, ?_, rfl⟩
      · rw [← List.drop_drop, hdrop, Nat.mul_comm]
      · omega
    · rw [if_neg hcount, if_pos (by omega)]

theorem groupManagement_spec (h : body.drop position = rest) (hp : position ≤ body.length) :
    parseGroupManagement body position info = some ((groupManagementOf rest).map fun suite =>
      { info with rsn := { info.rsn with groupMgmtBipCmac := match suite with
        | some suite => decide (suite = suiteOf true 6)
        | none => info.rsn.mfpCapable || info.rsn.groupMgmtBipCmac } }) := by
  have hlength := length_of_drop h hp
  unfold parseGroupManagement groupManagementOf
  by_cases hnil : rest = []
  · rw [if_neg (by rw [hlength, hnil]; simp), if_pos hnil]
    cases hcapable : info.rsn.mfpCapable with
    | true => simp
    | false => simp
  · have hpos := List.length_pos_iff.mpr hnil
    rw [if_pos (by omega), if_neg hnil, show body.length - position = rest.length by omega]
    by_cases hshort : rest.length < 4
    · rw [if_pos hshort, if_pos hshort]
      rfl
    · have hsuite : (rest.take 4).length = 4 := by rw [List.length_take]; omega
      rw [if_neg hshort, if_neg hshort, readBytes_eq (by omega), h]
      simp [suite_iff true 6 hsuite]

theorem suiteList_short (h : rest.length < 2) : suiteList rest = none := by
  match rest, h with
  | [], _ => rfl
  | [x], _ => rfl

theorem version_iff (body : List UInt8) (h : 2 ≤ body.length) :
    ∃ n, readLe16 body 0 = some n ∧ (n = 1 ↔ body.take 2 = [1, 0]) := by
  match body, h with
  | low :: high :: rest, _ =>
    refine ⟨low.toNat + high.toNat * 256, readLe16_at rfl, ?_⟩
    have hlow := low.toNat_lt
    have hhigh := high.toNat_lt
    simp only [List.take_succ_cons, List.take_zero, List.cons.injEq, and_true, ← UInt8.toNat_inj]
    change _ ↔ low.toNat = 1 ∧ high.toNat = 0
    omega

theorem supplicantParseRsnIe_eq (info : ApSecurity) (body : List UInt8) :
    supplicantParseRsnIe info body = some ((rsnElement body).isSome, info.add (rsnElement body) none) := by
  unfold supplicantParseRsnIe rsnElement
  by_cases hlength : body.length < 8
  · rw [if_pos hlength, suiteList_short (by rw [List.length_drop]; omega)]
    split_ifs
    · rfl
    · rfl
  obtain ⟨version, hversion, hone⟩ := version_iff body (by omega)
  have hgroup : ((body.drop 2).take 4).length = 4 := by
    rw [List.length_take, List.length_drop]
    omega
  rw [if_neg hlength, hversion, readBytes_eq (by omega : 2 + 4 ≤ body.length)]
  dsimp only [Option.bind_eq_bind, Option.bind_some]
  by_cases hv : version = 1
  · rw [if_neg (not_not.mpr hv), if_neg (by rw [not_or, not_not]; exact ⟨hone.mp hv, by omega⟩)]
    have hpairwise := parseSuites_spec (supplicantParseCipher true true info ((body.drop 2).take 4))
      (supplicantParseCipher true false) (rfl : body.drop 6 = _) (by omega)
    cases hp : suiteList (body.drop 6) with
    | none =>
      rw [hp] at hpairwise
      rw [hpairwise]
      rfl
    | some r =>
      obtain ⟨pairwise, rest⟩ := r
      rw [hp] at hpairwise
      obtain ⟨hpairs, position, hdrop, hposition, hparse⟩ := hpairwise
      rw [hparse]
      dsimp only [Option.bind_some]
      have hakms := parseSuites_spec (pairwise.foldl (supplicantParseCipher true false)
        (supplicantParseCipher true true info ((body.drop 2).take 4))) supplicantParseRsnAkm hdrop hposition
      cases ha : suiteList rest with
      | none =>
        rw [ha] at hakms
        rw [hakms]
        rfl
      | some r =>
        obtain ⟨akms, rest'⟩ := r
        rw [ha] at hakms
        obtain ⟨hakm, position', hdrop', hposition', hparse'⟩ := hakms
        rw [hparse']
        dsimp only [Option.bind_some]
        rw [foldl_rsnAkm hakm, foldl_rsnPairwise hpairs, parseCipher_rsnGroup hgroup]
        obtain ⟨position₁, hdrop₁, hposition₁, hparse₁⟩ := capabilities_spec _ hdrop' hposition'
        rw [hparse₁]
        dsimp only [Option.bind_some]
        have hpmkids := pmkids_spec hdrop₁ hposition₁
        cases hk : pmkidsOf (capabilitiesOf rest').2 with
        | none =>
          rw [hk] at hpmkids
          rw [hpmkids]
          rfl
        | some rest'' =>
          rw [hk] at hpmkids
          obtain ⟨position₂, hdrop₂, hposition₂, hparse₂⟩ := hpmkids
          rw [hparse₂]
          dsimp only [Option.bind_some]
          rw [groupManagement_spec hdrop₂ hposition₂]
          cases groupManagementOf rest'' with
          | none => rfl
          | some suite => cases suite <;> cases (capabilitiesOf rest').1 <;> rfl
  · rw [if_pos hv, if_pos (.inl fun h => hv (hone.mpr h))]
    rfl

theorem take_six (body : List UInt8) (h : 6 ≤ body.length) : body.take 6 = wpaPrefix ++ [1, 0] ↔
    (body.drop 0).take 4 = wpaPrefix ∧ (body.drop 4).take 2 = [1, 0] := by
  rw [show body.take 6 = (body.drop 0).take 4 ++ (body.drop 4).take 2 from List.take_add (i := 4) (j := 2)]
  have hlength : ((body.drop 0).take 4).length = wpaPrefix.length := by
    rw [List.length_take, List.length_drop]
    change min 4 (body.length - 0) = 4
    omega
  constructor
  · exact fun heq => List.append_inj heq hlength
  · rintro ⟨hid, hversion⟩
    rw [hid, hversion]

theorem supplicantParseWpaIe_eq (info : ApSecurity) (body : List UInt8) :
    supplicantParseWpaIe info body = some ((wpaElement body).isSome, info.add none (wpaElement body)) := by
  unfold supplicantParseWpaIe wpaElement
  by_cases hlength : body.length < 12
  · rw [if_pos hlength, suiteList_short (by rw [List.length_drop]; omega)]
    split_ifs
    · rfl
    · rfl
  obtain ⟨version, hversion, hone⟩ := version_iff (body.drop 4) (by rw [List.length_drop]; omega)
  replace hversion : readLe16 body 4 = some version := by
    rw [← hversion]
    unfold readLe16
    rw [List.getElem?_drop, List.getElem?_drop]
  have hgroup : ((body.drop 6).take 4).length = 4 := by
    rw [List.length_take, List.length_drop]
    omega
  have hsix := take_six body (by omega)
  rw [if_neg hlength, readBytes_eq (by omega : 0 + 4 ≤ body.length), hversion, readBytes_eq (by omega : 6 + 4 ≤ body.length)]
  dsimp only [Option.bind_eq_bind, Option.bind_some]
  by_cases hid : (body.drop 0).take 4 = wpaPrefix
  · rw [if_neg (not_not.mpr hid)]
    by_cases hv : version = 1
    · rw [if_neg (not_not.mpr hv), if_neg (by rw [not_or, not_not]; exact ⟨hsix.mpr ⟨hid, hone.mp hv⟩, by omega⟩)]
      have hpairwise := parseSuites_spec (supplicantParseCipher false true info ((body.drop 6).take 4))
        (supplicantParseCipher false false) (rfl : body.drop 10 = _) (by omega)
      cases hp : suiteList (body.drop 10) with
      | none =>
        rw [hp] at hpairwise
        rw [hpairwise]
        rfl
      | some r =>
        obtain ⟨pairwise, rest⟩ := r
        rw [hp] at hpairwise
        obtain ⟨hpairs, position, hdrop, hposition, hparse⟩ := hpairwise
        rw [hparse]
        dsimp only [Option.bind_some]
        have hakms := parseSuites_spec (pairwise.foldl (supplicantParseCipher false false)
          (supplicantParseCipher false true info ((body.drop 6).take 4))) parseWpaAkm hdrop hposition
        cases ha : suiteList rest with
        | none =>
          rw [ha] at hakms
          rw [hakms]
          rfl
        | some r =>
          obtain ⟨akms, rest'⟩ := r
          rw [ha] at hakms
          obtain ⟨hakm, position', -, -, hparse'⟩ := hakms
          rw [hparse']
          dsimp only [Option.bind_some]
          rw [foldl_wpaAkm hakm, foldl_wpaPairwise hpairs, parseCipher_wpaGroup hgroup]
          rfl
    · rw [if_pos hv, if_pos (.inl fun h => hv (hone.mpr (hsix.mp h).2))]
      rfl
  · rw [if_pos hid, if_pos (.inl fun h => hid (hsix.mp h).1)]
    rfl

/-! The walk over the elements. -/

section

variable {α : Type} {is : UInt8 × List UInt8 → Bool} {parse : List UInt8 → Option α} {seen : Bool}
  {e : UInt8 × List UInt8} {es : List (UInt8 × List UInt8)}

def chosen (is : UInt8 × List UInt8 → Bool) (parse : List UInt8 → Option α) (seen : Bool) (es : List (UInt8 × List UInt8)) :
    Option α :=
  if seen then none else (es.find? is).bind fun e => parse e.2

theorem chosen_seen : chosen is parse true es = none := rfl

theorem chosen_nil : chosen is parse seen [] = none := by cases seen <;> rfl

theorem chosen_skip (h : is e = false) : chosen is parse seen (e :: es) = chosen is parse seen es := by
  rw [chosen, chosen, List.find?_cons_of_neg (by rw [h]; exact Bool.false_ne_true)]

theorem chosen_take (h : is e = true) : chosen is parse false (e :: es) = parse e.2 := by
  rw [chosen, if_neg Bool.false_ne_true, List.find?_cons_of_pos h]
  rfl

end

theorem elements_short (h : rest.length < 2) : elements rest = [] := by
  match rest, h with
  | [], _ => simp [elements]
  | [x], _ => simp [elements]

theorem elements_cons (id length : UInt8) (rest : List UInt8) : elements (id :: length :: rest) =
    if length.toNat ≤ rest.length then (id, rest.take length.toNat) :: elements (rest.drop length.toNat) else [] := by
  rw [elements]

theorem apWalk_eq {n offset : ℕ} (hn : ies.length - offset < n) (hoffset : offset ≤ ies.length) (parsed rsnSeen wpaSeen : Bool)
    (info : ApSecurity) :
    apWalk ies n offset parsed rsnSeen wpaSeen info = some
      (parsed || (chosen IsRsn rsnElement rsnSeen (elements (ies.drop offset))).isSome ||
        (chosen IsWpa wpaElement wpaSeen (elements (ies.drop offset))).isSome,
      info.add (chosen IsRsn rsnElement rsnSeen (elements (ies.drop offset)))
        (chosen IsWpa wpaElement wpaSeen (elements (ies.drop offset)))) := by
  induction n generalizing offset parsed rsnSeen wpaSeen info with
  | zero => exact absurd hn (Nat.not_lt_zero _)
  | succ n ih =>
    rw [apWalk]
    have hlength : (ies.drop offset).length = ies.length - offset := List.length_drop
    cases hdrop : ies.drop offset with
    | nil =>
      rw [hdrop, List.length_nil] at hlength
      rw [if_pos (by omega), elements_short (by decide), chosen_nil, chosen_nil]
      simp [ApSecurity.add]
    | cons id tail =>
      cases tail with
      | nil =>
        rw [hdrop, List.length_singleton] at hlength
        rw [if_pos (by omega), elements_short (by simp), chosen_nil, chosen_nil]
        simp [ApSecurity.add]
      | cons len rest =>
        rw [hdrop, List.length_cons, List.length_cons] at hlength
        have hat : ∀ k, ies[offset + k]? = (id :: len :: rest)[k]? := fun k => by rw [← hdrop, List.getElem?_drop]
        have hfirst : ies[offset]? = some id := hat 0
        have hsecond : ies[offset + 1]? = some len := hat 1
        have hrest : ies.drop (offset + 2) = rest := by
          rw [← List.drop_drop, hdrop]
          rfl
        rw [if_neg (by omega), hfirst, hsecond, elements_cons]
        dsimp only [Option.bind_eq_bind, Option.bind_some]
        by_cases hfits : rest.length < len.toNat
        · rw [if_pos (by omega : ies.length < offset + 2 + len.toNat), if_neg (by omega : ¬ len.toNat ≤ rest.length), chosen_nil,
            chosen_nil]
          simp [ApSecurity.add]
        rw [if_neg (by omega : ¬ ies.length < offset + 2 + len.toNat), if_pos (by omega : len.toNat ≤ rest.length),
          readBytes_eq (by omega), hrest]
        dsimp only [Option.bind_some]
        have hnext : ∀ parsed rsnSeen wpaSeen info, apWalk ies n (offset + 2 + len.toNat) parsed rsnSeen wpaSeen info = _ :=
          fun parsed rsnSeen wpaSeen info => ih (by omega) (by omega) parsed rsnSeen wpaSeen info
        rw [show ies.drop (offset + 2 + len.toNat) = rest.drop len.toNat by rw [← List.drop_drop, hrest]] at hnext
        by_cases hid : id = 48
        · have hrsn : IsRsn (id, rest.take len.toNat) = true := beq_iff_eq.mpr hid
          have hwpa : IsWpa (id, rest.take len.toNat) = false := by
            rw [IsWpa, hid]
            rfl
          rw [if_pos hid, chosen_skip hwpa]
          cases rsnSeen with
          | true =>
            rw [if_pos rfl, hnext]
            rfl
          | false =>
            rw [if_neg Bool.false_ne_true, supplicantParseRsnIe_eq]
            dsimp only [Option.bind_some]
            rw [hnext, chosen_take hrsn, chosen_seen, Option.isSome_none, Bool.or_false]
            rfl
        · have hrsn : IsRsn (id, rest.take len.toNat) = false := beq_false_of_ne hid
          have hisWpa : isWpa ies offset id len = some (IsWpa (id, rest.take len.toNat)) := by
            unfold isWpa IsWpa
            by_cases h221 : id = 221
            · by_cases hfour : 4 ≤ len.toNat
              · have hread : readBytes ies (offset + 2) 4 = some ((rest.take len.toNat).take 4) := by
                  rw [readBytes_eq (by omega), hrest, List.take_take, Nat.min_eq_left hfour]
                rw [if_pos ⟨h221, hfour⟩, hread, h221]
                rfl
              · have hshort : ((rest.take len.toNat).take 4).length ≠ wpaPrefix.length := by
                  rw [List.length_take, List.length_take]
                  change min 4 _ ≠ 4
                  omega
                rw [if_neg fun h => hfour h.2, decide_eq_false fun h => hshort (congrArg List.length h), Bool.and_false]
            · rw [if_neg fun h => h221 h.1, beq_false_of_ne h221, Bool.false_and]
          rw [if_neg hid, hisWpa, chosen_skip hrsn]
          dsimp only [Option.bind_some]
          cases hwpa : IsWpa (id, rest.take len.toNat) with
          | false =>
            rw [if_neg fun h => Bool.false_ne_true h.1, hnext, chosen_skip hwpa]
          | true =>
            cases wpaSeen with
            | true =>
              rw [if_neg fun h => Bool.noConfusion h.2, hnext]
              rfl
            | false =>
              rw [if_pos ⟨rfl, rfl⟩, supplicantParseWpaIe_eq]
              dsimp only [Option.bind_some]
              rw [hnext, chosen_take hwpa, chosen_seen, Option.isSome_none, Bool.or_false, Bool.or_right_comm]
              rfl

theorem supplicantParseApIes_eq (ies : List UInt8) :
    supplicantParseApIes ies = some ((rsnOf ies).isSome || (wpaOf ies).isSome, ApSecurity.zero.add (rsnOf ies) (wpaOf ies)) := by
  rw [supplicantParseApIes, apWalk_eq (by omega) (Nat.zero_le _), Bool.false_or]
  rfl

/-! The profiles and what they need of an access point. -/

def cipherType : WlanCipher → UInt8
  | .none => 0
  | .tkip => 2
  | .ccmp => 4
  | .aesCmac => 6

def akmType (p : WpaProfile) : UInt8 := if p.sae then 8 else if p.sha256Akm then 6 else 2

/-- The element advertises the suites of the profile. -/
structure RsnElement.Offers (e : RsnElement) (p : WpaProfile) : Prop where
  protocol : p.protocol = .rsn
  group : e.group = suiteOf true (cipherType p.groupCipher)
  pairwise : suiteOf true (cipherType p.pairwiseCipher) ∈ e.pairwise
  akm : suiteOf true (akmType p) ∈ e.akms
  management : p.mfpRequired = true → e.mfpCapable = true ∧ e.managementSuite = suiteOf true 6

structure WpaElement.Offers (e : WpaElement) (p : WpaProfile) : Prop where
  protocol : p.protocol = .wpa
  group : e.group = suiteOf false (cipherType p.groupCipher)
  pairwise : suiteOf false (cipherType p.pairwiseCipher) ∈ e.pairwise
  akm : suiteOf false (akmType p) ∈ e.akms
  plain : p.mfpRequired = false

section

variable {p : WpaProfile} {e : RsnElement} {w : WpaElement} {preferSae preferSha256 requireMfp : Bool}

theorem add_mfpCapable : (RsnSecurity.zero.add e).mfpCapable = e.mfpCapable := by
  unfold RsnSecurity.add RsnElement.mfpCapable
  cases e.capabilities <;> rfl

theorem add_mfpRequired : (RsnSecurity.zero.add e).mfpRequired = e.mfpRequired := by
  unfold RsnSecurity.add RsnElement.mfpRequired
  cases e.capabilities <;> rfl

theorem add_management (hcapable : (RsnSecurity.zero.add e).mfpCapable = true)
    (hbip : (RsnSecurity.zero.add e).groupMgmtBipCmac = true) : e.mfpCapable = true ∧ e.managementSuite = suiteOf true 6 := by
  refine ⟨add_mfpCapable ▸ hcapable, ?_⟩
  unfold RsnSecurity.add at hbip
  unfold RsnElement.managementSuite
  cases hm : e.groupManagement with
  | none => rfl
  | some suite =>
    rw [hm] at hbip
    exact of_decide_eq_true hbip

theorem offers_of_flags {group pairwise akm : UInt8} (hprotocol : p.protocol = .rsn) (hgroup : group = cipherType p.groupCipher)
    (hpairwise : pairwise = cipherType p.pairwiseCipher) (hakm : akm = akmType p)
    (hg : e.group = suiteOf true group) (hp : suiteOf true pairwise ∈ e.pairwise) (ha : suiteOf true akm ∈ e.akms)
    (hm : p.mfpRequired = true → (RsnSecurity.zero.add e).mfpCapable = true ∧ (RsnSecurity.zero.add e).groupMgmtBipCmac = true) :
    e.Offers p where
  protocol := hprotocol
  group := hgroup ▸ hg
  pairwise := hpairwise ▸ hp
  akm := hakm ▸ ha
  management := fun h => add_management (hm h).1 (hm h).2

/-- What is promised of an RSN profile. -/
structure RsnElement.Selects (e : RsnElement) (p : WpaProfile) : Prop extends e.Offers p where
  enabled : p ∈ wpaProfiles
  protects : e.mfpRequired = true → p.mfpRequired = true

theorem selects_sae (hinfo : info.rsn = .add .zero e) (h : supplicantRsnSaeProfile info = some p) : e.Selects p := by
  unfold supplicantRsnSaeProfile at h
  rw [hinfo] at h
  split_ifs at h with hflags hciphers
  cases h
  simp only [not_or, Bool.not_eq_false] at hflags
  obtain ⟨hsae, hcapable, hbip⟩ := hflags
  exact ⟨offers_of_flags rfl rfl rfl rfl (of_decide_eq_true hciphers.2) (of_decide_eq_true hciphers.1)
    (of_decide_eq_true hsae) fun _ => ⟨hcapable, hbip⟩, by decide, fun _ => rfl⟩

theorem selects_sha256 (hinfo : info.rsn = .add .zero e) (h : supplicantRsnSha256Profile info = some p) : e.Selects p := by
  unfold supplicantRsnSha256Profile at h
  rw [hinfo] at h
  split_ifs at h with hflags hciphers
  cases h
  simp only [not_or, Bool.not_eq_false] at hflags
  obtain ⟨hsha256, hcapable, hbip⟩ := hflags
  exact ⟨offers_of_flags rfl rfl rfl rfl (of_decide_eq_true hciphers.2) (of_decide_eq_true hciphers.1)
    (of_decide_eq_true hsha256) fun _ => ⟨hcapable, hbip⟩, by decide, fun _ => rfl⟩

theorem selects_pmf (hpsk : (RsnSecurity.zero.add e).psk = true) (hpairwise : (RsnSecurity.zero.add e).pairwiseCcmp = true)
    (hgroup : (RsnSecurity.zero.add e).groupCcmp = true) (hcapable : (RsnSecurity.zero.add e).mfpCapable = true)
    (hbip : (RsnSecurity.zero.add e).groupMgmtBipCmac = true) : e.Selects wpa2CcmpPmfProfile :=
  ⟨offers_of_flags rfl rfl rfl rfl (of_decide_eq_true hgroup) (of_decide_eq_true hpairwise) (of_decide_eq_true hpsk)
    fun _ => ⟨hcapable, hbip⟩, by decide, fun _ => rfl⟩

theorem selects_open {group pairwise : UInt8} (henabled : p ∈ wpaProfiles) (hprotocol : p.protocol = .rsn)
    (hmfp : p.mfpRequired = false) (hgroup : group = cipherType p.groupCipher) (hpairwise : pairwise = cipherType p.pairwiseCipher)
    (hakm : 2 = akmType p) (hpsk : (RsnSecurity.zero.add e).psk = true) (hg : e.group = suiteOf true group)
    (hp : suiteOf true pairwise ∈ e.pairwise) (hrequired : ¬ (RsnSecurity.zero.add e).mfpRequired = true) : e.Selects p :=
  ⟨offers_of_flags hprotocol hgroup hpairwise hakm hg hp (of_decide_eq_true hpsk)
    fun h => absurd h (by rw [hmfp]; exact Bool.false_ne_true), henabled,
    fun h => absurd (add_mfpRequired.trans h) hrequired⟩

theorem selects_plain (hinfo : info.rsn = .add .zero e) (h : rsnPlainProfile info = some p) : e.Selects p := by
  unfold rsnPlainProfile at h
  by_cases hpsk : info.rsn.psk = false
  · rw [if_pos hpsk] at h
    rcases Option.or_eq_some_iff.mp h with hsha256 | ⟨-, hsae⟩
    · exact selects_sha256 hinfo hsha256
    · exact selects_sae hinfo hsae
  rw [if_neg hpsk] at h
  rw [Bool.not_eq_false] at hpsk
  rw [hinfo] at h hpsk
  by_cases hrequired : (RsnSecurity.zero.add e).mfpRequired = true
  · rw [if_pos hrequired] at h
    split_ifs at h with hflags
    cases h
    exact selects_pmf hpsk hflags.1 hflags.2.1 hflags.2.2.1 hflags.2.2.2
  rw [if_neg hrequired] at h
  split_ifs at h with hccmp htkip hccmp' hpair htkip hccmp'
  · cases h
    exact selects_open (by decide) rfl rfl rfl rfl rfl hpsk (of_decide_eq_true htkip) (of_decide_eq_true hccmp) hrequired
  · cases h
    exact selects_open (by decide) rfl rfl rfl rfl rfl hpsk (of_decide_eq_true hccmp') (of_decide_eq_true hccmp) hrequired
  · cases h
    exact selects_open (by decide) rfl rfl rfl rfl rfl hpsk (of_decide_eq_true htkip) (of_decide_eq_true hpair) hrequired
  · cases h
    exact selects_open (by decide) rfl rfl rfl rfl rfl hpsk (of_decide_eq_true hccmp') (of_decide_eq_true hpair) hrequired

theorem selects_rsn (hinfo : info.rsn = .add .zero e)
    (h : supplicantRsnProfile info preferSae preferSha256 requireMfp = some p) : e.Selects p := by
  unfold supplicantRsnProfile at h
  split_ifs at h with hseen hsae hmfp hflags hsha256
  · exact selects_sae hinfo h
  · cases h
    rw [hinfo] at hflags
    exact selects_pmf hflags.1 hflags.2.1 hflags.2.2.1 hflags.2.2.2.1 hflags.2.2.2.2
  · exact selects_sha256 hinfo h
  · exact selects_plain hinfo h

theorem offers_wpa (hinfo : info.wpa = .add .zero w) (h : supplicantWpaProfile info = some p) :
    p ∈ wpaProfiles ∧ w.Offers p := by
  unfold supplicantWpaProfile at h
  rw [hinfo] at h
  split_ifs at h with hseen hccmp hgroup htkip hboth
  · cases h
    have hpsk := (not_or.mp hseen).2
    rw [Bool.not_eq_false] at hpsk
    exact ⟨by decide, rfl, of_decide_eq_true hgroup, of_decide_eq_true hccmp, of_decide_eq_true hpsk, rfl⟩
  · cases h
    have hpsk := (not_or.mp hseen).2
    rw [Bool.not_eq_false] at hpsk
    exact ⟨by decide, rfl, of_decide_eq_true htkip, of_decide_eq_true hccmp, of_decide_eq_true hpsk, rfl⟩
  · cases h
    have hpsk := (not_or.mp hseen).2
    rw [Bool.not_eq_false] at hpsk
    exact ⟨by decide, rfl, of_decide_eq_true hboth.2, of_decide_eq_true hboth.1, of_decide_eq_true hpsk, rfl⟩

theorem mfp_of_request (h : supplicantRsnProfile info preferSae preferSha256 true = some p) : p.mfpRequired = true := by
  unfold supplicantRsnProfile at h
  split_ifs at h with hseen hsae hmfp
  · unfold supplicantRsnSaeProfile at h
    split_ifs at h
    cases h
    rfl
  · cases h
    rfl
  · exact absurd rfl hmfp
  · exact absurd rfl hmfp

end

/-- The parsers read inside of what they are given, come to an end, and take from it what a well-formed element says: of each kind
the first one, and nothing of a malformed one. -/
theorem security_elements_parsed (info : ApSecurity) (body ies : List UInt8) :
    supplicantParseRsnIe info body = some ((rsnElement body).isSome, info.add (rsnElement body) none) ∧
    supplicantParseWpaIe info body = some ((wpaElement body).isSome, info.add none (wpaElement body)) ∧
    supplicantParseApIes ies =
      some ((rsnOf ies).isSome || (wpaOf ies).isSome, ApSecurity.zero.add (rsnOf ies) (wpaOf ies)) :=
  ⟨supplicantParseRsnIe_eq info body, supplicantParseWpaIe_eq info body, supplicantParseApIes_eq ies⟩

/-- A profile is chosen from one element that offers all of it. Without an element it is the fixed one of the request. -/
theorem profile_offered (security : BitVec 32) (ies : List UInt8) : ∃ r, supplicantProfileForRequest security ies = some r ∧
    (rsnOf ies = none → wpaOf ies = none → r = supplicantProfile security) ∧
    ∀ p, r = some p → (rsnOf ies).isSome ∨ (wpaOf ies).isSome →
      (∃ e, rsnOf ies = some e ∧ e.Selects p ∧ security &&& (wpa2Security ||| wpa3Security) ≠ 0 ∧
        (security = securityWpa2AesCmac → p.mfpRequired = true)) ∨
      ∃ w, wpaOf ies = some w ∧ p ∈ wpaProfiles ∧ w.Offers p ∧ security &&& wpaSecurity ≠ 0 := by
  have hparse : (if ies = [] then some (false, ApSecurity.zero) else supplicantParseApIes ies) =
      some ((rsnOf ies).isSome || (wpaOf ies).isSome, ApSecurity.zero.add (rsnOf ies) (wpaOf ies)) := by
    by_cases hnil : ies = []
    · have hshort : elements ies = [] := elements_short (by rw [hnil]; decide)
      rw [if_pos hnil, rsnOf, wpaOf, hshort]
      rfl
    · rw [if_neg hnil, supplicantParseApIes_eq]
  unfold supplicantProfileForRequest
  rw [hparse, Option.map_some]
  dsimp only
  by_cases hsome : (rsnOf ies).isSome = true ∨ (wpaOf ies).isSome = true
  · rw [if_pos (Bool.or_eq_true _ _ ▸ hsome)]
    refine ⟨_, rfl, fun hrsn hwpa => ?_, fun p hp _ => ?_⟩
    · rw [hrsn, hwpa] at hsome
      exact absurd hsome (by decide)
    rcases Option.or_eq_some_iff.mp hp with hrsn | ⟨-, hwpa⟩
    · left
      split_ifs at hrsn with hallow
      cases he : rsnOf ies with
      | none =>
        rw [he] at hrsn
        cases hrsn
      | some e =>
        rw [he] at hrsn
        refine ⟨e, rfl, selects_rsn rfl hrsn, hallow, fun heq => ?_⟩
        rw [decide_eq_true heq] at hrsn
        exact mfp_of_request hrsn
    · right
      split_ifs at hwpa with hallow
      cases hw : wpaOf ies with
      | none =>
        rw [hw] at hwpa
        cases hwpa
      | some w =>
        rw [hw] at hwpa
        obtain ⟨henabled, hoffers⟩ := offers_wpa rfl hwpa
        exact ⟨w, rfl, henabled, hoffers, hallow⟩
  · rw [if_neg (by rw [Bool.or_eq_true]; exact hsome)]
    exact ⟨_, rfl, fun _ _ => rfl, fun p _ h => absurd h hsome⟩

end

end RtSmart.SecurityIe
