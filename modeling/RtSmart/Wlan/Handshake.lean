import RtSmart.Wlan.HostapdAuthorized
import RtSmart.Wlan.KeyData

/-! A WPA2 handshake between the two sides, each of which gets the frames that the other one sends. -/

namespace RtSmart.Handshake

open Lib
open KeyData (bytesAt_eq)

/-! The two sides derive one key. -/

section Keys

variable {c : SupplicantCrypto} {cfg : HostapdConfig}

theorem length_ordered (l m : List UInt8) : (ordered l m).length = l.length + m.length := by
  unfold ordered
  split_ifs
  · exact List.length_append
  · rw [List.length_append, Nat.add_comm]

theorem wpaPrf_val {c : WlanCrypto} {key label data : List UInt8} {n : ℕ} {output : Bytes n}
    (h : label.length + data.length + 2 ≤ 128) : (wpaPrf c key label data output).1 =
      prfLoop (fun counter => c.hmacSha1 key (label ++ 0 :: (data ++ [counter]))) n 0 n := by
  rw [wpaPrf, if_neg (by omega)]
  exact Block.val_ofList 0 (prfLoop_length _ 0 le_rfl)

theorem hostapdPtk_eq (mac : Bytes 6) (anonce snonce : Bytes 32) (output : Bytes 64) :
    (hostapdPtk c.toWlanCrypto cfg mac anonce snonce).1 =
      (supplicantPtk c wpa2CcmpProfile cfg.pmk cfg.address mac anonce snonce output).1.take 48 := by
  have hlength : pairwiseLabel.length + (ordered cfg.address.1 mac.1 ++ ordered anonce.1 snonce.1).length + 2 ≤ 128 := by
    rw [List.length_append, length_ordered, length_ordered, cfg.address.2, mac.2, anonce.2, snonce.2]
    decide
  rw [hostapdPtk, wpaPrf_val hlength, supplicantPtk, if_neg (by decide), wpaPrf_val hlength]
  exact (prfLoop_take _ 0 (by decide) le_rfl le_rfl).symm

end Keys

/-! The counters of an authenticator come in the order that a station asks for. -/

def digits (n v : ℕ) : List UInt8 := (List.range n).map fun i => UInt8.ofNat (v / 256 ^ (n - 1 - i))

theorem digits_succ (n v : ℕ) : digits (n + 1) v = UInt8.ofNat (v / 256 ^ n) :: digits n v := by
  unfold digits
  rw [List.range_succ_eq_map, List.map_cons, List.map_map]
  congr 1
  apply List.map_congr_left
  intro i _
  change UInt8.ofNat (v / 256 ^ (n + 1 - 1 - (i + 1))) = UInt8.ofNat (v / 256 ^ (n - 1 - i))
  rw [show n + 1 - 1 - (i + 1) = n - 1 - i by omega]

theorem memLt_digits {a b n : ℕ} (h : a % 256 ^ n ≤ b % 256 ^ n) : memLt (digits n b) (digits n a) = false := by
  induction n with
  | zero => rfl
  | succ n ih =>
    rw [Nat.mod_pow_succ, Nat.mod_pow_succ] at h
    rw [digits_succ, digits_succ, memLt]
    split_ifs with hdigit
    · apply ih
      have heq : b / 256 ^ n % 256 = a / 256 ^ n % 256 := by
        rw [← UInt8.toNat_ofNat', ← UInt8.toNat_ofNat', hdigit]
      rw [heq] at h
      exact Nat.le_of_add_le_add_right h
    · apply decide_eq_false
      intro hlt
      rw [UInt8.lt_iff_toNat_lt, UInt8.toNat_ofNat', UInt8.toNat_ofNat'] at hlt
      have hmul : 256 ^ n * (b / 256 ^ n % 256 + 1) ≤ 256 ^ n * (a / 256 ^ n % 256) := Nat.mul_le_mul_left _ hlt
      have hmod : b % 256 ^ n < 256 ^ n := Nat.mod_lt _ (Nat.pow_pos (by decide))
      rw [Nat.mul_add_one] at hmul
      omega

section Counter

variable {k : BitVec 64}

theorem toNat_nextReplay (h : k.toNat + 1 < 2 ^ 64) : (nextReplay k).toNat = k.toNat + 1 := by
  have hadd : (k + 1).toNat = k.toNat + 1 := (BitVec.toNat_add k 1).trans (Nat.mod_eq_of_lt h)
  have hzero : k + 1 ≠ 0 := by
    intro heq
    rw [heq] at hadd
    exact Nat.succ_ne_zero _ hadd.symm
  rw [nextReplay, if_neg hzero, hadd]

theorem memLt_nextReplay (h : k.toNat + 1 < 2 ^ 64) : memLt (replayBytes (nextReplay k)).1 (replayBytes k).1 = false := by
  have hle : k.toNat % 256 ^ 8 ≤ (nextReplay k).toNat % 256 ^ 8 := by
    rw [toNat_nextReplay h, Nat.mod_eq_of_lt (by omega), Nat.mod_eq_of_lt (by omega)]
    omega
  exact memLt_digits hle

end Counter

/-! The run of both. -/

/-- What the station's thread does with a frame that it takes all the way. -/
def answers (u : ℕ) (source own : Bytes 6) (frame : List UInt8) : List SupplicantEvent :=
  .frame u source own frame .full :: (SupplicantSys.driverCalls u ++ [.commit u true])

def installs (a : Hostapd) (t : ℕ) (own address : Bytes 6) (frame : List UInt8) : List HostapdEvent :=
  .eapol t own address frame :: (a.gtkEvents t ++ [.pairwiseAdded t true, .message3 t, .message3Sent t true])

/-- The four messages go through, each side taking what the other one has sent last: the station installs its keys and opens its
port, and the authenticator, which has the same key, comes to where it opens its own. -/
def Completes (c : SupplicantCrypto) (cfg : HostapdConfig) (a : Hostapd) (b : SupplicantSys) (t u i : ℕ) (anonce : Bytes 32) :
    Prop :=
  ∃ a₁ b₁ a₂ b₂ a₃ frame2 frame4,
    run (Hostapd.step c.toWlanCrypto cfg) a [.associate t true (anonce, true), .assocSent t true] = some a₁ ∧
    run (SupplicantSys.step c) b (answers u cfg.address b.session.ownAddress (a₁.station i).lastEapol) = some b₁ ∧
    b₁.trace = .transmit b.attempt cfg.address frame2 true :: .message1 b.attempt anonce :: b.trace ∧
    run (Hostapd.step c.toWlanCrypto cfg) a₁ (installs a t b.session.ownAddress cfg.address frame2) = some a₂ ∧
    run (SupplicantSys.step c) b₁ (answers u cfg.address b.session.ownAddress (a₂.station i).lastEapol) = some b₂ ∧
    b₂.trace = .authorize b.attempt cfg.address true :: .transmit b.attempt cfg.address frame4 true ::
      .pairwiseKey b.attempt cfg.address (((a₂.station i).ptk.1.drop 32).take 16) true ::
      .groupKey b.attempt false (a₂.station i).replay 1 cfg.gtk.1 true ::
      .message3 b.attempt wpa2CcmpProfile b₂.session.ptk (a₂.station i).lastEapol :: b₁.trace ∧
    b₂.session.state = .connected ∧ (a₂.station i).ptk.1 = b₂.session.ptk.1.take 48 ∧
    Hostapd.step c.toWlanCrypto cfg a₂ (.eapol t b.session.ownAddress cfg.address frame4) = some a₃ ∧
    a₃.pc t = .authorize (a.held i (a₂.station i).ptk) ∧ a₃.station i = a₂.station i

section

variable {c : SupplicantCrypto} {cfg : HostapdConfig} {a : Hostapd} {b : SupplicantSys} {t u i : ℕ}

/-- An access point and a station that have one passphrase, whatever has gone on before in either of them. -/
theorem handshake_completes (anonce : Bytes 32) (hassoc : a.pc t = .assocAdd b.session.ownAddress)
    (hfind : a.find cfg b.session.ownAddress = some i) (hidle : b.pc u = .idle)
    (hprofile : b.session.profile = some wpa2CcmpProfile)
    (hstate : b.session.state = .associating ∨ b.session.state = .waitM1)
    (hbssid : b.session.bssid = zeroBytes 6 ∨ b.session.bssid = cfg.address) (hpmk : b.session.pmk = cfg.pmk)
    (hcounter : a.replayCounter.toNat + 2 < 2 ^ 64) : Completes c cfg a b t u i anonce := by
  set own := b.session.ownAddress with hown
  set k := nextReplay a.replayCounter with hk
  set ptk := hostapdPtk c.toWlanCrypto cfg own anonce b.session.snonce with hptk
  set x := b.session.derived c cfg.address (replayBytes k) anonce with hx
  have hkey : ptk.1 = x.ptk.1.take 48 := by
    change _ =
      (supplicantPtk c wpa2CcmpProfile b.session.pmk cfg.address own anonce b.session.snonce b.session.ptk).1.take 48
    rw [hpmk]
    exact hostapdPtk_eq _ _ _ _
  have hmicKey : x.ptk.1.take 16 = ptk.1.take 16 := by
    rw [hkey, List.take_take]
    rfl
  have hkek : bytesAt 16 16 x.ptk.1 = bytesAt 16 16 ptk.1 := by
    apply Subtype.ext
    rw [← bytesAt_eq (by rw [x.ptk.2]; decide), ← bytesAt_eq (by rw [ptk.2]; decide), hkey, List.drop_take, List.take_take]
    rfl
  have hpairwise : (x.ptk.1.drop 32).take 16 = (ptk.1.drop 32).take 16 := by
    rw [hkey, List.drop_take, List.take_take]
    rfl
  obtain ⟨_, _, hmac⟩ := Hostapd.find_some hfind
  obtain ⟨wrapped, hwrap, hlen, hanswered⟩ :=
    @Hostapd.run_answered c.toWlanCrypto cfg a t i own anonce b.session.snonce 2 16 hfind
  set replay := replayBytes (nextReplay k) with hreplay
  have hmessage2 : message2 c.toWlanCrypto x.ptk (replayBytes k) b.session.snonce =
      message2 c.toWlanCrypto ptk (replayBytes k) b.session.snonce := signedFrame_congr hmicKey
  have hmessage3 : message3 c.toWlanCrypto x.ptk replay anonce wrapped =
      message3 c.toWlanCrypto ptk replay anonce wrapped := signedFrame_congr hmicKey
  have hmessage4 : message4 c.toWlanCrypto x.ptk replay = message4 c.toWlanCrypto ptk replay := signedFrame_congr hmicKey
  have hunwrap : aesUnwrap c.toWlanCrypto (bytesAt 16 16 x.ptk.1) wrapped = some (message3Plain cfg) := by
    rw [hkek]
    exact aesUnwrap_aesWrap _ _ hwrap
  have hlater : memLt replay.1 (replayBytes k).1 = false := by
    apply memLt_nextReplay
    rw [hk, toNat_nextReplay (by omega)]
    omega
  have hfirst := @SupplicantSys.run_message1 c b u cfg.address (replayBytes k) anonce hidle hprofile hstate hbssid
  rw [← hx, hmessage2] at hfirst
  set b₁ : SupplicantSys := { b with
    session := x
    trace := .transmit b.attempt cfg.address (message2 c.toWlanCrypto ptk (replayBytes k) b.session.snonce) true ::
      .message1 b.attempt anonce :: b.trace } with hb₁
  have hsecond := @SupplicantSys.run_message3 c cfg b₁ u replay anonce wrapped hidle hprofile rfl ⟨rfl, rfl, rfl⟩ hlater
    hunwrap hlen
  change run _ b₁ (answers u cfg.address own (message3 c.toWlanCrypto x.ptk replay anonce wrapped)) =
    some (b₁.handling u _ false (.authorize b.attempt cfg.address true ::
      .transmit b.attempt cfg.address (message4 c.toWlanCrypto x.ptk replay) true ::
      .pairwiseKey b.attempt cfg.address ((x.ptk.1.drop 32).take 16) true :: _) _) at hsecond
  rw [hmessage3, hmessage4, hpairwise] at hsecond
  obtain ⟨b₂, hinstalled, htrace, hconnected, hsame⟩ : ∃ b₂,
      run (SupplicantSys.step c) b₁ (answers u cfg.address own (message3 c.toWlanCrypto ptk replay anonce wrapped)) = some b₂ ∧
      b₂.trace = .authorize b.attempt cfg.address true ::
        .transmit b.attempt cfg.address (message4 c.toWlanCrypto ptk replay) true ::
        .pairwiseKey b.attempt cfg.address ((ptk.1.drop 32).take 16) true ::
        .groupKey b.attempt false replay 1 cfg.gtk.1 true ::
        .message3 b.attempt wpa2CcmpProfile x.ptk (message3 c.toWlanCrypto ptk replay anonce wrapped) :: b₁.trace ∧
      b₂.session.state = .connected ∧ b₂.session.ptk = x.ptk := ⟨_, hsecond, rfl, rfl, rfl⟩
  set x₃ := (a.station i).answered c.toWlanCrypto a.replayCounter ptk anonce b.session.snonce wrapped with hx₃
  set l2 : List AcceptedMessage :=
    ⟨some a.stamp, own, ptk, message2 c.toWlanCrypto ptk (replayBytes k) b.session.snonce⟩ :: a.accepted2
  obtain ⟨a₃, hauthorized, hpc, hstation⟩ : ∃ a₃,
      Hostapd.step c.toWlanCrypto cfg (a.session t i x₃ (nextReplay k) true .idle l2 a.accepted4)
        (.eapol t own cfg.address (message4 c.toWlanCrypto ptk replay)) = some a₃ ∧
      a₃.pc t = .authorize (a.held i ptk) ∧ a₃.station i = x₃ :=
    ⟨_, Hostapd.step_message4 hfind rfl hmac rfl rfl, Hostapd.session_pc, Hostapd.session_station⟩
  refine ⟨_, b₁, _, b₂, a₃, _, _, Hostapd.run_asked hassoc hfind, ?_, rfl, hanswered, ?_, ?_, hconnected, ?_, hauthorized, ?_,
    ?_⟩
  · rw [Hostapd.session_station]
    exact hfirst
  · rw [Hostapd.session_station]
    exact hinstalled
  · rw [Hostapd.session_station, hsame]
    exact htrace
  · rw [Hostapd.session_station, hsame]
    exact hkey
  · rw [Hostapd.session_station]
    exact hpc
  · rw [Hostapd.session_station]
    exact hstation

/-- The station that joins the access point of `demoHostapd` first. -/
theorem handshake_completes_demo : Completes SupplicantSys.nullSupplicant Hostapd.demoHostapd Hostapd.asked
    (SupplicantSys.start.prepare SupplicantSys.demoRequest) 0 0 0 (zeroBytes 32) :=
  handshake_completes (zeroBytes 32) rfl rfl rfl rfl (.inl rfl) (.inr rfl) rfl (by decide)

end

end RtSmart.Handshake
