import RtSmart.Wlan.HostapdInv

/-! The run of one station that associates and answers both messages. -/

namespace RtSmart

open Lib

def Station.asked (x : Station) (counter : BitVec 64) (anonce : Bytes 32) : Station :=
  { x with
    firmwareAdded := true, replay := replayBytes (nextReplay counter), anonce := anonce, state := .waitM2
    lastEapol := keyFrame 2 2 message1Info 16 (replayBytes (nextReplay counter)) anonce (zeroBytes 16) [] }

def Station.answered (c : WlanCrypto) (x : Station) (counter : BitVec 64) (ptk : Bytes 48) (anonce snonce : Bytes 32)
    (wrapped : List UInt8) : Station :=
  { x.asked counter anonce with
    snonce := snonce, ptk := ptk, replay := replayBytes (nextReplay (nextReplay counter)), state := .waitM4
    lastEapol := signedFrame c ptk 2 message3Info 16 (replayBytes (nextReplay (nextReplay counter))) anonce wrapped }

namespace Hostapd

/-- `s` after thread `t` has begun an association in slot `i`, with what the handshake changes from then on. -/
def session (s : Hostapd) (t i : ℕ) (x : Station) (k : BitVec 64) (g : Bool) (p : HostapdPc)
    (accepted2 accepted4 : List AcceptedMessage) : Hostapd :=
  { s with
    station := Function.update s.station i x
    gtkInstalled := g
    replayCounter := k
    pc := Function.update s.pc t p
    association := Function.update s.association i (some s.stamp)
    stamp := s.stamp + 1
    accepted2 := accepted2
    accepted4 := accepted4 }

variable {c : WlanCrypto} {cfg : HostapdConfig} {s : Hostapd} {t i : ℕ} {mac : Bytes 6} {x : Station} {k : BitVec 64}
  {g : Bool} {p : HostapdPc} {l2 l4 : List AcceptedMessage}

theorem session_pc : (s.session t i x k g p l2 l4).pc t = p := Function.update_self _ _ _

theorem session_station : (s.session t i x k g p l2 l4).station i = x := Function.update_self _ _ _

theorem session_station_of_ne {j : ℕ} (hj : j ≠ i) : (s.session t i x k g p l2 l4).station j = s.station j :=
  Function.update_of_ne hj _ _

theorem session_ref : (s.session t i x k g p l2 l4).ref i = ⟨i, s.occupancy i, some s.stamp, x.ptk⟩ := by
  simp only [ref, session, Function.update_self]

theorem session_goto {p' : HostapdPc} : (s.session t i x k g p l2 l4).goto t p' = s.session t i x k g p' l2 l4 := by
  simp only [goto, session, Function.update_idem]

theorem session_setStation {x' : Station} :
    (s.session t i x k g p l2 l4).setStation i x' = s.session t i x' k g p l2 l4 := by
  simp only [setStation, session, Function.update_idem]

theorem session_find (hfind : s.find cfg mac = some i) (hx : x.state ≠ .free) (hmac : x.mac = mac) :
    (s.session t i x k g p l2 l4).find cfg mac = some i := by
  obtain ⟨_, hocc, hold⟩ := find_some hfind
  rw [← hfind, find, find]
  congr 1
  funext j
  by_cases hj : j = i
  · rw [hj, session_station, hmac, hold, decide_eq_true hx, decide_eq_true hocc]
  · rw [session_station_of_ne hj]

/-! The steps of the handshake. -/

theorem step_associate {random : Bytes 32 × Bool} (hpc : s.pc t = .assocAdd mac) (hfind : s.find cfg mac = some i) :
    step c cfg s (.associate t true random) =
      some ((s.associate c i random).1.goto t (.assocSend mac (s.associate c i random).2)) := by
  simp only [step, hpc, hfind, if_true]

theorem associate_eq {anonce : Bytes 32} : s.associate c i (anonce, true) =
    (s.session t i (Station.asked (s.station i) s.replayCounter anonce) (nextReplay s.replayCounter) s.gtkInstalled
      (s.pc t) s.accepted2 s.accepted4, true) := by
  simp only [associate, hostapdBuildMessage1_built, setStation, session, Function.update_eq_self, Station.asked,
    if_true]

theorem step_assocSent (hfind : s.find cfg mac = some i) (hx : x.state ≠ .free) (hmac : x.mac = mac) :
    step c cfg (s.session t i x k g (.assocSend mac true) l2 l4) (.assocSent t true) =
      some (s.session t i x k g .idle l2 l4) := by
  simp only [step, session_pc, session_find hfind hx hmac, session_goto, and_self, if_true]

theorem step_eapol {data frame : List UInt8} (hdata : hostapdFrame data = some frame)
    (hfind : s.find cfg mac = some i) (hx : x.state ≠ .free) (hmac : x.mac = mac) :
    step c cfg (s.session t i x k g .idle l2 l4) (.eapol t mac cfg.address data) =
      some ((s.session t i x k g .idle l2 l4).receive c cfg t i mac frame) := by
  simp only [step, session_pc, hdata, session_find hfind hx hmac, if_true]

/-- What the handler holds of the station in slot `i`. -/
abbrev held (s : Hostapd) (i : ℕ) (ptk : Bytes 48) : StationRef := ⟨i, s.occupancy i, some s.stamp, ptk⟩

theorem step_message2 {ptk : Bytes 48} {version : UInt8} {keyLength : BitVec 16} {replay : Bytes 8} {snonce : Bytes 32}
    (hfind : s.find cfg mac = some i) (hx : x.state = .waitM2) (hmac : x.mac = mac) (hreplay : x.replay = replay)
    (hptk : hostapdPtk c cfg mac x.anonce snonce = ptk) :
    step c cfg (s.session t i x k g .idle l2 l4)
      (.eapol t mac cfg.address (signedFrame c ptk version message2Info keyLength replay snonce hostapdRsnIe)) =
    some (s.session t i { x with snonce := snonce, ptk := ptk } k g
      (if g then .installPairwise (s.held i ptk) else .installGtk (s.held i ptk))
      (⟨some s.stamp, mac, ptk, signedFrame c ptk version message2Info keyLength replay snonce hostapdRsnIe⟩ :: l2)
      l4) := by
  subst hmac hreplay hptk
  have hocc : x.state ≠ .free := by
    rw [hx]
    intro hfree
    cases hfree
  have hassoc : (s.session t i x k g .idle l2 l4).association i = some s.stamp := Function.update_self _ _ _
  rw [step_eapol (hostapdFrame_signed (by decide) (by decide) (by decide)) hfind hocc rfl]
  simp only [receive, session_station, hostapdEapol_message2 hx, session_setStation, session_ref, hassoc]
  exact congrArg some session_goto

theorem step_message4 {ptk : Bytes 48} {version : UInt8} {keyLength : BitVec 16} {replay : Bytes 8} {nonce : Bytes 32}
    (hfind : s.find cfg mac = some i) (hx : x.state = .waitM4) (hmac : x.mac = mac) (hreplay : x.replay = replay)
    (hptk : x.ptk = ptk) :
    step c cfg (s.session t i x k g .idle l2 l4)
      (.eapol t mac cfg.address (signedFrame c ptk version message4Info keyLength replay nonce [])) =
    some (s.session t i x k g (.authorize (s.held i ptk)) l2
      (⟨some s.stamp, mac, ptk, signedFrame c ptk version message4Info keyLength replay nonce []⟩ :: l4)) := by
  subst hmac hreplay hptk
  have hocc : x.state ≠ .free := by
    rw [hx]
    intro hfree
    cases hfree
  have hassoc : (s.session t i x k g .idle l2 l4).association i = some s.stamp := Function.update_self _ _ _
  rw [step_eapol (hostapdFrame_signed (Nat.zero_le _) (by decide) (by decide)) hfind hocc rfl]
  simp only [receive, session_station, hostapdEapol_message4 hx, session_setStation, session_ref, hassoc]
  exact congrArg some session_goto

theorem step_message3 {r : StationRef} (hr : r.slot = i) : ∃ wrapped,
    aesWrap c (bytesAt 16 16 x.ptk.1) (message3Plain cfg) = some wrapped ∧ wrapped.length = 56 ∧
    step c cfg (s.session t i x k g (.buildMessage3 r) l2 l4) (.message3 t) =
      some (s.session t i { x with
        replay := replayBytes (nextReplay k), state := .waitM4
        lastEapol := signedFrame c x.ptk 2 message3Info 16 (replayBytes (nextReplay k)) x.anonce wrapped }
        (nextReplay k) g (.sendMessage3 r) l2 l4) := by
  obtain ⟨wrapped, hwrap, hlen, hbuild⟩ := hostapdBuildMessage3_built c cfg x k
  refine ⟨wrapped, hwrap, hlen, ?_⟩
  subst hr
  have hcounter : (s.session t r.slot x k g (.buildMessage3 r) l2 l4).replayCounter = k := rfl
  simp only [step, session_pc, message3, session_station, hcounter, hbuild, session_setStation]
  exact congrArg some session_goto

def gtkEvents (s : Hostapd) (t : ℕ) : List HostapdEvent :=
  if s.gtkInstalled then [] else [.checkGtk t, .gtkAdded t true]

theorem run_gtk {ptk : Bytes 48} : run (step c cfg) (s.session t i x k s.gtkInstalled
      (if s.gtkInstalled then .installPairwise (s.held i ptk) else .installGtk (s.held i ptk)) l2 l4) (s.gtkEvents t) =
    some (s.session t i x k true (.installPairwise (s.held i ptk)) l2 l4) := by
  cases hg : s.gtkInstalled with
  | true =>
    rw [gtkEvents, if_pos hg]
    rfl
  | false =>
    have hcheck : step c cfg (s.session t i x k false (.installGtk (s.held i ptk)) l2 l4) (.checkGtk t) =
        some (s.session t i x k false (.addGtk (s.held i ptk)) l2 l4) := by
      simp only [step, session_pc, session_goto]
      rfl
    have hadd : step c cfg (s.session t i x k false (.addGtk (s.held i ptk)) l2 l4) (.gtkAdded t true) =
        some (s.session t i x k true (.installPairwise (s.held i ptk)) l2 l4) := by
      simp only [step, session_pc, if_true]
      exact congrArg some session_goto
    rw [gtkEvents, hg, if_neg Bool.false_ne_true, if_neg Bool.false_ne_true, run, hcheck, Option.bind_some, run, hadd]
    rfl

variable (c cfg)

def handshake (s : Hostapd) (t : ℕ) (mac : Bytes 6) (anonce : Bytes 32) (message2 message4 : List UInt8) :
    List HostapdEvent :=
  ([.associate t true (anonce, true), .assocSent t true, .eapol t mac cfg.address message2] : List HostapdEvent) ++
    (s.gtkEvents t ++ [.pairwiseAdded t true, .message3 t, .message3Sent t true, .eapol t mac cfg.address message4])

variable {c cfg}

theorem run_asked {anonce : Bytes 32} (hpc : s.pc t = .assocAdd mac) (hfind : s.find cfg mac = some i) :
    run (step c cfg) s [.associate t true (anonce, true), .assocSent t true] =
      some (s.session t i ((s.station i).asked s.replayCounter anonce) (nextReplay s.replayCounter) s.gtkInstalled .idle
        s.accepted2 s.accepted4) := by
  obtain ⟨_, _, rfl⟩ := find_some hfind
  set x1 := (s.station i).asked s.replayCounter anonce
  set k1 := nextReplay s.replayCounter
  have hfirst : step c cfg s (.associate t true (anonce, true)) =
      some (s.session t i x1 k1 s.gtkInstalled (.assocSend (s.station i).mac true) s.accepted2 s.accepted4) := by
    rw [step_associate hpc hfind, associate_eq (t := t), session_goto]
  have hsent : step c cfg (s.session t i x1 k1 s.gtkInstalled (.assocSend (s.station i).mac true) s.accepted2
      s.accepted4) (.assocSent t true) = some (s.session t i x1 k1 s.gtkInstalled .idle s.accepted2 s.accepted4) :=
    step_assocSent hfind (fun hfree => by cases hfree) rfl
  rw [run, hfirst, Option.bind_some, run, hsent]
  rfl

theorem run_answered {anonce snonce : Bytes 32} {version : UInt8} {keyLength : BitVec 16}
    (hfind : s.find cfg mac = some i) : ∃ wrapped,
    aesWrap c (bytesAt 16 16 (hostapdPtk c cfg mac anonce snonce).1) (message3Plain cfg) = some wrapped ∧
    wrapped.length = 56 ∧
    run (step c cfg) (s.session t i ((s.station i).asked s.replayCounter anonce) (nextReplay s.replayCounter)
      s.gtkInstalled .idle s.accepted2 s.accepted4)
      (.eapol t mac cfg.address (signedFrame c (hostapdPtk c cfg mac anonce snonce) version message2Info keyLength
          (replayBytes (nextReplay s.replayCounter)) snonce hostapdRsnIe) ::
        (s.gtkEvents t ++ [.pairwiseAdded t true, .message3 t, .message3Sent t true])) =
    some (s.session t i
      ((s.station i).answered c s.replayCounter (hostapdPtk c cfg mac anonce snonce) anonce snonce wrapped)
      (nextReplay (nextReplay s.replayCounter)) true .idle
      (⟨some s.stamp, mac, hostapdPtk c cfg mac anonce snonce,
        signedFrame c (hostapdPtk c cfg mac anonce snonce) version message2Info keyLength
          (replayBytes (nextReplay s.replayCounter)) snonce hostapdRsnIe⟩ :: s.accepted2) s.accepted4) := by
  obtain ⟨_, _, rfl⟩ := find_some hfind
  set ptk := hostapdPtk c cfg (s.station i).mac anonce snonce with hptk
  set l2 := AcceptedMessage.mk _ _ _ _ :: s.accepted2
  set k1 := nextReplay s.replayCounter
  let x1 := (s.station i).asked s.replayCounter anonce
  let x2 := { x1 with snonce := snonce, ptk := ptk }
  have hmessage2 : step c cfg (s.session t i x1 k1 s.gtkInstalled .idle s.accepted2 s.accepted4)
      (.eapol t (s.station i).mac cfg.address
        (signedFrame c ptk version message2Info keyLength (replayBytes k1) snonce hostapdRsnIe)) =
      some (s.session t i x2 k1 s.gtkInstalled
        (if s.gtkInstalled then .installPairwise (s.held i ptk) else .installGtk (s.held i ptk)) l2 s.accepted4) :=
    step_message2 hfind rfl rfl rfl hptk.symm
  have hpairwise : step c cfg (s.session t i x2 k1 true (.installPairwise (s.held i ptk)) l2 s.accepted4)
      (.pairwiseAdded t true) = some (s.session t i x2 k1 true (.buildMessage3 (s.held i ptk)) l2 s.accepted4) := by
    simp only [step, session_pc, session_goto]
    rfl
  obtain ⟨wrapped, hwrap, hlen, hmessage3⟩ : ∃ wrapped,
      aesWrap c (bytesAt 16 16 x2.ptk.1) (message3Plain cfg) = some wrapped ∧ wrapped.length = 56 ∧
      step c cfg (s.session t i x2 k1 true (.buildMessage3 (s.held i ptk)) l2 s.accepted4) (.message3 t) =
        some (s.session t i ((s.station i).answered c s.replayCounter ptk anonce snonce wrapped) (nextReplay k1) true
          (.sendMessage3 (s.held i ptk)) l2 s.accepted4) := step_message3 rfl
  let x3 := (s.station i).answered c s.replayCounter ptk anonce snonce wrapped
  have hsent3 : step c cfg (s.session t i x3 (nextReplay k1) true (.sendMessage3 (s.held i ptk)) l2 s.accepted4)
      (.message3Sent t true) = some (s.session t i x3 (nextReplay k1) true .idle l2 s.accepted4) := by
    simp only [step, session_pc, session_goto]
    rfl
  refine ⟨wrapped, hwrap, hlen, ?_⟩
  rw [run, hmessage2, Option.bind_some]
  apply run_append run_gtk
  rw [run, hpairwise, Option.bind_some, run, hmessage3, Option.bind_some, run, hsent3]
  rfl

theorem run_handshake {anonce snonce nonce : Bytes 32} {version : UInt8} {keyLength keyLength' : BitVec 16}
    (hpc : s.pc t = .assocAdd mac) (hfind : s.find cfg mac = some i) : ∃ wrapped,
    aesWrap c (bytesAt 16 16 (hostapdPtk c cfg mac anonce snonce).1) (message3Plain cfg) = some wrapped ∧
    run (step c cfg) s (s.handshake cfg t mac anonce
      (signedFrame c (hostapdPtk c cfg mac anonce snonce) version message2Info keyLength
        (replayBytes (nextReplay s.replayCounter)) snonce hostapdRsnIe)
      (signedFrame c (hostapdPtk c cfg mac anonce snonce) version message4Info keyLength'
        (replayBytes (nextReplay (nextReplay s.replayCounter))) nonce [])) =
    some (s.session t i
      ((s.station i).answered c s.replayCounter (hostapdPtk c cfg mac anonce snonce) anonce snonce wrapped)
      (nextReplay (nextReplay s.replayCounter)) true (.authorize (s.held i (hostapdPtk c cfg mac anonce snonce)))
      (⟨some s.stamp, mac, hostapdPtk c cfg mac anonce snonce,
        signedFrame c (hostapdPtk c cfg mac anonce snonce) version message2Info keyLength
          (replayBytes (nextReplay s.replayCounter)) snonce hostapdRsnIe⟩ :: s.accepted2)
      (⟨some s.stamp, mac, hostapdPtk c cfg mac anonce snonce,
        signedFrame c (hostapdPtk c cfg mac anonce snonce) version message4Info keyLength'
          (replayBytes (nextReplay (nextReplay s.replayCounter))) nonce []⟩ :: s.accepted4)) := by
  obtain ⟨_, _, rfl⟩ := find_some hfind
  set ptk := hostapdPtk c cfg (s.station i).mac anonce snonce
  obtain ⟨wrapped, hwrap, _, hanswered⟩ := @run_answered c cfg s t i _ anonce snonce version keyLength hfind
  refine ⟨wrapped, hwrap, ?_⟩
  have hsplit : ∀ message2 message4 : List UInt8, s.handshake cfg t (s.station i).mac anonce message2 message4 =
      ([.associate t true (anonce, true), .assocSent t true] : List HostapdEvent) ++
        ((.eapol t (s.station i).mac cfg.address message2 ::
          (s.gtkEvents t ++ ([.pairwiseAdded t true, .message3 t, .message3Sent t true] : List HostapdEvent)) :
            List HostapdEvent) ++ [.eapol t (s.station i).mac cfg.address message4]) := by
    intro message2 message4
    simp only [handshake, List.cons_append, List.append_assoc, List.nil_append]
  rw [hsplit]
  apply run_append (run_asked hpc hfind)
  apply run_append hanswered
  have hmessage4 := @step_message4 c cfg s t i (s.station i).mac
    ((s.station i).answered c s.replayCounter ptk anonce snonce wrapped) (nextReplay (nextReplay s.replayCounter)) true
    (⟨some s.stamp, (s.station i).mac, ptk, signedFrame c ptk version message2Info keyLength
      (replayBytes (nextReplay s.replayCounter)) snonce hostapdRsnIe⟩ :: s.accepted2) s.accepted4 ptk version keyLength'
    (replayBytes (nextReplay (nextReplay s.replayCounter))) nonce hfind rfl rfl rfl rfl
  rw [run, hmessage4]
  rfl

end Hostapd

end RtSmart
