import RtSmart.Wlan.SupplicantHandshake

/-! One connection attempt: what comes before the port is authorized. -/

namespace RtSmart

open Lib
open Hostapd (demoStation)

abbrev supplicantPairwiseKey (p : WpaProfile) (ptk : Bytes 64) : List UInt8 :=
  tkipOrder p.pairwiseCipher ((ptk.1.drop 32).take (supplicantCipherKeyLength p.pairwiseCipher))

def SupplicantState.early : SupplicantState → Bool
  | .saeWaitExternal | .saeWaitCommit | .saeWaitConfirm | .associating | .waitM1 | .waitM3 => true
  | .idle | .installing | .waitG1 | .connected => false

def SupplicantState.keyed : SupplicantState → Bool
  | .associating | .waitM1 | .waitM3 => true
  | _ => false

def SupplicantStage.installed : SupplicantStage → Bool
  | .gtk | .defaultKey | .pairwise => false
  | .igtk | .transmit | .authorize | .commit => true

def SupplicantPc.installs : SupplicantPc → Bool
  | .work _ _ w => w.installPairwise
  | _ => false

def SupplicantTrace.isPairwiseKey : SupplicantTrace → Bool
  | .pairwiseKey .. => true
  | _ => false

def SupplicantTrace.isInstalled : SupplicantTrace → Bool
  | .pairwiseKey a _ _ ok => a = 1 && ok
  | _ => false

abbrev pairwiseInstalls (l : List SupplicantTrace) : ℕ := l.countP SupplicantTrace.isPairwiseKey

section Attempt

variable (c : SupplicantCrypto) (r : SupplicantRequest)

/-- A message 3 was accepted whose MIC is right under the key of the PMK, of a message 1 and of the own nonce. -/
def Proven (l : List SupplicantTrace) (key : List UInt8) : Prop :=
  ∃ pmk anonce bssid output frame, .key 1 pmk ∈ l ∧ .message1 1 anonce ∈ l ∧
    .message3 1 r.profile (supplicantPtk c r.profile pmk bssid r.ownAddress anonce r.snonce output) frame ∈ l ∧
    supplicantVerifyMic c r.profile true (supplicantPtk c r.profile pmk bssid r.ownAddress anonce r.snonce output) frame =
      true ∧
    key = supplicantPairwiseKey r.profile (supplicantPtk c r.profile pmk bssid r.ownAddress anonce r.snonce output)

def Handshake (l : List SupplicantTrace) : Prop :=
  ∃ peer key, .pairwiseKey 1 peer key true ∈ l ∧ Proven c r l key

def SupplicantTrace.Final : SupplicantTrace → Prop
  | .authorize .. => True
  | .result _ p => p.success = true
  | .passed requestId ok => requestId = r.requestId ∧ ok = true
  | _ => False

/-- Whatever is final in the trace comes after the handshake. -/
def OnlyAfter : List SupplicantTrace → Prop
  | [] => True
  | e :: l => (e.Final r → Handshake c r l) ∧ OnlyAfter l

structure SessionOk (x : Supplicant) (l : List SupplicantTrace) : Prop where
  known : x.state ≠ .idle → x.profile = some r.profile ∧ x.ownAddress = r.ownAddress ∧ x.snonce = r.snonce
  early : x.state.early = true → x.requestId = r.requestId ∧ pairwiseInstalls l = 0
  keyed : x.state.keyed = true → .key 1 x.pmk ∈ l
  derived : x.state = .waitM3 → .message1 1 x.anonce ∈ l ∧ ∃ bssid output,
    x.ptk = supplicantPtk c r.profile x.pmk bssid r.ownAddress x.anonce r.snonce output
  done : x.state = .waitG1 ∨ x.state = .connected → Handshake c r l

def SupplicantPc.Ok (l : List SupplicantTrace) : SupplicantPc → Prop
  | .work stage a w => a = 1 ∧ (w.initialGroup = true → Handshake c r l) ∧ (w.installPairwise = true →
      if stage.installed then Handshake c r l else pairwiseInstalls l = 0 ∧ Proven c r l w.pairwiseKey)
  | .report _ p _ => p.success = true → Handshake c r l
  | _ => True

end Attempt

section Lemmas

variable {c : SupplicantCrypto} {r : SupplicantRequest} {l l' : List SupplicantTrace} {key : List UInt8} {x : Supplicant}
  {p : SupplicantPc} {e : SupplicantTrace}

theorem Proven.mono (h : Proven c r l key) (hsub : l ⊆ l') : Proven c r l' key := by
  obtain ⟨pmk, anonce, bssid, output, frame, hkey, h1, h3, hrest⟩ := h
  exact ⟨pmk, anonce, bssid, output, frame, hsub hkey, hsub h1, hsub h3, hrest⟩

theorem Handshake.mono (h : Handshake c r l) (hsub : l ⊆ l') : Handshake c r l' := by
  obtain ⟨peer, key, hinstalled, hproven⟩ := h
  exact ⟨peer, key, hsub hinstalled, hproven.mono hsub⟩

theorem SessionOk.mono (h : SessionOk c r x l) (hsub : l ⊆ l')
    (hcount : x.state.early = true → pairwiseInstalls l' = pairwiseInstalls l) : SessionOk c r x l' := by
  refine ⟨h.known, fun hx => ?_, fun hx => hsub (h.keyed hx), fun hx => ?_, fun hx => (h.done hx).mono hsub⟩
  · rw [hcount hx]
    exact h.early hx
  · exact ⟨hsub (h.derived hx).1, (h.derived hx).2⟩

theorem SupplicantPc.Ok.mono (h : p.Ok c r l) (hsub : l ⊆ l')
    (hcount : p.installs = true → pairwiseInstalls l' = pairwiseInstalls l) : p.Ok c r l' := by
  cases p with
  | work stage a w =>
    obtain ⟨ha, hinitial, hpairwise⟩ := h
    refine ⟨ha, fun hw => (hinitial hw).mono hsub, fun hw => ?_⟩
    have hold := hpairwise hw
    cases hs : stage.installed with
    | true =>
      rw [hs, if_pos rfl] at hold
      rw [if_pos rfl]
      exact hold.mono hsub
    | false =>
      rw [hs, if_neg Bool.false_ne_true] at hold
      rw [if_neg Bool.false_ne_true, hcount hw]
      exact ⟨hold.1, hold.2.mono hsub⟩
  | report a q d => exact fun hq => (h hq).mono hsub
  | idle => trivial
  | fail a external => trivial
  | disconnect a => trivial
  | sae a external => trivial
  | timeout a => trivial

theorem SupplicantPc.Ok.next {stage : SupplicantStage} {a : ℕ} {w : SupplicantWork}
    (h : (SupplicantPc.work stage a w).Ok c r l) (hw : stage = .pairwise → w.installPairwise = false) :
    (SupplicantPc.work stage.next a w).Ok c r l := by
  obtain ⟨ha, hinitial, hpairwise⟩ := h
  refine ⟨ha, hinitial, fun hp => ?_⟩
  have hold := hpairwise hp
  cases stage with
  | pairwise =>
    rw [hw rfl] at hp
    cases hp
  | gtk => exact hold
  | defaultKey => exact hold
  | igtk => exact hold
  | transmit => exact hold
  | authorize => exact hold
  | commit => exact hold

theorem isInstalled_iff : e.isInstalled = true ↔ ∃ peer key, e = .pairwiseKey 1 peer key true := by
  constructor
  · intro h
    cases e with
    | pairwiseKey a peer key ok =>
      rw [SupplicantTrace.isInstalled, Bool.and_eq_true, decide_eq_true_iff] at h
      exact ⟨peer, key, by rw [h.1, h.2]⟩
    | key a pmk => cases h
    | message1 a anonce => cases h
    | message3 a p ptk frame => cases h
    | groupKey a rekey replay index key ok => cases h
    | transmit a destination frame ok => cases h
    | authorize a bssid ok => cases h
    | cleared a target => cases h
    | disconnect a target => cases h
    | result a r => cases h
    | passed requestId ok => cases h
  · rintro ⟨peer, key, rfl⟩
    rfl

theorem pairwiseInstalls_cons (he : e.isPairwiseKey = false) : pairwiseInstalls (e :: l) = pairwiseInstalls l :=
  List.countP_cons_of_neg (by rw [he]; exact Bool.false_ne_true)

theorem SessionOk.of_idle (h : x.state = .idle) : SessionOk c r x l := by
  constructor <;> intro hx <;> rw [h] at hx
  · exact absurd rfl hx
  · cases hx
  · cases hx
  · cases hx
  · cases hx with
    | inl hx => cases hx
    | inr hx => cases hx

theorem SessionOk.of_installing (h : x.state = .installing)
    (hknown : x.profile = some r.profile ∧ x.ownAddress = r.ownAddress ∧ x.snonce = r.snonce) : SessionOk c r x l := by
  refine ⟨fun _ => hknown, fun hx => ?_, fun hx => ?_, fun hx => ?_, fun hx => ?_⟩ <;> rw [h] at hx
  · cases hx
  · cases hx
  · cases hx
  · cases hx with
    | inl hx => cases hx
    | inr hx => cases hx

end Lemmas

namespace SupplicantSys

variable {c : SupplicantCrypto} {r : SupplicantRequest} {s s' : SupplicantSys} {t a : ℕ} {x : Supplicant}
  {p : SupplicantPc} {w : SupplicantWork} {e : SupplicantTrace} {stage : SupplicantStage}

structure Single (c : SupplicantCrypto) (r : SupplicantRequest) (s : SupplicantSys) : Prop where
  attempt : s.attempt = 1
  session : SessionOk c r s.session s.trace
  quiet : s.session.state.early = true → ∀ t, (s.pc t).installs = false
  pcs : ∀ t, (s.pc t).Ok c r s.trace
  unique : ∀ t u, (s.pc t).installs = true → (s.pc u).installs = true → t = u
  once : pairwiseInstalls s.trace ≤ 1
  installed : ∀ peer key, .pairwiseKey 1 peer key true ∈ s.trace → Handshake c r s.trace
  after : OnlyAfter c r s.trace

theorem goto_pc_self : (s.goto t p).pc t = p := Function.update_self _ _ _

theorem goto_pc_of_ne {u : ℕ} (h : u ≠ t) : (s.goto t p).pc u = s.pc u := Function.update_of_ne h _ _

namespace Single

theorem setSession {timer : Bool} (h : s.Single c r) (hx : SessionOk c r x s.trace)
    (hearly : x.state.early = true → s.session.state.early = true) :
    { s with session := x, timer := timer }.Single c r :=
  ⟨h.attempt, hx, fun he => h.quiet (hearly he), h.pcs, h.unique, h.once, h.installed, h.after⟩

theorem goto (h : s.Single c r) (hp : p.Ok c r s.trace) (hinstalls : p.installs = true → (s.pc t).installs = true) :
    (s.goto t p).Single c r := by
  have hold : ∀ u, ((s.goto t p).pc u).installs = true → (s.pc u).installs = true := by
    intro u hu
    by_cases hut : u = t
    · rw [hut, goto_pc_self] at hu
      rw [hut]
      exact hinstalls hu
    · rwa [goto_pc_of_ne hut] at hu
  refine ⟨h.attempt, h.session, fun he u => ?_, fun u => ?_, fun u v hu hv => h.unique u v (hold u hu) (hold v hv),
    h.once, h.installed, h.after⟩
  · cases hu : ((s.goto t p).pc u).installs with
    | false => rfl
    | true =>
      have hs := hold u hu
      rw [h.quiet he u] at hs
      cases hs
  · by_cases hut : u = t
    · rw [hut, goto_pc_self]
      exact hp
    · rw [goto_pc_of_ne hut]
      exact h.pcs u

theorem record (h : s.Single c r) (he : e.isPairwiseKey = false) (hfinal : e.Final r → Handshake c r s.trace) :
    (s.record e).Single c r := by
  have hsub : s.trace ⊆ e :: s.trace := List.subset_cons_self _ _
  have hcount : pairwiseInstalls (e :: s.trace) = pairwiseInstalls s.trace := pairwiseInstalls_cons he
  refine ⟨h.attempt, h.session.mono hsub fun _ => hcount, h.quiet, fun t => (h.pcs t).mono hsub fun _ => hcount, h.unique, ?_,
    fun peer key hkey => ?_, ⟨hfinal, h.after⟩⟩
  · change pairwiseInstalls (e :: s.trace) ≤ 1
    rw [hcount]
    exact h.once
  · cases List.mem_cons.mp hkey with
    | inl heq =>
      rw [← heq] at he
      cases he
    | inr hmem => exact (h.installed peer key hmem).mono hsub

theorem goto_quiet (h : s.Single c r) (hp : p.Ok c r s.trace) (hinstalls : p.installs = false) :
    (s.goto t p).Single c r := by
  apply h.goto hp
  intro htrue
  rw [hinstalls] at htrue
  cases htrue

theorem failed (h : s.Single c r) : (s.goto t (failed a w)).Single c r := by
  rw [SupplicantSys.failed]
  split_ifs
  · exact h.goto_quiet trivial rfl
  · exact h.goto_quiet trivial rfl

theorem clear (h : s.Single c r) : s.clear.Single c r :=
  h.setSession (SessionOk.of_idle rfl) fun he => by cases he

theorem accept3 {frame : List UInt8} (h : s.Single c r) (hstate : s.session.state = .waitM3)
    (hx : x.state = .installing ∧ x.profile = s.session.profile ∧ x.ownAddress = s.session.ownAddress ∧
      x.snonce = s.session.snonce ∧ x.ptk = s.session.ptk)
    (hmic : supplicantVerifyMic c r.profile true s.session.ptk frame = true) (hinitial : w.initialGroup = false)
    (hkey : w.pairwiseKey = supplicantPairwiseKey r.profile s.session.ptk) :
    (({ s with session := x, timer := false }.record (.message3 s.attempt r.profile x.ptk frame)).goto t
      (.work .gtk s.attempt w)).Single c r := by
  obtain ⟨hanonce, bssid, output, hptk⟩ := h.session.derived hstate
  have hpmk := h.session.keyed (by rw [hstate]; rfl)
  have hnone := (h.session.early (by rw [hstate]; rfl)).2
  have hquiet := h.quiet (by rw [hstate]; rfl)
  have hknown := h.session.known (by rw [hstate]; intro hidle; cases hidle)
  have hset : { s with session := x, timer := false }.Single c r := by
    apply h.setSession
    · apply SessionOk.of_installing hx.1
      rw [hx.2.1, hx.2.2.1, hx.2.2.2.1]
      exact hknown
    · intro hs
      rw [hx.1] at hs
      cases hs
  have hrec : (({ s with session := x, timer := false } : SupplicantSys).record
      (.message3 s.attempt r.profile x.ptk frame)).Single c r := hset.record rfl fun hf => by cases hf
  have hproven : Proven c r (.message3 s.attempt r.profile x.ptk frame :: s.trace) w.pairwiseKey := by
    refine ⟨_, _, bssid, output, frame, List.mem_cons_of_mem _ hpmk, List.mem_cons_of_mem _ hanonce, ?_, ?_, ?_⟩
    · rw [h.attempt, hx.2.2.2.2, hptk]
      exact List.mem_cons_self
    · rw [← hptk]
      exact hmic
    · rw [← hptk]
      exact hkey
  refine ⟨hrec.attempt, hrec.session, fun he => ?_, fun u => ?_, fun u v hu hv => ?_, hrec.once, hrec.installed, hrec.after⟩
  · change x.state.early = true at he
    rw [hx.1] at he
    cases he
  · by_cases hut : u = t
    · rw [hut, goto_pc_self]
      refine ⟨h.attempt, fun hw => ?_, fun _ => ?_⟩
      · rw [hinitial] at hw
        cases hw
      · rw [if_neg (by exact Bool.false_ne_true)]
        exact ⟨(pairwiseInstalls_cons rfl).trans hnone, hproven⟩
    · rw [goto_pc_of_ne hut]
      exact hrec.pcs u
  · have honly : ∀ u, (((({ s with session := x, timer := false } : SupplicantSys).record
        (.message3 s.attempt r.profile x.ptk frame)).goto t (.work .gtk s.attempt w)).pc u).installs = true → u = t := by
      intro u hu
      by_contra hut
      rw [goto_pc_of_ne hut] at hu
      change (s.pc u).installs = true at hu
      rw [hquiet u] at hu
      cases hu
    rw [honly u hu, honly v hv]

theorem installPairwise (h : s.Single c r) {ok : Bool} (hpc : s.pc t = .work .pairwise a w)
    (hw : w.installPairwise = true) :
    ({ s with trace := .pairwiseKey a w.bssid w.pairwiseKey ok :: s.trace }.goto t
      (if ok then .work .igtk a w else SupplicantSys.failed a w)).Single c r := by
  have hinstalls : (s.pc t).installs = true := by
    rw [hpc]
    exact hw
  have hearly : s.session.state.early ≠ true := by
    intro he
    rw [h.quiet he t] at hinstalls
    cases hinstalls
  obtain ⟨ha, hinitial, hpending⟩ : a = 1 ∧ (w.initialGroup = true → Handshake c r s.trace) ∧
      (w.installPairwise = true → pairwiseInstalls s.trace = 0 ∧ Proven c r s.trace w.pairwiseKey) := by
    have hok := h.pcs t
    rw [hpc] at hok
    exact hok
  obtain ⟨hnone, hproven⟩ := hpending hw
  subst ha
  set e := SupplicantTrace.pairwiseKey 1 w.bssid w.pairwiseKey ok with he
  have hsub : s.trace ⊆ e :: s.trace := List.subset_cons_self _ _
  have hhandshake : ok = true → Handshake c r (e :: s.trace) := by
    intro hok
    refine ⟨w.bssid, w.pairwiseKey, ?_, hproven.mono hsub⟩
    rw [he, hok]
    exact List.mem_cons_self
  have hgoto : (if ok then SupplicantPc.work .igtk 1 w else SupplicantSys.failed 1 w).Ok c r (e :: s.trace) := by
    cases hok : ok with
    | true => exact ⟨rfl, fun hg => (hinitial hg).mono hsub, fun _ => hhandshake hok⟩
    | false =>
      rw [if_neg Bool.false_ne_true, SupplicantSys.failed]
      split_ifs <;> trivial
  generalize (if ok then SupplicantPc.work .igtk 1 w else SupplicantSys.failed 1 w) = p at hgoto ⊢
  have hother : ∀ u, u ≠ t → (s.pc u).installs = false := by
    intro u hut
    cases hu : (s.pc u).installs with
    | false => rfl
    | true => exact absurd (h.unique u t hu hinstalls) hut
  have honly : ∀ u, (({ s with trace := e :: s.trace }.goto t p).pc u).installs = true → u = t := by
    intro u hu
    by_contra hut
    rw [goto_pc_of_ne hut, hother u hut] at hu
    cases hu
  refine ⟨h.attempt, h.session.mono hsub fun hs => absurd hs hearly, fun hs => absurd hs hearly, fun u => ?_,
    fun u v hu hv => (honly u hu).trans (honly v hv).symm, ?_, fun peer key hkey => ?_, ?_, h.after⟩
  · by_cases hut : u = t
    · rw [hut, goto_pc_self]
      exact hgoto
    · rw [goto_pc_of_ne hut]
      apply (h.pcs u).mono hsub
      intro htrue
      rw [hother u hut] at htrue
      cases htrue
  · change pairwiseInstalls (e :: s.trace) ≤ 1
    have hcount : pairwiseInstalls (e :: s.trace) = pairwiseInstalls s.trace + 1 := List.countP_cons_of_pos (by rw [he]; rfl)
    omega
  · cases List.mem_cons.mp hkey with
    | inl heq =>
      rw [he] at heq
      cases heq
      exact hhandshake rfl
    | inr hmem => exact (h.installed peer key hmem).mono hsub
  · intro hf
    cases hf

theorem call (h : s.Single c r) {ok : Bool} (hpc : s.pc t = .work stage a w) (hstage : stage ≠ .pairwise)
    (hcalls : w.calls stage = true) :
    ({ s with trace := callTrace w a ok stage ++ s.trace }.goto t
      (if ok then .work stage.next a w else SupplicantSys.failed a w)).Single c r := by
  have hold : (SupplicantPc.work stage a w).Ok c r s.trace := hpc ▸ h.pcs t
  have hcall : { s with trace := callTrace w a ok stage ++ s.trace }.Single c r := by
    cases stage with
    | gtk => exact h.record rfl fun hf => by cases hf
    | defaultKey => exact h
    | pairwise => exact absurd rfl hstage
    | igtk => exact h
    | transmit => exact h.record rfl fun hf => by cases hf
    | authorize =>
      apply h.record rfl
      intro _
      rw [SupplicantWork.calls, Bool.or_eq_true, Bool.and_eq_true, Bool.and_eq_true] at hcalls
      cases hcalls with
      | inl hpairwise => exact hold.2.2 hpairwise.1
      | inr hgroup => exact hold.2.1 hgroup.2
    | commit => cases hcalls
  cases ok with
  | false => exact hcall.failed
  | true =>
    apply hcall.goto
    · have hnew := hcall.pcs t
      change (s.pc t).Ok c r _ at hnew
      rw [hpc] at hnew
      exact hnew.next fun hp => absurd hp hstage
    · intro hinstalls
      change (s.pc t).installs = true
      rw [hpc]
      exact hinstalls

theorem driver (h : s.Single c r) {ok : Bool} (hs : SupplicantSys.step c s (.driver t ok) = some s') :
    s'.Single c r := by
  rw [SupplicantSys.step] at hs
  split at hs
  · cases hs
  · rename_i stage a w hcommit hpc
    by_cases hcalls : w.calls stage = true
    · rw [if_pos hcalls] at hs
      cases hs
      by_cases hstage : stage = .pairwise
      · subst hstage
        exact h.installPairwise hpc hcalls
      · exact h.call hpc hstage hcalls
    · rw [if_neg hcalls] at hs
      cases hs
      have hold : (SupplicantPc.work stage a w).Ok c r s.trace := hpc ▸ h.pcs t
      apply h.goto
      · apply hold.next
        intro hstage
        rw [hstage] at hcalls
        exact Bool.eq_false_iff.mpr hcalls
      · intro hinstalls
        rw [hpc]
        exact hinstalls
  · cases hs

theorem challenge {data : List UInt8} {timer : Bool} (h : s.Single c r) (hbssid : x.state = s.session.state ∧
      x.profile = s.session.profile ∧ x.ownAddress = s.session.ownAddress ∧ x.snonce = s.session.snonce ∧
      x.pmk = s.session.pmk ∧ x.requestId = s.session.requestId)
    (hstate : x.state = .associating ∨ x.state = .waitM1 ∨ x.state = .waitM3) (hw : w.Quiet) :
    (({ s with
        session := { x.challenged c r.profile data with state := if w.ok then .waitM3 else x.state }
        timer := timer }.record (.message1 s.attempt (bytesAt 17 32 data))).goto t
      (if w.ok then .work .gtk s.attempt w else SupplicantSys.failed s.attempt w)).Single c r := by
  obtain ⟨hs, hprofile, hown, hsnonce, hpmk, hid⟩ := hbssid
  have hearly : s.session.state.early = true ∧ s.session.state.keyed = true ∧ s.session.state ≠ .idle := by
    rw [← hs]
    rcases hstate with hx | hx | hx <;>
    · rw [hx]
      exact ⟨rfl, rfl, fun hidle => by cases hidle⟩
  have hnew : ∀ y : SupplicantState, y = (if w.ok then .waitM3 else x.state) → y = .associating ∨ y = .waitM1 ∨
      y = .waitM3 := by
    intro y hy
    rw [hy]
    split_ifs
    · exact .inr (.inr rfl)
    · exact hstate
  obtain ⟨hkprofile, hkown, hksnonce⟩ := h.session.known hearly.2.2
  have hrec : (s.record (.message1 s.attempt (bytesAt 17 32 data))).Single c r := h.record rfl fun hf => by cases hf
  have hset : { s.record (.message1 s.attempt (bytesAt 17 32 data)) with
      session := { x.challenged c r.profile data with state := if w.ok then .waitM3 else x.state }
      timer := timer }.Single c r := by
    apply hrec.setSession
    · refine ⟨fun _ => ?_, fun _ => ?_, fun _ => ?_, fun _ => ⟨?_, x.bssid, x.ptk, ?_⟩, fun hdone => ?_⟩
      · exact ⟨hprofile.trans hkprofile, hown.trans hkown, hsnonce.trans hksnonce⟩
      · exact ⟨hid.trans (h.session.early hearly.1).1, (hrec.session.early hearly.1).2⟩
      · rw [show ({ x.challenged c r.profile data with state := if w.ok then .waitM3 else x.state } : Supplicant).pmk =
          s.session.pmk from hpmk]
        exact hrec.session.keyed hearly.2.1
      · rw [h.attempt]
        exact List.mem_cons_self
      · rw [← hkown, ← hksnonce, ← hown, ← hsnonce]
        rfl
      · rcases hnew _ rfl with hx | hx | hx <;> rcases hdone with hd | hd <;>
        · have hcontra := hx.symm.trans hd
          cases hcontra
    · exact fun _ => hearly.1
  have hquiet : (if w.ok then SupplicantPc.work .gtk s.attempt w else SupplicantSys.failed s.attempt w).installs =
      false := by
    split_ifs
    · exact hw.pairwise
    · rw [SupplicantSys.failed]
      split_ifs <;> rfl
  refine hset.goto_quiet ?_ hquiet
  split_ifs
  · refine ⟨h.attempt, fun hi => ?_, fun hp => ?_⟩
    · rw [hw.initial] at hi
      cases hi
    · rw [hw.pairwise] at hp
      cases hp
  · rw [SupplicantSys.failed]
    split_ifs <;> trivial

theorem receive {memory : SupplicantMemory} {source destination : Bytes 6} {data : List UInt8} (h : s.Single c r) :
    (s.receive c t memory source destination data).Single c r := by
  cases hr : supplicantEapol c s.session memory source destination data with
  | mk x wo =>
    cases hprofile : s.session.profile with
    | none =>
      rw [supplicantEapol, hprofile] at hr
      cases hr
      simp only [SupplicantSys.receive, supplicantEapol, hprofile]
      exact h
    | some q =>
      simp only [SupplicantSys.receive, hr]
      rcases supplicantEapol_received hprofile hr with ⟨rfl, rfl⟩ | ⟨hidle, hreceived⟩
      · exact h
      · obtain ⟨hknown, hown, hsnonce⟩ := h.session.known hidle
        have hq : q = r.profile := Option.some.inj (hprofile.symm.trans hknown)
        subst hq
        set y := { s.session with bssid := if s.session.bssid = zeroBytes 6 then source else s.session.bssid } with hy
        have hsession : SessionOk c r y s.trace :=
          ⟨h.session.known, h.session.early, h.session.keyed, h.session.derived, h.session.done⟩
        have hset : ∀ timer, { s with session := y, timer := timer }.Single c r := fun timer =>
          h.setSession hsession fun he => he
        obtain ⟨hs, hyprofile, hyown, hysnonce, hypmk, hyid, hyptk⟩ : y.state = s.session.state ∧
            y.profile = s.session.profile ∧ y.ownAddress = s.session.ownAddress ∧ y.snonce = s.session.snonce ∧
            y.pmk = s.session.pmk ∧ y.requestId = s.session.requestId ∧ y.ptk = s.session.ptk :=
          ⟨rfl, rfl, rfl, rfl, rfl, rfl, rfl⟩
        clear_value y
        have hquiet : ∀ w : SupplicantWork, w.installPairwise = false →
            (w.initialGroup = true → y.state = .waitG1) →
            (({ s with session := y, timer := s.timer } : SupplicantSys).goto t
              (if w.ok then .work .gtk s.attempt w else SupplicantSys.failed s.attempt w)).Single c r := by
          intro w hpairwise hinitial
          cases w.ok with
          | false => exact (hset s.timer).failed
          | true =>
            refine (hset s.timer).goto_quiet ⟨h.attempt, fun hi => ?_, fun hp => ?_⟩ hpairwise
            · exact hsession.done (.inl (hinitial hi))
            · rw [hpairwise] at hp
              cases hp
        cases hreceived with
        | ignored => exact hset s.timer
        | @message1 x w hstate hkind hw hx =>
          subst hx
          simp only [hkind]
          refine h.challenge ⟨hs, hyprofile, hyown, hysnonce, hypmk, hyid⟩ ?_ hw
          rcases hstate with hstate | hstate | hstate
          · exact .inl hstate
          · exact .inr (.inl hstate)
          · exact .inr (.inr hstate.1)
        | @message3 w hstate hreplay hkind hok hmic hpairwise hgroup hinitial hw hprotocol hkey =>
          simp only [hkind, hok, hpairwise, hyprofile, hprofile, if_true, Bool.not_true, Bool.and_false]
          rw [hyptk] at hmic hkey
          exact h.accept3 (hs.symm.trans hstate) ⟨rfl, hprofile.symm, hyown, hysnonce, hyptk⟩ hmic hinitial hkey
        | @refused w hkind hw =>
          have hwork := hquiet w hw.pairwise fun hi => by
            rw [hw.initial] at hi
            cases hi
          simp only [hw.pairwise, Bool.not_false, Bool.and_true]
          cases hkind with
          | inl hfailed =>
            simp only [hfailed.1, hfailed.2, hyprofile, hprofile, if_neg Bool.false_ne_true] at hwork ⊢
            exact hwork
          | inr hagain =>
            simp only [hagain]
            exact hwork
        | @group w hstate hreplay hkind hpairwise hgroup hinitial hw =>
          simp only [hkind, hpairwise, Bool.not_false, Bool.and_true]
          exact hquiet w hpairwise hinitial

theorem complete (h : s.Single c r) (hidle : s.session.state ≠ .idle) (hhandshake : Handshake c r s.trace) :
    (s.complete t a).Single c r := by
  have hset : { s with session := { s.session with state := .connected, requestId := 0 }, timer := false }.Single c r := by
    apply h.setSession
    · refine ⟨fun _ => h.session.known hidle, fun hx => ?_, fun hx => ?_, fun hx => ?_, fun _ => hhandshake⟩ <;> cases hx
    · intro hx
      cases hx
  exact hset.goto_quiet (fun _ => hhandshake) rfl

theorem commit {timerOk : Bool} (h : s.Single c r) (hpc : s.pc t = .work .commit a w) :
    (s.commit t a w timerOk).Single c r := by
  obtain ⟨_, hinitial, hpairwise⟩ : a = 1 ∧ (w.initialGroup = true → Handshake c r s.trace) ∧
      (w.installPairwise = true → Handshake c r s.trace) := by
    have hok := h.pcs t
    rw [hpc] at hok
    exact hok
  have hreplay : { s with session := { s.session with replay := w.replay } }.Single c r := by
    apply h.setSession
    · exact ⟨h.session.known, h.session.early, h.session.keyed, h.session.derived, h.session.done⟩
    · exact fun he => he
  rw [SupplicantSys.commit]
  by_cases hw : w.installPairwise = true
  · rw [if_pos hw]
    by_cases hstate : s.session.state = .installing
    · have hidle : s.session.state ≠ .idle := by
        rw [hstate]
        intro hidle
        cases hidle
      rw [if_pos hstate]
      dsimp only
      by_cases hprotocol : w.protocol = .wpa
      · rw [if_pos hprotocol]
        have hset : { s with
            session := { s.session with replay := w.replay, state := .waitG1 }, timer := timerOk }.Single c r := by
          apply h.setSession
          · refine ⟨fun _ => h.session.known hidle, fun hx => ?_, fun hx => ?_, fun hx => ?_, fun _ => hpairwise hw⟩ <;>
              cases hx
          · intro hx
            cases hx
        apply hset.goto_quiet <;> cases timerOk <;> first | rfl | trivial
      · rw [if_neg hprotocol]
        exact hreplay.complete hidle (hpairwise hw)
    · rw [if_neg hstate]
      exact h.goto_quiet trivial rfl
  · rw [if_neg hw]
    by_cases hgroup : w.groupRekey = true
    · rw [if_pos hgroup]
      dsimp only
      by_cases hg : w.initialGroup = true ∧ s.session.state = .waitG1
      · rw [if_pos hg]
        apply hreplay.complete
        · intro hidle
          rw [hg.2] at hidle
          cases hidle
        · exact hinitial hg.1
      · rw [if_neg hg]
        exact hreplay.goto_quiet trivial rfl
    · rw [if_neg hgroup]
      exact h.goto_quiet trivial rfl

theorem fail {disconnect : Bool} (h : s.Single c r) : (s.fail t a disconnect).Single c r := by
  rw [SupplicantSys.fail]
  have hcleared : (if s.session.state = .idle then s.clear else s.clear.record (.cleared a s.attempt)).Single c r := by
    split_ifs
    · exact h.clear
    · exact h.clear.record rfl fun hf => by cases hf
  exact hcleared.goto_quiet (fun hs => by cases hs) rfl

theorem requestId (h : s.Single c r)
    (hstate : s.session.state = .associating ∨ s.session.state = .waitM1 ∨ s.session.state = .waitM3) :
    s.session.requestId = r.requestId := by
  apply And.left
  apply h.session.early
  rcases hstate with hs | hs | hs <;>
  · rw [hs]
    rfl

theorem associated {bssid : Bytes 6} (h : s.Single c r) :
    { s with session := { s.session with
      bssid := if bssid = zeroBytes 6 then s.session.bssid else bssid
      state := if s.session.state = SupplicantState.associating then .waitM1 else s.session.state } }.Single c r := by
  by_cases ha : s.session.state = SupplicantState.associating
  · have hknown := h.session.known (by rw [ha]; intro hidle; cases hidle)
    have hearly := h.session.early (by rw [ha]; rfl)
    have hkeyed := h.session.keyed (by rw [ha]; rfl)
    rw [if_pos ha]
    apply h.setSession
    · refine ⟨fun _ => hknown, fun _ => hearly, fun _ => hkeyed, fun hx => ?_, fun hx => ?_⟩
      · cases hx
      · cases hx with
        | inl hx => cases hx
        | inr hx => cases hx
    · intro _
      rw [ha]
      rfl
  · rw [if_neg ha]
    apply h.setSession
    · exact ⟨h.session.known, h.session.early, h.session.keyed, h.session.derived, h.session.done⟩
    · exact fun he => he

theorem sae {y : SupplicantState} (h : s.Single c r) (bssid : Bytes 6) (hstate : s.session.state.early = true)
    (hy : y = .saeWaitExternal ∨ y = .saeWaitCommit ∨ y = .saeWaitConfirm) :
    { s with session := { s.session with bssid := bssid, state := y } }.Single c r := by
  have hidle : s.session.state ≠ .idle := by
    intro hidle
    rw [hidle] at hstate
    cases hstate
  have hnone : y.keyed = false ∧ y ≠ .waitM3 ∧ y ≠ .waitG1 ∧ y ≠ .connected := by
    rcases hy with rfl | rfl | rfl <;> decide
  apply h.setSession
  · refine ⟨fun _ => h.session.known hidle, fun _ => h.session.early hstate, fun hx => ?_, fun hx => absurd hx hnone.2.1,
      fun hx => hx.elim (fun hg => absurd hg hnone.2.2.1) fun hc => absurd hc hnone.2.2.2⟩
    change y.keyed = true at hx
    rw [hnone.1] at hx
    cases hx
  · exact fun _ => hstate

theorem confirmed {pmk : Bytes 32} (h : s.Single c r) (hstate : s.session.state = .saeWaitConfirm) :
    ({ s with session := { s.session with pmk := pmk, state := .associating } }.record
      (.key s.attempt pmk)).Single c r := by
  have hearly : s.session.state.early = true := by
    rw [hstate]
    rfl
  have hidle : s.session.state ≠ .idle := by
    rw [hstate]
    intro hidle
    cases hidle
  have hrec : (s.record (.key s.attempt pmk)).Single c r := h.record rfl fun hf => by cases hf
  apply hrec.setSession
  · refine ⟨fun _ => h.session.known hidle, fun _ => ⟨(h.session.early hearly).1, (hrec.session.early hearly).2⟩, fun _ => ?_,
      fun hx => ?_, fun hx => ?_⟩
    · rw [h.attempt]
      exact List.mem_cons_self
    · cases hx
    · cases hx with
      | inl hx => cases hx
      | inr hx => cases hx
  · exact fun _ => hearly

end Single

/-- A successful result of the driver for the request comes while the supplicant takes it, or after the pairwise
key has been installed. -/
def DriverOk (r : SupplicantRequest) (s : SupplicantSys) : SupplicantEvent → Prop
  | .connectResult requestId ok _ => requestId = r.requestId → ok = true →
      (s.session.state = .associating ∨ s.session.state = .waitM1 ∨ s.session.state = .waitM3) ∨
      ∃ e ∈ s.trace, e.isInstalled = true
  | _ => True

theorem Single.step {e : SupplicantEvent} (h : s.Single c r) (hone : ∀ q ok, e ≠ .prepare q ok) (hok : DriverOk r s e)
    (hs : SupplicantSys.step c s e = some s') : s'.Single c r := by
  cases e with
  | prepare q ok => exact absurd rfl (hone q ok)
  | cancel =>
    cases hs
    exact h.clear
  | frame t source destination data memory =>
    rw [SupplicantSys.step] at hs
    by_cases hidle : s.pc t = .idle
    · rw [if_pos hidle] at hs
      split at hs
      · cases hs
        exact h
      · cases hs
        exact h.receive
    · rw [if_neg hidle] at hs
      cases hs
  | driver t ok => exact h.driver hs
  | commit t timerOk =>
    rw [SupplicantSys.step] at hs
    split at hs
    · rename_i a w hpc
      cases hs
      exact h.commit hpc
    · cases hs
  | fail t =>
    rw [SupplicantSys.step] at hs
    split at hs
    · cases hs
      exact h.fail
    · cases hs
  | report t =>
    rw [SupplicantSys.step] at hs
    split at hs
    · rename_i a q disconnect hpc
      cases hs
      have hok : (SupplicantPc.report a q disconnect).Ok c r s.trace := hpc ▸ h.pcs t
      have hrec : (if q.requestId = 0 then s else s.record (.result a q)).Single c r := by
        split_ifs
        · exact h
        · exact h.record rfl hok
      cases disconnect
      · exact hrec.goto_quiet trivial rfl
      · exact hrec.goto_quiet trivial rfl
    · cases hs
  | disconnect t =>
    rw [SupplicantSys.step] at hs
    split at hs
    · rename_i a _
      cases hs
      have hrec : (s.record (.disconnect a (if s.session.state = .idle then none else some s.attempt))).Single c r :=
        h.record rfl fun hf => by cases hf
      exact hrec.goto_quiet trivial rfl
    · cases hs
  | timerExpires t =>
    rw [SupplicantSys.step] at hs
    split_ifs at hs
    cases hs
    have hset : { s with timer := false }.Single c r := h.setSession h.session fun he => he
    exact hset.goto_quiet trivial rfl
  | timeout t =>
    rw [SupplicantSys.step] at hs
    split at hs
    · rename_i a _
      cases hs
      split_ifs with hstate
      · exact h.goto_quiet trivial rfl
      · have hclear : ({ s with session := Supplicant.cleared } : SupplicantSys).Single c r :=
          h.setSession (SessionOk.of_idle rfl) fun he => by cases he
        have hrec : (({ s with session := Supplicant.cleared } : SupplicantSys).record (.cleared a s.attempt)).Single c r :=
          hclear.record rfl fun hf => by cases hf
        dsimp only
        split_ifs
        · exact hrec.goto_quiet trivial rfl
        · exact hrec.goto_quiet (fun hq => by cases hq) rfl
    · cases hs
  | connectResult requestId ok bssid =>
    rw [SupplicantSys.step] at hs
    by_cases htaken : requestId = s.session.requestId ∧
        (s.session.state = .associating ∨ s.session.state = .waitM1 ∨ s.session.state = .waitM3)
    · rw [if_pos htaken] at hs
      cases ok with
      | true =>
        cases hs
        exact h.associated
      | false =>
        cases hs
        apply h.clear.record rfl
        intro hf
        cases hf.2
    · rw [if_neg htaken] at hs
      cases hs
      apply h.record rfl
      rintro ⟨hid, htrue⟩
      cases hok hid htrue with
      | inl hstate =>
        exact absurd ⟨hid.trans (h.requestId hstate).symm, hstate⟩ htaken
      | inr hkey =>
        obtain ⟨e, he, hinstalled⟩ := hkey
        obtain ⟨peer, key, rfl⟩ := isInstalled_iff.mp hinstalled
        exact h.installed peer key he
  | linkDown =>
    cases hs
    exact h.clear
  | tkipMicFailure t second =>
    rw [SupplicantSys.step] at hs
    split_ifs at hs
    · cases hs
      exact h.clear.goto_quiet trivial rfl
    · cases hs
      exact h
  | externalAuth t requestId bssid matched computed =>
    rw [SupplicantSys.step] at hs
    split_ifs at hs with hidle hstate hmatched hcomputed
    · cases hs
      have hsae := h.sae bssid (by rw [hstate.1]; rfl) (.inr (.inl rfl))
      exact hsae.goto_quiet trivial rfl
    · cases hs
      have hsae := h.sae bssid (by rw [hstate.1]; rfl) (.inl hstate.1)
      exact hsae.goto_quiet trivial rfl
    · cases hs
      exact h.goto_quiet trivial rfl
    · cases hs
      exact h
  | saeCommit t ownAddress peer accepted =>
    rw [SupplicantSys.step] at hs
    split_ifs at hs with hidle hstate haccepted
    · cases hs
      have hsae := h.sae s.session.bssid (by rw [hstate.2.2.2]; rfl) (.inr (.inr rfl))
      exact hsae.goto_quiet trivial rfl
    · cases hs
      exact h.goto_quiet trivial rfl
    · cases hs
      exact h
  | saeConfirm t ownAddress peer pmk =>
    simp only [SupplicantSys.step] at hs
    split_ifs at hs with hidle hstate
    · cases pmk with
      | some pmk =>
        cases hs
        exact (h.confirmed hstate.2.2.2).goto_quiet trivial rfl
      | none =>
        cases hs
        exact h.goto_quiet trivial rfl
    · cases hs
      exact h
  | saeSent t ok =>
    rw [SupplicantSys.step] at hs
    split at hs
    · cases hs
      cases ok
      · exact h.goto_quiet trivial rfl
      · exact h.goto_quiet trivial rfl
    · cases hs

theorem Single.prepare : (start.prepare r).Single c r := by
  have hkeys : (start.prepare r).trace = [] ∨ (start.prepare r).trace = [.key 1 r.pmk] := by
    rw [SupplicantSys.prepare]
    cases r.profile.sae
    · exact .inr rfl
    · exact .inl rfl
  have hnone : pairwiseInstalls (start.prepare r).trace = 0 := by
    cases hkeys with
    | inl hnil => rw [hnil]; rfl
    | inr hkey => rw [hkey]; rfl
  refine ⟨rfl, ⟨fun _ => ⟨rfl, rfl, rfl⟩, fun _ => ⟨rfl, hnone⟩, fun hx => ?_, fun hx => ?_, fun hx => ?_⟩, fun _ _ => rfl,
    fun _ => trivial, fun t u ht => ?_, by omega, fun peer key hkey => ?_, ?_⟩
  · rw [SupplicantSys.prepare] at hx ⊢
    dsimp only at hx ⊢
    split_ifs at hx ⊢
    · cases hx
    · exact List.mem_cons_self
  · rw [SupplicantSys.prepare] at hx
    dsimp only at hx
    split_ifs at hx
  · rw [SupplicantSys.prepare] at hx
    dsimp only at hx
    split_ifs at hx
    · cases hx with
      | inl hx => cases hx
      | inr hx => cases hx
    · cases hx with
      | inl hx => cases hx
      | inr hx => cases hx
  · cases ht
  · cases hkeys with
    | inl hnil =>
      rw [hnil] at hkey
      cases hkey
    | inr heq =>
      rw [heq] at hkey
      cases List.mem_singleton.mp hkey
  · cases hkeys with
    | inl hnil =>
      rw [hnil]
      trivial
    | inr hkey =>
      rw [hkey]
      refine ⟨fun hf => ?_, trivial⟩
      cases hf

theorem connects_only_proven {es : List SupplicantEvent} (hone : ∀ e ∈ es, ∀ q ok, e ≠ .prepare q ok)
    (h : run (SupplicantSys.step c) (start.prepare r) es = some s)
    (hm : Meets (SupplicantSys.step c) (DriverOk r) (start.prepare r) es) :
    pairwiseInstalls s.trace ≤ 1 ∧ OnlyAfter c r s.trace := by
  have hsingle : s.Single c r :=
    run_invariant_of_meets (Single c r) (fun _ _ _ hi hok hs => hi.step hok.2 hok.1 hs) h
      (hm.and (meets_of_forall hone)) Single.prepare
  exact ⟨hsingle.once, hsingle.after⟩

theorem connects_only_proven_demo : ∃ es s, run (step nullSupplicant) (start.prepare demoRequest) es = some s ∧
    pairwiseInstalls s.trace = 1 ∧ pairwiseInstalls s.trace ≤ 1 ∧ OnlyAfter nullSupplicant demoRequest s.trace := by
  obtain ⟨wrapped, hunwrap, hlen⟩ := demo_wrapped nullSupplicant
  have hrun : run (step nullSupplicant) (start.prepare demoRequest)
      (demoMessage1 ++ demoFrame3 nullSupplicant wrapped :: (driverCalls 0 ++ [.commit 0 true])) =
      some (demoConnected nullSupplicant wrapped) :=
    run_append (run_demoMessage1 nullSupplicant) (run_demoMessage3 hunwrap hlen)
  have hquiet : ∀ e ∈ demoMessage1 ++ demoFrame3 nullSupplicant wrapped :: (driverCalls 0 ++ [.commit 0 true]),
      (∀ q ok, e ≠ .prepare q ok) ∧ ∀ s, DriverOk demoRequest s e := by
    simp [demoMessage1, demoFrame3, DriverOk]
  exact ⟨_, _, hrun, rfl, connects_only_proven (fun e he => (hquiet e he).1) hrun (.of_forall fun e he => (hquiet e he).2)⟩

/-- The driver's own result comes while the keys are still being installed. -/
theorem connects_unproven : ¬ ∃ c : SupplicantCrypto, ∀ es s, (∀ e ∈ es, ∀ q ok, e ≠ .prepare q ok) →
    run (step c) (start.prepare demoRequest) es = some s →
    pairwiseInstalls s.trace ≤ 1 ∧ OnlyAfter c demoRequest s.trace := by
  rintro ⟨c, h⟩
  obtain ⟨wrapped, hunwrap, hlen⟩ := demo_wrapped c
  have hresult : run (step c) (demoAnswered c) [demoFrame3 c wrapped, .connectResult 1 true (demoStation 1)] =
      some ((demoInstalling c wrapped).record (.passed 1 true)) := by
    rw [run, step_demoFrame3 hunwrap hlen]
    rfl
  have hquiet : ∀ e ∈ demoMessage1 ++ [demoFrame3 c wrapped, .connectResult 1 true (demoStation 1)],
      ∀ q ok, e ≠ .prepare q ok := by
    simp [demoMessage1, demoFrame3]
  have hafter := (h _ _ hquiet (run_append (run_demoMessage1 c) hresult)).2
  obtain ⟨peer, key, hkey, _⟩ := hafter.1 ⟨rfl, rfl⟩
  simp [demoInstalling, demoAnswered, handling] at hkey

end SupplicantSys

end RtSmart
