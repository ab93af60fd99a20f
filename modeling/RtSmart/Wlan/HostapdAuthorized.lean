import RtSmart.Wlan.HostapdHandshake

namespace RtSmart

open Lib

def AcceptedMessage.Verified (c : WlanCrypto) (cfg : HostapdConfig) (a : AcceptedMessage) : Prop :=
  (∃ anonce snonce, a.ptk = hostapdPtk c cfg a.mac anonce snonce) ∧ hostapdVerifyMic c a.ptk a.frame = true

namespace Hostapd

variable {c : WlanCrypto} {cfg : HostapdConfig} {s s' : Hostapd} {t i j n : ℕ} {mac : Bytes 6} {x : Station}
  {p : HostapdPc} {e : HostapdEvent} {es : List HostapdEvent}

/-- In association `n` both messages were accepted from `mac` under one key. -/
def Proven (s : Hostapd) (n : ℕ) (mac : Bytes 6) : Prop :=
  ∃ a ∈ s.accepted2, ∃ b ∈ s.accepted4, a.association = some n ∧ b.association = some n ∧ a.mac = mac ∧ b.mac = mac ∧
    a.ptk = b.ptk

/-- A slot that waits has an association, and the key it waits for message 4 with has been proven. -/
structure Waiting (s : Hostapd) (i : ℕ) : Prop where
  begun : (s.station i).state = .waitM2 → (s.association i).isSome
  keyed : (s.station i).state = .waitM4 → ∃ a ∈ s.accepted2,
    a.association = s.association i ∧ a.mac = (s.station i).mac ∧ a.ptk = (s.station i).ptk

/-- The pointer was taken in association `n` of `mac`, which the slot may have lost since. -/
structure Holds (s : Hostapd) (r : StationRef) (n : ℕ) (mac : Bytes 6) : Prop where
  taken : r.association = some n
  begun : n < s.stamp
  address : s.association r.slot = some n → (s.station r.slot).mac = mac

def Answered (s : Hostapd) (r : StationRef) : Prop :=
  ∃ n mac, s.Holds r n mac ∧ ∃ a ∈ s.accepted2, a.association = some n ∧ a.mac = mac ∧ a.ptk = r.ptk

def Ready (s : Hostapd) (r : StationRef) : Prop := ∃ n mac, s.Holds r n mac ∧ s.Proven n mac

structure Authentic (c : WlanCrypto) (cfg : HostapdConfig) (s : Hostapd) : Prop where
  fresh : ∀ i n, s.association i = some n → n < s.stamp
  begun : ∀ a ∈ s.accepted2, a.association.isSome
  verified2 : ∀ a ∈ s.accepted2, a.Verified c cfg
  verified4 : ∀ a ∈ s.accepted4, a.Verified c cfg
  waiting : ∀ i, s.Waiting i
  answered : ∀ t r, (s.pc t).answering = some r → s.Answered r
  ready : ∀ t r, s.pc t = .authorize r → s.Ready r
  calls : ∀ k ∈ s.authorized, ∃ n, k.association = some n ∧ s.Proven n k.mac

/-- When the handler comes back to the slot it kept, to build message 3 or to authorize the station, the slot holds
the association that it held when the lock was released; for message 3 it also holds the PTK of that moment. -/
def AuthenticOk (s : Hostapd) : HostapdEvent → Prop
  | .message3 t => ∀ r ∈ (s.pc t).ref, s.association r.slot = r.association ∧ (s.station r.slot).ptk = r.ptk
  | .setAuthorized t _ => ∀ r ∈ (s.pc t).ref, s.association r.slot = r.association
  | _ => True

instance (s : Hostapd) : ∀ e, Decidable (s.AuthenticOk e)
  | .message3 t => inferInstanceAs (Decidable (∀ r ∈ (s.pc t).ref,
      s.association r.slot = r.association ∧ (s.station r.slot).ptk = r.ptk))
  | .setAuthorized t _ => inferInstanceAs (Decidable (∀ r ∈ (s.pc t).ref, s.association r.slot = r.association))
  | .auth .. | .authAgain _ | .assoc .. | .associate .. | .assocSent .. | .deauth .. | .expire .. | .clear _
  | .delStation _ | .channelChanged | .eapol .. | .checkGtk _ | .gtkAdded .. | .pairwiseAdded .. | .message3Sent ..
  | .finish _ => isTrue trivial

theorem Proven.mono (h : s.Proven n mac) (h2 : s.accepted2 ⊆ s'.accepted2) (h4 : s.accepted4 ⊆ s'.accepted4) :
    s'.Proven n mac := by
  obtain ⟨a, ha, b, hb, hrest⟩ := h
  exact ⟨a, h2 ha, b, h4 hb, hrest⟩

theorem Answered.mono {r : StationRef} (h : s.Answered r) (h2 : s.accepted2 ⊆ s'.accepted2)
    (hr : ∀ n mac, s.Holds r n mac → s'.Holds r n mac) : s'.Answered r := by
  obtain ⟨n, mac, hholds, a, ha, hrest⟩ := h
  exact ⟨n, mac, hr n mac hholds, a, h2 ha, hrest⟩

theorem Ready.mono {r : StationRef} (h : s.Ready r) (h2 : s.accepted2 ⊆ s'.accepted2)
    (h4 : s.accepted4 ⊆ s'.accepted4) (hr : ∀ n mac, s.Holds r n mac → s'.Holds r n mac) : s'.Ready r := by
  obtain ⟨n, mac, hholds, hproven⟩ := h
  exact ⟨n, mac, hr n mac hholds, hproven.mono h2 h4⟩

theorem Waiting.of_idle (h2 : (s.station i).state ≠ .waitM2) (h4 : (s.station i).state ≠ .waitM4) : s.Waiting i :=
  ⟨fun h => absurd h h2, fun h => absurd h h4⟩

theorem Waiting.congr (h : s.Waiting i) (hx : s'.station i = s.station i) (ha : s'.association i = s.association i)
    (h2 : s.accepted2 ⊆ s'.accepted2) : s'.Waiting i := by
  constructor
  · rw [hx, ha]
    exact h.begun
  · rw [hx, ha]
    intro hstate
    obtain ⟨a, hmem, hrest⟩ := h.keyed hstate
    exact ⟨a, h2 hmem, hrest⟩

namespace Authentic

theorem goto (h : s.Authentic c cfg) (ha : ∀ r, p.answering = some r → s.Answered r)
    (hp : ∀ r, p = .authorize r → s.Ready r) : (s.goto t p).Authentic c cfg := by
  have hholds : ∀ r n mac, s.Holds r n mac → (s.goto t p).Holds r n mac := fun r n mac hr =>
    ⟨hr.taken, hr.begun, hr.address⟩
  refine ⟨h.fresh, h.begun, h.verified2, h.verified4, fun i => ?_, fun u r hr => ?_, fun u r hr => ?_, h.calls⟩
  · exact ⟨(h.waiting i).begun, (h.waiting i).keyed⟩
  · by_cases hu : u = t
    · rw [hu, goto_pc_self] at hr
      exact (ha r hr).mono (fun _ hmem => hmem) (hholds r)
    · rw [goto_pc_of_ne hu] at hr
      exact (h.answered u r hr).mono (fun _ hmem => hmem) (hholds r)
  · by_cases hu : u = t
    · rw [hu, goto_pc_self] at hr
      exact (hp r hr).mono (fun _ hmem => hmem) (fun _ hmem => hmem) (hholds r)
    · rw [goto_pc_of_ne hu] at hr
      exact (h.ready u r hr).mono (fun _ hmem => hmem) (fun _ hmem => hmem) (hholds r)

theorem goto_free (h : s.Authentic c cfg) (ha : p.answering = none) (hp : ∀ r, p ≠ .authorize r) :
    (s.goto t p).Authentic c cfg := by
  apply h.goto
  · intro r hr
    rw [ha] at hr
    cases hr
  · exact fun r hr => absurd hr (hp r)

theorem of_slots (h : s.Authentic c cfg) (hpc : s'.pc = s.pc) (h2 : s'.accepted2 = s.accepted2)
    (h4 : s'.accepted4 = s.accepted4) (hcalls : s'.authorized = s.authorized) (hstamp : s.stamp ≤ s'.stamp)
    (hassoc : ∀ i n, s'.association i = some n →
      s.association i = some n ∧ (s'.station i).mac = (s.station i).mac ∨ n = s.stamp ∧ s.stamp < s'.stamp)
    (hwait : ∀ i, s'.Waiting i) : s'.Authentic c cfg := by
  have hsub2 : s.accepted2 ⊆ s'.accepted2 := fun a ha => h2 ▸ ha
  have hsub4 : s.accepted4 ⊆ s'.accepted4 := fun a ha => h4 ▸ ha
  have hholds : ∀ r n mac, s.Holds r n mac → s'.Holds r n mac := by
    intro r n mac hr
    have hlt := hr.begun
    refine ⟨hr.taken, by omega, fun hn => ?_⟩
    cases hassoc r.slot n hn with
    | inl hold =>
      rw [hold.2]
      exact hr.address hold.1
    | inr hnew => omega
  refine ⟨fun i n hn => ?_, h2 ▸ h.begun, h2 ▸ h.verified2, h4 ▸ h.verified4, hwait, fun t r hr => ?_,
    fun t r hr => ?_, ?_⟩
  · cases hassoc i n hn with
    | inl hold =>
      have hlt := h.fresh i n hold.1
      omega
    | inr hnew => omega
  · rw [hpc] at hr
    exact (h.answered t r hr).mono hsub2 (hholds r)
  · rw [hpc] at hr
    exact (h.ready t r hr).mono hsub2 hsub4 (hholds r)
  · rw [hcalls]
    intro k hk
    obtain ⟨n, hkn, hp⟩ := h.calls k hk
    exact ⟨n, hkn, hp.mono hsub2 hsub4⟩

theorem setStation (h : s.Authentic c cfg) (hmac : x.mac = (s.station i).mac) (hwait : (s.setStation i x).Waiting i) :
    (s.setStation i x).Authentic c cfg := by
  refine h.of_slots rfl rfl rfl rfl (le_refl _) ?_ ?_
  · intro j n hn
    left
    refine ⟨hn, ?_⟩
    by_cases hj : j = i
    · rw [hj, setStation_self, hmac]
    · rw [setStation_of_ne hj]
  · intro j
    by_cases hj : j = i
    · exact hj ▸ hwait
    · exact (h.waiting j).congr (setStation_of_ne hj) rfl fun _ ha => ha

theorem at_slot {a : Option ℕ} (h : s.Authentic c cfg) (hx : s'.station = Function.update s.station i x)
    (ha : s'.association = Function.update s.association i a) (hpc : s'.pc = s.pc)
    (h2 : s'.accepted2 = s.accepted2) (h4 : s'.accepted4 = s.accepted4) (hcalls : s'.authorized = s.authorized)
    (hstamp : s.stamp ≤ s'.stamp) (hnew : ∀ n, a = some n → n = s.stamp ∧ s.stamp < s'.stamp)
    (hwait : s'.Waiting i) : s'.Authentic c cfg := by
  have hother : ∀ j, j ≠ i → s'.station j = s.station j ∧ s'.association j = s.association j := by
    intro j hj
    rw [hx, ha]
    exact ⟨Function.update_of_ne hj _ _, Function.update_of_ne hj _ _⟩
  refine h.of_slots hpc h2 h4 hcalls hstamp ?_ ?_
  · intro j n hn
    by_cases hj : j = i
    · rw [hj, ha, Function.update_self] at hn
      exact .inr (hnew n hn)
    · rw [(hother j hj).2] at hn
      exact .inl ⟨hn, congrArg Station.mac (hother j hj).1⟩
  · intro j
    by_cases hj : j = i
    · exact hj ▸ hwait
    · apply (h.waiting j).congr (hother j hj).1 (hother j hj).2
      rw [h2]
      exact fun _ hmem => hmem

theorem clear (h : s.Authentic c cfg) : (s.clear i).Authentic c cfg := by
  have hx : (s.clear i).station i = Station.cleared := setStation_self
  refine h.at_slot rfl rfl rfl rfl rfl rfl (le_refl _) (fun n hn => by cases hn) ?_
  apply Waiting.of_idle <;>
  · rw [hx]
    intro hstate
    cases hstate

theorem allocate (h : s.Authentic c cfg) : (s.allocate cfg mac).Authentic c cfg := by
  cases hfree : s.firstFree cfg with
  | none =>
    simp only [Hostapd.allocate, hfree]
    exact h
  | some i =>
    simp only [Hostapd.allocate, hfree]
    refine h.at_slot (i := i) rfl rfl rfl rfl rfl rfl (Nat.le_succ _) (fun n hn => by cases hn) ?_
    apply Waiting.of_idle <;>
    · rw [setStation_self]
      intro hstate
      cases hstate

theorem associate (h : s.Authentic c cfg) (random : Bytes 32 × Bool) :
    (s.associate c i random).1.Authentic c cfg := by
  cases hm : hostapdBuildMessage1 c s.replayCounter { s.station i with firmwareAdded := true } random with
  | mk counter r =>
    obtain ⟨x, built⟩ := r
    obtain ⟨hmac, _, hptk, hstate⟩ := hostapdBuildMessage1_frame hm
    simp only [Hostapd.associate, hm]
    cases built with
    | false =>
      have hset : (s.setStation i x).Authentic c cfg := by
        apply h.setStation hmac
        constructor
        · rw [setStation_self, hstate]
          exact (h.waiting i).begun
        · rw [setStation_self, hstate, hmac, hptk]
          exact (h.waiting i).keyed
      rw [if_neg Bool.false_ne_true]
      exact hset.of_slots rfl rfl rfl rfl (le_refl _) (fun j n hn => .inl ⟨hn, rfl⟩) fun j =>
        (hset.waiting j).congr rfl rfl fun _ ha => ha
    | true =>
      rw [if_pos rfl]
      refine h.at_slot (i := i) rfl rfl rfl rfl rfl rfl (Nat.le_succ _) (fun n hn => ?_) ?_
      · cases hn
        exact ⟨rfl, Nat.lt_succ_self _⟩
      · constructor
        · intro _
          dsimp only
          rw [Function.update_self]
          rfl
        · intro hkeyed
          rw [setStation_self, hstate] at hkeyed
          cases hkeyed

theorem change {u : Hostapd} (h : s.Authentic c cfg) (hu : s.Change c cfg e u) : u.Authentic c cfg := by
  cases hu with
  | stay => exact h
  | allocate mac _ => exact h.allocate
  | associate i random _ => exact h.associate random
  | clear i => exact h.clear
  | clearAll =>
    refine h.of_slots rfl rfl rfl rfl (le_refl _) (fun i n hn => by cases hn) fun i => ?_
    apply Waiting.of_idle <;>
    · intro hstate
      cases hstate
  | finish t r _ _ =>
    apply h.setStation
    · rfl
    · apply Waiting.of_idle <;>
      · rw [setStation_self]
        intro hstate
        cases hstate

theorem log (h : s.Authentic c cfg) (hpc : s'.pc = s.pc) (hx : s'.station = s.station)
    (hassoc : s'.association = s.association) (hstamp : s'.stamp = s.stamp) (hcalls : s'.authorized = s.authorized)
    (h2 : s.accepted2 ⊆ s'.accepted2) (h4 : s.accepted4 ⊆ s'.accepted4) (hbegun : ∀ a ∈ s'.accepted2, a.association.isSome)
    (hnew2 : ∀ a ∈ s'.accepted2, a.Verified c cfg) (hnew4 : ∀ a ∈ s'.accepted4, a.Verified c cfg) :
    s'.Authentic c cfg := by
  have hholds : ∀ r n mac, s.Holds r n mac → s'.Holds r n mac := by
    intro r n mac hr
    refine ⟨hr.taken, hstamp ▸ hr.begun, ?_⟩
    rw [hassoc, hx]
    exact hr.address
  refine ⟨fun i n hn => ?_, hbegun, hnew2, hnew4, fun i => ?_, fun t r hr => ?_, fun t r hr => ?_, fun k hk => ?_⟩
  · rw [hassoc] at hn
    rw [hstamp]
    exact h.fresh i n hn
  · exact (h.waiting i).congr (congrFun hx i) (congrFun hassoc i) h2
  · rw [hpc] at hr
    exact (h.answered t r hr).mono h2 (hholds r)
  · rw [hpc] at hr
    exact (h.ready t r hr).mono h2 h4 (hholds r)
  · rw [hcalls] at hk
    obtain ⟨n, hkn, hp⟩ := h.calls k hk
    exact ⟨n, hkn, hp.mono h2 h4⟩

theorem accept2 {a : AcceptedMessage} (h : s.Authentic c cfg) (hbegun : a.association.isSome) (ha : a.Verified c cfg) :
    { s with accepted2 := a :: s.accepted2 }.Authentic c cfg := by
  refine h.log rfl rfl rfl rfl rfl (List.subset_cons_self _ _) (fun _ hb => hb) ?_ ?_ h.verified4
  · exact List.forall_mem_cons.mpr ⟨hbegun, h.begun⟩
  · exact List.forall_mem_cons.mpr ⟨ha, h.verified2⟩

theorem accept4 {a : AcceptedMessage} (h : s.Authentic c cfg) (ha : a.Verified c cfg) :
    { s with accepted4 := a :: s.accepted4 }.Authentic c cfg := by
  refine h.log rfl rfl rfl rfl rfl (fun _ hb => hb) (List.subset_cons_self _ _) h.begun h.verified2 ?_
  exact List.forall_mem_cons.mpr ⟨ha, h.verified4⟩

theorem receive (h : s.Authentic c cfg) {data : List UInt8} :
    (s.receive c cfg t i (s.station i).mac data).Authentic c cfg := by
  have hwait := h.waiting i
  cases hr : hostapdEapol c cfg (s.station i) data with
  | mk x v =>
    simp only [Hostapd.receive, hr]
    rcases hostapdEapol_cases hr with ⟨hstate, snonce, hx, hv⟩ | ⟨hstate, rfl, rfl, hmic⟩ | ⟨rfl, rfl⟩
    · have hbegun := hwait.begun hstate
      have hset : (s.setStation i x).Authentic c cfg := by
        apply h.setStation
        · rw [hx]
        · constructor
          · exact fun _ => hbegun
          · intro hkeyed
            rw [setStation_self, hx, hstate] at hkeyed
            cases hkeyed
      cases hv with
      | inl hgood =>
        obtain ⟨rfl, hmic⟩ := hgood
        have hverified : AcceptedMessage.Verified c cfg ⟨s.association i, (s.station i).mac, x.ptk, data⟩ :=
          ⟨⟨(s.station i).anonce, snonce, by rw [hx]⟩, hmic⟩
        obtain ⟨n, hn⟩ := Option.isSome_iff_exists.mp hbegun
        apply goto
        · exact hset.accept2 hbegun hverified
        · intro r hr
          have hkept : r = (s.setStation i x).ref i := by
            split_ifs at hr <;>
            · cases hr
              rfl
          subst hkept
          have hptk : ((s.setStation i x).station i).ptk = x.ptk := by rw [setStation_self]
          refine ⟨n, (s.station i).mac, ⟨hn, h.fresh i n hn, fun _ => ?_⟩, _, List.mem_cons_self, hn, rfl, hptk.symm⟩
          change ((s.setStation i x).station i).mac = _
          rw [setStation_self, hx]
        · intro r hauth
          split_ifs at hauth
      | inr hbad =>
        rw [hbad]
        exact hset
    · obtain ⟨a, ha, hassoc, hmac, hptk⟩ := hwait.keyed hstate
      obtain ⟨n, hn⟩ := Option.isSome_iff_exists.mp (hassoc ▸ h.begun a ha)
      have hset : (s.setStation i (s.station i)).Authentic c cfg := by
        apply h.setStation rfl
        rw [show s.setStation i (s.station i) = s by rw [Hostapd.setStation, Function.update_eq_self]]
        exact hwait
      have hverified : AcceptedMessage.Verified c cfg ⟨s.association i, (s.station i).mac, (s.station i).ptk, data⟩ := by
        refine ⟨?_, hmic⟩
        rw [← hptk, ← hmac]
        exact (h.verified2 a ha).1
      apply goto
      · exact hset.accept4 hverified
      · intro r hr
        cases hr
      · intro r hauth
        cases hauth
        refine ⟨n, (s.station i).mac, ⟨hn, h.fresh i n hn, fun _ => ?_⟩, ?_⟩
        · exact congrArg Station.mac setStation_self
        · exact ⟨a, ha, _, List.mem_cons_self, hassoc.trans hn, hn, hmac, rfl, hptk⟩
    · apply h.setStation rfl
      rw [show s.setStation i (s.station i) = s by rw [Hostapd.setStation, Function.update_eq_self]]
      exact hwait

theorem message3 {r : StationRef} (h : s.Authentic c cfg) (hpc : s.pc t = .buildMessage3 r)
    (hassoc : s.association r.slot = r.association) (hptk : (s.station r.slot).ptk = r.ptk) :
    (s.message3 c cfg t r).Authentic c cfg := by
  have hkey : ∃ a ∈ s.accepted2, a.association = s.association r.slot ∧ a.mac = (s.station r.slot).mac ∧
      a.ptk = (s.station r.slot).ptk := by
    obtain ⟨n, mac, hholds, a, ha, han, hamac, haptk⟩ := h.answered t r (by rw [hpc]; rfl)
    have hn : s.association r.slot = some n := hassoc.trans hholds.taken
    exact ⟨a, ha, han.trans hn.symm, hamac.trans (hholds.address hn).symm, haptk.trans hptk.symm⟩
  cases hm : hostapdBuildMessage3 c cfg s.replayCounter (s.station r.slot) with
  | mk counter m =>
    obtain ⟨x, built⟩ := m
    obtain ⟨hmac, _, hkept, hstate⟩ := hostapdBuildMessage3_frame hm
    simp only [Hostapd.message3, hm]
    have hset : (s.setStation r.slot x).Authentic c cfg := by
      apply h.setStation hmac
      constructor
      · rw [setStation_self, hstate]
        intro hbegun
        split_ifs at hbegun
        exact (h.waiting r.slot).begun hbegun
      · rw [setStation_self, hmac, hkept]
        exact fun _ => hkey
    apply goto_free
    · exact hset.of_slots rfl rfl rfl rfl (le_refl _) (fun j n hn => .inl ⟨hn, rfl⟩) fun j =>
        (hset.waiting j).congr rfl rfl fun _ ha => ha
    · split_ifs <;> rfl
    · intro u hauth
      split_ifs at hauth

theorem call {r : StationRef} (h : s.Authentic c cfg) (hpc : s.pc t = .authorize r)
    (hassoc : s.association r.slot = r.association) :
    { s with authorized := ⟨s.association r.slot, (s.station r.slot).mac⟩ :: s.authorized }.Authentic c cfg := by
  obtain ⟨n, mac, hholds, hp⟩ := h.ready t r hpc
  have hn : s.association r.slot = some n := hassoc.trans hholds.taken
  refine ⟨h.fresh, h.begun, h.verified2, h.verified4, fun i => ?_, fun u q hq => ?_, fun u q hq => ?_, fun k hk => ?_⟩
  · exact (h.waiting i).congr rfl rfl fun _ ha => ha
  · exact (h.answered u q hq).mono (fun _ ha => ha) fun n mac hr => ⟨hr.taken, hr.begun, hr.address⟩
  · exact (h.ready u q hq).mono (fun _ ha => ha) (fun _ ha => ha) fun n mac hr => ⟨hr.taken, hr.begun, hr.address⟩
  · cases List.mem_cons.mp hk with
    | inl hnew =>
      rw [hnew]
      refine ⟨n, hn, ?_⟩
      rw [hholds.address hn]
      exact hp
    | inr hold => exact h.calls k hold

theorem start : (Hostapd.start).Authentic c cfg := by
  constructor
  · intro i n hn
    cases hn
  · intro a ha
    cases ha
  · intro a ha
    cases ha
  · intro a ha
    cases ha
  · intro i
    apply Waiting.of_idle <;>
    · intro hstate
      cases hstate
  · intro t r hr
    cases hr
  · intro t r hr
    cases hr
  · intro k hk
    cases hk

theorem step (h : s.Authentic c cfg) (hok : s.AuthenticOk e) (hs : Hostapd.step c cfg s e = some s') :
    s'.Authentic c cfg := by
  cases step_next hs with
  | change hu => exact h.change hu
  | @leave u t p hu hp =>
    apply (h.change hu).goto_free
    · cases p <;> first | rfl | cases hp
    · intro r hauth
      rw [hauth] at hp
      cases hp
  | found => exact h.goto_free rfl nofun
  | @keep t p _ ha hkeep =>
    refine h.goto (fun r hr => ?_) fun r hauth => absurd hauth (ha r)
    cases hkeep with
    | inl hnone =>
      rw [hnone] at hr
      cases hr
    | inr hsame => exact h.answered t r (hsame ▸ hr)
  | @addGtk t r hpc =>
    have hset : { s with gtkInstalled := true }.Authentic c cfg :=
      h.of_slots rfl rfl rfl rfl (le_refl _) (fun j n hn => .inl ⟨hn, rfl⟩) fun j =>
        (h.waiting j).congr rfl rfl fun _ ha => ha
    apply hset.goto
    · intro q hq
      exact hset.answered t q (by rw [hpc]; exact hq)
    · intro q hauth
      cases hauth
  | receive _ hmac =>
    subst hmac
    exact h.receive
  | @message3 t r he hpc =>
    subst he
    obtain ⟨hassoc, hptk⟩ := hok r (by rw [hpc]; rfl)
    exact h.message3 hpc hassoc hptk
  | call he hpc _ ha hkeep =>
    subst he
    exact (h.call hpc (hok _ (hpc ▸ rfl))).goto_free hkeep ha

end Authentic

/-- What each call that authorizes a station rests on. -/
def OnlyProven (c : WlanCrypto) (cfg : HostapdConfig) (s : Hostapd) : Prop :=
  ∀ k ∈ s.authorized, ∃ n anonce snonce, k.association = some n ∧ ∃ a ∈ s.accepted2, ∃ b ∈ s.accepted4,
    a.association = some n ∧ b.association = some n ∧ a.mac = k.mac ∧ b.mac = k.mac ∧
    hostapdVerifyMic c (hostapdPtk c cfg k.mac anonce snonce) a.frame = true ∧
    hostapdVerifyMic c (hostapdPtk c cfg k.mac anonce snonce) b.frame = true

theorem authorizes_only_proven (h : run (step c cfg) start es = some s)
    (hm : Meets (step c cfg) AuthenticOk start es) : s.OnlyProven c cfg := by
  have hauth : s.Authentic c cfg :=
    run_invariant_of_meets (Authentic c cfg) (fun _ _ _ hi hok hs => hi.step hok hs) h hm Authentic.start
  intro k hk
  obtain ⟨n, hkn, a, ha, b, hb, han, hbn, hamac, hbmac, hptk⟩ := hauth.calls k hk
  obtain ⟨⟨anonce, snonce, haptk⟩, hamic⟩ := hauth.verified2 a ha
  obtain ⟨_, hbmic⟩ := hauth.verified4 b hb
  rw [hamac] at haptk
  refine ⟨n, anonce, snonce, hkn, a, ha, b, hb, han, hbn, hamac, hbmac, ?_, ?_⟩
  · rw [← haptk]
    exact hamic
  · rw [← haptk, hptk]
    exact hbmic

def asking : List HostapdEvent := [.auth 0 (demoStation 2) true, .assoc 0 (demoStation 2) true]

def asked : Hostapd := (start.allocate demoHostapd (demoStation 2)).goto 0 (.assocAdd (demoStation 2))

theorem run_asking (c : WlanCrypto) : run (step c demoHostapd) start asking = some asked := rfl

abbrev demoPtk (c : WlanCrypto) : Bytes 48 := hostapdPtk c demoHostapd (demoStation 2) (zeroBytes 32) (zeroBytes 32)

def demoHandshake (c : WlanCrypto) : List HostapdEvent :=
  asked.handshake demoHostapd 0 (demoStation 2) (zeroBytes 32)
    (signedFrame c (demoPtk c) 2 message2Info 0 (replayBytes 1) (zeroBytes 32) hostapdRsnIe)
    (signedFrame c (demoPtk c) 2 message4Info 0 (replayBytes 2) (zeroBytes 32) [])

theorem authorizes_only_proven_demo : ∃ s, run (step nullCrypto demoHostapd) start
    (asking ++ (demoHandshake nullCrypto ++ [.setAuthorized 0 true, .finish 0])) = some s ∧
    s.OnlyProven nullCrypto demoHostapd := by
  have hrun : (run (step nullCrypto demoHostapd) start
    (asking ++ (demoHandshake nullCrypto ++ [.setAuthorized 0 true, .finish 0]))).isSome = true := by decide +kernel
  obtain ⟨s, hs⟩ := Option.isSome_iff_exists.mp hrun
  exact ⟨s, hs, authorizes_only_proven hs (by decide +kernel)⟩

/-- The slot of a station that is about to be authorized is given to another one. -/
theorem authorizes_recycled_slot : ¬ ∃ c : WlanCrypto, ∀ es s,
    run (step c demoHostapd) start es = some s → s.OnlyProven c demoHostapd := by
  rintro ⟨c, h⟩
  have hhandshake : ∃ wrapped, aesWrap c (bytesAt 16 16 (demoPtk c).1) (message3Plain demoHostapd) = some wrapped ∧
      run (step c demoHostapd) asked (demoHandshake c) = some (asked.session 0 0
        ((asked.station 0).answered c 0 (demoPtk c) (zeroBytes 32) (zeroBytes 32) wrapped) 2 true
        (.authorize (asked.held 0 (demoPtk c))) _ _) := run_handshake rfl rfl
  obtain ⟨wrapped, _, hrun⟩ := hhandshake
  set ready := asked.session 0 0 _ _ _ _ _ _ with hready
  have hrest : ((run (step c demoHostapd) ready [.deauth 1 (demoStation 2), .clear 1, .auth 1 (demoStation 3) true,
      .setAuthorized 0 true]).any fun s => s.authorized = [⟨none, demoStation 3⟩]) = true := rfl
  obtain ⟨s, hs, hcalls⟩ := (Option.any_eq_true _ _).mp hrest
  have hproven := h _ s (run_append (run_asking c) (run_append hrun hs))
  rw [OnlyProven, of_decide_eq_true hcalls] at hproven
  obtain ⟨n, _, _, hn, _⟩ := hproven _ List.mem_cons_self
  cases hn

end Hostapd

end RtSmart
