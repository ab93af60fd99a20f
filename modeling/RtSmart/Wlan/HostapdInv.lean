import RtSmart.Wlan.Hostapd

namespace RtSmart

open Lib

/-- The slot pointer of a handler that goes on after message 2, up to where it builds message 3. -/
def HostapdPc.answering : HostapdPc → Option StationRef
  | .installGtk r | .addGtk r | .installPairwise r | .buildMessage3 r => some r
  | .idle | .remove .. | .authAgain _ | .assocAdd _ | .assocSend .. | .sendMessage3 _ | .authorize _ | .finish _ => none

namespace Hostapd

variable {c : WlanCrypto} {cfg : HostapdConfig} {s s' : Hostapd} {t i j : ℕ} {mac : Bytes 6} {x : Station}
  {p : HostapdPc} {e : HostapdEvent} {es : List HostapdEvent}

theorem find_some (h : s.find cfg mac = some i) :
    i < cfg.maxStations ∧ (s.station i).state ≠ .free ∧ (s.station i).mac = mac := by
  have hmem := List.mem_range.mp (List.mem_of_find?_eq_some h)
  have hi := List.find?_some h
  rw [Bool.and_eq_true, decide_eq_true_eq, decide_eq_true_eq] at hi
  exact ⟨hmem, hi.1, hi.2⟩

theorem find_none (h : s.find cfg mac = none) (hi : i < cfg.maxStations) (hocc : (s.station i).state ≠ .free) :
    (s.station i).mac ≠ mac := by
  intro hmac
  have hnot := List.find?_eq_none.mp h i (List.mem_range.mpr hi)
  apply hnot
  rw [Bool.and_eq_true, decide_eq_true_eq, decide_eq_true_eq]
  exact ⟨hocc, hmac⟩

theorem firstFree_some (h : s.firstFree cfg = some i) : i < cfg.maxStations ∧ (s.station i).state = .free := by
  have hmem := List.mem_range.mp (List.mem_of_find?_eq_some h)
  have hi := List.find?_some h
  exact ⟨hmem, of_decide_eq_true hi⟩

theorem setStation_self : (s.setStation i x).station i = x := Function.update_self _ _ _

theorem setStation_of_ne (h : j ≠ i) : (s.setStation i x).station j = s.station j := Function.update_of_ne h _ _

theorem goto_pc_self : (s.goto t p).pc t = p := Function.update_self _ _ _

theorem goto_pc_of_ne {u : ℕ} (h : u ≠ t) : (s.goto t p).pc u = s.pc u := Function.update_of_ne h _ _

/-! The station table. -/

/-- The occupied slots are numbered and apart, and a pointer that is still in use is to a free slot or to
what was found there. -/
structure Table (cfg : HostapdConfig) (s : Hostapd) : Prop where
  occupied : ∀ i, (s.station i).state ≠ .free → i < cfg.maxStations ∧ (s.station i).aid = i + 1
  apart : ∀ i j, (s.station i).state ≠ .free → (s.station j).state ≠ .free →
    (s.station i).mac = (s.station j).mac → i = j
  held : ∀ t r, (s.pc t).ref = some r → (s.station r.slot).state ≠ .free → s.occupancy r.slot = r.occupancy

/-- The slot that is going to be allocated is no longer used by any thread, and no station has the address. -/
def Reusable (cfg : HostapdConfig) (s : Hostapd) (mac : Bytes 6) : Prop :=
  ∀ i, s.firstFree cfg = some i → s.find cfg mac = none ∧ ∀ t r, (s.pc t).ref = some r → r.slot ≠ i

def Occupied (s : Hostapd) (t : ℕ) : Prop := ∀ r, (s.pc t).ref = some r → (s.station r.slot).state ≠ .free

def TableOk (cfg : HostapdConfig) (s : Hostapd) : HostapdEvent → Prop
  | .auth _ mac success => success = true → s.find cfg mac = none → s.Reusable cfg mac
  | .authAgain t => ∀ mac, s.pc t = .authAgain mac → s.Reusable cfg mac
  | .message3 t | .finish t => s.Occupied t
  | _ => True

/-! What one step can do. -/

section Next

variable (c : WlanCrypto) (cfg : HostapdConfig) (s : Hostapd) (e : HostapdEvent)

/-- A change of the table, by a thread that holds no slot afterwards. -/
inductive Change : Hostapd → Prop
  | stay : Change s
  | allocate (mac : Bytes 6) (h : s.TableOk cfg e → s.Reusable cfg mac) : Change (s.allocate cfg mac)
  | associate (i : ℕ) (random : Bytes 32 × Bool) (h : (s.station i).state ≠ .free) :
    Change (s.associate c i random).1
  | clear (i : ℕ) : Change (s.clear i)
  | clearAll : Change { s with
      station := fun _ => Station.cleared, association := fun _ => none, gtkInstalled := false }
  | finish (t : ℕ) (r : StationRef) (he : e = .finish t) (hpc : s.pc t = .finish r) : Change (s.setStation r.slot
      { s.station r.slot with state := .authorized, reported := true, lastEapol := [] })

inductive Next : Hostapd → Prop
  | change {u : Hostapd} (hu : s.Change c cfg e u) : Next u
  | leave {u : Hostapd} {t : ℕ} {p : HostapdPc} (hu : s.Change c cfg e u) (hp : p.ref = none) : Next (u.goto t p)
  | found {t i : ℕ} {again : Option (Bytes 6)} : Next (s.goto t (.remove (s.ref i) again))
  | keep {t : ℕ} {p : HostapdPc} (hp : p.ref = (s.pc t).ref) (ha : ∀ r, p ≠ .authorize r)
    (hkeep : p.answering = none ∨ p.answering = (s.pc t).answering) : Next (s.goto t p)
  | addGtk {t : ℕ} {r : StationRef} (hpc : s.pc t = .addGtk r) :
    Next ({ s with gtkInstalled := true }.goto t (.installPairwise r))
  | receive {t i : ℕ} {source : Bytes 6} {data : List UInt8} (h : (s.station i).state ≠ .free)
    (hmac : (s.station i).mac = source) : Next (s.receive c cfg t i source data)
  | message3 {t : ℕ} {r : StationRef} (he : e = .message3 t) (hpc : s.pc t = .buildMessage3 r) :
    Next (s.message3 c cfg t r)
  | call {t : ℕ} {r : StationRef} {p : HostapdPc} {ok : Bool} (he : e = .setAuthorized t ok)
    (hpc : s.pc t = .authorize r) (hp : p.ref = some r) (ha : ∀ r, p ≠ .authorize r) (hkeep : p.answering = none) :
    Next ({ s with authorized := ⟨s.association r.slot, (s.station r.slot).mac⟩ :: s.authorized }.goto t p)

end Next

theorem step_next (hs : step c cfg s e = some s') : s.Next c cfg e s' := by
  cases e with
  | auth t mac success =>
    rw [step] at hs
    by_cases hidle : s.pc t = .idle
    · rw [if_pos hidle] at hs
      cases hfind : s.find cfg mac with
      | some i =>
        simp only [hfind, Option.some.injEq] at hs
        subst hs
        split_ifs
        · exact .found
        · exact .change .stay
      | none =>
        simp only [hfind, Option.some.injEq] at hs
        subst hs
        split_ifs with hsuccess
        · exact .change (.allocate mac fun hok => hok hsuccess hfind)
        · exact .change .stay
    · rw [if_neg hidle] at hs
      cases hs
  | authAgain t =>
    rw [step] at hs
    split at hs
    · rename_i mac hpc
      cases hs
      exact .leave (.allocate mac fun hok => hok mac hpc) rfl
    · cases hs
  | assoc t mac success =>
    rw [step] at hs
    by_cases hidle : s.pc t = .idle
    · rw [if_pos hidle] at hs
      cases hfind : s.find cfg mac with
      | some i =>
        simp only [hfind, Option.some.injEq] at hs
        subst hs
        split_ifs
        · exact .leave .stay rfl
        · exact .change .stay
      | none =>
        simp only [hfind, Option.some.injEq] at hs
        exact hs ▸ .change .stay
    · rw [if_neg hidle] at hs
      cases hs
  | associate t added random =>
    rw [step] at hs
    split at hs
    · rename_i mac hpc
      cases added with
      | false =>
        cases hs
        exact .leave .stay rfl
      | true =>
        cases hfind : s.find cfg mac with
        | some i =>
          simp only [hfind, if_true, Option.some.injEq] at hs
          subst hs
          exact .leave (.associate i random (find_some hfind).2.1) rfl
        | none =>
          simp only [hfind, if_true, Option.some.injEq] at hs
          subst hs
          exact .leave .stay rfl
    · cases hs
  | assocSent t ok =>
    rw [step] at hs
    split at hs
    · rename_i mac built hpc
      cases hfind : s.find cfg mac with
      | some i =>
        simp only [hfind, Option.some.injEq] at hs
        subst hs
        split_ifs
        · exact .leave .stay rfl
        · exact .found
      | none =>
        simp only [hfind, Option.some.injEq] at hs
        subst hs
        exact .leave .stay rfl
    · cases hs
  | deauth t mac =>
    rw [step] at hs
    by_cases hidle : s.pc t = .idle
    · rw [if_pos hidle] at hs
      cases hfind : s.find cfg mac with
      | some i =>
        simp only [hfind, Option.some.injEq] at hs
        subst hs
        exact .found
      | none =>
        simp only [hfind, Option.some.injEq] at hs
        exact hs ▸ .change .stay
    · rw [if_neg hidle] at hs
      cases hs
  | expire t mac =>
    rw [step] at hs
    by_cases hidle : s.pc t = .idle
    · rw [if_pos hidle] at hs
      cases hfind : s.find cfg mac with
      | some i =>
        simp only [hfind, Option.some.injEq] at hs
        subst hs
        split_ifs
        · exact .found
        · exact .change .stay
      | none =>
        simp only [hfind, Option.some.injEq] at hs
        exact hs ▸ .change .stay
    · rw [if_neg hidle] at hs
      cases hs
  | clear t =>
    rw [step] at hs
    split at hs
    · rename_i r again hpc
      cases hs
      apply Next.leave (.clear r.slot)
      cases again <;> rfl
    · cases hs
  | delStation mac =>
    cases hs
    cases s.find cfg mac with
    | some i => exact .change (.clear i)
    | none => exact .change .stay
  | channelChanged =>
    cases hs
    exact .change .clearAll
  | eapol t source destination data =>
    rw [step] at hs
    by_cases hidle : s.pc t = .idle
    · rw [if_pos hidle] at hs
      split at hs
      · cases hs
        exact .change .stay
      · rename_i frame _
        split at hs
        · rename_i i hi
          cases hs
          split_ifs at hi
          exact .receive (find_some hi).2.1 (find_some hi).2.2
        · cases hs
          exact .change .stay
    · rw [if_neg hidle] at hs
      cases hs
  | checkGtk t =>
    rw [step] at hs
    split at hs
    · rename_i r hpc
      cases hs
      apply Next.keep
      · rw [hpc]
        split_ifs <;> rfl
      · split_ifs <;> simp
      · right
        rw [hpc]
        split_ifs <;> rfl
    · cases hs
  | gtkAdded t ok =>
    rw [step] at hs
    split at hs
    · rename_i r hpc
      cases hs
      split_ifs
      · exact .addGtk hpc
      · apply Next.keep
        · rw [hpc]
          rfl
        · simp
        · exact .inl rfl
    · cases hs
  | pairwiseAdded t ok =>
    rw [step] at hs
    split at hs
    · rename_i r hpc
      cases hs
      apply Next.keep
      · rw [hpc]
        split_ifs <;> rfl
      · split_ifs <;> simp
      · rw [hpc]
        split_ifs
        · exact .inr rfl
        · exact .inl rfl
    · cases hs
  | message3 t =>
    rw [step] at hs
    split at hs
    · rename_i r hpc
      cases hs
      exact .message3 rfl hpc
    · cases hs
  | message3Sent t ok =>
    rw [step] at hs
    split at hs
    · rename_i r hpc
      cases hs
      split_ifs
      · exact .leave .stay rfl
      · apply Next.keep
        · rw [hpc]
          rfl
        · simp
        · exact .inl rfl
    · cases hs
  | setAuthorized t ok =>
    rw [step] at hs
    split at hs
    · rename_i r hpc
      cases hs
      apply Next.call rfl hpc
      · split_ifs <;> rfl
      · split_ifs <;> simp
      · split_ifs <;> rfl
    · cases hs
  | finish t =>
    rw [step] at hs
    split at hs
    · rename_i r hpc
      cases hs
      exact .leave (.finish t r rfl hpc) rfl
    · cases hs

namespace Table

theorem goto (h : s.Table cfg)
    (hp : ∀ r, p.ref = some r → (s.station r.slot).state ≠ .free → s.occupancy r.slot = r.occupancy) :
    (s.goto t p).Table cfg := by
  constructor
  · exact h.occupied
  · exact h.apart
  · intro u r hr
    by_cases hu : u = t
    · rw [hu, goto_pc_self] at hr
      exact hp r hr
    · rw [goto_pc_of_ne hu] at hr
      exact h.held u r hr

theorem goto_ref (h : s.Table cfg) (hp : p.ref = none ∨ p.ref = (s.pc t).ref) : (s.goto t p).Table cfg := by
  apply h.goto
  intro r hr
  cases hp with
  | inl hnone =>
    rw [hnone] at hr
    cases hr
  | inr hsame => exact h.held t r (hsame ▸ hr)

theorem goto_found (h : s.Table cfg) (hp : p.ref = some (s.ref i)) : (s.goto t p).Table cfg := by
  apply h.goto
  intro r hr _
  rw [hp] at hr
  cases hr
  rfl

theorem setStation (h : s.Table cfg) (hocc : x.state ≠ .free → (s.station i).state ≠ .free)
    (hmac : x.state ≠ .free → x.mac = (s.station i).mac) (haid : x.state ≠ .free → x.aid = (s.station i).aid) :
    (s.setStation i x).Table cfg := by
  have hstation : ∀ j, ((s.setStation i x).station j).state ≠ .free → (s.station j).state ≠ .free ∧
      ((s.setStation i x).station j).mac = (s.station j).mac ∧
      ((s.setStation i x).station j).aid = (s.station j).aid := by
    intro j hj
    by_cases hi : j = i
    · subst hi
      rw [setStation_self] at hj ⊢
      exact ⟨hocc hj, hmac hj, haid hj⟩
    · rw [setStation_of_ne hi] at hj ⊢
      exact ⟨hj, rfl, rfl⟩
  constructor
  · intro j hj
    rw [(hstation j hj).2.2]
    exact h.occupied j (hstation j hj).1
  · intro j k hj hk hjk
    rw [(hstation j hj).2.1, (hstation k hk).2.1] at hjk
    exact h.apart j k (hstation j hj).1 (hstation k hk).1 hjk
  · intro u r hr hj
    exact h.held u r hr (hstation r.slot hj).1

theorem clear (h : s.Table cfg) : (s.clear i).Table cfg := by
  have hset := h.setStation (i := i) (x := Station.cleared) (fun hn => absurd rfl hn) (fun hn => absurd rfl hn)
    fun hn => absurd rfl hn
  exact ⟨hset.occupied, hset.apart, hset.held⟩

theorem allocate (h : s.Table cfg) (hr : s.Reusable cfg mac) : (s.allocate cfg mac).Table cfg := by
  cases hfree : s.firstFree cfg with
  | none =>
    simp only [Hostapd.allocate, hfree]
    exact h
  | some i =>
    obtain ⟨hnone, hunused⟩ := hr i hfree
    have hi := (firstFree_some hfree).1
    simp only [Hostapd.allocate, hfree]
    have hold : ∀ j, j ≠ i → ((s.setStation i { s.station i with
        state := .authenticated, aid := i + 1, mac := mac }).station j) = s.station j := fun j hj => setStation_of_ne hj
    have hnew : ∀ j, j ≠ i → (s.station j).state ≠ .free → (s.station j).mac ≠ mac := fun j _ hj =>
      find_none hnone (h.occupied j hj).1 hj
    constructor
    · intro j hj
      by_cases hji : j = i
      · subst hji
        dsimp only
        rw [setStation_self]
        exact ⟨hi, rfl⟩
      · dsimp only at hj ⊢
        rw [hold j hji] at hj ⊢
        exact h.occupied j hj
    · intro j k hj hk hjk
      dsimp only at hj hk hjk
      by_cases hji : j = i <;> by_cases hki : k = i
      · rw [hji, hki]
      · rw [hold k hki] at hk hjk
        rw [hji, setStation_self] at hjk
        exact absurd hjk.symm (hnew k hki hk)
      · rw [hold j hji] at hj hjk
        rw [hki, setStation_self] at hjk
        exact absurd hjk (hnew j hji hj)
      · rw [hold j hji] at hj hjk
        rw [hold k hki] at hk hjk
        exact h.apart j k hj hk hjk
    · intro u r hu hj
      have hne : r.slot ≠ i := hunused u r hu
      dsimp only at hj ⊢
      rw [hold _ hne] at hj
      rw [Function.update_of_ne hne]
      exact h.held u r hu hj

theorem associate (h : s.Table cfg) (hocc : (s.station i).state ≠ .free) (random : Bytes 32 × Bool) :
    (s.associate c i random).1.Table cfg := by
  cases hm : hostapdBuildMessage1 c s.replayCounter { s.station i with firmwareAdded := true } random with
  | mk counter r =>
    obtain ⟨x, built⟩ := r
    obtain ⟨hmac, haid, _, _⟩ := hostapdBuildMessage1_frame hm
    have hset : (s.setStation i x).Table cfg := h.setStation (fun _ => hocc) (fun _ => hmac) fun _ => haid
    simp only [Hostapd.associate, hm]
    split_ifs
    · exact ⟨hset.occupied, hset.apart, hset.held⟩
    · exact ⟨hset.occupied, hset.apart, hset.held⟩

theorem receive (h : s.Table cfg) (hocc : (s.station i).state ≠ .free) (source : Bytes 6) (data : List UInt8) :
    (s.receive c cfg t i source data).Table cfg := by
  cases hr : hostapdEapol c cfg (s.station i) data with
  | mk x' v =>
    have hsame : x'.mac = (s.station i).mac ∧ x'.aid = (s.station i).aid := by
      rcases hostapdEapol_cases hr with ⟨_, _, hx, _⟩ | ⟨_, hx, _⟩ | ⟨hx, _⟩ <;>
      · rw [hx]
        exact ⟨rfl, rfl⟩
    have hset := h.setStation (i := i) (fun _ => hocc) (fun _ => hsame.1) fun _ => hsame.2
    simp only [Hostapd.receive, hr]
    cases v with
    | message2 =>
      apply goto_found (i := i)
      · exact ⟨hset.occupied, hset.apart, hset.held⟩
      · split_ifs <;> rfl
    | message4 =>
      apply goto_found (i := i)
      · exact ⟨hset.occupied, hset.apart, hset.held⟩
      · rfl
    | badMic => exact hset
    | dropped => exact hset

theorem message3 {r : StationRef} (h : s.Table cfg) (hpc : s.pc t = .buildMessage3 r)
    (hocc : (s.station r.slot).state ≠ .free) : (s.message3 c cfg t r).Table cfg := by
  cases hm : hostapdBuildMessage3 c cfg s.replayCounter (s.station r.slot) with
  | mk counter m =>
    obtain ⟨x, built⟩ := m
    obtain ⟨hmac, haid, _, _⟩ := hostapdBuildMessage3_frame hm
    have hset : (s.setStation r.slot x).Table cfg := h.setStation (fun _ => hocc) (fun _ => hmac) fun _ => haid
    simp only [Hostapd.message3, hm]
    apply goto_ref
    · exact ⟨hset.occupied, hset.apart, hset.held⟩
    · right
      change _ = (s.pc t).ref
      rw [hpc]
      split_ifs <;> rfl

theorem start : (Hostapd.start).Table cfg :=
  ⟨fun _ hi => absurd rfl hi, fun _ _ hi => absurd rfl hi, fun _ _ hr => by cases hr⟩

theorem change {u : Hostapd} (h : s.Table cfg) (hok : s.TableOk cfg e) (hu : s.Change c cfg e u) : u.Table cfg := by
  cases hu with
  | stay => exact h
  | allocate mac hr => exact h.allocate (hr hok)
  | associate i random hocc => exact h.associate hocc random
  | clear i => exact h.clear
  | clearAll => exact ⟨fun _ hi => absurd rfl hi, fun _ _ hi => absurd rfl hi, fun _ _ _ hi => absurd rfl hi⟩
  | finish t r he hpc =>
    subst he
    exact h.setStation (fun _ => hok r (hpc ▸ rfl)) (fun _ => rfl) fun _ => rfl

theorem step (h : s.Table cfg) (hok : s.TableOk cfg e) (hs : Hostapd.step c cfg s e = some s') : s'.Table cfg := by
  cases step_next hs with
  | change hu => exact h.change hok hu
  | leave hu hp => exact (h.change hok hu).goto_ref (.inl hp)
  | found => exact h.goto_found rfl
  | keep hp _ _ => exact h.goto_ref (.inr hp)
  | addGtk hpc =>
    apply goto_ref
    · exact ⟨h.occupied, h.apart, h.held⟩
    · exact .inr (hpc ▸ rfl)
  | receive hocc _ => exact h.receive hocc _ _
  | message3 he hpc =>
    subst he
    exact h.message3 hpc (hok _ (hpc ▸ rfl))
  | call he hpc hp _ _ =>
    apply goto_ref
    · exact ⟨h.occupied, h.apart, h.held⟩
    · exact .inr (hpc ▸ hp)

end Table

def SlotTable (cfg : HostapdConfig) (s : Hostapd) : Prop :=
  (∀ i, (s.station i).state ≠ .free → i < cfg.maxStations ∧ (s.station i).aid = i + 1) ∧
  (∀ i j, (s.station i).state ≠ .free → (s.station j).state ≠ .free → (s.station i).mac = (s.station j).mac → i = j) ∧
  ((List.range 10).filter fun i => (s.station i).state ≠ .free).length ≤ cfg.maxStations ∧
  ∀ t r again, s.pc t = .remove r again → (s.station r.slot).state = .free ∨ s.occupancy r.slot = r.occupancy

theorem Table.count (h : s.Table cfg) :
    ((List.range 10).filter fun i => (s.station i).state ≠ .free).length ≤ cfg.maxStations := by
  have hsub : (List.range 10).filter (fun i => (s.station i).state ≠ .free) ⊆ List.range cfg.maxStations := by
    intro i hi
    exact List.mem_range.mpr (h.occupied i (of_decide_eq_true (List.mem_filter.mp hi).2)).1
  have hnodup := (List.nodup_range (n := 10)).filter fun i => decide ((s.station i).state ≠ .free)
  have hle := (hnodup.subperm hsub).length_le
  rwa [List.length_range] at hle

/-- As long as no slot is given out that a thread still uses, no address is allocated twice, and the EAPOL
handler writes to no slot that has been freed, the table stays in order. -/
theorem station_table (h : run (step c cfg) start es = some s)
    (hm : Meets (step c cfg) (TableOk cfg) start es) : s.SlotTable cfg := by
  have htable : s.Table cfg := run_invariant_of_meets (Table cfg) (fun _ _ _ hi hok hs => hi.step hok hs) h hm Table.start
  refine ⟨htable.occupied, htable.apart, htable.count, ?_⟩
  intro t r again hpc
  by_cases hfree : (s.station r.slot).state = .free
  · exact .inl hfree
  · exact .inr (htable.held t r (by rw [hpc]; rfl) hfree)

def demoStation (b : UInt8) : Bytes 6 := ⟨[2, 0, 0, 0, 0, b], rfl⟩

def demoHostapd : HostapdConfig := ⟨demoStation 1, zeroBytes 32, zeroBytes 16, 10, le_refl 10⟩

def nullCrypto : WlanCrypto := ⟨fun _ _ => zeroBytes 20, fun _ b => b, fun _ b => b, fun _ _ => rfl⟩

def slotReuse : List HostapdEvent :=
  [.auth 0 (demoStation 2) true, .deauth 1 (demoStation 2), .clear 1, .auth 0 (demoStation 3) true]

theorem station_table_reuse :
    ∃ s, run (step nullCrypto demoHostapd) start slotReuse = some s ∧ s.SlotTable demoHostapd := by
  have hrun : (run (step nullCrypto demoHostapd) start slotReuse).isSome = true := rfl
  obtain ⟨s, hs⟩ := Option.isSome_iff_exists.mp hrun
  refine ⟨s, hs, station_table hs ?_⟩
  refine ⟨fun _ _ i _ => ⟨rfl, fun u r hr => by cases hr⟩, fun s1 h1 => ?_⟩
  cases h1
  refine ⟨trivial, fun s2 h2 => ?_⟩
  cases h2
  refine ⟨trivial, fun s3 h3 => ?_⟩
  cases h3
  refine ⟨fun _ _ i _ => ⟨rfl, fun u r hr => ?_⟩, fun s4 h4 => ?_⟩
  · by_cases hu : u = 1
    · rw [hu, goto_pc_self] at hr
      cases hr
    · rw [goto_pc_of_ne hu] at hr
      have hidle : ((start.allocate demoHostapd (demoStation 2)).goto 1 (.remove ⟨0, 0, none, zeroBytes 48⟩ none)).pc u = .idle :=
        goto_pc_of_ne hu
      have hnone : HostapdPc.idle.ref = some r := (congrArg HostapdPc.ref hidle).symm.trans hr
      cases hnone
  · exact trivial

def doubleRemoval : List HostapdEvent :=
  [.auth 0 (demoStation 2) true, .deauth 1 (demoStation 2), .deauth 2 (demoStation 2), .clear 1,
    .auth 0 (demoStation 3) true]

theorem removes_another_station : ¬ ∃ c : WlanCrypto, ∀ es s,
    run (step c demoHostapd) start es = some s → s.SlotTable demoHostapd := by
  rintro ⟨c, h⟩
  have hrun : ((run (step c demoHostapd) start doubleRemoval).any fun s =>
      s.pc 2 = .remove ⟨0, 0, none, zeroBytes 48⟩ none && (s.station 0).state = .authenticated && s.occupancy 0 = 1) = true := rfl
  obtain ⟨s, hs, hat⟩ := (Option.any_eq_true _ _).mp hrun
  rw [Bool.and_eq_true, Bool.and_eq_true, decide_eq_true_eq, decide_eq_true_eq, decide_eq_true_eq] at hat
  have hslot := (h doubleRemoval s hs).2.2.2 2 _ _ hat.1.1
  rw [hat.1.2, hat.2] at hslot
  cases hslot with
  | inl hfree => cases hfree
  | inr hsame => cases hsame

end Hostapd

end RtSmart
