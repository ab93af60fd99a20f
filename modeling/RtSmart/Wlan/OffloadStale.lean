import RtSmart.Wlan.Offload

namespace RtSmart

open Lib

namespace OffloadRadio

def pending (r : OffloadRadio) (slot : OffloadSlot) : ℕ :=
  (r.vifs slot.iftype).pending slot

@[simp] theorem setVif_self (r : OffloadRadio) (ift : OffloadIftype) (vif : OffloadVif) :
    (r.setVif ift vif).vifs ift = vif :=
  Function.update_self ..

theorem setVif_ne (r : OffloadRadio) {ift i : OffloadIftype} (vif : OffloadVif) (h : i ≠ ift) :
    (r.setVif ift vif).vifs i = r.vifs i :=
  Function.update_of_ne h ..

theorem pending_setVif_self (r : OffloadRadio) (slot : OffloadSlot) (vif : OffloadVif) :
    (r.setVif slot.iftype vif).pending slot = vif.pending slot := by
  unfold pending
  rw [setVif_self]

theorem pending_setVif_ne (r : OffloadRadio) {slot : OffloadSlot} {ift : OffloadIftype} (vif : OffloadVif)
    (h : slot.iftype ≠ ift) : (r.setVif ift vif).pending slot = r.pending slot := by
  unfold pending
  rw [setVif_ne r vif h]

/-- From `r` to `r'` no request is taken up and no link comes up. -/
structure Calmer (r r' : OffloadRadio) : Prop where
  pending : ∀ slot, r'.pending slot = r.pending slot ∨ r'.pending slot = 0
  link : ∀ ift, (r'.vifs ift).linkUp = true → (r.vifs ift).linkUp = true

theorem Calmer.refl (r : OffloadRadio) : Calmer r r :=
  ⟨fun _ => .inl rfl, fun _ h => h⟩

theorem Calmer.setVif {r : OffloadRadio} {ift : OffloadIftype} {vif : OffloadVif}
    (hp : ∀ slot, slot.iftype = ift → vif.pending slot = r.pending slot ∨ vif.pending slot = 0)
    (hl : vif.linkUp = true → (r.vifs ift).linkUp = true) : Calmer r (r.setVif ift vif) := by
  constructor
  · intro slot
    by_cases h : slot.iftype = ift
    · have := hp slot h
      subst h
      rwa [pending_setVif_self]
    · exact .inl (pending_setVif_ne r vif h)
  · intro i hi
    by_cases h : i = ift
    · subst h
      rw [setVif_self] at hi
      exact hl hi
    · rwa [setVif_ne r vif h] at hi

theorem Calmer.of_vifs {r r' r'' : OffloadRadio} (h : Calmer r r') (hv : r''.vifs = r'.vifs) : Calmer r r'' := by
  constructor
  · intro slot
    unfold OffloadRadio.pending
    rw [hv]
    exact h.pending slot
  · intro ift
    rw [hv]
    exact h.link ift

theorem dropLinks_calmer (r : OffloadRadio) : Calmer r r.dropLinks := by
  constructor
  · intro slot
    cases slot with
    | scan => exact .inr rfl
    | connect => exact .inr rfl
    | ap => exact .inr rfl
  · intro ift h
    cases ift with
    | station => cases h
    | ap => cases h

theorem setRadioOnline_calmer (r : OffloadRadio) (online : Bool) : Calmer r (r.setRadioOnline online).1 := by
  unfold setRadioOnline
  cases online with
  | true =>
    rw [if_pos rfl]
    split_ifs
    · exact .refl r
    · exact .refl r
    · exact (Calmer.refl r).of_vifs rfl
  | false =>
    rw [if_neg (by decide)]
    split_ifs
    · exact .refl r
    · exact .refl r
    · exact r.dropLinks_calmer.of_vifs rfl

theorem firmwareError_calmer (r : OffloadRadio) (e : OffloadEvent) : Calmer r (r.firmwareError e).1 := by
  unfold firmwareError
  split_ifs
  · exact .refl r
  · exact .refl r
  · exact r.dropLinks_calmer.of_vifs rfl

theorem interfaceChanged_calmer (r : OffloadRadio) (ift : OffloadIftype) (enabled : Bool) :
    Calmer r (r.interfaceChanged ift enabled) := by
  apply Calmer.setVif
  · intro slot hslot
    subst hslot
    cases enabled with
    | true => cases slot <;> exact .inl rfl
    | false => cases slot <;> exact .inr rfl
  · intro h
    cases enabled with
    | true => exact h
    | false => cases h

theorem wlanInit_calmer (r : OffloadRadio) : Calmer r r.wlanInit := by
  unfold wlanInit
  split_ifs
  · constructor
    · intro slot
      cases slot <;> exact .inr rfl
    · intro ift h
      cases h
  · exact .refl r

theorem wlanInitDone_calmer (r : OffloadRadio) (ret : ℤ) : Calmer r (r.wlanInitDone ret) := by
  unfold wlanInitDone
  split_ifs
  · exact (Calmer.refl r).of_vifs rfl
  · exact (Calmer.refl r).of_vifs rfl
  · exact .refl r

theorem clearPending_calmer (r : OffloadRadio) (slot : OffloadSlot) :
    Calmer r (r.setVif slot.iftype ((r.vifs slot.iftype).clearPending slot)) := by
  apply Calmer.setVif
  · intro slot' hslot
    unfold pending
    rw [hslot]
    cases slot <;> cases slot' <;> first | exact .inl rfl | exact .inr rfl
  · intro h
    cases slot <;> exact h

/-- A completion for `slot` that is accepted, with what it does to the radio. -/
structure Accepted (r : OffloadRadio) (e : OffloadEvent) (slot : OffloadSlot) (r' : OffloadRadio)
    (outputs : List OffloadOutput) : Prop where
  place : r.state = .started ∧ e.iftype = some slot.iftype ∧ (r.vifs slot.iftype).registered = true
  id : e.requestId = r.pending slot ∧ e.requestId ≠ 0 ∨
    (e.type = .apStarted ∨ e.type = .apStopped) ∧ (e.requestId = r.pending slot ∨ r.pending slot = 0)
  pending : ∀ other, r'.pending other = r.pending other ∨ r'.pending other = 0
  ended : e.type.ends = true → r'.pending slot = 0
  link : ∀ ift ≠ slot.iftype, (r'.vifs ift).linkUp = (r.vifs ift).linkUp
  outputs : outputs ≠ []

theorem Accepted.of_setVif {r : OffloadRadio} {e : OffloadEvent} {slot : OffloadSlot} {outputs : List OffloadOutput}
    {vif : OffloadVif}
    (place : r.state = .started ∧ e.iftype = some slot.iftype ∧ (r.vifs slot.iftype).registered = true)
    (id : e.requestId = r.pending slot ∧ e.requestId ≠ 0 ∨
      (e.type = .apStarted ∨ e.type = .apStopped) ∧ (e.requestId = r.pending slot ∨ r.pending slot = 0))
    (hother : ∀ other, other ≠ slot → other.iftype = slot.iftype → vif.pending other = r.pending other)
    (hslot : vif.pending slot = 0) (outputs_ne : outputs ≠ []) :
    Accepted r e slot (r.setVif slot.iftype vif) outputs := by
  have hcleared : (r.setVif slot.iftype vif).pending slot = 0 := (pending_setVif_self ..).trans hslot
  refine ⟨place, id, ?_, fun _ => hcleared, ?_, outputs_ne⟩
  · intro other
    by_cases hs : other = slot
    · rw [hs]
      exact .inr hcleared
    · refine .inl ?_
      by_cases hi : other.iftype = slot.iftype
      · rw [← hother other hs hi]
        unfold OffloadRadio.pending
        rw [hi, setVif_self]
      · exact pending_setVif_ne r vif hi
  · intro ift hne
    rw [setVif_ne r vif hne]

theorem handleEvent_accepted {cfg : OffloadConfig} {r r' : OffloadRadio} {e : OffloadEvent} {slot : OffloadSlot}
    {outputs : List OffloadOutput} {type : OffloadEventType} (hslot : e.type.slot = some slot)
    (place : r.state = .started ∧ e.iftype = some slot.iftype ∧ (r.vifs slot.iftype).registered = true)
    (h : r.handleEvent cfg slot.iftype e = some (r', outputs)) :
    Accepted r e slot r' (outputs ++ [.handler type]) := by
  have hne : outputs ++ [.handler type] ≠ [] := by simp
  unfold handleEvent at h
  cases htype : e.type with
  | scanResult =>
    rw [htype] at hslot h
    cases hslot
    dsimp only at h
    split at h
    · cases h
    · rename_i hc
      push Not at hc
      cases h
      exact ⟨place, .inl ⟨hc.2.1, hc.1⟩, fun _ => .inl rfl, fun he => (by rw [htype] at he; cases he),
        fun _ _ => rfl, hne⟩
  | scanDone =>
    rw [htype] at hslot h
    cases hslot
    dsimp only at h
    split at h
    · cases h
    · rename_i hc
      push Not at hc
      cases h
      apply Accepted.of_setVif place (.inl ⟨hc.2, hc.1⟩) _ rfl hne
      intro other ho hi
      cases other with
      | scan => exact absurd rfl ho
      | connect => rfl
      | ap => cases hi
  | connectResult =>
    rw [htype] at hslot h
    cases hslot
    dsimp only at h
    split at h
    · cases h
    · rename_i hc
      push Not at hc
      cases h
      apply Accepted.of_setVif place (.inl ⟨hc.2, hc.1⟩) _ rfl hne
      intro other ho hi
      cases other with
      | scan => rfl
      | connect => exact absurd rfl ho
      | ap => cases hi
  | apStarted =>
    rw [htype] at hslot h
    cases hslot
    dsimp only at h
    split at h
    · cases h
    · rename_i hc
      cases h
      apply Accepted.of_setVif place (.inr ⟨.inl htype, (by tauto)⟩) _ rfl hne
      intro other ho hi
      cases other with
      | scan => cases hi
      | connect => cases hi
      | ap => exact absurd rfl ho
  | apStopped =>
    rw [htype] at hslot h
    cases hslot
    dsimp only at h
    split at h
    · cases h
    · rename_i hc
      cases h
      apply Accepted.of_setVif place (.inr ⟨.inr htype, (by tauto)⟩) _ rfl hne
      intro other ho hi
      cases other with
      | scan => cases hi
      | connect => cases hi
      | ap => exact absurd rfl ho
  | _ =>
    rw [htype] at hslot
    cases hslot

theorem report_completion (cfg : OffloadConfig) (r : OffloadRadio) {e : OffloadEvent} (consumed : Bool)
    {slot : OffloadSlot} (hslot : e.type.slot = some slot) :
    ((r.reportEvent cfg e consumed).1 = r ∧ (r.reportEvent cfg e consumed).2.1 = []) ∨
      consumed = false ∧ Accepted r e slot (r.reportEvent cfg e consumed).1 (r.reportEvent cfg e consumed).2.1 := by
  have hift : eventIftype e.type = some slot.iftype := by
    cases htype : e.type <;> rw [htype] at hslot <;> cases hslot <;> rfl
  have hplain : ¬(e.type = .radioOnline ∨ e.type = .radioOffline) ∧ e.type ≠ .regulatoryChanged ∧
      e.type ≠ .firmwareError := by
    refine ⟨?_, ?_, ?_⟩
    · rintro (htype | htype) <;> rw [htype] at hslot <;> cases hslot
    · intro htype
      rw [htype] at hslot
      cases hslot
    · intro htype
      rw [htype] at hslot
      cases hslot
  unfold reportEvent
  cases consumed with
  | true => exact .inl ⟨rfl, rfl⟩
  | false =>
    rw [if_neg (by decide), if_neg hplain.1]
    by_cases hun : r.state = .unregistered
    · rw [if_pos hun]
      exact .inl ⟨rfl, rfl⟩
    · rw [if_neg hun, if_neg hplain.2.1, if_neg hplain.2.2]
      by_cases hst : r.state = .started
      · rw [if_neg (not_not_intro hst)]
        cases hv : r.getVif e.iftype with
        | none => exact .inl ⟨rfl, rfl⟩
        | some ift =>
          dsimp only
          rw [hift]
          by_cases hi : slot.iftype = ift
          · subst hi
            rw [if_neg (by simp)]
            obtain ⟨he, hreg⟩ := Option.filter_eq_some_iff.mp hv
            cases hh : r.handleEvent cfg slot.iftype e with
            | none => exact .inl ⟨rfl, rfl⟩
            | some out => exact .inr ⟨rfl, handleEvent_accepted hslot ⟨hst, he, hreg⟩ hh⟩
          · rw [if_pos (by simpa using hi)]
            exact .inl ⟨rfl, rfl⟩
      · rw [if_pos hst]
        exact .inl ⟨rfl, rfl⟩

theorem report_apStopped (cfg : OffloadConfig) (r : OffloadRadio) {e : OffloadEvent} (consumed : Bool)
    (htype : e.type = .apStopped) :
    (r.reportEvent cfg e consumed).1 = r ∨
      (r.reportEvent cfg e consumed).1 = r.setVif .ap { r.vifs .ap with pendingApId := 0, linkUp := false } := by
  have hplain : ¬(e.type = .radioOnline ∨ e.type = .radioOffline) ∧ e.type ≠ .regulatoryChanged ∧
      e.type ≠ .firmwareError := by simp [htype]
  unfold reportEvent
  rw [if_neg hplain.1, if_neg hplain.2.1, if_neg hplain.2.2]
  split
  · exact .inl rfl
  · split
    · exact .inl rfl
    · split
      · exact .inl rfl
      · split
        · exact .inl rfl
        · rename_i ift _
          rw [htype]
          cases ift with
          | station => exact .inl rfl
          | ap =>
            rw [if_neg (by simp [eventIftype])]
            unfold handleEvent
            rw [htype]
            dsimp only
            split
            · exact .inl rfl
            · rename_i hout
              split at hout
              · cases hout
              · cases hout
                exact .inr rfl

theorem handleEvent_other {cfg : OffloadConfig} {r r' : OffloadRadio} {ift : OffloadIftype} {e : OffloadEvent}
    {outputs : List OffloadOutput} (hslot : e.type.slot = none) (h : r.handleEvent cfg ift e = some (r', outputs)) :
    Calmer r r' := by
  unfold handleEvent at h
  cases htype : e.type with
  | disconnected =>
    rw [htype] at h
    cases h
    apply Calmer.setVif
    · rintro slot rfl
      cases slot <;> first | exact .inl rfl | exact .inr rfl
    · intro hup
      cases hup
  | newStation | delStation | tkipMicFailure =>
    rw [htype] at h
    cases h
    exact .refl r
  | scanResult | scanDone | connectResult | apStarted | apStopped =>
    rw [htype] at hslot
    cases hslot
  | regulatoryChanged | firmwareError | radioOnline | radioOffline =>
    rw [htype] at h
    cases h
  | authRx | assocRx | mgmtRx | mgmtTxStatus | eapolRx | externalAuthRequired =>
    rw [htype] at h
    dsimp only at h
    split at h
    · cases h
      exact .refl r
    · cases h

theorem report_other (cfg : OffloadConfig) (r : OffloadRadio) {e : OffloadEvent} (consumed : Bool)
    (hslot : e.type.slot = none) : Calmer r (r.reportEvent cfg e consumed).1 := by
  unfold reportEvent
  cases consumed with
  | true => exact .refl r
  | false =>
    rw [if_neg (by decide)]
    split
    · exact r.setRadioOnline_calmer _
    · split
      · exact .refl r
      · split
        · exact .refl r
        · split
          · exact r.firmwareError_calmer e
          · split
            · exact .refl r
            · split
              · exact .refl r
              · rename_i ift hv
                split
                · exact .refl r
                · split
                  · exact .refl r
                  · rename_i r' outputs hh
                    exact handleEvent_other hslot hh

end OffloadRadio

namespace OffloadSys

open OffloadRadio

structure Inv (s : OffloadSys) : Prop where
  fresh : ∀ slot, s.pending slot ≠ 0 → s.owner slot < s.stamps
  apart : ∀ a b, a ≠ b → s.pending a ≠ 0 → s.pending b ≠ 0 → s.owner a ≠ s.owner b
  live : ∀ slot, s.pending slot ≠ 0 → s.owner slot ∉ s.ended
  past : ∀ k ∈ s.ended, k < s.stamps
  completed : s.completed.Nodup ∧ ∀ k ∈ s.completed, k ∈ s.ended

theorem mem_retired {s : OffloadSys} {r : OffloadRadio} {k : ℕ} :
    k ∈ s.retired r ↔ ∃ slot, s.pending slot ≠ 0 ∧ r.pending slot = 0 ∧ s.owner slot = k := by
  unfold retired
  simp only [List.mem_map, List.mem_filter, decide_eq_true_eq]
  constructor
  · rintro ⟨slot, ⟨_, hs, hr⟩, rfl⟩
    exact ⟨slot, hs, hr, rfl⟩
  · rintro ⟨slot, hs, hr, rfl⟩
    exact ⟨slot, ⟨by cases slot <;> simp, hs, hr⟩, rfl⟩

theorem Inv.become {s : OffloadSys} {r : OffloadRadio} {outputs : List OffloadOutput} (h : Inv s)
    (hp : ∀ slot, r.pending slot = s.pending slot ∨ r.pending slot = 0) : Inv (s.become r outputs) := by
  have hold : ∀ slot, (s.become r outputs).pending slot ≠ 0 → s.pending slot ≠ 0 := by
    intro slot hslot
    have hr : r.pending slot ≠ 0 := hslot
    obtain he | he := hp slot
    · rwa [he] at hr
    · exact absurd he hr
  refine ⟨?_, ?_, ?_, ?_, h.completed.1, ?_⟩
  · intro slot hslot
    exact h.fresh slot (hold slot hslot)
  · intro a b hab ha hb
    exact h.apart a b hab (hold a ha) (hold b hb)
  · intro slot hslot hmem
    obtain hmem | hmem := List.mem_append.mp hmem
    · obtain ⟨other, ho, hr, he⟩ := mem_retired.mp hmem
      have hne : other ≠ slot := by
        rintro rfl
        exact hslot hr
      exact h.apart other slot hne ho (hold slot hslot) he
    · exact h.live slot (hold slot hslot) hmem
  · intro k hk
    obtain hk | hk := List.mem_append.mp hk
    · obtain ⟨slot, hs, _, rfl⟩ := mem_retired.mp hk
      exact h.fresh slot hs
    · exact h.past k hk
  · intro k hk
    exact List.mem_append_right _ (h.completed.2 k hk)

/-- A submission that the driver gets has set its own pending id, which was free. -/
def Taken (s : OffloadSys) (slot : OffloadSlot) (out : OffloadRadio × ℤ) : Prop :=
  (out.2 ≠ rtEok ∧ out.1 = s.radio) ∨
    out.2 = rtEok ∧ s.pending slot = 0 ∧ (∀ other ≠ slot, out.1.pending other = s.pending other) ∧
      ∀ ift, (out.1.vifs ift).linkUp = (s.radio.vifs ift).linkUp

theorem Inv.submit {s : OffloadSys} {slot : OffloadSlot} {requestId : ℕ} {out : OffloadRadio × ℤ} (h : Inv s)
    (ht : Taken s slot out) : Inv (s.submit slot requestId out) := by
  unfold OffloadSys.submit
  obtain ⟨hne, hr⟩ | ⟨hok, hfree, hother, _⟩ := ht
  · rw [if_neg hne, hr]
    exact h.become fun _ => .inl rfl
  · rw [if_pos hok]
    have hret : s.retired out.1 = [] := by
      apply List.eq_nil_iff_forall_not_mem.mpr
      intro k hk
      obtain ⟨other, ho, hr, _⟩ := mem_retired.mp hk
      by_cases he : other = slot
      · rw [he] at ho
        exact ho hfree
      · rw [hother other he] at hr
        exact ho hr
    have hold : ∀ other ≠ slot, out.1.pending other ≠ 0 → s.pending other ≠ 0 := by
      intro other he ho
      rwa [← hother other he]
    refine ⟨?_, ?_, ?_, ?_, h.completed.1, ?_⟩
    · intro other ho
      by_cases he : other = slot
      · subst he
        simp
      · have := h.fresh other (hold other he ho)
        simp only [Function.update_of_ne he]
        omega
    · intro a b hab ha hb
      by_cases hea : a = slot
      · subst hea
        have := h.fresh b (hold b (Ne.symm hab) hb)
        simp only [Function.update_self, Function.update_of_ne (Ne.symm hab)]
        omega
      · by_cases heb : b = slot
        · subst heb
          have := h.fresh a (hold a hea ha)
          simp only [Function.update_self, Function.update_of_ne hea]
          omega
        · simp only [Function.update_of_ne hea, Function.update_of_ne heb]
          exact h.apart a b hab (hold a hea ha) (hold b heb hb)
    · intro other ho hmem
      have hmem : Function.update s.owner slot s.stamps other ∈ s.ended := by
        have : _ ∈ s.retired out.1 ++ s.ended := hmem
        rwa [hret, List.nil_append] at this
      by_cases he : other = slot
      · subst he
        rw [Function.update_self] at hmem
        have := h.past _ hmem
        omega
      · rw [Function.update_of_ne he] at hmem
        exact h.live other (hold other he ho) hmem
    · intro k hk
      have hk : k ∈ s.ended := by
        have : k ∈ s.retired out.1 ++ s.ended := hk
        rwa [hret, List.nil_append] at this
      have := h.past k hk
      exact Nat.lt_succ_of_lt this
    · intro k hk
      exact List.mem_append_right _ (h.completed.2 k hk)

theorem taken_setVif (s : OffloadSys) (r : OffloadRadio) (slot : OffloadSlot) (vif : OffloadVif)
    (hr : r.vifs = s.radio.vifs) (hfree : s.pending slot = 0)
    (hother : ∀ other ≠ slot, vif.pending other = (s.radio.vifs slot.iftype).pending other)
    (hlink : vif.linkUp = (s.radio.vifs slot.iftype).linkUp) : Taken s slot (r.setVif slot.iftype vif, rtEok) := by
  refine .inr ⟨rfl, hfree, ?_, ?_⟩
  · intro other hne
    by_cases hi : other.iftype = slot.iftype
    · have := hother other hne
      unfold OffloadRadio.pending OffloadSys.pending
      rw [hi, setVif_self, this]
    · rw [pending_setVif_ne r vif hi]
      unfold OffloadRadio.pending OffloadSys.pending
      rw [hr]
  · intro ift
    by_cases hi : ift = slot.iftype
    · subst hi
      rw [setVif_self, hlink]
    · rw [setVif_ne r vif hi, hr]

theorem taken_refused {s : OffloadSys} {slot : OffloadSlot} {e : ℤ} (he : e ≠ rtEok) :
    Taken s slot (s.radio, e) :=
  .inl ⟨he, rfl⟩

theorem scanSubmit_taken (s : OffloadSys) (ift : OffloadIftype) (request : OffloadScanRequest) :
    Taken s .scan (s.radio.scanSubmit s.cfg ift request) := by
  unfold scanSubmit
  dsimp only
  split
  · exact taken_refused (by decide)
  · rename_i hargs
    split
    · exact taken_refused (by decide)
    · rename_i hbusy
      split
      · exact taken_refused (by decide)
      · split
        · exact taken_refused (by decide)
        · split
          · exact taken_refused (by decide)
          · push Not at hargs hbusy
            obtain rfl := hargs.1
            apply taken_setVif s { s.radio with bssCache := emptyBssCache } .scan _ rfl hbusy.2
            · intro other hne
              cases other with
              | scan => exact absurd rfl hne
              | connect => rfl
              | ap => rfl
            · rfl

theorem connectSubmit_taken (s : OffloadSys) (ift : OffloadIftype) (request : OffloadConnectRequest) :
    Taken s .connect (s.radio.connectSubmit s.cfg ift request) := by
  unfold connectSubmit
  dsimp only
  split
  · exact taken_refused (by decide)
  · rename_i hargs
    split
    · exact taken_refused (by decide)
    · rename_i hbusy
      split
      · exact taken_refused (by decide)
      · push Not at hargs hbusy
        obtain rfl := hargs.1
        apply taken_setVif s _ .connect _ rfl hbusy.2
        · intro other hne
          cases other with
          | scan => rfl
          | connect => exact absurd rfl hne
          | ap => rfl
        · rfl

theorem assocSubmit_taken (s : OffloadSys) (ift : OffloadIftype) (request : OffloadAssocRequest) :
    Taken s .connect (s.radio.assocSubmit s.cfg ift request) := by
  unfold assocSubmit
  dsimp only
  split
  · exact taken_refused (by decide)
  · split
    · exact taken_refused (by decide)
    · rename_i hargs
      split
      · exact taken_refused (by decide)
      · rename_i hbusy
        push Not at hargs hbusy
        obtain rfl := hargs.1
        apply taken_setVif s _ .connect _ rfl hbusy.2
        · intro other hne
          cases other with
          | scan => rfl
          | connect => exact absurd rfl hne
          | ap => rfl
        · rfl

theorem startApSubmit_taken (s : OffloadSys) (ift : OffloadIftype) (settings : OffloadApSettings) :
    Taken s .ap (s.radio.startApSubmit s.cfg ift settings) := by
  unfold startApSubmit
  dsimp only
  split
  · exact taken_refused (by decide)
  · rename_i hargs
    split
    · exact taken_refused (by decide)
    · rename_i hbusy
      split
      · exact taken_refused (by decide)
      · push Not at hargs hbusy
        obtain rfl := hargs.1
        apply taken_setVif s _ .ap _ rfl hbusy.2
        · intro other hne
          cases other with
          | scan => rfl
          | connect => rfl
          | ap => exact absurd rfl hne
        · rfl

theorem stopApSubmit_taken (s : OffloadSys) (ift : OffloadIftype) (requestId : ℕ) :
    Taken s .ap (s.radio.stopApSubmit s.cfg ift requestId) := by
  unfold stopApSubmit
  dsimp only
  split
  · exact taken_refused (by decide)
  · rename_i hargs
    split
    · exact taken_refused (by decide)
    · rename_i hbusy
      split
      · exact taken_refused (by decide)
      · push Not at hargs hbusy
        obtain rfl := hargs.1
        apply taken_setVif s _ .ap _ rfl hbusy.2
        · intro other hne
          cases other with
          | scan => rfl
          | connect => rfl
          | ap => exact absurd rfl hne
        · rfl

/-- The driver tells that its AP has stopped, without an id and when no request waits for that: this completes no
request. -/
def Unasked (s : OffloadSys) (e : OffloadEvent) : Prop :=
  e.type = .apStopped ∧ e.requestId = 0 ∧ s.pending .ap = 0

/-- The completion of an AP request that is not waited for any more, or of none. -/
def Late (s : OffloadSys) : OffloadStep → Prop
  | .report e consumed =>
    consumed = false ∧ (e.type = .apStarted ∨ e.type = .apStopped ∧ e.requestId ≠ 0) ∧ s.radio.state = .started ∧
      e.iftype = some .ap ∧ (s.radio.vifs .ap).registered = true ∧ s.pending .ap = 0
  | _ => False

/-- What a step does with completions. A request id that is 0 is not the one of any request. -/
structure StepOk (s : OffloadSys) (e : OffloadStep) (s' : OffloadSys) : Prop where
  stale : ∀ event consumed slot, e = .report event consumed → event.type.slot = some slot →
    (∀ ift, event.iftype = some ift → event.requestId = 0 ∨ event.requestId ≠ (s.radio.vifs ift).pending slot) →
    ¬Unasked s event → s'.radio = s.radio ∧ s'.outputs = []
  unasked : ∀ event consumed, e = .report event consumed → Unasked s event →
    (∀ slot, s'.pending slot = s.pending slot) ∧ s'.radio.bssCache = s.radio.bssCache
  raised : ∀ ift, (s.radio.vifs ift).linkUp = false → (s'.radio.vifs ift).linkUp = true →
    ∃ event slot, e = .report event false ∧ event.type.slot = some slot ∧ slot.iftype = ift ∧
      event.requestId ≠ 0 ∧ event.requestId = s.pending slot ∧ s.owner slot ∉ s.ended

theorem Accepted.waited {s : OffloadSys} {e : OffloadEvent} {slot : OffloadSlot} {r' : OffloadRadio}
    {outputs : List OffloadOutput} (ha : Accepted s.radio e slot r' outputs) (hslot : e.type.slot = some slot)
    (hlate : ¬Late s (.report e false)) : (e.requestId ≠ 0 ∧ e.requestId = s.pending slot) ∨ Unasked s e := by
  obtain ⟨hid, hne⟩ | ⟨htype, hid⟩ := ha.id
  · exact .inl ⟨hne, hid⟩
  · have hap : slot = .ap := by
      obtain htype | htype := htype <;> rw [htype] at hslot <;> cases hslot <;> rfl
    subst hap
    by_cases hfree : s.pending .ap = 0
    · have hzero : e.type = .apStopped ∧ e.requestId = 0 := by
        by_contra hno
        apply hlate
        refine ⟨rfl, ?_, ha.place.1, ha.place.2.1, ha.place.2.2, hfree⟩
        obtain htype | htype := htype
        · exact .inl htype
        · exact .inr ⟨htype, fun h0 => hno ⟨htype, h0⟩⟩
      exact .inr ⟨hzero.1, hzero.2, hfree⟩
    · obtain hid | hid := hid
      · exact .inl ⟨fun h0 => hfree (hid.symm.trans h0), hid⟩
      · exact absurd hid hfree

theorem StepOk.of_calmer {s s' : OffloadSys} {e : OffloadStep} (hr : ∀ ift, (s'.radio.vifs ift).linkUp = true →
    (s.radio.vifs ift).linkUp = true) (he : ∀ event consumed, e ≠ .report event consumed) : StepOk s e s' := by
  refine ⟨?_, ?_, ?_⟩
  · intro event consumed slot h
    exact absurd h (he event consumed)
  · intro event consumed h
    exact absurd h (he event consumed)
  · intro ift hdown hup
    rw [hr ift hup] at hdown
    cases hdown

theorem Inv.operation {s : OffloadSys} {iftype : Option OffloadIftype} {slot : OffloadSlot} {requestId : ℕ}
    {out : OffloadIftype → OffloadRadio × ℤ} (h : Inv s) (ht : ∀ ift, Taken s slot (out ift)) :
    Inv (s.operation iftype fun ift => s.submit slot requestId (out ift)) := by
  unfold OffloadSys.operation
  split
  · exact h.become fun _ => .inl rfl
  · split
    · exact h.become fun _ => .inl rfl
    · exact h.submit (ht _)

theorem submit_link {s : OffloadSys} {slot : OffloadSlot} {requestId : ℕ} {out : OffloadRadio × ℤ}
    (ht : Taken s slot out) (ift : OffloadIftype) :
    ((s.submit slot requestId out).radio.vifs ift).linkUp = (s.radio.vifs ift).linkUp := by
  unfold OffloadSys.submit
  obtain ⟨hne, hr⟩ | ⟨hok, _, _, hlink⟩ := ht
  · rw [if_neg hne, hr]
    rfl
  · rw [if_pos hok]
    exact hlink ift

theorem operation_link {s : OffloadSys} {iftype : Option OffloadIftype} {slot : OffloadSlot} {requestId : ℕ}
    {out : OffloadIftype → OffloadRadio × ℤ} (ht : ∀ ift, Taken s slot (out ift)) (ift : OffloadIftype)
    (h : ((s.operation iftype fun ift => s.submit slot requestId (out ift)).radio.vifs ift).linkUp = true) :
    (s.radio.vifs ift).linkUp = true := by
  unfold OffloadSys.operation at h
  split at h
  · exact h
  · split at h
    · exact h
    · rwa [submit_link (ht _)] at h

theorem report_radio (s : OffloadSys) (e : OffloadEvent) (consumed : Bool) :
    (s.report e consumed).radio = (s.radio.reportEvent s.cfg e consumed).1 ∧
      (s.report e consumed).outputs = (s.radio.reportEvent s.cfg e consumed).2.1 := by
  unfold OffloadSys.report
  cases e.type.slot with
  | none => exact ⟨rfl, rfl⟩
  | some slot =>
    dsimp only
    split
    · exact ⟨rfl, rfl⟩
    · exact ⟨rfl, rfl⟩

theorem Inv.report {s : OffloadSys} {e : OffloadEvent} {consumed : Bool} (h : Inv s)
    (hlate : ¬Late s (.report e consumed)) : Inv (s.report e consumed) := by
  unfold OffloadSys.report
  cases hslot : e.type.slot with
  | none => exact h.become (report_other s.cfg s.radio consumed hslot).pending
  | some slot =>
    dsimp only
    obtain ⟨hr, ho⟩ | ⟨rfl, ha⟩ := report_completion s.cfg s.radio consumed hslot
    · rw [if_neg (by rw [ho]; simp)]
      apply h.become
      intro other
      rw [hr]
      exact .inl rfl
    · have hb : Inv (s.become (s.radio.reportEvent s.cfg e false).1 (s.radio.reportEvent s.cfg e false).2.1) :=
        h.become ha.pending
      split
      · rename_i hend
        have hid : e.requestId = s.pending slot := by
          obtain ⟨-, hid⟩ | hunasked := Accepted.waited ha hslot hlate
          · exact hid
          · exact absurd hunasked.2.1 hend.2.2
        have hpend : s.pending slot ≠ 0 := hid ▸ hend.2.2
        have hmem : s.owner slot ∈ s.retired (s.radio.reportEvent s.cfg e false).1 :=
          mem_retired.mpr ⟨slot, hpend, ha.ended hend.2.1, rfl⟩
        refine ⟨hb.fresh, hb.apart, hb.live, hb.past, ?_, ?_⟩
        · apply List.nodup_cons.mpr
          refine ⟨?_, h.completed.1⟩
          intro hc
          exact h.live slot hpend (h.completed.2 _ hc)
        · intro k hk
          obtain rfl | hk := List.mem_cons.mp hk
          · exact List.mem_append_left _ hmem
          · exact hb.completed.2 k hk
      · exact hb

theorem Inv.step {s s' : OffloadSys} {e : OffloadStep} (h : Inv s) (hlate : ¬Late s e) (he : s.step e = some s') :
    Inv s' := by
  cases e with
  | scan iftype request =>
    cases he
    exact h.operation fun ift => s.scanSubmit_taken ift request
  | connect iftype request =>
    cases he
    exact h.operation fun ift => s.connectSubmit_taken ift request
  | assoc iftype request =>
    cases he
    exact h.operation fun ift => s.assocSubmit_taken ift request
  | startAp iftype settings =>
    cases he
    exact h.operation fun ift => s.startApSubmit_taken ift settings
  | stopAp iftype requestId =>
    cases he
    exact h.operation fun ift => s.stopApSubmit_taken ift requestId
  | driverReturn sub ret =>
    simp only [OffloadSys.step] at he
    split at he
    · cases he
      unfold OffloadSys.driverReturn
      have h' : Inv { s with inflight := s.inflight.erase sub } := ⟨h.fresh, h.apart, h.live, h.past, h.completed⟩
      dsimp only
      split
      · exact h'.become (s.radio.clearPending_calmer sub.slot).pending
      · exact h'.become fun _ => .inl rfl
    · cases he
  | report e consumed =>
    cases he
    exact h.report hlate
  | interfaceChanged ift enabled =>
    cases he
    exact h.become (s.radio.interfaceChanged_calmer ift enabled).pending
  | wlanInit =>
    simp only [OffloadSys.step] at he
    split at he
    · cases he
    · cases he
      have hb : Inv (s.become s.radio.wlanInit []) := h.become s.radio.wlanInit_calmer.pending
      exact ⟨hb.fresh, hb.apart, hb.live, hb.past, hb.completed⟩
  | wlanInitDone ret =>
    simp only [OffloadSys.step] at he
    split at he
    · cases he
      have hb : Inv (s.become (s.radio.wlanInitDone ret) []) := h.become (s.radio.wlanInitDone_calmer ret).pending
      exact ⟨hb.fresh, hb.apart, hb.live, hb.past, hb.completed⟩
    · cases he

theorem late_outputs {s : OffloadSys} {e : OffloadEvent} {consumed : Bool} (h : Late s (.report e consumed)) :
    (s.radio.reportEvent s.cfg e false).2.1 ≠ [] := by
  obtain ⟨_, htype, hst, hift, hreg, hfree⟩ := h
  have hfree : (s.radio.vifs .ap).pendingApId = 0 := hfree
  have hvif : s.radio.getVif e.iftype = some .ap := by
    rw [hift]
    exact Option.filter_eq_some_iff.mpr ⟨rfl, hreg⟩
  unfold reportEvent
  obtain htype | ⟨htype, -⟩ := htype
  · simp [htype, hst, hvif, eventIftype, handleEvent, hfree]
  · simp [htype, hst, hvif, eventIftype, handleEvent, hfree]

theorem unasked_report {s : OffloadSys} {e : OffloadEvent} (consumed : Bool) (h : Unasked s e) :
    (∀ slot, (s.report e consumed).pending slot = s.pending slot) ∧
      (s.report e consumed).radio.bssCache = s.radio.bssCache ∧
      ∀ ift, ((s.report e consumed).radio.vifs ift).linkUp = true → (s.radio.vifs ift).linkUp = true := by
  have hradio := (s.report_radio e consumed).1
  obtain ⟨htype, -, hfree⟩ := h
  obtain hr | hr := report_apStopped s.cfg s.radio consumed htype
  · rw [hr] at hradio
    unfold OffloadSys.pending
    rw [hradio]
    exact ⟨fun _ => rfl, rfl, fun _ hup => hup⟩
  · rw [hr] at hradio
    have hpending (slot : OffloadSlot) : (s.report e consumed).pending slot = s.pending slot := by
      change (s.report e consumed).radio.pending slot = s.radio.pending slot
      rw [hradio]
      cases slot with
      | ap => exact (pending_setVif_self s.radio .ap _).trans hfree.symm
      | _ => exact pending_setVif_ne s.radio _ nofun
    refine ⟨hpending, by rw [hradio]; rfl, fun ift hup => ?_⟩
    rw [hradio] at hup
    cases ift with
    | ap =>
      rw [setVif_self] at hup
      cases hup
    | station =>
      have hne : OffloadIftype.station ≠ .ap := nofun
      rwa [setVif_ne s.radio _ hne] at hup

theorem Inv.stepOk_report {s : OffloadSys} {e : OffloadEvent} {consumed : Bool} (h : Inv s) :
    StepOk s (.report e consumed) (s.report e consumed) ↔ ¬Late s (.report e consumed) := by
  obtain ⟨hradio, houts⟩ := s.report_radio e consumed
  constructor
  · -- A late completion is sent up, though no request waits for it.
    intro hok hlate
    obtain ⟨hc, htype, hst, hift, hreg, hfree⟩ := hlate
    have hslot : e.type.slot = some .ap := by
      obtain htype | ⟨htype, -⟩ := htype <;> rw [htype] <;> rfl
    have hasked : ¬Unasked s e := by
      rintro ⟨hstopped, hzero, -⟩
      obtain htype | ⟨-, hid⟩ := htype
      · rw [htype] at hstopped
        cases hstopped
      · exact hid hzero
    have hstale := (hok.stale e consumed .ap rfl hslot (by
      intro ift hi
      rw [hift] at hi
      cases hi
      by_cases hid : e.requestId = 0
      · exact .inl hid
      · exact .inr fun heq => hid (heq.trans hfree)) hasked).2
    rw [houts, hc] at hstale
    exact late_outputs ⟨hc, htype, hst, hift, hreg, hfree⟩ hstale
  · intro hlate
    refine ⟨?_, ?_, ?_⟩
    · rintro event consumed' slot heq hslot hstale hasked
      cases heq
      rw [hradio, houts]
      obtain hsame | ⟨rfl, ha⟩ := report_completion s.cfg s.radio consumed hslot
      · exact hsame
      · obtain ⟨hne, hid⟩ | hunasked := Accepted.waited ha hslot hlate
        · obtain hzero | hother := hstale _ ha.place.2.1
          · exact absurd hzero hne
          · exact absurd hid hother
        · exact absurd hunasked hasked
    · rintro event consumed' heq hunasked
      cases heq
      exact ⟨(unasked_report consumed hunasked).1, (unasked_report consumed hunasked).2.1⟩
    · intro ift hdown hup
      cases hslot : e.type.slot with
      | none =>
        rw [hradio] at hup
        rw [(report_other s.cfg s.radio consumed hslot).link ift hup] at hdown
        cases hdown
      | some slot =>
        obtain ⟨hr, _⟩ | ⟨rfl, ha⟩ := report_completion s.cfg s.radio consumed hslot
        · rw [hradio, hr, hdown] at hup
          cases hup
        · obtain ⟨hne, hid⟩ | hunasked := Accepted.waited ha hslot hlate
          · refine ⟨e, slot, rfl, hslot, ?_, hne, hid, h.live slot (hid ▸ hne)⟩
            by_contra hother
            rw [hradio, ha.link ift (Ne.symm hother), hdown] at hup
            cases hup
          · rw [(unasked_report false hunasked).2.2 ift hup] at hdown
            cases hdown

theorem Inv.stepOk {s s' : OffloadSys} {e : OffloadStep} (h : Inv s) (he : s.step e = some s') :
    StepOk s e s' ↔ ¬Late s e := by
  have hother : (∀ event consumed, e ≠ .report event consumed) →
      (∀ ift, (s'.radio.vifs ift).linkUp = true → (s.radio.vifs ift).linkUp = true) → (StepOk s e s' ↔ ¬Late s e) := by
    intro hne hlink
    refine ⟨fun _ hlate => ?_, fun _ => .of_calmer hlink hne⟩
    cases e with
    | report e consumed => exact hne e consumed rfl
    | _ => exact hlate
  cases e with
  | report e consumed =>
    cases he
    exact h.stepOk_report
  | scan iftype request =>
    cases he
    exact hother (fun _ _ h => by cases h) (operation_link fun ift => s.scanSubmit_taken ift request)
  | connect iftype request =>
    cases he
    exact hother (fun _ _ h => by cases h) (operation_link fun ift => s.connectSubmit_taken ift request)
  | assoc iftype request =>
    cases he
    exact hother (fun _ _ h => by cases h) (operation_link fun ift => s.assocSubmit_taken ift request)
  | startAp iftype settings =>
    cases he
    exact hother (fun _ _ h => by cases h) (operation_link fun ift => s.startApSubmit_taken ift settings)
  | stopAp iftype requestId =>
    cases he
    exact hother (fun _ _ h => by cases h) (operation_link fun ift => s.stopApSubmit_taken ift requestId)
  | driverReturn sub ret =>
    apply hother (fun _ _ h => by cases h)
    simp only [OffloadSys.step] at he
    split at he
    · cases he
      unfold OffloadSys.driverReturn
      dsimp only
      split
      · exact (s.radio.clearPending_calmer sub.slot).link
      · exact fun _ h => h
    · cases he
  | interfaceChanged ift enabled =>
    cases he
    exact hother (fun _ _ h => by cases h) (s.radio.interfaceChanged_calmer ift enabled).link
  | wlanInit =>
    apply hother (fun _ _ h => by cases h)
    simp only [OffloadSys.step] at he
    split at he
    · cases he
    · cases he
      exact s.radio.wlanInit_calmer.link
  | wlanInitDone ret =>
    apply hother (fun _ _ h => by cases h)
    simp only [OffloadSys.step] at he
    split at he
    · cases he
      exact (s.radio.wlanInitDone_calmer ret).link
    · cases he

theorem init_inv (cfg : OffloadConfig) (sta ap : Bool) : Inv (init cfg sta ap) := by
  have hnone : ∀ slot, (init cfg sta ap).pending slot = 0 := by
    intro slot
    cases slot <;> rfl
  refine ⟨?_, ?_, ?_, ?_, List.nodup_nil, ?_⟩
  · intro slot h
    exact absurd (hnone slot) h
  · intro a b _ ha
    exact absurd (hnone a) ha
  · intro slot h
    exact absurd (hnone slot) h
  · intro k hk
    cases hk
  · intro k hk
    cases hk

/-- As long as no AP completion comes while no AP request waits, every request is completed at most once, and a step is as it must be
exactly when it reports no such completion either. -/
theorem stale_completions_rejected (cfg : OffloadConfig) (sta ap : Bool) (es : List OffloadStep) (s : OffloadSys)
    (hrun : run step (init cfg sta ap) es = some s) (hm : Meets step (fun s e => ¬Late s e) (init cfg sta ap) es) :
    s.completed.Nodup ∧ ∀ e s', s.step e = some s' → (StepOk s e s' ↔ ¬Late s e) := by
  have h := run_invariant_of_meets Inv (fun s e s' h hlate he => h.step hlate he) hrun hm (init_inv cfg sta ap)
  exact ⟨h.completed.1, fun e s' he => h.stepOk he⟩

/-- A radio whose driver supports everything. -/
def demoConfig : OffloadConfig :=
  { permanentAddress := [2, 0, 0, 0, 0, 1], maxScanSsids := 4, maxScanIeLength := 256, maxStations := 8,
    externalSupplicant := true, hasScan := true, hasConnect := true, hasAssoc := true, hasStartAp := true,
    hasStopAp := true, validateChannel := fun _ _ => true, supplicantSupports := fun _ => true }

def demoEvent (type : OffloadEventType) (iftype : OffloadIftype) (requestId : ℕ) : OffloadEvent :=
  { type := type, iftype := some iftype, requestId := requestId, status := rtEok, payloadOk := true,
    network := ⟨[], List.replicate 6 0, ⟨0, 0, 1, 2412, 2412, 0⟩, -40, 0, 100, 0, ⟨none, 0⟩⟩ }

def demoUp (ift : OffloadIftype) : List OffloadStep :=
  [.wlanInit, .wlanInitDone rtEok, .interfaceChanged ift true]

def demoSettings (requestId : ℕ) : OffloadApSettings :=
  { requestId := requestId, ssidLength := 4, keyLength := 8, channel := ⟨0, 0, 1, 2412, 2412, 0⟩, maxStations := 4,
    beaconIes := ⟨none, 0⟩ }

/-- The driver fails to start the AP; its completion comes later and brings the link up all the same. -/
theorem late_ap_start_accepted :
    ¬∀ (cfg : OffloadConfig) (sta ap : Bool) (es : List OffloadStep) (s : OffloadSys),
      run step (init cfg sta ap) es = some s → s.completed.Nodup ∧ ∀ e s', s.step e = some s' → StepOk s e s' := by
  intro h
  have hrun : ∃ s s', run step (init demoConfig true true)
      (demoUp .ap ++ [.startAp (some .ap) (demoSettings 1), .driverReturn ⟨.ap, 1, 0⟩ (-rtEtimeout)]) = some s ∧
      s.step (.report (demoEvent .apStarted .ap 1) false) = some s' ∧ (s.radio.vifs .ap).pendingApId = 0 ∧
      s'.outputs ≠ [] := ⟨_, _, rfl, rfl, rfl, by decide⟩
  obtain ⟨s, s', hs, hstep, hfree, hout⟩ := hrun
  have hok := (h demoConfig true true _ s hs).2 _ s' hstep
  apply hout
  refine (hok.stale _ _ .ap rfl rfl ?_ (by simp [Unasked, demoEvent])).2
  intro ift hi
  cases hi
  rw [show (s.radio.vifs .ap).pending .ap = 0 from hfree]
  decide

def demoConnect : List OffloadStep :=
  demoUp .station ++ [.connect (some .station) ⟨5, 4, 8, ⟨0, 0, 1, 2412, 2412, 0⟩, ⟨none, 0⟩⟩,
    .driverReturn ⟨.connect, 5, 0⟩ rtEok, .report (demoEvent .connectResult .station 5) false]

/-- A station connects; the same result reported again is refused. -/
theorem stale_completions_rejected_demo :
    ∃ s, run step (init demoConfig true true) demoConnect = some s ∧
      (s.completed.Nodup ∧ ∀ e s', s.step e = some s' → (StepOk s e s' ↔ ¬Late s e)) ∧ s.completed = [0] := by
  refine ⟨_, rfl, stale_completions_rejected demoConfig true true demoConnect _ rfl ?_, rfl⟩
  apply Meets.of_forall
  intro e he s hlate
  simp only [demoConnect, demoUp, List.cons_append, List.nil_append, List.mem_cons, List.not_mem_nil, or_false] at he
  obtain rfl | rfl | rfl | rfl | rfl | rfl := he
  · exact hlate
  · exact hlate
  · exact hlate
  · exact hlate
  · exact hlate
  · obtain ⟨_, htype, _⟩ := hlate
    simp [demoEvent] at htype

end OffloadSys

end RtSmart
