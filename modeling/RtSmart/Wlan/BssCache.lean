import RtSmart.Wlan.Offload

/-! The BSS cache of the offload core (`wlan_offload.c`): what a run of scan results keeps, and the look-up. -/

namespace RtSmart

namespace BssCache

def usableIes (network : OffloadNetwork) : List UInt8 :=
  copySecurityIes bssSecurityIeMaxLength [] ((network.ies.data.getD []).take network.ies.length)

/-- `wlan_offload_bss_cache_update_locked` does not return at once. -/
def Admitted (cfg : OffloadConfig) (network : OffloadNetwork) : Prop :=
  network.ssid.length ≤ rtWlanSsidMaxLength ∧ offloadMacIsZero network.bssid = false ∧ cfg.supplicantSupports network.security

def matchesRequest (ssid : List UInt8) (bssid : Option (List UInt8)) (c : BssCacheEntry) : Bool :=
  c.valid ∧ c.securityIes ≠ [] ∧ c.ssid = ssid ∧ (bssid.filter fun b => !offloadMacIsZero b).all (c.bssid = ·)

/-- One turn of the loop of `wlan_offload_bss_cache_copy_ies_locked`. -/
def better (ssid : List UInt8) (bssid : Option (List UInt8)) (best : Option BssCacheEntry) (c : BssCacheEntry) :
    Option BssCacheEntry :=
  if matchesRequest ssid bssid c ∧ best.all (fun b => b.rssi < c.rssi) then some c else best

/-- `wlan_offload_bss_cache_copy_ies_locked`; the destination has room for what an entry holds. -/
def bssCacheCopyIes (cache : List BssCacheEntry) (ssid : List UInt8) (bssid : Option (List UInt8)) : Option (List UInt8) :=
  if rtWlanSsidMaxLength < ssid.length then none
  else (cache.foldl (better ssid bssid) none).map BssCacheEntry.securityIes

inductive Event
  | clear
  | update (network : OffloadNetwork)

def next (cfg : OffloadConfig) (cache : List BssCacheEntry) : Event → List BssCacheEntry
  | .clear => emptyBssCache
  | .update network => bssCacheUpdate cfg cache network

/-- The cache after scan results and clears. -/
def cacheAfter (cfg : OffloadConfig) (events : List Event) : List BssCacheEntry :=
  events.foldl (next cfg) emptyBssCache

/-- What holds of every cache. -/
structure Sound (cache : List BssCacheEntry) : Prop where
  length : cache.length = bssCacheCount
  ies : ∀ c ∈ cache, c.valid → c.securityIes ≠ [] ∧ c.ssid.length ≤ rtWlanSsidMaxLength
  distinct : ∀ (i j : ℕ) (c c' : BssCacheEntry), cache[i]? = some c → cache[j]? = some c' → c.valid → c'.valid → c.bssid = c'.bssid → i = j

section

variable {cfg : OffloadConfig} {cache : List BssCacheEntry} {network : OffloadNetwork} {c : BssCacheEntry} {i : ℕ}

/-! The slot of a network. -/

def weaker (cache : List BssCacheEntry) (weakest : Option ℕ) (i : ℕ) : Option ℕ :=
  match cache[i]? with
  | some c =>
    if c.valid ∧ weakest.all (fun w => c.rssi < (cache.getD w emptyBssEntry).rssi) then some i else weakest
  | none => weakest

/-- The weakest of the entries below `n`. -/
def IsWeakest (cache : List BssCacheEntry) (n : ℕ) : Option ℕ → Prop
  | none => ∀ i < n, ∀ c, cache[i]? = some c → c.valid = false
  | some w => ∃ b, cache[w]? = some b ∧ b.valid = true ∧ ∀ i < n, ∀ c, cache[i]? = some c → c.valid = true → b.rssi ≤ c.rssi

theorem weaker_isWeakest {n : ℕ} {weakest : Option ℕ} (h : IsWeakest cache n weakest) :
    IsWeakest cache (n + 1) (weaker cache weakest n) := by
  unfold weaker
  cases hc : cache[n]? with
  | none =>
    cases weakest with
    | none =>
      intro i hi c hic
      rcases Nat.lt_succ_iff_lt_or_eq.mp hi with hlt | rfl
      · exact h i hlt c hic
      · rw [hc] at hic
        cases hic
    | some w =>
      obtain ⟨b, hb, hvalid, hmin⟩ := h
      refine ⟨b, hb, hvalid, fun i hi c hic => ?_⟩
      rcases Nat.lt_succ_iff_lt_or_eq.mp hi with hlt | rfl
      · exact hmin i hlt c hic
      · rw [hc] at hic
        cases hic
  | some c =>
    dsimp only
    split
    · rename_i hnew
      refine ⟨c, hc, hnew.1, fun i hi d hid hd => ?_⟩
      rcases Nat.lt_succ_iff_lt_or_eq.mp hi with hlt | rfl
      · cases weakest with
        | none =>
          have := h i hlt d hid
          rw [hd] at this
          cases this
        | some w =>
          obtain ⟨b, hb, -, hmin⟩ := h
          have hless : c.rssi < (cache.getD w emptyBssEntry).rssi := by simpa using hnew.2
          rw [List.getD_eq_getElem?_getD, hb] at hless
          exact hless.le.trans (hmin i hlt d hid hd)
      · rw [hc] at hid
        cases hid
        exact le_rfl
    · rename_i hold
      cases weakest with
      | none =>
        intro i hi d hid
        rcases Nat.lt_succ_iff_lt_or_eq.mp hi with hlt | rfl
        · exact h i hlt d hid
        · rw [hc] at hid
          cases hid
          simpa using hold
      | some w =>
        obtain ⟨b, hb, hvalid, hmin⟩ := h
        refine ⟨b, hb, hvalid, fun i hi d hid hd => ?_⟩
        rcases Nat.lt_succ_iff_lt_or_eq.mp hi with hlt | rfl
        · exact hmin i hlt d hid hd
        · rw [hc] at hid
          cases hid
          have hless : ¬ c.rssi < (cache.getD w emptyBssEntry).rssi := fun hlt => hold ⟨hd, by simpa using hlt⟩
          rw [List.getD_eq_getElem?_getD, hb] at hless
          exact not_lt.mp hless

theorem weakestBss_isWeakest (cache : List BssCacheEntry) : IsWeakest cache cache.length (weakestBss cache) := by
  have hfold : ∀ n, IsWeakest cache n ((List.range n).foldl (weaker cache) none) := by
    intro n
    induction n with
    | zero => exact fun i hi => absurd hi (Nat.not_lt_zero i)
    | succ n ih =>
      rw [List.range_succ, List.foldl_append]
      exact weaker_isWeakest ih
  exact hfold cache.length

theorem bssCacheSlot_cases (cache : List BssCacheEntry) (network : OffloadNetwork) :
    (∃ i c, bssCacheSlot cache network = some i ∧ cache[i]? = some c ∧ c.valid = true ∧ c.bssid = network.bssid) ∨
      (∀ d ∈ cache, ¬ (d.valid = true ∧ d.bssid = network.bssid)) ∧
        (∃ i c, bssCacheSlot cache network = some i ∧ cache[i]? = some c ∧ c.valid = false) ∨
      (∀ d ∈ cache, d.valid = true ∧ d.bssid ≠ network.bssid) ∧
        ((∃ i c, bssCacheSlot cache network = some i ∧ cache[i]? = some c ∧ c.rssi < network.rssi) ∨
          bssCacheSlot cache network = none ∧ ∀ d ∈ cache, network.rssi ≤ d.rssi) := by
  unfold bssCacheSlot
  cases hown : cache.findIdx? fun c => c.valid ∧ c.bssid = network.bssid with
  | some i =>
    obtain ⟨hi, hc, -⟩ := List.findIdx?_eq_some_iff_getElem.mp hown
    have hc := of_decide_eq_true hc
    exact .inl ⟨i, cache[i], rfl, List.getElem?_eq_getElem hi, hc⟩
  | none =>
    have hother : ∀ d ∈ cache, ¬ (d.valid = true ∧ d.bssid = network.bssid) := by
      intro d hd
      simpa using List.findIdx?_eq_none_iff.mp hown d hd
    refine .inr ?_
    cases hfree : cache.findIdx? fun c => !c.valid with
    | some i =>
      obtain ⟨hi, hc, -⟩ := List.findIdx?_eq_some_iff_getElem.mp hfree
      exact .inl ⟨hother, i, cache[i], rfl, List.getElem?_eq_getElem hi, by simpa using hc⟩
    | none =>
      have hfull : ∀ d ∈ cache, d.valid = true := by
        intro d hd
        simpa using List.findIdx?_eq_none_iff.mp hfree d hd
      refine .inr ⟨fun d hd => ⟨hfull d hd, fun heq => hother d hd ⟨hfull d hd, heq⟩⟩, ?_⟩
      have hweakest := weakestBss_isWeakest cache
      dsimp only
      cases hw : weakestBss cache with
      | none =>
        rw [hw] at hweakest
        refine .inr ⟨rfl, fun d hd => ?_⟩
        obtain ⟨i, hi, rfl⟩ := List.mem_iff_getElem.mp hd
        have := hweakest i hi _ (List.getElem?_eq_getElem hi)
        rw [hfull _ hd] at this
        cases this
      | some w =>
        rw [hw] at hweakest
        obtain ⟨b, hb, -, hmin⟩ := hweakest
        have hget : cache.getD w emptyBssEntry = b := by rw [List.getD_eq_getElem?_getD, hb, Option.getD_some]
        rw [Option.filter_some, hget]
        by_cases hless : b.rssi < network.rssi
        · exact .inl ⟨w, b, by rw [decide_eq_true hless, if_pos rfl], hb, hless⟩
        · refine .inr ⟨by rw [decide_eq_false hless]; rfl, fun d hd => ?_⟩
          obtain ⟨i, hi, rfl⟩ := List.mem_iff_getElem.mp hd
          exact (not_lt.mp hless).trans (hmin i hi _ (List.getElem?_eq_getElem hi) (hfull _ hd))

def entryOf (network : OffloadNetwork) : BssCacheEntry where
  valid := !(usableIes network).isEmpty
  ssid := network.ssid
  bssid := network.bssid
  channel := network.channel
  rssi := network.rssi
  security := network.security
  beaconInterval := network.beaconInterval
  capability := network.capability
  securityIes := usableIes network

theorem bssCacheUpdate_admitted (h : Admitted cfg network) :
    bssCacheUpdate cfg cache network = (bssCacheSlot cache network).elim cache fun i => cache.set i (entryOf network) := by
  obtain ⟨hssid, hmac, hsecurity⟩ := h
  unfold bssCacheUpdate
  rw [if_neg]
  · cases bssCacheSlot cache network with
    | none => rfl
    | some i => rfl
  · rw [hmac, hsecurity]
    simp only [Bool.false_eq_true, Bool.not_true, or_false]
    exact Nat.not_lt.mpr hssid

theorem bssCacheUpdate_refused (h : ¬ Admitted cfg network) : bssCacheUpdate cfg cache network = cache := by
  unfold bssCacheUpdate
  refine if_pos ?_
  by_contra hno
  simp only [not_or, Nat.not_lt, Bool.not_eq_true, Bool.not_eq_false'] at hno
  exact h hno

/-! What an update keeps. -/

/-- No other network loses its entry to one that brings no elements. -/
def Harmless (cfg : OffloadConfig) (cache : List BssCacheEntry) (network : OffloadNetwork) : Prop :=
  usableIes network = [] →
    ∀ c ∈ cache, c.valid = true → c.bssid ≠ network.bssid → c ∈ bssCacheUpdate cfg cache network

/-- A network without elements, new to a full cache and stronger than one of its networks. -/
def Wasted (cfg : OffloadConfig) (cache : List BssCacheEntry) (network : OffloadNetwork) : Prop :=
  Admitted cfg network ∧ usableIes network = [] ∧ (∀ c ∈ cache, c.valid = true ∧ c.bssid ≠ network.bssid) ∧
    ∃ c ∈ cache, c.rssi < network.rssi

theorem mem_set_of_ne {e : BssCacheEntry} (hc : c ∈ cache) (hi : cache[i]? ≠ some c) : c ∈ cache.set i e := by
  obtain ⟨j, hj, rfl⟩ := List.mem_iff_getElem.mp hc
  have hne : i ≠ j := fun heq => hi (heq ▸ List.getElem?_eq_getElem hj)
  exact List.mem_iff_getElem?.mpr ⟨j, by rw [List.getElem?_set_ne hne, List.getElem?_eq_getElem hj]⟩

theorem mem_bssCacheUpdate (hc : c ∈ cache) (hvalid : c.valid = true) (hother : c.bssid ≠ network.bssid) :
    c ∈ bssCacheUpdate cfg cache network ∨
      Admitted cfg network ∧ (∀ d ∈ cache, d.valid = true ∧ d.bssid ≠ network.bssid) ∧ c.rssi < network.rssi := by
  by_cases hok : Admitted cfg network
  · rw [bssCacheUpdate_admitted hok]
    rcases bssCacheSlot_cases cache network with ⟨i, d, hslot, hd, -, hown⟩ | ⟨-, i, d, hslot, hd, hfree⟩ |
      ⟨hfull, ⟨i, d, hslot, hd, hless⟩ | ⟨hslot, -⟩⟩
    · rw [hslot]
      refine .inl (mem_set_of_ne hc fun heq => ?_)
      cases hd.symm.trans heq
      exact hother hown
    · rw [hslot]
      refine .inl (mem_set_of_ne hc fun heq => ?_)
      cases hd.symm.trans heq
      rw [hvalid] at hfree
      cases hfree
    · rw [hslot]
      rcases lt_or_ge c.rssi network.rssi with hweak | hstrong
      · exact .inr ⟨hok, hfull, hweak⟩
      · refine .inl (mem_set_of_ne hc fun heq => ?_)
        cases hd.symm.trans heq
        exact absurd hless (not_lt.mpr hstrong)
    · rw [hslot]
      exact .inl hc
  · rw [bssCacheUpdate_refused hok]
    exact .inl hc

theorem harmless_iff (h : Sound cache) : Harmless cfg cache network ↔ ¬ Wasted cfg cache network := by
  constructor
  · rintro hharmless ⟨hok, hnone, hfull, c, hc, hweak⟩
    have hupdate := @bssCacheUpdate_admitted _ cache _ hok
    rcases bssCacheSlot_cases cache network with ⟨i, d, -, hd, -, hown⟩ | ⟨-, i, d, -, hd, hfree⟩ |
      ⟨-, ⟨i, d, hslot, hd, -⟩ | ⟨-, hstrong⟩⟩
    · exact (hfull d (List.mem_of_getElem? hd)).2 hown
    · have := (hfull d (List.mem_of_getElem? hd)).1
      rw [hfree] at this
      cases this
    · have hmem := List.mem_of_getElem? hd
      obtain ⟨hvalid, hother⟩ := hfull d hmem
      have hstays := hharmless hnone d hmem hvalid hother
      rw [hupdate, hslot] at hstays
      obtain ⟨j, hj⟩ := List.mem_iff_getElem?.mp hstays
      rw [Option.elim_some] at hj
      rcases eq_or_ne i j with rfl | hne
      · rw [List.getElem?_set_self (List.getElem?_eq_some_iff.mp hd).1] at hj
        cases hj
        exact hother rfl
      · rw [List.getElem?_set_ne hne] at hj
        exact hne (h.distinct i j d d hd hj hvalid hvalid rfl)
    · exact absurd hweak (not_lt.mpr (hstrong c hc))
  · intro hno hnone c hc hvalid hother
    refine (mem_bssCacheUpdate hc hvalid hother).resolve_right fun ⟨hok, hfull, hweak⟩ => ?_
    exact hno ⟨hok, hnone, hfull, c, hc, hweak⟩

/-! What holds of every cache. -/

theorem emptyBssCache_sound : Sound emptyBssCache where
  length := List.length_replicate
  ies := fun c hc hvalid => by
    cases List.eq_of_mem_replicate hc
    cases hvalid
  distinct := fun i j c c' hi _ hvalid => by
    cases List.eq_of_mem_replicate (List.mem_of_getElem? hi)
    cases hvalid

theorem slot_alone (h : Sound cache) (hslot : bssCacheSlot cache network = some i) {j : ℕ} (hj : cache[j]? = some c)
    (hvalid : c.valid = true) (hown : c.bssid = network.bssid) : i = j := by
  have hmem := List.mem_of_getElem? hj
  rcases bssCacheSlot_cases cache network with ⟨k, d, hslot', hd, hd', hown'⟩ | ⟨hno, -⟩ | ⟨hfull, -⟩
  · cases hslot.symm.trans hslot'
    exact h.distinct i j d c hd hj hd' hvalid (hown'.trans hown.symm)
  · exact absurd ⟨hvalid, hown⟩ (hno c hmem)
  · exact absurd hown (hfull c hmem).2

theorem entryOf_valid (h : (entryOf network).valid = true) : usableIes network ≠ [] := by
  intro hnil
  unfold entryOf at h
  rw [hnil] at h
  cases h

theorem bssCacheUpdate_sound (h : Sound cache) (cfg : OffloadConfig) (network : OffloadNetwork) :
    Sound (bssCacheUpdate cfg cache network) := by
  by_cases hok : Admitted cfg network
  swap
  · rw [bssCacheUpdate_refused hok]
    exact h
  rw [bssCacheUpdate_admitted hok]
  cases hslot : bssCacheSlot cache network with
  | none => exact h
  | some i =>
    rw [Option.elim_some]
    have hself : ∀ c, (cache.set i (entryOf network))[i]? = some c → c = entryOf network := by
      intro c hc
      rw [List.getElem?_set, if_pos rfl] at hc
      split at hc
      · exact (Option.some.inj hc).symm
      · cases hc
    refine ⟨List.length_set.trans h.length, fun c hc hvalid => ?_, fun j k c c' hj hk hc hc' hsame => ?_⟩
    · rcases List.mem_or_eq_of_mem_set hc with hc | rfl
      · exact h.ies c hc hvalid
      · exact ⟨entryOf_valid hvalid, hok.1⟩
    · rcases eq_or_ne i j with rfl | hij
      · rcases eq_or_ne i k with rfl | hik
        · rfl
        · rw [List.getElem?_set_ne hik] at hk
          rw [hself c hj] at hsame
          exact slot_alone h hslot hk hc' hsame.symm
      · rw [List.getElem?_set_ne hij] at hj
        rcases eq_or_ne i k with rfl | hik
        · rw [hself c' hk] at hsame
          exact (slot_alone h hslot hj hc hsame).symm
        · rw [List.getElem?_set_ne hik] at hk
          exact h.distinct j k c c' hj hk hc hc' hsame

theorem cacheAfter_sound (cfg : OffloadConfig) (events : List Event) : Sound (cacheAfter cfg events) := by
  have hrun : ∀ cache, Sound cache → Sound (events.foldl (next cfg) cache) := by
    induction events with
    | nil => exact fun _ h => h
    | cons e events ih =>
      intro cache h
      refine ih _ ?_
      cases e with
      | clear => exact emptyBssCache_sound
      | update network => exact bssCacheUpdate_sound h cfg network
  exact hrun _ emptyBssCache_sound

/-! The look-up. -/

def IsBest (p : BssCacheEntry → Bool) (cache : List BssCacheEntry) : Option BssCacheEntry → Prop
  | none => ∀ c ∈ cache, p c = false
  | some b => b ∈ cache ∧ p b = true ∧ ∀ c ∈ cache, p c = true → c.rssi ≤ b.rssi

theorem better_isBest {ssid : List UInt8} {bssid : Option (List UInt8)} {best : Option BssCacheEntry}
    (h : IsBest (matchesRequest ssid bssid) cache best) (c : BssCacheEntry) :
    IsBest (matchesRequest ssid bssid) (cache ++ [c]) (better ssid bssid best c) := by
  unfold better
  split
  · rename_i hnew
    refine ⟨List.mem_append_right _ (List.mem_singleton.mpr rfl), hnew.1, fun d hd hmatch => ?_⟩
    rcases List.mem_append.mp hd with hd | hd
    · cases best with
      | none =>
        have := h d hd
        rw [hmatch] at this
        cases this
      | some b =>
        have hless : b.rssi < c.rssi := by simpa using hnew.2
        exact (h.2.2 d hd hmatch).trans hless.le
    · rw [List.mem_singleton.mp hd]
  · rename_i hold
    cases best with
    | none =>
      intro d hd
      rcases List.mem_append.mp hd with hd | hd
      · exact h d hd
      · rw [List.mem_singleton.mp hd]
        simpa using hold
    | some b =>
      refine ⟨List.mem_append_left _ h.1, h.2.1, fun d hd hmatch => ?_⟩
      rcases List.mem_append.mp hd with hd | hd
      · exact h.2.2 d hd hmatch
      · rw [List.mem_singleton.mp hd] at hmatch ⊢
        by_contra hless
        exact hold ⟨hmatch, by simpa using hless⟩

theorem foldl_better_isBest (cache : List BssCacheEntry) (ssid : List UInt8) (bssid : Option (List UInt8)) :
    IsBest (matchesRequest ssid bssid) cache (cache.foldl (better ssid bssid) none) := by
  induction cache using List.reverseRecOn with
  | nil => exact fun c hc => absurd hc List.not_mem_nil
  | append_singleton cache c ih =>
    rw [List.foldl_append]
    exact better_isBest ih c

/-- The entry is a valid one of the SSID and, when a BSSID that is not zero is given, of the BSSID. -/
def IsCandidate (ssid : List UInt8) (bssid : Option (List UInt8)) (c : BssCacheEntry) : Prop :=
  c.valid = true ∧ c.ssid = ssid ∧ ∀ b, bssid = some b → offloadMacIsZero b = false → c.bssid = b

theorem matchesRequest_iff (h : Sound cache) (hc : c ∈ cache) {ssid : List UInt8} {bssid : Option (List UInt8)} :
    matchesRequest ssid bssid c = true ↔ IsCandidate ssid bssid c := by
  have hies := h.ies c hc
  unfold matchesRequest IsCandidate
  rw [decide_eq_true_eq]
  have hgiven : (bssid.filter fun b => !offloadMacIsZero b).all (c.bssid = ·) = true ↔
      ∀ b, bssid = some b → offloadMacIsZero b = false → c.bssid = b := by
    cases bssid with
    | none => exact iff_of_true rfl fun b hb => absurd hb (by simp)
    | some b =>
      rw [Option.filter_some]
      cases hzero : offloadMacIsZero b with
      | true =>
        refine iff_of_true rfl fun b' hb' hno => ?_
        cases hb'
        rw [hzero] at hno
        cases hno
      | false =>
        simp only [Bool.not_false, if_true, Option.all_some, decide_eq_true_eq]
        exact ⟨fun heq b' hb' _ => heq.trans (Option.some.inj hb'), fun hall => hall b rfl hzero⟩
  rw [hgiven]
  exact ⟨fun ⟨hvalid, _, hssid, hall⟩ => ⟨hvalid, hssid, hall⟩, fun ⟨hvalid, hssid, hall⟩ =>
    ⟨hvalid, (hies hvalid).1, hssid, hall⟩⟩

theorem bssCacheCopyIes_strongest (h : Sound cache) (ssid : List UInt8) (bssid : Option (List UInt8)) :
    (bssCacheCopyIes cache ssid bssid = none ∧ ∀ c ∈ cache, ¬ IsCandidate ssid bssid c) ∨
      ∃ b ∈ cache, IsCandidate ssid bssid b ∧ bssCacheCopyIes cache ssid bssid = some b.securityIes ∧
        ∀ c ∈ cache, IsCandidate ssid bssid c → c.rssi ≤ b.rssi := by
  unfold bssCacheCopyIes
  by_cases hlong : rtWlanSsidMaxLength < ssid.length
  · refine .inl ⟨if_pos hlong, fun c hc hcand => ?_⟩
    have := (h.ies c hc hcand.1).2
    rw [hcand.2.1] at this
    exact absurd hlong (Nat.not_lt.mpr this)
  · rw [if_neg hlong]
    have hbest := foldl_better_isBest cache ssid bssid
    cases hfold : cache.foldl (better ssid bssid) none with
    | none =>
      rw [hfold] at hbest
      refine .inl ⟨rfl, fun c hc hcand => ?_⟩
      have := hbest c hc
      rw [(matchesRequest_iff h hc).mpr hcand] at this
      cases this
    | some b =>
      rw [hfold] at hbest
      obtain ⟨hmem, hmatch, hmax⟩ := hbest
      exact .inr ⟨b, hmem, (matchesRequest_iff h hmem).mp hmatch, rfl,
        fun c hc hcand => hmax c hc ((matchesRequest_iff h hc).mpr hcand)⟩

/-- After every run: the cache is sound, an update displaces no one but weaker networks, and it does so without elements of
its own only if the network is new to a full cache and stronger than one of its networks. -/
theorem keeps_strongest_iff (cfg : OffloadConfig) (events : List Event) :
    Sound (cacheAfter cfg events) ∧
      (∀ network, Harmless cfg (cacheAfter cfg events) network ↔ ¬ Wasted cfg (cacheAfter cfg events) network) ∧
      (∀ network, ∀ c ∈ cacheAfter cfg events, c.valid = true → c.bssid ≠ network.bssid →
        c ∉ bssCacheUpdate cfg (cacheAfter cfg events) network → c.rssi < network.rssi) ∧
      ∀ ssid bssid, (bssCacheCopyIes (cacheAfter cfg events) ssid bssid = none ∧
          ∀ c ∈ cacheAfter cfg events, ¬ IsCandidate ssid bssid c) ∨
        ∃ b ∈ cacheAfter cfg events, IsCandidate ssid bssid b ∧
          bssCacheCopyIes (cacheAfter cfg events) ssid bssid = some b.securityIes ∧
          ∀ c ∈ cacheAfter cfg events, IsCandidate ssid bssid c → c.rssi ≤ b.rssi := by
  have h := cacheAfter_sound cfg events
  refine ⟨h, fun network => harmless_iff h, fun network c hc hvalid hother hgone => ?_, bssCacheCopyIes_strongest h⟩
  exact ((mem_bssCacheUpdate hc hvalid hother).resolve_left hgone).2.2

end

/-! A strong network without elements. -/

/-- The network number `n`, with an RSN element unless it has none. -/
def sampleNetwork (n : UInt8) (rssi : ℤ) (ies : List UInt8) : OffloadNetwork where
  ssid := [0x61]
  bssid := [2, 0, 0, 0, 0, n]
  channel := ⟨0, 0, 1, 2412, 2412, 0⟩
  rssi := rssi
  security := 0x00400004
  beaconInterval := 100
  capability := 0x11
  ies := ⟨some ies, ies.length⟩

def sampleConfig : OffloadConfig where
  permanentAddress := [2, 0, 0, 0, 1, 0]
  maxScanSsids := 4
  maxScanIeLength := 256
  maxStations := 8
  externalSupplicant := true
  hasScan := true
  hasConnect := true
  hasAssoc := true
  hasStartAp := true
  hasStopAp := true
  validateChannel := fun _ _ => true
  supplicantSupports := fun security => security = 0x00400004

/-- Sixty-four networks of signal -80. -/
def fullRun : List Event :=
  (List.range 64).map fun n => .update (sampleNetwork n.toUInt8 (-80) [48, 2, 1, 0])

theorem network_lost : ¬ Harmless sampleConfig (cacheAfter sampleConfig fullRun) (sampleNetwork 200 (-40) []) := by
  intro h
  obtain ⟨c, hc, hvalid, hother, hlost⟩ : ∃ c ∈ cacheAfter sampleConfig fullRun, c.valid = true ∧
      c.bssid ≠ (sampleNetwork 200 (-40) []).bssid ∧
      c ∉ bssCacheUpdate sampleConfig (cacheAfter sampleConfig fullRun) (sampleNetwork 200 (-40) []) := by decide +kernel
  exact hlost (h (by decide +kernel) c hc hvalid hother)

end BssCache

end RtSmart
