import RtSmart.Wlan.SupplicantHandshake

/-!
The EAPOL handler's reads of a frame and of its key data, byte for byte: `none` is a read outside of the buffer, or a walk that
does not end.
-/

namespace RtSmart.KeyData

/-! Reads. -/

def readBytes (l : List UInt8) (off n : ℕ) : Option (List UInt8) :=
  if off + n ≤ l.length then some ((l.drop off).take n) else none

def readBe16 (l : List UInt8) (i : ℕ) : Option (BitVec 16) := do
  let high ← l[i]?
  let low ← l[i + 1]?
  some (.ofNat 16 (high.toNat * 256 + low.toNat))

def readLe16 (l : List UInt8) (i : ℕ) : Option ℕ := do
  let low ← l[i]?
  let high ← l[i + 1]?
  some (low.toNat + high.toNat * 256)

/-- The bytes from `off` on are those of the list, which are compared one after the other. -/
def matchesAt (l : List UInt8) : ℕ → List UInt8 → Option Bool
  | _, [] => some true
  | off, x :: xs => do
    let byte ← l[off]?
    if byte = x then matchesAt l (off + 1) xs else some false

/-- The checks of `rt_wlan_offload_supplicant_handle_eapol` before the lock: the frame as far as its body length says. -/
def frameChecks (data : List UInt8) : Option (Option (List UInt8)) :=
  if data.length < 99 then some none
  else do
    let type ← data[1]?
    if type ≠ 3 then some none
    else do
      let descriptor ← data[4]?
      if descriptor ≠ 2 ∧ descriptor ≠ 254 then some none
      else do
        let bodyLength ← (readBe16 data 2).map BitVec.toNat
        let keyDataLength ← (readBe16 data 97).map BitVec.toNat
        if data.length < bodyLength + 4 ∨ bodyLength < 95 ∨ bodyLength - 95 < keyDataLength then some none
        else do
          let keyInfo ← readBe16 data 5
          if 3 < keyInfo &&& wpaKeyInfoVersionMask ∨ keyInfo &&& (wpaKeyInfoError ||| wpaKeyInfoRequest) ≠ 0 then some none
          else (readBytes data 0 (bodyLength + 4)).map some

/-- The inner `none` is an error. -/
def decryptKeyData (c : SupplicantCrypto) (p : WpaProfile) (x : Supplicant) (memory : Bool) (frame : List UInt8) :
    Option (Option (List UInt8)) := do
  let length ← (readBe16 frame 97).map BitVec.toNat
  let version ← (readBe16 frame 5).map (· &&& wpaKeyInfoVersionMask)
  if frame.length - 99 < length ∨ memory = false then some none
  else if version = 1 then do
    let keyData ← readBytes frame 99 length
    let iv ← readBytes frame 49 16
    some (c.rc4Skip (iv ++ (bytesAt 16 16 x.ptk.1).1) 256 keyData)
  else if (version = 2 ∨ version = 3 ∨ version = 0 ∧ p.sae) ∧ 24 ≤ length ∧ length % 8 = 0 then
    (readBytes frame 99 length).map (aesUnwrap c.toWlanCrypto (bytesAt 16 16 x.ptk.1))
  else some none

/-- Whether the element at `offset` is a KDE of the type, which is looked at only when `long` says that it has the length for
it. -/
def isKde (plain : List UInt8) (offset : ℕ) (element : UInt8) (long : Bool) (type : UInt8) : Option Bool :=
  if element = 0xdd ∧ long then matchesAt plain (offset + 2) [0x00, 0x0f, 0xac, type] else some false

def kdeWalk (plain : List UInt8) : ℕ → ℕ → ExtractStatus → GroupKeys → Option (ExtractStatus × GroupKeys)
  | 0, _, _, _ => none
  | n + 1, offset, status, keys =>
    if plain.length < offset + 2 then some (status, keys)
    else do
      let element ← plain[offset]?
      let elementLength ← plain[offset + 1]?
      if element = 0 ∧ elementLength = 0 then some (status, keys)
      else if plain.length < offset + 2 + elementLength.toNat then some (.error, keys)
      else do
        let isGtk ← isKde plain offset element (22 ≤ elementLength.toNat) 0x01
        if isGtk then
          if 32 < elementLength.toNat - 6 then some (.error, keys)
          else do
            let index ← plain[offset + 6]?
            let gtk ← readBytes plain (offset + 8) (elementLength.toNat - 6)
            kdeWalk plain n (offset + 2 + elementLength.toNat) .ok { keys with gtkIndex := index &&& 3, gtk := gtk }
        else do
          let isIgtk ← isKde plain offset element (elementLength.toNat = 28) 0x09
          if isIgtk then do
            let keyId ← readLe16 plain (offset + 6)
            if keyId < 4 ∨ 5 < keyId then some (.error, keys)
            else do
              let sequence ← readBytes plain (offset + 8) 6
              let igtk ← readBytes plain (offset + 14) 16
              kdeWalk plain n (offset + 2 + elementLength.toNat) .ok
                { keys with igtkIndex := UInt8.ofNat keyId, igtkSequence := ofBytes 6 sequence, igtk := igtk }
          else kdeWalk plain n (offset + 2 + elementLength.toNat) status keys

def extractGtk (c : SupplicantCrypto) (p : WpaProfile) (x : Supplicant) (memory : Bool) (frame : List UInt8) :
    Option (ExtractStatus × GroupKeys) := do
  let keyDataLength ← readBe16 frame 97
  let keyInfo ← readBe16 frame 5
  let keyLength ← (readBe16 frame 7).map BitVec.toNat
  if keyDataLength = 0 then some (.ok, .empty)
  else if p.protocol = .rsn ∧ keyInfo &&& wpaKeyInfoEncrypted = 0 then some (.error, .empty)
  else
    match ← decryptKeyData c p x memory frame with
    | none => some (.error, .empty)
    | some plain =>
      if p.protocol = .wpa then
        if keyLength ≠ supplicantCipherKeyLength p.groupCipher ∨ plain.length < keyLength then some (.error, .empty)
        else (readBytes plain 0 keyLength).map fun gtk => (.ok, { GroupKeys.empty with
          gtkIndex := UInt8.ofNat ((keyInfo &&& wpaKeyInfoIndexMask).toNat / 16), gtk := gtk })
      else kdeWalk plain (plain.length + 1) 0 .empty .empty

/-! The reads stay inside. -/

section

variable {l data frame plain : List UInt8} {i off n m : ℕ}

theorem byteAt_read (h : i < l.length) : l[i]? = some (byteAt l i) := by
  rw [byteAt, List.drop_eq_getElem_cons h]
  exact List.getElem?_eq_getElem h

theorem readBytes_eq (h : off + n ≤ l.length) : readBytes l off n = some ((l.drop off).take n) := if_pos h

theorem readBe16_eq (h : i + 1 < l.length) : readBe16 l i = some (getBe16 l i) := by
  unfold readBe16 getBe16
  rw [byteAt_read (by omega : i < l.length), byteAt_read h]
  rfl

theorem readLe16_eq (h : i + 1 < l.length) : readLe16 l i = some (getLe16 l i) := by
  unfold readLe16 getLe16
  rw [byteAt_read (by omega : i < l.length), byteAt_read h]
  rfl

theorem matchesAt_eq (xs : List UInt8) (h : off + xs.length ≤ l.length) :
    matchesAt l off xs = some (decide ((l.drop off).take xs.length = xs)) := by
  induction xs generalizing off with
  | nil => rfl
  | cons x xs ih =>
    rw [List.length_cons] at h
    have hlt : off < l.length := by omega
    rw [matchesAt, List.getElem?_eq_getElem hlt, List.drop_eq_getElem_cons hlt, List.length_cons, List.take_succ_cons]
    simp only [Option.bind_eq_bind, Option.bind_some, List.cons.injEq]
    split
    · rename_i hx
      rw [ih (by omega)]
      simp only [hx, true_and]
    · rename_i hx
      simp only [hx, false_and, decide_false]

theorem frameChecks_eq (data : List UInt8) : frameChecks data = some (supplicantFrame data) := by
  unfold frameChecks supplicantFrame
  by_cases hshort : data.length < 99
  · rw [if_pos hshort, if_pos (.inl hshort)]
  · rw [if_neg hshort, byteAt_read (by omega : 1 < data.length), byteAt_read (by omega : 4 < data.length),
      readBe16_eq (by omega), readBe16_eq (by omega), readBe16_eq (by omega)]
    simp only [Option.bind_eq_bind, Option.bind_some, Option.map_some]
    by_cases htype : byteAt data 1 = 3
    · rw [if_neg (not_not.mpr htype)]
      by_cases hdescriptor : byteAt data 4 ≠ 2 ∧ byteAt data 4 ≠ 254
      · rw [if_pos hdescriptor, if_pos (.inr (.inr hdescriptor))]
      · have hgood : ¬ (data.length < 99 ∨ byteAt data 1 ≠ 3 ∨ byteAt data 4 ≠ 2 ∧ byteAt data 4 ≠ 254) := by
          rw [not_or, not_or]
          exact ⟨hshort, not_not.mpr htype, hdescriptor⟩
        rw [if_neg hdescriptor, if_neg hgood]
        split
        · rfl
        · split
          · rfl
          · rw [readBytes_eq (by omega)]
            rfl
    · rw [if_pos htype, if_pos (.inr (.inl htype))]

theorem bytesAt_eq (h : off + n ≤ l.length) : (l.drop off).take n = (bytesAt off n l).1 := by
  have hlength : n ≤ (l.drop off).length := by
    rw [List.length_drop]
    omega
  exact (List.take_append_of_le_length hlength).symm

theorem ofBytes_take (h : off + n ≤ l.length) : ofBytes n ((l.drop off).take n) = bytesAt off n l := by
  apply Subtype.ext
  rw [bytesAt_eq h]
  exact (List.take_append_of_le_length (bytesAt off n l).2.ge).trans (List.take_of_length_le (bytesAt off n l).2.le)

theorem decryptKeyData_eq (c : SupplicantCrypto) (p : WpaProfile) (x : Supplicant) (memory : Bool) (h : 99 ≤ frame.length) :
    decryptKeyData c p x memory frame = some (supplicantDecryptKeyData c p x memory frame) := by
  unfold decryptKeyData supplicantDecryptKeyData
  rw [readBe16_eq (by omega), readBe16_eq (by omega)]
  simp only [Option.bind_eq_bind, Option.bind_some, Option.map_some]
  split
  · rfl
  · rename_i hlength
    rw [not_or] at hlength
    rw [readBytes_eq (by omega : 99 + (getBe16 frame 97).toNat ≤ frame.length),
      readBytes_eq (by omega : 49 + 16 ≤ frame.length), bytesAt_eq (by omega : 49 + 16 ≤ frame.length)]
    split
    · rfl
    · split
      · rfl
      · rfl

theorem isKde_eq {element : UInt8} {long : Bool} {type : UInt8} (h : long = true → off + 6 ≤ plain.length) :
    isKde plain off element long type =
      some (decide (element = 0xdd ∧ long = true ∧ (plain.drop (off + 2)).take 4 = [0x00, 0x0f, 0xac, type])) := by
  unfold isKde
  split
  · rename_i hyes
    rw [matchesAt_eq _ (h hyes.2)]
    simp only [hyes.1, hyes.2, true_and]
    rfl
  · rename_i hno
    rw [not_and] at hno
    congr 1
    symm
    rw [decide_eq_false_iff_not]
    exact fun hyes => hno hyes.1 hyes.2.1

theorem kdeWalk_eq (hn : plain.length - off < n) (hm : plain.length - off ≤ m) (status : ExtractStatus) (keys : GroupKeys) :
    kdeWalk plain n off status keys = some (extractLoop m (plain.drop off) status keys) := by
  induction n generalizing off m status keys with
  | zero => exact absurd hn (Nat.not_lt_zero _)
  | succ n ih =>
    rw [kdeWalk]
    have hlength : (plain.drop off).length = plain.length - off := List.length_drop
    cases hdrop : plain.drop off with
    | nil =>
      rw [hdrop, List.length_nil] at hlength
      rw [if_pos (by omega)]
      cases m <;> rfl
    | cons id tail =>
      cases tail with
      | nil =>
        rw [hdrop, List.length_singleton] at hlength
        rw [if_pos (by omega)]
        cases m <;> rfl
      | cons len rest =>
        obtain ⟨m, rfl⟩ : ∃ k, m = k + 1 := by
          rw [hdrop, List.length_cons, List.length_cons] at hlength
          exact ⟨m - 1, by omega⟩
        rw [hdrop, List.length_cons, List.length_cons] at hlength
        have hrest : plain.drop (off + 2) = rest := by
          rw [← List.drop_drop, hdrop]
          rfl
        have hat : ∀ k, plain[off + k]? = (id :: len :: rest)[k]? := fun k => by rw [← hdrop, List.getElem?_drop]
        have hfirst : plain[off]? = some id := hat 0
        have hsecond : plain[off + 1]? = some len := hat 1
        have hfrom : ∀ k, plain.drop (off + (2 + k)) = rest.drop k := fun k => by
          rw [← Nat.add_assoc, ← List.drop_drop, hrest]
        have hnext : plain.drop (off + 2 + len.toNat) = rest.drop len.toNat := by rw [← List.drop_drop, hrest]
        rw [if_neg (by omega), hfirst, hsecond, extractLoop]
        simp only [Option.bind_eq_bind, Option.bind_some]
        by_cases hend : id = 0 ∧ len = 0
        · rw [if_pos hend, if_pos hend]
        · rw [if_neg hend, if_neg hend]
          by_cases hfits : rest.length < len.toNat
          · rw [if_pos (by omega : plain.length < off + 2 + len.toNat), if_pos hfits]
          · rw [if_neg (by omega : ¬ plain.length < off + 2 + len.toNat), if_neg hfits]
            have hgtk : isKde plain off id (22 ≤ len.toNat) 0x01 =
                some (decide (id = 0xdd ∧ 22 ≤ len.toNat ∧ rest.take 4 = [0x00, 0x0f, 0xac, 0x01])) := by
              rw [isKde_eq fun hlong => by have := of_decide_eq_true hlong; omega, hrest]
              simp only [decide_eq_true_eq]
            have higtk : isKde plain off id (len.toNat = 28) 0x09 =
                some (decide (id = 0xdd ∧ len.toNat = 28 ∧ rest.take 4 = [0x00, 0x0f, 0xac, 0x09])) := by
              rw [isKde_eq fun hlong => by have := of_decide_eq_true hlong; omega, hrest]
              simp only [decide_eq_true_eq]
            rw [hgtk, higtk]
            simp only [Option.bind_some, decide_eq_true_eq]
            split
            · rename_i hlong
              split
              · rfl
              · rename_i hshort
                have hindex : plain[off + 6]? = some (byteAt rest 4) := by
                  rw [← byteAt_read (by omega : 4 < rest.length), ← hrest, List.getElem?_drop]
                rw [hindex, readBytes_eq (by omega), (hfrom 6 : plain.drop (off + 8) = _)]
                simp only [Option.bind_some]
                rw [ih (by omega) (by omega : plain.length - (off + 2 + len.toNat) ≤ m), hnext]
            · split
              · rename_i hlong
                have hlist : readLe16 plain (off + 6) = some (getLe16 rest 4) := by
                  rw [← readLe16_eq (by omega : 4 + 1 < rest.length)]
                  unfold readLe16
                  rw [← hrest, List.getElem?_drop, List.getElem?_drop]
                rw [hlist]
                simp only [Option.bind_some]
                split
                · rfl
                · rw [readBytes_eq (by omega), readBytes_eq (by omega), (hfrom 6 : plain.drop (off + 8) = _),
                    (hfrom 12 : plain.drop (off + 14) = _)]
                  simp only [Option.bind_some]
                  rw [ih (by omega) (by omega : plain.length - (off + 2 + len.toNat) ≤ m), hnext,
                    ofBytes_take (by omega : 6 + 6 ≤ rest.length)]
              · rw [ih (by omega) (by omega : plain.length - (off + 2 + len.toNat) ≤ m), hnext]

theorem extractGtk_eq (c : SupplicantCrypto) (p : WpaProfile) (x : Supplicant) (memory : Bool) (h : 99 ≤ frame.length) :
    extractGtk c p x memory frame = some (supplicantExtractGtk c p x memory frame) := by
  unfold extractGtk supplicantExtractGtk
  rw [readBe16_eq (by omega), readBe16_eq (by omega), readBe16_eq (by omega), decryptKeyData_eq c p x memory h]
  simp only [Option.bind_eq_bind, Option.bind_some, Option.map_some]
  split
  · rfl
  · split
    · rfl
    · cases supplicantDecryptKeyData c p x memory frame with
      | none => rfl
      | some plain =>
        dsimp only
        split
        · split
          · rfl
          · rename_i hlength
            rw [not_or, not_lt] at hlength
            rw [readBytes_eq (by omega)]
            rfl
        · exact kdeWalk_eq (by omega) (by omega) .empty .empty

theorem supplicantFrame_length (h : supplicantFrame data = some frame) : 99 ≤ frame.length := by
  unfold supplicantFrame at h
  split at h
  · cases h
  · dsimp only at h
    split at h
    · cases h
    · split at h
      · cases h
      · cases h
        rw [List.length_take]
        omega

end

/-! What is extracted. -/

/-- The elements of the key data with their bodies, up to the padding; `none` when one is cut off. -/
def kdes : ℕ → List UInt8 → Option (List (UInt8 × List UInt8))
  | n + 1, id :: length :: rest =>
    if id = 0 ∧ length = 0 then some []
    else if rest.length < length.toNat then none
    else (kdes n (rest.drop length.toNat)).map ((id, rest.take length.toNat) :: ·)
  | _, _ => some []

def IsGtk (e : UInt8 × List UInt8) : Prop :=
  e.1 = 0xdd ∧ 22 ≤ e.2.length ∧ e.2.take 4 = [0x00, 0x0f, 0xac, 0x01]

def IsIgtk (e : UInt8 × List UInt8) : Prop :=
  e.1 = 0xdd ∧ e.2.length = 28 ∧ e.2.take 4 = [0x00, 0x0f, 0xac, 0x09]

instance (e : UInt8 × List UInt8) : Decidable (IsGtk e) := inferInstanceAs (Decidable (_ ∧ _))

instance (e : UInt8 × List UInt8) : Decidable (IsIgtk e) := inferInstanceAs (Decidable (_ ∧ _))

/-- A group key has at most 32 bytes, and the id of an IGTK is 4 or 5. -/
def Accepted (e : UInt8 × List UInt8) : Prop :=
  (IsGtk e → e.2.length ≤ 38) ∧ (IsIgtk e → ¬ (getLe16 e.2 4 < 4 ∨ 5 < getLe16 e.2 4))

def lastGtk : List (UInt8 × List UInt8) → Option (List UInt8)
  | [] => none
  | e :: es => (lastGtk es).or (if IsGtk e then some (e.2.drop 6) else none)

section

variable {es : List (UInt8 × List UInt8)} {keys : GroupKeys} {status : ExtractStatus} {n : ℕ} {plain : List UInt8}

/-- What the walk over the key data comes to: without an error, all elements are there and accepted, and the last GTK KDE
counts. -/
structure Walked (n : ℕ) (plain : List UInt8) (status : ExtractStatus) (keys : GroupKeys)
    (r : ExtractStatus × GroupKeys) : Prop where
  sound : r.1 ≠ .error ↔ ∃ es, kdes n plain = some es ∧ ∀ e ∈ es, Accepted e
  gtk : ∀ es, kdes n plain = some es → (∀ e ∈ es, Accepted e) → r.2.gtk = (lastGtk es).getD keys.gtk
  found : ∀ es, kdes n plain = some es → (∀ e ∈ es, Accepted e) → (lastGtk es).isSome → r.1 = .ok
  kept : r.1 ≠ .error → status = .ok → r.1 = .ok

theorem Walked.nil (hes : kdes n plain = some []) (hstatus : status ≠ .error) : Walked n plain status keys (status, keys) where
  sound := iff_of_true hstatus ⟨[], hes, fun e he => absurd he List.not_mem_nil⟩
  gtk := fun es hes' _ => by
    cases hes.symm.trans hes'
    rfl
  found := fun es hes' _ hsome => by
    cases hes.symm.trans hes'
    cases hsome
  kept := fun _ hok => hok

theorem Walked.error (h : ∀ es, kdes n plain = some es → ∃ e ∈ es, ¬ Accepted e) : Walked n plain status keys (.error, keys) where
  sound := by
    refine iff_of_false (fun hno => hno rfl) ?_
    rintro ⟨es, hes, hall⟩
    obtain ⟨e, he, hbad⟩ := h es hes
    exact hbad (hall e he)
  gtk := fun es hes hall => by
    obtain ⟨e, he, hbad⟩ := h es hes
    exact absurd (hall e he) hbad
  found := fun es hes hall => by
    obtain ⟨e, he, hbad⟩ := h es hes
    exact absurd (hall e he) hbad
  kept := fun hno => absurd rfl hno

theorem Walked.cons {e : UInt8 × List UInt8} {rest : List UInt8} {status' : ExtractStatus} {keys' : GroupKeys}
    {r : ExtractStatus × GroupKeys} (hes : kdes (n + 1) plain = (kdes n rest).map (e :: ·)) (he : Accepted e)
    (hgtk : keys'.gtk = (if IsGtk e then some (e.2.drop 6) else none).getD keys.gtk) (hfound : IsGtk e → status' = .ok)
    (hkept : status = .ok → status' = .ok) (h : Walked n rest status' keys' r) : Walked (n + 1) plain status keys r := by
  have hsplit : ∀ es, kdes (n + 1) plain = some es → (∀ e ∈ es, Accepted e) →
      ∃ es', es = e :: es' ∧ kdes n rest = some es' ∧ ∀ e ∈ es', Accepted e := by
    intro es hsome hall
    rw [hes, Option.map_eq_some_iff] at hsome
    obtain ⟨es', hes', rfl⟩ := hsome
    exact ⟨es', rfl, hes', fun e' he' => hall e' (List.mem_cons_of_mem e he')⟩
  refine ⟨h.sound.trans ⟨?_, ?_⟩, fun es hsome hall => ?_, fun es hsome hall hlast => ?_, fun hno hok => h.kept hno (hkept hok)⟩
  · rintro ⟨es', hes', hall⟩
    exact ⟨e :: es', by rw [hes, hes', Option.map_some], List.forall_mem_cons.mpr ⟨he, hall⟩⟩
  · rintro ⟨es, hsome, hall⟩
    obtain ⟨es', -, hes', hall'⟩ := hsplit es hsome hall
    exact ⟨es', hes', hall'⟩
  · obtain ⟨es', rfl, hes', hall'⟩ := hsplit es hsome hall
    rw [h.gtk es' hes' hall', hgtk, lastGtk]
    cases lastGtk es' with
    | none => rfl
    | some key => rfl
  · obtain ⟨es', rfl, hes', hall'⟩ := hsplit es hsome hall
    rw [lastGtk] at hlast
    cases hrest : lastGtk es' with
    | some key => exact h.found es' hes' hall' (hrest ▸ rfl)
    | none =>
      rw [hrest, Option.none_or] at hlast
      split at hlast
      · rename_i hgtk'
        exact h.kept (h.sound.mpr ⟨es', hes', hall'⟩) (hfound hgtk')
      · cases hlast

theorem byteAt_take {l : List UInt8} {i k : ℕ} (h : i < k) : byteAt (l.take k) i = byteAt l i := by
  unfold byteAt
  rw [List.drop_take]
  obtain ⟨m, hm⟩ : ∃ m, k - i = m + 1 := ⟨k - i - 1, by omega⟩
  rw [hm]
  cases l.drop i with
  | nil => rfl
  | cons x xs => rfl

theorem extractLoop_walked (hn : plain.length ≤ n) (hstatus : status ≠ .error) :
    Walked n plain status keys (extractLoop n plain status keys) := by
  induction n generalizing plain status keys with
  | zero =>
    cases List.eq_nil_of_length_eq_zero (Nat.le_zero.mp hn)
    exact Walked.nil rfl hstatus
  | succ n ih =>
    match plain, hn with
    | [], _ => exact Walked.nil rfl hstatus
    | [_], _ => exact Walked.nil rfl hstatus
    | id :: len :: rest, hn =>
      rw [List.length_cons, List.length_cons] at hn
      have hdrop : (rest.drop len.toNat).length ≤ n := by
        rw [List.length_drop]
        omega
      rw [extractLoop]
      split
      · rename_i hpad
        exact Walked.nil (by rw [kdes, if_pos hpad]) hstatus
      · rename_i hpad
        split
        · rename_i hcut
          refine Walked.error fun es hes => ?_
          rw [kdes, if_neg hpad, if_pos hcut] at hes
          cases hes
        · rename_i hfits
          have hes : kdes (n + 1) (id :: len :: rest) = (kdes n (rest.drop len.toNat)).map ((id, rest.take len.toNat) :: ·) := by
            rw [kdes, if_neg hpad, if_neg hfits]
          have hlength : (rest.take len.toNat).length = len.toNat := by
            rw [List.length_take]
            omega
          have hfour : 4 ≤ len.toNat → (rest.take len.toNat).take 4 = rest.take 4 := fun h4 => by
            rw [List.take_take, Nat.min_eq_left h4]
          have hbad : ¬ Accepted (id, rest.take len.toNat) → ∀ es, kdes (n + 1) (id :: len :: rest) = some es →
              ∃ e ∈ es, ¬ Accepted e := by
            intro hbad es hsome
            rw [hes, Option.map_eq_some_iff] at hsome
            obtain ⟨es', -, rfl⟩ := hsome
            exact ⟨_, List.mem_cons_self, hbad⟩
          have hgtk : IsGtk (id, rest.take len.toNat) ↔ id = 0xdd ∧ 22 ≤ len.toNat ∧ rest.take 4 = [0x00, 0x0f, 0xac, 0x01] := by
            unfold IsGtk
            rw [hlength]
            exact and_congr_right fun _ => and_congr_right fun hlong => by rw [hfour (by omega)]
          have higtk : IsIgtk (id, rest.take len.toNat) ↔
              id = 0xdd ∧ len.toNat = 28 ∧ rest.take 4 = [0x00, 0x0f, 0xac, 0x09] := by
            unfold IsIgtk
            rw [hlength]
            exact and_congr_right fun _ => and_congr_right fun hlong => by rw [hfour (by omega)]
          split
          · rename_i hyes
            replace hyes := hgtk.mpr hyes
            have hno : ¬ IsIgtk (id, rest.take len.toNat) := fun hother => by
              have h1 := (hgtk.mp hyes).2.2
              have h9 := (higtk.mp hother).2.2
              rw [h1] at h9
              exact absurd h9 (by decide)
            split
            · rename_i hbig
              refine Walked.error (hbad fun hacc => ?_)
              have := hacc.1 hyes
              rw [hlength] at this
              omega
            · rename_i hsmall
              have hacc : Accepted (id, rest.take len.toNat) :=
                ⟨fun _ => by rw [hlength]; omega, fun hother => absurd hother hno⟩
              refine Walked.cons hes hacc ?_ (fun _ => rfl) (fun _ => rfl) (ih hdrop (by decide))
              rw [if_pos hyes, List.drop_take]
              rfl
          · rename_i hother
            replace hother := mt hgtk.mp hother
            split
            · rename_i hyes
              replace hyes := higtk.mpr hyes
              have hid : getLe16 (rest.take len.toNat) 4 = getLe16 rest 4 := by
                unfold getLe16
                rw [byteAt_take (by have := (higtk.mp hyes).2.1; omega), byteAt_take (by have := (higtk.mp hyes).2.1; omega)]
              split
              · rename_i hrange
                exact Walked.error (hbad fun hacc => hacc.2 hyes (hid ▸ hrange))
              · rename_i hrange
                have hacc : Accepted (id, rest.take len.toNat) := ⟨fun hgtk => absurd hgtk hother, fun _ => hid ▸ hrange⟩
                refine Walked.cons hes hacc ?_ (fun _ => rfl) (fun _ => rfl) (ih hdrop (by decide))
                rw [if_neg hother]
                rfl
            · rename_i hneither
              replace hneither := mt higtk.mp hneither
              have hacc : Accepted (id, rest.take len.toNat) :=
                ⟨fun hgtk => absurd hgtk hother, fun higtk => absurd higtk hneither⟩
              refine Walked.cons hes hacc ?_ (fun hgtk => absurd hgtk hother) (fun hok => hok) (ih hdrop hstatus)
              rw [if_neg hother]
              rfl

theorem kde_body {e : UInt8 × List UInt8} (h : kdes n plain = some es) (he : e ∈ es) : e.2 <:+: plain := by
  induction n generalizing plain es with
  | zero =>
    cases h
    cases he
  | succ n ih =>
    match plain, h with
    | [], h =>
      cases h
      cases he
    | [_], h =>
      cases h
      cases he
    | id :: len :: rest, h =>
      have hrest : rest <:+ id :: len :: rest := ⟨[id, len], rfl⟩
      rw [kdes] at h
      split at h
      · cases h
        cases he
      · split at h
        · cases h
        · rw [Option.map_eq_some_iff] at h
          obtain ⟨es', hes', rfl⟩ := h
          cases List.mem_cons.mp he with
          | inl hhead =>
            rw [hhead]
            exact (List.take_prefix _ _).isInfix.trans hrest.isInfix
          | inr htail => exact (ih hes' htail).trans ((List.drop_suffix _ _).isInfix.trans hrest.isInfix)

theorem lastGtk_mem {key : List UInt8} (h : lastGtk es = some key) : ∃ e ∈ es, IsGtk e ∧ key = e.2.drop 6 := by
  induction es with
  | nil => cases h
  | cons e es ih =>
    rw [lastGtk] at h
    cases hlast : lastGtk es with
    | some last =>
      rw [hlast, Option.some_or] at h
      obtain ⟨e', he', hgtk⟩ := ih (hlast.trans h)
      exact ⟨e', List.mem_cons_of_mem e he', hgtk⟩
    | none =>
      rw [hlast, Option.none_or] at h
      split at h
      · rename_i hgtk
        cases h
        exact ⟨e, List.mem_cons_self, hgtk, rfl⟩
      · cases h

end

/-! The length of the group key. -/

/-- A group key that is returned has the length of the cipher's keys and lies in the key data; for RSN it is the key of a GTK
KDE. -/
def GtkExact (c : SupplicantCrypto) (p : WpaProfile) (x : Supplicant) (memory : Bool) (frame : List UInt8) : Prop :=
  ∀ keys, supplicantExtractGtk c p x memory frame = (.ok, keys) → keys.gtk ≠ [] →
    ∃ plain, supplicantDecryptKeyData c p x memory frame = some plain ∧ keys.gtk <:+: plain ∧
      keys.gtk.length = supplicantCipherKeyLength p.groupCipher ∧
      (p.protocol = .rsn → ∃ es e, kdes plain.length plain = some es ∧ e ∈ es ∧ IsGtk e ∧ keys.gtk = e.2.drop 6)

/-- The last GTK KDE of encrypted RSN key data without a broken element carries a key of the cipher's length. -/
def GtkFits (c : SupplicantCrypto) (p : WpaProfile) (x : Supplicant) (memory : Bool) (frame : List UInt8) : Prop :=
  p.protocol = .rsn → getBe16 frame 97 ≠ 0 → getBe16 frame 5 &&& wpaKeyInfoEncrypted ≠ 0 →
    ∀ plain, supplicantDecryptKeyData c p x memory frame = some plain →
      ∀ es, kdes plain.length plain = some es → (∀ e ∈ es, Accepted e) →
        ∀ key, lastGtk es = some key → key.length = supplicantCipherKeyLength p.groupCipher

section

variable (c : SupplicantCrypto) (p : WpaProfile) (x : Supplicant) (memory : Bool) (frame : List UInt8)

theorem gtkExact_iff_gtkFits : GtkExact c p x memory frame ↔ GtkFits c p x memory frame := by
  unfold GtkExact GtkFits supplicantExtractGtk
  dsimp only
  by_cases hempty : getBe16 frame 97 = 0
  · rw [if_pos hempty]
    refine iff_of_true (fun keys heq hgtk => ?_) (fun _ hno => absurd hempty hno)
    cases heq
    exact absurd rfl hgtk
  · rw [if_neg hempty]
    by_cases hclear : p.protocol = .rsn ∧ getBe16 frame 5 &&& wpaKeyInfoEncrypted = 0
    · rw [if_pos hclear]
      refine iff_of_true (fun keys heq _ => ?_) (fun _ _ hno => absurd hclear.2 hno)
      cases heq
    · rw [if_neg hclear]
      cases hplain : supplicantDecryptKeyData c p x memory frame with
      | none =>
        refine iff_of_true (fun keys heq _ => ?_) (fun _ _ _ plain hsome => ?_)
        · cases heq
        · cases hsome
      | some plain =>
        dsimp only
        by_cases hwpa : p.protocol = .wpa
        · rw [if_pos hwpa]
          have hrsn : p.protocol ≠ .rsn := fun hrsn => by
            rw [hwpa] at hrsn
            cases hrsn
          refine iff_of_true (fun keys heq _ => ⟨plain, rfl, ?_⟩) (fun hyes => absurd hyes hrsn)
          split at heq
          · cases heq
          · rename_i hlength
            rw [not_or, not_not, not_lt] at hlength
            cases heq
            refine ⟨(List.take_prefix _ _).isInfix, ?_, fun hyes => absurd hyes hrsn⟩
            rw [List.length_take, Nat.min_eq_left hlength.2]
            exact hlength.1
        · rw [if_neg hwpa]
          have hrsn : p.protocol = .rsn := by
            cases hprotocol : p.protocol with
            | wpa => exact absurd hprotocol hwpa
            | rsn => rfl
          have hencrypted : getBe16 frame 5 &&& wpaKeyInfoEncrypted ≠ 0 := fun hzero => hclear ⟨hrsn, hzero⟩
          have hwalk : Walked plain.length plain .empty .empty (extractLoop plain.length plain .empty .empty) :=
            extractLoop_walked le_rfl (by decide)
          constructor
          · intro hexact _ _ _ plain' hsome es hes hall key hlast
            cases hsome
            have hok := hwalk.found es hes hall (hlast ▸ rfl)
            have hgtk : (extractLoop plain.length plain .empty .empty).2.gtk = key := by
              rw [hwalk.gtk es hes hall, hlast]
              rfl
            have hne : key ≠ [] := by
              obtain ⟨e, -, hkde, rfl⟩ := lastGtk_mem hlast
              have hlong := hkde.2.1
              rw [Ne, List.drop_eq_nil_iff]
              omega
            obtain ⟨_, -, -, hlength, -⟩ := hexact _ (Prod.ext hok rfl) (hgtk ▸ hne)
            rwa [hgtk] at hlength
          · intro hfits keys heq hgtk
            rw [heq] at hwalk
            obtain ⟨es, hes, hall⟩ := hwalk.sound.mp (fun herror => by cases herror)
            have hkeys : keys.gtk = (lastGtk es).getD [] := hwalk.gtk es hes hall
            cases hlast : lastGtk es with
            | none =>
              rw [hlast] at hkeys
              exact absurd hkeys hgtk
            | some key =>
              rw [hlast, Option.getD_some] at hkeys
              obtain ⟨e, he, hkde, hkey⟩ := lastGtk_mem hlast
              refine ⟨plain, rfl, ?_, ?_, fun _ => ⟨es, e, hes, he, hkde, hkeys.trans hkey⟩⟩
              · rw [hkeys, hkey]
                exact (List.drop_suffix _ _).isInfix.trans (kde_body hes he)
              · rw [hkeys]
                exact hfits hrsn hempty hencrypted plain rfl es hes hall key hlast

end

/-- Neither the checks of a frame nor the extraction of the keys read outside, and a group key that is returned has the
cipher's length whenever the GTK KDE's has it. -/
theorem keyData_safe_and_exact_iff (c : SupplicantCrypto) (p : WpaProfile) (x : Supplicant) (memory : Bool)
    (data : List UInt8) : frameChecks data = some (supplicantFrame data) ∧
      ∀ frame, supplicantFrame data = some frame →
        extractGtk c p x memory frame = some (supplicantExtractGtk c p x memory frame) ∧
        (GtkExact c p x memory frame ↔ GtkFits c p x memory frame) := by
  refine ⟨frameChecks_eq data, fun frame hframe => ⟨?_, gtkExact_iff_gtkFits c p x memory frame⟩⟩
  exact extractGtk_eq c p x memory (supplicantFrame_length hframe)

def longGtk : List UInt8 := [0xdd, 30, 0x00, 0x0f, 0xac, 0x01, 1, 0] ++ List.replicate 24 0x11

theorem longGtk_extracted (c : SupplicantCrypto) : ∃ data frame,
    supplicantFrame data = some frame ∧ ¬ GtkExact c wpa2CcmpProfile Supplicant.cleared true frame := by
  obtain ⟨wrapped, hwrap, hlength⟩ := aesWrap_isSome c.toWlanCrypto (bytesAt 16 16 Supplicant.cleared.ptk.1)
    (by decide : 16 ≤ longGtk.length) (by decide)
  replace hlength : wrapped.length = 40 := hlength
  have hunwrap := aesUnwrap_aesWrap c.toWlanCrypto _ hwrap
  set data := keyFrame 2 2 message3Info 16 (zeroBytes 8) (zeroBytes 32) (zeroBytes 16) wrapped with hdata
  have hdataLength : getBe16 data 97 = .ofNat 16 wrapped.length := keyFrame_dataLength
  have hinfo : getBe16 data 5 = message3Info := keyFrame_keyInfo
  have hdatalen : data.length = 99 + wrapped.length := keyFrame_length
  have hdrop : data.drop 99 = wrapped := keyFrame_data
  have hplain : supplicantDecryptKeyData c wpa2CcmpProfile Supplicant.cleared true data = some longGtk := by
    rw [supplicantDecryptKeyData, hdataLength, hinfo, hdatalen, hdrop, hlength, if_neg (by decide), if_neg (by decide),
      if_pos (by decide)]
    change aesUnwrap c.toWlanCrypto (bytesAt 16 16 Supplicant.cleared.ptk.1) (wrapped.take 40) = _
    rw [List.take_of_length_le (le_of_eq hlength), hunwrap]
  have hframe : supplicantFrame data = some data := by
    have hshort : wrapped.length ≤ 93 := by omega
    exact supplicantFrame_keyFrame hshort (by decide) (by decide)
  refine ⟨data, data, hframe, fun hexact => ?_⟩
  have hextract : supplicantExtractGtk c wpa2CcmpProfile Supplicant.cleared true data =
      (.ok, { GroupKeys.empty with gtkIndex := 1, gtk := List.replicate 24 0x11 }) := by
    rw [supplicantExtractGtk, hdataLength, hinfo, hplain, hlength]
    dsimp only
    rw [if_neg (by decide), if_neg (by decide), if_neg (by decide)]
    decide
  obtain ⟨_, -, -, hbad, -⟩ := hexact _ hextract (by decide)
  exact absurd hbad (by decide)

theorem longGtk_taken : ∃ data frame,
    supplicantFrame data = some frame ∧
      ¬ GtkExact SupplicantSys.nullSupplicant wpa2CcmpProfile Supplicant.cleared true frame :=
  longGtk_extracted SupplicantSys.nullSupplicant

end RtSmart.KeyData
