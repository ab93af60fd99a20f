import RtSmart.Usb.HidLayout

/-! Reports on a pointer: `hid_extract_field` and `hid_process_pointer_report` (`usbh_hid_thr.c`). -/

namespace RtSmart.Hid

/-! Fields. -/

/-- The loop of `hid_extract_field`; a bit index has 16 bits. -/
def extractBits (report : List UInt8) (bitOffset size : ℕ) : Option (BitVec 32) :=
  (List.range size).foldlM (fun value bit => do
    let absoluteBit := (bitOffset + bit) % 2 ^ 16
    let byte ← report[absoluteBit / 8]?
    some (if byte.toNat.testBit (absoluteBit % 8) then value ||| 1#32 <<< bit else value)) 0

def signExtend (value : BitVec 32) (size : ℕ) : BitVec 32 :=
  if value &&& 1#32 <<< (size - 1) ≠ 0 then value ||| ~~~(1#32 <<< size - 1#32) else value

/-- `report` is what was received, byte for byte. -/
def hidExtractField (report : List UInt8) (field : HidReportField) : Option ℤ :=
  if field.reportSize = 0 ∨ 32 < field.reportSize then some 0
  else do
    let value ← extractBits report field.bitOffset field.reportSize
    some (if field.signed ∧ field.reportSize < 32 then signExtend value field.reportSize else value).toInt

def reportNumber : List UInt8 → ℕ
  | [] => 0
  | byte :: report => 2 ^ 8 * reportNumber report + byte.toNat

def rawValue (report : List UInt8) (field : HidReportField) : ℕ :=
  reportNumber report / 2 ^ field.bitOffset % 2 ^ field.reportSize

def Inside (report : List UInt8) (field : HidReportField) : Prop :=
  field.reportSize = 0 ∨ field.bitOffset + field.reportSize ≤ 8 * report.length

instance (report : List UInt8) (field : HidReportField) : Decidable (Inside report field) :=
  inferInstanceAs (Decidable (_ ∨ _))

def fieldValue (report : List UInt8) (field : HidReportField) : Option ℤ :=
  if Inside report field then
    some (if field.signed ∧ 2 ^ field.reportSize ≤ 2 * rawValue report field then
      (rawValue report field : ℤ) - 2 ^ field.reportSize else rawValue report field)
  else none

/-- An `rt_int32_t` has place for the value: a field of 32 bits without a sign is below `2 ^ 31`, and a field of more bits
is zero. -/
def Fits (report : List UInt8) (field : HidReportField) : Prop :=
  if field.reportSize ≤ 32 then field.signed = true ∨ rawValue report field < 2 ^ 31 else rawValue report field = 0

/-! Reports. -/

inductive InputEvent
  | report (type code : ℕ) (value : ℤ)
  | sync
deriving DecidableEq

abbrev evKey : ℕ := 0x01

abbrev evRel : ℕ := 0x02

abbrev evAbs : ℕ := 0x03

def hidButtonCode : ℕ → ℕ
  | 0 => 0x110
  | 1 => 0x111
  | 2 => 0x112
  | 3 => 0x113
  | 4 => 0x114
  | 5 => 0x115
  | 6 => 0x116
  | _ => 0x114

/-- The events of `hid_report_pointer_buttons`. -/
def hidReportPointerButtons (lastButtons currentButtons : BitVec 8) : List InputEvent :=
  (List.range 7).filterMap fun index =>
    if (lastButtons ^^^ currentButtons).getLsbD index then
      some (.report evKey (hidButtonCode index) (if currentButtons.getLsbD index then 1 else 0))
    else none

def isPointerReport (map : HidReportMap) (report : List UInt8) : Bool :=
  !map.pointerHasReportId || report.head?.any (·.toNat = map.pointerReportId)

def readIndex (map : HidReportMap) (report : List UInt8) (index : ℤ) : Option (Option ℤ) :=
  if 0 ≤ index then do
    let field ← map.fields[index.toNat]?
    let value ← hidExtractField report field
    some (some value)
  else some none

def readButtons (map : HidReportMap) (report : List UInt8) : Option (BitVec 8) :=
  map.buttonIndices.zipIdx.foldlM (fun currentButtons (button, index) => do
    let value ← readIndex map report button
    some (if value.getD 0 ≠ 0 then currentButtons ||| 1#8 <<< index else currentButtons)) 0

def touchIndex (map : HidReportMap) : ℤ :=
  if 0 ≤ map.tipIndex then map.tipIndex else (map.buttonIndices.head?.map Int.ofNat).getD (-1)

def withSync (changed : Bool) (events : List InputEvent) : List InputEvent :=
  if changed then events ++ [.sync] else events

/-- What a touch reports, and the new `last_buttons`. -/
def touchEvents (lastButtons : BitVec 8) (x y pressure tip : Option ℤ) : List InputEvent × BitVec 8 :=
  let abs (code : ℕ) (value : Option ℤ) : List InputEvent := value.toList.map (.report evAbs code)
  let currentButtons : BitVec 8 := if tip.getD 0 ≠ 0 then 1 else 0
  let events := abs 0x00 x ++ abs 0x01 y ++ abs 0x18 pressure
  if (lastButtons ^^^ currentButtons).getLsbD 0 then
    (withSync true (events ++ [.report evKey 0x14a (if currentButtons ≠ 0 then 1 else 0)]), currentButtons)
  else (withSync (!events.isEmpty) events, lastButtons)

def processTouch (map : HidReportMap) (lastButtons : BitVec 8) (report : List UInt8) :
    Option (List InputEvent × BitVec 8) := do
  let x ← readIndex map report map.xIndex
  let y ← readIndex map report map.yIndex
  let pressure ← readIndex map report map.pressureIndex
  let tip ← readIndex map report (touchIndex map)
  some (touchEvents lastButtons x y pressure tip)

/-- What a mouse reports, and the new `last_buttons`. -/
def mouseEvents (lastButtons currentButtons : BitVec 8) (x y wheel : Option ℤ) : List InputEvent × BitVec 8 :=
  let rel (code : ℕ) (value : Option ℤ) : List InputEvent := (value.toList.filter (· ≠ 0)).map (.report evRel code)
  let moves := rel 0x00 x ++ rel 0x01 y ++ rel 0x08 wheel
  (withSync (lastButtons ≠ currentButtons ∨ moves ≠ []) (hidReportPointerButtons lastButtons currentButtons ++ moves),
    currentButtons)

def processMouse (map : HidReportMap) (lastButtons : BitVec 8) (report : List UInt8) :
    Option (List InputEvent × BitVec 8) := do
  let currentButtons ← readButtons map report
  let x ← readIndex map report map.xIndex
  let y ← readIndex map report map.yIndex
  let wheel ← readIndex map report map.wheelIndex
  some (mouseEvents lastButtons currentButtons x y wheel)

/-- The events and the new `last_buttons`; it comes to `none` when a byte is read that has not been received, or a field
that is not in the table. -/
def hidProcessPointerReport (map : HidReportMap) (touch : Bool) (lastButtons : BitVec 8) (report : List UInt8) :
    Option (List InputEvent × BitVec 8) :=
  if !isPointerReport map report then some ([], lastButtons)
  else if touch then processTouch map lastButtons report
  else processMouse map lastButtons report

def usedIndices (map : HidReportMap) (touch : Bool) : List ℤ :=
  if touch then [map.xIndex, map.yIndex, map.pressureIndex, touchIndex map]
  else map.buttonIndices.map Int.ofNat ++ [map.xIndex, map.yIndex, map.wheelIndex]

def extracted (map : HidReportMap) (touch : Bool) (report : List UInt8) : List HidReportField :=
  if isPointerReport map report then ((usedIndices map touch).filter (0 ≤ ·)).filterMap fun index => map.fields[index.toNat]?
  else []

/-- The report is processed, with the value of every field. -/
def Decoded (map : HidReportMap) (touch : Bool) (lastButtons : BitVec 8) (report : List UInt8) : Prop :=
  (hidProcessPointerReport map touch lastButtons report).isSome ∧
    ∀ f ∈ extracted map touch report, hidExtractField report f = fieldValue report f

/-- Every field that is extracted has been received, and its value is one of an `rt_int32_t`. -/
def Covers (map : HidReportMap) (touch : Bool) (report : List UInt8) : Prop :=
  ∀ f ∈ extracted map touch report, Inside report f ∧ Fits report f

section

variable {report : List UInt8} {f : HidReportField} {n off size raw : ℕ}

theorem reportNumber_testBit (report : List UInt8) (i : ℕ) :
    report[i / 8]?.map (fun byte => byte.toNat.testBit (i % 8)) =
      if i < 8 * report.length then some ((reportNumber report).testBit i) else none := by
  induction report generalizing i with
  | nil => rw [if_neg (by simp)]; rfl
  | cons byte report ih =>
    have hbyte : byte.toNat < 2 ^ 8 := byte.toNat_lt
    rw [reportNumber, Nat.testBit_two_pow_mul_add _ hbyte]
    rcases Nat.lt_or_ge i 8 with hlow | hhigh
    · have hin : i < 8 * (byte :: report).length := by
        rw [List.length_cons]
        omega
      rw [Nat.div_eq_of_lt hlow, Nat.mod_eq_of_lt hlow, if_pos hin, if_pos hlow]
      rfl
    · have hdiv : i / 8 = (i - 8) / 8 + 1 := by omega
      have hmod : i % 8 = (i - 8) % 8 := by omega
      have hin : i < 8 * (byte :: report).length ↔ i - 8 < 8 * report.length := by
        rw [List.length_cons]
        omega
      rw [hdiv, hmod, List.getElem?_cons_succ, ih, if_congr hin rfl rfl, if_neg (Nat.not_lt.mpr hhigh)]

theorem extractBits_succ (hoff : off + n < 2 ^ 16) :
    extractBits report off (n + 1) = (extractBits report off n).bind fun value =>
      (report[(off + n) / 8]?.map fun byte => byte.toNat.testBit ((off + n) % 8)).bind fun isSet =>
        some (if isSet then value ||| 1#32 <<< n else value) := by
  unfold extractBits
  rw [List.range_succ, List.foldlM_append]
  apply congrArg
  funext value
  dsimp only [List.foldlM]
  rw [Nat.mod_eq_of_lt hoff]
  cases report[(off + n) / 8]? with
  | none => rfl
  | some byte => rfl

theorem ofNat_setBit (x n : ℕ) :
    (if x.testBit n then BitVec.ofNat 32 (x % 2 ^ n) ||| 1#32 <<< n else BitVec.ofNat 32 (x % 2 ^ n)) =
      BitVec.ofNat 32 (x % 2 ^ (n + 1)) := by
  apply BitVec.eq_of_getLsbD_eq
  intro i hi
  have hone : (1#32 <<< n).getLsbD i = decide (i = n) := by
    rw [BitVec.getLsbD_shiftLeft, BitVec.getLsbD_one]
    simp only [hi, decide_true, Bool.true_and, Nat.zero_lt_succ]
    by_cases hin : i = n
    · simp [hin]
    · simp only [hin, decide_false]
      rcases Nat.lt_or_ge i n with hlt | hge
      · simp [hlt]
      · have hne : ¬ i - n = 0 := by omega
        simp [hne]
  have hlow : ∀ k, (BitVec.ofNat 32 (x % 2 ^ k)).getLsbD i = (decide (i < k) && x.testBit i) := fun k => by
    rw [BitVec.getLsbD_ofNat, Nat.testBit_mod_two_pow, decide_eq_true hi, Bool.true_and]
  rw [hlow]
  split
  · rename_i hset
    rw [BitVec.getLsbD_or, hlow, hone]
    by_cases hin : i = n
    · simp [hin, hset]
    · have hiff : i < n + 1 ↔ i < n := by omega
      simp [hin, hiff]
  · rename_i hclear
    rw [hlow]
    by_cases hin : i = n
    · simp [hin, hclear]
    · have hiff : i < n + 1 ↔ i < n := by omega
      simp [hiff]

theorem extractBits_eq (hn : n ≤ 32) (hin : off + n ≤ 8 * report.length) (hoff : off + n ≤ 2 ^ 16) :
    extractBits report off n = some (BitVec.ofNat 32 (reportNumber report / 2 ^ off % 2 ^ n)) := by
  induction n with
  | zero => 
    rw [pow_zero, Nat.mod_one]
    rfl
  | succ n ih =>
    have hbit : off + n < 8 * report.length := by omega
    rw [extractBits_succ (by omega), ih (by omega) (by omega) (by omega), reportNumber_testBit, if_pos hbit]
    simp only [Option.bind_some]
    rw [← ofNat_setBit _ n, Nat.testBit_div_two_pow, Nat.add_comm n off]

theorem signExtend_toInt (hsize : 0 < size) (hlt : size < 32) (hraw : raw < 2 ^ size) :
    (signExtend (BitVec.ofNat 32 raw) size).toInt =
      if 2 ^ size ≤ 2 * raw then (raw : ℤ) - 2 ^ size else raw := by
  obtain ⟨top, rfl⟩ : ∃ top, size = top + 1 := ⟨size - 1, by omega⟩
  have hpow : (2 : ℕ) ^ (top + 1) ≤ 2 ^ 31 := Nat.pow_le_pow_right (by decide) (by omega)
  have hdouble : (2 : ℕ) ^ (top + 1) = 2 * 2 ^ top := Nat.pow_succ'
  have htop : (BitVec.ofNat 32 raw &&& 1#32 <<< (top + 1 - 1) ≠ 0) ↔ 2 ^ (top + 1) ≤ 2 * raw := by
    have hbit : (BitVec.ofNat 32 raw).getLsbD top = true ↔ 2 ^ (top + 1) ≤ 2 * raw := by
      have hlt : raw / 2 ^ top < 2 := Nat.div_lt_of_lt_mul (by omega)
      rw [BitVec.getLsbD_ofNat, decide_eq_true (by omega : top < 32), Bool.true_and, Nat.testBit_eq_decide_div_mod_eq,
        decide_eq_true_eq, hdouble, Nat.mul_le_mul_left_iff (by decide)]
      rw [Nat.mod_eq_of_lt hlt]
      constructor
      · intro hone
        have := Nat.div_mul_le_self raw (2 ^ top)
        rw [hone] at this
        omega
      · intro hle
        have := Nat.div_pos hle (Nat.two_pow_pos top)
        omega
    rw [Nat.add_sub_cancel, ← BitVec.twoPow_eq, BitVec.and_twoPow, ← hbit]
    split
    · rename_i hset
      refine iff_of_true (fun hzero => ?_) hset
      have hpos := congrArg BitVec.toNat hzero
      have hlt : (2 : ℕ) ^ top < 2 ^ 32 := by omega
      rw [BitVec.toNat_twoPow, Nat.mod_eq_of_lt hlt] at hpos
      exact absurd hpos (Nat.two_pow_pos top).ne'
    · rename_i hclear
      exact iff_of_false (fun hne => hne rfl) hclear
  have hmask : 1#32 <<< (top + 1) - 1#32 = BitVec.ofNat 32 (2 ^ (top + 1) - 1) := by
    apply BitVec.eq_of_toNat_eq
    rw [← BitVec.twoPow_eq, BitVec.toNat_sub, BitVec.toNat_twoPow, BitVec.toNat_ofNat, BitVec.toNat_ofNat]
    have := Nat.two_pow_pos top
    omega
  unfold signExtend
  rw [if_congr htop rfl rfl]
  split
  · rename_i hneg
    have hdisjoint : BitVec.ofNat 32 raw &&& ~~~(BitVec.ofNat 32 (2 ^ (top + 1) - 1)) = 0#32 := by
      apply BitVec.eq_of_getLsbD_eq
      intro i hi
      rw [BitVec.getLsbD_and, BitVec.getLsbD_not, BitVec.getLsbD_ofNat, BitVec.getLsbD_ofNat, Nat.testBit_two_pow_sub_one,
        decide_eq_true hi, BitVec.getLsbD_zero]
      rcases Nat.lt_or_ge i (top + 1) with hlt | hge
      · simp [hlt]
      · have hhigh : raw.testBit i = false := Nat.testBit_lt_two_pow (hraw.trans_le (Nat.pow_le_pow_right (by decide) hge))
        simp [hhigh]
    have hsum : (BitVec.ofNat 32 raw ||| ~~~(BitVec.ofNat 32 (2 ^ (top + 1) - 1))).toNat = raw + 2 ^ 32 - 2 ^ (top + 1) := by
      rw [← BitVec.add_eq_or_of_and_eq_zero _ _ hdisjoint, BitVec.toNat_add, BitVec.toNat_not, BitVec.toNat_ofNat,
        BitVec.toNat_ofNat]
      have := Nat.two_pow_pos top
      omega
    rw [hmask, BitVec.toInt_eq_toNat_cond, hsum, if_neg (by omega)]
    have hcast : ((2 ^ (top + 1) : ℕ) : ℤ) = 2 ^ (top + 1) := by norm_cast
    omega
  · rename_i hneg
    have hnat : (BitVec.ofNat 32 raw).toNat = raw := by
      rw [BitVec.toNat_ofNat]
      exact Nat.mod_eq_of_lt (by omega)
    rw [BitVec.toInt_eq_toNat_of_lt (by omega), hnat]

theorem rawValue_lt (report : List UInt8) (f : HidReportField) : rawValue report f < 2 ^ f.reportSize :=
  Nat.mod_lt _ (Nat.two_pow_pos _)

theorem hidExtractField_inside (hin : Inside report f) (hoff : f.bitOffset + f.reportSize ≤ 2 ^ 16) :
    ∃ value, hidExtractField report f = some value ∧ (some value = fieldValue report f ↔ Fits report f) := by
  have hraw := rawValue_lt report f
  unfold fieldValue Fits hidExtractField
  rw [if_pos hin]
  have hpow : ((2 ^ f.reportSize : ℕ) : ℤ) = 2 ^ f.reportSize := by norm_cast
  rcases Nat.eq_zero_or_pos f.reportSize with hzero | hpos
  · have hraw : rawValue report f = 0 := by
      rw [hzero] at hraw
      omega
    simp [hzero, hraw]
  · rcases Nat.lt_or_ge 32 f.reportSize with hbig | hsmall
    · rw [if_pos (Or.inr hbig), if_neg (Nat.not_le.mpr hbig)]
      refine ⟨0, rfl, ?_⟩
      rw [Option.some_inj, ← hpow]
      generalize 2 ^ f.reportSize = bound at hraw
      split
      · omega
      · omega
    · have hinside : f.bitOffset + f.reportSize ≤ 8 * report.length := hin.resolve_left (by omega)
      rw [if_neg (by omega), if_pos hsmall, extractBits_eq hsmall hinside hoff]
      refine ⟨_, rfl, ?_⟩
      rw [Option.some_inj]
      change (BitVec.toInt (if f.signed = true ∧ f.reportSize < 32 then
        signExtend (BitVec.ofNat 32 (rawValue report f)) f.reportSize else BitVec.ofNat 32 (rawValue report f))) = _ ↔ _
      have hbound : 2 ^ f.reportSize ≤ 2 ^ 32 := Nat.pow_le_pow_right (by decide) hsmall
      by_cases hsigned : f.signed = true
      · rcases Nat.lt_or_ge f.reportSize 32 with hlt | hge
        · rw [if_pos ⟨hsigned, hlt⟩, signExtend_toInt hpos hlt hraw]
          simp only [hsigned, true_and, true_or]
        · have hfull : f.reportSize = 32 := Nat.le_antisymm hsmall hge
          rw [if_neg (by omega), BitVec.toInt_eq_toNat_cond, BitVec.toNat_ofNat]
          simp only [hsigned, true_and, true_or, hfull] at hraw ⊢
          rw [Nat.mod_eq_of_lt hraw]
          split
          · rw [if_neg (by omega)]
            exact iff_true_intro rfl
          · rw [if_pos (by omega)]
            exact iff_true_intro (by norm_num)
      · rw [if_neg fun hyes => hsigned hyes.1, if_neg fun hyes => hsigned hyes.1, BitVec.toInt_eq_toNat_cond,
          BitVec.toNat_ofNat, Nat.mod_eq_of_lt (hraw.trans_le hbound)]
        simp only [hsigned, Bool.false_eq_true, false_or]
        split <;> omega

theorem hidExtractField_outside (hout : ¬ Inside report f) :
    (hidExtractField report f).isSome → hidExtractField report f ≠ fieldValue report f := by
  intro hsome heq
  unfold fieldValue at heq
  rw [if_neg hout] at heq
  rw [heq] at hsome
  exact absurd hsome Bool.false_ne_true

/-! Indices. -/

section

variable {map : HidReportMap} {touch : Bool} {lastButtons : BitVec 8} {index : ℤ}

theorem isSome_bind {α β : Type*} {x : Option α} {g : α → Option β} (h : ∀ a, (g a).isSome) : (x.bind g).isSome ↔ x.isSome := by
  cases x with
  | none => rfl
  | some a => exact iff_of_true (h a) rfl

theorem isSome_bind_and {α β : Type*} {x : Option α} {g : α → Option β} {p : Prop} (h : ∀ a, (g a).isSome ↔ p) :
    (x.bind g).isSome ↔ x.isSome ∧ p := by
  cases x with
  | none => exact iff_of_false Bool.false_ne_true fun hno => absurd hno.1 Bool.false_ne_true
  | some a => exact (h a).trans (by simp)

theorem readIndex_isSome (hindex : index < map.fields.length) :
    (readIndex map report index).isSome ↔
      ∀ f, 0 ≤ index → map.fields[index.toNat]? = some f → (hidExtractField report f).isSome := by
  unfold readIndex
  split
  · rename_i hpos
    have hlt : index.toNat < map.fields.length := by omega
    rw [List.getElem?_eq_getElem hlt]
    refine (@isSome_bind _ _ (hidExtractField report map.fields[index.toNat]) _ fun _ => rfl).trans
      ⟨fun h f _ hf => ?_, fun h => h _ hpos rfl⟩
    cases Option.some.inj hf
    exact h
  · rename_i hneg
    exact iff_of_true rfl fun f hpos => absurd hpos hneg

theorem foldlM_isSome_iff {α β γ : Type*} {r : α → Option γ} {g : β → α → γ → β} (l : List α) (b : β) :
    (l.foldlM (fun b a => (r a).bind fun c => some (g b a c)) b).isSome ↔ ∀ a ∈ l, (r a).isSome := by
  induction l generalizing b with
  | nil => exact iff_of_true rfl fun _ h => absurd h List.not_mem_nil
  | cons a l ih =>
    rw [List.foldlM_cons, List.forall_mem_cons]
    refine (isSome_bind_and fun b' => ih b').trans (and_congr_left fun _ => isSome_bind fun _ => rfl)

theorem readButtons_isSome : (readButtons map report).isSome ↔
    ∀ button ∈ map.buttonIndices, (readIndex map report button).isSome := by
  have hall := foldlM_isSome_iff (g := fun (currentButtons : BitVec 8) (p : ℕ × ℕ) (value : Option ℤ) =>
    if value.getD 0 ≠ 0 then currentButtons ||| 1#8 <<< p.2 else currentButtons)
    (r := fun p : ℕ × ℕ => readIndex map report p.1) map.buttonIndices.zipIdx 0
  refine Iff.trans hall ⟨fun h button hbutton => ?_, fun h p hp => ?_⟩
  · obtain ⟨i, hi, rfl⟩ := List.mem_iff_getElem.mp hbutton
    exact h (map.buttonIndices[i], i) (List.mk_mem_zipIdx_iff_getElem?.mpr (List.getElem?_eq_getElem hi))
  · exact h p.1 (List.fst_mem_of_mem_zipIdx hp)

theorem process_isSome (hours : isPointerReport map report = true) :
    (hidProcessPointerReport map touch lastButtons report).isSome ↔
      ∀ index ∈ usedIndices map touch, (readIndex map report index).isSome := by
  unfold hidProcessPointerReport usedIndices
  rw [hours]
  cases touch with
  | true =>
    simp only [if_true, List.forall_mem_cons, List.not_mem_nil, false_imp_iff, implies_true, and_true]
    exact isSome_bind_and fun x => isSome_bind_and fun y => isSome_bind_and fun pressure => isSome_bind fun tip => rfl
  | false =>
    simp only [Bool.false_eq_true, if_false, List.forall_mem_append, List.forall_mem_map, List.forall_mem_cons,
      List.not_mem_nil, false_imp_iff, implies_true, and_true]
    refine Iff.trans ?_ (and_congr_left' readButtons_isSome)
    exact isSome_bind_and fun buttons => isSome_bind_and fun x => isSome_bind_and fun y => isSome_bind fun wheel => rfl

/-! The table of a descriptor. -/

structure Within (n : ℕ) (c : Candidate) : Prop where
  x : c.x < n
  y : c.y < n
  wheel : c.wheel < n
  tip : c.tip < n
  pressure : c.pressure < n
  buttons : ∀ button ∈ c.buttons, button < n

theorem noCandidate_within (n : ℕ) : Within n noCandidate := by
  have hneg : (-1 : ℤ) < n := by omega
  exact ⟨hneg, hneg, hneg, hneg, hneg, fun _ h => absurd h List.not_mem_nil⟩

theorem scanField_within {c : Candidate} {p : HidReportField × ℕ} (h : Within n c) (hp : p.2 < n) (reportId : ℕ) :
    Within n (scanField reportId c p) := by
  have hindex : ((p.2 : ℕ) : ℤ) < n := by omega
  unfold scanField
  dsimp only
  split
  · exact h
  · split
    · have haxis : Within n (if p.1.usage = 0x30 then { c with x := p.2 } else if p.1.usage = 0x31 then { c with y := p.2 }
          else if p.1.usage = 0x38 then { c with wheel := p.2 } else c) := by
        split
        · exact ⟨hindex, h.y, h.wheel, h.tip, h.pressure, h.buttons⟩
        · split
          · exact ⟨h.x, hindex, h.wheel, h.tip, h.pressure, h.buttons⟩
          · split
            · exact ⟨h.x, h.y, hindex, h.tip, h.pressure, h.buttons⟩
            · exact h
      split
      · exact ⟨haxis.x, haxis.y, haxis.wheel, haxis.tip, haxis.pressure, haxis.buttons⟩
      · exact haxis
    · split
      · split
        · refine ⟨h.x, h.y, h.wheel, h.tip, h.pressure, fun button hbutton => ?_⟩
          rcases List.mem_append.mp hbutton with hbutton | hbutton
          · exact h.buttons button hbutton
          · rw [List.mem_singleton.mp hbutton]
            exact hp
        · exact h
      · split
        · have htouch : Within n (if p.1.usage = 0x42 then { c with tip := p.2 } else if p.1.usage = 0x30 then
              { c with pressure := p.2 } else c) := by
            split
            · exact ⟨h.x, h.y, h.wheel, hindex, h.pressure, h.buttons⟩
            · split
              · exact ⟨h.x, h.y, h.wheel, h.tip, hindex, h.buttons⟩
              · exact h
          exact ⟨htouch.x, htouch.y, htouch.wheel, htouch.tip, htouch.pressure, htouch.buttons⟩
        · exact h

theorem scanFields_within (fields : List HidReportField) (reportId : ℕ) : Within fields.length (scanFields fields reportId) := by
  have hfold : ∀ (l : List (HidReportField × ℕ)) (c : Candidate), (∀ p ∈ l, p.2 < fields.length) → Within fields.length c →
      Within fields.length (l.foldl (scanField reportId) c) := by
    intro l
    induction l with
    | nil => exact fun c _ hc => hc
    | cons p l ih =>
      intro c hl hc
      exact ih _ (fun q hq => hl q (List.mem_cons_of_mem p hq)) (scanField_within hc (hl p List.mem_cons_self) reportId)
  exact hfold _ _ (fun p hp => (List.mem_zipIdx hp).2.1.trans_eq (Nat.zero_add _)) (noCandidate_within _)

theorem selectLoop_within (fields : List HidReportField) (ids : List ℕ) (best : ℕ × Candidate)
    (h : Within fields.length best.2) : Within fields.length (selectLoop fields ids best).2 := by
  induction ids generalizing best with
  | nil => exact h
  | cons reportId ids ih =>
    rw [selectLoop]
    split
    · exact ih best h
    · split
      · exact scanFields_within fields reportId
      · exact ih _ (scanFields_within fields reportId)

structure Parsed (desc : List UInt8) (map : HidReportMap) : Prop where
  laid : Laid (reportBase map.hasReportId) map.fields ↔ IdsFirst desc
  short : ∀ f ∈ map.fields, f.bitOffset + f.reportSize ≤ 2 ^ 16
  indices : ∀ touch, ∀ index ∈ usedIndices map touch, index < map.fields.length

theorem usedIndices_lt {c : Candidate} (h : Within map.fields.length c) (hx : map.xIndex = c.x) (hy : map.yIndex = c.y)
    (hwheel : map.wheelIndex = c.wheel) (htip : map.tipIndex = c.tip) (hpressure : map.pressureIndex = c.pressure)
    (hbuttons : map.buttonIndices = c.buttons) : ∀ index ∈ usedIndices map touch, index < map.fields.length := by
  have hbutton : ∀ button ∈ map.buttonIndices, Int.ofNat button < map.fields.length := fun button hmem =>
    Int.ofNat_lt.mpr (h.buttons button (hbuttons ▸ hmem))
  have htouch : touchIndex map < map.fields.length := by
    unfold touchIndex
    split
    · exact htip ▸ h.tip
    · cases hsome : map.buttonIndices with
      | nil => exact neg_one_lt_zero.trans_le (Int.natCast_nonneg _)
      | cons button rest => exact hbutton button (hsome ▸ List.mem_cons_self)
  intro index hindex
  unfold usedIndices at hindex
  split at hindex
  · simp only [List.mem_cons, List.not_mem_nil, or_false] at hindex
    rcases hindex with rfl | rfl | rfl | rfl
    · exact hx ▸ h.x
    · exact hy ▸ h.y
    · exact hpressure ▸ h.pressure
    · exact htouch
  · simp only [List.mem_append, List.mem_map, List.mem_cons, List.not_mem_nil, or_false] at hindex
    rcases hindex with ⟨button, hmem, rfl⟩ | rfl | rfl | rfl
    · exact hbutton button hmem
    · exact hx ▸ h.x
    · exact hy ▸ h.y
    · exact hwheel ▸ h.wheel

theorem hidSelectPointerReport_fields (s : HidParser) :
    (hidSelectPointerReport s).fields = s.fields ∧ (hidSelectPointerReport s).hasReportId = s.hasReportId ∧
      ∀ touch, ∀ index ∈ usedIndices (hidSelectPointerReport s) touch, index < s.fields.length := by
  have hwithin := selectLoop_within s.fields (List.range 256) (0, noCandidate) (noCandidate_within _)
  unfold hidSelectPointerReport
  dsimp only
  split
  · exact ⟨rfl, rfl, fun touch => usedIndices_lt hwithin rfl rfl rfl rfl rfl rfl⟩
  · exact ⟨rfl, rfl, fun touch => usedIndices_lt hwithin rfl rfl rfl rfl rfl rfl⟩

theorem hidParseReportDescriptor_parsed (desc : List UInt8) :
    ∃ result map, hidParseReportDescriptor desc = some (result, map) ∧ Parsed desc map := by
  have hempty : ∀ fields hasReportId, ∀ touch, ∀ index ∈ usedIndices (emptyMap fields hasReportId) touch,
      index < fields.length := fun fields hasReportId touch =>
    @usedIndices_lt (emptyMap fields hasReportId) _ _ (noCandidate_within _) rfl rfl rfl rfl rfl rfl
  unfold hidParseReportDescriptor
  split
  · rename_i hnil
    subst hnil
    refine ⟨.einval, _, rfl, iff_of_true (Laid.nil _) ?_, fun f hf => absurd hf List.not_mem_nil, hempty [] false⟩
    intro items hitems
    cases Option.some.inj hitems
    trivial
  · obtain ⟨items, hitems, hparse⟩ := hidItems_eq desc
    have hids : IdsFirst desc ↔ idsFirst 0 0 items :=
      ⟨fun h => h items hitems, fun h items' hitems' => Option.some.inj (hitems.symm.trans hitems') ▸ h⟩
    have hlaid := (runItems_laid initParser_bounded initParser_layout rfl items).trans hids.symm
    have hbounded := runItems_bounded initParser_bounded items
    rw [hparse initParser]
    generalize runItems initParser items = r at hlaid hbounded
    have hshort : ∀ f ∈ r.1.fields, f.bitOffset + f.reportSize ≤ 2 ^ 16 := fun f hf =>
      (hbounded.sizes f hf).2.trans (by decide)
    obtain ⟨hfields, hreport, hindices⟩ := hidSelectPointerReport_fields r.1
    have hmap : Parsed desc (hidSelectPointerReport r.1) :=
      ⟨by rw [hfields, hreport]; exact hlaid, by rw [hfields]; exact hshort, by rw [hfields]; exact hindices⟩
    simp only [Option.bind_eq_bind, Option.bind_some]
    split
    · exact ⟨.enomem, _, rfl, hlaid, hshort, hempty _ _⟩
    · split
      · exact ⟨.error, _, rfl, hmap⟩
      · exact ⟨.ok, _, rfl, hmap.laid, hmap.short, hmap.indices⟩

theorem decoded_iff {desc : List UInt8} (h : Parsed desc map) (touch : Bool) (lastButtons : BitVec 8) (report : List UInt8) :
    Decoded map touch lastButtons report ↔ Covers map touch report := by
  unfold Decoded Covers extracted
  split
  · rename_i hours
    rw [process_isSome hours]
    have hmem : ∀ f, f ∈ ((usedIndices map touch).filter (0 ≤ ·)).filterMap (fun index => map.fields[index.toNat]?) ↔
        ∃ index ∈ usedIndices map touch, 0 ≤ index ∧ map.fields[index.toNat]? = some f := by
      intro f
      simp only [List.mem_filterMap, List.mem_filter, decide_eq_true_eq, and_assoc]
    have hoff : ∀ (f : HidReportField) (index : ℕ), map.fields[index]? = some f → f.bitOffset + f.reportSize ≤ 2 ^ 16 := fun f _ hf =>
      h.short f (List.mem_of_getElem? hf)
    simp only [hmem]
    constructor
    · rintro ⟨hall, hvalues⟩ f ⟨index, hindex, hpos, hf⟩
      have hsome := (readIndex_isSome (h.indices touch index hindex)).mp (hall index hindex) f hpos hf
      have hvalue := hvalues f ⟨index, hindex, hpos, hf⟩
      have hin : Inside report f := by
        by_contra hout
        exact hidExtractField_outside hout hsome hvalue
      obtain ⟨value, hread, hfits⟩ := hidExtractField_inside hin (hoff f _ hf)
      exact ⟨hin, hfits.mp (hread.symm.trans hvalue)⟩
    · intro hcovers
      have hread : ∀ f, (∃ index ∈ usedIndices map touch, 0 ≤ index ∧ map.fields[index.toNat]? = some f) →
          (hidExtractField report f).isSome ∧ hidExtractField report f = fieldValue report f := by
        rintro f ⟨index, hindex, hpos, hf⟩
        obtain ⟨hin, hfit⟩ := hcovers f ⟨index, hindex, hpos, hf⟩
        obtain ⟨value, hread, hfits⟩ := hidExtractField_inside hin (hoff f _ hf)
        exact ⟨hread ▸ rfl, hread.trans (hfits.mpr hfit)⟩
      refine ⟨fun index hindex => (readIndex_isSome (h.indices touch index hindex)).mpr fun f hpos hf => ?_,
        fun f hf => (hread f hf).2⟩
      exact (hread f ⟨index, hindex, hpos, hf⟩).1
  · rename_i hother
    have hdone : hidProcessPointerReport map touch lastButtons report = some ([], lastButtons) := by
      unfold hidProcessPointerReport
      rw [Bool.eq_false_iff.mpr hother]
      rfl
    rw [hdone]
    exact iff_of_true ⟨rfl, fun f hf => absurd hf List.not_mem_nil⟩ fun f hf => absurd hf List.not_mem_nil

/-- The parser reads inside of its descriptor and comes to an end. Its offsets are right when no report id comes after a field
without one, and a report is decoded when it covers what is extracted from it. -/
theorem hid_decoded_iff (desc : List UInt8) :
    ∃ result map, hidParseReportDescriptor desc = some (result, map) ∧
      (Laid (reportBase map.hasReportId) map.fields ↔ IdsFirst desc) ∧
      ∀ touch lastButtons report, Decoded map touch lastButtons report ↔ Covers map touch report := by
  obtain ⟨result, map, hparse, hparsed⟩ := hidParseReportDescriptor_parsed desc
  exact ⟨result, map, hparse, hparsed.laid, decoded_iff hparsed⟩

end

end

/-- A mouse with three buttons and two axes of eight bits. -/
def mouseDescriptor : List UInt8 :=
  [0x05, 0x01, 0x09, 0x02, 0xa1, 0x01, 0x05, 0x09, 0x19, 0x01, 0x29, 0x03, 0x15, 0x00, 0x25, 0x01, 0x95, 0x03, 0x75, 0x01,
    0x81, 0x02, 0x95, 0x01, 0x75, 0x05, 0x81, 0x03, 0x05, 0x01, 0x09, 0x30, 0x09, 0x31, 0x15, 0x81, 0x25, 0x7f, 0x75, 0x08,
    0x95, 0x02, 0x81, 0x06, 0xc0]

/-- A report of one byte, whose axes are read from bytes that have not been received. -/
theorem short_report_read_outside : (hidParseReportDescriptor mouseDescriptor).any (fun p => p.1 = .ok ∧
    hidProcessPointerReport p.2 p.2.isAbsolute 0 [1] = none) := by decide +kernel

end RtSmart.Hid
