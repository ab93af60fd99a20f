import Mathlib.Tactic

/-!
The parser of HID report descriptors (`usbh_hid_report_parser.c`). A byte is read as `desc[i]?`: a parser that read outside of its
descriptor would come to `none`.
-/

namespace RtSmart.Hid

/-- `struct hid_report_field`, with its flags apart. -/
structure HidReportField where
  reportId : ℕ
  usagePage : ℕ
  usage : ℕ
  logicalMin : ℤ
  logicalMax : ℤ
  bitOffset : ℕ
  reportSize : ℕ
  constant : Bool
  relative : Bool
  signed : Bool
deriving DecidableEq

abbrev hidReportMaxFields : ℕ := 64

abbrev hidReportMaxButtons : ℕ := 8

/-- `struct hid_report_map`. The first `button_count` of `button_indices` are there. -/
structure HidReportMap where
  fields : List HidReportField
  reportBits : ℕ
  hasReportId : Bool
  reportId : ℕ
  pointerHasReportId : Bool
  pointerReportId : ℕ
  isAbsolute : Bool
  xIndex : ℤ
  yIndex : ℤ
  wheelIndex : ℤ
  tipIndex : ℤ
  pressureIndex : ℤ
  buttonIndices : List ℕ
deriving DecidableEq

/-- `struct hid_parser_global`. -/
structure HidParserGlobal where
  reportId : ℕ
  usagePage : ℕ
  logicalMin : ℤ
  logicalMax : ℤ
  reportSize : ℕ
  reportCount : ℕ

/-- The variables of `hid_parse_report_descriptor`. -/
structure HidParser where
  global : HidParserGlobal
  reportBitOffsets : ℕ → ℕ
  usages : List ℕ
  usageMin : ℕ
  usageMax : ℕ
  haveUsageRange : Bool
  hasReportId : Bool
  fields : List HidReportField

structure HidItem where
  type : ℕ
  tag : ℕ
  value : BitVec 32
  size : ℕ
deriving DecidableEq

def hidItemDataToS32 (value : BitVec 32) (size : ℕ) : ℤ :=
  if size = 1 then (value.setWidth 8).toInt else if size = 2 then (value.setWidth 16).toInt else value.toInt

/-! Items. -/

def itemSize (head : UInt8) : ℕ := if head.toNat % 4 = 3 then 4 else head.toNat % 4

def itemValue (desc : List UInt8) (index size : ℕ) : Option (BitVec 32) :=
  (List.range size).foldlM (fun value count => do
    let byte ← desc[index + count]?
    some (value ||| byte.toBitVec.setWidth 32 <<< (count * 8))) 0

/-- What the parser finds at `index`: the end, a long item, or a short one, with the index behind it. -/
inductive HidToken
  | done
  | long (index : ℕ)
  | short (item : HidItem) (index : ℕ)

def nextToken (desc : List UInt8) (index : ℕ) : Option HidToken :=
  if index < desc.length then do
    let head ← desc[index]?
    if head = 0xfe then
      if desc.length ≤ index + 2 then some .done
      else do
        let size ← desc[index + 1]?
        some (.long (index + 3 + size.toNat))
    else
      let size := itemSize head
      if desc.length < index + 1 + size then some .done
      else do
        let value ← itemValue desc (index + 1) size
        some (.short ⟨head.toNat / 4 % 4, head.toNat / 16, value, size⟩ (index + 1 + size))
  else some .done

/-! Their effect. -/

/-- The turn `count` of the loop over the fields of an input item; `none` is `-RT_ENOMEM`. -/
def addField (constant relative : Bool) (s : HidParser) (count : ℕ) : Option HidParser :=
  let usage :=
    if s.usages ≠ [] then (if count < s.usages.length then s.usages.getD count 0 else s.usages.getLastD 0)
    else if s.haveUsageRange ∧ s.usageMin ≤ s.usageMax then (s.usageMin + count) % 2 ^ 16
    else 0
  let bitOffset := s.reportBitOffsets s.global.reportId
  if hidReportMaxFields ≤ s.fields.length then none
  else some { s with
    fields := s.fields ++ [{
      reportId := s.global.reportId
      usagePage := s.global.usagePage
      usage := usage
      logicalMin := s.global.logicalMin
      logicalMax := s.global.logicalMax
      bitOffset := bitOffset
      reportSize := s.global.reportSize
      constant := constant
      relative := relative
      signed := s.global.logicalMin < 0 }]
    reportBitOffsets := Function.update s.reportBitOffsets s.global.reportId ((bitOffset + s.global.reportSize) % 2 ^ 16) }

/-- The fields `count`, `count + 1` and so on, and whether all of them found place. -/
def addFields (constant relative : Bool) : ℕ → ℕ → HidParser → HidParser × Bool
  | 0, _, s => (s, true)
  | n + 1, count, s =>
    match addField constant relative s count with
    | none => (s, false)
    | some s => addFields constant relative n (count + 1) s

def globalItem (s : HidParser) (item : HidItem) : HidParser :=
  let low := item.value.toNat % 2 ^ 8
  match item.tag with
  | 0 => { s with global := { s.global with usagePage := item.value.toNat % 2 ^ 16 } }
  | 1 => { s with global := { s.global with logicalMin := hidItemDataToS32 item.value item.size } }
  | 2 => { s with global := { s.global with logicalMax := hidItemDataToS32 item.value item.size } }
  | 7 => { s with global := { s.global with reportSize := low } }
  | 8 =>
    { s with
      hasReportId := true
      global := { s.global with reportId := low }
      reportBitOffsets := if s.reportBitOffsets low = 0 then Function.update s.reportBitOffsets low 8 else s.reportBitOffsets }
  | 9 => { s with global := { s.global with reportCount := low } }
  | _ => s

def localItem (s : HidParser) (item : HidItem) : HidParser :=
  let low := item.value.toNat % 2 ^ 16
  match item.tag with
  | 0 => if s.usages.length < hidReportMaxFields then { s with usages := s.usages ++ [low] } else s
  | 1 => { s with usageMin := low, haveUsageRange := true }
  | 2 => { s with usageMax := low, haveUsageRange := true }
  | _ => s

def mainItem (s : HidParser) (item : HidItem) : HidParser × Bool :=
  if item.tag = 10 then ({ s with usages := [], haveUsageRange := false }, true)
  else if item.tag = 8 then
    let r := addFields (item.value.getLsbD 0) (item.value.getLsbD 2) s.global.reportCount 0 s
    if r.2 then ({ r.1 with usages := [], haveUsageRange := false }, true) else r
  else (s, true)

def item (s : HidParser) (it : HidItem) : HidParser × Bool :=
  match it.type with
  | 0 => mainItem s it
  | 1 => (globalItem s it, true)
  | 2 => (localItem s it, true)
  | _ => (s, true)

/-- The loop of `hid_parse_report_descriptor`, which has `n` turns to come to an end; `false` is `-RT_ENOMEM`. -/
def parseLoop (desc : List UInt8) : ℕ → ℕ → HidParser → Option (HidParser × Bool)
  | 0, _, _ => none
  | n + 1, index, s => do
    match ← nextToken desc index with
    | .done => some (s, true)
    | .long index => parseLoop desc n index s
    | .short it index =>
      let r := item s it
      if r.2 then parseLoop desc n index r.1 else some r

/-! The choice of the pointer report. -/

/-- The indices that `hid_select_pointer_report` finds for one report id. -/
structure Candidate where
  x : ℤ
  y : ℤ
  wheel : ℤ
  tip : ℤ
  pressure : ℤ
  buttons : List ℕ
  isAbsolute : Bool

def noCandidate : Candidate := ⟨-1, -1, -1, -1, -1, [], false⟩

def scanField (reportId : ℕ) (c : Candidate) (p : HidReportField × ℕ) : Candidate :=
  let (field, index) := p
  if field.reportId ≠ reportId ∨ field.constant then c
  else if field.usagePage = 0x01 then
    let c := if field.usage = 0x30 then { c with x := index }
      else if field.usage = 0x31 then { c with y := index }
      else if field.usage = 0x38 then { c with wheel := index }
      else c
    if !field.relative then { c with isAbsolute := true } else c
  else if field.usagePage = 0x09 then
    if c.buttons.length < hidReportMaxButtons then { c with buttons := c.buttons ++ [index] } else c
  else if field.usagePage = 0x0d then
    let c := if field.usage = 0x42 then { c with tip := index }
      else if field.usage = 0x30 then { c with pressure := index }
      else c
    { c with isAbsolute := true }
  else c

def scanFields (fields : List HidReportField) (reportId : ℕ) : Candidate :=
  fields.zipIdx.foldl (scanField reportId) noCandidate

/-- The loop over the report ids; `best` is what was found before. -/
def selectLoop (fields : List HidReportField) : List ℕ → ℕ × Candidate → ℕ × Candidate
  | [], best => best
  | reportId :: ids, best =>
    let c := scanFields fields reportId
    if c.x < 0 ∨ c.y < 0 then selectLoop fields ids best
    else if 0 < c.buttons.length ∨ 0 ≤ c.wheel ∨ 0 ≤ c.tip then (reportId, c)
    else selectLoop fields ids (reportId, c)

def emptyMap (fields : List HidReportField) (hasReportId : Bool) : HidReportMap where
  fields := fields
  reportBits := 0
  hasReportId := hasReportId
  reportId := 0
  pointerHasReportId := false
  pointerReportId := 0
  isAbsolute := false
  xIndex := -1
  yIndex := -1
  wheelIndex := -1
  tipIndex := -1
  pressureIndex := -1
  buttonIndices := []

def hidSelectPointerReport (s : HidParser) : HidReportMap :=
  let best := selectLoop s.fields (List.range 256) (0, noCandidate)
  let map := { emptyMap s.fields s.hasReportId with
    xIndex := best.2.x
    yIndex := best.2.y
    wheelIndex := best.2.wheel
    tipIndex := best.2.tip
    pressureIndex := best.2.pressure
    buttonIndices := best.2.buttons
    isAbsolute := best.2.isAbsolute }
  if 0 ≤ best.2.x ∧ 0 ≤ best.2.y then
    { map with
      pointerHasReportId := best.1 ≠ 0
      pointerReportId := best.1
      reportBits := s.reportBitOffsets best.1 }
  else map

def initParser : HidParser where
  global := ⟨0, 0, 0, 0, 0, 0⟩
  reportBitOffsets := fun _ => 0
  usages := []
  usageMin := 0
  usageMax := 0
  haveUsageRange := false
  hasReportId := false
  fields := []

inductive ParseResult
  | ok
  | einval
  | enomem
  | error
deriving DecidableEq

/-- `hid_parse_report_descriptor`; no map is written with `-RT_EINVAL`. -/
def hidParseReportDescriptor (desc : List UInt8) : Option (ParseResult × HidReportMap) :=
  if desc = [] then some (.einval, emptyMap [] false)
  else do
    let r ← parseLoop desc (desc.length + 1) 0 initParser
    if !r.2 then some (.enomem, emptyMap r.1.fields r.1.hasReportId)
    else
      let map := hidSelectPointerReport r.1
      if map.xIndex < 0 ∨ map.yIndex < 0 then some (.error, map)
      else some (.ok, { map with reportId := map.pointerReportId })

/-! Reading. -/

section

variable {desc : List UInt8} {index size n : ℕ} {s : HidParser}

theorem foldlM_isSome {α β : Type*} {f : β → α → Option β} {l : List α} (h : ∀ b, ∀ a ∈ l, (f b a).isSome) (b : β) :
    (l.foldlM f b).isSome := by
  induction l generalizing b with
  | nil => rfl
  | cons a l ih =>
    obtain ⟨b', hb'⟩ := Option.isSome_iff_exists.mp (h b a List.mem_cons_self)
    rw [List.foldlM_cons, hb']
    exact ih (fun b a ha => h b a (List.mem_cons_of_mem _ ha)) b'

theorem itemValue_isSome (h : index + size ≤ desc.length) : (itemValue desc index size).isSome := by
  apply foldlM_isSome
  intro value count hcount
  have hlt : index + count < desc.length := by
    have := List.mem_range.mp hcount
    omega
  rw [List.getElem?_eq_getElem hlt]
  rfl

theorem nextToken_cases (desc : List UInt8) (index : ℕ) :
    nextToken desc index = some .done ∨
      index < desc.length ∧ ∃ next, index < next ∧
        (nextToken desc index = some (.long next) ∨ ∃ it, nextToken desc index = some (.short it next)) := by
  unfold nextToken
  by_cases hlt : index < desc.length
  swap
  · rw [if_neg hlt]
    exact .inl rfl
  rw [if_pos hlt, List.getElem?_eq_getElem hlt]
  simp only [Option.bind_eq_bind, Option.bind_some]
  by_cases hlong : desc[index] = 0xfe
  · rw [if_pos hlong]
    by_cases hend : desc.length ≤ index + 2
    · rw [if_pos hend]
      exact .inl rfl
    · have hsize : index + 1 < desc.length := by omega
      rw [if_neg hend, List.getElem?_eq_getElem hsize]
      exact .inr ⟨hlt, _, by omega, .inl rfl⟩
  · rw [if_neg hlong]
    by_cases hend : desc.length < index + 1 + itemSize desc[index]
    · rw [if_pos hend]
      exact .inl rfl
    · obtain ⟨value, hvalue⟩ := Option.isSome_iff_exists.mp (itemValue_isSome (Nat.le_of_not_lt hend))
      rw [if_neg hend, hvalue]
      exact .inr ⟨hlt, _, by omega, .inr ⟨_, rfl⟩⟩

def itemsLoop (desc : List UInt8) : ℕ → ℕ → Option (List HidItem)
  | 0, _ => none
  | n + 1, index => do
    match ← nextToken desc index with
    | .done => some []
    | .long index => itemsLoop desc n index
    | .short it index => (itemsLoop desc n index).map (it :: ·)

def hidItems (desc : List UInt8) : Option (List HidItem) := itemsLoop desc (desc.length + 1) 0

def runItems : HidParser → List HidItem → HidParser × Bool
  | s, [] => (s, true)
  | s, it :: items =>
    let r := item s it
    if r.2 then runItems r.1 items else r

theorem parseLoop_eq (h : desc.length - index < n) :
    ∃ items, itemsLoop desc n index = some items ∧ ∀ s, parseLoop desc n index s = some (runItems s items) := by
  induction n generalizing index with
  | zero => exact absurd h (Nat.not_lt_zero _)
  | succ n ih =>
    rcases nextToken_cases desc index with hdone | ⟨hlt, next, hnext, htoken⟩
    · refine ⟨[], ?_, fun s => ?_⟩
      · rw [itemsLoop, hdone]
        rfl
      · rw [parseLoop, hdone]
        rfl
    · obtain ⟨items, hitems, hparse⟩ := @ih next (by omega)
      rcases htoken with hlong | ⟨it, hshort⟩
      · refine ⟨items, ?_, fun s => ?_⟩
        · rw [itemsLoop, hlong]
          exact hitems
        · rw [parseLoop, hlong]
          exact hparse s
      · refine ⟨it :: items, ?_, fun s => ?_⟩
        · rw [itemsLoop, hshort]
          simp only [Option.bind_eq_bind, Option.bind_some, hitems, Option.map_some]
        · rw [parseLoop, hshort, runItems]
          simp only [Option.bind_eq_bind, Option.bind_some, hparse]
          split <;> rfl

theorem hidItems_eq (desc : List UInt8) :
    ∃ items, hidItems desc = some items ∧
      ∀ s, parseLoop desc (desc.length + 1) 0 s = some (runItems s items) :=
  parseLoop_eq (Nat.lt_succ_of_le (Nat.sub_le _ _))

end

end RtSmart.Hid
