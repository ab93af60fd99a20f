import RtSmart.Usb.HidParser

/-! Where the parser puts the fields of a report. -/

namespace RtSmart.Hid

def sizesOf (fields : List HidReportField) (reportId : ℕ) : ℕ :=
  ((fields.filter (·.reportId = reportId)).map HidReportField.reportSize).sum

/-- Every field lies behind the fields of its report that come before it. -/
def Laid (base : ℕ) (fields : List HidReportField) : Prop :=
  ∀ before f after, fields = before ++ f :: after → f.bitOffset = base + sizesOf before f.reportId

def isReportId (it : HidItem) : Prop := it.type = 1 ∧ it.tag = 8

def isInput (it : HidItem) : Prop := it.type = 0 ∧ it.tag = 8

def isCount (it : HidItem) : Prop := it.type = 1 ∧ it.tag = 9

instance (it : HidItem) : Decidable (isReportId it) := inferInstanceAs (Decidable (_ ∧ _))

instance (it : HidItem) : Decidable (isInput it) := inferInstanceAs (Decidable (_ ∧ _))

instance (it : HidItem) : Decidable (isCount it) := inferInstanceAs (Decidable (_ ∧ _))

def countAfter (count : ℕ) (it : HidItem) : ℕ := if isCount it then it.value.toNat % 2 ^ 8 else count

/-- A Report ID item does not come after a field when it is the first one. The count is the one in force, and `n`
fields have been declared. -/
def idsFirst : ℕ → ℕ → List HidItem → Prop
  | _, _, [] => True
  | count, n, it :: items =>
    if isReportId it then n = 0
    else if isInput it then n + count ≤ hidReportMaxFields → idsFirst count (n + count) items
    else idsFirst (countAfter count it) n items

/-- The descriptor does not mix fields without a report id with report ids. -/
def IdsFirst (desc : List UInt8) : Prop := ∀ items, hidItems desc = some items → idsFirst 0 0 items

section

variable {base n count : ℕ} {fields : List HidReportField} {f : HidReportField} {s : HidParser} {it : HidItem}
  {items : List HidItem}

theorem sizesOf_append (fields : List HidReportField) (f : HidReportField) (reportId : ℕ) :
    sizesOf (fields ++ [f]) reportId = sizesOf fields reportId + if f.reportId = reportId then f.reportSize else 0 := by
  unfold sizesOf
  by_cases h : f.reportId = reportId
  · simp [h]
  · simp [h]

theorem Laid.nil (base : ℕ) : Laid base [] := by
  intro before f after h
  simp at h

theorem Laid.snoc (h : Laid base fields) (hf : f.bitOffset = base + sizesOf fields f.reportId) : Laid base (fields ++ [f]) := by
  intro before g after hsplit
  rcases List.eq_nil_or_concat after with rfl | ⟨after', last, rfl⟩
  · obtain ⟨rfl, hlast⟩ := List.append_inj' hsplit rfl
    cases hlast
    exact hf
  · rw [List.concat_eq_append, ← List.cons_append, ← List.append_assoc] at hsplit
    obtain ⟨hfields, -⟩ := List.append_inj' hsplit rfl
    exact h before g after' hfields

/-- What holds of every table. -/
structure Bounded (s : HidParser) : Prop where
  sizes : ∀ f ∈ s.fields, f.reportSize < 2 ^ 8 ∧ f.bitOffset + f.reportSize ≤ 8 + 255 * hidReportMaxFields
  size : s.global.reportSize < 2 ^ 8
  length : s.fields.length ≤ hidReportMaxFields
  offsets : ∀ reportId, s.reportBitOffsets reportId ≤ 8 + 255 * s.fields.length

/-- The offsets are the ends of the reports, which begin at `base`. -/
structure Layout (base : ℕ) (s : HidParser) : Prop where
  laid : Laid base s.fields
  current : s.reportBitOffsets s.global.reportId = base + sizesOf s.fields s.global.reportId
  ends : ∀ reportId, s.reportBitOffsets reportId = base + sizesOf s.fields reportId ∨
    s.reportBitOffsets reportId = 0 ∧ sizesOf s.fields reportId = 0

/-! One field. -/

theorem addField_none {constant relative : Bool} :
    addField constant relative s count = none ↔ hidReportMaxFields ≤ s.fields.length := by
  unfold addField
  dsimp only
  split <;> simp_all

theorem addField_some (hs : Bounded s) {constant relative : Bool} {s' : HidParser}
    (he : addField constant relative s count = some s') :
    Bounded s' ∧ s'.hasReportId = s.hasReportId ∧ s'.global = s.global ∧
      (∃ f, s'.fields = s.fields ++ [f] ∧ f.reportId = s.global.reportId ∧ f.reportSize = s.global.reportSize ∧
        f.bitOffset = s.reportBitOffsets s.global.reportId) ∧
      s'.reportBitOffsets = Function.update s.reportBitOffsets s.global.reportId
        (s.reportBitOffsets s.global.reportId + s.global.reportSize) := by
  unfold addField at he
  dsimp only at he
  split at he
  · cases he
  rename_i hroom
  cases Option.some.inj he
  have hoffset := hs.offsets s.global.reportId
  have hsize := hs.size
  have hlength := hs.length
  have hmax : hidReportMaxFields = 64 := rfl
  have hmod : (s.reportBitOffsets s.global.reportId + s.global.reportSize) % 2 ^ 16 =
      s.reportBitOffsets s.global.reportId + s.global.reportSize := Nat.mod_eq_of_lt (by omega)
  refine ⟨⟨?_, hsize, ?_, ?_⟩, rfl, rfl, ⟨_, rfl, rfl, rfl, rfl⟩, by rw [hmod]⟩
  · intro f hf
    rcases List.mem_append.mp hf with hf | hf
    · exact hs.sizes f hf
    · rw [List.mem_singleton.mp hf]
      dsimp only
      omega
  · simp only [List.length_append, List.length_singleton]
    omega
  · intro reportId
    simp only [List.length_append, List.length_singleton]
    by_cases hid : reportId = s.global.reportId
    · rw [hid, Function.update_self, hmod]
      omega
    · rw [Function.update_of_ne hid]
      have := hs.offsets reportId
      omega

theorem Layout.addField (h : Layout base s) (hs : Bounded s) {constant relative : Bool} {s' : HidParser}
    (he : Hid.addField constant relative s count = some s') : Layout base s' := by
  obtain ⟨-, -, hglobal, ⟨f, hfields, hid, hsize, hoffset⟩, hoffsets⟩ := addField_some hs he
  have hlast := hoffset.trans h.current
  have hcurrent : s'.reportBitOffsets s.global.reportId = base + sizesOf s'.fields s.global.reportId := by
    rw [hoffsets, Function.update_self, h.current, hfields, sizesOf_append, if_pos hid, hsize, Nat.add_assoc]
  refine ⟨?_, ?_, fun reportId => ?_⟩
  · rw [hfields]
    exact h.laid.snoc (hid ▸ hlast)
  · rw [hglobal]
    exact hcurrent
  · by_cases hother : reportId = s.global.reportId
    · exact .inl (hother ▸ hcurrent)
    · have hne : f.reportId ≠ reportId := fun heq => hother (heq.symm.trans hid)
      rw [hoffsets, Function.update_of_ne hother, hfields, sizesOf_append, if_neg hne]
      exact h.ends reportId

/-! The fields of an item. -/

structure Adds (n : ℕ) (s : HidParser) (r : HidParser × Bool) : Prop where
  bounded : Bounded r.1
  ids : r.1.hasReportId = s.hasReportId
  global : r.1.global = s.global
  keeps : s.fields <+: r.1.fields
  fits : r.2 = true ↔ s.fields.length + n ≤ hidReportMaxFields
  adds : r.2 = true → r.1.fields.length = s.fields.length + n
  layout : ∀ base, Layout base s → Layout base r.1

theorem addFields_adds (hs : Bounded s) (constant relative : Bool) (n count : ℕ) :
    Adds n s (addFields constant relative n count s) := by
  induction n generalizing s count with
  | zero => exact ⟨hs, rfl, rfl, List.prefix_refl _, iff_of_true rfl hs.length, fun _ => rfl, fun _ h => h⟩
  | succ n ih =>
    cases hadd : addField constant relative s count with
    | none =>
      have hfull := addField_none.mp hadd
      rw [addFields, hadd]
      exact ⟨hs, rfl, rfl, List.prefix_refl _, iff_of_false Bool.false_ne_true (by omega),
        fun hno => absurd hno Bool.false_ne_true, fun _ h => h⟩
    | some s' =>
      obtain ⟨hs', hids, hglobal, ⟨f, hfields, -⟩, -⟩ := addField_some hs hadd
      have hrest := ih hs' (count + 1)
      have hlength : s'.fields.length = s.fields.length + 1 := by rw [hfields, List.length_append, List.length_singleton]
      rw [addFields, hadd]
      refine ⟨hrest.bounded, hrest.ids.trans hids, hrest.global.trans hglobal,
        (hfields ▸ List.prefix_append _ _ : s.fields <+: s'.fields).trans hrest.keeps, hrest.fits.trans ?_, fun hok => ?_,
        fun base h => hrest.layout base (h.addField hs hadd)⟩
      · rw [hlength, Nat.add_right_comm, Nat.add_assoc]
      · exact (hrest.adds hok).trans (by omega)

/-! Items. -/

/-- The states agree in all that an offset depends on, but for the size of the next fields. -/
structure Alike (s s' : HidParser) : Prop where
  fields : s'.fields = s.fields
  offsets : s'.reportBitOffsets = s.reportBitOffsets
  ids : s'.hasReportId = s.hasReportId
  id : s'.global.reportId = s.global.reportId
  size : s'.global.reportSize = s.global.reportSize ∨ s'.global.reportSize < 2 ^ 8

theorem Alike.bounded {s' : HidParser} (h : Alike s s') (hs : Bounded s) : Bounded s' where
  sizes := h.fields ▸ hs.sizes
  size := by
    rcases h.size with hsize | hsize
    · exact hsize ▸ hs.size
    · exact hsize
  length := h.fields ▸ hs.length
  offsets := by
    rw [h.fields, h.offsets]
    exact hs.offsets

theorem Alike.layout {s' : HidParser} (h : Alike s s') (hs : Layout base s) : Layout base s' where
  laid := h.fields ▸ hs.laid
  current := by
    rw [h.fields, h.offsets, h.id]
    exact hs.current
  ends := by
    rw [h.fields, h.offsets]
    exact hs.ends

def withReportId (s : HidParser) (reportId : ℕ) : HidParser :=
  { s with
    hasReportId := true
    global := { s.global with reportId := reportId }
    reportBitOffsets := if s.reportBitOffsets reportId = 0 then Function.update s.reportBitOffsets reportId 8 else s.reportBitOffsets }

theorem item_cases (s : HidParser) (it : HidItem) :
    (isReportId it ∧ item s it = (withReportId s (it.value.toNat % 2 ^ 8), true)) ∨
      (isInput it ∧ ∃ constant relative, (item s it).2 = (addFields constant relative s.global.reportCount 0 s).2 ∧
        Alike (addFields constant relative s.global.reportCount 0 s).1 (item s it).1 ∧
        (item s it).1.global.reportCount = (addFields constant relative s.global.reportCount 0 s).1.global.reportCount) ∨
      (¬ isReportId it ∧ ¬ isInput it ∧ (item s it).2 = true ∧ Alike s (item s it).1 ∧
        (item s it).1.global.reportCount = countAfter s.global.reportCount it) := by
  unfold item
  split
  · rename_i htype
    have hid : ¬ isReportId it := fun hno => by
      have := hno.1
      omega
    have hcount : countAfter s.global.reportCount it = s.global.reportCount := if_neg fun hno => by
      have := hno.1
      omega
    unfold mainItem
    split
    · rename_i htag
      have hinput : ¬ isInput it := fun hno => by
        have := hno.2
        omega
      exact .inr (.inr ⟨hid, hinput, rfl, ⟨rfl, rfl, rfl, rfl, .inl rfl⟩, hcount.symm⟩)
    · split
      · rename_i htag
        refine .inr (.inl ⟨⟨htype, htag⟩, it.value.getLsbD 0, it.value.getLsbD 2, ?_⟩)
        dsimp only
        split
        · rename_i hok
          exact ⟨hok.symm, ⟨rfl, rfl, rfl, rfl, .inl rfl⟩, rfl⟩
        · exact ⟨rfl, ⟨rfl, rfl, rfl, rfl, .inl rfl⟩, rfl⟩
      · rename_i htag
        exact .inr (.inr ⟨hid, fun hyes => htag hyes.2, rfl, ⟨rfl, rfl, rfl, rfl, .inl rfl⟩, hcount.symm⟩)
  · rename_i htype
    have hinput : ¬ isInput it := fun hno => by
      have := hno.1
      omega
    have hother : ∀ tag, it.tag = tag → tag ≠ 8 → tag ≠ 9 →
        ¬ isReportId it ∧ countAfter s.global.reportCount it = s.global.reportCount := fun tag htag h8 h9 =>
      ⟨fun hyes => h8 (htag.symm.trans hyes.2), if_neg fun hyes => h9 (htag.symm.trans hyes.2)⟩
    unfold globalItem
    dsimp only
    split
    · rename_i htag
      obtain ⟨hid, hcount⟩ := hother 0 htag (by decide) (by decide)
      exact .inr (.inr ⟨hid, hinput, rfl, ⟨rfl, rfl, rfl, rfl, .inl rfl⟩, hcount.symm⟩)
    · rename_i htag
      obtain ⟨hid, hcount⟩ := hother 1 htag (by decide) (by decide)
      exact .inr (.inr ⟨hid, hinput, rfl, ⟨rfl, rfl, rfl, rfl, .inl rfl⟩, hcount.symm⟩)
    · rename_i htag
      obtain ⟨hid, hcount⟩ := hother 2 htag (by decide) (by decide)
      exact .inr (.inr ⟨hid, hinput, rfl, ⟨rfl, rfl, rfl, rfl, .inl rfl⟩, hcount.symm⟩)
    · rename_i htag
      obtain ⟨hid, hcount⟩ := hother 7 htag (by decide) (by decide)
      exact .inr (.inr ⟨hid, hinput, rfl, ⟨rfl, rfl, rfl, rfl, .inr (Nat.mod_lt _ (Nat.two_pow_pos 8))⟩, hcount.symm⟩)
    · rename_i htag
      exact .inl ⟨⟨htype, htag⟩, rfl⟩
    · rename_i htag
      have hid : ¬ isReportId it := fun hyes => by
        have := hyes.2
        omega
      exact .inr (.inr ⟨hid, hinput, rfl, ⟨rfl, rfl, rfl, rfl, .inl rfl⟩, (if_pos ⟨htype, htag⟩).symm⟩)
    · rename_i htag8 htag9
      exact .inr (.inr ⟨fun hyes => htag8 hyes.2, hinput, rfl, ⟨rfl, rfl, rfl, rfl, .inl rfl⟩,
        (if_neg fun hyes => htag9 hyes.2).symm⟩)
  · rename_i htype
    have hid : ¬ isReportId it := fun hno => by
      have := hno.1
      omega
    have hinput : ¬ isInput it := fun hno => by
      have := hno.1
      omega
    have hcount : countAfter s.global.reportCount it = s.global.reportCount := if_neg fun hno => by
      have := hno.1
      omega
    refine .inr (.inr ⟨hid, hinput, rfl, ?_⟩)
    rw [hcount]
    unfold localItem
    dsimp only
    split
    · split
      · exact ⟨⟨rfl, rfl, rfl, rfl, .inl rfl⟩, rfl⟩
      · exact ⟨⟨rfl, rfl, rfl, rfl, .inl rfl⟩, rfl⟩
    · exact ⟨⟨rfl, rfl, rfl, rfl, .inl rfl⟩, rfl⟩
    · exact ⟨⟨rfl, rfl, rfl, rfl, .inl rfl⟩, rfl⟩
    · exact ⟨⟨rfl, rfl, rfl, rfl, .inl rfl⟩, rfl⟩
  · rename_i hmain hglobal _
    exact .inr (.inr ⟨fun hyes => hglobal hyes.1, fun hyes => hmain hyes.1, rfl, ⟨rfl, rfl, rfl, rfl, .inl rfl⟩,
      (if_neg fun hyes => hglobal hyes.1).symm⟩)

theorem withReportId_bounded (hs : Bounded s) (reportId : ℕ) : Bounded (withReportId s reportId) where
  sizes := hs.sizes
  size := hs.size
  length := hs.length
  offsets := by
    intro other
    have hother := hs.offsets other
    unfold withReportId
    dsimp only
    split
    · rcases eq_or_ne other reportId with rfl | hne
      · rw [Function.update_self]
        omega
      · rw [Function.update_of_ne hne]
        exact hother
    · exact hother

theorem withReportId_layout (h : Layout base s) (hbase : base = 8 ∨ s.fields = [] ∧ base = 0) (reportId : ℕ) :
    Layout 8 (withReportId s reportId) := by
  have hlaid : Laid 8 s.fields := by
    rcases hbase with rfl | ⟨hnil, -⟩
    · exact h.laid
    · exact hnil ▸ Laid.nil 8
  have hends : ∀ other, s.reportBitOffsets other = 8 + sizesOf s.fields other ∨
      s.reportBitOffsets other = 0 ∧ sizesOf s.fields other = 0 := by
    intro other
    rcases hbase with rfl | ⟨hnil, rfl⟩
    · exact h.ends other
    · have hsizes : sizesOf s.fields other = 0 := hnil ▸ rfl
      have := h.ends other
      omega
  have hcurrent : (withReportId s reportId).reportBitOffsets reportId = 8 + sizesOf s.fields reportId := by
    have := hends reportId
    unfold withReportId
    dsimp only
    split
    · rw [Function.update_self]
      omega
    · omega
  refine ⟨hlaid, hcurrent, fun other => ?_⟩
  rcases eq_or_ne other reportId with rfl | hne
  · exact .inl hcurrent
  · have hsame : (withReportId s reportId).reportBitOffsets other = s.reportBitOffsets other := by
      unfold withReportId
      dsimp only
      split
      · exact Function.update_of_ne hne _ _
      · rfl
    rw [hsame]
    exact hends other

theorem item_bounded (hs : Bounded s) (it : HidItem) : Bounded (item s it).1 := by
  rcases item_cases s it with ⟨-, heq⟩ | ⟨-, constant, relative, -, halike, -⟩ | ⟨-, -, -, halike, -⟩
  · rw [heq]
    exact withReportId_bounded hs _
  · exact halike.bounded (addFields_adds hs constant relative _ 0).bounded
  · exact halike.bounded hs

theorem item_keeps (hs : Bounded s) (it : HidItem) :
    s.fields <+: (item s it).1.fields ∧ (s.hasReportId = true → (item s it).1.hasReportId = true) := by
  rcases item_cases s it with ⟨-, heq⟩ | ⟨-, constant, relative, -, halike, -⟩ | ⟨-, -, -, halike, -⟩
  · rw [heq]
    exact ⟨List.prefix_refl _, fun _ => rfl⟩
  · have hadds := addFields_adds hs constant relative s.global.reportCount 0
    exact ⟨halike.fields ▸ hadds.keeps, fun hyes => (halike.ids.trans hadds.ids).trans hyes⟩
  · exact ⟨halike.fields ▸ List.prefix_refl _, fun hyes => halike.ids.trans hyes⟩

theorem item_layout (hs : Bounded s) (h : Layout 8 s) (it : HidItem) : Layout 8 (item s it).1 := by
  rcases item_cases s it with ⟨-, heq⟩ | ⟨-, constant, relative, -, halike, -⟩ | ⟨-, -, -, halike, -⟩
  · rw [heq]
    exact withReportId_layout h (.inl rfl) _
  · exact halike.layout ((addFields_adds hs constant relative _ 0).layout 8 h)
  · exact halike.layout h

/-! Runs over items. -/

theorem runItems_bounded (hs : Bounded s) (items : List HidItem) : Bounded (runItems s items).1 := by
  induction items generalizing s with
  | nil => exact hs
  | cons it items ih =>
    rw [runItems]
    split
    · exact ih (item_bounded hs it)
    · exact item_bounded hs it

theorem runItems_keeps (hs : Bounded s) (items : List HidItem) :
    s.fields <+: (runItems s items).1.fields ∧ (s.hasReportId = true → (runItems s items).1.hasReportId = true) := by
  induction items generalizing s with
  | nil => exact ⟨List.prefix_refl _, id⟩
  | cons it items ih =>
    have hit := item_keeps hs it
    rw [runItems]
    split
    · have hrest := ih (item_bounded hs it)
      exact ⟨hit.1.trans hrest.1, hrest.2 ∘ hit.2⟩
    · exact hit

theorem runItems_layout (hs : Bounded s) (h : Layout 8 s) (items : List HidItem) : Layout 8 (runItems s items).1 := by
  induction items generalizing s with
  | nil => exact h
  | cons it items ih =>
    rw [runItems]
    split
    · exact ih (item_bounded hs it) (item_layout hs h it)
    · exact item_layout hs h it

/-- The offset at which a report begins. -/
def reportBase (hasReportId : Bool) : ℕ := if hasReportId then 8 else 0

theorem not_laid_of_first (hf : f.bitOffset = 0) {rest : List HidReportField} (hfields : f :: rest <+: fields) :
    ¬ Laid 8 fields := by
  intro h
  obtain ⟨after, rfl⟩ := hfields
  have := h [] f (rest ++ after) rfl
  omega

theorem runItems_laid (hs : Bounded s) (h : Layout 0 s) (hno : s.hasReportId = false) (items : List HidItem) :
    Laid (reportBase (runItems s items).1.hasReportId) (runItems s items).1.fields ↔
      idsFirst s.global.reportCount s.fields.length items := by
  induction items generalizing s with
  | nil =>
    refine iff_of_true ?_ trivial
    rw [runItems, hno]
    exact h.laid
  | cons it items ih =>
    have hbounded := item_bounded hs it
    rw [runItems, idsFirst]
    rcases item_cases s it with ⟨hid, heq⟩ | ⟨hinput, constant, relative, hok, halike, hcount⟩ | ⟨hid, hinput, hok, halike, hcount⟩
    · rw [if_pos hid]
      have hyes : (item s it).1.hasReportId = true := by
        rw [heq]
        rfl
      have hfields : (item s it).1.fields = s.fields := by
        rw [heq]
        rfl
      have hgo : (item s it).2 = true := by rw [heq]
      rw [if_pos hgo, (runItems_keeps hbounded items).2 hyes]
      cases hsome : s.fields with
      | nil =>
        refine iff_of_true ?_ rfl
        have hlayout : Layout 8 (item s it).1 := by
          rw [heq]
          exact withReportId_layout h (.inr ⟨hsome, rfl⟩) _
        exact (runItems_layout hbounded hlayout items).laid
      | cons f rest =>
        refine iff_of_false ?_ (Nat.succ_ne_zero _)
        have hzero : f.bitOffset = 0 := h.laid [] f rest hsome
        have hkeeps := (runItems_keeps hbounded items).1
        rw [hfields, hsome] at hkeeps
        exact not_laid_of_first hzero hkeeps
    · have hid : ¬ isReportId it := fun hyes => by
        have htype := hinput.1
        have := hyes.1
        omega
      have hadds := addFields_adds hs constant relative s.global.reportCount 0
      have hlayout := halike.layout (hadds.layout 0 h)
      have hids := (halike.ids.trans hadds.ids).trans hno
      rw [if_neg hid, if_pos hinput]
      by_cases hroom : s.fields.length + s.global.reportCount ≤ hidReportMaxFields
      · have hall := hadds.fits.mpr hroom
        have hsame : (item s it).1.global.reportCount = s.global.reportCount :=
          hcount.trans (congrArg HidParserGlobal.reportCount hadds.global)
        have hlength : (item s it).1.fields.length = s.fields.length + s.global.reportCount := by
          rw [halike.fields]
          exact hadds.adds hall
        have hrest := ih hbounded hlayout hids
        rw [hsame, hlength] at hrest
        rw [if_pos (hok.trans hall)]
        exact hrest.trans ⟨fun hrest _ => hrest, fun hrest => hrest hroom⟩
      · have hall : ¬ (item s it).2 = true := fun hyes => hroom (hadds.fits.mp (hok.symm.trans hyes))
        rw [if_neg hall, hids]
        exact iff_of_true hlayout.laid fun hyes => absurd hyes hroom
    · rw [if_neg hid, if_neg hinput]
      rw [if_pos hok]
      have hrest := ih hbounded (halike.layout h) (halike.ids.trans hno)
      rw [hcount, halike.fields] at hrest
      exact hrest

theorem initParser_bounded : Bounded initParser where
  sizes := fun _ hf => absurd hf List.not_mem_nil
  size := Nat.two_pow_pos 8
  length := Nat.zero_le _
  offsets := fun _ => Nat.zero_le _

theorem initParser_layout : Layout 0 initParser where
  laid := Laid.nil 0
  current := rfl
  ends := fun _ => .inl rfl

end

end RtSmart.Hid
