import RtSmart.Drivers.Regulator

namespace RtSmart

namespace RegState

def level (r : RegState) (hw : RegHw) : ℕ :=
  match r with
  | .tps6286x bus addr => hw.cells (.chip bus addr) % 256
  | .gpio data => match data.selectPin with
    | some p => if hw.cells (.pin p) ≠ 0 then 1 else 0
    | none => 0
  | .iobank _ _ | .unset => 0

def isSource : RegState → Bool
  | .tps6286x _ _ | .gpio _ => true
  | .iobank _ _ | .unset => false

theorem level_congr {r : RegState} {hw hw' : RegHw} (h : ∀ c, r.cell = some c → hw.cells c = hw'.cells c) :
    r.level hw = r.level hw' := by
  cases r with
  | tps6286x bus addr => simp [level, h _ rfl]
  | gpio data =>
    cases hp : data.selectPin with
    | none => simp [level, hp]
    | some p => simp [level, hp, h (.pin p) (by simp [cell, hp])]
  | iobank => rfl
  | unset => rfl

end RegState

namespace RegSys

def outputFrom : ℕ → List RegDev → RegHw → ℕ → Option ℤ
  | 0, _, _, _ => none
  | n + 1, devs, hw, i =>
    match devs[i]? with
    | none => none
    | some r =>
      match r.state with
      | .unset | .iobank _ none => none
      | .iobank _ (some a) => outputFrom n devs hw a
      | st => some (st.uv (st.level hw))

def output (devs : List RegDev) (hw : RegHw) (i : ℕ) : Option ℤ :=
  outputFrom (i + 1) devs hw i

/-- The bank and the supply of a usable bank rail. -/
def bankRail (devs : List RegDev) (i : ℕ) : Option (Fin 6 × Option ℕ) :=
  match devs[i]? with
  | some r =>
    match r.state with
    | .iobank bank supply => if r.error = rtEok then some (bank, supply) else none
    | _ => none
  | none => none

def cellOf (devs : List RegDev) (i : ℕ) : Option RegCell :=
  devs[i]?.bind fun r => r.state.cell

/-- No pad in 1.8 V mode sees 3.3 V. -/
def PadsSafe (devs : List RegDev) (hw : RegHw) : Prop :=
  ∀ i bank a, bankRail devs i = some (bank, some a) → ∀ pad ∈ iobankPads bank,
    hw.pads pad = true → output devs hw a ≠ some uv3v3

/-- The pads and the supply of every bank are in the same mode. -/
def Agree (devs : List RegDev) (hw : RegHw) : Prop :=
  ∀ i bank a, bankRail devs i = some (bank, some a) → ∀ pad ∈ iobankPads bank,
    output devs hw a = some (if hw.pads pad then uv1v8 else uv3v3)

/-- The bank rail shares neither its pads nor the output register of its supply with another bank rail. -/
def Alone (devs : List RegDev) (i : ℕ) : Prop :=
  ∀ bank supply, bankRail devs i = some (bank, supply) →
    ∀ j ≠ i, ∀ bank' supply', bankRail devs j = some (bank', supply') →
      (supply.isSome ∨ supply'.isSome → bank ≠ bank') ∧
      ∀ c, supply.bind (cellOf devs) = some c → supply'.bind (cellOf devs) ≠ some c

theorem bankRail_eq {devs : List RegDev} {i : ℕ} {bank : Fin 6} {supply : Option ℕ} :
    bankRail devs i = some (bank, supply) ↔
      ∃ r, devs[i]? = some r ∧ r.error = rtEok ∧ r.state = .iobank bank supply := by
  unfold bankRail
  cases hr : devs[i]? with
  | none => simp
  | some r =>
    cases hs : r.state with
    | iobank b a =>
      by_cases he : r.error = rtEok
      · simp [hs, he]
      · simp [hs, he]
    | unset => simp [hs]
    | tps6286x => simp [hs]
    | gpio => simp [hs]

theorem output_source {devs : List RegDev} {hw : RegHw} {a : ℕ} {r : RegDev} (hr : devs[a]? = some r)
    (hsrc : r.state.isSource = true) : output devs hw a = some (r.state.uv (r.state.level hw)) := by
  unfold output outputFrom
  rw [hr]
  cases hs : r.state with
  | tps6286x bus addr => simp only [hs]
  | gpio data => simp only [hs]
  | iobank b a => simp [hs, RegState.isSource] at hsrc
  | unset => simp [hs, RegState.isSource] at hsrc

theorem iobankPads_disjoint {b b' : Fin 6} (h : b ≠ b') {pad : ℕ} (hpad : pad ∈ iobankPads b) :
    pad ∉ iobankPads b' := by
  revert h
  revert hpad
  fin_cases b <;> fin_cases b' <;> simp [iobankPads] <;> omega

theorem iobankPads_head (b : Fin 6) : (iobankPads b).headD 0 ∈ iobankPads b := by
  revert b
  decide

/-! ### The choice of a selector -/

theorem selectTable_spec {t : List ℤ} {lo hi : ℤ} {s : ℕ} (h : selectTable t lo hi = some s) :
    s < t.length ∧ lo ≤ t.getD s 0 ∧ t.getD s 0 ≤ hi := by
  have hfold : ∀ (l : List ℕ) (best : Option ℕ), (∀ x ∈ l, x < t.length) →
      (∀ b, best = some b → b < t.length ∧ lo ≤ t.getD b 0 ∧ t.getD b 0 ≤ hi) →
      ∀ b, l.foldl (fun best s => if lo ≤ t.getD s 0 ∧ t.getD s 0 ≤ hi ∧
        best.all (fun b => t.getD s 0 < t.getD b 0) then some s else best) best = some b →
        b < t.length ∧ lo ≤ t.getD b 0 ∧ t.getD b 0 ≤ hi := by
    intro l
    induction l with
    | nil =>
      intro best _ hbest
      exact hbest
    | cons x l ih =>
      intro best hl hbest
      apply ih
      · intro y hy
        exact hl y (List.mem_cons_of_mem x hy)
      · intro b hb
        beta_reduce at hb
        by_cases hx : lo ≤ t.getD x 0 ∧ t.getD x 0 ≤ hi ∧ best.all (fun b => t.getD x 0 < t.getD b 0)
        · rw [if_pos hx] at hb
          cases hb
          exact ⟨hl x (List.mem_cons_self ..), hx.1, hx.2.1⟩
        · rw [if_neg hx] at hb
          exact hbest b hb
  apply hfold _ none _ (by simp) s h
  intro x hx
  exact List.mem_range.mp hx

theorem select_spec {r : RegDev} {lo hi : ℤ} {sel : ℕ} (h : r.select lo hi = some sel) :
    sel < r.state.nSel ∧ lo ≤ r.state.uv sel ∧ r.state.uv sel ≤ hi := by
  unfold RegDev.select at h
  by_cases hwin : min hi r.config.maxUv < max lo r.config.minUv
  · simp [hwin] at h
  · simp only [hwin, if_false] at h
    cases ht : r.state.voltTable with
    | some t =>
      rw [ht] at h
      obtain ⟨hlt, hlo, hhi⟩ := selectTable_spec h
      refine ⟨by simp [RegState.nSel, ht, hlt], ?_, ?_⟩
      · simp only [RegState.uv, ht]
        omega
      · simp only [RegState.uv, ht]
        omega
    | none =>
      rw [ht] at h
      have hn : r.state.nSel = 256 := by simp [RegState.nSel, ht]
      simp only [RegState.uv, ht, hn] at h ⊢
      -- The least step at or above the lower bound, rounded up.
      by_cases hlow : max lo r.config.minUv ≤ 400000
      · simp only [hlow, if_true] at h
        by_cases hout : ((256 : ℕ) : ℤ) ≤ 0 ∨ min hi r.config.maxUv < 400000 + (((0 : ℤ).toNat : ℕ) : ℤ) * 5000
        · rw [if_pos hout] at h
          cases h
        · rw [if_neg hout] at h
          cases h
          push Not at hout
          simp only [Int.toNat_zero] at hout ⊢
          omega
      · simp only [hlow, if_false] at h
        set steps : ℤ := (max lo r.config.minUv - 400000 + 5000 - 1) / 5000 with hsteps
        by_cases hout : ((256 : ℕ) : ℤ) ≤ steps ∨ min hi r.config.maxUv < 400000 + ((steps.toNat : ℕ) : ℤ) * 5000
        · rw [if_pos hout] at h
          cases h
        · rw [if_neg hout] at h
          cases h
          omega

/-! ### What a call changes -/

/-- A call on a rail that is not a bank, from `s` to `out`. -/
structure Supplied (s : RegSys) (a : ℕ) (r : RegDev) (lo hi : ℤ) (out : RegSys × ℤ) : Prop where
  devs : out.1.devs = s.devs
  pads : out.1.hw.pads = s.hw.pads
  drvSel : ∀ j ≠ a, out.1.drvSel j = s.drvSel j
  cells : ∀ c, r.state.cell ≠ some c → out.1.hw.cells c = s.hw.cells c
  failed : out.2 ≠ rtEok → out.1.hw = s.hw
  done : out.2 = rtEok → lo ≤ r.state.uv (r.state.level out.1.hw) ∧ r.state.uv (r.state.level out.1.hw) ≤ hi
  history : out.1.history = s.history ∨ out.1.history = out.1.hw :: s.history

theorem write_failed {s : RegSys} {hw : RegHw} (h : s.fails = true) : s.write hw = (s.tick, -rtEio) := by
  simp [write, h]

theorem write_done {s : RegSys} {hw : RegHw} (h : s.fails = false) :
    s.write hw = ({ s.tick with hw := hw, history := hw :: s.history }, rtEok) := by
  simp [write, h]

theorem writeCell_supplied {s : RegSys} {a c : ℕ} {r : RegDev} {lo hi : ℤ} {cell : RegCell}
    (hcell : r.state.cell = some cell)
    (hlevel : ∀ hw : RegHw, hw.cells cell = c →
      lo ≤ r.state.uv (r.state.level hw) ∧ r.state.uv (r.state.level hw) ≤ hi) :
    Supplied s a r lo hi (s.writeCell cell c) := by
  cases hf : s.fails with
  | true =>
    simp only [writeCell, write_failed hf]
    exact ⟨rfl, rfl, fun _ _ => rfl, fun _ _ => rfl, fun _ => rfl, fun h => (by cases h), .inl rfl⟩
  | false =>
    simp only [writeCell, write_done hf]
    refine ⟨rfl, rfl, fun _ _ => rfl, ?_, fun h => (by simp at h), fun _ => ?_, .inr rfl⟩
    · intro c' hc'
      apply Function.update_of_ne
      rintro rfl
      exact hc' hcell
    · exact hlevel _ (Function.update_self ..)

namespace Supplied

variable {s : RegSys} {a : ℕ} {r : RegDev} {lo hi : ℤ} {out : RegSys × ℤ}

theorem setDrvSel (h : Supplied s a r lo hi out) (sel : ℕ) :
    Supplied s a r lo hi (out.1.setDrvSel a sel, out.2) where
  devs := h.devs
  pads := h.pads
  drvSel j hj := (Function.update_of_ne hj _ _).trans (h.drvSel j hj)
  cells := h.cells
  failed := h.failed
  done := h.done
  history := h.history

theorem setCoreSel (h : Supplied s a r lo hi out) (sel : Option ℕ) :
    Supplied s a r lo hi (out.1.setCoreSel a sel, out.2) where
  devs := h.devs
  pads := h.pads
  drvSel := h.drvSel
  cells := h.cells
  failed := h.failed
  done := h.done
  history := h.history

theorem refused {e : ℤ} (h : e ≠ rtEok) : Supplied s a r lo hi (s, e) :=
  ⟨rfl, rfl, fun _ _ => rfl, fun _ _ => rfl, fun _ => rfl, fun he => absurd he h, .inl rfl⟩

end Supplied

theorem setSelector_supplied {s : RegSys} {a sel : ℕ} {r : RegDev} {lo hi : ℤ} (set : RegSys → ℕ → ℤ → ℤ → RegSys × ℤ)
    (hsrc : r.state.isSource = true) (hsel : sel < r.state.nSel) (hlo : lo ≤ r.state.uv sel)
    (hhi : r.state.uv sel ≤ hi) : Supplied s a r lo hi (setSelector set s a r.state sel) := by
  cases hs : r.state with
  | iobank b sup => simp [hs, RegState.isSource] at hsrc
  | unset => simp [hs, RegState.isSource] at hsrc
  | tps6286x bus addr =>
    have hlt : sel < 256 := by
      rw [hs] at hsel
      exact hsel
    apply writeCell_supplied (by rw [hs]; rfl)
    intro hw hc
    have : r.state.level hw = sel := by
      rw [hs]
      simp only [RegState.level, hc]
      omega
    rw [this]
    exact ⟨hlo, hhi⟩
  | gpio data =>
    cases hp : data.selectPin with
    | none =>
      have hlt : sel < 1 := by
        rw [hs] at hsel
        simpa [RegState.nSel, RegState.voltTable, hp] using hsel
      have hlevel : r.state.level s.hw = sel := by
        rw [hs]
        simp only [RegState.level, hp]
        omega
      simp only [setSelector, gpioSetSelector, hp]
      have hkept : Supplied s a r lo hi (s, rtEok) := by
        refine ⟨rfl, rfl, fun _ _ => rfl, fun _ _ => rfl, fun _ => rfl, fun _ => ?_, .inl rfl⟩
        rw [hlevel]
        exact ⟨hlo, hhi⟩
      exact hkept.setDrvSel _
    | some p =>
      have hlt : sel < 2 := by
        rw [hs] at hsel
        simpa [RegState.nSel, RegState.voltTable, hp] using hsel
      have hw : Supplied s a r lo hi (s.writeCell (.pin p) (if sel ≠ 0 then 1 else 0)) := writeCell_supplied (by simp [hs, RegState.cell, hp]) (by
          intro hw hc
          have : r.state.level hw = sel := by
            rw [hs]
            simp only [RegState.level, hp, hc]
            by_cases h0 : sel = 0
            · simp [h0]
            · simp only [h0, ne_eq, not_false_eq_true, if_true, one_ne_zero]
              omega
          rw [this]
          exact ⟨hlo, hhi⟩)
      simp only [setSelector, gpioSetSelector, hp]
      by_cases hret : (s.writeCell (.pin p) (if sel ≠ 0 then 1 else 0)).2 = rtEok
      · rw [if_neg (not_not_intro hret)]
        have := hw.setDrvSel sel
        rw [hret] at this
        exact this
      · rw [if_pos hret]
        refine ⟨hw.devs, hw.pads, hw.drvSel, hw.cells, fun _ => hw.failed hret, fun h => (by cases h), hw.history⟩

theorem setVoltageFrom_supplied {s : RegSys} {n a : ℕ} {r : RegDev} {lo hi : ℤ} (hr : s.devs[a]? = some r)
    (hsrc : r.state.isSource = true) : Supplied s a r lo hi (setVoltageFrom n s a lo hi) := by
  cases n with
  | zero => exact Supplied.refused (by decide)
  | succ n =>
    unfold setVoltageFrom
    simp only [hr]
    by_cases he : r.error = rtEok
    · rw [if_neg (not_not_intro he)]
      cases hsel : r.select lo hi with
      | none => exact Supplied.refused (by decide)
      | some sel =>
        obtain ⟨hlt, hlo, hhi⟩ := select_spec hsel
        exact (setSelector_supplied (setVoltageFrom n) hsrc hlt hlo hhi).setCoreSel _
    · rw [if_pos he]
      exact Supplied.refused he

/-- The writes of `iobank_set_pads`, from `s` to `out`. -/
structure Padded (s : RegSys) (v1p8 : Bool) (pads : List ℕ) (out : RegSys × ℤ) : Prop where
  devs : out.1.devs = s.devs
  drvSel : out.1.drvSel = s.drvSel
  hw : out.1.hw.cells = s.hw.cells ∧ ∀ p, out.1.hw.pads p = s.hw.pads p ∨ p ∈ pads ∧ out.1.hw.pads p = v1p8
  done : out.2 = rtEok → ∀ p ∈ pads, out.1.hw.pads p = v1p8
  history : ∀ hw ∈ out.1.history, hw ∈ s.history ∨
    hw.cells = s.hw.cells ∧ ∀ p, hw.pads p = s.hw.pads p ∨ p ∈ pads ∧ hw.pads p = v1p8

theorem setPads_padded (s : RegSys) (v1p8 : Bool) (pads : List ℕ) : Padded s v1p8 pads (s.setPads v1p8 pads) := by
  induction pads generalizing s with
  | nil => exact ⟨rfl, rfl, ⟨rfl, fun _ => .inl rfl⟩, fun _ p hp => (by cases hp), fun hw h => .inl h⟩
  | cons pad pads ih =>
    unfold setPads
    cases hf : s.fails with
    | true =>
      simp only [writePad, write_failed hf]
      exact ⟨rfl, rfl, ⟨rfl, fun _ => .inl rfl⟩, fun h => (by cases h), fun hw h => .inl h⟩
    | false =>
      simp only [writePad, write_done hf]
      rw [if_neg (by simp)]
      set s1 : RegSys := { s.tick with
        hw := { s.hw with pads := Function.update s.hw.pads pad v1p8 }
        history := { s.hw with pads := Function.update s.hw.pads pad v1p8 } :: s.history } with hs1
      have h := ih s1
      have hfirst : ∀ p, s1.hw.pads p = s.hw.pads p ∨ p = pad ∧ s1.hw.pads p = v1p8 := by
        intro p
        by_cases hp : p = pad
        · exact .inr ⟨hp, hp ▸ Function.update_self ..⟩
        · exact .inl (Function.update_of_ne hp ..)
      have hboth : ∀ hw : RegHw, (∀ p, hw.pads p = s1.hw.pads p ∨ p ∈ pads ∧ hw.pads p = v1p8) →
          ∀ p, hw.pads p = s.hw.pads p ∨ p ∈ pad :: pads ∧ hw.pads p = v1p8 := by
        intro hw hp p
        obtain h1 | ⟨h1, h2⟩ := hp p
        · obtain h3 | ⟨rfl, h3⟩ := hfirst p
          · exact .inl (h1.trans h3)
          · exact .inr ⟨List.mem_cons_self .., h1.trans h3⟩
        · exact .inr ⟨List.mem_cons_of_mem _ h1, h2⟩
      refine ⟨h.devs, h.drvSel, ⟨h.hw.1, hboth _ h.hw.2⟩, ?_, ?_⟩
      · intro hret p hp
        obtain h1 | ⟨_, h1⟩ := h.hw.2 p
        · obtain rfl | hp := List.mem_cons.mp hp
          · exact h1.trans (Function.update_self ..)
          · exact h.done hret p hp
        · exact h1
      · intro hw hmem
        obtain hold | ⟨hcells, hp⟩ := h.history hw hmem
        · obtain rfl | hold := List.mem_cons.mp hold
          · exact .inr ⟨rfl, hboth _ fun p => .inl rfl⟩
          · exact .inl hold
        · exact .inr ⟨hcells, hboth hw hp⟩

/-! ### Calls on the bank rails -/

def Held (devs : List RegDev) (hw : RegHw) : Prop :=
  ∀ i bank a, bankRail devs i = some (bank, some a) → ∀ pad ∈ iobankPads bank,
    hw.pads pad = true → output devs hw a = some uv1v8

theorem Held.padsSafe {devs : List RegDev} {hw : RegHw} (h : Held devs hw) : PadsSafe devs hw := by
  intro i bank a hi pad hpad hset hout
  rw [h i bank a hi pad hpad hset] at hout
  cases hout

structure Inv (devs : List RegDev) (s : RegSys) : Prop where
  table : s.devs = devs
  source : ∀ i bank a, bankRail devs i = some (bank, some a) → ∃ r, devs[a]? = some r ∧ r.state.isSource = true
  sel : ∀ i bank a, bankRail devs i = some (bank, some a) →
    s.drvSel i ≤ 1 ∧ output devs s.hw a = some (iobankVolts.getD (s.drvSel i) 0)
  held : Held devs s.hw
  history : ∀ hw ∈ s.history, Held devs hw

theorem bankRail_source {devs : List RegDev} {a : ℕ} {r : RegDev} (hr : devs[a]? = some r)
    (hsrc : r.state.isSource = true) : bankRail devs a = none := by
  unfold bankRail
  rw [hr]
  cases hs : r.state with
  | iobank b sup => simp [hs, RegState.isSource] at hsrc
  | unset => simp only [hs]
  | tps6286x => simp only [hs]
  | gpio => simp only [hs]

theorem output_congr {devs : List RegDev} {hw hw' : RegHw} {a : ℕ} {r : RegDev} (hr : devs[a]? = some r)
    (hsrc : r.state.isSource = true) (h : ∀ c, cellOf devs a = some c → hw.cells c = hw'.cells c) :
    output devs hw a = output devs hw' a := by
  rw [output_source hr hsrc, output_source hr hsrc, @RegState.level_congr r.state hw hw' fun c hc => h c (by simp [cellOf, hr, hc])]

namespace Inv

variable {devs : List RegDev} {s : RegSys} {i : ℕ} {bank : Fin 6} {supply : Option ℕ} {out : RegSys × ℤ}

theorem padded {v1p8 : Bool} (h : Inv devs s) (hi : bankRail devs i = some (bank, supply)) (halone : Alone devs i)
    (hp : Padded s v1p8 (iobankPads bank) out)
    (hlow : v1p8 = true → ∀ a, supply = some a → output devs s.hw a = some uv1v8) : Inv devs out.1 := by
  have hheld : ∀ hw : RegHw, hw.cells = s.hw.cells →
      (∀ p, hw.pads p = s.hw.pads p ∨ p ∈ iobankPads bank ∧ hw.pads p = v1p8) → Held devs hw := by
    intro hw hcells hpads j bank' a hj pad hpad hset
    obtain ⟨r, hr, hsrc⟩ := h.source j bank' a hj
    have hsame : output devs hw a = output devs s.hw a := output_congr hr hsrc fun c _ => by rw [hcells]
    rw [hsame]
    obtain hold | ⟨hmem, hnew⟩ := hpads pad
    · exact h.held j bank' a hj pad hpad (hold ▸ hset)
    · by_cases hij : j = i
      · subst hij
        rw [hi] at hj
        cases hj
        exact hlow (hnew ▸ hset) a rfl
      · exact absurd hpad (iobankPads_disjoint ((halone bank supply hi j hij bank' _ hj).1 (.inr rfl)) hmem)
  refine ⟨hp.devs.trans h.table, h.source, ?_, hheld _ hp.hw.1 hp.hw.2, ?_⟩
  · intro j bank' a hj
    obtain ⟨r, hr, hsrc⟩ := h.source j bank' a hj
    have hsame : output devs out.1.hw a = output devs s.hw a := output_congr hr hsrc fun c _ => by rw [hp.hw.1]
    rw [hp.drvSel, hsame]
    exact h.sel j bank' a hj
  · intro hw hmem
    obtain hold | ⟨hcells, hpads⟩ := hp.history hw hmem
    · exact h.history hw hold
    · exact hheld hw hcells hpads

theorem setDrvSel_unsupplied {sel : ℕ} (h : Inv devs s) (hi : bankRail devs i = some (bank, none)) :
    Inv devs (s.setDrvSel i sel) := by
  refine ⟨h.table, h.source, ?_, h.held, h.history⟩
  intro j bank' a hj
  have hij : j ≠ i := by
    rintro rfl
    rw [hi] at hj
    cases hj
  have hsel : (s.setDrvSel i sel).drvSel j = s.drvSel j := Function.update_of_ne hij ..
  rw [hsel]
  exact h.sel j bank' a hj

theorem setCoreSel {sel : Option ℕ} (h : Inv devs s) : Inv devs (s.setCoreSel i sel) :=
  ⟨h.table, h.source, h.sel, h.held, h.history⟩

variable {a sel : ℕ} {r : RegDev}

theorem unsupplied {lo hi : ℤ} (h : Inv devs s) (hr : devs[a]? = some r) (hsrc : r.state.isSource = true)
    (ho : Supplied s a r lo hi out) (hfail : out.2 ≠ rtEok) : Inv devs out.1 := by
  have hhw := ho.failed hfail
  refine ⟨ho.devs.trans h.table, h.source, ?_, hhw ▸ h.held, ?_⟩
  · intro j bank' a' hj
    have hja : j ≠ a := by
      rintro rfl
      rw [bankRail_source hr hsrc] at hj
      cases hj
    rw [ho.drvSel j hja, hhw]
    exact h.sel j bank' a' hj
  · intro hw hmem
    obtain hh | hh := ho.history
    · exact h.history hw (hh ▸ hmem)
    · rw [hh, hhw] at hmem
      obtain rfl | hmem := List.mem_cons.mp hmem
      · exact h.held
      · exact h.history hw hmem

theorem supplied (h : Inv devs s) (hi : bankRail devs i = some (bank, some a)) (halone : Alone devs i)
    (hr : devs[a]? = some r) (hsrc : r.state.isSource = true) (hsel : sel ≤ 1)
    (ho : Supplied s a r (iobankVolts.getD sel 0) (iobankVolts.getD sel 0) out) (hok : out.2 = rtEok)
    (hmode : sel = 1 ∨ ∀ pad ∈ iobankPads bank, s.hw.pads pad = false) :
    Inv devs (out.1.setDrvSel i sel) ∧ output devs out.1.hw a = some (iobankVolts.getD sel 0) := by
  have hout : output devs out.1.hw a = some (iobankVolts.getD sel 0) := by
    rw [output_source hr hsrc]
    have := ho.done hok
    congr 1
    omega
  -- The other banks are fed from other registers.
  have hother : ∀ j ≠ i, ∀ bank' a', bankRail devs j = some (bank', some a') →
      output devs out.1.hw a' = output devs s.hw a' := by
    intro j hj bank' a' hbank
    obtain ⟨r', hr', hsrc'⟩ := h.source j bank' a' hbank
    apply output_congr hr' hsrc'
    intro c hc
    apply ho.cells
    intro hrc
    apply (halone bank (some a) hi j hj bank' (some a') hbank).2 c
    · simp [cellOf, hr, hrc]
    · exact hc
  have hheld : Held devs out.1.hw := by
    intro j bank' a' hj pad hpad hset
    rw [ho.pads] at hset
    by_cases hij : j = i
    · subst hij
      rw [hi] at hj
      cases hj
      obtain rfl | hoff := hmode
      · exact hout
      · rw [hoff pad hpad] at hset
        cases hset
    · rw [hother j hij bank' a' hj]
      exact h.held j bank' a' hj pad hpad hset
  refine ⟨⟨ho.devs.trans h.table, h.source, ?_, hheld, ?_⟩, hout⟩
  · intro j bank' a' hj
    by_cases hij : j = i
    · subst hij
      rw [hi] at hj
      cases hj
      rw [show (out.1.setDrvSel j sel).drvSel j = sel from Function.update_self ..]
      exact ⟨hsel, hout⟩
    · have hja : j ≠ a := by
        rintro rfl
        rw [bankRail_source hr hsrc] at hj
        cases hj
      rw [show (out.1.setDrvSel i sel).drvSel j = s.drvSel j from
        (Function.update_of_ne hij _ _).trans (ho.drvSel j hja)]
      rw [show (out.1.setDrvSel i sel).hw = out.1.hw from rfl, hother j hij bank' a' hj]
      exact h.sel j bank' a' hj
  · intro hw hmem
    obtain hh | hh := ho.history
    · exact h.history hw (hh ▸ hmem)
    · rw [show (out.1.setDrvSel i sel).history = _ from hh] at hmem
      obtain rfl | hmem := List.mem_cons.mp hmem
      · exact hheld
      · exact h.history hw hmem

/-- What `iobank_set_supply` leaves when it fails. -/
theorem setSupply_failed {n : ℕ} (h : Inv devs s) (hi : bankRail devs i = some (bank, supply))
    (hret : (iobankSetSupply (setVoltageFrom n) s supply sel).2 ≠ rtEok) :
    Inv devs (iobankSetSupply (setVoltageFrom n) s supply sel).1 := by
  cases supply with
  | none => exact absurd rfl hret
  | some a =>
    obtain ⟨r, hr, hsrc⟩ := h.source i bank a hi
    exact h.unsupplied hr hsrc (setVoltageFrom_supplied (h.table ▸ hr) hsrc) hret

theorem setSupply_done {n : ℕ} (h : Inv devs s) (hi : bankRail devs i = some (bank, supply)) (halone : Alone devs i)
    (hsel : sel ≤ 1) (hret : (iobankSetSupply (setVoltageFrom n) s supply sel).2 = rtEok)
    (hmode : sel = 1 ∨ ∀ pad ∈ iobankPads bank, s.hw.pads pad = false) :
    Inv devs ((iobankSetSupply (setVoltageFrom n) s supply sel).1.setDrvSel i sel) ∧
      ∀ a, supply = some a →
        output devs (iobankSetSupply (setVoltageFrom n) s supply sel).1.hw a = some (iobankVolts.getD sel 0) := by
  cases supply with
  | none => exact ⟨h.setDrvSel_unsupplied hi, fun a ha => (by cases ha)⟩
  | some a =>
    obtain ⟨r, hr, hsrc⟩ := h.source i bank a hi
    obtain ⟨hinv, hout⟩ := h.supplied hi halone hr hsrc hsel (setVoltageFrom_supplied (h.table ▸ hr) hsrc) hret hmode
    refine ⟨hinv, ?_⟩
    intro a' ha'
    cases ha'
    exact hout

theorem iobankSetSelector {n : ℕ} (h : Inv devs s) (hi : bankRail devs i = some (bank, supply))
    (halone : Alone devs i) (hsel : sel < 2) :
    Inv devs (iobankSetSelector (setVoltageFrom n) s i bank supply sel).1 := by
  unfold RegSys.iobankSetSelector
  by_cases h1 : sel = 1
  · -- To 1.8 V: the supply first.
    rw [if_pos h1]
    dsimp only
    by_cases hret : (iobankSetSupply (setVoltageFrom n) s supply sel).2 = rtEok
    · obtain ⟨hinv, hout⟩ := h.setSupply_done hi halone (by omega) hret (.inl h1)
      rw [if_neg (not_not_intro hret)]
      apply hinv.padded hi halone (setPads_padded ..)
      intro _ a ha
      rw [show uv1v8 = iobankVolts.getD sel 0 by rw [h1]; rfl]
      exact hout a ha
    · rw [if_pos hret]
      exact h.setSupply_failed hi hret
  · -- To 3.3 V: the pads first.
    rw [if_neg h1]
    dsimp only
    have hp := setPads_padded s false (iobankPads bank)
    have hpinv := h.padded hi halone hp (fun hv => by cases hv)
    by_cases hpads : (s.setPads false (iobankPads bank)).2 = rtEok
    · rw [if_neg (not_not_intro hpads)]
      by_cases hret : (iobankSetSupply (setVoltageFrom n) (s.setPads false (iobankPads bank)).1 supply sel).2 = rtEok
      · rw [if_neg (not_not_intro hret)]
        exact (hpinv.setSupply_done hi halone (by omega) hret (.inr (hp.done hpads))).1
      · rw [if_pos hret]
        exact hpinv.setSupply_failed hi hret
    · rw [if_pos hpads]
      exact hpinv

end Inv

/-- Rail `i` is one of a bank: if it is usable, it has come up as one. -/
def BankAt (devs : List RegDev) (i : ℕ) : Prop :=
  ∃ r, devs[i]? = some r ∧ (r.error = rtEok → ∃ bank supply, r.state = .iobank bank supply)

theorem Inv.setVoltage {devs : List RegDev} {s : RegSys} {i : ℕ} {lo hi : ℤ} (h : Inv devs s) (hi' : BankAt devs i)
    (halone : Alone devs i) : Inv devs (s.setVoltage i lo hi).1 := by
  obtain ⟨r, hr, hbank⟩ := hi'
  unfold RegSys.setVoltage setVoltageFrom
  rw [h.table, hr]
  by_cases he : r.error = rtEok
  · obtain ⟨bank, supply, hst⟩ := hbank he
    have hrail : bankRail devs i = some (bank, supply) := bankRail_eq.mpr ⟨r, hr, he, hst⟩
    simp only [he, ne_eq, not_true_eq_false, if_false]
    cases hsel : r.select lo hi with
    | none => exact h
    | some sel =>
      have hlt : sel < 2 := by
        have := (select_spec hsel).1
        rw [hst] at this
        exact this
      rw [hst]
      exact (h.iobankSetSelector hrail halone hlt).setCoreSel
  · simp only [he, ne_eq, not_false_eq_true, if_true]
    exact h

theorem Inv.setVoltages {devs : List RegDev} {s : RegSys} {calls : List (ℕ × ℤ × ℤ)} (h : Inv devs s)
    (hcalls : ∀ call ∈ calls, BankAt devs call.1 ∧ Alone devs call.1) : Inv devs (s.setVoltages calls) := by
  induction calls generalizing s with
  | nil => exact h
  | cons call calls ih =>
    obtain ⟨hbank, halone⟩ := hcalls call (List.mem_cons_self ..)
    apply ih (h.setVoltage hbank halone)
    intro call' hcall'
    exact hcalls call' (List.mem_cons_of_mem _ hcall')

theorem Inv.getVoltage {devs : List RegDev} {s : RegSys} {i a : ℕ} {bank : Fin 6} (h : Inv devs s)
    (hi : bankRail devs i = some (bank, some a)) :
    ∃ v, (s.getVoltage i).2 = .ok v ∧ output devs s.hw a = some v := by
  obtain ⟨r, hr, he, hst⟩ := bankRail_eq.mp hi
  obtain ⟨hsel, hout⟩ := h.sel i bank a hi
  refine ⟨_, ?_, hout⟩
  unfold RegSys.getVoltage
  simp only [h.table, hr, he, ne_eq, not_true_eq_false, if_false, hst, getSelector]
  have hn : ¬ (RegState.iobank bank (some a)).nSel ≤ s.drvSel i := by
    show ¬ 2 ≤ s.drvSel i
    omega
  rw [if_neg hn]
  rfl

/-! ### Initialisation -/

end RegSys

def RegConfig.isBank (cfg : RegConfig) : Bool :=
  match cfg.driver with
  | some (.k230Iobank _) => true
  | _ => false

namespace RegSys

/-- No bank rail of the table names another bank rail as its supply. -/
def NoBankSupply (configs : List RegConfig) : Prop :=
  ∀ cfg ∈ configs, ∀ data, cfg.driver = some (.k230Iobank (some data)) → ∀ name, data.supply = some name →
    ∀ sup ∈ configs, sup.isBank = true → sup.name ≠ some name

structure Booted (configs : List RegConfig) (hw : RegHw) (s : RegSys) : Prop where
  pads : s.hw.pads = hw.pads
  config : ∀ r ∈ s.devs, r.config ∈ configs
  up : ∀ r ∈ s.devs, r.error = rtEok →
    if r.config.isBank then ∃ bank supply, r.state = .iobank bank supply else r.state.isSource = true
  sel : ∀ i bank supply, bankRail s.devs i = some (bank, supply) →
    s.drvSel i = if hw.pads ((iobankPads bank).headD 0) then 1 else 0
  source : ∀ i bank a, bankRail s.devs i = some (bank, some a) → ∃ r, s.devs[a]? = some r ∧ r.state.isSource = true

/-- What has come up as rail `i`. -/
def Up (s : RegSys) (i : ℕ) (cfg : RegConfig) (state : RegState) (s' : RegSys) : Prop :=
  if cfg.isBank then
    ∃ bank supply, state = .iobank bank supply ∧
      s'.drvSel i = (if s.hw.pads ((iobankPads bank).headD 0) then 1 else 0) ∧
      ∀ a, supply = some a → ∃ r, s.devs[a]? = some r ∧ r.state.isSource = true
  else state.isSource = true

structure Kept (s s' : RegSys) : Prop where
  devs : s'.devs = s.devs
  pads : s'.hw.pads = s.hw.pads
  sel : ∀ j, bankRail s.devs j ≠ none → s'.drvSel j = s.drvSel j

theorem bankRail_append {devs : List RegDev} {d : RegDev} {j : ℕ} {bank : Fin 6} {supply : Option ℕ}
    (h : bankRail (devs ++ [d]) j = some (bank, supply)) :
    bankRail devs j = some (bank, supply) ∨ j = devs.length ∧ d.error = rtEok ∧ d.state = .iobank bank supply := by
  obtain ⟨r, hr, he, hst⟩ := bankRail_eq.mp h
  by_cases hj : j < devs.length
  · rw [List.getElem?_append_left hj] at hr
    exact .inl (bankRail_eq.mpr ⟨r, hr, he, hst⟩)
  · rw [List.getElem?_append_right (by omega)] at hr
    have hlt := (List.getElem?_eq_some_iff.mp hr).1
    simp only [List.length_singleton] at hlt
    have hjl : j = devs.length := by omega
    subst hjl
    simp only [Nat.sub_self, List.getElem?_cons_zero, Option.some.injEq] at hr
    subst hr
    exact .inr ⟨rfl, he, hst⟩

theorem bankRail_lt {devs : List RegDev} {i : ℕ} (h : bankRail devs i ≠ none) : i < devs.length := by
  by_contra hi
  apply h
  unfold bankRail
  rw [List.getElem?_eq_none (by omega)]

theorem Booted.publish {configs : List RegConfig} {hw : RegHw} {s s' : RegSys} {cfg : RegConfig} {error : ℤ}
    {state : RegState} (h : Booted configs hw s) (hk : Kept s s') (hcfg : cfg ∈ configs)
    (hup : error = rtEok → Up s s.devs.length cfg state s') : Booted configs hw (s'.publish cfg error state) := by
  have hdevs : (s'.publish cfg error state).devs = s.devs ++ [⟨cfg, error, state⟩] := by
    rw [← hk.devs]
    rfl
  refine ⟨hk.pads.trans h.pads, ?_, ?_, ?_, ?_⟩
  · intro r hr
    rw [hdevs] at hr
    obtain hr | hr := List.mem_append.mp hr
    · exact h.config r hr
    · rw [List.mem_singleton.mp hr]
      exact hcfg
  · intro r hr he
    rw [hdevs] at hr
    obtain hr | hr := List.mem_append.mp hr
    · exact h.up r hr he
    · rw [List.mem_singleton.mp hr] at he ⊢
      have hu := hup he
      unfold Up at hu
      by_cases hb : cfg.isBank = true
      · rw [if_pos hb] at hu ⊢
        obtain ⟨bank, supply, hst, _⟩ := hu
        exact ⟨bank, supply, hst⟩
      · rw [if_neg hb] at hu ⊢
        exact hu
  · intro i bank supply hi
    rw [hdevs] at hi
    obtain hold | ⟨rfl, he, hst⟩ := bankRail_append hi
    · rw [← h.sel i bank supply hold]
      exact hk.sel i (by rw [hold]; simp)
    · have hu := hup he
      simp only at hst
      unfold Up at hu
      by_cases hb : cfg.isBank = true
      · rw [if_pos hb] at hu
        obtain ⟨bank', supply', hst', hsel, _⟩ := hu
        rw [hst] at hst'
        cases hst'
        rw [h.pads] at hsel
        exact hsel
      · rw [if_neg hb, hst] at hu
        cases hu
  · intro i bank a hi
    rw [hdevs] at hi ⊢
    have hold : ∃ r, s.devs[a]? = some r ∧ r.state.isSource = true := by
      obtain hold | ⟨rfl, he, hst⟩ := bankRail_append hi
      · exact h.source i bank a hold
      · have hu := hup he
        simp only at hst
        unfold Up at hu
        by_cases hb : cfg.isBank = true
        · rw [if_pos hb] at hu
          obtain ⟨bank', supply', hst', _, hsrc⟩ := hu
          rw [hst] at hst'
          cases hst'
          exact hsrc a rfl
        · rw [if_neg hb, hst] at hu
          cases hu
    obtain ⟨r, hr, hsrc⟩ := hold
    refine ⟨r, ?_, hsrc⟩
    rw [List.getElem?_append_left (List.getElem?_eq_some_iff.mp hr).1]
    exact hr

namespace Kept

theorem refl (s : RegSys) : Kept s s :=
  ⟨rfl, rfl, fun _ _ => rfl⟩

theorem trans {s s1 s2 : RegSys} (h1 : Kept s s1) (h2 : Kept s1 s2) : Kept s s2 := by
  refine ⟨h2.devs.trans h1.devs, h2.pads.trans h1.pads, ?_⟩
  intro j hj
  rw [h2.sel j (by rwa [h1.devs]), h1.sel j hj]

theorem tick {s s' : RegSys} (h : Kept s s') : Kept s s'.tick :=
  ⟨h.devs, h.pads, h.sel⟩

theorem setCoreSel {s s' : RegSys} {i : ℕ} {sel : Option ℕ} (h : Kept s s') : Kept s (s'.setCoreSel i sel) :=
  ⟨h.devs, h.pads, h.sel⟩

theorem setDrvSel {s s' : RegSys} {sel : ℕ} (h : Kept s s') : Kept s (s'.setDrvSel s.devs.length sel) := by
  refine ⟨h.devs, h.pads, ?_⟩
  intro j hj
  rw [← h.sel j hj]
  apply Function.update_of_ne
  have := bankRail_lt hj
  omega

theorem gpioClaim {s s' : RegSys} {p : ℕ} (h : Kept s s') : Kept s (s'.gpioClaim p).1 := by
  unfold RegSys.gpioClaim
  split
  · exact h
  · split
    · exact h.tick
    · split
      · exact h.tick.tick
      · exact h.tick.tick

theorem claimPin {s s' : RegSys} (pin : Option ℕ) (h : Kept s s') : Kept s (s'.claimPin pin).1 := by
  cases pin with
  | none => exact h
  | some p => exact h.gpioClaim

theorem getSelector {s s' : RegSys} {i : ℕ} {r : RegState} (h : Kept s s') : Kept s (s'.getSelector i r).1 := by
  cases r with
  | tps6286x => exact h.tick
  | gpio => exact h
  | iobank => exact h
  | unset => exact h

theorem readPads {s s' : RegSys} (first : Bool) (pads : List ℕ) (h : Kept s s') :
    Kept s (s'.readPads first pads).1 := by
  induction pads generalizing s' with
  | nil => exact h
  | cons pad pads ih =>
    unfold RegSys.readPads
    split_ifs
    · exact h.tick
    · exact h.tick
    · exact ih h.tick

theorem setSupply {s s' : RegSys} (n sel : ℕ) {supply : Option ℕ} (h : Kept s s')
    (hsrc : ∀ a, supply = some a → ∃ r, s.devs[a]? = some r ∧ r.state.isSource = true) :
    Kept s (iobankSetSupply (setVoltageFrom n) s' supply sel).1 := by
  cases supply with
  | none => exact h
  | some a =>
    obtain ⟨r, hr, hr'⟩ := hsrc a rfl
    have ho : Supplied s' a r (iobankVolts.getD sel 0) (iobankVolts.getD sel 0) (setVoltageFrom n s' a
        (iobankVolts.getD sel 0) (iobankVolts.getD sel 0)) := setVoltageFrom_supplied (h.devs ▸ hr) hr'
    refine h.trans ⟨ho.devs, ho.pads, ?_⟩
    intro j hj
    apply ho.drvSel
    rintro rfl
    apply hj
    rw [h.devs]
    exact bankRail_source hr hr'

end Kept

theorem claimPin_error {s : RegSys} {pin : Option ℕ} {e : ℤ} (h : (s.claimPin pin).2 = .error e) : e ≠ rtEok := by
  cases pin with
  | none => cases h
  | some p =>
    simp only [claimPin, gpioClaim] at h
    split at h
    · cases h
      decide
    · split at h
      · cases h
        decide
      · split at h
        · cases h
          decide
        · cases h

theorem gpioInit_up (s : RegSys) (data : Option RegGpioData) :
    Kept s (s.gpioInit s.devs.length data).1 ∧
      ((s.gpioInit s.devs.length data).2.1 = rtEok → (s.gpioInit s.devs.length data).2.2.isSource = true) := by
  unfold gpioInit
  cases data with
  | none => exact ⟨Kept.refl s, fun h => (by cases h)⟩
  | some data =>
    dsimp only
    split
    · exact ⟨(Kept.refl s).tick, fun h => (by cases h)⟩
    · have henable := (Kept.refl s).tick.claimPin data.enablePin
      split
      · rename_i s1 e hs1
        rw [hs1] at henable
        exact ⟨henable, fun h => (by cases h)⟩
      · rename_i s1 level hs1
        rw [hs1] at henable
        have hselect := henable.claimPin data.selectPin
        split
        · rename_i s2 e hs2
          rw [hs2] at hselect
          exact ⟨hselect, fun h => absurd h (claimPin_error (congrArg Prod.snd hs2))⟩
        · rename_i s2 level hs2
          rw [hs2] at hselect
          exact ⟨hselect.setDrvSel, fun _ => rfl⟩

theorem Booted.supply {configs : List RegConfig} {hw : RegHw} {s : RegSys} {cfg : RegConfig} {data : RegIobankData}
    {supply : Option ℕ} (h : Booted configs hw s) (hno : NoBankSupply configs) (hcfg : cfg ∈ configs)
    (hdrv : cfg.driver = some (.k230Iobank (some data))) (hs : s.iobankSupply data.supply = .ok supply) :
    ∀ a, supply = some a → ∃ r, s.devs[a]? = some r ∧ r.state.isSource = true := by
  rintro a rfl
  unfold iobankSupply at hs
  cases hname : data.supply with
  | none =>
    rw [hname] at hs
    cases hs
  | some name =>
    simp only [hname] at hs
    cases hget : s.get name with
    | none =>
      simp only [hget] at hs
      cases hs
    | some b =>
      simp only [hget] at hs
      cases hr : s.devs[b]? with
      | none =>
        simp only [hr] at hs
        cases hs
      | some r =>
        simp only [hr] at hs
        by_cases he : r.error = rtEok
        · simp only [he, ne_eq, not_true_eq_false, if_false] at hs
          cases hs
          have hmem := List.mem_of_getElem? hr
          have hn : r.config.name = some name := by
            have hf := List.findIdx?_eq_some_iff_getElem.mp hget
            obtain ⟨hlt, hn, _⟩ := hf
            rw [List.getElem?_eq_getElem hlt, Option.some.injEq] at hr
            rw [← hr]
            exact of_decide_eq_true hn
          have hnb : r.config.isBank ≠ true := fun hb =>
            hno cfg hcfg data hdrv name hname r.config (h.config r hmem) hb hn
          have hup := h.up r hmem he
          rw [if_neg hnb] at hup
          exact ⟨r, hr, hup⟩
        · simp only [he, ne_eq, not_false_eq_true, if_true] at hs
          cases hs

theorem iobankSupply_error {s : RegSys} {supply : Option String} {e : ℤ} (h : s.iobankSupply supply = .error e) :
    e ≠ rtEok := by
  unfold iobankSupply at h
  cases supply with
  | none => cases h
  | some name =>
    cases hget : s.get name with
    | none =>
      simp only [hget, Except.error.injEq] at h
      subst h
      decide
    | some a =>
      cases hr : s.devs[a]? with
      | none =>
        simp only [hget, hr, Except.error.injEq] at h
        subst h
        decide
      | some r =>
        by_cases he : r.error = rtEok
        · simp [hget, hr, he] at h
        · simp only [hget, hr, he, ne_eq, not_false_eq_true, if_true, Except.error.injEq] at h
          exact h ▸ he

theorem iobankInit_up {configs : List RegConfig} {hw : RegHw} {s : RegSys} {cfg : RegConfig}
    {data : Option RegIobankData} (h : Booted configs hw s) (hno : NoBankSupply configs) (hcfg : cfg ∈ configs)
    (hdrv : cfg.driver = some (.k230Iobank data)) :
    Kept s (s.iobankInit s.devs.length data).1 ∧
      ((s.iobankInit s.devs.length data).2.1 = rtEok →
        Up s s.devs.length cfg (s.iobankInit s.devs.length data).2.2 (s.iobankInit s.devs.length data).1) := by
  have hb : cfg.isBank = true := by simp [RegConfig.isBank, hdrv]
  unfold iobankInit
  cases data with
  | none => exact ⟨Kept.refl s, fun h => (by cases h)⟩
  | some data =>
    by_cases hbank : data.bank < 6
    · simp only [hbank, dif_pos]
      cases hs : s.iobankSupply data.supply with
      | error e => exact ⟨Kept.refl s, fun h => absurd h (iobankSupply_error hs)⟩
      | ok supply =>
        have hsrc := h.supply hno hcfg hdrv hs
        dsimp only
        by_cases hf : s.fails = true
        · rw [if_pos hf]
          exact ⟨(Kept.refl s).tick, fun h => (by cases h)⟩
        · rw [if_neg hf]
          set pads := iobankPads ⟨data.bank, hbank⟩ with hpads
          set first := s.hw.pads (pads.headD 0) with hfirst
          have hk := (Kept.refl s).tick.readPads first pads.tail
          set s1 := (s.tick.readPads first pads.tail).1 with hs1
          by_cases hret : (s.tick.readPads first pads.tail).2 = rtEok
          · rw [if_neg (not_not_intro hret)]
            by_cases hf1 : s1.fails = true
            · rw [if_pos hf1]
              exact ⟨hk.tick, fun h => (by cases h)⟩
            · rw [if_neg hf1]
              have hk2 := hk.tick.setSupply s.devs.length (if first then 1 else 0) hsrc
              by_cases hset : (iobankSetSupply (setVoltageFrom s.devs.length) s1.tick supply
                  (if first then 1 else 0)).2 = rtEok
              · rw [if_neg (not_not_intro hset)]
                refine ⟨hk2.setDrvSel, fun _ => ?_⟩
                unfold Up
                rw [if_pos hb]
                exact ⟨_, supply, rfl, Function.update_self .., hsrc⟩
              · rw [if_pos hset]
                exact ⟨hk2, fun h => absurd h hset⟩
          · rw [if_pos hret]
            exact ⟨hk, fun h => absurd h hret⟩
    · simp only [hbank, not_false_eq_true, dif_neg]
      exact ⟨Kept.refl s, fun h => (by cases h)⟩

theorem driverInit_up {configs : List RegConfig} {hw : RegHw} {s : RegSys} {cfg : RegConfig}
    (h : Booted configs hw s) (hno : NoBankSupply configs) (hcfg : cfg ∈ configs) :
    Kept s (s.driverInit s.devs.length cfg.driver).1 ∧
      ((s.driverInit s.devs.length cfg.driver).2.1 = rtEok →
        Up s s.devs.length cfg (s.driverInit s.devs.length cfg.driver).2.2
          (s.driverInit s.devs.length cfg.driver).1) := by
  cases hdrv : cfg.driver with
  | none => exact ⟨Kept.refl s, fun h => (by cases h)⟩
  | some driver =>
    cases driver with
    | tps6286x bus addr =>
      have hb : cfg.isBank ≠ true := by simp [RegConfig.isBank, hdrv]
      simp only [driverInit, tps6286xInit]
      cases hf : s.fails with
      | true => exact ⟨(Kept.refl s).tick, fun h => (by cases h)⟩
      | false =>
        refine ⟨(Kept.refl s).tick, fun _ => ?_⟩
        unfold Up
        rw [if_neg hb]
        rfl
    | gpio data =>
      have hb : cfg.isBank ≠ true := by simp [RegConfig.isBank, hdrv]
      obtain ⟨hk, hup⟩ := gpioInit_up s data
      refine ⟨hk, fun hret => ?_⟩
      unfold Up
      rw [if_neg hb]
      exact hup hret
    | k230Iobank data => exact iobankInit_up h hno hcfg hdrv

theorem Up.kept {s s' s'' : RegSys} {i : ℕ} {cfg : RegConfig} {state : RegState} (h : Up s i cfg state s')
    (hsel : s''.drvSel i = s'.drvSel i) : Up s i cfg state s'' := by
  unfold Up at h ⊢
  rw [hsel]
  exact h

theorem getSelector_drvSel (s : RegSys) (i : ℕ) (r : RegState) : (s.getSelector i r).1.drvSel = s.drvSel := by
  cases r <;> rfl

/-- One turn of the loop of `regulator_core_init`. -/
theorem Booted.initDev {configs : List RegConfig} {hw : RegHw} {s : RegSys} {cfg : RegConfig}
    (h : Booted configs hw s) (hno : NoBankSupply configs) (hcfg : cfg ∈ configs) :
    Booted configs hw (s.initDev cfg) := by
  unfold RegSys.initDev
  dsimp only
  by_cases hcheck : s.checkConfig cfg = rtEok
  · rw [if_neg (not_not_intro hcheck)]
    by_cases hf : s.fails = true
    · rw [if_pos hf]
      exact h.publish (Kept.refl s).tick hcfg fun he => (by cases he)
    · rw [if_neg hf]
      have htick : Booted configs hw s.tick := ⟨h.pads, h.config, h.up, h.sel, h.source⟩
      obtain ⟨hk, hup⟩ := driverInit_up htick hno hcfg
      rw [show s.tick.devs = s.devs from rfl] at hk hup
      set out := s.tick.driverInit s.devs.length cfg.driver with hout
      have hks : Kept s out.1 := (Kept.refl s).tick.trans hk
      by_cases hret : out.2.1 = rtEok
      · rw [if_neg (not_not_intro hret)]
        by_cases hrange : checkRange cfg out.2.2 = rtEok
        · rw [if_neg (not_not_intro hrange)]
          have hget := hks.getSelector (i := s.devs.length) (r := out.2.2)
          have hdrv := getSelector_drvSel out.1 s.devs.length out.2.2
          split
          · rename_i s1 hs1
            rw [hs1] at hget
            exact h.publish hget hcfg fun he => (by cases he)
          · rename_i s1 sel hs1
            rw [hs1] at hget hdrv
            split
            · exact h.publish hget hcfg fun he => (by cases he)
            · apply h.publish hget.setCoreSel hcfg
              intro _
              exact (hup hret).kept (congrFun hdrv _)
        · rw [if_pos hrange]
          exact h.publish hks hcfg fun he => absurd he hrange
      · rw [if_pos hret]
        exact h.publish hks hcfg fun he => absurd he hret
  · rw [if_pos hcheck]
    exact h.publish (Kept.refl s) hcfg fun he => absurd he hcheck

theorem coreInit_booted (configs : List RegConfig) (hw : RegHw) (faults : ℕ → Bool) (hno : NoBankSupply configs) :
    Booted configs hw (coreInit configs hw faults) := by
  have hfold : ∀ (l : List RegConfig) (s : RegSys), (∀ cfg ∈ l, cfg ∈ configs) → Booted configs hw s →
      Booted configs hw (l.foldl initDev s) := by
    intro l
    induction l with
    | nil =>
      intro s _ h
      exact h
    | cons cfg l ih =>
      intro s hl h
      apply ih
      · intro cfg' hcfg'
        exact hl cfg' (List.mem_cons_of_mem _ hcfg')
      · exact h.initDev hno (hl cfg (List.mem_cons_self ..))
  apply hfold configs _ (fun _ h => h)
  refine ⟨rfl, ?_, ?_, ?_, ?_⟩
  · intro r hr
    cases hr
  · intro r hr
    cases hr
  · intro i bank supply hi
    cases hi
  · intro i bank a hi
    cases hi

theorem Booted.inv {configs : List RegConfig} {hw : RegHw} {s : RegSys} (h : Booted configs hw s)
    (hagree : Agree s.devs s.hw) : Inv s.devs { s with history := [] } := by
  refine ⟨rfl, h.source, ?_, ?_, fun _ hmem => (by cases hmem)⟩
  · intro i bank a hi
    have hsel := h.sel i bank (some a) hi
    have hout := hagree i bank a hi _ (iobankPads_head bank)
    rw [h.pads] at hout
    rw [hsel]
    cases hfirst : hw.pads ((iobankPads bank).headD 0) with
    | true =>
      rw [hfirst] at hout
      exact ⟨le_refl 1, hout⟩
    | false =>
      rw [hfirst] at hout
      exact ⟨Nat.zero_le 1, hout⟩
  · intro i bank a hi pad hpad hset
    have hset : s.hw.pads pad = true := hset
    have hout := hagree i bank a hi pad hpad
    rw [hset] at hout
    exact hout

theorem Booted.bankAt {configs : List RegConfig} {hw : RegHw} {s : RegSys} {i : ℕ} {r : RegDev}
    (h : Booted configs hw s) (hr : s.devs[i]? = some r) (hb : r.config.isBank = true) : BankAt s.devs i := by
  refine ⟨r, hr, fun he => ?_⟩
  have hup := h.up r (List.mem_of_getElem? hr) he
  rw [if_pos hb] at hup
  exact hup

/-- The calls on the bank rails after the boot, with the states of the hardware that they write. -/
def bankCalls (configs : List RegConfig) (hw : RegHw) (faults : ℕ → Bool) (calls : List (ℕ × ℤ × ℤ)) : RegSys :=
  { coreInit configs hw faults with history := [] }.setVoltages calls

/-- A bank rail of the table. -/
def IsBankRail (devs : List RegDev) (i : ℕ) : Prop :=
  ∃ r, devs[i]? = some r ∧ r.config.isBank = true

/-- Where no bank feeds a bank, calls on rails that share nothing with another bank never let a pad in 1.8 V mode see
3.3 V, and the banks report the voltage of their supplies. -/
theorem pads_never_overvolted (configs : List RegConfig) (hw : RegHw) (faults : ℕ → Bool)
    (calls : List (ℕ × ℤ × ℤ)) (hno : NoBankSupply configs)
    (hagree : Agree (coreInit configs hw faults).devs (coreInit configs hw faults).hw)
    (hcalls : ∀ call ∈ calls, IsBankRail (coreInit configs hw faults).devs call.1 ∧
      Alone (coreInit configs hw faults).devs call.1) :
    let s := bankCalls configs hw faults calls
    s.devs = (coreInit configs hw faults).devs ∧
    (∀ hw' ∈ s.hw :: s.history, PadsSafe s.devs hw') ∧
    ∀ i bank a, bankRail s.devs i = some (bank, some a) →
      ∃ v, (s.getVoltage i).2 = .ok v ∧ output s.devs s.hw a = some v := by
  have hboot := coreInit_booted configs hw faults hno
  have h : Inv (coreInit configs hw faults).devs (bankCalls configs hw faults calls) := by
    apply (hboot.inv hagree).setVoltages
    intro call hcall
    obtain ⟨⟨r, hr, hb⟩, halone⟩ := hcalls call hcall
    exact ⟨hboot.bankAt hr hb, halone⟩
  refine ⟨h.table, ?_, ?_⟩
  · intro hw' hmem
    rw [h.table]
    obtain rfl | hmem := List.mem_cons.mp hmem
    · exact h.held.padsSafe
    · exact (h.history hw' hmem).padsSafe
  · intro i bank a hi
    rw [h.table] at hi ⊢
    exact h.getVoltage hi

def sharedRail : List RegConfig :=
  [⟨some "vddio", some (.gpio (some ⟨none, some 1, (uv1v8, uv3v3)⟩)), uv1v8, uv3v3⟩,
    ⟨some "io2", some (.k230Iobank (some ⟨0, some "vddio"⟩)), uv1v8, uv3v3⟩,
    ⟨some "io14", some (.k230Iobank (some ⟨1, some "vddio"⟩)), uv1v8, uv3v3⟩]

def highHw : RegHw :=
  { pads := fun _ => false, cells := fun _ => 1 }

theorem sharedRail_devs : (coreInit sharedRail highHw fun _ => false).devs =
    [⟨⟨some "vddio", some (.gpio (some ⟨none, some 1, (uv1v8, uv3v3)⟩)), uv1v8, uv3v3⟩, rtEok,
        .gpio ⟨none, some 1, (uv1v8, uv3v3)⟩⟩,
      ⟨⟨some "io2", some (.k230Iobank (some ⟨0, some "vddio"⟩)), uv1v8, uv3v3⟩, rtEok, .iobank 0 (some 0)⟩,
      ⟨⟨some "io14", some (.k230Iobank (some ⟨1, some "vddio"⟩)), uv1v8, uv3v3⟩, rtEok, .iobank 1 (some 0)⟩] := by
  decide +kernel

/-- Both banks go to 1.8 V; then the first one goes back to 3.3 V, with the rail that feeds the second. -/
theorem bank_overvolted_by_shared_rail :
    ¬ ∀ (configs : List RegConfig) (hw : RegHw) (faults : ℕ → Bool) (calls : List (ℕ × ℤ × ℤ)),
      Agree (coreInit configs hw faults).devs (coreInit configs hw faults).hw →
      (∀ call ∈ calls, IsBankRail (coreInit configs hw faults).devs call.1) →
      let s := bankCalls configs hw faults calls
      (∀ hw' ∈ s.hw :: s.history, PadsSafe s.devs hw') ∧
      ∀ i bank a, bankRail s.devs i = some (bank, some a) →
        ∀ v, (s.getVoltage i).2 = .ok v → output s.devs s.hw a = some v := by
  intro h
  have hsafe := (h sharedRail highHw (fun _ => false)
    [(1, uv1v8, uv1v8), (2, uv1v8, uv1v8), (1, uv3v3, uv3v3)] ?_ ?_).1 _ (List.mem_cons_self ..)
  · apply hsafe 2 1 0 (by decide +kernel) 14 (by decide) (by decide +kernel)
    decide +kernel
  · intro i bank a hi
    match i with
    | 0 => simp [sharedRail_devs, bankRail] at hi
    | 1 =>
      rw [sharedRail_devs] at hi
      cases hi
      decide +kernel
    | 2 =>
      rw [sharedRail_devs] at hi
      cases hi
      decide +kernel
    | n + 3 => simp [sharedRail_devs, bankRail] at hi
  · rw [sharedRail_devs]
    intro call hcall
    simp only [List.mem_cons, List.not_mem_nil, or_false] at hcall
    obtain rfl | rfl | rfl := hcall
    · exact ⟨_, rfl, rfl⟩
    · exact ⟨_, rfl, rfl⟩
    · exact ⟨_, rfl, rfl⟩

/-- A bank with a rail of its own goes down and up again. -/
theorem pads_never_overvolted_demo :
    let configs := sharedRail.take 2
    let s := bankCalls configs highHw (fun _ => false) [(1, uv1v8, uv1v8), (1, uv3v3, uv3v3)]
    s.devs = (coreInit configs highHw fun _ => false).devs ∧
    (∀ hw' ∈ s.hw :: s.history, PadsSafe s.devs hw') ∧
    ∀ i bank a, bankRail s.devs i = some (bank, some a) →
      ∃ v, (s.getVoltage i).2 = .ok v ∧ output s.devs s.hw a = some v := by
  have hdevs : (coreInit (sharedRail.take 2) highHw fun _ => false).devs =
      [⟨⟨some "vddio", some (.gpio (some ⟨none, some 1, (uv1v8, uv3v3)⟩)), uv1v8, uv3v3⟩, rtEok,
          .gpio ⟨none, some 1, (uv1v8, uv3v3)⟩⟩,
        ⟨⟨some "io2", some (.k230Iobank (some ⟨0, some "vddio"⟩)), uv1v8, uv3v3⟩, rtEok, .iobank 0 (some 0)⟩] := by
    decide +kernel
  have hrail : ∀ i bank supply, bankRail (coreInit (sharedRail.take 2) highHw fun _ => false).devs i =
      some (bank, supply) → i = 1 ∧ bank = 0 ∧ supply = some 0 := by
    intro i bank supply hi
    match i with
    | 0 => simp [hdevs, bankRail] at hi
    | 1 =>
      rw [hdevs] at hi
      cases hi
      exact ⟨rfl, rfl, rfl⟩
    | n + 2 => simp [hdevs, bankRail] at hi
  apply pads_never_overvolted
  · intro cfg hcfg data hdrv name hname sup hsup hb
    simp only [sharedRail, List.take_succ_cons, List.take_zero, List.mem_cons, List.not_mem_nil, or_false]
      at hcfg hsup
    obtain rfl | rfl := hcfg
    · cases hdrv
    · cases hdrv
      cases hname
      obtain rfl | rfl := hsup
      · cases hb
      · decide
  · intro i bank a hi
    obtain ⟨rfl, rfl, h⟩ := hrail i bank _ hi
    cases h
    decide +kernel
  · intro call hcall
    have hcall1 : call.1 = 1 := by
      simp only [List.mem_cons, List.not_mem_nil, or_false] at hcall
      obtain rfl | rfl := hcall
      · rfl
      · rfl
    rw [hcall1]
    constructor
    · rw [hdevs]
      exact ⟨_, rfl, rfl⟩
    · intro bank supply _ j hj bank' supply' hj'
      exact absurd (hrail j bank' supply' hj').1 hj

end RegSys

end RtSmart
