import RtSmart.Drivers.Regulator
import RtSmart.Lib.Transition

/-!
The regulator core (`regulator.c`) over a provider that fails at will: the selection, the cached selector and the waits.
`int` values are integers, wrapped to 32 bits where the code adds or multiplies them.
-/

namespace RtSmart.RegulatorCore

open Lib

abbrev rtEnosys : ℤ := 6

/-- `volt_table`, or the linear range of the driver. -/
inductive VoltRange
  | linear (minUv stepUv : ℤ) (nVoltages : ℕ)
  | table (voltTable : List ℤ)
deriving DecidableEq

/-- What the core uses of `struct regulator_config`, its driver and `struct regulator_dev`. -/
structure RailConfig where
  range : VoltRange
  minUv : ℤ
  maxUv : ℤ
  rampUvPerUs : ℕ
  settleUs : ℕ
  alwaysOn : Bool
  hasSetEnable : Bool
deriving DecidableEq

def regulatorNSel : VoltRange → ℕ
  | .linear _ _ nVoltages => nVoltages
  | .table voltTable => voltTable.length

def regulatorUv (r : VoltRange) (sel : ℕ) : ℤ :=
  match r with
  | .linear minUv stepUv _ => Int.bmod (minUv + sel * stepUv) (2 ^ 32)
  | .table voltTable => voltTable.getD sel 0

def regulatorRange (r : VoltRange) : ℤ × ℤ :=
  match r with
  | .linear _ _ nVoltages => (regulatorUv r 0, regulatorUv r (nVoltages - 1))
  | .table voltTable => (voltTable.foldl min (regulatorUv r 0), voltTable.foldl max (regulatorUv r 0))

/-- `none` is `-RT_EINVAL`. -/
def regulatorSelect (cfg : RailConfig) (minUv maxUv : ℤ) : Option ℕ :=
  let lo := max minUv cfg.minUv
  let hi := min maxUv cfg.maxUv
  if hi < lo then none
  else
    match cfg.range with
    | .table voltTable => selectTable voltTable lo hi
    | .linear drvMin stepUv nVoltages =>
      let linear := if lo ≤ drvMin then 0 else (lo - drvMin + stepUv - 1) / stepUv
      if nVoltages ≤ linear ∨ hi < regulatorUv cfg.range linear.toNat then none else some linear.toNat

/-- A `uint32_t` number of microseconds. -/
def regulatorSettleUs (cfg : RailConfig) (fromUv : ℤ) (selTo : ℕ) : ℕ :=
  let uv := regulatorUv cfg.range selTo
  if 0 ≤ fromUv ∧ uv ≤ fromUv then 0
  else
    let start := if fromUv < 0 then (regulatorRange cfg.range).1 else fromUv
    if cfg.rampUvPerUs ≠ 0 ∧ start < uv then
      (cfg.settleUs + ((uv - start).toNat % 2 ^ 32 + cfg.rampUvPerUs - 1) % 2 ^ 32 / cfg.rampUvPerUs) % 2 ^ 32
    else cfg.settleUs

/-- The argument of `rt_thread_mdelay`. -/
def delayMs (us : ℕ) : ℕ := (us + 999) % 2 ^ 32 / 1000

/-- What a call does to the provider, with the answer, and its wait. -/
inductive ProviderCall
  | setEnable (enable : Bool) (ret : ℤ)
  | setSelector (sel : ℕ) (ret : ℤ)
  | getSelector (ret : ℤ) (sel : ℕ)
  | delay (ms : ℕ)
deriving DecidableEq

def withDelay (us : ℕ) (c : ProviderCall) : List ProviderCall := if us ≠ 0 then [.delay (delayMs us), c] else [c]

/-- `reg->sel` behind an access of the provider. -/
def newSel (ret : ℤ) (sel : ℕ) : ℤ := if ret ≠ 0 then -1 else Int.bmod sel (2 ^ 32)

/-- A call of the core, with whether the lock is taken in time and what the provider answers. -/
inductive Request
  | enable (enable lock : Bool) (ret : ℤ)
  | setVoltage (minUv maxUv : ℤ) (lock : Bool) (ret : ℤ)
  | getVoltage (lock : Bool) (ret : ℤ) (sel : ℕ)

/-- `reg->sel`, and all calls up to now, the last one first. -/
structure Rail where
  sel : ℤ
  trace : List ProviderCall

/-- The result of a call, `reg->sel` behind it and what it did, the last thing first. -/
structure Outcome where
  result : ℤ
  sel : ℤ
  calls : List ProviderCall

def regulatorEnable (cfg : RailConfig) (r : Rail) (enable lock : Bool) (ret : ℤ) : Outcome :=
  if !enable ∧ cfg.alwaysOn then ⟨-rtEinval, r.sel, []⟩
  else if !cfg.hasSetEnable then ⟨-rtEnosys, r.sel, []⟩
  else if !lock then ⟨-rtEtimeout, r.sel, []⟩
  else
    let us := if ret = 0 ∧ enable ∧ 0 ≤ r.sel then regulatorSettleUs cfg 0 r.sel.toNat else 0
    ⟨ret, r.sel, withDelay us (.setEnable enable ret)⟩

def startUv (cfg : RailConfig) (r : Rail) : ℤ :=
  if 0 ≤ r.sel then regulatorUv cfg.range r.sel.toNat else -1

def regulatorSetVoltage (cfg : RailConfig) (r : Rail) (minUv maxUv : ℤ) (lock : Bool) (ret : ℤ) : Outcome :=
  match regulatorSelect cfg minUv maxUv with
  | none => ⟨-rtEinval, r.sel, []⟩
  | some sel =>
    if !lock then ⟨-rtEtimeout, r.sel, []⟩
    else
      let us := regulatorSettleUs cfg (startUv cfg r) sel
      ⟨ret, newSel ret sel, withDelay (if ret = 0 then us else 0) (.setSelector sel ret)⟩

def regulatorGetVoltage (cfg : RailConfig) (r : Rail) (lock : Bool) (ret : ℤ) (sel : ℕ) : Outcome :=
  if !lock then ⟨-rtEtimeout, r.sel, []⟩
  else
    let result := if ret = 0 ∧ regulatorNSel cfg.range ≤ sel then -rtEio else ret
    ⟨result, newSel result sel, [.getSelector ret sel]⟩

def call (cfg : RailConfig) (r : Rail) : Request → Outcome
  | .enable enable lock ret => regulatorEnable cfg r enable lock ret
  | .setVoltage minUv maxUv lock ret => regulatorSetVoltage cfg r minUv maxUv lock ret
  | .getVoltage lock ret sel => regulatorGetVoltage cfg r lock ret sel

def step (cfg : RailConfig) (r : Rail) (q : Request) : Option Rail :=
  some ⟨(call cfg r q).sel, (call cfg r q).calls ++ r.trace⟩

/-- `regulator_check_config`, of what the core uses. -/
def regulatorCheckConfig (cfg : RailConfig) : ℤ := if cfg.maxUv < cfg.minUv then -rtEinval else rtEok

def noVoltage : VoltRange → Bool
  | .table voltTable => voltTable.isEmpty
  | .linear _ stepUv nVoltages => stepUv ≤ 0 ∨ nVoltages = 0

def regulatorCheckRange (cfg : RailConfig) : ℤ :=
  if noVoltage cfg.range then -rtEinval
  else if cfg.minUv < (regulatorRange cfg.range).1 ∨ (regulatorRange cfg.range).2 < cfg.maxUv then -rtEinval
  else rtEok

/-- The rail behind `regulator_core_init`, whose read of the selector went well. -/
def initRail (sel : ℕ) : Rail := ⟨newSel 0 sel, [.getSelector 0 sel]⟩

/-! The voltages. -/

/-- The voltages are those of an `int`. -/
def VoltRange.Fits : VoltRange → Prop
  | .linear minUv stepUv nVoltages => -2 ^ 31 ≤ minUv ∧ minUv + (nVoltages - 1) * stepUv < 2 ^ 31
  | .table voltTable => ∀ v ∈ voltTable, -2 ^ 31 ≤ v ∧ v < 2 ^ 31

/-- A rail that has passed the checks. -/
structure Accepted (cfg : RailConfig) : Prop where
  config : regulatorCheckConfig cfg = rtEok
  range : regulatorCheckRange cfg = rtEok
  fits : cfg.range.Fits

def InWindow (cfg : RailConfig) (minUv maxUv : ℤ) (sel : ℕ) : Prop :=
  max minUv cfg.minUv ≤ regulatorUv cfg.range sel ∧ regulatorUv cfg.range sel ≤ min maxUv cfg.maxUv

def IsLowest (cfg : RailConfig) (minUv maxUv : ℤ) (sel : ℕ) : Prop :=
  sel < regulatorNSel cfg.range ∧ InWindow cfg minUv maxUv sel ∧
    ∀ other < regulatorNSel cfg.range, InWindow cfg minUv maxUv other → regulatorUv cfg.range sel ≤ regulatorUv cfg.range other

section

variable {cfg : RailConfig} {minUv maxUv : ℤ} {sel : ℕ} {t : List ℤ} {lo hi : ℤ}

def pick (t : List ℤ) (lo hi : ℤ) (best : Option ℕ) (s : ℕ) : Option ℕ :=
  if lo ≤ t.getD s 0 ∧ t.getD s 0 ≤ hi ∧ best.all (fun b => t.getD s 0 < t.getD b 0) then some s else best

/-- The lowest voltage of the selectors below `n`. -/
def IsPick (t : List ℤ) (lo hi : ℤ) (n : ℕ) : Option ℕ → Prop
  | none => ∀ s < n, ¬ (lo ≤ t.getD s 0 ∧ t.getD s 0 ≤ hi)
  | some b => b < n ∧ (lo ≤ t.getD b 0 ∧ t.getD b 0 ≤ hi) ∧ ∀ s < n, lo ≤ t.getD s 0 → t.getD s 0 ≤ hi → t.getD b 0 ≤ t.getD s 0

theorem pick_isPick {n : ℕ} {best : Option ℕ} (h : IsPick t lo hi n best) : IsPick t lo hi (n + 1) (pick t lo hi best n) := by
  unfold pick
  split
  · rename_i hnew
    refine ⟨Nat.lt_succ_self n, ⟨hnew.1, hnew.2.1⟩, fun s hs hlo hhi => ?_⟩
    rcases Nat.lt_succ_iff_lt_or_eq.mp hs with hlt | rfl
    · cases best with
      | none => exact absurd ⟨hlo, hhi⟩ (h s hlt)
      | some b =>
        have hless : t.getD n 0 < t.getD b 0 := by simpa using hnew.2.2
        exact hless.le.trans (h.2.2 s hlt hlo hhi)
    · exact le_rfl
  · rename_i hold
    cases best with
    | none =>
      intro s hs hin
      rcases Nat.lt_succ_iff_lt_or_eq.mp hs with hlt | rfl
      · exact h s hlt hin
      · exact hold ⟨hin.1, hin.2, rfl⟩
    | some b =>
      refine ⟨h.1.trans (Nat.lt_succ_self n), h.2.1, fun s hs hlo hhi => ?_⟩
      rcases Nat.lt_succ_iff_lt_or_eq.mp hs with hlt | rfl
      · exact h.2.2 s hlt hlo hhi
      · by_contra hless
        exact hold ⟨hlo, hhi, by simpa using hless⟩

theorem selectTable_isPick (t : List ℤ) (lo hi : ℤ) : IsPick t lo hi t.length (selectTable t lo hi) := by
  have hfold : ∀ n, IsPick t lo hi n ((List.range n).foldl (pick t lo hi) none) := by
    intro n
    induction n with
    | zero => exact fun s hs => absurd hs (Nat.not_lt_zero s)
    | succ n ih =>
      rw [List.range_succ, List.foldl_append]
      exact pick_isPick ih
  exact hfold t.length

theorem regulatorUv_linear {m st : ℤ} {n : ℕ} (hfits : (VoltRange.linear m st n).Fits) (hstep : 0 < st) (hsel : sel < n) :
    regulatorUv (.linear m st n) sel = m + sel * st := by
  obtain ⟨hlow, hhigh⟩ := hfits
  have hnonneg : 0 ≤ (sel : ℤ) * st := by positivity
  have htop : (sel : ℤ) * st ≤ (n - 1) * st := by
    apply Int.mul_le_mul_of_nonneg_right
    · omega
    · exact hstep.le
  unfold regulatorUv
  apply Int.bmod_eq_of_le
  · omega
  · omega

theorem Accepted.checked (h : Accepted cfg) :
    noVoltage cfg.range = false ∧ (regulatorRange cfg.range).1 ≤ cfg.minUv ∧ cfg.maxUv ≤ (regulatorRange cfg.range).2 := by
  have hcheck := h.range
  unfold regulatorCheckRange at hcheck
  split at hcheck
  · exact absurd hcheck (by decide)
  · rename_i husable
    split at hcheck
    · exact absurd hcheck (by decide)
    · rename_i hlimits
      rw [not_or, not_lt, not_lt] at hlimits
      exact ⟨Bool.eq_false_iff.mpr husable, hlimits⟩

theorem Accepted.linear {m st : ℤ} {n : ℕ} (h : Accepted cfg) (hrange : cfg.range = .linear m st n) :
    0 < st ∧ 0 < n ∧ (VoltRange.linear m st n).Fits := by
  have hcheck := h.checked.1
  rw [hrange] at hcheck
  have hno : ¬ (st ≤ 0 ∨ n = 0) := of_decide_eq_false hcheck
  exact ⟨by omega, by omega, hrange ▸ h.fits⟩

theorem regulatorSelect_spec (h : Accepted cfg) (minUv maxUv : ℤ) :
    (regulatorSelect cfg minUv maxUv = none ∧ ∀ sel < regulatorNSel cfg.range, ¬ InWindow cfg minUv maxUv sel) ∨
      ∃ sel, regulatorSelect cfg minUv maxUv = some sel ∧ IsLowest cfg minUv maxUv sel := by
  unfold regulatorSelect
  dsimp only
  split
  · rename_i hempty
    exact .inl ⟨rfl, fun sel _ hin => absurd (hin.1.trans hin.2) (not_le.mpr hempty)⟩
  · rename_i hwindow
    unfold IsLowest InWindow
    cases hrange : cfg.range with
    | table t =>
      have hpick := selectTable_isPick t (max minUv cfg.minUv) (min maxUv cfg.maxUv)
      dsimp only [regulatorUv, regulatorNSel]
      cases hselect : selectTable t (max minUv cfg.minUv) (min maxUv cfg.maxUv) with
      | none =>
        rw [hselect] at hpick
        exact .inl ⟨rfl, hpick⟩
      | some s =>
        rw [hselect] at hpick
        exact .inr ⟨s, rfl, hpick.1, hpick.2.1, fun other hlt hin => hpick.2.2 other hlt hin.1 hin.2⟩
    | linear m st n =>
      obtain ⟨hstep, hpos, hfits⟩ := h.linear hrange
      have huv : ∀ sel, sel < n → regulatorUv (.linear m st n) sel = m + sel * st := fun sel =>
        regulatorUv_linear hfits hstep
      have hmono : ∀ a b : ℤ, a ≤ b → a * st ≤ b * st := fun a b hab => Int.mul_le_mul_of_nonneg_right hab hstep.le
      generalize max minUv cfg.minUv = lo at hwindow ⊢
      generalize min maxUv cfg.maxUv = hi at hwindow ⊢
      dsimp only [regulatorNSel]
      -- The index of the first voltage from `lo` on.
      obtain ⟨k, hk, hreach, hfirst⟩ : ∃ k : ℕ, (if lo ≤ m then 0 else (lo - m + st - 1) / st) = (k : ℤ) ∧
          lo ≤ m + k * st ∧ ∀ other : ℕ, lo ≤ m + other * st → k ≤ other := by
        split
        · rename_i hlow
          exact ⟨0, rfl, by simpa using hlow, fun _ _ => Nat.zero_le _⟩
        · rename_i hlow
          have hdiv := Int.mul_ediv_add_emod (lo - m + st - 1) st
          have hmod := Int.emod_lt_of_pos (lo - m + st - 1) hstep
          have hmod' := Int.emod_nonneg (lo - m + st - 1) hstep.ne'
          have hnonneg : 0 ≤ (lo - m + st - 1) / st := Int.ediv_nonneg (by omega) hstep.le
          refine ⟨((lo - m + st - 1) / st).toNat, (Int.toNat_of_nonneg hnonneg).symm, ?_, fun other hother => ?_⟩
          · rw [Int.toNat_of_nonneg hnonneg, Int.mul_comm]
            omega
          · by_contra hless
            have hprev := hmono (other + 1) ((lo - m + st - 1) / st) (by omega)
            have hexpand : ((other : ℤ) + 1) * st = other * st + st := by ring
            have hcomm : (lo - m + st - 1) / st * st = st * ((lo - m + st - 1) / st) := Int.mul_comm _ _
            omega
      rw [hk, Int.toNat_natCast]
      split
      · rename_i hover
        refine .inl ⟨rfl, fun sel hsel hin => ?_⟩
        rw [huv sel hsel] at hin
        have hle := hfirst sel hin.1
        rcases hover with hend | hhigh
        · omega
        · rw [huv k (by omega)] at hhigh
          have := hmono k sel (by omega)
          omega
      · rename_i hinside
        have hlt : k < n := by omega
        have hin := huv k hlt
        refine .inr ⟨k, rfl, hlt, ⟨hin ▸ hreach, by omega⟩, fun other hother hwin => ?_⟩
        rw [huv other hother] at hwin ⊢
        have := hmono k other (by exact_mod_cast hfirst other hwin.1)
        omega

theorem foldl_min_le (t : List ℤ) (first : ℤ) : t.foldl min first ≤ first ∧ ∀ v ∈ t, t.foldl min first ≤ v := by
  induction t generalizing first with
  | nil => exact ⟨le_rfl, fun v hv => absurd hv List.not_mem_nil⟩
  | cons w t ih =>
    obtain ⟨hfirst, hrest⟩ := ih (min first w)
    refine ⟨hfirst.trans (min_le_left _ _), fun v hv => ?_⟩
    rcases List.mem_cons.mp hv with rfl | hv
    · exact hfirst.trans (min_le_right _ _)
    · exact hrest v hv

theorem regulatorRange_le (h : Accepted cfg) (hsel : sel < regulatorNSel cfg.range) :
    (regulatorRange cfg.range).1 ≤ regulatorUv cfg.range sel := by
  cases hrange : cfg.range with
  | table t =>
    rw [hrange] at hsel
    have hlt : sel < t.length := hsel
    refine (foldl_min_le t (regulatorUv (.table t) 0)).2 _ ?_
    dsimp only [regulatorUv]
    rw [List.getD_eq_getElem?_getD, List.getElem?_eq_getElem hlt, Option.getD_some]
    exact List.getElem_mem hlt
  | linear m st n =>
    obtain ⟨hstep, hpos, hfits⟩ := h.linear hrange
    rw [hrange] at hsel
    have hlt : sel < n := hsel
    have hnonneg : 0 ≤ (sel : ℤ) * st := by positivity
    dsimp only [regulatorRange]
    rw [regulatorUv_linear hfits hstep hpos, regulatorUv_linear hfits hstep hlt, Nat.cast_zero, Int.zero_mul]
    omega

/-! What is known of the output, and how long a rise takes. -/

/-- The selector of the output, when it is known: a write that fails leaves it unknown, a read that fails leaves it as it
was, a read that succeeds is believed. Switching, also when it fails, does not touch it. -/
def level (n : ℕ) : List ProviderCall → Option ℕ
  | [] => none
  | .setSelector sel ret :: _ => if ret = 0 then some sel else none
  | .getSelector ret sel :: calls => if ret ≠ 0 then level n calls else if sel < n then some sel else none
  | .setEnable _ _ :: calls => level n calls
  | .delay _ :: calls => level n calls

def lastConfirmed (n : ℕ) : List ProviderCall → Option ℕ
  | [] => none
  | .setSelector sel ret :: calls => if ret = 0 then some sel else lastConfirmed n calls
  | .getSelector ret sel :: calls => if ret = 0 ∧ sel < n then some sel else lastConfirmed n calls
  | .setEnable _ _ :: calls => lastConfirmed n calls
  | .delay _ :: calls => lastConfirmed n calls

/-- The microseconds of a rise at `ramp_uv_per_us`, rounded up. -/
def rise (cfg : RailConfig) (start uv : ℤ) : ℕ :=
  if cfg.rampUvPerUs = 0 then 0 else ((uv - start).toNat + cfg.rampUvPerUs - 1) / cfg.rampUvPerUs

/-- What a rise from `start` takes; nothing when it is none. -/
def settling (cfg : RailConfig) (start uv : ℤ) : ℕ := if uv ≤ start then 0 else cfg.settleUs + rise cfg start uv

def settlingFrom (cfg : RailConfig) (known : Option ℕ) (uv : ℤ) : ℕ :=
  match known with
  | some s => settling cfg (regulatorUv cfg.range s) uv
  | none => cfg.settleUs + rise cfg (regulatorRange cfg.range).1 uv

def waited : List ProviderCall → ℕ
  | [] => 0
  | .delay ms :: calls => 1000 * ms + waited calls
  | _ :: calls => waited calls

def NoWrap (cfg : RailConfig) (start uv : ℤ) : Prop :=
  (uv - start).toNat + cfg.rampUvPerUs ≤ 2 ^ 32 ∧ cfg.settleUs + rise cfg start uv + 999 < 2 ^ 32

def Timely (cfg : RailConfig) (fromUv : ℤ) (sel : ℕ) : Prop :=
  0 ≤ fromUv ∧ regulatorUv cfg.range sel ≤ fromUv ∨
    NoWrap cfg (if fromUv < 0 then (regulatorRange cfg.range).1 else fromUv) (regulatorUv cfg.range sel)

theorem le_delayMs {us : ℕ} (h : us + 999 < 2 ^ 32) : us ≤ 1000 * delayMs us := by
  unfold delayMs
  rw [Nat.mod_eq_of_lt h]
  omega

theorem rise_le {start start' uv : ℤ} (h : start ≤ start') : rise cfg start' uv ≤ rise cfg start uv := by
  unfold rise
  split
  · exact le_rfl
  · apply Nat.div_le_div_right
    omega

theorem rise_of_le {start uv : ℤ} (h : uv ≤ start) : rise cfg start uv = 0 := by
  unfold rise
  split
  · rfl
  · apply Nat.div_eq_of_lt
    omega

theorem settling_le {start start' uv : ℤ} (h : start ≤ start') :
    settling cfg start' uv ≤ cfg.settleUs + rise cfg start uv := by
  unfold settling
  split
  · exact Nat.zero_le _
  · exact Nat.add_le_add_left (rise_le h) _

theorem regulatorSettleUs_eq {fromUv : ℤ} (h : Timely cfg fromUv sel) :
    regulatorSettleUs cfg fromUv sel + 999 < 2 ^ 32 ∧
      if 0 ≤ fromUv then regulatorSettleUs cfg fromUv sel = settling cfg fromUv (regulatorUv cfg.range sel)
      else regulatorSettleUs cfg fromUv sel =
        cfg.settleUs + rise cfg (regulatorRange cfg.range).1 (regulatorUv cfg.range sel) := by
  have hus : ∀ start uv : ℤ, NoWrap cfg start uv →
      (if cfg.rampUvPerUs ≠ 0 ∧ start < uv then
        (cfg.settleUs + ((uv - start).toNat % 2 ^ 32 + cfg.rampUvPerUs - 1) % 2 ^ 32 / cfg.rampUvPerUs) % 2 ^ 32
        else cfg.settleUs) = cfg.settleUs + rise cfg start uv := by
    rintro start uv ⟨hdiff, hsum⟩
    split
    · rename_i hrise
      unfold rise at hsum ⊢
      rw [if_neg hrise.1] at hsum ⊢
      have hpos := Nat.pos_of_ne_zero hrise.1
      rw [Nat.mod_eq_of_lt (by omega : (uv - start).toNat < 2 ^ 32),
        Nat.mod_eq_of_lt (by omega : (uv - start).toNat + cfg.rampUvPerUs - 1 < 2 ^ 32), Nat.mod_eq_of_lt (by omega)]
    · rename_i hno
      rw [not_and_or, not_not, not_lt] at hno
      rcases hno with hramp | hfall
      · unfold rise
        rw [if_pos hramp, Nat.add_zero]
      · rw [rise_of_le hfall, Nat.add_zero]
  unfold regulatorSettleUs
  dsimp only
  rcases h with hfall | hwrap
  · rw [if_pos hfall, if_pos hfall.1]
    unfold settling
    rw [if_pos hfall.2]
    exact ⟨by decide, rfl⟩
  · by_cases hfall : 0 ≤ fromUv ∧ regulatorUv cfg.range sel ≤ fromUv
    · rw [if_pos hfall, if_pos hfall.1]
      unfold settling
      rw [if_pos hfall.2]
      exact ⟨by decide, rfl⟩
    · rw [if_neg hfall, hus _ _ hwrap]
      refine ⟨hwrap.2, ?_⟩
      split
      · rename_i hknown
        unfold settling
        rw [if_neg (not_lt.mpr hknown), if_neg fun hle => hfall ⟨hknown, hle⟩]
      · rename_i hunknown
        rw [if_pos (not_le.mp hunknown)]

/-! Runs. -/

/-- `reg->sel` is -1, or what the provider has confirmed last. -/
def Cached (cfg : RailConfig) (r : Rail) : Prop :=
  r.sel = -1 ∨ ∃ sel : ℕ, r.sel = sel ∧ lastConfirmed (regulatorNSel cfg.range) r.trace = some sel

/-- A call of `regulator_set_voltage` goes to the provider with the lowest voltage inside the window, or there is none and the
provider is not called. -/
def Selected (cfg : RailConfig) (r : Rail) : Request → Prop
  | .setVoltage minUv maxUv lock ret =>
    ((∀ sel < regulatorNSel cfg.range, ¬ InWindow cfg minUv maxUv sel) ∧
        (regulatorSetVoltage cfg r minUv maxUv lock ret).result = -rtEinval ∧
        (regulatorSetVoltage cfg r minUv maxUv lock ret).calls = []) ∨
      ∃ sel, IsLowest cfg minUv maxUv sel ∧
        if lock then
          (regulatorSetVoltage cfg r minUv maxUv lock ret).result = ret ∧
            .setSelector sel ret ∈ (regulatorSetVoltage cfg r minUv maxUv lock ret).calls
        else
          (regulatorSetVoltage cfg r minUv maxUv lock ret).result = -rtEtimeout ∧
            (regulatorSetVoltage cfg r minUv maxUv lock ret).calls = []
  | _ => True

/-- A call that returns 0 has waited: for the rise to the new selector, or, when the rail is switched on, for the rise from 0 V
to any voltage that it can have. -/
def Settled (cfg : RailConfig) (r : Rail) : Request → Prop
  | .setVoltage minUv maxUv lock ret =>
    (regulatorSetVoltage cfg r minUv maxUv lock ret).result = 0 →
      ∀ sel, .setSelector sel 0 ∈ (regulatorSetVoltage cfg r minUv maxUv lock ret).calls →
        settlingFrom cfg (level (regulatorNSel cfg.range) r.trace) (regulatorUv cfg.range sel) ≤
          waited (regulatorSetVoltage cfg r minUv maxUv lock ret).calls
  | .enable true lock ret =>
    (regulatorEnable cfg r true lock ret).result = 0 →
      ∀ sel < regulatorNSel cfg.range, (∀ s, level (regulatorNSel cfg.range) r.trace = some s → s = sel) →
        settling cfg 0 (regulatorUv cfg.range sel) ≤ waited (regulatorEnable cfg r true lock ret).calls
  | _ => True

/-- The rail is switched on with a known selector, unless it needs no time, and no wait or selector is too large. -/
def Known (cfg : RailConfig) (r : Rail) : Request → Prop
  | .enable true _ _ => if 0 ≤ r.sel then Timely cfg 0 r.sel.toNat else cfg.settleUs = 0 ∧ cfg.rampUvPerUs = 0
  | .setVoltage minUv maxUv _ _ =>
    ∀ sel, regulatorSelect cfg minUv maxUv = some sel → sel < 2 ^ 31 ∧ Timely cfg (startUv cfg r) sel
  | .getVoltage _ ret sel => ret = 0 → sel < regulatorNSel cfg.range → sel < 2 ^ 31
  | _ => True

/-- `reg->sel` is -1, or the selector of the output. -/
structure Tracked (cfg : RailConfig) (r : Rail) : Prop where
  sel : r.sel = -1 ∨ ∃ sel : ℕ, r.sel = sel ∧ level (regulatorNSel cfg.range) r.trace = some sel ∧
    lastConfirmed (regulatorNSel cfg.range) r.trace = some sel
  level_lt : ∀ sel, level (regulatorNSel cfg.range) r.trace = some sel → sel < regulatorNSel cfg.range

section

variable {r : Rail} {q : Request}

theorem newSel_ok (h : sel < 2 ^ 31) : newSel 0 sel = sel := by
  unfold newSel
  rw [if_neg (by decide)]
  exact Int.bmod_eq_of_le (by omega) (by omega)

theorem newSel_failed {ret : ℤ} (h : ret ≠ 0) (sel : ℕ) : newSel ret sel = -1 := if_pos h

theorem mem_withDelay {us : ℕ} {c d : ProviderCall} : d ∈ withDelay us c ↔ d = c ∨ us ≠ 0 ∧ d = .delay (delayMs us) := by
  unfold withDelay
  split
  · rename_i hus
    simp only [List.mem_cons, List.not_mem_nil, or_false, hus, ne_eq, not_false_eq_true, true_and]
    exact Or.comm
  · rename_i hus
    simp only [List.mem_singleton, hus, false_and, or_false]

theorem le_waited {us : ℕ} {c : ProviderCall} (h : us + 999 < 2 ^ 32) : us ≤ waited (withDelay us c) := by
  unfold withDelay
  split
  · exact (le_delayMs h).trans (Nat.le_add_right _ _)
  · omega

theorem regulatorSetVoltage_cases (h : Accepted cfg) (r : Rail) (minUv maxUv : ℤ) (lock : Bool) (ret : ℤ) :
    ((∀ sel < regulatorNSel cfg.range, ¬ InWindow cfg minUv maxUv sel) ∧
        regulatorSetVoltage cfg r minUv maxUv lock ret = ⟨-rtEinval, r.sel, []⟩) ∨
      ∃ sel, regulatorSelect cfg minUv maxUv = some sel ∧ IsLowest cfg minUv maxUv sel ∧
        (lock = false ∧ regulatorSetVoltage cfg r minUv maxUv lock ret = ⟨-rtEtimeout, r.sel, []⟩ ∨
          lock = true ∧ regulatorSetVoltage cfg r minUv maxUv lock ret =
            ⟨ret, newSel ret sel,
              withDelay (if ret = 0 then regulatorSettleUs cfg (startUv cfg r) sel else 0) (.setSelector sel ret)⟩) := by
  unfold regulatorSetVoltage
  rcases regulatorSelect_spec h minUv maxUv with ⟨hnone, hno⟩ | ⟨sel, hsome, hlowest⟩
  · rw [hnone]
    exact .inl ⟨hno, rfl⟩
  · rw [hsome]
    refine .inr ⟨sel, rfl, hlowest, ?_⟩
    cases lock with
    | false => exact .inl ⟨rfl, rfl⟩
    | true => exact .inr ⟨rfl, rfl⟩

theorem regulatorEnable_cases (cfg : RailConfig) (r : Rail) (enable lock : Bool) (ret : ℤ) :
    (∃ result, result ≠ 0 ∧ regulatorEnable cfg r enable lock ret = ⟨result, r.sel, []⟩) ∨
      regulatorEnable cfg r enable lock ret =
        ⟨ret, r.sel, withDelay (if ret = 0 ∧ enable ∧ 0 ≤ r.sel then regulatorSettleUs cfg 0 r.sel.toNat else 0)
          (.setEnable enable ret)⟩ := by
  unfold regulatorEnable
  split
  · exact .inl ⟨_, by decide, rfl⟩
  · split
    · exact .inl ⟨_, by decide, rfl⟩
    · split
      · exact .inl ⟨_, by decide, rfl⟩
      · exact .inr rfl

theorem selected (h : Accepted cfg) (r : Rail) (q : Request) : Selected cfg r q := by
  cases q with
  | enable enable lock ret => trivial
  | getVoltage lock ret sel => trivial
  | setVoltage minUv maxUv lock ret =>
    unfold Selected
    dsimp only
    rcases regulatorSetVoltage_cases h r minUv maxUv lock ret with ⟨hno, heq⟩ | ⟨sel, -, hlowest, ⟨rfl, heq⟩ | ⟨rfl, heq⟩⟩
    · rw [heq]
      exact .inl ⟨hno, rfl, rfl⟩
    · rw [heq]
      exact .inr ⟨sel, hlowest, rfl, rfl⟩
    · rw [heq]
      exact .inr ⟨sel, hlowest, rfl, mem_withDelay.mpr (.inl rfl)⟩

theorem level_append_delay {n : ℕ} (calls rest : List ProviderCall) (h : ∀ c ∈ calls, (∃ ms, c = .delay ms) ∨ ∃ on ret,
    c = .setEnable on ret) : level n (calls ++ rest) = level n rest ∧ lastConfirmed n (calls ++ rest) = lastConfirmed n rest := by
  induction calls with
  | nil => exact ⟨rfl, rfl⟩
  | cons c calls ih =>
    have hrest := ih fun d hd => h d (List.mem_cons_of_mem c hd)
    rcases h c List.mem_cons_self with ⟨ms, rfl⟩ | ⟨on, ret, rfl⟩
    · exact hrest
    · exact hrest

theorem level_withDelay {n : ℕ} (sel us : ℕ) (rest : List ProviderCall) :
    level n (withDelay us (.setSelector sel 0) ++ rest) = some sel ∧
      lastConfirmed n (withDelay us (.setSelector sel 0) ++ rest) = some sel := by
  unfold withDelay
  split
  · exact ⟨rfl, rfl⟩
  · exact ⟨rfl, rfl⟩

theorem level_withDelay_failed {ret : ℤ} (h : ret ≠ 0) (n sel : ℕ) (rest : List ProviderCall) :
    level n (withDelay 0 (.setSelector sel ret) ++ rest) = none := if_neg h

theorem tracked_step (h : Accepted cfg) (ht : Tracked cfg r) (hok : Known cfg r q) {r' : Rail} (hs : step cfg r q = some r') :
    Tracked cfg r' := by
  cases Option.some.inj hs
  have hsame : ∀ calls : List ProviderCall, (∀ c ∈ calls, (∃ ms, c = .delay ms) ∨ ∃ on ret, c = .setEnable on ret) →
      Tracked cfg ⟨r.sel, calls ++ r.trace⟩ := by
    intro calls hcalls
    obtain ⟨hlevel, hlast⟩ := level_append_delay calls r.trace hcalls
    refine ⟨?_, ?_⟩
    · dsimp only
      rw [hlevel, hlast]
      exact ht.sel
    · dsimp only
      rw [hlevel]
      exact ht.level_lt
  have hnone : Tracked cfg ⟨r.sel, [] ++ r.trace⟩ := hsame [] fun c hc => absurd hc List.not_mem_nil
  cases q with
  | enable enable lock ret =>
    dsimp only [call]
    rcases regulatorEnable_cases cfg r enable lock ret with ⟨result, -, heq⟩ | heq
    · rw [heq]
      exact hnone
    · rw [heq]
      apply hsame
      intro c hc
      rcases mem_withDelay.mp hc with rfl | ⟨-, rfl⟩
      · exact .inr ⟨_, _, rfl⟩
      · exact .inl ⟨_, rfl⟩
  | setVoltage minUv maxUv lock ret =>
    dsimp only [call]
    rcases regulatorSetVoltage_cases h r minUv maxUv lock ret with ⟨-, heq⟩ | ⟨sel, hsome, hlowest, ⟨-, heq⟩ | ⟨-, heq⟩⟩
    · rw [heq]
      exact hnone
    · rw [heq]
      exact hnone
    · rw [heq]
      rcases eq_or_ne ret 0 with rfl | hfail
      · obtain ⟨hlevel, hlast⟩ := @level_withDelay (regulatorNSel cfg.range) sel
          (regulatorSettleUs cfg (startUv cfg r) sel) r.trace
        refine ⟨?_, fun other hother => ?_⟩
        · dsimp only
          rw [newSel_ok (hok sel hsome).1]
          exact .inr ⟨sel, rfl, hlevel, hlast⟩
        · cases hlevel.symm.trans hother
          exact hlowest.1
      · have hlevel := level_withDelay_failed hfail (regulatorNSel cfg.range) sel r.trace
        refine ⟨.inl (newSel_failed hfail sel), fun other hother => ?_⟩
        rw [if_neg hfail, hlevel] at hother
        cases hother
  | getVoltage lock ret sel =>
    dsimp only [call]
    unfold regulatorGetVoltage
    cases lock with
    | false => exact hnone
    | true =>
      simp only [Bool.not_true, Bool.false_eq_true, if_false]
      rcases eq_or_ne ret 0 with rfl | hfail
      · rcases Nat.lt_or_ge sel (regulatorNSel cfg.range) with hlt | hge
        · have hlevel : level (regulatorNSel cfg.range) ([.getSelector 0 sel] ++ r.trace) = some sel := if_pos hlt
          rw [if_neg fun hyes => absurd hyes.2 (Nat.not_le.mpr hlt)]
          refine ⟨?_, fun other hother => ?_⟩
          · dsimp only
            rw [newSel_ok (hok rfl hlt)]
            exact .inr ⟨sel, rfl, hlevel, if_pos ⟨rfl, hlt⟩⟩
          · cases hlevel.symm.trans hother
            exact hlt
        · have hio : -rtEio ≠ 0 := by decide
          have hlevel : level (regulatorNSel cfg.range) ([.getSelector 0 sel] ++ r.trace) = none :=
            if_neg (Nat.not_lt.mpr hge)
          rw [if_pos ⟨rfl, hge⟩]
          refine ⟨.inl (newSel_failed hio sel), fun other hother => ?_⟩
          cases hlevel.symm.trans hother
      · have hlevel : level (regulatorNSel cfg.range) ([.getSelector ret sel] ++ r.trace) =
            level (regulatorNSel cfg.range) r.trace := if_pos hfail
        rw [if_neg fun hyes => hfail hyes.1]
        refine ⟨.inl (newSel_failed hfail sel), fun other hother => ?_⟩
        exact ht.level_lt other (hlevel.symm.trans hother)

theorem settled (h : Accepted cfg) (ht : Tracked cfg r) (hok : Known cfg r q) : Settled cfg r q := by
  cases q with
  | getVoltage lock ret sel => trivial
  | setVoltage minUv maxUv lock ret =>
    unfold Settled
    dsimp only
    rcases regulatorSetVoltage_cases h r minUv maxUv lock ret with ⟨-, heq⟩ | ⟨sel, hsome, hlowest, ⟨-, heq⟩ | ⟨-, heq⟩⟩
    · rw [heq]
      exact fun hzero => absurd (show -rtEinval = 0 from hzero) (by decide)
    · rw [heq]
      exact fun hzero => absurd (show -rtEtimeout = 0 from hzero) (by decide)
    · rw [heq]
      rintro (rfl : ret = 0) other hother
      have hsame : other = sel := by
        rcases mem_withDelay.mp hother with heq | ⟨-, heq⟩
        · cases heq
          rfl
        · cases heq
      subst hsame
      rw [if_pos rfl]
      obtain ⟨hshort, hus⟩ := regulatorSettleUs_eq (hok other hsome).2
      refine le_trans ?_ (le_waited hshort)
      rcases ht.sel with hunknown | ⟨s, hs, hlevel, -⟩
      · have hstart : startUv cfg r = -1 := by
          unfold startUv
          rw [hunknown]
          rfl
        rw [hstart, if_neg (by decide)] at hus
        rw [hstart, hus]
        unfold settlingFrom
        cases hlevel : level (regulatorNSel cfg.range) r.trace with
        | none => exact le_rfl
        | some s => exact settling_le (regulatorRange_le h (ht.level_lt s hlevel))
      · have hstart : startUv cfg r = regulatorUv cfg.range s := by
          unfold startUv
          rw [hs, if_pos (Int.natCast_nonneg s), Int.toNat_natCast]
        rw [hlevel]
        unfold settlingFrom
        rw [hstart] at hus ⊢
        split at hus
        · exact hus.ge
        · rw [hus]
          exact settling_le (regulatorRange_le h (ht.level_lt s hlevel))
  | enable enable lock ret =>
    cases enable with
    | false => trivial
    | true =>
      unfold Settled
      dsimp only
      rcases regulatorEnable_cases cfg r true lock ret with ⟨result, hbad, heq⟩ | heq
      · rw [heq]
        exact fun hzero => absurd hzero hbad
      · rw [heq]
        rintro (rfl : ret = 0) sel hsel hlevel
        unfold Known at hok
        dsimp only at hok ⊢
        rcases ht.sel with hunknown | ⟨s, hs, hknown, -⟩
        · have hneg : ¬ 0 ≤ r.sel := by omega
          rw [if_neg hneg] at hok
          have hzero : settling cfg 0 (regulatorUv cfg.range sel) = 0 := by
            unfold settling rise
            rw [if_pos hok.2, hok.1]
            exact ite_self 0
          rw [hzero]
          exact Nat.zero_le _
        · cases hlevel s hknown
          have hpos : 0 ≤ r.sel := by omega
          rw [if_pos hpos, hs, Int.toNat_natCast] at hok
          obtain ⟨hshort, hus⟩ := regulatorSettleUs_eq hok
          rw [if_pos le_rfl] at hus
          rw [if_pos ⟨rfl, rfl, hpos⟩, hs, Int.toNat_natCast, ← hus]
          exact le_waited hshort

theorem initRail_tracked (hsel : sel < regulatorNSel cfg.range) (hsmall : sel < 2 ^ 31) : Tracked cfg (initRail sel) := by
  have hlevel : level (regulatorNSel cfg.range) (initRail sel).trace = some sel := if_pos hsel
  have hcached : (initRail sel).sel = sel := by
    unfold initRail
    dsimp only
    exact newSel_ok hsmall
  refine ⟨.inr ⟨sel, hcached, hlevel, if_pos ⟨rfl, hsel⟩⟩, fun other hother => ?_⟩
  cases hlevel.symm.trans hother
  exact hsel

/-- In every run of a usable rail that is switched on only with a known selector: the selector is -1 or confirmed, requests are
exact, and a call that returns 0 has waited. -/
theorem settled_of_known (h : Accepted cfg) (hsel : sel < regulatorNSel cfg.range) (hsmall : sel < 2 ^ 31) {qs : List Request}
    (hrun : run (step cfg) (initRail sel) qs = some r) (hok : Meets (step cfg) (Known cfg) (initRail sel) qs) :
    Cached cfg r ∧ ∀ q, Selected cfg r q ∧ (Known cfg r q → Settled cfg r q) := by
  have ht : Tracked cfg r := run_invariant_of_meets (Tracked cfg) (fun s q s' hs hq hstep => tracked_step h hs hq hstep) hrun hok
    (initRail_tracked hsel hsmall)
  refine ⟨?_, fun q => ⟨selected h r q, settled h ht⟩⟩
  rcases ht.sel with hunknown | ⟨s, hs, -, hlast⟩
  · exact .inl hunknown
  · exact .inr ⟨s, hs, hlast⟩

end

end

/-- A converter from 0.4 V in steps of 5 mV that takes 1 ms. -/
def sampleRail : RailConfig where
  range := .linear 400000 5000 256
  minUv := 600000
  maxUv := 900000
  rampUvPerUs := 1000
  settleUs := 1000
  alwaysOn := false
  hasSetEnable := true

theorem sampleRail_accepted : Accepted sampleRail where
  config := by decide
  range := by decide
  fits := ⟨by decide, by decide⟩

theorem settled_of_known_rise : ∃ r, Cached sampleRail r ∧ ∀ q, Selected sampleRail r q ∧
    (Known sampleRail r q → Settled sampleRail r q) := by
  have hselect : regulatorSelect sampleRail 700000 800000 = some 60 := by decide
  refine ⟨_, @settled_of_known sampleRail 40 _ sampleRail_accepted (by decide) (by decide)
    [.setVoltage 700000 800000 true 0] rfl ⟨fun sel hsel => ?_, fun _ _ => trivial⟩⟩
  cases hselect.symm.trans hsel
  exact ⟨by decide, .inr ⟨by decide, by decide⟩⟩

/-- After a write that has failed, the rail is switched on without a wait. -/
theorem enabled_unsettled : ∃ r, run (step sampleRail) (initRail 40) [.setVoltage 700000 800000 true (-8)] = some r ∧
    ¬ Settled sampleRail r (.enable true true 0) := by
  refine ⟨_, rfl, fun h => ?_⟩
  have hwait := h rfl 60 (by decide) fun s hs => by cases hs
  exact absurd hwait (by decide)

end RtSmart.RegulatorCore
