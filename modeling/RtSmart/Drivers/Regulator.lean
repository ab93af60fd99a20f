import Mathlib.Tactic
import RtSmart.Wlan.Command

/-!
Board voltage regulators: the core (`regulator.c`), the GPIO rails (`regulator_gpio.c`), the IO banks of the K230
(`regulator_k230_iobank.c`) and the TPS6286x chips (`tps6286x.c`). Every access of the hardware asks `faults` whether
it fails; one that fails leaves the hardware as it was. Delays and enable controls are left out, and no other thread
holds a rail's lock.
-/

namespace RtSmart

/-- What a supply write changes: the output register of a GPIO pin, or `VOUT1` of a chip. -/
inductive RegCell
  | pin (p : ℕ)
  | chip (bus : String) (addr : ℕ)
deriving DecidableEq

/-- `pads` is the `msc` bit of the pads: set for 1.8 V mode. -/
structure RegHw where
  pads : ℕ → Bool
  cells : RegCell → ℕ

/-- `struct regulator_gpio_data`; a pin of -1 is `none`. -/
structure RegGpioData where
  enablePin : Option ℕ
  selectPin : Option ℕ
  volts : ℤ × ℤ
deriving DecidableEq

/-- `struct regulator_k230_iobank_data` -/
structure RegIobankData where
  bank : ℕ
  supply : Option String
deriving DecidableEq

inductive RegDriver
  | tps6286x (bus : String) (addr : ℕ)
  | gpio (data : Option RegGpioData)
  | k230Iobank (data : Option RegIobankData)
deriving DecidableEq

/-- `struct regulator_config` -/
structure RegConfig where
  name : Option String
  driver : Option RegDriver
  minUv : ℤ
  maxUv : ℤ
deriving DecidableEq

/-- What the driver's `init` has left in `rdev->bus`, without its selector. -/
inductive RegState
  | unset
  | tps6286x (bus : String) (addr : ℕ)
  | gpio (data : RegGpioData)
  | iobank (bank : Fin 6) (supply : Option ℕ)
deriving DecidableEq

structure RegDev where
  config : RegConfig
  error : ℤ
  state : RegState
deriving DecidableEq

/-- The rails that have been published, their selectors (`state->sel` of a driver, `reg->sel` of the core, `none` for
-1), the hardware, and every state it had after a write. -/
structure RegSys where
  devs : List RegDev
  drvSel : ℕ → ℕ
  coreSel : ℕ → Option ℕ
  hw : RegHw
  history : List RegHw
  faults : ℕ → Bool
  clock : ℕ

abbrev rtError : ℤ := 1
abbrev rtEnomem : ℤ := 5

abbrev uv3v3 : ℤ := 3300000
abbrev uv1v8 : ℤ := 1800000

def iobankVolts : List ℤ := [uv3v3, uv1v8]

def iobankPads : Fin 6 → List ℕ
  | 0 => List.range' 2 12
  | 1 => List.range' 14 12
  | 2 => List.range' 26 12
  | 3 => List.range' 38 12
  | 4 => List.range' 50 12
  | 5 => List.range' 62 2

namespace RegState

/-- `volt_table`, `none` for the linear range of the driver. -/
def voltTable : RegState → Option (List ℤ)
  | .gpio data => some (if data.selectPin.isSome then [data.volts.1, data.volts.2] else [data.volts.1])
  | .iobank _ _ => some iobankVolts
  | .tps6286x _ _ | .unset => none

/-- `regulator_n_sel`; a TPS6286x has 256 selectors. -/
def nSel (r : RegState) : ℕ :=
  (r.voltTable.map List.length).getD 256

/-- `regulator_uv` -/
def uv (r : RegState) (sel : ℕ) : ℤ :=
  match r.voltTable with
  | some t => t.getD sel 0
  | none => 400000 + sel * 5000

def cell : RegState → Option RegCell
  | .tps6286x bus addr => some (.chip bus addr)
  | .gpio data => data.selectPin.map .pin
  | .iobank _ _ | .unset => none

end RegState

/-- The loop of `regulator_select` over a voltage table. -/
def selectTable (t : List ℤ) (lo hi : ℤ) : Option ℕ :=
  (List.range t.length).foldl
    (fun best s =>
      if lo ≤ t.getD s 0 ∧ t.getD s 0 ≤ hi ∧ best.all (fun b => t.getD s 0 < t.getD b 0) then some s else best)
    none

/-- `regulator_select` -/
def RegDev.select (r : RegDev) (minUv maxUv : ℤ) : Option ℕ :=
  let lo := max minUv r.config.minUv
  let hi := min maxUv r.config.maxUv
  if hi < lo then none
  else
    match r.state.voltTable with
    | some t => selectTable t lo hi
    | none =>
      let linear := if lo ≤ 400000 then 0 else (lo - 400000 + 5000 - 1) / 5000
      if r.state.nSel ≤ linear ∨ hi < r.state.uv linear.toNat then none else some linear.toNat

namespace RegSys

def fails (s : RegSys) : Bool :=
  s.faults s.clock

def tick (s : RegSys) : RegSys :=
  { s with clock := s.clock + 1 }

def write (s : RegSys) (hw : RegHw) : RegSys × ℤ :=
  if s.fails then (s.tick, -rtEio) else ({ s.tick with hw := hw, history := hw :: s.history }, rtEok)

/-- `drv_fpioa_set_pin_msc` -/
def writePad (s : RegSys) (pad : ℕ) (v1p8 : Bool) : RegSys × ℤ :=
  s.write { s.hw with pads := Function.update s.hw.pads pad v1p8 }

/-- `kd_pin_write`, or the write of `VOUT1`. -/
def writeCell (s : RegSys) (c : RegCell) (v : ℕ) : RegSys × ℤ :=
  s.write { s.hw with cells := Function.update s.hw.cells c v }

/-- `iobank_set_pads` -/
def setPads (s : RegSys) (v1p8 : Bool) : List ℕ → RegSys × ℤ
  | [] => (s, rtEok)
  | pad :: pads =>
    let (s, ret) := s.writePad pad v1p8
    if ret ≠ rtEok then (s, -rtEio) else s.setPads v1p8 pads

def setDrvSel (s : RegSys) (i sel : ℕ) : RegSys :=
  { s with drvSel := Function.update s.drvSel i sel }

def setCoreSel (s : RegSys) (i : ℕ) (sel : Option ℕ) : RegSys :=
  { s with coreSel := Function.update s.coreSel i sel }

/-- `regulator_gpio_set_selector` -/
def gpioSetSelector (s : RegSys) (i : ℕ) (data : RegGpioData) (sel : ℕ) : RegSys × ℤ :=
  match data.selectPin with
  | none => (s.setDrvSel i sel, rtEok)
  | some p =>
    let (s, ret) := s.writeCell (.pin p) (if sel ≠ 0 then 1 else 0)
    if ret ≠ rtEok then (s, -rtEio) else (s.setDrvSel i sel, rtEok)

/-- `iobank_set_supply`, where `set` is `regulator_set_voltage`. -/
def iobankSetSupply (set : RegSys → ℕ → ℤ → ℤ → RegSys × ℤ) (s : RegSys) (supply : Option ℕ) (sel : ℕ) :
    RegSys × ℤ :=
  match supply with
  | none => (s, rtEok)
  | some a => set s a (iobankVolts.getD sel 0) (iobankVolts.getD sel 0)

def iobankSetSelector (set : RegSys → ℕ → ℤ → ℤ → RegSys × ℤ) (s : RegSys) (i : ℕ) (bank : Fin 6)
    (supply : Option ℕ) (sel : ℕ) : RegSys × ℤ :=
  if sel = 1 then
    let (s, ret) := iobankSetSupply set s supply sel
    if ret ≠ rtEok then (s, ret) else (s.setDrvSel i sel).setPads true (iobankPads bank)
  else
    let (s, ret) := s.setPads false (iobankPads bank)
    if ret ≠ rtEok then (s, ret)
    else
      let (s, ret) := iobankSetSupply set s supply sel
      if ret ≠ rtEok then (s, ret) else (s.setDrvSel i sel, ret)

/-- `ops->set_selector` -/
def setSelector (set : RegSys → ℕ → ℤ → ℤ → RegSys × ℤ) (s : RegSys) (i : ℕ) (r : RegState) (sel : ℕ) :
    RegSys × ℤ :=
  match r with
  | .unset => (s, -rtEinval)
  | .tps6286x bus addr => s.writeCell (.chip bus addr) (sel % 256)
  | .gpio data => s.gpioSetSelector i data sel
  | .iobank bank supply => iobankSetSelector set s i bank supply sel

/-- `regulator_set_voltage`. A supply stands earlier in the table than its bank, so that the first argument, with
which it begins, is enough. -/
def setVoltageFrom : ℕ → RegSys → ℕ → ℤ → ℤ → RegSys × ℤ
  | 0, s, _, _, _ => (s, -rtEinval)
  | n + 1, s, i, minUv, maxUv =>
    match s.devs[i]? with
    | none => (s, -rtEinval)
    | some r =>
      if r.error ≠ rtEok then (s, r.error)
      else
        match r.select minUv maxUv with
        | none => (s, -rtEinval)
        | some sel =>
          let (s, ret) := s.setSelector (setVoltageFrom n) i r.state sel
          (s.setCoreSel i (if ret ≠ rtEok then none else some sel), ret)

def setVoltage (s : RegSys) (i : ℕ) (minUv maxUv : ℤ) : RegSys × ℤ :=
  setVoltageFrom (i + 1) s i minUv maxUv

/-- `ops->get_selector`; `none` when the chip does not answer. -/
def getSelector (s : RegSys) (i : ℕ) (r : RegState) : RegSys × Option ℕ :=
  match r with
  | .tps6286x bus addr => (s.tick, if s.fails then none else some (s.hw.cells (.chip bus addr) % 256))
  | _ => (s, some (s.drvSel i))

/-- `regulator_get_voltage`: the voltage, or the error. -/
def getVoltage (s : RegSys) (i : ℕ) : RegSys × Except ℤ ℤ :=
  match s.devs[i]? with
  | none => (s, .error (-rtEinval))
  | some r =>
    if r.error ≠ rtEok then (s, .error r.error)
    else
      match s.getSelector i r.state with
      | (s, none) => (s.setCoreSel i none, .error (-rtEio))
      | (s, some sel) =>
        if r.state.nSel ≤ sel then (s.setCoreSel i none, .error (-rtEio))
        else (s.setCoreSel i (some sel), .ok (r.state.uv sel))

/-- `regulator_get` -/
def get (s : RegSys) (name : String) : Option ℕ :=
  s.devs.findIdx? fun r => r.config.name = some name

/-- `regulator_gpio_claim`: the pin keeps its level, which is returned. -/
def gpioClaim (s : RegSys) (p : ℕ) : RegSys × Except ℤ ℕ :=
  if 72 ≤ p then (s, .error (-rtEinval))
  else if s.fails then (s.tick, .error (-rtEio))
  else if s.tick.fails then (s.tick.tick, .error (-rtEio))
  else (s.tick.tick, .ok (if s.hw.cells (.pin p) ≠ 0 then 1 else 0))

def claimPin (s : RegSys) (pin : Option ℕ) : RegSys × Except ℤ ℕ :=
  match pin with
  | none => (s, .ok 0)
  | some p => s.gpioClaim p

/-- `regulator_gpio_init`, for the rail that gets the number `i`. -/
def gpioInit (s : RegSys) (i : ℕ) (data : Option RegGpioData) : RegSys × ℤ × RegState :=
  match data with
  | none => (s, -rtEinval, .unset)
  | some data =>
    if s.fails then (s.tick, -rtEnomem, .unset)
    else
      match s.tick.claimPin data.enablePin with
      | (s, .error _) => (s, -rtEio, .unset)
      | (s, .ok _) =>
        match s.claimPin data.selectPin with
        | (s, .error e) => (s, e, .unset)
        | (s, .ok level) => (s.setDrvSel i level, rtEok, .gpio data)

/-- The loop of `iobank_init` over the pads after the first one. -/
def readPads (s : RegSys) (first : Bool) : List ℕ → RegSys × ℤ
  | [] => (s, rtEok)
  | pad :: pads =>
    if s.fails then (s.tick, -rtEio)
    else if s.hw.pads pad ≠ first then (s.tick, -rtEinval)
    else s.tick.readPads first pads

def iobankSupply (s : RegSys) (supply : Option String) : Except ℤ (Option ℕ) :=
  match supply with
  | none => .ok none
  | some name =>
    match s.get name with
    | none => .error (-rtEinval)
    | some a =>
      match s.devs[a]? with
      | none => .error (-rtEinval)
      | some r => if r.error ≠ rtEok then .error r.error else .ok (some a)

def iobankInit (s : RegSys) (i : ℕ) (data : Option RegIobankData) : RegSys × ℤ × RegState :=
  match data with
  | none => (s, -rtEinval, .unset)
  | some data =>
    if h : data.bank < 6 then
      let bank : Fin 6 := ⟨data.bank, h⟩
      match s.iobankSupply data.supply with
      | .error e => (s, e, .unset)
      | .ok supply =>
        if s.fails then (s.tick, -rtEio, .unset)
        else
          let first := s.hw.pads ((iobankPads bank).headD 0)
          let (s, ret) := s.tick.readPads first (iobankPads bank).tail
          if ret ≠ rtEok then (s, ret, .unset)
          else if s.fails then (s.tick, -rtEnomem, .unset)
          else
            let sel := if first then 1 else 0
            let (s, ret) := iobankSetSupply (setVoltageFrom i) s.tick supply sel
            if ret ≠ rtEok then (s, ret, .unset) else (s.setDrvSel i sel, rtEok, .iobank bank supply)
    else (s, -rtEinval, .unset)

def tps6286xInit (s : RegSys) (bus : String) (addr : ℕ) : RegSys × ℤ × RegState :=
  if s.fails then (s.tick, -rtError, .unset) else (s.tick, rtEok, .tps6286x bus addr)

/-- `regulator_check_config`, with the rails that stand before in the table. -/
def checkConfig (s : RegSys) (cfg : RegConfig) : ℤ :=
  if cfg.name = none ∨ cfg.driver = none ∨ cfg.maxUv < cfg.minUv ∨ s.devs.any (fun r => r.config.name = cfg.name) then
    -rtEinval
  else rtEok

/-- `regulator_check_range` -/
def checkRange (cfg : RegConfig) (r : RegState) : ℤ :=
  let lo := (r.voltTable.map fun t => t.foldl min (t.headD 0)).getD (r.uv 0)
  let hi := (r.voltTable.map fun t => t.foldl max (t.headD 0)).getD (r.uv (r.nSel - 1))
  if cfg.minUv < lo ∨ hi < cfg.maxUv then -rtEinval else rtEok

/-- The driver's `init`. -/
def driverInit (s : RegSys) (i : ℕ) (driver : Option RegDriver) : RegSys × ℤ × RegState :=
  match driver with
  | none => (s, -rtEinval, .unset)
  | some (.tps6286x bus addr) => s.tps6286xInit bus addr
  | some (.gpio data) => s.gpioInit i data
  | some (.k230Iobank data) => s.iobankInit i data

def publish (s : RegSys) (cfg : RegConfig) (error : ℤ) (state : RegState) : RegSys :=
  { s with devs := s.devs ++ [⟨cfg, error, state⟩] }

/-- One turn of the loop of `regulator_core_init`. -/
def initDev (s : RegSys) (cfg : RegConfig) : RegSys :=
  let i := s.devs.length
  if s.checkConfig cfg ≠ rtEok then s.publish cfg (s.checkConfig cfg) .unset
  else if s.fails then s.tick.publish cfg (-rtError) .unset
  else
    let (s, ret, state) := s.tick.driverInit i cfg.driver
    if ret ≠ rtEok then s.publish cfg ret .unset
    else if checkRange cfg state ≠ rtEok then s.publish cfg (checkRange cfg state) state
    else
      match s.getSelector i state with
      | (s, none) => s.publish cfg (-rtEio) state
      | (s, some sel) =>
        if state.nSel ≤ sel then s.publish cfg (-rtEio) state
        else (s.setCoreSel i (some sel)).publish cfg rtEok state

/-- `regulator_core_init` -/
def coreInit (configs : List RegConfig) (hw : RegHw) (faults : ℕ → Bool) : RegSys :=
  configs.foldl initDev
    { devs := [], drvSel := fun _ => 0, coreSel := fun _ => none, hw := hw, history := [], faults := faults, clock := 0 }

/-- A sequence of calls of `regulator_set_voltage`: the rail, and the window. -/
def setVoltages (s : RegSys) (calls : List (ℕ × ℤ × ℤ)) : RegSys :=
  calls.foldl (fun s call => (s.setVoltage call.1 call.2.1 call.2.2).1) s

end RegSys

end RtSmart
