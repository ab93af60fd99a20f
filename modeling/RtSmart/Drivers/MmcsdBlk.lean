import RtSmart.Lib.Counted
import RtSmart.Lib.Transition

/-!
The block devices of an SD or eMMC card (`sdio/block_dev.c`) under the device core (`device.c`), and the removal of
the card. A step is a section made with `part.lock` held, or one read or write of `ref_count`. A device is closed as
often as it has been opened, by any thread; a thread may call it that has found it by its name or through an open of
any thread. A device that has been freed keeps its last contents, except that an open and a request find anything there
that lets them in.
-/

namespace RtSmart

open Lib

inductive MmcsdIo
  | read
  | write
  /-- `RT_DEVICE_CTRL_BLK_SYNC` -/
  | sync
  /-- `RT_DEVICE_CTRL_BLK_ERASE` -/
  | erase
deriving DecidableEq

inductive MmcsdPc
  | idle
  /-- `rt_device_open` has been called, and `rt_mmcsd_open` is still to get the lock. -/
  | opening (d : ℕ)
  | admitted (d : ℕ)
  | increment (d v : ℕ)
  | closeCall (d : ℕ)
  | closeLoad (d : ℕ)
  | decrement (d v : ℕ)
  | closeTest (d : ℕ)
  /-- `rt_mmcsd_close` is still to get the lock. -/
  | closing (d : ℕ)
  /-- `rt_mmcsd_close` has returned, and `open_flag` is still to be written. -/
  | closeTail (d : ℕ)
  | ioCall (d : ℕ) (kind : MmcsdIo)
  /-- The callback of the driver is still to get the lock. -/
  | io (d : ℕ) (kind : MmcsdIo)
deriving DecidableEq

/-- Where `rt_mmcsd_blk_remove` stands, with the devices that the present loop has still to visit. -/
inductive MmcsdRemover
  | idle
  | marking (rest : List ℕ)
  | unmounting (rest : List ℕ)
  | checking (rest : List ℕ)
  | freeing (rest : List ℕ)
  | unregistered (d : ℕ) (rest : List ℕ)
  | restoring (rest : List ℕ)
  | returned (ok : Bool)
deriving DecidableEq

/-- `struct mmcsd_blk_device`, with the `ref_count` of its `struct rt_device`. `held` is the number of opens whose
`rt_device_close` has not come to its end, `closers` that of the closes in progress. -/
structure MmcsdBlk where
  removing : Bool
  opened : Bool
  refCount : ℕ
  registered : Bool
  freed : Bool
  held : ℕ
  closers : ℕ
deriving DecidableEq

/-- A request that has reached the card; `late` when the removal of the card had returned `RT_EOK`. -/
structure MmcsdRequest where
  device : ℕ
  kind : MmcsdIo
  late : Bool
deriving DecidableEq

structure MmcsdSys where
  /-- The devices of the card in the order of `blk_devices`. -/
  devices : List ℕ
  blk : ℕ → MmcsdBlk
  pc : ℕ → MmcsdPc
  /-- The thread waits in `rt_sem_take` for the lock of its device. -/
  waits : ℕ → Bool
  remover : MmcsdRemover
  requests : List MmcsdRequest
  /-- A call has gone on on a device that had been freed. -/
  stray : Bool

inductive MmcsdEvent
  | open (t d : ℕ)
  | block (t : ℕ)
  | openSection (t : ℕ)
  | incLoad (t : ℕ)
  | incStore (t : ℕ)
  | close (t d : ℕ)
  | closeZero (t : ℕ)
  | decLoad (t : ℕ)
  | decStore (t : ℕ)
  | closeTest (t : ℕ)
  | closeSection (t : ℕ)
  | closeEnd (t : ℕ)
  | io (t d : ℕ) (kind : MmcsdIo)
  | ioTest (t : ℕ)
  | ioSection (t : ℕ)
  | remove
  | mark
  /-- A device is not mounted, or `dfs_unmount` has returned; `ok` is false after an error or without memory. -/
  | unmount (ok : Bool)
  | check
  | unregister
  | free
  | restore
deriving DecidableEq

/-- The thread that makes the step; the removal has none. -/
def MmcsdEvent.thread : MmcsdEvent → Option ℕ
  | .open t _ | .block t | .openSection t | .incLoad t | .incStore t | .close t _ | .closeZero t | .decLoad t
  | .decStore t | .closeTest t | .closeSection t | .closeEnd t | .io t _ _ | .ioTest t | .ioSection t => some t
  | _ => none

def MmcsdPc.device : MmcsdPc → Option ℕ
  | .idle => none
  | .opening d | .admitted d | .increment d _ | .closeCall d | .closeLoad d | .decrement d _ | .closeTest d
  | .closing d | .closeTail d | .ioCall d _ | .io d _ => some d

namespace MmcsdSys

/-- After `rt_mmcsd_blk_probe`. -/
def init (devices : List ℕ) : MmcsdSys where
  devices := devices
  blk := fun _ => ⟨false, false, 0, true, false, 0, 0⟩
  pc := fun _ => .idle
  waits := fun _ => false
  remover := .idle
  requests := []
  stray := false

def setPc (s : MmcsdSys) (t : ℕ) (p : MmcsdPc) : MmcsdSys :=
  { s with pc := Function.update s.pc t p, waits := Function.update s.waits t false }

def setBlk (s : MmcsdSys) (d : ℕ) (b : MmcsdBlk) : MmcsdSys :=
  { s with blk := Function.update s.blk d b }

/-- `rt_mmcsd_open`, without which the core does not count the open. -/
def openSection (s : MmcsdSys) (t d : ℕ) : MmcsdSys :=
  if (s.blk d).removing ∧ (s.blk d).freed = false then s.setPc t .idle
  else (s.setBlk d { s.blk d with opened := true }).setPc t (.admitted d)

/-- `dev->ref_count++`, and the assertion after it. -/
def incStore (s : MmcsdSys) (t d v : ℕ) : Option MmcsdSys :=
  if (v + 1) % 256 = 0 then none
  else some ((s.setBlk d { s.blk d with refCount := (v + 1) % 256, held := (s.blk d).held + 1 }).setPc t .idle)

/-- `rt_device_close` is called for an open that no other call of it is about to end. -/
def close (s : MmcsdSys) (t d : ℕ) : Option MmcsdSys :=
  if (s.blk d).closers < (s.blk d).held then
    some ((s.setBlk d { s.blk d with closers := (s.blk d).closers + 1 }).setPc t (.closeCall d))
  else none

/-- `rt_device_close` returns. -/
def closeReturn (s : MmcsdSys) (t d : ℕ) : MmcsdSys :=
  (s.setBlk d { s.blk d with held := (s.blk d).held - 1, closers := (s.blk d).closers - 1 }).setPc t .idle

/-- `dev->ref_count--` -/
def decStore (s : MmcsdSys) (t d v : ℕ) : MmcsdSys :=
  (s.setBlk d { s.blk d with refCount := (v + 255) % 256 }).setPc t (.closeTest d)

/-- `rt_mmcsd_close` -/
def closeSection (s : MmcsdSys) (t d : ℕ) : MmcsdSys :=
  (s.setBlk d { s.blk d with opened := false }).setPc t (.closeTail d)

/-- `rt_device_read` and `rt_device_write` look at `ref_count`, `rt_device_control` does not. -/
def ioTest (s : MmcsdSys) (t d : ℕ) (kind : MmcsdIo) : MmcsdSys :=
  s.setPc t (if (kind = .read ∨ kind = .write) ∧ (s.blk d).refCount = 0 then .idle else .io d kind)

/-- The section of `rt_mmcsd_read`, `rt_mmcsd_write` or a control. -/
def ioSection (s : MmcsdSys) (t d : ℕ) (kind : MmcsdIo) : MmcsdSys :=
  if (s.blk d).removing ∧ (s.blk d).freed = false then s.setPc t .idle
  else { s.setPc t .idle with requests := ⟨d, kind, s.remover = .returned true⟩ :: s.requests }

/-- The device is open or being opened. -/
def busy (b : MmcsdBlk) : Bool :=
  b.opened || b.refCount ≠ 0

/-- The device is freed after `rt_sem_delete`, which sends the threads that wait for the lock away with an error. -/
def free (s : MmcsdSys) (d : ℕ) : MmcsdSys :=
  { s.setBlk d { s.blk d with freed := true } with
    pc := fun t => if s.waits t ∧ (s.pc t).device = some d then .idle else s.pc t
    waits := fun t => s.waits t && (s.pc t).device ≠ some d }

/-- One turn of a loop of `rt_mmcsd_blk_remove`, or the way from one loop to the next. -/
def removerStep (s : MmcsdSys) : MmcsdEvent → Option MmcsdSys
  | .remove =>
    match s.remover with
    | .idle | .returned false => some { s with remover := .marking s.devices }
    | _ => none
  | .mark =>
    match s.remover with
    | .marking (d :: rest) => some { s.setBlk d { s.blk d with removing := true } with remover := .marking rest }
    | .marking [] => some { s with remover := .unmounting s.devices }
    | _ => none
  | .unmount ok =>
    match s.remover with
    | .unmounting (_ :: rest) =>
      some { s with remover := if ok then .unmounting rest else .restoring s.devices }
    | .unmounting [] => some { s with remover := .checking s.devices }
    | _ => none
  | .check =>
    match s.remover with
    | .checking (d :: rest) =>
      some { s with remover := if busy (s.blk d) then .restoring s.devices else .checking rest }
    | .checking [] => some { s with remover := .freeing s.devices }
    | _ => none
  | .unregister =>
    match s.remover with
    | .freeing (d :: rest) =>
      some { s.setBlk d { s.blk d with registered := false } with remover := .unregistered d rest }
    | .freeing [] => some { s with remover := .returned true }
    | _ => none
  | .free =>
    match s.remover with
    | .unregistered d rest => some { s.free d with remover := .freeing rest }
    | _ => none
  | .restore =>
    match s.remover with
    | .restoring (d :: rest) =>
      some { s.setBlk d { s.blk d with removing := false } with remover := .restoring rest }
    | .restoring [] => some { s with remover := .returned false }
    | _ => none
  | _ => none

def callStep (s : MmcsdSys) (t : ℕ) : MmcsdEvent → Option MmcsdSys
  | .open _ d => if s.pc t = .idle ∧ (s.blk d).registered then some (s.setPc t (.opening d)) else none
  | .block _ =>
    match s.pc t with
    | .opening _ | .io .. => some { s with waits := Function.update s.waits t true }
    | _ => none
  | .openSection _ =>
    match s.pc t with
    | .opening d => some (s.openSection t d)
    | _ => none
  | .incLoad _ =>
    match s.pc t with
    | .admitted d => some (s.setPc t (.increment d (s.blk d).refCount))
    | _ => none
  | .incStore _ =>
    match s.pc t with
    | .increment d v => s.incStore t d v
    | _ => none
  | .close _ d => if s.pc t = .idle then s.close t d else none
  | .closeZero _ =>
    match s.pc t with
    | .closeCall d => some (if (s.blk d).refCount = 0 then s.closeReturn t d else s.setPc t (.closeLoad d))
    | _ => none
  | .decLoad _ =>
    match s.pc t with
    | .closeLoad d => some (s.setPc t (.decrement d (s.blk d).refCount))
    | _ => none
  | .decStore _ =>
    match s.pc t with
    | .decrement d v => some (s.decStore t d v)
    | _ => none
  | .closeTest _ =>
    match s.pc t with
    | .closeTest d => some (if (s.blk d).refCount = 0 then s.setPc t (.closing d) else s.closeReturn t d)
    | _ => none
  | .closeSection _ =>
    match s.pc t with
    | .closing d => some (s.closeSection t d)
    | _ => none
  | .closeEnd _ =>
    match s.pc t with
    | .closeTail d => some (s.closeReturn t d)
    | _ => none
  | .io _ d kind =>
    if s.pc t = .idle ∧ ((s.blk d).registered ∨ 0 < (s.blk d).held) then some (s.setPc t (.ioCall d kind)) else none
  | .ioTest _ =>
    match s.pc t with
    | .ioCall d kind => some (s.ioTest t d kind)
    | _ => none
  | .ioSection _ =>
    match s.pc t with
    | .io d kind => some (s.ioSection t d kind)
    | _ => none
  | _ => none

def onFreed (s : MmcsdSys) (t : ℕ) : Bool := ((s.pc t).device.map fun d => (s.blk d).freed).getD false

def setStray (s : MmcsdSys) (stray : Bool) : MmcsdSys := { s with stray := stray }

def step (s : MmcsdSys) (e : MmcsdEvent) : Option MmcsdSys :=
  match e.thread with
  | some t => (s.callStep t e).map fun s' => s'.setStray (s.stray || s.onFreed t)
  | none => s.removerStep e

end MmcsdSys

end RtSmart
