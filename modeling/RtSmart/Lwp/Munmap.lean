import RtSmart.Lwp.UserMm

/-!
`lwp_munmap` (lwp_user_mm.c): a range may cut areas at its ends, or one area in the middle, and swallow others.
-/

namespace RtSmart

open Lib

inductive MmErr
  | einval
  | enomem
  deriving DecidableEq, Repr

/-- `lwp_unmap_user_range_prepare`: nothing is changed, and the area for the second half is made before it is
needed. The first number is that of the turns left. -/
def unmapRangePrepare (l : List MmArea) (stop : ℕ) (memory : Bool) : ℕ → ℕ → Option MmArea → Except MmErr (Option MmArea)
  | 0, _, _ => .error .einval
  | n + 1, current, tail =>
    if stop ≤ current then .ok tail
    else
      match lwpMapFind l current with
      | none =>
        match lwpMapFindNext l current with
        | none => .ok tail
        | some ma => if stop ≤ ma.addr then .ok tail else unmapRangePrepare l stop memory n ma.addr tail
      | some ma =>
        let segmentEnd := if ma.areaEnd < stop then ma.areaEnd else stop
        if ma.areaEnd ≤ current ∨ ma.type = .shm ∧ (current ≠ ma.addr ∨ segmentEnd ≠ ma.areaEnd) then .error .einval
        else if current ≠ ma.addr ∧ segmentEnd < ma.areaEnd then
          if tail.isSome then .error .einval
          else if memory then
            unmapRangePrepare l stop memory n segmentEnd (some ⟨segmentEnd, ma.areaEnd - segmentEnd, ma.type, 0⟩)
          else .error .enomem
        else unmapRangePrepare l stop memory n segmentEnd tail

def MmArea.cutFront (ma : MmArea) (length : ℕ) : MmArea :=
  { ma with
    addr := ma.addr + length
    size := ma.size - length
    unmapAllAddr := if ma.unmapAllAddr < ma.addr + length then 0 else ma.unmapAllAddr }

def MmArea.cutBack (ma : MmArea) (offset : ℕ) : MmArea :=
  { ma with
    size := offset
    unmapAllAddr := if ma.addr + offset ≤ ma.unmapAllAddr then 0 else ma.unmapAllAddr }

def MmArea.takeUnmapAll (tail : MmArea) (unmapAllAddr : ℕ) : MmArea :=
  if tail.addr ≤ unmapAllAddr ∧ unmapAllAddr < tail.addr + tail.size then { tail with unmapAllAddr := unmapAllAddr }
  else tail

def carveArea (l : List MmArea) (ma : MmArea) (start stop : ℕ) (tail : Option MmArea) : List MmArea :=
  if start = ma.addr ∧ stop - start = ma.size then lwpMapAreaRemove l ma.addr
  else if start = ma.addr then lwpAreaInsert (ma.cutFront (stop - start)) (l.erase ma)
  else
    let l := l.map fun b => if b = ma then ma.cutBack (start - ma.addr) else b
    match tail with
    | none => l
    | some t => lwpAreaInsert (t.takeUnmapAll ma.unmapAllAddr) l

def lwpUnmapUserArea (x : Mm × UserSpace) (ma : MmArea) (start stop : ℕ) (tail : Option MmArea) : Mm × UserSpace :=
  let m := if ma.type = .shm then (x.1.lwpShmRefDec x.2 start).1 else x.1
  let x := unmapRange ma.type.paNeedFree (start / archPageSize) ((stop - start) / archPageSize) (m, x.2)
  (x.1, { x.2 with mapArea := carveArea x.2.mapArea ma start stop tail })

/-- The second loop of `_lwp_unmap_user_range`. -/
def unmapRangeLoop (stop : ℕ) : ℕ → ℕ → Option MmArea → Mm × UserSpace → Mm × UserSpace
  | 0, _, _, x => x
  | n + 1, current, tail, x =>
    if stop ≤ current then x
    else
      match lwpMapFind x.2.mapArea current with
      | none =>
        match lwpMapFindNext x.2.mapArea current with
        | none => x
        | some ma => if stop ≤ ma.addr then x else unmapRangeLoop stop n ma.addr tail x
      | some ma =>
        let segmentEnd := if ma.areaEnd < stop then ma.areaEnd else stop
        if current ≠ ma.addr ∧ segmentEnd < ma.areaEnd then
          unmapRangeLoop stop n segmentEnd none (lwpUnmapUserArea x ma current segmentEnd tail)
        else unmapRangeLoop stop n segmentEnd tail (lwpUnmapUserArea x ma current segmentEnd none)

def rangeTurns (l : List MmArea) : ℕ := 2 * l.length + 2

def lwpUnmapUserRange (x : Mm × UserSpace) (va length : ℕ) (memory : Bool) : (Mm × UserSpace) × Except MmErr Unit :=
  if va = 0 ∨ va % archPageSize ≠ 0 ∨ length = 0 ∨ 2 ^ 64 - 1 - length < va then (x, .error .einval)
  else
    match unmapRangePrepare x.2.mapArea (va + length) memory (rangeTurns x.2.mapArea) va none with
    | .error e => (x, .error e)
    | .ok tail => (unmapRangeLoop (va + length) (rangeTurns x.2.mapArea) va tail x, .ok ())

def lwpUserRangeValid (cfg : MmConfig) (addr size : ℕ) : Prop :=
  size = 0 ∨ addr ≠ 0 ∧ cfg.userVaddrStart ≤ addr ∧ addr < cfg.userVaddrTop ∧ size ≤ cfg.userVaddrTop - addr

instance (cfg : MmConfig) (addr size : ℕ) : Decidable (lwpUserRangeValid cfg addr size) :=
  inferInstanceAs (Decidable (_ ∨ _))

def lwpMunmap (cfg : MmConfig) (x : Mm × UserSpace) (addr length : ℕ) (memory : Bool) :
    (Mm × UserSpace) × Except MmErr Unit :=
  if addr = 0 ∨ length = 0 ∨ 2 ^ 64 - 1 - archPageMask < length ∨ ¬ lwpUserRangeValid cfg addr (roundUp length) then
    (x, .error .einval)
  else
    match lwpMapFind x.2.mapArea addr with
    | none => lwpUnmapUserRange x addr (roundUp length) memory
    | some ma =>
      -- an area with room for the thread-local storage goes as a whole
      if ma.unmapAllAddr = addr then lwpUnmapUserRange x ma.addr ma.size memory
      else lwpUnmapUserRange x addr (roundUp length) memory

end RtSmart
