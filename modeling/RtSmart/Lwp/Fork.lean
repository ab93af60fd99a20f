import RtSmart.Lwp.UserMm

/-!
The copy of an address space for `fork` (lwp_user_mm.c, lwp_syscall.c): one branch for each type of area.
-/

namespace RtSmart

open Lib

/-- What the allocators answer while an area is copied. -/
inductive DupAnswer
  | map (ans : Option MapAnswer)
  | auto (ans : Option (MapAnswer × List ℕ))
  | text (ans : List (Option MapAnswer))
  deriving DecidableEq, Repr

/-- `lwp_data_put` from the parent's address to the same one of the child, for whole pages. -/
def lwpDataPut (parent : UserSpace) : ℕ → ℕ → Mm × UserSpace → Mm
  | _, 0, x => x.1
  | vpn, n + 1, x =>
    match x.2.vtable (slot vpn), parent.vtable (slot vpn) with
    | some dst, some src =>
      lwpDataPut parent (vpn + 1) n ({ x.1 with content := Function.update x.1.content dst.ppn (x.1.content src.ppn) }, x.2)
    | _, _ => x.1

def dupText (parent : UserSpace) : ℕ → ℕ → List (Option MapAnswer) → Mm × UserSpace → Option ((Mm × UserSpace) × Bool)
  | 0, _, _, x => some (x, true)
  | _ + 1, _, [], _ => none
  | n + 1, addr, a :: as, x =>
    let pa := parent.rtHwMmuV2p addr
    match lwpMapUserType (x.1.rtPageRefInc (pa / archPageSize), x.2) addr pa archPageSize true .text a with
    | none => none
    | some (x, va) => if va ≠ addr then some (x, false) else dupText parent n (addr + archPageSize) as x

/-- The mapping that the branches of `lwp_dup_user` make, and whether it is where the area of the parent is. `none`
when the answer is not possible, or an assertion fails. -/
def dupMap (parent : UserSpace) (x : Mm × UserSpace) (ma : MmArea) : DupAnswer → Option ((Mm × UserSpace) × Bool)
  | .map ans =>
    let pa := parent.rtHwMmuV2p ma.addr
    match ma.type with
    | .phy => (lwpMapUserType x ma.addr pa ma.size false .phy ans).map fun r => (r.1, r.2 = ma.addr)
    | .phyCached => (lwpMapUserType x ma.addr pa ma.size false .phyCached ans).map fun r => (r.1, r.2 = ma.addr)
    | .shm =>
      let inc := x.1.lwpShmRefInc parent ma.addr
      if 0 < inc.2 then (lwpMapUserType (inc.1, x.2) ma.addr pa ma.size true .shm ans).map fun r => (r.1, r.2 = ma.addr)
      else some ((inc.1, x.2), true)
    | _ => none
  | .auto ans =>
    match ma.type with
    | .data =>
      (lwpMapUser x ma.addr ma.size false ans).map fun r =>
        if r.2 = ma.addr then ((lwpDataPut parent ma.vpn ma.pages r.1, r.1.2), true) else (r.1, false)
    | _ => none
  | .text ans =>
    match ma.type with
    | .text => dupText parent ma.pages ma.addr ans x
    | _ => none

def lwpDupUser (parent : UserSpace) (x : Mm × UserSpace) (ma : MmArea) (ans : DupAnswer) :
    Option ((Mm × UserSpace) × Bool) :=
  (dupMap parent x ma ans).map fun r =>
    if r.2 = true ∧ ma.unmapAllAddr ≠ 0 then
      ((r.1.1, { r.1.2 with mapArea := lwpMapAreaSetUnmapAllAddr r.1.2.mapArea ma.addr ma.unmapAllAddr }), true)
    else r

/-- `_copy_process`: the areas in the order of the tree, until one fails. -/
def copyProcess (parent : UserSpace) : List MmArea → List DupAnswer → Mm × UserSpace → Option ((Mm × UserSpace) × Bool)
  | [], _, x => some (x, true)
  | _ :: _, [], _ => none
  | ma :: l, a :: as, x =>
    match lwpDupUser parent x ma a with
    | none => none
    | some (x, false) => some (x, false)
    | some (x, true) => copyProcess parent l as x

/-- The address space that `arch_user_space_init` makes. -/
def UserSpace.empty : UserSpace := ⟨[], fun _ => none⟩

/-- What `_sys_fork` does with the address space of the child, when there is a process for it; `late` says that it
fails after the copy. A child that is not started gives its areas back. -/
def sysFork (m : Mm) (parent : UserSpace) (ans : List DupAnswer) (late : Bool) : Option (Mm × Option UserSpace) :=
  (copyProcess parent parent.mapArea ans (m, .empty)).map fun r =>
    if r.2 = true ∧ late = false then (r.1.1, some r.1.2) else ((lwpUnmapUserSpace r.1).1, none)

end RtSmart
