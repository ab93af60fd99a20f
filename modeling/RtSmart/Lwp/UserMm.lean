import RtSmart.Mm.Page

/-!
The user address space of a process (lwp_user_mm.c, lwp_mm_area.c) and the shared-memory objects
(lwp_shm.c). A page table is the entries that a walk through its three levels ends at, and an address is
split into the number of its page and the offset in it; `PV_OFFSET` is 0. What an allocator answers is an
argument of the function that asks it.
-/

namespace RtSmart

open Lib

/-- `MM_AREA_TYPE_*`. -/
inductive AreaType
  | phy
  | phyWt
  | phyCached
  | shm
  | data
  | text
  deriving DecidableEq, Repr

structure MmArea where
  addr : ℕ
  size : ℕ
  type : AreaType
  unmapAllAddr : ℕ
  deriving DecidableEq, Repr

/-- `MMU_MAP_U_*`. -/
inductive MmuAttr
  | uRo
  | uRw
  | uRwcb
  deriving DecidableEq, Repr

structure Pte where
  ppn : ℕ
  attr : MmuAttr
  deriving DecidableEq, Repr

/-- The three indices of Sv39 are the low 27 bits of the page number. -/
def slot (vpn : ℕ) : ℕ := vpn % 2 ^ 27

/-- `map_area` lists the areas in the order of the tree. -/
structure UserSpace where
  mapArea : List MmArea
  vtable : ℕ → Option Pte

structure ShmStruct where
  addr : ℕ
  size : ℕ
  ref : ℤ
  key : ℕ
  deriving DecidableEq, Repr

/-- What the processes share: the shared-memory objects, and the reference count and the content of each
page. The nodes of the two trees are pairs of a key and the index of an object. -/
structure Mm where
  shmAry : ℕ → ShmStruct
  shmFreeList : Option ℕ
  shmIdUsed : ℕ
  shmTreeKey : List (ℕ × ℕ)
  shmTreePa : List (ℕ × ℕ)
  pageRef : ℕ → ℕ
  content : ℕ → ℕ → UInt8

/-- `RT_LWP_SHM_MAX_NR`, `RT_LWP_MAX_NR`, `USER_VADDR_START` and `USER_VADDR_TOP`. -/
structure MmConfig where
  shmMaxNr : ℕ
  lwpMaxNr : ℕ
  userVaddrStart : ℕ
  userVaddrTop : ℕ
  shm_lt : shmMaxNr < 2 ^ 31
  start_pos : 0 < userVaddrStart
  top_lt : userVaddrTop < 2 ^ 64

def AreaType.paNeedFree : AreaType → Bool
  | .data => true
  | .text => true
  | _ => false

/-- What comes of a mapping: the address, and whether there was memory for the area. -/
structure MapAnswer where
  va : ℕ
  inserted : Bool
  deriving DecidableEq, Repr

namespace Mm

def setRef (m : Mm) (f : ℕ → ℕ) : Mm := { m with pageRef := f }

/-- The pages of one group share its reference count. -/
def rtPagesAlloc (m : Mm) (ppn n : ℕ) : Mm :=
  m.setRef fun p => if ppn ≤ p ∧ p < ppn + n then 1 else m.pageRef p

def rtPagesFree (m : Mm) (ppn n : ℕ) : Mm :=
  m.setRef fun p => if ppn ≤ p ∧ p < ppn + n then m.pageRef p - 1 else m.pageRef p

def rtPageRefInc (m : Mm) (ppn : ℕ) : Mm := m.setRef fun p => if p = ppn then m.pageRef p + 1 else m.pageRef p

def setShm (m : Mm) (id : ℕ) (p : ShmStruct) : Mm := { m with shmAry := Function.update m.shmAry id p }

end Mm

namespace UserSpace

variable (u : UserSpace)

def setPte (s : ℕ) (pte : Option Pte) : UserSpace := { u with vtable := Function.update u.vtable s pte }

def rtHwMmuV2p (va : ℕ) : ℕ :=
  match u.vtable (slot (va / archPageSize)) with
  | none => 0
  | some pte => pte.ppn * archPageSize + va % archPageSize

end UserSpace

def MmArea.areaEnd (ma : MmArea) : ℕ := (ma.addr + ma.size) % 2 ^ 64

def lwpMapFind (l : List MmArea) (addr : ℕ) : Option MmArea :=
  l.find? fun ma => ma.addr ≤ addr ∧ addr < ma.areaEnd

def lwpMapFindFirst (l : List MmArea) : Option MmArea := l.head?

def lwpMapFindNext (l : List MmArea) (addr : ℕ) : Option MmArea := l.find? fun ma => addr < ma.addr

def lwpAreaInsert (ma : MmArea) : List MmArea → List MmArea
  | [] => [ma]
  | b :: l => if ma.addr < b.addr then ma :: b :: l else b :: lwpAreaInsert ma l

def lwpMapAreaRemove (l : List MmArea) (addr : ℕ) : List MmArea := l.eraseP fun ma => ma.addr = addr

def lwpMapAreaSetUnmapAllAddr (l : List MmArea) (mapVa unmapAllVa : ℕ) : List MmArea :=
  match lwpMapFind l mapVa with
  | none => l
  | some ma => l.map fun b => if b = ma then { b with unmapAllAddr := unmapAllVa } else b

/-- One turn of `unmap_range`. Areas are whole pages, and so is each turn. -/
def unmapPage (paNeedFree : Bool) (vpn : ℕ) (x : Mm × UserSpace) : Mm × UserSpace :=
  match x.2.vtable (slot vpn) with
  | none => x
  | some pte =>
    if pte.ppn = 0 then x
    else (if paNeedFree then x.1.rtPagesFree pte.ppn 1 else x.1, x.2.setPte (slot vpn) none)

def unmapRange (paNeedFree : Bool) : ℕ → ℕ → Mm × UserSpace → Mm × UserSpace
  | _, 0, x => x
  | vpn, n + 1, x => unmapRange paNeedFree (vpn + 1) n (unmapPage paNeedFree vpn x)

def mapPages (attr : MmuAttr) : ℕ → List ℕ → UserSpace → UserSpace
  | _, [], u => u
  | vpn, p :: ps, u => mapPages attr (vpn + 1) ps (u.setPte (slot vpn) (some ⟨p, attr⟩))

/-- A call that maps `n` pages can end with `va`: it is the address asked for, if there was one, and the pages
are not in use. -/
def CanMap (u : UserSpace) (mapVa n va : ℕ) : Prop :=
  0 < n ∧ n ≤ 2 ^ 27 ∧ 0 < va ∧ va < 2 ^ 64 ∧ va % archPageSize = 0 ∧ (mapVa = 0 ∨ mapVa = va) ∧
    ∀ k < n, u.vtable (slot (va / archPageSize + k)) = none

instance (u : UserSpace) (mapVa n va : ℕ) : Decidable (CanMap u mapVa n va) :=
  inferInstanceAs (Decidable (_ ∧ _))

def roundUp (size : ℕ) : ℕ := wadd 64 size archPageMask / archPageSize * archPageSize

/-- `_lwp_map_user_type`; `none` when the answer is not possible. -/
def lwpMapUserTypeLocked (x : Mm × UserSpace) (mapVa mapPa mapSize : ℕ) (cached : Bool) (type : AreaType)
    (ans : Option MapAnswer) : Option ((Mm × UserSpace) × ℕ) :=
  let attr : MmuAttr := if type = .text then .uRo else if cached then .uRwcb else .uRw
  let type := if type = .phy ∧ cached then .phyCached else type
  let n := mapSize / archPageSize
  match ans with
  | none => some (x, 0)
  | some ⟨va, inserted⟩ =>
    if CanMap x.2 mapVa n va ∧ mapPa + mapSize ≤ 2 ^ 64 then
      let u := mapPages attr (va / archPageSize) (List.range' (mapPa / archPageSize) n) x.2
      if inserted then some ((x.1, { u with mapArea := lwpAreaInsert ⟨va, mapSize, type, 0⟩ u.mapArea }), va)
      else some (unmapRange false (va / archPageSize) n (x.1, u), 0)
    else none

/-- The address is not rounded down with the physical one, so one inside a page cannot be mapped. -/
def lwpMapUserType (x : Mm × UserSpace) (mapVa mapPa mapSize : ℕ) (cached : Bool) (type : AreaType)
    (ans : Option MapAnswer) : Option ((Mm × UserSpace) × ℕ) :=
  if mapSize = 0 ∨ mapVa ≠ 0 ∧ mapVa % archPageSize ≠ mapPa % archPageSize then some (x, 0)
  else
    let offset := mapPa % archPageSize
    (lwpMapUserTypeLocked x mapVa (mapPa / archPageSize * archPageSize) (roundUp (wadd 64 mapSize offset)) cached type
      ans).map fun r => (r.1, if r.2 = 0 then 0 else r.2 + offset)

/-- `_lwp_map_user`; the answer also has the pages that were found. -/
def lwpMapUserLocked (x : Mm × UserSpace) (mapVa mapSize : ℕ) (text : Bool) (ans : Option (MapAnswer × List ℕ)) :
    Option ((Mm × UserSpace) × ℕ) :=
  let n := mapSize / archPageSize
  match ans with
  | none => some (x, 0)
  | some (⟨va, inserted⟩, ppns) =>
    if CanMap x.2 mapVa n va ∧ ppns.length = n ∧ ppns.Nodup ∧ ∀ p ∈ ppns, p ≠ 0 ∧ x.1.pageRef p = 0 then
      let m := ppns.foldl (fun m p => m.rtPagesAlloc p 1) x.1
      let u := mapPages (if text then .uRo else .uRwcb) (va / archPageSize) ppns x.2
      let type := if text then .text else .data
      if inserted then some ((m, { u with mapArea := lwpAreaInsert ⟨va, mapSize, type, 0⟩ u.mapArea }), va)
      else some (unmapRange true (va / archPageSize) n (m, u), 0)
    else none

def lwpMapUser (x : Mm × UserSpace) (mapVa mapSize : ℕ) (text : Bool) (ans : Option (MapAnswer × List ℕ)) :
    Option ((Mm × UserSpace) × ℕ) :=
  if mapSize = 0 then some (x, 0)
  else
    let offset := mapVa % archPageSize
    (lwpMapUserLocked x (mapVa / archPageSize * archPageSize) (roundUp (wadd 64 mapSize offset)) text ans).map
      fun r => (r.1, if r.2 = 0 then 0 else r.2 + offset)

def MmArea.vpn (ma : MmArea) : ℕ := ma.addr / archPageSize

def MmArea.pages (ma : MmArea) : ℕ := ma.size / archPageSize

/-- `_lwp_unmap_user`; `false` when nothing is mapped there. -/
def lwpUnmapUser (x : Mm × UserSpace) (va : ℕ) : (Mm × UserSpace) × Bool :=
  if va = 0 then (x, false)
  else
    match lwpMapFind x.2.mapArea (va / archPageSize * archPageSize) with
    | none => (x, false)
    | some ma =>
      let x := unmapRange ma.type.paNeedFree ma.vpn ma.pages x
      ((x.1, { x.2 with mapArea := lwpMapAreaRemove x.2.mapArea ma.addr }), true)

namespace Mm

variable (m : Mm)

def avlFind (tree : List (ℕ × ℕ)) (key : ℕ) : Option ℕ := (tree.find? fun e => e.1 = key).map Prod.snd

/-- The free list goes through `addr`, where -1 ends it. -/
def linkAddr : Option ℕ → ℕ
  | none => 2 ^ 64 - 1
  | some id => id

def addrLink (addr : ℕ) : Option ℕ := if addr = 2 ^ 64 - 1 then none else some addr

def shmIdAlloc (maxNr : ℕ) : Mm × Option ℕ :=
  match m.shmFreeList with
  | some id => ({ m with shmFreeList := addrLink (m.shmAry id).addr }, some id)
  | none => if m.shmIdUsed < maxNr then ({ m with shmIdUsed := m.shmIdUsed + 1 }, some m.shmIdUsed) else (m, none)

def shmIdFree (id : ℕ) : Mm :=
  { m.setShm id { m.shmAry id with addr := linkAddr m.shmFreeList } with shmFreeList := some id }

def rtPageBits (size : ℕ) : ℕ :=
  let bit := archAddressWidthBits - rtHwClz size - 1
  (if size ^^^ 1 <<< bit ≠ 0 then bit + 1 else bit) - archPageShift

/-- `_lwp_shmget`, with the pages and the memory for the nodes that are found. -/
def lwpShmget (maxNr key size : ℕ) (create : Bool) (page : Option ℕ) (node : Bool) : Option (Mm × ℤ) :=
  match avlFind m.shmTreeKey key with
  | some id => some (m, id)
  | none =>
    if create = false ∨ size = 0 then some (m, -1)
    else
      match m.shmIdAlloc maxNr with
      | (m, none) => some (m, -1)
      | (m, some id) =>
        let bit := rtPageBits size
        match page with
        | none => some (m.shmIdFree id, -1)
        | some ppn =>
          if bit < archPageListSize ∧ ppn ≠ 0 ∧ (ppn + 2 ^ bit) * archPageSize ≤ 2 ^ 64 ∧
              ∀ k < 2 ^ bit, m.pageRef (ppn + k) = 0 then
            let m := (m.rtPagesAlloc ppn (2 ^ bit)).setShm id ⟨ppn * archPageSize, 2 ^ (bit + archPageShift), 0, key⟩
            if node then
              some ({ m with
                shmTreeKey := (key, id) :: m.shmTreeKey
                shmTreePa := (ppn * archPageSize, id) :: m.shmTreePa }, id)
            else some ((m.shmIdFree id).rtPagesFree ppn (2 ^ bit), -1)
          else none

def shmIdToNode (maxNr : ℕ) (id : ℤ) : Option ℕ :=
  if id < 0 ∨ (maxNr : ℤ) ≤ id then none
  else
    match avlFind m.shmTreeKey (m.shmAry id.toNat).key with
    | none => none
    | some i => if i = id.toNat then some i else none

def lwpShmrm (maxNr : ℕ) (id : ℤ) : Mm × ℤ :=
  match m.shmIdToNode maxNr id with
  | none => (m, -1)
  | some i =>
    let p := m.shmAry i
    if p.ref ≠ 0 then (m, 0)
    else
      let m := m.rtPagesFree (p.addr / archPageSize) (2 ^ rtPageBits p.size)
      let m := { m with
        shmTreeKey := m.shmTreeKey.erase (p.key, i)
        shmTreePa := m.shmTreePa.erase (p.addr, i) }
      (m.shmIdFree i, 0)

def addShmRef (id : ℕ) (d : ℤ) : Mm := m.setShm id { m.shmAry id with ref := (m.shmAry id).ref + d }

/-- `_lwp_shmat` and the check before it. -/
def lwpShmat (u : UserSpace) (maxNr : ℕ) (id : ℤ) (shmVaddr : ℕ) (ans : Option MapAnswer) :
    Option ((Mm × UserSpace) × ℕ) :=
  if shmVaddr % archPageSize ≠ 0 then some ((m, u), 0)
  else
    match m.shmIdToNode maxNr id with
    | none => some ((m, u), 0)
    | some i =>
      (lwpMapUserType (m, u) shmVaddr (m.shmAry i).addr (m.shmAry i).size true .shm ans).map fun r =>
        (if r.2 = 0 then r.1 else (r.1.1.addShmRef i 1, r.1.2), r.2)

def lwpShmStructGet (u : UserSpace) (shmVaddr : ℕ) : Option ℕ := avlFind m.shmTreePa (u.rtHwMmuV2p shmVaddr)

def lwpShmRefInc (u : UserSpace) (shmVaddr : ℕ) : Mm × ℤ :=
  match m.lwpShmStructGet u shmVaddr with
  | none => (m, -1)
  | some id => (m.addShmRef id 1, (m.shmAry id).ref + 1)

def lwpShmRefDec (u : UserSpace) (shmVaddr : ℕ) : Mm × ℤ :=
  match m.lwpShmStructGet u shmVaddr with
  | none => (m, -1)
  | some id => if 0 < (m.shmAry id).ref then (m.addShmRef id (-1), (m.shmAry id).ref - 1) else (m, -1)

def lwpShmdt (u : UserSpace) (shmVaddr : ℕ) : (Mm × UserSpace) × ℤ :=
  let r := m.lwpShmRefDec u shmVaddr
  if 0 ≤ r.2 then ((lwpUnmapUser (r.1, u) shmVaddr).1, 0) else ((r.1, u), -1)

end Mm

/-- The turns of `lwp_unmap_user_space`, which always takes the first area. -/
def unmapAreas : ℕ → Mm × UserSpace → Mm × UserSpace
  | 0, x => x
  | n + 1, x =>
    match lwpMapFindFirst x.2.mapArea with
    | none => x
    | some ma =>
      let m := if ma.type = .shm then (x.1.lwpShmRefDec x.2 ma.addr).1 else x.1
      let x := unmapRange ma.type.paNeedFree ma.vpn ma.pages (m, x.2)
      unmapAreas n (x.1, { x.2 with mapArea := lwpMapAreaRemove x.2.mapArea ma.addr })

def lwpUnmapUserSpace (x : Mm × UserSpace) : Mm × UserSpace := unmapAreas x.2.mapArea.length x

end RtSmart
