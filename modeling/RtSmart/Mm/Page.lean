import RtSmart.Lib.BitScan
import RtSmart.Lib.Buddy
import RtSmart.Lib.Chain
import RtSmart.Lib.Word
import Mathlib.Data.Int.Init

/-!
The page allocator of `components/lwp/page.c`. A `struct page` is named by its index in
`page_start[]`, and a null pointer is `none`.
-/

namespace RtSmart

open Lib

def archPageShift : ℕ := 12
def archPageSize : ℕ := 4096
def archPageMask : ℕ := archPageSize - 1
def archAddressWidthBits : ℕ := 64
def archPageListSize : ℕ := archAddressWidthBits - archPageShift

/-- The value of an `int` that was assigned `x`. -/
def toInt (x : ℤ) : ℤ := x.bmod (2 ^ 32)

structure Page where
  next : Option ℕ
  pre : Option ℕ
  sizeBits : ℕ
  refCnt : ℤ
deriving DecidableEq

structure PageAlloc where
  page : ℕ → Page
  pageList : ℕ → Option ℕ
  pageAddr : ℕ
  pageNr : ℕ
  usedPageNr : ℕ
  usedPageNrPeak : ℕ

def rtHwClz (n : ℕ) : ℕ :=
  let n := n ||| n >>> 1
  let n := n ||| n >>> 2
  let n := n ||| n >>> 4
  let n := n ||| n >>> 8
  let n := n ||| n >>> 16
  let n := n ||| n >>> 32
  let n := (n &&& 0x5555555555555555) + (n >>> 1 &&& 0x5555555555555555)
  let n := (n &&& 0x3333333333333333) + (n >>> 2 &&& 0x3333333333333333)
  let n := (n &&& 0x0707070707070707) + (n >>> 4 &&& 0x0707070707070707)
  let n := (n &&& 0x000f000f000f000f) + (n >>> 8 &&& 0x000f000f000f000f)
  let n := (n &&& 0x0000001f0000001f) + (n >>> 16 &&& 0x0000001f0000001f)
  let n := (n &&& 0x000000000000003f) + (n >>> 32 &&& 0x000000000000003f)
  64 - n

def rtHwCtz (n : ℕ) : ℕ := if n = 0 then 64 else 64 - (rtHwClz (n ^^^ (n - 1)) + 1)

namespace PageAlloc

def setPage (s : PageAlloc) (p : ℕ) (f : Page → Page) : PageAlloc :=
  { s with page := Function.update s.page p (f (s.page p)) }

def setPageAt (s : PageAlloc) (q : Option ℕ) (f : Page → Page) : PageAlloc :=
  match q with
  | some p => s.setPage p f
  | none => s

def setList (s : PageAlloc) (bits : ℕ) (p : Option ℕ) : PageAlloc :=
  { s with pageList := Function.update s.pageList bits p }

def addrToPage (s : PageAlloc) (addr : ℕ) : Option ℕ :=
  if addr < s.pageAddr then none
  else
    let off := (addr - s.pageAddr) >>> archPageShift
    if s.pageNr ≤ off then none else some off

def pageToAddr (s : PageAlloc) : Option ℕ → ℕ
  | none => 0
  | some p => s.pageAddr + p <<< archPageShift

def buddyGet (s : PageAlloc) (p bits : ℕ) : Option ℕ :=
  s.addrToPage (s.pageToAddr (some p) ^^^ 1 <<< (bits + archPageShift))

def pageRemove (s : PageAlloc) (p bits : ℕ) : PageAlloc :=
  let s := if (s.page p).pre = none then s.setList bits (s.page p).next
    else s.setPageAt (s.page p).pre fun g => { g with next := (s.page p).next }
  let s := s.setPageAt (s.page p).next fun g => { g with pre := (s.page p).pre }
  s.setPage p fun g => { g with sizeBits := archAddressWidthBits }

def pageInsert (s : PageAlloc) (p bits : ℕ) : PageAlloc :=
  let s := s.setPage p fun g => { g with next := s.pageList bits }
  let s := s.setPageAt (s.page p).next fun g => { g with pre := some p }
  let s := s.setPage p fun g => { g with pre := none }
  let s := s.setList bits (some p)
  s.setPage p fun g => { g with sizeBits := bits }

/-- The head of the group of `p` as the reference counters look for it. -/
def pagesHead (s : PageAlloc) (p bits : ℕ) : Option ℕ :=
  let idx := toInt p
  if idx < 0 ∨ (s.pageNr : ℤ) ≤ idx then none else some (idx.toNat / 2 ^ bits * 2 ^ bits)

def pagesRefInc (s : PageAlloc) (p bits : ℕ) : PageAlloc :=
  match s.pagesHead p bits with
  | none => s
  | some h => s.setPage h fun g => { g with refCnt := toInt (g.refCnt + 1) }

def pagesRefGet (s : PageAlloc) (p bits : ℕ) : ℤ :=
  match s.pagesHead p bits with
  | none => 0
  | some h => (s.page h).refCnt

/-! Unfolded at their arguments, the two functions would have the comparison in `pagesHead` evaluated. -/

theorem pagesRefInc_def : pagesRefInc = fun s p bits => match s.pagesHead p bits with
    | none => s
    | some h => s.setPage h fun g => { g with refCnt := toInt (g.refCnt + 1) } := by
  delta pagesRefInc
  with_reducible rfl

theorem pagesRefGet_def : pagesRefGet = fun s p bits => match s.pagesHead p bits with
    | none => 0
    | some h => (s.page h).refCnt := by
  delta pagesRefGet
  with_reducible rfl

theorem pagesRefInc_none {s : PageAlloc} {p bits : ℕ} (h : s.pagesHead p bits = none) : s.pagesRefInc p bits = s := by
  rw [pagesRefInc_def]
  dsimp only
  rw [h]

theorem pagesRefInc_some {s : PageAlloc} {p bits q : ℕ} (h : s.pagesHead p bits = some q) :
    s.pagesRefInc p bits = s.setPage q fun g => { g with refCnt := toInt (g.refCnt + 1) } := by
  rw [pagesRefInc_def]
  dsimp only
  rw [h]

theorem pagesRefGet_some {s : PageAlloc} {p bits q : ℕ} (h : s.pagesHead p bits = some q) :
    s.pagesRefGet p bits = (s.page q).refCnt := by
  rw [pagesRefGet_def]
  dsimp only
  rw [h]

/-- The loop of `_pages_free`; the first argument is the number of levels left. -/
def coalesce : ℕ → PageAlloc → ℕ → ℕ → PageAlloc × ℕ × ℕ
  | 0, s, p, level => (s, p, level)
  | n + 1, s, p, level =>
    match s.buddyGet p level with
    | none => (s, p, level)
    | some buddy =>
      if (s.page buddy).sizeBits = level then
        coalesce n (s.pageRemove buddy level) (if p < buddy then p else buddy) (level + 1)
      else (s, p, level)

/-- `none` when an assertion fails; the flag tells whether the group was really freed. -/
def pagesFree (s : PageAlloc) (p bits : ℕ) : Option (PageAlloc × Bool) :=
  if 0 < (s.page p).refCnt ∧ (s.page p).sizeBits = archAddressWidthBits then
    let s := s.setPage p fun g => { g with refCnt := g.refCnt - 1 }
    if (s.page p).refCnt ≠ 0 then some (s, false)
    else
      let (s, p, level) := coalesce (archPageListSize - bits) s p bits
      let s := s.pageInsert p level
      some ({ s with usedPageNr := wsub 64 s.usedPageNr (2 ^ bits) }, true)
  else none

/-- The splitting loop of `_pages_alloc`, from the level `bits + n` down to `bits`. -/
def splitLoop : ℕ → PageAlloc → ℕ → ℕ → Option (PageAlloc × ℕ)
  | 0, s, p, _ => some (s, p)
  | n + 1, s, p, bits =>
    let s := s.pageInsert p (bits + n)
    match s.buddyGet p (bits + n) with
    | none => none
    | some p => splitLoop n s p bits

/-- The first level above `bits` with a free block. -/
def findLevel (s : PageAlloc) (bits : ℕ) : Option ℕ :=
  (List.range' (bits + 1) (archPageListSize - (bits + 1))).find? fun level => (s.pageList level).isSome

/-- The block at the head of some list, cut down to the order `bits`; the inner option is the null pointer. -/
def pagesTake (s : PageAlloc) (bits : ℕ) : Option (Option (PageAlloc × ℕ)) :=
  match s.pageList bits with
  | some p => some (some (s.pageRemove p bits, p))
  | none =>
    match s.findLevel bits with
    | none => some none
    | some level =>
      match s.pageList level with
      | none => none
      | some p => (splitLoop (level - bits) (s.pageRemove p level) p bits).map some

/-- `none` when a null descriptor is written through. -/
def pagesAlloc (s : PageAlloc) (bits : ℕ) : Option (PageAlloc × Option ℕ) :=
  match s.pagesTake bits with
  | none => none
  | some none => some (s, none)
  | some (some (s, p)) =>
    let s := s.setPage p fun g => { g with sizeBits := archAddressWidthBits, refCnt := 1 }
    let used := wadd 64 s.usedPageNr (2 ^ bits)
    some ({ s with usedPageNr := used, usedPageNrPeak := max s.usedPageNrPeak used }, some p)

/-- A null descriptor is not in `page_start[]`, so its index is undefined. -/
def rtPageRefGet (s : PageAlloc) (addr bits : ℕ) : Option ℤ :=
  (s.addrToPage addr).map fun p => s.pagesRefGet p bits

def rtPageRefInc (s : PageAlloc) (addr bits : ℕ) : Option PageAlloc :=
  (s.addrToPage addr).map fun p => s.pagesRefInc p bits

/-- The address of the group, 0 when there is none. -/
def rtPagesAlloc (s : PageAlloc) (bits : ℕ) : Option (PageAlloc × ℕ) :=
  (s.pagesAlloc bits).map fun r => (r.1, r.1.pageToAddr r.2)

def rtPagesFree (s : PageAlloc) (addr bits : ℕ) : Option (PageAlloc × Bool) :=
  match s.addrToPage addr with
  | none => some (s, false)
  | some p => s.pagesFree p bits

/-- The inner loop of `rt_page_get_info`; `none` when it does not end within the fuel. -/
def countList (s : PageAlloc) (bits : ℕ) : ℕ → Option ℕ → ℕ → Option ℕ
  | _, none, total => some total
  | 0, some _, _ => none
  | n + 1, some p, total => countList s bits n (s.page p).next (total + 2 ^ bits)

def rtPageGetInfo (s : PageAlloc) : Option (ℕ × ℕ) :=
  ((List.range archPageListSize).foldlM (fun total i => s.countList i (2 ^ 64) (s.pageList i) total) 0).map
    fun free => (s.pageNr, free)

/-- The loop of `rt_page_init` that adds the pages to the free lists. -/
def addPages : ℕ → PageAlloc → ℕ → ℕ → Option PageAlloc
  | 0, s, start, stop => if start = stop then some s else none
  | n + 1, s, start, stop =>
    if start = stop then some s
    else
      let sizeBits := archAddressWidthBits - 1 - rtHwClz (wsub 64 stop start)
      let alignBits := rtHwCtz start
      let sizeBits := if alignBits < sizeBits then alignBits else sizeBits
      match s.addrToPage start with
      | none => none
      | some p =>
        let s := s.setPage p fun g => { g with sizeBits := archAddressWidthBits, refCnt := 1 }
        match s.pagesFree p (sizeBits - archPageShift) with
        | none => none
        | some (s, _) => addPages n s (wadd 64 start (2 ^ sizeBits)) stop

/-- `sizeof(struct page)`. -/
def sizeofPage : ℕ := 24

/-- The descriptors take the first pages of the region. `none` when the assertion fails. -/
def rtPageInit (start stop : ℕ) : Option PageAlloc :=
  let start := wadd 64 start archPageMask / archPageSize * archPageSize
  let stop := stop / archPageSize * archPageSize
  let nr : ℤ := (archPageSize / sizeofPage : ℕ)
  let total := toInt (wsub 64 stop start / archPageSize : ℕ)
  let mnr := (total + nr).tdiv (nr + 1)
  if mnr < total then
    let addr := ((start + toInt (mnr * 2 ^ archPageShift)) % 2 ^ 64).toNat
    let s : PageAlloc :=
      { page := fun _ => ⟨none, none, archAddressWidthBits, 0⟩, pageList := fun _ => none, pageAddr := addr,
        pageNr := wsub 64 stop addr / archPageSize, usedPageNr := 0, usedPageNrPeak := 0 }
    (addPages s.pageNr s addr stop).map fun s => { s with usedPageNr := 0, usedPageNrPeak := 0 }
  else none

end PageAlloc

end RtSmart
