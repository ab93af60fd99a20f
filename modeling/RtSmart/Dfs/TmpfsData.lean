import RtSmart.Lib.Splice
import RtSmart.Lib.Transition
import RtSmart.Lib.Word

/-!
The contents of one regular file of tmpfs (`dfs_tmpfs.c`): open, close, read, write and lseek through its
descriptors, which share one `fnode` as long as one of them is open.
-/

namespace RtSmart

open Lib

inductive Whence
  | set
  | cur
  | fromEnd
deriving DecidableEq

/-- The descriptor comes first. `alloc` is the answer of `rt_realloc`: the bytes that it leaves behind the old ones. -/
inductive TmpfsFileOp
  | open (d : ℕ) (trunc append : Bool)
  | close (d : ℕ)
  | read (d count : ℕ)
  | write (d : ℕ) (buf : List UInt8) (alloc : Option (ℕ → UInt8))
  | lseek (d : ℕ) (offset : ℤ) (whence : Whence)

/-- What a call returns, and a read in its buffer. A `fault` is an access behind the end of the data. -/
inductive TmpfsOut
  | done
  | read (ret : ℤ) (bytes : List UInt8)
  | ret (ret : ℤ)
  | fault
deriving DecidableEq

/-- A `struct tmpfs_file`. -/
structure TmpfsNode where
  data : List UInt8
  size : ℕ
deriving DecidableEq

/-- The file, its `fnode`, and the position of each descriptor that is open. The calls' answers are logged, the last
one first. -/
structure TmpfsData where
  dFile : TmpfsNode
  refCount : ℕ
  fnodeSize : ℕ
  pos : ℕ → Option ℕ
  log : List TmpfsOut

/-- A file as it should be: an array of bytes and a position for each descriptor. -/
structure ByteFile where
  bytes : List UInt8
  pos : ℕ → Option ℕ
  log : List TmpfsOut

/-- The conversion of an `off_t` or a `size_t` to `int`. -/
def offToInt (n : ℕ) : ℤ := (n : ℤ).bmod (2 ^ 32)

theorem offToInt_of_lt {n : ℕ} (h : n < 2 ^ 31) : offToInt n = n := by
  unfold offToInt
  exact Int.bmod_eq_of_le (by omega) (by omega)

/-- `read` and `write` return -1 for any negative number of the file system. -/
def posixRet (result : ℤ) : ℤ := if result < 0 then -1 else result

theorem posixRet_of_lt {n : ℕ} (h : n < 2 ^ 31) : posixRet (offToInt n) = n := by
  rw [offToInt_of_lt h]
  exact if_neg (by omega)

/-- The offset that `lseek` computes. -/
def seekTarget (pos size : ℕ) (offset : ℤ) : Whence → ℤ
  | .set => offset
  | .cur => offset + pos
  | .fromEnd => offset + size

def rtRealloc (data : List UInt8) (n : ℕ) (alloc : Option (ℕ → UInt8)) : Option (List UInt8) :=
  alloc.map fun fill => data.take n ++ (List.range (n - data.length)).map fill

namespace TmpfsData

/-- A file that has just been created. -/
def init : TmpfsData := ⟨⟨[], 0⟩, 0, 0, fun _ => none, []⟩

def out (s : TmpfsData) (o : TmpfsOut) : TmpfsData := { s with log := o :: s.log }

def setPos (s : TmpfsData) (d pos : ℕ) : TmpfsData := { s with pos := Function.update s.pos d (some pos) }

/-- `dfs_file_open`, and `dfs_tmpfs_open` of a file that is there. -/
def dfsTmpfsOpen (s : TmpfsData) (d : ℕ) (trunc append : Bool) : TmpfsData :=
  if 0 < s.refCount then { s with refCount := s.refCount + 1 }.setPos d 0
  else
    let dFile := if trunc then ⟨[], 0⟩ else s.dFile
    { s with dFile := dFile, refCount := 1, fnodeSize := dFile.size }.setPos d (if append then dFile.size else 0)

def close (s : TmpfsData) (d : ℕ) : TmpfsData :=
  { s with refCount := s.refCount - 1, pos := Function.update s.pos d none }

def dfsTmpfsRead (s : TmpfsData) (d pos count : ℕ) : TmpfsData :=
  let left := wsub 64 s.fnodeSize pos
  let length := if count < left then count else left
  if s.dFile.data.length < pos + length then s.out .fault
  else (s.setPos d (pos + length)).out (.read (posixRet (offToInt length)) ((s.dFile.data.drop pos).take length))

/-- The `memcpy` of a write and what follows it. -/
def writeData (s : TmpfsData) (d pos : ℕ) (buf : List UInt8) : TmpfsData :=
  if s.dFile.data.length < pos + buf.length then s.out .fault
  else
    ({ s with dFile := { s.dFile with data := splice s.dFile.data pos buf } }.setPos d (pos + buf.length)).out
      (.ret (posixRet (offToInt buf.length)))

def dfsTmpfsWrite (s : TmpfsData) (d pos : ℕ) (buf : List UInt8) (alloc : Option (ℕ → UInt8)) : TmpfsData :=
  let size := wadd 64 buf.length pos
  if s.fnodeSize < size then
    match rtRealloc s.dFile.data size alloc with
    | none => s.out (.ret 0)
    | some ptr => { s with dFile := ⟨ptr, size⟩, fnodeSize := size }.writeData d pos buf
  else s.writeData d pos buf

/-- `lseek`, `dfs_file_lseek` and `dfs_tmpfs_lseek`, which both set the position. -/
def lseek (s : TmpfsData) (d pos : ℕ) (offset : ℤ) (whence : Whence) : TmpfsData :=
  let target := seekTarget pos s.fnodeSize offset whence
  if target < 0 then s.out (.ret (-1))
  else if target ≤ s.fnodeSize then
    let result := offToInt target.toNat
    if 0 ≤ result then (s.setPos d result.toNat).out (.ret target)
    else (s.setPos d target.toNat).out (.ret (-1))
  else s.out (.ret (-1))

/-- Calls with a descriptor that is not open do not get here, and no block has 2^63 bytes. -/
def step (s : TmpfsData) : TmpfsFileOp → Option TmpfsData
  | .open d trunc append => if s.pos d = none then some ((s.dfsTmpfsOpen d trunc append).out .done) else none
  | .close d => (s.pos d).map fun _ => (s.close d).out .done
  | .read d count => (s.pos d).map fun pos => s.dfsTmpfsRead d pos count
  | .write d buf alloc =>
    (s.pos d).bind fun pos =>
      if alloc.isSome ∧ 2 ^ 63 ≤ pos + buf.length then none else some (s.dfsTmpfsWrite d pos buf alloc)
  | .lseek d offset whence => (s.pos d).map fun pos => s.lseek d pos offset whence

/-- A file that is open is opened again without `O_TRUNC` and `O_APPEND`, unless it is empty, and the numbers that the
calls return fit into an `int`. -/
def Plain (s : TmpfsData) : TmpfsFileOp → Prop
  | .open _ trunc append => 0 < s.refCount → s.fnodeSize ≠ 0 → trunc = false ∧ append = false
  | .close _ => True
  | .read d count => ∀ pos, s.pos d = some pos → min count (s.fnodeSize - pos) < 2 ^ 31
  | .write _ buf _ => buf.length < 2 ^ 31
  | .lseek d offset whence => ∀ pos, s.pos d = some pos → seekTarget pos s.fnodeSize offset whence ≤ s.fnodeSize →
      seekTarget pos s.fnodeSize offset whence < 2 ^ 31

end TmpfsData

namespace ByteFile

def init : ByteFile := ⟨[], fun _ => none, []⟩

def out (a : ByteFile) (o : TmpfsOut) : ByteFile := { a with log := o :: a.log }

def setPos (a : ByteFile) (d pos : ℕ) : ByteFile := { a with pos := Function.update a.pos d (some pos) }

def step (a : ByteFile) : TmpfsFileOp → Option ByteFile
  | .open d trunc append =>
    if a.pos d = none then
      let bytes := if trunc then [] else a.bytes
      some (({ a with bytes := bytes }.setPos d (if append then bytes.length else 0)).out .done)
    else none
  | .close d => (a.pos d).map fun _ => { a with pos := Function.update a.pos d none }.out .done
  | .read d count =>
    (a.pos d).map fun pos =>
      let bytes := (a.bytes.drop pos).take count
      (a.setPos d (pos + bytes.length)).out (.read bytes.length bytes)
  | .write d buf alloc =>
    (a.pos d).map fun pos =>
      if a.bytes.length < pos + buf.length ∧ alloc = none then a.out (.ret 0)
      else ({ a with bytes := splice a.bytes pos buf }.setPos d (pos + buf.length)).out (.ret buf.length)
  | .lseek d offset whence =>
    (a.pos d).map fun pos =>
      let target := seekTarget pos a.bytes.length offset whence
      if 0 ≤ target ∧ target ≤ a.bytes.length then (a.setPos d target.toNat).out (.ret target) else a.out (.ret (-1))

end ByteFile

/-- The file and its descriptors stand for the array and its positions. -/
structure Refines (s : TmpfsData) (a : ByteFile) : Prop where
  data : s.dFile.data = a.bytes
  size : s.dFile.size = a.bytes.length
  fnode : 0 < s.refCount → s.fnodeSize = a.bytes.length
  pos : s.pos = a.pos
  within : ∀ d p, a.pos d = some p → p ≤ a.bytes.length
  opened : ∃ F : Finset ℕ, (∀ d, d ∈ F ↔ (a.pos d).isSome = true) ∧ s.refCount = F.card
  small : a.bytes.length < 2 ^ 63
  log : s.log = a.log

namespace Refines

variable {s s' : TmpfsData} {a : ByteFile} {d p : ℕ}

theorem init : Refines .init .init where
  data := rfl
  size := rfl
  fnode := nofun
  pos := rfl
  within := nofun
  opened := ⟨∅, by simp [ByteFile.init], rfl⟩
  small := by decide
  log := rfl

theorem refCount_pos (h : Refines s a) (hp : a.pos d = some p) : 0 < s.refCount := by
  obtain ⟨F, hF, hcard⟩ := h.opened
  rw [hcard]
  exact Finset.card_pos.mpr ⟨d, (hF d).mpr (by simp [hp])⟩

theorem pos_none (h : Refines s a) (hr : s.refCount = 0) (e : ℕ) : a.pos e = none := by
  cases hp : a.pos e with
  | none => rfl
  | some p => exact absurd (h.refCount_pos hp) (by omega)

theorem fnodeSize (h : Refines s a) (hp : a.pos d = some p) : s.fnodeSize = a.bytes.length :=
  h.fnode (h.refCount_pos hp)

theorem le (h : Refines s a) (hp : a.pos d = some p) : p ≤ a.bytes.length := h.within d p hp

theorem out (h : Refines s a) (o : TmpfsOut) : Refines (s.out o) (a.out o) :=
  { h with log := congrArg (o :: ·) h.log }

theorem setPos (h : Refines s a) (hp : a.pos d = some p) {n : ℕ} (hn : n ≤ a.bytes.length) :
    Refines (s.setPos d n) (a.setPos d n) := by
  refine { h with pos := ?_, within := fun e q hq => ?_, opened := ?_ }
  · simp only [TmpfsData.setPos, ByteFile.setPos, h.pos]
  · by_cases he : e = d
    · subst he
      simp only [ByteFile.setPos, Function.update_self, Option.some.injEq] at hq
      exact hq ▸ hn
    · simp only [ByteFile.setPos, Function.update_of_ne he] at hq
      exact h.within e q hq
  · obtain ⟨F, hF, hcard⟩ := h.opened
    refine ⟨F, fun e => ?_, hcard⟩
    rw [hF]
    by_cases he : e = d
    · subst he
      simp [ByteFile.setPos, hp]
    · simp [ByteFile.setPos, Function.update_of_ne he]

theorem opened_insert (h : Refines s a) (hd : a.pos d = none) (q : ℕ) :
    ∃ F : Finset ℕ, (∀ e, e ∈ F ↔ (Function.update a.pos d (some q) e).isSome = true) ∧ s.refCount + 1 = F.card := by
  obtain ⟨F, hF, hcard⟩ := h.opened
  have hnot : d ∉ F := by simp [hF, hd]
  refine ⟨insert d F, fun e => ?_, ?_⟩
  · by_cases he : e = d
    · simp [he]
    · simp [he, hF]
  · rw [Finset.card_insert_of_notMem hnot, hcard]

theorem openAgain (h : Refines s a) (hr : 0 < s.refCount) (hd : a.pos d = none) :
    Refines ({ s with refCount := s.refCount + 1 }.setPos d 0) (a.setPos d 0) := by
  refine { h with fnode := fun _ => h.fnode hr, pos := ?_, within := fun e q hq => ?_, opened := h.opened_insert hd 0 }
  · simp only [TmpfsData.setPos, ByteFile.setPos, h.pos]
  · by_cases he : e = d
    · subst he
      simp only [ByteFile.setPos, Function.update_self, Option.some.injEq] at hq
      omega
    · simp only [ByteFile.setPos, Function.update_of_ne he] at hq
      exact h.within e q hq

theorem openFirst (h : Refines s a) (hr : s.refCount = 0) (dFile : TmpfsNode) (hsize : dFile.size = dFile.data.length)
    (hsmall : dFile.size < 2 ^ 63) {q : ℕ} (hq : q ≤ dFile.size) :
    Refines ({ s with dFile := dFile, refCount := 1, fnodeSize := dFile.size }.setPos d q)
      ({ a with bytes := dFile.data }.setPos d q) where
  data := rfl
  size := hsize
  fnode _ := hsize
  pos := by simp only [TmpfsData.setPos, ByteFile.setPos, h.pos]
  within e r hr' := by
    by_cases he : e = d
    · subst he
      simp only [ByteFile.setPos, Function.update_self, Option.some.injEq] at hr'
      rw [← hr']
      exact hq.trans hsize.le
    · simp only [ByteFile.setPos, Function.update_of_ne he, h.pos_none hr e] at hr'
      exact nomatch hr'
  opened := by
    have hinsert := h.opened_insert (h.pos_none hr d) q
    rwa [hr] at hinsert
  small := hsize ▸ hsmall
  log := h.log

theorem open_ (h : Refines s a) {trunc append : Bool} (hd : a.pos d = none)
    (hplain : s.Plain (.open d trunc append)) :
    Refines (s.dfsTmpfsOpen d trunc append)
      ({ a with bytes := if trunc then [] else a.bytes }.setPos d
        (if append then (if trunc then [] else a.bytes).length else 0)) := by
  unfold TmpfsData.dfsTmpfsOpen
  by_cases hr : 0 < s.refCount
  · rw [if_pos hr]
    by_cases hempty : s.fnodeSize = 0
    · have hbytes : a.bytes = [] := List.eq_nil_of_length_eq_zero ((h.fnode hr).symm.trans hempty)
      have hsame : ({ a with bytes := [] } : ByteFile) = a := by rw [← hbytes]
      simpa only [hbytes, ite_self, List.length_nil, hsame] using h.openAgain hr hd
    · obtain ⟨rfl, rfl⟩ := hplain hr hempty
      exact h.openAgain hr hd
  · rw [if_neg hr]
    have hr : s.refCount = 0 := Nat.eq_zero_of_not_pos hr
    cases trunc with
    | true =>
      simp only [if_true, List.length_nil, ite_self]
      exact h.openFirst hr ⟨[], 0⟩ rfl (by decide) le_rfl
    | false =>
      have hsize : s.dFile.size = s.dFile.data.length := h.size.trans (congrArg List.length h.data).symm
      have hsmall : s.dFile.size < 2 ^ 63 := h.size ▸ h.small
      have hfirst := h.openFirst (d := d) hr s.dFile hsize hsmall (q := if append then s.dFile.size else 0) (by split <;> omega)
      simpa only [Bool.false_eq_true, if_false, ← h.data, hsize] using hfirst

theorem close (h : Refines s a) (hp : a.pos d = some p) :
    Refines (s.close d) { a with pos := Function.update a.pos d none } := by
  obtain ⟨F, hF, hcard⟩ := h.opened
  have hmem : d ∈ F := (hF d).mpr (by simp [hp])
  refine { h with fnode := fun _ => h.fnodeSize hp, pos := ?_, within := fun e q hq => ?_, opened := ?_ }
  · simp only [TmpfsData.close, h.pos]
  · by_cases he : e = d
    · simp [he] at hq
    · simp only [Function.update_of_ne he] at hq
      exact h.within e q hq
  · refine ⟨F.erase d, fun e => ?_, ?_⟩
    · by_cases he : e = d
      · simp [he]
      · simp [he, hF]
    · rw [Finset.card_erase_of_mem hmem, ← hcard]
      rfl

theorem read (h : Refines s a) (hp : a.pos d = some p) {count : ℕ} (hplain : s.Plain (.read d count)) :
    Refines (s.dfsTmpfsRead d p count)
      ((a.setPos d (p + ((a.bytes.drop p).take count).length)).out
        (.read ((a.bytes.drop p).take count).length ((a.bytes.drop p).take count))) := by
  have hle := h.le hp
  have hsmall := h.small
  have hfit := hplain p (h.pos ▸ hp)
  rw [h.fnodeSize hp] at hfit
  have hleft : wsub 64 s.fnodeSize p = a.bytes.length - p := by
    rw [h.fnodeSize hp]
    exact wsub_of_le hle (by omega)
  have hlength : ((a.bytes.drop p).take count).length = min count (a.bytes.length - p) := by
    rw [List.length_take, List.length_drop]
  have hmin : (if count < a.bytes.length - p then count else a.bytes.length - p) = min count (a.bytes.length - p) := by
    split <;> omega
  have htake : (a.bytes.drop p).take (min count (a.bytes.length - p)) = (a.bytes.drop p).take count := by
    rw [← List.length_drop, ← List.take_eq_take_min]
  unfold TmpfsData.dfsTmpfsRead
  dsimp only
  rw [hleft, hmin, h.data, if_neg (by omega), htake, hlength, posixRet_of_lt hfit]
  exact (h.setPos hp (by omega)).out _

theorem writeData (h : Refines s a) (hp : a.pos d = some p) {buf block : List UInt8} {size : ℕ}
    (hbuf : buf.length < 2 ^ 31) (hroom : p + buf.length ≤ block.length)
    (hsplice : splice block p buf = splice a.bytes p buf) (hsize : size = max a.bytes.length (p + buf.length))
    (hsmall : size < 2 ^ 63) :
    Refines ({ s with dFile := ⟨block, size⟩, fnodeSize := size }.writeData d p buf)
      (({ a with bytes := splice a.bytes p buf }.setPos d (p + buf.length)).out (.ret buf.length)) := by
  have hlength := length_splice buf (h.le hp)
  unfold TmpfsData.writeData
  rw [if_neg (by simpa using hroom), posixRet_of_lt hbuf, hsplice]
  have hbytes : Refines { s with dFile := ⟨splice a.bytes p buf, size⟩, fnodeSize := size }
      { a with bytes := splice a.bytes p buf } :=
    { h with
      data := rfl
      size := by rw [hlength, ← hsize]
      fnode := fun _ => by rw [hlength, ← hsize]
      within := fun e q hq => by
        have hle := h.within e q hq
        rw [hlength]
        omega
      small := by rwa [hlength, ← hsize] }
  exact (hbytes.setPos hp (by rw [hlength]; omega)).out _

theorem write (h : Refines s a) (hp : a.pos d = some p) {buf : List UInt8} {alloc : Option (ℕ → UInt8)}
    (hplain : s.Plain (.write d buf alloc)) (hmem : ¬(alloc.isSome = true ∧ 2 ^ 63 ≤ p + buf.length)) :
    Refines (s.dfsTmpfsWrite d p buf alloc)
      (if a.bytes.length < p + buf.length ∧ alloc = none then a.out (.ret 0)
        else ({ a with bytes := splice a.bytes p buf }.setPos d (p + buf.length)).out (.ret buf.length)) := by
  have hle := h.le hp
  have hsmall := h.small
  have hbuf : buf.length < 2 ^ 31 := hplain
  have hadd : wadd 64 buf.length p = p + buf.length := by
    rw [wadd_of_lt (by omega), Nat.add_comm]
  unfold TmpfsData.dfsTmpfsWrite
  dsimp only
  rw [hadd, h.fnodeSize hp]
  by_cases hgrow : a.bytes.length < p + buf.length
  · rw [if_pos hgrow]
    cases alloc with
    | none =>
      rw [if_pos ⟨hgrow, rfl⟩]
      exact h.out _
    | some fill =>
      rw [if_neg nofun]
      have hlt : p + buf.length < 2 ^ 63 := by
        simpa using hmem
      have htake : s.dFile.data.take (p + buf.length) = a.bytes := by
        rw [h.data, List.take_of_length_le hgrow.le]
      simp only [rtRealloc, Option.map_some, htake]
      rw [h.data]
      generalize hfill : (List.range (p + buf.length - a.bytes.length)).map fill = l
      have hl : l.length = p + buf.length - a.bytes.length := by
        rw [← hfill, List.length_map, List.length_range]
      have hblock : (a.bytes ++ l).length = p + buf.length := by
        rw [List.length_append, hl]
        omega
      exact h.writeData hp hbuf hblock.ge (splice_grown hle hgrow.le hblock rfl) (max_eq_right hgrow.le).symm hlt
  · rw [if_neg hgrow, if_neg (fun hc => hgrow hc.1)]
    have hsize : s.fnodeSize = s.dFile.size := (h.fnodeSize hp).trans h.size.symm
    have hsame : ({ s with fnodeSize := s.dFile.size } : TmpfsData) = s := by
      rw [← hsize]
    have hroom : p + buf.length ≤ s.dFile.data.length := by
      rw [h.data]
      omega
    have hmax : s.dFile.size = max a.bytes.length (p + buf.length) := by
      rw [h.size]
      omega
    have hdata := h.writeData hp hbuf hroom (by rw [h.data]) hmax (h.size ▸ hsmall)
    exact hsame ▸ hdata

theorem lseek (h : Refines s a) (hp : a.pos d = some p) {offset : ℤ} {whence : Whence}
    (hplain : s.Plain (.lseek d offset whence)) :
    Refines (s.lseek d p offset whence)
      (let target := seekTarget p a.bytes.length offset whence
        if 0 ≤ target ∧ target ≤ a.bytes.length then (a.setPos d target.toNat).out (.ret target)
        else a.out (.ret (-1))) := by
  have hfit := hplain p (h.pos ▸ hp)
  rw [h.fnodeSize hp] at hfit
  unfold TmpfsData.lseek
  dsimp only
  rw [h.fnodeSize hp]
  generalize seekTarget p a.bytes.length offset whence = target at hfit ⊢
  by_cases hneg : target < 0
  · rw [if_pos hneg, if_neg (by omega)]
    exact h.out _
  by_cases hin : target ≤ a.bytes.length
  · have hint : offToInt target.toNat = target := by
      rw [offToInt_of_lt (by have := hfit hin; omega)]
      omega
    rw [if_neg hneg, if_pos hin, hint, if_pos (by omega), if_pos (by omega)]
    exact (h.setPos hp (by omega)).out _
  · rw [if_neg hneg, if_neg hin, if_neg (by omega)]
    exact h.out _

theorem step {op : TmpfsFileOp} (h : Refines s a) (hplain : s.Plain op) (hs : s.step op = some s') :
    ∃ a', a.step op = some a' ∧ Refines s' a' := by
  cases op with
  | «open» d trunc append =>
    simp only [TmpfsData.step, h.pos, Option.ite_none_right_eq_some, Option.some.injEq] at hs
    obtain ⟨hd, rfl⟩ := hs
    exact ⟨_, if_pos hd, (h.open_ hd hplain).out _⟩
  | close d =>
    simp only [TmpfsData.step, h.pos, Option.map_eq_some_iff] at hs
    obtain ⟨p, hp, rfl⟩ := hs
    exact ⟨_, by rw [ByteFile.step, hp]; rfl, (h.close hp).out _⟩
  | read d count =>
    simp only [TmpfsData.step, h.pos, Option.map_eq_some_iff] at hs
    obtain ⟨p, hp, rfl⟩ := hs
    exact ⟨_, by rw [ByteFile.step, hp]; rfl, h.read hp hplain⟩
  | write d buf alloc =>
    simp only [TmpfsData.step, h.pos, Option.bind_eq_some_iff, Option.ite_none_left_eq_some, Option.some.injEq] at hs
    obtain ⟨p, hp, hmem, rfl⟩ := hs
    exact ⟨_, by rw [ByteFile.step, hp]; rfl, h.write hp hplain hmem⟩
  | lseek d offset whence =>
    simp only [TmpfsData.step, h.pos, Option.map_eq_some_iff] at hs
    obtain ⟨p, hp, rfl⟩ := hs
    exact ⟨_, by rw [ByteFile.step, hp]; rfl, h.lseek hp hplain⟩

theorem run {ops : List TmpfsFileOp} (h : Refines s a) (hs : run TmpfsData.step s ops = some s')
    (hplain : Meets TmpfsData.step TmpfsData.Plain s ops) :
    ∃ a', Lib.run ByteFile.step a ops = some a' ∧ Refines s' a' := by
  induction ops generalizing s a with
  | nil =>
    obtain rfl := Option.some.inj hs
    exact ⟨a, rfl, h⟩
  | cons op ops ih =>
    obtain ⟨u, hu, hrest⟩ := run_cons hs
    obtain ⟨b, hb, hr⟩ := h.step hplain.1 hu
    obtain ⟨a', ha', hr'⟩ := ih hr hrest (hplain.2 u hu)
    refine ⟨a', ?_, hr'⟩
    rw [Lib.run, hb]
    exact ha'

end Refines

/-- A run of calls on a file of tmpfs gives the answers of an array of bytes and leaves the array's bytes, size and
positions. -/
theorem tmpfs_file_bytes {ops : List TmpfsFileOp} {s : TmpfsData} (h : run TmpfsData.step .init ops = some s)
    (hplain : Meets TmpfsData.step TmpfsData.Plain .init ops) :
    ∃ a, run ByteFile.step .init ops = some a ∧ s.log = a.log ∧ s.dFile = ⟨a.bytes, a.bytes.length⟩ ∧
      s.pos = a.pos ∧ ∀ d p, a.pos d = some p → p ≤ a.bytes.length ∧ s.fnodeSize = a.bytes.length := by
  obtain ⟨a, ha, hr⟩ := Refines.init.run h hplain
  refine ⟨a, ha, hr.log, ?_, hr.pos, fun d p hp => ⟨hr.le hp, hr.fnodeSize hp⟩⟩
  rw [← hr.data, show s.dFile.data.length = s.dFile.size by rw [hr.data, hr.size]]

instance (s : TmpfsData) : ∀ op, Decidable (s.Plain op)
  | .open _ trunc append =>
    inferInstanceAs (Decidable (0 < s.refCount → s.fnodeSize ≠ 0 → trunc = false ∧ append = false))
  | .close _ => isTrue trivial
  | .read d count => inferInstanceAs (Decidable (∀ pos ∈ s.pos d, min count (s.fnodeSize - pos) < 2 ^ 31))
  | .write _ buf _ => inferInstanceAs (Decidable (buf.length < 2 ^ 31))
  | .lseek d offset whence =>
    inferInstanceAs (Decidable (∀ pos ∈ s.pos d, seekTarget pos s.fnodeSize offset whence ≤ s.fnodeSize →
      seekTarget pos s.fnodeSize offset whence < 2 ^ 31))

def sharedSteps : List TmpfsFileOp :=
  [.open 0 true false, .write 0 [1, 2, 3] (some fun _ => 0), .open 1 false false, .read 1 2, .write 1 [4, 5] none,
    .write 1 [4, 5] (some fun _ => 0), .lseek 0 (-3) .fromEnd, .read 0 9, .close 1]

theorem tmpfs_file_bytes_shared : ∃ s, run TmpfsData.step .init sharedSteps = some s ∧
    ∃ a, run ByteFile.step .init sharedSteps = some a ∧ s.log = a.log ∧ s.dFile = ⟨a.bytes, a.bytes.length⟩ := by
  have hrun : (run TmpfsData.step .init sharedSteps).isSome := by
    decide +kernel
  obtain ⟨s, hs⟩ := Option.isSome_iff_exists.mp hrun
  obtain ⟨a, ha, hlog, hfile, -⟩ := tmpfs_file_bytes hs (by decide +kernel)
  exact ⟨s, hs, a, ha, hlog, hfile⟩

/-- A second descriptor that reads from the start. -/
def againSteps (trunc append : Bool) : List TmpfsFileOp :=
  [.open 0 false false, .write 0 [1, 2, 3] (some fun _ => 0), .lseek 0 0 .set, .open 1 trunc append, .read 1 3]

/-- A file that is open already is neither truncated nor opened at its end. -/
theorem tmpfs_opened_again :
    (run TmpfsData.step .init (againSteps true false)).map TmpfsData.log ≠
        (run ByteFile.step .init (againSteps true false)).map ByteFile.log ∧
      (run TmpfsData.step .init (againSteps false true)).map TmpfsData.log ≠
        (run ByteFile.step .init (againSteps false true)).map ByteFile.log := by
  decide +kernel

end RtSmart
