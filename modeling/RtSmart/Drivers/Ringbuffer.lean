import RtSmart.Lib.Ring
import RtSmart.Lib.Word

/-!
The byte ring buffer of the device drivers (ringbuffer.c), and its refinement of a bounded queue of
bytes.
-/

namespace RtSmart

open Lib

inductive RtRingbufferState
  | empty
  | full
  | halffull
  deriving DecidableEq, Repr

structure RtRingbuffer where
  bufferPtr : ℕ → UInt8
  readMirror : Bool
  readIndex : ℕ
  writeMirror : Bool
  writeIndex : ℕ
  bufferSize : ℕ

def rtRingbufferInit (align : ℕ) (pool : ℕ → UInt8) (size : ℕ) : RtRingbuffer :=
  ⟨pool, false, 0, false, 0, rtAlignDown size align⟩

def rtRingbufferStatus (rb : RtRingbuffer) : RtRingbufferState :=
  if rb.readIndex = rb.writeIndex then
    if rb.readMirror = rb.writeMirror then .empty else .full
  else .halffull

-- the differences are of type `int`, the result is an `rt_size_t`
def rtRingbufferDataLen (rb : RtRingbuffer) : ℕ :=
  match rtRingbufferStatus rb with
  | .empty => 0
  | .full => rb.bufferSize
  | .halffull =>
    if rb.writeIndex > rb.readIndex then rb.writeIndex - rb.readIndex
    else (((rb.bufferSize : ℤ) - (rb.readIndex - rb.writeIndex)) % 2 ^ 64).toNat

def rtRingbufferSpaceLen (rb : RtRingbuffer) : ℕ :=
  (((rb.bufferSize : ℤ) - rtRingbufferDataLen rb) % 2 ^ 64).toNat

-- the indices are bit fields of 15 bits
def rtRingbufferPut (rb : RtRingbuffer) (ptr : ℕ → UInt8) (length : UInt16) : RtRingbuffer × ℕ :=
  let size := rtRingbufferSpaceLen rb % 2 ^ 16
  if size = 0 then (rb, 0)
  else
    let length := if size < length.toNat then size else length.toNat
    if (rb.bufferSize : ℤ) - rb.writeIndex > length then
      ({ rb with
          bufferPtr := memcpy rb.bufferPtr rb.writeIndex ptr 0 length
          writeIndex := (rb.writeIndex + length) % 2 ^ 15 }, length)
    else
      let room := rb.bufferSize - rb.writeIndex
      let pool := memcpy rb.bufferPtr rb.writeIndex ptr 0 room
      ({ rb with
          bufferPtr := memcpy pool 0 ptr room (length - room)
          writeMirror := !rb.writeMirror
          writeIndex := (length - room) % 2 ^ 15 }, length)

/-- The buffer behind `ptr` is returned as the call leaves it. -/
def rtRingbufferGet (rb : RtRingbuffer) (ptr : ℕ → UInt8) (length : UInt16) :
    RtRingbuffer × (ℕ → UInt8) × ℕ :=
  let size := rtRingbufferDataLen rb
  if size = 0 then (rb, ptr, 0)
  else
    let length := if size < length.toNat then size else length.toNat
    if (rb.bufferSize : ℤ) - rb.readIndex > length then
      ({ rb with readIndex := (rb.readIndex + length) % 2 ^ 15 },
        memcpy ptr 0 rb.bufferPtr rb.readIndex length, length)
    else
      let room := rb.bufferSize - rb.readIndex
      let buffer := memcpy ptr 0 rb.bufferPtr rb.readIndex room
      ({ rb with
          readMirror := !rb.readMirror
          readIndex := (length - room) % 2 ^ 15 },
        memcpy buffer room rb.bufferPtr 0 (length - room), length)

def rtRingbufferPutchar (rb : RtRingbuffer) (ch : UInt8) : RtRingbuffer × ℕ :=
  if rtRingbufferSpaceLen rb = 0 then (rb, 0)
  else
    let rb := { rb with bufferPtr := Function.update rb.bufferPtr rb.writeIndex ch }
    if (rb.writeIndex : ℤ) = rb.bufferSize - 1 then
      ({ rb with writeMirror := !rb.writeMirror, writeIndex := 0 }, 1)
    else ({ rb with writeIndex := (rb.writeIndex + 1) % 2 ^ 15 }, 1)

def rtRingbufferGetchar (rb : RtRingbuffer) (ch : UInt8) : RtRingbuffer × UInt8 × ℕ :=
  if rtRingbufferDataLen rb = 0 then (rb, ch, 0)
  else
    let ch := rb.bufferPtr rb.readIndex
    if (rb.readIndex : ℤ) = rb.bufferSize - 1 then
      ({ rb with readMirror := !rb.readMirror, readIndex := 0 }, ch, 1)
    else ({ rb with readIndex := (rb.readIndex + 1) % 2 ^ 15 }, ch, 1)

inductive RingOp
  | put (ptr : ℕ → UInt8) (length : UInt16)
  | putchar (ch : UInt8)
  | get (ptr : ℕ → UInt8) (length : UInt16)
  | getchar (ch : UInt8)

/-- What a caller sees of one operation: the amount it returns, the bytes it delivers, and the two
lengths afterwards. -/
structure RingReply where
  amount : ℕ
  delivered : List UInt8
  dataLen : ℕ
  spaceLen : ℕ
  deriving DecidableEq, Repr

namespace RtRingbuffer

def reply (rb : RtRingbuffer) (amount : ℕ) (delivered : List UInt8) : RtRingbuffer × RingReply :=
  (rb, ⟨amount, delivered, rtRingbufferDataLen rb, rtRingbufferSpaceLen rb⟩)

def step (rb : RtRingbuffer) : RingOp → RtRingbuffer × RingReply
  | .put ptr length =>
    let r := rtRingbufferPut rb ptr length
    reply r.1 r.2 []
  | .putchar ch =>
    let r := rtRingbufferPutchar rb ch
    reply r.1 r.2 []
  | .get ptr length =>
    let r := rtRingbufferGet rb ptr length
    reply r.1 r.2.2 ((List.range r.2.2).map r.2.1)
  | .getchar ch =>
    let r := rtRingbufferGetchar rb ch
    reply r.1 r.2.2 (List.replicate r.2.2 r.2.1)

def replies (rb : RtRingbuffer) : List RingOp → List RingReply
  | [] => []
  | op :: ops => (rb.step op).2 :: replies (rb.step op).1 ops

end RtRingbuffer

-- the bounded queue of bytes, in its own terms
namespace ByteQueue

def reply (capacity : ℕ) (q : List UInt8) (amount : ℕ) (delivered : List UInt8) : List UInt8 × RingReply :=
  (q, ⟨amount, delivered, q.length, capacity - q.length⟩)

def offer (capacity : ℕ) (q data : List UInt8) : List UInt8 × RingReply :=
  reply capacity (q ++ data.take (capacity - q.length)) (min data.length (capacity - q.length)) []

def fetch (capacity : ℕ) (q : List UInt8) (n : ℕ) : List UInt8 × RingReply :=
  reply capacity (q.drop n) (min n q.length) (q.take n)

def step (capacity : ℕ) (q : List UInt8) : RingOp → List UInt8 × RingReply
  | .put ptr length => offer capacity q ((List.range length.toNat).map ptr)
  | .putchar ch => offer capacity q [ch]
  | .get _ length => fetch capacity q length.toNat
  | .getchar _ => fetch capacity q 1

def replies (capacity : ℕ) (q : List UInt8) : List RingOp → List RingReply
  | [] => []
  | op :: ops => (step capacity q op).2 :: replies capacity (step capacity q op).1 ops

end ByteQueue

namespace RtRingbuffer

def contents (rb : RtRingbuffer) : List UInt8 :=
  window rb.bufferPtr rb.bufferSize rb.readIndex (rtRingbufferDataLen rb)

/-- The buffer holds `count` bytes; the mirror bits say whether the write index has wrapped once more
than the read index. -/
structure Holds (rb : RtRingbuffer) (count : ℕ) : Prop where
  size_lt : rb.bufferSize < 2 ^ 15
  read_lt : rb.readIndex < max rb.bufferSize 1
  write_lt : rb.writeIndex < max rb.bufferSize 1
  count_le : count ≤ rb.bufferSize
  same : rb.readMirror = rb.writeMirror → rb.writeIndex = rb.readIndex + count
  crossed : rb.readMirror ≠ rb.writeMirror → rb.writeIndex + rb.bufferSize = rb.readIndex + count

variable {rb rb' : RtRingbuffer} {ptr : ℕ → UInt8} {count n : ℕ}

theorem Holds.dataLen_eq (hc : rb.Holds count) : rtRingbufferDataLen rb = count := by
  obtain ⟨hs, hr, hw, hle, hsame, hcross⟩ := hc
  unfold rtRingbufferDataLen rtRingbufferStatus
  by_cases hm : rb.readMirror = rb.writeMirror
  · have heq := hsame hm
    simp only [hm, if_true]
    split_ifs <;> dsimp only <;> omega
  · have heq := hcross hm
    simp only [hm, if_false]
    split_ifs <;> dsimp only <;> omega

theorem Holds.spaceLen_eq (hc : rb.Holds count) : rtRingbufferSpaceLen rb = rb.bufferSize - count := by
  have hle := hc.count_le
  have hs := hc.size_lt
  unfold rtRingbufferSpaceLen
  rw [hc.dataLen_eq]
  omega

theorem Holds.contents_eq (hc : rb.Holds count) :
    rb.contents = window rb.bufferPtr rb.bufferSize rb.readIndex count := by
  unfold contents
  rw [hc.dataLen_eq]

theorem Holds.length_contents (hc : rb.Holds count) : rb.contents.length = count := by
  rw [hc.contents_eq, length_window]

theorem Holds.add_mod (hc : rb.Holds count) (i : ℕ) :
    (rb.readIndex + (count + i)) % rb.bufferSize = (rb.writeIndex + i) % rb.bufferSize := by
  by_cases hm : rb.readMirror = rb.writeMirror
  · rw [hc.same hm, Nat.add_assoc]
  · rw [← Nat.add_assoc, ← hc.crossed hm, Nat.add_right_comm, Nat.add_mod_right]

/-- `n` bytes put behind the contents: the write index is advanced by `n`, and its mirror bit flipped
exactly when it passes the last cell. -/
structure Wrote (rb rb' : RtRingbuffer) (ptr : ℕ → UInt8) (n : ℕ) : Prop where
  bufferSize : rb'.bufferSize = rb.bufferSize
  readMirror : rb'.readMirror = rb.readMirror
  readIndex : rb'.readIndex = rb.readIndex
  straight : rb.writeIndex + n < rb.bufferSize →
    rb'.writeMirror = rb.writeMirror ∧ rb'.writeIndex = rb.writeIndex + n
  wrapped : rb.bufferSize ≤ rb.writeIndex + n →
    rb'.writeMirror = !rb.writeMirror ∧ rb'.writeIndex + rb.bufferSize = rb.writeIndex + n
  bufferPtr : ∀ i < rb.bufferSize, rb'.bufferPtr i =
    if rb.writeIndex ≤ i ∧ i < rb.writeIndex + n then ptr (i - rb.writeIndex)
    else if i + rb.bufferSize < rb.writeIndex + n then ptr (i + rb.bufferSize - rb.writeIndex)
    else rb.bufferPtr i

/-- `n` bytes taken from the front. -/
structure Consumed (rb rb' : RtRingbuffer) (n : ℕ) : Prop where
  bufferPtr : rb'.bufferPtr = rb.bufferPtr
  bufferSize : rb'.bufferSize = rb.bufferSize
  writeMirror : rb'.writeMirror = rb.writeMirror
  writeIndex : rb'.writeIndex = rb.writeIndex
  straight : rb.readIndex + n < rb.bufferSize →
    rb'.readMirror = rb.readMirror ∧ rb'.readIndex = rb.readIndex + n
  wrapped : rb.bufferSize ≤ rb.readIndex + n →
    rb'.readMirror = !rb.readMirror ∧ rb'.readIndex + rb.bufferSize = rb.readIndex + n

theorem Wrote.holds (hc : rb.Holds count) (hw : Wrote rb rb' ptr n) (hn : count + n ≤ rb.bufferSize)
    (h0 : 0 < rb.bufferSize) : rb'.Holds (count + n) := by
  have hcross := hc.crossed
  have hsame := hc.same
  have hwl := hc.write_lt
  have hrl := hc.read_lt
  have hs := hw.bufferSize
  have hr := hw.readIndex
  have hrm := hw.readMirror
  rcases Nat.lt_or_ge (rb.writeIndex + n) rb.bufferSize with hlt | hge
  · obtain ⟨hwm, hwi⟩ := hw.straight hlt
    constructor
    · rw [hs]; exact hc.size_lt
    · omega
    · omega
    · omega
    · rw [hrm, hwm]
      intro hm
      have := hsame hm
      omega
    · rw [hrm, hwm]
      intro hm
      have := hcross hm
      omega
  · obtain ⟨hwm, hwi⟩ := hw.wrapped hge
    constructor
    · rw [hs]; exact hc.size_lt
    · omega
    · omega
    · omega
    · rw [hrm, hwm]
      intro hm
      have := hcross (by simp [hm])
      omega
    · rw [hrm, hwm]
      intro hm
      have := hsame (by simpa using hm)
      omega

theorem Wrote.contents (hc : rb.Holds count) (hw : Wrote rb rb' ptr n) (hn : count + n ≤ rb.bufferSize)
    (h0 : 0 < rb.bufferSize) : rb'.contents = rb.contents ++ (List.range n).map ptr := by
  rw [(hw.holds hc hn h0).contents_eq, hc.contents_eq, hw.bufferSize, hw.readIndex]
  have hwl := hc.write_lt
  have hrl := hc.read_lt
  have hdiv : rb.writeIndex = rb.readIndex + count ∨ rb.writeIndex + rb.bufferSize = rb.readIndex + count := by
    by_cases hm : rb.readMirror = rb.writeMirror
    · exact Or.inl (hc.same hm)
    · exact Or.inr (hc.crossed hm)
  apply window_write
  · intro i hi
    rw [hc.add_mod, mod_of_lt_two_mul (by omega)]
    split
    · rw [hw.bufferPtr _ ‹_›, if_pos (by omega)]
      congr 1
      omega
    · rw [hw.bufferPtr _ (by omega), if_neg (by omega), if_pos (by omega)]
      congr 1
      omega
  · intro i hi
    rw [mod_of_lt_two_mul (by omega)]
    split
    · rw [hw.bufferPtr _ ‹_›, if_neg (by omega), if_neg (by omega)]
    · rw [hw.bufferPtr _ (by omega), if_neg (by omega), if_neg (by omega)]

theorem Consumed.holds (hc : rb.Holds count) (hw : Consumed rb rb' n) (hn : n ≤ count) (h0 : 0 < count) :
    rb'.Holds (count - n) := by
  have hcross := hc.crossed
  have hsame := hc.same
  have hwl := hc.write_lt
  have hrl := hc.read_lt
  have hle := hc.count_le
  have hs := hw.bufferSize
  have hwi := hw.writeIndex
  have hwm := hw.writeMirror
  rcases Nat.lt_or_ge (rb.readIndex + n) rb.bufferSize with hlt | hge
  · obtain ⟨hrm, hri⟩ := hw.straight hlt
    constructor
    · rw [hs]; exact hc.size_lt
    · omega
    · omega
    · omega
    · rw [hrm, hwm]
      intro hm
      have := hsame hm
      omega
    · rw [hrm, hwm]
      intro hm
      have := hcross hm
      omega
  · obtain ⟨hrm, hri⟩ := hw.wrapped hge
    constructor
    · rw [hs]; exact hc.size_lt
    · omega
    · omega
    · omega
    · rw [hrm, hwm]
      intro hm
      have := hcross (by simp [← hm])
      omega
    · rw [hrm, hwm]
      intro hm
      have := hsame (by simpa using hm)
      omega

theorem Consumed.contents (hc : rb.Holds count) (hw : Consumed rb rb' n) (hn : n ≤ count) (h0 : 0 < count) :
    rb'.contents = rb.contents.drop n := by
  have hrl := hc.read_lt
  have hle := hc.count_le
  rw [(hw.holds hc hn h0).contents_eq, hc.contents_eq, drop_window _ hn, hw.bufferSize, hw.bufferPtr,
    mod_of_lt_two_mul (by omega)]
  split
  · rw [(hw.straight ‹_›).2]
  · have := (hw.wrapped (by omega)).2
    congr 1
    omega

theorem put_of_full (hc : rb.Holds count) (h0 : rb.bufferSize ≤ count) (length : UInt16) :
    rtRingbufferPut rb ptr length = (rb, 0) := by
  unfold rtRingbufferPut
  rw [hc.spaceLen_eq]
  simp only [Nat.sub_eq_zero_of_le h0, Nat.zero_mod, if_true]

theorem put_wrote (ptr : ℕ → UInt8) (hc : rb.Holds count) (h0 : count < rb.bufferSize) (length : UInt16) :
    Wrote rb (rtRingbufferPut rb ptr length).1 ptr (min length.toNat (rb.bufferSize - count)) ∧
      (rtRingbufferPut rb ptr length).2 = min length.toNat (rb.bufferSize - count) := by
  have hs := hc.size_lt
  have hwl := hc.write_lt
  have hmod : (rb.bufferSize - count) % 2 ^ 16 = rb.bufferSize - count := Nat.mod_eq_of_lt (by omega)
  have hmin : (if rb.bufferSize - count < length.toNat then rb.bufferSize - count else length.toNat) =
      min length.toNat (rb.bufferSize - count) := by
    split <;> omega
  unfold rtRingbufferPut
  rw [hc.spaceLen_eq, hmod, if_neg (by omega)]
  simp only [hmin]
  have hn : min length.toNat (rb.bufferSize - count) ≤ rb.bufferSize := by omega
  generalize min length.toNat (rb.bufferSize - count) = n at hn
  -- whether the block reaches the last cell of the pool
  split
  case isTrue hlt =>
    refine ⟨⟨rfl, rfl, rfl, fun _ => ⟨rfl, Nat.mod_eq_of_lt (by omega)⟩, fun hge => ?_, ?_⟩, rfl⟩
    · omega
    · intro i hi
      dsimp only [memcpy]
      rw [if_neg (show ¬ (i + rb.bufferSize < rb.writeIndex + n) by omega), Nat.zero_add]
  case isFalse hge =>
    refine ⟨⟨rfl, rfl, rfl, fun hlt => ?_, fun _ => ⟨rfl, ?_⟩, ?_⟩, rfl⟩
    · omega
    · dsimp only
      rw [Nat.mod_eq_of_lt (by omega)]
      omega
    · intro i hi
      dsimp only [memcpy]
      split_ifs <;> first | rfl | omega | (congr 1; omega)

theorem get_of_empty (hc : rb.Holds 0) (length : UInt16) : rtRingbufferGet rb ptr length = (rb, ptr, 0) := by
  unfold rtRingbufferGet
  rw [hc.dataLen_eq]
  simp only [if_true]

theorem get_consumed (ptr : ℕ → UInt8) (hc : rb.Holds count) (h0 : 0 < count) (length : UInt16) :
    Consumed rb (rtRingbufferGet rb ptr length).1 (min length.toNat count) ∧
      (rtRingbufferGet rb ptr length).2.2 = min length.toNat count ∧
      (List.range (min length.toNat count)).map (rtRingbufferGet rb ptr length).2.1 =
        rb.contents.take (min length.toNat count) := by
  have hs := hc.size_lt
  have hrl := hc.read_lt
  have hle := hc.count_le
  have hmin : (if count < length.toNat then count else length.toNat) = min length.toNat count := by
    split <;> omega
  have hn : min length.toNat count ≤ count := by omega
  unfold rtRingbufferGet
  rw [hc.dataLen_eq, if_neg (by omega), hc.contents_eq, take_window _ hn]
  simp only [hmin]
  generalize min length.toNat count = n at hn
  split
  case isTrue hlt =>
    refine ⟨⟨rfl, rfl, rfl, rfl, fun _ => ⟨rfl, Nat.mod_eq_of_lt (by omega)⟩, fun hge => ?_⟩, rfl, ?_⟩
    · omega
    · apply List.map_congr_left
      intro i hi
      have hi' := List.mem_range.mp hi
      dsimp only [memcpy]
      rw [if_pos (by omega), Nat.sub_zero, Nat.mod_eq_of_lt (by omega)]
  case isFalse hge =>
    refine ⟨⟨rfl, rfl, rfl, rfl, fun hlt => ?_, fun _ => ⟨rfl, ?_⟩⟩, rfl, ?_⟩
    · omega
    · dsimp only
      rw [Nat.mod_eq_of_lt (by omega)]
      omega
    · apply List.map_congr_left
      intro i hi
      have hi' := List.mem_range.mp hi
      have hmod : (rb.readIndex + i) % rb.bufferSize = _ := mod_of_lt_two_mul (by omega)
      dsimp only [memcpy]
      rw [hmod]
      split_ifs <;> first | omega | congr 1 <;> omega

theorem putchar_of_full (hc : rb.Holds count) (h0 : rb.bufferSize ≤ count) (ch : UInt8) :
    rtRingbufferPutchar rb ch = (rb, 0) := by
  unfold rtRingbufferPutchar
  rw [hc.spaceLen_eq, if_pos (by omega)]

theorem putchar_wrote (hc : rb.Holds count) (h0 : count < rb.bufferSize) (ch : UInt8) :
    Wrote rb (rtRingbufferPutchar rb ch).1 (fun _ => ch) 1 ∧ (rtRingbufferPutchar rb ch).2 = 1 := by
  have hs := hc.size_lt
  have hwl := hc.write_lt
  have hptr : ∀ i < rb.bufferSize, Function.update rb.bufferPtr rb.writeIndex ch i =
      if rb.writeIndex ≤ i ∧ i < rb.writeIndex + 1 then ch
      else if i + rb.bufferSize < rb.writeIndex + 1 then ch else rb.bufferPtr i := by
    intro i hi
    rw [if_neg (show ¬ (i + rb.bufferSize < rb.writeIndex + 1) by omega), Function.update_apply]
    split_ifs <;> first | rfl | omega
  unfold rtRingbufferPutchar
  rw [hc.spaceLen_eq, if_neg (by omega)]
  dsimp only
  split
  case isTrue hlast =>
    refine ⟨⟨rfl, rfl, rfl, fun hlt => ?_, fun _ => ⟨rfl, ?_⟩, hptr⟩, rfl⟩
    · omega
    · dsimp only
      omega
  case isFalse hlast =>
    refine ⟨⟨rfl, rfl, rfl, fun _ => ⟨rfl, Nat.mod_eq_of_lt (by omega)⟩, fun hge => ?_, hptr⟩, rfl⟩
    omega

theorem getchar_of_empty (hc : rb.Holds 0) (ch : UInt8) : rtRingbufferGetchar rb ch = (rb, ch, 0) := by
  unfold rtRingbufferGetchar
  rw [hc.dataLen_eq, if_pos rfl]

theorem getchar_consumed (hc : rb.Holds count) (h0 : 0 < count) (ch : UInt8) :
    Consumed rb (rtRingbufferGetchar rb ch).1 1 ∧ (rtRingbufferGetchar rb ch).2.2 = 1 ∧
      [(rtRingbufferGetchar rb ch).2.1] = rb.contents.take 1 := by
  have hs := hc.size_lt
  have hrl := hc.read_lt
  have hle := hc.count_le
  have hfront : [rb.bufferPtr rb.readIndex] = rb.contents.take 1 := by
    rw [hc.contents_eq, take_window _ h0]
    simp only [window, List.range_one, List.map_cons, List.map_nil, Nat.add_zero]
    rw [Nat.mod_eq_of_lt (by omega)]
  unfold rtRingbufferGetchar
  rw [hc.dataLen_eq, if_neg (by omega)]
  dsimp only
  split
  case isTrue hlast =>
    refine ⟨⟨rfl, rfl, rfl, rfl, fun hlt => ?_, fun _ => ⟨rfl, ?_⟩⟩, rfl, hfront⟩
    · omega
    · dsimp only
      omega
  case isFalse hlast =>
    refine ⟨⟨rfl, rfl, rfl, rfl, fun _ => ⟨rfl, Nat.mod_eq_of_lt (by omega)⟩, fun hge => ?_⟩, rfl, hfront⟩
    omega

/-- The ring buffer stands for the queue `q` of the given capacity. -/
def Refines (capacity : ℕ) (rb : RtRingbuffer) (q : List UInt8) : Prop :=
  rb.Holds q.length ∧ rb.bufferSize = capacity ∧ rb.contents = q

variable {capacity : ℕ} {q : List UInt8}

theorem Refines.reply_eq (h : Refines capacity rb q) (amount : ℕ) (delivered : List UInt8) :
    (rb.reply amount delivered).2 = (ByteQueue.reply capacity q amount delivered).2 := by
  obtain ⟨hc, rfl, _⟩ := h
  simp only [reply, ByteQueue.reply, hc.dataLen_eq, hc.spaceLen_eq]

theorem Refines.wrote (h : Refines capacity rb q) (hw : Wrote rb rb' ptr n) (h0 : q.length < capacity)
    (hn : n ≤ capacity - q.length) : Refines capacity rb' (q ++ (List.range n).map ptr) := by
  obtain ⟨hc, rfl, hq⟩ := h
  refine ⟨?_, hw.bufferSize, ?_⟩
  · have hh := hw.holds hc (by omega) (by omega)
    simpa only [List.length_append, List.length_map, List.length_range] using hh
  · rw [hw.contents hc (by omega) (by omega), hq]

theorem Refines.consumed (h : Refines capacity rb q) (hw : Consumed rb rb' n) (h0 : 0 < q.length)
    (hn : n ≤ q.length) : Refines capacity rb' (q.drop n) := by
  obtain ⟨hc, rfl, hq⟩ := h
  refine ⟨?_, hw.bufferSize, ?_⟩
  · have hh := hw.holds hc hn h0
    simpa only [List.length_drop] using hh
  · rw [hw.contents hc hn h0, hq]

theorem take_map_range (f : ℕ → UInt8) (m k : ℕ) :
    ((List.range m).map f).take k = (List.range (min m k)).map f := by
  rw [← List.map_take, List.take_range, Nat.min_comm]

theorem Refines.put (h : Refines capacity rb q) (ptr : ℕ → UInt8) (length : UInt16) :
    Refines capacity (rb.step (.put ptr length)).1 (ByteQueue.step capacity q (.put ptr length)).1 ∧
      (rb.step (.put ptr length)).2 = (ByteQueue.step capacity q (.put ptr length)).2 := by
  obtain ⟨hc, hcap, hq⟩ := id h
  simp only [ByteQueue.step, ByteQueue.offer, step, take_map_range, List.length_map, List.length_range]
  rcases Nat.lt_or_ge q.length capacity with h0 | h0
  · obtain ⟨hw, hn⟩ := put_wrote ptr hc (hcap ▸ h0) length
    rw [hcap] at hw hn
    have hr := h.wrote hw h0 (by omega)
    rw [hn]
    exact ⟨hr, hr.reply_eq _ _⟩
  · have hz : capacity - q.length = 0 := by omega
    rw [put_of_full hc (hcap ▸ h0), hz, Nat.min_zero, List.range_zero, List.map_nil, List.append_nil]
    exact ⟨h, h.reply_eq _ _⟩

theorem Refines.putchar (h : Refines capacity rb q) (ch : UInt8) :
    Refines capacity (rb.step (.putchar ch)).1 (ByteQueue.step capacity q (.putchar ch)).1 ∧
      (rb.step (.putchar ch)).2 = (ByteQueue.step capacity q (.putchar ch)).2 := by
  obtain ⟨hc, hcap, hq⟩ := id h
  simp only [ByteQueue.step, ByteQueue.offer, step, List.length_singleton]
  rcases Nat.lt_or_ge q.length capacity with h0 | h0
  · obtain ⟨hw, hn⟩ := putchar_wrote hc (hcap ▸ h0) ch
    have hr := h.wrote hw h0 (by omega)
    have htake : [ch].take (capacity - q.length) = (List.range 1).map fun _ => ch :=
      List.take_of_length_le (by simp only [List.length_singleton]; omega)
    rw [hn, htake, Nat.min_eq_left (by omega)]
    exact ⟨hr, hr.reply_eq _ _⟩
  · have hz : capacity - q.length = 0 := by omega
    rw [putchar_of_full hc (hcap ▸ h0), hz, Nat.min_zero, List.take_zero, List.append_nil]
    exact ⟨h, h.reply_eq _ _⟩

theorem Refines.get (h : Refines capacity rb q) (ptr : ℕ → UInt8) (length : UInt16) :
    Refines capacity (rb.step (.get ptr length)).1 (ByteQueue.step capacity q (.get ptr length)).1 ∧
      (rb.step (.get ptr length)).2 = (ByteQueue.step capacity q (.get ptr length)).2 := by
  obtain ⟨hc, hcap, hq⟩ := id h
  simp only [ByteQueue.step, ByteQueue.fetch, step]
  rcases Nat.eq_zero_or_pos q.length with h0 | h0
  · rw [h0] at hc
    rw [get_of_empty hc]
    obtain rfl := List.length_eq_zero_iff.mp h0
    simp only [List.drop_nil, List.take_nil, List.length_nil, Nat.min_zero, List.range_zero, List.map_nil]
    exact ⟨h, h.reply_eq _ _⟩
  · obtain ⟨hw, hn, hd⟩ := get_consumed ptr hc h0 length
    have hr := h.consumed hw h0 (by omega)
    have hdrop : q.drop (min length.toNat q.length) = q.drop length.toNat := by
      rcases Nat.le_total length.toNat q.length with hle | hle
      · rw [Nat.min_eq_left hle]
      · rw [Nat.min_eq_right hle, List.drop_of_length_le hle, List.drop_length]
    have htake : q.take (min length.toNat q.length) = q.take length.toNat := by
      rcases Nat.le_total length.toNat q.length with hle | hle
      · rw [Nat.min_eq_left hle]
      · rw [Nat.min_eq_right hle, List.take_of_length_le hle, List.take_length]
    rw [hdrop] at hr
    rw [hn, hd, hq, htake]
    exact ⟨hr, hr.reply_eq _ _⟩

theorem Refines.getchar (h : Refines capacity rb q) (ch : UInt8) :
    Refines capacity (rb.step (.getchar ch)).1 (ByteQueue.step capacity q (.getchar ch)).1 ∧
      (rb.step (.getchar ch)).2 = (ByteQueue.step capacity q (.getchar ch)).2 := by
  obtain ⟨hc, hcap, hq⟩ := id h
  simp only [ByteQueue.step, ByteQueue.fetch, step]
  rcases Nat.eq_zero_or_pos q.length with h0 | h0
  · rw [h0] at hc
    rw [getchar_of_empty hc]
    obtain rfl := List.length_eq_zero_iff.mp h0
    simp only [List.drop_nil, List.take_nil, List.length_nil, Nat.min_zero, List.replicate_zero]
    exact ⟨h, h.reply_eq _ _⟩
  · obtain ⟨hw, hn, hd⟩ := getchar_consumed hc h0 ch
    have hr := h.consumed hw h0 h0
    rw [hn, List.replicate_one, hd, hq, Nat.min_eq_left h0]
    exact ⟨hr, hr.reply_eq _ _⟩

theorem Refines.step (h : Refines capacity rb q) (op : RingOp) :
    Refines capacity (rb.step op).1 (ByteQueue.step capacity q op).1 ∧
      (rb.step op).2 = (ByteQueue.step capacity q op).2 := by
  cases op with
  | put ptr length => exact h.put ptr length
  | putchar ch => exact h.putchar ch
  | get ptr length => exact h.get ptr length
  | getchar ch => exact h.getchar ch

theorem Refines.replies (h : Refines capacity rb q) (ops : List RingOp) :
    rb.replies ops = ByteQueue.replies capacity q ops := by
  induction ops generalizing rb q with
  | nil => rfl
  | cons op ops ih =>
    obtain ⟨hnext, hreply⟩ := h.step op
    simp only [RtRingbuffer.replies, ByteQueue.replies, hreply, ih hnext]

theorem refines_init (align : ℕ) (pool : ℕ → UInt8) {size : ℕ} (hs : size < 2 ^ 15) :
    Refines (rtAlignDown size align) (rtRingbufferInit align pool size) [] := by
  have hle : rtAlignDown size align ≤ size := rtAlignDown_le
  have hc : (rtRingbufferInit align pool size).Holds 0 := by
    refine ⟨hle.trans_lt hs, ?_, ?_, Nat.zero_le _, fun _ => rfl, fun h => absurd rfl h⟩ <;>
      exact lt_max_of_lt_right Nat.one_pos
  refine ⟨hc, rfl, ?_⟩
  rw [hc.contents_eq]
  rfl

/-- The capacity is the size given at initialisation, rounded down to a multiple of the alignment. -/
theorem ringbuffer_is_bounded_queue (k : ℕ) (pool : ℕ → UInt8) (size : ℕ) (_ : 0 < size) (hs : size < 2 ^ 15)
    (ops : List RingOp) :
    (rtRingbufferInit (2 ^ k) pool size).replies ops = ByteQueue.replies (size / 2 ^ k * 2 ^ k) [] ops := by
  have h := (refines_init (2 ^ k) pool hs).replies ops
  unfold rtAlignDown at h
  exact h

theorem ringbuffer_is_bounded_queue_example :
    (rtRingbufferInit 4 (fun _ => 0) 4).replies [.put (fun i => i.toUInt8 + 65) 6, .getchar 0, .putchar 90, .get (fun _ => 0) 9] =
      ByteQueue.replies 4 [] [.put (fun i => i.toUInt8 + 65) 6, .getchar 0, .putchar 90, .get (fun _ => 0) 9] :=
  ringbuffer_is_bounded_queue 2 _ 4 (by decide) (by decide) _

/-- Of five bytes put into a buffer of size five only four are taken. -/
theorem ringbuffer_loses_tail :
    ¬ ∀ (pool : ℕ → UInt8) (size : ℕ), 0 < size → size < 2 ^ 15 → ∀ ops : List RingOp,
      (rtRingbufferInit 4 pool size).replies ops = ByteQueue.replies size [] ops := by
  intro h
  have h5 := h (fun _ => 0) 5 (by decide) (by decide) [.put (fun _ => 1) 5]
  rw [(refines_init 4 (fun _ => 0) (by decide)).replies] at h5
  unfold rtAlignDown at h5
  revert h5
  decide +kernel

end RtRingbuffer

end RtSmart
