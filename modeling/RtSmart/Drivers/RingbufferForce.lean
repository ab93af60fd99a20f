import Mathlib.Data.List.DropRight
import RtSmart.Drivers.Ringbuffer

/-!
The writes that overwrite the oldest bytes of a ring buffer instead of failing.
-/

namespace RtSmart

open Lib

/-- Of too long a block only the last bytes are written, from `start` on. -/
def rtRingbufferPutForce (rb : RtRingbuffer) (ptr : ℕ → UInt8) (length : UInt16) : RtRingbuffer × ℕ :=
  let spaceLength := rtRingbufferSpaceLen rb % 2 ^ 16
  let start := if length.toNat > rb.bufferSize then length.toNat - rb.bufferSize else 0
  let length := if length.toNat > rb.bufferSize then rb.bufferSize else length.toNat
  if (rb.bufferSize : ℤ) - rb.writeIndex > length then
    let writeIndex := (rb.writeIndex + length) % 2 ^ 15
    ({ rb with
        bufferPtr := memcpy rb.bufferPtr rb.writeIndex ptr start length
        writeIndex := writeIndex
        readIndex := if length > spaceLength then writeIndex else rb.readIndex }, length)
  else
    let room := rb.bufferSize - rb.writeIndex
    let pool := memcpy rb.bufferPtr rb.writeIndex ptr start room
    let writeIndex := (length - room) % 2 ^ 15
    ({ rb with
        bufferPtr := memcpy pool 0 ptr (start + room) (length - room)
        writeMirror := !rb.writeMirror
        writeIndex := writeIndex
        readMirror := if length > spaceLength then !rb.readMirror else rb.readMirror
        readIndex := if length > spaceLength then writeIndex else rb.readIndex }, length)

def rtRingbufferPutcharForce (rb : RtRingbuffer) (ch : UInt8) : RtRingbuffer × ℕ :=
  let oldState := rtRingbufferStatus rb
  let rb := { rb with bufferPtr := Function.update rb.bufferPtr rb.writeIndex ch }
  if (rb.writeIndex : ℤ) = rb.bufferSize - 1 then
    let rb := { rb with writeMirror := !rb.writeMirror, writeIndex := 0 }
    if oldState = .full then ({ rb with readMirror := !rb.readMirror, readIndex := rb.writeIndex }, 1) else (rb, 1)
  else
    let rb := { rb with writeIndex := (rb.writeIndex + 1) % 2 ^ 15 }
    if oldState = .full then ({ rb with readIndex := rb.writeIndex }, 1) else (rb, 1)

namespace RtRingbuffer

variable {rb rb1 : RtRingbuffer} {ptr : ℕ → UInt8} {count d : ℕ} {length : UInt16}

/-- The read side goes on by `d` bytes. -/
def dropped (rb : RtRingbuffer) (d : ℕ) : RtRingbuffer :=
  if rb.readIndex + d < rb.bufferSize then { rb with readIndex := rb.readIndex + d }
  else { rb with readMirror := !rb.readMirror, readIndex := rb.readIndex + d - rb.bufferSize }

theorem dropped_consumed (rb : RtRingbuffer) (d : ℕ) : Consumed rb (rb.dropped d) d := by
  unfold dropped
  split
  · exact ⟨rfl, rfl, rfl, rfl, fun _ => ⟨rfl, rfl⟩, fun hge => (by omega)⟩
  · exact ⟨rfl, rfl, rfl, rfl, fun hlt => (by omega), fun hge => ⟨rfl, Nat.sub_add_cancel hge⟩⟩

theorem putForce_wrote (ptr : ℕ → UInt8) (hc : rb.Holds count) (hpos : 0 < rb.bufferSize) (length : UInt16)
    (hsize : rb1.bufferSize = rb.bufferSize) (hpool : rb1.bufferPtr = rb.bufferPtr)
    (hwi : rb1.writeIndex = rb.writeIndex) (hwm : rb1.writeMirror = rb.writeMirror)
    (hri : (rtRingbufferPutForce rb ptr length).1.readIndex = rb1.readIndex)
    (hrm : (rtRingbufferPutForce rb ptr length).1.readMirror = rb1.readMirror) :
    Wrote rb1 (rtRingbufferPutForce rb ptr length).1 (fun i => ptr (length.toNat - rb.bufferSize + i))
      (min length.toNat rb.bufferSize) := by
  have hs := hc.size_lt
  have hwl := hc.write_lt
  have hstart : (if length.toNat > rb.bufferSize then length.toNat - rb.bufferSize else 0) =
      length.toNat - rb.bufferSize := by
    split <;> omega
  have hmin : (if length.toNat > rb.bufferSize then rb.bufferSize else length.toNat) = min length.toNat rb.bufferSize := by
    split <;> omega
  unfold rtRingbufferPutForce at hri hrm ⊢
  simp only [hstart, hmin] at hri hrm ⊢
  have hn : min length.toNat rb.bufferSize ≤ rb.bufferSize := Nat.min_le_right ..
  generalize min length.toNat rb.bufferSize = n at hri hrm hn ⊢
  generalize length.toNat - rb.bufferSize = start at hri hrm ⊢
  split at hri
  case isTrue hlt =>
    rw [if_pos hlt] at hrm ⊢
    refine ⟨hsize.symm, hrm, hri, ?_, ?_, ?_⟩
    · intro _
      rw [hwi, hwm]
      exact ⟨rfl, Nat.mod_eq_of_lt (by omega)⟩
    · intro hge
      omega
    · intro i hi
      dsimp only [memcpy]
      rw [hwi, hsize, hpool, if_neg (show ¬ (i + rb.bufferSize < rb.writeIndex + n) by omega)]
  case isFalse hge =>
    rw [if_neg hge] at hrm ⊢
    refine ⟨hsize.symm, hrm, hri, ?_, ?_, ?_⟩
    · intro hlt
      omega
    · intro _
      dsimp only
      rw [hwi, hwm, hsize, Nat.mod_eq_of_lt (by omega)]
      exact ⟨rfl, by omega⟩
    · intro i hi
      dsimp only [memcpy]
      rw [hwi, hsize, hpool]
      split_ifs <;> first | rfl | omega | (congr 1; omega)

theorem putForce_fit (ptr : ℕ → UInt8) (hc : rb.Holds count) (hfit : count + min length.toNat rb.bufferSize ≤ rb.bufferSize) :
    (rtRingbufferPutForce rb ptr length).1.readIndex = rb.readIndex ∧
      (rtRingbufferPutForce rb ptr length).1.readMirror = rb.readMirror := by
  have hs := hc.size_lt
  have hspace : ¬ min length.toNat rb.bufferSize > (rb.bufferSize - count) % 2 ^ 16 := by omega
  have hmin : (if length.toNat > rb.bufferSize then rb.bufferSize else length.toNat) = min length.toNat rb.bufferSize := by
    split <;> omega
  unfold rtRingbufferPutForce
  rw [hc.spaceLen_eq]
  dsimp only
  rw [hmin]
  simp only [if_neg hspace]
  split
  · exact ⟨rfl, rfl⟩
  · exact ⟨rfl, rfl⟩

theorem putForce_over (ptr : ℕ → UInt8) (hc : rb.Holds count) (hover : rb.bufferSize < count + min length.toNat rb.bufferSize) :
    (rtRingbufferPutForce rb ptr length).1.readIndex = (rtRingbufferPutForce rb ptr length).1.writeIndex ∧
      ((rtRingbufferPutForce rb ptr length).1.readMirror = rb.readMirror ↔
        (rtRingbufferPutForce rb ptr length).1.writeMirror = rb.writeMirror) := by
  have hs := hc.size_lt
  have hle := hc.count_le
  have hspace : min length.toNat rb.bufferSize > (rb.bufferSize - count) % 2 ^ 16 := by omega
  have hmin : (if length.toNat > rb.bufferSize then rb.bufferSize else length.toNat) = min length.toNat rb.bufferSize := by
    split <;> omega
  unfold rtRingbufferPutForce
  rw [hc.spaceLen_eq]
  dsimp only
  rw [hmin]
  simp only [if_pos hspace]
  split
  · exact ⟨rfl, iff_of_true rfl rfl⟩
  · exact ⟨rfl, by simp⟩

theorem rtake_append (ptr : ℕ → UInt8) {old : List UInt8} {capacity : ℕ} (hle : old.length ≤ capacity) (m : ℕ) :
    (old ++ (List.range m).map ptr).rtake capacity =
      old.drop (old.length + min m capacity - capacity) ++
        (List.range (min m capacity)).map fun i => ptr (m - capacity + i) := by
  unfold List.rtake
  rw [List.length_append, List.length_map, List.length_range, List.drop_append]
  rcases Nat.le_total m capacity with hm | hm
  · rw [Nat.min_eq_left hm, Nat.sub_eq_zero_of_le (by omega : old.length + m - capacity ≤ old.length),
      Nat.sub_eq_zero_of_le hm]
    simp
  · rw [Nat.min_eq_right hm, List.drop_eq_nil_of_le (by omega), Nat.add_sub_cancel, List.drop_length]
    have hskip : old.length + m - capacity - old.length = m - capacity := by omega
    rw [hskip, ← List.map_drop]
    apply List.ext_getElem
    · simp
      omega
    · intro i _ _
      simp

theorem contents_eq_nil (hi : rb.readIndex = rb.writeIndex) (h0 : rb.readMirror = rb.writeMirror ∨ rb.bufferSize = 0) :
    rb.contents = [] := by
  have hlen : rtRingbufferDataLen rb = 0 := by
    unfold rtRingbufferDataLen rtRingbufferStatus
    rw [if_pos hi]
    by_cases hm : rb.readMirror = rb.writeMirror
    · rw [if_pos hm]
    · rw [if_neg hm]
      exact h0.resolve_left hm
  unfold contents
  rw [hlen]
  rfl

theorem putForce_dropped (ptr : ℕ → UInt8) (hc : rb.Holds count) (hm : rb.readMirror ≠ rb.writeMirror)
    (hover : rb.bufferSize < count + min length.toNat rb.bufferSize) :
    (rtRingbufferPutForce rb ptr length).1.readIndex = (rb.dropped (count + min length.toNat rb.bufferSize - rb.bufferSize)).readIndex ∧
      (rtRingbufferPutForce rb ptr length).1.readMirror =
        (rb.dropped (count + min length.toNat rb.bufferSize - rb.bufferSize)).readMirror := by
  have hle := hc.count_le
  have hcross := hc.crossed hm
  have hpos : 0 < rb.bufferSize := by omega
  obtain ⟨hri, hrm⟩ := putForce_over ptr hc hover
  have hw := @putForce_wrote rb { rb with
    readIndex := (rtRingbufferPutForce rb ptr length).1.readIndex
    readMirror := (rtRingbufferPutForce rb ptr length).1.readMirror } count ptr hc hpos length rfl rfl rfl rfl rfl rfl
  unfold dropped
  split
  · rename_i hlt
    obtain ⟨hwm, hwi⟩ := hw.straight (show rb.writeIndex + min length.toNat rb.bufferSize < rb.bufferSize by omega)
    refine ⟨?_, hrm.mpr hwm⟩
    rw [hri, hwi]
    dsimp only
    omega
  · rename_i hge
    obtain ⟨hwm, hwi⟩ := hw.wrapped (show rb.bufferSize ≤ rb.writeIndex + min length.toNat rb.bufferSize by omega)
    dsimp only at hwm hwi
    constructor
    · rw [hri]
      dsimp only
      omega
    · apply Bool.eq_not.mpr
      intro hsame
      have hback := hrm.mp hsame
      rw [hwm] at hback
      exact Bool.not_ne_self _ hback

theorem putForce_size (ptr : ℕ → UInt8) : (rtRingbufferPutForce rb ptr length).1.bufferSize = rb.bufferSize := by
  unfold rtRingbufferPutForce
  dsimp only
  split_ifs <;> rfl

theorem putForce_nil (ptr : ℕ → UInt8) (hc : rb.Holds count) (hzero : rb.bufferSize = 0) :
    (rtRingbufferPutForce rb ptr length).1.contents = [] := by
  have hle := hc.count_le
  have hrl := hc.read_lt
  have hwl := hc.write_lt
  have hfit : count + min length.toNat rb.bufferSize ≤ rb.bufferSize := by omega
  obtain ⟨hri, -⟩ := putForce_fit ptr hc hfit
  apply contents_eq_nil
  · rw [hri]
    have hread : rb.readIndex = 0 := by omega
    have hwrite : rb.writeIndex = 0 := by omega
    have hnone : (if length.toNat > 0 then 0 else length.toNat) = 0 := by
      split <;> omega
    unfold rtRingbufferPutForce
    simp [hzero, hread, hwrite, hnone]
  · exact .inr ((putForce_size ptr).trans hzero)

theorem putForce_newest (ptr : ℕ → UInt8) (hc : rb.Holds count) (length : UInt16)
    (hok : rb.readMirror = rb.writeMirror → count + min length.toNat rb.bufferSize ≤ rb.bufferSize) :
    (rtRingbufferPutForce rb ptr length).1.contents =
      (rb.contents ++ (List.range length.toNat).map ptr).rtake rb.bufferSize := by
  have hle := hc.count_le
  rw [rtake_append ptr (by rw [hc.length_contents]; exact hle), hc.length_contents]
  rcases Nat.eq_zero_or_pos rb.bufferSize with hzero | hpos
  · have hnone : rb.contents = [] := List.eq_nil_of_length_eq_zero (by rw [hc.length_contents]; omega)
    rw [putForce_nil ptr hc hzero, hnone, hzero, Nat.min_zero, List.drop_nil]
    rfl
  rcases Nat.lt_or_ge rb.bufferSize (count + min length.toNat rb.bufferSize) with hover | hfit
  · have hm : rb.readMirror ≠ rb.writeMirror := fun hm => absurd (hok hm) (by omega)
    obtain ⟨hri, hrm⟩ := putForce_dropped ptr hc hm hover
    have hd := dropped_consumed rb (count + min length.toNat rb.bufferSize - rb.bufferSize)
    have hcount : 0 < count := by omega
    have hw := putForce_wrote ptr hc hpos length hd.bufferSize hd.bufferPtr hd.writeIndex hd.writeMirror hri hrm
    have hheld := hd.holds hc (by omega) hcount
    rw [hw.contents hheld (by rw [hd.bufferSize]; omega) (by rw [hd.bufferSize]; exact hpos), hd.contents hc (by omega) hcount]
  · obtain ⟨hri, hrm⟩ := putForce_fit ptr hc hfit
    have hw := putForce_wrote ptr hc hpos length rfl rfl rfl rfl hri hrm
    rw [hw.contents hc hfit hpos, Nat.sub_eq_zero_of_le hfit, List.drop_zero]

theorem putForce_emptied (ptr : ℕ → UInt8) (hc : rb.Holds count) (hm : rb.readMirror = rb.writeMirror)
    (hover : rb.bufferSize < count + min length.toNat rb.bufferSize) :
    (rtRingbufferPutForce rb ptr length).1.contents = [] := by
  have hle := hc.count_le
  have hsame := hc.same hm
  have hpos : 0 < rb.bufferSize := by omega
  obtain ⟨hri, hrm⟩ := putForce_over ptr hc hover
  have hw := @putForce_wrote rb { rb with
    readIndex := (rtRingbufferPutForce rb ptr length).1.readIndex
    readMirror := (rtRingbufferPutForce rb ptr length).1.readMirror } count ptr hc hpos length rfl rfl rfl rfl rfl rfl
  obtain ⟨hwm, -⟩ := hw.wrapped (show rb.bufferSize ≤ rb.writeIndex + min length.toNat rb.bufferSize by omega)
  apply contents_eq_nil hri
  left
  rw [hwm]
  apply Bool.eq_not.mpr
  intro hsame
  have hback := hrm.mp (hsame.trans hm.symm)
  rw [hwm] at hback
  exact Bool.not_ne_self _ hback

theorem Holds.status_full (hc : rb.Holds count) (hpos : 0 < rb.bufferSize) :
    rtRingbufferStatus rb = .full ↔ count = rb.bufferSize := by
  have hle := hc.count_le
  have hrl := hc.read_lt
  have hwl := hc.write_lt
  unfold rtRingbufferStatus
  by_cases hm : rb.readMirror = rb.writeMirror
  · have hsame := hc.same hm
    rw [if_pos hm]
    split
    · exact iff_of_false (by simp) (by omega)
    · exact iff_of_false (by simp) (by omega)
  · have hcross := hc.crossed hm
    rw [if_neg hm]
    split
    · exact iff_of_true rfl (by omega)
    · exact iff_of_false (by simp) (by omega)

theorem putcharForce_of_room (hc : rb.Holds count) (h0 : count < rb.bufferSize) (ch : UInt8) :
    rtRingbufferPutcharForce rb ch = rtRingbufferPutchar rb ch := by
  have hroom : rtRingbufferStatus rb ≠ .full := fun hfull => absurd ((hc.status_full (by omega)).mp hfull) (by omega)
  unfold rtRingbufferPutcharForce rtRingbufferPutchar
  rw [hc.spaceLen_eq, if_neg (show ¬ rb.bufferSize - count = 0 by omega)]
  dsimp only
  rw [if_neg hroom, if_neg hroom]

theorem putcharForce_of_full (hc : rb.Holds rb.bufferSize) (hpos : 0 < rb.bufferSize) (ch : UInt8) :
    Wrote (rb.dropped 1) (rtRingbufferPutcharForce rb ch).1 (fun _ => ch) 1 := by
  have hs := hc.size_lt
  have hwl := hc.write_lt
  have hrl := hc.read_lt
  have hd := dropped_consumed rb 1
  have hfull := (hc.status_full hpos).mpr rfl
  have hm : rb.readMirror ≠ rb.writeMirror := by
    intro hm
    have := hc.same hm
    omega
  have hcross := hc.crossed hm
  have hptr : ∀ i < rb.bufferSize, Function.update rb.bufferPtr rb.writeIndex ch i =
      if rb.writeIndex ≤ i ∧ i < rb.writeIndex + 1 then ch
      else if i + rb.bufferSize < rb.writeIndex + 1 then ch else rb.bufferPtr i := by
    intro i hi
    rw [if_neg (show ¬ (i + rb.bufferSize < rb.writeIndex + 1) by omega), Function.update_apply]
    split_ifs <;> first | rfl | omega
  unfold rtRingbufferPutcharForce
  dsimp only
  rw [if_pos hfull, if_pos hfull]
  split
  case isTrue hlast =>
    obtain ⟨hrm, hri⟩ := hd.wrapped (by omega)
    refine ⟨hd.bufferSize.symm, hrm.symm, ?_, ?_, ?_, ?_⟩
    · dsimp only
      omega
    · rw [hd.writeIndex, hd.bufferSize]
      omega
    · rw [hd.writeIndex, hd.bufferSize, hd.writeMirror]
      exact fun _ => ⟨rfl, by dsimp only; omega⟩
    · rw [hd.writeIndex, hd.bufferSize, hd.bufferPtr]
      exact hptr
  case isFalse hlast =>
    obtain ⟨hrm, hri⟩ := hd.straight (by omega)
    refine ⟨hd.bufferSize.symm, hrm.symm, ?_, ?_, ?_, ?_⟩
    · dsimp only
      omega
    · rw [hd.writeIndex, hd.bufferSize, hd.writeMirror]
      exact fun _ => ⟨rfl, Nat.mod_eq_of_lt (by omega)⟩
    · rw [hd.writeIndex, hd.bufferSize]
      omega
    · rw [hd.writeIndex, hd.bufferSize, hd.bufferPtr]
      exact hptr

theorem rtake_rtake_append {α : Type*} (l l' : List α) (n : ℕ) : (l.rtake n ++ l').rtake n = (l ++ l').rtake n := by
  simp only [List.rtake_eq_reverse_take_reverse, List.reverse_append, List.reverse_reverse, List.take_append,
    List.take_take, List.length_reverse]
  rw [Nat.min_eq_left (Nat.sub_le ..)]

theorem putcharForce_newest (hc : rb.Holds count) (hpos : 0 < rb.bufferSize) (ch : UInt8) :
    (∃ count', (rtRingbufferPutcharForce rb ch).1.Holds count') ∧
      (rtRingbufferPutcharForce rb ch).1.bufferSize = rb.bufferSize ∧
      (rtRingbufferPutcharForce rb ch).1.contents = (rb.contents ++ [ch]).rtake rb.bufferSize := by
  have hle := hc.count_le
  unfold List.rtake
  rw [List.length_append, hc.length_contents, List.length_singleton]
  rcases hle.lt_or_eq with hlt | rfl
  · rw [putcharForce_of_room hc hlt]
    obtain ⟨hw, -⟩ := putchar_wrote hc hlt ch
    refine ⟨⟨_, hw.holds hc hlt hpos⟩, hw.bufferSize, ?_⟩
    rw [hw.contents hc hlt hpos, Nat.sub_eq_zero_of_le hlt, List.drop_zero]
    rfl
  · have hw := putcharForce_of_full hc hpos ch
    have hd := dropped_consumed rb 1
    have hheld := hd.holds hc hpos hpos
    have hfit : rb.bufferSize - 1 + 1 ≤ (rb.dropped 1).bufferSize := by
      rw [hd.bufferSize]
      omega
    have hpos1 : 0 < (rb.dropped 1).bufferSize := by rwa [hd.bufferSize]
    refine ⟨⟨_, hw.holds hheld hfit hpos1⟩, hw.bufferSize.trans hd.bufferSize, ?_⟩
    rw [hw.contents hheld hfit hpos1, hd.contents hc hpos hpos, Nat.add_sub_cancel_left, List.drop_append_of_le_length]
    · rfl
    · rw [hc.length_contents]
      exact hpos

/-- The bytes put one by one. -/
def putcharsForce (rb : RtRingbuffer) (chars : List UInt8) : RtRingbuffer :=
  chars.foldl (fun rb ch => (rtRingbufferPutcharForce rb ch).1) rb

theorem putcharsForce_newest (hc : rb.Holds count) (hpos : 0 < rb.bufferSize) (chars : List UInt8) :
    (rb.putcharsForce chars).contents = (rb.contents ++ chars).rtake rb.bufferSize := by
  induction chars generalizing rb count with
  | nil =>
    unfold List.rtake
    rw [List.append_nil, hc.length_contents, Nat.sub_eq_zero_of_le hc.count_le, List.drop_zero]
    rfl
  | cons ch chars ih =>
    obtain ⟨⟨count', hc'⟩, hsize, hcontents⟩ := putcharForce_newest hc hpos ch
    have hrest := ih hc' (by rwa [hsize])
    rw [hsize, hcontents, rtake_rtake_append, List.append_assoc] at hrest
    exact hrest

/-! A buffer of less than `RT_ALIGN_SIZE` bytes has no cell; the write index runs on all the same. -/

theorem putcharForce_size (rb : RtRingbuffer) (ch : UInt8) :
    (rtRingbufferPutcharForce rb ch).1.bufferSize = rb.bufferSize := by
  unfold rtRingbufferPutcharForce
  dsimp only
  split_ifs <;> rfl

theorem putcharForce_zero (hzero : rb.bufferSize = 0) (ch : UInt8) :
    (rtRingbufferPutcharForce rb ch).1.writeIndex = (rb.writeIndex + 1) % 2 ^ 15 ∧
      (rtRingbufferPutcharForce rb ch).1.writeMirror = rb.writeMirror ∧
      (rtRingbufferPutcharForce rb ch).1.readMirror = rb.readMirror ∧
      (rtRingbufferPutcharForce rb ch).1.readIndex =
        if rtRingbufferStatus rb = .full then (rb.writeIndex + 1) % 2 ^ 15 else rb.readIndex := by
  have hnever : ¬ (rb.writeIndex : ℤ) = rb.bufferSize - 1 := by omega
  unfold rtRingbufferPutcharForce
  dsimp only
  rw [if_neg hnever]
  split
  · exact ⟨rfl, rfl, rfl, rfl⟩
  · exact ⟨rfl, rfl, rfl, rfl⟩

theorem putcharsForce_crossed (hzero : rb.bufferSize = 0) (hi : rb.readIndex = rb.writeIndex)
    (hm : rb.readMirror ≠ rb.writeMirror) (chars : List UInt8) : (rb.putcharsForce chars).contents = [] := by
  induction chars generalizing rb with
  | nil => exact contents_eq_nil hi (.inr hzero)
  | cons ch chars ih =>
    obtain ⟨hwi, hwm, hrm, hri⟩ := putcharForce_zero hzero ch
    have hfull : rtRingbufferStatus rb = .full := by
      unfold rtRingbufferStatus
      rw [if_pos hi, if_neg hm]
    rw [if_pos hfull, ← hwi] at hri
    apply ih ((putcharForce_size rb ch).trans hzero) hri
    rw [hrm, hwm]
    exact hm

theorem putcharsForce_same (hzero : rb.bufferSize = 0) (hri : rb.readIndex = 0) (hwi : rb.writeIndex < 2 ^ 15)
    (hm : rb.readMirror = rb.writeMirror) (chars : List UInt8) :
    (rb.putcharsForce chars).contents.length = (rb.writeIndex + chars.length) % 2 ^ 15 := by
  induction chars generalizing rb with
  | nil =>
    show rb.contents.length = _
    unfold contents
    rw [length_window]
    unfold rtRingbufferDataLen rtRingbufferStatus
    rw [hri, if_pos hm, List.length_nil]
    split_ifs <;> dsimp only <;> omega
  | cons ch chars ih =>
    obtain ⟨hwi', hwm', hrm', hri'⟩ := putcharForce_zero hzero ch
    have hfull : rtRingbufferStatus rb ≠ .full := by
      unfold rtRingbufferStatus
      rw [if_pos hm]
      split <;> simp
    rw [if_neg hfull] at hri'
    have hrest := ih ((putcharForce_size rb ch).trans hzero) (hri'.trans hri)
      (by rw [hwi']; exact Nat.mod_lt _ (by decide)) (by rw [hrm', hwm', hm])
    rw [hwi'] at hrest
    apply hrest.trans
    rw [List.length_cons]
    omega

/-- A forced write keeps the newest bytes unless it goes past the end of the pool and overwrites at the
same time; single bytes do unless there is no cell. -/
theorem force_keeps_newest (hc : rb.Holds count) :
    (∀ (ptr : ℕ → UInt8) (length : UInt16),
      (rtRingbufferPutForce rb ptr length).1.contents =
          (rb.contents ++ (List.range length.toNat).map ptr).rtake rb.bufferSize ↔
        (rb.readMirror = rb.writeMirror → rtRingbufferDataLen rb + min length.toNat rb.bufferSize ≤ rb.bufferSize)) ∧
      ∀ chars : List UInt8,
        (rb.putcharsForce chars).contents = (rb.contents ++ chars).rtake rb.bufferSize ↔
          0 < rb.bufferSize ∨ rb.readMirror ≠ rb.writeMirror ∨ 2 ^ 15 ∣ chars.length := by
  have hle := hc.count_le
  rw [hc.dataLen_eq]
  constructor
  · intro ptr length
    refine ⟨?_, fun hok => putForce_newest ptr hc length hok⟩
    intro hnewest hm
    by_contra hover
    rw [putForce_emptied ptr hc hm (by omega)] at hnewest
    have hlen := congrArg List.length hnewest
    rw [List.length_nil, List.rtake, List.length_drop, List.length_append, hc.length_contents, List.length_map,
      List.length_range] at hlen
    omega
  · intro chars
    rcases Nat.eq_zero_or_pos rb.bufferSize with hzero | hpos
    · have hnil : (rb.contents ++ chars).rtake rb.bufferSize = [] := by
        rw [hzero, List.rtake, Nat.sub_zero, List.drop_length]
      have hrl := hc.read_lt
      have hwl := hc.write_lt
      rw [hnil]
      by_cases hm : rb.readMirror = rb.writeMirror
      · have hlen := putcharsForce_same hzero (by omega) (by omega) hm chars
        rw [← List.length_eq_zero_iff, hlen, Nat.dvd_iff_mod_eq_zero, show rb.writeIndex = 0 by omega, Nat.zero_add]
        constructor
        · exact fun h => .inr (.inr h)
        · rintro (h | h | h)
          · omega
          · exact absurd hm h
          · exact h
      · exact iff_of_true (putcharsForce_crossed hzero (by omega) hm chars) (.inr (.inl hm))
    · exact iff_of_true (putcharsForce_newest hc hpos chars) (.inl hpos)

/-- Eight cells, the read side at 2 and two bytes to read behind it. -/
def twoBytes : RtRingbuffer := ⟨fun i => UInt8.ofNat i, false, 2, false, 4, 8⟩

theorem holds_twoBytes : twoBytes.Holds 2 := ⟨by decide, by decide, by decide, by decide, by decide, by decide⟩

theorem force_keeps_newest_two : (rtRingbufferPutForce twoBytes (fun _ => 7) 5).1.contents = [2, 3, 7, 7, 7, 7, 7] := by
  rw [((force_keeps_newest holds_twoBytes).1 (fun _ => 7) 5).mpr (fun _ => by decide)]
  decide

/-- Seven bytes put to these two leave nothing to read. -/
theorem force_loses_all : (rtRingbufferPutForce twoBytes (fun _ => 7) 7).1.contents = [] ∧
    (twoBytes.contents ++ (List.range 7).map fun _ => 7).rtake 8 = [3, 7, 7, 7, 7, 7, 7, 7] := by
  decide

end RtRingbuffer

end RtSmart
