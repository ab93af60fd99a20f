import RtSmart.Wlan.Hash

/-!
The digests of the WLAN offload are those of the standards, however a message is cut into updates.
-/

namespace RtSmart

open Lib Lib.Digest

/-! The transforms are the compression functions. -/

section words

variable {n : ℕ} {block data : List UInt8} {t : ℕ}

theorem cryptoRotl32_eq (x : Word) (h : n < 32) : cryptoRotl32 x n = x.rotateLeft n := by
  rw [BitVec.rotateLeft_def, Nat.mod_eq_of_lt h]
  rfl

theorem cryptoRotr32_eq (x : Word) (h : n < 32) : cryptoRotr32 x n = x.rotateRight n := by
  rw [BitVec.rotateRight_def, Nat.mod_eq_of_lt h]
  rfl

theorem word_bits (a b c d : BitVec 8) :
    a.setWidth 32 <<< 24 ||| b.setWidth 32 <<< 16 ||| c.setWidth 32 <<< 8 ||| d.setWidth 32 =
      (a ++ b ++ (c ++ d)).cast rfl := by
  apply BitVec.eq_of_getLsbD_eq
  intro i hi
  simp only [BitVec.getLsbD_or, BitVec.getLsbD_shiftLeft, BitVec.getLsbD_setWidth, BitVec.getLsbD_cast,
    BitVec.getLsbD_append]
  by_cases h1 : i < 8
  · simp [h1, hi, show i < 16 by omega, show i < 24 by omega]
  have hd : d.getLsbD i = false := BitVec.getLsbD_of_ge d i (by omega)
  by_cases h2 : i < 16
  · have h3 : i < 24 := by omega
    simp [h1, h2, h3, hi, hd]
    omega
  have hc : c.getLsbD (i - 8) = false := BitVec.getLsbD_of_ge c _ (by omega)
  by_cases h3 : i < 24
  · have h4 : i - 16 < 8 := by omega
    simp [h1, h2, h3, h4, hi, hd, hc]
    omega
  · have hb : b.getLsbD (i - 16) = false := BitVec.getLsbD_of_ge b _ (by omega)
    have h4 : ¬i - 16 < 8 := by omega
    have h5 : i - 16 - 8 = i - 24 := by omega
    simp [h1, h2, h3, h4, h5, hi, hd, hc, hb]
    omega

theorem or_reverse (a b c d : Word) : a ||| b ||| c ||| d = d ||| c ||| b ||| a := by
  ac_rfl

theorem take_getD (i : ℕ) (h : i < 4) (l : List UInt8) : (l.take 4).getD i 0 = l.getD i 0 := by
  simp [List.getD_eq_getElem?_getD, h]

theorem cryptoGetBe32_eq (data : List UInt8) : cryptoGetBe32 data = beWord (data.take 4) := by
  unfold cryptoGetBe32 beWord wordByte
  rw [take_getD 0 (by decide), take_getD 1 (by decide), take_getD 2 (by decide), take_getD 3 (by decide), word_bits]

theorem cryptoGetLe32_eq (data : List UInt8) : cryptoGetLe32 data = leWord (data.take 4) := by
  unfold cryptoGetLe32 leWord wordByte
  rw [take_getD 0 (by decide), take_getD 1 (by decide), take_getD 2 (by decide), take_getD 3 (by decide), ← word_bits]
  exact or_reverse _ _ _ _

theorem loadWords_eq {get word : List UInt8 → Word} (h : ∀ data, get data = word (data.take 4)) (block : List UInt8) :
    loadWords get block = (List.range 16).map (wordAt word block) :=
  List.map_congr_left fun index _ => h (block.drop (4 * index))

theorem range_getD (w : ℕ → Word) (h : t < n) : ((List.range n).map w).getD t 0 = w t := by
  simp [List.getD_eq_getElem?_getD, h]

theorem extendWords_eq {next : List Word → ℕ → Word} {w : ℕ → Word}
    (h : ∀ t, 16 ≤ t → next ((List.range t).map w) t = w t) (n : ℕ) :
    extendWords next n ((List.range 16).map w) = (List.range (16 + n)).map w := by
  unfold extendWords
  induction n with
  | zero => rfl
  | succ n ih =>
    rw [@List.range_succ n, List.foldl_append, ih, List.foldl_cons, List.foldl_nil, List.length_map, List.length_range,
      h (16 + n) (Nat.le_add_right 16 n), ← Nat.add_assoc, @List.range_succ (16 + n), List.map_append]
    rfl

theorem or_eq_ch (x y z : Word) : (x &&& y) ||| (~~~x &&& z) = ch x y z := by
  unfold ch
  ext i hi
  simp only [BitVec.getElem_or, BitVec.getElem_and, BitVec.getElem_not, BitVec.getElem_xor]
  cases x[i] <;> simp

theorem or_eq_maj (x y z : Word) : (x &&& y) ||| (x &&& z) ||| (y &&& z) = maj x y z := by
  unfold maj
  ext i hi
  simp only [BitVec.getElem_or, BitVec.getElem_and, BitVec.getElem_xor]
  cases x[i] <;> cases y[i] <;> simp

theorem sha1Words_eq (block : List UInt8) :
    sha1Words block = (List.range 80).map (sha1Schedule (wordAt beWord block)) := by
  have hload : loadWords cryptoGetBe32 block = (List.range 16).map (sha1Schedule (wordAt beWord block)) := by
    rw [loadWords_eq cryptoGetBe32_eq]
    apply List.map_congr_left
    intro t ht
    rw [sha1Schedule, if_pos (List.mem_range.mp ht)]
  rw [sha1Words, hload]
  refine extendWords_eq ?_ 64
  intro t ht
  rw [range_getD _ (by omega), range_getD _ (by omega), range_getD _ (by omega), range_getD _ (by omega),
    cryptoRotl32_eq _ (by decide)]
  conv_rhs => rw [sha1Schedule, if_neg (by omega)]

theorem sha1Transform_eq (state : Words5) (block : List UInt8) : sha1Transform state block = sha1Compress state block := by
  have hrounds : (List.range 80).foldl (sha1Step (sha1Words block)) state =
      (List.range 80).foldl (sha1Round (sha1Schedule (wordAt beWord block))) state := by
    apply List.foldl_ext
    intro s t ht
    have hlt := List.mem_range.mp ht
    unfold sha1Step sha1Round sha1Function sha1Constant
    rw [sha1Words_eq, range_getD _ hlt, cryptoRotl32_eq _ (by decide), cryptoRotl32_eq _ (by decide), or_eq_ch, or_eq_maj]
    split_ifs <;> rfl
  rw [sha1Transform, hrounds]
  rfl

theorem md5Steps_eq :
    md5Steps = (List.range 64).map fun t => ⟨md5Function t, md5Index t, md5Constants.getD t 0, md5Shift t⟩ := by
  rfl

theorem md5Index_lt (t : ℕ) : md5Index t < 16 := by
  unfold md5Index
  split_ifs <;> omega

theorem md5Shift_lt (t : ℕ) (h : t < 64) : md5Shift t < 32 := by
  revert t
  decide

theorem md5Transform_eq (state : Words4) (block : List UInt8) : md5Transform state block = md5Compress state block := by
  have hrounds : md5Steps.foldl (md5Step (loadWords cryptoGetLe32 block)) state =
      (List.range 64).foldl (md5Round (wordAt leWord block)) state := by
    rw [md5Steps_eq, List.foldl_map]
    apply List.foldl_ext
    intro s t ht
    have hlt := List.mem_range.mp ht
    unfold md5Step md5Round
    dsimp only
    rw [loadWords_eq cryptoGetLe32_eq, range_getD _ (md5Index_lt t), cryptoRotl32_eq _ (md5Shift_lt t hlt),
      BitVec.add_comm _ s.b, BitVec.add_assoc s.a, BitVec.add_assoc s.a, BitVec.add_assoc]
  rw [md5Transform, hrounds]
  rfl

theorem constants_eq : constants = sha256Constants := rfl

theorem add_front (a b c d e : Word) : a + (b + c + d + e) = b + a + c + d + e := by
  ac_rfl

theorem sha256Words_eq (block : List UInt8) :
    sha256Words block = (List.range 64).map (sha256Schedule (wordAt beWord block)) := by
  have hload : loadWords cryptoGetBe32 block = (List.range 16).map (sha256Schedule (wordAt beWord block)) := by
    rw [loadWords_eq cryptoGetBe32_eq]
    apply List.map_congr_left
    intro t ht
    rw [sha256Schedule, if_pos (List.mem_range.mp ht)]
  rw [sha256Words, hload]
  refine extendWords_eq ?_ 48
  intro t ht
  dsimp only
  rw [range_getD _ (by omega), range_getD _ (by omega), range_getD _ (by omega), range_getD _ (by omega),
    cryptoRotr32_eq _ (by decide), cryptoRotr32_eq _ (by decide), cryptoRotr32_eq _ (by decide),
    cryptoRotr32_eq _ (by decide)]
  conv_rhs => rw [sha256Schedule, if_neg (by omega)]
  unfold smallSigma0 smallSigma1
  ac_rfl

theorem sha256Transform_eq (state : Words8) (block : List UInt8) :
    sha256Transform state block = sha256Compress state block := by
  have hrounds : (List.range 64).foldl (sha256Step (sha256Words block)) state =
      (List.range 64).foldl (sha256Round (sha256Schedule (wordAt beWord block))) state := by
    apply List.foldl_ext
    intro s t ht
    have hlt := List.mem_range.mp ht
    unfold sha256Step sha256Round bigSigma0 bigSigma1 ch maj
    dsimp only
    rw [sha256Words_eq, range_getD _ hlt]
    iterate 6 rw [cryptoRotr32_eq _ (by decide)]
    rw [add_front, constants_eq]
  rw [sha256Transform, hrounds]
  rfl

end words

/-! Streaming. -/

section streaming

variable {S : Type} {transform : S → List UInt8 → S} {iv s : S} {msg rest data : List UInt8} {c : HashContext S}

theorem absorbed_transformLoop (n : ℕ) (h : Absorbed transform 64 iv msg s []) (hn : data.length ≤ n) :
    Absorbed transform 64 iv (msg ++ data) (transformLoop transform n s data).1 (transformLoop transform n s data).2 := by
  induction n generalizing msg s data with
  | zero =>
    obtain rfl := List.eq_nil_of_length_eq_zero (Nat.le_zero.mp hn)
    rwa [List.append_nil]
  | succ n ih =>
    rw [RtSmart.transformLoop]
    by_cases hlen : 64 ≤ data.length
    · have htake : (data.take 64).length = 64 := List.length_take_of_le hlen
      have hblock := h.block (data.take 64) (by decide) htake
      have hdrop : (data.drop 64).length ≤ n := by
        rw [List.length_drop]
        omega
      have hrest := ih hblock hdrop
      rw [List.append_assoc, List.take_append_drop] at hrest
      rwa [if_pos hlen]
    · rw [if_neg hlen]
      exact h.append data (by simpa using hlen)

/-- The context has been given `msg`. -/
structure Streams (transform : S → List UInt8 → S) (iv : S) (c : HashContext S) (msg : List UInt8) : Prop where
  absorbed : Absorbed transform 64 iv msg c.state (c.buffer.take (msg.length % 64))
  bytes : c.bytes = msg.length % 2 ^ 64
  buffer : c.buffer.length = 64

theorem updateBlocks_absorbed (data : List UInt8) (h : Absorbed transform 64 iv msg c.state []) (hb : c.buffer.length = 64) :
    Absorbed transform 64 iv (msg ++ data) (updateBlocks transform c data).state
        ((updateBlocks transform c data).buffer.take ((msg ++ data).length % 64)) ∧
      (updateBlocks transform c data).buffer.length = 64 ∧ (updateBlocks transform c data).bytes = c.bytes := by
  have hloop := absorbed_transformLoop data.length h le_rfl
  have hlen := hloop.length
  unfold updateBlocks
  generalize transformLoop transform data.length c.state data = r at hloop hlen ⊢
  rw [← hlen]
  by_cases hpos : 0 < r.2.length
  · have hlt : r.2.length < 64 := by
      rw [hlen]
      exact Nat.mod_lt _ (by decide)
    have htake := take_splice r.2 (Nat.zero_le c.buffer.length)
    rw [Nat.zero_add, List.take_zero, List.nil_append] at htake
    simp only [if_pos hpos, htake]
    refine ⟨hloop, ?_, trivial⟩
    rw [length_splice r.2 (Nat.zero_le _), hb]
    omega
  · have hnil : r.2 = [] := List.eq_nil_of_length_eq_zero (Nat.eq_zero_of_not_pos hpos)
    simp only [if_neg hpos]
    refine ⟨?_, hb, trivial⟩
    rw [hnil, List.length_nil, List.take_zero, ← hnil]
    exact hloop

theorem Streams.hashUpdate (h : Streams transform iv c msg) (data : List UInt8) :
    Streams transform iv (hashUpdate transform c data) (msg ++ data) := by
  have hused : c.bytes % 64 = msg.length % 64 := by
    rw [h.bytes, Nat.mod_mod_of_dvd _ (by decide)]
  have hbytes : (c.bytes + data.length) % 2 ^ 64 = (msg ++ data).length % 2 ^ 64 := by
    rw [h.bytes, List.length_append, Nat.mod_add_mod]
  have hbuffer := h.buffer
  have habs := h.absorbed
  have hlt : msg.length % 64 < 64 := Nat.mod_lt _ (by decide)
  have htake := take_splice (data.take (64 - msg.length % 64)) (hlt.le.trans hbuffer.ge)
  unfold RtSmart.hashUpdate
  dsimp only
  rw [hused, hbytes]
  generalize hu : msg.length % 64 = used at habs hlt htake ⊢
  by_cases hpos : 0 < used
  swap
  · obtain rfl : used = 0 := Nat.eq_zero_of_not_pos hpos
    rw [if_neg hpos]
    rw [List.take_zero] at habs
    obtain ⟨ha, hb, hby⟩ := updateBlocks_absorbed
      (c := { c with bytes := (msg ++ data).length % 2 ^ 64 }) data habs hbuffer
    exact ⟨ha, hby, hb⟩
  rw [if_pos hpos]
  by_cases hfull : 64 - used ≤ data.length
  · rw [Nat.min_eq_left hfull, if_pos (by omega)]
    have hcopy : (data.take (64 - used)).length = 64 - used := List.length_take_of_le hfull
    have hlen : (splice c.buffer used (data.take (64 - used))).length = 64 := by
      rw [length_splice _ (by omega), hcopy]
      omega
    rw [hcopy, show used + (64 - used) = 64 by omega, List.take_of_length_le hlen.le] at htake
    have hblock := habs.block (data.take (64 - used)) (by decide) (by rw [← htake]; exact hlen)
    rw [← htake] at hblock
    obtain ⟨ha, hb, hby⟩ := updateBlocks_absorbed (c := ⟨transform c.state
      (splice c.buffer used (data.take (64 - used))), (msg ++ data).length % 2 ^ 64,
        splice c.buffer used (data.take (64 - used))⟩) (data.drop (64 - used)) hblock hlen
    rw [List.append_assoc, List.take_append_drop] at ha
    exact ⟨ha, hby, hb⟩
  · have hshort : data.length < 64 - used := Nat.lt_of_not_le hfull
    have hall : data.take (64 - used) = data := List.take_of_length_le hshort.le
    rw [hall] at htake
    rw [Nat.min_eq_right hshort.le, if_neg (by omega), List.take_length, List.drop_length]
    have hmod : (msg ++ data).length % 64 = used + data.length := by
      rw [List.length_append, Nat.add_mod, hu, Nat.mod_eq_of_lt (by omega : data.length < 64)]
      exact Nat.mod_eq_of_lt (by omega)
    have happend := habs.append data (by
      rw [List.length_append, List.length_take, hbuffer]
      omega)
    refine ⟨?_, rfl, ?_⟩
    · rw [hmod]
      change Absorbed transform 64 iv (msg ++ data) c.state ((splice c.buffer used data).take (used + data.length))
      rw [htake]
      exact happend
    · change (splice c.buffer used data).length = 64
      rw [length_splice data (by omega)]
      omega

theorem Streams.foldl (h : Streams transform iv c msg) (updates : List (List UInt8)) :
    Streams transform iv (updates.foldl (RtSmart.hashUpdate transform) c) (msg ++ updates.flatten) := by
  induction updates generalizing c msg with
  | nil => simpa using h
  | cons data updates ih =>
    rw [List.foldl_cons, List.flatten_cons, ← List.append_assoc]
    exact ih (h.hashUpdate data)

theorem Streams.finish (h : Streams transform iv c msg) {tail : List UInt8} (ht : (msg ++ tail).length % 64 = 0) :
    (RtSmart.hashUpdate transform c tail).state = hashBlocked transform 64 iv (msg ++ tail) := by
  have habs := (h.hashUpdate tail).absorbed
  rw [ht, List.take_zero] at habs
  exact habs.hashBlocked

theorem hashTail_eq {lengthByte : BitVec 64 → ℕ → UInt8} {bytes : ℕ → ℕ → List UInt8} (hlen : msg.length < 2 ^ 61)
    (hbytes : ∀ bits < 2 ^ 64, (List.range 8).map (lengthByte (BitVec.ofNat 64 bits)) = bytes 8 bits) :
    msg ++ hashTail lengthByte msg.length = pad bytes msg := by
  have hbits := hbytes (msg.length * 8) (by omega)
  have hpad : (if msg.length % 64 < 56 then 56 - msg.length % 64 else 120 - msg.length % 64) - 1 =
      (119 - msg.length % 64) % 64 := by
    split_ifs <;> omega
  rw [hashTail, pad]
  rw [hbits, hpad, Nat.mul_comm 8, List.append_assoc]

theorem length_pad {bytes : ℕ → ℕ → List UInt8} (hbytes : ∀ x, (bytes 8 x).length = 8) (msg : List UInt8) :
    (pad bytes msg).length % 64 = 0 := by
  simp only [pad, List.length_append, List.length_cons, List.length_replicate, hbytes]
  omega

theorem length_beBytes (n x : ℕ) : (beBytes n x).length = n := by
  simp [beBytes]

theorem length_leBytes (n x : ℕ) : (leBytes n x).length = n := by
  simp [leBytes]

theorem lowByte_shift {w : ℕ} (x : BitVec w) (k : ℕ) : lowByte (x >>> k) = UInt8.ofNat (x.toNat / 2 ^ k) := by
  apply UInt8.toBitVec_inj.mp
  apply BitVec.eq_of_toNat_eq
  rw [lowByte, BitVec.toNat_setWidth, BitVec.toNat_ushiftRight, Nat.shiftRight_eq_div_pow]
  rfl

theorem bigLength_eq (bits : ℕ) (h : bits < 2 ^ 64) :
    (List.range 8).map (bigLength (BitVec.ofNat 64 bits)) = beBytes 8 bits := by
  apply List.map_congr_left
  intro i hi
  have hlt := List.mem_range.mp hi
  rw [bigLength, lowByte_shift, BitVec.toNat_ofNat, Nat.mod_eq_of_lt h]
  congr 3
  omega

theorem littleLength_eq (bits : ℕ) (h : bits < 2 ^ 64) :
    (List.range 8).map (littleLength (BitVec.ofNat 64 bits)) = leBytes 8 bits := by
  apply List.map_congr_left
  intro i _
  rw [littleLength, lowByte_shift, BitVec.toNat_ofNat, Nat.mod_eq_of_lt h, Nat.mul_comm]

theorem lowByte_eq (x : Word) : lowByte x = UInt8.ofNat (x.toNat / 2 ^ 0) := by
  have h := lowByte_shift x 0
  rwa [BitVec.ushiftRight_zero] at h

theorem cryptoPutBe32_eq (x : Word) : cryptoPutBe32 x = beBytes 4 x.toNat := by
  rw [cryptoPutBe32, lowByte_shift, lowByte_shift, lowByte_shift, lowByte_eq]
  rfl

theorem cryptoPutLe32_eq (x : Word) : cryptoPutLe32 x = leBytes 4 x.toNat := by
  rw [cryptoPutLe32, lowByte_shift, lowByte_shift, lowByte_shift, lowByte_eq]
  rfl

theorem Streams.init (buffer : Block UInt8 64) : Streams transform iv ⟨iv, 0, buffer.1⟩ [] where
  absorbed := Absorbed.nil (by decide)
  bytes := rfl
  buffer := buffer.2

end streaming

section digests

variable {updates : List (List UInt8)} (buffer : Block UInt8 64)

theorem hash_updates {S : Type} (transform : S → List UInt8 → S) {lengthByte : BitVec 64 → ℕ → UInt8}
    {bytes : ℕ → ℕ → List UInt8} (iv : S) (hlen : updates.flatten.length < 2 ^ 61)
    (hbytes : ∀ bits < 2 ^ 64, (List.range 8).map (lengthByte (BitVec.ofNat 64 bits)) = bytes 8 bits)
    (hlength : ∀ x, (bytes 8 x).length = 8) :
    (hashUpdate transform (updates.foldl (hashUpdate transform) ⟨iv, 0, buffer.1⟩)
        (hashTail lengthByte (updates.foldl (hashUpdate transform) ⟨iv, 0, buffer.1⟩).bytes)).state =
      hashBlocked transform 64 iv (pad bytes updates.flatten) := by
  have hs := (@Streams.init S transform iv buffer).foldl updates
  rw [List.nil_append] at hs
  have hb : (updates.foldl (hashUpdate transform) ⟨iv, 0, buffer.1⟩).bytes = updates.flatten.length := by
    rw [hs.bytes]
    exact Nat.mod_eq_of_lt (by omega)
  rw [hb, hs.finish, hashTail_eq hlen hbytes]
  rw [hashTail_eq hlen hbytes]
  exact length_pad hlength _

theorem sha1_updates (hlen : updates.flatten.length < 2 ^ 61) :
    sha1Finish (updates.foldl sha1Update (sha1Init buffer)) = sha1 updates.flatten := by
  have hput : cryptoPutBe32 = fun w => beBytes 4 w.toNat := funext cryptoPutBe32_eq
  have htransform : sha1Transform = sha1Compress := funext fun s => funext fun block => sha1Transform_eq s block
  have h := hash_updates buffer sha1Compress sha1Initial hlen bigLength_eq (length_beBytes 8)
  unfold sha1Finish sha1Update sha1
  rw [htransform, hput, ← h]
  rfl

theorem md5_updates (hlen : updates.flatten.length < 2 ^ 61) :
    md5Finish (updates.foldl md5Update (md5Init buffer)) = md5 updates.flatten := by
  have hput : cryptoPutLe32 = fun w => leBytes 4 w.toNat := funext cryptoPutLe32_eq
  have htransform : md5Transform = md5Compress := funext fun s => funext fun block => md5Transform_eq s block
  have h := hash_updates buffer md5Compress md5Initial hlen littleLength_eq (length_leBytes 8)
  unfold md5Finish md5Update md5
  rw [htransform, hput, ← h]
  rfl

theorem sha256_updates (hlen : updates.flatten.length < 2 ^ 61) :
    sha256Finish (updates.foldl sha256Update (sha256Init buffer)) = sha256 updates.flatten := by
  have hput : cryptoPutBe32 = fun w => beBytes 4 w.toNat := funext cryptoPutBe32_eq
  have htransform : sha256Transform = sha256Compress := funext fun s => funext fun block => sha256Transform_eq s block
  have h := hash_updates buffer sha256Compress sha256Initial hlen bigLength_eq (length_beBytes 8)
  unfold sha256Finish sha256Update sha256
  rw [htransform, hput, ← h]
  rfl

end digests

end RtSmart
