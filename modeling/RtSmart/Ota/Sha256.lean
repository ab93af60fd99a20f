import RtSmart.Wlan.HashStream

/-! The SHA-256 of the OTA updater (`sha256_ota.c`), which takes its message byte by byte. -/

namespace RtSmart.Ota

open Lib Lib.Digest

def rotr32 (x : Word) (n : ℕ) : Word := x >>> n ||| x <<< (32 - n)

def shr (x : Word) (n : ℕ) : Word := x >>> n

def ch (x y z : Word) : Word := (x &&& y) ^^^ (~~~x &&& z)

def maj (x y z : Word) : Word := (x &&& y) ^^^ (x &&& z) ^^^ (y &&& z)

def ep0 (x : Word) : Word := rotr32 x 2 ^^^ rotr32 x 13 ^^^ rotr32 x 22

def ep1 (x : Word) : Word := rotr32 x 6 ^^^ rotr32 x 11 ^^^ rotr32 x 25

def sig0 (x : Word) : Word := rotr32 x 7 ^^^ rotr32 x 18 ^^^ shr x 3

def sig1 (x : Word) : Word := rotr32 x 17 ^^^ rotr32 x 19 ^^^ shr x 10

def otaSha256K : List Word :=
  [0x428a2f98, 0x71374491, 0xb5c0fbcf, 0xe9b5dba5, 0x3956c25b, 0x59f111f1, 0x923f82a4, 0xab1c5ed5,
    0xd807aa98, 0x12835b01, 0x243185be, 0x550c7dc3, 0x72be5d74, 0x80deb1fe, 0x9bdc06a7, 0xc19bf174,
    0xe49b69c1, 0xefbe4786, 0x0fc19dc6, 0x240ca1cc, 0x2de92c6f, 0x4a7484aa, 0x5cb0a9dc, 0x76f988da,
    0x983e5152, 0xa831c66d, 0xb00327c8, 0xbf597fc7, 0xc6e00bf3, 0xd5a79147, 0x06ca6351, 0x14292967,
    0x27b70a85, 0x2e1b2138, 0x4d2c6dfc, 0x53380d13, 0x650a7354, 0x766a0abb, 0x81c2c92e, 0x92722c85,
    0xa2bfe8a1, 0xa81a664b, 0xc24b8b70, 0xc76c51a3, 0xd192e819, 0xd6990624, 0xf40e3585, 0x106aa070,
    0x19a4c116, 0x1e376c08, 0x2748774c, 0x34b0bcb5, 0x391c0cb3, 0x4ed8aa4a, 0x5b9cca4f, 0x682e6ff3,
    0x748f82ee, 0x78a5636f, 0x84c87814, 0x8cc70208, 0x90befffa, 0xa4506ceb, 0xbef9a3f7, 0xc67178f2]

structure OtaSha256Ctx where
  data : List UInt8
  datalen : ℕ
  bitlen : BitVec 64
  state : Words8
deriving DecidableEq

/-- The array `m` of `ota_sha256_transform`. -/
def messageWords (data : List UInt8) : List Word :=
  extendWords (fun m i => sig1 (m.getD (i - 2) 0) + m.getD (i - 7) 0 + sig0 (m.getD (i - 15) 0) + m.getD (i - 16) 0) 48
    ((List.range 16).map fun i =>
      wordByte data (4 * i) <<< 24 ||| wordByte data (4 * i + 1) <<< 16 ||| wordByte data (4 * i + 2) <<< 8 |||
        wordByte data (4 * i + 3))

def transformStep (m : List Word) (s : Words8) (i : ℕ) : Words8 :=
  let t1 := s.h + ep1 s.e + ch s.e s.f s.g + otaSha256K.getD i 0 + m.getD i 0
  let t2 := ep0 s.a + maj s.a s.b s.c
  ⟨t1 + t2, s.a, s.b, s.c, s.d + t1, s.e, s.f, s.g⟩

def otaSha256Transform (ctx : OtaSha256Ctx) : OtaSha256Ctx :=
  let s := (List.range 64).foldl (transformStep (messageWords ctx.data)) ctx.state
  { ctx with state := ⟨ctx.state.a + s.a, ctx.state.b + s.b, ctx.state.c + s.c, ctx.state.d + s.d, ctx.state.e + s.e,
      ctx.state.f + s.f, ctx.state.g + s.g, ctx.state.h + s.h⟩ }

def otaSha256Init : OtaSha256Ctx where
  data := List.replicate 64 0
  datalen := 0
  bitlen := 0
  state := ⟨0x6a09e667, 0xbb67ae85, 0x3c6ef372, 0xa54ff53a, 0x510e527f, 0x9b05688c, 0x1f83d9ab, 0x5be0cd19⟩

/-- One turn of the loop of `ota_sha256_update`. -/
def updateByte (ctx : OtaSha256Ctx) (byte : UInt8) : OtaSha256Ctx :=
  let ctx := { ctx with data := ctx.data.set ctx.datalen byte, datalen := ctx.datalen + 1 }
  if ctx.datalen = 64 then
    let ctx := otaSha256Transform ctx
    { ctx with bitlen := ctx.bitlen + 512, datalen := 0 }
  else ctx

def otaSha256Update (ctx : OtaSha256Ctx) (data : List UInt8) : OtaSha256Ctx := data.foldl updateByte ctx

def padRemaining (ctx : OtaSha256Ctx) : OtaSha256Ctx :=
  if ctx.datalen < 56 then
    { ctx with data := splice ctx.data ctx.datalen (0x80 :: List.replicate (55 - ctx.datalen) 0) }
  else
    let ctx := otaSha256Transform
      { ctx with data := splice ctx.data ctx.datalen (0x80 :: List.replicate (63 - ctx.datalen) 0) }
    { ctx with data := splice ctx.data 0 (List.replicate 56 0) }

def appendLength (ctx : OtaSha256Ctx) : OtaSha256Ctx :=
  let bitlen := ctx.bitlen + BitVec.ofNat 64 ctx.datalen * 8
  { ctx with
    bitlen := bitlen
    data := splice ctx.data 56 ((List.range 8).map fun i => lowByte (bitlen >>> (56 - 8 * i))) }

def outputWord (word : Word) : List UInt8 := (List.range 4).map fun i => lowByte (word >>> (24 - i * 8) &&& 0xff)

def otaSha256Final (ctx : OtaSha256Ctx) : List UInt8 :=
  let s := (otaSha256Transform (appendLength (padRemaining ctx))).state
  [s.a, s.b, s.c, s.d, s.e, s.f, s.g, s.h].flatMap outputWord

section

variable {ctx : OtaSha256Ctx} {msg : List UInt8}

theorem rotr32_eq (x : Word) {n : ℕ} (h : n < 32) : rotr32 x n = x.rotateRight n := cryptoRotr32_eq x h

theorem loadWord_eq (data : List UInt8) (i : ℕ) :
    wordByte data (4 * i) <<< 24 ||| wordByte data (4 * i + 1) <<< 16 ||| wordByte data (4 * i + 2) <<< 8 |||
      wordByte data (4 * i + 3) = wordAt beWord data i := by
  have hdrop : ∀ j, wordByte (data.drop (4 * i)) j = wordByte data (4 * i + j) := by
    intro j
    simp [wordByte, List.getD_eq_getElem?_getD]
  rw [wordAt, ← cryptoGetBe32_eq, cryptoGetBe32, hdrop, hdrop, hdrop, hdrop]
  rfl

theorem messageWords_eq (data : List UInt8) :
    messageWords data = (List.range 64).map (sha256Schedule (wordAt beWord data)) := by
  have hload : ((List.range 16).map fun i => wordByte data (4 * i) <<< 24 ||| wordByte data (4 * i + 1) <<< 16 |||
      wordByte data (4 * i + 2) <<< 8 ||| wordByte data (4 * i + 3)) =
        (List.range 16).map (sha256Schedule (wordAt beWord data)) := by
    apply List.map_congr_left
    intro t ht
    rw [loadWord_eq, sha256Schedule, if_pos (List.mem_range.mp ht)]
  rw [messageWords, hload]
  refine extendWords_eq ?_ 48
  intro t ht
  rw [range_getD _ (by omega), range_getD _ (by omega), range_getD _ (by omega), range_getD _ (by omega)]
  conv_rhs => rw [sha256Schedule, if_neg (by omega)]
  unfold sig0 sig1 shr smallSigma0 smallSigma1
  iterate 4 rw [rotr32_eq _ (by decide)]

theorem otaSha256K_eq : otaSha256K = sha256Constants := rfl

theorem otaSha256Transform_eq (ctx : OtaSha256Ctx) :
    otaSha256Transform ctx = { ctx with state := sha256Compress ctx.state ctx.data } := by
  have hrounds : (List.range 64).foldl (transformStep (messageWords ctx.data)) ctx.state =
      (List.range 64).foldl (sha256Round (sha256Schedule (wordAt beWord ctx.data))) ctx.state := by
    apply List.foldl_ext
    intro s t ht
    unfold transformStep sha256Round ep0 ep1 bigSigma0 bigSigma1
    rw [messageWords_eq, range_getD _ (List.mem_range.mp ht), otaSha256K_eq]
    iterate 6 rw [rotr32_eq _ (by decide)]
    rfl
  rw [otaSha256Transform, hrounds]
  rfl

theorem outputWord_eq (word : Word) : outputWord word = beBytes 4 word.toNat := by
  apply List.map_congr_left
  intro i hi
  have hi := List.mem_range.mp hi
  have hmask : lowByte (word >>> (24 - i * 8) &&& 0xff) = lowByte (word >>> (24 - i * 8)) := by
    unfold lowByte
    congr 1
    apply BitVec.eq_of_toNat_eq
    rw [BitVec.toNat_setWidth, BitVec.toNat_setWidth, BitVec.toNat_and, show (0xff : Word).toNat = 2 ^ 8 - 1 from rfl,
      Nat.and_two_pow_sub_one_eq_mod, Nat.mod_mod]
  rw [hmask, lowByte_shift]
  congr 3
  omega

/-- The context has been given `msg`. -/
structure Streams (ctx : OtaSha256Ctx) (msg : List UInt8) : Prop where
  absorbed : Absorbed sha256Compress 64 sha256Initial msg ctx.state (ctx.data.take ctx.datalen)
  datalen : ctx.datalen = msg.length % 64
  bitlen : ctx.bitlen = BitVec.ofNat 64 (512 * (msg.length / 64))
  length : ctx.data.length = 64

theorem streams_init : Streams otaSha256Init [] where
  absorbed := Absorbed.nil (by decide)
  datalen := rfl
  bitlen := rfl
  length := rfl

theorem Streams.updateByte (h : Streams ctx msg) (byte : UInt8) : Streams (updateByte ctx byte) (msg ++ [byte]) := by
  have hlt : ctx.datalen < 64 := h.datalen.trans_lt (Nat.mod_lt _ (by decide))
  have hlength := h.length
  have htake : (ctx.data.set ctx.datalen byte).take (ctx.datalen + 1) = ctx.data.take ctx.datalen ++ [byte] := by
    rw [List.take_succ_eq_append_getElem (by simpa [hlength] using hlt), List.take_set_of_le (le_refl _),
      List.getElem_set_self]
  have hlen : (ctx.data.take ctx.datalen ++ [byte]).length = ctx.datalen + 1 := by
    rw [List.length_append, List.length_take, hlength, min_eq_left hlt.le]
    rfl
  have hmsg : (msg ++ [byte]).length = msg.length + 1 := List.length_append
  have hdatalen := h.datalen
  unfold Ota.updateByte
  dsimp only
  by_cases hfull : ctx.datalen + 1 = 64
  · rw [if_pos hfull, otaSha256Transform_eq]
    have hall : ctx.data.set ctx.datalen byte = ctx.data.take ctx.datalen ++ [byte] := by
      rw [← htake, hfull]
      exact (List.take_of_length_le (by simp [hlength])).symm
    refine ⟨?_, ?_, ?_, ?_⟩
    · rw [List.take_zero]
      change Absorbed _ _ _ _ (sha256Compress ctx.state (ctx.data.set ctx.datalen byte)) []
      rw [hall]
      exact h.absorbed.block [byte] (by decide) (hlen.trans hfull)
    · change 0 = (msg ++ [byte]).length % 64
      omega
    · change ctx.bitlen + 512 = BitVec.ofNat 64 (512 * ((msg ++ [byte]).length / 64))
      rw [h.bitlen, show (msg ++ [byte]).length / 64 = msg.length / 64 + 1 by omega, Nat.mul_succ, BitVec.ofNat_add]
      rfl
    · exact List.length_set.trans hlength
  · rw [if_neg hfull]
    refine ⟨?_, ?_, ?_, List.length_set.trans hlength⟩
    · change Absorbed _ _ _ _ ctx.state ((ctx.data.set ctx.datalen byte).take (ctx.datalen + 1))
      rw [htake]
      exact h.absorbed.append [byte] (by omega)
    · change ctx.datalen + 1 = _
      omega
    · rw [show (msg ++ [byte]).length / 64 = msg.length / 64 by omega]
      exact h.bitlen

theorem Streams.otaSha256Update (h : Streams ctx msg) (data : List UInt8) :
    Streams (otaSha256Update ctx data) (msg ++ data) := by
  unfold Ota.otaSha256Update
  induction data generalizing ctx msg with
  | nil =>
    rw [List.append_nil]
    exact h
  | cons byte data ih =>
    have hrest := ih (h.updateByte byte)
    rwa [List.append_assoc] at hrest

theorem appendLength_data (ctx : OtaSha256Ctx) (h : ctx.data.length = 64) :
    (appendLength ctx).data =
      ctx.data.take 56 ++ (List.range 8).map (bigLength (ctx.bitlen + BitVec.ofNat 64 ctx.datalen * 8)) := by
  have hmap : ((List.range 8).map fun i => lowByte ((ctx.bitlen + BitVec.ofNat 64 ctx.datalen * 8) >>> (56 - 8 * i))) =
      (List.range 8).map (bigLength (ctx.bitlen + BitVec.ofNat 64 ctx.datalen * 8)) := by
    apply List.map_congr_left
    intro i _
    rw [bigLength, Nat.mul_comm]
  rw [appendLength]
  dsimp only
  rw [hmap, splice_of_le]
  rw [h, List.length_map, List.length_range]

theorem Streams.length_bits (h : Streams ctx msg) (hlen : msg.length < 2 ^ 61) :
    (List.range 8).map (bigLength (ctx.bitlen + BitVec.ofNat 64 ctx.datalen * 8)) = beBytes 8 (8 * msg.length) := by
  have hbits : ctx.bitlen + BitVec.ofNat 64 ctx.datalen * 8 = BitVec.ofNat 64 (8 * msg.length) := by
    have heq : 8 * msg.length = 512 * (msg.length / 64) + msg.length % 64 * 8 := by
      omega
    rw [h.bitlen, h.datalen, heq, BitVec.ofNat_add, BitVec.ofNat_mul, BitVec.ofNat_mul]
    rfl
  rw [hbits]
  apply bigLength_eq
  omega

theorem Streams.final (h : Streams ctx msg) (hlen : msg.length < 2 ^ 61) :
    (otaSha256Transform (appendLength (padRemaining ctx))).state =
      hashBlocked sha256Compress 64 sha256Initial (pad beBytes msg) := by
  have hlt : ctx.datalen < 64 := h.datalen.trans_lt (Nat.mod_lt _ (by decide))
  have hdatalen := h.datalen
  have hbits := h.length_bits hlen
  have hlength := h.length
  have hrest : (ctx.data.take ctx.datalen).length = ctx.datalen := by
    rw [List.length_take, hlength, min_eq_left hlt.le]
  rw [otaSha256Transform_eq]
  dsimp only
  rw [pad]
  by_cases hone : ctx.datalen < 56
  · rw [padRemaining, if_pos hone, appendLength_data _ (by
      rw [length_splice _ (by omega)]
      simp only [List.length_cons, List.length_replicate]
      omega)]
    dsimp only
    have hpad : (119 - msg.length % 64) % 64 = 55 - ctx.datalen := by
      omega
    have htake : (splice ctx.data ctx.datalen (0x80 :: List.replicate (55 - ctx.datalen) 0)).take 56 =
        ctx.data.take ctx.datalen ++ 0x80 :: List.replicate (55 - ctx.datalen) 0 := by
      have := take_splice (0x80 :: List.replicate (55 - ctx.datalen) 0) (hlt.le.trans hlength.ge)
      rwa [List.length_cons, List.length_replicate, show ctx.datalen + (55 - ctx.datalen + 1) = 56 by omega] at this
    rw [hbits, hpad, htake, List.append_assoc, List.append_assoc]
    refine (h.absorbed.block (0x80 :: List.replicate (55 - ctx.datalen) 0 ++ beBytes 8 (8 * msg.length)) (by decide) ?_).hashBlocked
    rw [List.length_append, hrest, List.length_append, List.length_cons, List.length_replicate, length_beBytes]
    omega
  · have hall : splice ctx.data ctx.datalen (0x80 :: List.replicate (63 - ctx.datalen) 0) =
        ctx.data.take ctx.datalen ++ 0x80 :: List.replicate (63 - ctx.datalen) 0 := by
      apply splice_of_le
      rw [hlength, List.length_cons, List.length_replicate]
      omega
    have hblock : (ctx.data.take ctx.datalen ++ 0x80 :: List.replicate (63 - ctx.datalen) 0).length = 64 := by
      rw [List.length_append, hrest, List.length_cons, List.length_replicate]
      omega
    have hzeros : (splice (ctx.data.take ctx.datalen ++ 0x80 :: List.replicate (63 - ctx.datalen) 0) 0
        (List.replicate 56 0)).take 56 = List.replicate 56 0 := by
      have := take_splice (List.replicate 56 (0 : UInt8)) (Nat.zero_le (ctx.data.take ctx.datalen ++
        0x80 :: List.replicate (63 - ctx.datalen) 0).length)
      rwa [List.length_replicate, List.take_zero, List.nil_append] at this
    rw [padRemaining, if_neg hone, otaSha256Transform_eq, hall, appendLength_data _ (by
      rw [length_splice _ (Nat.zero_le _), hblock, List.length_replicate]
      rfl)]
    dsimp only
    have hpad : (119 - msg.length % 64) % 64 = 63 - ctx.datalen + 56 := by
      omega
    rw [hbits, hpad, hzeros, List.replicate_add, ← List.cons_append, ← List.append_assoc, List.append_assoc _ _ (beBytes _ _)]
    apply Absorbed.hashBlocked
    apply (h.absorbed.block (0x80 :: List.replicate (63 - ctx.datalen) 0) (by decide) hblock).block _ (by decide)
    rw [List.nil_append, List.length_append, List.length_replicate, length_beBytes]

theorem Streams.foldl (h : Streams ctx msg) (updates : List (List UInt8)) :
    Streams (updates.foldl Ota.otaSha256Update ctx) (msg ++ updates.flatten) := by
  induction updates generalizing ctx msg with
  | nil =>
    rw [List.flatten_nil, List.append_nil]
    exact h
  | cons data updates ih =>
    rw [List.foldl_cons, List.flatten_cons, ← List.append_assoc]
    exact ih (h.otaSha256Update data)

theorem otaSha256_updates {updates : List (List UInt8)} (hlen : updates.flatten.length < 2 ^ 61) :
    otaSha256Final (updates.foldl otaSha256Update otaSha256Init) = sha256 updates.flatten := by
  have hs := streams_init.foldl updates
  rw [List.nil_append] at hs
  have hput : outputWord = fun w => beBytes 4 w.toNat := funext outputWord_eq
  unfold otaSha256Final sha256
  rw [hs.final hlen, hput]
  rfl

/-- However the message is cut, all four hashes give its digest, and the two SHA-256 agree. -/
theorem updates_split_independent (buffer : Block UInt8 64) (msg : List UInt8) (hlen : msg.length < 2 ^ 61)
    (updates : List (List UInt8)) (hcut : updates.flatten = msg) :
    sha1Finish (updates.foldl sha1Update (sha1Init buffer)) =
        (hashBlocked sha1Compress 64 sha1Initial (pad beBytes msg)).bytes ∧
      md5Finish (updates.foldl md5Update (md5Init buffer)) =
        (hashBlocked md5Compress 64 md5Initial (pad leBytes msg)).bytes ∧
      sha256Finish (updates.foldl sha256Update (sha256Init buffer)) =
        (hashBlocked sha256Compress 64 sha256Initial (pad beBytes msg)).bytes ∧
      otaSha256Final (updates.foldl otaSha256Update otaSha256Init) =
        (hashBlocked sha256Compress 64 sha256Initial (pad beBytes msg)).bytes ∧
      ∀ others : List (List UInt8), others.flatten = msg →
        sha256Finish (updates.foldl sha256Update (sha256Init buffer)) =
          otaSha256Final (others.foldl otaSha256Update otaSha256Init) := by
  subst hcut
  refine ⟨sha1_updates buffer hlen, md5_updates buffer hlen, sha256_updates buffer hlen, otaSha256_updates hlen, ?_⟩
  intro others hothers
  rw [sha256_updates buffer hlen, ← hothers]
  rw [← hothers] at hlen
  exact (otaSha256_updates hlen).symm

theorem updates_split_independent_abc :
    sha256Finish ([[97], [], [98, 99]].foldl sha256Update (sha256Init ⟨List.replicate 64 0, rfl⟩)) =
        (hashBlocked sha256Compress 64 sha256Initial (pad beBytes [97, 98, 99])).bytes ∧
      sha256Finish ([[97], [], [98, 99]].foldl sha256Update (sha256Init ⟨List.replicate 64 0, rfl⟩)) =
        otaSha256Final ([[97, 98], [99]].foldl otaSha256Update otaSha256Init) := by
  obtain ⟨-, -, hdigest, -, hagree⟩ :=
    updates_split_independent ⟨List.replicate 64 0, rfl⟩ [97, 98, 99] (by decide) [[97], [], [98, 99]] rfl
  exact ⟨hdigest, hagree [[97, 98], [99]] rfl⟩

end

end RtSmart.Ota
