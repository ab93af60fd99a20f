import RtSmart.Lib.Block
import RtSmart.Lib.KeyWrap

/-!
The functions of `wlan_offload_crypto.c` that the handshakes use, over the two primitives HMAC-SHA1 and AES.
-/

namespace RtSmart

open Lib

abbrev Bytes (n : ℕ) := Block UInt8 n

def ofBytes (n : ℕ) (l : List UInt8) : Bytes n := Block.ofList 0 n l

/-- `n` bytes of a buffer, from place `off` on. -/
def bytesAt (off n : ℕ) (l : List UInt8) : Bytes n := Block.slice 0 off n l

def zeroBytes (n : ℕ) : Bytes n := ⟨List.replicate n 0, List.length_replicate⟩

/-- `rt_wlan_offload_hmac_sha1`, and the two directions of AES-128 on the halves of a block. -/
structure WlanCrypto where
  hmacSha1 : List UInt8 → List UInt8 → Bytes 20
  aesEncryptBlock : Bytes 16 → Bytes 8 × Bytes 8 → Bytes 8 × Bytes 8
  aesDecryptBlock : Bytes 16 → Bytes 8 × Bytes 8 → Bytes 8 × Bytes 8
  decrypt_encrypt : ∀ key block, aesDecryptBlock key (aesEncryptBlock key block) = block

/-- The loop of `rt_wlan_offload_wpa_prf` for the `n` bytes that are still to be generated. -/
def prfLoop (digest : UInt8 → Bytes 20) : ℕ → UInt8 → ℕ → List UInt8
  | 0, _, _ => []
  | fuel + 1, counter, n =>
    if n = 0 then [] else (digest counter).1.take (min n 20) ++ prfLoop digest fuel (counter + 1) (n - min n 20)

/-- `rt_wlan_offload_wpa_prf`; `output` is the buffer before the call. -/
def wpaPrf (c : WlanCrypto) (key label data : List UInt8) {n : ℕ} (output : Bytes n) : Bytes n :=
  if 128 < label.length + data.length + 2 then output
  else ofBytes n (prfLoop (fun counter => c.hmacSha1 key (label ++ 0 :: (data ++ [counter]))) n 0 n)

def xorCounter (t : ℕ) (a : Bytes 8) : Bytes 8 :=
  ⟨List.zipWith (fun x i => x ^^^ UInt8.ofNat (t / 256 ^ (7 - i))) a.1 (List.range 8), by simp [a.2]⟩

def wrapInitialValue : Bytes 8 := ⟨List.replicate 8 0xa6, List.length_replicate⟩

/-- `rt_wlan_offload_aes_wrap`; `none` for its result `-1`. -/
def aesWrap (c : WlanCrypto) (kek : Bytes 16) (input : List UInt8) : Option (List UInt8) :=
  if input.length < 16 ∨ input.length % 8 ≠ 0 then none
  else
    let count := input.length / 8
    let p := KeyWrap.wrap (c.aesEncryptBlock kek) xorCounter count 6 wrapInitialValue (Block.chunks 0 8 count input)
    some (p.1.1 ++ Block.join p.2)

/-- `rt_wlan_offload_aes_unwrap` -/
def aesUnwrap (c : WlanCrypto) (kek : Bytes 16) (input : List UInt8) : Option (List UInt8) :=
  if input.length < 24 ∨ input.length % 8 ≠ 0 then none
  else
    let count := input.length / 8 - 1
    let p := KeyWrap.unwrap (c.aesDecryptBlock kek) xorCounter count 6 (bytesAt 0 8 input)
      (Block.chunks 0 8 count (input.drop 8))
    if p.1 = wrapInitialValue then some (Block.join p.2) else none

theorem prfLoop_length (digest : UInt8 → Bytes 20) {fuel n : ℕ} (counter : UInt8) (h : n ≤ fuel) :
    (prfLoop digest fuel counter n).length = n := by
  induction fuel generalizing counter n with
  | zero =>
    rw [Nat.le_zero.mp h]
    rfl
  | succ fuel ih =>
    rw [prfLoop]
    split_ifs with hn
    · rw [hn]
      rfl
    · rw [List.length_append, ih _ (by omega), List.length_take, (digest counter).2]
      omega

theorem prfLoop_take (digest : UInt8 → Bytes 20) {fuel fuel' m n : ℕ} (counter : UInt8) (hmn : m ≤ n)
    (hm : m ≤ fuel') (hn : n ≤ fuel) :
    (prfLoop digest fuel counter n).take m = prfLoop digest fuel' counter m := by
  induction fuel generalizing counter m n fuel' with
  | zero =>
    have hzero : m = 0 := by omega
    subst hzero
    cases fuel' <;> simp [prfLoop]
  | succ fuel ih =>
    cases fuel' with
    | zero =>
      rw [Nat.le_zero.mp hm]
      rfl
    | succ fuel' =>
      by_cases hzero : m = 0
      · rw [hzero]
        simp [prfLoop]
      · have hlen : ((digest counter).1.take (min n 20)).length = min n 20 := by
          rw [List.length_take, (digest counter).2]
          omega
        have hrest : (prfLoop digest fuel (counter + 1) (n - min n 20)).take (m - min n 20) =
            prfLoop digest fuel' (counter + 1) (m - min n 20) := ih (counter + 1) (by omega) (by omega) (by omega)
        rw [prfLoop, prfLoop, if_neg (by omega), if_neg hzero, List.take_append, hlen, List.take_take, hrest]
        by_cases hbig : 20 ≤ m
        · rw [show min m (min n 20) = min m 20 by omega, show m - min n 20 = m - min m 20 by omega]
        · rw [show min m (min n 20) = min m 20 by omega, show m - min n 20 = m - min m 20 by omega]

theorem xorCounter_xorCounter (t : ℕ) (a : Bytes 8) : xorCounter t (xorCounter t a) = a := by
  apply Subtype.ext
  apply List.ext_getElem
  · simp [xorCounter, a.2]
  · intro i h1 h2
    simp only [xorCounter, List.getElem_zipWith, List.getElem_range, UInt8.xor_assoc, UInt8.xor_self, UInt8.xor_zero]

theorem aesWrap_isSome (c : WlanCrypto) (kek : Bytes 16) {input : List UInt8} (h : 16 ≤ input.length)
    (h8 : input.length % 8 = 0) : ∃ output, aesWrap c kek input = some output ∧ output.length = input.length + 8 := by
  rw [aesWrap, if_neg (by omega)]
  refine ⟨_, rfl, ?_⟩
  rw [List.length_append, Block.join_length, KeyWrap.wrap_length, Block.chunks_length]
  have ha := (KeyWrap.wrap (c.aesEncryptBlock kek) xorCounter (input.length / 8) 6 wrapInitialValue
    (Block.chunks 0 8 (input.length / 8) input)).1.2
  omega

theorem aesUnwrap_aesWrap (c : WlanCrypto) (kek : Bytes 16) {input output : List UInt8}
    (h : aesWrap c kek input = some output) : aesUnwrap c kek output = some input := by
  rw [aesWrap] at h
  by_cases hbad : input.length < 16 ∨ input.length % 8 ≠ 0
  · rw [if_pos hbad] at h
    cases h
  · rw [if_neg hbad] at h
    cases h
    set count := input.length / 8 with hcount
    set p := KeyWrap.wrap (c.aesEncryptBlock kek) xorCounter count 6 wrapInitialValue
      (Block.chunks 0 8 count input) with hp
    have hlen : p.2.length = count := by rw [hp, KeyWrap.wrap_length, Block.chunks_length]
    have hout : (p.1.1 ++ Block.join p.2).length = 8 * (count + 1) := by
      rw [List.length_append, Block.join_length, hlen, p.1.2]
      ring
    have hdec : KeyWrap.unwrap (c.aesDecryptBlock kek) xorCounter count 6 p.1 p.2 =
        (wrapInitialValue, Block.chunks 0 8 count input) :=
      KeyWrap.unwrap_wrap (c.decrypt_encrypt kek) xorCounter_xorCounter
    have hcount' : (p.1.1 ++ Block.join p.2).length / 8 - 1 = count := by omega
    have hdrop : (p.1.1 ++ Block.join p.2).drop 8 = Block.join p.2 := List.drop_left' p.1.2
    have hchunks : Block.chunks 0 8 count (Block.join p.2) = p.2 := by
      rw [← hlen]
      exact Block.chunks_join 0 p.2
    have hfirst : bytesAt 0 8 (p.1.1 ++ Block.join p.2) = p.1 := Block.ofList_append 0 p.1 _
    rw [aesUnwrap, if_neg (by omega)]
    simp only [hcount', hdrop, hchunks, hfirst, hdec, if_pos]
    rw [Block.join_chunks]
    omega

end RtSmart
