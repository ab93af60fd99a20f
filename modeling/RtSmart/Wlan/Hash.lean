import RtSmart.Lib.Block
import RtSmart.Lib.Digest
import RtSmart.Lib.Splice

/-!
The message digests of the WLAN offload (`wlan_offload_crypto.c`). The three of them buffer and pad their
messages in the same way.
-/

namespace RtSmart

open Lib Lib.Digest

def cryptoRotl32 (value : Word) (bits : ℕ) : Word := value <<< bits ||| value >>> (32 - bits)

def cryptoRotr32 (value : Word) (bits : ℕ) : Word := value >>> bits ||| value <<< (32 - bits)

/-- The byte of a buffer as an `uint32_t`. -/
def wordByte (data : List UInt8) (i : ℕ) : Word := (data.getD i 0).toBitVec.setWidth 32

def cryptoGetBe32 (data : List UInt8) : Word :=
  wordByte data 0 <<< 24 ||| wordByte data 1 <<< 16 ||| wordByte data 2 <<< 8 ||| wordByte data 3

def cryptoGetLe32 (data : List UInt8) : Word :=
  wordByte data 0 ||| wordByte data 1 <<< 8 ||| wordByte data 2 <<< 16 ||| wordByte data 3 <<< 24

def lowByte {w : ℕ} (value : BitVec w) : UInt8 := ⟨value.setWidth 8⟩

def cryptoPutBe32 (value : Word) : List UInt8 :=
  [lowByte (value >>> 24), lowByte (value >>> 16), lowByte (value >>> 8), lowByte value]

def cryptoPutLe32 (value : Word) : List UInt8 :=
  [lowByte value, lowByte (value >>> 8), lowByte (value >>> 16), lowByte (value >>> 24)]

def loadWords (get : List UInt8 → Word) (block : List UInt8) : List Word :=
  (List.range 16).map fun index => get (block.drop (4 * index))

/-- The second loop: `n` more words, each from the ones before it. -/
def extendWords (next : List Word → ℕ → Word) (n : ℕ) (words : List Word) : List Word :=
  (List.range n).foldl (fun words _ => words ++ [next words words.length]) words

/-! SHA-1 -/

def sha1Words (block : List UInt8) : List Word :=
  extendWords (fun words index => cryptoRotl32 (words.getD (index - 3) 0 ^^^ words.getD (index - 8) 0 ^^^
    words.getD (index - 14) 0 ^^^ words.getD (index - 16) 0) 1) 64 (loadWords cryptoGetBe32 block)

def sha1Step (words : List Word) (s : Words5) (index : ℕ) : Words5 :=
  let fk : Word × Word :=
    if index < 20 then ((s.b &&& s.c) ||| (~~~s.b &&& s.d), 0x5a827999)
    else if index < 40 then (s.b ^^^ s.c ^^^ s.d, 0x6ed9eba1)
    else if index < 60 then ((s.b &&& s.c) ||| (s.b &&& s.d) ||| (s.c &&& s.d), 0x8f1bbcdc)
    else (s.b ^^^ s.c ^^^ s.d, 0xca62c1d6)
  ⟨cryptoRotl32 s.a 5 + fk.1 + s.e + fk.2 + words.getD index 0, s.a, cryptoRotl32 s.b 30, s.c, s.d⟩

def sha1Transform (state : Words5) (block : List UInt8) : Words5 :=
  let s := (List.range 80).foldl (sha1Step (sha1Words block)) state
  ⟨state.a + s.a, state.b + s.b, state.c + s.c, state.d + s.d, state.e + s.e⟩

/-! MD5 -/

def md5F (x y z : Word) : Word := (x &&& y) ||| (~~~x &&& z)

def md5G (x y z : Word) : Word := (x &&& z) ||| (y &&& ~~~z)

def md5H (x y z : Word) : Word := x ^^^ y ^^^ z

def md5I (x y z : Word) : Word := y ^^^ (x ||| ~~~z)

/-- The arguments of `MD5_STEP`. -/
structure Md5Step where
  fn : Word → Word → Word → Word
  word : ℕ
  constant : Word
  shift : ℕ

/-- The steps in their order. Their first four arguments go round: what a step calls `a` is the `b` of the next one. -/
def md5Steps : List Md5Step :=
  [⟨md5F, 0, 0xd76aa478, 7⟩, ⟨md5F, 1, 0xe8c7b756, 12⟩, ⟨md5F, 2, 0x242070db, 17⟩, ⟨md5F, 3, 0xc1bdceee, 22⟩,
    ⟨md5F, 4, 0xf57c0faf, 7⟩, ⟨md5F, 5, 0x4787c62a, 12⟩, ⟨md5F, 6, 0xa8304613, 17⟩, ⟨md5F, 7, 0xfd469501, 22⟩,
    ⟨md5F, 8, 0x698098d8, 7⟩, ⟨md5F, 9, 0x8b44f7af, 12⟩, ⟨md5F, 10, 0xffff5bb1, 17⟩, ⟨md5F, 11, 0x895cd7be, 22⟩,
    ⟨md5F, 12, 0x6b901122, 7⟩, ⟨md5F, 13, 0xfd987193, 12⟩, ⟨md5F, 14, 0xa679438e, 17⟩, ⟨md5F, 15, 0x49b40821, 22⟩,
    ⟨md5G, 1, 0xf61e2562, 5⟩, ⟨md5G, 6, 0xc040b340, 9⟩, ⟨md5G, 11, 0x265e5a51, 14⟩, ⟨md5G, 0, 0xe9b6c7aa, 20⟩,
    ⟨md5G, 5, 0xd62f105d, 5⟩, ⟨md5G, 10, 0x02441453, 9⟩, ⟨md5G, 15, 0xd8a1e681, 14⟩, ⟨md5G, 4, 0xe7d3fbc8, 20⟩,
    ⟨md5G, 9, 0x21e1cde6, 5⟩, ⟨md5G, 14, 0xc33707d6, 9⟩, ⟨md5G, 3, 0xf4d50d87, 14⟩, ⟨md5G, 8, 0x455a14ed, 20⟩,
    ⟨md5G, 13, 0xa9e3e905, 5⟩, ⟨md5G, 2, 0xfcefa3f8, 9⟩, ⟨md5G, 7, 0x676f02d9, 14⟩, ⟨md5G, 12, 0x8d2a4c8a, 20⟩,
    ⟨md5H, 5, 0xfffa3942, 4⟩, ⟨md5H, 8, 0x8771f681, 11⟩, ⟨md5H, 11, 0x6d9d6122, 16⟩, ⟨md5H, 14, 0xfde5380c, 23⟩,
    ⟨md5H, 1, 0xa4beea44, 4⟩, ⟨md5H, 4, 0x4bdecfa9, 11⟩, ⟨md5H, 7, 0xf6bb4b60, 16⟩, ⟨md5H, 10, 0xbebfbc70, 23⟩,
    ⟨md5H, 13, 0x289b7ec6, 4⟩, ⟨md5H, 0, 0xeaa127fa, 11⟩, ⟨md5H, 3, 0xd4ef3085, 16⟩, ⟨md5H, 6, 0x04881d05, 23⟩,
    ⟨md5H, 9, 0xd9d4d039, 4⟩, ⟨md5H, 12, 0xe6db99e5, 11⟩, ⟨md5H, 15, 0x1fa27cf8, 16⟩, ⟨md5H, 2, 0xc4ac5665, 23⟩,
    ⟨md5I, 0, 0xf4292244, 6⟩, ⟨md5I, 7, 0x432aff97, 10⟩, ⟨md5I, 14, 0xab9423a7, 15⟩, ⟨md5I, 5, 0xfc93a039, 21⟩,
    ⟨md5I, 12, 0x655b59c3, 6⟩, ⟨md5I, 3, 0x8f0ccc92, 10⟩, ⟨md5I, 10, 0xffeff47d, 15⟩, ⟨md5I, 1, 0x85845dd1, 21⟩,
    ⟨md5I, 8, 0x6fa87e4f, 6⟩, ⟨md5I, 15, 0xfe2ce6e0, 10⟩, ⟨md5I, 6, 0xa3014314, 15⟩, ⟨md5I, 13, 0x4e0811a1, 21⟩,
    ⟨md5I, 4, 0xf7537e82, 6⟩, ⟨md5I, 11, 0xbd3af235, 10⟩, ⟨md5I, 2, 0x2ad7d2bb, 15⟩, ⟨md5I, 9, 0xeb86d391, 21⟩]

def md5Step (x : List Word) (s : Words4) (step : Md5Step) : Words4 :=
  let a := cryptoRotl32 (s.a + (step.fn s.b s.c s.d + x.getD step.word 0 + step.constant)) step.shift + s.b
  ⟨s.d, a, s.b, s.c⟩

def md5Transform (state : Words4) (block : List UInt8) : Words4 :=
  let s := md5Steps.foldl (md5Step (loadWords cryptoGetLe32 block)) state
  ⟨state.a + s.a, state.b + s.b, state.c + s.c, state.d + s.d⟩

/-! SHA-256 -/

def sha256Words (block : List UInt8) : List Word :=
  extendWords (fun words index =>
    let first := cryptoRotr32 (words.getD (index - 15) 0) 7 ^^^ cryptoRotr32 (words.getD (index - 15) 0) 18 ^^^
      words.getD (index - 15) 0 >>> 3
    let second := cryptoRotr32 (words.getD (index - 2) 0) 17 ^^^ cryptoRotr32 (words.getD (index - 2) 0) 19 ^^^
      words.getD (index - 2) 0 >>> 10
    words.getD (index - 16) 0 + first + words.getD (index - 7) 0 + second) 48 (loadWords cryptoGetBe32 block)

def constants : List Word :=
  [0x428a2f98, 0x71374491, 0xb5c0fbcf, 0xe9b5dba5, 0x3956c25b, 0x59f111f1, 0x923f82a4, 0xab1c5ed5,
    0xd807aa98, 0x12835b01, 0x243185be, 0x550c7dc3, 0x72be5d74, 0x80deb1fe, 0x9bdc06a7, 0xc19bf174,
    0xe49b69c1, 0xefbe4786, 0x0fc19dc6, 0x240ca1cc, 0x2de92c6f, 0x4a7484aa, 0x5cb0a9dc, 0x76f988da,
    0x983e5152, 0xa831c66d, 0xb00327c8, 0xbf597fc7, 0xc6e00bf3, 0xd5a79147, 0x06ca6351, 0x14292967,
    0x27b70a85, 0x2e1b2138, 0x4d2c6dfc, 0x53380d13, 0x650a7354, 0x766a0abb, 0x81c2c92e, 0x92722c85,
    0xa2bfe8a1, 0xa81a664b, 0xc24b8b70, 0xc76c51a3, 0xd192e819, 0xd6990624, 0xf40e3585, 0x106aa070,
    0x19a4c116, 0x1e376c08, 0x2748774c, 0x34b0bcb5, 0x391c0cb3, 0x4ed8aa4a, 0x5b9cca4f, 0x682e6ff3,
    0x748f82ee, 0x78a5636f, 0x84c87814, 0x8cc70208, 0x90befffa, 0xa4506ceb, 0xbef9a3f7, 0xc67178f2]

def sha256Step (words : List Word) (s : Words8) (index : ℕ) : Words8 :=
  let first := cryptoRotr32 s.e 6 ^^^ cryptoRotr32 s.e 11 ^^^ cryptoRotr32 s.e 25
  let choice := (s.e &&& s.f) ^^^ (~~~s.e &&& s.g)
  let first := first + (s.h + choice + constants.getD index 0 + words.getD index 0)
  let second := cryptoRotr32 s.a 2 ^^^ cryptoRotr32 s.a 13 ^^^ cryptoRotr32 s.a 22
  let majority := (s.a &&& s.b) ^^^ (s.a &&& s.c) ^^^ (s.b &&& s.c)
  let second := second + majority
  ⟨first + second, s.a, s.b, s.c, s.d + first, s.e, s.f, s.g⟩

def sha256Transform (state : Words8) (block : List UInt8) : Words8 :=
  let s := (List.range 64).foldl (sha256Step (sha256Words block)) state
  ⟨state.a + s.a, state.b + s.b, state.c + s.c, state.d + s.d, state.e + s.e, state.f + s.f, state.g + s.g,
    state.h + s.h⟩

/-! Update and finish. -/

/-- `struct wlan_offload_sha1` and the like. -/
structure HashContext (S : Type) where
  state : S
  bytes : ℕ
  buffer : List UInt8
deriving DecidableEq

section context

variable {S : Type}

def transformLoop (transform : S → List UInt8 → S) : ℕ → S → List UInt8 → S × List UInt8
  | 0, state, data => (state, data)
  | n + 1, state, data =>
    if 64 ≤ data.length then transformLoop transform n (transform state (data.take 64)) (data.drop 64)
    else (state, data)

def updateBlocks (transform : S → List UInt8 → S) (context : HashContext S) (data : List UInt8) : HashContext S :=
  let r := transformLoop transform data.length context.state data
  { context with state := r.1, buffer := if 0 < r.2.length then splice context.buffer 0 r.2 else context.buffer }

def hashUpdate (transform : S → List UInt8 → S) (context : HashContext S) (data : List UInt8) : HashContext S :=
  let used := context.bytes % 64
  let context := { context with bytes := (context.bytes + data.length) % 2 ^ 64 }
  if 0 < used then
    let copy := min (64 - used) data.length
    let buffer := splice context.buffer used (data.take copy)
    let state := if used + copy = 64 then transform context.state buffer else context.state
    updateBlocks transform { context with state := state, buffer := buffer } (data.drop copy)
  else updateBlocks transform context data

/-- `tail` with the eight bytes of the length. -/
def hashTail (lengthByte : BitVec 64 → ℕ → UInt8) (bytes : ℕ) : List UInt8 :=
  let bits := BitVec.ofNat 64 (bytes * 8)
  let used := bytes % 64
  let padding := if used < 56 then 56 - used else 120 - used
  0x80 :: List.replicate (padding - 1) 0 ++ (List.range 8).map (lengthByte bits)

def bigLength (bits : BitVec 64) (index : ℕ) : UInt8 := lowByte (bits >>> (56 - index * 8))

def littleLength (bits : BitVec 64) (index : ℕ) : UInt8 := lowByte (bits >>> (index * 8))

def sha1Init (buffer : Block UInt8 64) : HashContext Words5 :=
  ⟨⟨0x67452301, 0xefcdab89, 0x98badcfe, 0x10325476, 0xc3d2e1f0⟩, 0, buffer.1⟩

def sha1Update : HashContext Words5 → List UInt8 → HashContext Words5 := hashUpdate sha1Transform

def sha1Finish (context : HashContext Words5) : List UInt8 :=
  let s := (sha1Update context (hashTail bigLength context.bytes)).state
  [s.a, s.b, s.c, s.d, s.e].flatMap cryptoPutBe32

def md5Init (buffer : Block UInt8 64) : HashContext Words4 :=
  ⟨⟨0x67452301, 0xefcdab89, 0x98badcfe, 0x10325476⟩, 0, buffer.1⟩

def md5Update : HashContext Words4 → List UInt8 → HashContext Words4 := hashUpdate md5Transform

def md5Finish (context : HashContext Words4) : List UInt8 :=
  let s := (md5Update context (hashTail littleLength context.bytes)).state
  [s.a, s.b, s.c, s.d].flatMap cryptoPutLe32

def sha256Init (buffer : Block UInt8 64) : HashContext Words8 :=
  ⟨⟨0x6a09e667, 0xbb67ae85, 0x3c6ef372, 0xa54ff53a, 0x510e527f, 0x9b05688c, 0x1f83d9ab, 0x5be0cd19⟩, 0, buffer.1⟩

def sha256Update : HashContext Words8 → List UInt8 → HashContext Words8 := hashUpdate sha256Transform

def sha256Finish (context : HashContext Words8) : List UInt8 :=
  let s := (sha256Update context (hashTail bigLength context.bytes)).state
  [s.a, s.b, s.c, s.d, s.e, s.f, s.g, s.h].flatMap cryptoPutBe32

end context

end RtSmart
