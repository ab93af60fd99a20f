import RtSmart.Lib.MerkleDamgard

/-!
The message digests of FIPS 180-4 (SHA-1 and SHA-256) and of RFC 1321 (MD5): compression functions, padding
and the bytes of the result.
-/

namespace RtSmart.Lib.Digest

abbrev Word := BitVec 32

def beWord (b : List UInt8) : Word :=
  ((b.getD 0 0).toBitVec ++ (b.getD 1 0).toBitVec ++ ((b.getD 2 0).toBitVec ++ (b.getD 3 0).toBitVec)).cast rfl

def leWord (b : List UInt8) : Word :=
  ((b.getD 3 0).toBitVec ++ (b.getD 2 0).toBitVec ++ ((b.getD 1 0).toBitVec ++ (b.getD 0 0).toBitVec)).cast rfl

/-- The `t`-th word of a block. -/
def wordAt (word : List UInt8 → Word) (block : List UInt8) (t : ℕ) : Word := word ((block.drop (4 * t)).take 4)

def beBytes (n : ℕ) (x : ℕ) : List UInt8 := (List.range n).map fun i => UInt8.ofNat (x / 2 ^ (8 * (n - 1 - i)))

def leBytes (n : ℕ) (x : ℕ) : List UInt8 := (List.range n).map fun i => UInt8.ofNat (x / 2 ^ (8 * i))

/-- The message with a one bit, zeros and its length in bits in 8 bytes. -/
def pad (bytes : ℕ → ℕ → List UInt8) (msg : List UInt8) : List UInt8 :=
  msg ++ 0x80 :: List.replicate ((119 - msg.length % 64) % 64) 0 ++ bytes 8 (8 * msg.length)

/-! SHA-256 -/

def ch (x y z : Word) : Word := (x &&& y) ^^^ (~~~x &&& z)

def parity (x y z : Word) : Word := x ^^^ y ^^^ z

def maj (x y z : Word) : Word := (x &&& y) ^^^ (x &&& z) ^^^ (y &&& z)

structure Words8 where
  a : Word
  b : Word
  c : Word
  d : Word
  e : Word
  f : Word
  g : Word
  h : Word
deriving DecidableEq

def Words8.bytes (s : Words8) : List UInt8 := [s.a, s.b, s.c, s.d, s.e, s.f, s.g, s.h].flatMap fun w => beBytes 4 w.toNat

def sha256Initial : Words8 :=
  ⟨0x6a09e667, 0xbb67ae85, 0x3c6ef372, 0xa54ff53a, 0x510e527f, 0x9b05688c, 0x1f83d9ab, 0x5be0cd19⟩

def sha256Constants : List Word :=
  [0x428a2f98, 0x71374491, 0xb5c0fbcf, 0xe9b5dba5, 0x3956c25b, 0x59f111f1, 0x923f82a4, 0xab1c5ed5,
    0xd807aa98, 0x12835b01, 0x243185be, 0x550c7dc3, 0x72be5d74, 0x80deb1fe, 0x9bdc06a7, 0xc19bf174,
    0xe49b69c1, 0xefbe4786, 0x0fc19dc6, 0x240ca1cc, 0x2de92c6f, 0x4a7484aa, 0x5cb0a9dc, 0x76f988da,
    0x983e5152, 0xa831c66d, 0xb00327c8, 0xbf597fc7, 0xc6e00bf3, 0xd5a79147, 0x06ca6351, 0x14292967,
    0x27b70a85, 0x2e1b2138, 0x4d2c6dfc, 0x53380d13, 0x650a7354, 0x766a0abb, 0x81c2c92e, 0x92722c85,
    0xa2bfe8a1, 0xa81a664b, 0xc24b8b70, 0xc76c51a3, 0xd192e819, 0xd6990624, 0xf40e3585, 0x106aa070,
    0x19a4c116, 0x1e376c08, 0x2748774c, 0x34b0bcb5, 0x391c0cb3, 0x4ed8aa4a, 0x5b9cca4f, 0x682e6ff3,
    0x748f82ee, 0x78a5636f, 0x84c87814, 0x8cc70208, 0x90befffa, 0xa4506ceb, 0xbef9a3f7, 0xc67178f2]

def bigSigma0 (x : Word) : Word := x.rotateRight 2 ^^^ x.rotateRight 13 ^^^ x.rotateRight 22

def bigSigma1 (x : Word) : Word := x.rotateRight 6 ^^^ x.rotateRight 11 ^^^ x.rotateRight 25

def smallSigma0 (x : Word) : Word := x.rotateRight 7 ^^^ x.rotateRight 18 ^^^ x >>> 3

def smallSigma1 (x : Word) : Word := x.rotateRight 17 ^^^ x.rotateRight 19 ^^^ x >>> 10

def sha256Schedule (m : ℕ → Word) (t : ℕ) : Word :=
  if t < 16 then m t
  else
    smallSigma1 (sha256Schedule m (t - 2)) + sha256Schedule m (t - 7) + smallSigma0 (sha256Schedule m (t - 15)) +
      sha256Schedule m (t - 16)
termination_by t
decreasing_by all_goals omega

def sha256Round (w : ℕ → Word) (s : Words8) (t : ℕ) : Words8 :=
  let t1 := s.h + bigSigma1 s.e + ch s.e s.f s.g + sha256Constants.getD t 0 + w t
  let t2 := bigSigma0 s.a + maj s.a s.b s.c
  ⟨t1 + t2, s.a, s.b, s.c, s.d + t1, s.e, s.f, s.g⟩

def sha256Compress (s : Words8) (block : List UInt8) : Words8 :=
  let r := (List.range 64).foldl (sha256Round (sha256Schedule (wordAt beWord block))) s
  ⟨s.a + r.a, s.b + r.b, s.c + r.c, s.d + r.d, s.e + r.e, s.f + r.f, s.g + r.g, s.h + r.h⟩

def sha256 (msg : List UInt8) : List UInt8 := (hashBlocked sha256Compress 64 sha256Initial (pad beBytes msg)).bytes

/-! SHA-1 -/

structure Words5 where
  a : Word
  b : Word
  c : Word
  d : Word
  e : Word
deriving DecidableEq

def Words5.bytes (s : Words5) : List UInt8 := [s.a, s.b, s.c, s.d, s.e].flatMap fun w => beBytes 4 w.toNat

def sha1Initial : Words5 := ⟨0x67452301, 0xefcdab89, 0x98badcfe, 0x10325476, 0xc3d2e1f0⟩

def sha1Function (t : ℕ) : Word → Word → Word → Word :=
  if t < 20 then ch else if t < 40 then parity else if t < 60 then maj else parity

def sha1Constant (t : ℕ) : Word :=
  if t < 20 then 0x5a827999 else if t < 40 then 0x6ed9eba1 else if t < 60 then 0x8f1bbcdc else 0xca62c1d6

def sha1Schedule (m : ℕ → Word) (t : ℕ) : Word :=
  if t < 16 then m t
  else
    (sha1Schedule m (t - 3) ^^^ sha1Schedule m (t - 8) ^^^ sha1Schedule m (t - 14) ^^^
      sha1Schedule m (t - 16)).rotateLeft 1
termination_by t
decreasing_by all_goals omega

def sha1Round (w : ℕ → Word) (s : Words5) (t : ℕ) : Words5 :=
  ⟨s.a.rotateLeft 5 + sha1Function t s.b s.c s.d + s.e + sha1Constant t + w t, s.a, s.b.rotateLeft 30, s.c, s.d⟩

def sha1Compress (s : Words5) (block : List UInt8) : Words5 :=
  let r := (List.range 80).foldl (sha1Round (sha1Schedule (wordAt beWord block))) s
  ⟨s.a + r.a, s.b + r.b, s.c + r.c, s.d + r.d, s.e + r.e⟩

def sha1 (msg : List UInt8) : List UInt8 := (hashBlocked sha1Compress 64 sha1Initial (pad beBytes msg)).bytes

/-! MD5 -/

structure Words4 where
  a : Word
  b : Word
  c : Word
  d : Word
deriving DecidableEq

def Words4.bytes (s : Words4) : List UInt8 := [s.a, s.b, s.c, s.d].flatMap fun w => leBytes 4 w.toNat

def md5Initial : Words4 := ⟨0x67452301, 0xefcdab89, 0x98badcfe, 0x10325476⟩

/-- The integer part of 2^32 times the absolute sine of `t + 1`. -/
def md5Constants : List Word :=
  [0xd76aa478, 0xe8c7b756, 0x242070db, 0xc1bdceee, 0xf57c0faf, 0x4787c62a, 0xa8304613, 0xfd469501,
    0x698098d8, 0x8b44f7af, 0xffff5bb1, 0x895cd7be, 0x6b901122, 0xfd987193, 0xa679438e, 0x49b40821,
    0xf61e2562, 0xc040b340, 0x265e5a51, 0xe9b6c7aa, 0xd62f105d, 0x02441453, 0xd8a1e681, 0xe7d3fbc8,
    0x21e1cde6, 0xc33707d6, 0xf4d50d87, 0x455a14ed, 0xa9e3e905, 0xfcefa3f8, 0x676f02d9, 0x8d2a4c8a,
    0xfffa3942, 0x8771f681, 0x6d9d6122, 0xfde5380c, 0xa4beea44, 0x4bdecfa9, 0xf6bb4b60, 0xbebfbc70,
    0x289b7ec6, 0xeaa127fa, 0xd4ef3085, 0x04881d05, 0xd9d4d039, 0xe6db99e5, 0x1fa27cf8, 0xc4ac5665,
    0xf4292244, 0x432aff97, 0xab9423a7, 0xfc93a039, 0x655b59c3, 0x8f0ccc92, 0xffeff47d, 0x85845dd1,
    0x6fa87e4f, 0xfe2ce6e0, 0xa3014314, 0x4e0811a1, 0xf7537e82, 0xbd3af235, 0x2ad7d2bb, 0xeb86d391]

def md5Function (t : ℕ) (x y z : Word) : Word :=
  if t < 16 then (x &&& y) ||| (~~~x &&& z)
  else if t < 32 then (x &&& z) ||| (y &&& ~~~z)
  else if t < 48 then x ^^^ y ^^^ z
  else y ^^^ (x ||| ~~~z)

def md5Index (t : ℕ) : ℕ :=
  if t < 16 then t else if t < 32 then (5 * t + 1) % 16 else if t < 48 then (3 * t + 5) % 16 else 7 * t % 16

def md5Shift (t : ℕ) : ℕ :=
  ([[7, 12, 17, 22], [5, 9, 14, 20], [4, 11, 16, 23], [6, 10, 15, 21]].getD (t / 16) []).getD (t % 4) 0

def md5Round (m : ℕ → Word) (s : Words4) (t : ℕ) : Words4 :=
  ⟨s.d, s.b + (s.a + md5Function t s.b s.c s.d + m (md5Index t) + md5Constants.getD t 0).rotateLeft (md5Shift t),
    s.b, s.c⟩

def md5Compress (s : Words4) (block : List UInt8) : Words4 :=
  let r := (List.range 64).foldl (md5Round (wordAt leWord block)) s
  ⟨s.a + r.a, s.b + r.b, s.c + r.c, s.d + r.d⟩

def md5 (msg : List UInt8) : List UInt8 := (hashBlocked md5Compress 64 md5Initial (pad leBytes msg)).bytes

end RtSmart.Lib.Digest
