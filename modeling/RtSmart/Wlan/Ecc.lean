import Mathlib.Data.ZMod.Basic
import RtSmart.Wlan.Vli

/-! The curve P-256 of the bundled elliptic curve code (`ecc.c`): reduction modulo its prime and its equation. -/

namespace RtSmart

open Lib Lib.Limbs
open Lib.Digest (Word)

/-- The part of `uECC_Curve_t` that is used here. -/
structure UEccCurve where
  p : List Word
  b : List Word

def curveSecp256r1 : UEccCurve where
  p := [0xffffffff, 0xffffffff, 0xffffffff, 0x00000000, 0x00000000, 0x00000000, 0x00000001, 0xffffffff]
  b := [0x27d2604b, 0x3bce3c3e, 0xcc53b0f6, 0x651d06b0, 0x769886bc, 0xb3ebbd55, 0xaa3a93e7, 0x5ac635d8]

/-- `carry += uECC_vli_add(result, result, tmp, NUM_ECC_WORDS)`. -/
def carryAdd (s : List Word × ℤ) (tmp : List Word) : List Word × ℤ :=
  let r := uEccVliAdd s.1 tmp
  (r.1, s.2 + r.2.toNat)

/-- `carry -= uECC_vli_sub(result, result, tmp, NUM_ECC_WORDS)`. -/
def carrySub (s : List Word × ℤ) (tmp : List Word) : List Word × ℤ :=
  let r := uEccVliSub s.1 tmp
  (r.1, s.2 - r.2.toNat)

def reduceUp : ℕ → List Word × ℤ → List Word × ℤ
  | 0, s => s
  | n + 1, s => if s.2 < 0 then reduceUp n (carryAdd s curveSecp256r1.p) else s

def reduceDown : ℕ → List Word × ℤ → List Word × ℤ
  | 0, s => s
  | n + 1, s =>
    if s.2 ≠ 0 ∨ uEccVliCmpUnsafe curveSecp256r1.p s.1 8 ≠ 1 then reduceDown n (carrySub s curveSecp256r1.p) else s

def mmodSum (product : List Word) : List Word × ℤ :=
  let w := fun i => product.getD i 0
  let s1 := uEccVliAdd [0, 0, 0, w 11, w 12, w 13, w 14, w 15] [0, 0, 0, w 11, w 12, w 13, w 14, w 15]
  let s := carryAdd (product.take 8, (s1.2.toNat : ℤ)) s1.1
  let s2 := uEccVliAdd (s1.1.take 3 ++ [w 12, w 13, w 14, w 15, 0]) (s1.1.take 3 ++ [w 12, w 13, w 14, w 15, 0])
  let s := carryAdd (s.1, s.2 + s2.2.toNat) s2.1
  let s := carryAdd s [w 8, w 9, w 10, 0, 0, 0, w 14, w 15]
  let s := carryAdd s [w 9, w 10, w 11, w 13, w 14, w 15, w 13, w 8]
  let s := carrySub s [w 11, w 12, w 13, 0, 0, 0, w 8, w 10]
  let s := carrySub s [w 12, w 13, w 14, w 15, 0, 0, w 9, w 11]
  let s := carrySub s [w 13, w 14, w 15, w 8, w 9, w 10, 0, w 12]
  carrySub s [w 14, w 15, 0, w 9, w 10, w 11, 0, w 13]

def vliMmodFastSecp256r1 (product : List Word) : List Word :=
  let s := mmodSum product
  if s.2 < 0 then (reduceUp 8 s).1 else (reduceDown 8 s).1

def uEccVliModMultFast (left right : List Word) : List Word := vliMmodFastSecp256r1 (uEccVliMult left right 8)

def uEccVliModSquareFast (left : List Word) : List Word := uEccVliModMultFast left left

def xSideDefault (x : List Word) : List Word :=
  let result := uEccVliModSquareFast x
  let result := uEccVliModSub result [3, 0, 0, 0, 0, 0, 0, 0] curveSecp256r1.p
  let result := uEccVliModMultFast result x
  uEccVliModAdd result curveSecp256r1.b curveSecp256r1.p 8

def eccPointIsZero (point : List Word) : Bool := uEccVliIsZero point

def uEccValidPoint (point : List Word) : ℤ :=
  if eccPointIsZero point then -1
  else if uEccVliCmpUnsafe curveSecp256r1.p (point.take 8) 8 ≠ 1 ∨
      uEccVliCmpUnsafe curveSecp256r1.p (point.drop 8) 8 ≠ 1 then -2
  else if uEccVliEqual (uEccVliModSquareFast (point.drop 8)) (xSideDefault (point.take 8)) ≠ 0 then -3
  else 0

/-- The prime of the curve. -/
def p256 : ℕ := 2 ^ 256 - 2 ^ 224 + 2 ^ 192 + 2 ^ 96 - 1

theorem value_p : value curveSecp256r1.p = p256 := by decide +kernel

theorem length_p : curveSecp256r1.p.length = 8 := rfl

/-! Reduction. -/

def weight (s : List Word × ℤ) : ℤ := value s.1 + 2 ^ 256 * s.2

/-- Both loops have come to their end in `r`, with what `s` stands for modulo the prime. -/
structure Reduced (s r : List Word × ℤ) : Prop where
  carry : r.2 = 0
  lt : value r.1 < p256
  congr : ∃ j : ℤ, (value r.1 : ℤ) = weight s + j * p256
  length : r.1.length = 8

section

variable {s t r : List Word × ℤ} {tmp left right product x point : List Word} {n : ℕ}

theorem carryAdd_weight (hs : s.1.length = 8) (ht : tmp.length = 8) :
    weight (carryAdd s tmp) = weight s + value tmp ∧ (carryAdd s tmp).1.length = 8 := by
  obtain ⟨hsum, -, hlen⟩ := uEccVliAdd_eq (hs.trans ht.symm)
  rw [hs] at hsum hlen
  refine ⟨?_, hlen⟩
  have hint : (value (uEccVliAdd s.1 tmp).1 : ℤ) + 2 ^ 256 * (uEccVliAdd s.1 tmp).2.toNat = value s.1 + value tmp := by
    exact_mod_cast hsum
  simp only [weight, carryAdd]
  linear_combination hint

theorem carrySub_weight (hs : s.1.length = 8) (ht : tmp.length = 8) :
    weight (carrySub s tmp) = weight s - value tmp ∧ (carrySub s tmp).1.length = 8 := by
  obtain ⟨hdiff, -, hlen⟩ := uEccVliSub_eq (hs.trans ht.symm)
  rw [hs] at hdiff hlen
  refine ⟨?_, hlen⟩
  have hint : (value (uEccVliSub s.1 tmp).1 : ℤ) + value tmp = value s.1 + 2 ^ 256 * (uEccVliSub s.1 tmp).2.toNat := by
    exact_mod_cast hdiff
  simp only [weight, carrySub]
  linear_combination hint

theorem value_lt_two_pow (h : tmp.length = 8) : value tmp < 2 ^ 256 := by
  have hlt := value_lt tmp
  rw [h] at hlt
  exact hlt.trans_le (by norm_num)

theorem Reduced.of_self (hs : s.1.length = 8) (hlow : 0 ≤ weight s) (hhigh : weight s < p256) : Reduced s s := by
  have hlt := value_lt_two_pow hs
  have hcarry : s.2 = 0 := by
    unfold weight p256 at *
    omega
  have hval : (value s.1 : ℤ) = weight s := by
    rw [weight, hcarry, Int.mul_zero, Int.add_zero]
  refine ⟨hcarry, ?_, ⟨0, by rw [Int.zero_mul, Int.add_zero]; exact hval⟩, hs⟩
  rw [← hval] at hhigh
  exact_mod_cast hhigh

theorem Reduced.of_shift (h : Reduced t r) {k : ℤ} (ht : weight t = weight s + k * p256) : Reduced s r where
  carry := h.carry
  lt := h.lt
  congr := by
    obtain ⟨j, hj⟩ := h.congr
    exact ⟨k + j, by rw [hj, ht]; ring⟩
  length := h.length

theorem reduceUp_eq (hs : s.1.length = 8) (hlow : 0 ≤ weight s + n * p256) (hhigh : weight s < p256) :
    Reduced s (reduceUp n s) := by
  induction n generalizing s with
  | zero =>
    rw [Nat.cast_zero, Int.zero_mul, Int.add_zero] at hlow
    exact .of_self hs hlow hhigh
  | succ n ih =>
    rw [reduceUp]
    by_cases hneg : s.2 < 0
    · obtain ⟨hweight, hlen⟩ := carryAdd_weight hs length_p
      rw [value_p] at hweight
      have hlt := value_lt_two_pow hs
      rw [if_pos hneg]
      refine (ih hlen ?_ ?_).of_shift (hweight.trans (by rw [Int.one_mul]))
      · rw [hweight]
        push_cast at hlow
        linarith
      · rw [hweight]
        unfold weight
        omega
    · rw [if_neg hneg]
      refine .of_self hs ?_ hhigh
      unfold weight
      omega

theorem reduceDown_eq (hs : s.1.length = 8) (hlow : 0 ≤ weight s) (hhigh : weight s < (n + 1) * p256) :
    Reduced s (reduceDown n s) := by
  induction n generalizing s with
  | zero =>
    refine .of_self hs hlow ?_
    push_cast at hhigh
    linarith
  | succ n ih =>
    have hlt := value_lt_two_pow hs
    have hcmp := uEccVliCmpUnsafe_eq_one length_p hs
    rw [value_p] at hcmp
    rw [reduceDown]
    by_cases hagain : s.2 ≠ 0 ∨ uEccVliCmpUnsafe curveSecp256r1.p s.1 8 ≠ 1
    · obtain ⟨hweight, hlen⟩ := carrySub_weight hs length_p
      rw [value_p] at hweight
      have hge : (p256 : ℤ) ≤ weight s := by
        unfold weight at hlow ⊢
        rcases hagain with hcarry | hbig
        · unfold p256
          omega
        · rw [Ne, hcmp] at hbig
          omega
      rw [if_pos hagain]
      refine (ih hlen ?_ ?_).of_shift (hweight.trans (by rw [Int.neg_one_mul, Int.sub_eq_add_neg]))
      · rw [hweight]
        linarith
      · rw [hweight]
        push_cast at hhigh
        linarith
    · rw [if_neg hagain]
      rw [not_or, not_not, not_not] at hagain
      have hsmall : value s.1 < p256 := hcmp.mp hagain.2
      refine .of_self hs hlow ?_
      rw [weight, hagain.1, Int.mul_zero, Int.add_zero]
      exact_mod_cast hsmall

theorem vliAdd_self (ht : tmp.length = 8) :
    (value (uEccVliAdd tmp tmp).1 : ℤ) + 2 ^ 256 * (uEccVliAdd tmp tmp).2.toNat = 2 * value tmp ∧
      (uEccVliAdd tmp tmp).1.length = 8 := by
  obtain ⟨hsum, -, hlen⟩ := @uEccVliAdd_eq tmp tmp rfl
  rw [ht] at hsum hlen
  refine ⟨?_, hlen⟩
  rw [← two_mul] at hsum
  exact_mod_cast hsum

theorem mmodSum_weight (hlen : product.length = 16) :
    weight (mmodSum product) = value (product.take 8) +
      2 * value [0, 0, 0, product.getD 11 0, product.getD 12 0, product.getD 13 0, product.getD 14 0, product.getD 15 0] +
      2 * value [0, 0, 0, product.getD 12 0, product.getD 13 0, product.getD 14 0, product.getD 15 0, 0] +
      value [product.getD 8 0, product.getD 9 0, product.getD 10 0, 0, 0, 0, product.getD 14 0, product.getD 15 0] +
      value [product.getD 9 0, product.getD 10 0, product.getD 11 0, product.getD 13 0, product.getD 14 0, product.getD 15 0,
        product.getD 13 0, product.getD 8 0] -
      value [product.getD 11 0, product.getD 12 0, product.getD 13 0, 0, 0, 0, product.getD 8 0, product.getD 10 0] -
      value [product.getD 12 0, product.getD 13 0, product.getD 14 0, product.getD 15 0, 0, 0, product.getD 9 0,
        product.getD 11 0] -
      value [product.getD 13 0, product.getD 14 0, product.getD 15 0, product.getD 8 0, product.getD 9 0, product.getD 10 0, 0,
        product.getD 12 0] -
      value [product.getD 14 0, product.getD 15 0, 0, product.getD 9 0, product.getD 10 0, product.getD 11 0, 0,
        product.getD 13 0] ∧
    0 ≤ weight (mmodSum product) + 8 * p256 ∧ weight (mmodSum product) < 9 * p256 ∧ (mmodSum product).1.length = 8 := by
  have htake : (product.take 8).length = 8 := by
    rw [List.length_take, hlen]
    rfl
  unfold mmodSum
  dsimp only
  generalize product.getD 8 0 = w8, product.getD 9 0 = w9, product.getD 10 0 = w10, product.getD 11 0 = w11,
    product.getD 12 0 = w12, product.getD 13 0 = w13, product.getD 14 0 = w14, product.getD 15 0 = w15
  -- doubling has left the three lowest words at zero
  have hthree : (uEccVliAdd [0, 0, 0, w11, w12, w13, w14, w15] [0, 0, 0, w11, w12, w13, w14, w15]).1.take 3 = [0, 0, 0] := rfl
  obtain ⟨hint1, hlen1⟩ := @vliAdd_self [0, 0, 0, w11, w12, w13, w14, w15] rfl
  rw [hthree]
  obtain ⟨hint2, hlen2⟩ := @vliAdd_self ([0, 0, 0] ++ [w12, w13, w14, w15, 0]) rfl
  generalize uEccVliAdd [0, 0, 0, w11, w12, w13, w14, w15] [0, 0, 0, w11, w12, w13, w14, w15] = s1 at hint1 hlen1 ⊢
  generalize uEccVliAdd ([0, 0, 0] ++ [w12, w13, w14, w15, 0]) ([0, 0, 0] ++ [w12, w13, w14, w15, 0]) = s2 at hint2 hlen2 ⊢
  obtain ⟨h1, l1⟩ := @carryAdd_weight (product.take 8, (s1.2.toNat : ℤ)) s1.1 htake hlen1
  generalize carryAdd (product.take 8, (s1.2.toNat : ℤ)) s1.1 = t at h1 l1 ⊢
  obtain ⟨h2, l2⟩ := @carryAdd_weight (t.1, t.2 + s2.2.toNat) s2.1 l1 hlen2
  obtain ⟨h3, l3⟩ := @carryAdd_weight _ [w8, w9, w10, 0, 0, 0, w14, w15] l2 rfl
  obtain ⟨h4, l4⟩ := @carryAdd_weight _ [w9, w10, w11, w13, w14, w15, w13, w8] l3 rfl
  obtain ⟨h5, l5⟩ := @carrySub_weight _ [w11, w12, w13, 0, 0, 0, w8, w10] l4 rfl
  obtain ⟨h6, l6⟩ := @carrySub_weight _ [w12, w13, w14, w15, 0, 0, w9, w11] l5 rfl
  obtain ⟨h7, l7⟩ := @carrySub_weight _ [w13, w14, w15, w8, w9, w10, 0, w12] l6 rfl
  obtain ⟨h8, l8⟩ := @carrySub_weight _ [w14, w15, 0, w9, w10, w11, 0, w13] l7 rfl
  rw [List.cons_append, List.cons_append, List.cons_append, List.nil_append] at hint2
  have hcarry : weight (t.1, t.2 + s2.2.toNat) = weight t + 2 ^ 256 * s2.2.toNat := by
    unfold weight
    ring
  have hfirst : weight (product.take 8, (s1.2.toNat : ℤ)) = value (product.take 8) + 2 ^ 256 * s1.2.toNat := rfl
  rw [hcarry, h1, hfirst] at h2
  rw [h7, h6, h5, h4, h3, h2] at h8
  have hweight := h8.trans (by linear_combination hint1 + hint2 : _ = (value (product.take 8) : ℤ) +
    2 * value [0, 0, 0, w11, w12, w13, w14, w15] + 2 * value [0, 0, 0, w12, w13, w14, w15, 0] +
    value [w8, w9, w10, 0, 0, 0, w14, w15] + value [w9, w10, w11, w13, w14, w15, w13, w8] -
    value [w11, w12, w13, 0, 0, 0, w8, w10] - value [w12, w13, w14, w15, 0, 0, w9, w11] -
    value [w13, w14, w15, w8, w9, w10, 0, w12] - value [w14, w15, 0, w9, w10, w11, 0, w13])
  refine ⟨hweight, ?_, ?_, l8⟩
  · rw [hweight]
    have b5 := @value_lt_two_pow [w11, w12, w13, 0, 0, 0, w8, w10] rfl
    have b6 := @value_lt_two_pow [w12, w13, w14, w15, 0, 0, w9, w11] rfl
    have b7 := @value_lt_two_pow [w13, w14, w15, w8, w9, w10, 0, w12] rfl
    have b8 := @value_lt_two_pow [w14, w15, 0, w9, w10, w11, 0, w13] rfl
    unfold p256
    omega
  · rw [hweight]
    have b0 := value_lt_two_pow htake
    have b1 := @value_lt_two_pow [0, 0, 0, w11, w12, w13, w14, w15] rfl
    have b2 := @value_lt_two_pow [0, 0, 0, w12, w13, w14, w15, 0] rfl
    have b3 := @value_lt_two_pow [w8, w9, w10, 0, 0, 0, w14, w15] rfl
    have b4 := @value_lt_two_pow [w9, w10, w11, w13, w14, w15, w13, w8] rfl
    unfold p256
    omega

theorem mmodSum_congr (hlen : product.length = 16) : ∃ q : ℤ, weight (mmodSum product) = value product + q * p256 := by
  have htake : (product.take 8).length = 8 := by
    rw [List.length_take, hlen]
    rfl
  have hdrop : value (product.drop 8) = ∑ i ∈ Finset.range 8, (2 ^ 32) ^ i * (product.getD (8 + i) 0).toNat := by
    rw [value_eq_sum (product.drop 8) (by rw [List.length_drop, hlen] : (product.drop 8).length ≤ 8)]
    apply Finset.sum_congr rfl
    intro i _
    rw [List.getD_eq_getElem?_getD, List.getElem?_drop, ← List.getD_eq_getElem?_getD]
  have hproduct : value product = value (product.take 8) + (2 ^ 32) ^ 8 * value (product.drop 8) := by
    have hsplit := value_append (product.take 8) (product.drop 8)
    rwa [List.take_append_drop, htake] at hsplit
  have hp : ((p256 : ℕ) : ℤ) = 2 ^ 256 - 2 ^ 224 + 2 ^ 192 + 2 ^ 96 - 1 := by
    norm_num [p256]
  simp only [Finset.sum_range_succ, Finset.sum_range_zero] at hdrop
  rw [(mmodSum_weight hlen).1, hproduct, hdrop, hp]
  generalize product.getD 8 0 = w8, product.getD 9 0 = w9, product.getD 10 0 = w10, product.getD 11 0 = w11,
    product.getD 12 0 = w12, product.getD 13 0 = w13, product.getD 14 0 = w14, product.getD 15 0 = w15
  -- what is left over of the powers of 2 ^ 32 from the eighth on, in multiples of the prime
  refine ⟨-(w8.toNat + 4294967297 * w9.toNat + 18446744078004518912 * w10.toNat +
    79228162532711081667253501951 * w11.toNat + 340282367000166625977638945021017194495 * w12.toNat +
    1461501637671185285124623296161210883009696235519 * w13.toNat +
    6277101736848182401166692341332123086285927382448418586623 * w14.toNat +
    26959946673427741530053695850515137729844644212646842236464328081408 * w15.toNat), ?_⟩
  simp only [value]
  push_cast
  ring

theorem vliMmodFastSecp256r1_eq (hlen : product.length = 16) :
    value (vliMmodFastSecp256r1 product) = value product % p256 ∧ (vliMmodFastSecp256r1 product).length = 8 := by
  obtain ⟨-, hlow, hhigh, hlength⟩ := mmodSum_weight hlen
  obtain ⟨q, hq⟩ := mmodSum_congr hlen
  have hreduced : ∃ r, vliMmodFastSecp256r1 product = r.1 ∧ Reduced (mmodSum product) r := by
    unfold vliMmodFastSecp256r1
    dsimp only
    by_cases hneg : (mmodSum product).2 < 0
    · have hlt := value_lt_two_pow hlength
      rw [if_pos hneg]
      refine ⟨_, rfl, reduceUp_eq hlength hlow ?_⟩
      unfold weight
      omega
    · rw [if_neg hneg]
      refine ⟨_, rfl, reduceDown_eq hlength ?_ ?_⟩
      · unfold weight
        omega
      · push_cast
        linarith
  obtain ⟨r, hr, hres⟩ := hreduced
  obtain ⟨j, hj⟩ := hres.congr
  rw [hr]
  refine ⟨?_, hres.length⟩
  have hproduct : (value product : ℤ) = value r.1 + p256 * (-q - j) := by
    rw [hj, hq]
    ring
  have hmod : ((value product % p256 : ℕ) : ℤ) = value r.1 := by
    rw [Int.natCast_mod, hproduct, Int.add_mul_emod_self_left]
    exact Int.emod_eq_of_lt (Int.natCast_nonneg _) (by exact_mod_cast hres.lt)
  exact_mod_cast hmod.symm

theorem uEccVliModMultFast_eq (hl : left.length = 8) (hr : right.length = 8) :
    value (uEccVliModMultFast left right) = value left * value right % p256 ∧ (uEccVliModMultFast left right).length = 8 := by
  obtain ⟨hvalue, hlen⟩ := uEccVliMult_eq hl hr
  obtain ⟨hmod, hlength⟩ := vliMmodFastSecp256r1_eq hlen
  exact ⟨by rw [uEccVliModMultFast, hmod, hvalue], hlength⟩

/-! The equation of the curve. -/

theorem p256_pos : 0 < p256 := by norm_num [p256]

theorem xSideDefault_eq (hx : x.length = 8) :
    (value (xSideDefault x) : ZMod p256) = value x ^ 3 - 3 * value x + value curveSecp256r1.b ∧
      value (xSideDefault x) < p256 ∧ (xSideDefault x).length = 8 := by
  obtain ⟨h1, l1⟩ := uEccVliModMultFast_eq hx hx
  have hlt1 : value (uEccVliModMultFast x x) < value curveSecp256r1.p := by
    rw [h1, value_p]
    exact Nat.mod_lt _ p256_pos
  have hthree : value [(3 : Word), 0, 0, 0, 0, 0, 0, 0] = 3 := by decide +kernel
  have hle : 3 < p256 := by norm_num [p256]
  obtain ⟨h2, l2⟩ := @uEccVliModSub_eq 8 (uEccVliModMultFast x x) [3, 0, 0, 0, 0, 0, 0, 0] curveSecp256r1.p l1 rfl rfl hlt1
    (by rw [hthree, value_p]; exact hle)
  obtain ⟨h3, l3⟩ := uEccVliModMultFast_eq l2 hx
  obtain ⟨h4, l4⟩ := @uEccVliModAdd_eq 8 _ curveSecp256r1.b curveSecp256r1.p l3 rfl rfl
    (by rw [h3, value_p]; exact Nat.mod_lt _ p256_pos) (by decide +kernel)
  have hside : xSideDefault x = uEccVliModAdd (uEccVliModMultFast
      (uEccVliModSub (uEccVliModMultFast x x) [3, 0, 0, 0, 0, 0, 0, 0] curveSecp256r1.p) x) curveSecp256r1.b
      curveSecp256r1.p 8 := rfl
  rw [hside]
  refine ⟨?_, ?_, l4⟩
  · rw [h4, h3, h2, h1, hthree, value_p]
    simp only [ZMod.natCast_mod, Nat.cast_add, Nat.cast_mul, Nat.cast_sub hle.le, ZMod.natCast_self]
    push_cast
    ring
  · rw [h4, value_p]
    exact Nat.mod_lt _ p256_pos

/-- A point is accepted just when its coordinates are reduced and lie on the curve; the origin does not. -/
theorem uEccValidPoint_eq_zero (h : point.length = 16) : uEccValidPoint point = 0 ↔
    value (point.take 8) < p256 ∧ value (point.drop 8) < p256 ∧
      (value (point.drop 8) : ZMod p256) ^ 2 =
        value (point.take 8) ^ 3 - 3 * value (point.take 8) + value curveSecp256r1.b := by
  have hx : (point.take 8).length = 8 := by
    rw [List.length_take, h]
    rfl
  have hy : (point.drop 8).length = 8 := by
    rw [List.length_drop, h]
  have hxp := uEccVliCmpUnsafe_eq_one length_p hx
  have hyp := uEccVliCmpUnsafe_eq_one length_p hy
  rw [value_p] at hxp hyp
  obtain ⟨hside, hsideLt, hsideLen⟩ := xSideDefault_eq hx
  obtain ⟨hsquare, hsquareLen⟩ := uEccVliModMultFast_eq hy hy
  have hequal : uEccVliEqual (uEccVliModSquareFast (point.drop 8)) (xSideDefault (point.take 8)) = 0 ↔
      (value (point.drop 8) : ZMod p256) ^ 2 =
        value (point.take 8) ^ 3 - 3 * value (point.take 8) + value curveSecp256r1.b := by
    have hcast : (value (uEccVliModSquareFast (point.drop 8)) : ZMod p256) = value (point.drop 8) ^ 2 := by
      change (value (uEccVliModMultFast _ _) : ZMod p256) = _
      rw [hsquare, ZMod.natCast_mod, Nat.cast_mul, sq]
    have hsquareLt : value (uEccVliModSquareFast (point.drop 8)) < p256 := by
      change value (uEccVliModMultFast _ _) < _
      rw [hsquare]
      exact Nat.mod_lt _ p256_pos
    have hlength : (uEccVliModSquareFast (point.drop 8)).length = (xSideDefault (point.take 8)).length :=
      hsquareLen.trans hsideLen.symm
    rw [uEccVliEqual_eq_zero hlength, ← hside, ← hcast]
    constructor
    · intro heq
      rw [heq]
    · intro heq
      apply value_inj hlength
      rwa [ZMod.natCast_eq_natCast_iff', Nat.mod_eq_of_lt hsquareLt, Nat.mod_eq_of_lt hsideLt] at heq
  unfold uEccValidPoint eccPointIsZero
  by_cases hzero : uEccVliIsZero point = true
  · rw [if_pos hzero]
    refine iff_of_false (by decide) ?_
    rintro ⟨-, -, hcurve⟩
    have hsplit := value_append (point.take 8) (point.drop 8)
    rw [List.take_append_drop, (uEccVliIsZero_iff point).mp hzero] at hsplit
    have hx0 : value (point.take 8) = 0 := by omega
    have hy0 : value (point.drop 8) = 0 := by
      rw [hx0, Nat.zero_add] at hsplit
      exact (Nat.mul_eq_zero.mp hsplit.symm).resolve_left (by positivity)
    have hb : ((value curveSecp256r1.b : ℕ) : ZMod p256) = 0 := by
      rw [hx0, hy0] at hcurve
      simpa using hcurve.symm
    have hdvd : p256 ∣ value curveSecp256r1.b := (ZMod.natCast_eq_zero_iff _ _).mp hb
    exact absurd (Nat.le_of_dvd (by decide +kernel) hdvd) (by decide +kernel)
  rw [if_neg hzero]
  by_cases hlarge : uEccVliCmpUnsafe curveSecp256r1.p (point.take 8) 8 ≠ 1 ∨
      uEccVliCmpUnsafe curveSecp256r1.p (point.drop 8) 8 ≠ 1
  · rw [if_pos hlarge]
    refine iff_of_false (by decide) ?_
    rintro ⟨hxlt, hylt, -⟩
    exact hlarge.elim (fun hne => hne (hxp.mpr hxlt)) fun hne => hne (hyp.mpr hylt)
  rw [if_neg hlarge]
  obtain ⟨hxone, hyone⟩ := not_or.mp hlarge
  have hxlt := hxp.mp (not_not.mp hxone)
  have hylt := hyp.mp (not_not.mp hyone)
  by_cases heq : uEccVliEqual (uEccVliModSquareFast (point.drop 8)) (xSideDefault (point.take 8)) = 0
  · rw [if_neg (not_not.mpr heq)]
    exact iff_of_true rfl ⟨hxlt, hylt, hequal.mp heq⟩
  · rw [if_pos heq]
    exact iff_of_false (by decide) fun hcurve => heq (hequal.mpr hcurve.2.2)

def basePoint : List Word :=
  [0xd898c296, 0xf4a13945, 0x2deb33a0, 0x77037d81, 0x63a440f2, 0xf8bce6e5, 0xe12c4247, 0x6b17d1f2,
    0x37bf51f5, 0xcbb64068, 0x6b315ece, 0x2bce3357, 0x7c0f9e16, 0x8ee7eb4a, 0xfe1a7f9b, 0x4fe342e2]

theorem uEccValidPoint_basePoint : (value (basePoint.drop 8) : ZMod p256) ^ 2 =
    value (basePoint.take 8) ^ 3 - 3 * value (basePoint.take 8) + value curveSecp256r1.b :=
  ((@uEccValidPoint_eq_zero basePoint rfl).mp (by decide +kernel)).2.2

end

end RtSmart
