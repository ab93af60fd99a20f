import RtSmart.Lib.Digest
import RtSmart.Lib.Limbs

/-! The multiple precision arithmetic of the bundled elliptic curve code (`ecc.c`), on words of 32 bits. -/

namespace RtSmart

open Lib Lib.Limbs
open Lib.Digest (Word)

def uEccVliIsZero (vli : List Word) : Bool := vli.foldl (· ||| ·) 0 == 0

/-- The loop of `uECC_vli_cmp_unsafe`, from the word below `i` down. -/
def cmpLoop (left right : List Word) : ℕ → ℤ
  | 0 => 0
  | i + 1 =>
    if left.getD i 0 > right.getD i 0 then 1
    else if left.getD i 0 < right.getD i 0 then -1
    else cmpLoop left right i

def uEccVliCmpUnsafe (left right : List Word) (numWords : ℕ) : ℤ := cmpLoop left right numWords

def uEccVliEqual (left right : List Word) : Word :=
  let diff := (List.zipWith (· ^^^ ·) left right).foldr (fun x diff => diff ||| x) 0
  if diff = 0 then 0 else 1

def condSet (pTrue pFalse : Word) (cond : Bool) : Word :=
  pTrue * (if cond then 1 else 0) ||| pFalse * (if cond then 0 else 1)

def subLoop : Word → List Word → List Word → List Word × Word
  | borrow, l :: left, r :: right =>
    let diff := l - r - borrow
    let val : Word := if diff > l then 1 else 0
    let rest := subLoop (condSet val borrow (diff != l)) left right
    (diff :: rest.1, rest.2)
  | borrow, _, _ => ([], borrow)

def uEccVliSub (left right : List Word) : List Word × Word := subLoop 0 left right

def addLoop : Word → List Word → List Word → List Word × Word
  | carry, l :: left, r :: right =>
    let sum := l + r + carry
    let val : Word := if sum < l then 1 else 0
    let rest := addLoop (condSet val carry (sum != l)) left right
    (sum :: rest.1, rest.2)
  | carry, _, _ => ([], carry)

def uEccVliAdd (left right : List Word) : List Word × Word := addLoop 0 left right

/-- `r0`, `r1` and `r2`. -/
structure MulAcc where
  r0 : Word
  r1 : Word
  r2 : Word

def muladd (a b : Word) (r : MulAcc) : MulAcc :=
  let p : BitVec 64 := a.setWidth 64 * b.setWidth 64
  let r01 := (r.r1.setWidth 64 <<< 32 ||| r.r0.setWidth 64) + p
  ⟨r01.setWidth 32, (r01 >>> 32).setWidth 32, r.r2 + if r01 < p then 1 else 0⟩

/-- The digit `k` of a product, whose factors are the words from `first` up to `last`. -/
def multDigit (left right : List Word) (first last k : ℕ) (s : List Word × MulAcc) : List Word × MulAcc :=
  let r := (List.range' first (last - first)).foldl (fun r i => muladd (left.getD i 0) (right.getD (k - i) 0) r) s.2
  (s.1 ++ [r.r0], ⟨r.r1, r.r2, 0⟩)

def uEccVliMult (left right : List Word) (numWords : ℕ) : List Word :=
  let s := (List.range numWords).foldl (fun s k => multDigit left right 0 (k + 1) k s) ([], ⟨0, 0, 0⟩)
  let s := (List.range' numWords (numWords - 1)).foldl
    (fun s k => multDigit left right (k + 1 - numWords) numWords k s) s
  s.1 ++ [s.2.r0]

def uEccVliModAdd (left right mod : List Word) (numWords : ℕ) : List Word :=
  let sum := uEccVliAdd left right
  if sum.2 ≠ 0 ∨ uEccVliCmpUnsafe mod sum.1 numWords ≠ 1 then (uEccVliSub sum.1 mod).1 else sum.1

def uEccVliModSub (left right mod : List Word) : List Word :=
  let diff := uEccVliSub left right
  if diff.2 ≠ 0 then (uEccVliAdd diff.1 mod).1 else diff.1

section

variable {n : ℕ} {left right mod : List Word}

theorem condSet_eq (pTrue pFalse : Word) (cond : Bool) : condSet pTrue pFalse cond = if cond then pTrue else pFalse := by
  cases cond <;> simp [condSet]

theorem uEccVliIsZero_iff (vli : List Word) : uEccVliIsZero vli ↔ value vli = 0 := by
  have hfold : ∀ bits : Word, vli.foldl (· ||| ·) bits = 0#32 ↔ bits = 0#32 ∧ value vli = 0 := by
    induction vli with
    | nil => simp [value]
    | cons x l ih =>
      intro bits
      rw [List.foldl_cons, ih, value_cons, BitVec.or_eq_zero_iff, and_assoc]
      simp [← BitVec.toNat_inj]
  rw [uEccVliIsZero, beq_iff_eq]
  exact (hfold 0).trans (and_iff_right rfl)

/-! Sums and differences. -/

theorem addLoop_eq {carry : Word} (hc : carry.toNat ≤ 1) (hlen : left.length = right.length) :
    value (addLoop carry left right).1 + (2 ^ 32) ^ left.length * (addLoop carry left right).2.toNat =
        value left + value right + carry.toNat ∧
      (addLoop carry left right).2.toNat ≤ 1 ∧ (addLoop carry left right).1.length = left.length := by
  induction left generalizing carry right with
  | nil =>
    obtain rfl := List.eq_nil_of_length_eq_zero hlen.symm
    exact ⟨by simp [addLoop, value], hc, rfl⟩
  | cons l left ih =>
    cases right with
    | nil => cases hlen
    | cons r right =>
      have hstep : ∃ c, condSet (if l + r + carry < l then 1 else 0) carry (l + r + carry != l) = c ∧ c.toNat ≤ 1 ∧
          (l + r + carry).toNat + 2 ^ 32 * c.toNat = l.toNat + r.toNat + carry.toNat := by
        refine ⟨_, rfl, ?_⟩
        have hl := l.isLt
        have hr := r.isLt
        rw [condSet_eq]
        simp only [bne_iff_ne, ne_eq, ← BitVec.toNat_inj, BitVec.lt_def, BitVec.toNat_add]
        split_ifs <;> simp <;> omega
      obtain ⟨c, hcond, hc1, hsum⟩ := hstep
      obtain ⟨hval, hle, hlength⟩ := ih hc1 (Nat.succ_injective hlen)
      rw [addLoop, hcond]
      refine ⟨?_, hle, congrArg Nat.succ hlength⟩
      simp only [value_cons, List.length_cons, pow_succ]
      linear_combination 2 ^ 32 * hval + hsum

theorem subLoop_eq {borrow : Word} (hb : borrow.toNat ≤ 1) (hlen : left.length = right.length) :
    value (subLoop borrow left right).1 + value right + borrow.toNat =
        value left + (2 ^ 32) ^ left.length * (subLoop borrow left right).2.toNat ∧
      (subLoop borrow left right).2.toNat ≤ 1 ∧ (subLoop borrow left right).1.length = left.length := by
  induction left generalizing borrow right with
  | nil =>
    obtain rfl := List.eq_nil_of_length_eq_zero hlen.symm
    exact ⟨by simp [subLoop, value], hb, rfl⟩
  | cons l left ih =>
    cases right with
    | nil => cases hlen
    | cons r right =>
      have hstep : ∃ b, condSet (if l - r - borrow > l then 1 else 0) borrow (l - r - borrow != l) = b ∧ b.toNat ≤ 1 ∧
          (l - r - borrow).toNat + r.toNat + borrow.toNat = l.toNat + 2 ^ 32 * b.toNat := by
        refine ⟨_, rfl, ?_⟩
        have hl := l.isLt
        have hr := r.isLt
        rw [condSet_eq]
        simp only [bne_iff_ne, ne_eq, ← BitVec.toNat_inj, gt_iff_lt, BitVec.lt_def, BitVec.toNat_sub]
        split_ifs <;> simp <;> omega
      obtain ⟨b, hcond, hb1, hdiff⟩ := hstep
      obtain ⟨hval, hle, hlength⟩ := ih hb1 (Nat.succ_injective hlen)
      rw [subLoop, hcond]
      refine ⟨?_, hle, congrArg Nat.succ hlength⟩
      simp only [value_cons, List.length_cons, pow_succ]
      linear_combination 2 ^ 32 * hval + hdiff

theorem uEccVliAdd_eq (hlen : left.length = right.length) :
    value (uEccVliAdd left right).1 + (2 ^ 32) ^ left.length * (uEccVliAdd left right).2.toNat = value left + value right ∧
      (uEccVliAdd left right).2.toNat ≤ 1 ∧ (uEccVliAdd left right).1.length = left.length :=
  addLoop_eq (show (0 : Word).toNat ≤ 1 by decide) hlen

theorem uEccVliSub_eq (hlen : left.length = right.length) :
    value (uEccVliSub left right).1 + value right = value left + (2 ^ 32) ^ left.length * (uEccVliSub left right).2.toNat ∧
      (uEccVliSub left right).2.toNat ≤ 1 ∧ (uEccVliSub left right).1.length = left.length :=
  subLoop_eq (show (0 : Word).toNat ≤ 1 by decide) hlen

/-! Comparison. -/

theorem cmpLoop_eq {i : ℕ} (hl : i ≤ left.length) (hr : i ≤ right.length) :
    cmpLoop left right i =
      if value (right.take i) < value (left.take i) then 1
      else if value (left.take i) < value (right.take i) then -1 else 0 := by
  induction i with
  | zero => rfl
  | succ i ih =>
    have hll := value_lt (left.take i)
    have hlr := value_lt (right.take i)
    rw [List.length_take, min_eq_left (by omega)] at hll hlr
    rw [cmpLoop, ih (by omega) (by omega), value_take_succ hl, value_take_succ hr]
    generalize left.getD i 0 = x
    generalize right.getD i 0 = y
    have hmul : ∀ a b : ℕ, a < b → (2 ^ 32) ^ i * a + (2 ^ 32) ^ i ≤ (2 ^ 32) ^ i * b := by
      intro a b hab
      rw [← Nat.mul_succ]
      exact Nat.mul_le_mul_left _ hab
    rcases lt_trichotomy y.toNat x.toNat with h | h | h
    · have hle := hmul _ _ h
      rw [if_pos (BitVec.lt_def.mpr h), if_pos (by omega)]
    · have hx : ¬x > y := fun hgt => absurd (BitVec.lt_def.mp hgt) (by omega)
      have hy : ¬x < y := fun hlt => absurd (BitVec.lt_def.mp hlt) (by omega)
      rw [if_neg hx, if_neg hy, h]
      simp only [Nat.add_lt_add_iff_right]
    · have hle := hmul _ _ h
      have hx : ¬x > y := fun hgt => absurd (BitVec.lt_def.mp hgt) (by omega)
      rw [if_neg hx, if_pos (BitVec.lt_def.mpr h), if_neg (by omega), if_pos (by omega)]

theorem uEccVliCmpUnsafe_eq (hl : left.length = n) (hr : right.length = n) :
    uEccVliCmpUnsafe left right n =
      if value right < value left then 1 else if value left < value right then -1 else 0 := by
  rw [uEccVliCmpUnsafe, cmpLoop_eq hl.ge hr.ge, List.take_of_length_le hl.le, List.take_of_length_le hr.le]

theorem uEccVliCmpUnsafe_eq_one (hl : left.length = n) (hr : right.length = n) :
    uEccVliCmpUnsafe left right n = 1 ↔ value right < value left := by
  rw [uEccVliCmpUnsafe_eq hl hr]
  split_ifs <;> simp_all

theorem uEccVliEqual_eq_zero (hlen : left.length = right.length) : uEccVliEqual left right = 0 ↔ left = right := by
  have hfold : (List.zipWith (· ^^^ ·) left right).foldr (fun x diff => diff ||| x) 0#32 = 0#32 ↔ left = right := by
    induction left generalizing right with
    | nil =>
      obtain rfl := List.eq_nil_of_length_eq_zero hlen.symm
      simp
    | cons l left ih =>
      cases right with
      | nil => cases hlen
      | cons r right =>
        rw [List.zipWith_cons_cons, List.foldr_cons, BitVec.or_eq_zero_iff, ih (Nat.succ_injective hlen), List.cons.injEq,
          BitVec.xor_eq_zero_iff, and_comm]
  rw [uEccVliEqual]
  split_ifs with h
  · exact iff_of_true rfl (hfold.mp h)
  · exact iff_of_false (by decide) fun heq => h (hfold.mpr heq)

/-! Products. -/

/-- The number that the accumulator holds. -/
def MulAcc.value (r : MulAcc) : ℕ := r.r0.toNat + 2 ^ 32 * (r.r1.toNat + 2 ^ 32 * r.r2.toNat)

theorem toNat_product (a b : Word) : (a.setWidth 64 * b.setWidth 64).toNat = a.toNat * b.toNat := by
  have ha := a.isLt
  have hb := b.isLt
  have hlt : a.toNat * b.toNat < 2 ^ 32 * 2 ^ 32 := Nat.mul_lt_mul'' ha hb
  rw [BitVec.toNat_mul, BitVec.toNat_setWidth, BitVec.toNat_setWidth, Nat.mod_eq_of_lt (by omega : a.toNat < 2 ^ 64),
    Nat.mod_eq_of_lt (by omega : b.toNat < 2 ^ 64), Nat.mod_eq_of_lt (by omega)]

theorem toNat_pair (x y : Word) : (x.setWidth 64 <<< 32 ||| y.setWidth 64).toNat = x.toNat * 2 ^ 32 + y.toNat := by
  have hx := x.isLt
  have hy := y.isLt
  have hshift : (x.setWidth 64 <<< 32).toNat = x.toNat <<< 32 := by
    rw [BitVec.toNat_shiftLeft, BitVec.toNat_setWidth, Nat.mod_eq_of_lt (by omega : x.toNat < 2 ^ 64), Nat.shiftLeft_eq,
      Nat.mod_eq_of_lt (by omega)]
  rw [BitVec.toNat_or, hshift, BitVec.toNat_setWidth, Nat.mod_eq_of_lt (by omega : y.toNat < 2 ^ 64),
    ← Nat.shiftLeft_add_eq_or_of_lt hy, Nat.shiftLeft_eq]

theorem accumulate {p r0 r1 r2 : ℕ} (h0 : r0 < 2 ^ 32) (h1 : r1 < 2 ^ 32) (hp : p < 2 ^ 64)
    (h : r0 + 2 ^ 32 * (r1 + 2 ^ 32 * r2) + p < 2 ^ 96) :
    (r1 * 2 ^ 32 + r0 + p) % 2 ^ 64 % 2 ^ 32 + 2 ^ 32 * ((r1 * 2 ^ 32 + r0 + p) % 2 ^ 64 / 2 ^ 32 % 2 ^ 32 +
        2 ^ 32 * ((r2 + if (r1 * 2 ^ 32 + r0 + p) % 2 ^ 64 < p then 1 else 0) % 2 ^ 32)) =
      r0 + 2 ^ 32 * (r1 + 2 ^ 32 * r2) + p := by
  split_ifs <;> omega

theorem muladd_value (a b : Word) (r : MulAcc) (h : r.value + a.toNat * b.toNat < 2 ^ 96) :
    (muladd a b r).value = r.value + a.toNat * b.toNat := by
  have hlt : a.toNat * b.toNat < 2 ^ 64 := by
    rw [← toNat_product]
    exact BitVec.isLt _
  unfold MulAcc.value at h
  have hcarry : ∀ x y : BitVec 64, (if x < y then (1 : Word) else 0).toNat = if x.toNat < y.toNat then 1 else 0 := by
    intro x y
    by_cases hxy : x < y
    · rw [if_pos hxy, if_pos (BitVec.lt_def.mp hxy)]
      rfl
    · rw [if_neg hxy, if_neg fun hlt => hxy (BitVec.lt_def.mpr hlt)]
      rfl
  rw [MulAcc.value, MulAcc.value, ← accumulate r.r0.isLt r.r1.isLt hlt h]
  simp only [muladd, BitVec.toNat_add, BitVec.toNat_setWidth, BitVec.toNat_ushiftRight, toNat_pair, toNat_product,
    Nat.shiftRight_eq_div_pow, hcarry]

theorem foldl_muladd {f : ℕ → Word} {g : ℕ → Word} (is : List ℕ) (r : MulAcc)
    (h : r.value + (is.map fun i => (f i).toNat * (g i).toNat).sum < 2 ^ 96) :
    (is.foldl (fun r i => muladd (f i) (g i) r) r).value = r.value + (is.map fun i => (f i).toNat * (g i).toNat).sum := by
  induction is generalizing r with
  | nil => rfl
  | cons i is ih =>
    rw [List.map_cons, List.sum_cons] at h ⊢
    have hstep := muladd_value (f i) (g i) r (by omega)
    rw [List.foldl_cons, ih _ (by rw [hstep]; omega), hstep, Nat.add_assoc]

/-- What is known of the digits below `k`. -/
structure Digits (left right : List Word) (k : ℕ) (s : List Word × MulAcc) : Prop where
  length : s.1.length = k
  value : value s.1 + (2 ^ 32) ^ k * s.2.value = ∑ j ∈ Finset.range k, (2 ^ 32) ^ j * column left right j
  small : s.2.value < 2 ^ 64

theorem Digits.step {s : List Word × MulAcc} {k : ℕ} (h : Digits left right k s) (hl : left.length = 8)
    (hr : right.length = 8) :
    Digits left right (k + 1) (multDigit left right (k + 1 - 8) (min 8 (k + 1)) k s) := by
  have hcolumn := column_eq_Ico hl.le hr.le k
  have hle := column_le hl.le hr.le k
  have hsum : ((List.range' (k + 1 - 8) (min 8 (k + 1) - (k + 1 - 8))).map
      fun i => (left.getD i 0).toNat * (right.getD (k - i) 0).toNat).sum = column left right k := by
    rw [hcolumn]
    rfl
  have hsmall := h.small
  have hfold := @foldl_muladd (fun i => left.getD i 0) (fun i => right.getD (k - i) 0)
    (List.range' (k + 1 - 8) (min 8 (k + 1) - (k + 1 - 8))) s.2 (by
      rw [hsum]
      omega)
  rw [hsum] at hfold
  unfold multDigit
  generalize List.foldl _ s.2 _ = r at hfold ⊢
  have hacc : r.value = r.r0.toNat + 2 ^ 32 * (r.r1.toNat + 2 ^ 32 * r.r2.toNat) := rfl
  have h0 := r.r0.isLt
  have h1 := r.r1.isLt
  refine ⟨?_, ?_, ?_⟩
  · simp [h.length]
  · have hv := h.value
    rw [Finset.sum_range_succ, ← hv, value_append, h.length]
    have hnew : MulAcc.value ⟨r.r1, r.r2, 0⟩ = r.r1.toNat + 2 ^ 32 * r.r2.toNat := by
      simp [MulAcc.value]
    simp only [Limbs.value]
    rw [hnew, pow_succ]
    linear_combination (2 ^ 32) ^ k * (hfold - hacc)
  · have h2 := r.r2.isLt
    simp only [MulAcc.value]
    simp
    omega

theorem digits_low (hl : left.length = 8) (hr : right.length = 8) (hn : n ≤ 8) :
    Digits left right n ((List.range n).foldl (fun s k => multDigit left right 0 (k + 1) k s) ([], ⟨0, 0, 0⟩)) := by
  induction n with
  | zero => exact ⟨rfl, rfl, Nat.two_pow_pos 64⟩
  | succ n ih =>
    have hstep := (ih (by omega)).step hl hr
    rw [Nat.sub_eq_zero_of_le hn, min_eq_right hn] at hstep
    rwa [List.range_succ, List.foldl_append]

theorem digits_high {s : List Word × MulAcc} (h : Digits left right 8 s) (hl : left.length = 8) (hr : right.length = 8)
    (n : ℕ) :
    Digits left right (8 + n) ((List.range' 8 n).foldl (fun s k => multDigit left right (k + 1 - 8) 8 k s) s) := by
  induction n with
  | zero => exact h
  | succ n ih =>
    have hstep := ih.step hl hr
    rw [min_eq_left (by omega)] at hstep
    rwa [List.range'_concat, List.foldl_append, Nat.one_mul]

theorem uEccVliMult_eq (hl : left.length = 8) (hr : right.length = 8) :
    value (uEccVliMult left right 8) = value left * value right ∧ (uEccVliMult left right 8).length = 16 := by
  have h := digits_high (digits_low hl hr le_rfl) hl hr 7
  unfold uEccVliMult
  dsimp only
  generalize List.foldl _ (List.foldl _ _ (List.range 8)) _ = s at h ⊢
  have htop : column left right 15 = 0 := by
    rw [column_eq_Ico hl.le hr.le]
    rfl
  have hmul := value_mul left right (le_of_eq (show left.length + right.length = 16 by omega))
  rw [Finset.sum_range_succ, htop, Nat.mul_zero, Nat.add_zero, ← h.value] at hmul
  have hlt : value left * value right < (2 ^ 32) ^ 16 := by
    have h1 := value_lt left
    have h2 := value_lt right
    rw [hl] at h1
    rw [hr] at h2
    calc
      value left * value right < (2 ^ 32) ^ 8 * (2 ^ 32) ^ 8 := Nat.mul_lt_mul'' h1 h2
      _ = (2 ^ 32) ^ 16 := by norm_num
  have hr0 : s.2.value = s.2.r0.toNat := by
    have hacc : s.2.value = s.2.r0.toNat + 2 ^ 32 * (s.2.r1.toNat + 2 ^ 32 * s.2.r2.toNat) := rfl
    rw [hmul] at hlt
    have hsmall : s.2.value < 2 ^ 32 := by
      by_contra hge
      have hle := Nat.mul_le_mul_left ((2 ^ 32) ^ (8 + 7)) (Nat.le_of_not_lt hge)
      omega
    omega
  refine ⟨?_, ?_⟩
  · rw [value_append, h.length, hmul, hr0]
    simp [Limbs.value]
  · rw [List.length_append, h.length]
    rfl

/-! Arithmetic modulo `mod`. -/

theorem uEccVliModAdd_eq (hl : left.length = n) (hr : right.length = n) (hm : mod.length = n)
    (hlt : value left < value mod) (hrt : value right < value mod) :
    value (uEccVliModAdd left right mod n) = (value left + value right) % value mod ∧
      (uEccVliModAdd left right mod n).length = n := by
  obtain ⟨hsum, hc, hlen⟩ := uEccVliAdd_eq (hl.trans hr.symm)
  have hbound := value_lt (uEccVliAdd left right).1
  have hmod := value_lt mod
  rw [hl] at hsum hlen
  rw [hlen] at hbound
  rw [hm] at hmod
  unfold uEccVliModAdd
  dsimp only
  generalize uEccVliAdd left right = s at *
  by_cases hge : value mod ≤ value left + value right
  · obtain ⟨hdiff, hb, hdlen⟩ := uEccVliSub_eq (hlen.trans hm.symm)
    have hdiffbound := value_lt (uEccVliSub s.1 mod).1
    rw [hlen] at hdiff hdlen
    rw [hdlen] at hdiffbound
    have hcond : s.2 ≠ 0 ∨ uEccVliCmpUnsafe mod s.1 n ≠ 1 := by
      by_contra hno
      push Not at hno
      have hlow := (uEccVliCmpUnsafe_eq_one hm hlen).mp hno.2
      rw [hno.1] at hsum
      simp at hsum
      omega
    rw [if_pos hcond]
    refine ⟨?_, hdlen⟩
    rw [Nat.mod_eq_sub_mod hge, Nat.mod_eq_of_lt (by omega)]
    generalize (uEccVliSub s.1 mod).2.toNat = b at *
    generalize s.2.toNat = c at *
    generalize (2 ^ 32) ^ n = m at *
    obtain rfl | rfl : b = 0 ∨ b = 1 := by omega
    all_goals obtain rfl | rfl : c = 0 ∨ c = 1 := by omega
    all_goals omega
  · have hlow : s.2.toNat = 0 ∧ value s.1 = value left + value right := by
      generalize s.2.toNat = c at *
      generalize (2 ^ 32) ^ n = m at *
      obtain rfl | rfl : c = 0 ∨ c = 1 := by omega
      all_goals omega
    have hcond : ¬(s.2 ≠ 0 ∨ uEccVliCmpUnsafe mod s.1 n ≠ 1) := by
      push Not
      refine ⟨BitVec.eq_of_toNat_eq hlow.1, ?_⟩
      apply (uEccVliCmpUnsafe_eq_one hm hlen).mpr
      omega
    rw [if_neg hcond, hlow.2, Nat.mod_eq_of_lt (Nat.lt_of_not_le hge)]
    exact ⟨rfl, hlen⟩

theorem uEccVliModSub_eq (hl : left.length = n) (hr : right.length = n) (hm : mod.length = n)
    (hlt : value left < value mod) (hrt : value right < value mod) :
    value (uEccVliModSub left right mod) = (value left + (value mod - value right)) % value mod ∧
      (uEccVliModSub left right mod).length = n := by
  obtain ⟨hdiff, hb, hlen⟩ := uEccVliSub_eq (hl.trans hr.symm)
  have hbound := value_lt (uEccVliSub left right).1
  have hmod := value_lt mod
  rw [hl] at hdiff hlen
  rw [hlen] at hbound
  rw [hm] at hmod
  unfold uEccVliModSub
  dsimp only
  generalize uEccVliSub left right = s at *
  by_cases hge : value right ≤ value left
  · have hlow : s.2.toNat = 0 ∧ value s.1 = value left - value right := by
      generalize s.2.toNat = b at *
      generalize (2 ^ 32) ^ n = m at *
      obtain rfl | rfl : b = 0 ∨ b = 1 := by omega
      all_goals omega
    have hzero : s.2 = 0 := BitVec.eq_of_toNat_eq hlow.1
    rw [if_neg (not_not.mpr hzero), hlow.2]
    refine ⟨?_, hlen⟩
    rw [show value left + (value mod - value right) = value left - value right + value mod by omega, Nat.add_mod_right,
      Nat.mod_eq_of_lt (by omega)]
  · obtain ⟨hsum, hc, hslen⟩ := uEccVliAdd_eq (hlen.trans hm.symm)
    have hsumbound := value_lt (uEccVliAdd s.1 mod).1
    rw [hlen] at hsum hslen
    rw [hslen] at hsumbound
    have hcond : s.2 ≠ 0 := by
      intro hzero
      rw [hzero] at hdiff
      simp at hdiff
      omega
    rw [if_pos hcond]
    refine ⟨?_, hslen⟩
    rw [Nat.mod_eq_of_lt (by omega)]
    generalize (uEccVliAdd s.1 mod).2.toNat = c at *
    generalize s.2.toNat = b at *
    generalize (2 ^ 32) ^ n = m at *
    obtain rfl | rfl : b = 0 ∨ b = 1 := by omega
    all_goals obtain rfl | rfl : c = 0 ∨ c = 1 := by omega
    all_goals omega

end

end RtSmart
