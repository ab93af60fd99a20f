import Mathlib.Tactic

/-!
Memory as a function from addresses to bytes: numbers of several bytes, strings that end with a zero, and writes.
-/

namespace RtSmart.Lib

variable {m m' : ℕ → UInt8} {bytes s : List UInt8} {off n v k : ℕ}

/-- A number of `n` bytes, the low one first. -/
def leAt (m : ℕ → UInt8) (off : ℕ) : ℕ → ℕ
  | 0 => 0
  | n + 1 => (m off).toNat + 256 * leAt m (off + 1) n

def leList : ℕ → ℕ → List UInt8
  | 0, _ => []
  | n + 1, v => UInt8.ofNat v :: leList n (v / 256)

/-- The bytes before the first zero, `n` at most. -/
def cstrAt (m : ℕ → UInt8) : ℕ → ℕ → List UInt8
  | 0, _ => []
  | n + 1, off => if m off = 0 then [] else m off :: cstrAt m n (off + 1)

/-- The bytes lie at `off`. -/
def Holds (m : ℕ → UInt8) : ℕ → List UInt8 → Prop
  | _, [] => True
  | off, b :: bytes => m off = b ∧ Holds m (off + 1) bytes

def writeBytes (m : ℕ → UInt8) : ℕ → List UInt8 → ℕ → UInt8
  | _, [] => m
  | off, b :: bytes => writeBytes (Function.update m off b) (off + 1) bytes

theorem leAt_congr (h : ∀ k, off ≤ k → k < off + n → m k = m' k) : leAt m off n = leAt m' off n := by
  induction n generalizing off with
  | zero => rfl
  | succ n ih =>
    rw [leAt, leAt, h off le_rfl (by omega), ih fun k hk hk' => h k (by omega) (by omega)]

theorem leAt_lt (m : ℕ → UInt8) (off n : ℕ) : leAt m off n < 256 ^ n := by
  induction n generalizing off with
  | zero => exact Nat.one_pos
  | succ n ih =>
    have hbyte := (m off).toNat_lt
    have hrest := ih (off + 1)
    rw [leAt, Nat.pow_succ]
    omega

@[simp] theorem length_leList (n v : ℕ) : (leList n v).length = n := by
  induction n generalizing v with
  | zero => rfl
  | succ n ih => rw [leList, List.length_cons, ih]

theorem leAt_of_holds (h : Holds m off (leList n v)) : leAt m off n = v % 256 ^ n := by
  induction n generalizing off v with
  | zero => exact (Nat.mod_one v).symm
  | succ n ih =>
    obtain ⟨hhead, htail⟩ := h
    have hbyte : (UInt8.ofNat v).toNat = v % 256 := UInt8.toNat_ofNat
    rw [leAt, ih htail, hhead, hbyte, Nat.pow_succ', Nat.mod_mul]

theorem Holds.congr (hm : Holds m off bytes) (h : ∀ k, off ≤ k → k < off + bytes.length → m k = m' k) :
    Holds m' off bytes := by
  induction bytes generalizing off with
  | nil => exact hm
  | cons b bytes ih =>
    rw [List.length_cons] at h
    refine ⟨(h off le_rfl (by omega)).symm.trans hm.1, ih hm.2 fun k hk hk' => h k (by omega) (by omega)⟩

theorem writeBytes_of_outside (h : k < off ∨ off + bytes.length ≤ k) : writeBytes m off bytes k = m k := by
  induction bytes generalizing m off with
  | nil => rfl
  | cons b bytes ih =>
    rw [List.length_cons] at h
    rw [writeBytes, ih (by omega)]
    exact Function.update_of_ne (by omega) _ _

theorem holds_writeBytes (m : ℕ → UInt8) (off : ℕ) (bytes : List UInt8) : Holds (writeBytes m off bytes) off bytes := by
  induction bytes generalizing m off with
  | nil => trivial
  | cons b bytes ih =>
    refine ⟨?_, ih _ _⟩
    rw [writeBytes, writeBytes_of_outside (.inl (Nat.lt_succ_self off))]
    exact Function.update_self _ _ _

theorem cstrAt_of_holds (hs : 0 ∉ s) (hn : s.length < n) (h : Holds m off (s ++ [0])) : cstrAt m n off = s := by
  induction s generalizing off n with
  | nil =>
    obtain ⟨n, rfl⟩ : ∃ k, n = k + 1 := ⟨n - 1, by rw [List.length_nil] at hn; omega⟩
    exact if_pos h.1
  | cons b s ih =>
    rw [List.length_cons] at hn
    obtain ⟨n, rfl⟩ : ∃ k, n = k + 1 := ⟨n - 1, by omega⟩
    have hb : m off = b := h.1
    have hne : b ≠ 0 := fun hzero => hs (hzero ▸ List.mem_cons_self)
    rw [cstrAt, hb, if_neg hne, ih (fun hmem => hs (List.mem_cons_of_mem b hmem)) (by omega) h.2]

end RtSmart.Lib
