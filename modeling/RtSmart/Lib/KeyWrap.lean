import Mathlib.Data.List.Basic
import Mathlib.Tactic

/-!
Key wrapping with a permutation of pairs of words. A pass goes over the words and carries the accumulator
along; `mix` puts the number of the step into it.
-/

namespace RtSmart.Lib.KeyWrap

variable {W : Type*}

def wrapPass (enc : W × W → W × W) (mix : ℕ → W → W) : ℕ → W → List W → W × List W
  | _, a, [] => (a, [])
  | t, a, r :: rs =>
    let b := enc (a, r)
    let p := wrapPass enc mix (t + 1) (mix t b.1) rs
    (p.1, b.2 :: p.2)

def unwrapPass (dec : W × W → W × W) (mix : ℕ → W → W) : ℕ → W → List W → W × List W
  | _, a, [] => (a, [])
  | t, a, r :: rs =>
    let p := unwrapPass dec mix (t + 1) a rs
    let b := dec (mix t p.1, r)
    (b.1, b.2 :: p.2)

/-- The passes `0`, …, `n - 1`; pass `i` begins with step `count * i + 1`. -/
def wrap (enc : W × W → W × W) (mix : ℕ → W → W) (count : ℕ) : ℕ → W → List W → W × List W
  | 0, a, rs => (a, rs)
  | n + 1, a, rs =>
    let p := wrap enc mix count n a rs
    wrapPass enc mix (count * n + 1) p.1 p.2

/-- The passes `n - 1`, …, `0`. -/
def unwrap (dec : W × W → W × W) (mix : ℕ → W → W) (count : ℕ) : ℕ → W → List W → W × List W
  | 0, a, rs => (a, rs)
  | n + 1, a, rs =>
    let p := unwrapPass dec mix (count * n + 1) a rs
    unwrap dec mix count n p.1 p.2

variable {enc dec : W × W → W × W} {mix : ℕ → W → W} {count n t : ℕ} {a : W} {rs : List W}

theorem wrapPass_length : (wrapPass enc mix t a rs).2.length = rs.length := by
  induction rs generalizing t a with
  | nil => rfl
  | cons r rs ih =>
    change (wrapPass enc mix (t + 1) _ rs).2.length + 1 = rs.length + 1
    rw [ih]

theorem wrap_length : (wrap enc mix count n a rs).2.length = rs.length := by
  induction n with
  | zero => rfl
  | succ n ih =>
    rw [wrap, wrapPass_length]
    exact ih

theorem unwrapPass_wrapPass (hdec : ∀ b, dec (enc b) = b) (hmix : ∀ t a, mix t (mix t a) = a) :
    unwrapPass dec mix t (wrapPass enc mix t a rs).1 (wrapPass enc mix t a rs).2 = (a, rs) := by
  induction rs generalizing t a with
  | nil => rfl
  | cons r rs ih =>
    rw [wrapPass, unwrapPass]
    simp only [ih, hmix, Prod.mk.eta, hdec]

theorem unwrap_wrap (hdec : ∀ b, dec (enc b) = b) (hmix : ∀ t a, mix t (mix t a) = a) :
    unwrap dec mix count n (wrap enc mix count n a rs).1 (wrap enc mix count n a rs).2 = (a, rs) := by
  induction n with
  | zero => rfl
  | succ n ih =>
    rw [wrap, unwrap]
    simp only [unwrapPass_wrapPass hdec hmix]
    exact ih

end RtSmart.Lib.KeyWrap
