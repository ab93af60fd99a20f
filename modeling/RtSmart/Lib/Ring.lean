import Mathlib.Tactic

/-!
Bounded first-in first-out queues: the abstract queue with the history of what went in and what
came out, and its representation by a window of a circular pool.
-/

namespace RtSmart.Lib

variable {α : Type*}

structure Fifo (α : Type*) where
  contents : List α
  accepted : List α
  received : List α

namespace Fifo

inductive Step (capacity : ℕ) (q : Fifo α) : Fifo α → Prop
  | idle : Step capacity q q
  | enqueue (v : α) (h : q.contents.length < capacity) :
    Step capacity q ⟨q.contents ++ [v], q.accepted ++ [v], q.received⟩
  | dequeue (v : α) (l : List α) (h : q.contents = v :: l) : Step capacity q ⟨l, q.accepted, q.received ++ [v]⟩

/-- Everything accepted has been received in order, or is still there in order. -/
def Conserved (q : Fifo α) : Prop := q.accepted = q.received ++ q.contents

theorem Step.conserved {capacity : ℕ} {q q' : Fifo α} (hs : Step capacity q q') (h : q.Conserved) : q'.Conserved := by
  unfold Conserved at *
  cases hs with
  | idle => exact h
  | enqueue v _ => simp [h]
  | dequeue v l hl => simp [h, hl]

theorem Step.mono {n m : ℕ} {q q' : Fifo α} (hs : Step n q q') (h : n ≤ m) : Step m q q' := by
  cases hs with
  | idle => exact .idle
  | enqueue v hv => exact .enqueue v (hv.trans_le h)
  | dequeue v l hl => exact .dequeue v l hl

end Fifo

def window (pool : ℕ → α) (size out count : ℕ) : List α :=
  (List.range count).map fun i => pool ((out + i) % size)

@[simp] theorem length_window (pool : ℕ → α) (size out count : ℕ) : (window pool size out count).length = count := by
  simp [window]

theorem add_mod_ne {size out i j : ℕ} (hij : i < j) (hj : j < size) : (out + i) % size ≠ (out + j) % size := by
  intro h
  have hmod : i ≡ j [MOD size] := Nat.ModEq.add_left_cancel' out h
  exact hij.ne (hmod.eq_of_lt_of_lt (hij.trans hj) hj)

theorem add_mod_low {size out k : ℕ} (h : out % size + k < size) : (out + k) % size = out % size + k := by
  rw [← Nat.mod_add_mod]
  exact Nat.mod_eq_of_lt h

theorem add_mod_high {size out k : ℕ} (h : size ≤ out % size + k) (hk : k < size) :
    (out + k) % size = out % size + k - size := by
  have := Nat.mod_lt out (show 0 < size by omega)
  rw [← Nat.mod_add_mod, Nat.mod_eq_sub_mod h]
  exact Nat.mod_eq_of_lt (by omega)

theorem window_congr {pool pool' : ℕ → α} {size out count : ℕ}
    (h : ∀ i < count, pool' ((out + i) % size) = pool ((out + i) % size)) :
    window pool' size out count = window pool size out count := by
  apply List.map_congr_left
  intro i hi
  exact h i (List.mem_range.mp hi)

theorem window_mod (pool : ℕ → α) (size out count : ℕ) :
    window pool size (out % size) count = window pool size out count := by
  apply List.map_congr_left
  intro i _
  rw [Nat.mod_add_mod]

theorem getElem?_window {pool : ℕ → α} {size out count i : ℕ} (hi : i < count) :
    (window pool size out count)[i]? = some (pool ((out + i) % size)) := by
  simp [window, hi]

theorem window_put (pool : ℕ → α) {size out count : ℕ} (hc : count < size) (v : α) :
    window (Function.update pool ((out + count) % size) v) size out (count + 1) = window pool size out count ++ [v] := by
  simp only [window, List.range_succ, List.map_append, List.map_cons, List.map_nil, Function.update_self]
  congr 1
  apply List.map_congr_left
  intro i hi
  exact Function.update_of_ne (add_mod_ne (List.mem_range.mp hi) hc) _ _

theorem window_get (pool : ℕ → α) (size out count : ℕ) :
    window pool size out (count + 1) = pool (out % size) :: window pool size ((out + 1) % size) count := by
  simp only [window, List.range_succ_eq_map, List.map_cons, List.map_map, add_zero, List.cons.injEq, true_and]
  apply List.map_congr_left
  intro i _
  simp only [Function.comp, Nat.mod_add_mod, Nat.succ_eq_add_one]
  congr 2
  omega

theorem mod_of_lt_two_mul {a size : ℕ} (h : a < 2 * size) : a % size = if a < size then a else a - size := by
  split
  case isTrue hlt => exact Nat.mod_eq_of_lt hlt
  case isFalse hge =>
    rw [Nat.mod_eq_sub_mod (by omega)]
    exact Nat.mod_eq_of_lt (by omega)

theorem window_append (pool : ℕ → α) (size out count n : ℕ) :
    window pool size out (count + n) =
      window pool size out count ++ (List.range n).map fun i => pool ((out + (count + i)) % size) := by
  simp only [window, List.range_add, List.map_append, List.map_map]
  rfl

theorem window_write {pool pool' : ℕ → α} {size out count n : ℕ} {v : ℕ → α}
    (hnew : ∀ i < n, pool' ((out + (count + i)) % size) = v i)
    (hold : ∀ i < count, pool' ((out + i) % size) = pool ((out + i) % size)) :
    window pool' size out (count + n) = window pool size out count ++ (List.range n).map v := by
  rw [window_append]
  congr 1
  · apply List.map_congr_left
    intro i hi
    exact hold i (List.mem_range.mp hi)
  · apply List.map_congr_left
    intro i hi
    exact hnew i (List.mem_range.mp hi)

theorem take_window (pool : ℕ → α) {size out count n : ℕ} (hn : n ≤ count) :
    (window pool size out count).take n = window pool size out n := by
  simp [window, ← List.map_take, List.take_range, Nat.min_eq_left hn]

theorem drop_window (pool : ℕ → α) {size out count n : ℕ} (hn : n ≤ count) :
    (window pool size out count).drop n = window pool size ((out + n) % size) (count - n) := by
  obtain ⟨m, rfl⟩ := Nat.exists_eq_add_of_le hn
  rw [window_append, List.drop_left' (length_window _ _ _ _), Nat.add_sub_cancel_left]
  apply List.map_congr_left
  intro i _
  rw [Nat.mod_add_mod, Nat.add_assoc]

/-- `memcpy` of `n` cells. -/
def memcpy (dst : ℕ → α) (d : ℕ) (src : ℕ → α) (s n : ℕ) : ℕ → α :=
  fun i => if d ≤ i ∧ i < d + n then src (s + (i - d)) else dst i

end RtSmart.Lib
