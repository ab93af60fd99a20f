import Mathlib.Tactic

/-!
Queues into which urgent elements are pushed at the front, with the history of what went in and
what came out.
-/

namespace RtSmart.Lib

structure Deque (α : Type*) where
  contents : List α
  accepted : List α
  received : List α

namespace Deque

variable {α : Type*} {urgent : α → Bool}

def order (q : Deque α) : List α := q.received ++ q.contents

inductive Step (urgent : α → Bool) (q : Deque α) : Deque α → Prop
  | idle : Step urgent q q
  | enqueue (v : α) (h : urgent v = false) : Step urgent q ⟨q.contents ++ [v], q.accepted ++ [v], q.received⟩
  | push (v : α) (h : urgent v = true) : Step urgent q ⟨v :: q.contents, q.accepted ++ [v], q.received⟩
  | dequeue (v : α) (l : List α) (h : q.contents = v :: l) : Step urgent q ⟨l, q.accepted, q.received ++ [v]⟩

variable {q q' : Deque α}

theorem Step.order_sublist (hs : Step urgent q q') : q.order.Sublist q'.order := by
  unfold order
  cases hs with
  | idle => exact List.Sublist.refl _
  | enqueue v _ => exact List.Sublist.append_left (List.sublist_append_left _ _) _
  | push v _ => exact List.Sublist.append_left (List.sublist_cons_self _ _) _
  | dequeue v l h => simp [h]

theorem Step.received_grows (hs : Step urgent q q') : q.received <+: q'.received := by
  cases hs with
  | idle => exact List.prefix_rfl
  | enqueue v _ => exact List.prefix_rfl
  | push v _ => exact List.prefix_rfl
  | dequeue v l _ => exact List.prefix_append _ _

theorem Step.perm (hs : Step urgent q q') (h : q.accepted.Perm q.order) : q'.accepted.Perm q'.order := by
  unfold order at *
  cases hs with
  | idle => exact h
  | enqueue v _ => simpa only [← List.append_assoc] using h.append_right [v]
  | push v _ =>
    have h1 : (q.accepted ++ [v]).Perm (v :: (q.received ++ q.contents)) :=
      (List.perm_append_singleton v _).trans (h.cons v)
    exact h1.trans List.perm_middle.symm
  | dequeue v l hl => simpa [hl] using h

theorem Step.filter (hs : Step urgent q q') (h : q.order.filter (!urgent ·) = q.accepted.filter (!urgent ·)) :
    q'.order.filter (!urgent ·) = q'.accepted.filter (!urgent ·) := by
  unfold order at *
  cases hs with
  | idle => exact h
  | enqueue v hv =>
    rw [← List.append_assoc, List.filter_append, h, List.filter_append]
  | push v hv =>
    rw [List.filter_append] at h
    simp [hv, ← h]
  | dequeue v l hl => simpa [hl] using h

theorem Step.pushed (hs : Step urgent q q') {v : α} (hv : urgent v = true) (ha : q'.accepted = q.accepted ++ [v]) :
    ∀ w ∈ q.contents, [v, w].Sublist q'.order := by
  intro w hw
  cases hs with
  | idle => simp at ha
  | enqueue u hu =>
    obtain rfl : u = v := by simpa using ha
    simp [hu] at hv
  | push u _ =>
    obtain rfl : u = v := by simpa using ha
    have hsub : [u, w].Sublist (u :: q.contents) := (List.singleton_sublist.mpr hw).cons_cons u
    exact hsub.trans (List.sublist_append_right _ _)
  | dequeue u l _ => simp at ha

end Deque

end RtSmart.Lib
