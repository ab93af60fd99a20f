import RtSmart.Lwp.AvlOps

/-!
Any sequence of insertions and removals: the tree is the set of the nodes inserted and not removed.
-/

namespace RtSmart

open Lib

/-- The nodes in the tree, with their keys, are in `live`. -/
structure AvlSys where
  heap : AvlHeap
  live : ℕ → Option ℕ

namespace AvlSys

open AvlHeap

inductive Event
  | insert (n key : ℕ)
  | remove (n : ℕ)
  deriving DecidableEq, Repr

def step (s : AvlSys) : Event → Option AvlSys
  | .insert n key =>
    ((s.heap.setNode n { s.heap.node n with avlKey := key }).lwpAvlInsert n).map fun heap =>
      ⟨heap, Function.update s.live n (some key)⟩
  | .remove n => (s.heap.lwpAvlRemove n).map fun heap => ⟨heap, Function.update s.live n none⟩

def init : AvlSys := ⟨⟨none, fun _ => ⟨none, none, 0, 0⟩⟩, fun _ => none⟩

/-- The tree is not too high, and a node is not inserted twice. -/
def Admits (s : AvlSys) (e : Event) : Prop :=
  s.heap.heightof s.heap.tree < avlMaxheight ∧ ∀ n key, e = .insert n key → s.live n = none

instance (s : AvlSys) : ∀ e, Decidable (s.Admits e)
  | .insert n _ => decidable_of_iff (s.heap.heightof s.heap.tree < avlMaxheight ∧ s.live n = none)
      ⟨fun h => ⟨h.1, by rintro _ _ ⟨⟩; exact h.2⟩, fun h => ⟨h.1, h.2 _ _ rfl⟩⟩
  | .remove _ => decidable_of_iff (s.heap.heightof s.heap.tree < avlMaxheight)
      ⟨fun h => ⟨h, by rintro _ _ ⟨⟩⟩, fun h => h.1⟩

structure Inv (s : AvlSys) (t : AvlTree AvlEntry) : Prop where
  holds : s.heap.Holds t
  ok : t.Ok
  sorted : Sorted t.toList
  live : ∀ n key, ⟨n, key⟩ ∈ t.toList ↔ s.live n = some key
  size : t.toList.length ≤ 2 ^ avlMaxheight

variable {s : AvlSys} {t : AvlTree AvlEntry} {n key : ℕ}

theorem Inv.depth_lt (h : s.Inv t) (hheight : s.heap.heightof s.heap.tree < avlMaxheight) : t.depth < avlMaxheight := by
  rwa [h.holds.1.heightof, h.ok.height_eq] at hheight

theorem Inv.not_live (h : s.Inv t) (hn : s.live n = none) (e : AvlEntry) (he : e ∈ t.toList) : n ≠ e.addr := by
  rintro rfl
  rw [(h.live e.addr e.key).mp he] at hn
  cases hn

theorem Inv.insert (h : s.Inv t) (hheight : s.heap.heightof s.heap.tree < avlMaxheight) (hn : s.live n = none) :
    ∃ s', s.step (.insert n key) = some s' ∧ ∃ t', s'.Inv t' := by
  have hout := h.not_live hn
  have hdepth := h.depth_lt hheight
  -- the key of a node outside the tree can be written
  have hholds : (s.heap.setNode n { s.heap.node n with avlKey := key }).Holds t := by
    refine ⟨h.holds.1.congr ?_, h.holds.2⟩
    intro e he
    exact setNode_of_ne _ _ (hout e he).symm
  have hkey : ((s.heap.setNode n { s.heap.node n with avlKey := key }).node n).avlKey = key := by
    simp [setNode]
  obtain ⟨heap, t', hins, hholds', hok, hsorted, hperm⟩ := lwpAvlInsert_spec hholds h.ok h.sorted hdepth hout
  rw [hkey] at hperm
  refine ⟨⟨heap, Function.update s.live n (some key)⟩, ?_, t', hholds', hok, hsorted, ?_, ?_⟩
  · rw [step, hins]
    rfl
  · intro m k
    rw [hperm.mem_iff, List.mem_cons, AvlEntry.mk.injEq]
    by_cases hm : m = n
    · subst hm
      have hno : ⟨m, k⟩ ∉ t.toList := fun hmem => hout _ hmem rfl
      simp [hno, eq_comm]
    · simp only [hm, false_and, false_or, Function.update_of_ne hm]
      exact h.live m k
  · rw [hperm.length_eq, List.length_cons]
    have := size_lt_pow t
    have := Nat.pow_le_pow_right (show 0 < 2 by decide) hdepth.le
    omega

theorem Inv.remove (h : s.Inv t) (hheight : s.heap.heightof s.heap.tree < avlMaxheight) :
    ∃ s', s.step (.remove n) = some s' ∧ ∃ t', s'.Inv t' := by
  have hdepth := h.depth_lt hheight
  cases hlive : s.live n with
  | none =>
    have hout := h.not_live hlive
    have hrem := lwpAvlRemove_absent h.holds hdepth fun e he => (hout e he).symm
    refine ⟨⟨s.heap, Function.update s.live n none⟩, ?_, t, h.holds, h.ok, h.sorted, ?_, h.size⟩
    · rw [step, hrem]
      rfl
    · have hsame : Function.update s.live n none = s.live := by
        rw [← hlive]
        exact Function.update_eq_self n s.live
      rw [hsame]
      exact h.live
  | some key =>
    have hmem := (h.live n key).mpr hlive
    obtain ⟨heap, t', hrem, hholds, hok, x, y, hold, hnew⟩ := lwpAvlRemove_spec h.holds h.ok h.sorted hdepth hmem
    have hsub : t'.toList.Sublist t.toList := by
      rw [hold, hnew]
      simp
    refine ⟨⟨heap, Function.update s.live n none⟩, ?_, t', hholds, hok, h.sorted.sublist hsub, ?_, ?_⟩
    · rw [step, hrem]
      rfl
    · intro m k
      have hnd := h.holds.2
      rw [hold, addrs, List.map_append, List.map_cons, List.nodup_append, List.nodup_cons] at hnd
      by_cases hm : m = n
      · subst hm
        rw [hnew]
        simp only [Function.update_self, reduceCtorEq, iff_false]
        intro hmem'
        rcases List.mem_append.mp hmem' with hx | hy
        · exact hnd.2.2 _ (List.mem_map_of_mem hx) _ List.mem_cons_self rfl
        · exact hnd.2.1.1 (List.mem_map.mpr ⟨_, hy, rfl⟩)
      · dsimp only
        rw [Function.update_of_ne hm, ← h.live, hold, hnew]
        simp [hm]
    · exact hsub.length_le.trans h.size

theorem inv_init : init.Inv .nil := by
  constructor
  · exact ⟨rfl, List.nodup_nil⟩
  · trivial
  · exact List.Pairwise.nil
  · intro n key
    simp [init]
  · simp

theorem avl_map_correct (es : List Event) (hm : Meets step Admits init es) :
    ∃ s, run step init es = some s ∧ ∃ t, s.heap.Holds t ∧ t.Exact ∧ Sorted t.toList ∧
      (∀ n key, ⟨n, key⟩ ∈ t.toList ↔ s.live n = some key) ∧
      ∀ key, ∃ res, s.heap.lwpAvlFind key s.heap.tree = some res ∧ (∀ n, res = some n → s.live n = some key) ∧
        (res = none → ∀ n, s.live n ≠ some key) := by
  have hstep : ∀ s e, (∃ t, Inv s t) → Admits s e → ∃ s', step s e = some s' ∧ ∃ t, Inv s' t := by
    rintro s e ⟨t, h⟩ ⟨hheight, hnew⟩
    cases e with
    | insert n key => exact h.insert hheight (hnew n key rfl)
    | remove n => exact h.remove hheight
  obtain ⟨s, hs, t, h⟩ := run_total_of_meets (fun s => ∃ t, Inv s t) hstep hm ⟨.nil, inv_init⟩
  refine ⟨s, hs, t, h.holds, h.ok.exact, h.sorted, h.live, ?_⟩
  intro key
  have hfuel : t.depth < loopBound := by
    have := t.depth_le_length
    have := h.size
    unfold avlMaxheight at this
    unfold loopBound
    omega
  obtain ⟨res, hres, hsome, hnone⟩ := findLoop_spec key loopBound h.holds.1 h.sorted hfuel
  refine ⟨res, hres, ?_, ?_⟩
  · intro n hn
    exact (h.live n key).mp (hsome n hn)
  · intro hr n hn
    exact hnone hr _ ((h.live n key).mpr hn) rfl

theorem avl_map_correct_example :
    Meets step Admits init [.insert 1 5, .insert 2 5, .insert 3 7, .insert 4 6, .remove 2, .remove 1] ∧
      ∃ s, run step init [.insert 1 5, .insert 2 5, .insert 3 7, .insert 4 6, .remove 2, .remove 1] = some s ∧
        ∃ t, s.heap.Holds t ∧ t.Exact := by
  have hm : Meets step Admits init [.insert 1 5, .insert 2 5, .insert 3 7, .insert 4 6, .remove 2, .remove 1] := by
    decide +kernel
  obtain ⟨s, hs, t, ht, hexact, -⟩ := avl_map_correct _ hm
  exact ⟨hm, s, hs, t, ht, hexact⟩

end AvlSys

end RtSmart
