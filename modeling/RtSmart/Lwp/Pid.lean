import RtSmart.Lib.Chain
import RtSmart.Lwp.AvlFootprint
import RtSmart.Lwp.AvlOps

/-!
The tables of process ids (lwp_pid.c) and of thread ids (lwp_tid.c): an array of tree nodes, a list of those
given back, and a search for an unused id that starts after the last one given.
-/

namespace RtSmart

open Lib

/-- `RT_LWP_MAX_NR` and `PID_MAX`, or `LWP_TID_MAX_NR` and `TID_MAX`, with the compile-time assertions. -/
structure IdConfig where
  nr : ℕ
  max : ℕ
  min_nr : 1 < nr
  max_nr : nr < max
  max_le : max ≤ 10000

structure IdTable where
  heap : AvlHeap
  data : ℕ → Option ℕ
  freeHead : Option ℕ
  aryAlloced : ℕ
  current : ℕ

namespace IdTable

open AvlHeap

def init : IdTable := ⟨⟨none, fun _ => ⟨none, none, 0, 0⟩⟩, fun _ => none, none, 0, 0⟩

def takeSlot (s : IdTable) (nr : ℕ) : IdTable × Option ℕ :=
  match s.freeHead with
  | some p => ({ s with freeHead := (s.heap.node p).avlRight }, some p)
  | none =>
    if s.aryAlloced < nr then ({ s with aryAlloced := s.aryAlloced + 1 }, some s.aryAlloced) else (s, none)

/-- A search loop with so many turns left: the id it stops at, and `found_noused`. -/
def searchUnused (s : IdTable) : ℕ → ℕ → Option (ℕ × Bool)
  | 0, id => some (id, false)
  | n + 1, id =>
    match s.heap.lwpAvlFind id s.heap.tree with
    | none => none
    | some none => some (id, true)
    | some (some _) => searchUnused s n (id + 1)

def findUnused (s : IdTable) (max : ℕ) : Option ℕ :=
  match s.searchUnused (max - (s.current + 1)) (s.current + 1) with
  | none => none
  | some (id, true) => some id
  | some (_, false) => (s.searchUnused s.current 1).map Prod.fst

/-- `lwp_pid_get` and `lwp_tid_get`. -/
def idGet (cfg : IdConfig) (s : IdTable) : Option (IdTable × ℕ) :=
  match s.takeSlot cfg.nr with
  | (s, none) => some (s, 0)
  | (s, some p) =>
    if s.data p = none then
      match s.findUnused cfg.max with
      | none => none
      | some id =>
        match (s.heap.setNode p { s.heap.node p with avlKey := id }).lwpAvlInsert p with
        | none => none
        | some heap => some ({ s with heap := heap, current := id }, id)
    else none

/-- `lwp_pid_put` and `lwp_tid_put`. -/
def idPut (s : IdTable) (id : ℕ) : Option IdTable :=
  match s.heap.lwpAvlFind id s.heap.tree with
  | none => none
  | some none => some s
  | some (some p) =>
    match s.heap.lwpAvlRemove p with
    | none => none
    | some heap =>
      some { s with
        heap := heap.assign (.right p) s.freeHead
        data := Function.update s.data p none
        freeHead := some p }

/-- `lwp_pid_set_lwp` and `lwp_tid_set_thread`. -/
def idSet (s : IdTable) (id : ℕ) (data : Option ℕ) : Option IdTable :=
  (s.heap.lwpAvlFind id s.heap.tree).map fun
    | none => s
    | some p => { s with data := Function.update s.data p data }

def pidMax : ℕ := 10000

/-- The process ids of a system with `RT_LWP_MAX_NR` processes at most. -/
def pidConfig (rtLwpMaxNr : ℕ) (hmin : 1 < rtLwpMaxNr) (hmax : rtLwpMaxNr < pidMax) : IdConfig :=
  ⟨rtLwpMaxNr, pidMax, hmin, hmax, le_rfl⟩

end IdTable

end RtSmart
