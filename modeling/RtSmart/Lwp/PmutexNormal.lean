import RtSmart.Ipc.Semaphore

/-!
The semaphore behind a process mutex of type `PMUTEX_NORMAL`. The lookup of the mutex before these
steps and the `pmutex_put` after them do not touch it.
-/

namespace RtSmart

open Lib Kernel

/-- `unlocking` has the unlock calls that found the value 0 and have not called `rt_sem_release`.
The mutex has no owner: an unlock ends the oldest holding, whoever calls it. A thread holds the mutex from the
moment the semaphore is given to it. -/
structure NormalSys where
  sys : SemSys
  unlocking : List (Tid × Oid)
  holders : Oid → List Tid

namespace NormalSys

-- `rt_sem_create("pmutex", 1, RT_IPC_FLAG_PRIO)`
def pmutexSem : Sem := ⟨1, .prio⟩

def init (k : Kernel) : NormalSys where
  sys := SemSys.init k fun _ => pmutexSem
  unlocking := []
  holders _ := []

inductive Event where
  | lock (t : Tid) (o : Oid) (time : ℤ)
  | lockReturns (t : Tid)
  | unlockTest (t : Tid) (o : Oid)
  | unlockRelease (t : Tid) (o : Oid)
  | kernel (e : KernelEvent)

def Free (s : NormalSys) (t : Tid) : Prop :=
  s.sys.k.Runs t ∧ s.sys.waiting t = none ∧ ∀ p ∈ s.unlocking, p.1 ≠ t

instance (s : NormalSys) (t : Tid) : Decidable (s.Free t) := inferInstanceAs (Decidable (_ ∧ _ ∧ _))

def locked (s : NormalSys) (t : Tid) (o : Oid) (ret : Option Err) : Oid → List Tid :=
  if ret = some .eok then Function.update s.holders o (s.holders o ++ [t]) else s.holders

/-- `rt_sem_release` gives the semaphore to the first waiter or raises the value. -/
def released (s : NormalSys) (o : Oid) : Oid → List Tid :=
  if (rtSemRelease s.sys.k (s.sys.sem o) o).2.2 = .eok then
    Function.update s.holders o ((s.holders o).tail ++ (s.sys.k.list (.suspend o)).head?.toList)
  else s.holders

def step (s : NormalSys) : Event → Option NormalSys
  | .lock t o time =>
    if s.Free t then
      (s.sys.step (.take t o time .interruptible)).map fun sys =>
        { s with sys := sys, holders := s.locked t o (rtSemTake s.sys.k (s.sys.sem o) o t time .interruptible).2.2 }
    else none
  | .lockReturns t => (s.sys.step (.ret t)).map fun sys => { s with sys := sys }
  | .unlockTest t o =>
    if s.Free t then
      -- `-EPERM`: the mutex is not locked
      if 1 ≤ (s.sys.sem o).value then some s
      else some { s with unlocking := (t, o) :: s.unlocking }
    else none
  | .unlockRelease t o =>
    if s.sys.k.Runs t ∧ (t, o) ∈ s.unlocking then
      (s.sys.step (.release o)).map fun sys =>
        { s with sys := sys, unlocking := s.unlocking.erase (t, o), holders := s.released o }
    else none
  | .kernel e => (s.sys.step (.kernel e)).map fun sys => { s with sys := sys }

/-- An unlock tests the value only while no other unlock of the mutex stands between its test and its release. -/
def Alone (s : NormalSys) : Event → Prop
  | .unlockTest _ o => ∀ p ∈ s.unlocking, p.2 ≠ o
  | _ => True

instance (s : NormalSys) : ∀ e, Decidable (s.Alone e)
  | .lock _ _ _ => isTrue trivial
  | .lockReturns _ => isTrue trivial
  | .unlockTest _ o => inferInstanceAs (Decidable (∀ p ∈ s.unlocking, p.2 ≠ o))
  | .unlockRelease _ _ => isTrue trivial
  | .kernel _ => isTrue trivial

def inFlight (s : NormalSys) (o : Oid) : ℕ := s.unlocking.countP fun p => p.2 = o

structure Inv (s : NormalSys) : Prop where
  sys : s.sys.Inv fun _ => pmutexSem
  one : ∀ o, (s.sys.sem o).value + s.inFlight o ≤ 1
  held : ∀ o, (s.sys.sem o).value + (s.holders o).length ≤ 1

section steps

variable {s s' : NormalSys} {o : Oid} {t : Tid}

theorem sem_take {sys sys' : SemSys} {time : ℤ} {sf : SuspendFlag}
    (h : sys.step (.take t o time sf) = some sys') :
    sys'.sem = Function.update sys.sem o (rtSemTake sys.k (sys.sem o) o t time sf).2.1 := by
  simp only [SemSys.step, Option.ite_none_right_eq_some, Option.some.injEq] at h
  obtain ⟨-, rfl⟩ := h
  obtain ⟨k, sem, ret⟩ := rtSemTake sys.k (sys.sem o) o t time sf
  cases ret with
  | none => rfl
  | some ret => rfl

theorem sem_ret {sys sys' : SemSys} (h : sys.step (.ret t) = some sys') : sys'.sem = sys.sem := by
  simp only [SemSys.step] at h
  split at h
  · simp at h
  · simp only [Option.ite_none_right_eq_some, Option.some.injEq] at h
    obtain ⟨-, rfl⟩ := h
    rfl

theorem take_value (k : Kernel) (sem : Sem) (time : ℤ) (sf : SuspendFlag) :
    (0 < sem.value ∧ (rtSemTake k sem o t time sf).2.1.value = sem.value - 1 ∧
      (rtSemTake k sem o t time sf).2.2 = some .eok) ∨
    ((rtSemTake k sem o t time sf).2.1.value = sem.value ∧ (rtSemTake k sem o t time sf).2.2 ≠ some .eok) := by
  unfold rtSemTake
  by_cases hv : 0 < sem.value
  · left
    simp only [hv, if_true, and_self]
  · right
    simp only [hv, if_false]
    by_cases ht : time = 0
    · simp [ht]
    · simp only [ht, if_false]
      split
      · simp
      · rename_i k' ret hne hw
        simp only [ne_eq, Option.some.injEq, true_and]
        exact hne

theorem inFlight_pos (h : (t, o) ∈ s.unlocking) : 0 < s.inFlight o :=
  List.countP_pos_iff.mpr ⟨_, h, by simp⟩

theorem Inv.lock (h : s.Inv) {time : ℤ} (hs : s.step (.lock t o time) = some s') : s'.Inv := by
  simp only [step, Option.ite_none_right_eq_some, Option.map_eq_some_iff] at hs
  obtain ⟨-, sys, hsys, rfl⟩ := hs
  have hsem := sem_take hsys
  have hv := take_value (o := o) (t := t) s.sys.k (s.sys.sem o) time .interruptible
  have hone := h.one o
  have hheld := h.held o
  refine ⟨h.sys.step hsys, fun o' => ?_, fun o' => ?_⟩
  · by_cases hoo : o' = o
    · subst hoo
      simp only [hsem, Function.update_self]
      unfold inFlight at hone ⊢
      dsimp only
      omega
    · simp only [hsem, Function.update_of_ne hoo]
      exact h.one o'
  · by_cases hoo : o' = o
    · subst hoo
      simp only [hsem, Function.update_self]
      obtain ⟨h0, h1, h2⟩ | ⟨h1, h2⟩ := hv
      · rw [h2, h1]
        simp only [locked, if_true, Function.update_self, List.length_append, List.length_singleton]
        omega
      · rw [h1, locked, if_neg h2]
        exact hheld
    · have hl : s.locked t o (rtSemTake s.sys.k (s.sys.sem o) o t time .interruptible).2.2 o' = s.holders o' := by
        unfold locked
        split_ifs
        · exact Function.update_of_ne hoo _ _
        · rfl
      simp only [hsem, Function.update_of_ne hoo, hl]
      exact h.held o'

theorem Inv.frame (h : s.Inv) {sys : SemSys} (hi : sys.Inv fun _ => pmutexSem) (hsem : sys.sem = s.sys.sem) :
    Inv { s with sys := sys } := by
  refine ⟨hi, fun o => ?_, fun o => ?_⟩
  · have hone := h.one o
    unfold inFlight at hone ⊢
    rw [hsem]
    exact hone
  · have hheld := h.held o
    rw [hsem]
    exact hheld

theorem Inv.unlockTest (h : s.Inv) (ha : s.Alone (.unlockTest t o)) (hs : s.step (.unlockTest t o) = some s') :
    s'.Inv := by
  simp only [step, Option.ite_none_right_eq_some] at hs
  obtain ⟨-, hs⟩ := hs
  split_ifs at hs with hv
  · exact Option.some.inj hs ▸ h
  · obtain rfl := Option.some.inj hs
    refine ⟨h.sys, fun o' => ?_, h.held⟩
    have hone := h.one o'
    unfold inFlight at hone ⊢
    by_cases hoo : o' = o
    · subst hoo
      have hnone : s.unlocking.countP (fun p => p.2 = o') = 0 := by
        rw [List.countP_eq_zero]
        intro p hp
        simpa using ha p hp
      simp only [List.countP_cons, hnone, decide_true, if_true]
      omega
    · simp only [List.countP_cons, decide_eq_true_eq, Ne.symm hoo, if_false]
      omega

theorem Inv.unlockRelease (h : s.Inv) (hs : s.step (.unlockRelease t o) = some s') : s'.Inv := by
  simp only [step, Option.ite_none_right_eq_some, Option.map_eq_some_iff] at hs
  obtain ⟨⟨-, hmem⟩, sys, hsys, rfl⟩ := hs
  have hpos := inFlight_pos hmem
  have hone := h.one o
  have hheld := h.held o
  have hi := h.sys.step hsys
  obtain rfl := Option.some.inj hsys
  -- the unlock in flight shows that the value is 0, so at most this call raises it
  have hv : (s.sys.sem o).value = 0 := by omega
  have hcount : ∀ o', (s.unlocking.erase (t, o)).countP (fun p => p.2 = o') =
      s.inFlight o' - if o' = o then 1 else 0 := by
    intro o'
    unfold inFlight
    rw [List.countP_erase]
    by_cases hoo : o' = o
    · simp [hoo, hmem]
    · simp [hoo, Ne.symm hoo]
  have hlt : (s.sys.sem o).value < rtSemValueMax := by rw [hv]; decide
  refine ⟨hi, fun o' => ?_, fun o' => ?_⟩
  · have hone' := h.one o'
    unfold inFlight
    dsimp only
    rw [hcount o']
    by_cases hoo : o' = o
    · subst hoo
      simp only [Function.update_self, if_true]
      by_cases hl : s.sys.k.list (.suspend o') = []
      · simp only [rtSemRelease, hl, ne_eq, not_true_eq_false, if_false, hlt, if_true]
        omega
      · simp only [rtSemRelease, ne_eq, hl, not_false_eq_true, if_true]
        omega
    · simp only [Function.update_of_ne hoo, hoo, if_false]
      omega
  · by_cases hoo : o' = o
    · subst hoo
      unfold released
      by_cases hl : s.sys.k.list (.suspend o') = []
      · simp only [rtSemRelease, hl, ne_eq, not_true_eq_false, if_false, hlt, if_true, Function.update_self,
          List.head?_nil, Option.toList_none, List.append_nil, List.length_tail]
        omega
      · obtain ⟨w, l, hl'⟩ := List.exists_cons_of_ne_nil hl
        simp only [rtSemRelease, ne_eq, hl', reduceCtorEq, not_false_eq_true, if_true, Function.update_self,
          List.head?_cons, Option.toList_some, List.length_append, List.length_tail, List.length_singleton]
        omega
    · have hrel : s.released o o' = s.holders o' := by
        unfold released
        split_ifs
        · exact Function.update_of_ne hoo _ _
        · rfl
      simp only [Function.update_of_ne hoo, hrel]
      exact h.held o'

theorem Inv.step (h : s.Inv) {e : Event} (ha : s.Alone e) (hs : s.step e = some s') : s'.Inv := by
  cases e with
  | lock t o time => exact h.lock hs
  | lockReturns t =>
    simp only [NormalSys.step, Option.map_eq_some_iff] at hs
    obtain ⟨sys, hsys, rfl⟩ := hs
    exact h.frame (h.sys.step hsys) (sem_ret hsys)
  | unlockTest t o => exact h.unlockTest ha hs
  | unlockRelease t o => exact h.unlockRelease hs
  | kernel e =>
    simp only [NormalSys.step, Option.map_eq_some_iff] at hs
    obtain ⟨sys, hsys, rfl⟩ := hs
    refine h.frame (h.sys.step hsys) ?_
    simp only [SemSys.step, Option.map_eq_some_iff] at hsys
    obtain ⟨k, -, rfl⟩ := hsys
    rfl

theorem inv_init {k₀ : Kernel} (hq : k₀.Quiet) : (init k₀).Inv := by
  refine ⟨SemSys.inv_init hq fun _ => by decide, fun o => ?_, fun o => ?_⟩
  · simp [init, SemSys.init, inFlight, pmutexSem]
  · simp [init, SemSys.init, pmutexSem]

end steps

theorem normal_pmutex_excludes {k₀ : Kernel} (hq : k₀.Quiet) (es : List Event) (s : NormalSys)
    (h : run step (init k₀) es = some s) (hm : Meets step Alone (init k₀) es) (o : Oid) :
    (s.sys.sem o).value ≤ 1 ∧ (s.holders o).length ≤ 1 ∧
      (0 < (s.sys.sem o).value → s.holders o = []) := by
  have hi : s.Inv := run_invariant_of_meets Inv (fun _ _ _ hi ha hs => hi.step ha hs) h hm (inv_init hq)
  have hone := hi.one o
  have hheld := hi.held o
  refine ⟨by omega, by omega, fun hv => ?_⟩
  exact List.length_eq_zero_iff.mp (by omega)

/-- The mutex is passed from thread 3 to a waiter, whose unlock is answered before another one is refused. -/
theorem normal_pmutex_excludes_example :
    ∃ s, run step (init (started 32 (fun _ => 5) [3, 4]))
      [.lock 3 0 (-1), .kernel .yield, .lock 4 0 20, .kernel .schedule, .unlockTest 3 0, .unlockRelease 3 0,
        .kernel .yield, .lockReturns 4, .unlockTest 4 0, .unlockRelease 4 0, .unlockTest 4 0] = some s ∧
      (s.sys.sem 0).value ≤ 1 ∧ (s.holders 0).length ≤ 1 := by
  have hrun : (run step (init (started 32 (fun _ => 5) [3, 4]))
      [.lock 3 0 (-1), .kernel .yield, .lock 4 0 20, .kernel .schedule, .unlockTest 3 0, .unlockRelease 3 0,
        .kernel .yield, .lockReturns 4, .unlockTest 4 0, .unlockRelease 4 0, .unlockTest 4 0]).isSome = true := by
    decide +kernel
  obtain ⟨s, hs⟩ := Option.isSome_iff_exists.mp hrun
  have hq : (started 32 (fun _ => 5) [3, 4]).Quiet := started_quiet (by decide) (fun _ => by decide) [3, 4]
  have hcon := normal_pmutex_excludes hq _ s hs (by decide +kernel) 0
  exact ⟨s, hs, hcon.1, hcon.2.1⟩

/-- Two unlocks test the value before either releases the semaphore; two threads then lock the mutex. -/
theorem normal_pmutex_shared :
    ((run step (init (started 32 (fun _ => 5) [3, 4]))
      [.lock 3 0 (-1), .unlockTest 3 0, .kernel .yield, .unlockTest 4 0, .unlockRelease 4 0,
        .kernel .yield, .unlockRelease 3 0]).map fun s => (s.sys.sem 0).value) = some 2 ∧
    ((run step (init (started 32 (fun _ => 5) [3, 4]))
      [.lock 3 0 (-1), .unlockTest 3 0, .kernel .yield, .unlockTest 4 0, .unlockRelease 4 0,
        .kernel .yield, .unlockRelease 3 0, .lock 3 0 (-1), .kernel .yield, .lock 4 0 (-1)]).map
        fun s => s.holders 0) = some [3, 4] := by
  decide +kernel

end NormalSys

end RtSmart
