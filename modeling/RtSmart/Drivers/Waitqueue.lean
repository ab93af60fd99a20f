import RtSmart.Kernel.Thread
import RtSmart.Lib.Transition

/-!
One wait queue (`waitqueue.c`). Every thread has a condition of its own, which it tests before it calls
`rt_wqueue_wait` and which others change. A step ends where interrupts are enabled.
-/

namespace RtSmart

open Lib

inductive WqueuePc
  | out
  /-- The condition was false; the queue has not been looked at yet. -/
  | tested (tick : ℤ)
  | suspended (tick : ℤ)
  | readied (err : Err)
  /-- The flag has been cleared; the node is still to be removed. -/
  | leaving (err : Err)
deriving DecidableEq

/-- `early t`: the condition of `t` held when `t` suspended. `due t`: since `t` made its test, a wakeup that
followed the change of its condition has come, and the condition held before `t` suspended. -/
structure WqueueSys where
  flag : Bool
  waitingList : List Tid
  pc : Tid → WqueuePc
  condition : Tid → Bool
  early : Tid → Bool
  due : Tid → Bool

/-- `rt_wqueue_init`, with all threads outside. -/
def WqueueSys.init (condition : Tid → Bool) : WqueueSys :=
  ⟨false, [], fun _ => .out, condition, fun _ => false, fun _ => false⟩

namespace WqueueSys

def setPc (s : WqueueSys) (t : Tid) (pc : WqueuePc) : WqueueSys :=
  { s with pc := Function.update s.pc t pc }

/-- A thread reads its condition and calls `rt_wqueue_wait` with what it read. -/
def test (s : WqueueSys) (t : Tid) (tick : ℤ) : WqueueSys :=
  if s.condition t || tick = 0 then s else { s.setPc t (.tested tick) with due := Function.update s.due t false }

/-- The critical section of `_rt_wqueue_wait`. -/
def enter (s : WqueueSys) (t : Tid) (tick : ℤ) : WqueueSys :=
  if s.flag then { s.setPc t (.leaving .eok) with flag := false }
  else
    { s.setPc t (.suspended tick) with
      waitingList := s.waitingList ++ [t]
      early := Function.update s.early t (s.condition t) }

/-- `rt_thread_resume`, which does nothing to a thread that is not suspended. -/
def resume (s : WqueueSys) (t : Tid) : WqueueSys :=
  match s.pc t with
  | .suspended _ => s.setPc t (.readied .eok)
  | _ => s

/-- Whether a wakeup is one for a condition that was made true before `t` suspends. -/
def awaits (s : WqueueSys) (t : Tid) : Bool :=
  match s.pc t with
  | .tested _ => s.condition t
  | .suspended _ => s.early t && s.condition t
  | _ => false

def setFlag (s : WqueueSys) (made : List Tid) : WqueueSys :=
  { s with
    flag := true
    due := fun t => s.due t || (t ∈ made && s.awaits t) }

/-- `rt_wqueue_wakeup`, after the conditions of the threads `made` were made true; every node has
`__wqueue_default_wake`, so the first one is taken whether its thread can be resumed or not. -/
def rtWqueueWakeup (s : WqueueSys) (made : List Tid) : WqueueSys :=
  let s := s.setFlag made
  match s.waitingList with
  | [] => s
  | t :: l => { s.resume t with waitingList := l }

end WqueueSys

inductive WqueueEvent
  | change (t : Tid) (value : Bool)
  | test (t : Tid) (tick : ℤ)
  | enter (t : Tid)
  | wakeup (made : List Tid)
  | expire (t : Tid)
  | clear (t : Tid)
  | remove (t : Tid)
deriving DecidableEq

def WqueueSys.step (s : WqueueSys) : WqueueEvent → Option WqueueSys
  | .change t value => some { s with condition := Function.update s.condition t value }
  | .test t tick => if s.pc t = .out then some (s.test t tick) else none
  | .enter t =>
    match s.pc t with
    | .tested tick => some (s.enter t tick)
    | _ => none
  | .wakeup made => some (s.rtWqueueWakeup made)
  | .expire t =>
    match s.pc t with
    | .suspended tick => if tick = -1 then none else some (s.setPc t (.readied .etimeout))
    | _ => none
  | .clear t =>
    match s.pc t with
    | .readied err => some { s.setPc t (.leaving err) with flag := false }
    | _ => none
  | .remove t =>
    match s.pc t with
    | .leaving _ => some { s.setPc t .out with waitingList := s.waitingList.erase t }
    | _ => none

/-- Whether a thread is on its way into the queue after a wakeup that its condition was true for. -/
def WqueueSys.expects (s : WqueueSys) (t : Tid) : Prop :=
  s.due t = true ∧ ∃ tick, s.pc t = .tested tick

/-- No thread that returns clears the flag while another one expects it to be set, and a wakeup for a thread
that suspended although its condition held finds that thread's node first in the list: not the node of another
waiter, nor the one that a waiter whose time is over has not removed yet. -/
def WqueueSys.Delivers (s : WqueueSys) : WqueueEvent → Prop
  | .enter t => s.flag = true → ∀ u, u ≠ t → ¬ s.expects u
  | .clear t => ∀ u, u ≠ t → ¬ s.expects u
  | .wakeup made => ∀ t ∈ made, ∀ tick, s.pc t = .suspended tick → s.early t = true → s.condition t = true →
      s.waitingList.head? = some t
  | _ => True

structure WqueueInv (s : WqueueSys) : Prop where
  linked : ∀ t tick, s.pc t = .suspended tick → t ∈ s.waitingList
  flag : ∀ t, s.expects t → s.flag = true
  rested : ∀ t tick, s.pc t = .suspended tick → s.due t = false

namespace WqueueInv

variable {s s' : WqueueSys} {t u : Tid} {pc : WqueuePc} {tick : ℤ}

theorem init (condition : Tid → Bool) : WqueueInv (.init condition) := by
  refine ⟨?_, ?_, ?_⟩
  · simp [WqueueSys.init]
  · rintro t ⟨h, -⟩
    simp [WqueueSys.init] at h
  · simp [WqueueSys.init]

theorem move {flag : Bool} {l : List Tid} (h : WqueueInv s) (hpc : ∀ tick, pc ≠ .suspended tick ∧ pc ≠ .tested tick)
    (hl : ∀ u, u ≠ t → u ∈ s.waitingList → u ∈ l) (hf : ∀ u, u ≠ t → s.expects u → flag = true) :
    WqueueInv { s.setPc t pc with flag := flag, waitingList := l } := by
  have hother : ∀ u, u ≠ t → (s.setPc t pc).pc u = s.pc u := fun u hu => Function.update_of_ne hu _ _
  have hself : (s.setPc t pc).pc t = pc := Function.update_self _ _ _
  refine ⟨fun u tick hu => ?_, ?_, fun u tick hu => ?_⟩
  · have hut : u ≠ t := by
      rintro rfl
      exact (hpc tick).1 (hself.symm.trans hu)
    exact hl u hut (h.linked u tick ((hother u hut).symm.trans hu))
  · rintro u ⟨hdue, tick, hu⟩
    have hut : u ≠ t := by
      rintro rfl
      exact (hpc tick).2 (hself.symm.trans hu)
    exact hf u hut ⟨hdue, tick, (hother u hut).symm.trans hu⟩
  · have hut : u ≠ t := by
      rintro rfl
      exact (hpc tick).1 (hself.symm.trans hu)
    exact h.rested u tick ((hother u hut).symm.trans hu)

theorem test (h : WqueueInv s) : WqueueInv (s.test t tick) := by
  unfold WqueueSys.test
  split_ifs with hc
  · exact h
  · have hother : ∀ u, u ≠ t → Function.update s.due t false u = s.due u := fun u hu => Function.update_of_ne hu _ _
    have hpc : ∀ u, u ≠ t → (s.setPc t (.tested tick)).pc u = s.pc u := fun u hu => Function.update_of_ne hu _ _
    have hself : (s.setPc t (.tested tick)).pc t = .tested tick := Function.update_self _ _ _
    refine ⟨fun u tick hu => ?_, ?_, fun u tick hu => ?_⟩
    · have hut : u ≠ t := by
        rintro rfl
        simp [hself] at hu
      exact h.linked u tick ((hpc u hut).symm.trans hu)
    · rintro u ⟨hdue, tick, hu⟩
      have hut : u ≠ t := by
        rintro rfl
        simp at hdue
      exact h.flag u ⟨(hother u hut).symm.trans hdue, tick, (hpc u hut).symm.trans hu⟩
    · have hut : u ≠ t := by
        rintro rfl
        simp [hself] at hu
      exact (hother u hut).trans (h.rested u tick ((hpc u hut).symm.trans hu))

theorem suspend (h : WqueueInv s) (ht : s.pc t = .tested tick) (hf : s.flag = false) :
    WqueueInv { s.setPc t (.suspended tick) with
      waitingList := s.waitingList ++ [t]
      early := Function.update s.early t (s.condition t) } := by
  have hpc : ∀ u, u ≠ t → (s.setPc t (.suspended tick)).pc u = s.pc u := fun u hu => Function.update_of_ne hu _ _
  have hself : (s.setPc t (.suspended tick)).pc t = .suspended tick := Function.update_self _ _ _
  have hdue : s.due t = false := by
    by_contra hd
    have := h.flag t ⟨by simpa using hd, tick, ht⟩
    rw [hf] at this
    cases this
  refine ⟨fun u k hu => ?_, ?_, fun u k hu => ?_⟩
  · by_cases hut : u = t
    · simp [hut]
    · exact List.mem_append_left _ (h.linked u k ((hpc u hut).symm.trans hu))
  · rintro u ⟨hd, k, hu⟩
    have hut : u ≠ t := by
      rintro rfl
      simp [hself] at hu
    exact h.flag u ⟨hd, k, (hpc u hut).symm.trans hu⟩
  · by_cases hut : u = t
    · exact hut ▸ hdue
    · exact h.rested u k ((hpc u hut).symm.trans hu)

theorem resume_spec (s : WqueueSys) (t : Tid) :
    ∃ pc, s.resume t = { s with pc := pc } ∧ (∀ u, u ≠ t → pc u = s.pc u) ∧ ∀ tick, pc t ≠ .suspended tick := by
  unfold WqueueSys.resume
  split
  · refine ⟨_, rfl, fun u hu => Function.update_of_ne hu _ _, fun tick => ?_⟩
    simp
  · next hpc => exact ⟨s.pc, rfl, fun _ _ => rfl, fun tick => hpc tick⟩

theorem wakeup_spec (s : WqueueSys) (made : List Tid) :
    ∃ pc, s.rtWqueueWakeup made = { s.setFlag made with pc := pc, waitingList := s.waitingList.tail } ∧
      ∀ u tick, pc u = .suspended tick → s.pc u = .suspended tick ∧ s.waitingList.head? ≠ some u ∧
        (u ∈ s.waitingList → u ∈ s.waitingList.tail) := by
  unfold WqueueSys.rtWqueueWakeup
  dsimp only
  split
  · next hl =>
    have hl : s.waitingList = [] := hl
    refine ⟨s.pc, ?_, fun u tick hu => ⟨hu, by simp [hl], by simp [hl]⟩⟩
    rw [hl, List.tail_nil, ← hl]
    rfl
  · next t l hl =>
    have hl : s.waitingList = t :: l := hl
    obtain ⟨pc, hpc, hother, hself⟩ := resume_spec (s.setFlag made) t
    refine ⟨pc, by rw [hpc, hl]; rfl, fun u tick hu => ?_⟩
    have hut : u ≠ t := by
      rintro rfl
      exact hself tick hu
    refine ⟨(hother u hut).symm.trans hu, ?_, ?_⟩
    · simpa [hl] using hut.symm
    · rw [hl]
      exact List.mem_of_ne_of_mem hut

theorem wakeup {made : List Tid} (h : WqueueInv s) (hok : s.Delivers (.wakeup made)) :
    WqueueInv (s.rtWqueueWakeup made) := by
  obtain ⟨pc, hs, hpc⟩ := wakeup_spec s made
  rw [hs]
  refine ⟨fun u tick hu => ?_, fun _ _ => rfl, fun u tick hu => ?_⟩
  · exact (hpc u tick hu).2.2 (h.linked u tick (hpc u tick hu).1)
  · obtain ⟨hu, hhead, -⟩ := hpc u tick hu
    have hmade : ¬ (u ∈ made ∧ s.early u = true ∧ s.condition u = true) := fun ⟨hm, he, hc⟩ =>
      hhead (hok u hm tick hu he hc)
    have hdue := h.rested u tick hu
    simp only [WqueueSys.setFlag, WqueueSys.awaits, hu, hdue, Bool.false_or]
    simpa using hmade

theorem step {e : WqueueEvent} (h : WqueueInv s) (hok : s.Delivers e) (hs : s.step e = some s') : WqueueInv s' := by
  cases e with
  | change t value =>
    cases hs
    exact ⟨h.linked, h.flag, h.rested⟩
  | test t tick =>
    simp only [WqueueSys.step] at hs
    split_ifs at hs
    cases hs
    exact h.test
  | enter t =>
    simp only [WqueueSys.step] at hs
    split at hs
    · next tick ht =>
      cases hs
      unfold WqueueSys.enter
      split_ifs with hf
      · exact h.move (by simp) (fun _ _ hu => hu) fun u hut hu => absurd hu (hok hf u hut)
      · exact h.suspend ht (by simpa using hf)
    · cases hs
  | wakeup made =>
    cases hs
    exact h.wakeup hok
  | expire t =>
    simp only [WqueueSys.step] at hs
    split at hs
    · split_ifs at hs
      cases hs
      exact h.move (by simp) (fun _ _ hu => hu) fun u _ hu => h.flag u hu
    · cases hs
  | clear t =>
    simp only [WqueueSys.step] at hs
    split at hs
    · cases hs
      exact h.move (by simp) (fun _ _ hu => hu) fun u hut hu => absurd hu (hok u hut)
    · cases hs
  | remove t =>
    simp only [WqueueSys.step] at hs
    split at hs
    · cases hs
      exact h.move (by simp) (fun u hut hu => (List.mem_erase_of_ne hut).mpr hu) fun u _ hu => h.flag u hu
    · cases hs

end WqueueInv

/-- No thread waits for a wakeup that has already come for a condition made true before it suspended, and
every thread that waits can be reached by the wakeups to come, the first of the list by the next one. -/
theorem wakeups_not_lost {condition : Tid → Bool} {es : List WqueueEvent} {s : WqueueSys}
    (hs : run WqueueSys.step (.init condition) es = some s)
    (hok : Meets WqueueSys.step WqueueSys.Delivers (.init condition) es) :
    (∀ t tick, s.pc t = .suspended tick → s.due t = false ∧ t ∈ s.waitingList) ∧
      ∀ t l tick made, s.waitingList = t :: l → s.pc t = .suspended tick →
        (s.rtWqueueWakeup made).pc t = .readied .eok := by
  have h : WqueueInv s :=
    run_invariant_of_meets WqueueInv (fun _ _ _ h hok hs => h.step hok hs) hs hok (WqueueInv.init condition)
  refine ⟨fun t tick ht => ⟨h.rested t tick ht, h.linked t tick ht⟩, fun t l tick made hl ht => ?_⟩
  have hl' : (s.setFlag made).waitingList = t :: l := hl
  have ht' : (s.setFlag made).pc t = .suspended tick := ht
  simp only [WqueueSys.rtWqueueWakeup, hl', WqueueSys.resume, ht', WqueueSys.setPc, Function.update_self]

/-- Thread 1 is woken before it suspends, thread 2 after it has suspended with its condition true. -/
theorem wakeups_not_lost_example :
    ∃ s, run WqueueSys.step (.init fun _ => false) [.test 1 (-1), .change 1 true, .wakeup [1], .enter 1, .test 2 (-1),
        .change 2 true, .enter 2, .wakeup [2]] = some s ∧
      s.due 1 = true ∧ s.due 2 = true ∧ ∀ t tick, s.pc t = .suspended tick → s.due t = false := by
  have hok : Meets WqueueSys.step WqueueSys.Delivers (.init fun _ => false)
      [.test 1 (-1), .change 1 true, .wakeup [1], .enter 1, .test 2 (-1), .change 2 true, .enter 2, .wakeup [2]] := by
    refine ⟨trivial, fun s₁ h₁ => ⟨trivial, fun s₂ h₂ => ⟨?_, fun s₃ h₃ => ⟨fun _ u hu => ?_, fun s₄ h₄ =>
      ⟨trivial, fun s₅ h₅ => ⟨trivial, fun s₆ h₆ => ⟨?_, fun s₇ h₇ => ⟨?_, fun _ _ => trivial⟩⟩⟩⟩⟩⟩⟩⟩
    all_goals
      cases h₁
      cases h₂
      try cases h₃
      try cases h₄
      try cases h₅
      try cases h₆
      try cases h₇
    · simp [WqueueSys.Delivers, WqueueSys.test, WqueueSys.init, WqueueSys.setPc]
    · simp [WqueueSys.expects, WqueueSys.rtWqueueWakeup, WqueueSys.setFlag, WqueueSys.test, WqueueSys.init,
        WqueueSys.setPc, hu]
    · simp [WqueueSys.Delivers, WqueueSys.rtWqueueWakeup, WqueueSys.setFlag, WqueueSys.test, WqueueSys.init,
        WqueueSys.setPc, WqueueSys.enter]
    · simp [WqueueSys.Delivers, WqueueSys.rtWqueueWakeup, WqueueSys.setFlag, WqueueSys.test, WqueueSys.init,
        WqueueSys.setPc, WqueueSys.enter]
  have hrun : ((run WqueueSys.step (.init fun _ => false) [.test 1 (-1), .change 1 true, .wakeup [1], .enter 1,
      .test 2 (-1), .change 2 true, .enter 2, .wakeup [2]]).any fun s => s.due 1 && s.due 2) = true := by
    decide +kernel
  obtain ⟨s, hs, hd⟩ := (Option.any_eq_true _ _).mp hrun
  simp only [Bool.and_eq_true] at hd
  exact ⟨s, hs, hd.1, hd.2, fun t tick ht => ((wakeups_not_lost hs hok).1 t tick ht).1⟩

/-- A thread that times out takes the flag away from a thread that has been woken before it waits. -/
theorem wakeup_erased : ¬ ∀ es s, run WqueueSys.step (.init fun _ => false) es = some s →
    ∀ t, s.pc t = .suspended (-1) → s.due t = false := by
  intro h
  have hrun : ((run WqueueSys.step (.init fun _ => false) [.test 1 10, .enter 1, .test 2 (-1), .expire 1,
      .change 2 true, .wakeup [2], .clear 1, .enter 2]).any fun s => s.pc 2 == .suspended (-1) && s.due 2) = true := by
    decide +kernel
  obtain ⟨s, hs, hp⟩ := (Option.any_eq_true _ _).mp hrun
  simp only [Bool.and_eq_true, beq_iff_eq] at hp
  have := h _ s hs 2 hp.1
  rw [hp.2] at this
  cases this

/-- The node that a thread whose time is over has not removed yet takes a wakeup away from the thread behind it. -/
theorem stale_node_takes_wakeup :
    ∃ s, run WqueueSys.step (.init fun _ => false) [.test 1 10, .enter 1, .test 2 (-1), .change 2 true, .enter 2,
      .expire 1, .wakeup [2]] = some s ∧ s.pc 2 = .suspended (-1) ∧ s.due 2 = true := by
  have hrun : ((run WqueueSys.step (.init fun _ => false) [.test 1 10, .enter 1, .test 2 (-1), .change 2 true, .enter 2,
      .expire 1, .wakeup [2]]).any fun s => s.pc 2 == .suspended (-1) && s.due 2) = true := by
    decide +kernel
  obtain ⟨s, hs, hp⟩ := (Option.any_eq_true _ _).mp hrun
  simp only [Bool.and_eq_true, beq_iff_eq] at hp
  exact ⟨s, hs, hp⟩

end RtSmart
