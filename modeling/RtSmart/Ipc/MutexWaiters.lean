import RtSmart.Ipc.MutexOwnership

namespace RtSmart

open Lib Kernel MutexState

namespace MutexSys

def InterruptiblyPending (s : MutexState) (o : Tid) : Prop :=
  (s.k.thread o).stat = .suspend .interruptible ∧ (s.k.thread o).pendingObject ≠ none

instance (s : MutexState) (o : Tid) : Decidable (InterruptiblyPending s o) := inferInstanceAs (Decidable (_ ∧ _))

/-- The step changes the priority of a mutex owner that `_thread_update_priority` takes out of its wait
list and cannot put back. -/
def Drops (s : MutexSys) : Event → Bool
  | .take _ t m timeout sf => (s.mutex m).owner.any fun o => o ≠ t ∧ timeout ≠ 0 ∧
      lwpSuspendSigcheck (s.k.thread t) sf = true ∧
      (s.k.thread t).currentPriority < (s.mutex m).priority ∧
      (s.k.thread t).currentPriority < (s.k.thread o).currentPriority ∧ InterruptiblyPending s.toMutexState o
  | .ret _ t => (s.waiting t).any fun w => (s.mutex w.1).owner.any fun o => (s.k.thread t).error ≠ .eok ∧
      (s.k.thread o).currentPriority = (s.k.thread t).currentPriority ∧
      (s.toMutexState.mutexUpdatePriority w.1).threadGetMutexPriority o ≠ (s.k.thread o).currentPriority ∧
      InterruptiblyPending s.toMutexState o
  | _ => false

/-- Every thread that is suspended in `_rt_mutex_take` is in the list of its mutex. -/
def Linked (s : MutexSys) : Prop :=
  ∀ t m sf, s.waiting t = some (m, sf) → (s.k.thread t).stat.suspended = true → t ∈ s.k.list (.suspend m)

section steps

variable {s s' : MutexSys} {t : Tid} {m : Oid}

theorem Linked.congr (h : s.Linked) (hw : s'.waiting = s.waiting)
    (hl : ∀ m, s'.k.list (.suspend m) = s.k.list (.suspend m))
    (hs : ∀ u, (s'.k.thread u).stat.suspended = (s.k.thread u).stat.suspended) : s'.Linked := by
  intro u m sf hu hsus
  rw [hl]
  exact h u m sf (by rwa [hw] at hu) (by rwa [hs] at hsus)

theorem Linked.erase (h : s.Linked) (hw : s'.waiting = s.waiting)
    (hl : ∀ m, s'.k.list (.suspend m) = (s.k.list (.suspend m)).erase t)
    (ht : (s'.k.thread t).stat.suspended = false)
    (hs : ∀ u, u ≠ t → (s'.k.thread u).stat.suspended = (s.k.thread u).stat.suspended) : s'.Linked := by
  intro u m sf hu hsus
  have hut : u ≠ t := by
    rintro rfl
    simp [ht] at hsus
  rw [hl, List.mem_erase_of_ne hut]
  exact h u m sf (by rwa [hw] at hu) (by rwa [hs u hut] at hsus)

theorem setThread_suspended (k : Kernel) {f : Thread → Thread} (hf : (f (k.thread t)).stat = (k.thread t).stat)
    (u : Tid) : ((k.setThread t f).thread u).stat.suspended = (k.thread u).stat.suspended := by
  by_cases hu : u = t
  · subst hu
    rw [setThread_thread_self, hf]
  · rw [setThread_thread_of_ne _ _ _ hu]

theorem control_suspended {k : Kernel} (hc : k.Coherent none) (ho : k.CurrentOk) (cmd : ControlCmd) (p : ℕ) (u : Tid) :
    ((k.rtThreadControl t cmd p).thread u).stat.suspended = (k.thread u).stat.suspended := by
  have hr := control_reprioritised (t := t) hc ho cmd p
  by_cases hu : u = t
  · rw [hu, hr.stat]
  · rw [hr.other u hu]

theorem threadUpdatePriority_lists {st st' : MutexState} {fuel : ℕ} {o : Tid} {p : ℕ} {sf : SuspendFlag}
    (h : threadUpdatePriority fuel st o p sf = some st') (hc : st.k.Coherent none) (ho : st.k.CurrentOk)
    (hn : ¬ InterruptiblyPending st o) :
    (∀ m, st'.k.list (.suspend m) = st.k.list (.suspend m)) ∧
      ∀ u, (st'.k.thread u).stat.suspended = (st.k.thread u).stat.suspended := by
  rcases threadUpdatePriority_cases hc ho h with ⟨-, rfl⟩ | ⟨n, m, o', s₁, -, hst, hp, -⟩
  · exact ⟨fun m => (control_reprioritised hc ho .updatePriority p).list _ rfl,
      control_suspended hc ho .updatePriority p⟩
  · exact absurd ⟨hst, by simp [hp]⟩ hn

theorem inherit_lists {st st' : MutexState} {fuel : ℕ} {o : Tid} {p : ℕ} {sf : SuspendFlag}
    (hc : st.k.Coherent none) (ho : st.k.CurrentOk)
    (hn : p < (st.mutex m).priority → p < (st.k.thread o).currentPriority → ¬ InterruptiblyPending st o)
    (h : inherit fuel st m o p sf = some st') :
    (∀ m, st'.k.list (.suspend m) = st.k.list (.suspend m)) ∧
      ∀ u, (st'.k.thread u).stat.suspended = (st.k.thread u).stat.suspended := by
  simp only [inherit] at h
  split_ifs at h with h1 h2
  · have hn' : ¬ InterruptiblyPending (st.setMutex m fun mx => { mx with priority := p }) o := hn h1 h2
    have hlists := threadUpdatePriority_lists h hc ho hn'
    exact hlists
  · obtain rfl := Option.some.inj h
    exact ⟨fun _ => rfl, fun _ => rfl⟩
  · obtain rfl := Option.some.inj h
    exact ⟨fun _ => rfl, fun _ => rfl⟩

theorem Linked.enters (h : s.Linked) {st st' : MutexState} {sf : SuspendFlag}
    (he : Enters s.toMutexState st m t sf) (hl : ∀ m, st'.k.list (.suspend m) = st.k.list (.suspend m))
    (hs : ∀ u, (st'.k.thread u).stat.suspended = (st.k.thread u).stat.suspended) :
    Linked { s with toMutexState := st', waiting := Function.update s.waiting t (some (m, sf)) } := by
  intro u m' sf' hu hsus
  rw [hl, he.list (.suspend m') rfl]
  by_cases hut : u = t
  · subst hut
    obtain ⟨rfl, -⟩ : m = m' ∧ sf = sf' := by simpa using hu
    simp [mem_enqueue]
  · simp only [hs, he.other u hut] at hsus
    have hmem := h u m' sf' (by simpa [hut] using hu) hsus
    split_ifs
    · exact mem_enqueue.mpr (.inr hmem)
    · exact hmem

theorem Linked.take (ho : s.Owns) (h : s.Linked) {fuel : ℕ} {timeout : ℤ} {sf : SuspendFlag}
    (hd : s.Drops (.take fuel t m timeout sf) = false) (hs : s.step (.take fuel t m timeout sf) = some s') : s'.Linked := by
  simp only [step, Option.ite_none_right_eq_some] at hs
  obtain ⟨⟨⟨-, hrun⟩, hwt⟩, hs⟩ := hs
  obtain ⟨⟨st, r⟩, htake, rfl⟩ := Option.map_eq_some_iff.mp hs
  have herr : ∀ e u, ((s.k.setThread t fun th => { th with error := e }).thread u).stat.suspended =
      (s.k.thread u).stat.suspended := fun e => setThread_suspended s.k rfl
  rcases rtMutexTake_cases ho.coherent ho.currentOk hrun htake with
    ⟨-, rfl, hacq⟩ | ⟨-, -, rfl, rfl⟩ | ⟨ret, e, -, rfl, rfl⟩ | ⟨o, s₁, s₂, hown, hot, ht0, hsig, rfl, hen, hin, rfl⟩
  · rcases hacq with ⟨-, rfl⟩ | ⟨-, -, rfl⟩ | ⟨hceil, -, rfl⟩
    · exact h.congr rfl (fun _ => rfl) (herr .eok)
    · exact h.congr rfl (fun _ => rfl) (herr .eok)
    · have hc : (s.k.setThread t fun th => { th with error := .eok }).Coherent none :=
        ho.coherent.setThread ⟨rfl, rfl, rfl, rfl, rfl, rfl⟩
      have ho' : (s.k.setThread t fun th => { th with error := .eok }).CurrentOk := ho.currentOk.setThread rfl
      refine h.congr rfl (fun m' => (control_reprioritised hc ho' .updatePriority _).list _ rfl) fun u => ?_
      exact (control_suspended hc ho' .updatePriority _ u).trans (herr .eok u)
  · exact h.congr rfl (fun _ => rfl) (herr .eok)
  · exact h.congr rfl (fun _ => rfl) (herr e)
  · have hpend : (s.k.thread t).currentPriority < (s₁.mutex m).priority →
        (s.k.thread t).currentPriority < (s₁.k.thread o).currentPriority → ¬ InterruptiblyPending s₁ o := by
      intro h1 h2 h3
      rw [hen.mutex] at h1
      rw [hen.other o hot] at h2
      rw [InterruptiblyPending, hen.other o hot] at h3
      simp only [Drops, hown, Option.any_some, decide_eq_false_iff_not] at hd
      exact hd ⟨hot, ht0, hsig, h1, h2, h3⟩
    obtain ⟨hl, hst⟩ := inherit_lists hen.coherent hen.currentOk hpend hin
    split_ifs
    · refine h.enters hen hl fun u => ?_
      have htimer := setThread_suspended (t := t) s₂.k (f := fun th => { th with timer := true }) rfl u
      exact htimer.trans (hst u)
    · exact h.enters hen hl hst

theorem Linked.ret (ho : s.Owns) (h : s.Linked) {fuel : ℕ} (hd : s.Drops (.ret fuel t) = false)
    (hs : s.step (.ret fuel t) = some s') : s'.Linked := by
  simp only [step] at hs
  split at hs
  · simp at hs
  rename_i m sf hwt
  simp only [Option.ite_none_right_eq_some] at hs
  obtain ⟨⟨-, hrun⟩, hs⟩ := hs
  obtain ⟨⟨st, r⟩, hend, rfl⟩ := Option.map_eq_some_iff.mp hs
  -- `t` runs, so that its own entry in `waiting` does not matter
  have hleave : ∀ st : MutexState, (∀ m, st.k.list (.suspend m) = s.k.list (.suspend m)) →
      (∀ u, (st.k.thread u).stat.suspended = (s.k.thread u).stat.suspended) →
      Linked { s with toMutexState := st, waiting := Function.update s.waiting t none } := by
    intro st hl hst u m' sf' hu hsus
    have hut : u ≠ t := by
      rintro rfl
      simp at hu
    simp only [hl]
    exact h u m' sf' (by simpa [hut] using hu) (by simpa only [hst] using hsus)
  have hpend := setThread_suspended (t := t) s.k (f := fun th => { th with pendingObject := none }) rfl
  rcases rtMutexTakeEnd_cases hend with ⟨-, -, rfl⟩ | ⟨herr, -, s₁, rfl, hcase⟩
  · exact hleave _ (fun _ => rfl) fun _ => rfl
  rcases hcase with ⟨rfl, -⟩ | ⟨o, hown, hprio, hget, hup⟩
  · exact hleave _ (fun _ => rfl) hpend
  have hot : o ≠ t := by
    rintro rfl
    exact herr ((ho.granted o m sf hwt).mp hown).2
  have h1 := ho.clearPending hrun
  have hwaiter : waiterPriority (s.k.setThread t fun th => { th with pendingObject := none }) m =
      waiterPriority s.k m := by
    simp only [waiterPriority, setThread_list]
    split
    · rfl
    · rename_i u l hl
      by_cases hu : u = t
      · subst hu; simp
      · simp [hu]
  have hgetEq : ((s.toMutexState.setThread t fun th => { th with pendingObject := none }).mutexUpdatePriority
      m).threadGetMutexPriority o = (s.toMutexState.mutexUpdatePriority m).threadGetMutexPriority o := by
    apply threadGetMutexPriority_congr
    · simp [mutexUpdatePriority, hot]
    · rfl
    · intro m'
      by_cases hm : m' = m
      · subst hm; simp [mutexUpdatePriority, hwaiter]
      · simp [mutexUpdatePriority, hm]
  have hnot : ¬ InterruptiblyPending ((s.toMutexState.setThread t fun th =>
      { th with pendingObject := none }).mutexUpdatePriority m) o := by
    intro hip
    simp only [InterruptiblyPending, mutexUpdatePriority, setMutex_k, setThread_k,
      setThread_thread_of_ne _ _ _ hot] at hip
    simp only [Drops, hwt, Option.any_some, hown, decide_eq_false_iff_not] at hd
    refine hd ⟨herr, ?_, ?_, hip⟩
    · simpa [mutexUpdatePriority, hot] using hprio
    · rw [hgetEq] at hget
      simpa [mutexUpdatePriority, hot] using hget
  obtain ⟨hl, hst⟩ := threadUpdatePriority_lists hup h1.coherent h1.currentOk hnot
  exact hleave _ hl fun u => (hst u).trans (hpend u)

theorem Linked.release (ho : s.Owns) (h : s.Linked) (hs : s.step (.release t m) = some s') : s'.Linked := by
  simp only [step, Option.ite_none_right_eq_some, Option.some.injEq] at hs
  obtain ⟨-, rfl⟩ := hs
  by_cases hown : (s.mutex m).owner = some t
  · obtain ⟨hf, hlist⟩ := frame_lowered (m := m) (t := t) ho.coherent ho.currentOk
    have hst : ∀ u, ((s.toMutexState.lowered m t).thread u).stat.suspended = (s.k.thread u).stat.suspended :=
      fun u => congrArg Stat.suspended (hf.stat u)
    rcases rtMutexRelease_cases ho.coherent ho.currentOk hown with ⟨-, he⟩ | ⟨-, -, he⟩ | ⟨-, u, l, st, -, he, hho⟩
    · rw [he]
      exact h.congr rfl (fun _ => rfl) fun _ => rfl
    · rw [he]
      exact h.congr rfl (fun m' => hlist _ rfl) hst
    · rw [he]
      refine h.erase (t := u) rfl (fun m' => ?_) hho.runnable.suspended fun v hv => ?_
      · rw [hho.list _ rfl, hlist _ rfl]
      · simp only [hho.other v hv]
        exact hst v
  · simp only [rtMutexRelease, ne_eq, hown, not_false_eq_true, if_true]
    have hst := setThread_suspended (t := t) s.k (f := fun th => { th with error := .error }) rfl
    exact h.congr rfl (fun _ => rfl) hst

theorem Linked.step (ho : s.Owns) (h : s.Linked) {e : Event} (hd : s.Drops e = false) (hs : s.step e = some s') :
    s'.Linked := by
  cases e with
  | take fuel t m timeout sf => exact h.take ho hd hs
  | ret fuel t => exact h.ret ho hd hs
  | release t m => exact h.release ho hs
  | changePriority t p =>
    simp only [MutexSys.step, Option.ite_none_right_eq_some, Option.some.injEq] at hs
    obtain ⟨-, rfl⟩ := hs
    exact h.congr rfl (fun m => (control_reprioritised ho.coherent ho.currentOk .changePriority p).list _ rfl)
      (control_suspended ho.coherent ho.currentOk .changePriority p)
  | setprioceiling m p =>
    obtain rfl := Option.some.inj hs
    simp only [rtMutexSetprioceiling]
    split_ifs
    · exact h.congr rfl (fun _ => rfl) fun _ => rfl
    · exact h
  | kernel e =>
    obtain ⟨k', hk, rfl⟩ := Option.map_eq_some_iff.mp hs
    rcases kernelStep_cases ho.coherent ho.currentOk hk with hr | ⟨t, err, hw, -⟩
    · refine h.congr rfl (fun m => hr.list _ rfl) fun u => ?_
      rcases hr.stat u with he | ⟨h1, h2⟩
      · exact congrArg Stat.suspended he
      · exact h2.suspended.trans h1.suspended.symm
    · exact h.erase rfl hw.suspendList hw.runnable.suspended fun u hu => by rw [hw.other u hu]

end steps

/-- A waiter is found by the release of its mutex unless a step has dropped it. -/
theorem mutex_waiters_linked {k₀ : Kernel} (hq : k₀.Quiet) (es : List Event) (s : MutexSys)
    (h : run step (init k₀) es = some s) (hd : Meets step (fun s e => s.Drops e = false) (init k₀) es)
    (t : Tid) (m : Oid) (sf : SuspendFlag) (hw : s.waiting t = some (m, sf))
    (hsus : (s.k.thread t).stat.suspended = true) :
    (s.k.thread t).pendingObject = some m ∧ (s.k.list (.suspend m)).count t = 1 := by
  have hi : s.Owns ∧ s.Linked := by
    refine run_invariant_of_meets (fun s : MutexSys => s.Owns ∧ s.Linked)
      (fun _ _ _ hi hd hs => ⟨hi.1.step hs, hi.2.step hi.1 hd hs⟩) h hd ⟨owns_init hq, ?_⟩
    intro t m sf hw
    simp [init] at hw
  exact ⟨(hi.1.blocked t m sf hw hsus).2, List.count_eq_one_of_mem (hi.1.coherent.nodup _) (hi.2 t m sf hw hsus)⟩

def waitingRun : List Event :=
  [.take 0 3 0 (-1) .uninterruptible, .changePriority 3 9, .kernel .schedule, .take 1 4 0 7 .interruptible]

theorem mutex_waiters_linked_example :
    ∃ s, run step (init (started 32 (fun t => t % 32) [3, 4])) waitingRun = some s ∧
      (s.k.list (.suspend 0)).count 4 = 1 := by
  have hq := started_quiet (n := 32) (by decide) (fun t => Nat.mod_lt t (by decide)) [3, 4]
  have hrun : ((run step (init (started 32 (fun t => t % 32) [3, 4])) waitingRun).map fun s =>
      (s.waiting 4, (s.k.thread 4).stat.suspended)) = some (some (0, .interruptible), true) := by decide +kernel
  have hd : Meets step (fun s e => s.Drops e = false) (init (started 32 (fun t => t % 32) [3, 4])) waitingRun := by
    decide +kernel
  obtain ⟨s, hs, he⟩ := Option.map_eq_some_iff.mp hrun
  obtain ⟨hw, hsus⟩ := Prod.mk.inj he
  exact ⟨s, hs, (mutex_waiters_linked hq _ s hs hd 4 0 _ hw hsus).2⟩

/-- Thread 2 holds mutex 2 and waits interruptibly for mutex 1 of thread 1, and the more urgent thread 3
takes mutex 2. -/
def droppingRun : List Event :=
  [.take 1 1 1 (-1) .uninterruptible, .changePriority 1 20, .kernel .schedule, .take 1 2 2 (-1) .uninterruptible,
    .take 1 2 1 (-1) .interruptible, .kernel .schedule, .changePriority 3 1, .kernel .schedule,
    .take 3 3 2 (-1) .uninterruptible]

/-- Thread 2 has lost its place in the list of mutex 1: the release of mutex 1 will not find it. -/
theorem mutex_waiter_dropped : (started 32 (fun t => t % 30 + 2) [1, 2, 3]).Quiet ∧
    ∃ s, run step (init (started 32 (fun t => t % 30 + 2) [1, 2, 3])) droppingRun = some s ∧
      s.waiting 2 = some (1, .interruptible) ∧ (s.k.thread 2).stat = .suspend .interruptible ∧
      (s.k.thread 2).pendingObject = some 1 ∧ (s.mutex 1).owner = some 1 ∧ (s.k.list (.suspend 1)).count 2 = 0 := by
  refine ⟨started_quiet (by decide) (fun t => by have := Nat.mod_lt t (show 0 < 30 by decide); omega) _, ?_⟩
  have hrun : ((run step (init (started 32 (fun t => t % 30 + 2) [1, 2, 3])) droppingRun).map fun s =>
      (s.waiting 2, (s.k.thread 2).stat, (s.k.thread 2).pendingObject, (s.mutex 1).owner,
        (s.k.list (.suspend 1)).count 2)) =
      some (some (1, .interruptible), .suspend .interruptible, some 1, some 1, 0) := by decide +kernel
  obtain ⟨s, hs, he⟩ := Option.map_eq_some_iff.mp hrun
  simp only [Prod.mk.injEq] at he
  exact ⟨s, hs, he⟩

end MutexSys

end RtSmart
