import RtSmart.Drivers.WorkqueueInv

/-!
The order of the delayed list, as long as the ticks that are compared are less than half the clock apart,
and the progress of the worker.
-/

namespace RtSmart

open Lib

namespace Workqueue

/-- When the item is due, without the wrap of the clock. -/
def deadline (s : Workqueue) (w : ℕ) : ℕ := s.due (s.token w)

/-- The delays are short, and the worker is not late, against the half of the clock. -/
def Near (s : Workqueue) : WorkEvent → Prop
  | .submit w ticks => ∀ v ∈ s.delayedList, v ≠ w → s.time + ticks.toNat ≤ s.deadline v + 2 ^ 31 + 1
  | .turn => ∀ v ∈ s.delayedList, s.time < s.deadline v + rtTickMax / 2
  | _ => True

instance (s : Workqueue) (e : WorkEvent) : Decidable (s.Near e) :=
  match e with
  | .submit w ticks =>
    inferInstanceAs (Decidable (∀ v ∈ s.delayedList, v ≠ w → s.time + ticks.toNat ≤ s.deadline v + 2 ^ 31 + 1))
  | .turn => inferInstanceAs (Decidable (∀ v ∈ s.delayedList, s.time < s.deadline v + rtTickMax / 2))
  | .urgent _ | .cancel _ | .tick | .wait | .expire | .resume | .finish => isTrue trivial

end Workqueue

/-- The delayed list is sorted, and the worker does not wait for ever while there is something in it. -/
structure WorkOrder (s : Workqueue) : Prop where
  sorted : s.delayedList.Pairwise fun v w => s.deadline v ≤ s.deadline w
  waiting : ∀ d, s.pc = .wait d → s.completed = true ∨ s.delayedList = [] ∨ 0 < d
  asleep : s.pc = .asleep none → s.delayedList = []

namespace WorkOrder

variable {s s' : Workqueue} {w : ℕ}

theorem init (time : ℕ) : WorkOrder (.init time) := by
  constructor <;> simp [Workqueue.init]

theorem sublist (h : WorkOrder s) (hl : s'.delayedList.Sublist s.delayedList)
    (hdeadline : ∀ v ∈ s'.delayedList, s'.deadline v = s.deadline v) (hpc : s'.pc = s.pc)
    (hdone : s'.completed = s.completed) : WorkOrder s' := by
  refine ⟨?_, fun d hd => ?_, fun hd => ?_⟩
  · refine (h.sorted.sublist hl).imp_of_mem fun hv hw hle => ?_
    rw [hdeadline _ hv, hdeadline _ hw]
    exact hle
  · rcases h.waiting d (hpc.symm.trans hd) with hc | hempty | hpos
    · exact .inl (hdone.trans hc)
    · rw [hempty] at hl
      exact .inr (.inl (List.sublist_nil.mp hl))
    · exact .inr (.inr hpos)
  · have hempty := h.asleep (hpc.symm.trans hd)
    rw [hempty] at hl
    exact List.sublist_nil.mp hl

theorem of_awake (hsorted : s.delayedList.Pairwise fun v w => s.deadline v ≤ s.deadline w)
    (hpc : ∀ t, s.pc ≠ .asleep t) (hdone : s.completed = true) : WorkOrder s :=
  ⟨hsorted, fun _ _ => .inl hdone, fun hd => absurd hd (hpc none)⟩

theorem of_check (hsorted : s.delayedList.Pairwise fun v w => s.deadline v ≤ s.deadline w) (hpc : s.pc = .check) :
    WorkOrder s := by
  refine ⟨hsorted, fun d hd => ?_, fun hd => ?_⟩
  · cases hpc.symm.trans hd
  · cases hpc.symm.trans hd

theorem insertDelayed_sorted {work : ℕ → RtWork} {f : ℕ → ℕ} {l : List ℕ}
    (hl : l.Pairwise fun v w => f v ≤ f w)
    (htest : ∀ v ∈ l, ((work v).timeoutTick - (work w).timeoutTick).toNat < rtTickMax / 2 ↔ f w ≤ f v) :
    (Workqueue.insertDelayed work w l).Pairwise fun v w => f v ≤ f w := by
  induction l with
  | nil => exact List.pairwise_singleton _ _
  | cons v l ih =>
    obtain ⟨hv, hl'⟩ := List.pairwise_cons.mp hl
    rw [Workqueue.insertDelayed]
    split_ifs with ht
    · have hle := (htest v List.mem_cons_self).mp ht
      refine List.pairwise_cons.mpr ⟨fun u hu => ?_, hl⟩
      rcases List.mem_cons.mp hu with rfl | hu
      · exact hle
      · exact hle.trans (hv u hu)
    · have hlt := mt (htest v List.mem_cons_self).mpr ht
      refine List.pairwise_cons.mpr ⟨fun u hu => ?_, ih hl' fun u hu => htest u (List.mem_cons_of_mem _ hu)⟩
      rcases List.mem_cons.mp ((WorkInv.insertDelayed_perm work w l).mem_iff.mp hu) with rfl | hu
      · omega
      · exact hv u hu

theorem accept_deadline_self (s : Workqueue) (w ticks : ℕ) : (s.accept w ticks).deadline w = s.time + ticks := by
  simp [Workqueue.accept, Workqueue.deadline]

theorem accept_deadline_of_ne {v ticks : ℕ} (hv : v ≠ w) (hlt : s.token v < s.next) :
    (s.accept w ticks).deadline v = s.deadline v := by
  simp [Workqueue.accept, Workqueue.deadline, hv, hlt.ne]

theorem rtCompletionDone_list (s : Workqueue) :
    s.rtCompletionDone.delayedList = s.delayedList ∧ s.rtCompletionDone.deadline = s.deadline := by
  rw [WorkInv.rtCompletionDone_eq]
  exact ⟨rfl, rfl⟩

theorem woken {s₁ : Workqueue} (hi : WorkInv s) (hpc : s₁.pc = s.pc) (hdone : s₁.completed = s.completed)
    (hsorted : s₁.delayedList.Pairwise fun v w => s₁.deadline v ≤ s₁.deadline w) : WorkOrder s₁.rtCompletionDone := by
  obtain ⟨hlist, hdeadline⟩ := rtCompletionDone_list s₁
  obtain ⟨hpc, hdone⟩ := hi.rtCompletionDone_awake s₁ hpc hdone
  refine of_awake ?_ hpc hdone
  rw [hlist, hdeadline]
  exact hsorted

theorem mem_erase (hi : WorkInv s) {v : ℕ} (hv : v ∈ s.delayedList.erase w) :
    v ∈ s.delayedList ∧ v ≠ w ∧ s.token v < s.next := by
  have hnodup := (List.nodup_append.mp hi.nodup).2.1
  have hmem := List.mem_of_mem_erase hv
  refine ⟨hmem, ?_, hi.token_lt (List.mem_append_right _ hmem)⟩
  rintro rfl
  exact hnodup.not_mem_erase hv

theorem erase_sorted {s₁ : Workqueue} {ticks : ℕ} (h : WorkOrder s) (hi : WorkInv s) (htoken : s₁.token = s.token)
    (hdue : s₁.due = s.due) (hnext : s₁.next = s.next) :
    (s.delayedList.erase w).Pairwise fun u v => (s₁.accept w ticks).deadline u ≤ (s₁.accept w ticks).deadline v := by
  have hkeep : ∀ v ∈ s.delayedList.erase w, (s₁.accept w ticks).deadline v = s.deadline v := by
    intro v hv
    obtain ⟨-, hne, hlt⟩ := mem_erase hi hv
    rw [accept_deadline_of_ne hne (by rw [htoken, hnext]; exact hlt), Workqueue.deadline, hdue, htoken]
    rfl
  refine (h.sorted.sublist List.erase_sublist).imp_of_mem fun hu hv hle => ?_
  rw [hkeep _ hu, hkeep _ hv]
  exact hle

theorem workqueueSubmitWork {ticks : BitVec 32} (h : WorkOrder s) (hi : WorkInv s) (hok : s.Near (.submit w ticks)) :
    WorkOrder (s.workqueueSubmitWork w ticks).1 := by
  unfold Workqueue.workqueueSubmitWork
  dsimp only
  split_ifs with h0 hlt
  · exact woken hi rfl rfl (h.erase_sorted hi rfl rfl rfl)
  · refine woken hi rfl rfl (insertDelayed_sorted (h.erase_sorted hi rfl rfl rfl) fun v hv => ?_)
    obtain ⟨hmem, hne, hv⟩ := mem_erase hi hv
    obtain ⟨htick, hsoon⟩ := hi.soon v hmem
    have hnear := hok v hmem hne
    rw [accept_deadline_self, accept_deadline_of_ne hne]
    · have hsum : BitVec.ofNat 32 s.time + ticks = BitVec.ofNat 32 (s.time + ticks.toNat) := by
        rw [BitVec.ofNat_add, BitVec.ofNat_toNat, BitVec.setWidth_eq]
      simp only [Workqueue.setWork, Workqueue.remove, Workqueue.rtTickGet, Function.update_self,
        Function.update_of_ne hne, htick, hsum]
      refine before_iff ?_ hnear
      omega
    · exact hv
  · refine h.sublist List.erase_sublist (fun _ _ => rfl) rfl rfl

theorem rtWorkqueueUrgentWork (h : WorkOrder s) (hi : WorkInv s) (w : ℕ) : WorkOrder (s.rtWorkqueueUrgentWork w) :=
  woken hi rfl rfl (h.erase_sorted hi rfl rfl rfl)

theorem timerCheck_same (l : List ℕ) (s : Workqueue) :
    (∃ moved, (s.timerCheck l).workList = s.workList ++ moved) ∧ (s.timerCheck l).token = s.token ∧
      (s.timerCheck l).due = s.due ∧ (s.timerCheck l).time = s.time := by
  induction l generalizing s with
  | nil => exact ⟨⟨[], (List.append_nil _).symm⟩, rfl, rfl, rfl⟩
  | cons w l ih =>
    rw [Workqueue.timerCheck]
    split_ifs
    · obtain ⟨⟨moved, hmoved⟩, htoken, hdue, htime⟩ := ih ({ s with delayedList := l, workList := s.workList ++ [w] }.setWork w
        { s.work w with submitting := false, pending := true })
      refine ⟨⟨w :: moved, ?_⟩, htoken, hdue, htime⟩
      rw [hmoved]
      exact List.append_assoc _ _ _
    · exact ⟨⟨[], (List.append_nil _).symm⟩, rfl, rfl, rfl⟩

theorem lt_of_not_expired (hi : WorkInv s) (hw : w ∈ s.delayedList) (hnear : s.time < s.deadline w + rtTickMax / 2)
    (he : ¬ s.expired w = true) : s.time < s.deadline w := by
  have htick : (s.work w).timeoutTick = .ofNat 32 (s.deadline w) := (hi.soon w hw).1
  by_contra hle
  rw [not_lt] at hle
  refine he (decide_eq_true ?_)
  rw [htick, Workqueue.rtTickGet, ofNat_sub_of_le hle]
  · omega
  · simp only [rtTickMax] at hnear
    omega

theorem timerCheck_rest (hi : WorkInv s) (h : WorkOrder s) (hpc : s.pc = .check)
    (hnear : ∀ v ∈ s.delayedList, s.time < s.deadline v + rtTickMax / 2) :
    (s.timerCheck s.delayedList).delayedList.Sublist s.delayedList ∧
      ∀ v ∈ (s.timerCheck s.delayedList).delayedList, s.time < s.deadline v := by
  generalize hl : s.delayedList = l
  induction l generalizing s with
  | nil =>
    rw [Workqueue.timerCheck, hl]
    exact ⟨.refl _, by simp⟩
  | cons w l ih =>
    have hsorted := h.sorted
    rw [hl] at hsorted hnear
    obtain ⟨hw, hrest⟩ := List.pairwise_cons.mp hsorted
    rw [Workqueue.timerCheck]
    split_ifs with he
    · obtain ⟨hsub, hlt⟩ := ih (hi.expire hpc hl he) (of_check hrest hpc) hpc
        (fun v hv => hnear v (List.mem_cons_of_mem _ hv)) rfl
      exact ⟨hsub.trans (List.sublist_cons_self w l), hlt⟩
    · have hfirst := lt_of_not_expired hi (by simp [hl]) (hnear w List.mem_cons_self) he
      rw [hl]
      refine ⟨.refl _, fun v hv => ?_⟩
      rcases List.mem_cons.mp hv with rfl | hv
      · exact hfirst
      · exact hfirst.trans_le (hw v hv)

theorem delayTick_pos (hi : WorkInv s) (hne : s.delayedList ≠ []) (hlt : ∀ v ∈ s.delayedList, s.time < s.deadline v) :
    0 < s.delayTick := by
  obtain ⟨w, l, hl⟩ := List.exists_cons_of_ne_nil hne
  have hmem : w ∈ s.delayedList := by simp [hl]
  obtain ⟨htick, hsoon⟩ := hi.soon w hmem
  have hw := hlt w hmem
  simp only [rtTickMax] at hsoon
  simp only [Workqueue.deadline] at hw
  have hnat := ofNat_sub_of_le hw.le (by omega)
  rw [Workqueue.delayTick, hl]
  dsimp only
  rw [htick, Workqueue.rtTickGet, BitVec.toInt_eq_toNat_of_lt, hnat]
  · omega
  · rw [hnat]
    omega

theorem threadTurn (h : WorkOrder s) (hi : WorkInv s) (hpc : s.pc = .check) (hok : s.Near .turn) :
    WorkOrder s.threadTurn ∧ ∀ v ∈ s.threadTurn.delayedList, s.time < s.threadTurn.deadline v := by
  obtain ⟨hi', -⟩ := hi.timerCheck hpc
  obtain ⟨hsub, hlt⟩ := h.timerCheck_rest hi hpc hok
  obtain ⟨-, htoken, hdue, htime⟩ := timerCheck_same s.delayedList s
  have hdeadline : (s.timerCheck s.delayedList).deadline = s.deadline := by
    funext v
    rw [Workqueue.deadline, hdue, htoken]
    rfl
  have hsorted := h.sorted.sublist hsub
  rw [← hdeadline] at hsorted hlt
  unfold Workqueue.threadTurn
  dsimp only
  split
  · refine ⟨⟨hsorted, fun d hd => .inr ?_, fun hd => ?_⟩, hlt⟩
    · by_cases hempty : (s.timerCheck s.delayedList).delayedList = []
      · exact .inl hempty
      · have hpos := delayTick_pos hi' hempty (by rw [htime]; exact hlt)
        cases hd
        exact .inr hpos
    · cases hd
  · refine ⟨⟨hsorted, fun d hd => ?_, fun hd => ?_⟩, hlt⟩
    · cases hd
    · cases hd

theorem step {e : WorkEvent} (h : WorkOrder s) (hi : WorkInv s) (hok : s.Near e) (hs : s.step e = some s') :
    WorkOrder s' := by
  cases e with
  | submit w ticks =>
    cases hs
    exact h.workqueueSubmitWork hi hok
  | urgent w =>
    cases hs
    exact h.rtWorkqueueUrgentWork hi w
  | cancel w =>
    cases hs
    exact h.sublist List.erase_sublist (fun _ _ => rfl) rfl rfl
  | tick =>
    cases hs
    exact ⟨h.sorted, h.waiting, h.asleep⟩
  | turn =>
    simp only [Workqueue.step] at hs
    split_ifs at hs with hpc
    cases hs
    exact (h.threadTurn hi hpc hok).1
  | wait =>
    simp only [Workqueue.step] at hs
    split at hs <;> cases hs
    next d hpc =>
    unfold Workqueue.rtCompletionWait
    by_cases hdone : s.completed = true
    · rw [if_pos hdone]
      exact ⟨h.sorted, by simp, by simp⟩
    rw [if_neg hdone]
    by_cases hd : d = 0
    · rw [if_pos hd]
      exact ⟨h.sorted, by simp, by simp⟩
    rw [if_neg hd]
    refine ⟨h.sorted, by simp, fun hpc' => ?_⟩
    rcases (h.waiting d hpc).resolve_left hdone with hempty | hpos
    · exact hempty
    · simp [hpos] at hpc'
  | expire =>
    simp only [Workqueue.step] at hs
    split at hs
    · split_ifs at hs
      cases hs
      exact ⟨h.sorted, by simp, by simp⟩
    · cases hs
  | resume =>
    simp only [Workqueue.step] at hs
    split_ifs at hs
    cases hs
    exact ⟨h.sorted, by simp, by simp⟩
  | finish =>
    simp only [Workqueue.step] at hs
    split at hs <;> cases hs
    exact ⟨h.sorted, by simp, by simp⟩

end WorkOrder

/-- The steps of the worker thread. -/
def WorkEvent.worker : WorkEvent → Bool
  | .turn | .wait | .expire | .resume | .finish => true
  | .submit _ _ | .urgent _ | .cancel _ | .tick => false

namespace WorkInv

variable {s s' : Workqueue} {w : ℕ}

theorem reaches_check (h : WorkInv s) (hne : s.workList ≠ []) :
    ∃ es s', (∀ e ∈ es, e.worker = true) ∧ run Workqueue.step s es = some s' ∧ s'.pc = .check ∧
      s'.workList = s.workList ∧ s'.token = s.token ∧ s'.time = s.time := by
  cases hpc : s.pc with
  | check => exact ⟨[], s, by simp, rfl, hpc, rfl, rfl, rfl⟩
  | wait d =>
    have hdone := (h.waiting d hpc).resolve_right hne
    refine ⟨[.wait], { s with completed := false, pc := .check }, by simp [WorkEvent.worker], ?_, rfl, rfl, rfl, rfl⟩
    simp [run, Workqueue.step, hpc, Workqueue.rtCompletionWait, hdone]
  | asleep t => exact absurd (h.asleep t hpc).1 hne
  | woken =>
    refine ⟨[.resume], { s with completed := false, pc := .check }, by simp [WorkEvent.worker], ?_, rfl, rfl, rfl, rfl⟩
    simp [run, Workqueue.step, hpc]
  | running v =>
    refine ⟨[.finish], { s with workCurrent := none, pc := .check }, by simp [WorkEvent.worker], ?_, rfl, rfl, rfl, rfl⟩
    simp [run, Workqueue.step, hpc]

theorem turn_runs {l : List ℕ} (hl : s.workList = w :: l) :
    (s.token w, s.time) ∈ s.threadTurn.ran ∧ s.threadTurn.token = s.token ∧ s.threadTurn.time = s.time ∧
      ∃ moved, s.threadTurn.workList = l ++ moved := by
  obtain ⟨⟨moved, hmoved⟩, htoken, -, htime⟩ := WorkOrder.timerCheck_same s.delayedList s
  rw [hl, List.cons_append] at hmoved
  unfold Workqueue.threadTurn
  dsimp only
  rw [hmoved]
  refine ⟨?_, htoken, htime, moved, rfl⟩
  rw [htoken, htime]
  exact List.mem_cons_self

theorem served {pre post : List ℕ} (h : WorkInv s) (hl : s.workList = pre ++ w :: post) :
    ∃ es s', (∀ e ∈ es, e.worker = true) ∧ run Workqueue.step s es = some s' ∧ (s.token w, s.time) ∈ s'.ran := by
  induction pre generalizing s post with
  | nil =>
    obtain ⟨es, s₁, hes, hrun, hpc, hlist, htoken, htime⟩ := h.reaches_check (by simp [hl])
    refine ⟨es ++ [.turn], s₁.threadTurn, ?_, ?_, ?_⟩
    · simpa [or_imp, forall_and, WorkEvent.worker] using hes
    · exact run_append hrun (by simp [run, Workqueue.step, hpc])
    · rw [← htoken, ← htime]
      exact (turn_runs (hlist.trans hl)).1
  | cons v pre ih =>
    rw [List.cons_append] at hl
    obtain ⟨es, s₁, hes, hrun, hpc, hlist, htoken, htime⟩ := h.reaches_check (by simp [hl])
    have hturn : run Workqueue.step s₁ [.turn] = some s₁.threadTurn := by simp [run, Workqueue.step, hpc]
    have h₁ : WorkInv s₁.threadTurn :=
      run_invariant WorkInv (fun _ _ _ h hs => h.step hs) (run_append hrun hturn) h
    obtain ⟨-, htoken', htime', moved, hmoved⟩ := turn_runs (hlist.trans hl)
    rw [List.append_assoc, List.cons_append] at hmoved
    obtain ⟨es', s', hes', hrun', hran⟩ := ih h₁ hmoved
    refine ⟨es ++ [.turn] ++ es', s', ?_, run_append (run_append hrun hturn) hrun', ?_⟩
    · intro e he
      simp only [List.mem_append, List.mem_singleton] at he
      rcases he with (he | rfl) | he
      · exact hes e he
      · rfl
      · exact hes' e he
    · rw [htoken', htoken, htime', htime] at hran
      exact hran

end WorkInv

/-- Each accepted submission is waiting, has been run once, not before it was due, or has been cancelled or
replaced by another submission of its item. The flags tell in which list an item is, unless
`rt_workqueue_urgent_work` has moved it. The worker alone runs whatever is in the list; and as long as
no tick is compared with one half a clock away, the delayed list is sorted and a turn empties it of
what is due. -/
theorem workqueue_exactly_once {time : ℕ} {es : List WorkEvent} {s : Workqueue}
    (hs : run Workqueue.step (.init time) es = some s) :
    (s.workList ++ s.delayedList).Nodup ∧
    ((s.workList ++ s.delayedList).map s.token ++ (s.ran.map Prod.fst ++ (s.cancelled ++ s.replaced))).Perm
      (List.range s.next) ∧
    (∀ p ∈ s.ran, s.due p.1 ≤ p.2) ∧
    (∀ w, s.urged w = false →
      ((s.work w).pending = true ↔ w ∈ s.workList) ∧ ((s.work w).submitting = true ↔ w ∈ s.delayedList)) ∧
    (∀ w ∈ s.workList, ∃ es' s', (∀ e ∈ es', e.worker = true) ∧ run Workqueue.step s es' = some s' ∧
      (s.token w, s.time) ∈ s'.ran) ∧
    (Meets Workqueue.step Workqueue.Near (.init time) es →
      (s.delayedList.Pairwise fun v w => s.deadline v ≤ s.deadline w) ∧ (s.pc = .asleep none → s.delayedList = []) ∧
      ∀ s', s.Near .turn → s.step .turn = some s' → ∀ w ∈ s'.delayedList, s.time < s'.deadline w) := by
  have h := run_invariant WorkInv (fun _ _ _ h hs => h.step hs) hs (.init time)
  refine ⟨h.nodup, h.tokens, h.onTime, h.flags, fun w hw => ?_, fun hok => ?_⟩
  · obtain ⟨pre, post, hl⟩ := List.append_of_mem hw
    exact h.served hl
  · have ho : WorkInv s ∧ WorkOrder s :=
      run_invariant_of_meets (fun s => WorkInv s ∧ WorkOrder s)
        (fun _ _ _ h hok hs => ⟨h.1.step hs, h.2.step h.1 hok hs⟩) hs hok ⟨.init time, .init time⟩
    refine ⟨ho.2.sorted, ho.2.asleep, fun s' hnear hs' => ?_⟩
    simp only [Workqueue.step] at hs'
    split_ifs at hs' with hpc
    cases hs'
    exact (ho.2.threadTurn h hpc hnear).2

/-- The clock wraps while two items are delayed; one is submitted again, the other is cancelled. -/
def wrappedWork : List WorkEvent :=
  [.submit 0 3, .submit 1 2, .turn, .wait, .turn, .wait, .tick, .submit 2 0, .resume, .turn, .submit 0 2, .tick, .finish, .cancel 1, .tick,
    .turn, .finish]

theorem workqueue_exactly_once_wrapped : ∃ s, run Workqueue.step (.init (2 ^ 32 - 1)) wrappedWork = some s ∧
    s.next = 4 ∧ s.ran = [(3, 2 ^ 32 + 2), (2, 2 ^ 32)] ∧ s.cancelled = [1] ∧ s.replaced = [0] ∧ s.due 3 ≤ 2 ^ 32 + 2 := by
  have hrun : ((run Workqueue.step (.init (2 ^ 32 - 1)) wrappedWork).any fun s =>
      s.next == 4 && s.ran == [(3, 2 ^ 32 + 2), (2, 2 ^ 32)] && s.cancelled == [1] && s.replaced == [0]) = true := by
    decide +kernel
  obtain ⟨s, hs, hp⟩ := (Option.any_eq_true _ _).mp hrun
  simp only [Bool.and_eq_true, beq_iff_eq] at hp
  obtain ⟨⟨⟨hnext, hran⟩, hcancelled⟩, hreplaced⟩ := hp
  refine ⟨s, hs, hnext, hran, hcancelled, hreplaced, ?_⟩
  exact (workqueue_exactly_once hs).2.2.1 (3, 2 ^ 32 + 2) (by simp [hran])

/-- Two submissions of an item that is waiting lead to one run; an urgent item is in the list without its
flag; and a long delay enters the list in front of an item that is overdue. -/
theorem workqueue_resubmission_merges :
    (¬ ∀ es s, run Workqueue.step (.init 0) es = some s →
      ((s.workList ++ s.delayedList).map s.token ++ (s.ran.map Prod.fst ++ s.cancelled)).Perm (List.range s.next)) ∧
    (¬ ∀ es s, run Workqueue.step (.init 0) es = some s → ∀ w, (s.work w).pending = true ↔ w ∈ s.workList) ∧
    ¬ ∀ es s, run Workqueue.step (.init 0) es = some s → s.delayedList.Pairwise fun v w => s.deadline v ≤ s.deadline w := by
  refine ⟨fun h => ?_, fun h => ?_, fun h => ?_⟩
  · have hrun : ((run Workqueue.step (.init 0) [.submit 0 0, .submit 0 0, .turn]).any fun s =>
        s.next == 2 && s.ran == [(1, 0)] && s.cancelled == [] && s.workList == [] && s.delayedList == []) = true := by
      decide +kernel
    obtain ⟨s, hs, hp⟩ := (Option.any_eq_true _ _).mp hrun
    simp only [Bool.and_eq_true, beq_iff_eq] at hp
    obtain ⟨⟨⟨⟨hnext, hran⟩, hcancelled⟩, hwork⟩, hdelayed⟩ := hp
    have hperm := (h _ s hs).length_eq
    simp [hnext, hran, hcancelled, hwork, hdelayed] at hperm
  · have hrun : ((run Workqueue.step (.init 0) [.urgent 0]).any fun s =>
        !(s.work 0).pending && s.workList == [0]) = true := by
      decide +kernel
    obtain ⟨s, hs, hp⟩ := (Option.any_eq_true _ _).mp hrun
    simp only [Bool.and_eq_true, Bool.not_eq_true', beq_iff_eq] at hp
    have := (h _ s hs 0).mpr (by simp [hp.2])
    rw [hp.1] at this
    cases this
  · have hrun : ((run Workqueue.step (.init 0)
        [.submit 0 1, .tick, .tick, .tick, .tick, .tick, .submit 1 0x7ffffffe]).any fun s =>
        s.delayedList == [1, 0] && s.deadline 1 == 2 ^ 31 + 3 && s.deadline 0 == 1) = true := by
      decide +kernel
    obtain ⟨s, hs, hp⟩ := (Option.any_eq_true _ _).mp hrun
    simp only [Bool.and_eq_true, beq_iff_eq] at hp
    have hsorted := h _ s hs
    rw [hp.1.1] at hsorted
    simp [hp.1.2, hp.2] at hsorted

end RtSmart
