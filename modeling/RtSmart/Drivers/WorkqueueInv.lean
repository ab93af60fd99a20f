import RtSmart.Drivers.Workqueue

/-!
What becomes of the submissions to a work queue: each is in the queue, has been run once, or has given way
to a cancellation or to another submission of its item.
-/

namespace RtSmart

open Lib

section ticks

variable {a b : ℕ}

theorem ofNat_sub_of_le (h : b ≤ a) (hlt : a < b + 2 ^ 32) : (BitVec.ofNat 32 a - BitVec.ofNat 32 b).toNat = a - b := by
  rw [BitVec.toNat_sub, BitVec.toNat_ofNat, BitVec.toNat_ofNat]
  omega

theorem ofNat_sub_of_lt (h : b < a) (hlt : a ≤ b + 2 ^ 32) :
    (BitVec.ofNat 32 b - BitVec.ofNat 32 a).toNat = b + 2 ^ 32 - a := by
  rw [BitVec.toNat_sub, BitVec.toNat_ofNat, BitVec.toNat_ofNat]
  omega

theorem before_iff (hab : a < b + rtTickMax / 2) (hba : b ≤ a + 2 ^ 31 + 1) :
    (BitVec.ofNat 32 a - BitVec.ofNat 32 b).toNat < rtTickMax / 2 ↔ b ≤ a := by
  simp only [rtTickMax] at *
  rcases le_or_gt b a with h | h
  · rw [ofNat_sub_of_le h (by omega)]
    omega
  · rw [ofNat_sub_of_lt h (by omega)]
    omega

end ticks

namespace Workqueue

def queue (s : Workqueue) : List ℕ := s.workList ++ s.delayedList

end Workqueue

structure WorkInv (s : Workqueue) : Prop where
  nodup : s.queue.Nodup
  tokens : (s.queue.map s.token ++ (s.ran.map Prod.fst ++ (s.cancelled ++ s.replaced))).Perm (List.range s.next)
  onTime : ∀ p ∈ s.ran, s.due p.1 ≤ p.2
  ready : ∀ w ∈ s.workList, s.due (s.token w) ≤ s.time
  soon : ∀ w ∈ s.delayedList, (s.work w).timeoutTick = .ofNat 32 (s.due (s.token w)) ∧
    s.due (s.token w) < s.time + rtTickMax / 2
  flags : ∀ w, s.urged w = false →
    ((s.work w).pending = true ↔ w ∈ s.workList) ∧ ((s.work w).submitting = true ↔ w ∈ s.delayedList)
  asleep : ∀ t, s.pc = .asleep t → s.workList = [] ∧ s.completed = false
  waiting : ∀ d, s.pc = .wait d → s.completed = true ∨ s.workList = []

namespace WorkInv

variable {s s' : Workqueue} {w : ℕ}

theorem init (time : ℕ) : WorkInv (.init time) := by
  constructor <;> simp [Workqueue.init, Workqueue.queue]

theorem token_lt (h : WorkInv s) (hw : w ∈ s.queue) : s.token w < s.next := by
  have hmem : s.token w ∈ s.queue.map s.token ++ (s.ran.map Prod.fst ++ (s.cancelled ++ s.replaced)) :=
    List.mem_append_left _ (List.mem_map_of_mem hw)
  exact List.mem_range.mp (h.tokens.mem_iff.mp hmem)

theorem ran_lt (h : WorkInv s) {p : ℕ × ℕ} (hp : p ∈ s.ran) : p.1 < s.next := by
  have hmem : p.1 ∈ s.queue.map s.token ++ (s.ran.map Prod.fst ++ (s.cancelled ++ s.replaced)) :=
    List.mem_append_right _ (List.mem_append_left _ (List.mem_map_of_mem hp))
  exact List.mem_range.mp (h.tokens.mem_iff.mp hmem)

theorem remove_queue (h : WorkInv s) (w : ℕ) : (s.remove w).queue = s.queue.erase w := by
  obtain ⟨-, -, hdisj⟩ := List.nodup_append.mp h.nodup
  unfold Workqueue.queue Workqueue.remove
  rw [List.erase_append]
  split_ifs with hw
  · have hd : w ∉ s.delayedList := fun hd => hdisj w hw w hd rfl
    rw [List.erase_of_not_mem hd]
  · rw [List.erase_of_not_mem hw]

theorem not_mem_remove (h : WorkInv s) (w : ℕ) : w ∉ (s.remove w).queue := by
  rw [h.remove_queue]
  exact h.nodup.not_mem_erase

theorem displaced_perm (h : WorkInv s) (w : ℕ) :
    (s.queue.map s.token).Perm ((s.remove w).queue.map s.token ++ s.displaced w) := by
  rw [h.remove_queue, Workqueue.displaced]
  split_ifs with hw
  · have hp := (List.perm_cons_erase hw).map s.token
    rw [List.map_cons] at hp
    exact hp.trans (List.perm_append_singleton _ _).symm
  · have hq : s.queue.erase w = s.queue := List.erase_of_not_mem hw
    rw [hq, List.append_nil]

theorem clear (h : WorkInv s) (hwork : s'.workList = s.workList.erase w) (hdelayed : s'.delayedList = s.delayedList.erase w)
    (htoken : s'.token = s.token) (hdue : s'.due = s.due) (hnext : s'.next = s.next) (hran : s'.ran = s.ran)
    (hgone : (s'.cancelled ++ s'.replaced).Perm (s.displaced w ++ (s.cancelled ++ s.replaced)))
    (htime : s'.time = s.time) (hother : ∀ v, v ≠ w → s'.work v = s.work v ∧ s'.urged v = s.urged v)
    (hself : s'.urged w = true ∨ (s'.work w).pending = false ∧ (s'.work w).submitting = false)
    (hpc : s'.pc = s.pc) (hdone : s'.completed = s.completed) : WorkInv s' := by
  have hqueue : s'.queue = (s.remove w).queue := by rw [Workqueue.queue, hwork, hdelayed]; rfl
  have hnot : w ∉ s'.queue := hqueue ▸ h.not_mem_remove w
  have hmem : ∀ v, v ≠ w → (v ∈ s'.workList ↔ v ∈ s.workList) ∧ (v ∈ s'.delayedList ↔ v ∈ s.delayedList) := by
    intro v hv
    rw [hwork, hdelayed, List.mem_erase_of_ne hv, List.mem_erase_of_ne hv]
    exact ⟨.rfl, .rfl⟩
  have hne : ∀ v, v ∈ s'.workList ∨ v ∈ s'.delayedList → v ≠ w := by
    rintro v hv rfl
    exact hnot (List.mem_append.mpr hv)
  refine ⟨?_, ?_, ?_, fun v hv => ?_, fun v hv => ?_, fun v hv => ?_, fun t ht => ?_, fun d hd => ?_⟩
  · rw [hqueue, h.remove_queue]
    exact h.nodup.erase w
  · have hsplit := h.displaced_perm w
    rw [hqueue, htoken, hnext, hran]
    refine List.Perm.trans ?_ h.tokens
    refine List.Perm.trans ?_ (hsplit.symm.append_right _)
    rw [List.append_assoc]
    refine List.Perm.append_left _ ?_
    refine (hgone.append_left _).trans ?_
    rw [← List.append_assoc, ← List.append_assoc (s.displaced w)]
    exact List.perm_append_comm.append_right _
  · rw [hran, hdue]
    exact h.onTime
  · rw [hdue, htoken, htime]
    exact h.ready v ((hmem v (hne v (.inl hv))).1.mp hv)
  · have hv' := hne v (.inr hv)
    rw [hdue, htoken, htime, (hother v hv').1]
    exact h.soon v ((hmem v hv').2.mp hv)
  · by_cases hvw : v = w
    · subst hvw
      rcases hself with hu | ⟨hp, hs⟩
      · rw [hu] at hv
        cases hv
      · rw [hp, hs]
        exact ⟨by simpa using fun hm => hnot (List.mem_append_left _ hm), by simpa using fun hm => hnot (List.mem_append_right _ hm)⟩
    · obtain ⟨hw', hu'⟩ := hother v hvw
      rw [hw', (hmem v hvw).1, (hmem v hvw).2]
      exact h.flags v (hu'.symm.trans hv)
  · obtain ⟨hempty, hfalse⟩ := h.asleep t (hpc.symm.trans ht)
    rw [hwork, hdone, hempty]
    exact ⟨rfl, hfalse⟩
  · rw [hdone, hwork]
    rcases h.waiting d (hpc.symm.trans hd) with hd | hempty
    · exact .inl hd
    · rw [hempty]
      exact .inr rfl

theorem enter {ticks : ℕ} (h : WorkInv s) (hw : w ∉ s.queue) (hqueue : s'.queue.Perm (w :: s.queue))
    (hmem : ∀ v, v ≠ w → (v ∈ s'.workList ↔ v ∈ s.workList) ∧ (v ∈ s'.delayedList ↔ v ∈ s.delayedList))
    (htoken : s'.token = Function.update s.token w s.next) (hdue : s'.due = Function.update s.due s.next (s.time + ticks))
    (hnext : s'.next = s.next + 1) (hran : s'.ran = s.ran) (hcancelled : s'.cancelled = s.cancelled)
    (hreplaced : s'.replaced = s.replaced) (htime : s'.time = s.time)
    (hother : ∀ v, v ≠ w → s'.work v = s.work v ∧ s'.urged v = s.urged v)
    (hwork : w ∈ s'.workList → ticks = 0)
    (hdelayed : w ∈ s'.delayedList → (s'.work w).timeoutTick = .ofNat 32 (s.time + ticks) ∧ ticks < rtTickMax / 2)
    (hflags : s'.urged w = true ∨
      ((s'.work w).pending = true ↔ w ∈ s'.workList) ∧ ((s'.work w).submitting = true ↔ w ∈ s'.delayedList))
    (hpc : ∀ t, s'.pc ≠ .asleep t) (hdone : s'.completed = true) : WorkInv s' := by
  have hself : s'.due (s'.token w) = s.time + ticks := by
    rw [htoken, Function.update_self, hdue, Function.update_self]
  have hold : ∀ v ∈ s.queue, s'.due (s'.token v) = s.due (s.token v) := by
    intro v hv
    have hvw : v ≠ w := fun he => hw (he ▸ hv)
    rw [htoken, Function.update_of_ne hvw, hdue, Function.update_of_ne (h.token_lt hv).ne]
  have hmap : s.queue.map s'.token = s.queue.map s.token := by
    refine List.map_congr_left fun v hv => ?_
    have hvw : v ≠ w := fun he => hw (he ▸ hv)
    rw [htoken, Function.update_of_ne hvw]
  refine ⟨?_, ?_, fun p hp => ?_, fun v hv => ?_, fun v hv => ?_, fun v hv => ?_, fun t ht => absurd ht (hpc t), fun _ _ => .inl hdone⟩
  · exact hqueue.nodup_iff.mpr (List.nodup_cons.mpr ⟨hw, h.nodup⟩)
  · rw [hran, hcancelled, hreplaced, hnext, List.range_succ]
    have hp := hqueue.map s'.token
    rw [List.map_cons, hmap, htoken, Function.update_self] at hp
    rw [htoken]
    refine (hp.append_right _).trans ?_
    rw [List.cons_append]
    refine (h.tokens.cons s.next).trans ?_
    exact (List.perm_append_singleton _ _).symm
  · rw [hran] at hp
    rw [hdue, Function.update_of_ne (h.ran_lt hp).ne]
    exact h.onTime p hp
  · by_cases hvw : v = w
    · rw [hvw, hself, htime, hwork (hvw ▸ hv), Nat.add_zero]
    · have hv' := (hmem v hvw).1.mp hv
      rw [hold v (List.mem_append_left _ hv'), htime]
      exact h.ready v hv'
  · by_cases hvw : v = w
    · rw [hvw, hself, htime]
      obtain ⟨htick, hlt⟩ := hdelayed (hvw ▸ hv)
      exact ⟨htick, by omega⟩
    · have hv' := (hmem v hvw).2.mp hv
      rw [hold v (List.mem_append_right _ hv'), htime, (hother v hvw).1]
      exact h.soon v hv'
  · by_cases hvw : v = w
    · subst hvw
      rcases hflags with hu | hflags
      · rw [hu] at hv
        cases hv
      · exact hflags
    · obtain ⟨hw', hu'⟩ := hother v hvw
      rw [hw', (hmem v hvw).1, (hmem v hvw).2]
      exact h.flags v (hu'.symm.trans hv)

theorem rtCompletionDone_eq (s : Workqueue) :
    s.rtCompletionDone = { s with completed := s.rtCompletionDone.completed, pc := s.rtCompletionDone.pc } := by
  unfold Workqueue.rtCompletionDone
  split_ifs
  · rfl
  · rfl

/-- After `rt_completion_done` the worker is awake, whatever has been put into the lists before. -/
theorem rtCompletionDone_awake (h : WorkInv s) (s₁ : Workqueue) (hpc : s₁.pc = s.pc) (hdone : s₁.completed = s.completed) :
    (∀ t, s₁.rtCompletionDone.pc ≠ .asleep t) ∧ s₁.rtCompletionDone.completed = true := by
  unfold Workqueue.rtCompletionDone
  split_ifs with hc
  · refine ⟨fun t ht => ?_, hc⟩
    have := (h.asleep t (hpc.symm.trans ht)).2
    rw [← hdone, hc] at this
    cases this
  · refine ⟨fun t ht => ?_, rfl⟩
    dsimp only at ht
    split at ht
    · cases ht
    · next hne => exact hne t ht

theorem insertDelayed_perm (work : ℕ → RtWork) (w : ℕ) (l : List ℕ) : (Workqueue.insertDelayed work w l).Perm (w :: l) := by
  induction l with
  | nil => exact .refl _
  | cons v l ih =>
    rw [Workqueue.insertDelayed]
    split_ifs
    · exact .refl _
    · exact (ih.cons v).trans (.swap w v l)

theorem withdraw (h : WorkInv s) (w : ℕ) (tick : BitVec 32) (gone : List ℕ × List ℕ)
    (hgone : (gone.1 ++ gone.2).Perm (s.displaced w ++ (s.cancelled ++ s.replaced))) :
    WorkInv { (s.remove w).setWork w ⟨false, false, tick⟩ with
      urged := Function.update s.urged w false, cancelled := gone.1, replaced := gone.2 } := by
  refine h.clear rfl rfl rfl rfl rfl rfl hgone rfl (fun v hv => ⟨?_, ?_⟩) (.inr ?_) rfl rfl
  · exact Function.update_of_ne hv _ _
  · exact Function.update_of_ne hv _ _
  · simp [Workqueue.setWork]

theorem workqueueCancelWork (h : WorkInv s) (w : ℕ) : WorkInv (s.workqueueCancelWork w).1 := by
  refine h.withdraw w _ (s.displaced w ++ s.cancelled, s.replaced) ?_
  rw [← List.append_assoc]

theorem replaced_perm (s : Workqueue) (w : ℕ) :
    (s.cancelled ++ (s.displaced w ++ s.replaced)).Perm (s.displaced w ++ (s.cancelled ++ s.replaced)) := by
  rw [← List.append_assoc, ← List.append_assoc]
  exact List.perm_append_comm.append_right _

theorem admitWork {x : RtWork} {l : List ℕ} (h : WorkInv s) (hw : w ∉ s.queue) (hl : l.Perm (w :: s.workList))
    (hx : s.urged w = true ∨ x.pending = true ∧ x.submitting = false) :
    WorkInv (({ s with work := Function.update s.work w x, workList := l } : Workqueue).accept w 0).rtCompletionDone := by
  rw [Workqueue.queue, List.mem_append, not_or] at hw
  have hmem : ∀ v, v ≠ w → (v ∈ l ↔ v ∈ s.workList) := by
    intro v hv
    rw [hl.mem_iff, List.mem_cons, or_iff_right hv]
  obtain ⟨hpc, hdone⟩ := h.rtCompletionDone_awake
    (({ s with work := Function.update s.work w x, workList := l } : Workqueue).accept w 0) rfl rfl
  rw [rtCompletionDone_eq]
  refine h.enter (by simpa [Workqueue.queue] using hw) ?_ (fun v hv => ⟨hmem v hv, .rfl⟩) rfl rfl rfl rfl rfl rfl rfl
    (fun v hv => ⟨Function.update_of_ne hv _ _, rfl⟩) (fun _ => rfl) (fun hd => absurd hd hw.2) ?_
    hpc hdone
  · exact hl.append_right s.delayedList
  · refine hx.imp id fun hx => ?_
    simp only [Workqueue.accept, Function.update_self, hx, hl.mem_iff, List.mem_cons_self, hw.2]
    simp

theorem admitDelayed {x : RtWork} {l : List ℕ} {ticks : ℕ} (h : WorkInv s) (hw : w ∉ s.queue)
    (hl : l.Perm (w :: s.delayedList)) (hx : x.pending = false ∧ x.submitting = true)
    (htick : x.timeoutTick = .ofNat 32 (s.time + ticks)) (hlt : ticks < rtTickMax / 2) :
    WorkInv (({ s with work := Function.update s.work w x, delayedList := l } : Workqueue).accept w ticks).rtCompletionDone := by
  rw [Workqueue.queue, List.mem_append, not_or] at hw
  have hmem : ∀ v, v ≠ w → (v ∈ l ↔ v ∈ s.delayedList) := by
    intro v hv
    rw [hl.mem_iff, List.mem_cons, or_iff_right hv]
  obtain ⟨hpc, hdone⟩ := h.rtCompletionDone_awake
    (({ s with work := Function.update s.work w x, delayedList := l } : Workqueue).accept w ticks) rfl rfl
  rw [rtCompletionDone_eq]
  refine h.enter (by simpa [Workqueue.queue] using hw) ?_ (fun v hv => ⟨.rfl, hmem v hv⟩) rfl rfl rfl rfl rfl rfl rfl
    (fun v hv => ⟨Function.update_of_ne hv _ _, rfl⟩) (fun hd => absurd hd hw.1) (fun _ => ⟨?_, hlt⟩) (.inr ?_)
    hpc hdone
  · exact (hl.append_left s.workList).trans List.perm_middle
  · simpa only [Workqueue.accept, Function.update_self] using htick
  · simp only [Workqueue.accept, Function.update_self, hx, hl.mem_iff, List.mem_cons_self, hw.1]
    simp

theorem workqueueSubmitWork (h : WorkInv s) (w : ℕ) (ticks : BitVec 32) : WorkInv (s.workqueueSubmitWork w ticks).1 := by
  have h₁ := h.withdraw w (s.work w).timeoutTick (s.cancelled, s.displaced w ++ s.replaced) (replaced_perm s w)
  have hw := h.not_mem_remove w
  unfold Workqueue.workqueueSubmitWork
  dsimp only
  split_ifs with h0 hlt
  · refine h₁.admitWork hw (List.perm_append_singleton _ _) (.inr ⟨rfl, ?_⟩)
    simp [Workqueue.setWork]
  · refine h₁.admitDelayed hw (insertDelayed_perm _ _ _) ⟨?_, rfl⟩ ?_ hlt
    · simp [Workqueue.setWork]
    · simp only [Workqueue.rtTickGet, Workqueue.setWork, Workqueue.remove]
      rw [BitVec.ofNat_add, BitVec.ofNat_toNat, BitVec.setWidth_eq]
  · exact h₁

theorem rtWorkqueueUrgentWork (h : WorkInv s) (w : ℕ) : WorkInv (s.rtWorkqueueUrgentWork w) := by
  have h₁ : WorkInv { s.remove w with
      urged := Function.update s.urged w true, replaced := s.displaced w ++ s.replaced } := by
    refine h.clear rfl rfl rfl rfl rfl rfl (replaced_perm s w) rfl (fun v hv => ⟨rfl, ?_⟩) (.inl ?_) rfl rfl
    · exact Function.update_of_ne hv _ _
    · exact Function.update_self _ _ _
  have h₂ := h₁.admitWork (x := s.work w) (h.not_mem_remove w) (.refl _) (.inl (Function.update_self _ _ _))
  have heq : Function.update (s.remove w).work w (s.work w) = (s.remove w).work := Function.update_eq_self _ _
  simp only [heq] at h₂
  exact h₂

theorem due_of_expired (h : WorkInv s) (hw : w ∈ s.delayedList) (he : s.expired w = true) : s.due (s.token w) ≤ s.time := by
  obtain ⟨htick, hsoon⟩ := h.soon w hw
  by_contra hlt
  rw [not_le] at hlt
  have he : (s.rtTickGet - (s.work w).timeoutTick).toNat < rtTickMax / 2 := of_decide_eq_true he
  simp only [rtTickMax] at hsoon he
  rw [htick, Workqueue.rtTickGet, ofNat_sub_of_lt hlt (by omega)] at he
  omega

theorem expire {l : List ℕ} (h : WorkInv s) (hpc : s.pc = .check) (hl : s.delayedList = w :: l) (he : s.expired w = true) :
    WorkInv ({ s with delayedList := l, workList := s.workList ++ [w] }.setWork w
      { s.work w with submitting := false, pending := true }) := by
  have hqueue : s.workList ++ [w] ++ l = s.queue := by rw [Workqueue.queue, hl, List.append_assoc, List.singleton_append]
  have hnodup := h.nodup
  rw [← hqueue] at hnodup
  have hw : w ∉ l := fun hm => List.disjoint_of_nodup_append hnodup (by simp) hm
  have hhead : w ∈ s.delayedList := by simp [hl]
  have hother : ∀ v, v ≠ w → Function.update s.work w { s.work w with submitting := false, pending := true } v = s.work v :=
    fun v hv => Function.update_of_ne hv _ _
  refine ⟨hnodup, ?_, h.onTime, fun v hv => ?_, fun v hv => ?_, fun v hv => ?_, fun t ht => ?_, fun d hd => ?_⟩
  · have htokens := h.tokens
    rw [← hqueue] at htokens
    exact htokens
  · rcases List.mem_append.mp hv with hv | hv
    · exact h.ready v hv
    · rw [List.mem_singleton.mp hv]
      exact h.due_of_expired hhead he
  · have hvw : v ≠ w := fun heq => hw (heq ▸ hv)
    have hsoon := h.soon v (by rw [hl]; exact List.mem_cons_of_mem _ hv)
    rw [← hother v hvw] at hsoon
    exact hsoon
  · by_cases hvw : v = w
    · subst hvw
      simp [Workqueue.setWork, hw]
    · have hflags := h.flags v hv
      rw [← hother v hvw, hl] at hflags
      simpa [Workqueue.setWork, hvw] using hflags
  · cases hpc.symm.trans ht
  · cases hpc.symm.trans hd

theorem timerCheck (h : WorkInv s) (hpc : s.pc = .check) :
    WorkInv (s.timerCheck s.delayedList) ∧ (s.timerCheck s.delayedList).pc = .check := by
  generalize hl : s.delayedList = l
  induction l generalizing s with
  | nil => exact ⟨h, hpc⟩
  | cons w l ih =>
    rw [Workqueue.timerCheck]
    split_ifs with he
    · exact ih (h.expire hpc hl he) hpc rfl
    · exact ⟨h, hpc⟩

theorem take {l : List ℕ} (h : WorkInv s) (hl : s.workList = w :: l) :
    WorkInv { s.setWork w { s.work w with pending := false } with
      workList := l, workCurrent := some w, pc := .running w, ran := (s.token w, s.time) :: s.ran } := by
  have hqueue : s.queue = w :: (l ++ s.delayedList) := by rw [Workqueue.queue, hl, List.cons_append]
  obtain ⟨hw, hnodup⟩ := List.nodup_cons.mp (hqueue ▸ h.nodup)
  rw [List.mem_append, not_or] at hw
  have hhead : w ∈ s.workList := by simp [hl]
  have hother : ∀ v, v ≠ w → Function.update s.work w { s.work w with pending := false } v = s.work v :=
    fun v hv => Function.update_of_ne hv _ _
  refine ⟨hnodup, ?_, fun p hp => ?_, fun v hv => ?_, fun v hv => ?_, fun v hv => ?_, fun t ht => ?_, fun d hd => ?_⟩
  · have htokens := h.tokens
    rw [hqueue, List.map_cons, List.cons_append] at htokens
    exact List.perm_middle.trans htokens
  · rcases List.mem_cons.mp hp with rfl | hp
    · exact h.ready w hhead
    · exact h.onTime p hp
  · exact h.ready v (by rw [hl]; exact List.mem_cons_of_mem _ hv)
  · have hvw : v ≠ w := fun heq => hw.2 (heq ▸ hv)
    have hsoon := h.soon v hv
    rw [← hother v hvw] at hsoon
    exact hsoon
  · by_cases hvw : v = w
    · subst hvw
      have hflags := (h.flags v hv).2
      simpa [Workqueue.setWork, hw] using hflags
    · have hflags := h.flags v hv
      rw [← hother v hvw, hl] at hflags
      simpa [Workqueue.setWork, hvw] using hflags
  · cases ht
  · cases hd

theorem threadTurn (h : WorkInv s) (hpc : s.pc = .check) : WorkInv s.threadTurn := by
  obtain ⟨h', -⟩ := h.timerCheck hpc
  unfold Workqueue.threadTurn
  dsimp only
  split
  · next hempty =>
    refine ⟨h'.nodup, h'.tokens, h'.onTime, h'.ready, h'.soon, h'.flags, fun t ht => ?_, fun d hd => ?_⟩
    · cases ht
    · exact .inr hempty
  · next w l hl => exact h'.take hl

theorem proceed {p : WorkerPc} {completed : Bool} {workCurrent : Option ℕ} (h : WorkInv s) 
    (hasleep : ∀ t, p = .asleep t → s.workList = [] ∧ completed = false) (hwaiting : ∀ d, p ≠ .wait d) :
    WorkInv { s with workCurrent := workCurrent, completed := completed, pc := p } :=
  ⟨h.nodup, h.tokens, h.onTime, h.ready, h.soon, h.flags, hasleep, fun d hd => absurd hd (hwaiting d)⟩

theorem rtCompletionWait {d : ℤ} (h : WorkInv s) (hpc : s.pc = .wait d) : WorkInv (s.rtCompletionWait d) := by
  unfold Workqueue.rtCompletionWait
  split_ifs with hdone h0
  · exact h.proceed (by simp) (by simp)
  · exact h.proceed (by simp) (by simp)
  · refine h.proceed (fun t _ => ⟨?_, ?_⟩) (by simp)
    · exact (h.waiting d hpc).resolve_left hdone
    · simpa using hdone
  · refine h.proceed (fun t _ => ⟨?_, ?_⟩) (by simp)
    · exact (h.waiting d hpc).resolve_left hdone
    · simpa using hdone

theorem step {e : WorkEvent} (h : WorkInv s) (hs : s.step e = some s') : WorkInv s' := by
  cases e with
  | submit w ticks =>
    cases hs
    exact h.workqueueSubmitWork w ticks
  | urgent w =>
    cases hs
    exact h.rtWorkqueueUrgentWork w
  | cancel w =>
    cases hs
    exact h.workqueueCancelWork w
  | tick =>
    cases hs
    refine ⟨h.nodup, h.tokens, h.onTime, fun w hw => ?_, fun w hw => ?_, h.flags, h.asleep, h.waiting⟩
    · exact (h.ready w hw).trans (Nat.le_succ _)
    · obtain ⟨htick, hsoon⟩ := h.soon w hw
      exact ⟨htick, by dsimp only; omega⟩
  | turn =>
    simp only [Workqueue.step] at hs
    split_ifs at hs with hpc
    cases hs
    exact h.threadTurn hpc
  | wait =>
    simp only [Workqueue.step] at hs
    split at hs <;> cases hs
    next d hpc => exact h.rtCompletionWait hpc
  | expire =>
    simp only [Workqueue.step] at hs
    split at hs
    · split_ifs at hs
      cases hs
      exact h.proceed (by simp) (by simp)
    · cases hs
  | resume =>
    simp only [Workqueue.step] at hs
    split_ifs at hs
    cases hs
    exact h.proceed (by simp) (by simp)
  | finish =>
    simp only [Workqueue.step] at hs
    split at hs <;> cases hs
    exact h.proceed (by simp) (by simp)

end WorkInv

end RtSmart
