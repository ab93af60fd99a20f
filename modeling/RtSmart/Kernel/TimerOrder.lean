import RtSmart.Kernel.Timer

/-!
The order of the timer lists. The comparison of deadlines is an order on every window of half the
tick range; a timer is started inside one.
-/

namespace RtSmart

open Lib

namespace TimerSys

/-- `a` is not after `b` under the wrap-around comparison. -/
def Before (a b : BitVec 32) : Prop := (b - a).toNat < rtTickMax / 2

instance (a b : BitVec 32) : Decidable (Before a b) := inferInstanceAs (Decidable (_ < _))

def deadline (s : TimerSys) (t : ℕ) : BitVec 32 := (s.timer t).timeoutTick

/-- By deadline, and by the start of the timer where the deadlines are equal. -/
def Ordered (s : TimerSys) (a b : ℕ) : Prop :=
  Before (s.deadline a) (s.deadline b) ∧ (s.deadline a = s.deadline b → s.startNo a < s.startNo b)

def Window (l : List (BitVec 32)) : Prop := ∃ r ∈ l, ∀ d ∈ l, Before r d

-- over the list, not over all the words
instance (l : List (BitVec 32)) : Decidable (Window l) :=
  have (r : BitVec 32) : Decidable (∀ d ∈ l, Before r d) := List.decidableBAll _ l
  List.decidableBEx _ l

theorem before_iff {r a b : BitVec 32} (ha : Before r a) (hb : Before r b) :
    Before a b ↔ (a - r).toNat ≤ (b - r).toNat := by
  unfold Before rtTickMax at *
  bv_omega

theorem Before.trans_of_window {r a b c : BitVec 32} (ha : Before r a) (hb : Before r b) (hc : Before r c)
    (hab : Before a b) (hbc : Before b c) : Before a c := by
  rw [before_iff ha hb] at hab
  rw [before_iff hb hc] at hbc
  exact (before_iff ha hc).mpr (hab.trans hbc)

theorem passes_iff {r new : BitVec 32} {timer : ℕ → RtTimer} {t : ℕ} (ht : Before r (timer t).timeoutTick)
    (hn : Before r new) : passes timer new t ↔ Before (timer t).timeoutTick new := by
  rw [before_iff ht hn]
  unfold passes Before rtTickMax at *
  split_ifs with h0 hlt
  · simp only [true_iff]
    bv_omega
  · simp only [false_iff]
    bv_omega
  · simp only [true_iff]
    bv_omega

theorem not_passes {timer : ℕ → RtTimer} {new : BitVec 32} {t : ℕ} (h : passes timer new t = false) :
    Before new (timer t).timeoutTick ∧ new ≠ (timer t).timeoutTick := by
  unfold passes at h
  split_ifs at h with h0 hlt
  refine ⟨hlt, ?_⟩
  rintro rfl
  exact h0 (BitVec.sub_self _)

theorem Window.falling {s : TimerSys} {l : List ℕ} {new : BitVec 32} (hw : Window (new :: l.map s.deadline))
    (hs : l.Pairwise s.Ordered) : SkipList.Falling (passes s.timer new) l := by
  obtain ⟨r, -, hr⟩ := hw
  have hmem : ∀ t ∈ l, Before r (s.deadline t) := fun t ht => hr _ (by simp; exact Or.inr ⟨t, ht, rfl⟩)
  have hnew : Before r new := hr new (by simp)
  apply hs.imp_of_mem
  intro a b ha hb hab hpb
  rw [passes_iff (hmem a ha) hnew]
  rw [passes_iff (hmem b hb) hnew] at hpb
  exact (hmem a ha).trans_of_window (hmem b hb) hnew hab.1 hpb

/-- The invariant of the two lists and the two checks; `x` is a timer whose flag is not settled yet. -/
structure Listed (level : ℕ) (x : Option ℕ) (s : TimerSys) : Prop where
  sub : ∀ kind i, i + 1 < level → (s.rows kind i).Sublist (s.rows kind (i + 1))
  nodup : ∀ kind, (s.rows kind (level - 1)).Nodup
  sorted : ∀ kind, (s.rows kind (level - 1)).Pairwise s.Ordered
  kind_eq : ∀ kind, ∀ t ∈ s.rows kind (level - 1), (s.timer t).soft = kind
  active : ∀ t, some t ≠ x → (∀ kind, t ∉ s.list kind) →
    ((s.timer t).activated ↔ t ∈ s.rows (s.timer t).soft (level - 1))
  temporary : ∀ kind, s.list kind = [] ∨ ∃ t, s.list kind = [t] ∧ s.expiring kind = some t
  outside : ∀ kind, ∀ t ∈ s.list kind, (s.timer t).soft = kind ∧ t ∉ s.rows kind (level - 1)
  started : ∀ kind, ∀ t ∈ s.rows kind (level - 1), s.startNo t < s.starts

structure Off (level : ℕ) (s : TimerSys) (t : ℕ) : Prop where
  rows : ∀ kind i, i < level → t ∉ s.rows kind i
  list : ∀ kind, t ∉ s.list kind

variable {level : ℕ} {mask : BitVec 32} {s s' : TimerSys} {t : ℕ} {kind : Bool} {x : Option ℕ}

theorem Listed.row_sublist (h : s.Listed level x) {i : ℕ} (hi : i < level) :
    (s.rows kind i).Sublist (s.rows kind (level - 1)) := by
  have hle : i ≤ level - 1 := by omega
  induction hle using Nat.decreasingInduction with
  | of_succ j hj ih =>
    have hnext := h.sub kind j (by omega)
    rcases Nat.lt_or_ge (j + 1) level with hlt | hge
    · exact hnext.trans (ih hlt)
    · omega
  | self => exact List.Sublist.refl _

theorem Listed.remove (h : s.Listed level none) (t : ℕ) :
    (s.remove t).Listed level (some t) ∧ (s.remove t).Off level t := by
  have hrows : ∀ kind i, i < level → t ∉ (s.rows kind i).erase t := by
    intro kind i hi
    exact ((h.row_sublist hi).nodup (h.nodup kind)).not_mem_erase
  have hlist : ∀ kind, (s.list kind).erase t = [] ∨ ∃ u, (s.list kind).erase t = [u] ∧ s.list kind = [u] ∧ u ≠ t ∧
      s.expiring kind = some u := by
    intro kind
    rcases h.temporary kind with hnil | ⟨u, hu, he⟩
    · exact Or.inl (by rw [hnil]; rfl)
    · by_cases hut : u = t
      · exact Or.inl (by rw [hu, hut]; simp)
      · refine Or.inr ⟨u, ?_, hu, hut, he⟩
        rw [hu, List.erase_cons_tail (by simpa using hut)]
        rfl
  have hoff : (s.remove t).Off level t := by
    refine ⟨hrows, ?_⟩
    intro kind hmem
    rcases hlist kind with hnil | ⟨u, hu, -, hut, -⟩
    · simp [TimerSys.remove, hnil] at hmem
    · simp [TimerSys.remove, hu, Ne.symm hut] at hmem
  refine ⟨?_, hoff⟩
  constructor
  · intro kind i hi
    exact (h.sub kind i hi).erase t
  · intro kind
    exact (h.nodup kind).erase t
  · intro kind
    exact (h.sorted kind).sublist List.erase_sublist
  · intro kind u hu
    exact h.kind_eq kind u (List.mem_of_mem_erase hu)
  · intro u hut hu
    have hne : u ≠ t := by simpa using hut
    have hmem (l : List ℕ) : u ∈ l.erase t ↔ u ∈ l := List.mem_erase_of_ne hne
    rw [show (s.remove t).timer = s.timer from rfl, h.active u (by simp) fun kind hk => hu kind ((hmem _).mpr hk)]
    exact (hmem _).symm
  · intro kind
    rcases hlist kind with hnil | ⟨u, hu, -, -, he⟩
    · exact Or.inl hnil
    · exact Or.inr ⟨u, hu, he⟩
  · intro kind u hu
    have hk := h.outside kind u (List.mem_of_mem_erase hu)
    exact ⟨hk.1, fun hr => hk.2 (List.mem_of_mem_erase hr)⟩
  · intro kind u hu
    exact h.started kind u (List.mem_of_mem_erase hu)

theorem Listed.setTimer (h : s.Listed level x) {f : RtTimer → RtTimer} {y : Option ℕ}
    (hsoft : (f (s.timer t)).soft = (s.timer t).soft)
    (hdead : (∀ kind, t ∉ s.rows kind (level - 1)) ∨ (f (s.timer t)).timeoutTick = (s.timer t).timeoutTick)
    (hact : some t ≠ y → (∀ kind, t ∉ s.list kind) →
      ((f (s.timer t)).activated ↔ t ∈ s.rows (s.timer t).soft (level - 1)))
    (hy : ∀ u, u ≠ t → some u = x → some u = y) : (s.setTimer t f).Listed level y := by
  have htimer : ∀ u, u ≠ t → (s.setTimer t f).timer u = s.timer u := fun u hu => setTimer_of_ne s f hu
  have hself : (s.setTimer t f).timer t = f (s.timer t) := setTimer_self s t f
  have hkind : ∀ u, ((s.setTimer t f).timer u).soft = (s.timer u).soft := by
    intro u
    by_cases hu : u = t
    · rw [hu, hself, hsoft]
    · rw [htimer u hu]
  have hdl : ∀ kind, ∀ u ∈ s.rows kind (level - 1), (s.setTimer t f).deadline u = s.deadline u := by
    intro kind u hu
    unfold deadline
    by_cases hut : u = t
    · subst hut
      rw [hself]
      exact hdead.resolve_left fun hn => hn kind hu
    · rw [htimer u hut]
  constructor
  · exact h.sub
  · exact h.nodup
  · intro kind
    apply (h.sorted kind).imp_of_mem
    intro a b ha hb hab
    unfold Ordered
    rw [hdl kind a ha, hdl kind b hb]
    exact hab
  · intro kind u hu
    rw [hkind]
    exact h.kind_eq kind u hu
  · intro u hu hl
    rw [hkind]
    by_cases hut : u = t
    · subst hut
      rw [hself]
      exact hact hu hl
    · rw [htimer u hut]
      exact h.active u (fun hx => hu (hy u hut hx)) hl
  · exact h.temporary
  · intro kind u hu
    rw [hkind]
    exact h.outside kind u hu
  · exact h.started

theorem Listed.deactivate (h : s.Listed level x) (hx : ∀ u, u ≠ t → some u ≠ x)
    (ht : ∀ kind, t ∉ s.rows kind (level - 1)) : (s.deactivate t).Listed level none := by
  apply h.setTimer rfl (Or.inr rfl)
  · intro _ _
    simpa using ht _
  · intro u hu hux
    exact absurd hux (hx u hu)

theorem Listed.removed (h : s.Listed level none) (hl : 0 < level) (t : ℕ) :
    ((s.remove t).deactivate t).Listed level none ∧ ((s.remove t).deactivate t).Off level t := by
  obtain ⟨hr, hoff⟩ := h.remove t
  refine ⟨hr.deactivate ?_ fun kind => hoff.rows kind _ (by omega), hoff.rows, hoff.list⟩
  intro u hu
  simpa using hu

theorem insertRows_place {timer : ℕ → RtTimer} {rows : ℕ → List ℕ} (extra : ℕ) {i : ℕ} (hi : i < level)
    (hsub : ∀ j, j + 1 < level → (rows j).Sublist (rows (j + 1))) (hrow : (rows i).Sublist (rows (level - 1)))
    (hnd : (rows (level - 1)).Nodup) (hf : SkipList.Falling (passes timer (timer t).timeoutTick) (rows (level - 1))) :
    insertRows level extra t timer rows i =
      if level - 1 - i ≤ extra then SkipList.place (passes timer (timer t).timeoutTick) t (rows i) else rows i := by
  have hfi := hf.sublist hrow
  have hdi := hrow.nodup hnd
  have hdesc := SkipList.descend_eq i hfi hdi fun j hj => hsub j (by omega)
  unfold insertRows
  simp only [hi, true_and]
  split
  · rw [hdesc]
    exact SkipList.insertAfter_eq hfi hdi
  · rfl

theorem insertRows_eq (h : s.Listed level x) (extra : ℕ) {i : ℕ} (hi : i < level)
    (hf : SkipList.Falling (passes s.timer (s.deadline t)) (s.rows kind (level - 1))) :
    insertRows level extra t s.timer (s.rows kind) i =
      if level - 1 - i ≤ extra then SkipList.place (passes s.timer (s.deadline t)) t (s.rows kind i)
      else s.rows kind i :=
  insertRows_place extra hi (h.sub kind) (h.row_sublist hi) (h.nodup kind) hf

theorem pairwise_place {l : List ℕ} (hs : l.Pairwise s.Ordered) (hw : Window (s.deadline t :: l.map s.deadline))
    (ht : t ∉ l) (hn : ∀ u ∈ l, s.startNo u < s.starts) (hs' : s'.timer = s.timer)
    (hno : s'.startNo = Function.update s.startNo t s.starts) :
    (SkipList.place (passes s.timer (s.deadline t)) t l).Pairwise s'.Ordered := by
  have hf := hw.falling hs
  have hold : l.Pairwise s'.Ordered := by
    apply hs.imp_of_mem
    intro a b ha hb hab
    have hat : a ≠ t := fun h => ht (h ▸ ha)
    have hbt : b ≠ t := fun h => ht (h ▸ hb)
    unfold Ordered deadline at *
    rw [hs', hno, Function.update_of_ne hat, Function.update_of_ne hbt]
    exact hab
  rw [← hf.filter_append] at hold
  obtain ⟨hpre, hpost, hcross⟩ := List.pairwise_append.mp hold
  obtain ⟨r, -, hr⟩ := hw
  have hnew : Before r (s.deadline t) := hr _ (by simp)
  have hmem : ∀ u ∈ l, Before r (s.deadline u) := fun u hu => hr _ (by simp; exact Or.inr ⟨u, hu, rfl⟩)
  apply List.pairwise_append.mpr
  refine ⟨hpre, List.pairwise_cons.mpr ⟨?_, hpost⟩, ?_⟩
  · intro b hb
    obtain ⟨-, hpb⟩ := List.mem_filter.mp hb
    obtain ⟨hbefore, hne⟩ := not_passes (by simpa using hpb)
    unfold Ordered deadline
    rw [hs']
    exact ⟨hbefore, fun he => absurd he hne⟩
  · intro a ha b hb
    obtain ⟨hal, hpa⟩ := List.mem_filter.mp ha
    rcases List.mem_cons.mp hb with rfl | hb
    · have hat : a ≠ b := fun h => ht (h ▸ hal)
      unfold Ordered
      refine ⟨?_, fun _ => ?_⟩
      · unfold deadline
        rw [hs']
        exact (passes_iff (hmem a hal) hnew).mp hpa
      · rw [hno, Function.update_of_ne hat, Function.update_self]
        exact hn a hal
    · exact hcross a ha b hb

theorem Listed.link (mask : BitVec 32) (h : s.Listed level none) (hl : 0 < level) (hoff : s.Off level t)
    (hw : Window (s.deadline t :: (s.rows (s.timer t).soft (level - 1)).map s.deadline)) :
    (s.link level mask t).Listed level (some t) ∧ t ∈ (s.link level mask t).rows (s.timer t).soft (level - 1) := by
  have hf := hw.falling (h.sorted (s.timer t).soft)
  unfold TimerSys.link
  dsimp only
  generalize extraRows mask (level - 1) (s.randomNr + 1) = extra
  have hins := fun i (hi : i < level) => insertRows_eq h extra hi hf
  have hbot : insertRows level extra t s.timer (s.rows (s.timer t).soft) (level - 1) =
      SkipList.place (passes s.timer (s.deadline t)) t (s.rows (s.timer t).soft (level - 1)) := by
    rw [hins _ (by omega), if_pos (by omega)]
  have hnot := fun kind => hoff.rows kind (level - 1) (by omega)
  -- membership in the bottom rows
  have hmem : ∀ kind u, u ∈ Function.update s.rows (s.timer t).soft
      (insertRows level extra t s.timer (s.rows (s.timer t).soft)) kind (level - 1) ↔
      (u = t ∧ kind = (s.timer t).soft) ∨ u ∈ s.rows kind (level - 1) := by
    intro kind u
    by_cases hk : kind = (s.timer t).soft
    · subst hk
      rw [Function.update_self, hbot, SkipList.mem_place]
      simp
    · rw [Function.update_of_ne hk]
      simp [hk]
  refine ⟨?_, (hmem _ _).mpr (Or.inl ⟨rfl, rfl⟩)⟩
  constructor <;> dsimp only
  case sub =>
    intro kind i hi
    by_cases hk : kind = (s.timer t).soft
    · subst hk
      simp only [Function.update_self]
      rw [hins i (by omega), hins (i + 1) hi]
      have hsub := h.sub (s.timer t).soft i hi
      split_ifs
      · exact SkipList.place_sublist hsub
      · omega
      · exact hsub.trans (SkipList.sublist_place (hf.sublist (h.row_sublist hi)))
      · exact hsub
    · rw [Function.update_of_ne hk]
      exact h.sub kind i hi
  case nodup =>
    intro kind
    by_cases hk : kind = (s.timer t).soft
    · subst hk
      rw [Function.update_self, hbot]
      exact SkipList.nodup_place (h.nodup _) (hnot _)
    · rw [Function.update_of_ne hk]
      exact h.nodup kind
  case sorted =>
    intro kind
    by_cases hk : kind = (s.timer t).soft
    · subst hk
      rw [Function.update_self, hbot]
      exact pairwise_place (h.sorted _) hw (hnot _) (h.started _) rfl rfl
    · rw [Function.update_of_ne hk]
      apply (h.sorted kind).imp_of_mem
      intro a b ha hb hab
      have hat : a ≠ t := fun he => hnot kind (he ▸ ha)
      have hbt : b ≠ t := fun he => hnot kind (he ▸ hb)
      unfold Ordered deadline at *
      dsimp only
      rw [Function.update_of_ne hat, Function.update_of_ne hbt]
      exact hab
  case kind_eq =>
    intro kind u hu
    rcases (hmem kind u).mp hu with ⟨rfl, rfl⟩ | hu
    · rfl
    · exact h.kind_eq kind u hu
  case active =>
    intro u hut hlist
    have hne : u ≠ t := by simpa using hut
    rw [hmem, h.active u (by simp) hlist]
    simp [hne]
  case temporary => exact h.temporary
  case outside =>
    intro kind u hu
    have hne : u ≠ t := fun he => hoff.list kind (he ▸ hu)
    obtain ⟨hsoft, hrow⟩ := h.outside kind u hu
    rw [hmem]
    simp [hne, hrow, hsoft]
  case started =>
    intro kind u hu
    rcases (hmem kind u).mp hu with ⟨rfl, rfl⟩ | hu
    · simp
    · have hne : u ≠ t := fun he => hnot kind (he ▸ hu)
      rw [Function.update_of_ne hne]
      exact (h.started kind u hu).trans (Nat.lt_succ_self _)

/-- The deadlines among which the timer is placed by `rt_timer_start`. -/
def startWindow (level : ℕ) (s : TimerSys) (t : ℕ) : Prop :=
  Window ((s.tick + (s.timer t).initTick) ::
    ((s.rows (s.timer t).soft (level - 1)).erase t).map s.deadline)

instance (level : ℕ) (s : TimerSys) (t : ℕ) : Decidable (startWindow level s t) :=
  inferInstanceAs (Decidable (Window _))

theorem Listed.setTimeout (h : s.Listed level none) (hl : 0 < level) (hoff : s.Off level t) :
    (s.setTimeout t).Listed level none ∧ (s.setTimeout t).Off level t := by
  refine ⟨?_, hoff.rows, hoff.list⟩
  apply h.setTimer rfl (Or.inl fun kind => hoff.rows kind _ (by omega))
  · intro hy hlist
    exact h.active t hy hlist
  · intro u _ hu
    exact hu

theorem deadline_removed (t : ℕ) : ((s.remove t).deactivate t).deadline = s.deadline := by
  funext u
  unfold deadline deactivate
  by_cases hu : u = t
  · rw [hu, setTimer_self]
    rfl
  · rw [setTimer_of_ne _ _ hu]
    rfl

theorem Listed.start (h : s.Listed level none) (hl : 0 < level) (hw : startWindow level s t)
    (hs : rtTimerStart level mask s t = some s') : s'.Listed level none := by
  obtain ⟨hr, hoff⟩ := h.removed hl t
  unfold rtTimerStart at hs
  dsimp only at hs
  split at hs
  case isFalse => cases hs
  case isTrue =>
    obtain rfl := Option.some.inj hs
    -- the deadline is set while the timer is on no list
    obtain ⟨h1, hoff1⟩ := hr.setTimeout hl hoff
    have hself : (((s.remove t).deactivate t).setTimeout t).timer t =
        { s.timer t with activated := false, timeoutTick := s.tick + (s.timer t).initTick } := by
      unfold TimerSys.setTimeout TimerSys.deactivate
      rw [setTimer_self, setTimer_self]
      rfl
    have hw1 : Window ((((s.remove t).deactivate t).setTimeout t).deadline t ::
        ((((s.remove t).deactivate t).setTimeout t).rows
          ((((s.remove t).deactivate t).setTimeout t).timer t).soft (level - 1)).map
          (((s.remove t).deactivate t).setTimeout t).deadline) := by
      rw [deadline, hself]
      have hcongr : ((s.rows (s.timer t).soft (level - 1)).erase t).map
          (((s.remove t).deactivate t).setTimeout t).deadline =
          ((s.rows (s.timer t).soft (level - 1)).erase t).map s.deadline := by
        apply List.map_congr_left
        intro u hu
        have hut : u ≠ t := fun he => hoff.rows (s.timer t).soft (level - 1) (by omega) (he ▸ hu)
        have hd := congrFun (deadline_removed (s := s) t) u
        rw [← hd]
        unfold deadline TimerSys.setTimeout
        rw [setTimer_of_ne _ _ hut]
      unfold startWindow at hw
      rw [← hcongr] at hw
      exact hw
    obtain ⟨h2, hmem⟩ := h1.link mask hl hoff1 hw1
    apply h2.setTimer rfl (Or.inr rfl)
    · intro _ _
      exact iff_of_true rfl hmem
    · intro u hu hx
      exact absurd (Option.some.inj hx) hu

theorem Listed.control (h : s.Listed level none) (cmd : TimerCmd) : (rtTimerControl s t cmd).1.Listed level none := by
  have hset : ∀ f : RtTimer → RtTimer, (f (s.timer t)).soft = (s.timer t).soft →
      (f (s.timer t)).timeoutTick = (s.timer t).timeoutTick → (f (s.timer t)).activated = (s.timer t).activated →
      (s.setTimer t f).Listed level none := by
    intro f hsoft hdead hact
    apply h.setTimer hsoft (Or.inr hdead)
    · intro hy hlist
      rw [hact]
      exact h.active t hy hlist
    · intro u _ hu
      exact hu
  cases cmd with
  | getTime | getState | getFunc | getParm | getRemainTime => exact h
  | setTime arg | setOneshot | setPeriodic | setFunc arg | setParm arg =>
    simp only [rtTimerControl]
    apply hset <;> rfl

theorem Listed.push (h : s.Listed level x) (hoff : s.Off level t) (hx : x = none ∨ x = some t) (hl : 0 < level)
    (hsoft : (s.timer t).soft = kind) (hnil : s.list kind = []) :
    Listed level none { s with
      list := Function.update s.list kind (t :: s.list kind)
      expiring := Function.update s.expiring kind (some t) } := by
  have hnot := fun k => hoff.rows k (level - 1) (by omega)
  constructor <;> dsimp only
  case sub => exact h.sub
  case nodup => exact h.nodup
  case sorted => exact h.sorted
  case kind_eq => exact h.kind_eq
  case active =>
    intro u _ hlist
    have hut : u ≠ t := by
      rintro rfl
      exact hlist kind (by simp)
    apply h.active u
    · rcases hx with rfl | rfl
      · simp
      · simpa using hut
    · intro k hk
      have hmem := hlist k
      by_cases hkk : k = kind
      · subst hkk
        simp [hnil] at hk
      · rw [Function.update_of_ne hkk] at hmem
        exact hmem hk
  case temporary =>
    intro k
    by_cases hk : k = kind
    · subst hk
      exact Or.inr ⟨t, by simp [hnil], by simp⟩
    · rw [Function.update_of_ne hk, Function.update_of_ne hk]
      exact h.temporary k
  case outside =>
    intro k u hu
    by_cases hk : k = kind
    · subst hk
      obtain rfl : u = t := by simpa [hnil] using hu
      exact ⟨hsoft, hnot k⟩
    · rw [Function.update_of_ne hk] at hu
      exact h.outside k u hu
  case started => exact h.started

theorem Listed.expire (h : s.Listed level none) (hl : 0 < level) (hs : checkExpire level s kind = some s') :
    s'.Listed level none := by
  unfold checkExpire at hs
  split at hs
  case isTrue => cases hs
  case isFalse hnone =>
    have hexp : s.expiring kind = none := by simpa using hnone
    have hnil : s.list kind = [] := by
      rcases h.temporary kind with hnil | ⟨u, -, hu⟩
      · exact hnil
      · rw [hexp] at hu
        cases hu
    split at hs
    case h_1 => exact Option.some.inj hs ▸ h
    case h_2 t l hrow =>
      split at hs
      case isFalse => exact Option.some.inj hs ▸ h
      case isTrue =>
        dsimp only at hs
        obtain rfl := Option.some.inj hs
        have hsoft : (s.timer t).soft = kind := h.kind_eq kind t (by rw [hrow]; exact List.mem_cons_self)
        have hnil' : (s.remove t).list kind = [] := by
          unfold TimerSys.remove
          simp [hnil]
        obtain ⟨hr, hoff⟩ := h.remove t
        split
        · exact hr.push hoff (Or.inr rfl) hl hsoft hnil'
        · obtain ⟨hd, hoffd⟩ := h.removed hl t
          apply hd.push hoffd (Or.inl rfl) hl _ hnil'
          unfold TimerSys.deactivate
          rw [setTimer_self]
          exact hsoft

theorem Listed.pop (kind : Bool) (h : s.Listed level none) {l : List ℕ} (hl : l = []) :
    Listed level (s.expiring kind) { s with
      expiring := Function.update s.expiring kind none
      list := Function.update s.list kind l } := by
  subst hl
  constructor <;> dsimp only
  case sub => exact h.sub
  case nodup => exact h.nodup
  case sorted => exact h.sorted
  case kind_eq => exact h.kind_eq
  case active =>
    intro u hu hlist
    apply h.active u (by simp)
    intro k hk
    by_cases hkk : k = kind
    · subst hkk
      rcases h.temporary k with hnil | ⟨t, ht, he⟩
      · simp [hnil] at hk
      · rw [ht, List.mem_singleton] at hk
        exact hu (by rw [he, hk])
    · have hmem := hlist k
      rw [Function.update_of_ne hkk] at hmem
      exact hmem hk
  case temporary =>
    intro k
    by_cases hk : k = kind
    · subst hk
      exact Or.inl (by simp)
    · rw [Function.update_of_ne hk, Function.update_of_ne hk]
      exact h.temporary k
  case outside =>
    intro k u hu
    by_cases hk : k = kind
    · subst hk
      simp at hu
    · rw [Function.update_of_ne hk] at hu
      exact h.outside k u hu
  case started => exact h.started

/-- A restart happens in a window, and a timer that is still marked when its timeout function returns is
still periodic. -/
def keeps (level : ℕ) (s : TimerSys) : Event → Prop
  | .start t => startWindow level s t
  | .finish kind => ∀ t, s.expiring kind = some t → s.list kind ≠ [] → (s.timer t).activated →
    (s.timer t).periodic ∧ startWindow level s t
  | _ => True

instance (level : ℕ) (s : TimerSys) : ∀ e, Decidable (keeps level s e)
  | .start t => inferInstanceAs (Decidable (startWindow level s t))
  | .finish kind => inferInstanceAs (Decidable (∀ t ∈ s.expiring kind, s.list kind ≠ [] → (s.timer t).activated →
      (s.timer t).periodic ∧ startWindow level s t))
  | .tick _ | .stop _ | .control _ _ | .expire _ => isTrue trivial

theorem Listed.finish (h : s.Listed level none) (hl : 0 < level) (hk : s.keeps level (.finish kind))
    (hs : checkFinish level mask s kind = some s') : s'.Listed level none := by
  unfold checkFinish at hs
  split at hs
  case h_1 => cases hs
  case h_2 t hexp =>
    dsimp only at hs
    have hcase := h.temporary kind
    split at hs
    case isTrue hnil =>
      -- the timer was stopped or started again meanwhile
      obtain rfl := Option.some.inj hs
      have hp := h.pop kind hnil
      rw [Function.update_eq_self] at hp
      refine ⟨hp.sub, hp.nodup, hp.sorted, hp.kind_eq, fun u _ hu => h.active u (by simp) hu, hp.temporary, hp.outside,
        hp.started⟩
    case isFalse hcons =>
      obtain ⟨u, hu, hu'⟩ := hcase.resolve_left hcons
      obtain rfl : u = t := by rw [hexp] at hu'; exact Option.some.inj hu'.symm
      have herase : (s.list kind).erase u = [] := by rw [hu]; simp
      have hp := h.pop kind herase
      rw [hexp] at hp
      have hout := h.outside kind u (by rw [hu]; simp)
      have hnot : ∀ k, u ∉ s.rows k (level - 1) := by
        intro k hmem
        have hk' := h.kind_eq k u hmem
        rw [hout.1] at hk'
        exact hout.2 (hk' ▸ hmem)
      have hd := hp.deactivate (t := u) (fun v hv => by simpa using hv) hnot
      have hkeep := hk u hexp hcons
      split at hs
      case isTrue hact =>
        apply hd.start hl _ hs
        have hw := (hkeep hact.2).2
        unfold startWindow at hw ⊢
        have hself : (TimerSys.deactivate { s with
            expiring := Function.update s.expiring kind none
            list := Function.update s.list kind ((s.list kind).erase u) } u).timer u =
            { s.timer u with activated := false } := setTimer_self _ _ _
        have hdead : (TimerSys.deactivate { s with
            expiring := Function.update s.expiring kind none
            list := Function.update s.list kind ((s.list kind).erase u) } u).deadline = s.deadline := by
          funext v
          unfold deadline TimerSys.deactivate
          by_cases hv : v = u
          · rw [hv, setTimer_self]
          · rw [setTimer_of_ne _ _ hv]
        rw [hself, hdead]
        exact hw
      case isFalse hact =>
        obtain rfl := Option.some.inj hs
        refine ⟨hp.sub, hp.nodup, hp.sorted, hp.kind_eq, ?_, hp.temporary, hp.outside, hp.started⟩
        intro v _ hv
        by_cases hvu : v = u
        · subst hvu
          apply iff_of_false
          · intro ha
            exact hact ⟨(hkeep ha).1, ha⟩
          · exact hnot _
        · exact hp.active v (by simpa using hvu) hv

theorem Listed.step (h : s.Listed level none) (hl : 0 < level) {e : Event} (hk : s.keeps level e)
    (hs : s.step level mask e = some s') : s'.Listed level none := by
  cases e with
  | tick n =>
    obtain rfl := Option.some.inj hs
    exact ⟨h.sub, h.nodup, h.sorted, h.kind_eq, h.active, h.temporary, h.outside, h.started⟩
  | start t => exact h.start hl hk hs
  | stop t =>
    obtain rfl := Option.some.inj hs
    unfold rtTimerStop
    split
    · exact (h.removed hl t).1
    · exact h
  | control t cmd =>
    obtain rfl := Option.some.inj hs
    exact h.control cmd
  | expire kind => exact h.expire hl hs
  | finish kind => exact h.finish hl hk hs

theorem listed_init (level : ℕ) (tick : BitVec 32) (timer : ℕ → RtTimer) : (init tick timer).Listed level none := by
  constructor <;> simp [init]

/-- The bottom row lists the active timers in the order of their deadlines, and each row is a
sub-sequence of the one below. -/
structure Coherent (level : ℕ) (s : TimerSys) : Prop where
  sub : ∀ kind i, i + 1 < level → (s.rows kind i).Sublist (s.rows kind (i + 1))
  nodup : ∀ kind, (s.rows kind (level - 1)).Nodup
  sorted : ∀ kind, (s.rows kind (level - 1)).Pairwise s.Ordered
  active : ∀ t kind, (∀ k, s.expiring k ≠ some t) →
    (t ∈ s.rows kind (level - 1) ↔ (s.timer t).activated ∧ (s.timer t).soft = kind)

theorem Listed.coherent (h : s.Listed level none) : s.Coherent level := by
  refine ⟨h.sub, h.nodup, h.sorted, ?_⟩
  intro t kind ht
  have hlist : ∀ k, t ∉ s.list k := by
    intro k hk
    rcases h.temporary k with hnil | ⟨u, hu, he⟩
    · simp [hnil] at hk
    · rw [hu, List.mem_singleton] at hk
      exact ht k (by rw [he, hk])
  rw [h.active t (by simp) hlist]
  constructor
  · intro hmem
    have hkind := h.kind_eq kind t hmem
    exact ⟨hkind ▸ hmem, hkind⟩
  · rintro ⟨hmem, rfl⟩
    exact hmem

theorem timer_lists_coherent (level : ℕ) (hl : 1 ≤ level) (mask tick : BitVec 32) (timer : ℕ → RtTimer)
    (es : List Event) (s : TimerSys) (hrun : run (step level mask) (init tick timer) es = some s)
    (hk : Meets (step level mask) (keeps level) (init tick timer) es) : s.Coherent level := by
  have hinv := run_invariant_of_meets (Listed level none) (fun u e u' hu he hs => hu.step hl he hs) hrun hk
    (listed_init level tick timer)
  exact hinv.coherent

theorem timer_lists_coherent_example :
    ∃ s, run (step 2 3) (init 0xfffffffe fun t => ⟨false, true, false, 0, 0, BitVec.ofNat 32 (4 - t), 0⟩)
        [.start 0, .start 1, .start 2, .tick 2, .expire false, .stop 1, .finish false] = some s ∧
      s.rows false 1 = [0, 2] ∧ s.Coherent 2 := by
  have hrun : (run (step 2 3) (init 0xfffffffe fun t => ⟨false, true, false, 0, 0, BitVec.ofNat 32 (4 - t), 0⟩)
      [.start 0, .start 1, .start 2, .tick 2, .expire false, .stop 1, .finish false]).map (fun s => s.rows false 1) =
      some [0, 2] := by
    decide +kernel
  obtain ⟨s, hs, hrow⟩ := Option.map_eq_some_iff.mp hrun
  exact ⟨s, hs, hrow, timer_lists_coherent 2 (by decide) 3 0xfffffffe _ _ s hs (by decide +kernel)⟩

/-- No timer on a list is overdue, or due in half the tick range or more. -/
def ahead (level : ℕ) (s : TimerSys) : Prop :=
  ∀ kind, ∀ t ∈ s.rows kind (level - 1), Before s.tick (s.deadline t)

instance (level : ℕ) (s : TimerSys) : Decidable (ahead level s) :=
  inferInstanceAs (Decidable (∀ kind, ∀ t ∈ s.rows kind (level - 1), Before s.tick (s.deadline t)))

/-- A periodic timer made one-shot by its own timeout function stays marked and is on no list. -/
theorem timer_marked_off_list :
    ¬ ∀ (level : ℕ) (mask tick : BitVec 32) (timer : ℕ → RtTimer) (es : List Event) (s : TimerSys), 1 ≤ level →
      run (step level mask) (init tick timer) es = some s →
      Meets (step level mask) (fun u _ => u.ahead level) (init tick timer) es → s.Coherent level := by
  intro h
  have hrun : (run (step 1 3) (init 0 fun _ => ⟨false, true, false, 0, 0, 5, 0⟩)
      [.start 0, .tick 5, .expire false, .control 0 .setOneshot, .finish false]).map
      (fun s => (s.rows false 0, (s.timer 0).activated, (s.timer 0).soft, s.expiring false, s.expiring true)) =
      some ([], true, false, none, none) := by
    decide +kernel
  obtain ⟨s, hs, hval⟩ := Option.map_eq_some_iff.mp hrun
  have hc := h 1 3 0 (fun _ => ⟨false, true, false, 0, 0, 5, 0⟩) _ s (by decide) hs (by decide +kernel)
  simp only [Prod.mk.injEq] at hval
  obtain ⟨hrow, hact, hkind, hhard, hsoft⟩ := hval
  have hmem := hc.active 0 false (by rintro (_ | _) <;> simp [hhard, hsoft])
  rw [hrow] at hmem
  exact List.not_mem_nil (hmem.mpr ⟨hact, hkind⟩)

end TimerSys

end RtSmart
