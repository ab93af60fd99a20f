import RtSmart.Ipc.Mutex

namespace RtSmart

open Kernel

namespace Kernel

/-- Only the priority of `t` changes, to `p`. -/
structure Reprioritised (k k' : Kernel) (t : Tid) (p : ℕ) : Prop where
  list : ∀ h : ListHead, h.isWait = true → k'.list h = k.list h
  other : ∀ u, u ≠ t → k'.thread u = k.thread u
  stat : (k'.thread t).stat = (k.thread t).stat
  error : (k'.thread t).error = (k.thread t).error
  pendingObject : (k'.thread t).pendingObject = (k.thread t).pendingObject
  currentPriority : (k'.thread t).currentPriority = p
  current : k'.current = k.current
  priorityMax : k'.priorityMax = k.priorityMax

variable {k : Kernel} {t : Tid}

theorem setPriority_thread (k : Kernel) (t : Tid) (cmd : ControlCmd) (p : ℕ) :
    (k.setPriority t cmd p).thread t = Thread.setMask k.priorityMax
      { k.thread t with currentPriority := p
                        initPriority := if cmd = .changePriority then p else (k.thread t).initPriority } := by
  simp [setPriority]

theorem setMask_error (n : ℕ) (th : Thread) : (th.setMask n).error = th.error := by
  simp only [Thread.setMask]
  split_ifs <;> rfl

theorem setMask_pendingObject (n : ℕ) (th : Thread) : (th.setMask n).pendingObject = th.pendingObject := by
  simp only [Thread.setMask]
  split_ifs <;> rfl

theorem control_reprioritised (hc : k.Coherent none) (ho : k.CurrentOk) (cmd : ControlCmd) (p : ℕ) :
    Reprioritised k (k.rtThreadControl t cmd p) t p := by
  simp only [rtThreadControl]
  split_ifs with hr
  · have hnc : k.current ≠ some t := fun hcur => (ho.current t hcur).1 hr
    have hwait : ∀ h : ListHead, h.isWait = true → t ∉ k.list h := by
      intro h hw hm
      have hs := hc.waits t h hm (by rintro p rfl; simp [ListHead.isWait] at hw)
      simp [hr, Stat.suspended] at hs
    constructor
    · intro h hw
      rw [insert_list_wait _ _ hw]
      simp [setPriority, List.erase_of_not_mem (hwait h hw)]
    · intro u hu
      simp [setPriority, hu]
    · rw [insert_thread_self]
      simp [setPriority, hnc, hr]
    · rw [insert_thread_self, setPriority_thread]
      simp [setMask_error]
    · rw [insert_thread_self, setPriority_thread]
      simp [setMask_pendingObject]
    · rw [insert_thread_self, setPriority_thread]
      simp
    · simp [setPriority]
    · simp [setPriority]
  · constructor
    · intro h _
      rfl
    · intro u hu
      simp [setPriority, hu]
    · simp [setPriority]
    · rw [setPriority_thread, setMask_error]
    · rw [setPriority_thread, setMask_pendingObject]
    · simp [setPriority]
    · rfl
    · rfl

end Kernel

namespace MutexState

structure Frame (s s' : MutexState) : Prop where
  coherent : s'.k.Coherent none
  currentOk : s'.k.CurrentOk
  owner : ∀ m, (s'.mutex m).owner = (s.mutex m).owner
  hold : ∀ m, (s'.mutex m).hold = (s.mutex m).hold
  ceilingPriority : ∀ m, (s'.mutex m).ceilingPriority = (s.mutex m).ceilingPriority
  taken : s'.taken = s.taken
  list : ∀ h : ListHead, h.isWait = true → (s'.k.list h).Sublist (s.k.list h)
  stat : ∀ t, (s'.k.thread t).stat = (s.k.thread t).stat
  error : ∀ t, (s'.k.thread t).error = (s.k.thread t).error
  pendingObject : ∀ t, (s'.k.thread t).pendingObject = (s.k.thread t).pendingObject
  current : s'.k.current = s.k.current
  priorityMax : s'.k.priorityMax = s.k.priorityMax

variable {s s' s'' : MutexState} {t : Tid} {p : ℕ}

theorem Frame.trans (h : Frame s s') (h' : Frame s' s'') : Frame s s'' where
  coherent := h'.coherent
  currentOk := h'.currentOk
  owner m := (h'.owner m).trans (h.owner m)
  hold m := (h'.hold m).trans (h.hold m)
  ceilingPriority m := (h'.ceilingPriority m).trans (h.ceilingPriority m)
  taken := h'.taken.trans h.taken
  list hd hw := (h'.list hd hw).trans (h.list hd hw)
  stat t := (h'.stat t).trans (h.stat t)
  error t := (h'.error t).trans (h.error t)
  pendingObject t := (h'.pendingObject t).trans (h.pendingObject t)
  current := h'.current.trans h.current
  priorityMax := h'.priorityMax.trans h.priorityMax

theorem frame_control (hc : s.k.Coherent none) (ho : s.k.CurrentOk) (cmd : ControlCmd) (hp : p < s.k.priorityMax) :
    Frame s { s with k := s.k.rtThreadControl t cmd p } := by
  have hr := control_reprioritised (t := t) hc ho cmd p
  have hall : ∀ u, (s.k.rtThreadControl t cmd p).thread u = s.k.thread u ∨ u = t := by
    intro u
    by_cases hu : u = t
    · exact .inr hu
    · exact .inl (hr.other u hu)
  refine ⟨hc.control cmd hp, ho.control cmd p, fun _ => rfl, fun _ => rfl, fun _ => rfl, rfl,
    fun h hw => by rw [hr.list h hw], fun u => ?_, fun u => ?_, fun u => ?_, hr.current, hr.priorityMax⟩
  all_goals obtain he | rfl := hall u
  · rw [he]
  · exact hr.stat
  · rw [he]
  · exact hr.error
  · rw [he]
  · exact hr.pendingObject

theorem frame_setMutex (hc : s.k.Coherent none) (ho : s.k.CurrentOk) (m : Oid) (p : ℕ) :
    Frame s (s.setMutex m fun mx => { mx with priority := p }) := by
  refine ⟨hc, ho, fun m' => ?_, fun m' => ?_, fun m' => ?_, rfl, fun _ _ => List.Sublist.refl _, fun _ => rfl,
    fun _ => rfl, fun _ => rfl, rfl, rfl⟩
  all_goals by_cases hm : m' = m
  all_goals simp [setMutex, hm]

theorem foldl_priority_le (f : Oid → ℕ) (l : List Oid) (p : ℕ) :
    l.foldl (fun priority m => if f m < priority then f m else priority) p ≤ p := by
  induction l generalizing p with
  | nil => exact le_rfl
  | cons m l ih =>
    rw [List.foldl_cons]
    split_ifs with h
    · exact (ih _).trans h.le
    · exact ih p

theorem threadGetMutexPriority_lt (hc : s.k.Coherent none) (t : Tid) :
    s.threadGetMutexPriority t < s.k.priorityMax :=
  (foldl_priority_le _ _ _).trans_lt (hc.priority t).2

/-- `rt_ipc_list_suspend` refuses a thread that is suspended already. -/
theorem listSuspend_suspended {k : Kernel} (hs : (k.thread t).stat.suspended = true) (h : ListHead) (flag : IpcFlag)
    (sf : SuspendFlag) : k.rtIpcListSuspend h t flag sf = (k, .error) := by
  have hne := Coherent.suspended_ne hs
  simp [rtIpcListSuspend, rtThreadSuspendWithFlag, hne.1, hne.2.2.2]

theorem frame_listRemove (hc : s.k.Coherent none) (ho : s.k.CurrentOk) (hs : (s.k.thread t).stat.suspended = true) :
    Frame s { s with k := s.k.rtListRemove t } :=
  ⟨(hc.listRemove (Coherent.suspended_ne hs).1).settle (Coherent.suspended_ne hs).1, ho.congr rfl fun _ => rfl,
    fun _ => rfl, fun _ => rfl, fun _ => rfl, rfl, fun _ _ => List.erase_sublist, fun _ => rfl, fun _ => rfl,
    fun _ => rfl, rfl, rfl⟩

/-- One call of `_thread_update_priority` without its recursion. -/
theorem threadUpdatePriority_cases {fuel : ℕ} {sf : SuspendFlag} (hc : s.k.Coherent none) (ho : s.k.CurrentOk)
    (h : threadUpdatePriority fuel s t p sf = some s') :
    (((s.k.thread t).stat ≠ .suspend .interruptible ∨ (s.k.thread t).pendingObject = none) ∧
      s' = { s with k := s.k.rtThreadControl t .updatePriority p }) ∨
    (∃ n m o s₁, fuel = n + 1 ∧ (s.k.thread t).stat = .suspend .interruptible ∧
      (s.k.thread t).pendingObject = some m ∧
      s₁ = mutexUpdatePriority { s with k := (s.k.rtThreadControl t .updatePriority p).rtListRemove t } m ∧
      (s₁.mutex m).owner = some o ∧
      (s' = s₁ ∨ threadUpdatePriority n s₁ o (s₁.threadGetMutexPriority o) sf = some s')) := by
  have hr := control_reprioritised (t := t) hc ho .updatePriority p
  cases fuel with
  | zero => simp [threadUpdatePriority] at h
  | succ n =>
    simp only [threadUpdatePriority, hr.stat, hr.pendingObject] at h
    split_ifs at h with hs
    · cases hp : (s.k.thread t).pendingObject with
      | none =>
        rw [hp] at h
        exact .inl ⟨.inr rfl, (Option.some.inj h).symm⟩
      | some m =>
        have hsus : (((s.k.rtThreadControl t .updatePriority p).rtListRemove t).thread t).stat.suspended = true := by
          rw [rtListRemove_thread, hr.stat, hs]
          rfl
        simp only [hp, listSuspend_suspended hsus] at h
        split at h
        · simp at h
        rename_i o howner
        refine .inr ⟨n, m, o, _, rfl, hs, rfl, rfl, howner, ?_⟩
        split_ifs at h with hne
        · exact .inr h
        · exact .inl (Option.some.inj h).symm
    · exact .inl ⟨.inl hs, (Option.some.inj h).symm⟩

theorem frame_threadUpdatePriority {fuel : ℕ} {sf : SuspendFlag} (hc : s.k.Coherent none) (ho : s.k.CurrentOk)
    (hp : p < s.k.priorityMax) (h : threadUpdatePriority fuel s t p sf = some s') : Frame s s' := by
  induction fuel generalizing s t p with
  | zero => simp [threadUpdatePriority] at h
  | succ n ih =>
    rcases threadUpdatePriority_cases hc ho h with ⟨-, rfl⟩ | ⟨n', m, o, s₁, hn, hs, -, rfl, -, hrec⟩
    · exact frame_control hc ho .updatePriority hp
    · obtain rfl : n = n' := by omega
      have h1 : Frame s { s with k := s.k.rtThreadControl t .updatePriority p } :=
        frame_control hc ho .updatePriority hp
      have hsus : ((s.k.rtThreadControl t .updatePriority p).thread t).stat.suspended = true := by
        rw [h1.stat t, hs]
        rfl
      have h2 := h1.trans (frame_listRemove h1.coherent h1.currentOk hsus)
      have h3 : Frame s (mutexUpdatePriority { s with k := (s.k.rtThreadControl t .updatePriority p).rtListRemove t } m) :=
        h2.trans (frame_setMutex h2.coherent h2.currentOk m _)
      rcases hrec with rfl | hrec
      · exact h3
      · refine h3.trans (ih h3.coherent h3.currentOk ?_ hrec)
        exact threadGetMutexPriority_lt h3.coherent o

theorem frame_setThread (hc : s.k.Coherent none) (ho : s.k.CurrentOk) {f : Thread → Thread}
    (hf : (f (s.k.thread t)).SameSched (s.k.thread t)) (he : (f (s.k.thread t)).error = (s.k.thread t).error)
    (hp : (f (s.k.thread t)).pendingObject = (s.k.thread t).pendingObject) : Frame s (s.setThread t f) := by
  refine ⟨hc.setThread hf, ho.setThread hf.stat, fun _ => rfl, fun _ => rfl, fun _ => rfl, rfl,
    fun _ _ => List.Sublist.refl _, fun u => ?_, fun u => ?_, fun u => ?_, rfl, rfl⟩
  all_goals by_cases hu : u = t
  all_goals simp only [setThread]
  · subst hu; simpa using hf.stat
  · simp [hu]
  · subst hu; simpa using he
  · simp [hu]
  · subst hu; simpa using hp
  · simp [hu]

/-- The running thread `t` has become a waiter of `m`. -/
structure Enters (s s' : MutexState) (m : Oid) (t : Tid) (sf : SuspendFlag) : Prop where
  coherent : s'.k.Coherent none
  currentOk : s'.k.CurrentOk
  mutex : s'.mutex = s.mutex
  taken : s'.taken = s.taken
  other : ∀ u, u ≠ t → s'.k.thread u = s.k.thread u
  stat : (s'.k.thread t).stat = .suspend sf
  error : (s'.k.thread t).error = .eintr
  pendingObject : (s'.k.thread t).pendingObject = some m
  priority : (s'.k.thread t).currentPriority = (s.k.thread t).currentPriority
  initPriority : (s'.k.thread t).initPriority = (s.k.thread t).initPriority
  list : ∀ h : ListHead, h.isWait = true →
    s'.k.list h = if h = .suspend m then s.k.enqueue .prio t (s.k.list h) else s.k.list h
  current : s'.k.current = s.k.current
  priorityMax : s'.k.priorityMax = s.k.priorityMax

/-- The free mutex `m` gets the owner `t`, before the ceiling is applied. -/
def acquire (s : MutexState) (m : Oid) (t : Tid) : MutexState :=
  (s.setThread t fun th => { th with error := .eok }).setMutex m fun mx =>
    { mx with owner := some t, priority := 0xff, hold := 1 }

theorem enqueue_congr {k k' : Kernel} (h : ∀ u, (k'.thread u).currentPriority = (k.thread u).currentPriority)
    (flag : IpcFlag) (l : List Tid) : k'.enqueue flag t l = k.enqueue flag t l := by
  cases flag <;> simp only [enqueue, h]

/-- Every outcome of `_rt_mutex_take` before the wait. -/
theorem rtMutexTake_cases {fuel : ℕ} {m : Oid} {timeout : ℤ} {sf : SuspendFlag} {r : Option Err}
    (hc : s.k.Coherent none) (ho : s.k.CurrentOk) (hrun : (s.k.thread t).stat = .running)
    (h : rtMutexTake fuel s m t timeout sf = some (s', r)) :
    ((s.mutex m).owner = none ∧ r = some .eok ∧
      (((s.mutex m).ceilingPriority = 0xff ∧
          s' = { s.acquire m t with taken := Function.update s.taken t (m :: s.taken t) }) ∨
        ((s.mutex m).ceilingPriority ≠ 0xff ∧ (s.k.thread t).currentPriority ≤ (s.mutex m).ceilingPriority ∧
          s' = s.acquire m t) ∨
        ((s.mutex m).ceilingPriority ≠ 0xff ∧ (s.mutex m).ceilingPriority < (s.k.thread t).currentPriority ∧
          s' = { s.acquire m t with
            k := (s.acquire m t).k.rtThreadControl t .updatePriority (s.mutex m).ceilingPriority }))) ∨
    ((s.mutex m).owner = some t ∧ (s.mutex m).hold < rtMutexHoldMax ∧ r = some .eok ∧
      s' = (s.setThread t fun th => { th with error := .eok }).setMutex m fun mx => { mx with hold := mx.hold + 1 }) ∨
    (∃ ret e, ret ≠ .eok ∧ r = some ret ∧ s' = s.setThread t fun th => { th with error := e }) ∨
    (∃ o s₁ s₂, (s.mutex m).owner = some o ∧ o ≠ t ∧ timeout ≠ 0 ∧ lwpSuspendSigcheck (s.k.thread t) sf = true ∧
      r = none ∧ Enters s s₁ m t sf ∧
      inherit fuel s₁ m o (s.k.thread t).currentPriority sf = some s₂ ∧
      s' = if 0 < timeout then { s₂ with k := s₂.k.rtTimerStart t } else s₂) := by
  have hc0 : (s.k.setThread t fun th => { th with error := .eok }).Coherent none :=
    hc.setThread ⟨rfl, rfl, rfl, rfl, rfl, rfl⟩
  have ho0 : (s.k.setThread t fun th => { th with error := .eok }).CurrentOk := ho.setThread rfl
  simp only [rtMutexTake] at h
  cases howner : (s.mutex m).owner with
  | none =>
    rw [howner] at h
    refine .inl ⟨rfl, ?_⟩
    dsimp only at h
    split_ifs at h with hceil hlt
    · obtain ⟨s₁, hup, he⟩ := Option.map_eq_some_iff.mp h
      obtain ⟨rfl, rfl⟩ := Prod.mk.inj he
      rcases threadUpdatePriority_cases hc0 ho0 hup with ⟨-, rfl⟩ | ⟨n, m', o, s₂, -, hs, -⟩
      · refine ⟨rfl, .inr (.inr ⟨hceil, ?_, rfl⟩)⟩
        simpa using hlt
      · simp [hrun] at hs
    · obtain ⟨rfl, rfl⟩ := Prod.mk.inj (Option.some.inj h)
      refine ⟨rfl, .inr (.inl ⟨hceil, ?_, rfl⟩)⟩
      simpa using hlt
    · obtain ⟨rfl, rfl⟩ := Prod.mk.inj (Option.some.inj h)
      exact ⟨rfl, .inl ⟨not_not.mp hceil, rfl⟩⟩
  | some o =>
    rw [howner] at h
    dsimp only at h
    by_cases hot : o = t
    · subst hot
      rw [if_pos rfl] at h
      split_ifs at h with hhold
      · obtain ⟨rfl, rfl⟩ := Prod.mk.inj (Option.some.inj h)
        exact .inr (.inl ⟨rfl, hhold, rfl, rfl⟩)
      · obtain ⟨rfl, rfl⟩ := Prod.mk.inj (Option.some.inj h)
        exact .inr (.inr (.inl ⟨.efull, .eok, by simp, rfl, rfl⟩))
    rw [if_neg hot] at h
    by_cases ht : timeout = 0
    · rw [if_pos ht] at h
      obtain ⟨rfl, rfl⟩ := Prod.mk.inj (Option.some.inj h)
      refine .inr (.inr (.inl ⟨.etimeout, .etimeout, by simp, rfl, ?_⟩))
      simp [setThread, Kernel.setThread]
    rw [if_neg ht] at h
    have hset : (s.setThread t fun th => { th with error := .eok }).k.setThread t
        (fun th => { th with error := .eintr }) = s.k.setThread t fun th => { th with error := .eintr } := by
      simp [Kernel.setThread]
    have hpr : ((s.setThread t fun th => { th with error := .eok }).k.thread t).currentPriority =
        (s.k.thread t).currentPriority := by simp
    rw [hset, hpr] at h
    set k1 := s.k.setThread t fun th => { th with error := .eintr } with hk1
    have hc1 : k1.Coherent none := hc.setThread ⟨rfl, rfl, rfl, rfl, rfl, rfl⟩
    have ho1 : k1.CurrentOk := ho.setThread rfl
    have hrun1 : (k1.thread t).stat = .running := by simp [hk1, hrun]
    have hprio : ∀ u, (k1.thread u).currentPriority = (s.k.thread u).currentPriority := by
      intro u
      by_cases hu : u = t
      · subst hu; simp [hk1]
      · simp [hk1, hu]
    rcases listSuspend_cases (h := .suspend m) .prio sf hc1 ho1 hrun1 rfl with
      he | ⟨k2, he, hsig, hc2, ho2, hcur, hmax, hother, hself, hlist⟩
    · rw [he] at h
      obtain ⟨rfl, rfl⟩ := Prod.mk.inj (Option.some.inj h)
      exact .inr (.inr (.inl ⟨.eintr, .eintr, by simp, rfl, rfl⟩))
    · rw [he] at h
      obtain ⟨s₂, hin, he2⟩ := Option.map_eq_some_iff.mp h
      obtain ⟨rfl, rfl⟩ := Prod.mk.inj he2
      refine .inr (.inr (.inr ⟨o, _, s₂, rfl, hot, ht, ?_, rfl, ?_, hin, rfl⟩))
      · simpa [hk1, lwpSuspendSigcheck] using hsig
      have hc3 : (k2.setThread t fun th => { th with pendingObject := some m }).Coherent none :=
        hc2.setThread ⟨rfl, rfl, rfl, rfl, rfl, rfl⟩
      have ho3 : (k2.setThread t fun th => { th with pendingObject := some m }).CurrentOk := ho2.setThread rfl
      refine ⟨hc3, ho3, rfl, rfl, fun u hu => ?_, ?_, ?_, ?_, ?_, ?_, fun h hw => ?_, ?_, ?_⟩
      · simp [hu, hother u hu, hk1]
      · simp [hself]
      · simp [hself, hk1]
      · simp
      · simp [hself, hk1]
      · simp [hself, hk1]
      · rw [setThread_list, hlist h hw, enqueue_congr hprio]
        by_cases hm : h = .suspend m
        · simp [hm, hk1]
        · simp [hm, hk1]
      · simp [hcur, hk1]
      · simp [hmax, hk1]

theorem frame_inherit {fuel : ℕ} {m : Oid} {o : Tid} {sf : SuspendFlag} (hc : s.k.Coherent none)
    (ho : s.k.CurrentOk) (hp : p < s.k.priorityMax) (h : inherit fuel s m o p sf = some s') : Frame s s' := by
  simp only [inherit] at h
  split_ifs at h with h1 h2
  · have hm := frame_setMutex hc ho m p
    exact hm.trans (frame_threadUpdatePriority hm.coherent hm.currentOk hp h)
  · obtain rfl := Option.some.inj h
    exact frame_setMutex hc ho m p
  · obtain rfl := Option.some.inj h
    exact ⟨hc, ho, fun _ => rfl, fun _ => rfl, fun _ => rfl, rfl, fun _ _ => List.Sublist.refl _, fun _ => rfl,
      fun _ => rfl, fun _ => rfl, rfl, rfl⟩

/-- Everything that `_rt_mutex_take` does after the thread has entered the wait list. -/
theorem frame_wait {fuel : ℕ} {m : Oid} {o : Tid} {sf : SuspendFlag} {timeout : ℤ} (hc : s.k.Coherent none)
    (ho : s.k.CurrentOk) (hp : p < s.k.priorityMax) (h : inherit fuel s m o p sf = some s') :
    Frame s (if 0 < timeout then { s' with k := s'.k.rtTimerStart t } else s') := by
  have hin := frame_inherit hc ho hp h
  split_ifs
  · refine hin.trans (frame_setThread hin.coherent hin.currentOk ?_ rfl rfl)
    exact ⟨rfl, rfl, rfl, rfl, rfl, rfl⟩
  · exact hin

/-- The two outcomes of the rest of `_rt_mutex_take`. -/
theorem rtMutexTakeEnd_cases {fuel : ℕ} {m : Oid} {sf : SuspendFlag} {ret : Err}
    (h : rtMutexTakeEnd fuel s m t sf = some (s', ret)) :
    ((s.k.thread t).error = .eok ∧ ret = .eok ∧ s' = s) ∨
    ((s.k.thread t).error ≠ .eok ∧ ret = (s.k.thread t).error ∧ ∃ s₁, s₁ = (s.setThread t fun th =>
        { th with pendingObject := none }).mutexUpdatePriority m ∧
      ((s' = s₁ ∧ ∀ o, (s.mutex m).owner = some o →
          (s₁.k.thread o).currentPriority = (s₁.k.thread t).currentPriority →
          s₁.threadGetMutexPriority o = (s₁.k.thread o).currentPriority) ∨
        ∃ o, (s.mutex m).owner = some o ∧ (s₁.k.thread o).currentPriority = (s₁.k.thread t).currentPriority ∧
          s₁.threadGetMutexPriority o ≠ (s₁.k.thread o).currentPriority ∧
          threadUpdatePriority fuel s₁ o (s₁.threadGetMutexPriority o) sf = some s')) := by
  by_cases he : (s.k.thread t).error = .eok
  · simp only [rtMutexTakeEnd, he, if_true] at h
    obtain ⟨rfl, rfl⟩ := Prod.mk.inj (Option.some.inj h)
    exact .inl ⟨he, rfl, rfl⟩
  · simp only [rtMutexTakeEnd, he, if_false] at h
    set s₁ := (s.setThread t fun th => { th with pendingObject := none }).mutexUpdatePriority m with hs₁
    have howner : (s₁.mutex m).owner = (s.mutex m).owner := by simp [hs₁, mutexUpdatePriority]
    rw [howner] at h
    cases ho : (s.mutex m).owner with
    | none =>
      rw [ho] at h
      obtain ⟨rfl, rfl⟩ := Prod.mk.inj (Option.some.inj h)
      exact .inr ⟨he, rfl, s₁, rfl, .inl ⟨rfl, by simp⟩⟩
    | some o =>
      rw [ho] at h
      dsimp only at h
      split_ifs at h with hneed
      · obtain ⟨s₂, hup, he2⟩ := Option.map_eq_some_iff.mp h
        obtain ⟨rfl, rfl⟩ := Prod.mk.inj he2
        exact .inr ⟨he, rfl, s₁, rfl, .inr ⟨o, rfl, hneed.1, hneed.2, hup⟩⟩
      · obtain ⟨rfl, rfl⟩ := Prod.mk.inj (Option.some.inj h)
        refine .inr ⟨he, rfl, s₁, rfl, .inl ⟨rfl, fun o' ho' hp => ?_⟩⟩
        obtain rfl := Option.some.inj ho'
        by_contra hne
        exact hneed ⟨hp, hne⟩

/-- The suspended thread `u` has become the owner of `m`. -/
structure HandsOver (s s' : MutexState) (m : Oid) (u : Tid) : Prop where
  coherent : s'.k.Coherent none
  currentOk : s'.k.CurrentOk
  runnable : (s'.k.thread u).stat.runnable
  error : (s'.k.thread u).error = .eok
  pendingObject : (s'.k.thread u).pendingObject = none
  priority : ∀ v, (s'.k.thread v).currentPriority = (s.k.thread v).currentPriority
  initPriority : ∀ v, (s'.k.thread v).initPriority = (s.k.thread v).initPriority
  other : ∀ v, v ≠ u → s'.k.thread v = s.k.thread v
  list : ∀ h : ListHead, h.isWait = true → s'.k.list h = (s.k.list h).erase u
  mutex : s'.mutex m =
    { s.mutex m with owner := some u, hold := 1, priority := waiterPriority s'.k m }
  mutex_of_ne : ∀ m', m' ≠ m → s'.mutex m' = s.mutex m'
  taken : s'.taken = Function.update s.taken u (m :: s.taken u)
  current : s'.k.current = s.k.current
  priorityMax : s'.k.priorityMax = s.k.priorityMax

theorem handOver_spec {m : Oid} {u : Tid} (hc : s.k.Coherent none) (ho : s.k.CurrentOk)
    (hs : (s.k.thread u).stat.suspended = true) : HandsOver s (s.handOver m u) m u := by
  set k1 := (s.k.rtListRemove u).setThread u fun th => { th with pendingObject := none, error := .eok } with hk1
  have hrem := (hc.listRemove (Coherent.suspended_ne hs).1).settle (t := u) (Coherent.suspended_ne hs).1
  have hc1 : k1.Coherent none := hrem.setThread ⟨rfl, rfl, rfl, rfl, rfl, rfl⟩
  have ho0 : (s.k.rtListRemove u).CurrentOk := ho.congr rfl fun _ => rfl
  have ho1 : k1.CurrentOk := ho0.setThread rfl
  have hs1 : (k1.thread u).stat.suspended = true := by simpa [hk1] using hs
  have hw := wakes_resume hs1
  have herr : (k1.thread u).error = .eok := by simp [hk1]
  rw [herr] at hw
  have hsame := hw.same
  have hother : ∀ v, v ≠ u → (k1.rtThreadResume u).1.thread v = s.k.thread v := by
    intro v hv
    rw [hw.other v hv]
    simp [hk1, hv]
  have hk : (s.handOver m u).k = (k1.rtThreadResume u).1 := rfl
  refine ⟨hc1.resume, ho1.resume, hw.runnable, hsame.error, ?_, fun v => ?_, fun v => ?_, hother, fun h hw' => ?_, ?_,
    fun m' hm' => ?_, rfl, ?_, ?_⟩
  · rw [hk, hsame.pendingObject]
    simp [hk1]
  · by_cases hv : v = u
    · subst hv
      rw [hk, hsame.currentPriority]
      simp [hk1]
    · rw [hk, hother v hv]
  · by_cases hv : v = u
    · subst hv
      rw [hk, hsame.initPriority]
      simp [hk1]
    · rw [hk, hother v hv]
  · rw [hk, hw.list h hw']
    simp only [hk1, setThread_list, rtListRemove_list]
    exact List.erase_of_not_mem (hc.nodup h).not_mem_erase
  · simp [handOver, mutexUpdatePriority]
  · simp [handOver, mutexUpdatePriority, hm']
  · rw [hk, hw.current]
    simp [hk1]
  · rw [hk, hw.priorityMax]
    simp [hk1]

theorem Frame.refl (hc : s.k.Coherent none) (ho : s.k.CurrentOk) : Frame s s :=
  ⟨hc, ho, fun _ => rfl, fun _ => rfl, fun _ => rfl, rfl, fun _ _ => List.Sublist.refl _, fun _ => rfl,
    fun _ => rfl, fun _ => rfl, rfl, rfl⟩

theorem threadGetMutexPriority_congr (hi : (s'.k.thread t).initPriority = (s.k.thread t).initPriority)
    (ht : s'.taken t = s.taken t) (hm : ∀ m, (s'.mutex m).priority = (s.mutex m).priority) :
    s'.threadGetMutexPriority t = s.threadGetMutexPriority t := by
  simp only [threadGetMutexPriority, hi, ht, hm]

/-- The kernel after `lastRelease`: the priority of `t` is computed again if the mutex could have
raised it. -/
def lowered (s : MutexState) (m : Oid) (t : Tid) : Kernel :=
  if (s.mutex m).ceilingPriority ≠ 0xff ∨ (s.k.thread t).currentPriority = (s.mutex m).priority then
    s.k.rtThreadControl t .updatePriority
      (threadGetMutexPriority { s with taken := fun u => (s.taken u).erase m } t)
  else s.k

theorem frame_lowered {m : Oid} (hc : s.k.Coherent none) (ho : s.k.CurrentOk) :
    Frame s { s with k := s.lowered m t } ∧
      ∀ h : ListHead, h.isWait = true → (s.lowered m t).list h = s.k.list h := by
  simp only [lowered]
  split_ifs
  · have hlt : threadGetMutexPriority { s with taken := fun u => (s.taken u).erase m } t < s.k.priorityMax :=
      threadGetMutexPriority_lt (s := { s with taken := fun u => (s.taken u).erase m }) hc t
    exact ⟨frame_control hc ho .updatePriority hlt, (control_reprioritised hc ho .updatePriority _).list⟩
  · exact ⟨Frame.refl hc ho, fun _ _ => rfl⟩

theorem lastRelease_eq (m : Oid) (t : Tid) :
    (s.setMutex m fun mx => { mx with hold := mx.hold - 1 }).lastRelease m t =
      ⟨s.lowered m t, (s.setMutex m fun mx => { mx with hold := mx.hold - 1 }).mutex,
        fun u => (s.taken u).erase m⟩ := by
  have hprio : ∀ m', ((s.setMutex m fun mx => { mx with hold := mx.hold - 1 }).mutex m').priority =
      (s.mutex m').priority := by
    intro m'
    by_cases hm : m' = m
    · subst hm; simp
    · simp [hm]
  simp only [lastRelease, lowered, setMutex_k, setMutex_taken, setMutex_mutex_self]
  split_ifs
  · have hget : threadGetMutexPriority ⟨s.k, (s.setMutex m fun mx => { mx with hold := mx.hold - 1 }).mutex,
        fun u => (s.taken u).erase m⟩ t = threadGetMutexPriority { s with taken := fun u => (s.taken u).erase m } t := by
      apply threadGetMutexPriority_congr
      · rfl
      · rfl
      · exact hprio
    rw [hget]
  · rfl

/-- What `rt_mutex_release` does for the owner. -/
theorem rtMutexRelease_cases {m : Oid} (hc : s.k.Coherent none) (ho : s.k.CurrentOk)
    (hown : (s.mutex m).owner = some t) :
    ((s.mutex m).hold - 1 ≠ 0 ∧
      s.rtMutexRelease m t = (s.setMutex m fun mx => { mx with hold := mx.hold - 1 }, .eok)) ∨
    ((s.mutex m).hold - 1 = 0 ∧ s.k.list (.suspend m) = [] ∧ s.rtMutexRelease m t =
      (⟨s.lowered m t, (s.setMutex m fun mx => { mx with owner := none, hold := 0, priority := 0xff }).mutex,
        fun u => (s.taken u).erase m⟩, .eok)) ∨
    ((s.mutex m).hold - 1 = 0 ∧ ∃ u l st, s.k.list (.suspend m) = u :: l ∧ s.rtMutexRelease m t = (st, .eok) ∧
      HandsOver ⟨s.lowered m t, s.mutex, fun u => (s.taken u).erase m⟩ st m u) := by
  have hn : ¬ (s.mutex m).owner ≠ some t := by simp [hown]
  by_cases hh : (s.mutex m).hold - 1 = 0
  · obtain ⟨hf, hl⟩ := frame_lowered (m := m) (t := t) hc ho
    have hlist : (s.lowered m t).list (.suspend m) = s.k.list (.suspend m) := hl _ rfl
    cases hs : s.k.list (.suspend m) with
    | nil =>
      refine .inr (.inl ⟨hh, rfl, ?_⟩)
      rw [rtMutexRelease, if_neg hn]
      simp only [setMutex_mutex_self, hh, if_true, lastRelease_eq, hlist, hs]
      simp [setMutex, hh]
    | cons u l =>
      have hrel : s.rtMutexRelease m t = (handOver ⟨s.lowered m t, (s.setMutex m fun mx =>
          { mx with hold := mx.hold - 1 }).mutex, fun u => (s.taken u).erase m⟩ m u, .eok) := by
        rw [rtMutexRelease, if_neg hn]
        simp only [setMutex_mutex_self, hh, if_true, lastRelease_eq, hlist, hs]
      refine .inr (.inr ⟨hh, u, l, _, rfl, hrel, ?_⟩)
      have hmem : u ∈ (s.lowered m t).list (.suspend m) := by simp [hlist, hs]
      have hsus := hf.coherent.waits u _ hmem (by simp)
      have hsp := handOver_spec (s := ⟨s.lowered m t, (s.setMutex m fun mx => { mx with hold := mx.hold - 1 }).mutex,
        fun u => (s.taken u).erase m⟩) (m := m) hf.coherent hf.currentOk hsus
      refine ⟨hsp.coherent, hsp.currentOk, hsp.runnable, hsp.error, hsp.pendingObject, hsp.priority,
        hsp.initPriority, hsp.other, hsp.list, ?_, fun m' hm' => ?_, hsp.taken, hsp.current, hsp.priorityMax⟩
      · rw [hsp.mutex]
        simp
      · rw [hsp.mutex_of_ne m' hm']
        simp [hm']
  · refine .inl ⟨hh, ?_⟩
    rw [rtMutexRelease, if_neg hn]
    simp only [setMutex_mutex_self, hh, if_false]

end MutexState

end RtSmart
