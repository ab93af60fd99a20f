import RtSmart.Dfs.FdInv

namespace RtSmart

open Lib

namespace FdInv

variable {cfg : DfsConfig} {s s' : FdSys} {c d t f : ℕ} {σ : FdSlot} {k : PutNext} {result : CloseResult} {o : Opener}

theorem fdtFdNew (h : FdInv s) (hc : s.pc c = .idle) (mem calloc : Bool) :
    FdInv (s.fdtFdNew cfg c t mem calloc) := by
  have hheld : (s.pc c).held = none := by rw [hc]; rfl
  unfold FdSys.fdtFdNew
  split
  · exact h.finish _ hheld
  next idx nr ha =>
  obtain ⟨hempty, hlt, hle⟩ := fdSlotAlloc_some h ha
  split_ifs
  · have hzero := h.fresh s.next le_rfl
    refine h.move (e := s.next) (x := ⟨1, none, false, 0, false, some (t, idx)⟩) (a := (t, idx)) (v := some s.next) rfl rfl
      rfl (le_update_maxfd hle) (.inr ⟨rfl, rfl⟩) rfl rfl rfl ?_ (fun d hd => ?_) (.inr ⟨Nat.lt_succ_self _, rfl⟩) (fun d _ => ?_)
      (fun hq => absurd (h.queued _ hq).1 (by omega)) (.opens rfl rfl rfl (Nat.lt_succ_self _) ?_ ?_) (fun c' _ hl hd => ?_) (fun c' _ hs => ?_) (fun c' σ _ hs hd => ?_)
      fun c' σ _ hs => ?_
    · simp [hempty, hc, hzero, FdPc.held]
    · simp [hempty, hc, hd.symm, FdPc.held]
    · simpa [FdSys.setPc, FdSys.setSlot, FdSys.setFd, FdSys.setMaxfd] using hlt
    · exact Function.update_self _ _ _
    · simp [FdSys.setPc, FdSys.setSlot, FdSys.setFd]
    · exact absurd ((h.call c').known _ hd) (lt_irrefl _)
    · exact absurd hs (h.site_ne_of_empty hempty)
    · exact absurd ((h.call c').known _ hd) (lt_irrefl _)
    · cases hs
      exact h.site_ne_of_empty hempty
  · exact (h.setMaxfd hle).finish _ hheld

theorem freed_eq_zero (h : FdInv s) (hd : 0 < (s.fds d).refCount) : (s.fds d).freed = 0 := by
  rw [h.freed d, if_neg (by omega)]

theorem refCount_pos (h : FdInv s) (hσ : s.slot σ = some d) : 0 < (s.fds d).refCount := by
  have := h.slot_pos hσ
  have := h.count_eq d
  omega

theorem fdGetRef (h : FdInv s) (hc : s.pc c = .idle) (σ : FdSlot) : FdInv (s.fdGetRef c σ) := by
  have hheld : (s.pc c).held = none := by rw [hc]; rfl
  unfold FdSys.fdGetRef
  split
  · exact h.finish _ hheld
  next d hd =>
  obtain ⟨hσ, hfreed, hclosing⟩ := fdtFdGetLocked_some hd
  have hlt := h.lt_next (h.refCount_pos hσ)
  split_ifs
  · refine h.move (e := d) (a := σ) (v := s.slot σ) rfl (Function.update_eq_self _ _).symm rfl (fun _ => le_rfl) (.inl rfl)
      rfl rfl rfl ?_ (fun b hb => ?_) (.inr ⟨hlt, ?_⟩) (fun b hb => h.table σ b hb)
      (fun hq => absurd hq (h.not_queued_of_slot hσ)) (.plain rfl rfl fun b hb => ?_) (fun c' _ hl hd => ?_) (fun _ _ _ => rfl) (fun _ _ _ _ _ => rfl) fun _ _ _ hp => ?_
    · simp [hc, FdPc.held]
      omega
    · simp [hc, FdPc.held, hb.symm]
    · simpa using hfreed
    · cases hb
      exact hlt
    · exact absurd hd (h.not_last hσ hclosing hl)
    · cases hp
  · exact h.finish _ hheld

theorem putDone_pc (s : FdSys) (c : ℕ) (k : PutNext) : ∃ p, (s.putDone c k).pc = Function.update s.pc c p ∧
    p.file = none ∧ p.site = none ∧ p.held = none ∧ p.last = false := by
  cases k with
  | ret r => exact ⟨.idle, rfl, rfl, rfl, rfl, rfl⟩
  | retry => exact ⟨.retrying, rfl, rfl, rfl, rfl, rfl⟩

theorem putDone_same (s : FdSys) (c : ℕ) (k : PutNext) : (s.putDone c k).fds = s.fds ∧ s.Same (s.putDone c k) := by
  cases k <;> exact ⟨rfl, rfl, rfl, rfl, rfl, rfl, rfl⟩

theorem fdPut (h : FdInv s) (hc : s.pc c = .holds d k) (hpos : 0 < (s.fds d).refCount) : FdInv (s.fdPut c d k) := by
  have hheld : (s.pc c).held = some d := by rw [hc]; rfl
  have hfile : (s.pc c).file = some d := by rw [hc]; rfl
  have hlt := (h.call c).known d hfile
  have hfreed := h.freed_eq_zero hpos
  have hother : ∀ c', c' ≠ c → (s.pc c').last = true → (s.pc c').file ≠ some d := fun c' hne hl =>
    h.last_unique hfile (.inr hheld) hne hl
  unfold FdSys.fdPut
  split_ifs with hmany
  · obtain ⟨p, hpc, hpf, hps, hph, hpl⟩ := putDone_pc
      (s.setFd d { s.fds d with refCount := (s.fds d).refCount - 1 }) c k
    obtain ⟨hfds, hsame⟩ := putDone_same
      (s.setFd d { s.fds d with refCount := (s.fds d).refCount - 1 }) c k
    refine h.move (e := d) (a := (0, 0)) (v := s.slot (0, 0)) hfds (hsame.slot.trans (Function.update_eq_self _ _).symm) hpc
      (fun _ => (congrFun hsame.maxfd _).ge) (.inl hsame.next) hsame.failed hsame.pending hsame.retrying ?_ (fun b hb => ?_)
      (.inr ⟨hsame.next ▸ hlt, ?_⟩) (fun b hb => (h.table _ b hb).trans_le (congrFun hsame.maxfd _).ge)
      (fun hq => absurd hq (h.not_queued_of_held hheld)) (.plain hps hpl fun b hb => ?_)
      (fun c' hne hl hd => ?_) (fun _ _ _ => rfl) (fun _ _ _ _ _ => rfl) fun _ _ _ hp => ?_
    · simp [hheld, hph]
      omega
    · simp [hheld, hph, hb.symm]
    · simp only
      rw [if_neg (by omega)]
      exact hfreed
    · rw [hpf] at hb
      cases hb
    · exact absurd hd (hother c' hne hl)
    · rw [hps] at hp
      cases hp
  · refine h.touch (e := d) rfl ⟨rfl, rfl, rfl, rfl, rfl, rfl⟩ rfl rfl rfl (by rw [hheld]; rfl)
      (fun hq => absurd hq (h.not_queued_of_held hheld)) (.gives rfl rfl rfl hlt ?_ ?_)
      (fun c' hne hl hd => absurd hd (hother c' hne hl)) (fun _ _ _ _ _ => rfl) fun _ _ _ hp => ?_
    · simp [FdSys.setPc, FdSys.setFd]
      omega
    · simp [FdSys.setPc, FdSys.setFd]
    · cases hp

theorem fdFree_fds (s : FdSys) (d : ℕ) :
    (s.fdFree d).fds = Function.update s.fds d { s.fds d with freed := (s.fds d).freed + 1 } := by
  unfold FdSys.fdFree
  split <;> rfl

theorem fdFree_same (s : FdSys) (d : ℕ) : (s.fdFree d).pc = s.pc ∧ s.Same (s.fdFree d) := by
  unfold FdSys.fdFree
  split <;> exact ⟨rfl, rfl, rfl, rfl, rfl, rfl, rfl⟩

theorem fdPutClosed (h : FdInv s) (hc : s.pc c = .put d k result) : FdInv (s.fdPutClosed c d k result) := by
  have hlast : (s.pc c).last = true := by rw [hc]; rfl
  have hfile : (s.pc c).file = some d := by rw [hc]; rfl
  have hsite : (s.pc c).site = none := by rw [hc]; rfl
  have hheld : (s.pc c).held = some d := by rw [hc]; rfl
  have hone := (h.call c).last hlast d hfile
  have hlt := (h.call c).known d hfile
  have hdet := (h.call c).detached hlast hsite d hfile
  unfold FdSys.fdPutClosed
  split_ifs
  · -- the file is marked first, and then the call's reference goes to the list
    have hmark : FdInv (s.setFd d { s.fds d with closing := true }) := by
      refine h.touch (e := d) (c := c) (p := s.pc c) rfl ⟨rfl, rfl, rfl, rfl, rfl, rfl⟩ (Function.update_eq_self _ _).symm rfl rfl
        rfl (fun _ => rfl) (.gives hsite hlast hfile hlt ?_ ?_)
        (fun c' hne hl hd => absurd hd (h.last_unique hfile (.inr hheld) hne hl)) (fun _ _ _ _ _ => rfl)
        fun _ _ _ hs => ?_
      · simpa [FdSys.setFd] using hone
      · simpa [FdSys.setFd] using hdet
      · rw [hsite] at hs
        cases hs
    obtain ⟨p, hpc, hpf, hps, hph, hpl⟩ := putDone_pc
      { s.setFd d { s.fds d with closing := true } with failed := d :: s.failed } c k
    obtain ⟨hfds, hsame⟩ := putDone_same
      { s.setFd d { s.fds d with closing := true } with failed := d :: s.failed } c k
    refine hmark.requeue hfds hsame.slot hpc hsame.maxfd hsame.next (fun b => ?_) (.plain hps hpl fun b hb => ?_) hps
      (fun hq => hsame.pending.trans (h.quiet (hsame.retrying.symm.trans hq))) fun b hb => ?_
    · rw [hsame.failed, hsame.pending]
      simp only [FdSys.setFd, hheld, hph, List.count_cons, beq_iff_eq, Option.some.injEq, reduceCtorEq, if_false]
      omega
    · rw [hpf] at hb
      cases hb
    · rw [hsame.failed, hsame.pending, List.cons_append, List.mem_cons] at hb
      rcases hb with rfl | hb
      · simpa [FdSys.setFd] using hone
      · exact hmark.queued b hb
  · obtain ⟨p, hpc, hpf, hps, hph, hpl⟩ := putDone_pc
      ((s.setFd d { s.fds d with refCount := (s.fds d).refCount - 1 }).fdFree d) c k
    obtain ⟨hfds, hsame⟩ := putDone_same
      ((s.setFd d { s.fds d with refCount := (s.fds d).refCount - 1 }).fdFree d) c k
    obtain ⟨hpc', hsame'⟩ := fdFree_same (s.setFd d { s.fds d with refCount := (s.fds d).refCount - 1 }) d
    refine h.drop (x := { s.fds d with refCount := (s.fds d).refCount - 1, freed := (s.fds d).freed + 1 }) hlast hfile hsite
      ?_ ?_ rfl rfl ?_ ?_ hph (.plain hps hpl fun b hb => ?_) hps
    · rw [hfds, fdFree_fds]
      simp [FdSys.setFd]
    · simp only
      omega
    · exact (FdSys.same_setFd _ _ _).trans (hsame'.trans hsame)
    · rw [hpc, hpc']
      rfl
    · rw [hpf] at hb
      cases hb

theorem fdtFdClose {type : Option FileType} (h : FdInv s) (hc : s.pc c = .idle)
    (hok : ∀ d ∈ s.slot σ, (s.fds d).openAt = some σ → (s.fds d).fnode = none) : FdInv (s.fdtFdClose c σ type) := by
  have hheld : (s.pc c).held = none := by rw [hc]; rfl
  unfold FdSys.fdtFdClose
  split
  · exact h.finish _ hheld
  next d hd =>
  obtain ⟨hσ, hfreed, hclosing⟩ := fdtFdGetLocked_some hd
  have hpos := h.refCount_pos hσ
  have hlt := h.lt_next hpos
  have hother : ∀ c', (s.pc c').last = true → (s.pc c').file ≠ some d := fun c' hl => h.not_last hσ hclosing hl
  split
  · exact h.finish _ hheld
  next f hf =>
  have hopen : (s.fds d).openAt ≠ some σ := fun he => by
    rw [hok d hσ he] at hf
    cases hf
  have hsite : ∀ c', (s.pc c').site ≠ some σ := fun c' hs => hopen (h.openAt_of_site hσ hclosing hs)
  split_ifs with htype hmany
  · exact h.finish _ hheld
  · refine h.move (e := d) (a := σ) (v := none) (p := .idle) rfl rfl rfl (fun _ => le_rfl) (.inl rfl) rfl rfl rfl ?_
      (fun b hb => ?_) (.inr ⟨hlt, ?_⟩) (fun b hb => ?_) (fun hq => absurd hq (h.not_queued_of_slot hσ))
      (.plain rfl rfl fun b hb => ?_) (fun c' _ hl hd => absurd hd (hother c' hl)) (fun c' _ hs => absurd hs (hsite c')) (fun _ _ _ _ _ => rfl)
      fun _ _ _ hp => ?_
    · simp [hc, FdPc.held, hσ]
      omega
    · simp [hc, FdPc.held, hσ, hb.symm]
    · simp only
      rw [if_neg (by omega)]
      exact hfreed
    · cases hb
    · cases hb
    · cases hp
  · refine h.touch (e := d) rfl ⟨rfl, rfl, rfl, rfl, rfl, rfl⟩ rfl rfl rfl (by rw [hheld]; rfl)
      (fun _ => rfl) (.closes rfl rfl rfl hlt hσ ?_ ?_ ?_) (fun c' _ hl hd => absurd hd (hother c' hl)) (fun _ _ _ _ _ => rfl)
      fun c' σ' _ hp => ?_
    · simp [FdSys.setPc, FdSys.setFd]
      omega
    · simp [FdSys.setPc, FdSys.setFd]
    · simpa [FdSys.setPc, FdSys.setFd] using hopen
    · cases hp
      exact hsite c'

theorem fdtFdClosed (h : FdInv s) (hc : s.pc c = .closed σ d result) : FdInv (s.fdtFdClosed c σ d result) := by
  have hlast : (s.pc c).last = true := by rw [hc]; rfl
  have hfile : (s.pc c).file = some d := by rw [hc]; rfl
  have hs : (s.pc c).site = some σ := by rw [hc]; rfl
  have hσ : s.slot σ = some d := ((h.call c).slot σ hs).trans hfile
  have hone := (h.call c).last hlast d hfile
  have hlt := (h.call c).known d hfile
  have hfreed := h.freed_eq_zero (d := d) (by omega)
  have hother : ∀ c', c' ≠ c → (s.pc c').last = true → (s.pc c').file ≠ some d := fun c' hne hl =>
    h.last_unique hfile (.inl ⟨σ, hs⟩) hne hl
  unfold FdSys.fdtFdClosed
  by_cases hr : result = .retry
  · rw [if_pos hr]
    refine h.touch (e := d) rfl ⟨rfl, rfl, rfl, rfl, rfl, rfl⟩ rfl rfl rfl (by rw [hc]; rfl)
      (fun hq => absurd hq (h.not_queued_of_slot hσ)) (.plain rfl rfl fun b hb => ?_)
      (fun c' hne hl hd => absurd hd (hother c' hne hl)) (fun _ _ _ _ _ => rfl) fun _ _ _ hp => ?_
    · cases hb
    · cases hp
  · rw [if_neg hr]
    obtain ⟨hpc, hsame⟩ := fdFree_same ((s.setSlot σ none).setFd d { s.fds d with refCount := (s.fds d).refCount - 1 }) d
    have hfds : (((s.setSlot σ none).setFd d { s.fds d with refCount := (s.fds d).refCount - 1 }).fdFree d).fds =
        Function.update s.fds d { s.fds d with refCount := (s.fds d).refCount - 1, freed := (s.fds d).freed + 1 } := by
      rw [fdFree_fds]
      simp [FdSys.setFd, FdSys.setSlot]
    -- the state after `fd_free` is known by these facts only
    generalize ((s.setSlot σ none).setFd d { s.fds d with refCount := (s.fds d).refCount - 1 }).fdFree d = q at hpc hsame hfds ⊢
    refine h.move (e := d) (x := { s.fds d with refCount := (s.fds d).refCount - 1, freed := (s.fds d).freed + 1 }) (a := σ)
      (v := none) (p := .idle) hfds hsame.slot ?_ (fun t => (congrFun hsame.maxfd t).ge) (.inl hsame.next) hsame.failed
      hsame.pending hsame.retrying ?_ (fun b hb => ?_) (.inr ⟨hsame.next ▸ hlt, ?_⟩) (fun b hb => ?_)
      (fun hq => absurd hq (h.not_queued_of_slot hσ)) (.plain rfl rfl fun b hb => ?_)
      (fun c' hne hl hd => absurd hd (hother c' hne hl)) (fun c' hne hs' => absurd (h.alone _ _ σ hs' hs) hne)
      (fun _ _ _ _ _ => rfl) fun _ _ _ hp => ?_
    · rw [FdSys.finish, FdSys.setPc, hpc]
      rfl
    · simp [hc, FdPc.held, hσ]
      omega
    · simp [hc, FdPc.held, hσ, hb.symm]
    · simp only
      rw [if_pos (by omega), hfreed]
    · cases hb
    · cases hb
    · cases hp

theorem fdtFdRelease_eq (s : FdSys) (hσ : s.slot σ = some d) (hlt : σ.2 < s.maxfd σ.1) (hfreed : (s.fds d).freed = 0) :
    ∃ x, (s.fdtFdRelease σ).fds = Function.update s.fds d x ∧ (s.fdtFdRelease σ).pc = s.pc ∧
      (s.setSlot σ none).Same (s.fdtFdRelease σ) ∧ x.refCount = (s.fds d).refCount - 1 ∧
        x.freed = if x.refCount = 0 then 1 else 0 := by
  unfold FdSys.fdtFdRelease
  rw [if_pos hlt, hσ]
  dsimp only
  split_ifs with hz
  · obtain ⟨hpc, hsame⟩ := fdFree_same ((s.setSlot σ none).setFd d { s.fds d with refCount := (s.fds d).refCount - 1 }) d
    refine ⟨{ s.fds d with refCount := (s.fds d).refCount - 1, freed := (s.fds d).freed + 1 }, ?_, hpc,
      (FdSys.same_setFd _ _ _).trans hsame, rfl, ?_⟩
    · rw [fdFree_fds]
      simp [FdSys.setFd, FdSys.setSlot]
    · simp [hz, hfreed]
  · exact ⟨{ s.fds d with refCount := (s.fds d).refCount - 1 }, rfl, rfl, FdSys.same_setFd _ _ _, rfl, by simp [hz, hfreed]⟩

theorem release {errno : FdErr} (h : FdInv s) (hc : s.pc c = .failing σ d errno) :
    FdInv (((s.setFd d { s.fds d with openAt := none }).fdtFdRelease σ).finish c (.failed errno)) := by
  have hfile : (s.pc c).file = some d := by rw [hc]; rfl
  have hs : (s.pc c).site = some σ := by rw [hc]; rfl
  have hl : (s.pc c).last = false := by rw [hc]; rfl
  have hσ : s.slot σ = some d := ((h.call c).slot σ hs).trans hfile
  have hpos := h.refCount_pos hσ
  have hlt := (h.call c).known d hfile
  have hfreed := h.freed_eq_zero hpos
  obtain ⟨x, hfds, hpc, hsame, hx⟩ := fdtFdRelease_eq (s.setFd d { s.fds d with openAt := none }) hσ (h.table σ d hσ)
    (by simpa [FdSys.setFd] using hfreed)
  have hx1 : x.refCount = (s.fds d).refCount - 1 := by simpa [FdSys.setFd] using hx.1
  have hfds' := hfds.trans (Function.update_idem _ _ _)
  generalize (s.setFd d { s.fds d with openAt := none }).fdtFdRelease σ = q at hfds' hpc hsame ⊢
  refine h.move (e := d) (x := x) (a := σ) (v := none) (p := .idle)
    hfds' hsame.slot (by rw [FdSys.finish, FdSys.setPc, hpc]; rfl)
    (fun t => (congrFun hsame.maxfd t).ge) (.inl hsame.next) hsame.failed hsame.pending hsame.retrying ?_ (fun b hb => ?_)
    (.inr ⟨hsame.next ▸ hlt, hx.2⟩) (fun b hb => ?_) (fun hq => absurd hq (h.not_queued_of_slot hσ)) (.plain rfl rfl fun b hb => ?_)
    (fun c' hne hl' hd => absurd hd (h.last_unique hfile (.inl ⟨σ, hs⟩) hne hl'))
    (fun c' hne hs' => absurd (h.alone _ _ σ hs' hs) hne)
    (fun c' τ hne hs' hd => absurd hd (h.opener_unique hfile hs hl hne hs')) fun _ _ _ hp => ?_
  · simp [hc, FdPc.held, hσ, hx1]
    omega
  · simp [hc, FdPc.held, hσ, hb.symm]
  · cases hb
  · cases hb
  · cases hp

theorem share {a : FdSlot} (h : FdInv s) (hc : (s.pc c).held = none) (hlt : d < s.next)
    (hfreed : (s.fds d).freed = 0) (hclosing : (s.fds d).closing = false)
    (hlast : ∀ c', (s.pc c').last = true → (s.pc c').file ≠ some d)
    (hempty : s.slot a = none) (ha : a.2 < s'.maxfd a.1) (hmax : ∀ t, s.maxfd t ≤ s'.maxfd t)
    (hfds : s'.fds = Function.update s.fds d { s.fds d with refCount := (s.fds d).refCount + 1 })
    (hslot : s'.slot = Function.update s.slot a (some d)) (hpc : s'.pc = Function.update s.pc c .idle)
    (hnext : s'.next = s.next) (hfailed : s'.failed = s.failed) (hpending : s'.pending = s.pending)
    (hretrying : s'.retrying = s.retrying) : FdInv s' := by
  refine h.move (e := d) hfds hslot hpc hmax (.inl hnext) hfailed hpending hretrying ?_ (fun b hb => ?_) (.inr ⟨hnext ▸ hlt, ?_⟩)
    (fun b _ => ha) (fun hq => ?_) (.plain rfl rfl fun b hb => ?_) (fun c' _ hl hd => absurd hd (hlast c' hl))
    (fun c' _ hs => absurd hs (h.site_ne_of_empty hempty)) (fun _ _ _ _ _ => rfl) fun _ _ _ hp => ?_
  · simp [hc, hempty, show FdPc.idle.held = none from rfl]
  · simp [hc, hempty, hb.symm, show FdPc.idle.held = none from rfl]
  · simpa using hfreed
  · rw [(h.queued d hq).2] at hclosing
    cases hclosing
  · cases hb
  · cases hp

theorem sysDup {oldfd : ℕ} {mem : Bool} (h : FdInv s) (hc : s.pc c = .idle) : FdInv (s.sysDup cfg c t oldfd mem) := by
  have hheld : (s.pc c).held = none := by rw [hc]; rfl
  unfold FdSys.sysDup
  split
  · exact h.finish _ hheld
  next d hd =>
  have hσ : s.slot (t, oldfd) = some d := by
    split_ifs at hd
    exact hd
  split_ifs with hclosing
  · exact h.finish _ hheld
  have hclosing : (s.fds d).closing = false := by simpa using hclosing
  have hpos := h.refCount_pos hσ
  split
  · exact h.finish _ hheld
  next newfd nr ha =>
  obtain ⟨hempty, hlt, hle⟩ := fdSlotAlloc_some h ha
  refine h.share hheld (h.lt_next hpos) (h.freed_eq_zero hpos) hclosing (fun c' hl => h.not_last hσ hclosing hl) hempty ?_
    (le_update_maxfd hle) rfl rfl rfl rfl rfl rfl rfl
  simpa [FdSys.finish, FdSys.setPc, FdSys.setFd, FdSys.setSlot, FdSys.setMaxfd] using hlt

theorem fdAssociate {d : ℕ} (h : FdInv s) (hc : s.pc c = .looked d)
    (hok : (s.fds d).closing = false → (s.fds d).freed = 0 ∧ (s.fds d).detached = false) :
    FdInv (s.fdAssociate c σ d) := by
  have hheld : (s.pc c).held = none := by rw [hc]; rfl
  have hfile : (s.pc c).file = some d := by rw [hc]; rfl
  unfold FdSys.fdAssociate
  split_ifs with hσ hbusy
  · exact h.finish _ hheld
  · obtain ⟨hempty, hclosing⟩ : s.slot σ = none ∧ (s.fds d).closing = false := by simpa using hbusy
    obtain ⟨hfreed, hdet⟩ := hok hclosing
    refine h.share hheld ((h.call c).known d hfile) hfreed hclosing (fun c' hl hd => ?_) hempty hσ (fun _ => le_rfl) rfl rfl rfl rfl
      rfl rfl rfl
    cases hs : (s.pc c').site with
    | none =>
      have := (h.call c').detached hl hs d hd
      rw [hdet] at this
      cases this
    | some τ =>
      have := ((h.call c').closing hl τ d hs hd).1
      rw [hclosing] at this
      cases this
  · exact h.finish _ hheld

theorem sysDup2 {oldfd newfd : ℕ} {mem : Bool} (h : FdInv s) (hc : s.pc c = .idle)
    (hok : ∀ d ∈ s.slot (t, newfd), (s.fds d).openAt = some (t, newfd) → s.slot (t, oldfd) = some d) :
    FdInv (s.sysDup2 cfg c t oldfd newfd mem) := by
  have hheld : (s.pc c).held = none := by rw [hc]; rfl
  unfold FdSys.sysDup2
  split
  · exact h.finish _ hheld
  next d hd =>
  have hσ : s.slot (t, oldfd) = some d := by
    split_ifs at hd
    exact hd
  split_ifs with hclosing
  · exact h.finish _ hheld
  have hclosing : (s.fds d).closing = false := by simpa using hclosing
  have hpos := h.refCount_pos hσ
  split
  · exact h.finish _ hheld
  next nr hnr =>
  obtain ⟨hlt, hle⟩ := fdSlotExpand_some hnr
  dsimp only
  split
  · next hempty =>
    refine h.share hheld (h.lt_next hpos) (h.freed_eq_zero hpos) hclosing (fun c' hl => h.not_last hσ hclosing hl) hempty ?_
      (le_update_maxfd hle) rfl rfl rfl rfl rfl rfl rfl
    simpa [FdSys.finish, FdSys.setPc, FdSys.setFd, FdSys.setSlot, FdSys.setMaxfd] using hlt
  next replaced hrep =>
  have hrep : s.slot (t, newfd) = some replaced := hrep
  split_ifs with heq hrc
  · exact (h.setMaxfd hle).finish _ hheld
  · exact (h.setMaxfd hle).finish _ hheld
  · have hrc : (s.fds replaced).closing = false := by simpa [FdSys.setMaxfd] using hrc
    refine h.move (e := d) (a := (t, newfd)) (v := some d) rfl rfl rfl (le_update_maxfd hle) (.inl rfl) rfl rfl rfl ?_
      (fun b hb => ?_) (.inr ⟨h.lt_next hpos, ?_⟩) (fun b _ => ?_) (fun hq => absurd hq (h.not_queued_of_slot hσ))
      (.plain rfl rfl fun b hb => ?_)
      (fun c' _ hl hd => absurd hd (h.not_last hσ hclosing hl)) (fun c' _ hs => ?_) (fun _ _ _ _ _ => rfl)
      fun _ _ _ hp => ?_
    · simp [hc, hrep, FdPc.held, heq, FdSys.setMaxfd]
    · simp [hc, hrep, FdPc.held, hb.symm]
    · simpa [FdSys.setMaxfd] using h.freed_eq_zero hpos
    · simpa [FdSys.setPc, FdSys.setFd, FdSys.setSlot, FdSys.setMaxfd] using hlt
    · cases hb
      exact h.lt_next (h.refCount_pos hrep)
    · have := hok replaced hrep (h.openAt_of_site hrep hrc hs)
      rw [hσ] at this
      exact absurd (Option.some.inj this).symm heq
    · cases hp

theorem fdRetryFailedCloses (h : FdInv s) (hc : s.pc c = .idle) : FdInv (s.fdRetryFailedCloses c) := by
  have hheld : (s.pc c).held = none := by rw [hc]; rfl
  unfold FdSys.fdRetryFailedCloses
  split_ifs with hr
  · exact h.finish _ hheld
  · have hr : s.retrying = false := by
      simp only [not_or] at hr
      simpa using hr.1
    refine h.requeue (c := c) (p := .retrying) rfl rfl rfl rfl rfl (fun d => ?_) (.plain rfl rfl fun b hb => ?_) rfl
      (fun hq => ?_) fun b hb => ?_
    · simp [hc, FdPc.held, FdSys.setPc, h.quiet hr]
    · cases hb
    · cases hq
    · exact h.queued b (List.mem_append_left _ hb)

theorem fdRetryNext (h : FdInv s) (hc : s.pc c = .retrying) : FdInv (s.fdRetryNext c) := by
  unfold FdSys.fdRetryNext
  split
  · next hnil =>
    refine h.requeue (c := c) (p := .idle) rfl rfl rfl rfl rfl (fun d => ?_) (.plain rfl rfl fun b hb => ?_) rfl
      (fun _ => hnil) h.queued
    · simp [hc, FdPc.held, FdSys.finish, FdSys.setPc]
    · cases hb
  next d next hnext =>
  have hlt : d < s.next := by
    have hd := h.count_eq d
    have : 0 < s.pending.count d := List.count_pos_iff.mpr (by simp [hnext])
    exact h.lt_next (by omega)
  refine h.requeue (c := c) (p := .holds d .retry) rfl rfl rfl rfl rfl (fun b => ?_) (.plain rfl rfl fun b hb => ?_) rfl
    (fun hq => ?_) fun b hb => ?_
  · simp only [hc, FdPc.held, FdSys.setPc, hnext, List.count_cons, beq_iff_eq, Option.some.injEq, reduceCtorEq, if_false]
    omega
  · cases hb
    exact hlt
  · rw [h.quiet hq] at hnext
    cases hnext
  · refine h.queued b ?_
    rw [hnext]
    rcases List.mem_append.mp hb with hb | hb
    · exact List.mem_append_left _ hb
    · exact List.mem_append_right _ (List.mem_cons_of_mem _ hb)

theorem mountCheck (h : FdInv s) (hc : s.pc c = .idle) : FdInv (s.mountCheck c) := by
  have hzero := h.fresh s.next le_rfl
  unfold FdSys.mountCheck
  refine h.move (e := s.next) (x := ⟨1, none, false, 0, true, none⟩) (a := (0, 0)) (v := s.slot (0, 0)) rfl
    (Function.update_eq_self _ _).symm rfl (fun _ => le_rfl) (.inr ⟨rfl, rfl⟩) rfl rfl rfl ?_ (fun d hd => ?_)
    (.inr ⟨Nat.lt_succ_self _, rfl⟩) (fun b hb => h.table _ b hb)
    (fun hq => absurd (h.queued _ hq).1 (by omega)) (.gives rfl rfl rfl (Nat.lt_succ_self _) ?_ ?_)
    (fun c' _ hl hd => ?_) (fun _ _ _ => rfl) (fun c' σ _ hs hd => ?_) fun _ _ _ hp => ?_
  · simp [hc, FdPc.held, hzero]
    omega
  · simp [hc, FdPc.held, hd.symm]
  · simp [FdSys.setPc, FdSys.setFd]
  · simp [FdSys.setPc, FdSys.setFd]
  · exact absurd ((h.call c').known _ hd) (lt_irrefl _)
  · exact absurd ((h.call c').known _ hd) (lt_irrefl _)
  · cases hp

theorem openGet (h : FdInv s) (hc : s.pc c = .allocated σ d) :
    FdInv (match s.fdtFdGetLocked σ with
      | some d => s.setPc c (.opening (.slot σ) d)
      | none => s.setPc c (.failing σ d .einval)) := by
  have hfile : (s.pc c).file = some d := by rw [hc]; rfl
  have hs : (s.pc c).site = some σ := by rw [hc]; rfl
  have hl : (s.pc c).last = false := by rw [hc]; rfl
  have hσ : s.slot σ = some d := ((h.call c).slot σ hs).trans hfile
  have hopen := (h.call c).openAt hl σ d hs hfile
  have halone : ∀ c' τ, c' ≠ c → some σ = some τ → (s.pc c').site ≠ some τ := by
    rintro c' τ hne ⟨⟩ hs'
    exact hne (h.alone _ _ σ hs' hs)
  split
  · next d' hd' =>
    obtain rfl : d' = d := Option.some.inj ((fdtFdGetLocked_some hd').1.symm.trans hσ)
    exact h.moveOn rfl ⟨rfl, rfl, rfl, rfl, rfl, rfl⟩ rfl (by rw [hc]; rfl)
      (.opens rfl rfl rfl ((h.call c).known _ hfile) hσ hopen) halone
  · exact h.moveOn rfl ⟨rfl, rfl, rfl, rfl, rfl, rfl⟩ rfl (by rw [hc]; rfl)
      (.opens rfl rfl rfl ((h.call c).known _ hfile) hσ hopen) halone

theorem not_queued_of_open (h : FdInv s) (hc : (s.pc c).Opens o d) : d ∉ s.failed ++ s.pending := by
  cases o with
  | slot σ => exact h.not_queued_of_slot (((h.call c).slot σ hc.site).trans hc.file)
  | mount => exact h.not_queued_of_held hc.held

/-- A call inside `open` or the check of `dfs_mount` changes its file and goes on there. -/
theorem openStep {p : FdPc} {x : DfsFd} (h : FdInv s) (hc : (s.pc c).Opens o d) (hp : p.Opens o d)
    (hfds : s'.fds = Function.update s.fds d x) (hsame : s.Same s') (hpc : s'.pc = Function.update s.pc c p)
    (hcount : x.refCount = (s.fds d).refCount) (hfreed : x.freed = (s.fds d).freed)
    (hdet : x.detached = (s.fds d).detached) (hopen : x.openAt = (s.fds d).openAt) : FdInv s' := by
  have hlt := (h.call c).known d hc.file
  have hqueued : d ∉ s.failed ++ s.pending := h.not_queued_of_open hc
  have hx : s'.fds d = x := by rw [hfds, Function.update_self]
  refine h.touch hfds hsame hpc hcount hfreed (hp.held.trans hc.held.symm)
    (fun hq => absurd hq hqueued) ?_ (fun c' hne hl hd => ?_)
    (fun _ _ _ _ _ => hopen) fun c' τ hne hs hs' => ?_
  · cases o with
    | slot σ =>
      refine .opens hp.site hp.last hp.file (hsame.next ▸ hlt) ?_ ?_
      · rw [hsame.slot, (h.call c).slot σ hc.site, hc.file]
      · rw [hx, hopen]
        exact (h.call c).openAt hc.last σ d hc.site hc.file
    | mount =>
      refine .gives hp.site hp.last hp.file (hsame.next ▸ hlt) ?_ ?_
      · rw [hx, hcount]
        exact (h.call c).last hc.last d hc.file
      · rw [hx, hdet]
        exact (h.call c).detached hc.last hc.site d hc.file
  · refine absurd hd (h.last_unique hc.file ?_ hne hl)
    cases o with
    | slot σ => exact .inl ⟨σ, hc.site⟩
    | mount => exact .inr hc.held
  · rw [hp.site, ← hc.site] at hs
    exact hne (h.alone _ _ τ hs' hs)

theorem openFailed {s₁ : FdSys} {g : Option ℕ} (h : FdInv s) (hc : (s.pc c).Opens o d)
    (hfds : s₁.fds = Function.update s.fds d { s.fds d with fnode := g }) (hsame : s.Same s₁) (hpc : s₁.pc = s.pc)
    (errno : FdErr) : FdInv (s₁.openFailed c o d errno) := by
  cases o with
  | slot σ =>
    have hpc' : (s₁.openFailed c (.slot σ) d errno).pc = Function.update s.pc c (.failing σ d errno) := by
      rw [← hpc]
      rfl
    exact h.openStep hc (.failing σ d errno) hfds ⟨hsame.slot, hsame.maxfd, hsame.next, hsame.failed, hsame.pending, hsame.retrying⟩ hpc'
      rfl rfl rfl rfl
  | mount =>
    refine h.drop (x := { s.fds d with refCount := 0, fnode := g, freed := (s.fds d).freed + 1 }) (p := .idle) hc.last hc.file
      hc.site ?_ rfl rfl rfl ⟨hsame.slot, hsame.maxfd, hsame.next, hsame.failed, hsame.pending, hsame.retrying⟩ ?_ rfl
      (.plain rfl rfl fun b hb => ?_) rfl
    · simp [FdSys.openFailed, FdSys.finish, FdSys.setPc, FdSys.pop, FdSys.setFd, hfds]
    · simp [FdSys.openFailed, FdSys.finish, FdSys.setPc, FdSys.pop, FdSys.setFd, hpc]
    · cases hb

theorem dfsFileOpen {cwd : WorkDir} {path : List Char} {table : List Filesystem} {alloc calloc : Bool} (h : FdInv s)
    (hc : s.pc c = .opening o d) : FdInv (s.dfsFileOpen cfg c o d cwd path table alloc calloc) := by
  have hopens : (s.pc c).Opens o d := hc ▸ .opening o d
  have hfail : ∀ errno, FdInv (s.openFailed c o d errno) := fun errno =>
    h.openFailed (g := (s.fds d).fnode) hopens (Function.update_eq_self _ _).symm ⟨rfl, rfl, rfl, rfl, rfl, rfl⟩ rfl errno
  unfold FdSys.dfsFileOpen
  split
  · exact hfail _
  split
  · next f _ => exact h.openStep hopens (.found o d f) rfl ⟨rfl, rfl, rfl, rfl, rfl, rfl⟩ rfl rfl rfl rfl rfl
  split
  · exact hfail _
  split_ifs
  · exact hfail _
  · exact hfail _
  · exact h.openStep hopens (.found o d s.nextFnode) rfl ⟨rfl, rfl, rfl, rfl, rfl, rfl⟩ rfl rfl rfl rfl rfl

theorem dfsFileOpenFlags (h : FdInv s) (hc : s.pc c = .found o d f) (closing : Bool) :
    FdInv (s.dfsFileOpenFlags c o d f closing) :=
  h.openStep (hc ▸ .found o d f) (.driver o d f) rfl ⟨rfl, rfl, rfl, rfl, rfl, rfl⟩ rfl rfl rfl rfl rfl

theorem dfsFileOpenFailed (h : FdInv s) (hc : s.pc c = .driver o d f) : FdInv (s.dfsFileOpenFailed c o d f) := by
  have hopens : (s.pc c).Opens o d := hc ▸ .driver o d f
  dsimp only [FdSys.dfsFileOpenFailed]
  refine h.openFailed (g := none) hopens ?_ ?_ ?_ _
  · rfl
  · exact ⟨rfl, rfl, rfl, rfl, rfl, rfl⟩
  · rfl

theorem dfsFileOpened (h : FdInv s) (hc : s.pc c = .driver o d f) (directory : Bool) :
    FdInv (s.dfsFileOpened c o d f directory) := by
  have hopens : (s.pc c).Opens o d := hc ▸ .driver o d f
  unfold FdSys.dfsFileOpened
  cases o with
  | slot σ =>
    refine h.touch (e := d) (p := .idle) rfl ⟨rfl, rfl, rfl, rfl, rfl, rfl⟩ rfl rfl rfl hopens.held.symm
      (fun hq => absurd hq (h.not_queued_of_open hopens)) (.plain rfl rfl fun b hb => ?_)
      (fun c' hne hl hd => absurd hd (h.last_unique hopens.file (.inl ⟨σ, hopens.site⟩) hne hl))
      (fun c' τ hne hs' hd => absurd hd (h.opener_unique hopens.file hopens.site hopens.last hne hs')) fun _ _ _ hp => ?_
    · cases hb
    · cases hp
  | mount =>
    exact h.openStep hopens (.mounted d) (Function.update_eq_self _ _).symm ⟨rfl, rfl, rfl, rfl, rfl, rfl⟩ rfl rfl rfl rfl rfl

/-- Of the files `dfs_file_close` changes only the one it is called with, and there only the file node. -/
theorem dfsFileClose_eq {r : FdSys × CloseResult} (hr : s.dfsFileClose d result = some r) :
    ∃ g, r.1.fds = Function.update s.fds d { s.fds d with fnode := g } ∧ s.Same r.1 ∧ r.1.pc = s.pc := by
  have hsame : ∃ g, s.fds = Function.update s.fds d { s.fds d with fnode := g } ∧ s.Same s ∧ s.pc = s.pc :=
    ⟨(s.fds d).fnode, (Function.update_eq_self _ _).symm, ⟨rfl, rfl, rfl, rfl, rfl, rfl⟩, rfl⟩
  unfold FdSys.dfsFileClose at hr
  split at hr
  · cases hr
    exact hsame
  split_ifs at hr <;> cases hr
  · exact hsame
  · exact hsame
  · exact ⟨none, rfl, ⟨rfl, rfl, rfl, rfl, rfl, rfl⟩, rfl⟩
  · exact hsame

theorem fileClose {r : FdSys × CloseResult} {p : FdPc} (h : FdInv s) (hr : s.dfsFileClose d result = some r)
    (hl : (s.pc c).last = true) (hd : (s.pc c).file = some d) (hpf : p.file = some d) (hpl : p.last = true)
    (hps : p.site = (s.pc c).site) (hph : p.held = (s.pc c).held) : FdInv (r.1.setPc c p) := by
  obtain ⟨g, hfds, hsame, hpc⟩ := dfsFileClose_eq hr
  have hlt := (h.call c).known d hd
  have hone := (h.call c).last hl d hd
  refine h.touch (e := d) hfds ⟨hsame.slot, hsame.maxfd, hsame.next, hsame.failed, hsame.pending, hsame.retrying⟩
    (by rw [FdSys.setPc, hpc]) rfl rfl hph (fun hq => (h.queued d hq).2) ?_ (fun c' hne hl' hd' => ?_) (fun _ _ _ _ _ => rfl) fun c' τ hne hp hs' => ?_
  · have hx : ((r.1.setPc c p).fds d) = { s.fds d with fnode := g } := by
      simp [FdSys.setPc, hfds]
    cases hs : (s.pc c).site with
    | none =>
      refine .gives (hps.trans hs) hpl hpf (hsame.next ▸ hlt) ?_ ?_
      · rw [hx]
        exact hone
      · rw [hx]
        exact (h.call c).detached hl hs d hd
    | some σ =>
      obtain ⟨hclosing, hopen⟩ := (h.call c).closing hl σ d hs hd
      refine .closes (hps.trans hs) hpl hpf (hsame.next ▸ hlt) ?_ ?_ ?_ ?_
      · exact (congrFun hsame.slot σ).trans (((h.call c).slot σ hs).trans hd)
      · rw [hx]
        exact hone
      · rw [hx]
        exact hclosing
      · rw [hx]
        exact hopen
  · refine absurd hd' (h.last_unique hd ?_ hne hl')
    cases hs : (s.pc c).site with
    | none => exact .inr ((FdPc.held_of_last hl hs).trans hd)
    | some σ => exact .inl ⟨σ, rfl⟩
  · rw [hps] at hp
    exact hne (h.alone _ _ τ hs' hp)

theorem mountClose {r : FdSys × CloseResult} (h : FdInv s) (hr : s.dfsFileClose d result = some r)
    (hc : s.pc c = .mounted d) : FdInv ((r.1.pop d).finish c .done) := by
  obtain ⟨g, hfds, hsame, hpc⟩ := dfsFileClose_eq hr
  have hopens : (s.pc c).Opens .mount d := hc ▸ .mounted d
  refine h.drop (x := { s.fds d with refCount := 0, fnode := g, freed := (s.fds d).freed + 1 }) (p := .idle) hopens.last
    hopens.file hopens.site ?_ rfl rfl rfl ⟨hsame.slot, hsame.maxfd, hsame.next, hsame.failed, hsame.pending, hsame.retrying⟩ ?_ rfl
    (.plain rfl rfl fun b hb => ?_) rfl
  · simp [FdSys.finish, FdSys.setPc, FdSys.pop, FdSys.setFd, hfds]
  · simp [FdSys.finish, FdSys.setPc, FdSys.pop, FdSys.setFd, hpc]
  · cases hb

theorem newTable (h : FdInv s) {n : ℕ} (ht : s.maxfd t = 0) : FdInv (s.setMaxfd t n) :=
  h.setMaxfd (ht ▸ Nat.zero_le n)

end FdInv

namespace FdSys

/-- No slot is closed or replaced while the `open` that it was given to has a file node in it, and
`fd_associate` does not get a file that has been freed or is being given back. -/
def Owned (s : FdSys) : FdEvent → Prop
  | .close _ σ _ => ∀ d ∈ s.slot σ, (s.fds d).openAt = some σ → (s.fds d).fnode = none
  | .dup2 _ t oldfd newfd _ => ∀ d ∈ s.slot (t, newfd), (s.fds d).openAt = some (t, newfd) → s.slot (t, oldfd) = some d
  | .associate c _ => ∀ d ∈ (s.pc c).given, (s.fds d).closing = false → (s.fds d).freed = 0 ∧ (s.fds d).detached = false
  | _ => True

instance (s : FdSys) (e : FdEvent) : Decidable (s.Owned e) :=
  match e with
  | .close _ σ _ =>
    inferInstanceAs (Decidable (∀ d ∈ s.slot σ, (s.fds d).openAt = some σ → (s.fds d).fnode = none))
  | .dup2 _ t oldfd newfd _ =>
    inferInstanceAs (Decidable (∀ d ∈ s.slot (t, newfd), (s.fds d).openAt = some (t, newfd) →
      s.slot (t, oldfd) = some d))
  | .associate c _ =>
    inferInstanceAs (Decidable (∀ d ∈ (s.pc c).given, (s.fds d).closing = false →
      (s.fds d).freed = 0 ∧ (s.fds d).detached = false))
  | .newTable _ _ | .fdNew _ _ _ _ | .fdGet _ _ | .openGet _ | .openFind _ _ _ _ _ _ | .openFlags _ _ | .opened _ _
  | .openFailed _ | .release _ | .getRef _ _ | .put _ | .fileClose _ _ | .closed _ | .dup _ _ _ _ | .retry _
  | .retryNext _ | .mount _ => isTrue trivial

theorem start_some {s s' s'' : FdSys} {c : ℕ} (h : s.start c s' = some s'') : s.pc c = .idle ∧ s' = s'' := by
  unfold start at h
  split_ifs at h with hc
  exact ⟨hc, Option.some.inj h⟩

end FdSys

namespace FdInv

variable {cfg : DfsConfig} {s s' : FdSys} {e : FdEvent}

theorem step (h : FdInv s) (hok : s.Owned e) (hs : s.step cfg e = some s') : FdInv s' := by
  cases e with
  | newTable t n =>
    simp only [FdSys.step] at hs
    split_ifs at hs with ht
    cases hs
    exact h.newTable ht
  | fdNew c t mem calloc =>
    obtain ⟨hc, rfl⟩ := FdSys.start_some hs
    exact h.fdtFdNew hc mem calloc
  | fdGet c σ =>
    obtain ⟨hc, rfl⟩ := FdSys.start_some hs
    have hheld : (s.pc c).held = none := by rw [hc]; rfl
    split
    · next d hd =>
      refine h.moveOn rfl ⟨rfl, rfl, rfl, rfl, rfl, rfl⟩ rfl hheld.symm (.plain rfl rfl ?_) fun _ _ _ hp => ?_
      · rintro b ⟨⟩
        exact h.lt_next (h.refCount_pos (fdtFdGetLocked_some hd).1)
      · cases hp
    · exact h.finish _ hheld
  | openGet c =>
    simp only [FdSys.step] at hs
    split at hs <;> cases hs
    next σ d hc => exact h.openGet hc
  | openFind c cwd path table alloc calloc =>
    simp only [FdSys.step] at hs
    split at hs <;> cases hs
    next o d hc _ => exact h.dfsFileOpen hc
  | openFlags c closing =>
    simp only [FdSys.step] at hs
    split at hs <;> cases hs
    next o d f hc => exact h.dfsFileOpenFlags hc closing
  | opened c directory =>
    simp only [FdSys.step] at hs
    split at hs <;> cases hs
    next o d f hc => exact h.dfsFileOpened hc directory
  | openFailed c =>
    simp only [FdSys.step] at hs
    split at hs
    · next o d f hc =>
      split_ifs at hs
      cases hs
      exact h.dfsFileOpenFailed hc
    · cases hs
  | release c =>
    simp only [FdSys.step] at hs
    split at hs <;> cases hs
    next σ d errno hc => exact h.release hc
  | getRef c σ =>
    obtain ⟨hc, rfl⟩ := FdSys.start_some hs
    exact h.fdGetRef hc σ
  | put c =>
    simp only [FdSys.step] at hs
    split at hs
    · next d k hc =>
      split_ifs at hs with hpos
      cases hs
      exact h.fdPut hc hpos
    · cases hs
  | close c σ type =>
    obtain ⟨hc, rfl⟩ := FdSys.start_some hs
    exact h.fdtFdClose hc hok
  | fileClose c result =>
    simp only [FdSys.step] at hs
    split at hs
    · next d k hc =>
      obtain ⟨r, hr, rfl⟩ := Option.map_eq_some_iff.mp hs
      exact h.fileClose hr (by rw [hc]; rfl) (by rw [hc]; rfl) rfl rfl (by rw [hc]; rfl) (by rw [hc]; rfl)
    · next σ d hc =>
      obtain ⟨r, hr, rfl⟩ := Option.map_eq_some_iff.mp hs
      exact h.fileClose hr (by rw [hc]; rfl) (by rw [hc]; rfl) rfl rfl (by rw [hc]; rfl) (by rw [hc]; rfl)
    · next d hc =>
      obtain ⟨r, hr, rfl⟩ := Option.map_eq_some_iff.mp hs
      exact h.mountClose hr hc
    · cases hs
  | closed c =>
    simp only [FdSys.step] at hs
    split at hs <;> cases hs
    · next d k result hc => exact h.fdPutClosed hc
    · next σ d result hc => exact h.fdtFdClosed hc
  | dup c t oldfd mem =>
    obtain ⟨hc, rfl⟩ := FdSys.start_some hs
    exact h.sysDup hc
  | dup2 c t oldfd newfd mem =>
    obtain ⟨hc, rfl⟩ := FdSys.start_some hs
    exact h.sysDup2 hc hok
  | associate c σ =>
    simp only [FdSys.step] at hs
    split at hs <;> cases hs
    next d hc =>
    refine h.fdAssociate hc (hok d ?_)
    rw [hc]
    rfl
  | retry c =>
    obtain ⟨hc, rfl⟩ := FdSys.start_some hs
    exact h.fdRetryFailedCloses hc
  | retryNext c =>
    simp only [FdSys.step] at hs
    split at hs <;> cases hs
    next hc => exact h.fdRetryNext hc
  | mount c =>
    obtain ⟨hc, rfl⟩ := FdSys.start_some hs
    exact h.mountCheck hc

theorem run {es : List FdEvent} (h : Lib.run (FdSys.step cfg) .init es = some s)
    (hok : Meets (FdSys.step cfg) FdSys.Owned .init es) : FdInv s :=
  run_invariant_of_meets FdInv (fun _ _ _ hi hok hs => hi.step hok hs) h hok init

theorem slot_kept {c d : ℕ} {σ : FdSlot} (h : FdInv s) (hc : s.pc c = .closed σ d .retry)
    (hs : s.step cfg (.closed c) = some s') : s'.fdtFdGetLocked σ = some d := by
  have hfile : (s.pc c).file = some d := by rw [hc]; rfl
  have hσ : s.slot σ = some d := ((h.call c).slot σ (by rw [hc]; rfl)).trans hfile
  have hfreed := h.freed_eq_zero (h.refCount_pos hσ)
  simp only [FdSys.step, hc, Option.some.injEq] at hs
  subst hs
  simp [FdSys.fdtFdClosed, FdSys.fdtFdGetLocked, FdSys.finish, FdSys.setPc, FdSys.setFd, hσ, hfreed, h.table σ d hσ]

end FdInv

/-- A file's count is the number of slots, calls and failed closes that refer to it; a driver is asked to
close it by the call that has the last of these; it is freed once, when none is left; and a close that is
to be tried again leaves it in its slot or in the list. -/
theorem fd_counts_exact {cfg : DfsConfig} {es : List FdEvent} {s : FdSys} (hs : run (FdSys.step cfg) .init es = some s)
    (hok : Meets (FdSys.step cfg) FdSys.Owned .init es) :
    (∀ d, {σ | s.slot σ = some d}.Finite ∧ {c | (s.pc c).held = some d}.Finite ∧ (s.failed ++ s.pending).count d ≤ 1 ∧
      (s.fds d).refCount = {σ | s.slot σ = some d}.ncard + {c | (s.pc c).held = some d}.ncard +
        (s.failed ++ s.pending).count d) ∧
    (∀ c d, (s.pc c).last = true → (s.pc c).file = some d → (s.fds d).refCount = 1) ∧
    (∀ d, (s.fds d).freed = if d < s.next ∧ (s.fds d).refCount = 0 then 1 else 0) ∧
    (∀ c σ d s', s.pc c = .closed σ d .retry → s.step cfg (.closed c) = some s' → s'.fdtFdGetLocked σ = some d) ∧
    ∀ c d k s', s.pc c = .put d k .retry → s.step cfg (.closed c) = some s' → d ∈ s'.failed := by
  have h := FdInv.run hs hok
  refine ⟨fun d => ⟨h.slots d, h.calls d, ?_, ?_⟩, fun c d hl hd => (h.call c).last hl d hd, h.freed,
    fun c σ d s' hc hs' => h.slot_kept hc hs', fun c d k s' hc hs' => ?_⟩
  · rw [List.count_append]
    by_cases hd : d ∈ s.failed ++ s.pending
    · have hone := (h.queued d hd).1
      have hcount := h.count_eq d
      omega
    · have hzero := List.count_eq_zero_of_not_mem hd
      rw [List.count_append] at hzero
      omega
  · have hcount := h.count_eq d
    simp only [refs, refSet] at hcount
    rw [List.count_append]
    omega
  · simp only [FdSys.step, hc, Option.some.injEq] at hs'
    subst hs'
    rw [FdSys.fdPutClosed, if_pos rfl, (FdInv.putDone_same _ c k).2.failed]
    exact List.mem_cons_self

def plainConfig : DfsConfig := ⟨16, 3, fun _ => false, fun _ => true⟩

def rootMounted : List Filesystem := [⟨none, some ['/'], some romfs, none⟩]

/-- The steps of an `open` in the table `0` that succeeds. -/
def openSteps (c : ℕ) (path : List Char) : List FdEvent :=
  [.fdNew c 0 true true, .openGet c, .openFind c rootDir path rootMounted true true, .openFlags c false, .opened c false]

def sharedFile : List FdEvent :=
  openSteps 0 ['a'] ++
    ([.dup 0 0 3 true, .getRef 1 (0, 4), .newTable 1 8, .fdGet 2 (0, 3), .associate 2 (1, 0), .close 0 (0, 3) none,
      .put 1, .close 0 (0, 4) none, .close 2 (1, 0) none, .fileClose 2 .retry, .closed 2, .close 2 (1, 0) none,
      .fileClose 2 .done, .closed 2] : List FdEvent)

theorem fd_counts_exact_example : ∃ s, run (FdSys.step plainConfig) .init sharedFile = some s ∧
    (s.fds 0).refCount = 0 ∧ (s.fds 0).freed = 1 := by
  have hrun : ((run (FdSys.step plainConfig) .init sharedFile).any fun s =>
      s.next == 1 && (s.fds 0).refCount == 0) = true := by
    decide +kernel
  obtain ⟨s, hs, hp⟩ := (Option.any_eq_true _ _).mp hrun
  simp only [Bool.and_eq_true, beq_iff_eq] at hp
  refine ⟨s, hs, hp.2, ?_⟩
  have hfreed := (fd_counts_exact hs (by decide +kernel)).2.2.1 0
  rwa [if_pos ⟨by omega, hp.2⟩] at hfreed

/-- `fd_associate` puts a file into a slot while the last reference to it is being given back. -/
theorem freed_while_in_slot : ¬ ∀ es s, run (FdSys.step plainConfig) .init es = some s →
    ∀ d σ, s.slot σ = some d → (s.fds d).freed = 0 := by
  intro h
  have hrun : ((run (FdSys.step plainConfig) .init (openSteps 0 ['a'] ++
      ([.newTable 1 8, .getRef 1 (0, 3), .fdGet 2 (0, 3), .close 3 (0, 3) none, .put 1, .associate 2 (1, 0),
        .fileClose 1 .done, .closed 1] : List FdEvent))).any fun s => s.slot (1, 0) == some 0 && (s.fds 0).freed == 1) = true := by
    decide +kernel
  obtain ⟨s, hs, hp⟩ := (Option.any_eq_true _ _).mp hrun
  simp only [Bool.and_eq_true, beq_iff_eq] at hp
  have := h _ s hs 0 (1, 0) hp.1
  omega

end RtSmart
