import RtSmart.Dfs.FdNodes

/-!
What is in a slot can be closed, as long as no descriptor is duplicated before its `open` has ended.
-/

namespace RtSmart

open Lib

namespace FdSys

/-- As `Owned`, and what `dup`, `dup2` and `fd_associate` duplicate is not still being opened, and no caller of
`open` passes `DFS_F_CLOSING`. -/
def Settled (s : FdSys) (e : FdEvent) : Prop :=
  s.Owned e ∧
    match e with
    | .dup _ t oldfd _ => ∀ d ∈ s.slot (t, oldfd), (s.fds d).openAt = none
    | .dup2 _ t oldfd _ _ => ∀ d ∈ s.slot (t, oldfd), (s.fds d).openAt = none
    | .associate c _ => ∀ d ∈ (s.pc c).given, (s.fds d).openAt = none ∧ (s.fds d).fnode ≠ none
    | .openFlags _ closing => closing = false
    | _ => True

instance (s : FdSys) (e : FdEvent) : Decidable (s.Settled e) :=
  match e with
  | .dup c t oldfd mem =>
    inferInstanceAs (Decidable (s.Owned (.dup c t oldfd mem) ∧ ∀ d ∈ s.slot (t, oldfd), (s.fds d).openAt = none))
  | .dup2 c t oldfd newfd mem =>
    inferInstanceAs (Decidable (s.Owned (.dup2 c t oldfd newfd mem) ∧ ∀ d ∈ s.slot (t, oldfd), (s.fds d).openAt = none))
  | .associate c σ =>
    inferInstanceAs (Decidable (s.Owned (.associate c σ) ∧
      ∀ d ∈ (s.pc c).given, (s.fds d).openAt = none ∧ (s.fds d).fnode ≠ none))
  | .openFlags c closing => inferInstanceAs (Decidable (s.Owned (.openFlags c closing) ∧ closing = false))
  | .newTable _ _ | .fdNew _ _ _ _ | .fdGet _ _ | .openGet _ | .openFind _ _ _ _ _ _ | .opened _ _ | .openFailed _
  | .release _ | .getRef _ _ | .put _ | .close _ _ _ | .fileClose _ _ | .closed _ | .retry _ | .retryNext _ | .mount _ =>
    inferInstanceAs (Decidable (s.Owned _ ∧ True))

end FdSys

/-- The call is closing a slot with the last reference to its file. -/
def FdPc.Closes (p : FdPc) (σ : FdSlot) (d : ℕ) : Prop := p.last = true ∧ p.site = some σ ∧ p.file = some d

/-- The file in a slot is being opened there; or it has a file node, and only the close of the slot keeps
others from it; or that close has taken the node away and is about to empty the slot. -/
def Closable (s : FdSys) (σ : FdSlot) (d : ℕ) : Prop :=
  ((s.fds d).openAt = some σ ∧ (s.fds d).closing = false ∧ ∃ c, (s.pc c).Opens (.slot σ) d) ∨
    ((s.fds d).openAt = none ∧
      ((s.fds d).fnode ≠ none ∧ ((s.fds d).closing = true → ∃ c, (s.pc c).Closes σ d) ∨
        ∃ c r, r ≠ CloseResult.retry ∧ s.pc c = .closed σ d r))

structure OpenInv (s : FdSys) : Prop where
  nodes : NodeInv s
  slots : ∀ σ d, s.slot σ = some d → Closable s σ d

namespace OpenInv

variable {cfg : DfsConfig} {s s' : FdSys} {c d : ℕ} {σ : FdSlot} {p : FdPc} {e : FdEvent}

theorem init : OpenInv .init := ⟨.init, fun _ _ h => by cases h⟩

theorem slot_unique (h : OpenInv s) (hopen : (s.fds d).openAt = some σ) {τ : FdSlot} (hτ : s.slot τ = some d) : τ = σ := by
  rcases h.slots τ d hτ with ⟨ho, -, -⟩ | ⟨ho, -⟩
  · rw [hopen] at ho
    exact (Option.some.inj ho).symm
  · rw [hopen] at ho
    cases ho

theorem of_frame {τ : FdSlot} (h : Closable s τ d) (hpc : s'.pc = Function.update s.pc c p)
    (hopen : (s'.fds d).openAt = (s.fds d).openAt)
    (hmark : (s'.fds d).closing = true → (s.fds d).closing = true ∧ ((s.pc c).Closes τ d → p.Closes τ d))
    (hnode : (s.fds d).openAt = none → (s.fds d).fnode ≠ none → (s'.fds d).fnode ≠ none)
    (hopens : (s.pc c).Opens (.slot τ) d → p.Opens (.slot τ) d)
    (hclosed : ∀ r, s.pc c = .closed τ d r → r = .retry) : Closable s' τ d := by
  have hother : ∀ b, b ≠ c → s'.pc b = s.pc b := fun b hb => by rw [hpc, Function.update_of_ne hb]
  have hself : s'.pc c = p := by rw [hpc, Function.update_self]
  rcases h with ⟨ho, hm, b, hb⟩ | ⟨ho, ⟨hn, hm⟩ | ⟨b, r, hr, hb⟩⟩
  · refine .inl ⟨hopen.trans ho, ?_, b, ?_⟩
    · by_contra hne
      have := (hmark (by simpa using hne)).1
      rw [hm] at this
      cases this
    · by_cases hbc : b = c
      · rw [hbc, hself]
        exact hopens (hbc ▸ hb)
      · rw [hother b hbc]
        exact hb
  · refine .inr ⟨hopen.trans ho, .inl ⟨hnode ho hn, fun hm' => ?_⟩⟩
    obtain ⟨b, hb⟩ := hm (hmark hm').1
    refine ⟨b, ?_⟩
    by_cases hbc : b = c
    · rw [hbc, hself]
      exact (hmark hm').2 (hbc ▸ hb)
    · rw [hother b hbc]
      exact hb
  · refine .inr ⟨hopen.trans ho, .inr ⟨b, r, hr, ?_⟩⟩
    by_cases hbc : b = c
    · exact absurd (hclosed r (hbc ▸ hb)) hr
    · rw [hother b hbc]
      exact hb

theorem keep (h : OpenInv s) (hn : NodeInv s') (hpc : s'.pc = Function.update s.pc c p)
    (hslot : ∀ τ d, s'.slot τ = some d → s.slot τ = some d)
    (hopen : ∀ τ d, s'.slot τ = some d → (s'.fds d).openAt = (s.fds d).openAt)
    (hmark : ∀ τ d, s'.slot τ = some d → (s'.fds d).closing = true →
      (s.fds d).closing = true ∧ ((s.pc c).Closes τ d → p.Closes τ d))
    (hnode : ∀ τ d, s'.slot τ = some d → (s.fds d).openAt = none → (s.fds d).fnode ≠ none → (s'.fds d).fnode ≠ none)
    (hopens : ∀ τ d, (s.pc c).Opens (.slot τ) d → p.Opens (.slot τ) d)
    (hclosed : ∀ τ d r, s'.slot τ = some d → s.pc c = .closed τ d r → r = .retry) : OpenInv s' :=
  ⟨hn, fun τ d hτ => of_frame (h.slots τ d (hslot τ d hτ)) hpc (hopen τ d hτ) (hmark τ d hτ) (hnode τ d hτ)
    (hopens τ d) fun r => hclosed τ d r hτ⟩

/-- The call is not inside `open` and not closing a slot. -/
def Apart (p : FdPc) : Prop := (∀ o d, ¬ p.Opens o d) ∧ ∀ τ d, ¬ p.Closes τ d

theorem Apart.closed {p : FdPc} (h : Apart p) {τ : FdSlot} {b : ℕ} {r : CloseResult} (hp : p = .closed τ b r) :
    r = .retry := by
  subst hp
  exact absurd ⟨rfl, rfl, rfl⟩ (h.2 τ b)

theorem quiet (h : OpenInv s) (hn : NodeInv s') (hpc : s'.pc = Function.update s.pc c p) (hc : Apart (s.pc c))
    (hslot : ∀ τ d, s'.slot τ = some d → s.slot τ = some d) (hopen : ∀ d, (s'.fds d).openAt = (s.fds d).openAt)
    (hmark : ∀ d, (s'.fds d).closing = (s.fds d).closing) (hnode : ∀ d, (s'.fds d).fnode = (s.fds d).fnode) :
    OpenInv s' :=
  h.keep hn hpc hslot (fun _ d _ => hopen d) (fun τ d _ hm => ⟨hmark d ▸ hm, fun hcl => absurd hcl (hc.2 τ d)⟩)
    (fun _ d _ _ hne => by rw [hnode d]; exact hne) (fun τ d ho => absurd ho (hc.1 _ _)) fun _ _ _ _ hr => hc.closed hr

theorem apart_idle (hc : s.pc c = .idle) : Apart (s.pc c) := by
  rw [hc]
  exact ⟨by rintro o d ⟨⟩, by rintro τ d ⟨⟨⟩, -⟩⟩

theorem finish {r : FdRet} (h : OpenInv s) (hn : NodeInv (s.finish c r)) (hc : Apart (s.pc c)) : OpenInv (s.finish c r) :=
  h.quiet hn rfl hc (fun _ _ hτ => hτ) (fun _ => rfl) (fun _ => rfl) fun _ => rfl

theorem share (h : OpenInv s) (hn : NodeInv s') (hpc : s'.pc = Function.update s.pc c p) (hc : Apart (s.pc c))
    (hslot : s'.slot = Function.update s.slot σ (some d)) (hopen : ∀ d, (s'.fds d).openAt = (s.fds d).openAt)
    (hmark : ∀ d, (s'.fds d).closing = (s.fds d).closing) (hnode : ∀ d, (s'.fds d).fnode = (s.fds d).fnode)
    (hd : (s.fds d).openAt = none) (hclosing : (s.fds d).closing = false) (hd' : (s.fds d).fnode ≠ none) : OpenInv s' := by
  refine ⟨hn, fun τ b hτ => ?_⟩
  rw [hslot] at hτ
  by_cases hτσ : τ = σ
  · rw [hτσ, Function.update_self] at hτ
    cases hτ
    refine .inr ⟨(hopen d).trans hd, .inl ⟨?_, fun hm => ?_⟩⟩
    · rw [hnode d]
      exact hd'
    · rw [hmark d, hclosing] at hm
      cases hm
  · rw [Function.update_of_ne hτσ] at hτ
    refine of_frame (h.slots τ b hτ) hpc (hopen b) (fun hm => ⟨hmark b ▸ hm, fun hcl => absurd hcl (hc.2 τ b)⟩)
      (fun _ hne => ?_) (fun ho => absurd ho (hc.1 _ _)) fun _ hr => hc.closed hr
    rw [hnode b]
    exact hne

theorem fnode_of_slot (h : OpenInv s) (hσ : s.slot σ = some d) (hclosing : (s.fds d).closing = false)
    (hopen : (s.fds d).openAt = none) : (s.fds d).fnode ≠ none := by
  rcases h.slots σ d hσ with ⟨ho, -, -⟩ | ⟨-, ⟨hne, -⟩ | ⟨b, r, -, hb⟩⟩
  · rw [hopen] at ho
    cases ho
  · exact hne
  · refine absurd ?_ (h.nodes.inv.not_last (c := b) hσ hclosing ?_)
    · rw [hb]
      rfl
    · rw [hb]
      rfl

theorem fdtFdNew {t : ℕ} {mem calloc : Bool} (h : OpenInv s) (hc : s.pc c = .idle)
    (hn : NodeInv (s.fdtFdNew cfg c t mem calloc)) : OpenInv (s.fdtFdNew cfg c t mem calloc) := by
  have hidle := apart_idle hc
  revert hn
  unfold FdSys.fdtFdNew
  split
  · exact fun hn => h.finish hn hidle
  next idx nr _ =>
  split_ifs <;> intro hn
  · refine ⟨hn, fun τ b hτ => ?_⟩
    have hτ : Function.update s.slot (t, idx) (some s.next) τ = some b := hτ
    by_cases hτσ : τ = (t, idx)
    · rw [hτσ, Function.update_self] at hτ
      cases hτ
      refine .inl ⟨?_, ?_, c, ?_⟩
      · simp [hτσ, FdSys.setPc, FdSys.setSlot, FdSys.setFd]
      · simp [FdSys.setPc, FdSys.setSlot, FdSys.setFd]
      · simpa [hτσ, FdSys.setPc] using FdPc.Opens.allocated (t, idx) s.next
    · rw [Function.update_of_ne hτσ] at hτ
      have hne : b ≠ s.next := (h.nodes.inv.lt_next (h.nodes.inv.refCount_pos hτ)).ne
      refine of_frame (h.slots τ b hτ) rfl ?_ (fun hm => ⟨?_, fun hcl => absurd hcl (hidle.2 τ b)⟩) (fun _ hb => ?_)
        (fun ho => absurd ho (hidle.1 _ _)) fun _ hr => hidle.closed hr
      · simp [FdSys.setPc, FdSys.setSlot, FdSys.setFd, FdSys.setMaxfd, hne]
      · simpa [FdSys.setPc, FdSys.setSlot, FdSys.setFd, FdSys.setMaxfd, hne] using hm
      · simpa [FdSys.setPc, FdSys.setSlot, FdSys.setFd, FdSys.setMaxfd, hne] using hb
  · exact h.quiet hn rfl hidle (fun _ _ hτ => hτ) (fun _ => rfl) (fun _ => rfl) fun _ => rfl

theorem mountCheck (h : OpenInv s) (hc : s.pc c = .idle) (hn : NodeInv (s.mountCheck c)) : OpenInv (s.mountCheck c) := by
  have hne : ∀ τ b, s.slot τ = some b → b ≠ s.next := fun τ b hτ =>
    (h.nodes.inv.lt_next (h.nodes.inv.refCount_pos hτ)).ne
  have hidle := apart_idle hc
  refine h.keep hn rfl (fun _ _ hτ => hτ) (fun τ b hτ => ?_) (fun τ b hτ hm => ⟨?_, fun hcl => absurd hcl (hidle.2 τ b)⟩)
    (fun τ b hτ _ hb => ?_) (fun _ _ ho => absurd ho (hidle.1 _ _)) fun _ _ _ _ hr => hidle.closed hr
  · simp [FdSys.mountCheck, FdSys.setPc, FdSys.setFd, hne τ b hτ]
  · simpa [FdSys.mountCheck, FdSys.setPc, FdSys.setFd, hne τ b hτ] using hm
  · simpa [FdSys.mountCheck, FdSys.setPc, FdSys.setFd, hne τ b hτ] using hb

theorem sysDup {t oldfd : ℕ} {mem : Bool} (h : OpenInv s) (hc : s.pc c = .idle)
    (hok : ∀ d ∈ s.slot (t, oldfd), (s.fds d).openAt = none) (hn : NodeInv (s.sysDup cfg c t oldfd mem)) :
    OpenInv (s.sysDup cfg c t oldfd mem) := by
  have hidle := apart_idle hc
  revert hn
  unfold FdSys.sysDup
  split
  · exact fun hn => h.finish hn hidle
  next d hd =>
  have hσ : s.slot (t, oldfd) = some d := by
    split_ifs at hd
    exact hd
  split_ifs with hclosing
  · exact fun hn => h.finish hn hidle
  split
  · exact fun hn => h.finish hn hidle
  intro hn
  have hclosing : (s.fds d).closing = false := by simpa using hclosing
  refine h.share hn rfl hidle rfl (fun b => ?_) (fun b => ?_) (fun b => ?_) (hok d hσ) hclosing
    (h.fnode_of_slot hσ hclosing (hok d hσ))
  · exact NodeInv.update_field DfsFd.openAt b rfl
  · exact NodeInv.update_field DfsFd.closing b rfl
  · exact NodeInv.update_field DfsFd.fnode b rfl

theorem sysDup2 {t oldfd newfd : ℕ} {mem : Bool} (h : OpenInv s) (hc : s.pc c = .idle)
    (hok : ∀ d ∈ s.slot (t, oldfd), (s.fds d).openAt = none) (hn : NodeInv (s.sysDup2 cfg c t oldfd newfd mem)) :
    OpenInv (s.sysDup2 cfg c t oldfd newfd mem) := by
  have hidle := apart_idle hc
  revert hn
  unfold FdSys.sysDup2
  split
  · exact fun hn => h.finish hn hidle
  next d hd =>
  have hσ : s.slot (t, oldfd) = some d := by
    split_ifs at hd
    exact hd
  split_ifs with hclosing
  · exact fun hn => h.finish hn hidle
  have hclosing : (s.fds d).closing = false := by simpa using hclosing
  have hnode := h.fnode_of_slot hσ hclosing (hok d hσ)
  split
  · exact fun hn => h.finish hn hidle
  dsimp only
  split
  · intro hn
    refine h.share hn rfl hidle rfl (fun b => ?_) (fun b => ?_) (fun b => ?_) (hok d hσ) hclosing hnode
    · exact NodeInv.update_field DfsFd.openAt b rfl
    · exact NodeInv.update_field DfsFd.closing b rfl
    · exact NodeInv.update_field DfsFd.fnode b rfl
  split_ifs <;> intro hn
  · exact h.quiet hn rfl hidle (fun _ _ hτ => hτ) (fun _ => rfl) (fun _ => rfl) fun _ => rfl
  · exact h.quiet hn rfl hidle (fun _ _ hτ => hτ) (fun _ => rfl) (fun _ => rfl) fun _ => rfl
  · refine h.share hn rfl hidle rfl (fun b => ?_) (fun b => ?_) (fun b => ?_) (hok d hσ) hclosing hnode
    · exact NodeInv.update_field DfsFd.openAt b rfl
    · exact NodeInv.update_field DfsFd.closing b rfl
    · exact NodeInv.update_field DfsFd.fnode b rfl

theorem fdAssociate (h : OpenInv s) (hc : s.pc c = .looked d) (hok : (s.fds d).openAt = none ∧ (s.fds d).fnode ≠ none)
    (hn : NodeInv (s.fdAssociate c σ d)) : OpenInv (s.fdAssociate c σ d) := by
  have hidle : Apart (s.pc c) := by
    rw [hc]
    exact ⟨by rintro o d ⟨⟩, by rintro τ d ⟨⟨⟩, -⟩⟩
  revert hn
  unfold FdSys.fdAssociate
  split_ifs with hσ hbusy
  · exact fun hn => h.finish hn hidle
  · intro hn
    obtain ⟨-, hclosing⟩ : s.slot σ = none ∧ (s.fds d).closing = false := by simpa using hbusy
    refine h.share hn rfl hidle rfl (fun b => ?_) (fun b => ?_) (fun b => ?_) hok.1 hclosing hok.2
    · exact NodeInv.update_field DfsFd.openAt b rfl
    · exact NodeInv.update_field DfsFd.closing b rfl
    · exact NodeInv.update_field DfsFd.fnode b rfl
  · exact fun hn => h.finish hn hidle

theorem opens {o : Opener} (h : OpenInv s) (hn : NodeInv s') (hc : (s.pc c).Opens o d)
    (hpc : s'.pc = Function.update s.pc c p) (hp : ∀ τ, o = .slot τ → p.Opens o d) (hslot : s'.slot = s.slot)
    (hopen : ∀ b, (s'.fds b).openAt = (s.fds b).openAt)
    (hmark : ∀ b, (s'.fds b).closing = true → (s.fds b).closing = true)
    (hnode : ∀ b, b ≠ d → (s'.fds b).fnode = (s.fds b).fnode) : OpenInv s' := by
  have hfile := hc.file
  refine h.keep hn hpc (fun τ b hτ => hslot ▸ hτ) (fun τ b _ => hopen b) (fun τ b _ hm => ⟨hmark b hm, fun hcl => ?_⟩)
    (fun τ b hτ ho hne => ?_) (fun τ b hb => ?_) fun τ b r _ hb => ?_
  · have hlast := hc.last.symm.trans hcl.1
    have hs := hc.site.symm.trans hcl.2.1
    cases o with
    | slot σ => cases hlast
    | mount => cases hs
  · have hbd : b ≠ d := by
      rintro rfl
      rw [hslot] at hτ
      cases o with
      | slot σ =>
        rw [(h.nodes.inv.call c).openAt hc.last σ b hc.site hfile] at ho
        cases ho
      | mount =>
        have := h.nodes.inv.site_of_last hc.last hfile hτ
        rw [hc.site] at this
        cases this
    rw [hnode b hbd]
    exact hne
  · obtain rfl : b = d := Option.some.inj (hb.file.symm.trans hfile)
    have hs := hb.site.symm.trans hc.site
    cases o with
    | slot σ =>
      cases hs
      exact hp _ rfl
    | mount => cases hs
  · rw [hb] at hc
    cases hc

theorem openFailed {s₁ : FdSys} {o : Opener} {errno : FdErr} (h : OpenInv s) (hn : NodeInv (s₁.openFailed c o d errno))
    (hc : (s.pc c).Opens o d) (hpc : s₁.pc = s.pc) (hslot : s₁.slot = s.slot)
    (hopen : ∀ b, (s₁.fds b).openAt = (s.fds b).openAt) (hmark : ∀ b, (s₁.fds b).closing = (s.fds b).closing)
    (hnode : ∀ b, b ≠ d → (s₁.fds b).fnode = (s.fds b).fnode) : OpenInv (s₁.openFailed c o d errno) := by
  cases o with
  | slot σ =>
    exact h.opens hn hc (congrArg (Function.update · c _) hpc) (fun _ _ => .failing σ d errno) hslot hopen
      (fun b hm => hmark b ▸ hm) hnode
  | mount =>
    refine h.opens hn hc (congrArg (Function.update · c _) hpc) (by simp) hslot (fun b => ?_) (fun b hm => ?_) fun b hb => ?_
    · have hpop : ((s₁.pop d).fds b).openAt = (s₁.fds b).openAt := NodeInv.update_field DfsFd.openAt b rfl
      exact hpop.trans (hopen b)
    · have hpop : ((s₁.pop d).fds b).closing = (s₁.fds b).closing := NodeInv.update_field DfsFd.closing b rfl
      exact (hpop.trans (hmark b)).symm.trans hm
    · exact (NodeInv.pop_fnode s₁ d b).trans (hnode b hb)

theorem dfsFileOpen {o : Opener} {cwd : WorkDir} {path : List Char} {table : List Filesystem} {alloc calloc : Bool}
    (h : OpenInv s) (hc : s.pc c = .opening o d) (hn : NodeInv (s.dfsFileOpen cfg c o d cwd path table alloc calloc)) :
    OpenInv (s.dfsFileOpen cfg c o d cwd path table alloc calloc) := by
  have hopens : (s.pc c).Opens o d := hc ▸ .opening o d
  have hfail : ∀ errno, NodeInv (s.openFailed c o d errno) → OpenInv (s.openFailed c o d errno) := fun errno hn =>
    h.openFailed hn hopens rfl rfl (fun _ => rfl) (fun _ => rfl) fun _ _ => rfl
  revert hn
  unfold FdSys.dfsFileOpen
  split
  · exact hfail _
  split
  · next f _ =>
    intro hn
    refine h.opens hn hopens rfl (fun _ _ => .found o d f) rfl (fun b => ?_) (fun b hm => ?_) fun b hb => ?_
    · exact NodeInv.update_field DfsFd.openAt b rfl
    · refine Eq.trans (Eq.symm ?_) hm
      exact NodeInv.update_field DfsFd.closing b rfl
    · simp [FdSys.setPc, FdSys.setFd, FdSys.setFnode, hb]
  split
  · exact hfail _
  split_ifs
  · exact hfail _
  · exact hfail _
  · intro hn
    refine h.opens hn hopens rfl (fun _ _ => .found o d s.nextFnode) rfl (fun b => ?_) (fun b hm => ?_) fun b hb => ?_
    · exact NodeInv.update_field DfsFd.openAt b rfl
    · refine Eq.trans (Eq.symm ?_) hm
      exact NodeInv.update_field DfsFd.closing b rfl
    · simp [FdSys.setPc, FdSys.setFd, FdSys.setFnode, hb]

theorem dfsFileOpened {o : Opener} {f : ℕ} {directory : Bool} (h : OpenInv s) (hc : s.pc c = .driver o d f)
    (hn : NodeInv (s.dfsFileOpened c o d f directory)) : OpenInv (s.dfsFileOpened c o d f directory) := by
  have hopens : (s.pc c).Opens o d := hc ▸ .driver o d f
  have hnode : (s.fds d).fnode = some f := by
    have := h.nodes.node c
    rwa [hc] at this
  cases o with
  | mount => exact h.opens hn hopens rfl (by simp) rfl (fun _ => rfl) (fun _ hm => hm) fun _ _ => rfl
  | slot σ =>
    have hopen := (h.nodes.inv.call c).openAt hopens.last σ d hopens.site hopens.file
    refine ⟨hn, fun τ b hτ => ?_⟩
    have hτ : s.slot τ = some b := hτ
    by_cases hb : b = d
    · subst hb
      have hclosing : (s.fds b).closing = false := by
        rcases h.slots τ b hτ with ⟨-, hm, -⟩ | ⟨ho, -⟩
        · exact hm
        · rw [hopen] at ho
          cases ho
      refine .inr ⟨?_, .inl ⟨?_, ?_⟩⟩
      · simp [FdSys.dfsFileOpened, FdSys.finish, FdSys.setPc, FdSys.setFd]
      · simp [FdSys.dfsFileOpened, FdSys.finish, FdSys.setPc, FdSys.setFd, FdSys.setFnode, hnode]
      · simp [FdSys.dfsFileOpened, FdSys.finish, FdSys.setPc, FdSys.setFd, FdSys.setFnode, hclosing]
    · refine of_frame (h.slots τ b hτ) rfl ?_ (fun hm => ⟨?_, fun hcl => ?_⟩) (fun _ hne => ?_) (fun ho => ?_) fun r hr => ?_
      · simp [FdSys.dfsFileOpened, FdSys.finish, FdSys.setPc, FdSys.setFd, FdSys.setFnode, hb]
      · simpa [FdSys.dfsFileOpened, FdSys.finish, FdSys.setPc, FdSys.setFd, FdSys.setFnode, hb] using hm
      · exact absurd (Option.some.inj (hcl.2.2.symm.trans hopens.file)) hb
      · simpa [FdSys.dfsFileOpened, FdSys.finish, FdSys.setPc, FdSys.setFd, FdSys.setFnode, hb] using hne
      · exact absurd (Option.some.inj (ho.file.symm.trans hopens.file)) hb
      · rw [hc] at hr
        cases hr

theorem release {errno : FdErr} (h : OpenInv s) (hc : s.pc c = .failing σ d errno)
    (hn : NodeInv (((s.setFd d { s.fds d with openAt := none }).fdtFdRelease σ).finish c (.failed errno))) :
    OpenInv (((s.setFd d { s.fds d with openAt := none }).fdtFdRelease σ).finish c (.failed errno)) := by
  have hopens : (s.pc c).Opens (.slot σ) d := hc ▸ .failing σ d errno
  have hopen := (h.nodes.inv.call c).openAt hopens.last σ d hopens.site hopens.file
  have hσ : s.slot σ = some d := ((h.nodes.inv.call c).slot σ hopens.site).trans hopens.file
  have hfreed := h.nodes.inv.freed_eq_zero (h.nodes.inv.refCount_pos hσ)
  obtain ⟨x, -, hpc, hsame, -⟩ := FdInv.fdtFdRelease_eq (s.setFd d { s.fds d with openAt := none }) hσ
    (h.nodes.inv.table σ d hσ) (by simpa [FdSys.setFd] using hfreed)
  have hfield : ∀ {β : Type} (g : DfsFd → β), (∀ x n m, g { x with refCount := n, freed := m } = g x) → ∀ b, b ≠ d →
      g (((s.setFd d { s.fds d with openAt := none }).fdtFdRelease σ).fds b) = g (s.fds b) := by
    intro β g hg b hb
    rw [NodeInv.fdtFdRelease_field g hg]
    simp [FdSys.setFd, hb]
  refine ⟨hn, fun τ b hslot => ?_⟩
  have hτ : Function.update s.slot σ none τ = some b := (congrFun hsame.slot τ).symm.trans hslot
  have hτσ : τ ≠ σ := by
    rintro rfl
    rw [Function.update_self] at hτ
    cases hτ
  rw [Function.update_of_ne hτσ] at hτ
  have hb : b ≠ d := by
    rintro rfl
    exact hτσ (h.slot_unique hopen hτ)
  refine of_frame (h.slots τ b hτ) (congrArg (Function.update · c _) hpc) (hfield DfsFd.openAt (fun _ _ _ => rfl) b hb)
    (fun hm => ⟨(hfield DfsFd.closing (fun _ _ _ => rfl) b hb).symm.trans hm, fun hcl => ?_⟩) (fun _ hne => ?_) (fun ho => ?_) fun r hr => ?_
  · exact absurd (Option.some.inj (hcl.2.2.symm.trans hopens.file)) hb
  · have := hfield DfsFd.fnode (fun _ _ _ => rfl) b hb
    exact fun he => hne (this.symm.trans he)
  · exact absurd (Option.some.inj (ho.file.symm.trans hopens.file)) hb
  · rw [hc] at hr
    cases hr

theorem putDone {s₁ : FdSys} {k : PutNext} (h : OpenInv s) (hn : NodeInv (s₁.putDone c k)) (hc : Apart (s.pc c))
    (hpc : s₁.pc = s.pc) (hslot : s₁.slot = s.slot) (hopen : ∀ b, (s₁.fds b).openAt = (s.fds b).openAt)
    (hmark : ∀ τ b, s.slot τ = some b → (s₁.fds b).closing = (s.fds b).closing)
    (hnode : ∀ b, (s₁.fds b).fnode = (s.fds b).fnode) : OpenInv (s₁.putDone c k) := by
  obtain ⟨p, hp, -⟩ := FdInv.putDone_pc s₁ c k
  obtain ⟨hfds, hsame⟩ := FdInv.putDone_same s₁ c k
  have hτ : ∀ τ b, (s₁.putDone c k).slot τ = some b → s.slot τ = some b := fun τ b hb => by
    rwa [hsame.slot, hslot] at hb
  refine h.keep hn (hp.trans (congrArg (Function.update · c p) hpc)) hτ (fun τ b _ => ?_)
    (fun τ b hb hm => ⟨?_, fun hcl => absurd hcl (hc.2 τ b)⟩) (fun τ b _ _ hne => ?_)
    (fun _ _ ho => absurd ho (hc.1 _ _)) fun _ _ _ _ hr => hc.closed hr
  · rw [hfds]
    exact hopen b
  · rw [hfds, hmark τ b (hτ τ b hb)] at hm
    exact hm
  · rw [hfds, hnode b]
    exact hne

theorem fdPut {k : PutNext} (h : OpenInv s) (hc : s.pc c = .holds d k) (hn : NodeInv (s.fdPut c d k)) :
    OpenInv (s.fdPut c d k) := by
  have hapart : Apart (s.pc c) := by
    rw [hc]
    exact ⟨by rintro o d ⟨⟩, by rintro τ d ⟨-, ⟨⟩, -⟩⟩
  revert hn
  unfold FdSys.fdPut
  split_ifs <;> intro hn
  · refine h.putDone hn hapart rfl rfl (fun b => ?_) (fun τ b hτ => ?_) fun b => ?_
    · exact NodeInv.update_field DfsFd.openAt b rfl
    · exact NodeInv.update_field DfsFd.closing b rfl
    · exact NodeInv.update_field DfsFd.fnode b rfl
  · refine h.quiet hn rfl hapart (fun _ _ hτ => hτ) (fun b => ?_) (fun b => ?_) fun b => ?_
    · exact NodeInv.update_field DfsFd.openAt b rfl
    · exact NodeInv.update_field DfsFd.closing b rfl
    · exact NodeInv.update_field DfsFd.fnode b rfl

theorem fdPutClosed {k : PutNext} {result : CloseResult} (h : OpenInv s) (hc : s.pc c = .put d k result)
    (hn : NodeInv (s.fdPutClosed c d k result)) : OpenInv (s.fdPutClosed c d k result) := by
  have hnot : ∀ τ, s.slot τ ≠ some d := fun τ hτ => by
    have := h.nodes.inv.site_of_last (c := c) (by rw [hc]; rfl) (by rw [hc]; rfl) hτ
    rw [hc] at this
    cases this
  have hapart : Apart (s.pc c) := by
    rw [hc]
    exact ⟨by rintro o d ⟨⟩, by rintro τ d ⟨-, ⟨⟩, -⟩⟩
  revert hn
  unfold FdSys.fdPutClosed
  split_ifs <;> intro hn
  · refine h.putDone hn hapart rfl rfl (fun b => ?_) (fun τ b hτ => ?_) fun b => ?_
    · exact NodeInv.update_field DfsFd.openAt b rfl
    · have hb : b ≠ d := by
        rintro rfl
        exact hnot τ hτ
      simp [FdSys.setFd, hb]
    · exact NodeInv.update_field DfsFd.fnode b rfl
  · obtain ⟨hpc, hsame⟩ := FdInv.fdFree_same (s.setFd d { s.fds d with refCount := (s.fds d).refCount - 1 }) d
    refine h.putDone hn hapart hpc hsame.slot (fun b => ?_) (fun τ b _ => ?_) fun b => ?_
    · rw [NodeInv.fdFree_field DfsFd.openAt fun _ _ _ => rfl]
      exact NodeInv.update_field DfsFd.openAt b rfl
    · rw [NodeInv.fdFree_field DfsFd.closing fun _ _ _ => rfl]
      exact NodeInv.update_field DfsFd.closing b rfl
    · rw [NodeInv.fdFree_fnode]
      exact NodeInv.update_field DfsFd.fnode b rfl

theorem update_none {τ : FdSlot} {b : ℕ} (hτ : Function.update s.slot σ none τ = some b) : s.slot τ = some b ∧ τ ≠ σ := by
  by_cases hτσ : τ = σ
  · rw [hτσ, Function.update_self] at hτ
    cases hτ
  · rw [Function.update_of_ne hτσ] at hτ
    exact ⟨hτ, hτσ⟩

theorem fdtFdClose {type : Option FileType} (h : OpenInv s) (hc : s.pc c = .idle)
    (hok : ∀ d ∈ s.slot σ, (s.fds d).openAt = some σ → (s.fds d).fnode = none) (hn : NodeInv (s.fdtFdClose c σ type)) :
    OpenInv (s.fdtFdClose c σ type) := by
  have hidle := apart_idle hc
  revert hn
  unfold FdSys.fdtFdClose
  split
  · exact fun hn => h.finish hn hidle
  next d hd =>
  have hσ := (fdtFdGetLocked_some hd).1
  split
  · exact fun hn => h.finish hn hidle
  next f hf =>
  split_ifs with htype hmany <;> intro hn
  · exact h.finish hn hidle
  · refine h.quiet hn rfl hidle (fun _ _ hτ => (update_none hτ).1) (fun b => ?_) (fun b => ?_) fun b => ?_
    · exact NodeInv.update_field DfsFd.openAt b rfl
    · exact NodeInv.update_field DfsFd.closing b rfl
    · exact NodeInv.update_field DfsFd.fnode b rfl
  · have hone : (s.fds d).refCount ≤ 1 := not_lt.mp hmany
    refine ⟨hn, fun τ b hslot => ?_⟩
    have hτ : s.slot τ = some b := hslot
    by_cases hb : b = d
    · subst hb
      have hcount := h.nodes.inv.count_eq b
      obtain rfl : τ = σ := eq_of_refs_le_one (h.nodes.inv.slots b) (by omega) hτ hσ
      refine .inr ⟨?_, .inl ⟨?_, fun _ => ⟨c, ?_⟩⟩⟩
      · have hopen : (s.fds b).openAt = none := by
          rcases h.slots τ b hτ with ⟨ho, -⟩ | ⟨ho, -⟩
          · rw [hok b hτ ho] at hf
            cases hf
          · exact ho
        simpa [FdSys.setPc, FdSys.setFd] using hopen
      · simp [FdSys.setPc, FdSys.setFd, hf]
      · simp [FdPc.Closes, FdSys.setPc, FdPc.last, FdPc.site, FdPc.file]
    · refine of_frame (h.slots τ b hτ) rfl ?_ (fun hm => ⟨?_, fun hcl => absurd hcl (hidle.2 τ b)⟩) (fun _ hne => ?_)
        (fun ho => absurd ho (hidle.1 _ _)) fun _ hr => hidle.closed hr
      · simp [FdSys.setPc, FdSys.setFd, hb]
      · simpa [FdSys.setPc, FdSys.setFd, hb] using hm
      · simpa [FdSys.setPc, FdSys.setFd, hb] using hne

theorem fdtFdClosed {result : CloseResult} (h : OpenInv s) (hc : s.pc c = .closed σ d result)
    (hn : NodeInv (s.fdtFdClosed c σ d result)) : OpenInv (s.fdtFdClosed c σ d result) := by
  have hopens : ∀ o d, ¬ (s.pc c).Opens o d := by
    intro o d
    rw [hc]
    rintro ⟨⟩
  have hcloses : ∀ τ b, (s.pc c).Closes τ b → τ = σ ∧ b = d := by
    intro τ b hcl
    rw [hc] at hcl
    exact ⟨(Option.some.inj hcl.2.1).symm, (Option.some.inj hcl.2.2).symm⟩
  revert hn
  unfold FdSys.fdtFdClosed
  by_cases hr : result = .retry
  · rw [if_pos hr]
    intro hn
    refine h.keep hn rfl (fun _ _ hτ => hτ) (fun τ b _ => ?_) (fun τ b _ hm => ?_) (fun τ b _ _ hne => ?_)
      (fun τ b ho => absurd ho (hopens _ _)) fun τ b r _ hb => ?_
    · exact NodeInv.update_field DfsFd.openAt b rfl
    · by_cases hb : b = d
      · subst hb
        simp [FdSys.finish, FdSys.setPc, FdSys.setFd] at hm
      · refine ⟨?_, fun hcl => absurd (hcloses τ b hcl).2 hb⟩
        simpa [FdSys.finish, FdSys.setPc, FdSys.setFd, hb] using hm
    · refine fun he => hne (Eq.trans (Eq.symm ?_) he)
      exact NodeInv.update_field DfsFd.fnode b rfl
    · rw [hc] at hb
      cases hb
      exact hr
  · rw [if_neg hr]
    intro hn
    obtain ⟨hpc, hsame⟩ := FdInv.fdFree_same
      ((s.setSlot σ none).setFd d { s.fds d with refCount := (s.fds d).refCount - 1 }) d
    have hslot : ∀ τ b, (((s.setSlot σ none).setFd d { s.fds d with refCount := (s.fds d).refCount - 1 }).fdFree d).slot τ =
        some b → s.slot τ = some b ∧ τ ≠ σ := fun τ b hτ => update_none ((congrFun hsame.slot τ).symm.trans hτ)
    have hfield : ∀ {β : Type} (g : DfsFd → β), (∀ x n m, g { x with refCount := n, freed := m } = g x) → ∀ b,
        g ((((s.setSlot σ none).setFd d { s.fds d with refCount := (s.fds d).refCount - 1 }).fdFree d).fds b) =
          g (s.fds b) := by
      intro β g hg b
      rw [NodeInv.fdFree_field g hg]
      exact NodeInv.update_field g b (hg (s.fds d) _ (s.fds d).freed)
    refine h.keep hn (congrArg (Function.update · c _) hpc) (fun τ b hτ => (hslot τ b hτ).1)
      (fun τ b _ => hfield DfsFd.openAt (fun _ _ _ => rfl) b) (fun τ b hτ hm => ⟨?_, fun hcl => ?_⟩)
      (fun τ b _ _ hne he => hne ((hfield DfsFd.fnode (fun _ _ _ => rfl) b).symm.trans he))
      (fun τ b ho => absurd ho (hopens _ _)) fun τ b r hτ hb => ?_
    · exact (hfield DfsFd.closing (fun _ _ _ => rfl) b).symm.trans hm
    · exact absurd (hcloses τ b hcl).1 (hslot τ b hτ).2
    · rw [hc] at hb
      cases hb
      exact absurd rfl (hslot σ d hτ).2

theorem fileClose {r : FdSys × CloseResult} {result : CloseResult} (h : OpenInv s) (hn : NodeInv s')
    (hr : s.dfsFileClose d result = some r) (hl : (s.pc c).last = true) (hs : (s.pc c).site = none)
    (hfile : (s.pc c).file = some d) (hpc : s'.pc = Function.update r.1.pc c p) (hslot : s'.slot = r.1.slot)
    (hopen : ∀ b, (s'.fds b).openAt = (r.1.fds b).openAt) (hmark : ∀ b, (s'.fds b).closing = (r.1.fds b).closing)
    (hnode : ∀ b, (s'.fds b).fnode = (r.1.fds b).fnode) : OpenInv s' := by
  obtain ⟨g, hfds, hsame, hpc'⟩ := FdInv.dfsFileClose_eq hr
  have hnot : ∀ τ, s.slot τ ≠ some d := fun τ hτ => by
    have := h.nodes.inv.site_of_last hl hfile hτ
    rw [hs] at this
    cases this
  refine h.keep hn (hpc.trans (congrArg (Function.update · c _) hpc')) (fun τ b hτ => ?_) (fun τ b _ => ?_)
    (fun τ b _ hm => ⟨?_, fun hcl => ?_⟩) (fun τ b hτ _ hne => ?_) (fun τ b ho => ?_) fun τ b q _ hq => ?_
  · rwa [hslot, hsame.slot] at hτ
  · rw [hopen b, hfds]
    exact NodeInv.update_field DfsFd.openAt b rfl
  · rw [hmark b, hfds] at hm
    refine Eq.trans (Eq.symm ?_) hm
    exact NodeInv.update_field DfsFd.closing b rfl
  · rw [hcl.2.1] at hs
    cases hs
  · rw [hslot, hsame.slot] at hτ
    have hb : b ≠ d := by
      rintro rfl
      exact hnot τ hτ
    rw [hnode b, (NodeInv.dfsFileClose_fnode hr).1 b hb]
    exact hne
  · rw [ho.site] at hs
    cases hs
  · rw [hq] at hs
    cases hs

theorem slotClose {r : FdSys × CloseResult} {result : CloseResult} (h : OpenInv s) (hc : s.pc c = .closing σ d)
    (hr : s.dfsFileClose d result = some r) (hn : NodeInv (r.1.setPc c (.closed σ d r.2))) :
    OpenInv (r.1.setPc c (.closed σ d r.2)) := by
  obtain ⟨g, hfds, hsame, hpc⟩ := FdInv.dfsFileClose_eq hr
  have hfile : (s.pc c).file = some d := by rw [hc]; rfl
  have hs : (s.pc c).site = some σ := by rw [hc]; rfl
  have hl : (s.pc c).last = true := by rw [hc]; rfl
  have hopen : ∀ b, (r.1.fds b).openAt = (s.fds b).openAt := fun b => by
    rw [hfds]
    exact NodeInv.update_field DfsFd.openAt b rfl
  have hmark : ∀ b, (r.1.fds b).closing = (s.fds b).closing := fun b => by
    rw [hfds]
    exact NodeInv.update_field DfsFd.closing b rfl
  refine ⟨hn, fun τ b hslot => ?_⟩
  have hτ : s.slot τ = some b := (congrFun hsame.slot τ).symm.trans hslot
  by_cases hb : b = d ∧ r.2 ≠ .retry
  · obtain ⟨rfl, hne⟩ := hb
    have hτσ : σ = τ := Option.some.inj (hs.symm.trans (h.nodes.inv.site_of_last hl hfile hτ))
    subst hτσ
    refine .inr ⟨?_, .inr ⟨c, r.2, hne, Function.update_self _ _ _⟩⟩
    have hnot := ((h.nodes.inv.call c).closing hl σ b hs hfile).2
    rcases h.slots σ b hτ with ⟨ho, -⟩ | ⟨ho, -⟩
    · exact absurd ho hnot
    · exact (hopen b).trans ho
  · refine of_frame (h.slots τ b hτ) (congrArg (Function.update · c _) hpc) (hopen b)
      (fun hm => ⟨(hmark b).symm.trans hm, fun hcl => ?_⟩) (fun _ hne => ?_) (fun ho => ?_) fun q hq => ?_
    · rw [hc] at hcl
      exact ⟨rfl, hcl.2.1, hcl.2.2⟩
    · have hnode : (r.1.fds b).fnode = (s.fds b).fnode := by
        by_cases hbd : b = d
        · rw [(NodeInv.dfsFileClose_fnode hr).2 (by_contra fun hne => hb ⟨hbd, hne⟩)]
        · exact (NodeInv.dfsFileClose_fnode hr).1 b hbd
      exact fun he => hne (hnode.symm.trans he)
    · rw [hc] at ho
      cases ho
    · rw [hc] at hq
      cases hq

theorem fdGetRef (h : OpenInv s) (hc : s.pc c = .idle) (hn : NodeInv (s.fdGetRef c σ)) : OpenInv (s.fdGetRef c σ) := by
  have hidle := apart_idle hc
  revert hn
  unfold FdSys.fdGetRef
  split
  · exact fun hn => h.finish hn hidle
  split_ifs <;> intro hn
  · refine h.quiet hn rfl hidle (fun _ _ hτ => hτ) (fun b => ?_) (fun b => ?_) fun b => ?_
    · exact NodeInv.update_field DfsFd.openAt b rfl
    · exact NodeInv.update_field DfsFd.closing b rfl
    · exact NodeInv.update_field DfsFd.fnode b rfl
  · exact h.finish hn hidle

theorem step (h : OpenInv s) (hok : s.Settled e) (hs : s.step cfg e = some s') : OpenInv s' := by
  have hn := h.nodes.step hok.1 hs
  cases e with
  | newTable t n =>
    simp only [FdSys.step] at hs
    split_ifs at hs
    cases hs
    exact ⟨hn, h.slots⟩
  | fdNew c t mem calloc =>
    obtain ⟨hc, rfl⟩ := FdSys.start_some hs
    exact h.fdtFdNew hc hn
  | fdGet c σ =>
    obtain ⟨hc, rfl⟩ := FdSys.start_some hs
    revert hn
    split <;> intro hn
    · exact h.quiet hn rfl (apart_idle hc) (fun _ _ hτ => hτ) (fun _ => rfl) (fun _ => rfl) fun _ => rfl
    · exact h.finish hn (apart_idle hc)
  | openGet c =>
    simp only [FdSys.step] at hs
    split at hs <;> cases hs
    next σ d hc =>
    have hopens : (s.pc c).Opens (.slot σ) d := hc ▸ .allocated σ d
    revert hn
    split <;> intro hn
    · next d' hd' =>
      have hσ : s.slot σ = some d := ((h.nodes.inv.call c).slot σ hopens.site).trans hopens.file
      obtain rfl : d' = d := Option.some.inj ((fdtFdGetLocked_some hd').1.symm.trans hσ)
      exact h.opens hn hopens rfl (fun _ _ => .opening _ _) rfl (fun _ => rfl) (fun _ hm => hm) fun _ _ => rfl
    · exact h.opens hn hopens rfl (fun _ _ => .failing _ _ _) rfl (fun _ => rfl) (fun _ hm => hm) fun _ _ => rfl
  | openFind c cwd path table alloc calloc =>
    simp only [FdSys.step] at hs
    split at hs <;> cases hs
    next o d hc _ => exact h.dfsFileOpen hc hn
  | openFlags c closing =>
    simp only [FdSys.step] at hs
    split at hs <;> cases hs
    next o d f hc =>
    refine h.opens hn (hc ▸ .found o d f) rfl (fun _ _ => .driver o d f) rfl (fun b => ?_) (fun b hm => ?_) fun b _ => ?_
    · exact NodeInv.update_field DfsFd.openAt b rfl
    · have hfalse : closing = false := hok.2
      by_cases hb : b = d
      · subst hb
        simp [FdSys.dfsFileOpenFlags, FdSys.setPc, FdSys.setFd, hfalse] at hm
      · simpa [FdSys.dfsFileOpenFlags, FdSys.setPc, FdSys.setFd, hb] using hm
    · exact NodeInv.update_field DfsFd.fnode b rfl
  | opened c directory =>
    simp only [FdSys.step] at hs
    split at hs <;> cases hs
    next o d f hc => exact h.dfsFileOpened hc hn
  | openFailed c =>
    simp only [FdSys.step] at hs
    split at hs
    · next o d f hc =>
      split_ifs at hs
      cases hs
      have hopens : (s.pc c).Opens o d := hc ▸ .driver o d f
      revert hn
      dsimp only [FdSys.dfsFileOpenFailed]
      intro hn
      refine h.openFailed hn hopens ?_ ?_ (fun b => ?_) (fun b => ?_) fun b hb => ?_
      · rfl
      · rfl
      · exact NodeInv.update_field DfsFd.openAt b rfl
      · exact NodeInv.update_field DfsFd.closing b rfl
      · simp [FdSys.setFd, FdSys.setFnode, hb]
    · cases hs
  | release c =>
    simp only [FdSys.step] at hs
    split at hs <;> cases hs
    next σ d errno hc => exact h.release hc hn
  | getRef c σ =>
    obtain ⟨hc, rfl⟩ := FdSys.start_some hs
    exact h.fdGetRef hc hn
  | put c =>
    simp only [FdSys.step] at hs
    split at hs
    · next d k hc =>
      split_ifs at hs
      cases hs
      exact h.fdPut hc hn
    · cases hs
  | close c σ type =>
    obtain ⟨hc, rfl⟩ := FdSys.start_some hs
    exact h.fdtFdClose hc hok.1 hn
  | fileClose c result =>
    simp only [FdSys.step] at hs
    split at hs
    · next d k hc =>
      obtain ⟨r, hr, rfl⟩ := Option.map_eq_some_iff.mp hs
      exact h.fileClose hn hr (by rw [hc]; rfl) (by rw [hc]; rfl) (by rw [hc]; rfl) rfl rfl (fun _ => rfl)
        (fun _ => rfl) fun _ => rfl
    · next σ d hc =>
      obtain ⟨r, hr, rfl⟩ := Option.map_eq_some_iff.mp hs
      exact h.slotClose hc hr hn
    · next d hc =>
      obtain ⟨r, hr, rfl⟩ := Option.map_eq_some_iff.mp hs
      refine h.fileClose hn hr (by rw [hc]; rfl) (by rw [hc]; rfl) (by rw [hc]; rfl) rfl rfl (fun b => ?_)
        (fun b => ?_) fun b => ?_
      · exact NodeInv.update_field DfsFd.openAt b rfl
      · exact NodeInv.update_field DfsFd.closing b rfl
      · exact NodeInv.pop_fnode r.1 d b
    · cases hs
  | closed c =>
    simp only [FdSys.step] at hs
    split at hs <;> cases hs
    · next d k result hc => exact h.fdPutClosed hc hn
    · next σ d result hc => exact h.fdtFdClosed hc hn
  | dup c t oldfd mem =>
    obtain ⟨hc, rfl⟩ := FdSys.start_some hs
    exact h.sysDup hc hok.2 hn
  | dup2 c t oldfd newfd mem =>
    obtain ⟨hc, rfl⟩ := FdSys.start_some hs
    exact h.sysDup2 hc hok.2 hn
  | associate c σ =>
    simp only [FdSys.step] at hs
    split at hs <;> cases hs
    next d hc =>
    refine h.fdAssociate hc (hok.2 d ?_) hn
    rw [hc]
    rfl
  | retry c =>
    obtain ⟨hc, rfl⟩ := FdSys.start_some hs
    revert hn
    unfold FdSys.fdRetryFailedCloses
    split_ifs <;> intro hn
    · exact h.finish hn (apart_idle hc)
    · exact h.quiet hn rfl (apart_idle hc) (fun _ _ hτ => hτ) (fun _ => rfl) (fun _ => rfl) fun _ => rfl
  | retryNext c =>
    simp only [FdSys.step] at hs
    split at hs <;> cases hs
    next hc =>
    have hapart : Apart (s.pc c) := by
      rw [hc]
      exact ⟨by rintro o d ⟨⟩, by rintro τ d ⟨⟨⟩, -⟩⟩
    revert hn
    unfold FdSys.fdRetryNext
    split <;> intro hn
    · exact h.quiet hn rfl hapart (fun _ _ hτ => hτ) (fun _ => rfl) (fun _ => rfl) fun _ => rfl
    · exact h.quiet hn rfl hapart (fun _ _ hτ => hτ) (fun _ => rfl) (fun _ => rfl) fun _ => rfl
  | mount c =>
    obtain ⟨hc, rfl⟩ := FdSys.start_some hs
    exact h.mountCheck hc hn

end OpenInv

/-- An occupied slot belongs to an `open` that is still going on, or to a close that has taken the file node
away and is about to empty the slot, or it refers to a file with a file node, which others can look up
unless the slot is being closed. -/
theorem no_zombie_descriptors {cfg : DfsConfig} {es : List FdEvent} {s : FdSys}
    (hs : run (FdSys.step cfg) .init es = some s) (hok : Meets (FdSys.step cfg) FdSys.Settled .init es) (σ : FdSlot)
    (d : ℕ) (hd : s.slot σ = some d) :
    (∃ c, (s.pc c).Opens (.slot σ) d) ∨ (∃ c r, r ≠ CloseResult.retry ∧ s.pc c = .closed σ d r) ∨
      (s.fds d).fnode ≠ none ∧ ((∃ c, (s.pc c).Closes σ d) ∨ s.fdtFdGetLocked σ = some d) := by
  have h : OpenInv s := run_invariant_of_meets OpenInv (fun _ _ _ h hok hs => h.step hok hs) hs hok .init
  rcases h.slots σ d hd with ⟨-, -, hopens⟩ | ⟨-, ⟨hn, hm⟩ | hclosed⟩
  · exact .inl hopens
  · refine .inr (.inr ⟨hn, ?_⟩)
    cases hcl : (s.fds d).closing with
    | true => exact .inl (hm hcl)
    | false =>
      have hfreed := h.nodes.inv.freed_eq_zero (h.nodes.inv.refCount_pos hd)
      exact .inr (by simp [FdSys.fdtFdGetLocked, h.nodes.inv.table σ d hd, hd, hfreed, hcl])
  · exact .inr (.inl hclosed)

def failedOpen : List FdEvent :=
  openSteps 0 ['a'] ++ ([.fdNew 1 0 true true, .openGet 1, .openFind 1 rootDir ['a'] rootMounted true true,
    .dup 2 0 3 true, .openFlags 1 false, .openFailed 1, .release 1] : List FdEvent)

theorem no_zombie_descriptors_example : ∃ s, run (FdSys.step plainConfig) .init failedOpen = some s ∧
    s.slot (0, 4) = none ∧ s.slot (0, 5) = some 0 ∧
      ((∃ c, (s.pc c).Opens (.slot (0, 5)) 0) ∨ (∃ c r, r ≠ CloseResult.retry ∧ s.pc c = .closed (0, 5) 0 r) ∨
        (s.fds 0).fnode ≠ none ∧ ((∃ c, (s.pc c).Closes (0, 5) 0) ∨ s.fdtFdGetLocked (0, 5) = some 0)) := by
  have hrun : ((run (FdSys.step plainConfig) .init failedOpen).any fun s =>
      s.slot (0, 4) == none && s.slot (0, 5) == some 0) = true := by
    decide +kernel
  obtain ⟨s, hs, hp⟩ := (Option.any_eq_true _ _).mp hrun
  simp only [Bool.and_eq_true, beq_iff_eq] at hp
  exact ⟨s, hs, hp.1, hp.2, no_zombie_descriptors hs (by decide +kernel) (0, 5) 0 hp.2⟩

/-- A descriptor is duplicated before its `open` fails: when that has returned, the duplicate has no file
node. -/
theorem zombie_after_dup : ¬ ∀ es s, run (FdSys.step plainConfig) .init es = some s → ∀ σ d, s.slot σ = some d →
    (s.fds d).openAt = none → (s.fds d).closing = false → (s.fds d).fnode ≠ none := by
  intro h
  have hrun : ((run (FdSys.step plainConfig) .init [.fdNew 0 0 true true, .openGet 0,
      .openFind 0 rootDir ['a'] rootMounted true true, .dup 1 0 3 true, .openFlags 0 false, .openFailed 0,
      .release 0]).any fun s => s.slot (0, 4) == some 0 && decide ((s.fds 0).openAt = none) &&
        (s.fds 0).closing == false && decide ((s.fds 0).fnode = none)) = true := by
    decide +kernel
  obtain ⟨s, hs, hp⟩ := (Option.any_eq_true _ _).mp hrun
  simp only [Bool.and_eq_true, beq_iff_eq, decide_eq_true_eq] at hp
  obtain ⟨⟨⟨hslot, hopen⟩, hclosing⟩, hnode⟩ := hp
  exact h _ s hs (0, 4) 0 hslot hopen hclosing hnode

end RtSmart
