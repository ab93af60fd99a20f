import RtSmart.Dfs.FdRefs

namespace RtSmart

open Lib

def NodeOk (s : FdSys) : FdPc → Prop
  | .allocated _ d => (s.fds d).fnode = none
  | .opening _ d => (s.fds d).fnode = none
  | .found _ d f => (s.fds d).fnode = some f
  | .driver _ d f => (s.fds d).fnode = some f
  | .failing _ d _ => (s.fds d).fnode = none
  | .mounted d => (s.fds d).fnode ≠ none
  | .closing _ d => (s.fds d).fnode ≠ none
  | .closed _ d .retry => (s.fds d).fnode ≠ none
  | _ => True

def FdPc.works (p : FdPc) : Bool := p.last || p.site.isSome

theorem FdPc.Opens.works {p : FdPc} {o : Opener} {d : ℕ} (h : p.Opens o d) : p.works = true := by
  cases o with
  | slot σ => simp [FdPc.works, h.site, FdPc.Opener.site]
  | mount => simp [FdPc.works, h.last]

theorem NodeOk.of_not_works {s : FdSys} {p : FdPc} (h : p.works = false) : NodeOk s p := by
  match p, h with
  | .idle, _ => trivial
  | .looked _, _ => trivial
  | .holds _ _, _ => trivial
  | .retrying, _ => trivial

theorem NodeOk.frame {s s' : FdSys} {p : FdPc} (h : NodeOk s p)
    (hf : ∀ d, p.file = some d → (s'.fds d).fnode = (s.fds d).fnode) : NodeOk s' p := by
  cases p with
  | idle => trivial
  | looked d => trivial
  | holds d k => trivial
  | putting d k => trivial
  | put d k r => trivial
  | closing σ d => exact (congrArg (· ≠ none) (hf d rfl)).mpr h
  | closed σ d r =>
    cases r with
    | retry => exact (congrArg (· ≠ none) (hf d rfl)).mpr h
    | done => trivial
    | terminal => trivial
  | allocated σ d | opening o d | found o d f | driver o d f | failing σ d e => exact (hf d rfl).trans h
  | mounted d => exact (congrArg (· ≠ none) (hf d rfl)).mpr h
  | retrying => trivial

namespace FdInv

variable {s s' : FdSys} {c c' d : ℕ}

theorem works_cases {p : FdPc} (h : p.works = true) (hd : p.file = some d) :
    (∃ σ, p.site = some σ) ∨ p.held = some d := by
  cases hs : p.site with
  | some σ => exact .inl ⟨σ, rfl⟩
  | none =>
    have hl : p.last = true := by simpa [FdPc.works, hs] using h
    exact .inr ((FdPc.held_of_last hl hs).trans hd)

theorem worker_unique (h : FdInv s) (hd : (s.pc c).file = some d) (hw : (s.pc c).works = true)
    (hd' : (s.pc c').file = some d) (hw' : (s.pc c').works = true) : c' = c := by
  by_contra hne
  cases hl' : (s.pc c').last with
  | true => exact h.last_unique hd (works_cases hw hd) hne hl' hd'
  | false =>
    cases hl : (s.pc c).last with
    | true => exact h.last_unique hd' (works_cases hw' hd') (Ne.symm hne) hl hd
    | false =>
      obtain ⟨σ, hσ⟩ : ∃ σ, (s.pc c).site = some σ := by simpa [FdPc.works, hl, Option.isSome_iff_exists] using hw
      obtain ⟨τ, hτ⟩ : ∃ τ, (s.pc c').site = some τ := by simpa [FdPc.works, hl', Option.isSome_iff_exists] using hw'
      exact h.opener_unique hd hσ hl hne hτ hd'

end FdInv

structure NodeInv (s : FdSys) : Prop where
  inv : FdInv s
  node : ∀ c, NodeOk s (s.pc c)
  fresh : ∀ d, s.next ≤ d → (s.fds d).fnode = none

namespace NodeInv

variable {cfg : DfsConfig} {s s' : FdSys} {c d : ℕ} {p : FdPc} {e : FdEvent}

theorem init : NodeInv .init := ⟨.init, fun _ => trivial, fun _ _ => rfl⟩

theorem move (h : NodeInv s) (hi : FdInv s') (hpc : s'.pc = Function.update s.pc c p) (hself : NodeOk s' p)
    (hfresh : ∀ d, s'.next ≤ d → (s'.fds d).fnode = none)
    (hother : ∀ d, d < s.next → (s'.fds d).fnode = (s.fds d).fnode ∨ (s.pc c).file = some d ∧ (s.pc c).works = true) :
    NodeInv s' := by
  refine ⟨hi, fun b => ?_, hfresh⟩
  by_cases hb : b = c
  · rw [hb, hpc, Function.update_self]
    exact hself
  · rw [hpc, Function.update_of_ne hb]
    cases hw : (s.pc b).works with
    | false => exact .of_not_works hw
    | true =>
      refine (h.node b).frame fun d hd => ?_
      rcases hother d ((h.inv.call b).known d hd) with hf | ⟨hd', hw'⟩
      · exact hf
      · exact absurd (h.inv.worker_unique hd' hw' hd hw) hb

theorem work (h : NodeInv s) (hi : FdInv s') (hfile : (s.pc c).file = some d) (hworks : (s.pc c).works = true)
    (hpc : s'.pc = Function.update s.pc c p) (hself : NodeOk s' p) (hnext : s.next = s'.next)
    (hfnode : ∀ b, b ≠ d → (s'.fds b).fnode = (s.fds b).fnode) : NodeInv s' := by
  have hlt := (h.inv.call c).known d hfile
  refine h.move hi hpc hself (fun b hb => ?_) fun b _ => ?_
  · rw [hfnode b (by omega)]
    exact h.fresh b (by omega)
  · by_cases hb : b = d
    · exact .inr ⟨hb ▸ hfile, hworks⟩
    · exact .inl (hfnode b hb)

theorem keep (h : NodeInv s) (hi : FdInv s') (hpc : s'.pc = Function.update s.pc c p) (hself : NodeOk s' p)
    (hnext : s.next = s'.next) (hfnode : ∀ d, (s'.fds d).fnode = (s.fds d).fnode) : NodeInv s' :=
  h.move hi hpc hself (fun d hd => (hfnode d).trans (h.fresh d (hnext.trans_le hd))) fun d _ => .inl (hfnode d)

theorem update_field {β : Type} (g : DfsFd → β) {fds : ℕ → DfsFd} {e : ℕ} {x : DfsFd} (d : ℕ) (hx : g x = g (fds e)) :
    g (Function.update fds e x d) = g (fds d) := by
  by_cases hd : d = e
  · rw [hd, Function.update_self, hx]
  · rw [Function.update_of_ne hd]

theorem pop_fnode (s : FdSys) (e d : ℕ) : ((s.pop e).fds d).fnode = (s.fds d).fnode :=
  update_field DfsFd.fnode d rfl

theorem fdFree_field {β : Type} (g : DfsFd → β) (hg : ∀ x n m, g { x with refCount := n, freed := m } = g x) (s : FdSys)
    (e d : ℕ) : g ((s.fdFree e).fds d) = g (s.fds d) := by
  rw [FdInv.fdFree_fds]
  exact update_field g d (hg (s.fds e) _ _)

theorem fdtFdRelease_field {β : Type} (g : DfsFd → β) (hg : ∀ x n m, g { x with refCount := n, freed := m } = g x)
    (s : FdSys) (σ : FdSlot) (d : ℕ) : g ((s.fdtFdRelease σ).fds d) = g (s.fds d) := by
  unfold FdSys.fdtFdRelease
  split_ifs
  · split
    · rfl
    · dsimp only
      have hfd : ∀ e, g (((s.setSlot σ none).setFd e { s.fds e with refCount := (s.fds e).refCount - 1 }).fds d) =
          g (s.fds d) := fun e => update_field g d (hg (s.fds e) _ (s.fds e).freed)
      split_ifs
      · exact (fdFree_field g hg _ _ d).trans (hfd _)
      · exact hfd _
  · rfl

theorem fdFree_fnode (s : FdSys) (e d : ℕ) : ((s.fdFree e).fds d).fnode = (s.fds d).fnode :=
  fdFree_field DfsFd.fnode (fun _ _ _ => rfl) s e d

theorem fdtFdRelease_pc (s : FdSys) (σ : FdSlot) : (s.fdtFdRelease σ).pc = s.pc ∧ (s.fdtFdRelease σ).next = s.next := by
  unfold FdSys.fdtFdRelease
  split_ifs
  · split
    · exact ⟨rfl, rfl⟩
    · dsimp only
      split_ifs
      · exact ⟨(FdInv.fdFree_same _ _).1, (FdInv.fdFree_same _ _).2.next⟩
      · exact ⟨rfl, rfl⟩
  · exact ⟨rfl, rfl⟩

theorem finish {r : FdRet} (h : NodeInv s) (hi : FdInv (s.finish c r)) : NodeInv (s.finish c r) :=
  h.keep hi rfl trivial rfl fun _ => rfl

theorem putDone {s₁ : FdSys} {k : PutNext} (h : NodeInv s) (hi : FdInv (s₁.putDone c k)) (hpc : s₁.pc = s.pc)
    (hnext : s.next = s₁.next) (hfnode : ∀ d, (s₁.fds d).fnode = (s.fds d).fnode) : NodeInv (s₁.putDone c k) := by
  cases k with
  | ret r => exact h.keep hi (congrArg (Function.update · c _) hpc) trivial hnext hfnode
  | retry => exact h.keep hi (congrArg (Function.update · c _) hpc) trivial hnext hfnode

theorem openFailed {s₁ : FdSys} {o : Opener} {errno : FdErr} (h : NodeInv s) (hi : FdInv (s₁.openFailed c o d errno))
    (hc : (s.pc c).Opens o d) (hpc : s₁.pc = s.pc) (hnext : s.next = s₁.next) (hnone : (s₁.fds d).fnode = none)
    (hfnode : ∀ b, b ≠ d → (s₁.fds b).fnode = (s.fds b).fnode) : NodeInv (s₁.openFailed c o d errno) := by
  cases o with
  | slot σ => exact h.work hi hc.file hc.works (congrArg (Function.update · c _) hpc) hnone hnext hfnode
  | mount =>
    refine h.work hi hc.file hc.works (congrArg (Function.update · c _) hpc) trivial hnext fun b hb => ?_
    exact (pop_fnode s₁ d b).trans (hfnode b hb)

theorem fdtFdNew {t : ℕ} {mem calloc : Bool} (h : NodeInv s) (hi : FdInv (s.fdtFdNew cfg c t mem calloc)) :
    NodeInv (s.fdtFdNew cfg c t mem calloc) := by
  revert hi
  unfold FdSys.fdtFdNew
  split
  · exact h.finish
  split_ifs <;> intro hi
  · refine h.move hi rfl ?_ (fun d hd => ?_) fun d hd => .inl ?_
    · simp [NodeOk, FdSys.setPc, FdSys.setSlot, FdSys.setFd]
    · have hd : s.next + 1 ≤ d := hd
      have hne : d ≠ s.next := by omega
      simpa [FdSys.setPc, FdSys.setSlot, FdSys.setFd, FdSys.setMaxfd, hne] using h.fresh d (by omega)
    · simp [FdSys.setPc, FdSys.setSlot, FdSys.setFd, FdSys.setMaxfd, hd.ne]
  · exact h.keep hi rfl trivial rfl fun _ => rfl

theorem mountCheck (h : NodeInv s) (hi : FdInv (s.mountCheck c)) : NodeInv (s.mountCheck c) := by
  refine h.move hi rfl ?_ (fun d hd => ?_) fun d hd => .inl ?_
  · simp [NodeOk, FdSys.mountCheck, FdSys.setPc, FdSys.setFd]
  · have hd : s.next + 1 ≤ d := hd
    have hne : d ≠ s.next := by omega
    simpa [FdSys.mountCheck, FdSys.setPc, FdSys.setFd, hne] using h.fresh d (by omega)
  · simp [FdSys.mountCheck, FdSys.setPc, FdSys.setFd, hd.ne]

theorem fdGetRef {σ : FdSlot} (h : NodeInv s) (hi : FdInv (s.fdGetRef c σ)) : NodeInv (s.fdGetRef c σ) := by
  revert hi
  unfold FdSys.fdGetRef
  split
  · exact h.finish
  split_ifs
  · intro hi
    refine h.keep hi rfl trivial rfl fun b => ?_
    exact update_field DfsFd.fnode b rfl
  · exact h.finish

theorem fdPut {k : PutNext} (h : NodeInv s) (hi : FdInv (s.fdPut c d k)) : NodeInv (s.fdPut c d k) := by
  revert hi
  unfold FdSys.fdPut
  split_ifs <;> intro hi
  · refine h.putDone hi rfl rfl fun b => ?_
    exact update_field DfsFd.fnode b rfl
  · refine h.keep hi rfl trivial rfl fun b => ?_
    exact update_field DfsFd.fnode b rfl

theorem fdPutClosed {k : PutNext} {result : CloseResult} (h : NodeInv s) (hi : FdInv (s.fdPutClosed c d k result)) :
    NodeInv (s.fdPutClosed c d k result) := by
  revert hi
  unfold FdSys.fdPutClosed
  split_ifs <;> intro hi
  · refine h.putDone hi rfl rfl fun b => ?_
    exact update_field DfsFd.fnode b rfl
  · obtain ⟨hpc, hsame⟩ := FdInv.fdFree_same (s.setFd d { s.fds d with refCount := (s.fds d).refCount - 1 }) d
    refine h.putDone hi hpc hsame.next.symm fun b => (fdFree_fnode _ _ b).trans ?_
    exact update_field DfsFd.fnode b rfl

theorem fdtFdClose {σ : FdSlot} {type : Option FileType} (h : NodeInv s) (hi : FdInv (s.fdtFdClose c σ type)) :
    NodeInv (s.fdtFdClose c σ type) := by
  revert hi
  unfold FdSys.fdtFdClose
  split
  · exact h.finish
  split
  · exact h.finish
  next d _ _ f hf =>
  split_ifs
  · exact h.finish
  · intro hi
    refine h.keep hi rfl trivial rfl fun b => ?_
    exact update_field DfsFd.fnode b rfl
  · intro hi
    refine h.keep hi rfl ?_ rfl fun b => ?_
    · simp [NodeOk, FdSys.setPc, FdSys.setFd, hf]
    · exact update_field DfsFd.fnode b rfl

theorem fdtFdClosed {σ : FdSlot} {result : CloseResult} (h : NodeInv s) (hi : FdInv (s.fdtFdClosed c σ d result)) :
    NodeInv (s.fdtFdClosed c σ d result) := by
  revert hi
  unfold FdSys.fdtFdClosed
  by_cases hr : result = .retry
  · rw [if_pos hr]
    intro hi
    refine h.keep hi rfl trivial rfl fun b => ?_
    exact update_field DfsFd.fnode b rfl
  · rw [if_neg hr]
    intro hi
    obtain ⟨hpc, hsame⟩ := FdInv.fdFree_same
      ((s.setSlot σ none).setFd d { s.fds d with refCount := (s.fds d).refCount - 1 }) d
    refine h.keep hi (congrArg (Function.update · c _) hpc) trivial hsame.next.symm fun b =>
      (fdFree_fnode _ _ b).trans ?_
    exact update_field DfsFd.fnode b rfl

theorem sysDup {t oldfd : ℕ} {mem : Bool} (h : NodeInv s) (hi : FdInv (s.sysDup cfg c t oldfd mem)) :
    NodeInv (s.sysDup cfg c t oldfd mem) := by
  revert hi
  unfold FdSys.sysDup
  split
  · exact h.finish
  split_ifs
  · exact h.finish
  split
  · exact h.finish
  · intro hi
    refine h.keep hi rfl trivial rfl fun b => ?_
    exact update_field DfsFd.fnode b rfl

theorem sysDup2 {t oldfd newfd : ℕ} {mem : Bool} (h : NodeInv s) (hi : FdInv (s.sysDup2 cfg c t oldfd newfd mem)) :
    NodeInv (s.sysDup2 cfg c t oldfd newfd mem) := by
  revert hi
  unfold FdSys.sysDup2
  split
  · exact h.finish
  split_ifs
  · exact h.finish
  split
  · exact h.finish
  dsimp only
  split
  · intro hi
    refine h.keep hi rfl trivial rfl fun b => ?_
    exact update_field DfsFd.fnode b rfl
  split_ifs <;> intro hi
  · exact h.keep hi rfl trivial rfl fun _ => rfl
  · exact h.keep hi rfl trivial rfl fun _ => rfl
  · refine h.keep hi rfl trivial rfl fun b => ?_
    exact update_field DfsFd.fnode b rfl

theorem fdAssociate {σ : FdSlot} (h : NodeInv s) (hi : FdInv (s.fdAssociate c σ d)) : NodeInv (s.fdAssociate c σ d) := by
  revert hi
  unfold FdSys.fdAssociate
  split_ifs
  · exact h.finish
  · intro hi
    refine h.keep hi rfl trivial rfl fun b => ?_
    exact update_field DfsFd.fnode b rfl
  · exact h.finish

theorem dfsFileOpen {o : Opener} {cwd : WorkDir} {path : List Char} {table : List Filesystem} {alloc calloc : Bool}
    (h : NodeInv s) (hc : s.pc c = .opening o d) (hi : FdInv (s.dfsFileOpen cfg c o d cwd path table alloc calloc)) :
    NodeInv (s.dfsFileOpen cfg c o d cwd path table alloc calloc) := by
  have hopens : (s.pc c).Opens o d := hc ▸ .opening o d
  have hnone : (s.fds d).fnode = none := by
    have := h.node c
    rwa [hc] at this
  have hfail : ∀ errno, FdInv (s.openFailed c o d errno) → NodeInv (s.openFailed c o d errno) := fun errno hi =>
    h.openFailed hi hopens rfl rfl hnone fun _ _ => rfl
  revert hi
  unfold FdSys.dfsFileOpen
  split
  · exact hfail _
  split
  · intro hi
    refine h.work hi hopens.file hopens.works rfl ?_ rfl fun b hb => ?_
    · simp [NodeOk, FdSys.setPc, FdSys.setFd]
    · simp [FdSys.setPc, FdSys.setFd, FdSys.setFnode, hb]
  split
  · exact hfail _
  split_ifs
  · exact hfail _
  · exact hfail _
  · intro hi
    refine h.work hi hopens.file hopens.works rfl ?_ rfl fun b hb => ?_
    · simp [NodeOk, FdSys.setPc, FdSys.setFd]
    · simp [FdSys.setPc, FdSys.setFd, FdSys.setFnode, hb]

theorem dfsFileOpenFailed {o : Opener} {f : ℕ} (h : NodeInv s) (hc : s.pc c = .driver o d f)
    (hi : FdInv (s.dfsFileOpenFailed c o d f)) : NodeInv (s.dfsFileOpenFailed c o d f) := by
  have hopens : (s.pc c).Opens o d := hc ▸ .driver o d f
  revert hi
  dsimp only [FdSys.dfsFileOpenFailed]
  intro hi
  refine h.openFailed hi hopens ?_ ?_ ?_ fun b hb => ?_
  · rfl
  · rfl
  · simp [FdSys.setFd]
  · simp [FdSys.setFd, FdSys.setFnode, hb]

theorem dfsFileOpened {o : Opener} {f : ℕ} {directory : Bool} (h : NodeInv s) (hc : s.pc c = .driver o d f)
    (hi : FdInv (s.dfsFileOpened c o d f directory)) : NodeInv (s.dfsFileOpened c o d f directory) := by
  have hnode : (s.fds d).fnode = some f := by
    have := h.node c
    rwa [hc] at this
  cases o with
  | slot σ =>
    refine h.keep hi rfl trivial rfl fun b => ?_
    exact update_field DfsFd.fnode b rfl
  | mount =>
    refine h.keep hi rfl ?_ rfl fun _ => rfl
    simp [NodeOk, FdSys.dfsFileOpened, FdSys.setPc, FdSys.setFnode, hnode]

/-- What `dfs_file_close` answers and whether the file has its node afterwards. -/
theorem dfsFileClose_fnode {r : FdSys × CloseResult} {result : CloseResult} (hr : s.dfsFileClose d result = some r) :
    (∀ b, b ≠ d → (r.1.fds b).fnode = (s.fds b).fnode) ∧ (r.2 = .retry → r.1 = s) := by
  unfold FdSys.dfsFileClose at hr
  split at hr
  · cases hr
    exact ⟨fun _ _ => rfl, fun _ => rfl⟩
  split_ifs at hr with h1 h2 h3 <;> cases hr
  · exact ⟨fun _ _ => rfl, fun _ => rfl⟩
  · exact ⟨fun _ _ => rfl, fun _ => rfl⟩
  · refine ⟨fun b hb => by simp [FdSys.setFnode, FdSys.setFd, hb], fun hq => ?_⟩
    exact absurd (.inr hq) h3
  · exact ⟨fun _ _ => rfl, fun _ => rfl⟩

theorem fileClose {r : FdSys × CloseResult} {result : CloseResult} (h : NodeInv s)
    (hr : s.dfsFileClose d result = some r) (hfile : (s.pc c).file = some d) (hworks : (s.pc c).works = true)
    (hi : FdInv (r.1.setPc c p)) (hself : NodeOk (r.1.setPc c p) p) : NodeInv (r.1.setPc c p) := by
  obtain ⟨g, -, hsame, hpc⟩ := FdInv.dfsFileClose_eq hr
  exact h.work hi hfile hworks (congrArg (Function.update · c _) hpc) hself hsame.next.symm (dfsFileClose_fnode hr).1

theorem mountClose {r : FdSys × CloseResult} {result : CloseResult} (h : NodeInv s)
    (hr : s.dfsFileClose d result = some r) (hc : s.pc c = .mounted d) (hi : FdInv ((r.1.pop d).finish c .done)) :
    NodeInv ((r.1.pop d).finish c .done) := by
  obtain ⟨g, -, hsame, hpc⟩ := FdInv.dfsFileClose_eq hr
  have hopens : (s.pc c).Opens .mount d := hc ▸ .mounted d
  refine h.work hi hopens.file hopens.works (congrArg (Function.update · c _) hpc) trivial hsame.next.symm fun b hb => ?_
  exact (pop_fnode r.1 d b).trans ((dfsFileClose_fnode hr).1 b hb)

theorem step (h : NodeInv s) (hok : s.Owned e) (hs : s.step cfg e = some s') : NodeInv s' := by
  have hi := h.inv.step hok hs
  cases e with
  | newTable t n =>
    simp only [FdSys.step] at hs
    split_ifs at hs
    cases hs
    exact ⟨hi, h.node, h.fresh⟩
  | fdNew c t mem calloc =>
    obtain ⟨hc, rfl⟩ := FdSys.start_some hs
    exact h.fdtFdNew hi
  | fdGet c σ =>
    obtain ⟨hc, rfl⟩ := FdSys.start_some hs
    revert hi
    split <;> intro hi
    · exact h.keep hi rfl trivial rfl fun _ => rfl
    · exact h.finish hi
  | openGet c =>
    simp only [FdSys.step] at hs
    split at hs <;> cases hs
    next σ d hc =>
    have hnone : (s.fds d).fnode = none := by
      have := h.node c
      rwa [hc] at this
    revert hi
    split <;> intro hi
    · next d' hd' =>
      have hσ : s.slot σ = some d := (h.inv.call c).slot σ (by rw [hc]; rfl) |>.trans (by rw [hc]; rfl)
      obtain rfl : d' = d := Option.some.inj ((fdtFdGetLocked_some hd').1.symm.trans hσ)
      exact h.keep hi rfl hnone rfl fun _ => rfl
    · exact h.keep hi rfl hnone rfl fun _ => rfl
  | openFind c cwd path table alloc calloc =>
    simp only [FdSys.step] at hs
    split at hs <;> cases hs
    next o d hc _ => exact h.dfsFileOpen hc hi
  | openFlags c closing =>
    simp only [FdSys.step] at hs
    split at hs <;> cases hs
    next o d f hc =>
    have hnode := h.node c
    rw [hc] at hnode
    refine h.keep hi rfl ?_ rfl fun b => ?_
    · simpa [NodeOk, FdSys.dfsFileOpenFlags, FdSys.setPc, FdSys.setFd] using hnode
    · exact update_field DfsFd.fnode b rfl
  | opened c directory =>
    simp only [FdSys.step] at hs
    split at hs <;> cases hs
    next o d f hc => exact h.dfsFileOpened hc hi
  | openFailed c =>
    simp only [FdSys.step] at hs
    split at hs
    · next o d f hc =>
      split_ifs at hs
      cases hs
      exact h.dfsFileOpenFailed hc hi
    · cases hs
  | release c =>
    simp only [FdSys.step] at hs
    split at hs <;> cases hs
    next σ d errno hc =>
    obtain ⟨hpc, hnext⟩ := fdtFdRelease_pc (s.setFd d { s.fds d with openAt := none }) σ
    refine h.keep hi (congrArg (Function.update · c _) hpc) trivial hnext.symm fun b => (fdtFdRelease_field DfsFd.fnode (fun _ _ _ => rfl) _ σ b).trans ?_
    exact update_field DfsFd.fnode b rfl
  | getRef c σ =>
    obtain ⟨hc, rfl⟩ := FdSys.start_some hs
    exact h.fdGetRef hi
  | put c =>
    simp only [FdSys.step] at hs
    split at hs
    · next d k hc =>
      split_ifs at hs
      cases hs
      exact h.fdPut hi
    · cases hs
  | close c σ type =>
    obtain ⟨hc, rfl⟩ := FdSys.start_some hs
    exact h.fdtFdClose hi
  | fileClose c result =>
    simp only [FdSys.step] at hs
    split at hs
    · next d k hc =>
      obtain ⟨r, hr, rfl⟩ := Option.map_eq_some_iff.mp hs
      exact h.fileClose hr (by rw [hc]; rfl) (by rw [hc]; rfl) hi trivial
    · next σ d hc =>
      obtain ⟨r, hr, rfl⟩ := Option.map_eq_some_iff.mp hs
      refine h.fileClose hr (by rw [hc]; rfl) (by rw [hc]; rfl) hi ?_
      have hnode := h.node c
      rw [hc] at hnode
      cases hq : r.2 with
      | retry =>
        have heq := (dfsFileClose_fnode hr).2 hq
        rw [heq]
        exact hnode
      | done => trivial
      | terminal => trivial
    · next d hc =>
      obtain ⟨r, hr, rfl⟩ := Option.map_eq_some_iff.mp hs
      exact h.mountClose hr hc hi
    · cases hs
  | closed c =>
    simp only [FdSys.step] at hs
    split at hs <;> cases hs
    · exact h.fdPutClosed hi
    · exact h.fdtFdClosed hi
  | dup c t oldfd mem =>
    obtain ⟨hc, rfl⟩ := FdSys.start_some hs
    exact h.sysDup hi
  | dup2 c t oldfd newfd mem =>
    obtain ⟨hc, rfl⟩ := FdSys.start_some hs
    exact h.sysDup2 hi
  | associate c σ =>
    simp only [FdSys.step] at hs
    split at hs <;> cases hs
    exact h.fdAssociate hi
  | retry c =>
    obtain ⟨hc, rfl⟩ := FdSys.start_some hs
    revert hi
    unfold FdSys.fdRetryFailedCloses
    split_ifs <;> intro hi
    · exact h.finish hi
    · exact h.keep hi rfl trivial rfl fun _ => rfl
  | retryNext c =>
    simp only [FdSys.step] at hs
    split at hs <;> cases hs
    revert hi
    unfold FdSys.fdRetryNext
    split <;> intro hi
    · exact h.keep hi rfl trivial rfl fun _ => rfl
    · exact h.keep hi rfl trivial rfl fun _ => rfl
  | mount c =>
    obtain ⟨hc, rfl⟩ := FdSys.start_some hs
    exact h.mountCheck hi

end NodeInv

end RtSmart
