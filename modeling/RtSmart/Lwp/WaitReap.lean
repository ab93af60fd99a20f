import RtSmart.Lwp.Wait

namespace RtSmart

open Lib

/-- The child that the thread waits for or is about to reap, and the number it was asked for. -/
def WaitPc.awaits : WaitPc → Option (ℕ × ℤ)
  | .idle => none
  | .waiting c pid | .woken c pid _ | .prepared c pid => some (c, pid)

namespace WaitSys

/-- What a process may look like while `lwp_free` stands at its stage. -/
def StageOk (s : WaitSys) (c : ℕ) : Prop :=
  match (s.lwp c).stage with
  | .fresh | .running | .cleanup => (s.lwp c).finish = false ∧ s.pidPut c = 0 ∧ s.freed c = 0
  | .freeing d => (s.lwp c).finish = false ∧ s.pidPut c = 0 ∧ s.freed c = 0 ∧
      (s.lwp d).stage = .exited ∧ s.pidPut d = 1 ∧ s.freed d = 0 ∧ (s.lwp d).parent = some c
  | .freeingSelf => (s.lwp c).finish = true ∧ (s.lwp c).children = [] ∧ s.pidPut c = 1 ∧ s.freed c = 0
  | .exited => (s.lwp c).finish = true ∧ (s.lwp c).children = [] ∧
      ((s.pidPut c = 1 ∧ s.freed c = 1) ∨ (s.pidPut c = 0 ∧ s.freed c = 0 ∧ (s.lwp c).parent ≠ none) ∨
        (s.pidPut c = 1 ∧ s.freed c = 0 ∧ ∃ p, (s.lwp p).stage = .freeing c))

structure Tree (s : WaitSys) : Prop where
  table : ∀ pid c, s.pidTable pid = some c ↔ c < s.next ∧ s.pidPut c = 0 ∧ (s.lwp c).pid = pid
  child : ∀ p c, c ∈ (s.lwp p).children ↔ (s.lwp c).parent = some p ∧ s.pidPut c = 0
  nodup : ∀ p, (s.lwp p).children.Nodup
  irrefl : ∀ c, (s.lwp c).parent ≠ some c
  unborn : ∀ c, s.next ≤ c → s.lwp c = lwpNew 0 ∧ s.pidPut c = 0 ∧ s.freed c = 0
  stage : ∀ c, s.StageOk c
  delivered : ∀ c, s.delivered c ≤ s.freed c

structure Threads (s : WaitSys) : Prop where
  live : ∀ t p, s.thread t = some p → (s.lwp p).stage = .running
  ref : ∀ p, (s.lwp p).stage = .running → {t | s.thread t = some p}.encard = (s.lwp p).ref
  fresh : ∀ p, (s.lwp p).stage = .fresh → (s.lwp p).ref = 1

structure WaiterOk (s : WaitSys) (t : Tid) (c : ℕ) (pid : ℤ) : Prop where
  parent : ∃ p, s.thread t = some p ∧ (s.lwp c).parent = some p
  pid : (s.lwp c).pid = pid
  pidPut : s.pidPut c = 0
  inProgress : (s.lwp c).waitInProgress = true
  place : match s.pc t with
    | .idle => True
    | .waiting _ _ => (s.lwp c).waitList = [t] ∧ (s.lwp c).finish = false
    | .woken _ _ ok => (s.lwp c).waitList = [] ∧ (ok = true → (s.lwp c).finish = true)
    | .prepared _ _ => (s.lwp c).waitList = [] ∧ (s.lwp c).finish = true

structure Waiters (s : WaitSys) : Prop where
  ok : ∀ t c pid, (s.pc t).awaits = some (c, pid) → s.WaiterOk t c pid
  unique : ∀ t u c pid pid', (s.pc t).awaits = some (c, pid) → (s.pc u).awaits = some (c, pid') → t = u
  queue : ∀ c t, t ∈ (s.lwp c).waitList → ∃ pid, s.pc t = .waiting c pid

structure Inv (s : WaitSys) : Prop where
  tree : s.Tree
  threads : s.Threads
  waiters : s.Waiters

section steps

variable {s s' : WaitSys} {t : Tid} {p c : ℕ} {pid : ℤ}

@[simp] theorem setLwp_lwp_self (f : Lwp → Lwp) : (s.setLwp c f).lwp c = f (s.lwp c) := by simp [setLwp]

@[simp] theorem setLwp_lwp_of_ne (f : Lwp → Lwp) {x : ℕ} (h : x ≠ c) : (s.setLwp c f).lwp x = s.lwp x := by
  simp [setLwp, h]

@[simp] theorem setLwp_next (f : Lwp → Lwp) : (s.setLwp c f).next = s.next := rfl
@[simp] theorem setLwp_pidTable (f : Lwp → Lwp) : (s.setLwp c f).pidTable = s.pidTable := rfl
@[simp] theorem setLwp_thread (f : Lwp → Lwp) : (s.setLwp c f).thread = s.thread := rfl
@[simp] theorem setLwp_pc (f : Lwp → Lwp) : (s.setLwp c f).pc = s.pc := rfl
@[simp] theorem setLwp_pidPut (f : Lwp → Lwp) : (s.setLwp c f).pidPut = s.pidPut := rfl
@[simp] theorem setLwp_freed (f : Lwp → Lwp) : (s.setLwp c f).freed = s.freed := rfl
@[simp] theorem setLwp_delivered (f : Lwp → Lwp) : (s.setLwp c f).delivered = s.delivered := rfl

@[simp] theorem setPc_lwp (q : WaitPc) : (s.setPc t q).lwp = s.lwp := rfl
@[simp] theorem setPc_next (q : WaitPc) : (s.setPc t q).next = s.next := rfl
@[simp] theorem setPc_pidTable (q : WaitPc) : (s.setPc t q).pidTable = s.pidTable := rfl
@[simp] theorem setPc_thread (q : WaitPc) : (s.setPc t q).thread = s.thread := rfl
@[simp] theorem setPc_pidPut (q : WaitPc) : (s.setPc t q).pidPut = s.pidPut := rfl
@[simp] theorem setPc_freed (q : WaitPc) : (s.setPc t q).freed = s.freed := rfl
@[simp] theorem setPc_delivered (q : WaitPc) : (s.setPc t q).delivered = s.delivered := rfl
@[simp] theorem setPc_pc_self (q : WaitPc) : (s.setPc t q).pc t = q := by simp [setPc]

@[simp] theorem setPc_pc_of_ne (q : WaitPc) {u : Tid} (h : u ≠ t) : (s.setPc t q).pc u = s.pc u := by
  simp [setPc, h]

@[simp] theorem lwpPidPut_lwp : (s.lwpPidPut c).lwp = s.lwp := rfl
@[simp] theorem lwpPidPut_next : (s.lwpPidPut c).next = s.next := rfl
@[simp] theorem lwpPidPut_thread : (s.lwpPidPut c).thread = s.thread := rfl
@[simp] theorem lwpPidPut_pc : (s.lwpPidPut c).pc = s.pc := rfl
@[simp] theorem lwpPidPut_freed : (s.lwpPidPut c).freed = s.freed := rfl
@[simp] theorem lwpPidPut_delivered : (s.lwpPidPut c).delivered = s.delivered := rfl
@[simp] theorem lwpPidPut_self : (s.lwpPidPut c).pidPut c = s.pidPut c + 1 := by simp [lwpPidPut]

@[simp] theorem lwpPidPut_of_ne {x : ℕ} (h : x ≠ c) : (s.lwpPidPut c).pidPut x = s.pidPut x := by
  simp [lwpPidPut, h]

@[simp] theorem rtFree_lwp : (s.rtFree c).lwp = s.lwp := rfl

structure SameTree (s s' : WaitSys) : Prop where
  next : s'.next = s.next
  pidTable : s'.pidTable = s.pidTable
  pidPut : s'.pidPut = s.pidPut
  freed : s'.freed = s.freed
  delivered : s'.delivered = s.delivered
  unborn : ∀ c, s.next ≤ c → s'.lwp c = s.lwp c
  pid : ∀ c, (s'.lwp c).pid = (s.lwp c).pid
  parent : ∀ c, (s'.lwp c).parent = (s.lwp c).parent
  children : ∀ c, (s'.lwp c).children = (s.lwp c).children
  finish : ∀ c, (s'.lwp c).finish = (s.lwp c).finish

theorem Tree.born (h : s.Tree) (hc : (s.lwp c).stage ≠ .fresh ∨ (s.lwp c).parent ≠ none) : c < s.next := by
  by_contra hn
  have := (h.unborn c (not_lt.mp hn)).1
  simp [this, lwpNew] at hc

theorem Tree.congr (h : s.Tree) (hs : SameTree s s') (hst : ∀ c, s'.StageOk c) : s'.Tree := by
  refine ⟨fun pid c => ?_, fun p c => ?_, fun p => ?_, fun c => ?_, fun c hc => ?_, fun c => ?_, fun c => ?_⟩
  · rw [hs.pidTable, hs.next, hs.pidPut, hs.pid]
    exact h.table pid c
  · rw [hs.children, hs.parent, hs.pidPut]
    exact h.child p c
  · rw [hs.children]
    exact h.nodup p
  · rw [hs.parent]
    exact h.irrefl c
  · rw [hs.next] at hc
    rw [hs.unborn c hc, hs.pidPut, hs.freed]
    exact h.unborn c hc
  · exact hst c
  · rw [hs.delivered, hs.freed]
    exact h.delivered c

theorem Threads.congr (h : s.Threads) (ht : s'.thread = s.thread)
    (hst : ∀ c, ((s'.lwp c).stage = .running ↔ (s.lwp c).stage = .running) ∧
      ((s'.lwp c).stage = .fresh → (s.lwp c).stage = .fresh))
    (hr : ∀ c, (s'.lwp c).ref = (s.lwp c).ref) : s'.Threads := by
  refine ⟨fun t p htp => ?_, fun p hp => ?_, fun p hp => ?_⟩
  · rw [(hst p).1]
    exact h.live t p (ht ▸ htp)
  · rw [ht, hr]
    exact h.ref p ((hst p).1.mp hp)
  · rw [hr]
    exact h.fresh p ((hst p).2 hp)

structure SameWait (s s' : WaitSys) (c : ℕ) : Prop where
  pid : (s'.lwp c).pid = (s.lwp c).pid
  parent : (s'.lwp c).parent = (s.lwp c).parent
  waitInProgress : (s'.lwp c).waitInProgress = (s.lwp c).waitInProgress
  waitList : (s'.lwp c).waitList = (s.lwp c).waitList
  finish : (s'.lwp c).finish = (s.lwp c).finish
  pidPut : s'.pidPut c = s.pidPut c

theorem WaiterOk.congr (h : s.WaiterOk t c pid) (hs : SameWait s s' c) (ht : s'.thread t = s.thread t)
    (hp : s'.pc t = s.pc t) : s'.WaiterOk t c pid := by
  obtain ⟨h1, h2, h3, h4, h5⟩ := h
  refine ⟨?_, ?_, ?_, ?_, ?_⟩
  · rw [ht, hs.parent]
    exact h1
  · rw [hs.pid]
    exact h2
  · rw [hs.pidPut]
    exact h3
  · rw [hs.waitInProgress]
    exact h4
  · rw [hp, hs.waitList, hs.finish]
    exact h5

theorem Waiters.congr (h : s.Waiters) (hp : s'.pc = s.pc)
    (ht : ∀ t c pid, (s.pc t).awaits = some (c, pid) → s'.thread t = s.thread t ∧ SameWait s s' c)
    (hq : ∀ c, (s'.lwp c).waitList = (s.lwp c).waitList) : s'.Waiters := by
  refine ⟨fun t c pid hw => ?_, ?_, fun c t hc => ?_⟩
  · rw [hp] at hw
    obtain ⟨h1, h2⟩ := ht t c pid hw
    exact (h.ok t c pid hw).congr h2 h1 (by rw [hp])
  · rw [hp]
    exact h.unique
  · rw [hp]
    exact h.queue c t (hq c ▸ hc)

theorem Inv.awaited (h : s.Inv) (hw : (s.pc t).awaits = some (c, pid)) :
    ∃ p, s.thread t = some p ∧ (s.lwp c).parent = some p ∧ (s.lwp p).stage = .running := by
  obtain ⟨p, h1, h2⟩ := (h.waiters.ok t c pid hw).parent
  exact ⟨p, h1, h2, h.threads.live t p h1⟩

theorem Inv.not_awaited (h : s.Inv) (hn : ∀ p, (s.lwp c).parent = some p → (s.lwp p).stage ≠ .running) :
    (s.pc t).awaits ≠ some (c, pid) := by
  intro hw
  obtain ⟨p, -, h2, h3⟩ := h.awaited hw
  exact hn p h2 h3

structure SameStage (s s' : WaitSys) (x : ℕ) : Prop where
  stage : (s'.lwp x).stage = (s.lwp x).stage
  finish : (s'.lwp x).finish = (s.lwp x).finish
  parent : (s'.lwp x).parent = (s.lwp x).parent
  children : (s'.lwp x).children = (s.lwp x).children
  pidPut : s'.pidPut x = s.pidPut x
  freed : s'.freed x = s.freed x

theorem StageOk.frame {x : ℕ} (h : s.StageOk x) (hx : SameStage s s' x)
    (hd : ∀ d, (s.lwp x).stage = .freeing d → (s.lwp d).stage = .exited → SameStage s s' d)
    (hq : ∀ q, (s.lwp q).stage = .freeing x → (s'.lwp q).stage = .freeing x) : s'.StageOk x := by
  unfold StageOk at h ⊢
  rw [hx.stage, hx.finish, hx.parent, hx.children, hx.pidPut, hx.freed]
  cases hsx : (s.lwp x).stage with
  | freeing d =>
    rw [hsx] at h
    dsimp only at h ⊢
    have hsd := hd d hsx h.2.2.2.1
    rw [hsd.stage, hsd.pidPut, hsd.freed, hsd.parent]
    exact h
  | exited =>
    rw [hsx] at h
    refine ⟨h.1, h.2.1, ?_⟩
    obtain h1 | h1 | ⟨h1, h2, q, h3⟩ := h.2.2
    · exact .inl h1
    · exact .inr (.inl h1)
    · exact .inr (.inr ⟨h1, h2, q, hq q h3⟩)
  | _ => simpa only [hsx] using h

theorem StageOk.early {x : ℕ} (h : s.StageOk x) (hf : (s.lwp x).finish = false) : s.pidPut x = 0 ∧ s.freed x = 0 := by
  unfold StageOk at h
  cases hsx : (s.lwp x).stage <;> simp_all

theorem StageOk.zombie {x : ℕ} (h : s.StageOk x) (hf : (s.lwp x).finish = true) (hp : s.pidPut x = 0) :
    (s.lwp x).stage = .exited ∧ (s.lwp x).children = [] ∧ s.freed x = 0 := by
  unfold StageOk at h
  cases hsx : (s.lwp x).stage <;> simp_all

theorem stageOk_early {x : ℕ} (hst : (s.lwp x).stage ∈ [LwpStage.fresh, .running, .cleanup])
    (hok : (s.lwp x).finish = false ∧ s.pidPut x = 0 ∧ s.freed x = 0) : s.StageOk x := by
  unfold StageOk
  simp only [List.mem_cons, List.not_mem_nil, or_false] at hst
  obtain he | he | he := hst <;> simpa only [he] using hok

theorem StageOk.freeing {x d : ℕ} (h : s.StageOk x) (hst : (s.lwp x).stage = .freeing d) :
    ((s.lwp x).finish = false ∧ s.pidPut x = 0 ∧ s.freed x = 0) ∧
      (s.lwp d).stage = .exited ∧ s.pidPut d = 1 ∧ s.freed d = 0 ∧ (s.lwp d).parent = some x := by
  rw [StageOk, hst] at h
  exact ⟨⟨h.1, h.2.1, h.2.2.1⟩, h.2.2.2⟩

theorem StageOk.exited {x : ℕ} (h : s.StageOk x) (hst : (s.lwp x).stage = .exited) :
    (s.lwp x).finish = true ∧ (s.lwp x).children = [] ∧
      ((s.pidPut x = 1 ∧ s.freed x = 1) ∨ (s.pidPut x = 0 ∧ s.freed x = 0 ∧ (s.lwp x).parent ≠ none) ∨
        (s.pidPut x = 1 ∧ s.freed x = 0 ∧ ∃ p, (s.lwp p).stage = .freeing x)) := by
  rwa [StageOk, hst] at h

theorem stageOk_freeing {x d : ℕ} (hst : (s.lwp x).stage = .freeing d)
    (hx : (s.lwp x).finish = false ∧ s.pidPut x = 0 ∧ s.freed x = 0)
    (hd : (s.lwp d).stage = .exited ∧ s.pidPut d = 1 ∧ s.freed d = 0 ∧ (s.lwp d).parent = some x) : s.StageOk x := by
  unfold StageOk
  rw [hst]
  exact ⟨hx.1, hx.2.1, hx.2.2, hd⟩

theorem stageOk_exited {x : ℕ} (hst : (s.lwp x).stage = .exited)
    (hx : (s.lwp x).finish = true ∧ (s.lwp x).children = [])
    (hc : (s.pidPut x = 1 ∧ s.freed x = 1) ∨ (s.pidPut x = 0 ∧ s.freed x = 0 ∧ (s.lwp x).parent ≠ none) ∨
      (s.pidPut x = 1 ∧ s.freed x = 0 ∧ ∃ p, (s.lwp p).stage = .freeing x)) : s.StageOk x := by
  unfold StageOk
  rw [hst]
  exact ⟨hx.1, hx.2, hc⟩

theorem Inv.lwpNew (h : s.Inv) (hs : s.step (.lwpNew pid) = some s') : s'.Inv := by
  simp only [step, Option.ite_none_right_eq_some, Option.some.injEq] at hs
  obtain ⟨⟨-, hnone⟩, rfl⟩ := hs
  obtain ⟨hlwp, hput, hfree⟩ := h.tree.unborn s.next le_rfl
  have hsame : ∀ c, (Function.update s.lwp s.next (WaitSys.lwpNew pid) c) =
      if c = s.next then WaitSys.lwpNew pid else s.lwp c := fun c => Function.update_apply _ _ _ _
  -- the new process differs from an unborn one in its number only
  have hfield : ∀ {α : Type} (f : Lwp → α), f (WaitSys.lwpNew pid) = f (WaitSys.lwpNew 0) →
      ∀ c, f (Function.update s.lwp s.next (WaitSys.lwpNew pid) c) = f (s.lwp c) := by
    intro α f hf c
    rw [hsame]
    split_ifs with hc
    · rw [hc, hlwp, hf]
    · rfl
  refine ⟨⟨fun q c => ?_, fun p c => ?_, fun p => ?_, fun c => ?_, fun c hc => ?_, fun c => ?_, h.tree.delivered⟩,
    ?_, ?_⟩
  · dsimp only
    rw [hsame]
    by_cases hq : q = pid
    · subst hq
      rw [Function.update_self, Option.some.injEq]
      constructor
      · rintro rfl
        exact ⟨Nat.lt_succ_self _, hput, by simp [WaitSys.lwpNew]⟩
      · rintro ⟨hc, hp, hpid⟩
        by_contra hne
        rw [if_neg (Ne.symm hne)] at hpid
        have := (h.tree.table q c).mpr ⟨by omega, hp, hpid⟩
        simp [hnone] at this
    · rw [Function.update_of_ne hq, h.tree.table]
      by_cases hc : c = s.next
      · subst hc
        simp [WaitSys.lwpNew, Ne.symm hq]
      · rw [if_neg hc]
        have : c < s.next + 1 ↔ c < s.next := by omega
        rw [this]
  · dsimp only
    rw [hfield Lwp.children rfl, hfield Lwp.parent rfl]
    exact h.tree.child p c
  · dsimp only
    rw [hfield Lwp.children rfl]
    exact h.tree.nodup p
  · dsimp only
    rw [hfield Lwp.parent rfl]
    exact h.tree.irrefl c
  · dsimp only at hc ⊢
    rw [hsame, if_neg (by omega)]
    exact h.tree.unborn c (by omega)
  · have hok := h.tree.stage c
    unfold StageOk at hok ⊢
    dsimp only
    rw [hfield Lwp.stage rfl, hfield Lwp.finish rfl, hfield Lwp.children rfl, hfield Lwp.parent rfl]
    simp only [hfield Lwp.stage rfl, hfield Lwp.parent rfl]
    exact hok
  · refine h.threads.congr rfl (fun c => ?_) (hfield Lwp.ref rfl)
    dsimp only
    rw [hfield Lwp.stage rfl]
    exact ⟨Iff.rfl, id⟩
  · refine h.waiters.congr rfl (fun t c q hw => ⟨rfl, ?_⟩) (hfield Lwp.waitList rfl)
    have hc : c ≠ s.next := by
      rintro rfl
      refine h.not_awaited (fun p hp => ?_) hw
      simp [hlwp, WaitSys.lwpNew] at hp
    refine ⟨?_, ?_, ?_, ?_, ?_, rfl⟩ <;> simp [hc]

theorem Inv.link (h : s.Inv) (hs : s.step (.link t c) = some s') : s'.Inv := by
  simp only [step] at hs
  split at hs
  · rename_i p htp
    simp only [Option.ite_none_right_eq_some, Option.some.injEq] at hs
    obtain ⟨⟨-, hborn, hfresh, hnone⟩, rfl⟩ := hs
    have hrun := h.threads.live t p htp
    have hpc : p ≠ c := by
      rintro rfl
      simp [hrun] at hfresh
    have hok := h.tree.stage c
    rw [StageOk, hfresh] at hok
    have hout : ∀ q, c ∉ (s.lwp q).children := by
      intro q hq
      simp [h.tree.child, hnone] at hq
    set s₁ := (s.setLwp p fun l => { l with children := c :: l.children }).setLwp c fun l => { l with parent := some p }
    have hp : s₁.lwp p = { s.lwp p with children := c :: (s.lwp p).children } := by simp [s₁, hpc]
    have hc : s₁.lwp c = { s.lwp c with parent := some p } := by simp [s₁, Ne.symm hpc]
    have hx : ∀ x, x ≠ p → x ≠ c → s₁.lwp x = s.lwp x := fun x h1 h2 => by simp [s₁, h1, h2]
    have hfield : ∀ {α : Type} (f : Lwp → α), (∀ l cs, f { l with children := cs } = f l) →
        (∀ l q, f { l with parent := q } = f l) → ∀ x, f (s₁.lwp x) = f (s.lwp x) := by
      intro α f h1 h2 x
      by_cases hxp : x = p
      · rw [hxp, hp, h1]
      · by_cases hxc : x = c
        · rw [hxc, hc, h2]
        · rw [hx x hxp hxc]
    have hpid := hfield Lwp.pid (fun _ _ => rfl) fun _ _ => rfl
    have hstage := hfield Lwp.stage (fun _ _ => rfl) fun _ _ => rfl
    have hfin := hfield Lwp.finish (fun _ _ => rfl) fun _ _ => rfl
    have hpar : ∀ x, x ≠ c → (s₁.lwp x).parent = (s.lwp x).parent := by
      intro x hxc
      by_cases hxp : x = p
      · rw [hxp, hp]
      · rw [hx x hxp hxc]
    have hch : ∀ x, x ≠ p → (s₁.lwp x).children = (s.lwp x).children := by
      intro x hxp
      by_cases hxc : x = c
      · rw [hxc, hc]
      · rw [hx x hxp hxc]
    refine ⟨⟨fun q x => ?_, fun q x => ?_, fun q => ?_, fun x => ?_, fun x hn => ?_, fun x => ?_, h.tree.delivered⟩,
      ?_, ?_⟩
    · rw [hpid]
      exact h.tree.table q x
    · by_cases hxc : x = c
      · subst hxc
        rw [hc]
        by_cases hq : q = p
        · subst hq
          rw [hp]
          simp only [List.mem_cons, true_or, true_and, true_iff]
          exact hok.2.1
        · rw [hch q hq]
          simp [hout, Ne.symm hq]
      · rw [hpar x hxc]
        by_cases hq : q = p
        · subst hq
          rw [hp]
          simp only [List.mem_cons, hxc, false_or]
          exact h.tree.child q x
        · rw [hch q hq]
          exact h.tree.child q x
    · by_cases hq : q = p
      · subst hq
        rw [hp]
        exact List.nodup_cons.mpr ⟨hout q, h.tree.nodup q⟩
      · rw [hch q hq]
        exact h.tree.nodup q
    · by_cases hxc : x = c
      · subst hxc
        simpa [hc] using hpc
      · rw [hpar x hxc]
        exact h.tree.irrefl x
    · have h1 : x ≠ p := by
        rintro rfl
        exact absurd (h.tree.born (.inl (by simp [hrun]))) (not_lt.mpr hn)
      have h2 : x ≠ c := by
        rintro rfl
        exact absurd hborn (not_lt.mpr hn)
      rw [hx x h1 h2]
      exact h.tree.unborn x hn
    · by_cases hxp : x = p
      · subst hxp
        have hokp := h.tree.stage x
        rw [StageOk, hrun] at hokp
        refine stageOk_early (by simp [hstage, hrun]) ?_
        rw [hfin]
        exact hokp
      · by_cases hxc : x = c
        · subst hxc
          refine stageOk_early (by simp [hstage, hfresh]) ?_
          rw [hfin]
          exact hok
        · refine (h.tree.stage x).frame ⟨hstage x, hfin x, hpar x hxc, hch x hxp, rfl, rfl⟩ (fun d _ hd => ?_)
            fun q hq => (hstage q).trans hq
          have hdp : d ≠ p := by
            rintro rfl
            simp [hrun] at hd
          have hdc : d ≠ c := by
            rintro rfl
            simp [hfresh] at hd
          exact ⟨hstage d, hfin d, hpar d hdc, hch d hdp, rfl, rfl⟩
    · exact h.threads.congr rfl (fun x => by rw [hstage]; exact ⟨Iff.rfl, id⟩)
        (hfield Lwp.ref (fun _ _ => rfl) fun _ _ => rfl)
    · refine h.waiters.congr rfl (fun u x q hw => ⟨rfl, ?_⟩) (hfield Lwp.waitList (fun _ _ => rfl) fun _ _ => rfl)
      have hxc : x ≠ c := by
        rintro rfl
        exact h.not_awaited (by simp [hnone]) hw
      exact ⟨hpid x, hpar x hxc, hfield Lwp.waitInProgress (fun _ _ => rfl) (fun _ _ => rfl) x,
        hfield Lwp.waitList (fun _ _ => rfl) (fun _ _ => rfl) x, hfin x, rfl⟩
  · simp at hs

/-- A process moves between the stages before `lwp_free` looks at its children. -/
theorem Tree.restage (h : s.Tree) (hs : SameTree s s')
    (hc : (s.lwp c).stage ∈ [LwpStage.fresh, .running, .cleanup])
    (hc' : (s'.lwp c).stage ∈ [LwpStage.fresh, .running, .cleanup])
    (hx : ∀ x, x ≠ c → (s'.lwp x).stage = (s.lwp x).stage) : s'.Tree := by
  have hnot : ∀ x, (s.lwp x).stage = .exited ∨ (∃ d, (s.lwp x).stage = .freeing d) → x ≠ c := by
    rintro x hstage rfl
    simp only [List.mem_cons, List.not_mem_nil, or_false] at hc
    obtain he | he | he := hc <;> simp [he] at hstage
  have hsame : ∀ x, x ≠ c → SameStage s s' x :=
    fun x hxc => ⟨hx x hxc, hs.finish x, hs.parent x, hs.children x, by rw [hs.pidPut], by rw [hs.freed]⟩
  refine h.congr hs fun x => ?_
  by_cases hxc : x = c
  · subst hxc
    refine stageOk_early hc' ?_
    have hok := h.stage x
    have hfin : (s.lwp x).finish = false := by
      unfold StageOk at hok
      simp only [List.mem_cons, List.not_mem_nil, or_false] at hc
      obtain he | he | he := hc <;> (rw [he] at hok; exact hok.1)
    rw [hs.finish, hs.pidPut, hs.freed]
    exact ⟨hfin, hok.early hfin⟩
  · refine (h.stage x).frame (hsame x hxc) (fun d _ hd => hsame d (hnot d (.inl hd))) fun q hq => ?_
    rw [hx q (hnot q (.inr ⟨x, hq⟩)), hq]

theorem sameTree_setLwp (f : Lwp → Lwp) (hc : c < s.next) (hpid : (f (s.lwp c)).pid = (s.lwp c).pid)
    (hpar : (f (s.lwp c)).parent = (s.lwp c).parent) (hch : (f (s.lwp c)).children = (s.lwp c).children)
    (hfin : (f (s.lwp c)).finish = (s.lwp c).finish) : SameTree s (s.setLwp c f) := by
  refine ⟨rfl, rfl, rfl, rfl, rfl, fun x hx => ?_, fun x => ?_, fun x => ?_, fun x => ?_, fun x => ?_⟩
  · exact setLwp_lwp_of_ne f (by omega)
  all_goals
    by_cases hxc : x = c
    · subst hxc
      simp only [setLwp_lwp_self, hpid, hpar, hch, hfin]
    · simp only [setLwp_lwp_of_ne f hxc]

theorem Waiters.threads (h : s.Waiters) (hp : s'.pc = s.pc) (ht : ∀ t, s.pc t ≠ .idle → s'.thread t = s.thread t)
    (hw : ∀ c, SameWait s s' c) : s'.Waiters := by
  refine h.congr hp (fun t c pid hw' => ⟨ht t ?_, hw c⟩) fun c => (hw c).waitList
  intro hi
  simp [hi, WaitPc.awaits] at hw'

theorem sameWait_setLwp (f : Lwp → Lwp) (hpid : (f (s.lwp c)).pid = (s.lwp c).pid)
    (hpar : (f (s.lwp c)).parent = (s.lwp c).parent)
    (hprog : (f (s.lwp c)).waitInProgress = (s.lwp c).waitInProgress)
    (hlist : (f (s.lwp c)).waitList = (s.lwp c).waitList) (hfin : (f (s.lwp c)).finish = (s.lwp c).finish) (x : ℕ) :
    SameWait s (s.setLwp c f) x := by
  by_cases hxc : x = c
  · subst hxc
    exact ⟨by simp [hpid], by simp [hpar], by simp [hprog], by simp [hlist], by simp [hfin], rfl⟩
  · exact ⟨by simp [hxc], by simp [hxc], by simp [hxc], by simp [hxc], by simp [hxc], rfl⟩

theorem SameTree.thread (h : SameTree s s') (f : Tid → Option ℕ) : SameTree s { s' with thread := f } :=
  ⟨h.next, h.pidTable, h.pidPut, h.freed, h.delivered, h.unborn, h.pid, h.parent, h.children, h.finish⟩

theorem SameWait.thread (h : SameWait s s' c) (f : Tid → Option ℕ) : SameWait s { s' with thread := f } c :=
  ⟨h.pid, h.parent, h.waitInProgress, h.waitList, h.finish, h.pidPut⟩

theorem Inv.start (h : s.Inv) {u : Tid} (hs : s.step (.start c u) = some s') : s'.Inv := by
  simp only [step, Option.ite_none_right_eq_some, Option.some.injEq] at hs
  obtain ⟨⟨hc, hfresh, hu, hidle⟩, rfl⟩ := hs
  have hno : ∀ t, s.thread t ≠ some c := by
    intro t ht
    simp [h.threads.live t c ht] at hfresh
  have htree := sameTree_setLwp (s := s) (c := c) (fun l => { l with stage := .running }) hc rfl rfl rfl rfl
  have hstage : ∀ x, x ≠ c → ((s.setLwp c fun l => { l with stage := .running }).lwp x) = s.lwp x :=
    fun x hx => setLwp_lwp_of_ne _ hx
  refine ⟨?_, ⟨fun t p htp => ?_, fun p hp => ?_, fun p hp => ?_⟩, ?_⟩
  · exact h.tree.restage (c := c) (htree.thread _) (by simp [hfresh]) (by simp) fun x hx => by simp [hx]
  · by_cases htu : t = u
    · subst htu
      obtain rfl : c = p := by simpa using htp
      simp
    · have htp' : s.thread t = some p := by simpa [htu] using htp
      have hpc : p ≠ c := by
        rintro rfl
        exact hno t htp'
      simp only [hstage p hpc]
      exact h.threads.live t p htp'
  · by_cases hpc : p = c
    · subst hpc
      have hset : {t | Function.update s.thread u (some p) t = some p} = {u} := by
        ext t
        by_cases htu : t = u
        · simp [htu]
        · simp [htu, hno]
      simp only [hset, Set.encard_singleton, setLwp_lwp_self, h.threads.fresh p hfresh]
      rfl
    · have hset : {t | Function.update s.thread u (some c) t = some p} = {t | s.thread t = some p} := by
        ext t
        by_cases htu : t = u
        · simp [htu, hu, Ne.symm hpc]
        · simp [htu]
      simp only [hset, hstage p hpc] at hp ⊢
      exact h.threads.ref p hp
  · have hpc : p ≠ c := by
      rintro rfl
      simp at hp
    simp only [hstage p hpc] at hp ⊢
    exact h.threads.fresh p hp
  · refine h.waiters.threads rfl (fun t ht => ?_) fun x => ?_
    · refine Function.update_of_ne ?_ _ _
      rintro rfl
      exact ht hidle
    · exact (sameWait_setLwp (s := s) (c := c) (fun l => { l with stage := .running }) rfl rfl rfl rfl rfl x).thread _

theorem Inv.spawn (h : s.Inv) {u : Tid} (hs : s.step (.spawn t u) = some s') : s'.Inv := by
  simp only [step] at hs
  split at hs
  · rename_i p htp
    simp only [Option.ite_none_right_eq_some, Option.some.injEq] at hs
    obtain ⟨⟨hu, hidle⟩, rfl⟩ := hs
    have hrun := h.threads.live t p htp
    have hp : p < s.next := h.tree.born (.inl (by simp [hrun]))
    have htree := sameTree_setLwp (s := s) (c := p) (fun l => { l with ref := l.ref + 1 }) hp rfl rfl rfl rfl
    have hst : ∀ x, ((s.setLwp p fun l => { l with ref := l.ref + 1 }).lwp x).stage = (s.lwp x).stage := by
      intro x
      by_cases hx : x = p
      · simp [hx]
      · simp [hx]
    refine ⟨?_, ⟨fun t' q ht' => ?_, fun q hq => ?_, fun q hq => ?_⟩, ?_⟩
    · refine h.tree.restage (c := p) (htree.thread _) (by simp [hrun]) ?_ fun x _ => hst x
      dsimp only
      rw [hst, hrun]
      simp
    · dsimp only
      rw [hst]
      by_cases htu : t' = u
      · subst htu
        obtain rfl : p = q := by simpa using ht'
        exact hrun
      · exact h.threads.live t' q (by simpa [htu] using ht')
    · dsimp only at hq ⊢
      rw [hst] at hq
      by_cases hqp : q = p
      · subst hqp
        have hset : {t' | Function.update s.thread u (some q) t' = some q} = insert u {t' | s.thread t' = some q} := by
          ext t'
          by_cases htu : t' = u
          · simp [htu]
          · simp [htu]
        rw [hset, Set.encard_insert_of_notMem (by simp [hu]), h.threads.ref q hq, setLwp_lwp_self]
        push_cast
        rfl
      · have hset : {t' | Function.update s.thread u (some p) t' = some q} = {t' | s.thread t' = some q} := by
          ext t'
          by_cases htu : t' = u
          · simp [htu, hu, Ne.symm hqp]
          · simp [htu]
        rw [hset, setLwp_lwp_of_ne _ hqp]
        exact h.threads.ref q hq
    · dsimp only at hq ⊢
      rw [hst] at hq
      have hqp : q ≠ p := by
        rintro rfl
        simp [hrun] at hq
      rw [setLwp_lwp_of_ne _ hqp]
      exact h.threads.fresh q hq
    · refine h.waiters.threads rfl (fun t' ht' => ?_) fun x => ?_
      · refine Function.update_of_ne ?_ _ _
        rintro rfl
        exact ht' hidle
      · exact (sameWait_setLwp (s := s) (c := p) (fun l => { l with ref := l.ref + 1 }) rfl rfl rfl rfl rfl x).thread _
  · simp at hs

theorem Inv.abandon (h : s.Inv) (hs : s.step (.abandon c) = some s') : s'.Inv := by
  simp only [step, Option.ite_none_right_eq_some, Option.some.injEq] at hs
  obtain ⟨⟨hc, hfresh⟩, rfl⟩ := hs
  have hst : ∀ x, x ≠ c →
      (s.setLwp c fun l => { l with ref := l.ref - 1, stage := .cleanup }).lwp x = s.lwp x :=
    fun x hx => setLwp_lwp_of_ne _ hx
  refine ⟨?_, ⟨fun t p htp => ?_, fun p hp => ?_, fun p hp => ?_⟩, ?_⟩
  · exact h.tree.restage (c := c) (sameTree_setLwp _ hc rfl rfl rfl rfl) (by simp [hfresh]) (by simp)
      fun x hx => by simp [hx]
  · have hrun := h.threads.live t p htp
    have hpc : p ≠ c := by
      rintro rfl
      simp [hfresh] at hrun
    rw [hst p hpc]
    exact hrun
  · have hpc : p ≠ c := by
      rintro rfl
      simp at hp
    rw [hst p hpc] at hp ⊢
    exact h.threads.ref p hp
  · have hpc : p ≠ c := by
      rintro rfl
      simp at hp
    rw [hst p hpc] at hp ⊢
    exact h.threads.fresh p hp
  · exact h.waiters.threads rfl (fun _ _ => rfl) (sameWait_setLwp _ rfl rfl rfl rfl rfl)

theorem Inv.exitThread (h : s.Inv) (hs : s.step (.exitThread t) = some s') : s'.Inv := by
  simp only [step] at hs
  split at hs
  · rename_i p htp
    simp only [Option.ite_none_right_eq_some, Option.some.injEq] at hs
    obtain ⟨hidle, rfl⟩ := hs
    have hrun := h.threads.live t p htp
    have hp : p < s.next := h.tree.born (.inl (by simp [hrun]))
    set f : Lwp → Lwp := fun l =>
      { l with ref := l.ref - 1, stage := if l.ref - 1 = 0 then .cleanup else l.stage } with hf
    have htree : SameTree s (s.setLwp p f) := sameTree_setLwp f hp rfl rfl rfl rfl
    have hother : ∀ x, x ≠ p → (s.setLwp p f).lwp x = s.lwp x := fun x hx => setLwp_lwp_of_ne f hx
    have hset : ∀ q, {t' | Function.update s.thread t none t' = some q} = {t' | s.thread t' = some q} \ {t} := by
      intro q
      ext t'
      by_cases htt : t' = t
      · simp [htt]
      · simp [htt]
    -- the count of the remaining threads
    have hcount : {t' | Function.update s.thread t none t' = some p}.encard = ((s.lwp p).ref - 1 : ℕ) := by
      have hone := Set.encard_sdiff_singleton_add_one (s := {t' | s.thread t' = some p}) (a := t) htp
      rw [h.threads.ref p hrun] at hone
      rw [hset]
      generalize ({t' | s.thread t' = some p} \ {t}).encard = n at hone ⊢
      generalize (s.lwp p).ref = r at hone ⊢
      induction n using ENat.recTopCoe with
      | top => simp at hone
      | coe n =>
        norm_cast at hone ⊢
        omega
    have hstage : ((s.setLwp p f).lwp p).stage = if (s.lwp p).ref - 1 = 0 then .cleanup else .running := by
      simp [hf, hrun]
    refine ⟨?_, ⟨fun t' q ht' => ?_, fun q hq => ?_, fun q hq => ?_⟩, ?_⟩
    · refine h.tree.restage (c := p) (htree.thread _) (by simp [hrun]) ?_ fun x hx => by simp [hx]
      dsimp only
      rw [hstage]
      split_ifs <;> simp
    · dsimp only at ht' ⊢
      by_cases hqp : q = p
      · subst hqp
        rw [hstage, if_neg]
        intro hzero
        rw [hzero] at hcount
        have hempty := Set.encard_eq_zero.mp hcount
        rw [Set.eq_empty_iff_forall_notMem] at hempty
        exact hempty t' ht'
      · rw [hother q hqp]
        refine h.threads.live t' q ?_
        by_cases htt : t' = t
        · simp [htt] at ht'
        · simpa [htt] using ht'
    · dsimp only at hq ⊢
      by_cases hqp : q = p
      · subst hqp
        rw [hcount, setLwp_lwp_self]
      · rw [hother q hqp] at hq ⊢
        rw [hset, Set.sdiff_singleton_eq_self (by simp [htp, Ne.symm hqp])]
        exact h.threads.ref q hq
    · dsimp only at hq ⊢
      have hqp : q ≠ p := by
        rintro rfl
        rw [hstage] at hq
        split_ifs at hq
      rw [hother q hqp] at hq ⊢
      exact h.threads.fresh q hq
    · refine h.waiters.threads rfl (fun t' ht' => ?_) fun x => ?_
      · refine Function.update_of_ne ?_ _ _
        rintro rfl
        exact ht' hidle
      · exact (sameWait_setLwp (s := s) (c := p) f rfl rfl rfl rfl rfl x).thread _
  · simp at hs

theorem Tree.table_put (h : s.Tree) (hc : c < s.next) (hp : s.pidPut c = 0) (q : ℤ) (x : ℕ) :
    (s.lwpPidPut c).pidTable q = some x ↔ x < s.next ∧ (s.lwpPidPut c).pidPut x = 0 ∧ (s.lwp x).pid = q := by
  have hself := (h.table (s.lwp c).pid c).mpr ⟨hc, hp, rfl⟩
  have htab : (s.lwpPidPut c).pidTable = Function.update s.pidTable (s.lwp c).pid none := rfl
  rw [htab]
  by_cases hq : q = (s.lwp c).pid
  · subst hq
    simp only [Function.update_self, reduceCtorEq, false_iff, not_and]
    intro hx hpx hpid
    have hxc : x ≠ c := by
      rintro rfl
      simp at hpx
    rw [lwpPidPut_of_ne hxc] at hpx
    have := (h.table (s.lwp c).pid x).mpr ⟨hx, hpx, hpid⟩
    exact hxc (Option.some.inj (this.symm.trans hself))
  · rw [Function.update_of_ne hq, h.table]
    by_cases hxc : x = c
    · subst hxc
      simp [Ne.symm hq]
    · rw [lwpPidPut_of_ne hxc]

theorem Tree.child_put (h : s.Tree) (hc : c ∈ (s.lwp p).children) {cs : List ℕ}
    (hcs : ∀ x, x ∈ cs ↔ x ∈ (s.lwp p).children ∧ x ≠ c) (q x : ℕ) :
    x ∈ (if q = p then cs else (s.lwp q).children) ↔ (s.lwp x).parent = some q ∧ (s.lwpPidPut c).pidPut x = 0 := by
  have hpar := ((h.child p c).mp hc).1
  by_cases hxc : x = c
  · subst hxc
    simp only [lwpPidPut_self, Nat.add_eq_zero_iff, one_ne_zero, and_false, iff_false]
    split_ifs with hq
    · simp [hcs]
    · rw [h.child, hpar]
      simp [Ne.symm hq]
  · rw [lwpPidPut_of_ne hxc, ← h.child]
    split_ifs with hq
    · subst hq
      simp [hcs, hxc]
    · rfl

section children

variable {cs : List ℕ}

theorem mem_tail_iff (h : s.Tree) (hch : (s.lwp p).children = c :: cs) (x : ℕ) :
    x ∈ cs ↔ x ∈ (s.lwp p).children ∧ x ≠ c := by
  have hnd := h.nodup p
  rw [hch, List.nodup_cons] at hnd
  rw [hch, List.mem_cons]
  constructor
  · intro hx
    refine ⟨.inr hx, ?_⟩
    rintro rfl
    exact hnd.1 hx
  · rintro ⟨hx | hx, hne⟩
    · exact absurd hx hne
    · exact hx

theorem Inv.orphans_unawaited (h : s.Inv) (hcl : (s.lwp p).stage = .cleanup) (hpar : (s.lwp c).parent = some p) :
    (s.pc t).awaits ≠ some (c, pid) := by
  refine h.not_awaited fun p' hp' => ?_
  rw [hpar, Option.some.injEq] at hp'
  simp [← hp', hcl]

theorem Inv.reclaim (h : s.Inv) (hcl : (s.lwp p).stage = .cleanup) (hch : (s.lwp p).children = c :: cs)
    (hfin : (s.lwp c).finish = true) :
    (((s.setLwp p fun l => { l with children := cs }).lwpPidPut c).setLwp p fun l =>
      { l with stage := .freeing c }).Inv := by
  have hmem : c ∈ (s.lwp p).children := by simp [hch]
  obtain ⟨hpar, hput⟩ := (h.tree.child p c).mp hmem
  have hcp : c ≠ p := by
    rintro rfl
    exact h.tree.irrefl c hpar
  have hpn : p < s.next := h.tree.born (.inl (by simp [hcl]))
  have hcn : c < s.next := h.tree.born (.inr (by simp [hpar]))
  obtain ⟨hex, hnil, hfr⟩ := (h.tree.stage c).zombie hfin hput
  have hokp := h.tree.stage p
  rw [StageOk, hcl] at hokp
  set s₁ := ((s.setLwp p fun l => { l with children := cs }).lwpPidPut c).setLwp p fun l =>
    { l with stage := .freeing c }
  have hp : s₁.lwp p = { s.lwp p with children := cs, stage := .freeing c } := by simp [s₁]
  have hx : ∀ x, x ≠ p → s₁.lwp x = s.lwp x := fun x hxp => by simp [s₁, hxp]
  have hput₁ : s₁.pidPut = (s.lwpPidPut c).pidPut := rfl
  have htab₁ : s₁.pidTable = (s.lwpPidPut c).pidTable := by simp [s₁, lwpPidPut, hcp]
  have hchildren : ∀ q, (s₁.lwp q).children = if q = p then cs else (s.lwp q).children := by
    intro q
    split_ifs with hq
    · rw [hq, hp]
    · rw [hx q hq]
  have hfield : ∀ {α : Type} (f : Lwp → α), (∀ l cs st, f { l with children := cs, stage := st } = f l) →
      ∀ x, f (s₁.lwp x) = f (s.lwp x) := by
    intro α f hf x
    by_cases hxp : x = p
    · rw [hxp, hp, hf]
    · rw [hx x hxp]
  have hparent := hfield Lwp.parent fun _ _ _ => rfl
  have hsame : ∀ x, x ≠ p → x ≠ c → SameStage s s₁ x := by
    intro x hxp hxc
    have hput : s₁.pidPut x = s.pidPut x := by rw [hput₁, lwpPidPut_of_ne hxc]
    exact ⟨by rw [hx x hxp], by rw [hx x hxp], by rw [hx x hxp], by rw [hx x hxp], hput, rfl⟩
  refine ⟨⟨fun q x => ?_, fun q x => ?_, fun q => ?_, fun x => ?_, fun x hn => ?_, fun x => ?_, h.tree.delivered⟩,
    ?_, ?_⟩
  · rw [htab₁, hput₁, hfield Lwp.pid fun _ _ _ => rfl]
    exact h.tree.table_put hcn hput q x
  · rw [hchildren, hparent, hput₁]
    exact h.tree.child_put hmem (mem_tail_iff h.tree hch) q x
  · rw [hchildren]
    split_ifs
    · have hnd := h.tree.nodup p
      rw [hch, List.nodup_cons] at hnd
      exact hnd.2
    · exact h.tree.nodup q
  · rw [hparent]
    exact h.tree.irrefl x
  · have hn' : s.next ≤ x := hn
    rw [hx x (by omega), hput₁, lwpPidPut_of_ne (by omega)]
    exact h.tree.unborn x hn
  · by_cases hxp : x = p
    · subst hxp
      refine stageOk_freeing (d := c) (by rw [hp]) ?_ ?_
      · rw [hp, hput₁, lwpPidPut_of_ne (Ne.symm hcp)]
        exact hokp
      · rw [hx c hcp, hput₁, lwpPidPut_self, hput]
        exact ⟨hex, rfl, hfr, hpar⟩
    · by_cases hxc : x = c
      · subst hxc
        refine stageOk_exited (by rw [hx x hxp, hex]) (by rw [hx x hxp]; exact ⟨hfin, hnil⟩) (.inr (.inr ?_))
        rw [hput₁, lwpPidPut_self, hput]
        exact ⟨rfl, hfr, p, by rw [hp]⟩
      · refine (h.tree.stage x).frame (hsame x hxp hxc) (fun d hd hde => ?_) fun q hq => ?_
        · have hokx := h.tree.stage x
          rw [StageOk, hd] at hokx
          refine hsame d ?_ ?_
          · rintro rfl
            simp [hcl] at hde
          · rintro rfl
            simp [hput] at hokx
        · have hqp : q ≠ p := by
            rintro rfl
            simp [hcl] at hq
          rw [hx q hqp, hq]
  · refine h.threads.congr rfl (fun x => ?_) (hfield Lwp.ref fun _ _ _ => rfl)
    by_cases hxp : x = p
    · rw [hxp, hp, hcl]
      simp
    · rw [hx x hxp]
      exact ⟨Iff.rfl, id⟩
  · refine h.waiters.congr rfl (fun u x q hw => ⟨rfl, ?_⟩) (hfield Lwp.waitList fun _ _ _ => rfl)
    have hxc : x ≠ c := by
      rintro rfl
      exact h.orphans_unawaited hcl hpar hw
    exact ⟨hfield Lwp.pid (fun _ _ _ => rfl) x, hparent x, hfield Lwp.waitInProgress (fun _ _ _ => rfl) x,
      hfield Lwp.waitList (fun _ _ _ => rfl) x, hfield Lwp.finish (fun _ _ _ => rfl) x,
      by rw [hput₁, lwpPidPut_of_ne hxc]⟩

theorem Inv.orphan (h : s.Inv) (hcl : (s.lwp p).stage = .cleanup) (hch : (s.lwp p).children = c :: cs)
    (hfin : (s.lwp c).finish = false) :
    ((s.setLwp p fun l => { l with children := cs }).setLwp c fun l => { l with parent := none }).Inv := by
  have hmem : c ∈ (s.lwp p).children := by simp [hch]
  obtain ⟨hpar, hput⟩ := (h.tree.child p c).mp hmem
  have hcp : c ≠ p := by
    rintro rfl
    exact h.tree.irrefl c hpar
  have hpn : p < s.next := h.tree.born (.inl (by simp [hcl]))
  have hcn : c < s.next := h.tree.born (.inr (by simp [hpar]))
  set s₁ := (s.setLwp p fun l => { l with children := cs }).setLwp c fun l => { l with parent := none }
  have hp : s₁.lwp p = { s.lwp p with children := cs } := by simp [s₁, Ne.symm hcp]
  have hc : s₁.lwp c = { s.lwp c with parent := none } := by simp [s₁, hcp]
  have hx : ∀ x, x ≠ p → x ≠ c → s₁.lwp x = s.lwp x := fun x h1 h2 => by simp [s₁, h1, h2]
  have hfield : ∀ {α : Type} (f : Lwp → α), (∀ l cs, f { l with children := cs } = f l) →
      (∀ l q, f { l with parent := q } = f l) → ∀ x, f (s₁.lwp x) = f (s.lwp x) := by
    intro α f h1 h2 x
    by_cases hxp : x = p
    · rw [hxp, hp, h1]
    · by_cases hxc : x = c
      · rw [hxc, hc, h2]
      · rw [hx x hxp hxc]
  have hstage := hfield Lwp.stage (fun _ _ => rfl) fun _ _ => rfl
  have hfinish := hfield Lwp.finish (fun _ _ => rfl) fun _ _ => rfl
  have hpr : ∀ x, x ≠ c → (s₁.lwp x).parent = (s.lwp x).parent := by
    intro x hxc
    by_cases hxp : x = p
    · rw [hxp, hp]
    · rw [hx x hxp hxc]
  have hchildren : ∀ q, (s₁.lwp q).children = if q = p then cs else (s.lwp q).children := by
    intro q
    split_ifs with hq
    · rw [hq, hp]
    · by_cases hqc : q = c
      · rw [hqc, hc]
      · rw [hx q hq hqc]
  refine ⟨⟨fun q x => ?_, fun q x => ?_, fun q => ?_, fun x => ?_, fun x hn => ?_, fun x => ?_, h.tree.delivered⟩,
    ?_, ?_⟩
  · rw [hfield Lwp.pid (fun _ _ => rfl) fun _ _ => rfl]
    exact h.tree.table q x
  · rw [hchildren]
    by_cases hxc : x = c
    · subst hxc
      rw [hc]
      simp only [reduceCtorEq, false_and, iff_false]
      split_ifs with hq
      · simp [mem_tail_iff h.tree hch]
      · rw [h.tree.child, hpar]
        simp [Ne.symm hq]
    · rw [hpr x hxc]
      refine Iff.trans ?_ (h.tree.child q x)
      split_ifs with hq
      · subst hq
        simp [mem_tail_iff h.tree hch, hxc]
      · rfl
  · rw [hchildren]
    split_ifs
    · have hnd := h.tree.nodup p
      rw [hch, List.nodup_cons] at hnd
      exact hnd.2
    · exact h.tree.nodup q
  · by_cases hxc : x = c
    · rw [hxc, hc]
      simp
    · rw [hpr x hxc]
      exact h.tree.irrefl x
  · have hn' : s.next ≤ x := hn
    rw [hx x (by omega) (by omega)]
    exact h.tree.unborn x hn
  · by_cases hxp : x = p
    · subst hxp
      have hokp := h.tree.stage x
      rw [StageOk, hcl] at hokp
      refine stageOk_early (by simp [hstage, hcl]) ?_
      rw [hfinish]
      exact hokp
    · have hne : ∀ d, (s.lwp d).stage = .exited → d ≠ p ∧ d ≠ c := by
        intro d hd
        have hokd := h.tree.stage d
        rw [StageOk, hd] at hokd
        constructor
        · rintro rfl
          simp [hcl] at hd
        · rintro rfl
          simp [hfin] at hokd
      have hsame : ∀ d, d ≠ p → d ≠ c → SameStage s s₁ d :=
        fun d h1 h2 => ⟨hstage d, hfinish d, hpr d h2, by rw [hchildren, if_neg h1], rfl, rfl⟩
      by_cases hxc : x = c
      · -- an unfinished process does not look at its parent
        subst hxc
        have hokx := h.tree.stage x
        obtain ⟨h1, h2⟩ := hokx.early hfin
        cases hsx : (s.lwp x).stage with
        | freeing d =>
          rw [StageOk, hsx] at hokx
          obtain ⟨-, -, -, hd⟩ := hokx
          have hsd := hsame d (hne d hd.1).1 (hne d hd.1).2
          refine stageOk_freeing (d := d) (by rw [hstage, hsx]) ⟨by rw [hfinish, hfin], h1, h2⟩ ?_
          rw [hsd.stage, hsd.pidPut, hsd.freed, hsd.parent]
          exact hd
        | freeingSelf =>
          rw [StageOk, hsx] at hokx
          simp [hfin] at hokx
        | exited =>
          rw [StageOk, hsx] at hokx
          simp [hfin] at hokx
        | _ => exact stageOk_early (by simp [hstage, hsx]) ⟨by rw [hfinish, hfin], h1, h2⟩
      · exact (h.tree.stage x).frame (hsame x hxp hxc) (fun d _ hd => hsame d (hne d hd).1 (hne d hd).2)
          fun q hq => (hstage q).trans hq
  · exact h.threads.congr rfl (fun x => by rw [hstage]; exact ⟨Iff.rfl, id⟩)
      (hfield Lwp.ref (fun _ _ => rfl) fun _ _ => rfl)
  · refine h.waiters.congr rfl (fun u x q hw => ⟨rfl, ?_⟩) (hfield Lwp.waitList (fun _ _ => rfl) fun _ _ => rfl)
    have hxc : x ≠ c := by
      rintro rfl
      exact h.orphans_unawaited hcl hpar hw
    exact ⟨hfield Lwp.pid (fun _ _ => rfl) (fun _ _ => rfl) x, hpr x hxc,
      hfield Lwp.waitInProgress (fun _ _ => rfl) (fun _ _ => rfl) x,
      hfield Lwp.waitList (fun _ _ => rfl) (fun _ _ => rfl) x, hfinish x, rfl⟩

end children

theorem Inv.freeChild (h : s.Inv) (hs : s.step (.freeChild p) = some s') : s'.Inv := by
  simp only [step] at hs
  split at hs
  · rename_i c cs hcl hch
    obtain rfl := Option.some.inj hs
    have hcp : c ≠ p := by
      rintro rfl
      exact h.tree.irrefl c ((h.tree.child c c).mp (by simp [hch])).1
    unfold WaitSys.freeChild
    dsimp only
    rw [setLwp_lwp_of_ne _ hcp]
    split_ifs with hfin
    · exact h.reclaim hcl hch hfin
    · exact h.orphan hcl hch (by simpa using hfin)
  · simp at hs

/-- `rt_free` for the process `d` ends the stage in which `p` held it. -/
theorem Inv.free (h : s.Inv) {d : ℕ} {st : LwpStage} (hp : p < s.next) (hd : d < s.next)
    (hrun : (s.lwp p).stage ≠ .running ∧ st ≠ .running ∧ st ≠ .fresh)
    (hok : ((s.rtFree d).setLwp p fun l => { l with stage := st }).StageOk p)
    (hokd : ((s.rtFree d).setLwp p fun l => { l with stage := st }).StageOk d)
    (hother : ∀ x, x ≠ p → x ≠ d → ((s.rtFree d).setLwp p fun l => { l with stage := st }).StageOk x) :
    ((s.rtFree d).setLwp p fun l => { l with stage := st }).Inv := by
  set s₁ := (s.rtFree d).setLwp p fun l => { l with stage := st }
  have hfield : ∀ {α : Type} (f : Lwp → α), (∀ l st, f { l with stage := st } = f l) →
      ∀ x, f (s₁.lwp x) = f (s.lwp x) := by
    intro α f hf x
    by_cases hx : x = p
    · rw [hx]
      simp only [s₁, setLwp_lwp_self]
      exact hf _ _
    · simp only [s₁, setLwp_lwp_of_ne _ hx]
      rfl
  have hfreed : ∀ x, x ≠ d → s₁.freed x = s.freed x := fun x hx => Function.update_of_ne hx _ _
  refine ⟨⟨fun q x => ?_, fun q x => ?_, fun q => ?_, fun x => ?_, fun x hn => ?_, fun x => ?_, fun x => ?_⟩, ?_, ?_⟩
  · rw [hfield Lwp.pid fun _ _ => rfl]
    exact h.tree.table q x
  · rw [hfield Lwp.children fun _ _ => rfl, hfield Lwp.parent fun _ _ => rfl]
    exact h.tree.child q x
  · rw [hfield Lwp.children fun _ _ => rfl]
    exact h.tree.nodup q
  · rw [hfield Lwp.parent fun _ _ => rfl]
    exact h.tree.irrefl x
  · have hn' : s.next ≤ x := hn
    have hxp : x ≠ p := by omega
    rw [hfreed x (by omega)]
    simp only [s₁, setLwp_lwp_of_ne _ hxp]
    exact h.tree.unborn x hn
  · by_cases hxp : x = p
    · exact hxp ▸ hok
    · by_cases hxd : x = d
      · exact hxd ▸ hokd
      · exact hother x hxp hxd
  · have hle := h.tree.delivered x
    by_cases hxd : x = d
    · subst hxd
      have : s₁.freed x = s.freed x + 1 := Function.update_self _ _ _
      rw [this]
      exact hle.trans (Nat.le_succ _)
    · rw [hfreed x hxd]
      exact hle
  · refine h.threads.congr rfl (fun x => ?_) (hfield Lwp.ref fun _ _ => rfl)
    by_cases hxp : x = p
    · subst hxp
      simp [s₁, hrun]
    · simp only [s₁, setLwp_lwp_of_ne _ hxp]
      exact ⟨Iff.rfl, id⟩
  · refine h.waiters.congr rfl (fun u x q hw => ⟨rfl, ?_⟩) (hfield Lwp.waitList fun _ _ => rfl)
    exact ⟨hfield Lwp.pid (fun _ _ => rfl) x, hfield Lwp.parent (fun _ _ => rfl) x,
      hfield Lwp.waitInProgress (fun _ _ => rfl) x, hfield Lwp.waitList (fun _ _ => rfl) x,
      hfield Lwp.finish (fun _ _ => rfl) x, rfl⟩

theorem Inv.rtFree (h : s.Inv) (hs : s.step (.rtFree p) = some s') : s'.Inv := by
  simp only [step] at hs
  split at hs
  · rename_i c hst
    obtain rfl := Option.some.inj hs
    obtain ⟨hokp, hex, hput, hfr, hpar⟩ := (h.tree.stage p).freeing hst
    have hokc := (h.tree.stage c).exited hex
    have hcp : c ≠ p := by
      rintro rfl
      simp [hst] at hex
    refine h.free (h.tree.born (.inl (by simp [hst]))) (h.tree.born (.inl (by simp [hex]))) (by simp [hst]) ?_ ?_
      fun x hxp hxc => ?_
    · refine stageOk_early (by simp) ?_
      simp only [setLwp_lwp_self, setLwp_pidPut, setLwp_freed, WaitSys.rtFree, Function.update_of_ne (Ne.symm hcp)]
      exact hokp
    · refine stageOk_exited (by simpa [hcp] using hex) (by simpa [hcp] using ⟨hokc.1, hokc.2.1⟩) (.inl ?_)
      simp only [setLwp_pidPut, setLwp_freed, WaitSys.rtFree, Function.update_self, hfr, zero_add, and_true]
      exact hput
    · have hsame : ∀ d, d ≠ p → d ≠ c →
          SameStage s ((s.rtFree c).setLwp p fun l => { l with stage := .cleanup }) d := by
        intro d h1 h2
        refine ⟨?_, ?_, ?_, ?_, rfl, Function.update_of_ne h2 _ _⟩ <;> simp [h1, WaitSys.rtFree]
      refine (h.tree.stage x).frame (hsame x hxp hxc) (fun d hd hde => ?_) fun q hq => ?_
      · obtain ⟨-, -, -, -, hparx⟩ := (h.tree.stage x).freeing hd
        refine hsame d ?_ ?_
        · rintro rfl
          simp [hst] at hde
        · -- two parents cannot both be freeing the child
          rintro rfl
          rw [hpar, Option.some.injEq] at hparx
          exact hxp hparx.symm
      · have hqp : q ≠ p := by
          rintro rfl
          rw [hst] at hq
          exact hxc (LwpStage.freeing.inj hq).symm
        simpa [hqp, WaitSys.rtFree] using hq
  · rename_i hst
    obtain rfl := Option.some.inj hs
    have hokp := h.tree.stage p
    rw [StageOk, hst] at hokp
    obtain ⟨hfin, hnil, hput, hfr⟩ := hokp
    have hpn : p < s.next := h.tree.born (.inl (by simp [hst]))
    have hself : ((s.rtFree p).setLwp p fun l => { l with stage := .exited }).StageOk p := by
      refine stageOk_exited (by simp) (by simpa [WaitSys.rtFree] using ⟨hfin, hnil⟩) (.inl ?_)
      simp only [setLwp_pidPut, setLwp_freed, WaitSys.rtFree, Function.update_self, hfr, zero_add, and_true]
      exact hput
    refine h.free hpn hpn (by simp [hst]) hself hself fun x hxp _ => ?_
    have hsame : ∀ d, d ≠ p → SameStage s ((s.rtFree p).setLwp p fun l => { l with stage := .exited }) d := by
      intro d h1
      refine ⟨?_, ?_, ?_, ?_, rfl, Function.update_of_ne h1 _ _⟩ <;> simp [h1, WaitSys.rtFree]
    refine (h.tree.stage x).frame (hsame x hxp) (fun d _ hde => hsame d ?_) fun q hq => ?_
    · rintro rfl
      simp [hst] at hde
    · have hqp : q ≠ p := by
        rintro rfl
        simp [hst] at hq
      simpa [hqp, WaitSys.rtFree] using hq
  · simp at hs

theorem Waiters.change {q : WaitPc} (h : s.Waiters) (hpc : s'.pc = Function.update s.pc t q)
    (hth : s'.thread = s.thread) (hx : ∀ x, x ≠ c → SameWait s s' x)
    (hfrom : ∀ x pid, (s.pc t).awaits = some (x, pid) → x = c)
    (hto : ∀ x pid, q.awaits = some (x, pid) → x = c ∧ s'.WaiterOk t c pid)
    (honly : ∀ u pid, (s.pc u).awaits = some (c, pid) → u = t)
    (hq : ∀ u ∈ (s'.lwp c).waitList, u = t ∧ ∃ pid, q = .waiting c pid) : s'.Waiters := by
  have hself : s'.pc t = q := by rw [hpc, Function.update_self]
  have hother : ∀ u, u ≠ t → s'.pc u = s.pc u := fun u hu => by rw [hpc, Function.update_of_ne hu]
  refine ⟨fun u x pid hw => ?_, fun u v x pid pid' hu hv => ?_, fun x u hu => ?_⟩
  · by_cases hut : u = t
    · subst hut
      rw [hself] at hw
      obtain ⟨rfl, hok⟩ := hto x pid hw
      exact hok
    · rw [hother u hut] at hw
      have hxc : x ≠ c := by
        rintro rfl
        exact hut (honly u pid hw)
      exact (h.ok u x pid hw).congr (hx x hxc) (by rw [hth]) (hother u hut)
  · by_cases hut : u = t
    · subst hut
      rw [hself] at hu
      obtain ⟨rfl, -⟩ := hto x pid hu
      by_contra hne
      rw [hother v (Ne.symm hne)] at hv
      exact hne (honly v pid' hv).symm
    · rw [hother u hut] at hu
      by_cases hvt : v = t
      · subst hvt
        rw [hself] at hv
        obtain ⟨rfl, -⟩ := hto x pid' hv
        exact honly u pid hu
      · rw [hother v hvt] at hv
        exact h.unique u v x pid pid' hu hv
  · by_cases hxc : x = c
    · subst hxc
      obtain ⟨rfl, pid, hp⟩ := hq u hu
      exact ⟨pid, hself.trans hp⟩
    · rw [(hx x hxc).waitList] at hu
      obtain ⟨pid, hp⟩ := h.queue x u hu
      have hut : u ≠ t := by
        rintro rfl
        exact hxc (hfrom x pid (by simp [hp, WaitPc.awaits]))
      exact ⟨pid, (hother u hut).trans hp⟩

theorem Inv.publish_orphan (h : s.Inv) (hcl : (s.lwp p).stage = .cleanup) (hch : (s.lwp p).children = [])
    (hpar : (s.lwp p).parent = none) :
    (((s.setLwp p fun l => { l with finish := true }).lwpPidPut p).setLwp p fun l =>
      { l with stage := .freeingSelf }).Inv := by
  have hpn : p < s.next := h.tree.born (.inl (by simp [hcl]))
  have hokp := h.tree.stage p
  rw [StageOk, hcl] at hokp
  set s₁ := ((s.setLwp p fun l => { l with finish := true }).lwpPidPut p).setLwp p fun l =>
    { l with stage := .freeingSelf }
  have hp : s₁.lwp p = { s.lwp p with finish := true, stage := .freeingSelf } := by simp [s₁]
  have hx : ∀ x, x ≠ p → s₁.lwp x = s.lwp x := fun x hxp => by simp [s₁, hxp]
  have hput₁ : s₁.pidPut = (s.lwpPidPut p).pidPut := rfl
  have htab₁ : s₁.pidTable = (s.lwpPidPut p).pidTable := by simp [s₁, lwpPidPut]
  have hfield : ∀ {α : Type} (f : Lwp → α), (∀ l b st, f { l with finish := b, stage := st } = f l) →
      ∀ x, f (s₁.lwp x) = f (s.lwp x) := by
    intro α f hf x
    by_cases hxp : x = p
    · rw [hxp, hp, hf]
    · rw [hx x hxp]
  have hsame : ∀ x, x ≠ p → SameStage s s₁ x := by
    intro x hxp
    have hput : s₁.pidPut x = s.pidPut x := by rw [hput₁, lwpPidPut_of_ne hxp]
    exact ⟨by rw [hx x hxp], by rw [hx x hxp], by rw [hx x hxp], by rw [hx x hxp], hput, rfl⟩
  refine ⟨⟨fun q x => ?_, fun q x => ?_, fun q => ?_, fun x => ?_, fun x hn => ?_, fun x => ?_, h.tree.delivered⟩,
    ?_, ?_⟩
  · rw [htab₁, hput₁, hfield Lwp.pid fun _ _ _ => rfl]
    exact h.tree.table_put hpn hokp.2.1 q x
  · rw [hfield Lwp.children fun _ _ _ => rfl, hfield Lwp.parent fun _ _ _ => rfl, h.tree.child]
    by_cases hxp : x = p
    · simp [hxp, hpar]
    · rw [(hsame x hxp).pidPut]
  · rw [hfield Lwp.children fun _ _ _ => rfl]
    exact h.tree.nodup q
  · rw [hfield Lwp.parent fun _ _ _ => rfl]
    exact h.tree.irrefl x
  · have hn' : s.next ≤ x := hn
    rw [hx x (by omega), (hsame x (by omega)).pidPut]
    exact h.tree.unborn x hn
  · by_cases hxp : x = p
    · subst hxp
      unfold StageOk
      rw [hp]
      dsimp only
      rw [hput₁, lwpPidPut_self, hokp.2.1]
      exact ⟨rfl, hch, rfl, hokp.2.2⟩
    · refine (h.tree.stage x).frame (hsame x hxp) (fun d _ hd => hsame d ?_) fun q hq => ?_
      · rintro rfl
        simp [hcl] at hd
      · have hqp : q ≠ p := by
          rintro rfl
          simp [hcl] at hq
        rw [hx q hqp, hq]
  · refine h.threads.congr rfl (fun x => ?_) (hfield Lwp.ref fun _ _ _ => rfl)
    by_cases hxp : x = p
    · rw [hxp, hp, hcl]
      simp
    · rw [hx x hxp]
      exact ⟨Iff.rfl, id⟩
  · refine h.waiters.congr rfl (fun u x q hw => ⟨rfl, ?_⟩) (hfield Lwp.waitList fun _ _ _ => rfl)
    have hxp : x ≠ p := by
      rintro rfl
      exact h.not_awaited (by simp [hpar]) hw
    exact ⟨by rw [hx x hxp], by rw [hx x hxp], by rw [hx x hxp], by rw [hx x hxp], by rw [hx x hxp],
      (hsame x hxp).pidPut⟩

theorem Inv.publish_tree (h : s.Inv) (hcl : (s.lwp p).stage = .cleanup) (hch : (s.lwp p).children = [])
    (hpar : (s.lwp p).parent ≠ none)
    (hp : s'.lwp p = { s.lwp p with finish := true, stage := .exited, waitList := [] })
    (hx : ∀ x, x ≠ p → s'.lwp x = s.lwp x) (hth : s'.thread = s.thread)
    (hsame : s'.next = s.next ∧ s'.pidTable = s.pidTable ∧ s'.pidPut = s.pidPut ∧ s'.freed = s.freed ∧
      s'.delivered = s.delivered) : s'.Tree ∧ s'.Threads := by
  obtain ⟨hn, htab, hput, hfr, hdel⟩ := hsame
  have hpn : p < s.next := h.tree.born (.inl (by simp [hcl]))
  have hokp := h.tree.stage p
  rw [StageOk, hcl] at hokp
  have hfield : ∀ {α : Type} (f : Lwp → α),
      (∀ l b st w, f { l with finish := b, stage := st, waitList := w } = f l) → ∀ x, f (s'.lwp x) = f (s.lwp x) := by
    intro α f hf x
    by_cases hxp : x = p
    · rw [hxp, hp, hf]
    · rw [hx x hxp]
  have hstage : ∀ x, x ≠ p → SameStage s s' x :=
    fun x hxp => ⟨by rw [hx x hxp], by rw [hx x hxp], by rw [hx x hxp], by rw [hx x hxp], by rw [hput], by rw [hfr]⟩
  refine ⟨⟨fun q x => ?_, fun q x => ?_, fun q => ?_, fun x => ?_, fun x hxn => ?_, fun x => ?_, fun x => ?_⟩, ?_⟩
  · rw [htab, hn, hput, hfield Lwp.pid fun _ _ _ _ => rfl]
    exact h.tree.table q x
  · rw [hfield Lwp.children fun _ _ _ _ => rfl, hfield Lwp.parent fun _ _ _ _ => rfl, hput]
    exact h.tree.child q x
  · rw [hfield Lwp.children fun _ _ _ _ => rfl]
    exact h.tree.nodup q
  · rw [hfield Lwp.parent fun _ _ _ _ => rfl]
    exact h.tree.irrefl x
  · rw [hn] at hxn
    rw [hx x (by omega), hput, hfr]
    exact h.tree.unborn x hxn
  · by_cases hxp : x = p
    · subst hxp
      refine stageOk_exited (by rw [hp]) (by rw [hp]; exact ⟨rfl, hch⟩) (.inr (.inl ?_))
      rw [hput, hfr, hp]
      exact ⟨hokp.2.1, hokp.2.2, hpar⟩
    · refine (h.tree.stage x).frame (hstage x hxp) (fun d _ hd => hstage d ?_) fun q hq => ?_
      · rintro rfl
        simp [hcl] at hd
      · have hqp : q ≠ p := by
          rintro rfl
          simp [hcl] at hq
        rw [hx q hqp, hq]
  · rw [hdel, hfr]
    exact h.tree.delivered x
  · refine h.threads.congr hth (fun x => ?_) (hfield Lwp.ref fun _ _ _ _ => rfl)
    by_cases hxp : x = p
    · rw [hxp, hp, hcl]
      simp
    · rw [hx x hxp]
      exact ⟨Iff.rfl, id⟩

theorem Inv.publish (h : s.Inv) (hs : s.step (.publish p) = some s') : s'.Inv := by
  simp only [step, Option.ite_none_right_eq_some, Option.some.injEq] at hs
  obtain ⟨⟨hcl, hch⟩, rfl⟩ := hs
  unfold WaitSys.publish
  dsimp only
  rw [setLwp_lwp_self]
  dsimp only
  split_ifs with hpar
  · exact h.publish_orphan hcl hch hpar
  have hokp := h.tree.stage p
  rw [StageOk, hcl] at hokp
  unfold wakeWaiter
  rw [setLwp_lwp_self]
  dsimp only
  cases hw : (s.lwp p).waitList with
  | nil =>
    dsimp only
    have hp : ((s.setLwp p fun l => { l with finish := true }).setLwp p fun l => { l with stage := .exited }).lwp p =
        { s.lwp p with finish := true, stage := .exited, waitList := [] } := by simp [hw]
    have hx : ∀ x, x ≠ p → ((s.setLwp p fun l => { l with finish := true }).setLwp p fun l =>
        { l with stage := .exited }).lwp x = s.lwp x := fun x hxp => by simp [hxp]
    obtain ⟨h1, h2⟩ := h.publish_tree hcl hch hpar hp hx rfl ⟨rfl, rfl, rfl, rfl, rfl⟩
    refine ⟨h1, h2, ⟨fun t c pid hpc => ?_, h.waiters.unique, fun c t ht => ?_⟩⟩
    · have hok := h.waiters.ok t c pid hpc
      by_cases hcp : c = p
      · subst hcp
        obtain ⟨k1, k2, k3, k4, k5⟩ := hok
        refine ⟨by rw [hp]; exact k1, by rw [hp]; exact k2, k3, by rw [hp]; exact k4, ?_⟩
        rw [hp]
        simp only [setLwp_pc]
        cases hpt : s.pc t with
        | waiting c' pid' => simp [hpt, hw] at k5
        | _ => simp
      · exact hok.congr ⟨by rw [hx c hcp], by rw [hx c hcp], by rw [hx c hcp], by rw [hx c hcp], by rw [hx c hcp], rfl⟩
          rfl rfl
    · by_cases hcp : c = p
      · subst hcp
        rw [hp] at ht
        simp at ht
      · rw [hx c hcp] at ht
        exact h.waiters.queue c t ht
  | cons t ts =>
    dsimp only
    obtain ⟨pid, hpt⟩ := h.waiters.queue p t (by simp [hw])
    have haw : (s.pc t).awaits = some (p, pid) := by simp [hpt, WaitPc.awaits]
    obtain ⟨k1, k2, k3, k4, k5⟩ := h.waiters.ok t p pid haw
    rw [hpt, hw] at k5
    obtain ⟨hts, -⟩ := k5
    obtain ⟨-, rfl⟩ := List.cons.inj hts
    set s₁ := (((s.setLwp p fun l => { l with finish := true }).setLwp p fun l => { l with waitList := [] }).setPc t
      (.woken p (s.lwp p).pid true)).setLwp p fun l => { l with stage := .exited }
    have hp : s₁.lwp p = { s.lwp p with finish := true, stage := .exited, waitList := [] } := by simp [s₁]
    have hx : ∀ x, x ≠ p → s₁.lwp x = s.lwp x := fun x hxp => by simp [s₁, hxp]
    have htree : s₁.Tree ∧ s₁.Threads := h.publish_tree hcl hch hpar hp hx rfl ⟨rfl, rfl, rfl, rfl, rfl⟩
    obtain ⟨h1, h2⟩ := htree
    have hpc : s₁.pc = Function.update s.pc t (.woken p (s.lwp p).pid true) := rfl
    refine ⟨h1, h2, h.waiters.change (c := p) hpc rfl (fun x hxp => ?_) (fun x q hq => ?_) (fun x q hq => ?_)
      (fun u q hq => h.waiters.unique u t p q pid hq haw) (fun u hu => ?_)⟩
    · exact ⟨by rw [hx x hxp], by rw [hx x hxp], by rw [hx x hxp], by rw [hx x hxp], by rw [hx x hxp], rfl⟩
    · rw [haw] at hq
      simp only [Option.some.injEq, Prod.mk.injEq] at hq
      exact hq.1.symm
    · simp only [WaitPc.awaits, Option.some.injEq, Prod.mk.injEq] at hq
      obtain ⟨rfl, rfl⟩ := hq
      refine ⟨rfl, by rw [hp]; exact k1, by rw [hp], k3, by rw [hp]; exact k4, ?_⟩
      rw [hpc, Function.update_self, hp]
      exact ⟨rfl, fun _ => rfl⟩
    · rw [hp] at hu
      simp at hu

theorem Inv.tree_setLwp (h : s.Inv) {f : Lwp → Lwp} (hc : c < s.next) (hpid : (f (s.lwp c)).pid = (s.lwp c).pid)
    (hpar : (f (s.lwp c)).parent = (s.lwp c).parent) (hch : (f (s.lwp c)).children = (s.lwp c).children)
    (hfin : (f (s.lwp c)).finish = (s.lwp c).finish) (hst : (f (s.lwp c)).stage = (s.lwp c).stage)
    (href : (f (s.lwp c)).ref = (s.lwp c).ref) : (s.setLwp c f).Tree ∧ (s.setLwp c f).Threads := by
  have hsame : ∀ x, SameStage s (s.setLwp c f) x := by
    intro x
    by_cases hxc : x = c
    · subst hxc
      exact ⟨by simp [hst], by simp [hfin], by simp [hpar], by simp [hch], rfl, rfl⟩
    · exact ⟨by simp [hxc], by simp [hxc], by simp [hxc], by simp [hxc], rfl, rfl⟩
  refine ⟨h.tree.congr (sameTree_setLwp f hc hpid hpar hch hfin) fun x => ?_, h.threads.congr rfl (fun x => ?_)
    fun x => ?_⟩
  · exact (h.tree.stage x).frame (hsame x) (fun d _ _ => hsame d) fun q hq => (hsame q).stage.trans hq
  · rw [(hsame x).stage]
    exact ⟨Iff.rfl, id⟩
  · by_cases hxc : x = c
    · subst hxc
      simp [href]
    · simp [hxc]

theorem Inv.attend (h : s.Inv) {f : Lwp → Lwp} {q : WaitPc} (hc : c < s.next)
    (hf : ∀ l, (f l).pid = l.pid ∧ (f l).parent = l.parent ∧ (f l).children = l.children ∧ (f l).finish = l.finish ∧
      (f l).stage = l.stage ∧ (f l).ref = l.ref)
    (hfrom : ∀ x pid, (s.pc t).awaits = some (x, pid) → x = c)
    (hto : ∀ x pid, q.awaits = some (x, pid) → x = c ∧ ((s.setLwp c f).setPc t q).WaiterOk t c pid)
    (honly : ∀ u pid, (s.pc u).awaits = some (c, pid) → u = t)
    (hq : ∀ u ∈ (f (s.lwp c)).waitList, u = t ∧ ∃ pid, q = .waiting c pid) : ((s.setLwp c f).setPc t q).Inv := by
  obtain ⟨h1, h2, h3, h4, h5, h6⟩ := hf (s.lwp c)
  obtain ⟨htree, hthreads⟩ := h.tree_setLwp hc h1 h2 h3 h4 h5 h6
  refine ⟨⟨htree.table, htree.child, htree.nodup, htree.irrefl, htree.unborn, htree.stage, htree.delivered⟩,
    ⟨hthreads.live, hthreads.ref, hthreads.fresh⟩, h.waiters.change (c := c) rfl rfl (fun x hx => ?_) hfrom hto honly ?_⟩
  · exact ⟨by simp [hx], by simp [hx], by simp [hx], by simp [hx], by simp [hx], rfl⟩
  · intro u hu
    refine hq u ?_
    simpa using hu

theorem Inv.prepare (h : s.Inv) {options : ℤ} (hs : s.step (.prepare t pid options) = some s') : s'.Inv := by
  simp only [step] at hs
  split at hs
  · rename_i p htp
    simp only [Option.ite_none_right_eq_some, Option.some.injEq] at hs
    obtain ⟨hidle, rfl⟩ := hs
    unfold lwpWaitpidPrepare
    split
    · exact h
    rename_i c hc
    obtain ⟨hcn, hput, hpid⟩ := (h.tree.table pid c).mp hc
    split_ifs with hpar hbusy hfin
    · exact h
    · exact h
    · have hprog : (s.lwp c).waitInProgress = false ∧ (s.lwp c).waitList = [] := by simpa using hbusy
      have hnobody : ∀ u q, (s.pc u).awaits ≠ some (c, q) := by
        intro u q hw
        have := (h.waiters.ok u c q hw).inProgress
        simp [hprog.1] at this
      refine h.attend hcn (fun l => ⟨rfl, rfl, rfl, rfl, rfl, rfl⟩) (by simp [hidle, WaitPc.awaits])
        (fun x q hw => ?_) (fun u q hw => absurd hw (hnobody u q)) (by simp [hprog.2])
      simp only [WaitPc.awaits, Option.some.injEq, Prod.mk.injEq] at hw
      obtain ⟨rfl, rfl⟩ := hw
      refine ⟨rfl, ⟨p, htp, by simpa using hpar⟩, by simpa using hpid, hput, by simp, ?_⟩
      simpa using ⟨hprog.2, hfin⟩
    · have hprog : (s.lwp c).waitInProgress = false ∧ (s.lwp c).waitList = [] := by simpa using hbusy
      have hnobody : ∀ u q, (s.pc u).awaits ≠ some (c, q) := by
        intro u q hw
        have := (h.waiters.ok u c q hw).inProgress
        simp [hprog.1] at this
      refine h.attend hcn (fun l => ⟨rfl, rfl, rfl, rfl, rfl, rfl⟩) (by simp [hidle, WaitPc.awaits])
        (fun x q hw => ?_) (fun u q hw => absurd hw (hnobody u q)) (by simp [hprog.2])
      simp only [WaitPc.awaits, Option.some.injEq, Prod.mk.injEq] at hw
      obtain ⟨rfl, rfl⟩ := hw
      refine ⟨rfl, ⟨p, htp, by simpa using hpar⟩, by simpa using hpid, hput, by simp, ?_⟩
      simpa [hprog.2] using hfin
  · simp at hs

theorem Inv.exitRequest (h : s.Inv) (hs : s.step (.exitRequest t) = some s') : s'.Inv := by
  simp only [step] at hs
  split at hs
  · rename_i c pid hpt
    obtain rfl := Option.some.inj hs
    have haw : (s.pc t).awaits = some (c, pid) := by simp [hpt, WaitPc.awaits]
    obtain ⟨⟨p, hp1, hp2⟩, k2, k3, k4, k5⟩ := h.waiters.ok t c pid haw
    rw [hpt] at k5
    refine h.attend (h.tree.born (.inr (by simp [hp2]))) (fun l => ⟨rfl, rfl, rfl, rfl, rfl, rfl⟩) (fun x q hq => ?_)
      (fun x q hq => ?_) (fun u q hq => h.waiters.unique u t c q pid hq haw) (by simp [k5.1])
    · rw [haw] at hq
      simp only [Option.some.injEq, Prod.mk.injEq] at hq
      exact hq.1.symm
    · simp only [WaitPc.awaits, Option.some.injEq, Prod.mk.injEq] at hq
      obtain ⟨rfl, rfl⟩ := hq
      exact ⟨rfl, ⟨p, hp1, by simpa using hp2⟩, by simpa using k2, k3, by simpa using k4, by simp [k5.1]⟩
  · simp at hs

theorem Inv.resume (h : s.Inv) (hs : s.step (.resume t) = some s') : s'.Inv := by
  simp only [step] at hs
  split at hs
  · rename_i c pid hpt
    obtain rfl := Option.some.inj hs
    have haw : (s.pc t).awaits = some (c, pid) := by simp [hpt, WaitPc.awaits]
    obtain ⟨k1, k2, k3, k4, k5⟩ := h.waiters.ok t c pid haw
    rw [hpt] at k5
    refine ⟨⟨h.tree.table, h.tree.child, h.tree.nodup, h.tree.irrefl, h.tree.unborn, h.tree.stage, h.tree.delivered⟩,
      ⟨h.threads.live, h.threads.ref, h.threads.fresh⟩, h.waiters.change (c := c) rfl rfl
        (fun x _ => ⟨rfl, rfl, rfl, rfl, rfl, rfl⟩) (fun x q hq => ?_) (fun x q hq => ?_) (fun u q hq => h.waiters.unique u t c q pid hq haw) ?_⟩
    · rw [haw] at hq
      simp only [Option.some.injEq, Prod.mk.injEq] at hq
      exact hq.1.symm
    · simp only [WaitPc.awaits, Option.some.injEq, Prod.mk.injEq] at hq
      obtain ⟨rfl, rfl⟩ := hq
      exact ⟨rfl, k1, k2, k3, k4, by simpa using ⟨k5.1, k5.2 rfl⟩⟩
    · simp [k5.1]
  · rename_i c pid hpt
    obtain rfl := Option.some.inj hs
    have haw : (s.pc t).awaits = some (c, pid) := by simp [hpt, WaitPc.awaits]
    obtain ⟨⟨p, hp1, hp2⟩, k2, k3, k4, k5⟩ := h.waiters.ok t c pid haw
    rw [hpt] at k5
    refine h.attend (h.tree.born (.inr (by simp [hp2]))) (fun l => ⟨rfl, rfl, rfl, rfl, rfl, rfl⟩) (fun x q hq => ?_)
      (by simp [WaitPc.awaits]) (fun u q hq => h.waiters.unique u t c q pid hq haw) (by simp [k5.1])
    rw [haw] at hq
    simp only [Option.some.injEq, Prod.mk.injEq] at hq
    exact hq.1.symm
  · simp at hs

theorem Inv.finalize_finds (h : s.Inv) (hpt : s.pc t = .prepared c pid) (htp : s.thread t = some p) :
    s.pidTable pid = some c ∧ (s.lwp c).parent = some p ∧ (s.lwp c).waitInProgress = true := by
  obtain ⟨⟨p', hp1, hp2⟩, k2, k3, k4, -⟩ := h.waiters.ok t c pid (by simp [hpt, WaitPc.awaits])
  obtain rfl := Option.some.inj (htp.symm.trans hp1)
  exact ⟨(h.tree.table pid c).mpr ⟨h.tree.born (.inr (by simp [hp2])), k3, k2⟩, hp2, k4⟩

theorem Inv.reap (h : s.Inv) (hpt : s.pc t = .prepared c pid) (htp : s.thread t = some p) :
    Inv (({ ((s.setLwp p fun l => { l with children := l.children.erase c }).lwpPidPut c).rtFree c with
      delivered := Function.update s.delivered c (s.delivered c + 1) } : WaitSys).setPc t .idle) := by
  have haw : (s.pc t).awaits = some (c, pid) := by simp [hpt, WaitPc.awaits]
  obtain ⟨-, k2, k3, k4, k5⟩ := h.waiters.ok t c pid haw
  rw [hpt] at k5
  obtain ⟨-, hpar, -⟩ := h.finalize_finds hpt htp
  have hrun := h.threads.live t p htp
  have hmem : c ∈ (s.lwp p).children := (h.tree.child p c).mpr ⟨hpar, k3⟩
  have hcp : c ≠ p := by
    rintro rfl
    exact h.tree.irrefl c hpar
  have hcn : c < s.next := h.tree.born (.inr (by simp [hpar]))
  have hpn : p < s.next := h.tree.born (.inl (by simp [hrun]))
  obtain ⟨hex, hnil, hfr⟩ := (h.tree.stage c).zombie k5.2 k3
  set s₁ := ({ ((s.setLwp p fun l => { l with children := l.children.erase c }).lwpPidPut c).rtFree c with
      delivered := Function.update s.delivered c (s.delivered c + 1) } : WaitSys).setPc t .idle
  have hlwp : s₁.lwp = (s.setLwp p fun l => { l with children := l.children.erase c }).lwp := rfl
  have hp : s₁.lwp p = { s.lwp p with children := (s.lwp p).children.erase c } := by rw [hlwp, setLwp_lwp_self]
  have hx : ∀ x, x ≠ p → s₁.lwp x = s.lwp x := fun x hxp => by rw [hlwp, setLwp_lwp_of_ne _ hxp]
  have hput₁ : s₁.pidPut = (s.lwpPidPut c).pidPut := rfl
  have htab₁ : s₁.pidTable = (s.lwpPidPut c).pidTable := by
    simp [s₁, setPc, WaitSys.rtFree, lwpPidPut, hcp]
  have hfreed : ∀ x, x ≠ c → s₁.freed x = s.freed x := fun x hxc => Function.update_of_ne hxc _ _
  have hfreedc : s₁.freed c = s.freed c + 1 := Function.update_self _ _ _
  have hfield : ∀ {α : Type} (f : Lwp → α), (∀ l cs, f { l with children := cs } = f l) →
      ∀ x, f (s₁.lwp x) = f (s.lwp x) := by
    intro α f hf x
    by_cases hxp : x = p
    · rw [hxp, hp, hf]
    · rw [hx x hxp]
  have hchildren : ∀ q, (s₁.lwp q).children = if q = p then (s.lwp p).children.erase c else (s.lwp q).children := by
    intro q
    split_ifs with hq
    · rw [hq, hp]
    · rw [hx q hq]
  have hstage := hfield Lwp.stage fun _ _ => rfl
  have hsame : ∀ x, x ≠ p → x ≠ c → SameStage s s₁ x := by
    intro x hxp hxc
    have hput : s₁.pidPut x = s.pidPut x := by rw [hput₁, lwpPidPut_of_ne hxc]
    exact ⟨by rw [hx x hxp], by rw [hx x hxp], by rw [hx x hxp], by rw [hx x hxp], hput, hfreed x hxc⟩
  refine ⟨⟨fun q x => ?_, fun q x => ?_, fun q => ?_, fun x => ?_, fun x hn => ?_, fun x => ?_, fun x => ?_⟩, ?_, ?_⟩
  · rw [htab₁, hput₁, hfield Lwp.pid fun _ _ => rfl]
    exact h.tree.table_put hcn k3 q x
  · rw [hchildren, hfield Lwp.parent fun _ _ => rfl, hput₁]
    refine h.tree.child_put hmem (fun y => ?_) q x
    rw [(h.tree.nodup p).mem_erase_iff, and_comm]
  · rw [hchildren]
    split_ifs
    · exact (h.tree.nodup p).erase c
    · exact h.tree.nodup q
  · rw [hfield Lwp.parent fun _ _ => rfl]
    exact h.tree.irrefl x
  · have hn' : s.next ≤ x := hn
    rw [hx x (by omega), hput₁, lwpPidPut_of_ne (by omega), hfreed x (by omega)]
    exact h.tree.unborn x hn
  · by_cases hxp : x = p
    · subst hxp
      have hokx := h.tree.stage x
      rw [StageOk, hrun] at hokx
      refine stageOk_early (by simp [hstage, hrun]) ?_
      rw [hfield Lwp.finish fun _ _ => rfl, hput₁, lwpPidPut_of_ne (Ne.symm hcp), hfreed x (Ne.symm hcp)]
      exact hokx
    · by_cases hxc : x = c
      · subst hxc
        refine stageOk_exited (by rw [hstage, hex]) (by rw [hx x hxp]; exact ⟨k5.2, hnil⟩) (.inl ?_)
        rw [hput₁, lwpPidPut_self, hfreedc, k3, hfr]
        exact ⟨rfl, rfl⟩
      · refine (h.tree.stage x).frame (hsame x hxp hxc) (fun d hd hde => hsame d ?_ ?_) fun q hq => ?_
        · rintro rfl
          simp [hrun] at hde
        · rintro rfl
          obtain ⟨-, -, hdput, -⟩ := (h.tree.stage x).freeing hd
          simp [k3] at hdput
        · rw [hstage, hq]
  · have hle := h.tree.delivered x
    by_cases hxc : x = c
    · subst hxc
      have hdel : s₁.delivered x = s.delivered x + 1 := Function.update_self _ _ _
      rw [hdel, hfreedc]
      omega
    · have hdel : s₁.delivered x = s.delivered x := Function.update_of_ne hxc _ _
      rw [hdel, hfreed x hxc]
      exact hle
  · exact h.threads.congr rfl (fun x => by rw [hstage]; exact ⟨Iff.rfl, id⟩) (hfield Lwp.ref fun _ _ => rfl)
  · refine h.waiters.change (c := c) (q := .idle) rfl rfl (fun x hxc => ?_) (fun x q hq => ?_) (by simp [WaitPc.awaits])
      (fun u q hq => h.waiters.unique u t c q pid hq haw) (fun u hu => ?_)
    · exact ⟨hfield Lwp.pid (fun _ _ => rfl) x, hfield Lwp.parent (fun _ _ => rfl) x,
        hfield Lwp.waitInProgress (fun _ _ => rfl) x, hfield Lwp.waitList (fun _ _ => rfl) x,
        hfield Lwp.finish (fun _ _ => rfl) x, by rw [hput₁, lwpPidPut_of_ne hxc]⟩
    · rw [haw] at hq
      simp only [Option.some.injEq, Prod.mk.injEq] at hq
      exact hq.1.symm
    · rw [hfield Lwp.waitList (fun _ _ => rfl) c, k5.1] at hu
      simp at hu

theorem Inv.finalize (h : s.Inv) {reap : Bool} (hs : s.step (.finalize t reap) = some s') : s'.Inv := by
  simp only [step] at hs
  split at hs
  · rename_i p c pid htp hpt
    obtain rfl := Option.some.inj hs
    have haw : (s.pc t).awaits = some (c, pid) := by simp [hpt, WaitPc.awaits]
    obtain ⟨htab, hpar, hprog⟩ := h.finalize_finds hpt htp
    have k5 := (h.waiters.ok t c pid haw).place
    rw [hpt] at k5
    unfold lwpWaitpidFinalize
    simp only [htab, hpar, hprog, ne_eq, not_true_eq_false, Bool.true_eq_false, or_self, if_false]
    split_ifs
    · exact h.reap hpt htp
    · refine h.attend (h.tree.born (.inr (by simp [hpar]))) (fun l => ⟨rfl, rfl, rfl, rfl, rfl, rfl⟩) (fun x q hq => ?_)
        (by simp [WaitPc.awaits]) (fun u q hq => h.waiters.unique u t c q pid hq haw) (by simp [k5.1])
      rw [haw] at hq
      simp only [Option.some.injEq, Prod.mk.injEq] at hq
      exact hq.1.symm
  · simp at hs

theorem Inv.step (h : s.Inv) {e : Event} (hs : s.step e = some s') : s'.Inv := by
  cases e with
  | lwpNew pid => exact h.lwpNew hs
  | link t c => exact h.link hs
  | start c u => exact h.start hs
  | spawn t u => exact h.spawn hs
  | abandon c => exact h.abandon hs
  | exitThread t => exact h.exitThread hs
  | freeChild p => exact h.freeChild hs
  | rtFree p => exact h.rtFree hs
  | publish p => exact h.publish hs
  | prepare t pid options => exact h.prepare hs
  | exitRequest t => exact h.exitRequest hs
  | resume t => exact h.resume hs
  | finalize t reap => exact h.finalize hs

theorem inv_init : init.Inv := by
  refine ⟨⟨by simp [init], by simp [init, lwpNew], by simp [init, lwpNew], by simp [init, lwpNew], by simp [init],
    by simp [StageOk, init, lwpNew], by simp [init]⟩, ⟨by simp [init], by simp [init, lwpNew], by simp [init, lwpNew]⟩,
    ⟨by simp [init, WaitPc.awaits], by simp [init, WaitPc.awaits], by simp [init, lwpNew]⟩⟩

theorem Inv.counts (h : s.Inv) (c : ℕ) :
    s.pidPut c ≤ 1 ∧ s.freed c ≤ s.pidPut c ∧ s.delivered c ≤ s.freed c ∧ (0 < s.pidPut c → (s.lwp c).finish = true) := by
  have hok := h.tree.stage c
  have hdel := h.tree.delivered c
  by_cases hfin : (s.lwp c).finish = true
  · unfold StageOk at hok
    cases hst : (s.lwp c).stage <;> simp only [hst, hfin, Bool.true_eq_false, false_and] at hok
    · exact ⟨by omega, by omega, hdel, fun _ => hfin⟩
    · exact ⟨by omega, by omega, hdel, fun _ => hfin⟩
  · obtain ⟨h1, h2⟩ := hok.early (by simpa using hfin)
    exact ⟨by omega, by omega, hdel, fun hpos => absurd hpos (by omega)⟩

theorem Inv.reclaimed (h : s.Inv) (hex : (s.lwp c).stage = .exited) :
    (s.pidPut c = 1 ∧ s.freed c = 1) ∨ (s.pidPut c = 1 ∧ ∃ p, (s.lwp p).stage = .freeing c) ∨
      ∃ p, (s.lwp c).parent = some p ∧ c ∈ (s.lwp p).children ∧ (s.lwp p).finish = false := by
  obtain ⟨-, -, h1 | ⟨hput, -, hpar⟩ | ⟨hput, -, hp⟩⟩ := (h.tree.stage c).exited hex
  · exact .inl h1
  · obtain ⟨p, hp⟩ := Option.ne_none_iff_exists'.mp hpar
    have hmem : c ∈ (s.lwp p).children := (h.tree.child p c).mpr ⟨hp, hput⟩
    refine .inr (.inr ⟨p, hp, hmem, ?_⟩)
    have hok := h.tree.stage p
    unfold StageOk at hok
    cases hst : (s.lwp p).stage <;> simp_all
  · exact .inr (.inl ⟨hput, hp⟩)

end steps

theorem children_reaped_once (es : List Event) (s : WaitSys) (h : run step init es = some s) :
    (∀ c, s.pidPut c ≤ 1 ∧ s.freed c ≤ s.pidPut c ∧ s.delivered c ≤ s.freed c ∧
      (0 < s.pidPut c → (s.lwp c).finish = true)) ∧
    (∀ pid c, s.pidTable pid = some c ↔ c < s.next ∧ s.pidPut c = 0 ∧ (s.lwp c).pid = pid) ∧
    (∀ c, (s.lwp c).stage = .exited → (s.pidPut c = 1 ∧ s.freed c = 1) ∨
      (s.pidPut c = 1 ∧ ∃ p, (s.lwp p).stage = .freeing c) ∨
      ∃ p, (s.lwp c).parent = some p ∧ c ∈ (s.lwp p).children ∧ (s.lwp p).finish = false) ∧
    (∀ t c pid, s.pc t = .waiting c pid → (s.lwp c).finish = false ∧ (s.lwp c).waitList = [t]) ∧
    (∀ t p c pid, s.thread t = some p → s.pc t = .prepared c pid → s.pidTable pid = some c ∧
      (s.lwp c).parent = some p ∧ (s.lwp c).waitInProgress = true ∧ (s.lwp c).finish = true) ∧
    (∀ t u c pid pid', (s.pc t).awaits = some (c, pid) → (s.pc u).awaits = some (c, pid') → t = u) := by
  have hi : s.Inv := run_invariant Inv (fun _ _ _ hi hs => hi.step hs) h inv_init
  refine ⟨hi.counts, hi.tree.table, fun c => hi.reclaimed, fun t c pid ht => ?_, fun t p c pid hp ht => ?_,
    hi.waiters.unique⟩
  · have hok := (hi.waiters.ok t c pid (by simp [ht, WaitPc.awaits])).place
    rw [ht] at hok
    exact hok.symm
  · have hok := (hi.waiters.ok t c pid (by simp [ht, WaitPc.awaits])).place
    rw [ht] at hok
    obtain ⟨h1, h2, h3⟩ := hi.finalize_finds ht hp
    exact ⟨h1, h2, h3, hok.2⟩

/-- One thread of the parent waits for the child, a second one is refused, and the first reaps it after it has
exited. -/
theorem children_reaped_once_example :
    ∃ s, run step init
      [.lwpNew 1, .start 0 10, .spawn 10 11, .lwpNew 2, .link 10 1, .start 1 20, .prepare 10 2 0, .prepare 11 2 1,
        .prepare 11 (-1) 0, .exitThread 20, .publish 1, .resume 10, .finalize 10 true] = some s ∧
      (s.lwp 1).stage = .exited ∧ s.pc 11 = .idle ∧ s.pidPut 1 ≤ 1 ∧ s.freed 1 ≤ s.pidPut 1 ∧ s.pidTable 2 = none := by
  have hrun : ((run step init
      [.lwpNew 1, .start 0 10, .spawn 10 11, .lwpNew 2, .link 10 1, .start 1 20, .prepare 10 2 0, .prepare 11 2 1,
        .prepare 11 (-1) 0, .exitThread 20, .publish 1, .resume 10, .finalize 10 true]).map
        fun s => ((s.lwp 1).stage, s.pc 11, s.pidTable 2)) = some (.exited, .idle, none) := by decide +kernel
  obtain ⟨s, hs, hp⟩ := Option.map_eq_some_iff.mp hrun
  simp only [Prod.mk.injEq] at hp
  have hone := (children_reaped_once _ s hs).1 1
  exact ⟨s, hs, hp.1, hp.2.1, hone.1, hone.2.1, hp.2.2⟩

end WaitSys

end RtSmart
