import RtSmart.Lwp.Pmutex
import Mathlib.Data.Set.Card

namespace RtSmart

open Lib

namespace Pc

/-- The thread holds `_pmutex_lock`. -/
def holds : Pc → Bool
  | .inside _ | .creating _ | .adding _ _ | .undoing _ _ | .dropping _ _ | .got _ _ | .checking _ _ | .busy _
  | .removing _ | .deleting _ | .lastPut _ | .finishing _ _ => true
  | .releasing _ next => next.holds
  | _ => false

def counted : Pc → Option Oid
  | .got _ o | .locking _ o | .blocked _ o | .unlocking o | .tested o | .putting _ o _ | .checking o _ | .busy o
  | .removing o | .deleting o | .lastPut o => some o
  | .releasing _ next => next.counted
  | _ => none

/-- The mutex that the thread is taking down. -/
def takesDown : Pc → Option Oid
  | .undoing _ o | .dropping _ o | .removing o | .deleting o | .lastPut o | .releasing o _ => some o
  | _ => none

def expects : Pc → Option Bool
  | .wants .destroy | .inside .destroy | .removing _ | .deleting _ | .lastPut _ => some false
  | .busy _ => some true
  | .finishing .destroy ret | .returned .destroy ret | .putting .destroy _ ret => some (ret = .ebusy)
  | .releasing _ next => next.expects
  | _ => none

end Pc

namespace PmutexSys

def users (s : PmutexSys) (o : Oid) : Set Tid := {t | (s.pc t).counted = some o}

def ownerPc (s : PmutexSys) : Pc := s.lockOwner.elim .idle s.pc

/-- The mutexes while the holder of `_pmutex_lock` stands at the given place. -/
def Stage (s : PmutexSys) : Pc → Prop
  | .creating _ => s.tree = none
  | .adding _ o | .got _ o | .checking o _ | .busy o => o < s.next ∧ s.condemned o = false
  | .undoing _ o | .removing o => s.tree = some o ∧ s.condemned o = true ∧ (s.pmutex o).linked = true ∧
      (s.pmutex o).destroying = false ∧ s.released o = 0
  | .dropping _ o | .deleting o => s.tree = none ∧ s.condemned o = true ∧ (s.pmutex o).linked = false ∧
      (s.pmutex o).destroying = false ∧ s.released o = 0
  | .lastPut o => s.tree = none ∧ s.condemned o = true ∧ (s.pmutex o).destroying = true ∧ s.released o = 0
  | .releasing o next => s.tree = none ∧ s.condemned o = true ∧ s.released o = 0 ∧ ∃ op ret, next = .finishing op ret
  | _ => True

structure Objects (s : PmutexSys) (p : Pc) : Prop where
  fresh : ∀ o, s.next ≤ o → s.condemned o = false ∧ s.released o = 0
  tree : ∀ o, s.tree = some o → o < s.next
  alive : ∀ o, o < s.next → s.condemned o = false →
    s.tree = some o ∧ (s.pmutex o).linked = true ∧ (s.pmutex o).destroying = false ∧ s.released o = 0
  dead : ∀ o, s.condemned o = true → p.takesDown ≠ some o → s.released o = 1 ∧ s.tree ≠ some o
  stage : s.Stage p

structure Inv (s : PmutexSys) : Prop where
  gate : ∀ t, (s.pc t).holds = true ↔ s.lockOwner = some t
  objects : s.Objects s.ownerPc
  outside : ∀ t, s.lockOwner ≠ some t → (s.pc t).takesDown = none ∧
    ∀ o, (s.pc t).counted = some o → o < s.next ∧ s.condemned o = false
  count : ∀ o, (s.users o).encard = (s.pmutex o).operationCount
  waiters : ∀ o t, t ∈ (s.pmutex o).waiters → ∃ time, s.pc t = .blocked time o
  nodup : ∀ o, (s.pmutex o).waiters.Nodup
  verdict : ∀ t b, (s.pc t).expects = some b → s.seen t = b
  checking : ∀ t o active, s.pc t = .checking o active →
    (s.seen t = true ↔ active ≠ 0 ∨ (s.pmutex o).isLocked = true) ∧ (active = 0 → s.users o = {t})
  adding : ∀ t time o, s.pc t = .adding time o → s.users o = ∅

section steps

variable {s s' : PmutexSys} {t : Tid} {o : Oid} {p : Pc}

theorem users_update (hpc : s'.pc = Function.update s.pc t p) (o : Oid) :
    s'.users o = if p.counted = some o then insert t (s.users o) else s.users o \ {t} := by
  ext u
  by_cases hu : u = t
  · subst hu
    by_cases hp : p.counted = some o
    · simp [users, hpc, hp]
    · simp [users, hpc, hp]
  · by_cases hp : p.counted = some o
    · simp [users, hpc, hp, hu]
    · simp [users, hpc, hp, hu]

theorem users_same (hpc : s'.pc = Function.update s.pc t p) (hc : p.counted = (s.pc t).counted) :
    s'.users o = s.users o := by
  ext u
  by_cases hu : u = t
  · subst hu
    simp [users, hpc, hc]
  · simp [users, hpc, hu]

theorem users_gain (hpc : s'.pc = Function.update s.pc t p) (hc : p.counted = some o)
    (h0 : (s.pc t).counted = none) : (s'.users o).encard = (s.users o).encard + 1 := by
  rw [users_update hpc, if_pos hc]
  apply Set.encard_insert_of_notMem
  simp [users, h0]

theorem users_lose (hpc : s'.pc = Function.update s.pc t p) (hc : p.counted = none)
    (h0 : (s.pc t).counted = some o) : (s'.users o).encard + 1 = (s.users o).encard := by
  rw [users_update hpc, if_neg (by simp [hc])]
  apply Set.encard_sdiff_singleton_add_one
  exact h0

theorem users_other (hpc : s'.pc = Function.update s.pc t p) (hc : p.counted ≠ some o)
    (h0 : (s.pc t).counted ≠ some o) : s'.users o = s.users o := by
  rw [users_update hpc, if_neg hc]
  apply Set.sdiff_singleton_eq_self
  exact h0

theorem Inv.ownerPc_eq (h : s.Inv) (ht : (s.pc t).holds = true) : s.ownerPc = s.pc t := by
  simp [ownerPc, (h.gate t).mp ht]

theorem others_wait (ht : s.lockOwner = some t ∨ s.lockOwner = none) {u : Tid} (hu : u ≠ t) :
    s.lockOwner ≠ some u := by
  intro hl
  obtain ht | ht := ht
  · exact hu (Option.some.inj (hl.symm.trans ht))
  · simp [ht] at hl

/-- A step of the thread that holds `_pmutex_lock`, or takes it. -/
theorem Inv.owned (h : s.Inv) (ht : s.lockOwner = some t ∨ s.lockOwner = none)
    (hpc : s'.pc = Function.update s.pc t p) (howner : s'.lockOwner = if p.holds = true then some t else none)
    (hobj : s'.Objects (if p.holds = true then p else .idle)) (hnext : s.next ≤ s'.next)
    (hcond : ∀ u o, u ≠ t → (s.pc u).counted = some o → s'.condemned o = s.condemned o)
    (hself : p.holds = false → p.takesDown = none ∧ ∀ o, p.counted = some o → o < s'.next ∧ s'.condemned o = false)
    (hcount : ∀ o, (s'.users o).encard = (s'.pmutex o).operationCount)
    (hwait : ∀ o, (s'.pmutex o).waiters.Sublist (s.pmutex o).waiters)
    (hblocked : ∀ time o, s.pc t ≠ .blocked time o) (hseen : ∀ u, u ≠ t → s'.seen u = s.seen u)
    (hverdict : ∀ b, p.expects = some b → s'.seen t = b)
    (hcheck : ∀ o active, p = .checking o active →
      (s'.seen t = true ↔ active ≠ 0 ∨ (s'.pmutex o).isLocked = true) ∧ (active = 0 → s'.users o = {t}))
    (hadd : ∀ time o, p = .adding time o → s'.users o = ∅) : s'.Inv := by
  have hself' : s'.pc t = p := by rw [hpc, Function.update_self]
  have hother : ∀ u, u ≠ t → s'.pc u = s.pc u := fun u hu => by rw [hpc, Function.update_of_ne hu]
  have hfree : ∀ u, u ≠ t → (s.pc u).holds = false := by
    intro u hu
    rw [← Bool.not_eq_true, h.gate u]
    exact others_wait ht hu
  refine ⟨fun u => ?_, ?_, fun u hu => ?_, hcount, fun o u hu => ?_, fun o => (hwait o).nodup (h.nodup o),
    fun u b hb => ?_, fun u o active hu => ?_, fun u time o hu => ?_⟩
  · by_cases hut : u = t
    · subst hut
      rw [hself', howner]
      cases p.holds <;> simp
    · rw [hother u hut, hfree u hut, howner]
      split_ifs
      · simp [Ne.symm hut]
      · simp
  · have he : s'.ownerPc = if p.holds = true then p else .idle := by
      simp only [ownerPc, howner]
      split_ifs
      · simp [hself']
      · rfl
    rw [he]
    exact hobj
  · by_cases hut : u = t
    · subst hut
      rw [hself']
      apply hself
      rw [howner] at hu
      by_contra hp
      simp [hp] at hu
    · rw [hother u hut]
      obtain ⟨h1, h2⟩ := h.outside u (others_wait ht hut)
      refine ⟨h1, fun o ho => ?_⟩
      rw [hcond u o hut ho]
      exact ⟨(h2 o ho).1.trans_le hnext, (h2 o ho).2⟩
  · obtain ⟨time, hb⟩ := h.waiters o u ((hwait o).subset hu)
    have hut : u ≠ t := by
      rintro rfl
      exact hblocked time o hb
    exact ⟨time, (hother u hut).trans hb⟩
  · by_cases hut : u = t
    · subst hut
      exact hverdict b (hself' ▸ hb)
    · rw [hseen u hut]
      exact h.verdict u b (hother u hut ▸ hb)
  · by_cases hut : u = t
    · subst hut
      exact hcheck o active (hself' ▸ hu)
    · rw [hother u hut] at hu
      have := hfree u hut
      simp [hu, Pc.holds] at this
  · by_cases hut : u = t
    · subst hut
      exact hadd time o (hself' ▸ hu)
    · rw [hother u hut] at hu
      have := hfree u hut
      simp [hu, Pc.holds] at this

/-- The fields that only the holder of `_pmutex_lock` changes. -/
structure SameObjects (s s' : PmutexSys) : Prop where
  next : s'.next = s.next
  tree : s'.tree = s.tree
  condemned : s'.condemned = s.condemned
  released : s'.released = s.released
  linked : ∀ o, (s'.pmutex o).linked = (s.pmutex o).linked
  destroying : ∀ o, (s'.pmutex o).destroying = (s.pmutex o).destroying

theorem Objects.congr (h : s.Objects p) (hs : SameObjects s s') : s'.Objects p := by
  refine ⟨?_, ?_, ?_, ?_, ?_⟩
  · rw [hs.next, hs.condemned, hs.released]
    exact h.fresh
  · rw [hs.next, hs.tree]
    exact h.tree
  · intro o
    rw [hs.next, hs.condemned, hs.released, hs.tree, hs.linked, hs.destroying]
    exact h.alive o
  · rw [hs.condemned, hs.released, hs.tree]
    exact h.dead
  · have := h.stage
    cases p <;> simp only [Stage, hs.next, hs.condemned, hs.released, hs.tree, hs.linked, hs.destroying] at this ⊢
    all_goals exact this

/-- A step of a thread that does not hold `_pmutex_lock`. -/
theorem Inv.apart (h : s.Inv) (ht : s.lockOwner ≠ some t) (hpc : s'.pc = Function.update s.pc t p)
    (hs : SameObjects s s') (hl : s'.lockOwner = s.lockOwner) (hholds : p.holds = false) (hdown : p.takesDown = none)
    (huse : ∀ o, p.counted = some o → (s.pc t).counted = some o)
    (hlock : ∀ o, (s.pc t).counted ≠ some o → (s'.pmutex o).isLocked = (s.pmutex o).isLocked)
    (hcount : ∀ o, (s'.users o).encard = (s'.pmutex o).operationCount)
    (hwait : ∀ o u, u ∈ (s'.pmutex o).waiters →
      (u ∈ (s.pmutex o).waiters ∧ u ≠ t) ∨ (u = t ∧ ∃ time, p = .blocked time o))
    (hnodup : ∀ o, (s'.pmutex o).waiters.Nodup) (hseen : ∀ u, u ≠ t → s'.seen u = s.seen u) (hverdict : ∀ b, p.expects = some b → s'.seen t = b) : s'.Inv := by
  have hself' : s'.pc t = p := by rw [hpc, Function.update_self]
  have hother : ∀ u, u ≠ t → s'.pc u = s.pc u := fun u hu => by rw [hpc, Function.update_of_ne hu]
  refine ⟨fun u => ?_, ?_, fun u hu => ?_, hcount, fun o u hu => ?_, hnodup, fun u b hb => ?_,
    fun u o active hu => ?_, fun u time o hu => ?_⟩
  · by_cases hut : u = t
    · subst hut
      rw [hself', hholds, hl]
      simp [ht]
    · rw [hother u hut, hl]
      exact h.gate u
  · have he : s'.ownerPc = s.ownerPc := by
      simp only [ownerPc, hl]
      cases hu : s.lockOwner with
      | none => rfl
      | some u =>
        have hut : u ≠ t := by
          rintro rfl
          exact ht hu
        exact hother u hut
    rw [he]
    exact h.objects.congr hs
  · by_cases hut : u = t
    · subst hut
      rw [hself', hs.next, hs.condemned]
      exact ⟨hdown, fun o ho => (h.outside u ht).2 o (huse o ho)⟩
    · rw [hother u hut, hs.next, hs.condemned]
      exact h.outside u (hl ▸ hu)
  · obtain ⟨hmem, hut⟩ | ⟨rfl, time, hb⟩ := hwait o u hu
    · obtain ⟨time, hb⟩ := h.waiters o u hmem
      exact ⟨time, (hother u hut).trans hb⟩
    · exact ⟨time, hself'.trans hb⟩
  · by_cases hut : u = t
    · subst hut
      exact hverdict b (hself' ▸ hb)
    · rw [hseen u hut]
      exact h.verdict u b (hother u hut ▸ hb)
  · have hut : u ≠ t := by
      rintro rfl
      rw [hself'] at hu
      simp [hu, Pc.holds] at hholds
    rw [hother u hut] at hu
    obtain ⟨h1, h2⟩ := h.checking u o active hu
    rw [hseen u hut, h1]
    by_cases ha : active = 0
    · -- the destroyer is alone on the mutex, so `t` is not on it
      have hne : (s.pc t).counted ≠ some o := by
        intro hc
        have hmem : t ∈ s.users o := hc
        rw [h2 ha] at hmem
        exact hut (Set.mem_singleton_iff.mp hmem).symm
      rw [hlock o hne]
      refine ⟨Iff.rfl, fun _ => ?_⟩
      rw [users_other hpc (fun hc => hne (huse o hc)) hne]
      exact h2 ha
    · exact ⟨by simp [ha], fun h0 => absurd h0 ha⟩
  · have hut : u ≠ t := by
      rintro rfl
      rw [hself'] at hu
      simp [hu, Pc.holds] at hholds
    rw [hother u hut] at hu
    have hempty := h.adding u time o hu
    have hne : (s.pc t).counted ≠ some o := by
      intro hc
      have hmem : t ∈ s.users o := hc
      simp [hempty] at hmem
    rw [users_other hpc (fun hc => hne (huse o hc)) hne]
    exact hempty

theorem Objects.move {p' : Pc} (h : s.Objects p) (hp : p.takesDown = none) (hst : s.Stage p') : s.Objects p' :=
  ⟨h.fresh, h.tree, h.alive, fun o hc _ => h.dead o hc (by simp [hp]), hst⟩

theorem Inv.moves (h : s.Inv) (ht : s.lockOwner = some t ∨ s.lockOwner = none)
    (hpc : s'.pc = Function.update s.pc t p) (howner : s'.lockOwner = if p.holds = true then some t else none)
    (hs : SameObjects s s') (hpm : s'.pmutex = s.pmutex) (hseen : s'.seen = s.seen)
    (hfrom : (s.pc t).takesDown = none) (hto : p.takesDown = none) (hst : p.holds = true → s.Stage p)
    (hc : p.counted = (s.pc t).counted)
    (huse : ∀ o, p.counted = some o → o < s.next ∧ s.condemned o = false)
    (hblocked : ∀ time o, s.pc t ≠ .blocked time o) (hcheck : ∀ o active, p ≠ .checking o active)
    (hadd : ∀ time o, p ≠ .adding time o) (hverdict : ∀ b, p.expects = some b → s.seen t = b) : s'.Inv := by
  have hdown : s.ownerPc.takesDown = none := by
    obtain ht | ht := ht
    · simp only [ownerPc, ht, Option.elim_some, hfrom]
    · simp only [ownerPc, ht, Option.elim_none, Pc.takesDown]
  refine h.owned ht hpc howner ?_ hs.next.ge (fun u o _ _ => by rw [hs.condemned]) (fun _ => ⟨hto, fun o ho => ?_⟩)
    (fun o => ?_) (fun o => by rw [hpm]) hblocked (fun u _ => by rw [hseen]) (fun b hb => hseen ▸ hverdict b hb)
    (fun o active he => absurd he (hcheck o active)) fun time o he => absurd he (hadd time o)
  · apply Objects.congr _ hs
    apply h.objects.move hdown
    split_ifs with hp
    · exact hst hp
    · trivial
  · rw [hs.next, hs.condemned]
    exact huse o ho
  · rw [users_same hpc hc, hpm]
    exact h.count o

/-- Only the place of a thread outside `_pmutex_lock` changes. -/
theorem Inv.strolls (h : s.Inv) (ht : s.lockOwner ≠ some t) (hpc : s'.pc = Function.update s.pc t p)
    (hs : SameObjects s s') (hl : s'.lockOwner = s.lockOwner) (hpm : s'.pmutex = s.pmutex) (hholds : p.holds = false)
    (hdown : p.takesDown = none) (hc : p.counted = (s.pc t).counted) (hblocked : ∀ time o, s.pc t ≠ .blocked time o)
    (hseen : ∀ u, u ≠ t → s'.seen u = s.seen u) (hverdict : ∀ b, p.expects = some b → s'.seen t = b) : s'.Inv := by
  refine h.apart ht hpc hs hl hholds hdown (fun o ho => hc ▸ ho) (fun o _ => by rw [hpm]) (fun o => ?_)
    (fun o u hu => .inl ?_) (fun o => hpm ▸ h.nodup o) hseen hverdict
  · rw [users_same hpc hc, hpm]
    exact h.count o
  · rw [hpm] at hu
    refine ⟨hu, ?_⟩
    rintro rfl
    obtain ⟨time, hb⟩ := h.waiters o u hu
    exact hblocked time o hb

theorem proceed_cases (op : PmutexOp) (ret : PmutexRet) :
    (proceed op ret).holds = false ∧ (proceed op ret).takesDown = none ∧ (proceed op ret).counted = none ∧
      (∀ o active, proceed op ret ≠ .checking o active) ∧
      ∀ b, (proceed op ret).expects = some b → op = .destroy ∧ b = decide (ret = .ebusy) := by
  unfold proceed
  split
  · simp [Pc.holds, Pc.takesDown, Pc.counted, Pc.expects]
  · simp [Pc.holds, Pc.takesDown, Pc.counted, Pc.expects]
  · refine ⟨rfl, rfl, rfl, by simp, fun b hb => ?_⟩
    cases op with
    | destroy => exact ⟨rfl, (Option.some.inj hb).symm⟩
    | _ => simp [Pc.expects] at hb

theorem sameObjects_setPc (s : PmutexSys) (t : Tid) (p : Pc) : SameObjects s (s.setPc t p) :=
  ⟨rfl, rfl, rfl, rfl, fun _ => rfl, fun _ => rfl⟩

theorem Inv.not_owner (h : s.Inv) (ht : (s.pc t).holds = false) : s.lockOwner ≠ some t := by
  rw [ne_eq, ← h.gate t, ht]
  simp

theorem Inv.call (h : s.Inv) {op : PmutexOp} (hs : s.step (.call t op) = some s') : s'.Inv := by
  have key : ∀ ret, (s.pc t).holds = false → (s.pc t).counted = none → (∀ time o, s.pc t ≠ .blocked time o) →
      ret = ({ s.setPc t (.wants op) with seen := Function.update s.seen t false } : PmutexSys) → ret.Inv := by
    rintro _ hh hc hb rfl
    refine h.strolls (p := .wants op) (h.not_owner hh) rfl ⟨rfl, rfl, rfl, rfl, fun _ => rfl, fun _ => rfl⟩ rfl rfl rfl
      rfl hc.symm hb (fun u hu => Function.update_of_ne hu _ _) fun b hb' => ?_
    cases op <;> simp_all [Pc.expects]
  simp only [step] at hs
  split at hs
  · rename_i he
    simp only [Option.ite_none_right_eq_some, Option.some.injEq] at hs
    exact key s' (by simp [he, Pc.holds]) (by simp [he, Pc.counted]) (by simp [he]) hs.2.symm
  · rename_i he
    simp only [Option.ite_none_right_eq_some, Option.some.injEq] at hs
    exact key s' (by simp [he, Pc.holds]) (by simp [he, Pc.counted]) (by simp [he]) hs.2.symm
  · simp at hs

/-- A part of the call ends before `_pmutex_lock` is taken. -/
theorem Inv.gives_up (h : s.Inv) {op : PmutexOp} {ret : PmutexRet} (hw : s.pc t = .wants op) (hr : ret ≠ .ebusy) :
    (s.setPc t (proceed op ret)).Inv := by
  obtain ⟨h1, h2, h3, h4, h5⟩ := proceed_cases op ret
  have hh : (s.pc t).holds = false := by simp [hw, Pc.holds]
  refine h.strolls (h.not_owner hh) rfl (sameObjects_setPc s t _) rfl rfl h1 h2 (by simp [h3, hw, Pc.counted])
    (by simp [hw]) (fun _ _ => rfl) fun b hb => ?_
  obtain ⟨rfl, rfl⟩ := h5 b hb
  simp only [hr, decide_false]
  exact h.verdict t false (by simp [hw, Pc.expects])

theorem Inv.inaccessible (h : s.Inv) (hs : s.step (.inaccessible t) = some s') : s'.Inv := by
  simp only [step] at hs
  split at hs
  · rename_i hw
    obtain rfl := Option.some.inj hs
    exact h.gives_up hw (by simp)
  · rename_i hw
    obtain rfl := Option.some.inj hs
    exact h.gives_up hw (by simp)
  · simp at hs

theorem Inv.takeGlobal (h : s.Inv) {taken : Bool} (hs : s.step (.takeGlobal t taken) = some s') : s'.Inv := by
  simp only [step] at hs
  split at hs
  · rename_i op hw
    split_ifs at hs with h0 hl
    · obtain rfl := Option.some.inj hs
      refine h.gives_up hw ?_
      cases op <;> simp [notTaken]
    · obtain rfl := Option.some.inj hs
      refine h.moves (p := .inside op) (.inr hl) rfl rfl ⟨rfl, rfl, rfl, rfl, fun _ => rfl, fun _ => rfl⟩ rfl rfl
        (by simp [hw, Pc.takesDown]) rfl (fun _ => trivial) (by simp [hw, Pc.counted]) (by simp [Pc.counted])
        (by simp [hw]) (by simp) (by simp) fun b hb => ?_
      refine h.verdict t b ?_
      rw [hw]
      cases op <;> simp_all [Pc.expects]
  · simp at hs

theorem Inv.walks (h : s.Inv) (hh : (s.pc t).holds = true) (hp : p.holds = true) (hfrom : (s.pc t).takesDown = none)
    (hto : p.takesDown = none) (hst : s.Stage p) (hc : p.counted = (s.pc t).counted)
    (huse : ∀ o, p.counted = some o → o < s.next ∧ s.condemned o = false) (hcheck : ∀ o active, p ≠ .checking o active)
    (hadd : ∀ time o, p ≠ .adding time o) (hverdict : ∀ b, p.expects = some b → s.seen t = b) : (s.setPc t p).Inv := by
  have hl := (h.gate t).mp hh
  refine h.moves (.inl hl) rfl (by rw [if_pos hp]; exact hl) (sameObjects_setPc s t p) rfl rfl hfrom hto
    (fun _ => hst) hc huse ?_ hcheck hadd hverdict
  intro time o hb
  simp [hb, Pc.holds] at hh

theorem Inv.not_found (h : s.Inv) {op : PmutexOp} (hi : s.pc t = .inside op) :
    (s.setPc t (.finishing op (notFound op))).Inv := by
  refine h.walks (by simp [hi, Pc.holds]) rfl (by simp [hi, Pc.takesDown]) rfl trivial (by simp [hi, Pc.counted])
    (by simp [Pc.counted]) (by simp) (by simp) fun b hb => ?_
  cases op with
  | destroy =>
    have hv := h.verdict t false (by simp [hi, Pc.expects])
    rw [hv]
    simpa [Pc.expects, notFound] using hb
  | _ => simp [Pc.expects] at hb

theorem Inv.tree_alive (h : s.Inv) (hh : (s.pc t).holds = true) (hd : (s.pc t).takesDown = none)
    (ht : s.tree = some o) : o < s.next ∧ s.condemned o = false ∧ (s.pmutex o).destroying = false := by
  have hlt := h.objects.tree o ht
  have hc : s.condemned o = false := by
    by_contra hc
    have hdead := h.objects.dead o (by simpa using hc) (by rw [h.ownerPc_eq hh, hd]; simp)
    exact hdead.2 ht
  exact ⟨hlt, hc, (h.objects.alive o hlt hc).2.2.1⟩

theorem objects_setCount (h : s.Objects p) (n : ℕ) :
    (s.setPmutex o { s.pmutex o with operationCount := n }).Objects p := by
  refine h.congr ⟨rfl, rfl, rfl, rfl, fun o' => ?_, fun o' => ?_⟩
  all_goals
    by_cases ho : o' = o
    · subst ho
      simp [setPmutex]
    · simp [setPmutex, ho]

theorem users_encard_gain (h : s.Inv) (hpc : s'.pc = Function.update s.pc t p) (hc : p.counted = some o)
    (h0 : (s.pc t).counted = none)
    (hm : s'.pmutex = Function.update s.pmutex o { s.pmutex o with operationCount := (s.pmutex o).operationCount + 1 })
    (o' : Oid) : (s'.users o').encard = (s'.pmutex o').operationCount := by
  by_cases ho : o' = o
  · subst ho
    rw [users_gain hpc hc h0, h.count, hm, Function.update_self]
    push_cast
    rfl
  · rw [users_other hpc (by rw [hc]; simpa using Ne.symm ho) (by simp [h0]), h.count, hm, Function.update_of_ne ho]

theorem users_encard_lose (h : s.Inv) (hpc : s'.pc = Function.update s.pc t p) (hc : p.counted = none)
    (h0 : (s.pc t).counted = some o)
    (hm : s'.pmutex = Function.update s.pmutex o { s.pmutex o with operationCount := (s.pmutex o).operationCount - 1 })
    (o' : Oid) : (s'.users o').encard = (s'.pmutex o').operationCount := by
  by_cases ho : o' = o
  · subst ho
    have hlose := users_lose hpc hc h0
    rw [h.count] at hlose
    rw [hm, Function.update_self]
    dsimp only
    generalize (s'.users o').encard = n at hlose ⊢
    generalize (s.pmutex o').operationCount = c at hlose ⊢
    induction n using ENat.recTopCoe with
    | top => simp at hlose
    | coe n =>
      norm_cast at hlose ⊢
      omega
  · rw [users_other hpc (by simp [hc]) (by rw [h0]; simpa using Ne.symm ho), h.count, hm, Function.update_of_ne ho]

theorem waiters_setCount (n : ℕ) (o' : Oid) :
    ((s.setPmutex o { s.pmutex o with operationCount := n }).pmutex o').waiters = (s.pmutex o').waiters := by
  by_cases ho : o' = o
  · subst ho
    simp [setPmutex]
  · simp [setPmutex, ho]

theorem isLocked_setCount (n : ℕ) (o' : Oid) :
    ((s.setPmutex o { s.pmutex o with operationCount := n }).pmutex o').isLocked = (s.pmutex o').isLocked := by
  by_cases ho : o' = o
  · subst ho
    simp [setPmutex, Pmutex.isLocked]
  · simp [setPmutex, ho]

/-- `pmutex_get` finds the mutex. -/
theorem Inv.found (h : s.Inv) {op : PmutexOp} (hi : s.pc t = .inside op) (ht : s.tree = some o)
    (hpc : s'.pc = Function.update s.pc t p) (hp : p = .got op o ∨ p = .checking o (s.pmutex o).operationCount)
    (hpm : s'.pmutex = (s.setPmutex o { s.pmutex o with operationCount := (s.pmutex o).operationCount + 1 }).pmutex)
    (hs : s'.next = s.next ∧ s'.tree = s.tree ∧ s'.condemned = s.condemned ∧ s'.released = s.released)
    (hl : s'.lockOwner = s.lockOwner) (hseen : ∀ u, u ≠ t → s'.seen u = s.seen u)
    (hself : p = .checking o (s.pmutex o).operationCount →
      s'.seen t = decide ((s.pmutex o).operationCount ≠ 0 ∨ (s.pmutex o).isLocked = true)) : s'.Inv := by
  obtain ⟨hsn, hst, hsc, hsr⟩ := hs
  have hh : (s.pc t).holds = true := by simp [hi, Pc.holds]
  have hd : (s.pc t).takesDown = none := by simp [hi, Pc.takesDown]
  have h0 : (s.pc t).counted = none := by simp [hi, Pc.counted]
  have hlo := (h.gate t).mp hh
  obtain ⟨hlt, hc, hdes⟩ := h.tree_alive hh hd ht
  have hpH : p.holds = true ∧ p.counted = some o ∧ p.takesDown = none ∧ p.expects = none ∧ s.Stage p := by
    obtain rfl | rfl := hp
    · exact ⟨rfl, rfl, rfl, rfl, hlt, hc⟩
    · exact ⟨rfl, rfl, rfl, rfl, hlt, hc⟩
  obtain ⟨hp1, hp2, hp3, hp4, hp5⟩ := hpH
  refine h.owned (.inl hlo) hpc (by rw [if_pos hp1, hl, hlo]) ?_ hsn.ge (fun u o' _ _ => by rw [hsc])
    (fun hf => by simp [hp1] at hf) (users_encard_gain h hpc hp2 h0 hpm) (fun o' => ?_) (by simp [hi]) hseen
    (fun b hb => by simp [hp4] at hb) (fun o' active he => ?_) fun time o' he => ?_
  · rw [if_pos hp1]
    have hob := h.objects
    rw [h.ownerPc_eq hh] at hob
    have hset := objects_setCount (o := o) (hob.move hd hp5) ((s.pmutex o).operationCount + 1)
    refine hset.congr ⟨hsn, hst, hsc, hsr, fun o' => ?_, fun o' => ?_⟩
    · rw [hpm]
    · rw [hpm]
  · rw [hpm, waiters_setCount]
  · have hck : p = .checking o (s.pmutex o).operationCount := by
      obtain rfl | rfl := hp
      · simp at he
      · rfl
    rw [hself hck]
    rw [hck] at he
    obtain ⟨rfl, rfl⟩ := Pc.checking.inj he
    rw [hpm, isLocked_setCount]
    refine ⟨by simp, fun hz => ?_⟩
    have hempty : s.users o = ∅ := by
      rw [← Set.encard_eq_zero, h.count, hz]
      rfl
    rw [users_update hpc, if_pos hp2, hempty, insert_empty_eq]
  · obtain rfl | rfl := hp
    · simp at he
    · simp at he

theorem Inv.lookup (h : s.Inv) (hs : s.step (.lookup t) = some s') : s'.Inv := by
  simp only [step] at hs
  split at hs
  · rename_i time hi
    have hh : (s.pc t).holds = true := by simp [hi, Pc.holds]
    have hd : (s.pc t).takesDown = none := by simp [hi, Pc.takesDown]
    split_ifs at hs with he
    · obtain rfl := Option.some.inj hs
      exact h.walks hh rfl hd rfl trivial (by simp [hi, Pc.counted]) (by simp [Pc.counted]) (by simp)
        (by simp) (by simp [Pc.expects])
    · obtain rfl := Option.some.inj hs
      refine h.walks hh rfl hd rfl ?_ (by simp [hi, Pc.counted]) (by simp [Pc.counted]) (by simp)
        (by simp) (by simp [Pc.expects])
      -- a mutex that the tree still has is not being destroyed
      cases ht : s.tree with
      | none => exact ht
      | some o => simp [ht, (h.tree_alive hh hd ht).2.2] at he
  · rename_i op hne hi
    obtain rfl := Option.some.inj hs
    unfold get
    split
    · exact h.not_found hi
    · rename_i o ht
      dsimp only
      split_ifs with hdes
      · exact h.not_found hi
      · split
        · exact h.found hi ht rfl (.inr rfl) rfl ⟨rfl, rfl, rfl, rfl⟩ rfl (fun u hu => Function.update_of_ne hu _ _)
            fun _ => Function.update_self _ _ _
        · exact h.found hi ht rfl (.inl rfl) rfl ⟨rfl, rfl, rfl, rfl⟩ rfl (fun u hu => rfl) fun hp => by simp at hp
  · simp at hs

theorem Inv.users_eq_empty (h : s.Inv) (hc : s.condemned o = true) (ht : (s.pc t).holds = true)
    (h0 : (s.pc t).counted = none) : s.users o = ∅ := by
  rw [Set.eq_empty_iff_forall_notMem]
  intro u hu
  have hu' : (s.pc u).counted = some o := hu
  have hut : u ≠ t := by
    rintro rfl
    simp [h0] at hu'
  have := ((h.outside u (others_wait (.inl ((h.gate t).mp ht)) hut)).2 o hu').2
  simp [hc] at this

theorem Inv.users_eq_singleton (h : s.Inv) (hc : s.condemned o = true) (ht : (s.pc t).holds = true)
    (h0 : (s.pc t).counted = some o) : s.users o = {t} := by
  ext u
  rw [Set.mem_singleton_iff]
  constructor
  · intro hu
    have hu' : (s.pc u).counted = some o := hu
    by_contra hut
    have := ((h.outside u (others_wait (.inl ((h.gate t).mp ht)) hut)).2 o hu').2
    simp [hc] at this
  · rintro rfl
    exact h0

theorem Inv.count_zero (h : s.Inv) (he : s.users o = ∅) : (s.pmutex o).operationCount = 0 := by
  have := h.count o
  rw [he, Set.encard_empty] at this
  exact_mod_cast this.symm

theorem Inv.count_one (h : s.Inv) (he : s.users o = {t}) : (s.pmutex o).operationCount = 1 := by
  have := h.count o
  rw [he, Set.encard_singleton] at this
  exact_mod_cast this.symm

theorem Inv.create (h : s.Inv) {type : Option PmutexType} (hs : s.step (.create t type) = some s') : s'.Inv := by
  simp only [step] at hs
  split at hs
  · rename_i time hi
    obtain rfl := Option.some.inj hs
    exact h.walks (by simp [hi, Pc.holds]) rfl (by simp [hi, Pc.takesDown]) rfl trivial (by simp [hi, Pc.counted])
      (by simp [Pc.counted]) (by simp) (by simp) (by simp [Pc.expects])
  · rename_i time type hi
    obtain rfl := Option.some.inj hs
    have hh : (s.pc t).holds = true := by simp [hi, Pc.holds]
    have hl := (h.gate t).mp hh
    have hob := h.objects
    rw [h.ownerPc_eq hh, hi] at hob
    have hnone : s.tree = none := hob.stage
    obtain ⟨hnc, hnr⟩ := hob.fresh s.next le_rfl
    have hunused : s.users s.next = ∅ := by
      rw [Set.eq_empty_iff_forall_notMem]
      intro u hu
      have hu' : (s.pc u).counted = some s.next := hu
      have hut : u ≠ t := by
        rintro rfl
        simp [hi, Pc.counted] at hu'
      exact absurd ((h.outside u (others_wait (.inl hl) hut)).2 s.next hu').1 (lt_irrefl _)
    have husers : ∀ o, PmutexSys.users { (s.setPmutex s.next (Pmutex.create type)).setPc t (.adding time s.next) with
        tree := some s.next, next := s.next + 1 } o = s.users o :=
      fun o => users_same (p := .adding time s.next) rfl (by simp [hi, Pc.counted])
    have hold : ∀ o, o ≠ s.next → Function.update s.pmutex s.next (Pmutex.create type) o = s.pmutex o :=
      fun o ho => Function.update_of_ne ho _ _
    refine h.owned (p := .adding time s.next) (.inl hl) rfl hl ⟨fun o ho => ?_, fun o ho => ?_, fun o ho hc => ?_,
      fun o hc _ => ?_, Nat.lt_succ_self _, hnc⟩ (Nat.le_succ _) (fun _ _ _ _ => rfl) (by simp [Pc.holds])
      (fun o => ?_) (fun o => ?_) (by simp [hi]) (fun _ _ => rfl) (by simp [Pc.expects]) (by simp)
      fun time' o he => ?_
    · exact hob.fresh o ((Nat.le_succ _).trans ho)
    · obtain rfl := Option.some.inj ho
      exact Nat.lt_succ_self _
    · by_cases hon : o = s.next
      · subst hon
        simp only [setPc, setPmutex, Function.update_self]
        exact ⟨trivial, rfl, rfl, hnr⟩
      · have hlt : o < s.next := lt_of_le_of_ne (Nat.lt_succ_iff.mp ho) hon
        have := (hob.alive o hlt hc).1
        simp [hnone] at this
    · have hon : o ≠ s.next := by
        rintro rfl
        simp [setPc, setPmutex, hnc] at hc
      refine ⟨(hob.dead o hc (by simp [Pc.takesDown])).1, ?_⟩
      simpa using Ne.symm hon
    · rw [husers o]
      by_cases hon : o = s.next
      · subst hon
        simp [hunused, setPc, setPmutex, Pmutex.create]
      · simp only [setPc, setPmutex, hold o hon]
        exact h.count o
    · by_cases hon : o = s.next
      · subst hon
        simp [setPc, setPmutex, Pmutex.create]
      · simp only [setPc, setPmutex, hold o hon, List.Sublist.refl]
    · obtain ⟨-, rfl⟩ := Pc.adding.inj he
      rw [husers, hunused]
  · simp at hs

theorem Inv.condemn (h : s.Inv) (hh : (s.pc t).holds = true) (hd : (s.pc t).takesDown = none)
    (hlt : o < s.next) (hc : s.condemned o = false) (hone : ∀ u, u ≠ t → u ∉ s.users o)
    (hp : (∃ time, p = .undoing time o) ∨ p = .removing o) (hsame : p.counted = (s.pc t).counted)
    (hverdict : ∀ b, p.expects = some b → s.seen t = b) :
    Inv { s.setPc t p with condemned := Function.update s.condemned o true } := by
  have hl := (h.gate t).mp hh
  have hob := h.objects
  rw [h.ownerPc_eq hh] at hob
  obtain ⟨htree, hlinked, hdes, hrel⟩ := hob.alive o hlt hc
  have hpH : p.holds = true ∧ p.takesDown = some o ∧ (∀ o active, p ≠ .checking o active) ∧
      (∀ time o, p ≠ .adding time o) := by
    obtain ⟨time, rfl⟩ | rfl := hp
    · exact ⟨rfl, rfl, by simp, by simp⟩
    · exact ⟨rfl, rfl, by simp, by simp⟩
  obtain ⟨hp1, hp2, hp3, hp4⟩ := hpH
  have hst : Stage { s.setPc t p with condemned := Function.update s.condemned o true } p := by
    obtain ⟨time, rfl⟩ | rfl := hp
    · exact ⟨htree, Function.update_self _ _ _, hlinked, hdes, hrel⟩
    · exact ⟨htree, Function.update_self _ _ _, hlinked, hdes, hrel⟩
  refine h.owned (p := p) (.inl hl) rfl (by rw [if_pos hp1]; exact hl) ?_ le_rfl (fun u o' hu hcu => ?_)
    (fun hf => by simp [hp1] at hf) (fun o' => ?_) (fun _ => .refl _) (fun time o' hb => ?_) (fun _ _ => rfl) hverdict
    (fun o' active he => absurd he (hp3 o' active)) fun time o' he => absurd he (hp4 time o')
  · rw [if_pos hp1]
    refine ⟨fun o' ho' => ?_, hob.tree, fun o' ho' hc' => ?_, fun o' hc' hne => ?_, hst⟩
    · have hoo : o' ≠ o := by
        rintro rfl
        exact absurd hlt (not_lt.mpr ho')
      simpa [hoo, setPc] using hob.fresh o' ho'
    · have hoo : o' ≠ o := by
        rintro rfl
        simp at hc'
      exact hob.alive o' ho' (by simpa [hoo] using hc')
    · have hoo : o' ≠ o := by
        rintro rfl
        exact hne hp2
      exact hob.dead o' (by simpa [hoo] using hc') (by simp [hd])
  · have hoo : o' ≠ o := by
      rintro rfl
      exact hone u hu hcu
    exact Function.update_of_ne hoo _ _
  · rw [users_same (s := s) (p := p) rfl hsame]
    exact h.count o'
  · simp [hb, Pc.holds] at hh

theorem Inv.objectAdd (h : s.Inv) {added : Bool} (hs : s.step (.objectAdd t added) = some s') : s'.Inv := by
  simp only [step] at hs
  split at hs
  · rename_i time o hi
    have hh : (s.pc t).holds = true := by simp [hi, Pc.holds]
    have hd : (s.pc t).takesDown = none := by simp [hi, Pc.takesDown]
    split_ifs at hs
    · obtain rfl := Option.some.inj hs
      exact h.walks hh rfl hd rfl trivial (by simp [hi, Pc.counted]) (by simp [Pc.counted]) (by simp) (by simp)
        (by simp [Pc.expects])
    · obtain rfl := Option.some.inj hs
      have hst := h.objects.stage
      rw [h.ownerPc_eq hh, hi] at hst
      refine h.condemn hh hd hst.1 hst.2 (fun u _ => ?_) (.inl ⟨time, rfl⟩) (by simp [hi, Pc.counted])
        (by simp [Pc.expects])
      simp [h.adding t time o hi]
  · simp at hs

theorem Inv.isLocked (h : s.Inv) (hs : s.step (.isLocked t) = some s') : s'.Inv := by
  simp only [step] at hs
  split at hs
  · rename_i o active hi
    have hh : (s.pc t).holds = true := by simp [hi, Pc.holds]
    have hd : (s.pc t).takesDown = none := by simp [hi, Pc.takesDown]
    have hst := h.objects.stage
    rw [h.ownerPc_eq hh, hi] at hst
    obtain ⟨hseen, halone⟩ := h.checking t o active hi
    split_ifs at hs with hbusy
    · obtain rfl := Option.some.inj hs
      refine h.walks hh rfl hd rfl hst (by simp [hi, Pc.counted]) (fun o' ho' => ?_) (by simp) (by simp) fun b hb => ?_
      · obtain rfl := Option.some.inj ho'
        exact hst
      · rw [← Option.some.inj hb]
        exact hseen.mpr hbusy
    · obtain rfl := Option.some.inj hs
      refine h.condemn hh hd hst.1 hst.2 (fun u hu => ?_) (.inr rfl) (by simp [hi, Pc.counted]) fun b hb => ?_
      · rw [halone (by tauto)]
        simpa using hu
      · rw [← Option.some.inj hb, ← Bool.not_eq_true, hseen]
        exact hbusy
  · simp at hs

theorem Objects.takeDown {p' : Pc} (h : s.Objects p) (hp : p.takesDown = some o) (hp' : p'.takesDown = some o)
    (htree : s.tree = some o ∨ s.tree = none) (hc : s.condemned o = true)
    (hs : s'.next = s.next ∧ s'.tree = none ∧ s'.condemned = s.condemned ∧ s'.released = s.released)
    (hst : s'.Stage p') : s'.Objects p' := by
  obtain ⟨hn, ht, hcd, hr⟩ := hs
  refine ⟨?_, by simp [ht], fun o' ho' hc' => ?_, fun o' hc' hne => ?_, hst⟩
  · rw [hn, hcd, hr]
    exact h.fresh
  · -- a mutex that nobody has condemned would still be the one in the tree
    rw [hn] at ho'
    rw [hcd] at hc'
    have htree' := (h.alive o' ho' hc').1
    obtain h0 | h0 := htree
    · obtain rfl := Option.some.inj (htree'.symm.trans h0)
      simp [hc] at hc'
    · simp [h0] at htree'
  · rw [hcd] at hc'
    rw [hr, ht]
    refine ⟨(h.dead o' hc' ?_).1, by simp⟩
    rw [hp]
    rwa [hp'] at hne

theorem treeRemove_linked (hl : (s.pmutex o).linked = true) :
    s.treeRemove o = { s.setPmutex o { s.pmutex o with linked := false } with tree := none } := if_pos hl

theorem treeRemove_unlinked (hl : (s.pmutex o).linked = false) : s.treeRemove o = s := by simp [treeRemove, hl]

theorem Inv.dismantle (h : s.Inv) (hh : (s.pc t).holds = true) (hd : (s.pc t).takesDown = some o)
    (hc : s.condemned o = true) (htree : s.tree = some o ∨ s.tree = none)
    (hpc : s'.pc = Function.update s.pc t p) {m : Pmutex} (hpm : s'.pmutex = Function.update s.pmutex o m)
    (hm : m.operationCount = (s.pmutex o).operationCount ∧ m.waiters = (s.pmutex o).waiters)
    (hs : s'.next = s.next ∧ s'.tree = none ∧ s'.condemned = s.condemned ∧ s'.released = s.released)
    (hl : s'.lockOwner = s.lockOwner) (hseen : s'.seen = s.seen) (hp : p.holds = true) (hd' : p.takesDown = some o)
    (hsame : p.counted = (s.pc t).counted) (hverdict : ∀ b, p.expects = some b → s.seen t = b)
    (hst : s'.Stage p) : s'.Inv := by
  have hlo := (h.gate t).mp hh
  have hob := h.objects
  rw [h.ownerPc_eq hh] at hob
  refine h.owned (.inl hlo) hpc (by rw [if_pos hp, hl, hlo]) ?_ hs.1.ge (fun _ o' _ _ => by rw [hs.2.2.1])
    (fun hf => by simp [hp] at hf) (fun o' => ?_) (fun o' => ?_) (fun time o' hb => ?_) (fun u _ => by rw [hseen])
    (fun b hb => hseen ▸ hverdict b hb) (fun o' active he => ?_) fun time o' he => ?_
  · rw [if_pos hp]
    exact hob.takeDown hd hd' htree hc hs hst
  · rw [users_same hpc hsame, h.count, hpm]
    by_cases ho : o' = o
    · subst ho
      rw [Function.update_self, hm.1]
    · rw [Function.update_of_ne ho]
  · rw [hpm]
    by_cases ho : o' = o
    · subst ho
      rw [Function.update_self, hm.2]
    · rw [Function.update_of_ne ho]
  · simp [hb, Pc.holds] at hh
  · simp [he, Pc.takesDown] at hd'
  · simp [he, Pc.takesDown] at hd'

theorem Inv.treeRemove (h : s.Inv) (hs : s.step (.treeRemove t) = some s') : s'.Inv := by
  simp only [step] at hs
  split at hs
  · rename_i time o hi
    obtain rfl := Option.some.inj hs
    have hh : (s.pc t).holds = true := by simp [hi, Pc.holds]
    have hst := h.objects.stage
    rw [h.ownerPc_eq hh, hi] at hst
    obtain ⟨htree, hc, hlinked, hdes, hrel⟩ := hst
    rw [treeRemove_linked hlinked]
    refine h.dismantle (p := .dropping time o) hh (by simp [hi, Pc.takesDown]) hc (.inl htree) rfl rfl ⟨rfl, rfl⟩
      ⟨rfl, rfl, rfl, rfl⟩ rfl rfl rfl rfl (by simp [hi, Pc.counted]) (by simp [Pc.expects]) ?_
    simp only [Stage, setPc, setPmutex, Function.update_self]
    exact ⟨trivial, hc, trivial, hdes, hrel⟩
  · rename_i o hi
    obtain rfl := Option.some.inj hs
    have hh : (s.pc t).holds = true := by simp [hi, Pc.holds]
    have hst := h.objects.stage
    rw [h.ownerPc_eq hh, hi] at hst
    obtain ⟨htree, hc, hlinked, hdes, hrel⟩ := hst
    rw [treeRemove_linked hlinked]
    refine h.dismantle (p := .deleting o) hh (by simp [hi, Pc.takesDown]) hc (.inl htree) rfl rfl ⟨rfl, rfl⟩
      ⟨rfl, rfl, rfl, rfl⟩ rfl rfl rfl rfl (by simp [hi, Pc.counted]) (fun b hb => ?_) ?_
    · exact h.verdict t b (by simpa [hi, Pc.expects] using hb)
    · simp only [Stage, setPc, setPmutex, Function.update_self]
      exact ⟨trivial, hc, trivial, hdes, hrel⟩
  · simp at hs

theorem Inv.destory (h : s.Inv) (hs : s.step (.destory t) = some s') : s'.Inv := by
  simp only [step] at hs
  split at hs
  · rename_i time o hi
    obtain rfl := Option.some.inj hs
    have hh : (s.pc t).holds = true := by simp [hi, Pc.holds]
    have hst := h.objects.stage
    rw [h.ownerPc_eq hh, hi] at hst
    obtain ⟨htree, hc, hlinked, hdes, hrel⟩ := hst
    have hzero := h.count_zero (h.users_eq_empty hc hh (by simp [hi, Pc.counted]))
    simp only [PmutexSys.destory, treeRemove_unlinked hlinked, hzero, if_true]
    refine h.dismantle (p := .releasing o (.finishing (.init time) .enomem)) hh (by simp [hi, Pc.takesDown]) hc
      (.inr htree) rfl rfl ⟨hzero.symm, rfl⟩ ⟨rfl, htree, rfl, rfl⟩ rfl rfl rfl rfl (by simp [hi, Pc.counted])
      (by simp [Pc.expects]) ?_
    exact ⟨htree, hc, hrel, _, _, rfl⟩
  · rename_i o hi
    obtain rfl := Option.some.inj hs
    have hh : (s.pc t).holds = true := by simp [hi, Pc.holds]
    have hst := h.objects.stage
    rw [h.ownerPc_eq hh, hi] at hst
    obtain ⟨htree, hc, hlinked, hdes, hrel⟩ := hst
    have hone := h.count_one (h.users_eq_singleton hc hh (by simp [hi, Pc.counted]))
    simp only [PmutexSys.destory, treeRemove_unlinked hlinked, hone, one_ne_zero, if_false]
    refine h.dismantle (p := .lastPut o) hh (by simp [hi, Pc.takesDown]) hc (.inr htree) rfl rfl ⟨hone.symm, rfl⟩
      ⟨rfl, htree, rfl, rfl⟩ rfl rfl rfl rfl (by simp [hi, Pc.counted]) (fun b hb => ?_) ?_
    · exact h.verdict t b (by simpa [hi, Pc.expects] using hb)
    · simp only [Stage, setPc, setPmutex, Function.update_self]
      exact ⟨htree, hc, trivial, hrel⟩
  · simp at hs

theorem Inv.releaseGlobal (h : s.Inv) (hs : s.step (.releaseGlobal t) = some s') : s'.Inv := by
  simp only [step] at hs
  split at hs
  · rename_i time first o hi
    obtain rfl := Option.some.inj hs
    have hh : (s.pc t).holds = true := by simp [hi, Pc.holds]
    have hst := h.objects.stage
    rw [h.ownerPc_eq hh, hi] at hst
    refine h.moves (p := .locking time o) (.inl ((h.gate t).mp hh)) rfl rfl
      ⟨rfl, rfl, rfl, rfl, fun _ => rfl, fun _ => rfl⟩ rfl rfl (by simp [hi, Pc.takesDown]) rfl (by simp [Pc.holds])
      (by simp [hi, Pc.counted]) (fun o' ho' => ?_) (by simp [hi]) (by simp) (by simp) (by simp [Pc.expects])
    obtain rfl := Option.some.inj ho'
    exact hst
  · rename_i o hi
    obtain rfl := Option.some.inj hs
    have hh : (s.pc t).holds = true := by simp [hi, Pc.holds]
    have hst := h.objects.stage
    rw [h.ownerPc_eq hh, hi] at hst
    refine h.moves (p := .unlocking o) (.inl ((h.gate t).mp hh)) rfl rfl
      ⟨rfl, rfl, rfl, rfl, fun _ => rfl, fun _ => rfl⟩ rfl rfl (by simp [hi, Pc.takesDown]) rfl (by simp [Pc.holds])
      (by simp [hi, Pc.counted]) (fun o' ho' => ?_) (by simp [hi]) (by simp) (by simp) (by simp [Pc.expects])
    obtain rfl := Option.some.inj ho'
    exact hst
  · rename_i op ret hi
    obtain rfl := Option.some.inj hs
    have hh : (s.pc t).holds = true := by simp [hi, Pc.holds]
    obtain ⟨h1, h2, h3, h4, h5⟩ := proceed_cases op ret
    refine h.moves (p := proceed op ret) (.inl ((h.gate t).mp hh)) rfl (by rw [h1]; rfl)
      ⟨rfl, rfl, rfl, rfl, fun _ => rfl, fun _ => rfl⟩ rfl rfl (by simp [hi, Pc.takesDown]) h2 (by simp [h1])
      (by simp [hi, h3, Pc.counted]) (by simp [h3]) (by simp [hi]) h4 (fun time o he => ?_) fun b hb => ?_
    · simp [he, Pc.holds] at h1
    · obtain ⟨rfl, rfl⟩ := h5 b hb
      exact h.verdict t _ (by simp [hi, Pc.expects])
  · simp at hs

theorem Inv.release (h : s.Inv) (hs : s.step (.release t) = some s') : s'.Inv := by
  simp only [step] at hs
  split at hs
  · rename_i o next hi
    obtain rfl := Option.some.inj hs
    have hl : s.lockOwner = some t := by
      by_contra hl
      have := (h.outside t hl).1
      simp [hi, Pc.takesDown] at this
    have hh := (h.gate t).mpr hl
    have hob := h.objects
    rw [h.ownerPc_eq hh, hi] at hob
    obtain ⟨htree, hc, hrel, op, ret, rfl⟩ := hob.stage
    refine h.owned (p := .finishing op ret) (.inl hl) rfl hl ⟨fun o' ho' => ?_, hob.tree, fun o' ho' hc' => ?_,
      fun o' hc' _ => ?_, trivial⟩ le_rfl (fun _ _ _ _ => rfl) (by simp [Pc.holds]) (fun o' => ?_) (fun _ => .refl _)
      (by simp [hi]) (fun _ _ => rfl) (fun b hb => ?_) (by simp) (by simp)
    · have hoo : o' ≠ o := by
        rintro rfl
        simp [(hob.fresh o' ho').1] at hc
      simpa [hoo, setPc] using hob.fresh o' ho'
    · have := (hob.alive o' ho' hc').1
      simp [htree] at this
    · by_cases hoo : o' = o
      · subst hoo
        simp [hrel, htree, setPc]
      · have := hob.dead o' hc' (by simpa [Pc.takesDown] using Ne.symm hoo)
        simpa [hoo, setPc] using this
    · rw [users_same (s := s) (p := .finishing op ret) rfl (by simp [hi, Pc.counted])]
      exact h.count o'
    · refine h.verdict t b ?_
      rw [hi]
      exact hb
  · simp at hs

theorem put_stays (next : Pc) (hd : (s.pmutex o).destroying = false) : s.put t o next =
    (s.setPmutex o { s.pmutex o with operationCount := (s.pmutex o).operationCount - 1 }).setPc t next := by
  simp [PmutexSys.put, hd]

theorem Inv.put_owned (h : s.Inv) (hh : (s.pc t).holds = true) (h0 : (s.pc t).counted = some o)
    (hp : p.holds = true) (hc : p.counted = none) (hob : s.Objects p)
    (hcheck : ∀ o active, p ≠ .checking o active) (hadd : ∀ time o, p ≠ .adding time o)
    (hverdict : ∀ b, p.expects = some b → s.seen t = b) :
    ((s.setPmutex o { s.pmutex o with operationCount := (s.pmutex o).operationCount - 1 }).setPc t p).Inv := by
  have hl := (h.gate t).mp hh
  refine h.owned (p := p) (.inl hl) rfl (by rw [if_pos hp]; exact hl) ?_ le_rfl (fun _ _ _ _ => rfl)
    (fun hf => by simp [hp] at hf) (users_encard_lose h rfl hc h0 rfl) (fun o' => ?_) (fun time o' hb => ?_)
    (fun _ _ => rfl) hverdict (fun o' active he => absurd he (hcheck o' active)) fun time o' he => absurd he (hadd time o')
  · rw [if_pos hp]
    have hset := objects_setCount (o := o) hob ((s.pmutex o).operationCount - 1)
    exact hset.congr (sameObjects_setPc _ t p)
  · rw [← waiters_setCount (s := s) (o := o) ((s.pmutex o).operationCount - 1) o']
    rfl
  · simp [hb, Pc.holds] at hh

theorem Inv.put (h : s.Inv) (hs : s.step (.put t) = some s') : s'.Inv := by
  simp only [step] at hs
  split at hs
  · rename_i op o ret hi
    obtain rfl := Option.some.inj hs
    have hn : s.lockOwner ≠ some t := h.not_owner (by simp [hi, Pc.holds])
    obtain ⟨hlt, hc⟩ := (h.outside t hn).2 o (by simp [hi, Pc.counted])
    have hexp : ∀ b, (Pc.returned op ret).expects = some b → s.seen t = b := by
      intro b hb
      refine h.verdict t b ?_
      rw [hi]
      cases op with
      | destroy => exact hb
      | _ => simp [Pc.expects] at hb
    rw [put_stays _ (h.objects.alive o hlt hc).2.2.1]
    refine h.apart (p := .returned op ret) hn rfl ?_ rfl rfl rfl (by simp [Pc.counted]) (fun o' ho' => ?_)
      (users_encard_lose h rfl rfl (by simp [hi, Pc.counted]) rfl) (fun o' u hu => .inl ?_) (fun o' => ?_) (fun _ _ => rfl) hexp
    · refine ⟨rfl, rfl, rfl, rfl, fun o' => ?_, fun o' => ?_⟩
      all_goals
        by_cases ho : o' = o
        · subst ho
          simp [setPmutex, setPc]
        · simp [setPmutex, setPc, ho]
    · exact isLocked_setCount (s := s) (o := o) ((s.pmutex o).operationCount - 1) o'
    · have he := waiters_setCount (s := s) (o := o) ((s.pmutex o).operationCount - 1) o'
      have hu' : u ∈ (s.pmutex o').waiters := by
        rw [← he]
        exact hu
      refine ⟨hu', ?_⟩
      rintro rfl
      obtain ⟨time, hb⟩ := h.waiters o' u hu'
      simp [hi] at hb
    · have hnd := h.nodup o'
      rw [← waiters_setCount (s := s) (o := o) ((s.pmutex o).operationCount - 1) o'] at hnd
      exact hnd
  · rename_i o hi
    obtain rfl := Option.some.inj hs
    have hh : (s.pc t).holds = true := by simp [hi, Pc.holds]
    have hob := h.objects
    rw [h.ownerPc_eq hh, hi] at hob
    obtain ⟨hlt, hc⟩ := hob.stage
    rw [put_stays _ (hob.alive o hlt hc).2.2.1]
    refine h.put_owned hh (by simp [hi, Pc.counted]) rfl rfl (hob.move rfl trivial) (by simp) (by simp) fun b hb => ?_
    refine h.verdict t b ?_
    rw [hi]
    simpa [Pc.expects] using hb
  · rename_i o hi
    obtain rfl := Option.some.inj hs
    have hh : (s.pc t).holds = true := by simp [hi, Pc.holds]
    have h0 : (s.pc t).counted = some o := by simp [hi, Pc.counted]
    have hob := h.objects
    rw [h.ownerPc_eq hh, hi] at hob
    obtain ⟨htree, hc, hdes, hrel⟩ := hob.stage
    have hone := h.count_one (h.users_eq_singleton hc hh h0)
    have hput : s.put t o (.finishing .destroy .ok) =
        (s.setPmutex o { s.pmutex o with operationCount := (s.pmutex o).operationCount - 1 }).setPc t
          (.releasing o (.finishing .destroy .ok)) := by
      simp [PmutexSys.put, hdes, hone]
    rw [hput]
    refine h.put_owned hh h0 rfl rfl ?_ (by simp) (by simp) fun b hb => ?_
    · exact hob.takeDown rfl rfl (.inr htree) hc ⟨rfl, htree, rfl, rfl⟩ ⟨htree, hc, hrel, _, _, rfl⟩
    · refine h.verdict t b ?_
      rw [hi]
      simpa [Pc.expects] using hb
  · simp at hs

theorem Inv.operate (h : s.Inv) (hh : (s.pc t).holds = false) (h0 : (s.pc t).counted = some o)
    (hpc : s'.pc = Function.update s.pc t p) {m : Pmutex} (hpm : s'.pmutex = Function.update s.pmutex o m)
    (hm : m.operationCount = (s.pmutex o).operationCount ∧ m.linked = (s.pmutex o).linked ∧
      m.destroying = (s.pmutex o).destroying)
    (hw : ∀ u ∈ m.waiters, (u ∈ (s.pmutex o).waiters ∧ u ≠ t) ∨ (u = t ∧ ∃ time, p = .blocked time o))
    (hnd : m.waiters.Nodup)
    (hs : s'.next = s.next ∧ s'.tree = s.tree ∧ s'.condemned = s.condemned ∧ s'.released = s.released)
    (hl : s'.lockOwner = s.lockOwner) (hseen : s'.seen = s.seen) (hp : p.holds = false) (hd : p.takesDown = none)
    (hc : p.counted = some o) (he : p.expects = none) : s'.Inv := by
  refine h.apart (h.not_owner hh) hpc ⟨hs.1, hs.2.1, hs.2.2.1, hs.2.2.2, fun o' => ?_, fun o' => ?_⟩ hl hp hd
    (fun o' ho' => by rw [h0, ← hc, ho']) (fun o' ho' => ?_) (fun o' => ?_) (fun o' u hu => ?_) (fun o' => ?_)
    (fun u _ => by rw [hseen]) (by simp [he])
  · rw [hpm]
    by_cases ho : o' = o
    · subst ho
      rw [Function.update_self, hm.2.1]
    · rw [Function.update_of_ne ho]
  · rw [hpm]
    by_cases ho : o' = o
    · subst ho
      rw [Function.update_self, hm.2.2]
    · rw [Function.update_of_ne ho]
  · have ho : o' ≠ o := by
      rintro rfl
      exact ho' h0
    rw [hpm, Function.update_of_ne ho]
  · rw [users_same hpc (by rw [hc, h0]), h.count, hpm]
    by_cases ho : o' = o
    · subst ho
      rw [Function.update_self, hm.1]
    · rw [Function.update_of_ne ho]
  · rw [hpm] at hu
    by_cases ho : o' = o
    · subst ho
      rw [Function.update_self] at hu
      exact hw u hu
    · rw [Function.update_of_ne ho] at hu
      refine .inl ⟨hu, ?_⟩
      rintro rfl
      obtain ⟨time, hb⟩ := h.waiters o' u hu
      rw [hb] at h0
      exact ho (Option.some.inj h0)
  · rw [hpm]
    by_cases ho : o' = o
    · subst ho
      rw [Function.update_self]
      exact hnd
    · rw [Function.update_of_ne ho]
      exact h.nodup o'

theorem wait_spec (m : Pmutex) (time : ℤ) (pos : ℕ) (interrupted : Bool) :
    let r := m.wait t time pos interrupted
    (r.1.operationCount = m.operationCount ∧ r.1.linked = m.linked ∧ r.1.destroying = m.destroying) ∧
      (∀ ret, r.2 = some ret → r.1.waiters = m.waiters) ∧ (∀ u ∈ r.1.waiters, u ∈ m.waiters ∨ u = t) ∧
      (t ∉ m.waiters → m.waiters.Nodup → r.1.waiters.Nodup) := by
  simp only [Pmutex.wait]
  split_ifs
  · exact ⟨⟨rfl, rfl, rfl⟩, fun _ _ => rfl, fun u hu => .inl hu, fun _ hn => hn⟩
  · exact ⟨⟨rfl, rfl, rfl⟩, fun _ _ => rfl, fun u hu => .inl hu, fun _ hn => hn⟩
  · refine ⟨⟨rfl, rfl, rfl⟩, by simp, fun u hu => ?_, fun ht hn => ?_⟩
    · simp only [List.mem_append, List.mem_cons] at hu
      obtain hu | hu | hu := hu
      · exact .inl (List.mem_of_mem_take hu)
      · exact .inr hu
      · exact .inl (List.mem_of_mem_drop hu)
    · rw [List.nodup_middle, List.take_append_drop]
      exact List.nodup_cons.mpr ⟨ht, hn⟩

theorem takeMutex_spec (m : Pmutex) (time : ℤ) (pos : ℕ) (interrupted : Bool) :
    let r := m.takeMutex t time pos interrupted
    (r.1.operationCount = m.operationCount ∧ r.1.linked = m.linked ∧ r.1.destroying = m.destroying) ∧
      (∀ ret, r.2 = some ret → r.1.waiters = m.waiters) ∧ (∀ u ∈ r.1.waiters, u ∈ m.waiters ∨ u = t) ∧
      (t ∉ m.waiters → m.waiters.Nodup → r.1.waiters.Nodup) := by
  simp only [Pmutex.takeMutex]
  split_ifs
  · exact ⟨⟨rfl, rfl, rfl⟩, fun _ _ => rfl, fun u hu => .inl hu, fun _ hn => hn⟩
  · exact ⟨⟨rfl, rfl, rfl⟩, fun _ _ => rfl, fun u hu => .inl hu, fun _ hn => hn⟩
  · exact ⟨⟨rfl, rfl, rfl⟩, fun _ _ => rfl, fun u hu => .inl hu, fun _ hn => hn⟩
  · exact wait_spec m time pos interrupted

theorem take_spec (m : Pmutex) (time : ℤ) (pos : ℕ) (interrupted : Bool) :
    let r := m.take t time pos interrupted
    (r.1.operationCount = m.operationCount ∧ r.1.linked = m.linked ∧ r.1.destroying = m.destroying) ∧
      (∀ ret, r.2 = some ret → r.1.waiters = m.waiters) ∧ (∀ u ∈ r.1.waiters, u ∈ m.waiters ∨ u = t) ∧
      (t ∉ m.waiters → m.waiters.Nodup → r.1.waiters.Nodup) := by
  simp only [Pmutex.take]
  split
  · split_ifs
    · exact ⟨⟨rfl, rfl, rfl⟩, fun _ _ => rfl, fun u hu => .inl hu, fun _ hn => hn⟩
    · exact wait_spec m time pos interrupted
  · exact takeMutex_spec m time pos interrupted
  · split_ifs
    · exact ⟨⟨rfl, rfl, rfl⟩, fun _ _ => rfl, fun u hu => .inl hu, fun _ hn => hn⟩
    · exact takeMutex_spec m time pos interrupted

theorem unlock_spec (m : Pmutex) (t : Tid) :
    let r := m.unlock t
    (r.1.operationCount = m.operationCount ∧ r.1.linked = m.linked ∧ r.1.destroying = m.destroying) ∧
      ((r.2.2 = none ∧ r.1.waiters = m.waiters) ∨ ∃ w, r.2.2 = some w ∧ m.waiters = w :: r.1.waiters) := by
  simp only [Pmutex.unlock]
  split
  · split
    · rename_i w ws hw
      exact ⟨⟨rfl, rfl, rfl⟩, .inr ⟨w, rfl, hw⟩⟩
    · split_ifs
      · exact ⟨⟨rfl, rfl, rfl⟩, .inl ⟨rfl, rfl⟩⟩
      · exact ⟨⟨rfl, rfl, rfl⟩, .inl ⟨rfl, rfl⟩⟩
  · split_ifs
    · exact ⟨⟨rfl, rfl, rfl⟩, .inl ⟨rfl, rfl⟩⟩
    · exact ⟨⟨rfl, rfl, rfl⟩, .inl ⟨rfl, rfl⟩⟩
    · split
      · rename_i w ws hw
        exact ⟨⟨rfl, rfl, rfl⟩, .inr ⟨w, rfl, hw⟩⟩
      · exact ⟨⟨rfl, rfl, rfl⟩, .inl ⟨rfl, rfl⟩⟩

theorem Inv.not_waiting (h : s.Inv) (hb : ∀ time, s.pc t ≠ .blocked time o) {u : Tid}
    (hu : u ∈ (s.pmutex o).waiters) : u ≠ t := by
  rintro rfl
  obtain ⟨time, he⟩ := h.waiters o u hu
  exact hb time he

theorem Inv.kernelTake (h : s.Inv) {pos : ℕ} {interrupted : Bool}
    (hs : s.step (.kernelTake t pos interrupted) = some s') : s'.Inv := by
  simp only [step] at hs
  split at hs
  · rename_i time o hi
    have hh : (s.pc t).holds = false := by simp [hi, Pc.holds]
    have h0 : (s.pc t).counted = some o := by simp [hi, Pc.counted]
    obtain ⟨hm, hret, hw, hnd⟩ := take_spec (t := t) (s.pmutex o) time pos interrupted
    have hne : ∀ u ∈ (s.pmutex o).waiters, u ≠ t := fun u => h.not_waiting (by simp [hi])
    have hnd := hnd (fun ht => hne t ht rfl) (h.nodup o)
    split at hs
    · rename_i m ret he
      obtain rfl := Option.some.inj hs
      rw [he] at hm hret hnd
      refine h.operate (p := .putting (.lock time false) o ret) hh h0 rfl rfl hm (fun u hu => .inl ?_) hnd
        ⟨rfl, rfl, rfl, rfl⟩ rfl rfl rfl rfl rfl rfl
      have hu' := hret ret rfl ▸ hu
      exact ⟨hu', hne u hu'⟩
    · rename_i m he
      obtain rfl := Option.some.inj hs
      rw [he] at hm hw hnd
      refine h.operate (p := .blocked time o) hh h0 rfl rfl hm (fun u hu => ?_) hnd ⟨rfl, rfl, rfl, rfl⟩ rfl rfl rfl
        rfl rfl rfl
      obtain hu' | rfl := hw u hu
      · exact .inl ⟨hu', hne u hu'⟩
      · exact .inr ⟨rfl, time, rfl⟩
  · simp at hs

theorem Inv.wake (h : s.Inv) {timeout : Bool} (hs : s.step (.wake t timeout) = some s') : s'.Inv := by
  simp only [step] at hs
  split at hs
  · rename_i time o hi
    rw [Option.ite_none_left_eq_some] at hs
    obtain rfl := Option.some.inj hs.2
    refine h.operate (o := o) (by simp [hi, Pc.holds]) (by simp [hi, Pc.counted]) rfl rfl ⟨rfl, rfl, rfl⟩
      (fun u hu => .inl ?_) ((h.nodup o).erase t) ⟨rfl, rfl, rfl, rfl⟩ rfl rfl rfl rfl rfl rfl
    exact ((h.nodup o).mem_erase_iff.mp hu).symm
  · simp at hs

theorem Inv.unlockTest (h : s.Inv) (hs : s.step (.unlockTest t) = some s') : s'.Inv := by
  simp only [step] at hs
  split at hs
  · rename_i o hi
    have hn : s.lockOwner ≠ some t := h.not_owner (by simp [hi, Pc.holds])
    split_ifs at hs
    · obtain rfl := Option.some.inj hs
      exact h.strolls hn rfl (sameObjects_setPc s t _) rfl rfl rfl rfl (by simp [hi, Pc.counted]) (by simp [hi])
        (fun _ _ => rfl) (by simp [Pc.expects])
    · obtain rfl := Option.some.inj hs
      exact h.strolls hn rfl (sameObjects_setPc s t _) rfl rfl rfl rfl (by simp [hi, Pc.counted]) (by simp [hi])
        (fun _ _ => rfl) (by simp [Pc.expects])
  · simp at hs

theorem Inv.served (h : s.Inv) (hh : (s.pc t).holds = false) (h0 : (s.pc t).counted = some o)
    (hb : ∀ time o, s.pc t ≠ .blocked time o) :
    (((s.setPmutex o ((s.pmutex o).unlock t).1).grant ((s.pmutex o).unlock t).2.2).setPc t
      (.putting .unlock o ((s.pmutex o).unlock t).2.1)).Inv := by
  obtain ⟨hm, hw⟩ := unlock_spec (s.pmutex o) t
  generalize (s.pmutex o).unlock t = r at hm hw ⊢
  obtain ⟨hnone, hsame⟩ | ⟨w, hsome, hlist⟩ := hw
  · rw [hnone]
    refine h.operate (p := .putting .unlock o r.2.1) hh h0 rfl rfl hm (fun u hu => .inl ?_) (hsame ▸ h.nodup o)
      ⟨rfl, rfl, rfl, rfl⟩ rfl rfl rfl rfl rfl rfl
    rw [hsame] at hu
    exact ⟨hu, h.not_waiting (fun time => hb time o) hu⟩
  · obtain ⟨time, hw⟩ := h.waiters o w (by simp [hlist])
    have hwt : w ≠ t := by
      rintro rfl
      exact hb time o hw
    have hnd := h.nodup o
    rw [hlist, List.nodup_cons] at hnd
    -- the waiter first
    have hi : ((s.setPmutex o r.1).setPc w (.putting (.lock time false) o .ok)).Inv := by
      refine h.operate (o := o) (by simp [hw, Pc.holds]) (by simp [hw, Pc.counted]) rfl rfl hm (fun u hu => .inl ?_)
        hnd.2 ⟨rfl, rfl, rfl, rfl⟩ rfl rfl rfl rfl rfl rfl
      refine ⟨by simp [hlist, hu], ?_⟩
      rintro rfl
      exact hnd.1 hu
    have hgrant : (s.setPmutex o r.1).grant r.2.2 =
        (s.setPmutex o r.1).setPc w (.putting (.lock time false) o .ok) := by
      have hw' : (s.setPmutex o r.1).pc w = .blocked time o := hw
      simp only [hsome, grant, hw']
    rw [hgrant]
    have ht : ((s.setPmutex o r.1).setPc w (.putting (.lock time false) o .ok)).pc t = s.pc t :=
      Function.update_of_ne (Ne.symm hwt) _ _
    refine hi.strolls (hi.not_owner (by rw [ht, hh])) rfl (sameObjects_setPc _ t _) rfl rfl rfl rfl ?_ ?_
      (fun _ _ => rfl) (by simp [Pc.expects])
    · rw [ht, h0]
      rfl
    · rw [ht]
      exact hb

theorem Inv.kernelRelease (h : s.Inv) (hs : s.step (.kernelRelease t) = some s') : s'.Inv := by
  simp only [step] at hs
  split at hs
  · rename_i o hi
    obtain rfl := Option.some.inj hs
    exact h.served (by simp [hi, Pc.holds]) (by simp [hi, Pc.counted]) (by simp [hi])
  · rename_i o hi
    split_ifs at hs
    obtain rfl := Option.some.inj hs
    exact h.served (by simp [hi, Pc.holds]) (by simp [hi, Pc.counted]) (by simp [hi])
  · simp at hs

theorem Inv.step (h : s.Inv) {e : Event} (hs : s.step e = some s') : s'.Inv := by
  cases e with
  | call t op => exact h.call hs
  | inaccessible t => exact h.inaccessible hs
  | takeGlobal t taken => exact h.takeGlobal hs
  | lookup t => exact h.lookup hs
  | create t type => exact h.create hs
  | objectAdd t added => exact h.objectAdd hs
  | treeRemove t => exact h.treeRemove hs
  | destory t => exact h.destory hs
  | releaseGlobal t => exact h.releaseGlobal hs
  | kernelTake t pos interrupted => exact h.kernelTake hs
  | wake t timeout => exact h.wake hs
  | unlockTest t => exact h.unlockTest hs
  | kernelRelease t => exact h.kernelRelease hs
  | isLocked t => exact h.isLocked hs
  | put t => exact h.put hs
  | release t => exact h.release hs

theorem inv_init : init.Inv := by
  refine ⟨by simp [init, Pc.holds], ⟨by simp [init], by simp [init], by simp [init], by simp [init], trivial⟩,
    by simp [init, Pc.takesDown, Pc.counted], fun o => ?_, by simp [init, Pmutex.create], by simp [init, Pmutex.create],
    by simp [init, Pc.expects], by simp [init], by simp [init]⟩
  simp [users, init, Pc.counted, Pmutex.create]

@[simp] theorem treeRemove_condemned (s : PmutexSys) (o : Oid) : (s.treeRemove o).condemned = s.condemned := by
  unfold PmutexSys.treeRemove
  split_ifs
  · rfl
  · rfl

@[simp] theorem grant_condemned (s : PmutexSys) (w : Option Tid) : (s.grant w).condemned = s.condemned := by
  unfold grant
  split
  · split
    · rfl
    · rfl
  · rfl

@[simp] theorem get_condemned (s : PmutexSys) (t : Tid) (op : PmutexOp) : (s.get t op).condemned = s.condemned := by
  unfold get
  split
  · rfl
  · dsimp only
    split_ifs
    · rfl
    · split
      · rfl
      · rfl

theorem update_condemned {f : Oid → Bool} {o' : Oid} (h : f o = true) : Function.update f o' true o = true := by
  by_cases ho : o = o'
  · simp [ho]
  · simp [ho, h]

theorem step_condemned {e : Event} (hs : s.step e = some s') (hc : s.condemned o = true) : s'.condemned o = true := by
  have hupd : ∀ o', Function.update s.condemned o' true o = true := fun o' => update_condemned hc
  cases e
  all_goals
    simp only [PmutexSys.step] at hs
    repeat' split at hs
    all_goals first
      | (obtain rfl := Option.some.inj hs
         first
         | exact hc
         | exact hupd _
         | simpa [setPc, setPmutex, PmutexSys.put, PmutexSys.destory] using hc)
      | simp at hs

theorem Inv.only_remover (h : s.Inv) (hc : s.condemned o = true) (hu : t ∈ s.users o) :
    (s.pc t).takesDown = some o := by
  have hu' : (s.pc t).counted = some o := hu
  by_cases hl : s.lockOwner = some t
  · have hh := (h.gate t).mpr hl
    have hst := h.objects.stage
    rw [h.ownerPc_eq hh] at hst
    cases hp : s.pc t with
    | removing o' => simpa [hp, Pc.counted, Pc.takesDown] using hu'
    | deleting o' => simpa [hp, Pc.counted, Pc.takesDown] using hu'
    | lastPut o' => simpa [hp, Pc.counted, Pc.takesDown] using hu'
    | releasing o' next =>
      rw [hp] at hst hu'
      obtain ⟨-, -, -, op, ret, rfl⟩ := hst
      simp [Pc.counted] at hu'
    | _ => simp_all [Pc.counted, Pc.holds, Stage]
  · have := ((h.outside t hl).2 o hu').2
    simp [hc] at this

theorem Inv.removing (h : s.Inv) (ht : (s.pc t).takesDown = some o) : s.condemned o = true ∧ s.released o = 0 := by
  have hl : s.lockOwner = some t := by
    by_contra hl
    simp [(h.outside t hl).1] at ht
  have hst := h.objects.stage
  rw [h.ownerPc_eq ((h.gate t).mpr hl)] at hst
  cases hp : s.pc t with
  | releasing o' next =>
    rw [hp] at hst ht
    obtain rfl := Option.some.inj ht
    exact ⟨hst.2.1, hst.2.2.1⟩
  | _ => simp_all [Pc.takesDown, Stage]

theorem Inv.releasing_alone (h : s.Inv) {next : Pc} (ht : s.pc t = .releasing o next) : s.users o = ∅ := by
  have hd : (s.pc t).takesDown = some o := by simp [ht, Pc.takesDown]
  have hl : s.lockOwner = some t := by
    by_contra hl
    simp [(h.outside t hl).1] at hd
  have hh := (h.gate t).mpr hl
  have hst := h.objects.stage
  rw [h.ownerPc_eq hh, ht] at hst
  obtain ⟨-, hc, -, op, ret, rfl⟩ := hst
  exact h.users_eq_empty hc hh (by simp [ht, Pc.counted])

theorem Inv.released_once (h : s.Inv) (o : Oid) :
    s.released o ≤ 1 ∧ (0 < s.released o → s.users o = ∅ ∧ s.tree ≠ some o) ∧
      (s.condemned o = true → (∀ t, (s.pc t).takesDown ≠ some o) → s.released o = 1) := by
  by_cases hc : s.condemned o = true
  · by_cases hd : ∃ t, (s.pc t).takesDown = some o
    · obtain ⟨t, hd⟩ := hd
      have hz := (h.removing hd).2
      exact ⟨by omega, fun hpos => absurd hpos (by omega), fun _ hn => absurd hd (hn t)⟩
    · have hnone : ∀ t, (s.pc t).takesDown ≠ some o := fun t ht => hd ⟨t, ht⟩
      have howner : s.ownerPc.takesDown ≠ some o := by
        unfold ownerPc
        cases s.lockOwner with
        | none => simp [Pc.takesDown]
        | some t => exact hnone t
      obtain ⟨h1, h2⟩ := h.objects.dead o hc howner
      refine ⟨h1.le, fun _ => ⟨?_, h2⟩, fun _ _ => h1⟩
      rw [Set.eq_empty_iff_forall_notMem]
      exact fun t ht => hnone t (h.only_remover hc ht)
  · have hc' : s.condemned o = false := by simpa using hc
    have hz : s.released o = 0 := by
      by_cases hlt : o < s.next
      · exact (h.objects.alive o hlt hc').2.2.2
      · exact (h.objects.fresh o (not_lt.mp hlt)).2
    exact ⟨by omega, fun hpos => absurd hpos (by omega), fun h0 => absurd h0 hc⟩

theorem Inv.destroy_sees (h : s.Inv) (hi : s.pc t = .inside .destroy) (ht : s.tree = some o) :
    ∃ s', s.step (.lookup t) = some s' ∧
      (s'.seen t = true ↔ s.users o ≠ ∅ ∨ (s.pmutex o).isLocked = true) := by
  have hdes := (h.tree_alive (t := t) (by simp [hi, Pc.holds]) (by simp [hi, Pc.takesDown]) ht).2.2
  have hcount : (s.pmutex o).operationCount ≠ 0 ↔ s.users o ≠ ∅ := by
    rw [← Set.nonempty_iff_ne_empty, ← Set.encard_ne_zero, h.count]
    exact_mod_cast Iff.rfl
  refine ⟨s.get t .destroy, by simp only [PmutexSys.step, hi], ?_⟩
  simp only [get, ht, hdes, Bool.false_eq_true, if_false, Function.update_self, decide_eq_true_eq]
  rw [hcount]

theorem Inv.busy_put (h : s.Inv) (hb : s.pc t = .busy o) : s.condemned o = false ∧ s.step (.put t) =
    some ((s.setPmutex o { s.pmutex o with operationCount := (s.pmutex o).operationCount - 1 }).setPc t
      (.finishing .destroy .ebusy)) := by
  have hob := h.objects
  rw [h.ownerPc_eq (t := t) (by simp [hb, Pc.holds]), hb] at hob
  obtain ⟨hlt, hc⟩ := hob.stage
  refine ⟨hc, ?_⟩
  simp only [PmutexSys.step, hb]
  rw [put_stays _ (hob.alive o hlt hc).2.2.1]

theorem Inv.refused (h : s.Inv) {op : PmutexOp} (hi : s.pc t = .inside op) (hall : ∀ o < s.next, s.condemned o = true)
    (hop : ∀ time, op ≠ .init time) :
    s.step (.lookup t) = some (s.setPc t (.finishing op (notFound op))) := by
  have hnone : s.tree = none := by
    cases ht : s.tree with
    | none => rfl
    | some o =>
      obtain ⟨hlt, hc, -⟩ := h.tree_alive (t := t) (by simp [hi, Pc.holds]) (by simp [hi, Pc.takesDown]) ht
      simp [hall o hlt] at hc
  cases op with
  | init time => exact absurd rfl (hop time)
  | _ => simp only [PmutexSys.step, hi, get, hnone]

end steps

theorem pmutex_lifetime (es : List Event) (s : PmutexSys) (h : run step init es = some s) :
    (∀ o, s.released o ≤ 1 ∧ (0 < s.released o → s.users o = ∅ ∧ s.tree ≠ some o) ∧
      (s.condemned o = true → (∀ t, (s.pc t).takesDown ≠ some o) → s.released o = 1)) ∧
    (∀ t o next, s.pc t = .releasing o next → s.released o = 0 ∧ s.users o = ∅) ∧
    (∀ t, s.pc t = .inside .destroy → ∀ o, s.tree = some o → ∃ s', s.step (.lookup t) = some s' ∧
      (s'.seen t = true ↔ s.users o ≠ ∅ ∨ (s.pmutex o).isLocked = true)) ∧
    (∀ t ret, s.pc t = .returned .destroy ret → (ret = .ebusy ↔ s.seen t = true)) ∧
    (∀ t o, s.pc t = .busy o → s.condemned o = false ∧ s.step (.put t) =
      some ((s.setPmutex o { s.pmutex o with operationCount := (s.pmutex o).operationCount - 1 }).setPc t
        (.finishing .destroy .ebusy))) ∧
    (∀ o, s.condemned o = true → ∀ es' s', run step s es' = some s' → ∀ t ∈ s'.users o,
      (s'.pc t).takesDown = some o) ∧
    (∀ t op, s.pc t = .inside op → (∀ o < s.next, s.condemned o = true) → (∀ time, op ≠ .init time) →
      s.step (.lookup t) = some (s.setPc t (.finishing op (notFound op)))) := by
  have hi : s.Inv := run_invariant Inv (fun _ _ _ hi hs => hi.step hs) h inv_init
  refine ⟨hi.released_once, fun t o next ht => ⟨(hi.removing (by rw [ht]; rfl)).2, hi.releasing_alone ht⟩,
    fun t ht o ho => hi.destroy_sees ht ho, fun t ret ht => ?_, fun t o ht => hi.busy_put ht,
    fun o hc es' s' hr t ht => ?_, fun t op ht => hi.refused ht⟩
  · rw [hi.verdict t _ (by rw [ht]; rfl)]
    simp
  · have hi' : s'.Inv := run_invariant Inv (fun _ _ _ hi hs => hi.step hs) hr hi
    have hc' : s'.condemned o = true :=
      run_invariant (fun s => s.condemned o = true) (fun _ _ _ hc hs => step_condemned hs hc) hr hc
    exact hi'.only_remover hc' ht

/-- A locked mutex answers `EBUSY` to a destroy call, and is released by the one after the unlock. -/
theorem pmutex_lifetime_example :
    ∃ s, run step init
      [.call 1 (.init none), .takeGlobal 1 true, .lookup 1, .create 1 (some .recursive), .objectAdd 1 true,
        .releaseGlobal 1, .call 1 (.lock (-1) true), .takeGlobal 1 true, .lookup 1, .releaseGlobal 1,
        .kernelTake 1 0 false, .call 2 .destroy, .takeGlobal 2 true, .lookup 2, .isLocked 2, .put 1, .put 2,
        .releaseGlobal 2, .call 1 .unlock, .takeGlobal 1 true, .lookup 1, .releaseGlobal 1, .kernelRelease 1, .put 1,
        .call 3 .destroy, .takeGlobal 3 true, .lookup 3, .isLocked 3, .treeRemove 3, .destory 3, .put 3, .release 3,
        .releaseGlobal 3] = some s ∧
      s.pc 2 = .returned .destroy .ebusy ∧ s.seen 2 = true ∧ s.pc 3 = .returned .destroy .ok ∧ s.released 0 ≤ 1 := by
  have hrun : ((run step init
      [.call 1 (.init none), .takeGlobal 1 true, .lookup 1, .create 1 (some .recursive), .objectAdd 1 true,
        .releaseGlobal 1, .call 1 (.lock (-1) true), .takeGlobal 1 true, .lookup 1, .releaseGlobal 1,
        .kernelTake 1 0 false, .call 2 .destroy, .takeGlobal 2 true, .lookup 2, .isLocked 2, .put 1, .put 2,
        .releaseGlobal 2, .call 1 .unlock, .takeGlobal 1 true, .lookup 1, .releaseGlobal 1, .kernelRelease 1, .put 1,
        .call 3 .destroy, .takeGlobal 3 true, .lookup 3, .isLocked 3, .treeRemove 3, .destory 3, .put 3, .release 3,
        .releaseGlobal 3]).map fun s => (s.pc 2, s.pc 3)) =
      some (.returned .destroy .ebusy, .returned .destroy .ok) := by decide +kernel
  obtain ⟨s, hs, hp⟩ := Option.map_eq_some_iff.mp hrun
  obtain ⟨h2, h3⟩ := Prod.mk.inj hp
  have hlife := pmutex_lifetime _ s hs
  exact ⟨s, hs, h2, (hlife.2.2.2.1 2 .ebusy h2).mp rfl, h3, (hlife.1 0).1⟩

/-- A lock call that starts after the mutex was destroyed makes a new one and succeeds. -/
theorem pmutex_lock_after_destroy :
    ((run step init
      [.call 1 (.init none), .takeGlobal 1 true, .lookup 1, .create 1 (some .normal), .objectAdd 1 true,
        .releaseGlobal 1, .call 1 .destroy, .takeGlobal 1 true, .lookup 1, .isLocked 1, .treeRemove 1, .destory 1,
        .put 1, .release 1, .releaseGlobal 1]).map fun s => (s.pc 1, s.pc 2)) =
      some (.returned .destroy .ok, .idle) ∧
    ((run step init
      [.call 1 (.init none), .takeGlobal 1 true, .lookup 1, .create 1 (some .normal), .objectAdd 1 true,
        .releaseGlobal 1, .call 1 .destroy, .takeGlobal 1 true, .lookup 1, .isLocked 1, .treeRemove 1, .destory 1,
        .put 1, .release 1, .releaseGlobal 1, .call 2 (.lock (-1) true), .takeGlobal 2 true, .lookup 2,
        .releaseGlobal 2, .takeGlobal 2 true, .lookup 2, .create 2 (some .normal), .objectAdd 2 true,
        .releaseGlobal 2, .takeGlobal 2 true, .lookup 2, .releaseGlobal 2, .kernelTake 2 0 false, .put 2]).map
        fun s => s.pc 2) = some (.returned (.lock (-1) false) .ok) := by
  decide +kernel

end PmutexSys

end RtSmart
