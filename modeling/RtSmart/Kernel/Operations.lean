import RtSmart.Kernel.Coherence

namespace RtSmart

open Lib

theorem lowestBit_spec : ∀ b : BitVec 8, b ≠ 0 →
    b.getLsbD (lowestBit b) = true ∧ lowestBit b < 8 ∧ ∀ j < lowestBit b, b.getLsbD j = false := by
  have htable : lowestBitBitmap.zipIdx.all (fun p => p.2 == 0 || (p.2.testBit p.1 && decide (p.1 < 8) &&
      (List.range p.1).all fun j => !p.2.testBit j)) = true := by
    decide +kernel
  intro b hb
  have hn : b.toNat ≠ 0 := fun hzero => hb (BitVec.eq_of_toNat_eq hzero)
  have hlength : lowestBitBitmap.length = 2 ^ 8 := by decide +kernel
  have hlt : b.toNat < lowestBitBitmap.length := hlength ▸ b.isLt
  have hread : lowestBitBitmap[b.toNat]? = some (lowestBit b) := by
    rw [lowestBit, List.getD_eq_getElem?_getD, List.getElem?_eq_getElem hlt, Option.getD_some]
  have h := List.all_eq_true.mp htable _ (List.mk_mem_zipIdx_iff_getElem?.mpr hread)
  simp only [beq_false_of_ne hn, Bool.false_or, Bool.and_eq_true, decide_eq_true_eq, List.all_eq_true, List.mem_range,
    Bool.not_eq_true'] at h
  exact ⟨h.1.1, h.1.2, h.2⟩

theorem byte_getLsbD (value : BitVec 32) (i j : ℕ) :
    (byte value i).getLsbD j = (decide (j < 8) && value.getLsbD (8 * i + j)) := by
  simp [byte, BitVec.getLsbD_extractLsb']

theorem byte_eq_zero {value : BitVec 32} {i j : ℕ} (h : byte value i = 0) (hj : j / 8 = i) :
    value.getLsbD j = false := by
  have hb := byte_getLsbD value i (j % 8)
  rw [h] at hb
  have he : 8 * i + j % 8 = j := by omega
  simpa [he, Nat.mod_lt j (show 0 < 8 by omega)] using hb.symm

theorem lowestBit_byte {value : BitVec 32} {i : ℕ} (hi : i < 4) (h : byte value i ≠ 0)
    (hlow : ∀ j < i, byte value j = 0) :
    LowestBit value (lowestBit (byte value i) + 8 * i) ∧ lowestBit (byte value i) + 8 * i < 32 := by
  obtain ⟨hb, hlt, hj⟩ := lowestBit_spec _ h
  refine ⟨⟨?_, fun j hjlt => ?_⟩, by omega⟩
  · rw [byte_getLsbD] at hb
    simp only [hlt, decide_true, Bool.true_and] at hb
    rwa [Nat.add_comm]
  · by_cases hji : j / 8 = i
    · have hm := hj (j % 8) (by omega)
      rw [byte_getLsbD] at hm
      have he : 8 * i + j % 8 = j := by omega
      simpa [he, Nat.mod_lt j (show 0 < 8 by omega)] using hm
    · exact byte_eq_zero (hlow (j / 8) (by omega)) rfl

theorem rtFfs_spec {value : BitVec 32} (h : value ≠ 0) :
    LowestBit value (rtFfs value - 1) ∧ rtFfs value - 1 < 32 := by
  simp only [rtFfs, h, if_false]
  split_ifs with h0 h1 h2
  · exact lowestBit_byte (i := 0) (by omega) h0 (by omega)
  · refine lowestBit_byte (i := 1) (by omega) h1 fun j hj => ?_
    obtain rfl : j = 0 := by omega
    exact not_not.mp h0
  · refine lowestBit_byte (i := 2) (by omega) h2 fun j hj => ?_
    obtain rfl | rfl : j = 0 ∨ j = 1 := by omega
    · exact not_not.mp h0
    · exact not_not.mp h1
  · have hlow : ∀ j < 3, byte value j = 0 := by
      intro j hj
      obtain rfl | rfl | rfl : j = 0 ∨ j = 1 ∨ j = 2 := by omega
      · exact not_not.mp h0
      · exact not_not.mp h1
      · exact not_not.mp h2
    refine lowestBit_byte (i := 3) (by omega) (fun h3 => h ?_) hlow
    refine BitVec.eq_of_getLsbD_eq fun j hj => ?_
    refine Eq.trans ?_ (BitVec.getLsbD_zero (w := 32)).symm
    by_cases hj3 : j / 8 = 3
    · exact byte_eq_zero h3 hj3
    · exact byte_eq_zero (hlow (j / 8) (by omega)) rfl

namespace Kernel

theorem getHighestPriority_spec {k : Kernel} (h : k.Coherent none) (hg : k.readyPriorityGroup ≠ 0) :
    k.list (.ready k.getHighestPriority) ≠ [] ∧
      ∀ q < k.getHighestPriority, k.list (.ready q) = [] := by
  obtain ⟨hlow, hlt⟩ := rtFfs_spec hg
  by_cases hn : 32 < k.priorityMax
  · have htwo : TwoLevel k.readyPriorityGroup k.readyTable fun p => k.list (.ready p) ≠ [] := by
      simpa only [Bitmap, hn, if_true] using h.bitmap
    have hrow := (htwo.group _ hlt).mp hlow.1
    set number := rtFfs k.readyPriorityGroup - 1 with hnum
    have hwide : (k.readyTable number).setWidth 32 ≠ 0 := by
      intro h0
      refine hrow (BitVec.eq_of_getLsbD_eq fun j hj => ?_)
      have := congrArg (fun x => BitVec.getLsbD x j) h0
      simpa [BitVec.getLsbD_setWidth, show j < 32 by omega] using this
    obtain ⟨hl, hl32⟩ := rtFfs_spec hwide
    set bit := rtFfs ((k.readyTable number).setWidth 32) - 1 with hbit
    have hbv : ∀ j < 32, ((k.readyTable number).setWidth 32).getLsbD j = (k.readyTable number).getLsbD j := by
      intro j hj
      simp [hj]
    have hl' : LowestBit (k.readyTable number) bit :=
      ⟨by rw [← hbv _ hl32]; exact hl.1, fun j hj => by rw [← hbv _ (hj.trans hl32)]; exact hl.2 j hj⟩
    have hb8 : bit < 8 := by
      by_contra hge
      have := BitVec.getLsbD_of_ge (k.readyTable number) bit (by omega)
      simp [hl'.1] at this
    have hpos : 0 < rtFfs ((k.readyTable number).setWidth 32) := by
      simp only [rtFfs, hwide, if_false]
      split_ifs <;> omega
    have he : k.getHighestPriority = 8 * number + bit := by
      simp only [getHighestPriority, hn, if_true, ← hnum]
      omega
    obtain ⟨h1, h2⟩ := htwo.lowest hlt hb8 hlow hl'
    rw [he]
    exact ⟨h1, fun q hq => by simpa using h2 q hq⟩
  · have hone : OneLevel k.readyPriorityGroup fun p => k.list (.ready p) ≠ [] := by
      simpa only [Bitmap, hn, if_false] using h.bitmap
    have he : k.getHighestPriority = rtFfs k.readyPriorityGroup - 1 := by
      simp only [getHighestPriority, hn, if_false]
    obtain ⟨h1, h2⟩ := hone.lowest hlt hlow
    rw [he]
    exact ⟨h1, fun q hq => by simpa using h2 q hq⟩

namespace Coherent

variable {k : Kernel} {t u : Tid}

theorem suspendWithFlag (h : k.Coherent none) (flag : SuspendFlag)
    (hok : (k.rtThreadSuspendWithFlag t flag).2 = .eok) :
    (k.rtThreadSuspendWithFlag t flag).1.Coherent (some t) := by
  simp only [rtThreadSuspendWithFlag] at hok ⊢
  split_ifs at hok ⊢ with h1 h2
  have hm : (k.thread t).Masked k.priorityMax :=
    h.mask t (fun hi => h1 (by simp [hi])) fun hi => h1 (by simp [hi])
  have hr := h.remove hm
  dsimp only
  refine hr.setThread_ex ?_ fun _ _ => ?_
  · simpa using h.priority t
  · rw [remove_priorityMax, remove_thread]
    exact hm.congr rfl rfl rfl rfl

theorem suspended_ne {s : Stat} (hs : s.suspended = true) : s ≠ .ready ∧ s ≠ .init ∧ s ≠ .close ∧ s ≠ .running := by
  cases s <;> simp_all [Stat.suspended]

theorem mask_of_suspended (h : k.Coherent none) (hs : (k.thread t).stat.suspended = true) :
    (k.thread t).Masked k.priorityMax :=
  h.mask t (suspended_ne hs).2.1 (suspended_ne hs).2.2.1

theorem resume (h : k.Coherent none) : (k.rtThreadResume t).1.Coherent none := by
  simp only [rtThreadResume]
  split_ifs with hs
  · exact h
  · have hs' : (k.thread t).stat.suspended = true := by simpa using hs
    refine Coherent.insert ((h.listRemove (suspended_ne hs').1).setThread ⟨rfl, rfl, rfl, rfl, rfl, rfl⟩) ?_
    rw [setThread_thread_self]
    exact (h.mask_of_suspended hs').congr rfl rfl rfl rfl

theorem timeout (h : k.Coherent none) (hs : (k.thread t).stat.suspended = true) :
    (k.rtThreadTimeout t).Coherent none := by
  have hset : (k.setThread t fun th => { th with error := .etimeout, timer := false }).Coherent none :=
    h.setThread ⟨rfl, rfl, rfl, rfl, rfl, rfl⟩
  refine Coherent.insert (hset.listRemove ?_) ?_
  · simpa using (suspended_ne hs).1
  · rw [rtListRemove_thread, setThread_thread_self]
    exact (h.mask_of_suspended hs).congr rfl rfl rfl rfl

theorem setPriority_ex (h : k.Coherent (some t)) (cmd : ControlCmd) {p : ℕ} (hp : p < k.priorityMax) :
    (k.setPriority t cmd p).Coherent (some t) := by
  refine h.setThread_ex ?_ fun _ _ => Thread.setMask_masked _ _
  simp only [Thread.setMask_currentPriority, Thread.setMask_initPriority]
  split_ifs
  · exact ⟨hp, hp⟩
  · exact ⟨hp, (h.priority t).2⟩

theorem setPriority (h : k.Coherent none) (hr : (k.thread t).stat ≠ .ready) (cmd : ControlCmd) {p : ℕ}
    (hp : p < k.priorityMax) : (k.setPriority t cmd p).Coherent none := by
  have hself : ((k.setPriority t cmd p).thread t).stat = (k.thread t).stat := by
    simp [Kernel.setPriority]
  have hprio : ∀ u, u ≠ t → (k.setPriority t cmd p).thread u = k.thread u := by
    intro u hu
    simp [Kernel.setPriority, hu]
  have hstat : ∀ u, ((k.setPriority t cmd p).thread u).stat = (k.thread u).stat := by
    intro u
    by_cases hu : u = t
    · subst hu; exact hself
    · rw [hprio u hu]
  constructor
  · exact h.maxLe
  · intro u
    by_cases hu : u = t
    · subst hu
      simp only [Kernel.setPriority, setThread_thread_self, Thread.setMask_currentPriority,
        Thread.setMask_initPriority, setThread_priorityMax]
      split_ifs
      · exact ⟨hp, hp⟩
      · exact ⟨hp, (h.priority u).2⟩
    · rw [hprio u hu]
      exact h.priority u
  · intro u
    by_cases hut : u = t
    · subst hut
      intro _ _
      simpa [Kernel.setPriority] using Thread.setMask_masked _ _
    · rw [hprio u hut]
      exact h.mask u
  · intro u hu q
    by_cases hut : u = t
    · subst hut
      rw [hself]
      exact ⟨fun hm => absurd ((h.ready u hu q).mp hm).1 hr, fun hm => absurd hm.1 hr⟩
    · rw [hprio u hut]
      exact h.ready u hu q
  · simp
  · exact h.nodup
  · intro u hd hu hn
    rw [hstat]
    exact h.waits u hd hu hn
  · exact h.once
  · exact bitmap_congr h.bitmap rfl rfl rfl fun _ => rfl

theorem control (h : k.Coherent none) (cmd : ControlCmd) {p : ℕ} (hp : p < k.priorityMax) :
    (k.rtThreadControl t cmd p).Coherent none := by
  simp only [rtThreadControl]
  split_ifs with hr
  · have hrem : (k.rtScheduleRemoveThread t).Coherent (some t) :=
      h.remove (h.mask t (by simp [hr]) (by simp [hr]))
    refine (hrem.setPriority_ex cmd (by simpa using hp)).insert ?_
    simpa [Kernel.setPriority] using Thread.setMask_masked _ _
  · exact h.setPriority hr cmd hp

theorem switchTo (h : k.Coherent none) {c : Tid} (hr : (k.thread c).stat ≠ .ready)
    (hu : (k.thread u).stat = .ready) {ins : Bool} (hins : ins = true → (k.thread c).stat = .running) :
    (k.switchTo c u ins).Coherent none := by
  have hcu : u ≠ c := by
    rintro rfl
    exact hr hu
  have hset := h.setCurrent (some u)
  have hmid : (if ins then { k with current := some u }.rtScheduleInsertThread c
      else { k with current := some u } : Kernel).Coherent none := by
    split_ifs with hi
    · have hrun := hins hi
      exact Coherent.insert (hset.detach hr (by simp [hrun, Stat.suspended]))
        (h.mask c (by simp [hrun]) (by simp [hrun]))
    · exact hset
  have hui : ((if ins then { k with current := some u }.rtScheduleInsertThread c
      else { k with current := some u } : Kernel).thread u) = k.thread u := by
    split_ifs
    · exact insert_thread_of_ne _ _ hcu
    · rfl
  have hm := hmid.mask u (by rw [hui, hu]; simp) (by rw [hui, hu]; simp)
  have hrem := hmid.remove hm
  simp only [Kernel.switchTo]
  refine (hrem.setThread_ex ?_ fun _ _ => ?_).settle (by simp)
  · simpa using hmid.priority u
  · rw [remove_priorityMax, remove_thread]
    exact hm.congr rfl rfl rfl rfl

end Coherent

theorem switchTo_thread_to (k : Kernel) {c u : Tid} (hcu : u ≠ c) (ins : Bool) :
    (k.switchTo c u ins).thread u = { k.thread u with stat := .running } := by
  cases ins <;> simp [switchTo, hcu]

theorem switchTo_thread_of_ne (k : Kernel) {c u v : Tid} (hv : v ≠ u) (hvc : v ≠ c) (ins : Bool) :
    (k.switchTo c u ins).thread v = k.thread v := by
  cases ins <;> simp [switchTo, hv, hvc]

theorem switchTo_thread_from (k : Kernel) {c u : Tid} (hcu : u ≠ c) (ins : Bool) :
    (k.switchTo c u ins).thread c = if ins then { k.thread c with stat := .ready } else k.thread c := by
  cases ins <;> simp [switchTo, hcu.symm, hcu, insert_thread_self]

@[simp] theorem switchTo_current (k : Kernel) (c u : Tid) (ins : Bool) :
    (k.switchTo c u ins).current = some u := by
  cases ins <;> simp [switchTo]

@[simp] theorem switchTo_priorityMax (k : Kernel) (c u : Tid) (ins : Bool) :
    (k.switchTo c u ins).priorityMax = k.priorityMax := by
  cases ins <;> simp [switchTo]

theorem switchTo_list (k : Kernel) {c u : Tid} (hcu : u ≠ c) (ins : Bool) (h : ListHead) :
    (k.switchTo c u ins).list h = (k.list h).erase u ++
      if ins = true ∧ h = .ready (k.thread c).currentPriority then [c] else [] := by
  have happ : ∀ l : List Tid, (l ++ [c]).erase u = l.erase u ++ [c] := by
    intro l
    by_cases hm : u ∈ l
    · exact List.erase_append_left _ hm
    · rw [List.erase_append_right _ hm, List.erase_of_not_mem hm, List.erase_of_not_mem (by simpa using hcu)]
  cases ins with
  | false => simp [switchTo]
  | true =>
    simp only [switchTo, if_true, setThread_list, remove_list, insert_list, Option.some.injEq, ne_eq, hcu,
      not_false_eq_true, true_and]
    split_ifs
    · exact happ _
    · simp

/-- What one call of `rt_schedule` can do. -/
theorem rtSchedule_cases {k : Kernel} (h : k.Coherent none) {c : Tid} (hc : k.current = some c) :
    (k.rtSchedule = k ∧ (k.schedulerLockNest ≠ 0 ∨ k.readyPriorityGroup = 0)) ∨
    (k.schedulerLockNest = 0 ∧ k.readyPriorityGroup ≠ 0 ∧ (k.thread c).stat = .running ∧
      (k.thread c).currentPriority ≤ k.getHighestPriority ∧
      k.rtSchedule = ((k.setThread c fun th => { th with yield := false }).rtScheduleRemoveThread c).setThread c
        fun th => { th with stat := .running }) ∨
    (k.schedulerLockNest = 0 ∧ k.readyPriorityGroup ≠ 0 ∧ ∃ u l, k.list (.ready k.getHighestPriority) = u :: l ∧
      (((k.thread c).stat = .running ∧ k.getHighestPriority ≤ (k.thread c).currentPriority ∧
        k.rtSchedule = (k.setThread c fun th => { th with yield := false }).switchTo c u true) ∨
      ((k.thread c).stat ≠ .running ∧ k.rtSchedule = k.switchTo c u false))) := by
  by_cases hlock : k.schedulerLockNest ≠ 0 ∨ k.readyPriorityGroup = 0
  · refine .inl ⟨?_, hlock⟩
    simp only [rtSchedule, hc, hlock, if_true]
    split <;> rfl
  · have hl0 : k.schedulerLockNest = 0 := by tauto
    have hg0 : k.readyPriorityGroup ≠ 0 := by tauto
    obtain ⟨hne, -⟩ := getHighestPriority_spec h hg0
    obtain ⟨u, l, hl⟩ := List.exists_cons_of_ne_nil hne
    by_cases hrun : (k.thread c).stat = .running
    · by_cases hstay : (k.thread c).currentPriority < k.getHighestPriority ∨
          ((k.thread c).currentPriority = k.getHighestPriority ∧ (k.thread c).yield = false)
      · refine .inr (.inl ⟨hl0, hg0, hrun, by omega, ?_⟩)
        simp only [rtSchedule, hc, hl, List.head?_cons, hlock, if_false, hrun, if_true, hstay]
      · refine .inr (.inr ⟨hl0, hg0, u, l, hl, .inl ⟨hrun, by omega, ?_⟩⟩)
        simp only [rtSchedule, hc, hl, List.head?_cons, hlock, if_false, hrun, if_true, hstay]
    · refine .inr (.inr ⟨hl0, hg0, u, l, hl, .inr ⟨hrun, ?_⟩⟩)
      simp only [rtSchedule, hc, hl, List.head?_cons, hlock, if_false, hrun]

theorem Coherent.head_ready {k : Kernel} (h : k.Coherent none) {p : ℕ} {u : Tid} {l : List Tid}
    (hl : k.list (.ready p) = u :: l) : (k.thread u).stat = .ready ∧ (k.thread u).currentPriority = p :=
  (h.ready u (by simp) p).mp (by simp [hl])

theorem Coherent.rtSchedule {k : Kernel} (h : k.Coherent none) (ho : k.CurrentOk) :
    k.rtSchedule.Coherent none ∧ k.rtSchedule.CurrentOk := by
  cases hc : k.current with
  | none =>
    have he : k.rtSchedule = k := by simp [Kernel.rtSchedule, hc]
    rw [he]
    exact ⟨h, ho⟩
  | some c =>
    have hcr := (ho.current c hc).1
    have hy : (k.setThread c fun th => { th with yield := false }).Coherent none :=
      h.setThread ⟨rfl, rfl, rfl, rfl, rfl, rfl⟩
    have hswitch : ∀ (k' : Kernel) (u : Tid) (ins : Bool), k'.Coherent none → k'.CurrentOk → k'.current = some c →
        (k'.thread u).stat = .ready → (ins = true ↔ (k'.thread c).stat = .running) →
        (k'.switchTo c u ins).Coherent none ∧ (k'.switchTo c u ins).CurrentOk := by
      intro k' u ins h' ho' hc' hu hins
      have hr' := (ho'.current c hc').1
      have hcu : u ≠ c := by rintro rfl; exact hr' hu
      refine ⟨h'.switchTo hr' hu hins.mp, ?_, ?_⟩
      · intro v hv
        rw [switchTo_current]
        by_contra hne
        have hvu : v ≠ u := fun he => hne (by rw [he])
        by_cases hvc : v = c
        · subst hvc
          rw [switchTo_thread_from _ hcu] at hv
          split_ifs at hv with hb
          exact hb (hins.mpr hv)
        · rw [switchTo_thread_of_ne _ hvu hvc] at hv
          exact hvc (Option.some.inj ((ho'.running v hv).symm.trans hc'))
      · intro v hv
        rw [switchTo_current] at hv
        obtain rfl := Option.some.inj hv
        rw [switchTo_thread_to _ hcu]
        simp
    rcases rtSchedule_cases h hc with ⟨he, -⟩ | ⟨-, -, hrun, -, he⟩ | ⟨-, -, u, l, hl, ⟨hrun, -, he⟩ | ⟨hrun, he⟩⟩
    · rw [he]
      exact ⟨h, ho⟩
    · have hm := hy.mask c (by simp [hrun]) (by simp [hrun])
      have hrem := hy.remove hm
      have hfin := hrem.setThread_ex (f := fun th => { th with stat := .running }) (by simpa using hy.priority c)
        fun _ _ => by
          rw [remove_priorityMax, remove_thread]
          exact hm.congr rfl rfl rfl rfl
      rw [he]
      refine ⟨hfin.settle (by simp), ho.congr (by simp) fun v => ?_⟩
      by_cases hv : v = c
      · subst hv; simp [hrun]
      · simp [hv]
    · have hu := (h.head_ready hl).1
      have huc : u ≠ c := by rintro rfl; exact hcr hu
      rw [he]
      exact hswitch _ u true hy (ho.setThread rfl) hc (by simpa [huc] using hu) (by simpa using hrun)
    · rw [he]
      exact hswitch k u false h ho hc (h.head_ready hl).1 (by simpa using hrun)

end Kernel

end RtSmart
