import RtSmart.Kernel.Scheduler
import RtSmart.Lib.Bitmap

namespace RtSmart

open Lib

namespace Thread

def Masked (priorityMax : ℕ) (th : Thread) : Prop := th.setMask priorityMax = th

structure SameSched (a b : Thread) : Prop where
  stat : a.stat = b.stat
  currentPriority : a.currentPriority = b.currentPriority
  initPriority : a.initPriority = b.initPriority
  number : a.number = b.number
  highMask : a.highMask = b.highMask
  numberMask : a.numberMask = b.numberMask

variable {n : ℕ} {a b th : Thread}

theorem masked_two (hn : 32 < n) : th.Masked n ↔ th.number = th.currentPriority / 8 ∧
    th.numberMask = BitVec.twoPow 32 (th.currentPriority / 8) ∧
    th.highMask = BitVec.twoPow 8 (th.currentPriority % 8) := by
  cases th
  simp only [Masked, setMask, hn, if_true, Thread.mk.injEq, true_and, and_true]
  constructor
  · rintro ⟨h1, h2, h3⟩
    exact ⟨h1.symm, h3.symm, h2.symm⟩
  · rintro ⟨h1, h2, h3⟩
    exact ⟨h1.symm, h3.symm, h2.symm⟩

theorem masked_one (hn : ¬ 32 < n) : th.Masked n ↔ th.numberMask = BitVec.twoPow 32 th.currentPriority := by
  cases th
  simp only [Masked, setMask, hn, if_false, Thread.mk.injEq, true_and, and_true]
  exact eq_comm

theorem setMask_masked (n : ℕ) (th : Thread) : (th.setMask n).Masked n := by
  simp only [Masked, setMask]
  split_ifs <;> rfl

@[simp] theorem setMask_stat (n : ℕ) (th : Thread) : (th.setMask n).stat = th.stat := by
  simp only [setMask]; split_ifs <;> rfl

@[simp] theorem setMask_currentPriority (n : ℕ) (th : Thread) :
    (th.setMask n).currentPriority = th.currentPriority := by
  simp only [setMask]; split_ifs <;> rfl

@[simp] theorem setMask_initPriority (n : ℕ) (th : Thread) :
    (th.setMask n).initPriority = th.initPriority := by
  simp only [setMask]; split_ifs <;> rfl

theorem Masked.congr (h : a.Masked n) (hc : b.currentPriority = a.currentPriority)
    (h1 : b.number = a.number) (h2 : b.highMask = a.highMask) (h3 : b.numberMask = a.numberMask) :
    b.Masked n := by
  by_cases hn : 32 < n
  · rw [masked_two hn] at h ⊢
    rwa [h1, h2, h3, hc]
  · rw [masked_one hn] at h ⊢
    rwa [h3, hc]

theorem SameSched.masked (h : SameSched a b) (hb : b.Masked n) : a.Masked n :=
  hb.congr h.currentPriority h.number h.highMask h.numberMask

end Thread

namespace Kernel

def Bitmap (k : Kernel) : Prop :=
  if 32 < k.priorityMax then
    TwoLevel k.readyPriorityGroup k.readyTable fun p => k.list (.ready p) ≠ []
  else OneLevel k.readyPriorityGroup fun p => k.list (.ready p) ≠ []

/-- The ready queues, the bitmaps and the thread states agree. The thread `ex`, if there is one,
is between two queues: it is linked nowhere and its state is not yet accounted for. -/
structure Coherent (k : Kernel) (ex : Option Tid) : Prop where
  maxLe : k.priorityMax ≤ 256
  priority : ∀ t, (k.thread t).currentPriority < k.priorityMax ∧ (k.thread t).initPriority < k.priorityMax
  mask : ∀ t, (k.thread t).stat ≠ .init → (k.thread t).stat ≠ .close → (k.thread t).Masked k.priorityMax
  ready : ∀ t, some t ≠ ex → ∀ p, t ∈ k.list (.ready p) ↔
    (k.thread t).stat = .ready ∧ (k.thread t).currentPriority = p
  unlinked : ∀ t, some t = ex → ∀ h, t ∉ k.list h
  nodup : ∀ h, (k.list h).Nodup
  waits : ∀ t h, t ∈ k.list h → (∀ p, h ≠ .ready p) → (k.thread t).stat.suspended = true
  once : ∀ t h h', t ∈ k.list h → t ∈ k.list h' → h = h'
  bitmap : k.Bitmap

/-- Only the current thread runs, and it is neither queued nor fresh. -/
structure CurrentOk (k : Kernel) : Prop where
  running : ∀ t, (k.thread t).stat = .running → k.current = some t
  current : ∀ t, k.current = some t → (k.thread t).stat ≠ .ready ∧ (k.thread t).stat ≠ .init

section projections

variable (k : Kernel) (t : Tid)

@[simp] theorem remove_thread : (k.rtScheduleRemoveThread t).thread = k.thread := by
  simp only [rtScheduleRemoveThread]; split_ifs <;> rfl

@[simp] theorem remove_list (h : ListHead) :
    (k.rtScheduleRemoveThread t).list h = (k.list h).erase t := by
  simp only [rtScheduleRemoveThread]; split_ifs <;> rfl

@[simp] theorem remove_current : (k.rtScheduleRemoveThread t).current = k.current := by
  simp only [rtScheduleRemoveThread]; split_ifs <;> rfl

@[simp] theorem remove_priorityMax : (k.rtScheduleRemoveThread t).priorityMax = k.priorityMax := by
  simp only [rtScheduleRemoveThread]; split_ifs <;> rfl

@[simp] theorem insert_current : (k.rtScheduleInsertThread t).current = k.current := by
  simp only [rtScheduleInsertThread]; split_ifs <;> rfl

@[simp] theorem insert_priorityMax : (k.rtScheduleInsertThread t).priorityMax = k.priorityMax := by
  simp only [rtScheduleInsertThread]; split_ifs <;> rfl

theorem insert_thread (u : Tid) : (k.rtScheduleInsertThread t).thread u =
    if u = t then { k.thread t with stat := if k.current = some t then .running else .ready }
    else k.thread u := by
  simp only [rtScheduleInsertThread]
  split_ifs <;> simp_all

theorem insert_list (h : ListHead) : (k.rtScheduleInsertThread t).list h =
    if k.current ≠ some t ∧ h = .ready (k.thread t).currentPriority then k.list h ++ [t] else k.list h := by
  simp only [rtScheduleInsertThread]
  split_ifs <;> simp_all [rtListInsertBefore_list]

@[simp] theorem insert_thread_of_ne {u : Tid} (hu : u ≠ t) :
    (k.rtScheduleInsertThread t).thread u = k.thread u := by
  simp [insert_thread, hu]

theorem insert_thread_self : (k.rtScheduleInsertThread t).thread t =
    { k.thread t with stat := if k.current = some t then .running else .ready } := by
  simp [insert_thread]

@[simp] theorem insert_list_suspend (o : Oid) :
    (k.rtScheduleInsertThread t).list (.suspend o) = k.list (.suspend o) := by
  simp [insert_list]

@[simp] theorem insert_list_sender (o : Oid) :
    (k.rtScheduleInsertThread t).list (.sender o) = k.list (.sender o) := by
  simp [insert_list]

end projections

theorem bitmap_remove {k : Kernel} {t : Tid} (hb : k.Bitmap) (hmax : k.priorityMax ≤ 256)
    (hp : (k.thread t).currentPriority < k.priorityMax) (hm : (k.thread t).Masked k.priorityMax)
    (hr : ∀ p, t ∈ k.list (.ready p) → (k.thread t).currentPriority = p) :
    (k.rtScheduleRemoveThread t).Bitmap := by
  have hother : ∀ p, p ≠ (k.thread t).currentPriority → (k.list (.ready p)).erase t = k.list (.ready p) :=
    fun p hne => List.erase_of_not_mem fun hmem => hne (hr p hmem).symm
  by_cases hn : 32 < k.priorityMax
  · obtain ⟨h1, h2, h3⟩ := (Thread.masked_two hn).mp hm
    have htwo : TwoLevel k.readyPriorityGroup k.readyTable fun p => k.list (.ready p) ≠ [] := by
      simpa only [Bitmap, hn, if_true] using hb
    simp only [Bitmap, remove_priorityMax, hn, if_true, remove_list]
    by_cases he : (k.list (.ready (k.thread t).currentPriority)).erase t = []
    · have hc := htwo.clear (show 0 < 8 by omega) (show (k.thread t).currentPriority / 8 < 32 by omega)
      simp only [rtScheduleRemoveThread, rtListRemove_list, he, if_true, rtListRemove_priorityMax, hn,
        rtListRemove_table, rtListRemove_group, h1, h2, h3]
      refine hc.congr fun p _ => ?_
      by_cases hpe : p = (k.thread t).currentPriority
      · simp [hpe, he]
      · simp [hpe, hother p hpe]
    · simp only [rtScheduleRemoveThread, rtListRemove_list, he, if_false, rtListRemove_table, rtListRemove_group]
      refine htwo.congr fun p _ => ?_
      by_cases hpe : p = (k.thread t).currentPriority
      · subst hpe
        exact ⟨fun _ => he, fun _ h0 => he (by simp [h0])⟩
      · rw [hother p hpe]
  · have hone : OneLevel k.readyPriorityGroup fun p => k.list (.ready p) ≠ [] := by
      simpa only [Bitmap, hn, if_false] using hb
    have h1 := (Thread.masked_one hn).mp hm
    simp only [Bitmap, remove_priorityMax, hn, if_false, remove_list]
    by_cases he : (k.list (.ready (k.thread t).currentPriority)).erase t = []
    · have hc := hone.clear (show (k.thread t).currentPriority < 32 by omega)
      simp only [rtScheduleRemoveThread, rtListRemove_list, he, if_true, rtListRemove_priorityMax, hn, if_false,
        rtListRemove_group, h1]
      refine hc.congr fun p _ => ?_
      by_cases hpe : p = (k.thread t).currentPriority
      · simp [hpe, he]
      · simp [hpe, hother p hpe]
    · simp only [rtScheduleRemoveThread, rtListRemove_list, he, if_false, rtListRemove_group]
      refine hone.congr fun p _ => ?_
      by_cases hpe : p = (k.thread t).currentPriority
      · subst hpe
        exact ⟨fun _ => he, fun _ h0 => he (by simp [h0])⟩
      · rw [hother p hpe]

theorem bitmap_insert {k : Kernel} {t : Tid} (hb : k.Bitmap) (hmax : k.priorityMax ≤ 256)
    (hp : (k.thread t).currentPriority < k.priorityMax) (hm : (k.thread t).Masked k.priorityMax)
    (hc : k.current ≠ some t) : (k.rtScheduleInsertThread t).Bitmap := by
  have hne : ∀ p, (if k.current ≠ some t ∧ ListHead.ready p = .ready (k.thread t).currentPriority then
      k.list (.ready p) ++ [t] else k.list (.ready p)) ≠ [] ↔
      k.list (.ready p) ≠ [] ∨ p = (k.thread t).currentPriority := by
    intro p
    by_cases hpe : p = (k.thread t).currentPriority <;> simp [hc, hpe]
  by_cases hn : 32 < k.priorityMax
  · obtain ⟨h1, h2, h3⟩ := (Thread.masked_two hn).mp hm
    have htwo : TwoLevel k.readyPriorityGroup k.readyTable fun p => k.list (.ready p) ≠ [] := by
      simpa only [Bitmap, hn, if_true] using hb
    have hs := htwo.set (show 0 < 8 by omega) (show (k.thread t).currentPriority / 8 < 32 by omega)
    simp only [Bitmap, insert_priorityMax, hn, if_true, insert_list, hne]
    simpa [rtScheduleInsertThread, hc, hn, h1, h2, h3] using hs
  · have hone : OneLevel k.readyPriorityGroup fun p => k.list (.ready p) ≠ [] := by
      simpa only [Bitmap, hn, if_false] using hb
    have h1 := (Thread.masked_one hn).mp hm
    have hs := hone.set (show (k.thread t).currentPriority < 32 by omega)
    simp only [Bitmap, insert_priorityMax, hn, if_false, insert_list, hne]
    simpa [rtScheduleInsertThread, hc, hn, h1] using hs

theorem bitmap_congr {k k' : Kernel} (hb : k.Bitmap) (h0 : k'.priorityMax = k.priorityMax)
    (h1 : k'.readyPriorityGroup = k.readyPriorityGroup) (h2 : k'.readyTable = k.readyTable)
    (h3 : ∀ p, k'.list (.ready p) = k.list (.ready p)) : k'.Bitmap := by
  simpa only [Bitmap, h0, h1, h2, h3] using hb

namespace Coherent

variable {k : Kernel} {ex : Option Tid} {t : Tid}

theorem not_linked (h : k.Coherent none) (hr : (k.thread t).stat ≠ .ready)
    (hs : (k.thread t).stat.suspended = false) (hd : ListHead) : t ∉ k.list hd := by
  intro hmem
  cases hd with
  | ready p => exact hr ((h.ready t (by simp) p).mp hmem).1
  | suspend o => simp [h.waits t _ hmem (by simp)] at hs
  | sender o => simp [h.waits t _ hmem (by simp)] at hs

/-- `rt_schedule_remove_thread` unlinks a thread that is in its ready queue, in a wait list or
in no list. -/
theorem remove (h : k.Coherent none) (hm : (k.thread t).Masked k.priorityMax) :
    (k.rtScheduleRemoveThread t).Coherent (some t) where
  maxLe := by simpa using h.maxLe
  priority u := by simpa using h.priority u
  mask u := by simpa using h.mask u
  ready u hu p := by
    have hne : u ≠ t := fun he => hu (by rw [he])
    simpa [List.mem_erase_of_ne hne] using h.ready u (by simp) p
  unlinked u hu hd := by
    obtain rfl := Option.some.inj hu
    simpa using (h.nodup hd).not_mem_erase
  nodup hd := by simpa using (h.nodup hd).erase t
  waits u hd hu hn := by
    simpa using h.waits u hd (List.mem_of_mem_erase (by simpa using hu)) hn
  once u hd hd' hu hu' :=
    h.once u hd hd' (List.mem_of_mem_erase (by simpa using hu)) (List.mem_of_mem_erase (by simpa using hu'))
  bitmap := bitmap_remove h.bitmap h.maxLe (h.priority t).1 hm
    fun p hp => ((h.ready t (by simp) p).mp hp).2

theorem listRemove (h : k.Coherent none) (hs : (k.thread t).stat ≠ .ready) :
    (k.rtListRemove t).Coherent (some t) where
  maxLe := h.maxLe
  priority := h.priority
  mask := h.mask
  ready u hu p := by
    have hne : u ≠ t := fun he => hu (by rw [he])
    simpa [List.mem_erase_of_ne hne] using h.ready u (by simp) p
  unlinked u hu hd := by
    obtain rfl := Option.some.inj hu
    exact (h.nodup hd).not_mem_erase
  nodup hd := (h.nodup hd).erase t
  waits u hd hu hn := h.waits u hd (List.mem_of_mem_erase hu) hn
  once u hd hd' hu hu' := h.once u hd hd' (List.mem_of_mem_erase hu) (List.mem_of_mem_erase hu')
  bitmap := by
    refine bitmap_congr h.bitmap rfl rfl rfl fun p => List.erase_of_not_mem fun hmem => ?_
    exact hs ((h.ready t (by simp) p).mp hmem).1

theorem setThread_ex (h : k.Coherent (some t)) {f : Thread → Thread}
    (hp : (f (k.thread t)).currentPriority < k.priorityMax ∧ (f (k.thread t)).initPriority < k.priorityMax)
    (hm : (f (k.thread t)).stat ≠ .init → (f (k.thread t)).stat ≠ .close →
      (f (k.thread t)).Masked k.priorityMax) :
    (k.setThread t f).Coherent (some t) where
  maxLe := h.maxLe
  priority u := by
    by_cases hu : u = t
    · subst hu; simpa using hp
    · simpa [hu] using h.priority u
  mask u := by
    by_cases hu : u = t
    · subst hu; simpa using hm
    · simpa [hu] using h.mask u
  ready u hu p := by
    have hne : u ≠ t := fun he => hu (by rw [he])
    simpa [hne] using h.ready u hu p
  unlinked := h.unlinked
  nodup := h.nodup
  waits u hd hu hn := by
    have hne : u ≠ t := fun he => h.unlinked t rfl hd (he ▸ hu)
    simpa [hne] using h.waits u hd hu hn
  once := h.once
  bitmap := bitmap_congr h.bitmap rfl rfl rfl fun _ => rfl

theorem setThread (h : k.Coherent ex) {f : Thread → Thread} (hf : (f (k.thread t)).SameSched (k.thread t)) :
    (k.setThread t f).Coherent ex := by
  have hsame : ∀ u, ((k.setThread t f).thread u).SameSched (k.thread u) := by
    intro u
    by_cases hu : u = t
    · subst hu; simpa using hf
    · simp only [ne_eq, hu, not_false_eq_true, setThread_thread_of_ne]
      exact ⟨rfl, rfl, rfl, rfl, rfl, rfl⟩
  constructor
  · exact h.maxLe
  · intro u
    rw [(hsame u).currentPriority, (hsame u).initPriority]
    exact h.priority u
  · intro u hu hu'
    rw [(hsame u).stat] at hu hu'
    exact (hsame u).masked (h.mask u hu hu')
  · intro u hu p
    rw [(hsame u).stat, (hsame u).currentPriority]
    exact h.ready u hu p
  · exact h.unlinked
  · exact h.nodup
  · intro u hd hu hn
    rw [(hsame u).stat]
    exact h.waits u hd hu hn
  · exact h.once
  · exact bitmap_congr h.bitmap rfl rfl rfl fun _ => rfl

theorem insert (h : k.Coherent (some t)) (hm : (k.thread t).Masked k.priorityMax) :
    (k.rtScheduleInsertThread t).Coherent none := by
  have hthread : ∀ u, u ≠ t → (k.rtScheduleInsertThread t).thread u = k.thread u :=
    fun u hu => insert_thread_of_ne k t hu
  have hself := insert_thread_self k t
  have hne : ∀ {u}, u ≠ t → some u ≠ some t := fun hu he => hu (Option.some.inj he)
  have hmem : ∀ {u hd}, u ≠ t → (u ∈ (k.rtScheduleInsertThread t).list hd ↔ u ∈ k.list hd) := by
    intro u hd hu
    rw [insert_list]
    split_ifs <;> simp [hu]
  have hmemt : ∀ hd, t ∈ (k.rtScheduleInsertThread t).list hd ↔
      k.current ≠ some t ∧ hd = .ready (k.thread t).currentPriority := by
    intro hd
    rw [insert_list]
    split_ifs with hc
    · simpa using hc
    · simp only [h.unlinked t rfl hd, false_iff]
      exact hc
  constructor
  · simpa using h.maxLe
  · intro u
    by_cases hu : u = t
    · subst hu; simpa [hself] using h.priority u
    · simpa [hthread u hu] using h.priority u
  · intro u
    by_cases hut : u = t
    · subst hut
      rw [insert_priorityMax, hself]
      exact fun _ _ => hm.congr rfl rfl rfl rfl
    · simpa [hthread u hut] using h.mask u
  · intro u _ p
    by_cases hu : u = t
    · subst hu
      rw [hmemt, hself]
      by_cases hc : k.current = some u <;> simp [hc, eq_comm]
    · rw [hmem hu, hthread u hu]
      exact h.ready u (hne hu) p
  · simp
  · intro hd
    rw [insert_list]
    split_ifs with hc
    · exact List.Nodup.append (h.nodup hd) (by simp) (by simpa using h.unlinked t rfl hd)
    · exact h.nodup hd
  · intro u hd hu hn
    by_cases hut : u = t
    · subst hut
      exact absurd ((hmemt hd).mp hu).2 (hn _)
    · rw [hthread u hut]
      exact h.waits u hd ((hmem hut).mp hu) hn
  · intro u hd hd' hu hu'
    by_cases hut : u = t
    · subst hut
      rw [((hmemt hd).mp hu).2, ((hmemt hd').mp hu').2]
    · exact h.once u hd hd' ((hmem hut).mp hu) ((hmem hut).mp hu')
  · by_cases hc : k.current = some t
    · refine bitmap_congr h.bitmap (by simp) ?_ ?_ fun p => by simp [insert_list, hc]
      all_goals simp [rtScheduleInsertThread, hc]
    · exact bitmap_insert h.bitmap h.maxLe (h.priority t).1 hm hc

theorem settle (h : k.Coherent (some t)) (hr : (k.thread t).stat ≠ .ready) : k.Coherent none where
  maxLe := h.maxLe
  priority := h.priority
  mask := h.mask
  ready u _ p := by
    by_cases hu : u = t
    · subst hu
      simp [h.unlinked u rfl, hr]
    · exact h.ready u (fun he => hu (Option.some.inj he)) p
  unlinked := by simp
  nodup := h.nodup
  waits := h.waits
  once := h.once
  bitmap := h.bitmap

theorem detach (h : k.Coherent none) (hr : (k.thread t).stat ≠ .ready)
    (hs : (k.thread t).stat.suspended = false) : k.Coherent (some t) where
  maxLe := h.maxLe
  priority := h.priority
  mask := h.mask
  ready u _ := h.ready u (by simp)
  unlinked u hu := by
    obtain rfl := Option.some.inj hu
    exact h.not_linked hr hs
  nodup := h.nodup
  waits := h.waits
  once := h.once
  bitmap := h.bitmap

theorem setCurrent (h : k.Coherent ex) (c : Option Tid) : Coherent { k with current := c } ex :=
  ⟨h.maxLe, h.priority, h.mask, h.ready, h.unlinked, h.nodup, h.waits, h.once, h.bitmap⟩

theorem setLock (h : k.Coherent ex) (n : ℕ) : Coherent { k with schedulerLockNest := n } ex :=
  ⟨h.maxLe, h.priority, h.mask, h.ready, h.unlinked, h.nodup, h.waits, h.once, h.bitmap⟩

end Coherent

namespace CurrentOk

variable {k k' : Kernel} {t : Tid}

theorem congr (h : k.CurrentOk) (hc : k'.current = k.current)
    (hs : ∀ u, (k'.thread u).stat = (k.thread u).stat) : k'.CurrentOk where
  running u hu := by
    rw [hs] at hu
    exact hc.trans (h.running u hu)
  current u hu := by
    rw [hs]
    exact h.current u (hc.symm.trans hu)

theorem update (h : k.CurrentOk) (hc : k'.current = k.current)
    (hs : ∀ u, u ≠ t → (k'.thread u).stat = (k.thread u).stat)
    (h1 : (k'.thread t).stat = .running → k.current = some t)
    (h2 : k.current = some t → (k'.thread t).stat ≠ .ready ∧ (k'.thread t).stat ≠ .init) : k'.CurrentOk where
  running u hu := by
    rw [hc]
    by_cases hut : u = t
    · subst hut; exact h1 hu
    · exact h.running u (by rwa [hs u hut] at hu)
  current u hu := by
    rw [hc] at hu
    by_cases hut : u = t
    · subst hut; exact h2 hu
    · rw [hs u hut]; exact h.current u hu

theorem setThread (h : k.CurrentOk) {f : Thread → Thread} (hf : (f (k.thread t)).stat = (k.thread t).stat) :
    (k.setThread t f).CurrentOk := by
  refine h.congr rfl fun u => ?_
  by_cases hu : u = t
  · subst hu; simpa using hf
  · simp [hu]

theorem insert (h : k.CurrentOk) : (k.rtScheduleInsertThread t).CurrentOk := by
  refine h.update (t := t) (by simp) (fun u hu => by simp [hu]) ?_ ?_
  · intro hr
    by_contra hc
    simp [insert_thread_self, hc] at hr
  · intro hc
    simp [insert_thread_self, hc]

end CurrentOk

end Kernel

end RtSmart
