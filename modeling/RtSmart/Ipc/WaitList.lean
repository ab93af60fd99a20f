import RtSmart.Kernel.SchedulerRun
import RtSmart.Lib.Queue

/-!
The wait lists of the kernel objects: how a thread enters one, and the ways out of it
(a wake-up by the object, the expiry of the thread timer, a signal).
-/

namespace RtSmart

open Lib

inductive IpcFlag where
  | fifo | prio
  deriving DecidableEq, Repr

def ListHead.isWait : ListHead → Bool
  | .ready _ => false
  | _ => true

structure Thread.Fresh (th : Thread) : Prop where
  pendingObject : th.pendingObject = none
  priority : th.currentPriority = th.initPriority

namespace Kernel

def enqueue (k : Kernel) (flag : IpcFlag) (t : Tid) (l : List Tid) : List Tid :=
  match flag with
  | .fifo => l ++ [t]
  | .prio => l.orderedInsert (fun a b => (k.thread a).currentPriority < (k.thread b).currentPriority) t

def link (k : Kernel) (h : ListHead) (t : Tid) (flag : IpcFlag) : Kernel :=
  { k with list := Function.update k.list h (k.enqueue flag t (k.list h)) }

def rtIpcListSuspend (k : Kernel) (h : ListHead) (t : Tid) (flag : IpcFlag) (sf : SuspendFlag) :
    Kernel × Err :=
  match k.rtThreadSuspendWithFlag t sf with
  | (k, .eok) => (k.link h t flag, .eok)
  | (k, ret) => (k, ret)

def rtIpcListResume (k : Kernel) (h : ListHead) : Kernel :=
  match k.list h with
  | [] => k
  | t :: _ => ((k.setThread t fun th => { th with error := .eok }).rtThreadResume t).1

def rtTimerStart (k : Kernel) (t : Tid) : Kernel := k.setThread t fun th => { th with timer := true }

/-- The blocking part that the object functions share: the thread is suspended on the list with
`-RT_EINTR` as its error, and its timer is started when there is a waiting time. -/
def waitOn (k : Kernel) (h : ListHead) (t : Tid) (flag : IpcFlag) (sf : SuspendFlag) (time : ℤ) :
    Kernel × Err :=
  match (k.setThread t fun th => { th with error := .eintr }).rtIpcListSuspend h t flag sf with
  | (k, .eok) => (if 0 < time then k.rtTimerStart t else k, .eok)
  | (k, ret) => (k, ret)

inductive KernelEvent where
  | schedule
  | yield
  | timeout (t : Tid)
  | wakeup (t : Tid)
  | signal (t : Tid) (pending mask : BitVec 64)

def kernelStep (k : Kernel) : KernelEvent → Option Kernel
  | .schedule => if k.current = none then none else some k.rtSchedule
  | .yield => if k.current = none then none else some k.rtThreadYield
  | .timeout t =>
    if (k.thread t).timer = true ∧ (k.thread t).stat.suspended = true then some (k.rtThreadTimeout t) else none
  | .wakeup t => if (k.thread t).stat.suspended = true then some (k.rtThreadResume t).1 else none
  | .signal t pending mask => some (k.setThread t fun th => { th with signal := pending, signalMask := mask })

def Runs (k : Kernel) (t : Tid) : Prop := k.current = some t ∧ (k.thread t).stat = .running

instance (k : Kernel) (t : Tid) : Decidable (k.Runs t) := inferInstanceAs (Decidable (_ ∧ _))

/-- No object function has been called yet: no thread is in a wait list, waits for a mutex or runs
with an inherited priority. -/
structure Quiet (k : Kernel) : Prop where
  coherent : k.Coherent none
  currentOk : k.CurrentOk
  empty : ∀ h : ListHead, h.isWait = true → k.list h = []
  fresh : ∀ t, (k.thread t).Fresh

end Kernel

structure Thread.SameWait (a b : Thread) : Prop where
  error : b.error = a.error
  currentPriority : b.currentPriority = a.currentPriority
  initPriority : b.initPriority = a.initPriority
  pendingObject : b.pendingObject = a.pendingObject
  eventSet : b.eventSet = a.eventSet
  eventInfo : b.eventInfo = a.eventInfo

def Stat.runnable (s : Stat) : Prop := s = .ready ∨ s = .running

theorem Stat.runnable.suspended {s : Stat} (h : s.runnable) : s.suspended = false := by
  rcases h with rfl | rfl <;> rfl

namespace Kernel

structure Resched (k k' : Kernel) : Prop where
  list : ∀ h : ListHead, h.isWait = true → k'.list h = k.list h
  same : ∀ t, (k.thread t).SameWait (k'.thread t)
  stat : ∀ t, (k'.thread t).stat = (k.thread t).stat ∨
    ((k.thread t).stat.runnable ∧ (k'.thread t).stat.runnable)
  priorityMax : k'.priorityMax = k.priorityMax

/-- The suspended thread `t` leaves its wait list and becomes runnable with error code `e`. -/
structure Wakes (k k' : Kernel) (t : Tid) (e : Err) : Prop where
  suspended : (k.thread t).stat.suspended = true
  runnable : (k'.thread t).stat.runnable
  list : ∀ h : ListHead, h.isWait = true → k'.list h = (k.list h).erase t
  other : ∀ u, u ≠ t → k'.thread u = k.thread u
  same : Thread.SameWait { k.thread t with error := e } (k'.thread t)
  current : k'.current = k.current
  priorityMax : k'.priorityMax = k.priorityMax

/-- The running thread `t` enters the wait list `h`. -/
structure Blocks (k k' : Kernel) (t : Tid) (h : ListHead) (flag : IpcFlag) (sf : SuspendFlag) : Prop where
  stat : (k'.thread t).stat = .suspend sf
  list : ∀ h' : ListHead, h'.isWait = true →
    k'.list h' = if h' = h then k.enqueue flag t (k.list h) else k.list h'
  other : ∀ u, u ≠ t → k'.thread u = k.thread u
  same : Thread.SameWait { k.thread t with error := .eintr } (k'.thread t)
  current : k'.current = k.current

section wakes

variable {k : Kernel} {t : Tid}

theorem insert_runnable (k : Kernel) (t : Tid) : ((k.rtScheduleInsertThread t).thread t).stat.runnable := by
  rw [insert_thread_self]
  by_cases hc : k.current = some t
  · exact .inr (by simp [hc])
  · exact .inl (by simp [hc])

theorem insert_list_wait (k : Kernel) (t : Tid) {h : ListHead} (hw : h.isWait = true) :
    (k.rtScheduleInsertThread t).list h = k.list h := by
  cases h with
  | ready p => simp [ListHead.isWait] at hw
  | suspend o => simp
  | sender o => simp

theorem wakes_resume (hs : (k.thread t).stat.suspended = true) :
    Wakes k (k.rtThreadResume t).1 t (k.thread t).error := by
  simp only [rtThreadResume, hs, Bool.true_eq_false, if_false]
  refine ⟨hs, insert_runnable _ _, fun h hw => by simp [insert_list_wait _ _ hw], fun u hu => by simp [hu], ?_,
    by simp, by simp⟩
  rw [insert_thread_self, setThread_thread_self]
  exact ⟨rfl, rfl, rfl, rfl, rfl, rfl⟩

theorem wakes_timeout (hs : (k.thread t).stat.suspended = true) :
    Wakes k (k.rtThreadTimeout t) t .etimeout := by
  refine ⟨hs, insert_runnable _ _, fun h hw => by simp [rtThreadTimeout, insert_list_wait _ _ hw],
    fun u hu => by simp [rtThreadTimeout, hu], ?_, by simp [rtThreadTimeout], by simp [rtThreadTimeout]⟩
  rw [rtThreadTimeout, insert_thread_self, rtListRemove_thread, setThread_thread_self]
  exact ⟨rfl, rfl, rfl, rfl, rfl, rfl⟩

theorem wakes_listResume {h : ListHead} {l : List Tid} (hl : k.list h = t :: l)
    (hs : (k.thread t).stat.suspended = true) : Wakes k (k.rtIpcListResume h) t .eok := by
  have hw := wakes_resume (k := k.setThread t fun th => { th with error := .eok }) (t := t) (by simpa using hs)
  simp only [rtIpcListResume, hl]
  rw [setThread_thread_self] at hw
  refine ⟨hs, hw.runnable, fun h' hw' => ?_, fun u hu => ?_, ?_, ?_, ?_⟩
  · rw [hw.list h' hw', setThread_list]
  · rw [hw.other u hu, setThread_thread_of_ne _ _ _ hu]
  · simpa using hw.same
  · simpa using hw.current
  · simpa using hw.priorityMax

theorem Wakes.suspendList {k' : Kernel} {e : Err} (hw : Wakes k k' t e) (o : Oid) :
    k'.list (.suspend o) = (k.list (.suspend o)).erase t :=
  hw.list _ rfl

theorem Wakes.priority {k' : Kernel} {e : Err} (hw : Wakes k k' t e) (u : Tid) :
    (k'.thread u).currentPriority = (k.thread u).currentPriority := by
  by_cases hu : u = t
  · rw [hu, hw.same.currentPriority]
  · rw [hw.other u hu]

theorem Resched.refl (k : Kernel) : Resched k k :=
  ⟨fun _ _ => rfl, fun _ => ⟨rfl, rfl, rfl, rfl, rfl, rfl⟩, fun _ => .inl rfl, rfl⟩

theorem Resched.trans {k' k'' : Kernel} (h : Resched k k') (h' : Resched k' k'') : Resched k k'' := by
  refine ⟨fun hd hw => (h'.list hd hw).trans (h.list hd hw), fun t => ?_, fun t => ?_,
    h'.priorityMax.trans h.priorityMax⟩
  · have h1 := h.same t
    have h2 := h'.same t
    exact ⟨h2.error.trans h1.error, h2.currentPriority.trans h1.currentPriority,
      h2.initPriority.trans h1.initPriority, h2.pendingObject.trans h1.pendingObject,
      h2.eventSet.trans h1.eventSet, h2.eventInfo.trans h1.eventInfo⟩
  · rcases h.stat t with h1 | ⟨h1, h2⟩
    · rw [← h1]
      exact h'.stat t
    · rcases h'.stat t with h3 | ⟨-, h3⟩
      · exact .inr ⟨h1, h3 ▸ h2⟩
      · exact .inr ⟨h1, h3⟩

theorem Resched.setThread {f : Thread → Thread} (hf : (k.thread t).SameWait (f (k.thread t)))
    (hs : (f (k.thread t)).stat = (k.thread t).stat ∨
      ((k.thread t).stat.runnable ∧ (f (k.thread t)).stat.runnable)) : Resched k (k.setThread t f) := by
  refine ⟨fun _ _ => rfl, fun u => ?_, fun u => ?_, rfl⟩
  all_goals by_cases hu : u = t
  · subst hu
    simpa using hf
  · rw [setThread_thread_of_ne _ _ _ hu]
    exact ⟨rfl, rfl, rfl, rfl, rfl, rfl⟩
  · subst hu
    simpa using hs
  · exact .inl (by simp [hu])

theorem resched_switchTo {c u : Tid} (hcu : u ≠ c) (ins : Bool) (hu : (k.thread u).stat = .ready)
    (hul : ∀ h : ListHead, h.isWait = true → u ∉ k.list h)
    (hins : ins = true → (k.thread c).stat = .running) : Resched k (k.switchTo c u ins) := by
  refine ⟨fun h hw => ?_, fun v => ?_, fun v => ?_, by simp⟩
  · rw [switchTo_list _ hcu, List.erase_of_not_mem (hul h hw), if_neg, List.append_nil]
    rintro ⟨-, rfl⟩
    simp [ListHead.isWait] at hw
  · by_cases hvu : v = u
    · subst hvu
      rw [switchTo_thread_to _ hcu]
      exact ⟨rfl, rfl, rfl, rfl, rfl, rfl⟩
    by_cases hvc : v = c
    · subst hvc
      rw [switchTo_thread_from _ hcu]
      split_ifs <;> exact ⟨rfl, rfl, rfl, rfl, rfl, rfl⟩
    · rw [switchTo_thread_of_ne _ hvu hvc]
      exact ⟨rfl, rfl, rfl, rfl, rfl, rfl⟩
  · by_cases hvu : v = u
    · subst hvu
      rw [switchTo_thread_to _ hcu]
      exact .inr ⟨.inl hu, .inr rfl⟩
    by_cases hvc : v = c
    · subst hvc
      rw [switchTo_thread_from _ hcu]
      split_ifs with hi
      · exact .inr ⟨.inr (hins hi), .inl rfl⟩
      · exact .inl rfl
    · rw [switchTo_thread_of_ne _ hvu hvc]
      exact .inl rfl

theorem resched_rtSchedule (h : k.Coherent none) (ho : k.CurrentOk) : Resched k k.rtSchedule := by
  have hout : ∀ (k : Kernel), k.Coherent none → ∀ u, (k.thread u).stat.runnable → ∀ hd : ListHead,
      hd.isWait = true → u ∉ k.list hd := by
    intro k h u hr hd hw hm
    have hs := h.waits u hd hm (by rintro p rfl; simp [ListHead.isWait] at hw)
    simp [hr.suspended] at hs
  cases hc : k.current with
  | none =>
    have he : k.rtSchedule = k := by simp [rtSchedule, hc]
    rw [he]
    exact Resched.refl k
  | some c =>
    have hy : Resched k (k.setThread c fun th => { th with yield := false }) :=
      Resched.setThread ⟨rfl, rfl, rfl, rfl, rfl, rfl⟩ (.inl rfl)
    have hyc : (k.setThread c fun th => { th with yield := false }).Coherent none :=
      h.setThread ⟨rfl, rfl, rfl, rfl, rfl, rfl⟩
    rcases rtSchedule_cases h hc with ⟨he, -⟩ | ⟨-, -, hrun, -, he⟩ | ⟨-, -, u, l, hl, hcase⟩
    · rw [he]
      exact Resched.refl k
    · rw [he]
      refine hy.trans ⟨fun hd hw => ?_, fun v => ?_, fun v => ?_, by simp⟩
      · have hnot := hout _ hyc c (.inr (by simpa using hrun)) hd hw
        rw [setThread_list, remove_list, List.erase_of_not_mem hnot]
      all_goals by_cases hv : v = c
      · subst hv
        simp only [setThread_thread_self, remove_thread]
        exact ⟨rfl, rfl, rfl, rfl, rfl, rfl⟩
      · simp only [setThread_thread_of_ne _ _ _ hv, remove_thread]
        exact ⟨rfl, rfl, rfl, rfl, rfl, rfl⟩
      · subst hv
        exact .inl (by simp [hrun])
      · exact .inl (by simp [hv])
    · have hu := (h.head_ready hl).1
      have huc : u ≠ c := by
        rintro rfl
        exact (ho.current u hc).1 hu
      rcases hcase with ⟨hrun, -, he⟩ | ⟨-, he⟩
      · rw [he]
        have hu' : ((k.setThread c fun th => { th with yield := false }).thread u).stat = .ready := by
          simpa [huc] using hu
        exact hy.trans (resched_switchTo huc true hu' (hout _ hyc u (.inl hu')) fun _ => by simpa using hrun)
      · rw [he]
        exact resched_switchTo huc false hu (hout k h u (.inl hu)) (by simp)

end wakes

section blocks

variable {k k' : Kernel} {t : Tid} {h : ListHead} {flag : IpcFlag} {sf : SuspendFlag}

theorem mem_enqueue {u : Tid} {l : List Tid} : u ∈ k.enqueue flag t l ↔ u = t ∨ u ∈ l := by
  cases flag with
  | fifo => simp [enqueue, or_comm]
  | prio => exact List.mem_orderedInsert _

theorem nodup_enqueue {l : List Tid} (ht : t ∉ l) (hl : l.Nodup) : (k.enqueue flag t l).Nodup := by
  cases flag with
  | fifo => exact List.Nodup.append hl (by simp) (by simpa using ht)
  | prio => exact (List.perm_orderedInsert _ t l).nodup_iff.mpr (List.nodup_cons.mpr ⟨ht, hl⟩)

theorem Coherent.link (hc : k.Coherent (some t)) (hs : (k.thread t).stat.suspended = true)
    (hw : h.isWait = true) (flag : IpcFlag) : (k.link h t flag).Coherent none := by
  have hready : ∀ p, Function.update k.list h (k.enqueue flag t (k.list h)) (.ready p) = k.list (.ready p) := by
    intro p
    refine Function.update_of_ne ?_ _ _
    rintro rfl
    simp [ListHead.isWait] at hw
  have hmem : ∀ {u hd}, u ∈ Function.update k.list h (k.enqueue flag t (k.list h)) hd →
      (u = t ∧ hd = h) ∨ u ∈ k.list hd := by
    intro u hd hu
    by_cases he : hd = h
    · subst he
      rw [Function.update_self] at hu
      exact (mem_enqueue.mp hu).imp_left fun e => ⟨e, rfl⟩
    · rw [Function.update_of_ne he] at hu
      exact .inr hu
  constructor
  · exact hc.maxLe
  · exact hc.priority
  · exact hc.mask
  · intro u _ p
    simp only [Kernel.link, hready]
    by_cases hu : u = t
    · subst hu
      simp [hc.unlinked u rfl, (suspended_ne hs).1]
    · exact hc.ready u (fun e => hu (Option.some.inj e)) p
  · simp
  · intro hd
    by_cases he : hd = h
    · subst he
      simpa [Kernel.link] using nodup_enqueue (hc.unlinked t rfl hd) (hc.nodup hd)
    · simpa [Kernel.link, he] using hc.nodup hd
  · intro u hd hu hn
    rcases hmem hu with ⟨rfl, -⟩ | hu
    · exact hs
    · exact hc.waits u hd hu hn
  · intro u hd hd' hu hu'
    rcases hmem hu with ⟨rfl, rfl⟩ | h1 <;> rcases hmem hu' with ⟨he, rfl⟩ | h2
    · rfl
    · exact absurd h2 (hc.unlinked u rfl hd')
    · exact absurd h1 (hc.unlinked u (by rw [he]) hd)
    · exact hc.once u hd hd' h1 h2
  · exact bitmap_congr hc.bitmap rfl rfl rfl hready

/-- What `rt_ipc_list_suspend` does for the running thread. -/
theorem listSuspend_cases (flag : IpcFlag) (sf : SuspendFlag) (hc : k.Coherent none) (ho : k.CurrentOk) (hrun : (k.thread t).stat = .running)
    (hw : h.isWait = true) :
    (k.rtIpcListSuspend h t flag sf = (k, .eintr)) ∨
    (∃ k', k.rtIpcListSuspend h t flag sf = (k', .eok) ∧ lwpSuspendSigcheck (k.thread t) sf = true ∧ k'.Coherent none ∧ k'.CurrentOk ∧
      k'.current = k.current ∧ k'.priorityMax = k.priorityMax ∧ (∀ u, u ≠ t → k'.thread u = k.thread u) ∧
      k'.thread t = { k.thread t with stat := .suspend sf, timer := false } ∧
      ∀ h' : ListHead, h'.isWait = true →
        k'.list h' = if h' = h then k.enqueue flag t (k.list h) else k.list h') := by
  have hout : ∀ hd : ListHead, t ∉ k.list hd :=
    hc.not_linked (by simp [hrun]) (by simp [hrun, Stat.suspended])
  by_cases hsig : lwpSuspendSigcheck (k.thread t) sf = false
  · refine .inl ?_
    simp [rtIpcListSuspend, rtThreadSuspendWithFlag, hrun, hsig]
  · have hsus : k.rtThreadSuspendWithFlag t sf = ((k.rtScheduleRemoveThread t).setThread t fun th =>
        { th with stat := .suspend sf, timer := false }, .eok) := by
      simp [rtThreadSuspendWithFlag, hrun, hsig]
    have hco := hc.suspendWithFlag sf (t := t) (by rw [hsus])
    have hcu := ho.suspended sf (t := t)
    rw [hsus] at hco hcu
    refine .inr ⟨_, by simp only [rtIpcListSuspend, hsus], by simpa using hsig, hco.link (by simp [Stat.suspended]) hw flag,
      hcu.congr rfl fun _ => rfl, by simp [link], by simp [link], fun u hu => by simp [link, hu], by simp [link],
      fun h' _ => ?_⟩
    have henq : ∀ l, ((k.rtScheduleRemoveThread t).setThread t fun th =>
        { th with stat := .suspend sf, timer := false }).enqueue flag t l = k.enqueue flag t l := by
      intro l
      have hprio : ∀ u, (((k.rtScheduleRemoveThread t).setThread t fun th =>
          { th with stat := .suspend sf, timer := false }).thread u).currentPriority =
          (k.thread u).currentPriority := by
        intro u
        by_cases hu : u = t
        · subst hu; simp
        · simp [hu]
      cases flag <;> simp only [enqueue, hprio]
    by_cases he : h' = h
    · subst he
      simp [link, henq, List.erase_of_not_mem (hout h')]
    · simp [link, he, List.erase_of_not_mem (hout h')]

theorem waitOn_cases (flag : IpcFlag) (sf : SuspendFlag) (hc : k.Coherent none) (ho : k.CurrentOk) (hrun : (k.thread t).stat = .running)
    (hw : h.isWait = true) (time : ℤ) :
    (k.waitOn h t flag sf time = (k.setThread t fun th => { th with error := .eintr }, .eintr)) ∨
    (∃ k', k.waitOn h t flag sf time = (k', .eok) ∧ k'.Coherent none ∧ k'.CurrentOk ∧
      Blocks k k' t h flag sf) := by
  set k0 := k.setThread t fun th => { th with error := .eintr } with hk0
  have hc0 : k0.Coherent none := hc.setThread ⟨rfl, rfl, rfl, rfl, rfl, rfl⟩
  have ho0 : k0.CurrentOk := ho.setThread rfl
  have hrun0 : (k0.thread t).stat = .running := by simpa [hk0] using hrun
  rcases listSuspend_cases flag sf hc0 ho0 hrun0 hw with
    he | ⟨k1, he, -, hc1, ho1, hcur, -, hother, hself, hlist⟩
  · refine .inl ?_
    simp only [waitOn, ← hk0, he]
  · have henq : ∀ l, k0.enqueue flag t l = k.enqueue flag t l := by
      intro l
      have hprio : ∀ u, (k0.thread u).currentPriority = (k.thread u).currentPriority := by
        intro u
        by_cases hu : u = t
        · subst hu; simp [hk0]
        · simp [hk0, hu]
      cases flag <;> simp only [enqueue, hprio]
    have hblocks : Blocks k k1 t h flag sf := by
      refine ⟨by rw [hself], fun h' hw' => ?_, fun u hu => ?_, ?_, hcur⟩
      · rw [hlist h' hw', henq]
        simp [hk0]
      · rw [hother u hu]
        simp [hk0, hu]
      · rw [hself]
        simp only [hk0, setThread_thread_self]
        exact ⟨rfl, rfl, rfl, rfl, rfl, rfl⟩
    by_cases htime : 0 < time
    · refine .inr ⟨k1.rtTimerStart t, by simp only [waitOn, ← hk0, he, htime, if_true],
        hc1.setThread ⟨rfl, rfl, rfl, rfl, rfl, rfl⟩, ho1.setThread rfl, ?_⟩
      refine ⟨by simpa [rtTimerStart] using hblocks.stat, hblocks.list, fun u hu => ?_, ?_, hblocks.current⟩
      · simpa [rtTimerStart, hu] using hblocks.other u hu
      · have hsame := hblocks.same
        simp only [rtTimerStart, setThread_thread_self]
        exact ⟨hsame.error, hsame.currentPriority, hsame.initPriority, hsame.pendingObject, hsame.eventSet,
          hsame.eventInfo⟩
    · exact .inr ⟨k1, by simp only [waitOn, ← hk0, he, htime, if_false], hc1, ho1, hblocks⟩

theorem kernelStep_invariant (hc : k.Coherent none) (ho : k.CurrentOk) {e : KernelEvent}
    (hs : k.kernelStep e = some k') : k'.Coherent none ∧ k'.CurrentOk := by
  cases e with
  | schedule =>
    simp only [kernelStep, Option.ite_none_left_eq_some, Option.some.injEq] at hs
    obtain ⟨-, rfl⟩ := hs
    exact hc.rtSchedule ho
  | yield => exact schedStep_invariant (e := .yield) hc ho hs
  | timeout t =>
    simp only [kernelStep, Option.ite_none_right_eq_some, Option.some.injEq] at hs
    obtain ⟨⟨-, hsus⟩, rfl⟩ := hs
    refine ⟨hc.timeout hsus, CurrentOk.insert ?_⟩
    have h1 : (k.setThread t fun th => { th with error := .etimeout, timer := false }).CurrentOk :=
      ho.setThread rfl
    exact h1.congr rfl fun _ => rfl
  | wakeup t =>
    simp only [kernelStep, Option.ite_none_right_eq_some, Option.some.injEq] at hs
    obtain ⟨-, rfl⟩ := hs
    exact ⟨hc.resume, ho.resume⟩
  | signal t pending mask => exact schedStep_invariant (e := .signal t pending mask) hc ho hs

theorem kernelStep_cases (hc : k.Coherent none) (ho : k.CurrentOk) {e : KernelEvent}
    (hs : k.kernelStep e = some k') :
    Resched k k' ∨ ∃ t err, Wakes k k' t err ∧ (err = (k.thread t).error ∨ err = .etimeout) := by
  cases e with
  | schedule =>
    simp only [kernelStep, Option.ite_none_left_eq_some, Option.some.injEq] at hs
    obtain ⟨-, rfl⟩ := hs
    exact .inl (resched_rtSchedule hc ho)
  | yield =>
    simp only [kernelStep, Option.ite_none_left_eq_some, Option.some.injEq] at hs
    obtain ⟨hcur, rfl⟩ := hs
    obtain ⟨c, hcur⟩ := Option.ne_none_iff_exists'.mp hcur
    simp only [rtThreadYield, hcur]
    have hset : Resched k (k.setThread c fun th => { th with remainingTick := th.initTick, yield := true }) :=
      Resched.setThread ⟨rfl, rfl, rfl, rfl, rfl, rfl⟩ (.inl rfl)
    exact .inl (hset.trans (resched_rtSchedule (hc.setThread ⟨rfl, rfl, rfl, rfl, rfl, rfl⟩) (ho.setThread rfl)))
  | timeout t =>
    simp only [kernelStep, Option.ite_none_right_eq_some, Option.some.injEq] at hs
    obtain ⟨⟨-, hsus⟩, rfl⟩ := hs
    exact .inr ⟨t, _, wakes_timeout hsus, .inr rfl⟩
  | wakeup t =>
    simp only [kernelStep, Option.ite_none_right_eq_some, Option.some.injEq] at hs
    obtain ⟨hsus, rfl⟩ := hs
    exact .inr ⟨t, _, wakes_resume hsus, .inl rfl⟩
  | signal t pending mask =>
    obtain rfl := Option.some.inj hs
    exact .inl (Resched.setThread ⟨rfl, rfl, rfl, rfl, rfl, rfl⟩ (.inl rfl))

theorem listResume_invariant (hc : k.Coherent none) (ho : k.CurrentOk) :
    (k.rtIpcListResume h).Coherent none ∧ (k.rtIpcListResume h).CurrentOk := by
  cases hl : k.list h with
  | nil =>
    simp only [rtIpcListResume, hl]
    exact ⟨hc, ho⟩
  | cons t l =>
    have h1 : (k.setThread t fun th => { th with error := .eok }).Coherent none :=
      hc.setThread ⟨rfl, rfl, rfl, rfl, rfl, rfl⟩
    have h2 : (k.setThread t fun th => { th with error := .eok }).CurrentOk := ho.setThread rfl
    simp only [rtIpcListResume, hl]
    exact ⟨h1.resume, h2.resume⟩

end blocks

section quiet

variable {k k' : Kernel}

theorem schedStep_waitLists (hc : k.Coherent none) (ho : k.CurrentOk) {e : SchedEvent}
    (hs : k.schedStep e = some k') {hd : ListHead} (hw : hd.isWait = true) :
    (k'.list hd).Sublist (k.list hd) := by
  have hsched : ∀ k : Kernel, k.Coherent none → k.CurrentOk → k.rtSchedule.list hd = k.list hd :=
    fun k hc ho => (resched_rtSchedule hc ho).list hd hw
  have hresume : ∀ (k : Kernel) (t : Tid), ((k.rtThreadResume t).1.list hd).Sublist (k.list hd) := by
    intro k t
    simp only [rtThreadResume]
    split_ifs
    · exact List.Sublist.refl _
    · rw [insert_list_wait _ _ hw]
      exact List.erase_sublist
  cases e with
  | start =>
    simp only [schedStep, Option.ite_none_right_eq_some, Option.some.injEq] at hs
    obtain ⟨-, rfl⟩ := hs
    simp only [rtSystemSchedulerStart]
    split
    · exact List.Sublist.refl _
    · simpa using List.erase_sublist
  | startup t =>
    simp only [schedStep, Option.ite_none_right_eq_some, Option.some.injEq] at hs
    obtain ⟨hi, rfl⟩ := hs
    obtain ⟨h1, ho1⟩ := makeReady_invariant hc ho hi
    have hready : ((k.makeReady t).list hd).Sublist (k.list hd) := hresume _ t
    simp only [rtThreadStartup]
    split_ifs
    · exact hready
    · rwa [hsched _ h1 ho1]
  | suspend t flag =>
    obtain rfl := Option.some.inj hs
    simp only [rtThreadSuspendWithFlag]
    split_ifs
    · exact List.Sublist.refl _
    · exact List.Sublist.refl _
    · simpa using List.erase_sublist
  | resume t =>
    obtain rfl := Option.some.inj hs
    exact hresume k t
  | yield =>
    simp only [schedStep, Option.ite_none_left_eq_some, Option.some.injEq] at hs
    obtain ⟨hcur, rfl⟩ := hs
    obtain ⟨c, hcur⟩ := Option.ne_none_iff_exists'.mp hcur
    simp only [rtThreadYield, hcur]
    rw [hsched _ (hc.setThread ⟨rfl, rfl, rfl, rfl, rfl, rfl⟩) (ho.setThread rfl)]
    exact List.Sublist.refl _
  | changePriority t p =>
    simp only [schedStep, Option.ite_none_right_eq_some, Option.some.injEq] at hs
    obtain ⟨-, rfl⟩ := hs
    simp only [rtThreadControl]
    split_ifs
    · rw [insert_list_wait _ _ hw]
      simpa [setPriority] using List.erase_sublist
    · exact List.Sublist.refl _
  | bindCpu t cpu | enterCritical | signal t pending mask =>
    obtain rfl := Option.some.inj hs
    exact List.Sublist.refl _
  | close t =>
    obtain rfl := Option.some.inj hs
    simp only [rtThreadClose]
    split_ifs
    · exact List.Sublist.refl _
    · exact List.Sublist.refl _
    · simpa using List.erase_sublist
  | exit =>
    simp only [schedStep, Option.ite_none_right_eq_some, Option.some.injEq] at hs
    obtain ⟨hr, rfl⟩ := hs
    obtain ⟨c, hcur⟩ := Option.ne_none_iff_exists'.mp (show k.current ≠ none by rintro h0; simp [h0] at hr)
    obtain ⟨h1, ho1⟩ := exited_invariant (t := c) hc ho (by simpa [hcur] using hr)
    simp only [rtThreadExit, hcur]
    rw [hsched _ h1 ho1]
    simpa using List.erase_sublist
  | schedule =>
    simp only [schedStep, Option.ite_none_left_eq_some, Option.some.injEq] at hs
    obtain ⟨-, rfl⟩ := hs
    rw [hsched k hc ho]
  | exitCritical =>
    obtain rfl := Option.some.inj hs
    simp only [rtExitCritical]
    split_ifs
    · rw [hsched _ (hc.setLock (k.schedulerLockNest - 1)) (ho.congr rfl fun _ => rfl)]
    · exact List.Sublist.refl _

theorem fresh_setThread {t : Tid} {f : Thread → Thread} (h : ∀ u, (k.thread u).Fresh) (hf : (f (k.thread t)).Fresh)
    (u : Tid) : ((k.setThread t f).thread u).Fresh := by
  rw [setThread_thread]
  split_ifs
  · exact hf
  · exact h u

theorem fresh_insert {t : Tid} (h : ∀ u, (k.thread u).Fresh) (u : Tid) :
    ((k.rtScheduleInsertThread t).thread u).Fresh := by
  by_cases hu : u = t
  · rw [hu, insert_thread_self]
    exact ⟨(h t).pendingObject, (h t).priority⟩
  · rw [insert_thread_of_ne _ _ hu]
    exact h u

theorem fresh_resume {t : Tid} (h : ∀ u, (k.thread u).Fresh) (u : Tid) :
    ((k.rtThreadResume t).1.thread u).Fresh := by
  simp only [rtThreadResume]
  split_ifs
  · exact h u
  · refine fresh_insert (fresh_setThread (k := k.rtListRemove t) h ?_) u
    exact ⟨(h t).pendingObject, (h t).priority⟩

theorem fresh_rtSchedule (hc : k.Coherent none) (ho : k.CurrentOk) (h : ∀ u, (k.thread u).Fresh) (u : Tid) :
    (k.rtSchedule.thread u).Fresh := by
  have hs := (resched_rtSchedule hc ho).same u
  refine ⟨hs.pendingObject.trans (h u).pendingObject, ?_⟩
  rw [hs.currentPriority, hs.initPriority]
  exact (h u).priority

theorem fresh_setPriority {t : Tid} (h : ∀ u, (k.thread u).Fresh) (p : ℕ) (u : Tid) :
    ((k.setPriority t .changePriority p).thread u).Fresh := by
  refine fresh_setThread h ⟨?_, by simp⟩ u
  simp only [Thread.setMask]
  split_ifs <;> exact (h t).pendingObject

theorem schedStep_fresh (hc : k.Coherent none) (ho : k.CurrentOk) {e : SchedEvent} (hs : k.schedStep e = some k')
    (h : ∀ t, (k.thread t).Fresh) (u : Tid) : (k'.thread u).Fresh := by
  cases e with
  | start =>
    simp only [schedStep, Option.ite_none_right_eq_some, Option.some.injEq] at hs
    obtain ⟨-, rfl⟩ := hs
    simp only [rtSystemSchedulerStart]
    split
    · exact h u
    · refine fresh_setThread (fun v => by simpa using h v) ?_ u
      simp only [remove_thread]
      exact ⟨(h _).pendingObject, (h _).priority⟩
  | startup t =>
    simp only [schedStep, Option.ite_none_right_eq_some, Option.some.injEq] at hs
    obtain ⟨hi, rfl⟩ := hs
    obtain ⟨h1, ho1⟩ := makeReady_invariant hc ho hi
    have hready : ∀ v, ((k.makeReady t).thread v).Fresh := by
      refine fresh_resume (fresh_setThread h ⟨?_, by simp⟩)
      simp only [Thread.setMask]
      split_ifs <;> exact (h t).pendingObject
    simp only [rtThreadStartup]
    split_ifs
    · exact hready u
    · exact fresh_rtSchedule h1 ho1 hready u
  | suspend t flag =>
    obtain rfl := Option.some.inj hs
    simp only [rtThreadSuspendWithFlag]
    split_ifs
    · exact h u
    · exact h u
    · dsimp only
      refine fresh_setThread (k := k.rtScheduleRemoveThread t) (fun v => by simpa using h v) ?_ u
      simp only [remove_thread]
      exact ⟨(h t).pendingObject, (h t).priority⟩
  | resume t =>
    obtain rfl := Option.some.inj hs
    exact fresh_resume h u
  | yield =>
    simp only [schedStep, Option.ite_none_left_eq_some, Option.some.injEq] at hs
    obtain ⟨hcur, rfl⟩ := hs
    obtain ⟨c, hcur⟩ := Option.ne_none_iff_exists'.mp hcur
    simp only [rtThreadYield, hcur]
    exact fresh_rtSchedule (hc.setThread ⟨rfl, rfl, rfl, rfl, rfl, rfl⟩) (ho.setThread rfl)
      (fresh_setThread h ⟨(h c).pendingObject, (h c).priority⟩) u
  | changePriority t p =>
    simp only [schedStep, Option.ite_none_right_eq_some, Option.some.injEq] at hs
    obtain ⟨-, rfl⟩ := hs
    simp only [rtThreadControl]
    split_ifs
    · exact fresh_insert (fresh_setPriority (fun v => by simpa using h v) p) u
    · exact fresh_setPriority h p u
  | bindCpu t cpu =>
    obtain rfl := Option.some.inj hs
    exact h u
  | close t =>
    obtain rfl := Option.some.inj hs
    simp only [rtThreadClose]
    split_ifs
    · exact h u
    · exact fresh_setThread h ⟨(h t).pendingObject, (h t).priority⟩ u
    · refine fresh_setThread (k := k.rtScheduleRemoveThread t) (fun v => by simpa using h v) ?_ u
      simp only [remove_thread]
      exact ⟨(h t).pendingObject, (h t).priority⟩
  | exit =>
    simp only [schedStep, Option.ite_none_right_eq_some, Option.some.injEq] at hs
    obtain ⟨hr, rfl⟩ := hs
    obtain ⟨c, hcur⟩ := Option.ne_none_iff_exists'.mp (show k.current ≠ none by rintro h0; simp [h0] at hr)
    obtain ⟨h1, ho1⟩ := exited_invariant (t := c) hc ho (by simpa [hcur] using hr)
    simp only [rtThreadExit, hcur]
    refine fresh_rtSchedule h1 ho1 (fresh_setThread (fun v => by simpa using h v) ?_) u
    simp only [remove_thread]
    exact ⟨(h c).pendingObject, (h c).priority⟩
  | schedule =>
    simp only [schedStep, Option.ite_none_left_eq_some, Option.some.injEq] at hs
    obtain ⟨-, rfl⟩ := hs
    exact fresh_rtSchedule hc ho h u
  | enterCritical =>
    obtain rfl := Option.some.inj hs
    exact h u
  | exitCritical =>
    obtain rfl := Option.some.inj hs
    simp only [rtExitCritical]
    split_ifs
    · exact fresh_rtSchedule (hc.setLock (k.schedulerLockNest - 1)) (ho.congr rfl fun _ => rfl) h u
    · exact h u
  | signal t pending mask =>
    obtain rfl := Option.some.inj hs
    exact fresh_setThread h ⟨(h t).pendingObject, (h t).priority⟩ u

theorem quiet_of_run {n : ℕ} (hn : n ≤ 256) {priority : Tid → ℕ} (hp : ∀ t, priority t < n)
    {es : List SchedEvent} (h : run schedStep (boot n priority) es = some k) : k.Quiet := by
  refine run_invariant Quiet (fun k e k' hq hs => ?_) h ?_
  · obtain ⟨hc, ho⟩ := schedStep_invariant hq.coherent hq.currentOk hs
    refine ⟨hc, ho, fun hd hw => ?_, schedStep_fresh hq.coherent hq.currentOk hs hq.fresh⟩
    have hsub := schedStep_waitLists hq.coherent hq.currentOk hs hw
    rw [hq.empty hd hw] at hsub
    exact List.sublist_nil.mp hsub
  · obtain ⟨hc, ho⟩ := coherent_boot hn hp
    exact ⟨hc, ho, fun _ _ => rfl, fun _ => ⟨rfl, rfl⟩⟩

/-- A kernel in which the threads `ts` have been started and the scheduler runs. -/
def started (n : ℕ) (priority : Tid → ℕ) (ts : List Tid) : Kernel :=
  (run schedStep (boot n priority) (ts.map .startup ++ [.start])).getD (boot n priority)

theorem started_quiet {n : ℕ} (hn : n ≤ 256) {priority : Tid → ℕ} (hp : ∀ t, priority t < n) (ts : List Tid) :
    (started n priority ts).Quiet := by
  rw [started]
  cases hr : run schedStep (boot n priority) (ts.map .startup ++ [.start]) with
  | none => exact quiet_of_run hn hp (show run schedStep (boot n priority) [] = some _ from rfl)
  | some k => exact quiet_of_run hn hp hr

end quiet

end Kernel

end RtSmart
