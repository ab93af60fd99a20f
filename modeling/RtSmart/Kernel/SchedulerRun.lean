import RtSmart.Kernel.Operations
import RtSmart.Lib.Transition

namespace RtSmart

open Lib

def Thread.boot (priority : ℕ) : Thread where
  stat := .init
  yield := false
  error := .eok
  currentPriority := priority
  initPriority := priority
  number := 0
  highMask := 0
  numberMask := 0
  pendingObject := none
  eventSet := 0
  eventInfo := 0
  signal := 0
  signalMask := 0
  timer := false
  initTick := 10
  remainingTick := 10

namespace Kernel

/-- The state after `rt_system_scheduler_init` and `rt_thread_init` of every thread. -/
def boot (priorityMax : ℕ) (priority : Tid → ℕ) : Kernel where
  priorityMax := priorityMax
  thread t := Thread.boot (priority t)
  list _ := []
  readyPriorityGroup := 0
  readyTable _ := 0
  current := none
  schedulerLockNest := 0

inductive SchedEvent where
  | start
  | startup (t : Tid)
  | suspend (t : Tid) (flag : SuspendFlag)
  | resume (t : Tid)
  | yield
  | changePriority (t : Tid) (priority : ℕ)
  | bindCpu (t : Tid) (cpu : ℕ)
  | close (t : Tid)
  | exit
  | schedule
  | enterCritical
  | exitCritical
  | signal (t : Tid) (pending mask : BitVec 64)

def schedStep (k : Kernel) : SchedEvent → Option Kernel
  | .start => if k.current = none ∧ k.readyPriorityGroup ≠ 0 then some k.rtSystemSchedulerStart else none
  | .startup t => if (k.thread t).stat = .init then some (k.rtThreadStartup t) else none
  | .suspend t flag => some (k.rtThreadSuspendWithFlag t flag).1
  | .resume t => some (k.rtThreadResume t).1
  | .yield => if k.current = none then none else some k.rtThreadYield
  | .changePriority t p => if p < k.priorityMax then some (k.rtThreadControl t .changePriority p) else none
  -- on one core `RT_THREAD_CTRL_BIND_CPU` falls through to the empty default case
  | .bindCpu _ _ => some k
  | .close t => some (k.rtThreadClose t)
  | .exit => if k.current.any (fun t => (k.thread t).stat = .running) then some k.rtThreadExit else none
  | .schedule => if k.current = none then none else some k.rtSchedule
  | .enterCritical => some k.rtEnterCritical
  | .exitCritical => some k.rtExitCritical
  | .signal t pending mask => some (k.setThread t fun th => { th with signal := pending, signalMask := mask })

/-- The thread that a step takes out of a ready queue and puts back at the end of one. -/
def SchedEvent.requeued : SchedEvent → Option Tid
  | .changePriority t _ => some t
  | _ => none

def readyBit (k : Kernel) (p : ℕ) : Bool :=
  if 32 < k.priorityMax then k.readyPriorityGroup.getLsbD (p / 8) && (k.readyTable (p / 8)).getLsbD (p % 8)
  else k.readyPriorityGroup.getLsbD p

structure QueuesAgree (k : Kernel) : Prop where
  bit : ∀ p < k.priorityMax, k.readyBit p = true ↔ k.list (.ready p) ≠ []
  ready : ∀ t, (k.thread t).stat = .ready → ∀ p,
    (k.list (.ready p)).count t = if p = (k.thread t).currentPriority then 1 else 0
  others : ∀ t, (k.thread t).stat ≠ .ready → ∀ p, t ∉ k.list (.ready p)

structure Picks (k k' : Kernel) (c u : Tid) : Prop where
  current : k'.current = some u
  running : (k'.thread u).stat = .running
  highest : ∀ v, (k.thread v).stat = .ready ∨ (v = c ∧ (k.thread c).stat = .running) →
    (k.thread u).currentPriority ≤ (k.thread v).currentPriority
  first : u ≠ c → ∃ l, k.list (.ready (k.thread u).currentPriority) = u :: l
  stays : u = c → (k.thread c).stat = .running
  outgoing : u ≠ c → (k.thread c).stat = .running →
    (k'.thread c).stat = .ready ∧ ∃ l, k'.list (.ready (k.thread c).currentPriority) = l ++ [c]
  blocked : (k.thread c).stat ≠ .running → k'.thread c = k.thread c
  frame : ∀ v, v ≠ u → v ≠ c → k'.thread v = k.thread v

def SchedulesHighest (k : Kernel) : Prop :=
  ∀ c, k.current = some c → k.schedulerLockNest = 0 →
    ((∀ t, (k.thread t).stat ≠ .ready) → k.rtSchedule = k) ∧
    ((∃ t, (k.thread t).stat = .ready) → ∃ u, Picks k k.rtSchedule c u)

/-- Queues are first-in first-out: a step lets threads leave a queue, keeps the order of those that
stay, and lets threads enter only at the end. -/
def QueueOrder (k k' : Kernel) (x : Option Tid) : Prop :=
  ∀ p, ∃ l new, k'.list (.ready p) = l ++ new ∧ l.Sublist (k.list (.ready p)) ∧
    ∀ u ∈ new, (k.thread u).stat ≠ .ready ∨ some u = x

theorem coherent_boot {n : ℕ} (hn : n ≤ 256) {priority : Tid → ℕ} (hp : ∀ t, priority t < n) :
    (boot n priority).Coherent none ∧ (boot n priority).CurrentOk := by
  refine ⟨⟨hn, fun t => ⟨hp t, hp t⟩, by simp [boot, Thread.boot], by simp [boot, Thread.boot], by simp,
    by simp [boot], by simp [boot], by simp [boot], ?_⟩, by simp [boot, Thread.boot], by simp [boot]⟩
  by_cases h32 : 32 < (boot n priority).priorityMax
  · rw [Bitmap, if_pos h32]
    exact ⟨by simp [boot], by simp [boot]⟩
  · rw [Bitmap, if_neg h32]
    intro i _
    simp [boot]

section steps

variable {k : Kernel} {t : Tid}

theorem Coherent.close (h : k.Coherent none) : (k.rtThreadClose t).Coherent none := by
  simp only [rtThreadClose]
  split_ifs with h1 h2
  · exact h
  · have hd := h.detach (t := t) (by simp [h2]) (by simp [h2, Stat.suspended])
    exact (hd.setThread_ex (by simpa using h.priority t) (by simp)).settle (by simp)
  · have hrem := h.remove (h.mask t h2 h1)
    exact (hrem.setThread_ex (by simpa using h.priority t) (by simp)).settle (by simp)

theorem CurrentOk.close (ho : k.CurrentOk) : (k.rtThreadClose t).CurrentOk := by
  simp only [rtThreadClose]
  split_ifs with h1 h2
  · exact ho
  · exact ho.update (t := t) rfl (fun u hu => by simp [hu]) (by simp) (by simp)
  · exact ho.update (t := t) (by simp) (fun u hu => by simp [hu]) (by simp) (by simp)

theorem Coherent.suspended (h : k.Coherent none) (flag : SuspendFlag) :
    (k.rtThreadSuspendWithFlag t flag).1.Coherent none := by
  by_cases hok : (k.rtThreadSuspendWithFlag t flag).2 = .eok
  · refine (h.suspendWithFlag flag hok).settle ?_
    simp only [rtThreadSuspendWithFlag] at hok ⊢
    split_ifs at hok ⊢ with h1 h2
    simp
  · simp only [rtThreadSuspendWithFlag] at hok ⊢
    split_ifs at hok ⊢ with h1 h2
    · exact h
    · exact h
    · exact absurd rfl hok

theorem CurrentOk.suspended (ho : k.CurrentOk) (flag : SuspendFlag) :
    (k.rtThreadSuspendWithFlag t flag).1.CurrentOk := by
  simp only [rtThreadSuspendWithFlag]
  split_ifs
  · exact ho
  · exact ho
  · exact ho.update (t := t) (by simp) (fun u hu => by simp [hu]) (by simp) (by simp)

theorem CurrentOk.resume (ho : k.CurrentOk) : (k.rtThreadResume t).1.CurrentOk := by
  simp only [rtThreadResume]
  split_ifs
  · exact ho
  · have hrem : (k.rtListRemove t).CurrentOk := ho.congr rfl fun _ => rfl
    exact (hrem.setThread rfl).insert

theorem CurrentOk.control (ho : k.CurrentOk) (cmd : ControlCmd) (p : ℕ) :
    (k.rtThreadControl t cmd p).CurrentOk := by
  simp only [rtThreadControl]
  split_ifs
  · refine CurrentOk.insert ?_
    refine CurrentOk.setThread (ho.congr (by simp) fun _ => by simp) ?_
    simp
  · exact ho.setThread (by simp)

theorem makeReady_invariant (h : k.Coherent none) (ho : k.CurrentOk) (hi : (k.thread t).stat = .init) :
    (k.makeReady t).Coherent none ∧ (k.makeReady t).CurrentOk := by
  have hd := h.detach (t := t) (by simp [hi]) (by simp [hi, Stat.suspended])
  have hnc : k.current ≠ some t := fun hc => (ho.current t hc).2 hi
  refine ⟨Coherent.resume ?_, CurrentOk.resume ?_⟩
  · refine (hd.setThread_ex ?_ fun _ _ => ?_).settle (by simp)
    · simpa using (h.priority t).2
    · exact (Thread.setMask_masked _ _).congr rfl rfl rfl rfl
  · exact ho.update (t := t) rfl (fun u hu => by simp [hu]) (by simp) (by simp [hnc])

theorem startup_invariant (h : k.Coherent none) (ho : k.CurrentOk) (hi : (k.thread t).stat = .init) :
    (k.rtThreadStartup t).Coherent none ∧ (k.rtThreadStartup t).CurrentOk := by
  obtain ⟨h1, ho1⟩ := makeReady_invariant h ho hi
  simp only [rtThreadStartup]
  split_ifs
  · exact ⟨h1, ho1⟩
  · exact h1.rtSchedule ho1

theorem start_invariant (h : k.Coherent none) (ho : k.CurrentOk) (hc : k.current = none) :
    k.rtSystemSchedulerStart.Coherent none ∧ k.rtSystemSchedulerStart.CurrentOk := by
  simp only [rtSystemSchedulerStart]
  cases hl : k.list (.ready k.getHighestPriority) with
  | nil => exact ⟨h, ho⟩
  | cons u l =>
    have hu := (h.head_ready hl).1
    have hm := h.mask u (by simp [hu]) (by simp [hu])
    simp only [List.head?_cons]
    refine ⟨?_, ?_, ?_⟩
    · have hrem := (h.setCurrent (some u)).remove hm
      refine (hrem.setThread_ex ?_ fun _ _ => ?_).settle (by simp)
      · simpa using h.priority u
      · rw [remove_priorityMax, remove_thread]
        exact hm.congr rfl rfl rfl rfl
    · intro v hv
      by_cases hvu : v = u
      · simp [hvu]
      · simp only [setThread_thread_of_ne _ _ _ hvu, remove_thread] at hv
        exact absurd ((ho.running v hv).symm.trans hc) (by simp)
    · intro v hv
      obtain rfl : u = v := by simpa using hv
      simp

theorem exited_invariant (h : k.Coherent none) (ho : k.CurrentOk) (hrun : (k.thread t).stat = .running) :
    ((k.rtScheduleRemoveThread t).setThread t fun th =>
      { th with stat := .close, yield := false, timer := false }).Coherent none ∧
    ((k.rtScheduleRemoveThread t).setThread t fun th =>
      { th with stat := .close, yield := false, timer := false }).CurrentOk := by
  have hrem := h.remove (h.mask t (by simp [hrun]) (by simp [hrun]))
  refine ⟨(hrem.setThread_ex (by simpa using h.priority t) (by simp)).settle (by simp), ?_⟩
  exact ho.update (t := t) (by simp) (fun u hu => by simp [hu]) (by simp) (by simp)

theorem exit_invariant (h : k.Coherent none) (ho : k.CurrentOk)
    (hr : k.current.any (fun t => (k.thread t).stat = .running) = true) :
    k.rtThreadExit.Coherent none ∧ k.rtThreadExit.CurrentOk := by
  obtain ⟨c, hc⟩ := Option.ne_none_iff_exists'.mp (show k.current ≠ none by rintro h0; simp [h0] at hr)
  have hrun : (k.thread c).stat = .running := by simpa [hc] using hr
  obtain ⟨h1, ho1⟩ := exited_invariant h ho hrun
  simp only [rtThreadExit, hc]
  exact h1.rtSchedule ho1

theorem schedStep_invariant (h : k.Coherent none) (ho : k.CurrentOk) {e : SchedEvent} {k' : Kernel}
    (hs : k.schedStep e = some k') : k'.Coherent none ∧ k'.CurrentOk := by
  cases e with
  | start =>
    simp only [schedStep, Option.ite_none_right_eq_some, Option.some.injEq] at hs
    obtain ⟨⟨hc, -⟩, rfl⟩ := hs
    exact start_invariant h ho hc
  | startup t =>
    simp only [schedStep, Option.ite_none_right_eq_some, Option.some.injEq] at hs
    obtain ⟨hi, rfl⟩ := hs
    exact startup_invariant h ho hi
  | suspend t flag =>
    obtain rfl := Option.some.inj hs
    exact ⟨h.suspended flag, ho.suspended flag⟩
  | resume t =>
    obtain rfl := Option.some.inj hs
    exact ⟨h.resume, ho.resume⟩
  | yield =>
    simp only [schedStep, Option.ite_none_left_eq_some, Option.some.injEq] at hs
    obtain ⟨hc, rfl⟩ := hs
    obtain ⟨c, hc⟩ := Option.ne_none_iff_exists'.mp hc
    simp only [rtThreadYield, hc]
    exact Coherent.rtSchedule (h.setThread ⟨rfl, rfl, rfl, rfl, rfl, rfl⟩) (ho.setThread rfl)
  | changePriority t p =>
    simp only [schedStep, Option.ite_none_right_eq_some, Option.some.injEq] at hs
    obtain ⟨hp, rfl⟩ := hs
    exact ⟨h.control _ hp, ho.control _ _⟩
  | bindCpu t cpu =>
    obtain rfl := Option.some.inj hs
    exact ⟨h, ho⟩
  | close t =>
    obtain rfl := Option.some.inj hs
    exact ⟨h.close, ho.close⟩
  | exit =>
    simp only [schedStep, Option.ite_none_right_eq_some, Option.some.injEq] at hs
    obtain ⟨hr, rfl⟩ := hs
    exact exit_invariant h ho hr
  | schedule =>
    simp only [schedStep, Option.ite_none_left_eq_some, Option.some.injEq] at hs
    obtain ⟨-, rfl⟩ := hs
    exact h.rtSchedule ho
  | enterCritical =>
    obtain rfl := Option.some.inj hs
    exact ⟨h.setLock _, ho.congr rfl fun _ => rfl⟩
  | exitCritical =>
    obtain rfl := Option.some.inj hs
    have ho' : CurrentOk { k with schedulerLockNest := k.schedulerLockNest - 1 } := ho.congr rfl fun _ => rfl
    simp only [rtExitCritical]
    split_ifs
    · exact (h.setLock _).rtSchedule ho'
    · exact ⟨h.setLock _, ho'⟩
  | signal t pending mask =>
    obtain rfl := Option.some.inj hs
    exact ⟨h.setThread ⟨rfl, rfl, rfl, rfl, rfl, rfl⟩, ho.setThread rfl⟩

end steps

section order

variable {k k' k'' : Kernel} {t : Tid} {x : Option Tid}

theorem QueueOrder.of_sublist (h : ∀ p, (k'.list (.ready p)).Sublist (k.list (.ready p))) :
    QueueOrder k k' x :=
  fun p => ⟨k'.list (.ready p), [], by simp, h p, by simp⟩

theorem QueueOrder.insert (h : ∀ p, (k'.list (.ready p)).Sublist (k.list (.ready p)))
    (ht : (k.thread t).stat ≠ .ready ∨ some t = x) : QueueOrder k (k'.rtScheduleInsertThread t) x := by
  intro p
  rw [insert_list]
  split_ifs
  · exact ⟨_, [t], rfl, h p, by simpa using ht⟩
  · exact ⟨_, [], by simp, h p, by simp⟩

theorem QueueOrder.trans (h : QueueOrder k k' x) (h' : QueueOrder k' k'' none)
    (hr : ∀ u, (k'.thread u).stat ≠ .ready → (k.thread u).stat ≠ .ready ∨ some u = x) :
    QueueOrder k k'' x := by
  intro p
  obtain ⟨l, new, he, hl, hnew⟩ := h p
  obtain ⟨l', new', he', hl', hnew'⟩ := h' p
  rw [he] at hl'
  obtain ⟨a, b, rfl, ha, hb⟩ := List.sublist_append_iff.mp hl'
  refine ⟨a, b ++ new', by rw [he', List.append_assoc], ha.trans hl, fun u hu => ?_⟩
  rcases List.mem_append.mp hu with hub | hun
  · exact hnew u (hb.subset hub)
  · exact hr u ((hnew' u hun).resolve_right (by simp))

theorem queueOrder_switchTo {c u : Tid} (hcu : u ≠ c) (ins : Bool)
    (hins : ins = true → (k.thread c).stat = .running) : QueueOrder k (k.switchTo c u ins) none := by
  intro p
  refine ⟨_, _, switchTo_list k hcu ins (.ready p), List.erase_sublist, fun v hv => ?_⟩
  split_ifs at hv with hi
  · obtain rfl : v = c := by simpa using hv
    simp [hins hi.1]
  · simp at hv

theorem queueOrder_rtSchedule (h : k.Coherent none) (ho : k.CurrentOk) : QueueOrder k k.rtSchedule none := by
  cases hc : k.current with
  | none =>
    have he : k.rtSchedule = k := by simp [rtSchedule, hc]
    rw [he]
    exact .of_sublist fun p => List.Sublist.refl _
  | some c =>
    have hcr := (ho.current c hc).1
    rcases rtSchedule_cases h hc with ⟨he, -⟩ | ⟨-, -, -, -, he⟩ | ⟨-, -, u, l, hl, hcase⟩
    · rw [he]
      exact .of_sublist fun p => List.Sublist.refl _
    · rw [he]
      exact .of_sublist fun p => by simpa using List.erase_sublist
    · have huc : u ≠ c := by
        rintro rfl
        exact hcr (h.head_ready hl).1
      rcases hcase with ⟨hrun, -, he⟩ | ⟨-, he⟩
      · rw [he]
        have hsw : QueueOrder (k.setThread c fun th => { th with yield := false }) _ none :=
          queueOrder_switchTo huc true fun _ => by simpa using hrun
        have hset : QueueOrder k (k.setThread c fun th => { th with yield := false }) none :=
          .of_sublist fun p => List.Sublist.refl _
        refine hset.trans hsw fun v hv => .inl ?_
        by_cases hvc : v = c
        · rw [hvc, hrun]; simp
        · simpa [hvc] using hv
      · rw [he]
        exact queueOrder_switchTo huc false (by simp)

theorem queueOrder_resume : QueueOrder k (k.rtThreadResume t).1 none := by
  simp only [rtThreadResume]
  split_ifs with hs
  · exact .of_sublist fun p => List.Sublist.refl _
  · refine QueueOrder.insert (fun p => List.erase_sublist) (.inl ?_)
    exact (Coherent.suspended_ne (by simpa using hs)).1

theorem queueOrder_makeReady (hi : (k.thread t).stat = .init) : QueueOrder k (k.makeReady t) none := by
  simp only [makeReady, rtThreadResume]
  split_ifs
  · exact .of_sublist fun p => List.Sublist.refl _
  · exact QueueOrder.insert (fun p => List.erase_sublist) (.inl (by simp [hi]))

theorem makeReady_thread_of_ne {u : Tid} (hu : u ≠ t) : (k.makeReady t).thread u = k.thread u := by
  simp only [makeReady, rtThreadResume]
  split_ifs <;> simp [hu]

theorem queueOrder_startup (h : k.Coherent none) (ho : k.CurrentOk) (hi : (k.thread t).stat = .init) :
    QueueOrder k (k.rtThreadStartup t) none := by
  obtain ⟨h1, ho1⟩ := makeReady_invariant h ho hi
  simp only [rtThreadStartup]
  split_ifs
  · exact queueOrder_makeReady hi
  · refine (queueOrder_makeReady hi).trans (queueOrder_rtSchedule h1 ho1) fun u hu => .inl ?_
    by_cases hut : u = t
    · simp [hut, hi]
    · rwa [makeReady_thread_of_ne hut] at hu

theorem queueOrder_exit (h : k.Coherent none) (ho : k.CurrentOk)
    (hr : k.current.any (fun t => (k.thread t).stat = .running) = true) :
    QueueOrder k k.rtThreadExit none := by
  obtain ⟨c, hc⟩ := Option.ne_none_iff_exists'.mp (show k.current ≠ none by rintro h0; simp [h0] at hr)
  have hrun : (k.thread c).stat = .running := by simpa [hc] using hr
  obtain ⟨h1, ho1⟩ := exited_invariant h ho hrun
  simp only [rtThreadExit, hc]
  refine QueueOrder.trans (.of_sublist fun p => by simpa using List.erase_sublist)
    (queueOrder_rtSchedule h1 ho1) fun u hu => .inl ?_
  by_cases huc : u = c
  · simp [huc, hrun]
  · simpa [huc] using hu

theorem schedStep_queueOrder (h : k.Coherent none) (ho : k.CurrentOk) {e : SchedEvent}
    (hs : k.schedStep e = some k') : QueueOrder k k' e.requeued := by
  have herase : ∀ t, ∀ p, ((k.list (.ready p)).erase t).Sublist (k.list (.ready p)) := fun t p => List.erase_sublist
  have hsched : ∀ k1 : Kernel, k1.Coherent none → k1.CurrentOk → k1.list = k.list →
      (∀ u, (k1.thread u).stat = (k.thread u).stat) → QueueOrder k k1.rtSchedule none := by
    intro k1 h1 ho1 hl hst
    refine QueueOrder.trans (.of_sublist fun p => by rw [hl]) (queueOrder_rtSchedule h1 ho1) fun u hu => .inl ?_
    rwa [hst] at hu
  cases e with
  | start =>
    simp only [schedStep, Option.ite_none_right_eq_some, Option.some.injEq] at hs
    obtain ⟨-, rfl⟩ := hs
    refine .of_sublist fun p => ?_
    simp only [rtSystemSchedulerStart]
    split
    · exact List.Sublist.refl _
    · simpa using herase _ p
  | startup t =>
    simp only [schedStep, Option.ite_none_right_eq_some, Option.some.injEq] at hs
    obtain ⟨hi, rfl⟩ := hs
    exact queueOrder_startup h ho hi
  | suspend t flag =>
    obtain rfl := Option.some.inj hs
    refine .of_sublist fun p => ?_
    simp only [rtThreadSuspendWithFlag]
    split_ifs
    · exact List.Sublist.refl _
    · exact List.Sublist.refl _
    · simpa using herase t p
  | resume t =>
    obtain rfl := Option.some.inj hs
    exact queueOrder_resume
  | yield =>
    simp only [schedStep, Option.ite_none_left_eq_some, Option.some.injEq] at hs
    obtain ⟨hc, rfl⟩ := hs
    obtain ⟨c, hc⟩ := Option.ne_none_iff_exists'.mp hc
    simp only [rtThreadYield, hc]
    refine hsched _ (h.setThread ⟨rfl, rfl, rfl, rfl, rfl, rfl⟩) (ho.setThread rfl) rfl fun u => ?_
    by_cases huc : u = c
    · subst huc; simp
    · simp [huc]
  | changePriority t p =>
    simp only [schedStep, Option.ite_none_right_eq_some, Option.some.injEq] at hs
    obtain ⟨-, rfl⟩ := hs
    simp only [rtThreadControl]
    split_ifs
    · exact QueueOrder.insert (fun q => by simpa [setPriority] using herase t q) (.inr rfl)
    · exact .of_sublist fun q => List.Sublist.refl _
  | bindCpu t cpu | enterCritical | signal t pending mask =>
    obtain rfl := Option.some.inj hs
    exact .of_sublist fun p => List.Sublist.refl _
  | close t =>
    obtain rfl := Option.some.inj hs
    refine .of_sublist fun p => ?_
    simp only [rtThreadClose]
    split_ifs
    · exact List.Sublist.refl _
    · exact List.Sublist.refl _
    · simpa using herase t p
  | exit =>
    simp only [schedStep, Option.ite_none_right_eq_some, Option.some.injEq] at hs
    obtain ⟨hr, rfl⟩ := hs
    exact queueOrder_exit h ho hr
  | schedule =>
    simp only [schedStep, Option.ite_none_left_eq_some, Option.some.injEq] at hs
    obtain ⟨-, rfl⟩ := hs
    exact queueOrder_rtSchedule h ho
  | exitCritical =>
    obtain rfl := Option.some.inj hs
    simp only [rtExitCritical]
    split_ifs
    · exact hsched _ (h.setLock _) (ho.congr rfl fun _ => rfl) rfl fun _ => rfl
    · exact .of_sublist fun p => List.Sublist.refl _

end order

section schedule

variable {k : Kernel} {c u : Tid}

theorem Coherent.queuesAgree (h : k.Coherent none) : QueuesAgree k where
  bit p hp := by
    have hb := h.bitmap
    have hmax := h.maxLe
    simp only [readyBit]
    by_cases h32 : 32 < k.priorityMax
    · rw [Bitmap, if_pos h32] at hb
      have hrow := hb.row (p / 8) (by omega) (p % 8) (by omega)
      rw [Nat.div_add_mod] at hrow
      rw [if_pos h32, Bool.and_eq_true, ← hrow, hb.group _ (by omega)]
      refine and_iff_right_of_imp fun hbit => ?_
      exact (bitVec_ne_zero_iff _).mpr ⟨p % 8, by omega, hbit⟩
    · rw [Bitmap, if_neg h32] at hb
      rw [if_neg h32]
      exact hb p (by omega)
  ready t ht p := by
    split_ifs with hp
    · exact List.count_eq_one_of_mem (h.nodup _) ((h.ready t (by simp) p).mpr ⟨ht, hp.symm⟩)
    · exact List.count_eq_zero_of_not_mem fun hm => hp ((h.ready t (by simp) p).mp hm).2.symm
  others t ht p hm := ht ((h.ready t (by simp) p).mp hm).1

theorem Coherent.highest_le (h : k.Coherent none) (hg : k.readyPriorityGroup ≠ 0) {v : Tid}
    (hv : (k.thread v).stat = .ready) : k.getHighestPriority ≤ (k.thread v).currentPriority := by
  by_contra hlt
  have hempty := (getHighestPriority_spec h hg).2 _ (not_le.mp hlt)
  have hmem := (h.ready v (by simp) _).mpr ⟨hv, rfl⟩
  simp [hempty] at hmem

theorem Coherent.group_eq_zero_iff (h : k.Coherent none) :
    k.readyPriorityGroup = 0 ↔ ∀ t, (k.thread t).stat ≠ .ready := by
  constructor
  · intro hg t ht
    have hq := (h.queuesAgree.bit _ (h.priority t).1).mpr
      (List.ne_nil_of_mem ((h.ready t (by simp) _).mpr ⟨ht, rfl⟩))
    simp [readyBit, hg] at hq
  · intro hnone
    by_contra hg
    obtain ⟨u, l, hl⟩ := List.exists_cons_of_ne_nil (getHighestPriority_spec h hg).1
    exact hnone u (h.head_ready hl).1

theorem Picks.switch (h : k.Coherent none) (hg : k.readyPriorityGroup ≠ 0) (hc : (k.thread c).stat ≠ .ready)
    {l : List Tid} (hl : k.list (.ready k.getHighestPriority) = u :: l) {ins : Bool}
    (hins : ins = true ↔ (k.thread c).stat = .running)
    (hle : ins = true → k.getHighestPriority ≤ (k.thread c).currentPriority) {f : Thread → Thread}
    (hfp : ∀ th, (f th).currentPriority = th.currentPriority)
    (hfi : ins = false → ∀ th, f th = th) :
    Picks k ((k.setThread c f).switchTo c u ins) c u := by
  obtain ⟨hu, hup⟩ := h.head_ready hl
  have huc : u ≠ c := by
    rintro rfl
    exact hc hu
  constructor
  · simp
  · simp [switchTo_thread_to _ huc]
  · rintro v (hv | ⟨rfl, hv⟩)
    · rw [hup]
      exact h.highest_le hg hv
    · rw [hup]
      exact hle (hins.mpr hv)
  · intro _
    exact ⟨l, by rw [hup, hl]⟩
  · intro he
    exact absurd he huc
  · intro _ hrun
    have hi : ins = true := hins.mpr hrun
    rw [switchTo_thread_from _ huc, switchTo_list _ huc]
    simp [hi, hfp]
  · intro hrun
    have hi : ins = false := by simpa using mt hins.mp hrun
    rw [switchTo_thread_from _ huc]
    simp [hi, hfi hi]
  · intro v hvu hvc
    rw [switchTo_thread_of_ne _ hvu hvc, setThread_thread_of_ne _ _ _ hvc]

theorem Coherent.schedulesHighest (h : k.Coherent none) (ho : k.CurrentOk) : SchedulesHighest k := by
  intro c hc hlock
  have hcr := (ho.current c hc).1
  have hid : k.setThread c (fun th => th) = k := by simp [Kernel.setThread]
  rcases rtSchedule_cases h hc with ⟨he, hn⟩ | ⟨-, hg, hrun, hle, he⟩ | ⟨-, hg, u, l, hl, hcase⟩
  · have hg : k.readyPriorityGroup = 0 := hn.resolve_left (by simp [hlock])
    refine ⟨fun _ => he, fun hready => ?_⟩
    obtain ⟨t, ht⟩ := hready
    exact absurd ht ((h.group_eq_zero_iff.mp hg) t)
  · refine ⟨fun hnone => absurd (h.group_eq_zero_iff.mpr hnone) hg, fun _ => ⟨c, ?_⟩⟩
    rw [he]
    refine ⟨by simpa using hc, by simp, ?_, by simp, fun _ => hrun, by simp, by simp [hrun], ?_⟩
    · rintro v (hv | ⟨rfl, -⟩)
      · exact hle.trans (h.highest_le hg hv)
      · exact le_rfl
    · intro v hv _
      simp [hv]
  · refine ⟨fun hnone => absurd (h.group_eq_zero_iff.mpr hnone) hg, fun _ => ⟨u, ?_⟩⟩
    rcases hcase with ⟨hrun, hle, he⟩ | ⟨hrun, he⟩
    · rw [he]
      exact Picks.switch h hg hcr hl (by simpa using hrun) (fun _ => hle) (by simp) (by simp)
    · have hsw : Picks k ((k.setThread c fun th => th).switchTo c u false) c u :=
        Picks.switch h hg hcr hl (by simpa using hrun) (by simp) (by simp) (by simp)
      rw [hid] at hsw
      rwa [he]

end schedule

theorem run_coherent {n : ℕ} (hn : n ≤ 256) {priority : Tid → ℕ} (hp : ∀ t, priority t < n)
    {es : List SchedEvent} {k : Kernel} (h : run schedStep (boot n priority) es = some k) :
    k.Coherent none ∧ k.CurrentOk :=
  run_invariant (fun k => k.Coherent none ∧ k.CurrentOk)
    (fun _ _ _ hi hs => schedStep_invariant hi.1 hi.2 hs) h (coherent_boot hn hp)

theorem scheduler_queues_coherent {n : ℕ} (hn : n ≤ 256) (priority : Tid → ℕ) (hp : ∀ t, priority t < n)
    (es : List SchedEvent) (k : Kernel) (h : run schedStep (boot n priority) es = some k) :
    QueuesAgree k ∧ SchedulesHighest k ∧
      ∀ e k', k.schedStep e = some k' → QueueOrder k k' e.requeued := by
  obtain ⟨hc, ho⟩ := run_coherent hn hp h
  exact ⟨hc.queuesAgree, hc.schedulesHighest ho, fun e k' hs => schedStep_queueOrder hc ho hs⟩

def exampleRun : List SchedEvent :=
  [.startup 41, .startup 42, .startup 7, .start, .suspend 7 .interruptible, .schedule, .yield, .resume 7,
    .changePriority 7 3, .schedule, .exit]

theorem scheduler_queues_coherent_example : ∃ k, run schedStep (boot 64 fun t => t / 4 % 64) exampleRun = some k ∧
    QueuesAgree k ∧ SchedulesHighest k ∧ ∀ e k', k.schedStep e = some k' → QueueOrder k k' e.requeued := by
  have hrun : (run schedStep (boot 64 fun t => t / 4 % 64) exampleRun).isSome = true := by decide
  obtain ⟨k, hk⟩ := Option.isSome_iff_exists.mp hrun
  exact ⟨k, hk, scheduler_queues_coherent (by decide) _ (fun t => Nat.mod_lt _ (by decide)) _ k hk⟩

end Kernel

end RtSmart
