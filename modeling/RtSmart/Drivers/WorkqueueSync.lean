import RtSmart.Drivers.WorkqueueInv
import RtSmart.Kernel.Thread

/-!
`rt_workqueue_cancel_work_sync` against the worker: the look at `work_current`, the locked cancellation and the call
of `rt_sem_take` are steps of their own, and so are the calls by which the worker acknowledges the end of an item.
-/

namespace RtSmart

open Lib

/-- Where a thread stands in `rt_workqueue_cancel_work_sync`. -/
inductive SyncPc
  | idle
  | cancelling (work : ℕ)
  | taking (work : ℕ)
  | blocked (work : ℕ)
  | woken (work : ℕ)
deriving DecidableEq

/-- The item whose end the thread waits for. -/
def SyncPc.awaits : SyncPc → Option ℕ
  | .taking w | .blocked w | .woken w => some w
  | _ => none

/-- The next call in the loop of `_workqueue_work_completion`. -/
inductive AckPc
  | done
  | trytake
  | release
deriving DecidableEq

/-- A return of `rt_workqueue_cancel_work_sync`, and whether the item was running or queued then. -/
structure SyncReturn where
  thread : Tid
  work : ℕ
  busy : Bool
deriving DecidableEq

/-- `sem` and `waiting` are the semaphore of the queue and its suspended threads. -/
structure WorkSync where
  wq : Workqueue
  sem : ℕ
  waiting : List Tid
  ack : AckPc
  pc : Tid → SyncPc
  returns : List SyncReturn

inductive SyncEvent
  | queue (e : WorkEvent)
  | ack
  | call (t : Tid) (work : ℕ)
  | cancel (t : Tid)
  | take (t : Tid)
  | resume (t : Tid)

def Workqueue.busy (s : Workqueue) (w : ℕ) : Bool := decide (s.workCurrent = some w) || decide (w ∈ s.queue)

namespace WorkSync

def init (time : ℕ) : WorkSync := ⟨.init time, 0, [], .done, fun _ => .idle, []⟩

def setPc (s : WorkSync) (t : Tid) (p : SyncPc) : WorkSync := { s with pc := Function.update s.pc t p }

def leave (s : WorkSync) (t : Tid) (w : ℕ) : WorkSync :=
  { s.setPc t .idle with returns := ⟨t, w, s.wq.busy w⟩ :: s.returns }

/-- `rt_sem_release`. -/
def semRelease (s : WorkSync) : WorkSync :=
  match s.waiting with
  | [] => { s with sem := s.sem + 1 }
  | t :: l =>
    { s with
      waiting := l
      pc := Function.update s.pc t
        (match s.pc t with
        | .blocked w => .woken w
        | p => p) }

def step (s : WorkSync) : SyncEvent → Option WorkSync
  | .queue e =>
    if e = .turn ∧ s.ack ≠ .done then none
    else (s.wq.step e).map fun q => { s with wq := q, ack := if e = .finish then .trytake else s.ack }
  | .ack =>
    match s.ack with
    | .done => none
    | .trytake =>
      if 0 < s.sem then some { s with sem := s.sem - 1, ack := .done } else some { s with ack := .release }
    | .release => some { s.semRelease with ack := .trytake }
  | .call t w =>
    if s.pc t = .idle then some (s.setPc t (if s.wq.workCurrent = some w then .taking w else .cancelling w)) else none
  | .cancel t =>
    match s.pc t with
    | .cancelling w => some ({ s with wq := (s.wq.workqueueCancelWork w).1 }.leave t w)
    | _ => none
  | .take t =>
    match s.pc t with
    | .taking w =>
      if 0 < s.sem then some ({ s with sem := s.sem - 1 }.leave t w)
      else some { s.setPc t (.blocked w) with waiting := s.waiting ++ [t] }
    | _ => none
  | .resume t =>
    match s.pc t with
    | .woken w => some (s.leave t w)
    | _ => none

/-- The item does not start or end between the look at `work_current` and what the caller does about it, and it is not
in the queue from there on. -/
def Steady (s : WorkSync) : SyncEvent → Prop
  | .queue (.submit w _) | .queue (.urgent w) => ∀ t, (s.pc t).awaits ≠ some w
  | .call _ w => s.wq.workCurrent = some w → w ∉ s.wq.queue
  | .cancel t => ∀ w, s.pc t = .cancelling w → s.wq.workCurrent ≠ some w
  | .take t => ∀ w, s.pc t = .taking w → s.wq.workCurrent = some w ∨ s.ack ≠ .done
  | _ => True

end WorkSync

namespace Workqueue

variable {s s' : Workqueue} {e : WorkEvent} {w : ℕ}

/-- What an event other than `turn` and `finish` leaves of the worker and of the queue. -/
structure Calm (s s' : Workqueue) (added : Option ℕ) : Prop where
  current : s'.workCurrent = s.workCurrent
  running : ∀ w, s'.pc = .running w ↔ s.pc = .running w
  check : s.pc = .check → s'.pc = .check
  queue : ∀ w ∈ s'.queue, w ∈ s.queue ∨ some w = added

def added : WorkEvent → Option ℕ
  | .submit w _ | .urgent w => some w
  | _ => none

theorem rtCompletionDone_calm (s : Workqueue) : Calm s s.rtCompletionDone none := by
  unfold rtCompletionDone
  split_ifs
  · exact ⟨rfl, fun w => .rfl, id, fun w hw => .inl hw⟩
  · refine ⟨rfl, fun w => ?_, fun hpc => ?_, fun w hw => .inl hw⟩
    · cases hp : s.pc <;> simp
    · simp [hpc]

theorem Calm.trans_done {s₁ : Workqueue} {added : Option ℕ} (h : Calm s s₁ added) : Calm s s₁.rtCompletionDone added := by
  have hd := s₁.rtCompletionDone_calm
  refine ⟨hd.current.trans h.current, fun w => (hd.running w).trans (h.running w), fun hpc => hd.check (h.check hpc),
    fun w hw => ?_⟩
  obtain hw | hw := hd.queue w hw
  · exact h.queue w hw
  · cases hw

theorem mem_of_mem_remove {v : ℕ} (hv : v ∈ (s.remove w).queue) : v ∈ s.queue := by
  obtain hv | hv := List.mem_append.mp hv
  · exact List.mem_append_left _ (List.mem_of_mem_erase hv)
  · exact List.mem_append_right _ (List.mem_of_mem_erase hv)

theorem workqueueSubmitWork_calm (s : Workqueue) (w : ℕ) (ticks : BitVec 32) :
    Calm s (s.workqueueSubmitWork w ticks).1 (some w) := by
  unfold workqueueSubmitWork
  dsimp only
  split_ifs
  · apply Calm.trans_done
    refine ⟨rfl, fun v => .rfl, id, fun v hv => ?_⟩
    obtain hv | hv := List.mem_append.mp hv
    · obtain hv | hv := List.mem_append.mp hv
      · exact .inl (mem_of_mem_remove (List.mem_append_left _ hv))
      · exact .inr (congrArg some (List.mem_singleton.mp hv))
    · exact .inl (mem_of_mem_remove (List.mem_append_right _ hv))
  · apply Calm.trans_done
    refine ⟨rfl, fun v => .rfl, id, fun v hv => ?_⟩
    obtain hv | hv := List.mem_append.mp hv
    · exact .inl (mem_of_mem_remove (List.mem_append_left _ hv))
    · obtain rfl | hv := List.mem_cons.mp ((WorkInv.insertDelayed_perm _ _ _).mem_iff.mp hv)
      · exact .inr rfl
      · exact .inl (mem_of_mem_remove (List.mem_append_right _ hv))
  · exact ⟨rfl, fun v => .rfl, id, fun v hv => .inl (mem_of_mem_remove hv)⟩

theorem rtWorkqueueUrgentWork_calm (s : Workqueue) (w : ℕ) : Calm s (s.rtWorkqueueUrgentWork w) (some w) := by
  unfold rtWorkqueueUrgentWork
  apply Calm.trans_done
  refine ⟨rfl, fun v => .rfl, id, fun v hv => ?_⟩
  obtain rfl | hv := List.mem_cons.mp hv
  · exact .inr rfl
  · exact .inl (mem_of_mem_remove hv)

theorem step_calm (hs : s.step e = some s') (hturn : e ≠ .turn) (hfinish : e ≠ .finish) : Calm s s' (added e) := by
  cases e with
  | submit w ticks => exact Option.some.inj hs ▸ s.workqueueSubmitWork_calm w ticks
  | urgent w => exact Option.some.inj hs ▸ s.rtWorkqueueUrgentWork_calm w
  | cancel w => exact Option.some.inj hs ▸ ⟨rfl, fun v => .rfl, id, fun v hv => .inl (mem_of_mem_remove hv)⟩
  | tick => exact Option.some.inj hs ▸ ⟨rfl, fun v => .rfl, id, fun v hv => .inl hv⟩
  | turn => exact absurd rfl hturn
  | finish => exact absurd rfl hfinish
  | wait =>
    simp only [step] at hs
    split at hs
    · rename_i d hpc
      obtain rfl := Option.some.inj hs
      unfold rtCompletionWait
      split_ifs
      · exact ⟨rfl, by simp [hpc], by simp [hpc], fun v hv => .inl hv⟩
      · exact ⟨rfl, by simp [hpc], by simp [hpc], fun v hv => .inl hv⟩
      · exact ⟨rfl, by simp [hpc], by simp [hpc], fun v hv => .inl hv⟩
      · exact ⟨rfl, by simp [hpc], by simp [hpc], fun v hv => .inl hv⟩
    · simp at hs
  | expire =>
    simp only [step] at hs
    split at hs
    · rename_i d hpc
      split_ifs at hs
      exact Option.some.inj hs ▸ ⟨rfl, by simp [hpc], by simp [hpc], fun v hv => .inl hv⟩
    · simp at hs
  | resume =>
    simp only [step] at hs
    split_ifs at hs with hpc
    exact Option.some.inj hs ▸ ⟨rfl, by simp [hpc], by simp, fun v hv => .inl hv⟩

theorem timerCheck_queue (l : List ℕ) (s : Workqueue) (hl : s.delayedList = l) :
    (timerCheck l s).queue = s.queue ∧ (timerCheck l s).workCurrent = s.workCurrent := by
  induction l generalizing s with
  | nil => exact ⟨rfl, rfl⟩
  | cons w l ih =>
    rw [timerCheck]
    split_ifs
    · obtain ⟨hq, hc⟩ := ih ({ s with delayedList := l, workList := s.workList ++ [w] }.setWork w
        { s.work w with submitting := false, pending := true }) rfl
      refine ⟨hq.trans ?_, hc⟩
      change s.workList ++ [w] ++ l = s.workList ++ s.delayedList
      rw [hl, List.append_assoc, List.singleton_append]
    · exact ⟨rfl, rfl⟩

theorem threadTurn_cases (s : Workqueue) :
    (s.threadTurn.queue = s.queue ∧ s.threadTurn.workCurrent = s.workCurrent ∧ ∃ d, s.threadTurn.pc = .wait d) ∨
    ∃ w, s.queue = w :: s.threadTurn.queue ∧ s.threadTurn.workCurrent = some w ∧ s.threadTurn.pc = .running w := by
  obtain ⟨hq, hc⟩ := timerCheck_queue s.delayedList s rfl
  unfold threadTurn
  dsimp only
  split
  · exact .inl ⟨hq, hc, _, rfl⟩
  · rename_i w l hl
    refine .inr ⟨w, ?_, rfl, rfl⟩
    rw [← hq, queue, hl]
    rfl

end Workqueue

structure SyncInv (s : WorkSync) : Prop where
  wq : WorkInv s.wq
  current : ∀ w, s.wq.workCurrent = some w ↔ s.wq.pc = .running w
  acking : s.ack ≠ .done → s.wq.pc = .check
  sem : s.sem = 0 ∨ s.sem = 1 ∧ s.ack = .trytake ∧ s.waiting = []
  waiting : ∀ t, t ∈ s.waiting ↔ ∃ w, s.pc t = .blocked w
  nodup : s.waiting.Nodup
  blocked : ∀ t w, s.pc t = .blocked w → s.wq.workCurrent = some w ∨ s.ack ≠ .done
  out : ∀ t w, (s.pc t).awaits = some w → w ∉ s.wq.queue
  woken : ∀ t w, s.pc t = .woken w → s.wq.workCurrent ≠ some w
  told : ∀ x ∈ s.returns, x.busy = false

namespace SyncInv

variable {s s' : WorkSync} {t : Tid} {w : ℕ}

theorem init (time : ℕ) : SyncInv (.init time) := by
  refine ⟨WorkInv.init time, ?_, ?_, .inl rfl, ?_, .nil, ?_, ?_, ?_, ?_⟩
  · simp [WorkSync.init, Workqueue.init]
  · simp [WorkSync.init]
  · simp [WorkSync.init]
  · simp [WorkSync.init]
  · simp [WorkSync.init, SyncPc.awaits]
  · simp [WorkSync.init]
  · simp [WorkSync.init]

theorem current_none (h : SyncInv s) (hpc : s.wq.pc = .check) : s.wq.workCurrent = none := by
  cases hc : s.wq.workCurrent with
  | none => rfl
  | some w =>
    have hr := (h.current w).mp hc
    rw [hpc] at hr
    cases hr

theorem calm {q : Workqueue} {added : Option ℕ} (h : SyncInv s) (hq : WorkInv q) (hc : s.wq.Calm q added)
    (hadded : ∀ w, added = some w → ∀ t, (s.pc t).awaits ≠ some w) : SyncInv { s with wq := q } := by
  refine ⟨hq, fun w => ?_, fun ha => hc.check (h.acking ha), h.sem, h.waiting, h.nodup, fun t w ht => ?_,
    fun t w ht hw => ?_, fun t w ht => ?_, h.told⟩
  · rw [hc.current, hc.running]
    exact h.current w
  · rw [hc.current]
    exact h.blocked t w ht
  · obtain hw | hw := hc.queue w hw
    · exact h.out t w ht hw
    · exact hadded w hw.symm t ht
  · rw [hc.current]
    exact h.woken t w ht

theorem turn {q : Workqueue} (h : SyncInv s) (hack : s.ack = .done) (hs : s.wq.step .turn = some q) :
    SyncInv { s with wq := q } := by
  have hq := h.wq.step hs
  simp only [Workqueue.step] at hs
  split_ifs at hs with hpc
  obtain rfl := Option.some.inj hs
  have hnone := h.current_none hpc
  have hblocked : ∀ t w, s.pc t ≠ .blocked w := by
    intro t w ht
    obtain hc | ha := h.blocked t w ht
    · simp [hnone] at hc
    · exact ha hack
  obtain ⟨hqueue, hc, d, hwait⟩ | ⟨v, hqueue, hc, hrun⟩ := s.wq.threadTurn_cases
  · refine ⟨hq, fun w => ?_, fun ha => absurd hack ha, h.sem, h.waiting, h.nodup, fun t w ht => absurd ht (hblocked t w),
      fun t w ht => ?_, fun t w ht => ?_, h.told⟩
    · simp [hc, hnone, hwait]
    · rw [hqueue]
      exact h.out t w ht
    · simp [hc, hnone]
  · refine ⟨hq, fun w => ?_, fun ha => absurd hack ha, h.sem, h.waiting, h.nodup, fun t w ht => absurd ht (hblocked t w),
      fun t w ht hw => ?_, fun t w ht => ?_, h.told⟩
    · simp [hc, hrun]
    · exact h.out t w ht (hqueue ▸ List.mem_cons_of_mem v hw)
    · -- the item that starts comes from the queue
      have hout := h.out t w (by rw [ht]; rfl)
      rw [hqueue] at hout
      rw [hc]
      rintro ⟨⟩
      exact hout List.mem_cons_self

theorem finish {q : Workqueue} (h : SyncInv s) (hs : s.wq.step .finish = some q) :
    SyncInv { s with wq := q, ack := .trytake } := by
  have hq := h.wq.step hs
  simp only [Workqueue.step] at hs
  split at hs
  · rename_i v hpc
    obtain rfl := Option.some.inj hs
    have hidle : s.ack = .done := by
      by_contra ha
      have := h.acking ha
      rw [hpc] at this
      cases this
    refine ⟨hq, by simp, fun _ => rfl, ?_, h.waiting, h.nodup, fun t w ht => .inr (by simp), h.out, by simp, h.told⟩
    obtain h0 | ⟨-, ha, -⟩ := h.sem
    · exact .inl h0
    · rw [hidle] at ha
      cases ha
  · simp at hs

theorem queueStep {e : WorkEvent} (h : SyncInv s) (hok : s.Steady (.queue e)) (hs : s.step (.queue e) = some s') :
    SyncInv s' := by
  simp only [WorkSync.step] at hs
  by_cases hturn : e = .turn ∧ s.ack ≠ .done
  · simp [hturn] at hs
  rw [if_neg hturn] at hs
  obtain ⟨q, hq, rfl⟩ := Option.map_eq_some_iff.mp hs
  by_cases hfin : e = .finish
  · subst hfin
    exact h.finish hq
  · rw [if_neg hfin]
    by_cases ht : e = .turn
    · subst ht
      exact h.turn (by simpa using hturn) hq
    · refine h.calm (h.wq.step hq) (Workqueue.step_calm hq ht hfin) fun w hw => ?_
      cases e with
      | submit v ticks =>
        obtain rfl := Option.some.inj hw
        exact hok
      | urgent v =>
        obtain rfl := Option.some.inj hw
        exact hok
      | _ => simp [Workqueue.added] at hw

theorem ackStep (h : SyncInv s) (hs : s.step .ack = some s') : SyncInv s' := by
  cases ha : s.ack with
  | done => simp [WorkSync.step, ha] at hs
  | trytake =>
    have hpc := h.acking (by simp [ha])
    simp only [WorkSync.step, ha] at hs
    split_ifs at hs with hsem
    · obtain rfl := Option.some.inj hs
      obtain h0 | ⟨h1, -, hnil⟩ := h.sem
      · omega
      · have hnone : ∀ t w, s.pc t ≠ .blocked w := by
          intro t w ht
          have hmem := (h.waiting t).mpr ⟨w, ht⟩
          simp [hnil] at hmem
        refine ⟨h.wq, h.current, fun hne => absurd rfl hne, .inl (by simp [h1]), h.waiting, h.nodup,
          fun t w ht => absurd ht (hnone t w), h.out, h.woken, h.told⟩
    · obtain rfl := Option.some.inj hs
      refine ⟨h.wq, h.current, fun _ => hpc, .inl ?_, h.waiting, h.nodup, fun t w _ => .inr (by simp), h.out, h.woken,
        h.told⟩
      exact Nat.eq_zero_of_not_pos hsem
  | release =>
    have hpc := h.acking (by simp [ha])
    have hzero : s.sem = 0 := by
      obtain h0 | ⟨-, h1, -⟩ := h.sem
      · exact h0
      · rw [ha] at h1
        cases h1
    simp only [WorkSync.step, ha, WorkSync.semRelease] at hs
    cases hw : s.waiting with
    | nil =>
      simp only [hw] at hs
      obtain rfl := Option.some.inj hs
      refine ⟨h.wq, h.current, fun _ => hpc, .inr ⟨by simp [hzero], rfl, rfl⟩, ?_, .nil, fun t w _ => .inr (by simp),
        h.out, h.woken, h.told⟩
      intro t
      rw [← hw]
      exact h.waiting t
    | cons u l =>
      simp only [hw] at hs
      obtain rfl := Option.some.inj hs
      obtain ⟨v, hv⟩ := (h.waiting u).mp (by simp [hw])
      have hnd := h.nodup
      rw [hw, List.nodup_cons] at hnd
      simp only [hv]
      refine ⟨h.wq, h.current, fun _ => hpc, .inl hzero, fun t => ?_, hnd.2, fun t w _ => .inr (by simp), fun t w ht => ?_,
        fun t w ht => ?_, h.told⟩
      · by_cases htu : t = u
        · subst htu
          simp [hnd.1]
        · simp only [Function.update_of_ne htu]
          rw [← h.waiting t, hw]
          simp [htu]
      · by_cases htu : t = u
        · subst htu
          apply h.out t w
          simpa [hv, SyncPc.awaits] using ht
        · simp only [Function.update_of_ne htu] at ht
          exact h.out t w ht
      · simp [h.current_none hpc]

theorem moves {p : SyncPc} {sem : ℕ} {returns : List SyncReturn} (h : SyncInv s) (hfrom : ∀ w, s.pc t ≠ .blocked w)
    (hto : ∀ w, p ≠ .blocked w ∧ p ≠ .woken w) (hout : ∀ w, p.awaits = some w → w ∉ s.wq.queue)
    (hsem : sem = 0 ∨ sem = 1 ∧ s.ack = .trytake ∧ s.waiting = []) (htold : ∀ x ∈ returns, x.busy = false) :
    SyncInv { s with sem := sem, pc := Function.update s.pc t p, returns := returns } := by
  refine ⟨h.wq, h.current, h.acking, hsem, fun u => ?_, h.nodup, fun u w hu => ?_, fun u w hu => ?_, fun u w hu => ?_,
    htold⟩
  · rw [h.waiting]
    by_cases hut : u = t
    · subst hut
      simp [hfrom, fun w => (hto w).1]
    · simp [hut]
  · by_cases hut : u = t
    · subst hut
      exact absurd (by simpa using hu) (hto w).1
    · simp only [Function.update_of_ne hut] at hu
      exact h.blocked u w hu
  · by_cases hut : u = t
    · subst hut
      exact hout w (by simpa using hu)
    · simp only [Function.update_of_ne hut] at hu
      exact h.out u w hu
  · by_cases hut : u = t
    · subst hut
      exact absurd (by simpa using hu) (hto w).2
    · simp only [Function.update_of_ne hut] at hu
      exact h.woken u w hu

theorem leave {sem : ℕ} (h : SyncInv s) (hfrom : ∀ w, s.pc t ≠ .blocked w) (hcurrent : s.wq.workCurrent ≠ some w)
    (hqueue : w ∉ s.wq.queue) (hsem : sem = 0 ∨ sem = 1 ∧ s.ack = .trytake ∧ s.waiting = []) :
    SyncInv (({ s with sem := sem } : WorkSync).leave t w) := by
  refine h.moves hfrom (by simp) (by simp [SyncPc.awaits]) hsem fun x hx => ?_
  obtain rfl | hx := List.mem_cons.mp hx
  · simp [Workqueue.busy, hcurrent, hqueue]
  · exact h.told x hx

theorem step {e : SyncEvent} (h : SyncInv s) (hok : s.Steady e) (hs : s.step e = some s') : SyncInv s' := by
  cases e with
  | queue e => exact h.queueStep hok hs
  | ack => exact h.ackStep hs
  | call t w =>
    simp only [WorkSync.step] at hs
    split_ifs at hs with hidle hc
    · obtain rfl := Option.some.inj hs
      refine h.moves (by simp [hidle]) (by simp) (fun v hv => ?_) h.sem h.told
      obtain rfl : w = v := by simpa [SyncPc.awaits] using hv
      exact hok hc
    · obtain rfl := Option.some.inj hs
      exact h.moves (by simp [hidle]) (by simp) (by simp [SyncPc.awaits]) h.sem h.told
  | cancel t =>
    simp only [WorkSync.step] at hs
    split at hs
    · rename_i w hpc
      obtain rfl := Option.some.inj hs
      have hq : SyncInv { s with wq := (s.wq.workqueueCancelWork w).1 } :=
        h.calm (h.wq.workqueueCancelWork w) (Workqueue.step_calm (e := .cancel w) rfl (by simp) (by simp))
          (by simp [Workqueue.added])
      refine hq.leave (by simp [hpc]) (hok w hpc) ?_ h.sem
      exact h.wq.not_mem_remove w
    · simp at hs
  | take t =>
    simp only [WorkSync.step] at hs
    split at hs
    · rename_i w hpc
      have hout := h.out t w (by rw [hpc]; rfl)
      split_ifs at hs with hsem
      · obtain rfl := Option.some.inj hs
        obtain h0 | ⟨h1, ha, hnil⟩ := h.sem
        · omega
        · -- the unit is there only while the worker acknowledges
          have hnone := h.current_none (h.acking (by simp [ha]))
          exact h.leave (by simp [hpc]) (by simp [hnone]) hout (.inl (by simp [h1]))
      · obtain rfl := Option.some.inj hs
        have hfree : t ∉ s.waiting := by
          intro hm
          obtain ⟨v, hv⟩ := (h.waiting t).mp hm
          simp [hpc] at hv
        refine ⟨h.wq, h.current, h.acking, .inl (Nat.eq_zero_of_not_pos hsem), fun u => ?_, ?_, fun u v hu => ?_,
          fun u v hu => ?_, fun u v hu => ?_, h.told⟩
        · by_cases hut : u = t
          · subst hut
            simp [WorkSync.setPc]
          · simp [WorkSync.setPc, hut, h.waiting]
        · exact List.nodup_append.mpr ⟨h.nodup, List.nodup_singleton t, by
            simpa using fun a ha (heq : a = t) => hfree (heq ▸ ha)⟩
        · by_cases hut : u = t
          · subst hut
            obtain rfl : w = v := by simpa [WorkSync.setPc] using hu
            exact hok w hpc
          · simp only [WorkSync.setPc, Function.update_of_ne hut] at hu
            exact h.blocked u v hu
        · by_cases hut : u = t
          · subst hut
            obtain rfl : w = v := by simpa [WorkSync.setPc, SyncPc.awaits] using hu
            exact hout
          · simp only [WorkSync.setPc, Function.update_of_ne hut] at hu
            exact h.out u v hu
        · by_cases hut : u = t
          · subst hut
            simp [WorkSync.setPc] at hu
          · simp only [WorkSync.setPc, Function.update_of_ne hut] at hu
            exact h.woken u v hu
    · simp at hs
  | resume t =>
    simp only [WorkSync.step] at hs
    split at hs
    · rename_i w hpc
      obtain rfl := Option.some.inj hs
      exact h.leave (by simp [hpc]) (h.woken t w hpc) (h.out t w (by rw [hpc]; rfl)) h.sem
    · simp at hs

theorem ack_round {u : Tid} {l : List Tid} (h : SyncInv s) (ha : s.ack = .trytake) (hw : s.waiting = u :: l) :
    ∃ s', run WorkSync.step s [.ack, .ack] = some s' ∧ SyncInv s' ∧ s'.ack = .trytake ∧ s'.waiting = l ∧
      (∀ w, s.pc u = .blocked w → s'.pc u = .woken w) ∧ ∀ t, t ≠ u → s'.pc t = s.pc t := by
  have hzero : s.sem = 0 := by
    obtain h0 | ⟨-, -, hnil⟩ := h.sem
    · exact h0
    · simp [hw] at hnil
  have h1 : s.step .ack = some { s with ack := .release } := by
    simp [WorkSync.step, ha, hzero]
  have hi := h.ackStep h1
  obtain ⟨s', h2⟩ : ∃ s', WorkSync.step { s with ack := .release } .ack = some s' := ⟨_, rfl⟩
  have hi' := hi.ackStep h2
  simp only [WorkSync.step, WorkSync.semRelease, hw] at h2
  obtain rfl := Option.some.inj h2
  refine ⟨_, ?_, hi', rfl, rfl, fun w hu => ?_, fun t ht => ?_⟩
  · rw [run, h1, Option.bind_some, run]
    simp [WorkSync.step, WorkSync.semRelease, hw, run]
  · simp [hu]
  · exact Function.update_of_ne ht _ _

theorem ack_keeps (n : ℕ) (a b : WorkSync) (hab : run WorkSync.step a (List.replicate n .ack) = some b)
    (hpc : a.pc t = .woken w) : b.pc t = .woken w := by
  induction n generalizing a with
  | zero =>
    obtain rfl := Option.some.inj hab
    exact hpc
  | succ n ih =>
    obtain ⟨c, hac, hcb⟩ := run_cons hab
    apply ih c hcb
    simp only [WorkSync.step] at hac
    split at hac
    · simp at hac
    · split_ifs at hac
      · exact Option.some.inj hac ▸ hpc
      · exact Option.some.inj hac ▸ hpc
    · obtain rfl := Option.some.inj hac
      simp only [WorkSync.semRelease]
      split
      · exact hpc
      · rename_i v l hv
        by_cases htv : t = v
        · subst htv
          simp [hpc]
        · simp [htv, hpc]

theorem ack_ends (h : SyncInv s) (ha : s.ack = .trytake) :
    ∃ n s', run WorkSync.step s (List.replicate n .ack) = some s' ∧ s'.ack = .done ∧ s'.waiting = [] ∧
      ∀ t w, s.pc t = .blocked w → s'.pc t = .woken w := by
  generalize hl : s.waiting = l
  induction l generalizing s with
  | nil =>
    have hnone : ∀ t w, s.pc t ≠ .blocked w := by
      intro t w ht
      have hmem := (h.waiting t).mpr ⟨w, ht⟩
      simp [hl] at hmem
    obtain h0 | ⟨h1, -, -⟩ := h.sem
    · refine ⟨3, { s with sem := 0, ack := .done }, ?_, rfl, hl, fun t w ht => absurd ht (hnone t w)⟩
      simp [List.replicate, run, WorkSync.step, WorkSync.semRelease, ha, h0, hl]
    · refine ⟨1, { s with sem := 0, ack := .done }, ?_, rfl, hl, fun t w ht => absurd ht (hnone t w)⟩
      simp [run, WorkSync.step, ha, h1]
  | cons u l ih =>
    obtain ⟨s₁, hrun, hi, ha₁, hw₁, hu, hother⟩ := h.ack_round ha hl
    obtain ⟨n, s', hrun', hdone, hnil, hwoken⟩ := ih hi ha₁ hw₁
    refine ⟨2 + n, s', ?_, hdone, hnil, fun t w ht => ?_⟩
    · rw [List.replicate_add]
      exact run_append hrun hrun'
    · by_cases htu : t = u
      · subst htu
        exact ack_keeps n s₁ s' hrun' (hu w ht)
      · exact hwoken t w ((hother t htu).trans ht)

theorem ack_finishes (h : SyncInv s) (ha : s.ack ≠ .done) :
    ∃ n s', run WorkSync.step s (List.replicate n .ack) = some s' ∧ s'.ack = .done ∧
      ∀ t w, s.pc t = .blocked w → s'.pc t = .woken w := by
  cases hack : s.ack with
  | done => exact absurd hack ha
  | trytake =>
    obtain ⟨n, s', hrun, hdone, -, hwoken⟩ := h.ack_ends hack
    exact ⟨n, s', hrun, hdone, hwoken⟩
  | release =>
    have h1 : s.step .ack = some { s.semRelease with ack := .trytake } := by simp only [WorkSync.step, hack]
    obtain ⟨n, s', hrun, hdone, -, hwoken⟩ := (h.ackStep h1).ack_ends rfl
    refine ⟨n + 1, s', ?_, hdone, fun t w ht => ?_⟩
    · rw [List.replicate_succ, run, h1]
      exact hrun
    · cases hw : s.waiting with
      | nil =>
        have hmem := (h.waiting t).mpr ⟨w, ht⟩
        simp [hw] at hmem
      | cons u l =>
        by_cases htu : t = u
        · subst htu
          apply ack_keeps n _ s' hrun
          simp [WorkSync.semRelease, hw, ht]
        · apply hwoken
          simp [WorkSync.semRelease, hw, htu, ht]

end SyncInv

/-- A call returns only when its item is idle, and it is blocked only until the worker has acknowledged the item's end. -/
theorem cancel_sync_returns {time : ℕ} {es : List SyncEvent} {s : WorkSync}
    (hs : run WorkSync.step (.init time) es = some s) (hok : Meets WorkSync.step WorkSync.Steady (.init time) es) :
    (∀ x ∈ s.returns, x.busy = false) ∧
    (∀ t w, s.pc t = .blocked w → s.wq.workCurrent = some w ∨ s.ack ≠ .done) ∧
    (s.ack ≠ .done → ∃ n s', run WorkSync.step s (List.replicate n .ack) = some s' ∧ s'.ack = .done ∧
      ∀ t w, s.pc t = .blocked w → s'.pc t = .woken w) := by
  have h : SyncInv s := run_invariant_of_meets SyncInv (fun _ _ _ h hok hs => h.step hok hs) hs hok (.init time)
  exact ⟨h.told, h.blocked, h.ack_finishes⟩

theorem cancel_sync_returns_example :
    ∃ s, run WorkSync.step (.init 0) [.queue (.submit 7 0), .queue .turn, .call 1 7, .take 1, .queue .finish, .ack, .ack,
        .resume 1] = some s ∧
      s.returns = [⟨1, 7, false⟩] ∧ ∀ x ∈ s.returns, x.busy = false := by
  have hrun : ((run WorkSync.step (.init 0) [.queue (.submit 7 0), .queue .turn, .call 1 7, .take 1, .queue .finish, .ack,
      .ack, .resume 1]).map fun s => s.returns) = some [⟨1, 7, false⟩] := by decide +kernel
  obtain ⟨s, hs, hret⟩ := Option.map_eq_some_iff.mp hrun
  refine ⟨s, hs, hret, (cancel_sync_returns hs ?_).1⟩
  refine ⟨fun t => by simp [WorkSync.init, SyncPc.awaits], fun s₁ h₁ => ⟨trivial, fun s₂ h₂ => ?_⟩⟩
  have hidle : ∀ s ∈ run WorkSync.step (.init 0) [.queue (.submit 7 0), .queue .turn], 7 ∉ s.wq.queue := by decide +kernel
  have htwo : run WorkSync.step (.init 0) [.queue (.submit 7 0), .queue .turn] = some s₂ := by
    rw [run, h₁, Option.bind_some, run, h₂]
    rfl
  refine ⟨fun _ => hidle s₂ htwo, fun s₃ h₃ => ⟨fun w hw => .inl ?_, fun s₄ h₄ => ?_⟩⟩
  · have hthree : run WorkSync.step (.init 0) [.queue (.submit 7 0), .queue .turn, .call 1 7] = some s₃ :=
      run_append htwo (by rw [run, h₃]; rfl)
    have hpc : ∀ s ∈ run WorkSync.step (.init 0) [.queue (.submit 7 0), .queue .turn, .call 1 7],
        s.pc 1 = .taking 7 ∧ s.wq.workCurrent = some 7 := by decide +kernel
    obtain ⟨h7, hc⟩ := hpc s₃ hthree
    rw [h7] at hw
    rw [hc, SyncPc.taking.inj hw]
  · exact .of_forall fun e he s => by
      fin_cases he <;> trivial

/-- The item ends between the look at `work_current` and the wait; and an item starts before its cancellation. -/
theorem cancel_sync_misses :
    (∃ s, run WorkSync.step (.init 0) [.queue (.submit 7 0), .queue .turn, .call 1 7, .queue .finish, .ack, .ack, .ack,
        .take 1, .queue .turn, .queue .wait] = some s ∧
      s.pc 1 = .blocked 7 ∧ s.wq.busy 7 = false ∧ s.ack = .done ∧ s.waiting = [1]) ∧
    ∃ s, run WorkSync.step (.init 0) [.queue (.submit 7 0), .call 1 7, .queue .turn, .cancel 1] = some s ∧
      s.returns = [⟨1, 7, true⟩] := by
  constructor
  · have hrun : ((run WorkSync.step (.init 0) [.queue (.submit 7 0), .queue .turn, .call 1 7, .queue .finish, .ack, .ack,
        .ack, .take 1, .queue .turn, .queue .wait]).map fun s => (s.pc 1, s.wq.busy 7, s.ack, s.waiting)) =
        some (.blocked 7, false, .done, [1]) := by decide +kernel
    obtain ⟨s, hs, hp⟩ := Option.map_eq_some_iff.mp hrun
    simp only [Prod.mk.injEq] at hp
    exact ⟨s, hs, hp⟩
  · have hrun : ((run WorkSync.step (.init 0) [.queue (.submit 7 0), .call 1 7, .queue .turn, .cancel 1]).map
        fun s => s.returns) = some [⟨1, 7, true⟩] := by decide +kernel
    exact Option.map_eq_some_iff.mp hrun

end RtSmart
