import RtSmart.Kernel.Thread
import RtSmart.Lib.Transition

/-!
One completion (`completion.c`) with one waiter at a time and any number of threads and interrupts that
call `rt_completion_done`. A step ends where interrupts are enabled.
-/

namespace RtSmart

open Lib

structure Completion where
  flag : Bool
  suspendedList : List ℕ
deriving DecidableEq

/-- Where the waiter is. Waits are numbered; a readied waiter has been made ready and has not run yet. -/
inductive WaiterPc
  | idle
  | suspended (w : ℕ) (timed : Bool)
  | readied (w : ℕ) (err : Err)
deriving DecidableEq

/-- A `rt_completion_done` whose effect a wait has removed, and what that wait returned. -/
structure Taken where
  done : ℕ
  wait : ℕ
  result : Err
deriving DecidableEq

/-- `inFlight` are the calls of `rt_completion_done` that have found the completion not done and have
not disabled interrupts yet. `finished`, `recorded`, `taken` and `returns` are kept for the statements:
the calls that have set the flag, those among them that no wait has met yet, the others with the wait
that has met them, and the results of the waits. -/
structure CompletionSys where
  completion : Completion
  waiter : WaiterPc
  inFlight : List ℕ
  nextDone : ℕ
  nextWait : ℕ
  finished : List ℕ
  recorded : List ℕ
  taken : List Taken
  returns : List (ℕ × Err)
deriving DecidableEq

/-- `rt_completion_init`. -/
def CompletionSys.init : CompletionSys := ⟨⟨false, []⟩, .idle, [], 0, 0, [], [], [], []⟩

inductive CompletionEvent
  | wait (timeout : ℤ)
  | expire
  | resume
  | doneTest
  | doneSet (d : ℕ)
deriving DecidableEq

/-- The end of `rt_completion_wait`, from `clean completed flag` on. -/
def CompletionSys.leave (s : CompletionSys) (w : ℕ) (result : Err) : CompletionSys :=
  { s with
    completion := { s.completion with flag := false }
    waiter := .idle
    recorded := []
    taken := s.recorded.map (fun d => ⟨d, w, result⟩) ++ s.taken
    returns := (w, result) :: s.returns }

def CompletionSys.rtCompletionWait (s : CompletionSys) (timeout : ℤ) : Option CompletionSys :=
  let w := s.nextWait
  let s := { s with nextWait := w + 1 }
  if s.completion.flag then some (s.leave w .eok)
  else if s.completion.suspendedList ≠ [] then none
  else if timeout = 0 then some { s with returns := (w, .etimeout) :: s.returns }
  else
    some { s with
      completion := { s.completion with suspendedList := s.completion.suspendedList ++ [w] }
      waiter := .suspended w (decide (0 < timeout)) }

/-- `rt_completion_done` after its test. -/
def CompletionSys.rtCompletionDone (s : CompletionSys) (d : ℕ) : CompletionSys :=
  let s := { s with
    inFlight := s.inFlight.erase d
    finished := d :: s.finished
    recorded := d :: s.recorded
    completion := { s.completion with flag := true } }
  match s.completion.suspendedList with
  | [] => s
  | w :: l => { s with completion := { s.completion with suspendedList := l }, waiter := .readied w .eok }

def CompletionSys.step (s : CompletionSys) : CompletionEvent → Option CompletionSys
  | .wait timeout => if s.waiter = .idle then s.rtCompletionWait timeout else none
  | .expire =>
    -- `rt_thread_timeout`
    match s.waiter with
    | .suspended w true =>
      some { s with
        completion := { s.completion with suspendedList := s.completion.suspendedList.erase w }
        waiter := .readied w .etimeout }
    | _ => none
  | .resume =>
    match s.waiter with
    | .readied w err => some (s.leave w err)
    | _ => none
  | .doneTest =>
    if s.completion.flag then some s
    else some { s with inFlight := s.nextDone :: s.inFlight, nextDone := s.nextDone + 1 }
  | .doneSet d => if d ∈ s.inFlight then some (s.rtCompletionDone d) else none

def WaiterPc.timedOut : WaiterPc → Bool
  | .readied _ .etimeout => true
  | _ => false

/-- No `rt_completion_done` sets the flag between the end of a wait's time and the return of the wait. -/
def CompletionSys.NotLate (s : CompletionSys) : CompletionEvent → Prop
  | .doneSet _ => s.waiter.timedOut = false
  | _ => True

instance (s : CompletionSys) (e : CompletionEvent) : Decidable (s.NotLate e) :=
  match e with
  | .wait _ => isTrue trivial
  | .expire => isTrue trivial
  | .resume => isTrue trivial
  | .doneTest => isTrue trivial
  | .doneSet _ => inferInstanceAs (Decidable (s.waiter.timedOut = false))

def CompletionSys.WaiterOk (s : CompletionSys) : Prop :=
  match s.waiter with
  | .idle => s.completion.suspendedList = []
  | .suspended w _ => s.completion.suspendedList = [w] ∧ s.completion.flag = false
  | .readied _ err => s.completion.suspendedList = [] ∧
      (err = .eok ∨ err = .etimeout ∧ s.completion.flag = false)

/-- The numbers of the waits so far, the current one included. -/
def CompletionSys.waits (s : CompletionSys) : List ℕ :=
  match s.waiter with
  | .idle => s.returns.map Prod.fst
  | .suspended w _ => w :: s.returns.map Prod.fst
  | .readied w _ => w :: s.returns.map Prod.fst

structure CompletionInv (s : CompletionSys) : Prop where
  waiter : s.WaiterOk
  flag : s.recorded ≠ [] ↔ s.completion.flag = true
  ids : (s.inFlight ++ s.finished).Nodup
  fresh : ∀ d ∈ s.inFlight ++ s.finished, d < s.nextDone
  kept : (s.recorded ++ s.taken.map Taken.done).Perm s.finished
  ok : ∀ x ∈ s.taken, x.result = .eok

/-- Each wait returns once, and what it met is written down with its result. -/
structure WaitsInv (s : CompletionSys) : Prop where
  nodup : s.waits.Nodup
  bound : ∀ w ∈ s.waits, w < s.nextWait
  logged : ∀ x ∈ s.taken, (x.wait, x.result) ∈ s.returns

namespace CompletionInv

variable {s s' : CompletionSys} {d w : ℕ} {timeout : ℤ} {err : Err}

theorem init : CompletionInv .init := by
  refine ⟨rfl, ?_, ?_, ?_, ?_, ?_⟩
  all_goals simp [CompletionSys.init]

theorem leave (h : CompletionInv s) (hl : s.completion.suspendedList = [])
    (herr : err = .eok ∨ s.completion.flag = false) : CompletionInv (s.leave w err) := by
  refine ⟨hl, ?_, h.ids, h.fresh, ?_, ?_⟩
  · simp [CompletionSys.leave]
  · have hmap : (s.leave w err).taken.map Taken.done = s.recorded ++ s.taken.map Taken.done := by
      simp [CompletionSys.leave, Function.comp_def]
    rw [hmap]
    exact h.kept
  · intro x hx
    rcases List.mem_append.mp hx with hx | hx
    · obtain ⟨d, hd, rfl⟩ := List.mem_map.mp hx
      rcases herr with herr | hflag
      · exact herr
      · have hne : s.recorded ≠ [] := List.ne_nil_of_mem hd
        rw [h.flag, hflag] at hne
        cases hne
    · exact h.ok x hx

theorem wait (h : CompletionInv s) (hw : s.waiter = .idle) (hs : s.rtCompletionWait timeout = some s') :
    CompletionInv s' := by
  have hl : s.completion.suspendedList = [] := by
    have := h.waiter
    rwa [CompletionSys.WaiterOk, hw] at this
  unfold CompletionSys.rtCompletionWait at hs
  dsimp only at hs
  have hnext : CompletionInv { s with nextWait := s.nextWait + 1 } := ⟨h.waiter, h.flag, h.ids, h.fresh, h.kept, h.ok⟩
  split_ifs at hs with hflag _ ht
  · cases hs
    exact hnext.leave hl (.inl rfl)
  · cases hs
    exact ⟨h.waiter, h.flag, h.ids, h.fresh, h.kept, h.ok⟩
  · cases hs
    exact ⟨⟨by simp [hl], by simpa using hflag⟩, h.flag, h.ids, h.fresh, h.kept, h.ok⟩

theorem erase_perm (hd : d ∈ s.inFlight) :
    (s.inFlight ++ s.finished).Perm (s.inFlight.erase d ++ d :: s.finished) :=
  ((List.perm_cons_erase hd).append_right _).trans List.perm_middle.symm

theorem doneSet (h : CompletionInv s) (hd : d ∈ s.inFlight) (hok : s.waiter.timedOut = false) :
    CompletionInv (s.rtCompletionDone d) := by
  have hids : (s.inFlight.erase d ++ d :: s.finished).Nodup := (erase_perm hd).nodup_iff.mp h.ids
  have hfresh : ∀ c ∈ s.inFlight.erase d ++ d :: s.finished, c < s.nextDone :=
    fun c hc => h.fresh c ((erase_perm hd).mem_iff.mpr hc)
  have hkept : (d :: s.recorded ++ s.taken.map Taken.done).Perm (d :: s.finished) := h.kept.cons d
  have hw := h.waiter
  unfold CompletionSys.WaiterOk at hw
  unfold CompletionSys.rtCompletionDone
  dsimp only
  split at hw
  · next hpc =>
    rw [hw]
    exact ⟨by simp [CompletionSys.WaiterOk, hpc], by simp, hids, hfresh, hkept, h.ok⟩
  · next w timed hpc =>
    rw [hw.1]
    exact ⟨⟨rfl, .inl rfl⟩, by simp, hids, hfresh, hkept, h.ok⟩
  · next w err hpc =>
    rw [hw.1]
    have herr : err = .eok := by
      rcases hw.2 with herr | ⟨herr, -⟩
      · exact herr
      · rw [hpc, herr] at hok
        cases hok
    exact ⟨by simp [CompletionSys.WaiterOk, hpc, herr], by simp, hids, hfresh, hkept, h.ok⟩

theorem step {e : CompletionEvent} (h : CompletionInv s) (hok : s.NotLate e) (hs : s.step e = some s') :
    CompletionInv s' := by
  have hw := h.waiter
  unfold CompletionSys.WaiterOk at hw
  cases e with
  | wait timeout =>
    simp only [CompletionSys.step] at hs
    split_ifs at hs with hidle
    exact h.wait hidle hs
  | expire =>
    simp only [CompletionSys.step] at hs
    split at hs
    · next w hpc =>
      cases hs
      rw [hpc] at hw
      exact ⟨⟨by simp [hw.1], .inr ⟨rfl, hw.2⟩⟩, h.flag, h.ids, h.fresh, h.kept, h.ok⟩
    · cases hs
  | resume =>
    simp only [CompletionSys.step] at hs
    split at hs
    · next w err hpc =>
      cases hs
      rw [hpc] at hw
      exact h.leave hw.1 (hw.2.imp_right And.right)
    · cases hs
  | doneTest =>
    simp only [CompletionSys.step] at hs
    split_ifs at hs with hflag
    · cases hs
      exact h
    · cases hs
      refine ⟨h.waiter, h.flag, ?_, ?_, h.kept, h.ok⟩
      · exact List.nodup_cons.mpr ⟨fun hmem => (h.fresh _ hmem).false, h.ids⟩
      · intro c hc
        rcases List.mem_cons.mp hc with rfl | hc
        · exact Nat.lt_succ_self _
        · exact (h.fresh c hc).trans (Nat.lt_succ_self _)
  | doneSet d =>
    simp only [CompletionSys.step] at hs
    split_ifs at hs with hd
    cases hs
    exact h.doneSet hd hok

end CompletionInv

namespace WaitsInv

variable {s s' : CompletionSys} {w : ℕ} {err : Err}

theorem of_waits (h : WaitsInv s) (hw : s'.waits = s.waits) (hn : s'.nextWait = s.nextWait)
    (ht : s'.taken = s.taken) (hr : s'.returns = s.returns) : WaitsInv s' := by
  refine ⟨hw ▸ h.nodup, ?_, ?_⟩
  · rw [hw, hn]
    exact h.bound
  · rw [ht, hr]
    exact h.logged

theorem logged_leave (h : WaitsInv s) : ∀ x ∈ (s.leave w err).taken, (x.wait, x.result) ∈ (s.leave w err).returns := by
  intro x hx
  rcases List.mem_append.mp hx with hx | hx
  · obtain ⟨d, -, rfl⟩ := List.mem_map.mp hx
    exact List.mem_cons_self
  · exact List.mem_cons_of_mem _ (h.logged x hx)

theorem wait {timeout : ℤ} (h : WaitsInv s) (hw : s.waiter = .idle) (hs : s.rtCompletionWait timeout = some s') :
    WaitsInv s' := by
  have hwaits : s.waits = s.returns.map Prod.fst := by rw [CompletionSys.waits, hw]
  have hnodup : (s.nextWait :: s.returns.map Prod.fst).Nodup :=
    List.nodup_cons.mpr ⟨fun hmem => (h.bound _ (hwaits ▸ hmem)).false, hwaits ▸ h.nodup⟩
  have hbound : ∀ w ∈ s.nextWait :: s.returns.map Prod.fst, w < s.nextWait + 1 := by
    intro w hmem
    rcases List.mem_cons.mp hmem with rfl | hmem
    · exact Nat.lt_succ_self _
    · exact (h.bound w (hwaits ▸ hmem)).trans (Nat.lt_succ_self _)
  unfold CompletionSys.rtCompletionWait at hs
  dsimp only at hs
  split_ifs at hs with hflag _ ht
  · cases hs
    refine ⟨hnodup, hbound, ?_⟩
    exact logged_leave (s := { s with nextWait := s.nextWait + 1 }) ⟨h.nodup, fun w hw =>
      (h.bound w hw).trans (Nat.lt_succ_self _), h.logged⟩
  · cases hs
    exact ⟨by rw [CompletionSys.waits, hw]; exact hnodup, by rw [CompletionSys.waits, hw]; exact hbound,
      fun x hx => List.mem_cons_of_mem _ (h.logged x hx)⟩
  · cases hs
    exact ⟨hnodup, hbound, h.logged⟩

theorem step {e : CompletionEvent} (h : WaitsInv s) (hinv : CompletionInv s) (hs : s.step e = some s') :
    WaitsInv s' := by
  have hok := hinv.waiter
  unfold CompletionSys.WaiterOk at hok
  cases e with
  | wait timeout =>
    simp only [CompletionSys.step] at hs
    split_ifs at hs with hidle
    exact h.wait hidle hs
  | expire =>
    simp only [CompletionSys.step] at hs
    split at hs
    · next w hpc =>
      cases hs
      exact h.of_waits (by simp only [CompletionSys.waits, hpc]) rfl rfl rfl
    · cases hs
  | resume =>
    simp only [CompletionSys.step] at hs
    split at hs
    · next w err hpc =>
      cases hs
      have hw : (s.leave w err).waits = s.waits := by
        simp only [CompletionSys.waits, hpc]
        rfl
      exact ⟨hw ▸ h.nodup, hw ▸ h.bound, h.logged_leave⟩
    · cases hs
  | doneTest =>
    simp only [CompletionSys.step] at hs
    split_ifs at hs with hflag
    · cases hs
      exact h
    · cases hs
      exact h.of_waits rfl rfl rfl rfl
  | doneSet d =>
    simp only [CompletionSys.step] at hs
    split_ifs at hs with hd
    cases hs
    unfold CompletionSys.rtCompletionDone
    dsimp only
    split at hok
    · rw [hok]
      exact h.of_waits rfl rfl rfl rfl
    · next w timed hpc =>
      rw [hok.1]
      exact h.of_waits (by simp only [CompletionSys.waits, hpc]) rfl rfl rfl
    · rw [hok.1]
      exact h.of_waits rfl rfl rfl rfl

end WaitsInv

/-- Every done that set the flag has been met by one wait, which returned `RT_EOK`, or the flag is still
set for it, and then a wait that is called returns `RT_EOK` at once. -/
theorem completions_not_lost {es : List CompletionEvent} {s : CompletionSys}
    (hs : run CompletionSys.step .init es = some s) (hok : Meets CompletionSys.step CompletionSys.NotLate .init es) :
    s.finished.Nodup ∧ (s.returns.map Prod.fst).Nodup ∧ (s.recorded ++ s.taken.map Taken.done).Perm s.finished ∧
      (∀ x ∈ s.taken, x.result = .eok ∧ (x.wait, x.result) ∈ s.returns) ∧
      (∀ d ∈ s.recorded, s.completion.flag = true) ∧
      ∀ d ∈ s.recorded, s.waiter = .idle → ∀ timeout, ∃ s', s.step (.wait timeout) = some s' ∧
        s'.waiter = .idle ∧ s'.returns = (s.nextWait, .eok) :: s.returns ∧ (⟨d, s.nextWait, .eok⟩ : Taken) ∈ s'.taken := by
  obtain ⟨h, hw⟩ : CompletionInv s ∧ WaitsInv s := by
    refine run_invariant_of_meets (fun s => CompletionInv s ∧ WaitsInv s) (fun _ _ _ h hok hs => ?_) hs hok
      ⟨CompletionInv.init, by simp [CompletionSys.waits, CompletionSys.init], by simp [CompletionSys.waits, CompletionSys.init],
        by simp [CompletionSys.init]⟩
    exact ⟨h.1.step hok hs, h.2.step h.1 hs⟩
  have hflag : ∀ d ∈ s.recorded, s.completion.flag = true := fun d hd => h.flag.mp (List.ne_nil_of_mem hd)
  have hreturns : (s.returns.map Prod.fst).Nodup := by
    have hn := hw.nodup
    unfold CompletionSys.waits at hn
    split at hn
    · exact hn
    · exact (List.nodup_cons.mp hn).2
    · exact (List.nodup_cons.mp hn).2
  refine ⟨(List.nodup_append.mp h.ids).2.1, hreturns, h.kept, fun x hx => ⟨h.ok x hx, hw.logged x hx⟩, hflag,
    fun d hd hidle timeout => ?_⟩
  refine ⟨CompletionSys.leave { s with nextWait := s.nextWait + 1 } s.nextWait .eok, ?_, rfl, rfl, ?_⟩
  · simp only [CompletionSys.step, hidle, if_true, CompletionSys.rtCompletionWait, hflag d hd]
  · exact List.mem_append_left _ (List.mem_map.mpr ⟨d, hd, rfl⟩)

theorem completions_not_lost_example :
    ∃ s, run CompletionSys.step .init [.wait 5, .doneTest, .expire, .resume, .doneSet 0, .wait 0] = some s ∧
      ∀ x ∈ s.taken, x.result = .eok := by
  obtain ⟨s, hs⟩ := Option.isSome_iff_exists.mp (show (run CompletionSys.step .init
    [.wait 5, .doneTest, .expire, .resume, .doneSet 0, .wait 0]).isSome = true by decide +kernel)
  exact ⟨s, hs, fun x hx => ((completions_not_lost hs (by decide +kernel)).2.2.2.1 x hx).1⟩

/-- A done between the expiry of the timer and the return of the wait goes with the timeout. -/
theorem done_lost_by_timeout : ¬ ∀ es s, run CompletionSys.step .init es = some s → ∀ x ∈ s.taken, x.result = .eok := by
  intro h
  have hrun : ((run CompletionSys.step .init [.wait 5, .expire, .doneTest, .doneSet 0, .resume]).any
      fun s => s.taken.any (·.result == .etimeout)) = true := by
    decide +kernel
  obtain ⟨s, hs, ht⟩ := (Option.any_eq_true _ _).mp hrun
  obtain ⟨x, hx, hr⟩ := List.any_eq_true.mp ht
  rw [h _ s hs x hx] at hr
  simp at hr

end RtSmart
