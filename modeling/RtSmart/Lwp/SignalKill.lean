import RtSmart.Kernel.Thread
import RtSmart.Lwp.Signal

/-!
Signals sent to a process or to one of its threads (`lwp_kill_ext` and `lwp_thread_kill_ext`). A signal is recorded
on a thread: the set `signal` of the process is neither written nor looked at.
-/

namespace RtSmart

open SigThread

structure SigInfo where
  siSigno : ℕ
  siCode : ℤ
  deriving DecidableEq, Repr

inductive ExitRequest where
  | none | triggered | inProcess
  deriving DecidableEq, Repr

structure UserThread where
  sig : SigThread
  siginfo : ℕ → SigInfo
  stat : Stat
  exitRequest : ExitRequest
  error : Err

/-- A process; `threads` is the list `t_grp` from its end, the order in which signals look for a thread. -/
structure SigProcess where
  threads : List UserThread
  finish : Bool
  waitStatusSet : Bool
  lwpRet : ℕ

inductive KillRet where
  | ok | einval | esrch | eperm
  deriving DecidableEq, Repr

namespace UserThread

def doSignalWakeup (t : UserThread) (sig : ℕ) : UserThread :=
  match t.stat with
  | .suspend .interruptible => { t with stat := .ready }
  | .suspend .killable => if sig = sigkill then { t with stat := .ready } else t
  | _ => t

def record (t : UserThread) (sig : ℕ) (info : SigInfo) : UserThread :=
  { t with
    sig := { t.sig with signal := lwpSigaddset t.sig.signal sig }
    siginfo := Function.update t.siginfo (sig - 1) { info with siSigno := sig } }

def masks (t : UserThread) (sig : ℕ) : Bool := lwpSigismember t.sig.signalMask sig

/-- The turn of the loop of `_lwp_terminate_locked`. -/
def terminate (t : UserThread) : UserThread :=
  let t := if t.exitRequest = .none then { t with exitRequest := .triggered } else t
  match t.stat with
  | .suspend .uninterruptible => t
  | .suspend _ => { t with error := .eintr, stat := .ready }
  | _ => t

/-- The signal is pending, and the check finds it under every mask that does not hold it back. -/
structure Pending (t : UserThread) (sig : ℕ) : Prop where
  signal : lwpSigismember t.sig.signal sig = true
  found : ∀ mask, lwpSigismember mask sig = false →
    lwpSigismember { t.sig with signalMask := mask }.lwpThreadSignalCheck sig = true

end UserThread

namespace SigProcess

/-- The loop of `lwp_kill_ext`. -/
def killLoop (sig : ℕ) (info : SigInfo) : List UserThread → List UserThread
  | [] => []
  | t :: ts =>
    if t.masks sig = false then (t.record sig info).doSignalWakeup sig :: ts
    else t :: killLoop sig info ts

def lwpTerminateWithStatus (p : SigProcess) (status : ℕ) : SigProcess :=
  { p with
    lwpRet := if p.waitStatusSet = false then status else p.lwpRet
    waitStatusSet := true
    threads := p.threads.map UserThread.terminate }

/-- The process is the one that `lwp_from_pid` finds. -/
def lwpKillExt (lwp : Option SigProcess) (sig : ℤ) (info : SigInfo) : Option SigProcess × KillRet :=
  if sig ≤ 0 ∨ lwpNsig < sig then (lwp, .einval)
  else
    match lwp with
    | none => (none, .esrch)
    | some p =>
      if p.finish = true then (some p, .esrch)
      else if sig = sigkill then (some (p.lwpTerminateWithStatus (sig.toNat % 128)), .ok)
      else (some { p with threads := killLoop sig.toNat info p.threads }, .ok)

/-- The signal is pending on a thread; the kill signal is kept by the process, as exit requests of all its threads. -/
def Keeps (p : SigProcess) (sig : ℕ) : Prop :=
  (∃ t ∈ p.threads, t.Pending sig) ∨ sig = sigkill ∧ ∀ t ∈ p.threads, t.exitRequest ≠ .none

end SigProcess

section lemmas

variable {t : UserThread} {sig : ℕ} {info : SigInfo}

theorem UserThread.pending_of_member (h : lwpSigismember t.sig.signal sig = true) : t.Pending sig := by
  refine ⟨h, fun mask hmask => ?_⟩
  have hlt : sig - 1 < 64 := by
    apply BitVec.lt_of_getLsbD
    exact h
  unfold lwpSigismember at h hmask ⊢
  unfold lwpThreadSignalCheck
  rw [BitVec.getLsbD_and, BitVec.getLsbD_not, h, hmask]
  simp [hlt]

@[simp] theorem UserThread.doSignalWakeup_sig (t : UserThread) (sig : ℕ) : (t.doSignalWakeup sig).sig = t.sig := by
  unfold doSignalWakeup
  split
  · rfl
  · split_ifs <;> rfl
  · rfl

theorem UserThread.record_pending (h1 : 1 ≤ sig) (h64 : sig ≤ 64) : (t.record sig info).Pending sig := by
  apply pending_of_member
  exact (SigSys.getLsbD_addset h1 h64).mpr (.inr rfl)

theorem UserThread.terminate_exitRequest (t : UserThread) : t.terminate.exitRequest ≠ .none := by
  have hset : (if t.exitRequest = .none then { t with exitRequest := ExitRequest.triggered } else t).exitRequest ≠
      .none := by
    by_cases h0 : t.exitRequest = .none
    · simp [h0]
    · simp [h0]
  unfold terminate
  dsimp only
  split
  · exact hset
  · exact hset
  · exact hset

theorem SigProcess.killLoop_eq (l : List UserThread) (h : ∀ t ∈ l, t.masks sig = true) : killLoop sig info l = l := by
  induction l with
  | nil => rfl
  | cons t l ih =>
    have ht := h t (by simp)
    rw [killLoop, if_neg (by simp [ht]), ih fun u hu => h u (by simp [hu])]

theorem SigProcess.killLoop_pending (h1 : 1 ≤ sig) (h64 : sig ≤ 64) (l : List UserThread)
    (h : ∃ t ∈ l, t.masks sig = false) : ∃ t ∈ killLoop sig info l, t.Pending sig := by
  induction l with
  | nil => simp at h
  | cons t l ih =>
    rw [killLoop]
    by_cases ht : t.masks sig = false
    · rw [if_pos ht]
      refine ⟨(t.record sig info).doSignalWakeup sig, by simp, ?_⟩
      apply UserThread.pending_of_member
      rw [UserThread.doSignalWakeup_sig]
      exact (UserThread.record_pending h1 h64).signal
    · rw [if_neg ht]
      have hrest : ∃ u ∈ l, u.masks sig = false := by
        obtain ⟨u, hu, hm⟩ := h
        obtain rfl | hu := List.mem_cons.mp hu
        · exact absurd hm ht
        · exact ⟨u, hu, hm⟩
      obtain ⟨u, hu, hp⟩ := ih hrest
      exact ⟨u, by simp [hu], hp⟩

end lemmas

namespace SigProcess

/-- A signal that no thread lets through is kept only if it was pending before. -/
theorem kill_keeps_iff (p p' : SigProcess) (sig : ℤ) (info : SigInfo)
    (h : lwpKillExt (some p) sig info = (some p', .ok)) :
    p'.Keeps sig.toNat ↔
      sig = sigkill ∨ (∃ t ∈ p.threads, t.masks sig.toNat = false) ∨ ∃ t ∈ p.threads, t.Pending sig.toNat := by
  have hnsig : ((lwpNsig : ℕ) : ℤ) = 64 := rfl
  unfold lwpKillExt at h
  by_cases hrange : sig ≤ 0 ∨ lwpNsig < sig
  · simp [hrange] at h
  have h1 : 1 ≤ sig.toNat := by omega
  have h64 : sig.toNat ≤ 64 := by omega
  simp only [if_neg hrange] at h
  by_cases hfin : p.finish = true
  · simp [hfin] at h
  rw [if_neg hfin] at h
  by_cases hkill : sig = sigkill
  · -- every thread is asked to exit
    rw [if_pos hkill] at h
    obtain rfl := Option.some.inj (Prod.mk.inj h).1
    refine iff_of_true (.inr ⟨by simp [hkill], fun t ht => ?_⟩) (.inl hkill)
    obtain ⟨u, -, rfl⟩ := List.mem_map.mp ht
    exact u.terminate_exitRequest
  · rw [if_neg hkill] at h
    obtain rfl := Option.some.inj (Prod.mk.inj h).1
    have hne : sig.toNat ≠ sigkill := by
      intro he
      exact hkill (by omega)
    constructor
    · rintro (hpend | ⟨he, -⟩)
      · by_cases hopen : ∃ t ∈ p.threads, t.masks sig.toNat = false
        · exact .inr (.inl hopen)
        · push Not at hopen
          rw [killLoop_eq p.threads fun t ht => Bool.eq_true_of_not_eq_false (hopen t ht)] at hpend
          exact .inr (.inr hpend)
      · exact absurd he hne
    · rintro (he | hopen | hpend)
      · exact absurd he hkill
      · exact .inl (killLoop_pending h1 h64 p.threads hopen)
      · by_cases hopen : ∃ t ∈ p.threads, t.masks sig.toNat = false
        · exact .inl (killLoop_pending h1 h64 p.threads hopen)
        · push Not at hopen
          refine .inl ?_
          rw [killLoop_eq p.threads fun t ht => Bool.eq_true_of_not_eq_false (hopen t ht)]
          exact hpend

/-- A process of one thread with the given mask. -/
def single (mask : LwpSigset) : SigProcess :=
  ⟨[⟨{ SigSys.idle with signalMask := mask }, fun _ => ⟨0, 0⟩, .running, .none, .eok⟩], false, false, 0⟩

theorem kill_keeps_iff_example :
    ∃ p', lwpKillExt (some (single 0)) 10 ⟨0, 0⟩ = (some p', .ok) ∧ p'.Keeps 10 :=
  ⟨_, rfl, (kill_keeps_iff (single 0) _ 10 ⟨0, 0⟩ rfl).mpr
    (.inr (.inl ⟨_, List.mem_singleton_self _, by decide⟩))⟩

/-- The only thread blocks the signal, which is accepted and recorded nowhere. -/
theorem kill_drops_blocked :
    ∃ p', lwpKillExt (some (single 0x200)) 10 ⟨0, 0⟩ = (some p', .ok) ∧ ¬ p'.Keeps 10 := by
  refine ⟨_, rfl, ?_⟩
  rintro (⟨t, ht, hp⟩ | ⟨he, -⟩)
  · obtain rfl := List.mem_singleton.mp ht
    exact absurd hp.signal (by decide)
  · exact absurd he (by decide)

end SigProcess

end RtSmart
