import RtSmart.Kernel.TimerOrder

/-!
One whole call of `rt_timer_check`, with timeout functions that start, stop, detach and control any
timers. The call ends unless it comes to a periodic timer with the period 0.
-/

namespace RtSmart

open Lib

inductive TimerAct
  | start (t : ℕ)
  | stop (t : ℕ)
  | detach (t : ℕ)
  | control (t : ℕ) (cmd : TimerCmd)
  deriving DecidableEq, Repr

namespace TimerSys

def rtTimerDetach (s : TimerSys) (t : ℕ) : TimerSys := (s.remove t).deactivate t

def act (level : ℕ) (mask : BitVec 32) (s : TimerSys) : TimerAct → Option TimerSys
  | .start t => rtTimerStart level mask s t
  | .stop t => some (rtTimerStop s t).1
  | .detach t => some (rtTimerDetach s t)
  | .control t cmd => some (rtTimerControl s t cmd).1

/-- The loop of `rt_timer_check`, with the timers whose timeout functions were called and whether they
were periodic. The timeout function called as the `k`-th one does `cb k`. -/
def rtTimerCheck (level : ℕ) (mask : BitVec 32) (cb : ℕ → List TimerAct) :
    ℕ → ℕ → TimerSys → Option (TimerSys × List (ℕ × Bool))
  | 0, _, _ => none
  | n + 1, k, s =>
    match s.rows false (level - 1) with
    | [] => some (s, [])
    | t :: _ =>
      if expired s.tick (s.timer t).timeoutTick then do
        let s1 ← checkExpire level s false
        let s2 ← (cb k).foldlM (act level mask) s1
        let s3 ← checkFinish level mask s2 false
        let (s', fired) ← rtTimerCheck level mask cb n (k + 1) s3
        return (s', (t, (s.timer t).periodic) :: fired)
      else some (s, [])

/-- The call with timeout functions that do nothing. -/
def Ends (level : ℕ) (mask : BitVec 32) (s : TimerSys) : Prop :=
  ∃ n, (rtTimerCheck level mask (fun _ => []) n 0 s).isSome

/-- What `rt_timer_start` does. -/
structure Started (level : ℕ) (s s' : TimerSys) (t : ℕ) : Prop where
  rows : ∀ kind, (s'.rows kind (level - 1)).Perm
    (if kind = (s.timer t).soft then t :: (s.rows kind (level - 1)).erase t else (s.rows kind (level - 1)).erase t)
  list : ∀ kind, s'.list kind = (s.list kind).erase t
  tick : s'.tick = s.tick
  expiring : s'.expiring = s.expiring
  self : s'.timer t = { s.timer t with activated := true, timeoutTick := s.tick + (s.timer t).initTick }
  other : ∀ u ≠ t, s'.timer u = s.timer u

variable {level : ℕ} {mask : BitVec 32} {s s' : TimerSys} {t : ℕ} {kind : Bool}

theorem start_isSome (hi : (s.timer t).initTick.toNat < rtTickMax / 2) :
    ∃ s', rtTimerStart level mask s t = some s' := by
  unfold rtTimerStart
  dsimp only
  have hself : (((s.remove t).deactivate t).timer t).initTick = (s.timer t).initTick := by
    unfold deactivate
    rw [setTimer_self]
    rfl
  rw [hself, if_pos hi]
  exact ⟨_, rfl⟩

theorem start_started (hl : 0 < level) (hs : rtTimerStart level mask s t = some s') : Started level s s' t := by
  unfold rtTimerStart at hs
  dsimp only at hs
  split at hs
  case isFalse => cases hs
  case isTrue =>
    obtain rfl := Option.some.inj hs
    have hself : (((s.remove t).deactivate t).setTimeout t).timer t =
        { s.timer t with activated := false, timeoutTick := s.tick + (s.timer t).initTick } := by
      unfold setTimeout deactivate
      rw [setTimer_self, setTimer_self]
      rfl
    have hother : ∀ u ≠ t, (((s.remove t).deactivate t).setTimeout t).timer u = s.timer u := by
      intro u hu
      unfold setTimeout deactivate
      rw [setTimer_of_ne _ _ hu, setTimer_of_ne _ _ hu]
      rfl
    constructor
    case rows =>
      intro kind
      have hsoft : (((s.remove t).deactivate t).setTimeout t).timer t = _ := hself
      show (Function.update (((s.remove t).deactivate t).setTimeout t).rows
        ((((s.remove t).deactivate t).setTimeout t).timer t).soft _ kind (level - 1)).Perm _
      rw [hsoft]
      dsimp only
      by_cases hk : kind = (s.timer t).soft
      · subst hk
        rw [Function.update_self, if_pos rfl, insertRows, if_pos ⟨by omega, by omega⟩]
        exact SkipList.insertAfter_perm t _ _
      · rw [Function.update_of_ne hk, if_neg hk]
        exact List.Perm.refl _
    case list => exact fun _ => rfl
    case tick => rfl
    case expiring => rfl
    case self =>
      rw [setTimer_self]
      show { (((s.remove t).deactivate t).setTimeout t).timer t with activated := true } = _
      rw [hself]
    case other =>
      intro u hu
      rw [setTimer_of_ne _ _ hu]
      exact hother u hu

/-- The first timer of the row is taken for expiry. -/
structure Taken (s s' : TimerSys) (kind : Bool) (t : ℕ) : Prop where
  rows : ∀ k i, s'.rows k i = (s.rows k i).erase t
  list : s'.list kind = t :: (s.list kind).erase t
  tick : s'.tick = s.tick
  expiring : s'.expiring kind = some t
  self : s'.timer t = if (s.timer t).periodic then s.timer t else { s.timer t with activated := false }
  other : ∀ u ≠ t, s'.timer u = s.timer u

theorem expire_taken {l : List ℕ} (he : s.expiring kind = none) (hrow : s.rows kind (level - 1) = t :: l)
    (hdue : expired s.tick (s.timer t).timeoutTick) :
    ∃ s', checkExpire level s kind = some s' ∧ Taken s s' kind t := by
  unfold checkExpire
  rw [if_neg (by simp [he]), hrow]
  dsimp only
  rw [if_pos hdue]
  refine ⟨_, rfl, ?_⟩
  split
  · next hp =>
    exact ⟨fun _ _ => rfl, Function.update_self .., rfl, Function.update_self .., (if_pos hp).symm, fun _ _ => rfl⟩
  · next hp =>
    have hp' : ¬ (s.timer t).periodic := hp
    refine ⟨fun _ _ => rfl, Function.update_self .., rfl, Function.update_self .., ?_, ?_⟩
    · show ((s.remove t).deactivate t).timer t = _
      rw [deactivate, setTimer_self, if_neg hp']
      rfl
    · intro u hu
      show ((s.remove t).deactivate t).timer u = _
      rw [deactivate, setTimer_of_ne _ _ hu]
      rfl

def popped (s : TimerSys) (kind : Bool) (t : ℕ) : TimerSys :=
  TimerSys.deactivate { s with
    expiring := Function.update s.expiring kind none
    list := Function.update s.list kind ((s.list kind).erase t) } t

theorem popped_timer (u : ℕ) :
    (s.popped kind t).timer u = if u = t then { s.timer t with activated := false } else s.timer u := by
  unfold popped deactivate
  split
  · next h => rw [h, setTimer_self]
  · next h => rw [setTimer_of_ne _ _ h]

theorem finish_cases (he : s.expiring kind = some t) (hs : checkFinish level mask s kind = some s') :
    (¬ (s.list kind ≠ [] ∧ (s.timer t).periodic ∧ (s.timer t).activated) ∧
      s' = { s with
        expiring := Function.update s.expiring kind none
        list := Function.update s.list kind ((s.list kind).erase t) }) ∨
      (s.list kind ≠ [] ∧ (s.timer t).periodic ∧ (s.timer t).activated ∧
        rtTimerStart level mask (s.popped kind t) t = some s') := by
  unfold checkFinish at hs
  rw [he] at hs
  dsimp only at hs
  split at hs
  · rename_i hnil
    left
    refine ⟨fun h => h.1 hnil, ?_⟩
    rw [hnil, List.erase_nil, ← hnil, Function.update_eq_self]
    exact (Option.some.inj hs).symm
  · rename_i hcons
    split at hs
    · rename_i hact
      exact .inr ⟨hcons, hact.1, hact.2, hs⟩
    · rename_i hact
      exact .inl ⟨fun h => hact ⟨h.2.1, h.2.2⟩, (Option.some.inj hs).symm⟩

theorem finish_isSome (he : s.expiring kind = some t) (hi : (s.timer t).initTick.toNat < rtTickMax / 2) :
    ∃ s', checkFinish level mask s kind = some s' := by
  unfold checkFinish
  rw [he]
  dsimp only
  split
  · exact ⟨_, rfl⟩
  · split
    · apply start_isSome
      show ((s.popped kind t).timer t).initTick.toNat < _
      rw [popped_timer, if_pos rfl]
      exact hi
    · exact ⟨_, rfl⟩

/-- The timers that a check still has to expire. -/
def due (level : ℕ) (s : TimerSys) : ℕ :=
  (s.rows false (level - 1)).countP fun t => decide (expired s.tick (s.deadline t))

theorem expired_self (c : BitVec 32) : expired c c := by
  unfold expired rtTickMax
  bv_omega

theorem not_expired_add {c i : BitVec 32} (h0 : i ≠ 0) (hi : i.toNat < rtTickMax / 2) : ¬ expired c (c + i) := by
  unfold expired rtTickMax at *
  bv_omega

/-- The settings that only `rt_timer_control` changes. -/
def SameSettings (s s' : TimerSys) : Prop :=
  ∀ u, (s'.timer u).initTick = (s.timer u).initTick ∧ (s'.timer u).periodic = (s.timer u).periodic ∧
    (s'.timer u).soft = (s.timer u).soft

theorem SameSettings.trans {s'' : TimerSys} (h : SameSettings s s') (h' : SameSettings s' s'') : SameSettings s s'' :=
  fun u => ⟨(h' u).1.trans (h u).1, (h' u).2.1.trans (h u).2.1, (h' u).2.2.trans (h u).2.2⟩

theorem Taken.same (h : Taken s s' kind t) : SameSettings s s' := by
  intro u
  by_cases hu : u = t
  · rw [hu, h.self]
    split <;> exact ⟨rfl, rfl, rfl⟩
  · rw [h.other u hu]
    exact ⟨rfl, rfl, rfl⟩

theorem popped_same (s : TimerSys) (kind : Bool) (t : ℕ) : SameSettings s (s.popped kind t) := by
  intro u
  rw [popped_timer]
  split
  · next h => rw [h]; exact ⟨rfl, rfl, rfl⟩
  · exact ⟨rfl, rfl, rfl⟩

theorem Started.same (h : Started level s s' t) : SameSettings s s' := by
  intro u
  by_cases hu : u = t
  · rw [hu, h.self]
    exact ⟨rfl, rfl, rfl⟩
  · rw [h.other u hu]
    exact ⟨rfl, rfl, rfl⟩

theorem quiet_pass (mask : BitVec 32) (hl : 0 < level) {l : List ℕ} (he : s.expiring false = none)
    (hrow : s.rows false (level - 1) = t :: l) (hdue : expired s.tick (s.timer t).timeoutTick)
    (hi : (s.timer t).initTick.toNat < rtTickMax / 2) (h0 : (s.timer t).periodic → (s.timer t).initTick ≠ 0) :
    ∃ s1 s2, checkExpire level s false = some s1 ∧ checkFinish level mask s1 false = some s2 ∧
      s2.expiring false = none ∧ SameSettings s s2 ∧ (∀ u ∈ s2.rows false (level - 1), u ∈ s.rows false (level - 1)) ∧
      due level s2 < due level s := by
  obtain ⟨s1, hexpire, htaken⟩ := expire_taken he hrow hdue
  have hsame := htaken.same
  obtain ⟨s2, hfinish⟩ : ∃ s2, checkFinish level mask s1 false = some s2 := finish_isSome htaken.expiring (by rw [(hsame t).1]; exact hi)
  have hrow1 : s1.rows false (level - 1) = l := by
    rw [htaken.rows, hrow, List.erase_cons_head]
  have hdeadline : ∀ u, s1.deadline u = s.deadline u := by
    intro u
    unfold deadline
    by_cases hu : u = t
    · rw [hu, htaken.self]
      split <;> rfl
    · rw [htaken.other u hu]
  have hbefore : due level s = due level s1 + 1 := by
    have hdue' : decide (expired s.tick (s.deadline t)) = true := decide_eq_true hdue
    unfold due
    rw [hrow, hrow1, htaken.tick, List.countP_cons_of_pos (p := fun u => decide (expired s.tick (s.deadline u))) hdue']
    simp only [hdeadline]
  refine ⟨s1, s2, hexpire, hfinish, ?_⟩
  rcases finish_cases htaken.expiring hfinish with ⟨-, rfl⟩ | ⟨-, hper, -, hrun⟩
  · refine ⟨?_, hsame, ?_, ?_⟩
    · show Function.update s1.expiring false none false = none
      rw [Function.update_self]
    · intro u hu
      rw [hrow]
      exact List.mem_cons_of_mem t (hrow1 ▸ hu)
    · exact lt_of_eq_of_lt rfl (hbefore ▸ Nat.lt_succ_self _)
  · have hstart := start_started hl hrun
    have hperm := hstart.rows false
    have hpop : (s1.popped false t).rows = s1.rows := rfl
    rw [hpop, hrow1] at hperm
    -- whether the timer has gone back to this row or not, it is not due there
    have hlate : ¬ expired s2.tick (s2.deadline t) := by
      unfold deadline
      rw [hstart.tick, hstart.self]
      show ¬ expired s1.tick (s1.tick + ((s1.popped false t).timer t).initTick)
      rw [((popped_same s1 false t) t).1, (hsame t).1]
      apply not_expired_add
      · apply h0
        rw [← (hsame t).2.1]
        exact hper
      · exact hi
    have hold : ∀ u ≠ t, s2.deadline u = s1.deadline u := by
      intro u hu
      unfold deadline
      rw [hstart.other u hu, popped_timer, if_neg hu]
    have hcount : (l.erase t).countP (fun u => decide (expired s2.tick (s2.deadline u))) ≤ due level s1 := by
      unfold due
      rw [hrow1]
      apply le_trans _ (List.erase_sublist.countP_le)
      · exact t
      apply List.countP_mono_left
      intro u _ hu
      by_cases hut : u = t
      · rw [hut] at hu
        exact absurd (of_decide_eq_true hu) hlate
      · rw [hold u hut, hstart.tick] at hu
        exact hu
    refine ⟨?_, hsame.trans ((popped_same s1 false t).trans hstart.same), ?_, ?_⟩
    · rw [hstart.expiring]
      show Function.update s1.expiring false none false = none
      rw [Function.update_self]
    · intro u hu
      have hmem := hperm.mem_iff.mp hu
      rw [hrow]
      split at hmem
      · rcases List.mem_cons.mp hmem with rfl | hu
        · exact List.mem_cons_self
        · exact List.mem_cons_of_mem t (List.mem_of_mem_erase hu)
      · exact List.mem_cons_of_mem t (List.mem_of_mem_erase hmem)
    · rw [hbefore]
      apply Nat.lt_succ_of_le
      apply le_trans _ hcount
      unfold due
      rw [hperm.countP_eq]
      split
      · rw [List.countP_cons_of_neg (by simpa using hlate)]
      · exact le_rfl

theorem ends_of_periods (mask : BitVec 32) (hl : 0 < level) (he : s.expiring false = none)
    (hrow : ∀ u ∈ s.rows false (level - 1),
      (s.timer u).initTick.toNat < rtTickMax / 2 ∧ ((s.timer u).periodic → (s.timer u).initTick ≠ 0)) :
    s.Ends level mask := by
  have hall : ∀ n k s, s.expiring false = none → (∀ u ∈ s.rows false (level - 1),
      (s.timer u).initTick.toNat < rtTickMax / 2 ∧ ((s.timer u).periodic → (s.timer u).initTick ≠ 0)) →
      due level s < n → (rtTimerCheck level mask (fun _ => []) n k s).isSome := by
    intro n
    induction n with
    | zero =>
      intro k s _ _ hn
      omega
    | succ n ih =>
      intro k s he hrow hn
      unfold rtTimerCheck
      cases hr : s.rows false (level - 1) with
      | nil => rfl
      | cons t l =>
        dsimp only
        split
        · rename_i hdue
          obtain ⟨hi, h0⟩ := hrow t (by rw [hr]; exact List.mem_cons_self)
          obtain ⟨s1, s2, hexpire, hfinish, he2, hsame, hsub, hless⟩ := quiet_pass mask hl he hr hdue hi h0
          have hrest := ih (k + 1) s2 he2 (fun u hu => by
            rw [(hsame u).1, (hsame u).2.1]
            exact hrow u (hsub u hu)) (by omega)
          obtain ⟨out, hout⟩ := Option.isSome_iff_exists.mp hrest
          simp only [hexpire, List.foldlM_nil, hfinish, hout, Option.bind_eq_bind, Option.bind_some, Option.pure_def]
          rfl
        · rfl
  exact ⟨due level s + 1, hall _ 0 s he hrow (Nat.lt_succ_self _)⟩

structure Spins (level : ℕ) (t : ℕ) (s : TimerSys) : Prop where
  rows : s.rows false (level - 1) = [t]
  expiring : s.expiring false = none
  soft : (s.timer t).soft = false
  periodic : (s.timer t).periodic
  activated : (s.timer t).activated
  initTick : (s.timer t).initTick = 0
  deadline : (s.timer t).timeoutTick = s.tick

theorem Started.spins (h : Started level s s' t) (hrow : ∀ u ∈ s.rows false (level - 1), u = t)
    (hnd : (s.rows false (level - 1)).Nodup) (he : s.expiring false = none) (hsoft : (s.timer t).soft = false)
    (hper : (s.timer t).periodic) (h0 : (s.timer t).initTick = 0) : Spins level t s' := by
  have hnil : (s.rows false (level - 1)).erase t = [] := by
    apply List.eq_nil_iff_forall_not_mem.mpr
    intro u hu
    rw [hrow u (List.mem_of_mem_erase hu)] at hu
    exact hnd.not_mem_erase hu
  have hperm := h.rows false
  rw [hsoft, if_pos rfl, hnil] at hperm
  constructor
  case rows => exact List.perm_singleton.mp hperm
  case expiring => rw [h.expiring, he]
  case soft =>
    rw [h.self]
    exact hsoft
  case periodic =>
    rw [h.self]
    exact hper
  case activated => rw [h.self]
  case initTick =>
    rw [h.self]
    exact h0
  case deadline =>
    rw [h.self, h.tick, h0]
    exact BitVec.add_zero s.tick

theorem Spins.pass (mask : BitVec 32) (h : Spins level t s) (hl : 0 < level) :
    ∃ s1 s2, checkExpire level s false = some s1 ∧ checkFinish level mask s1 false = some s2 ∧ Spins level t s2 := by
  have hdue : expired s.tick (s.timer t).timeoutTick := by
    rw [h.deadline]
    exact expired_self s.tick
  obtain ⟨s1, hexpire, htaken⟩ := expire_taken h.expiring h.rows hdue
  have hself : s1.timer t = s.timer t := by
    rw [htaken.self, if_pos h.periodic]
  have hi : (s1.timer t).initTick.toNat < rtTickMax / 2 := by
    rw [hself, h.initTick]
    decide
  obtain ⟨s2, hfinish⟩ : ∃ s2, checkFinish level mask s1 false = some s2 := finish_isSome htaken.expiring hi
  refine ⟨s1, s2, hexpire, hfinish, ?_⟩
  have hrow : s1.rows false (level - 1) = [] := by
    rw [htaken.rows, h.rows, List.erase_cons_head]
  rcases finish_cases htaken.expiring hfinish with ⟨hno, -⟩ | ⟨-, -, -, hrun⟩
  · exfalso
    apply hno
    rw [hself, htaken.list]
    exact ⟨List.cons_ne_nil _ _, h.periodic, h.activated⟩
  · have hpop : (s1.popped false t).rows = s1.rows := rfl
    have htimer := popped_same s1 false t t
    apply (start_started hl hrun).spins
    · rw [hpop, hrow]
      exact fun u hu => absurd hu List.not_mem_nil
    · rw [hpop, hrow]
      exact List.nodup_nil
    · show Function.update s1.expiring false none false = none
      rw [Function.update_self]
    · rw [htimer.2.2, hself, h.soft]
    · rw [htimer.2.1, hself]
      exact h.periodic
    · rw [htimer.1, hself, h.initTick]

theorem Spins.not_ends (h : Spins level t s) (hl : 0 < level) : ¬ s.Ends level mask := by
  have hall : ∀ n k s, Spins level t s → rtTimerCheck level mask (fun _ => []) n k s = none := by
    intro n
    induction n with
    | zero => exact fun _ _ _ => rfl
    | succ n ih =>
      intro k s h
      obtain ⟨s1, s2, hexpire, hfinish, h2⟩ := h.pass mask hl
      unfold rtTimerCheck
      rw [h.rows]
      dsimp only
      split
      · simp only [hexpire, List.foldlM_nil, hfinish, ih (k + 1) s2 h2, Option.bind_eq_bind, Option.bind_some,
          Option.bind_none, Option.pure_def]
      · rename_i hlate
        exfalso
        apply hlate
        rw [h.deadline]
        exact expired_self s.tick
  rintro ⟨n, hsome⟩
  rw [hall n 0 s h] at hsome
  cases hsome

/-- Everything but the commands that change the period or the kind of a timer. -/
def plain : Event → Prop
  | .control _ (.setTime _) => False
  | .control _ .setOneshot => False
  | .control _ .setPeriodic => False
  | _ => True

instance : DecidablePred plain := fun e => by
  cases e with
  | control t cmd => cases cmd <;> unfold plain <;> infer_instance
  | _ => exact isTrue trivial

/-- The timers have the settings they were initialised with, and each is on the list of its kind. -/
structure Settled (level : ℕ) (timer : ℕ → RtTimer) (s : TimerSys) : Prop where
  settings : ∀ u, (s.timer u).initTick = (timer u).initTick ∧ (s.timer u).periodic = (timer u).periodic ∧
    (s.timer u).soft = (timer u).soft
  kind_eq : ∀ kind, ∀ u ∈ s.rows kind (level - 1), (s.timer u).soft = kind

variable {timer : ℕ → RtTimer}

theorem Settled.of_same (h : Settled level timer s) (hsame : SameSettings s s')
    (hrow : ∀ kind, ∀ u ∈ s'.rows kind (level - 1), u ∈ s.rows kind (level - 1)) : Settled level timer s' where
  settings u := ⟨(hsame u).1.trans (h.settings u).1, (hsame u).2.1.trans (h.settings u).2.1,
    (hsame u).2.2.trans (h.settings u).2.2⟩
  kind_eq kind u hu := by
    rw [(hsame u).2.2]
    exact h.kind_eq kind u (hrow kind u hu)

theorem Settled.start (h : Settled level timer s) (hs : Started level s s' t) : Settled level timer s' := by
  have hsame := hs.same
  refine ⟨fun u => ⟨(hsame u).1.trans (h.settings u).1, (hsame u).2.1.trans (h.settings u).2.1,
    (hsame u).2.2.trans (h.settings u).2.2⟩, ?_⟩
  intro kind u hu
  have hmem := (hs.rows kind).mem_iff.mp hu
  rw [(hsame u).2.2]
  split at hmem
  · rename_i hk
    rcases List.mem_cons.mp hmem with rfl | hu
    · exact hk.symm
    · exact h.kind_eq kind u (List.mem_of_mem_erase hu)
  · exact h.kind_eq kind u (List.mem_of_mem_erase hmem)

theorem setTimer_same {f : RtTimer → RtTimer} (hf : (f (s.timer t)).initTick = (s.timer t).initTick ∧
    (f (s.timer t)).periodic = (s.timer t).periodic ∧ (f (s.timer t)).soft = (s.timer t).soft) :
    SameSettings s (s.setTimer t f) := by
  intro u
  by_cases hu : u = t
  · rw [hu, setTimer_self]
    exact hf
  · rw [setTimer_of_ne _ _ hu]
    exact ⟨rfl, rfl, rfl⟩

theorem removed_same (s : TimerSys) (t : ℕ) : SameSettings s ((s.remove t).deactivate t) :=
  setTimer_same (s := s.remove t) ⟨rfl, rfl, rfl⟩

theorem control_same {cmd : TimerCmd} (hp : plain (.control t cmd)) : SameSettings s (rtTimerControl s t cmd).1 := by
  cases cmd with
  | setTime arg => exact hp.elim
  | setOneshot => exact hp.elim
  | setPeriodic => exact hp.elim
  | setFunc arg => exact setTimer_same (f := fun x => { x with timeoutFunc := arg }) ⟨rfl, rfl, rfl⟩
  | setParm arg => exact setTimer_same (f := fun x => { x with parameter := arg }) ⟨rfl, rfl, rfl⟩
  | _ => exact fun _ => ⟨rfl, rfl, rfl⟩

theorem Settled.step {e : Event} (h : Settled level timer s) (hl : 0 < level) (hp : plain e)
    (hs : s.step level mask e = some s') : Settled level timer s' := by
  cases e with
  | tick n =>
    obtain rfl := Option.some.inj hs
    exact h.of_same (fun _ => ⟨rfl, rfl, rfl⟩) fun _ _ hu => hu
  | start t => exact h.start (start_started hl hs)
  | stop t =>
    obtain rfl := Option.some.inj hs
    unfold rtTimerStop
    split
    · exact h.of_same (removed_same s t) fun _ _ hu => List.mem_of_mem_erase hu
    · exact h
  | control t cmd =>
    obtain rfl := Option.some.inj hs
    apply h.of_same (control_same hp)
    intro kind u hu
    cases cmd <;> exact hu
  | expire kind =>
    have hs' : checkExpire level s kind = some s' := hs
    by_cases he : s.expiring kind = none
    · cases hr : s.rows kind (level - 1) with
      | nil =>
        unfold checkExpire at hs'
        rw [if_neg (by simp [he]), hr] at hs'
        exact Option.some.inj hs' ▸ h
      | cons t l =>
        by_cases hdue : expired s.tick (s.timer t).timeoutTick
        · obtain ⟨s1, hexpire, htaken⟩ := expire_taken he hr hdue
          obtain rfl := Option.some.inj (hexpire.symm.trans hs')
          apply h.of_same htaken.same
          intro k u hu
          rw [htaken.rows] at hu
          exact List.mem_of_mem_erase hu
        · unfold checkExpire at hs'
          rw [if_neg (by simp [he]), hr] at hs'
          dsimp only at hs'
          rw [if_neg hdue] at hs'
          exact Option.some.inj hs' ▸ h
    · unfold checkExpire at hs'
      rw [if_pos he] at hs'
      cases hs'
  | finish kind =>
    have hs' : checkFinish level mask s kind = some s' := hs
    cases he : s.expiring kind with
    | none =>
      unfold checkFinish at hs'
      rw [he] at hs'
      cases hs'
    | some t =>
      rcases finish_cases he hs' with ⟨-, rfl⟩ | ⟨-, -, -, hrun⟩
      · exact h.of_same (fun _ => ⟨rfl, rfl, rfl⟩) fun _ _ hu => hu
      · exact (h.of_same (popped_same s kind t) fun _ _ hu => hu).start (start_started hl hrun)

theorem settled_init (level : ℕ) (tick : BitVec 32) (timer : ℕ → RtTimer) : Settled level timer (init tick timer) :=
  ⟨fun _ => ⟨rfl, rfl, rfl⟩, fun _ _ hu => absurd hu List.not_mem_nil⟩

/-- The timers for which every check ends, at whatever tick and whenever they are started and stopped. -/
theorem check_ends_iff (level : ℕ) (hl : 0 < level) (mask : BitVec 32) (timer : ℕ → RtTimer)
    (haccepted : ∀ t, (timer t).initTick.toNat < rtTickMax / 2) :
    (∀ tick es s, (∀ e ∈ es, plain e) → run (step level mask) (init tick timer) es = some s →
        s.expiring false = none → s.Ends level mask) ↔
      ∀ t, (timer t).soft = false → (timer t).periodic → (timer t).initTick ≠ 0 := by
  constructor
  · intro hends t hsoft hper h0
    obtain ⟨s, hs⟩ : ∃ s, rtTimerStart level mask (init 0 timer) t = some s := start_isSome (haccepted t)
    have hspins : Spins level t s := by
      apply (start_started hl hs).spins
      · exact fun u hu => absurd hu List.not_mem_nil
      · exact List.nodup_nil
      · rfl
      · exact hsoft
      · exact hper
      · exact h0
    have hnot : ¬ s.Ends level mask := hspins.not_ends hl
    apply hnot
    apply hends 0 [.start t] s
    · simp [plain]
    · show (rtTimerStart level mask (init 0 timer) t).bind _ = _
      rw [hs]
      rfl
    · exact hspins.expiring
  · intro hperiods tick es s hplain hrun he
    have hsettled : Settled level timer s := by
      apply run_invariant_of_meets (Settled level timer) _ hrun (meets_of_forall hplain) (settled_init level tick timer)
      intro s e s' h hp hs
      exact h.step hl hp hs
    apply ends_of_periods mask hl he
    intro u hu
    obtain ⟨hi, hp, hk⟩ := hsettled.settings u
    have hkind := hsettled.kind_eq false u hu
    rw [hi, hp]
    exact ⟨haccepted u, hperiods u (hk ▸ hkind)⟩

/-- Three periodic timers of 1, 2 and 3 ticks. -/
theorem check_ends_three : ∃ s, run (step 2 3) (init 0xfffffffe fun t => ⟨false, true, false, 0, 0, BitVec.ofNat 32 (t % 3 + 1), 0⟩)
    [.start 0, .start 1, .start 2, .tick 3] = some s ∧ s.Ends 2 3 := by
  have hrun : ((run (step 2 3) (init 0xfffffffe fun t => ⟨false, true, false, 0, 0, BitVec.ofNat 32 (t % 3 + 1), 0⟩)
      [.start 0, .start 1, .start 2, .tick 3]).map (·.expiring false)) = some none := by
    decide +kernel
  obtain ⟨s, hs, he⟩ := Option.map_eq_some_iff.mp hrun
  refine ⟨s, hs, ?_⟩
  have haccepted : ∀ t, (BitVec.ofNat 32 (t % 3 + 1)).toNat < rtTickMax / 2 := by
    intro t
    unfold rtTickMax
    rw [BitVec.toNat_ofNat]
    omega
  apply (check_ends_iff 2 (by decide) 3 (fun t => ⟨false, true, false, 0, 0, BitVec.ofNat 32 (t % 3 + 1), 0⟩)
    haccepted).mpr _ 0xfffffffe [.start 0, .start 1, .start 2, .tick 3] s (by decide) hs he
  intro t _ _ h0
  have hnat := congrArg BitVec.toNat h0
  rw [BitVec.toNat_ofNat] at hnat
  simp at hnat
  omega

/-- A check of a periodic timer with the period 0 does not end. -/
theorem check_spins : ∃ s, run (step 1 3) (init 0 fun _ => ⟨false, true, false, 0, 0, 0, 0⟩) [.start 0] = some s ∧
    s.expiring false = none ∧ ¬ s.Ends 1 3 := by
  obtain ⟨s, hs⟩ : ∃ s, rtTimerStart 1 3 (init 0 fun _ => ⟨false, true, false, 0, 0, 0, 0⟩) 0 = some s :=
    start_isSome (by decide)
  have hspins : Spins 1 0 s := by
    apply (start_started (by decide) hs).spins
    · exact fun u hu => absurd hu List.not_mem_nil
    · exact List.nodup_nil
    · rfl
    · rfl
    · rfl
    · rfl
  refine ⟨s, ?_, hspins.expiring, hspins.not_ends (by decide)⟩
  show (rtTimerStart 1 3 (init 0 fun _ => ⟨false, true, false, 0, 0, 0, 0⟩) 0).bind _ = _
  rw [hs]
  rfl

end TimerSys

end RtSmart
