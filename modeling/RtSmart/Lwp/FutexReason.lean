import RtSmart.Lwp.Futex

/-!
How `futex_wait` learns why it was resumed: the wakers leave the reason in `thread->error`, which is the thread's
errno as well, and the thread reads the field when it runs again.
-/

namespace RtSmart

open Lib

/-- `RT_ETIMEOUT` and `RT_EINTR`. -/
def threadEtimeout : ℤ := 2

def threadEintr : ℤ := 9

/-- The argument of `rt_set_errno` before the call returns. -/
def FutexRet.errno : FutexRet → Option ℤ
  | .ok | .woken _ => none
  | .einval => some 22
  | .enosys => some 38
  | .efault => some 14
  | .eintr => some 4
  | .enomem => some 12
  | .eagain => some 11
  | .etimedout => some 110

/-- The end of `futex_wait`. -/
def futexWaitRet (error : ℤ) : FutexRet :=
  if error = -threadEtimeout then .etimedout
  else if error = -threadEintr then .eintr
  else if error ≠ 0 then .eagain
  else .ok

/-- Who made a suspended thread ready; `exit` is the request of `lwp_terminate`. -/
inductive Waker where
  | wake (t : Tid)
  | timeout
  | signal
  | exit
  deriving DecidableEq, Repr

/-- What a call of `futex_wait` returned. `waker` is `none` when the word had changed. -/
structure FutexReturn where
  thread : Tid
  waker : Option Waker
  ret : FutexRet
  deriving DecidableEq, Repr

/-- `woken` marks the threads that were resumed and have not run since. -/
structure FutexReason where
  sys : FutexSys
  error : Tid → ℤ
  woken : Tid → Option Waker
  returns : List FutexReturn

namespace FutexReason

def init (word : ℕ → ℤ) (error : Tid → ℤ) : FutexReason := ⟨FutexSys.init word, error, fun _ => none, []⟩

def rtSetErrno (error : Tid → ℤ) (t : Tid) (ret : FutexRet) : Tid → ℤ :=
  match ret.errno with
  | none => error
  | some v => Function.update error t v

def leaves (error : Tid → ℤ) (t : Tid) (s' : FutexSys) : Tid → ℤ :=
  match s'.pc t with
  | .returned ret => rtSetErrno error t ret
  | _ => error

/-- The threads that `futex_wake` resumes. -/
def resumed (s : FutexSys) (t : Tid) : List Tid :=
  match s.pc t with
  | .waking a number => (FutexSys.wakeLoop (s.waiters a) number).1
  | _ => []

def errorAfter (s : FutexReason) (s' : FutexSys) : FutexSys.Event → Tid → ℤ
  | .call t _ | .lookup t _ | .compare t | .suspend t _ => leaves s.error t s'
  -- `rt_mutex_take` resets the error of the thread
  | .takeLock t taken => leaves (Function.update s.error t (if taken = true then 0 else -threadEintr)) t s'
  | .wake t => fun u => if u ∈ resumed s.sys t then 0 else s.error u
  | .timeout t => Function.update s.error t (-threadEtimeout)
  -- `_do_signal_wakeup` writes nothing
  | .signal t exiting => if exiting = true then Function.update s.error t (-threadEintr) else s.error
  | .store _ => s.error

def wokenAfter (s : FutexReason) : FutexSys.Event → Tid → Option Waker
  | .wake t => fun u => if u ∈ resumed s.sys t then some (.wake t) else s.woken u
  | .timeout t => Function.update s.woken t (some .timeout)
  | .signal t exiting => Function.update s.woken t (some (if exiting = true then .exit else .signal))
  | _ => s.woken

def returnsAfter (s : FutexReason) (s' : FutexSys) : FutexSys.Event → List FutexReturn
  | .compare t =>
    match s'.pc t with
    | .returned ret => ⟨t, none, ret⟩ :: s.returns
    | _ => s.returns
  | .suspend t signalPending => if signalPending = true then ⟨t, some .signal, .eintr⟩ :: s.returns else s.returns
  | _ => s.returns

/-- `earlier` stands for any other call of the thread that leaves a value in `thread->error`. -/
inductive Event where
  | sys (e : FutexSys.Event)
  | earlier (t : Tid) (error : ℤ)
  | resume (t : Tid)

def runs (s : FutexReason) : FutexSys.Event → Prop
  | .call t _ => s.woken t = none
  | _ => True

instance (s : FutexReason) : ∀ e, Decidable (s.runs e)
  | .call t _ => inferInstanceAs (Decidable (s.woken t = none))
  | .takeLock _ _ | .lookup _ _ | .compare _ | .suspend _ _ | .wake _ | .timeout _ | .signal _ _ | .store _ =>
    isTrue trivial

def step (s : FutexReason) : Event → Option FutexReason
  | .sys e =>
    if s.runs e then
      (s.sys.step e).map fun s' => ⟨s', s.errorAfter s' e, s.wokenAfter e, s.returnsAfter s' e⟩
    else none
  | .earlier t error =>
    match s.sys.pc t with
    | .idle | .returned _ => if s.woken t = none then some { s with error := Function.update s.error t error } else none
    | _ => none
  | .resume t =>
    match s.woken t with
    | none => none
    | some w =>
      let ret := futexWaitRet (s.error t)
      some ⟨s.sys, rtSetErrno s.error t ret, Function.update s.woken t none, ⟨t, some w, ret⟩ :: s.returns⟩

end FutexReason

def FutexPc.suspending : FutexPc → Bool
  | .inside _ | .comparing _ | .compared _ | .waiting _ => true
  | _ => false

/-- What the waker leaves in `thread->error` when nothing else is written there. -/
def Waker.error : Waker → ℤ
  | .wake _ | .signal => 0
  | .timeout => -threadEtimeout
  | .exit => -threadEintr

/-- The result names the waker. -/
structure FutexReturn.Honest (x : FutexReturn) : Prop where
  ok : x.ret = .ok → ∃ t, x.waker = some (.wake t)
  timeout : x.ret = .etimedout → x.waker = some .timeout
  interrupted : x.ret = .eintr → x.waker = some .signal ∨ x.waker = some .exit
  counted : ∀ t, x.waker = some (.wake t) → x.ret = .ok

def FutexSys.Event.walker : FutexSys.Event → Option Tid
  | .call t _ | .takeLock t _ | .lookup t _ | .compare t | .suspend t _ => some t
  | _ => none

namespace FutexSys

variable {s s' : FutexSys} {t u : Tid} {e : Event}

theorem step_frame (hs : s.step e = some s') (he : e.walker = some t) (hu : u ≠ t) : s'.pc u = s.pc u := by
  cases e with
  | call v r =>
    obtain rfl := Option.some.inj he
    simp only [step] at hs
    split at hs
    · simp [setPc, ← Option.some.inj hs, hu]
    · simp [setPc, ← Option.some.inj hs, hu]
    · simp at hs
  | takeLock v taken =>
    obtain rfl := Option.some.inj he
    simp only [step] at hs
    split at hs
    · split_ifs at hs <;> simp [setPc, ← Option.some.inj hs, hu]
    · simp at hs
  | lookup v created =>
    obtain rfl := Option.some.inj he
    simp only [step] at hs
    split at hs
    · split at hs
      · simp [setPc, ← Option.some.inj hs, hu]
      · split_ifs at hs <;> simp [setPc, leave, ← Option.some.inj hs, hu]
      all_goals simp [setPc, leave, ← Option.some.inj hs, hu]
    · simp at hs
  | compare v =>
    obtain rfl := Option.some.inj he
    simp only [step] at hs
    split at hs
    · split_ifs at hs <;> simp [setPc, leave, ← Option.some.inj hs, hu]
    · simp at hs
  | suspend v signalPending =>
    obtain rfl := Option.some.inj he
    simp only [step] at hs
    split at hs
    · split_ifs at hs <;> simp [setPc, leave, futexWait, ← Option.some.inj hs, hu]
    · simp at hs
  | wake v => simp [Event.walker] at he
  | timeout v => simp [Event.walker] at he
  | signal v exiting => simp [Event.walker] at he
  | store word => simp [Event.walker] at he

theorem step_from (hs : s.step e = some s') (he : e.walker = some t) :
    (∃ r, e = .call t r) ∨ (∃ r taken, e = .takeLock t taken ∧ s.pc t = .wants r) ∨
      (s.pc t).suspending = true ∧ ∀ taken, e ≠ .takeLock t taken := by
  cases e with
  | call v r =>
    obtain rfl := Option.some.inj he
    exact .inl ⟨r, rfl⟩
  | takeLock v taken =>
    obtain rfl := Option.some.inj he
    simp only [step] at hs
    split at hs
    · rename_i r hi
      exact .inr (.inl ⟨r, taken, rfl, hi⟩)
    · simp at hs
  | lookup v created | compare v | suspend v signalPending =>
    obtain rfl := Option.some.inj he
    simp only [step] at hs
    split at hs
    · rename_i r hi
      exact .inr (.inr ⟨by rw [hi]; rfl, by simp⟩)
    · simp at hs
  | wake v => simp [Event.walker] at he
  | timeout v => simp [Event.walker] at he
  | signal v exiting => simp [Event.walker] at he
  | store word => simp [Event.walker] at he

end FutexSys

namespace FutexReason

structure Inv (s : FutexReason) : Prop where
  sys : s.sys.Inv
  reset : ∀ t, (s.sys.pc t).suspending = true → s.error t = 0
  left : ∀ t w, s.woken t = some w → w ≠ .signal ∧ s.error t = w.error ∧
    s.sys.pc t = .returned (futexWaitRet w.error)
  told : ∀ x ∈ s.returns, x.Honest

section steps

variable {s s' : FutexReason} {s₁ : FutexSys} {t u : Tid} {error : Tid → ℤ} {e : Event}

theorem Inv.asleep (h : s.Inv) (ht : ∀ ret, s.sys.pc t ≠ .returned ret) : s.woken t = none := by
  cases hw : s.woken t with
  | none => rfl
  | some w =>
    exact absurd (h.left t w hw).2.2 (ht _)

theorem rtSetErrno_of_ne {ret : FutexRet} (hu : u ≠ t) : rtSetErrno error t ret u = error u := by
  cases hr : ret.errno with
  | none => simp only [rtSetErrno, hr]
  | some v => simp only [rtSetErrno, hr, Function.update_of_ne hu]

theorem leaves_of_ne (hu : u ≠ t) : leaves error t s₁ u = error u := by
  cases hp : s₁.pc t with
  | returned ret => simp only [leaves, hp, rtSetErrno_of_ne hu]
  | _ => simp only [leaves, hp]

theorem leaves_suspending (ht : (s₁.pc t).suspending = true) : leaves error t s₁ t = error t := by
  cases hp : s₁.pc t with
  | returned ret => simp [hp, FutexPc.suspending] at ht
  | _ => simp only [leaves, hp]

theorem Inv.walks (h : s.Inv) {e : FutexSys.Event} {returns : List FutexReturn} (hs : s.sys.step e = some s₁)
    (he : e.walker = some t) (hw : s.woken t = none) (herr : ∀ u, u ≠ t → error u = s.error u)
    (hreset : (s₁.pc t).suspending = true → error t = 0) (htold : ∀ x ∈ returns, x.Honest) :
    Inv ⟨s₁, error, s.woken, returns⟩ := by
  refine ⟨h.sys.step hs, fun u hu => ?_, fun u w huw => ?_, htold⟩
  · by_cases hut : u = t
    · subst hut
      exact hreset hu
    · rw [show s₁.pc u = _ from FutexSys.step_frame hs he hut] at hu
      exact (herr u hut).trans (h.reset u hu)
  · have hut : u ≠ t := by
      rintro rfl
      simp [hw] at huw
    obtain ⟨hne, hcode, hret⟩ := h.left u w huw
    refine ⟨hne, (herr u hut).trans hcode, ?_⟩
    rw [show s₁.pc u = _ from FutexSys.step_frame hs he hut]
    exact hret

theorem Inv.call (h : s.Inv) {r : FutexRequest} (hs : s.sys.step (.call t r) = some s₁) (hw : s.woken t = none) :
    Inv ⟨s₁, leaves s.error t s₁, s.woken, s.returns⟩ := by
  refine h.walks hs rfl hw (fun u hu => leaves_of_ne hu) (fun ht => ?_) h.told
  -- the request is either refused or goes for the lock
  simp only [FutexSys.step] at hs
  have hp : (r.check.elim (FutexPc.wants r) .returned).suspending = false := by
    cases r.check with
    | none => rfl
    | some ret => rfl
  split at hs
  · simp [← Option.some.inj hs, FutexSys.setPc, hp] at ht
  · simp [← Option.some.inj hs, FutexSys.setPc, hp] at ht
  · simp at hs

theorem Inv.takeLock (h : s.Inv) {taken : Bool} (hs : s.sys.step (.takeLock t taken) = some s₁) :
    Inv ⟨s₁, leaves (Function.update s.error t (if taken = true then 0 else -threadEintr)) t s₁, s.woken, s.returns⟩ := by
  have hw : s.woken t = none := by
    apply h.asleep
    intro ret hret
    simp [FutexSys.step, hret] at hs
  refine h.walks hs rfl hw (fun u hu => ?_) (fun ht => ?_) h.told
  · rw [leaves_of_ne hu, Function.update_of_ne hu]
  · rw [leaves_suspending ht, Function.update_self]
    by_cases htk : taken = true
    · rw [if_pos htk]
    · simp only [FutexSys.step] at hs
      split at hs
      · rw [if_pos (Bool.eq_false_of_not_eq_true htk)] at hs
        simp [← Option.some.inj hs, FutexSys.setPc, FutexPc.suspending] at ht
      · simp at hs

/-- Inside the lock the thread keeps the error that `rt_mutex_take` left. -/
theorem Inv.inside (h : s.Inv) {e : FutexSys.Event} {returns : List FutexReturn} (hs : s.sys.step e = some s₁)
    (he : e.walker = some t) (ht : (s.sys.pc t).suspending = true) (htold : ∀ x ∈ returns, x.Honest) :
    Inv ⟨s₁, leaves s.error t s₁, s.woken, returns⟩ := by
  have hw : s.woken t = none := by
    apply h.asleep
    intro ret hret
    simp [hret, FutexPc.suspending] at ht
  refine h.walks hs he hw (fun u hu => leaves_of_ne hu) (fun ht' => ?_) htold
  rw [leaves_suspending ht']
  exact h.reset t ht

theorem Inv.compare (h : s.Inv) (hs : s.sys.step (.compare t) = some s₁) :
    Inv ⟨s₁, leaves s.error t s₁, s.woken, s.returnsAfter s₁ (.compare t)⟩ := by
  have hpc : ∀ ret, s₁.pc t = .returned ret → ret = .eagain := by
    intro ret hret
    simp only [FutexSys.step] at hs
    split at hs
    · split_ifs at hs
      · simp [← Option.some.inj hs, FutexSys.setPc] at hret
      · simpa [← Option.some.inj hs, FutexSys.setPc, FutexSys.leave, eq_comm] using hret
    · simp at hs
  have ht : (s.sys.pc t).suspending = true := by
    obtain ⟨r, hr⟩ | ⟨r, taken, hr, -⟩ | ⟨ht, -⟩ := FutexSys.step_from hs rfl
    · simp at hr
    · simp at hr
    · exact ht
  refine h.inside hs rfl ht fun x hx => ?_
  cases hp : s₁.pc t with
  | returned ret =>
    simp only [returnsAfter, hp, List.mem_cons] at hx
    obtain rfl | hx := hx
    · obtain rfl := hpc ret hp
      exact ⟨by simp, by simp, by simp, by simp⟩
    · exact h.told x hx
  | _ =>
    simp only [returnsAfter, hp] at hx
    exact h.told x hx

theorem Inv.suspend (h : s.Inv) {signalPending : Bool} (hs : s.sys.step (.suspend t signalPending) = some s₁) :
    Inv ⟨s₁, leaves s.error t s₁, s.woken, s.returnsAfter s₁ (.suspend t signalPending)⟩ := by
  have ht : (s.sys.pc t).suspending = true := by
    obtain ⟨r, hr⟩ | ⟨r, taken, hr, -⟩ | ⟨ht, -⟩ := FutexSys.step_from hs rfl
    · simp at hr
    · simp at hr
    · exact ht
  refine h.inside hs rfl ht fun x hx => ?_
  simp only [returnsAfter] at hx
  split_ifs at hx
  · obtain rfl | hx := List.mem_cons.mp hx
    · exact ⟨by simp, by simp, by simp, by simp⟩
    · exact h.told x hx
  · exact h.told x hx

theorem Inv.leavesList (h : s.Inv) {r : FutexRequest} {w : Waker} {ret : FutexRet} (ht : s.sys.pc t = .waiting r)
    (hw : w ≠ .signal) (hret : ret = futexWaitRet w.error) (herr : error = Function.update s.error t w.error) :
    Inv ⟨s.sys.drop t ret, error, Function.update s.woken t (some w), s.returns⟩ := by
  have hpc : (s.sys.drop t ret).pc = Function.update s.sys.pc t (.returned ret) := rfl
  subst herr
  refine ⟨h.sys.drop ht ret, fun u hu => ?_, fun u v huv => ?_, h.told⟩
  · by_cases hut : u = t
    · subst hut
      simp [hpc, FutexPc.suspending] at hu
    · simp only [Function.update_of_ne hut]
      apply h.reset
      simpa [hpc, hut] using hu
  · by_cases hut : u = t
    · subst hut
      obtain rfl : w = v := by simpa using huv
      subst hret
      exact ⟨hw, by simp, by simp [hpc]⟩
    · simp only [Function.update_of_ne hut] at huv
      simp only [hpc, Function.update_of_ne hut]
      exact h.left u v huv

theorem Inv.wake (h : s.Inv) (hs : s.sys.step (.wake t) = some s₁) :
    Inv ⟨s₁, s.errorAfter s₁ (.wake t), s.wokenAfter (.wake t), s.returns⟩ := by
  have hsys := h.sys.step hs
  cases hp : s.sys.pc t with
  | waking a number =>
    have hlist : resumed s.sys t = (FutexSys.wakeLoop (s.sys.waiters a) number).1 := by simp only [resumed, hp]
    have hs₁ : s.sys.futexWake t a number = s₁ := by simpa [FutexSys.step, hp] using hs
    have hself : s.woken t = none := by
      apply h.asleep
      simp [hp]
    have hout : t ∉ resumed s.sys t := by
      intro ht
      rw [hlist] at ht
      have hmem : t ∈ s.sys.waiters a := by
        rw [← FutexSys.wakeLoop_append (s.sys.waiters a) number]
        exact List.mem_append_left _ ht
      rw [h.sys.member, hp] at hmem
      simp [FutexPc.address] at hmem
    have hpc : ∀ u, u ≠ t → s₁.pc u = if u ∈ resumed s.sys t then .returned .ok else s.sys.pc u := by
      intro u hu
      rw [← hs₁, hlist]
      simp only [FutexSys.futexWake, Function.update_of_ne hu]
    refine ⟨hsys, fun u hu => ?_, fun u w huw => ?_, h.told⟩
    · by_cases hmem : u ∈ resumed s.sys t
      · simp [errorAfter, hmem]
      · simp only [errorAfter, if_neg hmem]
        by_cases hut : u = t
        · subst hut
          simp [← hs₁, FutexSys.futexWake, FutexPc.suspending] at hu
        · simp only [hpc u hut, if_neg hmem] at hu
          exact h.reset u hu
    · by_cases hmem : u ∈ resumed s.sys t
      · have hut : u ≠ t := by
          rintro rfl
          exact hout hmem
        simp only [wokenAfter, if_pos hmem, Option.some.injEq] at huw
        subst huw
        refine ⟨by simp, by simp [errorAfter, hmem, Waker.error], ?_⟩
        rw [hpc u hut, if_pos hmem]
        rfl
      · simp only [wokenAfter, if_neg hmem] at huw
        have hut : u ≠ t := by
          rintro rfl
          simp [hself] at huw
        simp only [errorAfter, if_neg hmem, hpc u hut]
        exact h.left u w huw
  | _ => simp [FutexSys.step, hp] at hs

theorem Inv.resume (h : s.Inv) {w : Waker} (hw : s.woken t = some w) :
    Inv ⟨s.sys, rtSetErrno s.error t (futexWaitRet (s.error t)), Function.update s.woken t none,
      ⟨t, some w, futexWaitRet (s.error t)⟩ :: s.returns⟩ := by
  obtain ⟨hne, hcode, hret⟩ := h.left t w hw
  refine ⟨h.sys, fun u hu => ?_, fun u v huv => ?_, fun x hx => ?_⟩
  · have hut : u ≠ t := by
      rintro rfl
      simp [hret, FutexPc.suspending] at hu
    exact (rtSetErrno_of_ne hut).trans (h.reset u hu)
  · have hut : u ≠ t := by
      rintro rfl
      simp at huv
    simp only [Function.update_of_ne hut] at huv
    simp only [rtSetErrno_of_ne hut]
    exact h.left u v huv
  · obtain rfl | hx := List.mem_cons.mp hx
    · rw [hcode]
      cases w with
      | signal => exact absurd rfl hne
      | wake v =>
        have hret : futexWaitRet (Waker.wake v).error = .ok := rfl
        exact ⟨by simp, by simp [hret], by simp [hret], by simp [hret]⟩
      | timeout =>
        have hret : futexWaitRet Waker.timeout.error = .etimedout := rfl
        exact ⟨by simp [hret], by simp, by simp [hret], by simp⟩
      | exit =>
        have hret : futexWaitRet Waker.exit.error = .eintr := rfl
        exact ⟨by simp [hret], by simp [hret], by simp, by simp⟩
    · exact h.told x hx

/-- No handled signal comes to a suspended thread. -/
def Quiet (e : Event) : Prop := ∀ t, e ≠ .sys (.signal t false)

theorem Inv.step (h : s.Inv) {e : Event} (he : Quiet e) (hs : s.step e = some s') : s'.Inv := by
  cases e with
  | earlier t v =>
    have hquiet : ∀ ret, (s.sys.pc t = .idle ∨ s.sys.pc t = .returned ret) → s.woken t = none →
        Inv { s with error := Function.update s.error t v } := by
      intro ret hp hw
      refine ⟨h.sys, fun u hu => ?_, fun u w huw => ?_, h.told⟩
      · have hut : u ≠ t := by
          rintro rfl
          obtain hp | hp := hp <;> simp [hp, FutexPc.suspending] at hu
        exact (Function.update_of_ne hut _ _).trans (h.reset u hu)
      · have hut : u ≠ t := by
          rintro rfl
          simp [hw] at huw
        simp only [Function.update_of_ne hut]
        exact h.left u w huw
    simp only [FutexReason.step] at hs
    split at hs
    · rename_i hp
      split_ifs at hs with hw
      exact Option.some.inj hs ▸ hquiet .ok (.inl hp) hw
    · rename_i ret hp
      split_ifs at hs with hw
      exact Option.some.inj hs ▸ hquiet ret (.inr hp) hw
    · simp at hs
  | resume t =>
    simp only [FutexReason.step] at hs
    split at hs
    · simp at hs
    · rename_i w hw
      exact Option.some.inj hs ▸ h.resume hw
  | sys e =>
    simp only [FutexReason.step] at hs
    split_ifs at hs with hruns
    obtain ⟨s₁, hs₁, rfl⟩ := Option.map_eq_some_iff.mp hs
    cases e with
    | call t r => exact h.call hs₁ hruns
    | takeLock t taken => exact h.takeLock hs₁
    | lookup t created =>
      obtain ⟨r, hr⟩ | ⟨r, taken, hr, -⟩ | ⟨ht, -⟩ := FutexSys.step_from hs₁ rfl
      · simp at hr
      · simp at hr
      · exact h.inside hs₁ rfl ht h.told
    | compare t => exact h.compare hs₁
    | suspend t signalPending => exact h.suspend hs₁
    | wake t => exact h.wake hs₁
    | timeout t =>
      simp only [FutexSys.step] at hs₁
      split at hs₁
      · rename_i r hi
        split_ifs at hs₁
        exact Option.some.inj hs₁ ▸ h.leavesList hi (by simp) rfl rfl
      · simp at hs₁
    | signal t exiting =>
      simp only [FutexSys.step] at hs₁
      split at hs₁
      · rename_i r hi
        cases exiting with
        | false => exact absurd rfl (he t)
        | true => exact Option.some.inj hs₁ ▸ h.leavesList hi (by simp) rfl rfl
      · simp at hs₁
    | store word =>
      obtain rfl := Option.some.inj hs₁
      exact ⟨h.sys.step hs₁, h.reset, h.left, h.told⟩

theorem inv_init (word : ℕ → ℤ) (error : Tid → ℤ) : (init word error).Inv :=
  ⟨FutexSys.inv_init word, by simp [init, FutexSys.init, FutexPc.suspending], by simp [init], by simp [init]⟩

theorem woken_kept (hs : s.step e = some s') {w : Waker} (h : s.Inv) (hw : s.woken u = some w) :
    s'.woken u = some w ∨ e = .resume u ∧ s'.returns = ⟨u, some w, futexWaitRet w.error⟩ :: s.returns := by
  obtain ⟨-, hcode, hret⟩ := h.left u w hw
  cases e with
  | earlier t v =>
    simp only [FutexReason.step] at hs
    split at hs
    · split_ifs at hs
      exact .inl (Option.some.inj hs ▸ hw)
    · split_ifs at hs
      exact .inl (Option.some.inj hs ▸ hw)
    · simp at hs
  | resume t =>
    simp only [FutexReason.step] at hs
    split at hs
    · simp at hs
    · rename_i w' hw'
      obtain rfl := Option.some.inj hs
      by_cases hut : u = t
      · subst hut
        obtain rfl := Option.some.inj (hw.symm.trans hw')
        exact .inr ⟨rfl, by simp only [hcode]⟩
      · exact .inl ((Function.update_of_ne hut _ _).trans hw)
  | sys e =>
    simp only [FutexReason.step] at hs
    split_ifs at hs
    obtain ⟨s₁, hs₁, rfl⟩ := Option.map_eq_some_iff.mp hs
    refine .inl ?_
    cases e with
    | wake t =>
      have hout : u ∉ resumed s.sys t := by
        cases hp : s.sys.pc t with
        | waking a number =>
          intro hu
          simp only [resumed, hp] at hu
          have hmem : u ∈ s.sys.waiters a := by
            rw [← FutexSys.wakeLoop_append (s.sys.waiters a) number]
            exact List.mem_append_left _ hu
          rw [h.sys.member, hret] at hmem
          simp [FutexPc.address] at hmem
        | _ => simp [resumed, hp]
      simp only [wokenAfter, if_neg hout]
      exact hw
    | timeout t | signal t exiting =>
      have hut : u ≠ t := by
        rintro rfl
        simp [FutexSys.step, hret] at hs₁
      simp only [wokenAfter, Function.update_of_ne hut]
      exact hw
    | _ => exact hw

end steps

/-- What `FutexSys` records as the result of a resumed waiter is what the waiter reads from its error. -/
theorem futex_wait_reports (word : ℕ → ℤ) (error : Tid → ℤ) (es : List Event) (s : FutexReason)
    (h : run step (init word error) es = some s) (hq : ∀ e ∈ es, Quiet e) :
    (∀ x ∈ s.returns, x.Honest) ∧
    (∀ t w, s.woken t = some w → s.sys.pc t = .returned (futexWaitRet (s.error t)) ∧
      ∀ e s', s.step e = some s' → s'.woken t = some w ∨
        e = .resume t ∧ s'.returns = ⟨t, some w, futexWaitRet (s.error t)⟩ :: s.returns) ∧
    (∀ t a n, s.sys.pc t = .waking a n → ∃ (s' : FutexReason) (l : List Tid), s.step (.sys (.wake t)) = some s' ∧ l.Nodup ∧
      s'.sys.pc t = .returned (.woken l.length) ∧ ∀ u ∈ l, s'.woken u = some (.wake t)) := by
  have hi : s.Inv := run_invariant_of_meets Inv (fun _ _ _ hi he hs => hi.step he hs) h (meets_of_forall hq)
    (inv_init word error)
  refine ⟨hi.told, fun t w hw => ?_, fun t a n ht => ?_⟩
  · obtain ⟨-, hcode, hret⟩ := hi.left t w hw
    rw [hcode]
    exact ⟨hret, fun e s' hs => woken_kept hs hi hw⟩
  · have hlist : resumed s.sys t = (FutexSys.wakeLoop (s.sys.waiters a) n).1 := by simp only [resumed, ht]
    have hnd := hi.sys.nodup a
    rw [← FutexSys.wakeLoop_append (s.sys.waiters a) n, List.nodup_append] at hnd
    have hs : s.sys.step (.wake t) = some (s.sys.futexWake t a n) := by simp only [FutexSys.step, ht]
    have hr : s.runs (.wake t) := trivial
    refine ⟨_, resumed s.sys t, by rw [FutexReason.step, if_pos hr, hs, Option.map_some], hlist ▸ hnd.1, ?_,
      fun u hu => ?_⟩
    · simp only [FutexSys.futexWake, Function.update_self, hlist]
    · simp only [wokenAfter, if_pos hu]

/-- A waiter on address 8 that is on its way to its suspension. -/
def waits (t : Tid) : List Event :=
  [.earlier t 7, .sys (.call t (FutexSys.request .wait 8 0)), .sys (.takeLock t true), .sys (.lookup t true),
    .sys (.compare t), .sys (.suspend t false)]

theorem futex_wait_reports_example :
    ∃ s, run step (init (fun _ => 0) fun _ => 0)
      (waits 1 ++ waits 2 ++ [.sys (.call 3 (FutexSys.request .wake 8 1)), .sys (.takeLock 3 true),
        .sys (.lookup 3 true), .sys (.wake 3), .sys (.signal 2 true), .resume 2, .resume 1]) = some s ∧
      s.returns = [⟨1, some (.wake 3), .ok⟩, ⟨2, some .exit, .eintr⟩] ∧ ∀ x ∈ s.returns, x.Honest := by
  have hrun : ((run step (init (fun _ => 0) fun _ => 0)
      (waits 1 ++ waits 2 ++ [.sys (.call 3 (FutexSys.request .wake 8 1)), .sys (.takeLock 3 true),
        .sys (.lookup 3 true), .sys (.wake 3), .sys (.signal 2 true), .resume 2, .resume 1])).map fun s => s.returns) =
      some [⟨1, some (.wake 3), .ok⟩, ⟨2, some .exit, .eintr⟩] := by decide +kernel
  obtain ⟨s, hs, hret⟩ := Option.map_eq_some_iff.mp hrun
  exact ⟨s, hs, hret, (futex_wait_reports _ _ _ s hs (by simp [waits, Quiet])).1⟩

/-- A waiter that a handled signal interrupts returns as if it had been woken. -/
theorem futex_wait_hides_signal :
    ∃ s, run step (init (fun _ => 0) fun _ => 0) (waits 1 ++ [.sys (.signal 1 false), .resume 1]) = some s ∧
      s.returns = [⟨1, some .signal, .ok⟩] ∧ ¬ ∀ x ∈ s.returns, x.Honest := by
  have hrun : ((run step (init (fun _ => 0) fun _ => 0) (waits 1 ++ [.sys (.signal 1 false), .resume 1])).map
      fun s => s.returns) = some [⟨1, some .signal, .ok⟩] := by decide +kernel
  obtain ⟨s, hs, hret⟩ := Option.map_eq_some_iff.mp hrun
  refine ⟨s, hs, hret, fun hall => ?_⟩
  obtain ⟨t, ht⟩ := (hall ⟨1, some .signal, .ok⟩ (by simp [hret])).ok rfl
  simp at ht

end FutexReason

end RtSmart
