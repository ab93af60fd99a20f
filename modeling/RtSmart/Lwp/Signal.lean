import RtSmart.Lib.Transition

/-!
Signals of a user thread (lwp_signal.c): the contexts that are saved when a handler is entered, and the
masks that handlers change themselves.
-/

namespace RtSmart

open Lib

def lwpNsig : ℕ := 64

/-- `lwp_sigset_t` is one word. -/
abbrev LwpSigset := BitVec 64

structure RtUserContext where
  sp : ℕ
  pc : ℕ
  flag : ℕ
  deriving DecidableEq, Repr

/-- The first argument of `sigprocmask`; `invalid` is any other number. -/
inductive SigHow
  | setmask
  | block
  | unblock
  | invalid
  deriving DecidableEq, Repr

/-- The fields of `struct rt_thread` for signals, and the mask of its process. -/
structure SigThread where
  signal : LwpSigset
  signalMask : LwpSigset
  signalMaskBak : ℕ → LwpSigset
  signalInProcess : ℕ
  userCtx : ℕ → RtUserContext
  lwpSignalMask : LwpSigset

namespace SigThread

def sigkill : ℕ := 9

def sigstop : ℕ := 17

def lwpSigaddset (set : LwpSigset) (sig : ℕ) : LwpSigset := set ||| BitVec.twoPow 64 (sig - 1)

def lwpSigdelset (set : LwpSigset) (sig : ℕ) : LwpSigset := set &&& ~~~ BitVec.twoPow 64 (sig - 1)

def lwpSigismember (set : LwpSigset) (sig : ℕ) : Bool := set.getLsbD (sig - 1)

/-- `__builtin_ffsll`. -/
def ffsll (x : BitVec 64) : ℕ :=
  match (List.range 64).find? fun i => x.getLsbD i with
  | none => 0
  | some i => i + 1

/-- The set that `lwp_thread_signal_check` finds. -/
def lwpThreadSignalCheck (t : SigThread) : LwpSigset := t.signal &&& ~~~ t.signalMask

def lwpSignalBackup (t : SigThread) (ctx : RtUserContext) : SigThread × ℕ :=
  let signal := ffsll t.lwpThreadSignalCheck
  if signal ≠ 0 then
    ({ t with
        userCtx := Function.update t.userCtx t.signalInProcess ctx
        signalMaskBak := Function.update t.signalMaskBak t.signalInProcess t.signalMask
        signalInProcess := (t.signalInProcess + 1) % 2 ^ 32
        signalMask := lwpSigaddset t.signalMask signal
        signal := lwpSigdelset t.signal signal }, signal)
  else (t, 0)

/-- `none` when no context is saved. -/
def lwpSignalRestore (t : SigThread) : SigThread × Option RtUserContext :=
  if t.signalInProcess ≠ 0 then
    ({ t with
        signalInProcess := t.signalInProcess - 1
        signalMask := t.signalMaskBak (t.signalInProcess - 1) }, some (t.userCtx (t.signalInProcess - 1)))
  else (t, none)

/-- The new mask of `lwp_sigprocmask` and `lwp_thread_sigprocmask`. -/
def newset (mask : LwpSigset) (how : SigHow) (sigset : LwpSigset) : Option LwpSigset :=
  let set := match how with
    | .block => some (mask ||| sigset)
    | .unblock => some (mask &&& ~~~ sigset)
    | .setmask => some sigset
    | .invalid => none
  set.map fun set => lwpSigdelset (lwpSigdelset set sigkill) sigstop

def lwpSigprocmask (t : SigThread) (how : SigHow) (sigset : LwpSigset) : SigThread :=
  match newset t.lwpSignalMask how sigset with
  | none => t
  | some set => { t with lwpSignalMask := set }

def lwpThreadSigprocmask (t : SigThread) (how : SigHow) (sigset : LwpSigset) : SigThread :=
  match newset t.signalMask how sigset with
  | none => t
  | some set => { t with signalMask := set }

/-- The part of `lwp_thread_kill_ext` that concerns the thread's own state. -/
def lwpThreadKill (t : SigThread) (sig : ℕ) : SigThread :=
  if sig = 0 ∨ lwpNsig < sig then t else { t with signal := lwpSigaddset t.signal sig }

end SigThread

/-- What was current when a handler was entered, and the signal it handles. -/
structure SigFrame where
  ctx : RtUserContext
  mask : LwpSigset
  sig : ℕ
  deriving DecidableEq, Repr

/-- A thread with the handlers it is in, the innermost first. -/
structure SigSys where
  thread : SigThread
  frames : List SigFrame

namespace SigSys

open SigThread

inductive Event
  | kill (sig : ℕ)
  | deliver (ctx : RtUserContext)
  | sigreturn
  | threadSigprocmask (how : SigHow) (sigset : LwpSigset)
  | sigprocmask (how : SigHow) (sigset : LwpSigset)
  deriving DecidableEq, Repr

def step (s : SigSys) : Event → Option SigSys
  | .kill sig => some { s with thread := s.thread.lwpThreadKill sig }
  | .deliver ctx =>
    let r := s.thread.lwpSignalBackup ctx
    some ⟨r.1, if r.2 = 0 then s.frames else ⟨ctx, s.thread.signalMask, r.2⟩ :: s.frames⟩
  | .sigreturn => some ⟨s.thread.lwpSignalRestore.1, s.frames.tail⟩
  | .threadSigprocmask how sigset => some { s with thread := s.thread.lwpThreadSigprocmask how sigset }
  | .sigprocmask how sigset => some { s with thread := s.thread.lwpSigprocmask how sigset }

/-- No signal is delivered when all places for contexts are taken. -/
def Fits (s : SigSys) (e : Event) : Prop :=
  ∀ ctx, e = .deliver ctx → s.thread.lwpThreadSignalCheck = 0 ∨ s.thread.signalInProcess < lwpNsig

/-- A handler does not unblock a signal whose handler is running. -/
def Respects (s : SigSys) (e : Event) : Prop :=
  ∀ how sigset, e = .threadSigprocmask how sigset → ∀ set, newset s.thread.signalMask how sigset = some set →
    ∀ f ∈ s.frames, lwpSigismember set f.sig = true

instance (s : SigSys) : ∀ e, Decidable (s.Fits e)
  | .kill _ => isTrue nofun
  | .deliver _ => decidable_of_iff (s.thread.lwpThreadSignalCheck = 0 ∨ s.thread.signalInProcess < lwpNsig)
      ⟨fun h _ _ => h, fun h => h _ rfl⟩
  | .sigreturn => isTrue nofun
  | .threadSigprocmask _ _ => isTrue nofun
  | .sigprocmask _ _ => isTrue nofun

/-- The saved contexts are those of the handlers, and the next `sigreturn` goes back to the innermost one's. -/
structure Nested (s : SigSys) : Prop where
  bound : s.thread.signalInProcess ≤ lwpNsig
  depth : s.thread.signalInProcess = s.frames.length
  restores : ∀ f rest, s.frames = f :: rest →
    s.thread.lwpSignalRestore.2 = some f.ctx ∧ s.thread.lwpSignalRestore.1.signalMask = f.mask
  refuses : s.frames = [] → s.thread.lwpSignalRestore = (s.thread, none)

variable {s s' : SigSys} {e : Event} {f : SigFrame} {rest : List SigFrame}

def Saved (t : SigThread) : List SigFrame → Prop
  | [] => True
  | f :: rest => t.userCtx rest.length = f.ctx ∧ t.signalMaskBak rest.length = f.mask ∧ Saved t rest

theorem saved_congr {t t' : SigThread} {l : List SigFrame} (h : Saved t l)
    (hctx : ∀ i < l.length, t'.userCtx i = t.userCtx i)
    (hmask : ∀ i < l.length, t'.signalMaskBak i = t.signalMaskBak i) : Saved t' l := by
  induction l with
  | nil => trivial
  | cons f rest ih =>
    obtain ⟨h1, h2, h3⟩ := h
    rw [List.length_cons] at hctx hmask
    refine ⟨?_, ?_, ih h3 (fun i hi => hctx i (by omega)) fun i hi => hmask i (by omega)⟩
    · rw [hctx _ (by omega)]
      exact h1
    · rw [hmask _ (by omega)]
      exact h2

structure Inv (s : SigSys) : Prop where
  bound : s.thread.signalInProcess ≤ lwpNsig
  depth : s.thread.signalInProcess = s.frames.length
  saved : Saved s.thread s.frames

theorem Inv.nested (h : s.Inv) : s.Nested where
  bound := h.bound
  depth := h.depth
  restores := by
    intro f rest hf
    have hd := h.depth
    have hs := h.saved
    rw [hf] at hd hs
    rw [List.length_cons] at hd
    have hpos : s.thread.signalInProcess ≠ 0 := by omega
    unfold lwpSignalRestore
    rw [if_pos hpos, hd, Nat.add_sub_cancel]
    exact ⟨congrArg some hs.1, hs.2.1⟩
  refuses := by
    intro hf
    have hd := h.depth
    rw [hf, List.length_nil] at hd
    unfold lwpSignalRestore
    rw [if_neg (by omega)]

theorem ffsll_spec {x : BitVec 64} (h : ffsll x ≠ 0) : 1 ≤ ffsll x ∧ ffsll x ≤ 64 ∧ x.getLsbD (ffsll x - 1) = true := by
  unfold ffsll at h ⊢
  split at h
  · exact absurd rfl h
  next i hi =>
    have hmem := List.mem_range.mp (List.mem_of_find?_eq_some hi)
    have hbit := List.find?_some hi
    simp only [Nat.add_sub_cancel]
    exact ⟨by omega, by omega, hbit⟩

theorem ffsll_eq_zero {x : BitVec 64} : ffsll x = 0 ↔ x = 0 := by
  constructor
  · intro h
    unfold ffsll at h
    split at h
    next hnone =>
      apply BitVec.eq_of_getLsbD_eq
      intro i hi
      rw [List.find?_eq_none] at hnone
      simpa using hnone i (List.mem_range.mpr hi)
    next => omega
  · rintro rfl
    decide

theorem Inv.step (h : s.Inv) (he : s.Fits e) (hs : s.step e = some s') : s'.Inv := by
  obtain ⟨hbound, hdepth, hsaved⟩ := h
  cases e with
  | kill sig =>
    obtain rfl := Option.some.inj hs
    unfold lwpThreadKill
    split
    · exact ⟨hbound, hdepth, hsaved⟩
    · exact ⟨hbound, hdepth, saved_congr hsaved (fun _ _ => rfl) fun _ _ => rfl⟩
  | deliver ctx =>
    obtain rfl := Option.some.inj hs
    by_cases hsig : ffsll s.thread.lwpThreadSignalCheck = 0
    · have hbackup : s.thread.lwpSignalBackup ctx = (s.thread, 0) := by
        unfold lwpSignalBackup
        rw [if_neg (not_not.mpr hsig)]
      rw [hbackup]
      exact ⟨hbound, hdepth, hsaved⟩
    · have hroom : s.thread.signalInProcess < lwpNsig := by
        rcases he ctx rfl with hz | hlt
        · exact absurd (ffsll_eq_zero.mpr hz) hsig
        · exact hlt
      have hmod : (s.thread.signalInProcess + 1) % 2 ^ 32 = s.thread.signalInProcess + 1 := by
        unfold lwpNsig at hroom
        omega
      unfold lwpSignalBackup
      dsimp only
      rw [if_pos hsig, if_neg hsig, hmod]
      refine ⟨hroom, ?_, ?_, ?_, ?_⟩
      · dsimp only
        rw [List.length_cons, hdepth]
      · dsimp only
        rw [← hdepth, Function.update_self]
      · dsimp only
        rw [← hdepth, Function.update_self]
      · -- the outer frames are below the index written
        apply saved_congr hsaved <;> intro i hi <;> dsimp only <;>
          exact Function.update_of_ne (by omega) _ _
  | sigreturn =>
    obtain rfl := Option.some.inj hs
    unfold lwpSignalRestore
    cases hf : s.frames with
    | nil =>
      rw [hf, List.length_nil] at hdepth
      rw [if_neg (not_not.mpr hdepth)]
      exact ⟨hbound, hdepth, trivial⟩
    | cons f rest =>
      rw [hf] at hdepth hsaved
      rw [List.length_cons] at hdepth
      rw [if_pos (by omega)]
      refine ⟨?_, ?_, saved_congr hsaved.2.2 (fun _ _ => rfl) fun _ _ => rfl⟩
      · dsimp only
        omega
      · dsimp only
        rw [hdepth, Nat.add_sub_cancel]
        rfl
  | threadSigprocmask how sigset =>
    obtain rfl := Option.some.inj hs
    unfold lwpThreadSigprocmask
    split
    · exact ⟨hbound, hdepth, hsaved⟩
    · exact ⟨hbound, hdepth, saved_congr hsaved (fun _ _ => rfl) fun _ _ => rfl⟩
  | sigprocmask how sigset =>
    obtain rfl := Option.some.inj hs
    unfold lwpSigprocmask
    split
    · exact ⟨hbound, hdepth, hsaved⟩
    · exact ⟨hbound, hdepth, saved_congr hsaved (fun _ _ => rfl) fun _ _ => rfl⟩

/-- The signals of the running handlers are blocked, now and in every mask saved after they were entered. -/
def Blocked (mask : LwpSigset) : List SigFrame → Prop
  | [] => True
  | f :: rest => (∀ g ∈ f :: rest, lwpSigismember mask g.sig = true) ∧ Blocked f.mask rest

structure Blocking (s : SigSys) : Prop where
  blocked : Blocked s.thread.signalMask s.frames
  range : ∀ f ∈ s.frames, 1 ≤ f.sig ∧ f.sig ≤ 64
  nodup : (s.frames.map SigFrame.sig).Nodup

theorem Blocked.mem {mask : LwpSigset} {l : List SigFrame} (h : Blocked mask l) : ∀ f ∈ l, lwpSigismember mask f.sig = true := by
  cases l with
  | nil => simp
  | cons f rest => exact h.1

theorem Blocked.mono {mask mask' : LwpSigset} {l : List SigFrame} (h : Blocked mask l)
    (hm : ∀ f ∈ l, lwpSigismember mask' f.sig = true) : Blocked mask' l := by
  cases l with
  | nil => trivial
  | cons f rest => exact ⟨hm, h.2⟩

theorem Blocking.depth_le (h : s.Blocking) : s.frames.length ≤ lwpNsig := by
  have hsub : (s.frames.map SigFrame.sig).Subperm (List.range' 1 64) := by
    apply h.nodup.subperm
    intro k hk
    obtain ⟨f, hf, rfl⟩ := List.mem_map.mp hk
    obtain ⟨h1, h2⟩ := h.range f hf
    rw [List.mem_range'_1]
    omega
  have := hsub.length_le
  rwa [List.length_map, List.length_range'] at this

theorem getLsbD_addset {set : LwpSigset} {sig k : ℕ} (h : 1 ≤ sig) (h' : sig ≤ 64) :
    lwpSigismember (lwpSigaddset set sig) k = true ↔ lwpSigismember set k = true ∨ sig - 1 = k - 1 := by
  unfold lwpSigismember lwpSigaddset
  rw [BitVec.getLsbD_or, BitVec.getLsbD_twoPow, Bool.or_eq_true]
  simp only [Bool.and_eq_true, decide_eq_true_eq]
  constructor
  · rintro (hk | ⟨-, hk⟩)
    · exact .inl hk
    · exact .inr hk
  · rintro (hk | hk)
    · exact .inl hk
    · exact .inr ⟨by omega, hk⟩

theorem Blocking.deliver (h : s.Blocking) (hsig : ffsll s.thread.lwpThreadSignalCheck ≠ 0) (ctx : RtUserContext) :
    (SigSys.mk (s.thread.lwpSignalBackup ctx).1
      (⟨ctx, s.thread.signalMask, ffsll s.thread.lwpThreadSignalCheck⟩ :: s.frames)).Blocking := by
  obtain ⟨h1, h64, hbit⟩ := ffsll_spec hsig
  have hopen : lwpSigismember s.thread.signalMask (ffsll s.thread.lwpThreadSignalCheck) = false := by
    unfold lwpThreadSignalCheck at hbit
    rw [BitVec.getLsbD_and, BitVec.getLsbD_not, Bool.and_eq_true, Bool.and_eq_true, Bool.not_eq_true'] at hbit
    exact hbit.2.2
  unfold lwpSignalBackup
  dsimp only
  rw [if_pos hsig]
  refine ⟨⟨?_, h.blocked⟩, ?_, ?_⟩
  · intro g hg
    rw [getLsbD_addset h1 h64]
    rcases List.mem_cons.mp hg with rfl | hg
    · exact .inr rfl
    · exact .inl (h.blocked.mem g hg)
  · intro g hg
    rcases List.mem_cons.mp hg with rfl | hg
    · exact ⟨h1, h64⟩
    · exact h.range g hg
  · rw [List.map_cons, List.nodup_cons]
    refine ⟨?_, h.nodup⟩
    intro hmem
    obtain ⟨g, hg, heq⟩ := List.mem_map.mp hmem
    have := h.blocked.mem g hg
    rw [heq, hopen] at this
    cases this

theorem Blocking.step (h : s.Blocking) (hi : s.Inv) (he : s.Respects e) (hs : s.step e = some s') : s'.Blocking := by
  obtain ⟨hblocked, hrange, hnodup⟩ := h
  cases e with
  | kill sig =>
    obtain rfl := Option.some.inj hs
    unfold lwpThreadKill
    split <;> exact ⟨hblocked, hrange, hnodup⟩
  | deliver ctx =>
    obtain rfl := Option.some.inj hs
    by_cases hsig : ffsll s.thread.lwpThreadSignalCheck = 0
    · have hbackup : s.thread.lwpSignalBackup ctx = (s.thread, 0) := by
        unfold lwpSignalBackup
        rw [if_neg (not_not.mpr hsig)]
      rw [hbackup]
      exact ⟨hblocked, hrange, hnodup⟩
    · have hret : (s.thread.lwpSignalBackup ctx).2 = ffsll s.thread.lwpThreadSignalCheck := by
        unfold lwpSignalBackup
        dsimp only
        rw [if_pos hsig]
      rw [hret, if_neg hsig]
      exact Blocking.deliver ⟨hblocked, hrange, hnodup⟩ hsig ctx
  | sigreturn =>
    obtain rfl := Option.some.inj hs
    cases hf : s.frames with
    | nil =>
      rw [hi.nested.refuses hf]
      exact ⟨trivial, by simp, by simp⟩
    | cons f rest =>
      rw [hf] at hblocked hrange hnodup
      refine ⟨?_, fun g hg => hrange g (List.mem_cons_of_mem f hg), (List.nodup_cons.mp hnodup).2⟩
      dsimp only
      rw [(hi.nested.restores f rest hf).2]
      exact hblocked.2
  | threadSigprocmask how sigset =>
    obtain rfl := Option.some.inj hs
    unfold lwpThreadSigprocmask
    split
    · exact ⟨hblocked, hrange, hnodup⟩
    next set hset => exact ⟨hblocked.mono (he how sigset rfl set hset), hrange, hnodup⟩
  | sigprocmask how sigset =>
    obtain rfl := Option.some.inj hs
    unfold lwpSigprocmask
    split <;> exact ⟨hblocked, hrange, hnodup⟩

theorem Blocking.fits (h : s.Blocking) (hi : s.Inv) : s.Fits e := by
  rintro ctx rfl
  by_cases hsig : ffsll s.thread.lwpThreadSignalCheck = 0
  · exact .inl (ffsll_eq_zero.mp hsig)
  · have hdepth := (h.deliver hsig ctx).depth_le
    rw [List.length_cons] at hdepth
    rw [hi.depth]
    exact .inr hdepth

theorem meets_fits_of_respects {es : List Event} (hi : s.Inv) (hb : s.Blocking) (hm : Meets step Respects s es) :
    Meets step Fits s es := by
  induction es generalizing s with
  | nil => trivial
  | cons e es ih =>
    have hfits := hb.fits (e := e) hi
    refine ⟨hfits, ?_⟩
    intro s' hs
    exact ih (hi.step hfits hs) (hb.step hi hm.1 hs) (hm.2 s' hs)

/-- A thread that is in no handler. -/
def start (t : SigThread) : SigSys := ⟨{ t with signalInProcess := 0 }, []⟩

theorem inv_start (t : SigThread) : (start t).Inv := ⟨Nat.zero_le _, rfl, trivial⟩

theorem blocking_start (t : SigThread) : (start t).Blocking := ⟨trivial, by simp [start], by simp [start]⟩

theorem signal_frames_nest (t : SigThread) (es : List Event)
    (hm : Meets step Fits (start t) es ∨ Meets step Respects (start t) es) :
    ∃ s, run step (start t) es = some s ∧ s.Nested := by
  have hfits : Meets step Fits (start t) es := by
    rcases hm with hm | hm
    · exact hm
    · exact meets_fits_of_respects (inv_start t) (blocking_start t) hm
  have hstep : ∀ s e, Inv s → Fits s e → ∃ s', step s e = some s' ∧ Inv s' := by
    intro s e hi he
    obtain ⟨s', hs⟩ : ∃ s', step s e = some s' := by
      cases e <;> exact ⟨_, rfl⟩
    exact ⟨s', hs, hi.step he hs⟩
  obtain ⟨s, hs, hi⟩ := run_total_of_meets Inv hstep hfits (inv_start t)
  exact ⟨s, hs, hi.nested⟩

def idle : SigThread := ⟨0, 0, fun _ => 0, 0, fun _ => ⟨0, 0, 0⟩, 0⟩

theorem signal_frames_nest_example :
    Meets step Fits (start idle) [.kill 10, .kill 12, .deliver ⟨1, 2, 3⟩, .threadSigprocmask .unblock 0x200,
      .kill 10, .deliver ⟨4, 5, 6⟩, .sigreturn] ∧
    ∃ s, run step (start idle) [.kill 10, .kill 12, .deliver ⟨1, 2, 3⟩, .threadSigprocmask .unblock 0x200,
      .kill 10, .deliver ⟨4, 5, 6⟩, .sigreturn] = some s ∧ s.Nested := by
  have hm : Meets step Fits (start idle) [.kill 10, .kill 12, .deliver ⟨1, 2, 3⟩,
      .threadSigprocmask .unblock 0x200, .kill 10, .deliver ⟨4, 5, 6⟩, .sigreturn] := by decide +kernel
  exact ⟨hm, signal_frames_nest idle _ (.inl hm)⟩

/-- A handler that unblocks its own signal is entered once more than there are places. -/
theorem signal_frames_overflow : ∃ s, run step (start idle) (List.replicate 65
    [Event.kill 10, .deliver ⟨1, 2, 3⟩, .threadSigprocmask .unblock 0x200]).flatten = some s ∧
    lwpNsig < s.thread.signalInProcess := by
  have hrun : ((run step (start idle) (List.replicate 65
      [Event.kill 10, .deliver ⟨1, 2, 3⟩, .threadSigprocmask .unblock 0x200]).flatten).map
        fun s => s.thread.signalInProcess) = some 65 := by decide +kernel
  obtain ⟨s, hs, hdepth⟩ := Option.map_eq_some_iff.mp hrun
  refine ⟨s, hs, ?_⟩
  rw [hdepth]
  decide

end SigSys

end RtSmart
