import RtSmart.Dfs.PollInv

/-!
The timeout of `poll`: the calls of `poll.c` with a clock. The timer of a caller expires in the interrupt of
the tick it was set to.
-/

namespace RtSmart

open Lib

/-- `rt_tick_from_millisecond`, at 1000 ticks a second. -/
def rtTickFromMillisecond (ms : ℕ) : ℕ := 1000 * (ms / 1000) + (1000 * (ms % 1000) + 999) / 1000

theorem rtTickFromMillisecond_eq (ms : ℕ) : rtTickFromMillisecond ms = ms := by
  unfold rtTickFromMillisecond
  omega

/-- When a call first reached `poll_wait_timeout` with nothing found, how many scans it has begun, how many of them
after the end of its time, and the tick its thread's timer is set to. `lacking`: a registration of the call got no
memory. `roused`: a wake-up had come when the current scan began. `found`: the current scan has met an event. -/
structure PollClock where
  waited : Option ℕ
  scans : ℕ
  late : ℕ
  timer : Option ℕ
  lacking : Bool
  roused : Bool
  found : Bool
deriving DecidableEq

/-- The first `scans` scans of a call. -/
def PollClock.start (scans : ℕ) : PollClock := ⟨none, scans, 0, none, false, false, false⟩

structure TimedPoll where
  sys : PollSys
  tick : ℕ
  clock : ℕ → PollClock

inductive TimedPollEvent
  | tick
  | act (e : PollEvent)
deriving DecidableEq

namespace TimedPoll

open PollSys

def init : TimedPoll := ⟨.init, 0, fun _ => .start 0⟩

/-- `rt_timer_check` for the timer of one caller. -/
def expireDue (tick : ℕ) (x : Poller) (c : PollClock) : Poller :=
  match x.pc, c.timer with
  | .suspended true, some t => if t ≤ tick then { x with err := .etimeout, pc := .readied } else x
  | _, _ => x

/-- What an event says of the scan of the caller `p`: the answer to its `rt_malloc`, and what a descriptor reports. -/
def observe (sys : PollSys) (p : ℕ) (c : PollClock) : PollEvent → PollClock
  | .scan q alloc _ =>
    if q ≠ p then c
    else
      match (sys.poller p).pc with
      | .scan (.driver _ _ :: _) => { c with lacking := c.lacking || ((sys.poller p).proc && !alloc) }
      | .scan (.invalid :: _) => { c with found := true }
      | .scan (.always events :: _) => { c with found := c.found || (pollMaskDefault &&& pollInterest events) != 0 }
      | _ => c
  | .report q =>
    if q ≠ p then c
    else
      match (sys.poller p).pc with
      | .report d events _ => { c with found := c.found || (sys.ready d &&& pollInterest events) != 0 }
      | _ => c
  | _ => c

def nextScan (c : PollClock) (tick : ℕ) (x : Poller) : PollClock :=
  { c with
    scans := c.scans + 1
    late := if c.waited.any fun t => t + x.timeout.toNat ≤ tick then c.late + 1 else c.late
    roused := x.triggered
    found := false }

/-- What a step from `x` to `y` does to the clock of the call. -/
def move (c : PollClock) (tick : ℕ) (x y : Poller) : PollClock :=
  match x.pc, y.pc with
  | .out, .out => c
  | .out, _ => .start 1
  | .prepare, .suspended timer =>
    { c with
      waited := c.waited.or (some tick)
      timer := if timer then some (tick + rtTickFromMillisecond y.timeout.toNat) else none }
  | .prepare, .scan _ | .readied, .scan _ => nextScan { c with waited := c.waited.or (some tick) } tick y
  | _, _ => c

/-- The assertion of `rt_timer_start` holds for the timer of the caller that an event puts to sleep. -/
def timerFits (sys : PollSys) : PollEvent → Bool
  | .wait p _ =>
    (sys.poller p).pc ≠ .suspended true || rtTickFromMillisecond (sys.poller p).timeout.toNat < 2 ^ 31 - 1
  | _ => true

def step (s : TimedPoll) : TimedPollEvent → Option TimedPoll
  | .tick =>
    some { s with
      sys := { s.sys with poller := fun p => expireDue (s.tick + 1) (s.sys.poller p) (s.clock p) }
      tick := s.tick + 1 }
  | .act (.expire _) => none
  | .act e =>
    (s.sys.step e).bind fun sys =>
      if timerFits sys e then
        some { s with
          sys := sys
          clock := fun p => move (observe s.sys p (s.clock p) e) s.tick (s.sys.poller p) (sys.poller p) }
      else none

/-- A call of `poll` with a timeout that is not negative. -/
def Finite (x : Poller) : Prop := x.single = false ∧ 0 ≤ x.timeout

def InScan (x : Poller) : Prop := (∃ l, x.pc = .scan l) ∨ ∃ d events l, x.pc = .report d events l

/-- What holds of a call of `poll` whose wake-ups all brought an event. -/
def OnTime (tick : ℕ) (x : Poller) (c : PollClock) : Prop :=
  match x.pc with
  | .out => c.late = 0
  | .clear => False
  | .scan _ | .report _ _ _ =>
    (c.scans = 1 ∧ c.late = 0 ∧ c.waited = none ∧ (x.istimeout = true ↔ x.timeout = 0)) ∨
      c.scans = 2 ∧ c.late ≤ 1 ∧ ∃ t, c.waited = some t ∧ (x.istimeout = true → t + x.timeout.toNat ≤ tick) ∧
        (x.istimeout = false → c.roused = true)
  | .prepare => c.scans = 1 ∧ c.late = 0 ∧ c.waited = none ∧ x.istimeout = false ∧ x.timeout ≠ 0
  | .suspended timer =>
    c.scans = 1 ∧ c.late = 0 ∧ timer = true ∧ x.istimeout = false ∧ x.err = .eintr ∧
      ∃ t, c.waited = some t ∧ c.timer = some (t + x.timeout.toNat) ∧ tick < t + x.timeout.toNat
  | .readied =>
    c.scans = 1 ∧ c.late = 0 ∧ x.istimeout = false ∧
      ∃ t, c.waited = some t ∧ (x.triggered = true ∨ x.err = .eintr ∨ t + x.timeout.toNat ≤ tick)
  | .teardown r | .done r =>
    c.late ≤ 1 ∧ (r = .ready → c.found = true) ∧
      (r = .timeout → x.timeout = 0 ∨ ∃ t, c.waited = some t ∧ t + x.timeout.toNat ≤ tick)

structure CallOk (tick : ℕ) (x : Poller) (c : PollClock) : Prop where
  lacking : x.single = false → x.error = c.lacking
  found : x.single = false → InScan x → (x.num ≠ 0 ↔ c.found = true)
  registered : x.single = false → (x.pc = .prepare ∨ ∃ timer, x.pc = .suspended timer) → x.error = false
  onTime : Finite x → OnTime tick x c

section call

variable {now : ℕ} {x y : Poller} {c c' : PollClock}

theorem move_of_pc_eq (c : PollClock) (now : ℕ) (h : y.pc = x.pc) : move c now x y = c := by
  unfold move
  rw [h]
  cases x.pc <;> rfl

theorem InScan.of_pc_eq (h : InScan y) (hpc : y.pc = x.pc) : InScan x := by
  unfold InScan at h ⊢
  rwa [hpc] at h

theorem CallOk.same (h : CallOk now x c) (hpc : y.pc = x.pc) (hsingle : y.single = x.single)
    (htimeout : y.timeout = x.timeout) (his : y.istimeout = x.istimeout) (herror : y.error = x.error)
    (hnum : y.num = x.num) (hready : y.triggered = true ∨ y.triggered = x.triggered ∧ y.err = x.err)
    (herr : ∀ timer, x.pc = .suspended timer → y.err = x.err) : CallOk now y c := by
  refine ⟨?_, ?_, ?_, fun hf => ?_⟩
  · rw [hsingle, herror]
    exact h.lacking
  · rw [hsingle, hnum]
    exact fun hs hscan => h.found hs (hscan.of_pc_eq hpc)
  · rw [hpc, hsingle, herror]
    exact h.registered
  · rw [Finite, hsingle, htimeout] at hf
    have ht := h.onTime hf
    unfold OnTime at ht ⊢
    rw [hpc, htimeout, his]
    cases hx : x.pc with
    | readied =>
      simp only [hx] at ht ⊢
      obtain ⟨hscans, hlate, his', t, hw, hor⟩ := ht
      refine ⟨hscans, hlate, his', t, hw, ?_⟩
      rcases hready with hr | ⟨hr, he⟩
      · exact Or.inl hr
      · rwa [hr, he]
    | suspended timer =>
      simp only [hx] at ht ⊢
      rwa [herr timer hx]
    | clear => simp only [hx] at ht
    | _ => simpa only [hx] using ht

theorem CallOk.later (h : CallOk now x c) (hl : x.Later y) : CallOk now y (move c now x y) := by
  rcases hl with rfl | rfl
  · rwa [move_of_pc_eq c now rfl]
  unfold Poller.pollwake
  by_cases hsleep : x.sleeping = true
  swap
  · rw [if_neg hsleep]
    have hmove : move c now x { x with triggered := true } = c := move_of_pc_eq c now rfl
    rw [hmove]
    exact h.same rfl rfl rfl rfl rfl rfl (Or.inl rfl) fun _ _ => rfl
  rw [if_pos hsleep]
  dsimp only
  cases hpc : x.pc with
  | suspended timer =>
    have hmove : move c now x
        { x with triggered := true, sleeping := false, err := .eok, pc := .readied } = c := by
      unfold move
      rw [hpc]
    rw [hmove]
    refine ⟨h.lacking, ?_, ?_, fun hf => ?_⟩
    · rintro - (⟨l, hl⟩ | ⟨d, events, l, hl⟩) <;> cases hl
    · rintro - (hl | ⟨t, hl⟩) <;> cases hl
    · have ht := h.onTime hf
      unfold OnTime at ht ⊢
      simp only [hpc] at ht ⊢
      obtain ⟨hscans, hlate, -, his, -, t, hw, -⟩ := ht
      exact ⟨hscans, hlate, his, t, hw, Or.inl trivial⟩
  | _ =>
    dsimp only
    rw [move_of_pc_eq c now hpc.symm]
    exact h.same hpc.symm rfl rfl rfl rfl rfl (Or.inl rfl) fun timer ht => by simp [hpc] at ht

theorem CallOk.expire (h : CallOk now x c) : CallOk (now + 1) (expireDue (now + 1) x c) c := by
  have hlate (hno : ∀ timer, x.pc ≠ .suspended timer) : CallOk (now + 1) x c := by
    refine ⟨h.lacking, h.found, h.registered, fun hf => ?_⟩
    have ht := h.onTime hf
    unfold OnTime at ht ⊢
    cases hpc : x.pc with
    | suspended timer => exact absurd hpc (hno timer)
    | clear => simp only [hpc] at ht
    | _ =>
      simp only [hpc] at ht ⊢
      grind
  unfold expireDue
  cases hpc : x.pc with
  | suspended timer =>
    cases timer with
    | false =>
      refine ⟨h.lacking, h.found, h.registered, fun hf => ?_⟩
      have ht := h.onTime hf
      simp [OnTime, hpc] at ht
    | true =>
      cases htimer : c.timer with
      | none =>
        refine ⟨h.lacking, h.found, h.registered, fun hf => ?_⟩
        have ht := h.onTime hf
        simp [OnTime, hpc, htimer] at ht
      | some t =>
        dsimp only
        by_cases hdue : t ≤ now + 1
        · rw [if_pos hdue]
          refine ⟨h.lacking, ?_, ?_, fun hf => ?_⟩
          · rintro - (⟨l, hl⟩ | ⟨d, events, l, hl⟩) <;> cases hl
          · rintro - (hl | ⟨t, hl⟩) <;> cases hl
          · have ht := h.onTime hf
            unfold OnTime at ht ⊢
            simp only [hpc, htimer, Option.some.injEq] at ht ⊢
            obtain ⟨hscans, hlate, -, his, -, w, hw, rfl, -⟩ := ht
            exact ⟨hscans, hlate, his, w, hw, Or.inr (Or.inr hdue)⟩
        · rw [if_neg hdue]
          refine ⟨h.lacking, h.found, h.registered, fun hf => ?_⟩
          have ht := h.onTime hf
          unfold OnTime at ht ⊢
          simp only [hpc, htimer, Option.some.injEq] at ht ⊢
          obtain ⟨hscans, hlate, htrue, his, herr, w, hw, rfl, -⟩ := ht
          exact ⟨hscans, hlate, htrue, his, herr, w, hw, rfl, Nat.lt_of_not_le hdue⟩
  | _ => exact hlate (by simp [hpc])

theorem CallOk.of_single (h : x.single = true) : CallOk now x c :=
  ⟨fun hs => absurd hs (by simp [h]), fun hs => absurd hs (by simp [h]), fun hs => absurd hs (by simp [h]),
    fun hf => absurd hf.1 (by simp [h])⟩

theorem CallOk.scanning (h : CallOk now x c) (hx : InScan x) (hy : InScan y) (hsingle : y.single = x.single)
    (htimeout : y.timeout = x.timeout) (his : y.istimeout = x.istimeout)
    (hc : c' = { c with lacking := c'.lacking, found := c'.found })
    (hlacking : x.error = c.lacking → y.error = c'.lacking)
    (hfound : (x.num ≠ 0 ↔ c.found = true) → (y.num ≠ 0 ↔ c'.found = true)) : CallOk now y (move c' now x y) := by
  have hmove : move c' now x y = c' := by
    unfold move
    rcases hx with ⟨l, hx⟩ | ⟨d, events, l, hx⟩ <;> rcases hy with ⟨l', hy⟩ | ⟨d', events', l', hy⟩ <;> rw [hx, hy]
  rw [hmove]
  refine ⟨fun hs => ?_, fun hs _ => ?_, ?_, fun hf => ?_⟩
  · rw [hsingle] at hs
    exact hlacking (h.lacking hs)
  · rw [hsingle] at hs
    exact hfound (h.found hs hx)
  · rcases hy with ⟨l, hy⟩ | ⟨d, events, l, hy⟩ <;> simp [hy]
  · rw [Finite, hsingle, htimeout] at hf
    have ht := h.onTime hf
    rw [hc]
    unfold OnTime at ht ⊢
    rw [htimeout, his]
    rcases hx with ⟨l, hx⟩ | ⟨d, events, l, hx⟩ <;> rcases hy with ⟨l', hy⟩ | ⟨d', events', l', hy⟩ <;>
      simpa only [hx, hy] using ht

theorem CallOk.late_le (h : CallOk now x c) (hf : Finite x) : c.late ≤ 1 := by
  have ht := h.onTime hf
  unfold OnTime at ht
  cases hpc : x.pc <;> simp only [hpc] at ht <;> omega

theorem CallOk.ending {r : PollResult} (h : CallOk now x c) (hx : x.pc ≠ .out) (hy : y.pc = .teardown r)
    (hr : r ≠ .timeout) (hready : r ≠ .ready) (hsingle : y.single = x.single) (htimeout : y.timeout = x.timeout)
    (herror : y.error = x.error) : CallOk now y (move c now x y) := by
  have hmove : move c now x y = c := by
    unfold move
    rw [hy]
    cases hpc : x.pc with
    | out => exact absurd hpc hx
    | _ => rfl
  rw [hmove]
  refine ⟨?_, ?_, ?_, fun hf => ?_⟩
  · rw [hsingle, herror]
    exact h.lacking
  · rintro - (⟨l, hl⟩ | ⟨d, events, l, hl⟩) <;> simp [hy] at hl
  · simp [hy]
  · rw [Finite, hsingle, htimeout] at hf
    unfold OnTime
    rw [hy]
    exact ⟨h.late_le hf, fun h => absurd h hready, fun h => absurd h hr⟩

theorem CallOk.pollStart (fds : List PollFd) (timeout : ℤ) (hx : x.pc = .out) :
    CallOk now (.pollStart fds timeout) (move c now x (.pollStart fds timeout)) := by
  have hmove : move c now x (.pollStart fds timeout) = .start 1 := by
    unfold move
    rw [hx]
    rfl
  rw [hmove]
  refine ⟨fun _ => rfl, fun _ _ => ?_, ?_, fun _ => ?_⟩
  · simp [Poller.pollStart, Poller.out, PollClock.start]
  · rintro - (hl | ⟨t, hl⟩) <;> cases hl
  · simp [OnTime, Poller.pollStart, PollClock.start]

theorem CallOk.scanEnd (h : CallOk now x c) (elapsed : Bool) (hpc : x.pc = .scan [])
    (hcalm : x.single = false → c.found = false → c.lacking = false ∧ (0 ≤ x.timeout → c.roused = false)) :
    CallOk now (x.scanEnd elapsed) (move c now x (x.scanEnd elapsed)) := by
  cases hsingle : x.single with
  | true => exact .of_single (by unfold Poller.scanEnd; grind)
  | false =>
    have hfound := h.found hsingle (Or.inl ⟨[], hpc⟩)
    unfold Poller.scanEnd
    dsimp only
    by_cases hnum : x.num = 0
    swap
    · rw [if_pos hnum]
      have hmove : move c now x { x with proc := false, pc := .teardown .ready } = c := by
        unfold move
        rw [hpc]
      rw [hmove]
      refine ⟨h.lacking, ?_, ?_, fun hf => ?_⟩
      · rintro - (⟨l, hl⟩ | ⟨d, events, l, hl⟩) <;> cases hl
      · rintro - (hl | ⟨t, hl⟩) <;> cases hl
      · exact ⟨h.late_le hf, fun _ => hfound.mp hnum, fun h => (by cases h)⟩
    have hnone : c.found = false := by
      rw [← Bool.not_eq_true, ← hfound]
      exact not_not.mpr hnum
    obtain ⟨hlacking, hroused⟩ := hcalm hsingle hnone
    rw [if_neg (not_not.mpr hnum), hsingle, if_neg Bool.false_ne_true]
    cases his : x.istimeout with
    | true =>
      rw [if_pos rfl]
      have hmove : move c now x { x with proc := false, single := false, istimeout := true, pc := .teardown .timeout } =
          c := by
        unfold move
        rw [hpc]
      rw [hmove]
      refine ⟨fun _ => h.lacking hsingle, ?_, ?_, fun hf => ?_⟩
      · rintro - (⟨l, hl⟩ | ⟨d, events, l, hl⟩) <;> cases hl
      · rintro - (hl | ⟨t, hl⟩) <;> cases hl
      · have hfx : Finite x := ⟨hsingle, hf.2⟩
        have ht := h.onTime hfx
        simp only [OnTime, hpc, his, true_iff, forall_const] at ht
        refine ⟨h.late_le hfx, fun h => (by cases h), fun _ => ?_⟩
        rcases ht with ⟨-, -, -, h0⟩ | ⟨-, -, t, hw, hle, -⟩
        · exact Or.inl h0
        · exact Or.inr ⟨t, hw, hle⟩
    | false =>
      rw [if_neg Bool.false_ne_true]
      have hmove : move c now x { x with proc := false, single := false, istimeout := false, pc := .prepare } = c := by
        unfold move
        rw [hpc]
      rw [hmove]
      refine ⟨fun _ => h.lacking hsingle, ?_, fun _ _ => (h.lacking hsingle).trans hlacking, fun hf => ?_⟩
      · rintro - (⟨l, hl⟩ | ⟨d, events, l, hl⟩) <;> cases hl
      · have hfx : Finite x := ⟨hsingle, hf.2⟩
        have ht := h.onTime hfx
        simp only [OnTime, hpc, his, Bool.false_eq_true, false_iff, forall_const] at ht
        rcases ht with ⟨hscans, hlate, hw, h0⟩ | ⟨-, -, t, -, -, hr⟩
        · exact ⟨hscans, hlate, hw, rfl, h0⟩
        · rw [hroused hfx.2] at hr
          cases hr

theorem CallOk.again (h : CallOk now x c) (hx : x.pc = .prepare ∨ x.pc = .readied) (hsingle : x.single = false)
    (hy : y = x.waitEnd)
    (htime : Finite x → ∃ t, c.waited.or (some now) = some t ∧ c.scans = 1 ∧ c.late = 0 ∧
      (y.istimeout = true → t + x.timeout.toNat ≤ now) ∧ (y.istimeout = false → x.triggered = true)) :
    CallOk now y (move c now x y) := by
  have hpc : y.pc = .scan x.fds := by
    rw [hy, Poller.waitEnd, hsingle]
    rfl
  have hmove : move c now x y = nextScan { c with waited := c.waited.or (some now) } now y := by
    unfold move
    rcases hx with hx | hx <;> rw [hx, hpc]
  rw [hmove]
  have herror : y.error = x.error := by
    rw [hy, Poller.waitEnd, hsingle]
    rfl
  have hnum : y.num = 0 := by
    rw [hy, Poller.waitEnd, hsingle]
    rfl
  have htimeout : y.timeout = x.timeout := by
    rw [hy, Poller.waitEnd, hsingle]
    rfl
  have htriggered : y.triggered = x.triggered := by
    rw [hy, Poller.waitEnd, hsingle]
    rfl
  refine ⟨fun _ => herror.trans (h.lacking hsingle), fun _ _ => ?_, ?_, fun hf => ?_⟩
  · simp [hnum, nextScan]
  · simp [hpc]
  · obtain ⟨t, hw, hscans, hlate, hover, hwoken⟩ := htime ⟨hsingle, htimeout ▸ hf.2⟩
    simp only [OnTime, hpc, nextScan, hw, hscans, hlate, htimeout, htriggered]
    refine Or.inr ⟨trivial, ?_, t, rfl, hover, hwoken⟩
    split <;> omega

theorem CallOk.waitTimeout (h : CallOk now x c) (suspended : Bool) (hpc : x.pc = .prepare) :
    CallOk now (x.waitTimeout suspended) (move c now x (x.waitTimeout suspended)) := by
  cases hsingle : x.single with
  | true => exact .of_single (by unfold Poller.waitTimeout Poller.waitEnd; grind)
  | false =>
    unfold Poller.waitTimeout
    by_cases hsleep : x.timeout ≠ 0 ∧ x.triggered = false
    · rw [if_pos hsleep]
      cases suspended with
      | false =>
        rw [if_neg Bool.false_ne_true]
        exact h.ending (by simp [hpc]) rfl (by decide) (by decide) rfl rfl rfl
      | true =>
        rw [if_pos rfl]
        refine ⟨fun _ => ?_, ?_, fun _ _ => h.registered hsingle (Or.inl hpc), fun hf => ?_⟩
        · simp only [move, hpc]
          exact h.lacking hsingle
        · rintro - (⟨l, hl⟩ | ⟨d, events, l, hl⟩) <;> cases hl
        · have hfx : Finite x := ⟨hsingle, hf.2⟩
          have ht := h.onTime hfx
          simp only [OnTime, hpc] at ht
          obtain ⟨hscans, hlate, hw, his, h0⟩ := ht
          have hpos : 0 < x.timeout := lt_of_le_of_ne hfx.2 (Ne.symm h0)
          simp only [OnTime, move, hpc, decide_eq_true hpos, rtTickFromMillisecond_eq, hw, Option.none_or, if_true]
          exact ⟨hscans, hlate, trivial, his, trivial, now, rfl, rfl, by omega⟩
    · rw [if_neg hsleep]
      refine h.again (Or.inl hpc) hsingle rfl fun hf => ?_
      have ht := h.onTime hf
      simp only [OnTime, hpc] at ht
      obtain ⟨hscans, hlate, hw, his, h0⟩ := ht
      have htrig : x.triggered = true := by
        cases htrig : x.triggered with
        | true => rfl
        | false => exact absurd ⟨h0, htrig⟩ hsleep
      refine ⟨now, by rw [hw]; rfl, hscans, hlate, fun hover => ?_, fun _ => htrig⟩
      simp [Poller.waitEnd, hsingle, his, htrig] at hover

theorem CallOk.resumed (h : CallOk now x c) (hpc : x.pc = .readied) :
    CallOk now x.resumed (move c now x x.resumed) := by
  cases hsingle : x.single with
  | true => exact .of_single (by unfold Poller.resumed Poller.waitEnd; grind)
  | false =>
    unfold Poller.resumed
    dsimp only
    by_cases herr : x.err = .eintr
    · rw [if_pos herr]
      exact h.ending (by simp [hpc]) rfl (by decide) (by decide) rfl rfl rfl
    · rw [if_neg herr]
      have hawake : CallOk now { x with sleeping := false } c :=
        h.same rfl rfl rfl rfl rfl rfl (Or.inr ⟨rfl, rfl⟩) fun _ _ => rfl
      have hmove : move c now x (Poller.waitEnd { x with sleeping := false }) =
          move c now { x with sleeping := false } (Poller.waitEnd { x with sleeping := false }) := rfl
      rw [hmove]
      refine hawake.again (Or.inr hpc) hsingle rfl fun hf => ?_
      have ht := h.onTime hf
      simp only [OnTime, hpc] at ht
      obtain ⟨hscans, hlate, his, t, hw, hready⟩ := ht
      refine ⟨t, by rw [hw]; rfl, hscans, hlate, fun hover => ?_, fun hwoken => ?_⟩
      · rcases hready with htrig | heintr | hle
        · simp [Poller.waitEnd, hsingle, his, htrig] at hover
        · exact absurd heintr herr
        · exact hle
      · simpa [Poller.waitEnd, hsingle, his] using hwoken

theorem CallOk.signal {timer : Bool} (h : CallOk now x c) (hpc : x.pc = .suspended timer) :
    CallOk now { x with pc := .readied } (move c now x { x with pc := .readied }) := by
  have hmove : move c now x { x with pc := .readied } = c := by
    unfold move
    rw [hpc]
  rw [hmove]
  refine ⟨h.lacking, ?_, ?_, fun hf => ?_⟩
  · rintro - (⟨l, hl⟩ | ⟨d, events, l, hl⟩) <;> cases hl
  · rintro - (hl | ⟨t, hl⟩) <;> cases hl
  · have ht := h.onTime hf
    simp only [OnTime, hpc] at ht
    obtain ⟨hscans, hlate, -, his, herr, t, hw, -⟩ := ht
    simp only [OnTime]
    exact ⟨hscans, hlate, his, t, hw, Or.inr (Or.inl herr)⟩

theorem CallOk.remove {r : PollResult} (h : CallOk now x c) (hx : x.pc = .teardown r)
    (hy : y.pc = .teardown r ∨ y.pc = .done r) (hsingle : y.single = x.single) (htimeout : y.timeout = x.timeout)
    (herror : y.error = x.error) : CallOk now y (move c now x y) := by
  have hmove : move c now x y = c := by
    unfold move
    rcases hy with hy | hy <;> rw [hx, hy]
  rw [hmove]
  refine ⟨?_, ?_, ?_, fun hf => ?_⟩
  · rw [hsingle, herror]
    exact h.lacking
  · rcases hy with hy | hy <;> rintro - (⟨l, hl⟩ | ⟨d, events, l, hl⟩) <;> simp [hy] at hl
  · rcases hy with hy | hy <;> simp [hy]
  · rw [Finite, hsingle, htimeout] at hf
    have ht := h.onTime hf
    unfold OnTime at ht ⊢
    rw [htimeout]
    rcases hy with hy | hy <;> simpa only [hx, hy] using ht

end call

section run

variable {s s' : TimedPoll} {c : PollClock} {sys sys' : PollSys} {now p : ℕ} {clock : ℕ → PollClock} {e : PollEvent}

/-- A scan of `poll` that finds no event has got memory for its registrations, and no wake-up had come when it began
if the call has a timeout. -/
def Calm (sys : PollSys) (clock : ℕ → PollClock) : PollEvent → Prop
  | .scan p _ _ =>
    (sys.poller p).pc = .scan [] → (sys.poller p).single = false → (clock p).found = false →
      (clock p).lacking = false ∧ (0 ≤ (sys.poller p).timeout → (clock p).roused = false)
  | _ => True

theorem CallOk.setPoller {x : Poller} (h : ∀ q, CallOk now (sys.poller q) (clock q))
    (hp : CallOk now x (move (observe sys p (clock p) e) now (sys.poller p) x))
    (hobserve : ∀ q, q ≠ p → observe sys q (clock q) e = clock q) (q : ℕ) :
    CallOk now ((sys.setPoller p x).poller q)
      (move (observe sys q (clock q) e) now (sys.poller q) ((sys.setPoller p x).poller q)) := by
  by_cases hq : q = p
  · subst hq
    rwa [setPoller_self]
  · rw [setPoller_of_ne x hq, move_of_pc_eq _ _ rfl, hobserve q hq]
    exact h q

theorem CallOk.frame (h : ∀ q, CallOk now (sys.poller q) (clock q)) (hpoller : sys'.poller = sys.poller)
    (hobserve : ∀ q, observe sys q (clock q) e = clock q) (q : ℕ) :
    CallOk now (sys'.poller q) (move (observe sys q (clock q) e) now (sys.poller q) (sys'.poller q)) := by
  rw [hpoller, move_of_pc_eq _ _ rfl, hobserve q]
  exact h q

theorem observe_scan_of_ne {alloc elapsed : Bool} {q : ℕ} (h : q ≠ p) :
    observe sys q c (.scan p alloc elapsed) = c := if_pos (Ne.symm h)

theorem observe_report_of_ne {q : ℕ} (h : q ≠ p) : observe sys q c (.report p) = c := if_pos (Ne.symm h)

theorem scanMask_cases (x : Poller) (mask : PollMask) (rest : List PollFd) :
    (x.scanMask mask rest).pc = .scan rest ∧ (x.scanMask mask rest).single = x.single ∧
      (x.scanMask mask rest).timeout = x.timeout ∧ (x.scanMask mask rest).istimeout = x.istimeout ∧
      (x.scanMask mask rest).error = x.error ∧ (x.scanMask mask rest).nodes = x.nodes := by
  unfold Poller.scanMask
  split <;> exact ⟨rfl, rfl, rfl, rfl, rfl, rfl⟩

theorem scanMask_num (x : Poller) (mask : PollMask) (rest : List PollFd) (h : x.num ≠ 0 ↔ c.found = true) :
    (x.scanMask mask rest).num ≠ 0 ↔ (c.found || mask != 0) = true := by
  unfold Poller.scanMask
  by_cases hmask : mask = 0
  · simpa [hmask] using h
  · rw [if_pos hmask]
    exact iff_of_true (Nat.succ_ne_zero _) (by simpa using Or.inr hmask)

theorem CallOk.scanMask {x : Poller} {mask : PollMask} {rest : List PollFd} {c' : PollClock} (h : CallOk now x c)
    (hx : InScan x) (hc : c' = { c with found := c.found || mask != 0 }) :
    CallOk now (x.scanMask mask rest) (move c' now x (x.scanMask mask rest)) := by
  obtain ⟨hpc, hsingle, htimeout, his, herror, -⟩ := scanMask_cases x mask rest
  refine h.scanning hx (Or.inl ⟨rest, hpc⟩) hsingle htimeout his ?_ ?_ ?_
  · rw [hc]
  · rw [herror, hc]
    exact id
  · rw [hc]
    exact scanMask_num x mask rest

theorem rtPollAdd_poller (s : PollSys) (p d : ℕ) (key : PollMask) (alloc : Bool) :
    ∃ x, (s.rtPollAdd p d key alloc).poller = Function.update s.poller p x ∧ x.single = (s.poller p).single ∧
      x.timeout = (s.poller p).timeout ∧ x.istimeout = (s.poller p).istimeout ∧ x.num = (s.poller p).num ∧
      x.error = ((s.poller p).error || ((s.poller p).proc && !alloc)) ∧
      x.nodes.length ≤ (s.poller p).nodes.length + 1 := by
  unfold PollSys.rtPollAdd
  by_cases hproc : (s.poller p).proc = true
  · rw [if_pos hproc]
    cases alloc with
    | true => exact ⟨_, rfl, rfl, rfl, rfl, rfl, by simp, le_rfl⟩
    | false => exact ⟨_, rfl, rfl, rfl, rfl, rfl, by simp [hproc], Nat.le_succ _⟩
  · rw [if_neg hproc]
    exact ⟨_, (Function.update_eq_self p s.poller).symm, rfl, rfl, rfl, rfl, by simp [hproc], Nat.le_succ _⟩

theorem CallOk.scanFd {fd : PollFd} {rest : List PollFd} (h : ∀ q, CallOk now (sys.poller q) (clock q))
    (alloc elapsed : Bool) (hpc : (sys.poller p).pc = .scan (fd :: rest)) (q : ℕ) :
    CallOk now ((sys.scanFd p alloc rest fd).poller q)
      (move (observe sys q (clock q) (.scan p alloc elapsed)) now (sys.poller q)
        ((sys.scanFd p alloc rest fd).poller q)) := by
  have hscan : InScan (sys.poller p) := Or.inl ⟨_, hpc⟩
  cases fd with
  | ignored | invalid | always events =>
    refine CallOk.setPoller h ((h p).scanMask hscan ?_) (fun q hq => observe_scan_of_ne hq) q
    simp [observe, hpc]
  | driver d events =>
    obtain ⟨x, hx, hsingle, htimeout, his, hnum, herror, -⟩ := rtPollAdd_poller sys p d (pollInterest events) alloc
    have hset : (sys.scanFd p alloc rest (.driver d events)).poller =
        (sys.setPoller p { x with pc := .report d events rest }).poller := by
      simp only [PollSys.scanFd, PollSys.setPc, PollSys.setPoller, hx, Function.update_self, Function.update_idem]
    have hobserve : observe sys p (clock p) (.scan p alloc elapsed) =
        { clock p with lacking := (clock p).lacking || ((sys.poller p).proc && !alloc) } := by
      simp [observe, hpc]
    rw [hset]
    refine CallOk.setPoller (x := { x with pc := .report d events rest }) h ?_ (fun q hq => observe_scan_of_ne hq) q
    rw [hobserve]
    refine (h p).scanning hscan (Or.inr ⟨_, _, _, rfl⟩) hsingle htimeout his rfl (fun hl => ?_) fun hf => ?_
    · change x.error = _
      rw [herror, hl]
    · change x.num ≠ 0 ↔ _
      rw [hnum]
      exact hf

theorem CallOk.act (h : ∀ q, CallOk now (sys.poller q) (clock q)) (hinv : sys.Inv) (hcalm : Calm sys clock e)
    (hs : sys.step e = some sys') (q : ℕ) (hexpire : ∀ p, e ≠ .expire p) :
    CallOk now (sys'.poller q) (move (observe sys q (clock q) e) now (sys.poller q) (sys'.poller q)) := by
  cases e with
  | arrive d bits | consume d bits | enter d t | leave d t =>
    obtain rfl := Option.some.inj hs
    exact CallOk.frame h rfl (fun _ => rfl) q
  | wakeup d key =>
    obtain rfl := Option.some.inj hs
    exact (h q).later (wakeOne_later q)
  | wakeupAll d key =>
    obtain rfl := Option.some.inj hs
    exact (h q).later (wakeAll_later q)
  | poll p fds timeout =>
    simp only [PollSys.step, Option.ite_none_right_eq_some, Option.some.injEq] at hs
    obtain ⟨hpc, rfl⟩ := hs
    exact CallOk.setPoller h (.pollStart fds timeout hpc) (fun _ _ => rfl) q
  | pollWait p d events timeout =>
    simp only [PollSys.step, Option.ite_none_right_eq_some, Option.some.injEq] at hs
    obtain ⟨-, rfl⟩ := hs
    exact CallOk.setPoller (x := .pollWaitStart d events timeout) h (.of_single rfl) (fun _ _ => rfl) q
  | clear p =>
    simp only [PollSys.step, Option.ite_none_right_eq_some, Option.some.injEq] at hs
    obtain ⟨hpc, rfl⟩ := hs
    refine CallOk.setPoller (x := { sys.poller p with triggered := false, num := 0, pc := .scan (sys.poller p).fds }) h
      (.of_single ?_) (fun _ _ => rfl) q
    exact (hinv.ok p).loop hpc
  | scan p alloc elapsed =>
    simp only [PollSys.step] at hs
    split at hs
    · rename_i hpc
      obtain rfl := Option.some.inj hs
      have hobserve : observe sys p (clock p) (.scan p alloc elapsed) = clock p := by simp [observe, hpc]
      refine CallOk.setPoller h ?_ (fun q hq => observe_scan_of_ne hq) q
      rw [hobserve]
      exact (h p).scanEnd elapsed hpc (hcalm hpc)
    · rename_i fd rest hpc
      obtain rfl := Option.some.inj hs
      exact CallOk.scanFd h alloc elapsed hpc q
    · cases hs
  | report p =>
    simp only [PollSys.step] at hs
    split at hs
    · rename_i d events rest hpc
      obtain rfl := Option.some.inj hs
      refine CallOk.setPoller h ((h p).scanMask (Or.inr ⟨_, _, _, hpc⟩) ?_) (fun q hq => observe_report_of_ne hq) q
      simp [observe, hpc]
    · cases hs
  | fail p =>
    simp only [PollSys.step] at hs
    split at hs
    · rename_i d events rest hpc
      obtain rfl := Option.some.inj hs
      refine CallOk.setPoller (x := { sys.poller p with proc := false, pc := .teardown .error }) h ?_ (fun _ _ => rfl) q
      exact (h p).ending (by simp [hpc]) rfl (by decide) (by decide) rfl rfl rfl
    · cases hs
  | wait p suspended =>
    simp only [PollSys.step, Option.ite_none_right_eq_some, Option.some.injEq] at hs
    obtain ⟨hpc, rfl⟩ := hs
    exact CallOk.setPoller h ((h p).waitTimeout suspended hpc) (fun _ _ => rfl) q
  | expire p => exact absurd rfl (hexpire p)
  | signal p =>
    simp only [PollSys.step] at hs
    split at hs
    · rename_i timer hpc
      obtain rfl := Option.some.inj hs
      exact CallOk.setPoller h ((h p).signal hpc) (fun _ _ => rfl) q
    · cases hs
  | resume p =>
    simp only [PollSys.step, Option.ite_none_right_eq_some, Option.some.injEq] at hs
    obtain ⟨hpc, rfl⟩ := hs
    exact CallOk.setPoller h ((h p).resumed hpc) (fun _ _ => rfl) q
  | remove p =>
    simp only [PollSys.step] at hs
    split at hs
    · rename_i result hpc _
      obtain rfl := Option.some.inj hs
      refine CallOk.setPoller (x := { sys.poller p with pc := .done result }) h ?_ (fun _ _ => rfl) q
      exact (h p).remove hpc (Or.inr rfl) rfl rfl rfl
    · rename_i result d key nodes hpc _
      obtain rfl := Option.some.inj hs
      refine CallOk.setPoller (x := { sys.poller p with nodes := nodes }) h ?_ (fun _ _ => rfl) q
      exact (h p).remove hpc (Or.inl hpc) rfl rfl rfl
    · cases hs

/-! The end of a call. -/

def caller : PollEvent → Option ℕ
  | .poll p _ _ | .pollWait p _ _ _ | .clear p | .scan p _ _ | .report p | .fail p | .wait p _ | .resume p
  | .remove p => some p
  | .arrive _ _ | .consume _ _ | .wakeup _ _ | .wakeupAll _ _ | .enter _ _ | .leave _ _ | .expire _ | .signal _ => none

def left (x : Poller) : ℕ :=
  match x.pc with
  | .scan rest => 3 * rest.length + x.nodes.length + 2
  | .report _ _ rest => 3 * rest.length + x.nodes.length + 3
  | .teardown _ => x.nodes.length + 1
  | _ => 0

def Ending (x : Poller) : Prop := InScan x ∨ (∃ r, x.pc = .teardown r) ∨ ∃ r, x.pc = .done r

theorem CallOk.ending_of_late {x : Poller} (h : CallOk now x c) (hf : Finite x) (hlate : 1 ≤ c.late) : Ending x := by
  have ht := h.onTime hf
  unfold OnTime at ht
  cases hpc : x.pc with
  | scan l => exact Or.inl (Or.inl ⟨l, hpc⟩)
  | report d events l => exact Or.inl (Or.inr ⟨d, events, l, hpc⟩)
  | teardown r => exact Or.inr (Or.inl ⟨r, hpc⟩)
  | done r => exact Or.inr (Or.inr ⟨r, hpc⟩)
  | clear => simp only [hpc] at ht
  | _ =>
    simp only [hpc] at ht
    omega

theorem CallOk.scanEnd_of_late {x : Poller} (h : CallOk now x c) (elapsed : Bool) (hf : Finite x) (hlate : 1 ≤ c.late)
    (hpc : x.pc = .scan []) (hcalm : c.found = false → c.roused = false) :
    (x.scanEnd elapsed).pc = .teardown (if c.found then .ready else .timeout) := by
  have hfound := h.found hf.1 (Or.inl ⟨[], hpc⟩)
  have ht := h.onTime hf
  simp only [OnTime, hpc] at ht
  unfold Poller.scanEnd
  dsimp only
  by_cases hnum : x.num = 0
  · have hnone : c.found = false := by
      rw [← Bool.not_eq_true, ← hfound]
      exact not_not.mpr hnum
    have his : x.istimeout = true := by
      rcases ht with ⟨-, h0, -⟩ | ⟨-, -, t, -, -, hr⟩
      · omega
      · by_contra hno
        have hroused := hr (by simpa using hno)
        rw [hcalm hnone] at hroused
        cases hroused
    rw [if_neg (not_not.mpr hnum), hf.1, if_neg Bool.false_ne_true, his, if_pos rfl, hnone]
    rfl
  · rw [if_pos hnum, hfound.mp hnum]
    rfl

theorem left_scanMask (x : Poller) (mask : PollMask) (rest : List PollFd) :
    left (x.scanMask mask rest) = 3 * rest.length + x.nodes.length + 2 := by
  obtain ⟨hpc, -, -, -, -, hnodes⟩ := scanMask_cases x mask rest
  unfold left
  rw [hpc, hnodes]

theorem left_lt (h : CallOk now (sys.poller p) (clock p)) (hf : Finite (sys.poller p)) (hlate : 1 ≤ (clock p).late)
    (hcalm : Calm sys clock e) (hcaller : caller e = some p) (hs : sys.step e = some sys') :
    left (sys'.poller p) < left (sys.poller p) := by
  have hending := h.ending_of_late hf hlate
  have hno {pc : PollPc} (hpc : (sys.poller p).pc = pc)
      (hout : pc = .out ∨ pc = .clear ∨ pc = .prepare ∨ pc = .readied) : False := by
    rcases hending with (⟨l, hl⟩ | ⟨d, events, l, hl⟩) | ⟨r, hl⟩ | ⟨r, hl⟩ <;> rw [hl] at hpc <;>
      rcases hout with rfl | rfl | rfl | rfl <;> cases hpc
  cases e with
  | arrive d bits | consume d bits | enter d t | leave d t | wakeup d key | wakeupAll d key | expire q | signal q =>
    cases hcaller
  | poll q fds timeout | pollWait q d events timeout =>
    cases hcaller
    simp only [PollSys.step, Option.ite_none_right_eq_some] at hs
    exact (hno hs.1 (Or.inl rfl)).elim
  | clear q =>
    cases hcaller
    simp only [PollSys.step, Option.ite_none_right_eq_some] at hs
    exact (hno hs.1 (Or.inr (Or.inl rfl))).elim
  | wait q suspended =>
    cases hcaller
    simp only [PollSys.step, Option.ite_none_right_eq_some] at hs
    exact (hno hs.1 (Or.inr (Or.inr (Or.inl rfl)))).elim
  | resume q =>
    cases hcaller
    simp only [PollSys.step, Option.ite_none_right_eq_some] at hs
    exact (hno hs.1 (Or.inr (Or.inr (Or.inr rfl)))).elim
  | scan q alloc elapsed =>
    cases hcaller
    simp only [PollSys.step] at hs
    split at hs
    · rename_i hpc
      obtain rfl := Option.some.inj hs
      have hend := h.scanEnd_of_late elapsed hf hlate hpc fun hnone => (hcalm hpc hf.1 hnone).2 hf.2
      have hnodes : ((sys.poller p).scanEnd elapsed).nodes = (sys.poller p).nodes := by
        unfold Poller.scanEnd
        dsimp only
        split_ifs <;> rfl
      rw [setPoller_self, left, left, hend, hpc, hnodes]
      simp
    · rename_i fd rest hpc
      obtain rfl := Option.some.inj hs
      cases fd with
      | driver d events =>
        obtain ⟨x, hx, -, -, -, -, -, hnodes⟩ := rtPollAdd_poller sys p d (pollInterest events) alloc
        have hset : (sys.scanFd p alloc rest (.driver d events)).poller p = { x with pc := .report d events rest } := by
          simp only [PollSys.scanFd, PollSys.setPc, PollSys.setPoller, hx, Function.update_self]
        rw [hset]
        simp only [left, hpc, List.length_cons]
        omega
      | _ =>
        simp only [PollSys.scanFd, setPoller_self, left_scanMask]
        simp only [left, hpc, List.length_cons]
        omega
    · cases hs
  | report q =>
    cases hcaller
    simp only [PollSys.step] at hs
    split at hs
    · rename_i d events rest hpc
      obtain rfl := Option.some.inj hs
      simp only [setPoller_self, left_scanMask]
      simp only [left, hpc]
      omega
    · cases hs
  | fail q =>
    cases hcaller
    simp only [PollSys.step] at hs
    split at hs
    · rename_i d events rest hpc
      obtain rfl := Option.some.inj hs
      simp only [setPoller_self, left, hpc]
      omega
    · cases hs
  | remove q =>
    cases hcaller
    simp only [PollSys.step] at hs
    split at hs
    · rename_i result hpc hnodes
      obtain rfl := Option.some.inj hs
      simp only [PollSys.setPc, setPoller_self, left, hpc]
      omega
    · rename_i result d key nodes hpc hnodes
      obtain rfl := Option.some.inj hs
      simp only [left, PollSys.setPoller, Function.update_self, hpc, hnodes, List.length_cons]
      omega
    · cases hs

theorem Ending.step {x : Poller} (h : Ending x) (hx : sys.poller p = x) (hdone : ∀ r, x.pc ≠ .done r) :
    ∃ e, caller e = some p ∧ (∀ sys, timerFits sys e = true) ∧ (∀ q, e ≠ .expire q) ∧ (sys.step e).isSome = true := by
  subst hx
  rcases h with (⟨l, hl⟩ | ⟨d, events, l, hl⟩) | ⟨r, hl⟩ | ⟨r, hl⟩
  · refine ⟨.scan p true true, rfl, fun _ => rfl, fun _ h => (by cases h), ?_⟩
    cases l <;> simp [PollSys.step, hl]
  · exact ⟨.report p, rfl, fun _ => rfl, fun _ h => (by cases h), by simp [PollSys.step, hl]⟩
  · refine ⟨.remove p, rfl, fun _ => rfl, fun _ h => (by cases h), ?_⟩
    cases hnodes : (sys.poller p).nodes <;> simp [PollSys.step, hl, hnodes]
  · exact absurd hl (hdone r)

/-! The runs. -/

theorem expireAll_inv (h : sys.Inv) (poller : ℕ → Poller)
    (hp : ∀ p, poller p = sys.poller p ∨
      ∃ timer err, (sys.poller p).pc = .suspended timer ∧ poller p = { sys.poller p with err := err, pc := .readied }) :
    PollSys.Inv { sys with poller := poller } := by
  have hinv (p : ℕ) : (sys.setPoller p (poller p)).Inv := by
    rcases hp p with hsame | ⟨timer, err, hpc, hready⟩
    · rw [hsame, PollSys.setPoller, Function.update_eq_self]
      exact h
    · rw [hready]
      exact h.ready hpc err
  refine ⟨fun p => ?_, fun p d key hn => ?_, fun p d key i hn hl => ?_, fun p d events hfd => ?_⟩
  · have hok := (hinv p).ok p
    rwa [setPoller_self] at hok
  · have hown := (hinv p).own p d key hn
    rwa [setPoller_self] at hown
  · have hheard := (hinv p).heard p d key i hn ⟨hl.ready, hl.wanted, hl.called, hl.unspent⟩
    rwa [setPoller_self] at hheard
  · have hregistered := (hinv p).registered p d events
    rw [setPoller_self] at hregistered
    exact hregistered hfd

theorem expireDue_cases (tick : ℕ) (x : Poller) (c : PollClock) :
    expireDue tick x c = x ∨
      ∃ timer err, x.pc = .suspended timer ∧ expireDue tick x c = { x with err := err, pc := .readied } := by
  unfold expireDue
  split
  · rename_i hpc _
    split
    · exact Or.inr ⟨true, .etimeout, hpc, rfl⟩
    · exact Or.inl rfl
  · exact Or.inl rfl

structure Ok (s : TimedPoll) : Prop where
  inv : s.sys.Inv
  call : ∀ p, CallOk s.tick (s.sys.poller p) (s.clock p)

theorem Ok.init : init.Ok where
  inv := .init
  call _ := by
    refine ⟨fun _ => rfl, ?_, ?_, fun _ => rfl⟩
    · rintro - (⟨l, hl⟩ | ⟨d, events, l, hl⟩) <;> cases hl
    · rintro - (hl | ⟨t, hl⟩) <;> cases hl

theorem step_act (hs : s.step (.act e) = some s') :
    (∀ p, e ≠ .expire p) ∧ ∃ sys, s.sys.step e = some sys ∧
      s' = { s with
        sys := sys
        clock := fun p => move (observe s.sys p (s.clock p) e) s.tick (s.sys.poller p) (sys.poller p) } := by
  cases e with
  | expire p => cases hs
  | _ =>
    simp only [TimedPoll.step, Option.bind_eq_some_iff, Option.ite_none_right_eq_some, Option.some.injEq] at hs
    obtain ⟨sys, hsys, -, rfl⟩ := hs
    exact ⟨fun _ h => (by cases h), sys, hsys, rfl⟩

/-- `Calm` in a run. -/
def CalmStep (s : TimedPoll) : TimedPollEvent → Prop
  | .tick => True
  | .act e => Calm s.sys s.clock e

theorem Ok.step {e : TimedPollEvent} (h : s.Ok) (hcalm : s.CalmStep e) (hs : s.step e = some s') : s'.Ok := by
  cases e with
  | tick =>
    obtain rfl := Option.some.inj hs
    exact ⟨expireAll_inv h.inv _ fun p => expireDue_cases _ _ _, fun p => (h.call p).expire⟩
  | act e =>
    obtain ⟨hexpire, sys, hsys, rfl⟩ := step_act hs
    exact ⟨h.inv.step hsys, fun p => CallOk.act h.call h.inv hcalm hsys p hexpire⟩

/-- What `poll` owes to the caller `p`. The end of its time is counted from the first time that it found nothing. -/
structure Honours (s : TimedPoll) (p : ℕ) : Prop where
  /-- No sleep without the nodes that are to end it. -/
  registered : (s.sys.poller p).single = false → ∀ timer, (s.sys.poller p).pc = .suspended timer →
    ∀ d events, .driver d events ∈ (s.sys.poller p).fds → .poll p (pollInterest events) ∈ s.sys.waitingList d
  /-- After a wake-up without an event the call is about to sleep. -/
  goesBack : Finite (s.sys.poller p) → (s.sys.poller p).pc = .prepare → 2 ≤ (s.clock p).scans →
    (s.sys.poller p).triggered = false
  /-- A sleep is for the time that remains, and its timer ends it. -/
  sleeps : Finite (s.sys.poller p) → ∀ timer, (s.sys.poller p).pc = .suspended timer →
    ∃ t, (s.clock p).waited = some t ∧ s.tick < t + (s.sys.poller p).timeout.toNat ∧
      ∀ s', s.step .tick = some s' → t + (s.sys.poller p).timeout.toNat ≤ s'.tick → (s'.sys.poller p).pc = .readied
  /-- The scan that is begun after the end of the time is the last one, and the call does not sleep again. -/
  ends : Finite (s.sys.poller p) → (s.clock p).late ≤ 1 ∧ (1 ≤ (s.clock p).late → Ending (s.sys.poller p))
  /-- That scan and the clearing up behind it come to an end. -/
  progress : Finite (s.sys.poller p) → 1 ≤ (s.clock p).late →
    (∀ e s', caller e = some p → s.CalmStep (.act e) → s.step (.act e) = some s' →
      left (s'.sys.poller p) < left (s.sys.poller p)) ∧
    ((∀ r, (s.sys.poller p).pc ≠ .done r) → ∃ e, caller e = some p ∧ (s.step (.act e)).isSome = true)
  /-- The last scan returns 0 when it finds nothing. -/
  returnsZero : Finite (s.sys.poller p) → 1 ≤ (s.clock p).late → (s.sys.poller p).pc = .scan [] →
    ∀ alloc elapsed s', s.CalmStep (.act (.scan p alloc elapsed)) → s.step (.act (.scan p alloc elapsed)) = some s' →
      (s'.sys.poller p).pc = .teardown (if (s.clock p).found then .ready else .timeout)
  returns : Finite (s.sys.poller p) → ∀ r, (s.sys.poller p).pc = .done r →
    (r = .ready → (s.clock p).found = true) ∧ (r = .timeout → (s.sys.poller p).timeout = 0 ∨
      ∃ t, (s.clock p).waited = some t ∧ t + (s.sys.poller p).timeout.toNat ≤ s.tick)

theorem Ok.honours (h : s.Ok) (p : ℕ) : s.Honours p where
  registered hsingle timer hpc d events hfd :=
    h.inv.node_of_suspended hpc hfd hsingle ((h.call p).registered hsingle (Or.inr ⟨timer, hpc⟩))
  goesBack hf hpc htwo := by
    have ht := (h.call p).onTime hf
    simp only [OnTime, hpc] at ht
    omega
  sleeps hf timer hpc := by
    have ht := (h.call p).onTime hf
    simp only [OnTime, hpc] at ht
    obtain ⟨-, -, htimer, -, -, t, hw, hclock, hlt⟩ := ht
    refine ⟨t, hw, hlt, fun s' hs hend => ?_⟩
    obtain rfl := Option.some.inj hs
    simp only [expireDue, hpc, htimer, hclock]
    rw [if_pos hend]
  ends hf := ⟨(h.call p).late_le hf, (h.call p).ending_of_late hf⟩
  progress hf hlate := by
    refine ⟨fun e s' hcaller hcalm hs => ?_, fun hdone => ?_⟩
    · obtain ⟨-, sys, hsys, rfl⟩ := step_act hs
      exact left_lt (h.call p) hf hlate hcalm hcaller hsys
    · obtain ⟨e, hcaller, hfits, hexpire, hs⟩ := ((h.call p).ending_of_late hf hlate).step rfl hdone
      obtain ⟨sys, hsys⟩ := Option.isSome_iff_exists.mp hs
      refine ⟨e, hcaller, ?_⟩
      cases e with
      | expire q => exact absurd rfl (hexpire q)
      | _ => simp only [TimedPoll.step, hsys, Option.bind_some, hfits, if_true, Option.isSome_some]
  returnsZero hf hlate hpc alloc elapsed s' hcalm hs := by
    obtain ⟨-, sys, hsys, rfl⟩ := step_act hs
    simp only [PollSys.step, hpc, Option.some.injEq] at hsys
    obtain rfl := hsys
    rw [setPoller_self]
    exact (h.call p).scanEnd_of_late elapsed hf hlate hpc fun hnone => (hcalm hpc hf.1 hnone).2 hf.2
  returns hf r hpc := by
    have ht := (h.call p).onTime hf
    simp only [OnTime, hpc] at ht
    exact ht.2

end run

theorem poll_honours_timeout {es : List TimedPollEvent} {s : TimedPoll} (h : run step init es = some s)
    (hcalm : Meets step CalmStep init es) (p : ℕ) : s.Honours p :=
  Ok.honours (run_invariant_of_meets Ok (fun _ _ _ hi hok hs => hi.step hok hs) h hcalm Ok.init) p

/-- A call of `poll` for `POLLIN` at queue 0 with a timeout of ten ticks that goes to sleep. -/
def sleepTen (alloc : Bool) : List TimedPollEvent :=
  [.act (.poll 0 [.driver 0 1] 10), .act (.scan 0 alloc false), .act (.report 0), .act (.scan 0 true false),
    .act (.wait 0 true)]

/-- One more turn of the loop of `poll_do` that finds nothing. -/
def rescan : List TimedPollEvent :=
  [.act (.scan 0 true false), .act (.report 0), .act (.scan 0 true false), .act (.wait 0 true)]

instance (x : Poller) : Decidable (Finite x) := inferInstanceAs (Decidable (_ ∧ _))

instance decidableCalm (sys : PollSys) (clock : ℕ → PollClock) : ∀ e, Decidable (Calm sys clock e)
  | .scan p _ _ =>
    inferInstanceAs (Decidable ((sys.poller p).pc = .scan [] → (sys.poller p).single = false →
      (clock p).found = false → (clock p).lacking = false ∧ (0 ≤ (sys.poller p).timeout → (clock p).roused = false)))
  | .arrive _ _ | .consume _ _ | .wakeup _ _ | .wakeupAll _ _ | .enter _ _ | .leave _ _ | .poll _ _ _
  | .pollWait _ _ _ _ | .clear _ | .report _ | .fail _ | .wait _ _ | .expire _ | .signal _ | .resume _ | .remove _ =>
    isTrue trivial

instance (s : TimedPoll) : ∀ e, Decidable (s.CalmStep e)
  | .tick => isTrue trivial
  | .act e => decidableCalm s.sys s.clock e

def lastScan : List TimedPollEvent :=
  [.act (.resume 0), .act (.scan 0 true false), .act (.report 0), .act (.scan 0 true false), .act (.remove 0),
    .act (.remove 0)]

theorem poll_honours_timeout_run :
    ∃ s, run step init (sleepTen true ++ List.replicate 10 .tick ++ lastScan) = some s ∧
      (s.sys.poller 0).pc = .done .timeout ∧ s.Honours 0 := by
  have hrun : ((run step init (sleepTen true ++ List.replicate 10 .tick ++ lastScan)).any fun s =>
      (s.sys.poller 0).pc = .done .timeout) = true := by
    decide +kernel
  obtain ⟨s, hs, hp⟩ := (Option.any_eq_true _ _).mp hrun
  exact ⟨s, hs, of_decide_eq_true hp, poll_honours_timeout hs (by decide +kernel) 0⟩

/-- A wake-up whose event somebody else takes leaves the call without a sleep for ever after, and a call without
memory for its registration sleeps. -/
theorem poll_rescans_without_end :
    (¬ ∀ s, run step init (sleepTen true ++ [.act (.wakeup 0 1), .act (.resume 0)] ++ rescan ++
        List.replicate 20 .tick ++ rescan ++ rescan ++ rescan) = some s → s.Honours 0) ∧
      ¬ ∀ s, run step init (sleepTen false) = some s → s.Honours 0 := by
  constructor
  · intro h
    have hrun : ((run step init (sleepTen true ++ [.act (.wakeup 0 1), .act (.resume 0)] ++ rescan ++
        List.replicate 20 .tick ++ rescan ++ rescan ++ rescan)).any fun s =>
          Finite (s.sys.poller 0) ∧ (s.clock 0).late = 3) = true := by
      decide +kernel
    obtain ⟨s, hs, hp⟩ := (Option.any_eq_true _ _).mp hrun
    obtain ⟨hf, hscans⟩ := of_decide_eq_true hp
    have hle := ((h s hs).ends hf).1
    omega
  · intro h
    have hrun : ((run step init (sleepTen false)).any fun s =>
        (s.sys.poller 0).single = false ∧ (s.sys.poller 0).pc = .suspended true ∧
          .driver 0 1 ∈ (s.sys.poller 0).fds ∧ s.sys.waitingList 0 = []) = true := by
      decide +kernel
    obtain ⟨s, hs, hp⟩ := (Option.any_eq_true _ _).mp hrun
    obtain ⟨hsingle, hpc, hfd, hempty⟩ := of_decide_eq_true hp
    have hregistered := (h s hs).registered hsingle _ hpc 0 1 hfd
    rw [hempty] at hregistered
    cases hregistered

end TimedPoll

end RtSmart
