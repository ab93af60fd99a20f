import RtSmart.Wlan.Bus

/-! The callbacks of the transport under every interleaving. -/

namespace RtSmart

open Lib

/-- No callback is made while another one runs. -/
def Serial : List BusTrace → Prop
  | [] => True
  | .enter _ _ :: l => (∀ t op, l.head? ≠ some (.enter t op)) ∧ Serial l
  | .leave t op _ :: l => l.head? = some (.enter t op) ∧ Serial l

def lastPhase : List BusTrace → BusOp
  | [] => .stop
  | .enter _ .start :: _ => .start
  | .enter _ .stop :: _ => .stop
  | _ :: l => lastPhase l

/-- Start and stop callbacks take turns, and a start comes first. -/
def Alternates : List BusTrace → Prop
  | [] => True
  | e :: l => (∀ t op, e = .enter t op → op = .start ∨ op = .stop → lastPhase l ≠ op) ∧ Alternates l

/-- A start callback has succeeded, and no stop callback has since. -/
def leftStarted : List BusTrace → Bool
  | [] => false
  | .leave _ .start result :: l => result = rtEok || leftStarted l
  | .leave _ .stop result :: l => result ≠ rtEok && leftStarted l
  | _ :: l => leftStarted l

def BusCall.phase : BusCall → Option BusOp
  | .start => some .start
  | .stop => some .stop
  | _ => none

def BusPc.call : BusPc → Option BusCall
  | .idle => none
  | .waiting c _ | .gate c | .callback c _ | .leaving c _ _ => some c

def BusPc.phase (p : BusPc) : Option BusOp :=
  p.call.bind BusCall.phase

/-- The thread holds `tx_lock`. -/
def BusPc.holds : BusPc → Bool
  | .gate _ | .callback .. => true
  | _ => false

def BusState.inStart (state : BusState) : Prop :=
  state = .starting ∨ state = .failed ∨ state = .started

def BusState.inStop (state : BusState) : Prop :=
  state = .stopping ∨ state = .failed

def BusCall.Moves (cfg : BusConfig) (a b : BusState) : BusCall → Prop
  | .start => a = .stopped ∧ b = .starting
  | .stop => (a = .started ∨ a = .suspended ∨ a = .failed) ∧ b = .stopping
  | .suspend => a = .started ∧ cfg.hasSuspend = true ∧ b = .suspended
  | .resume => a = .suspended ∧ b = .starting
  | _ => b = a

def BusPc.Ok (state : BusState) (l : List BusTrace) : BusPc → Prop
  | .waiting .start _ => state.inStart ∧ lastPhase l = .stop
  | .callback .start _ => state.inStart ∧ lastPhase l = .start
  | .leaving .start _ _ => state.inStart ∧ lastPhase l = .start
  | .waiting .stop q => state.inStop ∧ q ≠ .stopped ∧ lastPhase l = .start
  | .callback .stop q => state.inStop ∧ q ≠ .stopped ∧ lastPhase l = .stop
  | .leaving .stop q r => state.inStop ∧ q ≠ .stopped ∧ lastPhase l = .stop ∧ (r = rtEok → leftStarted l = false) ∧
    ∃ t, .leave t .stop r ∈ l
  | .gate c => c.phase = none
  | _ => True

section Trace

variable {l l' : List BusTrace} {cfg : BusConfig} {c : BusCall} {t : ℕ} {op : BusOp} {result : ℤ} {p : BusPc}
  {state state' : BusState}

theorem op_eq_start : cfg.op c = .start ↔ c = .start := by
  cases c with
  | transmitPriority priority data =>
    rw [BusConfig.op]
    split <;> simp
  | _ => simp [BusConfig.op]

theorem op_eq_stop : cfg.op c = .stop ↔ c = .stop := by
  cases c with
  | transmitPriority priority data =>
    rw [BusConfig.op]
    split <;> simp
  | _ => simp [BusConfig.op]

theorem op_ne (hc : c.phase = none) : cfg.op c ≠ .start ∧ cfg.op c ≠ .stop := by
  constructor
  · intro h
    rw [op_eq_start.1 h] at hc
    cases hc
  · intro h
    rw [op_eq_stop.1 h] at hc
    cases hc

theorem lastPhase_enter (h : op ≠ .start ∧ op ≠ .stop) : lastPhase (.enter t op :: l) = lastPhase l := by
  cases op with
  | start => exact absurd rfl h.1
  | stop => exact absurd rfl h.2
  | _ => rfl

theorem leftStarted_enter : leftStarted (.enter t op :: l) = leftStarted l := rfl

theorem leftStarted_leave (h : op ≠ .start ∧ op ≠ .stop) :
    leftStarted (.leave t op result :: l) = leftStarted l := by
  cases op with
  | start => exact absurd rfl h.1
  | stop => exact absurd rfl h.2
  | _ => rfl

theorem Alternates.enter (h : Alternates l) (hop : op ≠ .start ∧ op ≠ .stop) : Alternates (.enter t op :: l) := by
  refine ⟨fun t' op' he h' => ?_, h⟩
  cases he
  cases h' with
  | inl h' => exact absurd h' hop.1
  | inr h' => exact absurd h' hop.2

theorem Alternates.leave (h : Alternates l) : Alternates (.leave t op result :: l) :=
  ⟨fun _ _ he => (by cases he), h⟩

theorem Alternates.phase (h : Alternates l) (hl : lastPhase l ≠ op) : Alternates (.enter t op :: l) := by
  refine ⟨fun t' op' he _ => ?_, h⟩
  cases he
  exact hl

theorem BusPc.Ok.of_none (hp : p.phase = none) (hgate : ∀ c, p = .gate c → c.phase = none) : p.Ok state l := by
  cases p with
  | idle => trivial
  | gate c => exact hgate c rfl
  | waiting c q | callback c q | leaving c q r =>
    cases c with
    | start => cases hp
    | stop => cases hp
    | _ => trivial

theorem BusPc.Ok.keep (h : p.Ok state l) (hlast : lastPhase l' = lastPhase l)
    (hleft : leftStarted l' = leftStarted l) (hsub : ∀ x ∈ l, x ∈ l')
    (hstart : p.phase = some .start → state.inStart → state'.inStart) (hstop : state.inStop → state'.inStop) :
    p.Ok state' l' := by
  cases p with
  | idle => trivial
  | gate c => exact h
  | waiting c q | callback c q =>
    cases c with
    | start => exact ⟨hstart rfl h.1, hlast.trans h.2⟩
    | stop => exact ⟨hstop h.1, h.2.1, hlast.trans h.2.2⟩
    | _ => trivial
  | leaving c q r =>
    cases c with
    | start => exact ⟨hstart rfl h.1, hlast.trans h.2⟩
    | stop =>
      obtain ⟨hin, hq, hp, hr, t, ht⟩ := h
      exact ⟨hstop hin, hq, hlast.trans hp, fun h => hleft.trans (hr h), t, hsub _ ht⟩
    | _ => trivial

theorem inStart_ne_stopped (h : state.inStart) : state ≠ .stopped := by
  rcases h with rfl | rfl | rfl <;> simp

theorem inStop_ne_stopped (h : state.inStop) : state ≠ .stopped := by
  rcases h with rfl | rfl <;> simp

theorem BusPc.Ok.ne_stopped (h : p.Ok state l) (hp : p.phase ≠ none) : state ≠ .stopped := by
  cases p with
  | idle => exact absurd rfl hp
  | gate c => exact absurd h hp
  | waiting c q | callback c q | leaving c q r =>
    cases c with
    | start => exact inStart_ne_stopped h.1
    | stop => exact inStop_ne_stopped h.1
    | _ => exact absurd rfl hp

theorem BusPc.Ok.gate_phase (h : p.Ok state l) : ∀ c, p = .gate c → c.phase = none := by
  rintro c rfl
  exact h

section Settle

variable {q : BusState}

theorem settle_stop (hq : q ≠ .stopped) (hstate : state.inStop)
    (h : (BusCall.stop.settle q result state).1 = .stopped) : result = rtEok := by
  by_contra hr
  simp only [BusCall.settle, if_neg hr] at h
  split_ifs at h
  · exact hq h
  · exact inStop_ne_stopped hstate h

theorem settle_start (hstate : state.inStart) (h : (BusCall.start.settle q result state).2 = rtEok) :
    (BusCall.start.settle q result state).1 = .started := by
  rcases hstate with rfl | rfl | rfl
  · exact if_pos (by simpa [BusCall.settle] using h)
  · by_cases hr : result = rtEok
    · simp [BusCall.settle, hr] at h
    · simp [BusCall.settle, hr] at h
  · rfl

theorem settle_inStart (hc : c ≠ .stop) (hstate : state.inStart) : (c.settle q result state).1.inStart := by
  by_cases hr : result = rtEok
  · rcases hstate with rfl | rfl | rfl <;> cases c <;> simp_all [BusCall.settle, BusState.inStart]
  · rcases hstate with rfl | rfl | rfl <;> cases c <;> simp_all [BusCall.settle, BusState.inStart]

theorem settle_inStop (hc : c ≠ .stop) (hstate : state.inStop) : (c.settle q result state).1.inStop := by
  rcases hstate with rfl | rfl <;> cases c <;> simp_all [BusCall.settle, BusState.inStop]

theorem settle_stopped (hc : c ≠ .stop) : (c.settle q result state).1 = .stopped ↔ state = .stopped := by
  by_cases hr : result = rtEok
  · cases state <;> cases c <;> simp_all [BusCall.settle]
  · cases state <;> cases c <;> simp_all [BusCall.settle]

end Settle

end Trace

namespace Bus

variable {cfg : BusConfig} {s s' : Bus} {t : ℕ} {c : BusCall} {p q : BusPc} {previous : BusState} {result : ℤ}
  {e : BusEvent}

/-- The callback that runs is the one of the thread that holds `tx_lock`. -/
structure Inv (cfg : BusConfig) (s : Bus) : Prop where
  lock : ∀ t, (s.pc t).holds = true ↔ s.txLock = some t
  serial : Serial s.trace
  inside : ∀ t op, s.trace.head? = some (.enter t op) ↔ ∃ c q, s.pc t = .callback c q ∧ op = cfg.op c

theorem inv_init : Inv cfg init where
  lock t := ⟨fun h => (by cases h), fun h => (by cases h)⟩
  serial := trivial
  inside t op := ⟨fun h => (by cases h), fun ⟨c, q, h, _⟩ => (by cases h)⟩

theorem holds_callback (h : s.pc t = .callback c previous) : (s.pc t).holds = true := by
  rw [h]
  rfl

theorem Inv.outside (h : Inv cfg s) (hs : (s.pc t).holds = false) (hp : p.holds = false)
    (hpc : s'.pc = Function.update s.pc t p) (hlock : s'.txLock = s.txLock) (htrace : s'.trace = s.trace) :
    Inv cfg s' where
  lock u := by
    rw [hpc, hlock]
    by_cases hu : u = t
    · rw [hu, Function.update_self, hp, ← h.lock t, hs]
    · rw [Function.update_of_ne hu]
      exact h.lock u
  serial := htrace ▸ h.serial
  inside u op := by
    rw [hpc, htrace, h.inside u op]
    by_cases hu : u = t
    · rw [hu, Function.update_self]
      constructor
      · rintro ⟨c, q, hc, -⟩
        rw [holds_callback hc] at hs
        cases hs
      · rintro ⟨c, q, rfl, -⟩
        cases hp
    · rw [Function.update_of_ne hu]

theorem Inv.enter (h : Inv cfg s) (hfree : ∀ u, u ≠ t → (s.pc u).holds = false)
    (ht : ∀ c q, s.pc t ≠ .callback c q) : Inv cfg (s.enter cfg t c previous) := by
  have hnone : ∀ u c q, s.pc u ≠ .callback c q := by
    intro u c q hu
    by_cases hut : u = t
    · exact ht c q (hut ▸ hu)
    · have := hfree u hut
      rw [holds_callback hu] at this
      cases this
  constructor
  · intro u
    rw [Bus.enter]
    dsimp only [setPc]
    by_cases hu : u = t
    · rw [hu, Function.update_self]
      exact ⟨fun _ => rfl, fun _ => rfl⟩
    · rw [Function.update_of_ne hu, hfree u hu]
      exact ⟨fun h => (by cases h), fun h => absurd (Option.some.inj h).symm hu⟩
  · refine ⟨fun u op hu => ?_, h.serial⟩
    obtain ⟨c, q, hc, -⟩ := (h.inside u op).1 hu
    exact hnone u c q hc
  · intro u op
    rw [Bus.enter]
    dsimp only [setPc, List.head?_cons]
    by_cases hu : u = t
    · rw [hu, Function.update_self]
      constructor
      · intro he
        cases he
        exact ⟨c, previous, rfl, rfl⟩
      · rintro ⟨c', q, hc, rfl⟩
        cases hc
        rfl
    · rw [Function.update_of_ne hu]
      constructor
      · intro he
        cases he
        exact absurd rfl hu
      · rintro ⟨c', q, hc, -⟩
        exact absurd hc (hnone u c' q)

theorem Inv.lockGate (h : Inv cfg s) (hlock : s.txLock = none) :
    Inv cfg { s.setPc t (.gate c) with txLock := some t } := by
  have hfree : ∀ u, (s.pc u).holds = false := by
    intro u
    rw [Bool.eq_false_iff, ne_eq, h.lock u, hlock]
    exact fun he => (by cases he)
  have hnone : ∀ u op, s.trace.head? ≠ some (.enter u op) := by
    intro u op hu
    obtain ⟨c, q, hc, -⟩ := (h.inside u op).1 hu
    have := hfree u
    rw [holds_callback hc] at this
    cases this
  constructor
  · intro u
    dsimp only [setPc]
    by_cases hu : u = t
    · rw [hu, Function.update_self]
      exact ⟨fun _ => rfl, fun _ => rfl⟩
    · rw [Function.update_of_ne hu, hfree u]
      exact ⟨fun h => (by cases h), fun h => absurd (Option.some.inj h).symm hu⟩
  · exact h.serial
  · intro u op
    refine ⟨fun he => absurd he (hnone u op), ?_⟩
    rintro ⟨c', q, hc, -⟩
    dsimp only [setPc] at hc
    by_cases hu : u = t
    · rw [hu, Function.update_self] at hc
      cases hc
    · rw [Function.update_of_ne hu] at hc
      have := hfree u
      rw [holds_callback hc] at this
      cases this

theorem Inv.release (h : Inv cfg s) (hlock : s.txLock = some t) (hp : p.holds = false)
    (hpc : s'.pc = Function.update s.pc t p) (htx : s'.txLock = none) (hserial : Serial s'.trace)
    (htrace : ∀ u op, s'.trace.head? ≠ some (.enter u op)) : Inv cfg s' := by
  have hother : ∀ u, u ≠ t → (s.pc u).holds = false := by
    intro u hu
    rw [Bool.eq_false_iff, ne_eq, h.lock u, hlock]
    exact fun he => hu (Option.some.inj he).symm
  constructor
  · intro u
    rw [hpc, htx]
    by_cases hu : u = t
    · rw [hu, Function.update_self, hp]
      exact ⟨fun h => (by cases h), fun h => (by cases h)⟩
    · rw [Function.update_of_ne hu, hother u hu]
      exact ⟨fun h => (by cases h), fun h => (by cases h)⟩
  · exact hserial
  · intro u op
    refine ⟨fun he => absurd he (htrace u op), ?_⟩
    rintro ⟨c, q, hc, -⟩
    rw [hpc] at hc
    by_cases hu : u = t
    · rw [hu, Function.update_self] at hc
      rw [hc] at hp
      cases hp
    · rw [Function.update_of_ne hu] at hc
      have := hother u hu
      rw [holds_callback hc] at this
      cases this

theorem call_cases (s : Bus) (cfg : BusConfig) (t : ℕ) (c : BusCall) :
    (∃ r, s.call cfg t c = s.ret t c r ∧ (c = .start → r = rtEok → s.state = .started)) ∨
      ∃ state, s.call cfg t c = { s.setPc t (.waiting c s.state) with state := state } ∧
        c.Moves cfg s.state state := by
  unfold Bus.call
  cases hv : c.valid with
  | false => exact .inl ⟨-rtEinval, rfl, fun hc _ => by rw [hc] at hv; cases hv⟩
  | true =>
    cases c with
    | start =>
      cases hs : s.state with
      | stopped => exact .inr ⟨.starting, rfl, rfl, rfl⟩
      | started => exact .inl ⟨rtEok, rfl, fun _ _ => rfl⟩
      | _ => exact .inl ⟨-rtEbusy, rfl, fun _ h => by cases h⟩
    | stop =>
      cases hs : s.state with
      | stopped => exact .inl ⟨rtEok, rfl, fun h => by cases h⟩
      | starting => exact .inl ⟨-rtEbusy, rfl, fun h => by cases h⟩
      | stopping => exact .inl ⟨-rtEbusy, rfl, fun h => by cases h⟩
      | started => exact .inr ⟨.stopping, rfl, .inl rfl, rfl⟩
      | suspended => exact .inr ⟨.stopping, rfl, .inr (.inl rfl), rfl⟩
      | failed => exact .inr ⟨.stopping, rfl, .inr (.inr rfl), rfl⟩
    | suspend =>
      cases hs : s.state with
      | started =>
        cases hc : cfg.hasSuspend with
        | true => exact .inr ⟨.suspended, rfl, rfl, hc, rfl⟩
        | false => exact .inl ⟨-rtEnosys, rfl, fun h => by cases h⟩
      | _ => exact .inl ⟨-rtEbusy, rfl, fun h => by cases h⟩
    | resume =>
      cases hs : s.state with
      | suspended =>
        cases hc : cfg.hasResume with
        | true => exact .inr ⟨.starting, rfl, rfl, rfl⟩
        | false => exact .inl ⟨-rtEnosys, rfl, fun h => by cases h⟩
      | _ => exact .inl ⟨-rtEbusy, rfl, fun h => by cases h⟩
    | _ => exact .inr ⟨s.state, rfl, rfl⟩

theorem take_cases (s : Bus) (cfg : BusConfig) (t : ℕ) (c : BusCall) (previous : BusState) :
    s.take cfg t c previous = s.enter cfg t c previous ∨
      c.phase = none ∧ s.take cfg t c previous = { s.setPc t (.gate c) with txLock := some t } := by
  cases c with
  | start => exact .inl rfl
  | stop => exact .inl rfl
  | suspend => exact .inl rfl
  | resume => exact .inl rfl
  | _ => exact .inr ⟨rfl, rfl⟩

def left (s : Bus) (cfg : BusConfig) (t : ℕ) (c : BusCall) (result : ℤ) : Bus :=
  { s with txLock := none, trace := .leave t (cfg.op c) result :: s.trace }

theorem leave_cases (s : Bus) (cfg : BusConfig) (t : ℕ) (c : BusCall) (previous : BusState) (result : ℤ) :
    s.leave cfg t c previous result = (s.left cfg t c result).setPc t (.leaving c previous result) ∨
      c.phase = none ∧ s.leave cfg t c previous result = (s.left cfg t c result).ret t c result := by
  cases c with
  | start => exact .inl rfl
  | stop => exact .inl rfl
  | suspend => exact .inl rfl
  | resume => exact .inl rfl
  | _ => exact .inr ⟨rfl, rfl⟩

theorem Inv.step (h : Inv cfg s) (hs : step cfg s e = some s') : Inv cfg s' := by
  cases e with
  | call t c =>
    cases hpc : s.pc t with
    | idle =>
      simp only [Bus.step, hpc] at hs
      cases hs
      have hout : (s.pc t).holds = false := by rw [hpc]; rfl
      rcases s.call_cases cfg t c with ⟨r, hr, -⟩ | ⟨state, hstate, -⟩
      · rw [hr]
        exact h.outside (p := .idle) hout rfl rfl rfl rfl
      · rw [hstate]
        exact h.outside (p := .waiting c s.state) hout rfl rfl rfl rfl
    | _ => simp only [Bus.step, hpc] at hs; cases hs
  | take t =>
    cases hpc : s.pc t with
    | waiting c previous =>
      cases hlock : s.txLock with
      | some u => simp only [Bus.step, hpc, hlock] at hs; cases hs
      | none =>
        simp only [Bus.step, hpc, hlock] at hs
        cases hs
        have hfree : ∀ u, (s.pc u).holds = false := by
          intro u
          rw [Bool.eq_false_iff, ne_eq, h.lock u, hlock]
          exact fun he => (by cases he)
        rcases s.take_cases cfg t c previous with hr | ⟨-, hr⟩
        · rw [hr]
          exact h.enter (fun u _ => hfree u) fun c q hc => by rw [hpc] at hc; cases hc
        · rw [hr]
          exact h.lockGate hlock
    | _ => simp only [Bus.step, hpc] at hs; cases hs
  | check t =>
    cases hpc : s.pc t with
    | gate c =>
      simp only [Bus.step, hpc] at hs
      cases hs
      have hlock : s.txLock = some t := by
        rw [← h.lock t, hpc]
        rfl
      rw [Bus.check]
      cases hg : cfg.gate s.state c with
      | some error =>
        refine h.release (p := .idle) hlock rfl rfl rfl h.serial fun u op hu => ?_
        obtain ⟨c', q, hc, -⟩ := (h.inside u op).1 hu
        have := (h.lock u).1 (holds_callback hc)
        rw [hlock] at this
        rw [← Option.some.inj this, hpc] at hc
        cases hc
      | none =>
        refine h.enter (fun u hu => ?_) fun c q hc => by rw [hpc] at hc; cases hc
        rw [Bool.eq_false_iff, ne_eq, h.lock u, hlock]
        exact fun he => hu (Option.some.inj he).symm
    | _ => simp only [Bus.step, hpc] at hs; cases hs
  | leave t result =>
    cases hpc : s.pc t with
    | callback c previous =>
      simp only [Bus.step, hpc] at hs
      cases hs
      have hlock : s.txLock = some t := (h.lock t).1 (holds_callback hpc)
      have hserial : Serial (.leave t (cfg.op c) result :: s.trace) :=
        ⟨(h.inside t _).2 ⟨c, previous, hpc, rfl⟩, h.serial⟩
      rcases s.leave_cases cfg t c previous result with hr | ⟨-, hr⟩
      · rw [hr]
        exact h.release (p := .leaving c previous result) hlock rfl rfl rfl hserial fun u op hu => by cases hu
      · rw [hr]
        exact h.release (p := .idle) hlock rfl rfl rfl hserial fun u op hu => by cases hu
    | _ => simp only [Bus.step, hpc] at hs; cases hs
  | finish t =>
    cases hpc : s.pc t with
    | leaving c previous result =>
      simp only [Bus.step, hpc] at hs
      cases hs
      exact h.outside (p := .idle) (by rw [hpc]; rfl) rfl rfl rfl rfl
    | _ => simp only [Bus.step, hpc] at hs; cases hs
  | notify event =>
    simp only [Bus.step] at hs
    cases hs
    rw [Bus.notify]
    split
    · exact ⟨h.lock, h.serial, h.inside⟩
    · exact h

/-- No error has been reported while the bus was stopped, and no stop callback has failed. -/
def Sound (s : Bus) : Prop :=
  .stopped ∉ s.failedIn ∧ ∀ t r, .leave t .stop r ∈ s.trace → r = rtEok

theorem Sound.mono (h : s'.Sound) (hf : s'.failedIn = s.failedIn) (hsub : ∀ x ∈ s.trace, x ∈ s'.trace) : s.Sound :=
  ⟨hf ▸ h.1, fun t r hr => h.2 t r (hsub _ hr)⟩

/-- The turns of the start and stop callbacks, and what every thread counts on. -/
structure Ordered (s : Bus) : Prop where
  alternates : Alternates s.trace
  single : ∀ t u, (s.pc t).phase ≠ none → (s.pc u).phase ≠ none → t = u
  threads : ∀ t, (s.pc t).Ok s.state s.trace
  stopped : s.state = .stopped → lastPhase s.trace = .stop ∧ leftStarted s.trace = false
  returns : ∀ r ∈ s.returns, r.call = .start → r.result = rtEok → r.state = .started
  begun : s.Sound → s.state ≠ .stopped → (∀ u, (s.pc u).phase = none) → lastPhase s.trace = .start

/-- A stop that passes its check finds no start or stop in progress, no error was reported while the bus was stopped
and no stop callback has failed; and a suspend finds no start in progress. -/
def Orderly (cfg : BusConfig) (s : Bus) : BusEvent → Prop
  | .call _ .stop => s.state = .started ∨ s.state = .suspended ∨ s.state = .failed →
      (∀ u, (s.pc u).phase = none) ∧ s.Sound
  | .call _ .suspend => s.state = .started ∧ cfg.hasSuspend = true → ∀ u, (s.pc u).phase ≠ some .start
  | _ => True

theorem ordered_init : init.Ordered where
  alternates := trivial
  single t u ht := absurd rfl ht
  threads t := .of_none rfl fun c hc => by cases hc
  stopped _ := ⟨rfl, rfl⟩
  returns r hr := by cases hr
  begun _ hs := absurd rfl hs

theorem Ordered.alone (h : s.Ordered) (hother : ∀ u, u ≠ t → (s.pc u).phase = none)
    (hpc : s'.pc = Function.update s.pc t p) (hok : p.Ok s'.state s'.trace) (halt : Alternates s'.trace)
    (hstopped : s'.state = .stopped → lastPhase s'.trace = .stop ∧ leftStarted s'.trace = false)
    (hret : ∀ r ∈ s'.returns, r ∈ s.returns ∨ (r.call = .start → r.result = rtEok → r.state = .started))
    (hbegun : p.phase = none → s'.Sound → s'.state ≠ .stopped → lastPhase s'.trace = .start) : s'.Ordered where
  alternates := halt
  single u v hu hv := by
    rw [hpc] at hu hv
    have hself : ∀ u, (Function.update s.pc t p u).phase ≠ none → u = t := by
      intro u hu
      by_contra hut
      rw [Function.update_of_ne hut] at hu
      exact hu (hother u hut)
    rw [hself u hu, hself v hv]
  threads u := by
    rw [hpc]
    by_cases hu : u = t
    · rw [hu, Function.update_self]
      exact hok
    · rw [Function.update_of_ne hu]
      exact .of_none (hother u hu) (h.threads u).gate_phase
  stopped := hstopped
  returns r hr := (hret r hr).elim (h.returns r) id
  begun hsound hs hnone := by
    have hp := hnone t
    rw [hpc, Function.update_self] at hp
    exact hbegun hp hsound hs

theorem Ordered.beside (h : s.Ordered) (ht : (s.pc t).phase = none) (hpc : s'.pc = Function.update s.pc t p)
    (hp : p.phase = none) (hgate : ∀ c, p = .gate c → c.phase = none) (halt : Alternates s'.trace)
    (hlast : lastPhase s'.trace = lastPhase s.trace) (hleft : leftStarted s'.trace = leftStarted s.trace)
    (hsub : ∀ x ∈ s.trace, x ∈ s'.trace) (hfailed : s'.failedIn = s.failedIn)
    (hstart : ∀ u, (s.pc u).phase = some .start → s.state.inStart → s'.state.inStart)
    (hstop : s.state.inStop → s'.state.inStop) (hstopped : s'.state = .stopped ↔ s.state = .stopped)
    (hret : ∀ r ∈ s'.returns, r ∈ s.returns ∨ (r.call = .start → r.result = rtEok → r.state = .started)) :
    s'.Ordered where
  alternates := halt
  single u v hu hv := by
    rw [hpc] at hu hv
    have hself : ∀ u, (Function.update s.pc t p u).phase ≠ none → (s.pc u).phase ≠ none := by
      intro u hu
      by_cases hut : u = t
      · rw [hut, Function.update_self] at hu
        exact absurd hp hu
      · rwa [Function.update_of_ne hut] at hu
    exact h.single u v (hself u hu) (hself v hv)
  threads u := by
    rw [hpc]
    by_cases hu : u = t
    · rw [hu, Function.update_self]
      exact .of_none hp hgate
    · rw [Function.update_of_ne hu]
      exact (h.threads u).keep hlast hleft hsub (hstart u) hstop
  stopped hs := by
    rw [hlast, hleft]
    exact h.stopped (hstopped.1 hs)
  returns r hr := (hret r hr).elim (h.returns r) id
  begun hsound hs hnone := by
    rw [hlast]
    refine h.begun (hsound.mono hfailed hsub) (fun hs' => hs (hstopped.2 hs')) fun u => ?_
    by_cases hu : u = t
    · rw [hu]
      exact ht
    · have := hnone u
      rwa [hpc, Function.update_of_ne hu] at this

theorem Ordered.others (h : s.Ordered) (ht : (s.pc t).phase ≠ none) : ∀ u, u ≠ t → (s.pc u).phase = none := by
  intro u hu
  by_contra hne
  exact hu (h.single u t hne ht)

theorem Ordered.ret (h : s.Ordered) (ht : (s.pc t).phase = none) {r : ℤ}
    (hc : c = .start → r = rtEok → s.state = .started) : (s.ret t c r).Ordered := by
  refine h.beside (p := .idle) ht rfl rfl (fun _ hc => by cases hc) h.alternates rfl rfl (fun _ hx => hx) rfl
    (fun _ _ h => h) (fun h => h) Iff.rfl fun r' hr => ?_
  rcases List.mem_cons.1 hr with rfl | hr
  · exact .inr hc
  · exact .inl hr

theorem Ordered.call (h : s.Ordered) (hpc : s.pc t = .idle) (ho : Orderly cfg s (.call t c)) :
    (s.call cfg t c).Ordered := by
  have ht : (s.pc t).phase = none := by rw [hpc]; rfl
  rcases s.call_cases cfg t c with ⟨r, hr, hok⟩ | ⟨state, hstate, hmoves⟩
  · rw [hr]
    exact h.ret ht hok
  rw [hstate]
  cases c with
  | start =>
    obtain ⟨hs, rfl⟩ := hmoves
    refine h.alone (p := .waiting .start s.state) (fun u _ => ?_) rfl ⟨.inl rfl, (h.stopped hs).1⟩ h.alternates
      (fun h => by cases h) (fun _ hr => .inl hr) fun hp => by cases hp
    by_contra hu
    exact (h.threads u).ne_stopped hu hs
  | stop =>
    obtain ⟨hs, rfl⟩ := hmoves
    obtain ⟨hnone, hsound⟩ := ho hs
    have hne : s.state ≠ .stopped := by
      intro hstopped
      rw [hstopped] at hs
      rcases hs with hs | hs | hs <;> cases hs
    exact h.alone (p := .waiting .stop s.state) (fun u _ => hnone u) rfl ⟨.inl rfl, hne, h.begun hsound hne hnone⟩
      h.alternates (fun h => by cases h) (fun _ hr => .inl hr) fun hp => by cases hp
  | suspend =>
    obtain ⟨hs, hsuspend, rfl⟩ := hmoves
    refine h.beside (p := .waiting .suspend s.state) ht rfl rfl (fun _ hc => by cases hc) h.alternates rfl rfl
      (fun _ hx => hx) rfl (fun u hu => absurd hu (ho ⟨hs, hsuspend⟩ u)) (fun hstop => ?_)
      (by rw [hs]; exact ⟨fun h => (by cases h), fun h => (by cases h)⟩) fun _ hr => .inl hr
    rw [hs] at hstop
    rcases hstop with hstop | hstop <;> cases hstop
  | resume =>
    obtain ⟨hs, rfl⟩ := hmoves
    refine h.beside (p := .waiting .resume s.state) ht rfl rfl (fun _ hc => by cases hc) h.alternates rfl rfl
      (fun _ hx => hx) rfl (fun _ _ _ => .inl rfl) (fun hstop => ?_)
      (by rw [hs]; exact ⟨fun h => (by cases h), fun h => (by cases h)⟩) fun _ hr => .inl hr
    rw [hs] at hstop
    rcases hstop with hstop | hstop <;> cases hstop
  | _ =>
    cases hmoves
    exact h.beside (t := t) (p := .waiting _ s.state) ht rfl rfl (fun _ hc => by cases hc) h.alternates rfl rfl
      (fun _ hx => hx) rfl (fun _ _ h => h) (fun h => h) Iff.rfl fun _ hr => .inl hr

theorem Ordered.enter (h : s.Ordered) (ht : (s.pc t).phase = none) (hc : c.phase = none) :
    (s.enter cfg t c previous).Ordered :=
  h.beside (p := .callback c previous) ht rfl hc (fun _ hc => by cases hc) (h.alternates.enter (op_ne hc))
    (lastPhase_enter (op_ne hc)) leftStarted_enter (fun _ => List.mem_cons_of_mem _) rfl (fun _ _ h => h) (fun h => h)
    Iff.rfl fun _ hr => .inl hr

theorem phase_waiting (hpc : s.pc t = .waiting c previous) : (s.pc t).phase = c.phase := by
  rw [hpc]
  rfl

theorem Ordered.take (h : s.Ordered) (hpc : s.pc t = .waiting c previous) :
    (s.take cfg t c previous).Ordered := by
  have ht := h.threads t
  have hphase := phase_waiting hpc
  rcases s.take_cases cfg t c previous with hr | ⟨hc, hr⟩
  · rw [hr]
    rw [hpc] at ht
    cases c with
    | start =>
      have hne : (s.pc t).phase ≠ none := by rw [hphase]; exact fun h => by cases h
      have hlast : lastPhase s.trace ≠ .start := by
        rw [ht.2]
        exact fun h => by cases h
      exact h.alone (p := .callback .start previous) (h.others hne) rfl ⟨ht.1, rfl⟩ (h.alternates.phase hlast)
        (fun hs => absurd hs (inStart_ne_stopped ht.1)) (fun _ hr => .inl hr) fun hp => by cases hp
    | stop =>
      have hne : (s.pc t).phase ≠ none := by rw [hphase]; exact fun h => by cases h
      have hlast : lastPhase s.trace ≠ .stop := by
        rw [ht.2.2]
        exact fun h => by cases h
      exact h.alone (p := .callback .stop previous) (h.others hne) rfl ⟨ht.1, ht.2.1, rfl⟩
        (h.alternates.phase hlast) (fun hs => absurd hs (inStop_ne_stopped ht.1)) (fun _ hr => .inl hr)
        fun hp => by cases hp
    | _ => exact h.enter hphase rfl
  · rw [hr]
    exact h.beside (p := .gate c) (hphase.trans hc) rfl hc (fun c' hc' => by cases hc'; exact hc) h.alternates rfl rfl
      (fun _ hx => hx) rfl (fun _ _ h => h) (fun h => h) Iff.rfl fun _ hr => .inl hr

theorem Ordered.unlock (h : s.Ordered) (lock : Option ℕ) : { s with txLock := lock }.Ordered :=
  ⟨h.alternates, h.single, h.threads, h.stopped, h.returns, h.begun⟩

theorem Ordered.check (h : s.Ordered) (hpc : s.pc t = .gate c) : (s.check cfg t c).Ordered := by
  have hc := (h.threads t).gate_phase c hpc
  have ht : (s.pc t).phase = none := by
    rw [hpc]
    exact hc
  rw [Bus.check]
  cases hg : cfg.gate s.state c with
  | some error =>
    refine Ordered.unlock ?_ none
    apply h.ret ht
    rintro rfl
    cases hc
  | none => exact h.enter ht hc

theorem Ordered.leave (h : s.Ordered) (hpc : s.pc t = .callback c previous) :
    (s.leave cfg t c previous result).Ordered := by
  have ht := h.threads t
  have hphase : (s.pc t).phase = c.phase := by rw [hpc]; rfl
  rw [hpc] at ht
  rcases s.leave_cases cfg t c previous result with hr | ⟨hc, hr⟩
  · rw [hr]
    cases c with
    | start =>
      have hne : (s.pc t).phase ≠ none := by rw [hphase]; exact fun h => by cases h
      exact h.alone (p := .leaving .start previous result) (h.others hne) rfl ht h.alternates.leave
        (fun hs => absurd hs (inStart_ne_stopped ht.1)) (fun _ hr => .inl hr) fun hp => by cases hp
    | stop =>
      have hne : (s.pc t).phase ≠ none := by rw [hphase]; exact fun h => by cases h
      refine h.alone (p := .leaving .stop previous result) (h.others hne) rfl
        ⟨ht.1, ht.2.1, ht.2.2, ?_, t, List.mem_cons_self⟩ h.alternates.leave
        (fun hs => absurd hs (inStop_ne_stopped ht.1)) (fun _ hr => .inl hr) fun hp => by cases hp
      rintro rfl
      rfl
    | _ =>
      exact h.beside (t := t) (p := .leaving _ previous result) hphase rfl rfl (fun _ hc => by cases hc)
        h.alternates.leave rfl (leftStarted_leave (op_ne rfl)) (fun _ => List.mem_cons_of_mem _) rfl (fun _ _ h => h)
        (fun h => h) Iff.rfl fun _ hr => .inl hr
  · rw [hr]
    refine h.beside (p := .idle) (hphase.trans hc) rfl rfl (fun _ hc => by cases hc) h.alternates.leave rfl
      (leftStarted_leave (op_ne hc)) (fun _ => List.mem_cons_of_mem _) rfl (fun _ _ h => h) (fun h => h) Iff.rfl
      fun r hr => ?_
    rcases List.mem_cons.1 hr with rfl | hr
    · exact .inr fun hstart => by
        cases hstart
        cases hc
    · exact .inl hr

theorem ret_returns {P : BusReturn → Prop} {r : ℤ} (hc : P ⟨t, c, r, s.state⟩) :
    ∀ x ∈ (s.ret t c r).returns, x ∈ s.returns ∨ P x := by
  intro x hx
  rcases List.mem_cons.1 hx with rfl | hx
  · exact .inr hc
  · exact .inl hx

theorem Ordered.finish (h : s.Ordered) (hpc : s.pc t = .leaving c previous result) :
    (s.finish t c previous result).Ordered := by
  have ht := h.threads t
  have hphase : (s.pc t).phase = c.phase := by rw [hpc]; rfl
  rw [hpc] at ht
  rw [Bus.finish]
  cases c with
  | start =>
    have hne : (s.pc t).phase ≠ none := by rw [hphase]; exact fun h => by cases h
    have hstart : (BusCall.start.settle previous result s.state).1.inStart := settle_inStart (by simp) ht.1
    exact h.alone (p := .idle) (h.others hne) rfl trivial h.alternates
      (fun hs => absurd hs (inStart_ne_stopped hstart)) (ret_returns fun _ hr => settle_start (q := previous) ht.1 hr)
      fun _ _ _ => ht.2
  | stop =>
    have hne : (s.pc t).phase ≠ none := by rw [hphase]; exact fun h => by cases h
    obtain ⟨hin, hprev, hlast, hstopped, u, hu⟩ := ht
    refine h.alone (p := .idle) (h.others hne) rfl trivial h.alternates
      (fun hs => ⟨hlast, hstopped (settle_stop hprev hin hs)⟩) (ret_returns fun hc => by cases hc)
      fun _ hsound hs => absurd ?_ hs
    cases hsound.2 u result hu
    rfl
  | _ =>
    exact h.beside (t := t) (p := .idle) hphase rfl rfl (fun _ hc => by cases hc) h.alternates rfl rfl
      (fun _ hx => hx) rfl (fun _ _ hin => settle_inStart (by simp) hin) (fun hin => settle_inStop (by simp) hin)
      (settle_stopped (by simp)) (ret_returns fun hc => by cases hc)

theorem Ordered.notify (h : s.Ordered) {event : BusNotice} : (s.notify event).Ordered := by
  rw [Bus.notify]
  split
  · refine ⟨h.alternates, h.single, fun t => ?_, fun hs => (by cases hs), h.returns, fun hsound _ hnone => ?_⟩
    · exact (h.threads t).keep rfl rfl (fun _ hx => hx) (fun _ _ => .inr (.inl rfl)) fun _ => .inr rfl
    · obtain ⟨hnot, hstops⟩ := hsound
      rw [List.mem_cons, not_or] at hnot
      exact h.begun ⟨hnot.2, hstops⟩ (Ne.symm hnot.1) hnone
  · exact h

theorem Ordered.step (h : s.Ordered) (ho : Orderly cfg s e) (hs : step cfg s e = some s') : s'.Ordered := by
  cases e with
  | call t c =>
    cases hpc : s.pc t <;> simp only [Bus.step, hpc] at hs <;> cases hs
    exact h.call hpc ho
  | take t =>
    cases hpc : s.pc t <;> cases hlock : s.txLock <;> simp only [Bus.step, hpc, hlock] at hs <;> cases hs
    exact h.take hpc
  | check t =>
    cases hpc : s.pc t <;> simp only [Bus.step, hpc] at hs <;> cases hs
    exact h.check hpc
  | leave t result =>
    cases hpc : s.pc t <;> simp only [Bus.step, hpc] at hs <;> cases hs
    exact h.leave hpc
  | finish t =>
    cases hpc : s.pc t <;> simp only [Bus.step, hpc] at hs <;> cases hs
    exact h.finish hpc
  | notify event =>
    simp only [Bus.step] at hs
    cases hs
    exact h.notify

/-- No two callbacks of the transport overlap, and when stops and suspends come in order, the start and stop
callbacks take turns, a start that succeeds leaves the bus started, and a stopped bus has a stopped transport. -/
theorem callbacks_in_turn {es : List BusEvent} (h : run (step cfg) init es = some s) :
    Serial s.trace ∧ (Meets (step cfg) (Orderly cfg) init es →
      Alternates s.trace ∧
      (∀ r ∈ s.returns, r.call = .start → r.result = rtEok → r.state = .started) ∧
      (s.state = .stopped → (∀ t, s.pc t = .idle) → leftStarted s.trace = false)) := by
  have hinv : s.Inv cfg := run_invariant (Inv cfg) (fun s e s' hi hs => hi.step hs) h inv_init
  refine ⟨hinv.serial, fun hm => ?_⟩
  have hord : s.Ordered :=
    run_invariant_of_meets Ordered (fun s e s' hi ho hs => hi.step ho hs) h hm ordered_init
  exact ⟨hord.alternates, hord.returns, fun hs _ => (hord.stopped hs).2⟩

def demoConfig : BusConfig where
  maxTxSize := 1500
  capTxPriority := false
  hasTransmitPriority := false
  hasTransmitv := false
  hasSuspend := true
  hasResume := true
  hasReset := true
  hasControl := true

def demoRun : List BusEvent :=
  [.call 0 .start, .take 0, .leave 0 0, .finish 0, .call 1 (.transmitPriority 1 (some [0x55])), .take 1, .check 1,
    .leave 1 0, .notify .error, .call 0 .stop, .take 0, .leave 0 0, .finish 0]

theorem callbacks_in_turn_demo :
    ∃ s, run (step demoConfig) init demoRun = some s ∧ s.state = .stopped ∧ Alternates s.trace ∧
      leftStarted s.trace = false := by
  have hidle : ∀ s, run (step demoConfig) init demoRun = some s → ∀ t, s.pc t = .idle := by
    intro s h t
    cases h
    match t with
    | 0 => rfl
    | 1 => rfl
    | t + 2 => rfl
  refine ⟨_, rfl, rfl, ?_⟩
  have hturn := @callbacks_in_turn demoConfig _ demoRun rfl
  obtain ⟨halt, -, hleft⟩ := hturn.2 (by
    iterate 9 refine ⟨trivial, fun s hs => ?_⟩; cases hs
    refine ⟨fun _ => ⟨fun u => ?_, by decide, fun t r hr => ?_⟩, fun s hs => ?_⟩
    · match u with
      | 0 => rfl
      | 1 => rfl
      | u + 2 => rfl
    · change _ ∈ [BusTrace.leave 1 .transmit 0, .enter 1 .transmit, .leave 0 .start 0, .enter 0 .start] at hr
      simp at hr
    cases hs
    iterate 3 refine ⟨trivial, fun s hs => ?_⟩; cases hs
    trivial)
  exact ⟨halt, hleft rfl (hidle _ rfl)⟩

/-- An error is reported before a start has made its callback, and a stop overtakes it: the stop callback comes
first, the start returns `RT_EOK` on a stopped bus, and the transport is left started. -/
theorem callbacks_out_of_turn :
    ∃ es s, run (step demoConfig) init es = some s ∧ s.state = .stopped ∧ (∀ t, s.pc t = .idle) ∧
      leftStarted s.trace = true ∧ ¬ Alternates s.trace ∧
      ∃ r ∈ s.returns, r.call = .start ∧ r.result = rtEok ∧ r.state = .stopped := by
  refine ⟨[.call 0 .start, .notify .error, .call 1 .stop, .take 1, .leave 1 0, .finish 1, .take 0, .leave 0 0,
    .finish 0], _, rfl, rfl, fun t => ?_, rfl, fun h => ?_, ⟨0, .start, rtEok, .stopped⟩, ?_, rfl, rfl, rfl⟩
  · match t with
    | 0 => rfl
    | 1 => rfl
    | t + 2 => rfl
  · exact h.2.2.2.1 1 .stop rfl (.inr rfl) rfl
  · exact List.mem_cons_self

end Bus

end RtSmart
