import RtSmart.Wlan.Control

/-! When the control device of a radio is destroyed, and what reaches the radio. -/

namespace RtSmart

open Lib

@[simp]
def ControlPc.pinned : ControlPc → Bool
  | .reading .. | .waiting .. | .writing _ | .dispatching _ | .finishing _ | .putting _ => true
  | _ => false

/-- The call is counted in `active_operations`. -/
@[simp]
def ControlPc.counted : ControlPc → Bool
  | .dispatching _ | .finishing _ => true
  | _ => false

/-- The call is counted in `fnode->ref_count`. -/
@[simp]
def ControlPc.inPath : ControlPc → Bool
  | .opening _ | .failing .. | .leaving .. | .closing _ | .closed _ | .freeing _ => true
  | _ => false

@[simp]
def ControlPc.locks : ControlPc → Bool
  | .opening locked | .failing locked _ => locked
  | .entering _ | .leaving .. | .closed _ => true
  | _ => false

@[simp]
def ControlPc.isClosing : ControlPc → Bool
  | .closing _ => true
  | _ => false

@[simp]
def ControlPc.destroys : ControlPc → Bool
  | .closed destroy => destroy
  | _ => false

/-- The open has failed, and keeps `fm_lock` until it has given the file node back. -/
@[simp]
def ControlPc.gaveUp : ControlPc → Bool
  | .failing locked _ => locked
  | .leaving .. => true
  | _ => false

@[simp]
def ControlRemover.destroys : ControlRemover → Bool
  | .detached destroy => destroy
  | _ => false

/-- The unregistration still has to do with the control. -/
@[simp]
def ControlRemover.uses : ControlRemover → Bool
  | .waiting _ | .unnamed => true
  | .detached destroy => destroy
  | _ => false

@[simp]
def ControlFd.pins : ControlFd → ℕ
  | .live _ pins => pins
  | _ => 0

/-- The descriptor is counted in `fnode->ref_count`. -/
@[simp]
def ControlFd.isLive : ControlFd → Bool
  | .live .. | .failed => true
  | _ => false

namespace ControlSys

variable {s s' : ControlSys} {t : ℕ} {p : ControlPc} {e : ControlEvent}

structure Counts (s : ControlSys) : Prop where
  pins : Counted ControlPc.pinned s.pc s.fd.pins
  active : Counted ControlPc.counted s.pc s.active
  freed : ∃ n, Counted ControlPc.destroys s.pc n ∧ s.freed + n + s.remover.destroys.toNat = s.destroying.toNat

theorem Counts.move (h : s.Counts) (hpc : s'.pc = Function.update s.pc t p)
    (hpins : s'.fd.pins + (s.pc t).pinned.toNat = s.fd.pins + p.pinned.toNat)
    (hactive : s'.active + (s.pc t).counted.toNat = s.active + p.counted.toNat)
    (hfreed : s'.freed + s'.remover.destroys.toNat + s.destroying.toNat + p.destroys.toNat =
      s.freed + s.remover.destroys.toNat + s'.destroying.toNat + (s.pc t).destroys.toNat) : s'.Counts := by
  obtain ⟨m, hm, hfr⟩ := h.freed
  have hdes : (s.pc t).destroys.toNat ≤ m := by
    cases hp : (s.pc t).destroys with
    | false => exact Nat.zero_le m
    | true => exact hm.pos hp
  constructor
  · rw [hpc]
    exact h.pins.update hpins
  · rw [hpc]
    exact h.active.update hactive
  · refine ⟨m + p.destroys.toNat - (s.pc t).destroys.toNat, ?_, by omega⟩
    rw [hpc]
    exact hm.update (by omega)

/-- The descriptor, the flag that it is open, and `fm_lock`. -/
structure Descriptor (s : ControlSys) : Prop where
  closing : ∀ t, (s.pc t).isClosing = true ↔ s.fd = .closing t
  lock : ∀ t, (s.pc t).locks = true ↔ s.fmLock = some t
  opened : s.opened = true ↔ s.fd ≠ .none
  refs : ∀ tables pins, s.fd = .live tables pins → 0 < tables + pins

theorem Descriptor.move (h : s.Descriptor) (hpc : s'.pc = Function.update s.pc t p)
    (hself : p.isClosing = true ↔ s'.fd = .closing t) (hlock : p.locks = true ↔ s'.fmLock = some t)
    (hfd : ∀ u, u ≠ t → (s.fd = .closing u ↔ s'.fd = .closing u))
    (hfm : ∀ u, u ≠ t → (s.fmLock = some u ↔ s'.fmLock = some u))
    (hopened : s'.opened = true ↔ s'.fd ≠ .none)
    (hrefs : ∀ tables pins, s'.fd = .live tables pins → 0 < tables + pins) : s'.Descriptor where
  closing u := by
    rw [hpc]
    by_cases hu : u = t
    · rw [hu, Function.update_self]
      exact hself
    · rw [Function.update_of_ne hu, h.closing u]
      exact hfd u hu
  lock u := by
    rw [hpc]
    by_cases hu : u = t
    · rw [hu, Function.update_self]
      exact hlock
    · rw [Function.update_of_ne hu, h.lock u]
      exact hfm u hu
  opened := hopened
  refs := hrefs

def Phase (registered removing unregistering radio named : Bool) (active idleSem : ℕ) : ControlRemover → Prop
  | .pending => registered = true ∧ removing = false ∧ unregistering = false ∧ radio = true ∧ idleSem = 0
  | .waiting wait => registered = false ∧ unregistering = true ∧ radio = true ∧
      (wait = false → active = 0) ∧ (0 < idleSem → active = 0)
  | .unnamed => registered = false ∧ unregistering = true ∧ radio = true ∧ named = false ∧ active = 0
  | .detached _ | .done => registered = false ∧ unregistering = false ∧ named = false ∧ active = 0

abbrev phase (s : ControlSys) : Prop :=
  Phase s.registered s.removing s.unregistering s.radio s.named s.active s.idleSem s.remover

theorem over_of_phase (h : s.phase) (hreg : s.registered = false) (hun : s.unregistering = false) :
    (∃ destroy, s.remover = .detached destroy ∨ s.remover = .done) ∧ s.named = false ∧ s.active = 0 := by
  rw [phase] at h
  cases hr : s.remover with
  | pending =>
    rw [hr, hreg] at h
    cases h.1
  | waiting wait =>
    rw [hr, hun] at h
    cases h.2.1
  | unnamed =>
    rw [hr, hun] at h
    cases h.2.1
  | detached destroy =>
    rw [hr] at h
    exact ⟨⟨destroy, .inl rfl⟩, h.2.2⟩
  | done =>
    rw [hr] at h
    exact ⟨⟨true, .inr rfl⟩, h.2.2⟩

/-- What the unregistration waits for, and who has to destroy the control. -/
structure Removal (s : ControlSys) : Prop where
  phase : s.phase
  writes : ∀ t, s.pc t = .writing true → s.registered = false
  dispatches : ∀ t, s.pc t ≠ .dispatching true
  requests : ∀ r ∈ s.requests, r.late = false ∧ r.radio = true
  duty : s.registered = false → s.unregistering = false → s.opened = false → s.destroying = true

theorem Removal.move (h : s.Removal) (hpc : s'.pc = Function.update s.pc t p) (hphase : s'.phase)
    (hw : p = .writing true → s'.registered = false) (hd : p ≠ .dispatching true)
    (hreg : s.registered = false → s'.registered = false)
    (hreq : ∀ r ∈ s'.requests, r ∈ s.requests ∨ r.late = false ∧ r.radio = true)
    (hduty : s'.registered = false → s'.unregistering = false → s'.opened = false → s'.destroying = true) :
    s'.Removal where
  phase := hphase
  writes u := by
    rw [hpc]
    by_cases hu : u = t
    · rw [hu, Function.update_self]
      exact hw
    · rw [Function.update_of_ne hu]
      exact fun hp => hreg (h.writes u hp)
  dispatches u := by
    rw [hpc]
    by_cases hu : u = t
    · rw [hu, Function.update_self]
      exact hd
    · rw [Function.update_of_ne hu]
      exact h.dispatches u
  requests r hr := (hreq r hr).elim (h.requests r) id
  duty := hduty

structure Inv (s : ControlSys) : Prop where
  counts : s.Counts
  descriptor : s.Descriptor
  removal : s.Removal

theorem inv_init : init.Inv where
  counts :=
    ⟨counted_zero fun _ => rfl, counted_zero fun _ => rfl, ⟨0, counted_zero fun _ => rfl, rfl⟩⟩
  descriptor :=
    ⟨fun t => ⟨fun h => (by cases h), fun h => (by cases h)⟩, fun t => ⟨fun h => (by cases h), fun h => (by cases h)⟩,
      ⟨fun h => (by cases h), fun h => absurd rfl h⟩, fun tables pins h => (by cases h)⟩
  removal :=
    ⟨⟨rfl, rfl, rfl, rfl, rfl⟩, fun t h => (by cases h), fun t h => (by cases h), fun r h => (by cases h),
      fun h => (by cases h)⟩

theorem Inv.move (h : s.Inv) (hpc : s'.pc = Function.update s.pc t p)
    (hpins : s'.fd.pins + (s.pc t).pinned.toNat = s.fd.pins + p.pinned.toNat)
    (hactive : s'.active + (s.pc t).counted.toNat = s.active + p.counted.toNat)
    (hfreed : s'.freed + s'.remover.destroys.toNat + s.destroying.toNat + p.destroys.toNat =
      s.freed + s.remover.destroys.toNat + s'.destroying.toNat + (s.pc t).destroys.toNat)
    (hself : p.isClosing = true ↔ s'.fd = .closing t) (hlock : p.locks = true ↔ s'.fmLock = some t)
    (hfd : ∀ u, u ≠ t → (s.fd = .closing u ↔ s'.fd = .closing u))
    (hfm : ∀ u, u ≠ t → (s.fmLock = some u ↔ s'.fmLock = some u))
    (hopened : s'.opened = true ↔ s'.fd ≠ .none)
    (hrefs : ∀ tables pins, s'.fd = .live tables pins → 0 < tables + pins) (hphase : s'.phase)
    (hw : p = .writing true → s'.registered = false) (hd : p ≠ .dispatching true)
    (hreg : s.registered = false → s'.registered = false)
    (hreq : ∀ r ∈ s'.requests, r ∈ s.requests ∨ r.late = false ∧ r.radio = true)
    (hduty : s'.registered = false → s'.unregistering = false → s'.opened = false → s'.destroying = true) : s'.Inv :=
  ⟨h.counts.move hpc hpins hactive hfreed, h.descriptor.move hpc hself hlock hfd hfm hopened hrefs,
    h.removal.move hpc hphase hw hd hreg hreq hduty⟩

theorem locks_of_pinned (hp : p.pinned = true) :
    p.locks = false ∧ p.destroys = false ∧ p.isClosing = false ∧ p.inPath = false := by
  cases p <;> first | exact ⟨rfl, rfl, rfl, rfl⟩ | cases hp

theorem Inv.goOn (h : s.Inv) {q : ControlPc} (hq : s.pc t = q) (hp : p.pinned = true) (hpq : q.pinned = true)
    (hcount : p.counted = q.counted) (hw : p ≠ .writing true) (hd : p ≠ .dispatching true) (queue : List ℕ)
    {requests : List ControlRequest} (hreq : ∀ r ∈ requests, r ∈ s.requests ∨ r.late = false ∧ r.radio = true) :
    { s.setPc t p with queue := queue, requests := requests }.Inv := by
  have hl := h.descriptor.lock t
  have hc := h.descriptor.closing t
  obtain ⟨hplocks, hpdes, hpclosing, -⟩ := locks_of_pinned hp
  obtain ⟨hqlocks, hqdes, hqclosing, -⟩ := locks_of_pinned hpq
  rw [hq] at hl hc
  apply h.move (t := t) (p := p) rfl
  case hpins => rw [hq, hp, hpq]; rfl
  case hactive => rw [hq, hcount]; rfl
  case hfreed => rw [hq, hpdes, hqdes]; rfl
  case hself => rw [hpclosing, ← hqclosing]; exact hc
  case hlock => rw [hplocks, ← hqlocks]; exact hl
  case hfd => exact fun u _ => Iff.rfl
  case hfm => exact fun u _ => Iff.rfl
  case hopened => exact h.descriptor.opened
  case hrefs => exact h.descriptor.refs
  case hphase => exact h.removal.phase
  case hw => exact fun he => absurd he hw
  case hd => exact hd
  case hreg => exact id
  case hreq => exact hreq
  case hduty => exact h.removal.duty

theorem Inv.openFile (h : s.Inv) (hp : s.pc t = .idle) (hs : s.openFile t = some s') : s'.Inv := by
  have hc := h.descriptor.closing t
  have hl := h.descriptor.lock t
  rw [ControlSys.openFile] at hs
  cases hm : s.fmLock with
  | some u =>
    rw [hm] at hs
    cases hs
  | none =>
    rw [hm] at hs
    by_cases hf : s.hashed = true
    · simp only [if_pos hf] at hs
      cases hs
      apply h.move (t := t) (p := .entering s.refs) rfl
      case hphase => exact h.removal.phase
      case hduty => exact h.removal.duty
      case hopened => exact h.descriptor.opened
      case hrefs => exact h.descriptor.refs
      all_goals simp_all [setPc]
      all_goals omega
    · simp only [if_neg hf] at hs
      split_ifs at hs with hn
      · cases hs
        apply h.move (t := t) (p := .opening true) rfl
        case hphase => exact h.removal.phase
        case hduty => exact h.removal.duty
        case hopened => exact h.descriptor.opened
        case hrefs => exact h.descriptor.refs
        all_goals simp_all [setPc]
        all_goals omega
      · cases hs
        apply h.move (t := t) (p := .idle) rfl
        case hphase => exact h.removal.phase
        case hduty => exact h.removal.duty
        case hopened => exact h.descriptor.opened
        case hrefs => exact h.descriptor.refs
        all_goals simp_all [setPc, ret]

theorem Inv.enter (h : s.Inv) {read : ℕ} (hp : s.pc t = .entering read) : (s.enter t read).Inv := by
  have hc := h.descriptor.closing t
  have hl := (h.descriptor.lock t).1 (by rw [hp]; rfl)
  apply h.move (t := t) (p := .opening false) rfl
  case hphase => exact h.removal.phase
  case hduty => exact h.removal.duty
  case hopened => exact h.descriptor.opened
  case hrefs => exact h.descriptor.refs
  case hfm =>
    intro u hu
    simp [ControlSys.enter, setPc, hl, Ne.symm hu]
  all_goals simp_all [setPc, ControlSys.enter]

theorem openSection_cases (h : s.Inv) (t : ℕ) (locked : Bool) :
    (∃ r, s.openSection t locked = s.setPc t (.failing locked r)) ∨
      s.registered = true ∧ s.opened = false ∧ s.fd = .none ∧ s.openSection t locked = { s.ret t (.ok 0) with
        queue := [], opened := true, fd := .live 1 0, fmLock := if locked then none else s.fmLock } := by
  rw [openSection]
  by_cases hr : (!s.registered || s.removing) = true
  · exact .inl ⟨_, if_pos hr⟩
  rw [if_neg hr]
  by_cases hopen : s.opened = true
  · exact .inl ⟨_, if_pos hopen⟩
  have hfd : s.fd = .none := by
    by_contra hne
    exact hopen (h.descriptor.opened.2 hne)
  simp only [Bool.or_eq_true, Bool.not_eq_true', not_or, Bool.not_eq_false] at hr
  exact .inr ⟨hr.1, Bool.not_eq_true _ ▸ hopen, hfd, if_neg hopen⟩

theorem Inv.open (h : s.Inv) {locked : Bool} (hp : s.pc t = .opening locked) : (s.openSection t locked).Inv := by
  have hc := h.descriptor.closing t
  have hl := h.descriptor.lock t
  have ho := h.descriptor.opened
  obtain ⟨r, he⟩ | ⟨hreg, hopen, hfd, he⟩ := openSection_cases h t locked
  · rw [he]
    apply h.move (t := t) (p := .failing locked r) rfl
    case hphase => exact h.removal.phase
    case hduty => exact h.removal.duty
    case hopened => exact h.descriptor.opened
    case hrefs => exact h.descriptor.refs
    all_goals simp_all [setPc]
  · rw [he]
    apply h.move (t := t) (p := .idle) rfl
    case hphase => exact h.removal.phase
    all_goals simp_all [setPc, ret]

theorem Inv.giveUp (h : s.Inv) {locked : Bool} {r : ControlResult} (hp : s.pc t = .failing locked r)
    (hs : s.giveUp t locked r = some s') : s'.Inv := by
  have hc := h.descriptor.closing t
  have hl := h.descriptor.lock t
  rw [ControlSys.giveUp] at hs
  split_ifs at hs with hlock
  cases hs
  apply h.move (t := t) (p := .leaving s.refs r) rfl
  case hphase => exact h.removal.phase
  case hduty => exact h.removal.duty
  case hopened => exact h.descriptor.opened
  case hrefs => exact h.descriptor.refs
  case hfm =>
    intro u hu
    cases locked with
    | true =>
      have hl := hl.1 (by rw [hp]; rfl)
      simp [hl]
    | false =>
      have hlock : s.fmLock = none := by simpa using hlock
      simp [hlock, Ne.symm hu]
  all_goals simp_all [setPc]

theorem Inv.leave (h : s.Inv) {read : ℕ} {r : ControlResult} (hp : s.pc t = .leaving read r) :
    (s.leave t read r).Inv := by
  have hc := h.descriptor.closing t
  have hl := (h.descriptor.lock t).1 (by rw [hp]; rfl)
  rw [ControlSys.leave, ret, setPc]
  apply h.move (t := t) (p := .idle) rfl
  case hphase => exact h.removal.phase
  case hduty => exact h.removal.duty
  case hopened => exact h.descriptor.opened
  case hrefs => exact h.descriptor.refs
  case hfm =>
    intro u hu
    simp [hl, Ne.symm hu]
  all_goals simp_all

theorem Inv.pin (h : s.Inv) (hp : s.pc t = .idle) (hpin : p.pinned = true) (hcount : p.counted = false)
    (hw : p = .writing true → s.registered = false) (hs : s.pin t p = some s') : s'.Inv := by
  have hc := h.descriptor.closing t
  have hl := h.descriptor.lock t
  have ho := h.descriptor.opened
  rw [ControlSys.pin] at hs
  split at hs
  next tables pins hfd =>
    cases hs
    apply h.move (t := t) (p := p) rfl
    case hphase => exact h.removal.phase
    case hduty => exact h.removal.duty
    case hw => exact hw
    case hreg => exact id
    case hreq => exact fun r hr => .inl hr
    all_goals cases p
    all_goals simp_all [setPc]
  next => cases hs

theorem Inv.readSection (h : s.Inv) {count : ℕ} {nonblock : Bool} (hp : s.pc t = .reading count nonblock) :
    (s.readSection t count nonblock).Inv := by
  rw [ControlSys.readSection]
  split
  next length queue hq =>
    split
    · exact h.goOn (p := .putting .emsgsize) hp rfl rfl rfl (by simp) (by simp) s.queue fun r hr => .inl hr
    · exact h.goOn (p := .putting (.ok length)) hp rfl rfl rfl (by simp) (by simp) queue fun r hr => .inl hr
  next hq =>
    split
    · exact h.goOn (p := .putting .enodev) hp rfl rfl rfl (by simp) (by simp) s.queue fun r hr => .inl hr
    · split
      · exact h.goOn (p := .putting .eagain) hp rfl rfl rfl (by simp) (by simp) s.queue fun r hr => .inl hr
      · exact h.goOn (p := .waiting count nonblock) hp rfl rfl rfl (by simp) (by simp) s.queue fun r hr => .inl hr

theorem unusable_false (hu : ¬ s.unusable = true) : s.registered = true ∧ s.opened = true := by
  simp only [unusable, Bool.or_eq_true, Bool.not_eq_true', not_or, Bool.not_eq_false] at hu
  exact ⟨hu.1.1, hu.2⟩

theorem Inv.writeSection (h : s.Inv) {late : Bool} (hp : s.pc t = .writing late) : (s.writeSection t late).Inv := by
  have hc := h.descriptor.closing t
  have hl := h.descriptor.lock t
  have hphase := h.removal.phase
  rw [ControlSys.writeSection]
  by_cases hu : s.unusable = true
  · rw [if_pos hu]
    exact h.goOn (p := .putting .enodev) hp rfl rfl rfl (by simp) (by simp) s.queue fun r hr => .inl hr
  · rw [if_neg hu]
    obtain ⟨hreg, -⟩ := unusable_false hu
    have hlate : late ≠ true := by
      rintro rfl
      rw [h.removal.writes t hp] at hreg
      cases hreg
    apply h.move (t := t) (p := .dispatching late) rfl
    case hphase =>
      rw [ControlSys.phase] at hphase ⊢
      cases hr : s.remover with
      | pending =>
        rw [hr] at hphase
        simp only [setPc, hr]
        exact hphase
      | _ =>
        rw [hr] at hphase
        rw [hphase.1] at hreg
        cases hreg
    case hduty => exact h.removal.duty
    case hopened => exact h.descriptor.opened
    case hrefs => exact h.descriptor.refs
    all_goals simp_all [setPc]

theorem Inv.radio_of_counted (h : s.Inv) (hp : (s.pc t).counted = true) : s.radio = true ∧ 0 < s.active := by
  have hpos := h.counts.active.pos hp
  have hphase := h.removal.phase
  refine ⟨?_, hpos⟩
  rw [ControlSys.phase] at hphase
  cases hr : s.remover with
  | pending =>
    rw [hr] at hphase
    exact hphase.2.2.2.1
  | waiting wait =>
    rw [hr] at hphase
    exact hphase.2.2.1
  | unnamed =>
    rw [hr] at hphase
    exact hphase.2.2.1
  | detached _ | done =>
    rw [hr] at hphase
    have := hphase.2.2.2
    omega

theorem Inv.dispatch (h : s.Inv) {late : Bool} {result : ℤ} (hp : s.pc t = .dispatching late) :
    (s.dispatch t late result).Inv := by
  refine h.goOn (p := .finishing (if result = 0 then .ok 0 else .error result)) hp rfl rfl rfl (by simp) (by simp)
    s.queue fun r hr => ?_
  rcases List.mem_cons.1 hr with rfl | hr
  · cases late with
    | true => exact absurd hp (h.removal.dispatches t)
    | false => exact .inr ⟨rfl, (h.radio_of_counted (t := t) (by rw [hp]; rfl)).1⟩
  · exact .inl hr

theorem Inv.writeFinish (h : s.Inv) {r : ControlResult} (hp : s.pc t = .finishing r) : (s.writeFinish t r).Inv := by
  have hc := h.descriptor.closing t
  have hl := h.descriptor.lock t
  have hphase := h.removal.phase
  have hpos := (h.radio_of_counted (t := t) (by rw [hp]; rfl)).2
  apply h.move (t := t) (p := .putting r) rfl
  case hphase =>
    rw [ControlSys.phase] at hphase ⊢
    cases hr : s.remover with
    | pending =>
      rw [hr] at hphase
      simp [ControlSys.writeFinish, setPc, hr, Phase, hphase.1, hphase.2.1, hphase.2.2.1, hphase.2.2.2.1,
        hphase.2.2.2.2]
    | waiting wait =>
      rw [hr] at hphase
      obtain ⟨hreg, hun, hradio, hwait, hidle⟩ := hphase
      have hrem : (s.writeFinish t r).remover = .waiting wait := hr
      rw [hrem]
      refine ⟨hreg, hun, hradio, fun hw => ?_, fun hi => ?_⟩
      · have := hwait hw
        omega
      · simp only [ControlSys.writeFinish, hun] at hi ⊢
        by_contra hne
        rw [if_neg fun hand => hne hand.1] at hi
        have := hidle hi
        omega
    | unnamed =>
      rw [hr] at hphase
      have := hphase.2.2.2.2
      omega
    | detached destroy =>
      rw [hr] at hphase
      have := hphase.2.2.2
      omega
    | done =>
      rw [hr] at hphase
      have := hphase.2.2.2
      omega
  case hduty => exact h.removal.duty
  case hopened => exact h.descriptor.opened
  case hrefs => exact h.descriptor.refs
  all_goals simp_all [setPc, ControlSys.writeFinish]
  all_goals omega

theorem Inv.put (h : s.Inv) {r : ControlResult} (hp : s.pc t = .putting r) (hs : s.put t r = some s') : s'.Inv := by
  have hc := h.descriptor.closing t
  have hl := h.descriptor.lock t
  have ho := h.descriptor.opened
  have hpos : 0 < s.fd.pins := h.counts.pins.pos (a := t) (by rw [hp]; rfl)
  rw [ControlSys.put] at hs
  split at hs
  next tables pins hfd =>
    rw [hfd, ControlFd.pins] at hpos
    by_cases hrefs : 1 < tables + pins
    · rw [if_pos hrefs] at hs
      cases hs
      apply h.move (t := t) (p := .idle) rfl
      case hphase => exact h.removal.phase
      case hduty => exact h.removal.duty
      all_goals simp_all [setPc, ret]
      all_goals omega
    · rw [if_neg hrefs] at hs
      cases hs
      apply h.move (t := t) (p := .closing true) rfl
      case hphase => exact h.removal.phase
      case hduty => exact h.removal.duty
      all_goals simp_all [setPc]
      all_goals omega
  next => cases hs

theorem Inv.close (h : s.Inv) (hp : s.pc t = .idle) (hs : s.close t = some s') : s'.Inv := by
  have hc := h.descriptor.closing t
  have hl := h.descriptor.lock t
  have ho := h.descriptor.opened
  rw [ControlSys.close] at hs
  split at hs
  next tables pins hfd =>
    by_cases hrefs : 1 < tables + 1 + pins
    · rw [if_pos hrefs] at hs
      cases hs
      apply h.move (t := t) (p := .idle) rfl
      case hphase => exact h.removal.phase
      case hduty => exact h.removal.duty
      all_goals simp_all [setPc, ret]
      all_goals omega
    · rw [if_neg hrefs] at hs
      cases hs
      apply h.move (t := t) (p := .closing false) rfl
      case hphase => exact h.removal.phase
      case hduty => exact h.removal.duty
      all_goals simp_all [setPc]
      all_goals omega
  next => cases hs

theorem Inv.retry (h : s.Inv) (hp : s.pc t = .idle) (hfd : s.fd = .failed) :
    { s.setPc t (.closing true) with fd := .closing t }.Inv := by
  have hc := h.descriptor.closing t
  have hl := h.descriptor.lock t
  have ho := h.descriptor.opened
  apply h.move (t := t) (p := .closing true) rfl
  case hphase => exact h.removal.phase
  case hduty => exact h.removal.duty
  all_goals simp_all [setPc]
  all_goals omega

theorem Inv.refuseClose (h : s.Inv) {put : Bool} (hp : s.pc t = .closing put) : (s.refuseClose t put).Inv := by
  have hc := (h.descriptor.closing t).1 (by rw [hp]; rfl)
  have hl := h.descriptor.lock t
  have ho := h.descriptor.opened
  rw [ControlSys.refuseClose]
  split
  · apply h.move (t := t) (p := .idle) rfl
    case hphase => exact h.removal.phase
    case hduty => exact h.removal.duty
    all_goals simp_all [setPc]
    all_goals omega
  · apply h.move (t := t) (p := .idle) rfl
    case hphase => exact h.removal.phase
    case hduty => exact h.removal.duty
    all_goals simp_all [setPc, ret]
    all_goals omega

theorem Inv.closeSection (h : s.Inv) {put : Bool} (hp : s.pc t = .closing put) (hlock : s.fmLock = none) :
    (s.closeSection t put).Inv := by
  have hc := (h.descriptor.closing t).1 (by rw [hp]; rfl)
  have hphase := h.removal.phase
  -- once the unregistration is over, nothing is active, and the last closer destroys the control
  have hquiet : s.registered = false → s.unregistering = false → s.active = 0 :=
    fun hreg hun => (over_of_phase hphase hreg hun).2.2
  apply h.move (t := t) (p := .closed (!s.registered && s.active = 0 && !s.unregistering && !s.destroying)) rfl
  case hphase => exact hphase
  case hduty =>
    intro hreg hun _
    simp only [ControlSys.closeSection, setPc] at hreg hun ⊢
    cases hd : s.destroying with
    | true => rfl
    | false => simp [hreg, hun, hquiet hreg hun]
  case hfreed =>
    simp only [ControlSys.closeSection, setPc, hp]
    cases hd : s.destroying <;> simp
  case hfd =>
    intro u hu
    simp only [ControlSys.closeSection, setPc, hc]
    exact ⟨fun he => absurd (ControlFd.closing.inj he).symm hu, fun he => by cases he⟩
  case hfm =>
    intro u hu
    simp only [ControlSys.closeSection, setPc, hlock]
    exact ⟨fun he => (by cases he), fun he => absurd (Option.some.inj he).symm hu⟩
  all_goals simp_all [setPc, ControlSys.closeSection]

theorem Inv.closeDone (h : s.Inv) {destroy : Bool} (hp : s.pc t = .closed destroy) : (s.closeDone t destroy).Inv := by
  have hc := h.descriptor.closing t
  have hl := (h.descriptor.lock t).1 (by rw [hp]; rfl)
  rw [ControlSys.closeDone]
  dsimp only
  split
  all_goals
    apply h.move (t := t) rfl
    case hphase => exact h.removal.phase
    case hduty => exact h.removal.duty
    case hopened => exact h.descriptor.opened
    case hrefs => exact h.descriptor.refs
    case hfm =>
      intro u hu
      simp [setPc, hl, Ne.symm hu]
    case hfreed =>
      simp only [setPc, hp]
      cases destroy with
      | true =>
        simp
        omega
      | false => simp
    all_goals simp_all [setPc]

theorem Inv.freeLoad (h : s.Inv) (hp : s.pc t = .freeing none) :
    { s.setPc t (.freeing (some s.refs)) with fdLock := some t }.Inv := by
  have hc := h.descriptor.closing t
  have hl := h.descriptor.lock t
  apply h.move (t := t) (p := .freeing (some s.refs)) rfl
  case hphase => exact h.removal.phase
  case hduty => exact h.removal.duty
  case hopened => exact h.descriptor.opened
  case hrefs => exact h.descriptor.refs
  all_goals simp_all [setPc]

theorem Inv.freeStore (h : s.Inv) {read : ℕ} (hp : s.pc t = .freeing (some read)) : (s.freeStore t read).Inv := by
  have hc := h.descriptor.closing t
  have hl := h.descriptor.lock t
  apply h.move (t := t) (p := .idle) rfl
  case hphase => exact h.removal.phase
  case hduty => exact h.removal.duty
  case hopened => exact h.descriptor.opened
  case hrefs => exact h.descriptor.refs
  all_goals simp_all [setPc, ControlSys.freeStore]

theorem Inv.enqueue (h : s.Inv) {length : ℕ} : (s.enqueue length).Inv := by
  rw [ControlSys.enqueue]
  split
  · exact h
  · split
    · exact ⟨⟨h.counts.pins, h.counts.active, h.counts.freed⟩,
        ⟨h.descriptor.closing, h.descriptor.lock, h.descriptor.opened, h.descriptor.refs⟩,
        ⟨h.removal.phase, h.removal.writes, h.removal.dispatches, h.removal.requests, h.removal.duty⟩⟩
    · exact ⟨⟨h.counts.pins, h.counts.active, h.counts.freed⟩,
        ⟨h.descriptor.closing, h.descriptor.lock, h.descriptor.opened, h.descriptor.refs⟩,
        ⟨h.removal.phase, h.removal.writes, h.removal.dispatches, h.removal.requests, h.removal.duty⟩⟩

theorem Inv.dup (h : s.Inv) {tables pins : ℕ} (hfd : s.fd = .live (tables + 1) pins) :
    { s with fd := .live (tables + 2) pins }.Inv := by
  have hc := h.descriptor.closing
  have ho := h.descriptor.opened
  have hpins := h.counts.pins
  rw [hfd] at hpins
  refine ⟨⟨hpins, h.counts.active, h.counts.freed⟩, ⟨fun u => ?_, h.descriptor.lock, ?_, ?_⟩,
    ⟨h.removal.phase, h.removal.writes, h.removal.dispatches, h.removal.requests, h.removal.duty⟩⟩
  · rw [hc u, hfd]
    exact ⟨fun he => (by cases he), fun he => (by cases he)⟩
  · rw [ho, hfd]
    exact ⟨fun _ he => (by cases he), fun _ he => (by cases he)⟩
  · intro tables' pins' he
    cases he
    omega

theorem Inv.remove (h : s.Inv) (hpc : s'.pc = s.pc) (hactive : s'.active = s.active) (hfd : s'.fd = s.fd)
    (hfm : s'.fmLock = s.fmLock) (hopened : s'.opened = s.opened)
    (hrequests : s'.requests = s.requests) (hreg : s'.registered = false)
    (hfreed : s'.freed + s'.remover.destroys.toNat + s.destroying.toNat =
      s.freed + s.remover.destroys.toNat + s'.destroying.toNat)
    (hphase : s'.phase) (hduty : s'.unregistering = false → s'.opened = false → s'.destroying = true) : s'.Inv := by
  obtain ⟨n, hn, hf⟩ := h.counts.freed
  refine ⟨⟨?_, ?_, ⟨n, ?_, by omega⟩⟩, ⟨?_, ?_, ?_, ?_⟩, ⟨hphase, fun u _ => hreg, ?_, ?_, fun _ => hduty⟩⟩
  · rw [hpc, hfd]
    exact h.counts.pins
  · rw [hpc, hactive]
    exact h.counts.active
  · rw [hpc]
    exact hn
  · rw [hpc, hfd]
    exact h.descriptor.closing
  · rw [hpc, hfm]
    exact h.descriptor.lock
  · rw [hopened, hfd]
    exact h.descriptor.opened
  · rw [hfd]
    exact h.descriptor.refs
  · rw [hpc]
    exact h.removal.dispatches
  · rw [hrequests]
    exact h.removal.requests

theorem Inv.unregister (h : s.Inv) (hr : s.remover = .pending) : s.unregister.Inv := by
  have hphase := h.removal.phase
  rw [ControlSys.phase, hr] at hphase
  apply Inv.remove h (show s.unregister.pc = s.pc from rfl) rfl rfl rfl rfl rfl rfl
  · simp [ControlSys.unregister, hr]
  · refine ⟨rfl, rfl, hphase.2.2.2.1, fun hw => ?_, fun hi => ?_⟩
    · have hzero : s.active = 0 := by simpa using hw
      exact hzero
    · have := hphase.2.2.2.2
      simp only [ControlSys.unregister] at hi
      omega
  · intro hu
    cases hu

theorem Inv.await (h : s.Inv) {wait : Bool} (hr : s.remover = .waiting wait) (hs : s.await wait = some s') :
    s'.Inv := by
  have hphase := h.removal.phase
  rw [ControlSys.phase, hr] at hphase
  obtain ⟨hreg, hun, hradio, hwait, hidle⟩ := hphase
  rw [ControlSys.await] at hs
  cases wait with
  | true =>
    rw [if_pos rfl] at hs
    cases hi : s.idleSem with
    | zero =>
      rw [hi] at hs
      cases hs
    | succ n =>
      rw [hi] at hs
      cases hs
      refine h.remove rfl rfl rfl rfl rfl rfl hreg ?_ ?_ ?_
      · simp [hr]
      · exact ⟨hreg, hun, hradio, rfl, hidle (by omega)⟩
      · intro hu
        rw [hun] at hu
        cases hu
  | false =>
    rw [if_neg Bool.false_ne_true] at hs
    cases hs
    refine h.remove rfl rfl rfl rfl rfl rfl hreg ?_ ?_ ?_
    · simp [hr]
    · exact ⟨hreg, hun, hradio, rfl, hwait rfl⟩
    · intro hu
      rw [hun] at hu
      cases hu

theorem Inv.detach (h : s.Inv) (hr : s.remover = .unnamed) : s.detach.Inv := by
  have hphase := h.removal.phase
  rw [ControlSys.phase, hr] at hphase
  obtain ⟨hreg, -, -, hnamed, hactive⟩ := hphase
  apply Inv.remove h (show s.detach.pc = s.pc from rfl) rfl rfl rfl rfl rfl hreg
  · simp only [ControlSys.detach, hr]
    cases hd : s.destroying <;> simp
  · exact ⟨hreg, rfl, hnamed, hactive⟩
  · intro _ ho
    have ho : s.opened = false := ho
    simp only [ControlSys.detach, ho]
    cases s.destroying <;> rfl

theorem Inv.release (h : s.Inv) {destroy : Bool} (hr : s.remover = .detached destroy) : (s.release destroy).Inv := by
  have hphase := h.removal.phase
  rw [ControlSys.phase, hr] at hphase
  apply Inv.remove h (show (s.release destroy).pc = s.pc from rfl) rfl rfl rfl rfl rfl hphase.1
  · simp only [ControlSys.release, hr]
    cases destroy <;> simp
  · exact hphase
  · exact h.removal.duty hphase.1

theorem Inv.step (h : s.Inv) (hs : step s e = some s') : s'.Inv := by
  cases e with
  | openFile t =>
    simp only [ControlSys.step] at hs
    split_ifs at hs with hp
    exact h.openFile hp hs
  | enter t =>
    cases hp : s.pc t <;> simp only [ControlSys.step, hp] at hs <;> cases hs
    exact h.enter hp
  | «open» t =>
    cases hp : s.pc t <;> simp only [ControlSys.step, hp] at hs <;> cases hs
    exact h.open hp
  | giveUp t =>
    cases hp : s.pc t <;> simp only [ControlSys.step, hp] at hs <;> try cases hs
    exact h.giveUp hp hs
  | leave t =>
    cases hp : s.pc t <;> simp only [ControlSys.step, hp] at hs <;> cases hs
    exact h.leave hp
  | read t count nonblock | write t =>
    simp only [ControlSys.step] at hs
    split_ifs at hs with hp
    exact h.pin hp.1 rfl rfl (by simp) hs
  | readSection t =>
    cases hp : s.pc t <;> simp only [ControlSys.step, hp] at hs <;> cases hs
    exact h.readSection hp
  | wake t result =>
    cases hp : s.pc t <;> simp only [ControlSys.step, hp] at hs <;> cases hs
    split
    · exact h.goOn (p := .reading _ _) hp rfl rfl rfl (by simp) (by simp) s.queue fun r hr => .inl hr
    · exact h.goOn (p := .putting _) hp rfl rfl rfl (by simp) (by simp) s.queue fun r hr => .inl hr
  | writeSection t =>
    cases hp : s.pc t <;> simp only [ControlSys.step, hp] at hs <;> cases hs
    exact h.writeSection hp
  | dispatch t result =>
    cases hp : s.pc t <;> simp only [ControlSys.step, hp] at hs <;> cases hs
    exact h.dispatch hp
  | writeFinish t =>
    cases hp : s.pc t <;> simp only [ControlSys.step, hp] at hs <;> cases hs
    exact h.writeFinish hp
  | put t =>
    cases hp : s.pc t <;> simp only [ControlSys.step, hp] at hs <;> try cases hs
    split_ifs at hs
    exact h.put hp hs
  | dup =>
    simp only [ControlSys.step] at hs
    split at hs
    next tables pins hfd =>
      split_ifs at hs
      cases hs
      exact h.dup hfd
    next => cases hs
  | close t =>
    simp only [ControlSys.step] at hs
    split_ifs at hs with hp
    exact h.close hp.1 hs
  | retry t =>
    simp only [ControlSys.step] at hs
    split_ifs at hs with hp
    cases hs
    exact h.retry hp.1 hp.2
  | closeSection t =>
    cases hp : s.pc t <;> simp only [ControlSys.step, hp] at hs <;> try cases hs
    split_ifs at hs with hlock hrefs
    · cases hs
      exact h.refuseClose hp
    · cases hs
      exact h.closeSection hp hlock
  | closeDone t =>
    cases hp : s.pc t <;> simp only [ControlSys.step, hp] at hs <;> cases hs
    exact h.closeDone hp
  | freeLoad t =>
    simp only [ControlSys.step] at hs
    split_ifs at hs with hp
    cases hs
    exact h.freeLoad hp.1
  | freeStore t =>
    simp only [ControlSys.step] at hs
    split at hs
    next read hp =>
      cases hs
      exact h.freeStore hp
    next => cases hs
  | enqueue length =>
    cases hs
    exact h.enqueue
  | unregister =>
    simp only [ControlSys.step] at hs
    split_ifs at hs with hr
    cases hs
    exact h.unregister hr
  | await =>
    cases hr : s.remover <;> simp only [ControlSys.step, hr] at hs <;> try cases hs
    exact h.await hr hs
  | detach =>
    simp only [ControlSys.step] at hs
    split_ifs at hs with hr
    cases hs
    exact h.detach hr
  | release =>
    cases hr : s.remover <;> simp only [ControlSys.step, hr] at hs <;> cases hs
    exact h.release hr

/-! The file node. -/

/-- The file node is in the table as long as something refers to it. -/
structure Node (s : ControlSys) : Prop where
  count : ∃ n, Counted ControlPc.inPath s.pc n ∧ s.refs = n + s.fd.isLive.toNat
  hashed : s.hashed = true ↔ 0 < s.refs
  entering : ∀ t read, s.pc t = .entering read → s.hashed = true

/-- When a close is to destroy the control, nothing else refers to the file node; when the unregistration is to, the
file node is out of the table, or an open that has failed is about to take it out. No two changes of
`fnode->ref_count` overlap, and `fd_free` finds another reference to the file node that it has left in the table. -/
def Orderly (s : ControlSys) : ControlEvent → Prop
  | .closeSection _ => s.registered = false → s.unregistering = false → s.refs = 1
  | .detach => s.opened = false → s.hashed = true → s.refs = 1 ∧ ∃ u, (s.pc u).gaveUp = true
  | .enter t => ∀ read, s.pc t = .entering read → s.refs = read
  | .leave t => ∀ read r, s.pc t = .leaving read r → s.refs = read
  | .freeStore t => ∀ read, s.pc t = .freeing (some read) → s.refs = read ∧ read ≠ 1
  | _ => True

theorem node_init : init.Node where
  count := ⟨0, counted_zero fun _ => rfl, rfl⟩
  hashed := ⟨fun h => (by cases h), fun h => (by cases h)⟩
  entering t read h := by cases h

theorem Node.pos (h : s.Node) (hp : (s.pc t).inPath = true) : 0 < s.refs := by
  obtain ⟨n, hn, hrefs⟩ := h.count
  have := hn.pos hp
  omega

theorem Node.move (h : s.Node) (hpc : s'.pc = Function.update s.pc t p)
    (hcount : s'.refs + s.fd.isLive.toNat + (s.pc t).inPath.toNat = s.refs + s'.fd.isLive.toNat + p.inPath.toNat)
    (hhashed : s'.hashed = true ↔ 0 < s'.refs) (hp : ∀ read, p = .entering read → s'.hashed = true)
    (hother : ∀ u read, u ≠ t → s.pc u = .entering read → s'.hashed = true) : s'.Node := by
  obtain ⟨n, hn, hrefs⟩ := h.count
  have hpath : (s.pc t).inPath.toNat ≤ n := by
    cases hpt : (s.pc t).inPath with
    | false => exact Nat.zero_le n
    | true => exact hn.pos hpt
  refine ⟨⟨n + p.inPath.toNat - (s.pc t).inPath.toNat, ?_, by omega⟩, hhashed, fun u read hu => ?_⟩
  · rw [hpc]
    exact hn.update (by omega)
  · rw [hpc] at hu
    by_cases hut : u = t
    · rw [hut, Function.update_self] at hu
      exact hp read hu
    · rw [Function.update_of_ne hut] at hu
      exact hother u read hut hu

theorem Node.keep (h : s.Node) (hpc : s'.pc = Function.update s.pc t p) (hrefs : s'.refs = s.refs)
    (hhashed : s'.hashed = s.hashed)
    (hcount : s.fd.isLive.toNat + (s.pc t).inPath.toNat = s'.fd.isLive.toNat + p.inPath.toNat)
    (hp : ∀ read, p ≠ .entering read) : s'.Node := by
  apply h.move hpc
  · omega
  · rw [hhashed, hrefs]
    exact h.hashed
  · exact fun read he => absurd he (hp read)
  · rw [hhashed]
    exact fun u read _ hu => h.entering u read hu

theorem Node.congr (h : s.Node) (hpc : s'.pc = s.pc) (hrefs : s'.refs = s.refs) (hhashed : s'.hashed = s.hashed)
    (hfd : s'.fd.isLive = s.fd.isLive) : s'.Node := by
  constructor
  · rw [hpc, hrefs, hfd]
    exact h.count
  · rw [hhashed, hrefs]
    exact h.hashed
  · rw [hpc, hhashed]
    exact h.entering

theorem Node.pinned (h : s.Node) (hq : (s.pc t).inPath = false) (hp : p.pinned = true) (hpc : s'.pc = Function.update s.pc t p)
    (hrefs : s'.refs = s.refs) (hhashed : s'.hashed = s.hashed) (hfd : s'.fd.isLive = s.fd.isLive) : s'.Node := by
  obtain ⟨-, -, -, hpath⟩ := locks_of_pinned hp
  apply h.keep hpc hrefs hhashed
  · rw [hfd, hq, hpath]
  · rintro read rfl
    cases hp

/-- Nobody but the holder of `fm_lock` has read the count in order to enter. -/
theorem Inv.not_entering (h : s.Inv) (hl : (s.pc t).locks = true) {u : ℕ} (hu : u ≠ t) {read : ℕ} :
    s.pc u ≠ .entering read := by
  intro he
  have hu' := (h.descriptor.lock u).1 (by rw [he]; rfl)
  rw [(h.descriptor.lock t).1 hl] at hu'
  exact hu (Option.some.inj hu').symm

theorem Node.openFile (h : s.Node) (hp : s.pc t = .idle) (hs : s.openFile t = some s') : s'.Node := by
  rw [ControlSys.openFile] at hs
  cases hm : s.fmLock with
  | some u =>
    rw [hm] at hs
    cases hs
  | none =>
    rw [hm] at hs
    by_cases hf : s.hashed = true
    · simp only [if_pos hf] at hs
      cases hs
      refine h.move (t := t) (p := .entering s.refs) rfl ?_ h.hashed (fun _ _ => hf) fun _ _ _ _ => hf
      rw [hp]
      rfl
    · simp only [if_neg hf] at hs
      split_ifs at hs with hn <;> cases hs
      · have hzero : s.refs = 0 := by
          by_contra hne
          exact hf (h.hashed.2 (Nat.pos_of_ne_zero hne))
        refine h.move (t := t) (p := .opening true) rfl ?_ ⟨fun _ => Nat.one_pos, fun _ => rfl⟩ (fun _ he => by cases he)
          fun _ _ _ _ => rfl
        rw [hp, hzero]
        simp only [setPc, ControlPc.inPath, Bool.toNat_true, Bool.toNat_false]
        omega
      · refine h.keep (t := t) (p := .idle) rfl rfl rfl ?_ fun _ he => by cases he
        rw [hp]
        rfl

theorem Node.open (h : s.Node) (hi : s.Inv) {locked : Bool} (hp : s.pc t = .opening locked) :
    (s.openSection t locked).Node := by
  obtain ⟨r, he⟩ | ⟨-, -, hfd, he⟩ := openSection_cases hi t locked
  · rw [he]
    exact h.keep (t := t) rfl rfl rfl (by rw [hp]; rfl) fun _ he => by cases he
  · rw [he]
    refine h.keep (t := t) (p := .idle) rfl rfl rfl ?_ fun _ he => by cases he
    rw [hp, hfd]
    rfl

theorem Node.step (hi : s.Inv) (h : s.Node) (ho : Orderly s e) (hs : step s e = some s') : s'.Node := by
  cases e with
  | openFile t =>
    simp only [ControlSys.step] at hs
    split_ifs at hs with hp
    exact h.openFile hp hs
  | enter t =>
    cases hp : s.pc t <;> simp only [ControlSys.step, hp] at hs <;> cases hs
    rename_i read
    have hread : s.refs = read := ho read hp
    have hhash := h.entering t read hp
    refine h.move (t := t) (p := .opening false) rfl ?_ ⟨fun _ => Nat.succ_pos _, fun _ => hhash⟩ (fun _ he => by cases he)
      fun _ _ _ _ => hhash
    rw [hp, hread]
    simp only [ControlSys.enter, setPc, ControlPc.inPath, Bool.toNat_true, Bool.toNat_false]
    omega
  | «open» t =>
    cases hp : s.pc t <;> simp only [ControlSys.step, hp] at hs <;> cases hs
    exact h.open hi hp
  | giveUp t =>
    cases hp : s.pc t <;> simp only [ControlSys.step, hp] at hs <;> try cases hs
    rw [ControlSys.giveUp] at hs
    split_ifs at hs
    cases hs
    exact h.keep (t := t) rfl rfl rfl (by rw [hp]; rfl) fun _ he => by cases he
  | leave t =>
    cases hp : s.pc t <;> simp only [ControlSys.step, hp] at hs <;> cases hs
    rename_i read r
    have hread : s.refs = read := ho read r hp
    have hpos : 0 < read := hread ▸ h.pos (t := t) (by rw [hp]; rfl)
    have hhash : s.hashed = true := h.hashed.2 (by omega)
    refine h.move (t := t) (p := .idle) rfl ?_ ?_ (fun _ he => by cases he) fun u v hu he =>
      absurd he (hi.not_entering (t := t) (by rw [hp]; rfl) hu)
    · rw [hp, hread]
      simp only [ControlSys.leave, setPc, ControlSys.ret, ControlPc.inPath, Bool.toNat_true, Bool.toNat_false]
      omega
    · simp only [ControlSys.leave, hhash, Bool.true_and, decide_eq_true_eq]
      omega
  | read t count nonblock | write t =>
    simp only [ControlSys.step, ControlSys.pin] at hs
    split_ifs at hs with hp
    split at hs <;> cases hs
    next hfd => exact h.pinned (t := t) (by rw [hp.1]; rfl) rfl rfl rfl rfl (by rw [hfd]; rfl)
  | readSection t =>
    cases hp : s.pc t <;> simp only [ControlSys.step, hp] at hs <;> cases hs
    rw [ControlSys.readSection]
    split <;> split_ifs <;> exact h.pinned (t := t) (by rw [hp]; rfl) rfl rfl rfl rfl rfl
  | wake t result =>
    cases hp : s.pc t <;> simp only [ControlSys.step, hp] at hs <;> cases hs
    split_ifs <;> exact h.pinned (t := t) (by rw [hp]; rfl) rfl rfl rfl rfl rfl
  | writeSection t =>
    cases hp : s.pc t <;> simp only [ControlSys.step, hp] at hs <;> cases hs
    rw [ControlSys.writeSection]
    split_ifs <;> exact h.pinned (t := t) (by rw [hp]; rfl) rfl rfl rfl rfl rfl
  | dispatch t result | writeFinish t =>
    cases hp : s.pc t <;> simp only [ControlSys.step, hp] at hs <;> cases hs
    exact h.pinned (t := t) (by rw [hp]; rfl) rfl rfl rfl rfl rfl
  | put t =>
    cases hp : s.pc t <;> simp only [ControlSys.step, ControlSys.put, hp] at hs <;> try cases hs
    split_ifs at hs
    split at hs
    next hfd =>
      split_ifs at hs <;> cases hs
      · refine h.keep (t := t) (p := .idle) rfl rfl rfl ?_ fun _ he => by cases he
        rw [hp, hfd]
        rfl
      · refine h.keep (t := t) (p := .closing true) rfl rfl rfl ?_ fun _ he => by cases he
        rw [hp, hfd]
        rfl
    next => cases hs
  | dup =>
    simp only [ControlSys.step] at hs
    split at hs
    next hfd =>
      split_ifs at hs
      cases hs
      exact h.congr rfl rfl rfl (by rw [hfd]; rfl)
    next => cases hs
  | close t =>
    simp only [ControlSys.step, ControlSys.close] at hs
    split_ifs at hs with hp
    split at hs
    next hfd =>
      split_ifs at hs <;> cases hs
      · refine h.keep (t := t) (p := .idle) rfl rfl rfl ?_ fun _ he => by cases he
        rw [hp.1, hfd]
        rfl
      · refine h.keep (t := t) (p := .closing false) rfl rfl rfl ?_ fun _ he => by cases he
        rw [hp.1, hfd]
        rfl
    next => cases hs
  | retry t =>
    simp only [ControlSys.step] at hs
    split_ifs at hs with hp
    cases hs
    refine h.keep (t := t) (p := .closing true) rfl rfl rfl ?_ fun _ he => by cases he
    rw [hp.1, hp.2]
    rfl
  | closeSection t =>
    cases hp : s.pc t <;> simp only [ControlSys.step, hp] at hs <;> try cases hs
    have hpos := h.pos (t := t) (by rw [hp]; rfl)
    have hfd := (hi.descriptor.closing t).1 (by rw [hp]; rfl)
    rw [if_neg (show ¬s.refs = 0 by omega)] at hs
    split_ifs at hs
    cases hs
    refine h.keep (t := t) rfl rfl rfl ?_ fun _ he => by cases he
    rw [hp, hfd]
    rfl
  | closeDone t =>
    cases hp : s.pc t <;> simp only [ControlSys.step, hp] at hs <;> cases hs
    rw [ControlSys.closeDone]
    dsimp only
    split
    next hone =>
      refine h.move (t := t) (p := .idle) rfl ?_ ⟨fun he => (by cases he), fun he => (by cases he)⟩ (fun _ he => by cases he)
        fun u v hu he => absurd he (hi.not_entering (t := t) (by rw [hp]; rfl) hu)
      rw [hp, hone]
      simp only [setPc, ControlPc.inPath, Bool.toNat_true, Bool.toNat_false]
      omega
    next => exact h.keep (t := t) rfl rfl rfl (by rw [hp]; rfl) fun _ he => by cases he
  | freeLoad t =>
    simp only [ControlSys.step] at hs
    split_ifs at hs with hp
    cases hs
    exact h.keep (t := t) rfl rfl rfl (by rw [hp.1]; rfl) fun _ he => by cases he
  | freeStore t =>
    simp only [ControlSys.step] at hs
    split at hs
    next read hp =>
      cases hs
      obtain ⟨hread, hone⟩ := ho read hp
      have hpos : 0 < read := hread ▸ h.pos (t := t) (by rw [hp]; rfl)
      have hhash : s.hashed = true := h.hashed.2 (by omega)
      refine h.move (t := t) (p := .idle) rfl ?_ ⟨fun _ => ?_, fun _ => hhash⟩ (fun _ he => by cases he) fun _ _ _ _ => hhash
      · rw [hp, hread]
        simp only [ControlSys.freeStore, setPc, ControlPc.inPath, Bool.toNat_true, Bool.toNat_false]
        omega
      · simp only [ControlSys.freeStore]
        omega
    next => cases hs
  | enqueue length =>
    cases hs
    rw [ControlSys.enqueue]
    split_ifs <;> exact h.congr rfl rfl rfl rfl
  | unregister | detach =>
    simp only [ControlSys.step] at hs
    split_ifs at hs
    cases hs
    exact h.congr rfl rfl rfl rfl
  | await =>
    cases hr : s.remover <;> simp only [ControlSys.step, ControlSys.await, hr] at hs <;> try cases hs
    split_ifs at hs
    · split at hs <;> cases hs
      exact h.congr rfl rfl rfl rfl
    · cases hs
      exact h.congr rfl rfl rfl rfl
  | release =>
    cases hr : s.remover <;> simp only [ControlSys.step, hr] at hs <;> cases hs
    exact h.congr rfl rfl rfl rfl

/-! The end of the control. -/

/-- Once the control is being destroyed, only the one that destroys it has to do with it, and the file node is in
nobody's hands, or in those of one that takes it out of the table. -/
def Safe (s : ControlSys) : Prop :=
  s.destroying = true → s.fd = .none ∧ s.registered = false ∧ s.unregistering = false ∧
    (s.hashed = true → s.refs = 1 ∧ ∃ u, ((s.pc u).destroys || (s.pc u).gaveUp) = true)

theorem locks_of_ends (hp : (p.destroys || p.gaveUp) = true) : p.locks = true ∧ p.inPath = true := by
  cases p with
  | failing locked r =>
    cases locked with
    | true => exact ⟨rfl, rfl⟩
    | false => cases hp
  | leaving read r => exact ⟨rfl, rfl⟩
  | closed destroy => exact ⟨rfl, rfl⟩
  | _ => cases hp

theorem Safe.ends (hi : s.Inv) (hn : s.Node) (h : s.Safe) (hd : s.destroying = true) (t : ℕ) :
    s.pc t = .idle ∨ ((s.pc t).destroys || (s.pc t).gaveUp) = true := by
  obtain ⟨hfd, -, -, hnode⟩ := h hd
  have hpins := hi.counts.pins
  rw [hfd] at hpins
  have hpin := hpins.of_zero t
  have hclosing := hi.descriptor.closing t
  rw [hfd] at hclosing
  have hpath : (s.pc t).inPath = true → ((s.pc t).destroys || (s.pc t).gaveUp) = true := by
    intro hpt
    obtain ⟨hone, u, hu⟩ := hnode (hn.hashed.2 (hn.pos hpt))
    obtain ⟨n, hcount, hrefs⟩ := hn.count
    rw [hfd, hone] at hrefs
    have hn1 : n = 1 := by simpa using hrefs.symm
    rw [hn1] at hcount
    rw [hcount.eq_of_one hpt (locks_of_ends hu).2]
    exact hu
  cases hp : s.pc t with
  | idle => exact .inl rfl
  | entering read =>
    obtain ⟨-, u, hu⟩ := hnode (hn.entering t read hp)
    have hne : t ≠ u := by
      rintro rfl
      rw [hp] at hu
      cases hu
    exact absurd hp (hi.not_entering (locks_of_ends hu).1 hne)
  | «opening» locked | failing locked r | closed destroy | freeing read => exact .inr (hp ▸ hpath (by rw [hp]; rfl))
  | leaving read r => exact .inr rfl
  | closing put => cases hclosing.1 (by rw [hp]; rfl)
  | _ =>
    rw [hp] at hpin
    cases hpin

theorem Safe.remover (hi : s.Inv) (h : s.Safe) (hd : s.destroying = true) :
    s.named = false ∧ ∃ destroy, s.remover = .detached destroy ∨ s.remover = .done := by
  obtain ⟨-, hreg, hun, -⟩ := h hd
  obtain ⟨hrem, hnamed, -⟩ := over_of_phase hi.removal.phase hreg hun
  exact ⟨hnamed, hrem⟩

theorem Safe.openFile (hi : s.Inv) (h : s.Safe) (hd : s.destroying = true) (hs : s.openFile t = some s') :
    s' = s.ret t .enodev := by
  rw [ControlSys.openFile] at hs
  cases hm : s.fmLock with
  | some u =>
    rw [hm] at hs
    cases hs
  | none =>
    have hhash : s.hashed = false := by
      rw [Bool.eq_false_iff]
      intro he
      obtain ⟨-, u, hu⟩ := (h hd).2.2.2 he
      have := (hi.descriptor.lock u).1 (locks_of_ends hu).1
      rw [hm] at this
      cases this
    simp only [hm, hhash, (h.remover hi hd).1, Bool.false_eq_true, if_false, Option.some.injEq] at hs
    exact hs.symm

theorem step_destroying (he : ∀ t, e ≠ .closeSection t) (he' : e ≠ .detach) (hs : step s e = some s') :
    s'.destroying = s.destroying := by
  cases e with
  | openFile t =>
    cases hm : s.fmLock with
    | some u =>
      simp only [ControlSys.step, ControlSys.openFile, hm] at hs
      split_ifs at hs
    | none =>
      simp only [ControlSys.step, ControlSys.openFile, hm] at hs
      split_ifs at hs <;> cases hs <;> rfl
  | enter t | leave t | wake t result | dispatch t result | writeFinish t =>
    cases hp : s.pc t <;> simp only [ControlSys.step, hp] at hs <;> cases hs
    rfl
  | «open» t =>
    cases hp : s.pc t <;> simp only [ControlSys.step, hp] at hs <;> cases hs
    rw [openSection]
    split_ifs <;> rfl
  | giveUp t =>
    cases hp : s.pc t <;> simp only [ControlSys.step, ControlSys.giveUp, hp] at hs <;> try cases hs
    split_ifs at hs
    cases hs
    rfl
  | read t count nonblock | write t =>
    simp only [ControlSys.step, ControlSys.pin] at hs
    split_ifs at hs
    split at hs <;> cases hs
    rfl
  | readSection t =>
    cases hp : s.pc t <;> simp only [ControlSys.step, hp] at hs <;> cases hs
    rw [ControlSys.readSection]
    split <;> split_ifs <;> rfl
  | writeSection t =>
    cases hp : s.pc t <;> simp only [ControlSys.step, hp] at hs <;> cases hs
    rw [ControlSys.writeSection]
    split_ifs <;> rfl
  | put t =>
    cases hp : s.pc t <;> simp only [ControlSys.step, ControlSys.put, hp] at hs <;> try cases hs
    split_ifs at hs
    split at hs
    · split_ifs at hs <;> cases hs <;> rfl
    · cases hs
  | dup =>
    simp only [ControlSys.step] at hs
    split at hs
    · split_ifs at hs
      cases hs
      rfl
    · cases hs
  | close t =>
    simp only [ControlSys.step, ControlSys.close] at hs
    split_ifs at hs
    split at hs
    · split_ifs at hs <;> cases hs <;> rfl
    · cases hs
  | retry t | freeLoad t | unregister =>
    simp only [ControlSys.step] at hs
    split_ifs at hs
    cases hs
    rfl
  | closeSection t => exact absurd rfl (he t)
  | closeDone t =>
    cases hp : s.pc t <;> simp only [ControlSys.step, hp] at hs <;> cases hs
    rw [ControlSys.closeDone]
    dsimp only
    split <;> rfl
  | freeStore t =>
    simp only [ControlSys.step] at hs
    split at hs <;> cases hs
    rfl
  | enqueue length =>
    cases hs
    rw [ControlSys.enqueue]
    split_ifs <;> rfl
  | await =>
    cases hr : s.remover <;> simp only [ControlSys.step, ControlSys.await, hr] at hs <;> try cases hs
    split_ifs at hs
    · split at hs <;> cases hs
      rfl
    · cases hs
      rfl
  | detach => exact absurd rfl he'
  | release =>
    cases hr : s.remover <;> simp only [ControlSys.step, hr] at hs <;> cases hs
    rfl

theorem Safe.keep (h : s.Safe) (hdes : s'.destroying = s.destroying) (hfd : s'.fd = s.fd)
    (hreg : s'.registered = s.registered) (hun : s'.unregistering = s.unregistering)
    (hnode : s.destroying = true → s'.hashed = true →
      s'.refs = 1 ∧ ∃ u, ((s'.pc u).destroys || (s'.pc u).gaveUp) = true) : s'.Safe := by
  intro hd
  rw [hdes] at hd
  obtain ⟨hfd', hreg', hun', -⟩ := h hd
  exact ⟨hfd.trans hfd', hreg.trans hreg', hun.trans hun', hnode hd⟩

theorem Safe.step (hi : s.Inv) (hn : s.Node) (h : s.Safe) (ho : Orderly s e) (hs : step s e = some s') : s'.Safe := by
  cases hd : s.destroying with
  | true =>
    have hends := h.ends hi hn hd
    obtain ⟨hfd, hreg, hun, hnode⟩ := h hd
    have hunusable : s.unusable = true := by simp [unusable, hreg]
    obtain ⟨-, destroy, hrem⟩ := h.remover hi hd
    -- the calls that may still take a step: none of them, but one that destroys or gives back
    have hnot : ∀ t, (s.pc t).destroys = false → (s.pc t).gaveUp = false → s.pc t = .idle := by
      intro t h1 h2
      rcases hends t with hp | hp
      · exact hp
      · rw [h1, h2] at hp
        cases hp
    cases e with
    | openFile t =>
      simp only [ControlSys.step] at hs
      split_ifs at hs with hp
      rw [h.openFile hi hd hs]
      refine h.keep rfl rfl rfl rfl fun _ hhash => ?_
      obtain ⟨hone, u, hu⟩ := hnode hhash
      refine ⟨hone, u, ?_⟩
      have hut : u ≠ t := by
        rintro rfl
        rw [hp] at hu
        cases hu
      simp only [ControlSys.ret, setPc, Function.update_of_ne hut]
      exact hu
    | giveUp t =>
      cases hp : s.pc t <;> simp only [ControlSys.step, ControlSys.giveUp, hp] at hs <;> try cases hs
      split_ifs at hs
      cases hs
      refine h.keep rfl rfl rfl rfl fun _ hhash => ⟨(hnode hhash).1, t, ?_⟩
      simp only [setPc, Function.update_self]
      rfl
    | leave t =>
      cases hp : s.pc t <;> simp only [ControlSys.step, hp] at hs <;> cases hs
      rename_i read r
      refine h.keep rfl rfl rfl rfl fun _ hhash => ?_
      have hread : s.refs = read := ho read r hp
      simp only [ControlSys.leave, Bool.and_eq_true, decide_eq_true_eq] at hhash
      have hone := (hnode hhash.1).1
      omega
    | closeDone t =>
      cases hp : s.pc t <;> simp only [ControlSys.step, hp] at hs <;> cases hs
      have hhash : s.hashed = true := hn.hashed.2 (hn.pos (t := t) (by rw [hp]; rfl))
      rw [ControlSys.closeDone]
      simp only [if_pos (hnode hhash).1]
      exact h.keep rfl rfl rfl rfl fun _ he => by cases he
    | read t count nonblock =>
      simp only [ControlSys.step, ControlSys.pin, hfd] at hs
      split_ifs at hs
    | write t =>
      simp only [ControlSys.step, ControlSys.pin, hfd] at hs
      split_ifs at hs
    | close t =>
      simp only [ControlSys.step, ControlSys.close, hfd] at hs
      split_ifs at hs
    | retry t =>
      simp only [ControlSys.step] at hs
      split_ifs at hs with hp
      rw [hfd] at hp
      cases hp.2
    | dup =>
      simp only [ControlSys.step, hfd] at hs
      cases hs
    | enqueue length =>
      simp only [ControlSys.step, ControlSys.enqueue, if_pos hunusable] at hs
      cases hs
      exact h
    | closeSection t =>
      cases hp : s.pc t <;> simp only [ControlSys.step, hp] at hs <;> try cases hs
      have := (hi.descriptor.closing t).1 (by rw [hp]; rfl)
      rw [hfd] at this
      cases this
    | release =>
      cases hr : s.remover <;> simp only [ControlSys.step, hr] at hs <;> cases hs
      exact h.keep rfl rfl rfl rfl fun _ => hnode
    | unregister | detach =>
      simp only [ControlSys.step] at hs
      split_ifs at hs with hr
      rcases hrem with hrem | hrem <;> rw [hrem] at hr <;> cases hr
    | await => rcases hrem with hrem | hrem <;> simp only [ControlSys.step, hrem] at hs <;> cases hs
    | freeLoad t =>
      simp only [ControlSys.step] at hs
      split_ifs at hs with hp
      have := hnot t (by rw [hp.1]; rfl) (by rw [hp.1]; rfl)
      rw [hp.1] at this
      cases this
    | freeStore t =>
      simp only [ControlSys.step] at hs
      split at hs
      next read hp =>
        have := hnot t (by rw [hp]; rfl) (by rw [hp]; rfl)
        rw [hp] at this
        cases this
      next => cases hs
    | enter t | «open» t | readSection t | wake t | writeSection t | dispatch t | writeFinish t | put t =>
      cases hp : s.pc t <;> simp only [ControlSys.step, hp] at hs <;> try cases hs
      have := hnot t (by rw [hp]; rfl) (by rw [hp]; rfl)
      rw [hp] at this
      cases this
  | false =>
    intro hd'
    cases e with
    | closeSection t =>
      cases hp : s.pc t <;> simp only [ControlSys.step, hp] at hs <;> try cases hs
      rename_i put
      have hpos := hn.pos (t := t) (by rw [hp]; rfl)
      rw [if_neg (show ¬s.refs = 0 by omega)] at hs
      split_ifs at hs
      cases hs
      have hdes : (!s.registered && s.active = 0 && !s.unregistering && !s.destroying) = true := by
        simpa only [ControlSys.closeSection, hd, Bool.false_or] using hd'
      have hflags := hdes
      simp only [Bool.and_eq_true, Bool.not_eq_true'] at hflags
      obtain ⟨⟨⟨hreg, -⟩, hun⟩, -⟩ := hflags
      refine ⟨rfl, hreg, hun, fun _ => ⟨ho hreg hun, t, ?_⟩⟩
      simp only [ControlSys.closeSection, setPc, Function.update_self, hdes]
      rfl
    | detach =>
      simp only [ControlSys.step] at hs
      split_ifs at hs with hr
      cases hs
      have hopened : s.opened = false := by simpa [ControlSys.detach, hd] using hd'
      have hphase := hi.removal.phase
      rw [ControlSys.phase, hr] at hphase
      have hfd : s.fd = .none := by
        by_contra hne
        rw [hi.descriptor.opened.2 hne] at hopened
        cases hopened
      refine ⟨hfd, hphase.1, rfl, fun hhash => ?_⟩
      obtain ⟨hone, u, hu⟩ := ho hopened hhash
      exact ⟨hone, u, by rw [show (s.detach.pc u).gaveUp = true from hu, Bool.or_true]⟩
    | _ =>
      rw [step_destroying (fun _ he => by cases he) (fun he => by cases he) hs, hd] at hd'
      cases hd'

theorem Inv.freed_le (h : s.Inv) : s.freed ≤ 1 := by
  obtain ⟨n, -, hn⟩ := h.counts.freed
  have := Bool.toNat_le s.destroying
  omega

theorem Inv.freed_done (h : s.Inv) (hr : s.remover = .done) (hfd : s.fd = .none) (hpc : ∀ t, s.pc t = .idle) :
    s.freed = 1 := by
  have hphase := h.removal.phase
  rw [ControlSys.phase, hr] at hphase
  have hopened : s.opened = false := by
    rw [Bool.eq_false_iff, ne_eq, h.descriptor.opened, hfd]
    exact fun hne => hne rfl
  have hd := h.removal.duty hphase.1 hphase.2.1 hopened
  obtain ⟨n, hn, hf⟩ := h.counts.freed
  rw [hd, hr] at hf
  have hn0 : n = 0 := by
    by_contra hne
    obtain ⟨t, ht⟩ := hn.exists_of_pos (by omega)
    rw [hpc t] at ht
    cases ht
  simpa [hn0] using hf

theorem Safe.of_freed (hi : s.Inv) (hn : s.Node) (h : s.Safe) (hf : 0 < s.freed) :
    s.fd = .none ∧ (∀ t, s.pc t = .idle ∨ (s.pc t).gaveUp = true) ∧ s.remover.uses = false := by
  obtain ⟨n, hcount, hsum⟩ := hi.counts.freed
  have hd : s.destroying = true := by
    cases hd : s.destroying with
    | true => rfl
    | false =>
      rw [hd] at hsum
      simp at hsum
      omega
  rw [hd] at hsum
  have hn0 : n = 0 ∧ s.remover.destroys.toNat = 0 := by
    simp only [Bool.toNat_true] at hsum
    omega
  refine ⟨(h hd).1, fun t => ?_, ?_⟩
  · rw [hn0.1] at hcount
    have hends := h.ends hi hn hd t
    rwa [hcount.of_zero t, Bool.false_or] at hends
  · obtain ⟨-, destroy, hr | hr⟩ := h.remover hi hd
    · rw [hr] at hn0 ⊢
      cases destroy with
      | true => cases hn0.2
      | false => rfl
    · rw [hr]
      rfl

/-- The control is destroyed once at most, and has been when all is over; no write that began after the
unregistration reaches the radio, and none finds it gone. When nothing else has hold of the file node as it is
decided that the control is to go, it is destroyed only after everything that had to do with it, but for an open that
has failed and gives back its file node. -/
theorem control_destroyed_once {es : List ControlEvent} (h : run step init es = some s) :
    s.freed ≤ 1 ∧ (s.remover = .done → s.fd = .none → (∀ t, s.pc t = .idle) → s.freed = 1) ∧
      (∀ r ∈ s.requests, r.late = false ∧ r.radio = true) ∧
      (Meets step Orderly init es → 0 < s.freed →
        s.fd = .none ∧ (∀ t, s.pc t = .idle ∨ (s.pc t).gaveUp = true) ∧ s.remover.uses = false) := by
  have hi : s.Inv := run_invariant Inv (fun _ _ _ hi hs => hi.step hs) h inv_init
  refine ⟨hi.freed_le, hi.freed_done, hi.removal.requests, fun hm hf => ?_⟩
  have hsafe : s.Inv ∧ s.Node ∧ s.Safe :=
    run_invariant_of_meets (fun s => s.Inv ∧ s.Node ∧ s.Safe)
      (fun _ _ _ hi ho hs => ⟨hi.1.step hs, hi.2.1.step hi.1 ho hs, hi.2.2.step hi.1 hi.2.1 ho hs⟩) h hm
      ⟨inv_init, node_init, fun hd => by cases hd⟩
  exact hsafe.2.2.of_freed hi hsafe.2.1 hf

def demoRun : List ControlEvent :=
  [.openFile 0, .open 0, .write 0, .writeSection 0, .unregister, .dispatch 0 0, .writeFinish 0, .put 0, .await,
    .detach, .release, .close 0, .closeSection 0, .closeDone 0]

theorem control_destroyed_once_demo :
    ∃ s, run step init demoRun = some s ∧ s.freed = 1 ∧ s.requests.length = 1 ∧ s.fd = .none ∧
      (∀ t, s.pc t = .idle ∨ (s.pc t).gaveUp = true) ∧ s.remover.uses = false := by
  refine ⟨_, rfl, rfl, rfl, ?_⟩
  refine (@control_destroyed_once _ demoRun rfl).2.2.2 ?_ Nat.one_pos
  iterate 9 refine ⟨trivial, fun s hs => ?_⟩; cases hs
  refine ⟨fun ho => (by cases ho), fun s hs => ?_⟩
  cases hs
  iterate 2 refine ⟨trivial, fun s hs => ?_⟩; cases hs
  refine ⟨fun _ _ => rfl, fun s hs => ?_⟩
  cases hs
  exact ⟨trivial, fun s hs => trivial⟩

/-- The radio is unregistered while an open of the device that has been found is still to take the lock. -/
theorem control_destroyed_under_open :
    ∃ es s, run step init es = some s ∧ s.freed = 1 ∧ s.pc 0 = .opening true :=
  ⟨[.openFile 0, .unregister, .await, .detach, .release], _, rfl, rfl, rfl⟩

/-- An open that fails holds the file node while the device is closed; `fd_free` then frees it without taking it out of
the table, and an open that comes after the unregistration finds it there. -/
theorem freed_node_found :
    ∃ es s, run step init es = some s ∧ s.freed = 1 ∧ s.pc 2 = .opening false :=
  ⟨[.openFile 0, .open 0, .close 0, .openFile 1, .enter 1, .open 1, .closeSection 0, .closeDone 0, .giveUp 1, .leave 1,
    .freeLoad 0, .freeStore 0, .unregister, .await, .detach, .release, .openFile 2, .enter 2], _, rfl, rfl, rfl⟩

end ControlSys

end RtSmart
