import RtSmart.Drivers.MmcsdBlk

/-! The removal of a card against the calls on its block devices. -/

namespace RtSmart

open Lib

/-- An open of the device is between its callback and the end of its increment. -/
def MmcsdPc.admits (d : ℕ) : MmcsdPc → Bool
  | .admitted d' | .increment d' _ => d' = d
  | _ => false

def MmcsdPc.closes (d : ℕ) : MmcsdPc → Bool
  | .closeCall d' | .closeLoad d' | .decrement d' _ | .closeTest d' | .closing d' | .closeTail d' => d' = d
  | _ => false

def MmcsdPc.finishes (d : ℕ) : MmcsdPc → Bool
  | .closeTest d' | .closing d' | .closeTail d' => d' = d
  | _ => false

theorem MmcsdPc.off {p : MmcsdPc} {d : ℕ} (h : p.device ≠ some d) :
    p.admits d = false ∧ p.closes d = false ∧ p.finishes d = false := by
  cases p with
  | idle => exact ⟨rfl, rfl, rfl⟩
  | _ => simp_all [admits, closes, finishes, device]

theorem MmcsdPc.closes_of_finishes {d : ℕ} (p : MmcsdPc) (h : p.finishes d = true) : p.closes d = true := by
  cases p <;> first | exact h | cases h

namespace MmcsdSys

variable {s s' : MmcsdSys} {t d : ℕ} {p : MmcsdPc} {b : MmcsdBlk} {e : MmcsdEvent} {devices : List ℕ}

/-- No open of the device is counted or about to be, and no other one is let in. -/
structure Sealed (s : MmcsdSys) (d : ℕ) : Prop where
  removing : (s.blk d).removing = true
  refCount : (s.blk d).refCount = 0
  admits : ∀ t, (s.pc t).admits d = false

/-- The device is registered, and its memory is there. -/
def Live (s : MmcsdSys) (d : ℕ) : Prop :=
  (s.blk d).registered = true ∧ (s.blk d).freed = false

def RemoverOk (s : MmcsdSys) : MmcsdRemover → Prop
  | .idle | .returned false => ∀ d ∈ s.devices, s.Live d ∧ (s.blk d).removing = false
  | .marking rest => rest ⊆ s.devices ∧ ∀ d ∈ s.devices, s.Live d ∧ (d ∉ rest → (s.blk d).removing = true)
  | .unmounting _ => ∀ d ∈ s.devices, s.Live d ∧ (s.blk d).removing = true
  | .checking rest => ∀ d ∈ s.devices, s.Live d ∧ (s.blk d).removing = true ∧ (d ∉ rest → s.Sealed d)
  | .freeing rest => rest ⊆ s.devices ∧ ∀ d ∈ s.devices, s.Sealed d ∧ (d ∉ rest → (s.blk d).freed = true)
  | .unregistered d rest => d :: rest ⊆ s.devices ∧ (s.blk d).registered = false ∧
      ∀ d' ∈ s.devices, s.Sealed d' ∧ (d' ∉ d :: rest → (s.blk d').freed = true)
  | .restoring rest => rest ⊆ s.devices ∧ ∀ d ∈ s.devices, s.Live d ∧ (d ∉ rest → (s.blk d).removing = false)
  | .returned true => ∀ d ∈ s.devices, s.Sealed d ∧ (s.blk d).freed = true

structure Inv (s : MmcsdSys) : Prop where
  refs : ∀ d, ∃ n, Counted (MmcsdPc.finishes d) s.pc n ∧ (s.blk d).refCount + n = (s.blk d).held
  closers : ∀ d, Counted (MmcsdPc.closes d) s.pc (s.blk d).closers ∧ (s.blk d).closers ≤ (s.blk d).held
  small : ∀ d, (s.blk d).refCount < 256
  opened : ∀ t d, (s.pc t).admits d = true → (s.blk d).opened = true
  remover : s.RemoverOk s.remover
  unheld : ∀ d, (s.blk d).registered = false → s.Sealed d ∧ (s.blk d).held = 0
  gone : ∀ d, (s.blk d).freed = true → (s.blk d).registered = false ∧ ∀ t, (s.pc t).device ≠ some d
  requests : ∀ r ∈ s.requests, r.device ∈ s.devices → r.late = false
  stray : s.stray = false

theorem inv_init (devices : List ℕ) : (init devices).Inv where
  refs _ := ⟨0, counted_zero fun _ => rfl, rfl⟩
  closers _ := ⟨counted_zero fun _ => rfl, le_refl 0⟩
  small _ := Nat.zero_lt_succ 255
  opened t d h := by cases h
  remover _ _ := ⟨⟨rfl, rfl⟩, rfl⟩
  unheld d h := by cases h
  gone d h := by cases h
  requests r h := by cases h
  stray := rfl

theorem Inv.live (h : s.Inv) (hp : (s.pc t).device = some d) : (s.blk d).freed = false := by
  rw [Bool.eq_false_iff]
  exact fun hf => (h.gone d hf).2 t hp

theorem Inv.live_of_held (h : s.Inv) (hd : (s.blk d).registered = true ∨ 0 < (s.blk d).held) :
    (s.blk d).freed = false := by
  rw [Bool.eq_false_iff]
  intro hf
  have hreg := (h.gone d hf).1
  have hheld := (h.unheld d hreg).2
  rw [hreg] at hd
  rcases hd with hd | hd
  · cases hd
  · omega

theorem Inv.finishes_of_sealed (h : s.Inv) (hs : s.Sealed d) (hc : (s.pc t).closes d = true) :
    (s.pc t).finishes d = true := by
  obtain ⟨n, hn, hsum⟩ := h.refs d
  obtain ⟨hcount, hle⟩ := h.closers d
  rw [hs.refCount] at hsum
  exact hcount.of_le hn MmcsdPc.closes_of_finishes (by omega) hc

theorem RemoverOk.congr {r : MmcsdRemover} (h : s.RemoverOk r) (hdev : s'.devices = s.devices)
    (hflags : ∀ d, (s'.blk d).removing = (s.blk d).removing ∧ (s'.blk d).registered = (s.blk d).registered ∧
      (s'.blk d).freed = (s.blk d).freed) (hsealed : ∀ d, s.Sealed d → s'.Sealed d) : s'.RemoverOk r := by
  have hlive : ∀ d, s.Live d → s'.Live d := by
    intro d hd
    rw [Live, (hflags d).2.1, (hflags d).2.2]
    exact hd
  have hfreed : ∀ {l : List ℕ} {d : ℕ}, (d ∉ l → (s.blk d).freed = true) → d ∉ l → (s'.blk d).freed = true := by
    intro l d hd hn
    rw [(hflags d).2.2]
    exact hd hn
  cases r with
  | idle | unmounting rest =>
    intro d hd
    rw [hdev] at hd
    rw [(hflags d).1]
    exact ⟨hlive d (h d hd).1, (h d hd).2⟩
  | marking rest | restoring rest =>
    refine ⟨hdev ▸ h.1, fun d hd => ?_⟩
    rw [hdev] at hd
    rw [(hflags d).1]
    exact ⟨hlive d (h.2 d hd).1, (h.2 d hd).2⟩
  | checking rest =>
    intro d hd
    rw [hdev] at hd
    rw [(hflags d).1]
    exact ⟨hlive d (h d hd).1, (h d hd).2.1, fun hr => hsealed d ((h d hd).2.2 hr)⟩
  | freeing rest =>
    refine ⟨hdev ▸ h.1, fun d hd => ?_⟩
    rw [hdev] at hd
    exact ⟨hsealed d (h.2 d hd).1, hfreed (h.2 d hd).2⟩
  | unregistered d rest =>
    refine ⟨hdev ▸ h.1, (hflags d).2.1.trans h.2.1, fun d' hd => ?_⟩
    rw [hdev] at hd
    exact ⟨hsealed d' (h.2.2 d' hd).1, hfreed (h.2.2 d' hd).2⟩
  | returned ok =>
    cases ok with
    | true =>
      intro d hd
      rw [hdev] at hd
      rw [(hflags d).2.2]
      exact ⟨hsealed d (h d hd).1, (h d hd).2⟩
    | false =>
      intro d hd
      rw [hdev] at hd
      rw [(hflags d).1]
      exact ⟨hlive d (h d hd).1, (h d hd).2⟩

theorem Inv.move (h : s.Inv) (hpc : s'.pc = Function.update s.pc t p) (hblk : s'.blk = Function.update s.blk d b)
    (hdev : s'.devices = s.devices) (hrem : s'.remover = s.remover) (hstray : s'.stray = s.stray)
    (hlive : (s.blk d).freed = false)
    (hon : ∀ d', d' ≠ d → (s.pc t).device ≠ some d' ∧ p.device ≠ some d')
    (hrefs : b.refCount + (p.finishes d).toNat + (s.blk d).held =
      (s.blk d).refCount + ((s.pc t).finishes d).toNat + b.held)
    (hclosers : b.closers + ((s.pc t).closes d).toNat = (s.blk d).closers + (p.closes d).toNat)
    (hle : b.closers ≤ b.held) (hsmall : b.refCount < 256) (hself : p.admits d = true → b.opened = true)
    (hopened : ∀ u, u ≠ t → (s.pc u).admits d = true → b.opened = true)
    (hflags : b.removing = (s.blk d).removing ∧ b.registered = (s.blk d).registered ∧ b.freed = (s.blk d).freed)
    (hsealed : s.Sealed d → b.refCount = 0 ∧ p.admits d = false)
    (hunheld : s.Sealed d → (s.blk d).held = 0 → b.held = 0)
    (hreq : ∀ r ∈ s'.requests, r ∈ s.requests ∨ (r.device ∈ s.devices → r.late = false)) : s'.Inv := by
  have hself' : s'.blk d = b := by rw [hblk, Function.update_self]
  have hother : ∀ d', d' ≠ d → s'.blk d' = s.blk d' := fun d' hd => by rw [hblk, Function.update_of_ne hd]
  have hpct : s'.pc t = p := by rw [hpc, Function.update_self]
  have hpcu : ∀ u, u ≠ t → s'.pc u = s.pc u := fun u hu => by rw [hpc, Function.update_of_ne hu]
  have hflags' : ∀ d', (s'.blk d').removing = (s.blk d').removing ∧
      (s'.blk d').registered = (s.blk d').registered ∧ (s'.blk d').freed = (s.blk d').freed := by
    intro d'
    by_cases hd : d' = d
    · rw [hd, hself']
      exact hflags
    · rw [hother d' hd]
      exact ⟨rfl, rfl, rfl⟩
  have hsealed' : ∀ d', s.Sealed d' → s'.Sealed d' := by
    intro d' hs
    by_cases hd : d' = d
    · subst hd
      obtain ⟨href, hadmits⟩ := hsealed hs
      refine ⟨(hflags' d').1.trans hs.removing, ?_, fun u => ?_⟩
      · rw [hself', href]
      · by_cases hu : u = t
        · rw [hu, hpct, hadmits]
        · rw [hpcu u hu, hs.admits u]
    · refine ⟨(hflags' d').1.trans hs.removing, ?_, fun u => ?_⟩
      · rw [hother d' hd, hs.refCount]
      · by_cases hu : u = t
        · rw [hu, hpct, (MmcsdPc.off (hon d' hd).2).1]
        · rw [hpcu u hu, hs.admits u]
  constructor
  case refs =>
    intro d'
    obtain ⟨n, hn, hsum⟩ := h.refs d'
    by_cases hd : d' = d
    · subst hd
      have hnle : ((s.pc t).finishes d').toNat ≤ n := by
        cases hc : (s.pc t).finishes d' with
        | false => exact Nat.zero_le n
        | true => exact hn.pos hc
      refine ⟨n + (p.finishes d').toNat - ((s.pc t).finishes d').toNat, ?_, ?_⟩
      · rw [hpc]
        exact hn.update (by omega)
      · rw [hself']
        omega
    · refine ⟨n, ?_, ?_⟩
      · rw [hpc]
        apply hn.update
        rw [(MmcsdPc.off (hon d' hd).1).2.2, (MmcsdPc.off (hon d' hd).2).2.2]
      · rw [hother d' hd]
        exact hsum
  case closers =>
    intro d'
    obtain ⟨hcount, hcle⟩ := h.closers d'
    rw [hpc]
    by_cases hd : d' = d
    · subst hd
      rw [hself']
      exact ⟨hcount.update hclosers, hle⟩
    · rw [hother d' hd]
      refine ⟨hcount.update ?_, hcle⟩
      rw [(MmcsdPc.off (hon d' hd).1).2.1, (MmcsdPc.off (hon d' hd).2).2.1]
  case small =>
    intro d'
    by_cases hd : d' = d
    · rw [hd, hself']
      exact hsmall
    · rw [hother d' hd]
      exact h.small d'
  case opened =>
    intro u d' hu
    by_cases hd : d' = d
    · subst hd
      rw [hself']
      by_cases hut : u = t
      · rw [hut, hpct] at hu
        exact hself hu
      · rw [hpcu u hut] at hu
        exact hopened u hut hu
    · rw [hother d' hd]
      by_cases hut : u = t
      · rw [hut, hpct, (MmcsdPc.off (hon d' hd).2).1] at hu
        cases hu
      · rw [hpcu u hut] at hu
        exact h.opened u d' hu
  case remover =>
    rw [hrem]
    exact h.remover.congr hdev hflags' hsealed'
  case unheld =>
    intro d' hreg
    rw [(hflags' d').2.1] at hreg
    obtain ⟨hs, hheld⟩ := h.unheld d' hreg
    refine ⟨hsealed' d' hs, ?_⟩
    by_cases hd : d' = d
    · subst hd
      rw [hself']
      exact hunheld hs hheld
    · rw [hother d' hd]
      exact hheld
  case gone =>
    intro d' hf
    rw [(hflags' d').2.2] at hf
    have hd : d' ≠ d := by
      rintro rfl
      rw [hlive] at hf
      cases hf
    obtain ⟨hreg, hdevice⟩ := h.gone d' hf
    refine ⟨(hflags' d').2.1.trans hreg, fun u => ?_⟩
    by_cases hut : u = t
    · rw [hut, hpct]
      exact (hon d' hd).2
    · rw [hpcu u hut]
      exact hdevice u
  case requests =>
    intro r hr hrd
    rw [hdev] at hrd
    exact (hreq r hr).elim (fun hr => h.requests r hr hrd) fun hl => hl hrd
  case stray => exact hstray.trans h.stray

/-- No close clears the mark of an open that the core has not counted yet, and no update of `ref_count` is lost
between another's read and its write. When the removal unregisters a device, no close that has decremented its count
is still in progress; and when it frees the device, every open and request that has found it waits for the lock. -/
def Orderly (s : MmcsdSys) : MmcsdEvent → Prop
  | .closeSection t => ∀ d, s.pc t = .closing d → ∀ u, (s.pc u).admits d = false
  | .incStore t => ∀ d v, s.pc t = .increment d v → (s.blk d).refCount = v
  | .decStore t => ∀ d v, s.pc t = .decrement d v → (s.blk d).refCount = v
  | .unregister => ∀ d rest, s.remover = .freeing (d :: rest) → ∀ t, (s.pc t).finishes d = false
  | .free => ∀ d rest, s.remover = .unregistered d rest → ∀ t,
      s.pc t = .opening d ∨ (∃ kind, s.pc t = .ioCall d kind ∨ s.pc t = .io d kind) → s.waits t = true
  | _ => True

theorem Inv.goTo (h : s.Inv) (hp : (s.pc t).device = some d ∨ s.pc t = .idle) (hq : p.device = some d ∨ p = .idle)
    (hlive : (s.blk d).freed = false) (hcloses : p.closes d = (s.pc t).closes d)
    (hfinishes : p.finishes d = (s.pc t).finishes d) (hadmits : p.admits d = true → (s.pc t).admits d = true) :
    (s.setPc t p).Inv := by
  have hdevice : ∀ {q : MmcsdPc}, q.device = some d ∨ q = .idle → ∀ d', d' ≠ d → q.device ≠ some d' := by
    rintro q (hq | rfl) d' hd he
    · exact hd (Option.some.inj (he.symm.trans hq))
    · cases he
  apply h.move (t := t) (d := d) (p := p) (b := s.blk d)
  case hpc => rfl
  case hblk => exact (Function.update_eq_self d s.blk).symm
  case hdev => rfl
  case hrem => rfl
  case hstray => rfl
  case hlive => exact hlive
  case hon => exact fun d' hd => ⟨hdevice hp d' hd, hdevice hq d' hd⟩
  case hrefs => rw [hfinishes]
  case hclosers => rw [hcloses]
  case hle => exact (h.closers d).2
  case hsmall => exact h.small d
  case hself => exact fun ha => h.opened t d (hadmits ha)
  case hopened => exact fun u _ hu => h.opened u d hu
  case hflags => exact ⟨rfl, rfl, rfl⟩
  case hsealed =>
    refine fun hs => ⟨hs.refCount, ?_⟩
    cases ha : p.admits d with
    | false => rfl
    | true => rw [← hadmits ha, hs.admits t]
  case hunheld => exact fun _ => id
  case hreq => exact fun r hr => .inl hr

theorem Inv.openSection (h : s.Inv) (hp : s.pc t = .opening d) : (s.openSection t d).Inv := by
  have hlive := h.live (t := t) (d := d) (by rw [hp]; rfl)
  rw [MmcsdSys.openSection]
  split_ifs with hremoving
  · exact h.goTo (d := d) (.inl (by rw [hp]; rfl)) (.inr rfl) hlive (by rw [hp]; rfl) (by rw [hp]; rfl) (fun h => by cases h)
  · apply h.move (t := t) (d := d) (b := { s.blk d with opened := true }) (p := .admitted d)
    case hpc => rfl
    case hblk => rfl
    case hdev => rfl
    case hrem => rfl
    case hstray => rfl
    case hlive => exact hlive
    case hon => simp [hp, MmcsdPc.device, eq_comm]
    case hrefs => rw [hp]; rfl
    case hclosers => rw [hp]; rfl
    case hle => exact (h.closers d).2
    case hsmall => exact h.small d
    case hself => exact fun _ => rfl
    case hopened => exact fun _ _ _ => rfl
    case hflags => exact ⟨rfl, rfl, rfl⟩
    case hsealed => exact fun hsealed => absurd ⟨hsealed.removing, hlive⟩ hremoving
    case hunheld => exact fun _ => id
    case hreq => exact fun r hr => .inl hr

theorem Inv.incStore (h : s.Inv) {v : ℕ} (hp : s.pc t = .increment d v) (ho : (s.blk d).refCount = v)
    (hs : s.incStore t d v = some s') : s'.Inv := by
  have hlive := h.live (t := t) (d := d) (by rw [hp]; rfl)
  have hadmits : (s.pc t).admits d = true := by simp [hp, MmcsdPc.admits]
  have hsmall := h.small d
  have hclosers := (h.closers d).2
  rw [MmcsdSys.incStore] at hs
  split_ifs at hs with hwrap
  cases hs
  have hv : (v + 1) % 256 = v + 1 := by omega
  have hnot : ¬s.Sealed d := by
    intro hsealed
    rw [hsealed.admits t] at hadmits
    cases hadmits
  apply h.move (t := t) (d := d)
    (b := { s.blk d with refCount := (v + 1) % 256, held := (s.blk d).held + 1 }) (p := .idle)
  case hpc => rfl
  case hblk => rfl
  case hdev => rfl
  case hrem => rfl
  case hstray => rfl
  case hlive => exact hlive
  case hon => simp [hp, MmcsdPc.device, eq_comm]
  case hrefs =>
    simp only [hp, MmcsdPc.finishes]
    omega
  case hclosers => rw [hp]; rfl
  case hle => exact Nat.le_succ_of_le hclosers
  case hsmall => exact Nat.mod_lt _ (by norm_num)
  case hself => exact fun h => by cases h
  case hopened => exact fun u _ hu => h.opened u d hu
  case hflags => exact ⟨rfl, rfl, rfl⟩
  case hsealed => exact fun hsealed => absurd hsealed hnot
  case hunheld => exact fun hsealed => absurd hsealed hnot
  case hreq => exact fun r hr => .inl hr

theorem Inv.close (h : s.Inv) (hp : s.pc t = .idle) (hs : s.close t d = some s') : s'.Inv := by
  rw [MmcsdSys.close] at hs
  split_ifs at hs with hheld
  cases hs
  apply h.move (t := t) (d := d) (b := { s.blk d with closers := (s.blk d).closers + 1 }) (p := .closeCall d)
  case hpc => rfl
  case hblk => rfl
  case hdev => rfl
  case hrem => rfl
  case hstray => rfl
  case hlive => exact h.live_of_held (.inr (by omega))
  case hon => simp [hp, MmcsdPc.device, eq_comm]
  case hrefs => rw [hp]; rfl
  case hclosers => simp [hp, MmcsdPc.closes]
  case hle => exact hheld
  case hsmall => exact h.small d
  case hself => exact fun h => by cases h
  case hopened => exact fun u _ hu => h.opened u d hu
  case hflags => exact ⟨rfl, rfl, rfl⟩
  case hsealed => exact fun hsealed => ⟨hsealed.refCount, rfl⟩
  case hunheld => exact fun _ => id
  case hreq => exact fun r hr => .inl hr

theorem Inv.closeReturn (h : s.Inv) (hp : (s.pc t).finishes d = true) (hdevice : (s.pc t).device = some d) :
    (s.closeReturn t d).Inv := by
  have hcloses := MmcsdPc.closes_of_finishes _ hp
  obtain ⟨hcount, hle⟩ := h.closers d
  have hpos := hcount.pos hcloses
  apply h.move (t := t) (d := d)
    (b := { s.blk d with held := (s.blk d).held - 1, closers := (s.blk d).closers - 1 }) (p := .idle)
  case hpc => rfl
  case hblk => rfl
  case hdev => rfl
  case hrem => rfl
  case hstray => rfl
  case hlive => exact h.live hdevice
  case hon =>
    refine fun d' hd => ⟨fun he => hd ?_, fun he => by cases he⟩
    exact Option.some.inj (he.symm.trans hdevice)
  case hrefs =>
    rw [hp]
    simp only [MmcsdPc.finishes, Bool.toNat_true, Bool.toNat_false]
    omega
  case hclosers =>
    rw [hcloses]
    simp only [MmcsdPc.closes, Bool.toNat_true, Bool.toNat_false]
    omega
  case hle => exact Nat.sub_le_sub_right hle 1
  case hsmall => exact h.small d
  case hself => exact fun h => by cases h
  case hopened => exact fun u _ hu => h.opened u d hu
  case hflags => exact ⟨rfl, rfl, rfl⟩
  case hsealed => exact fun hsealed => ⟨hsealed.refCount, rfl⟩
  case hunheld =>
    intro _ hheld
    omega
  case hreq => exact fun r hr => .inl hr

theorem Inv.decStore (h : s.Inv) {v : ℕ} (hp : s.pc t = .decrement d v) (ho : (s.blk d).refCount = v) :
    (s.decStore t d v).Inv := by
  have hcloses : (s.pc t).closes d = true := by simp [hp, MmcsdPc.closes]
  have hsmall := h.small d
  have hnot : ¬s.Sealed d := by
    intro hsealed
    have hfinishes := h.finishes_of_sealed hsealed hcloses
    rw [hp] at hfinishes
    cases hfinishes
  have hpos : 0 < v := by
    by_contra hzero
    obtain ⟨n, hn, hsum⟩ := h.refs d
    obtain ⟨hcount, hle⟩ := h.closers d
    have hfinishes := hcount.of_le hn MmcsdPc.closes_of_finishes (by omega) hcloses
    rw [hp] at hfinishes
    cases hfinishes
  have hv : (v + 255) % 256 = v - 1 := by omega
  apply h.move (t := t) (d := d) (b := { s.blk d with refCount := (v + 255) % 256 }) (p := .closeTest d)
  case hpc => rfl
  case hblk => rfl
  case hdev => rfl
  case hrem => rfl
  case hstray => rfl
  case hlive => exact h.live (t := t) (by rw [hp]; rfl)
  case hon => simp [hp, MmcsdPc.device, eq_comm]
  case hrefs =>
    simp only [hp, MmcsdPc.finishes, decide_true, Bool.toNat_true, Bool.toNat_false]
    omega
  case hclosers => rw [hp]; rfl
  case hle => exact (h.closers d).2
  case hsmall => exact Nat.mod_lt _ (by norm_num)
  case hself => exact fun h => by cases h
  case hopened => exact fun u _ hu => h.opened u d hu
  case hflags => exact ⟨rfl, rfl, rfl⟩
  case hsealed => exact fun hsealed => absurd hsealed hnot
  case hunheld => exact fun _ => id
  case hreq => exact fun r hr => .inl hr

theorem Inv.closeSection (h : s.Inv) (hp : s.pc t = .closing d) (ho : ∀ u, (s.pc u).admits d = false) :
    (s.closeSection t d).Inv := by
  apply h.move (t := t) (d := d) (b := { s.blk d with opened := false }) (p := .closeTail d)
  case hpc => rfl
  case hblk => rfl
  case hdev => rfl
  case hrem => rfl
  case hstray => rfl
  case hlive => exact h.live (t := t) (by rw [hp]; rfl)
  case hon => simp [hp, MmcsdPc.device, eq_comm]
  case hrefs => rw [hp]; rfl
  case hclosers => rw [hp]; rfl
  case hle => exact (h.closers d).2
  case hsmall => exact h.small d
  case hself => exact fun h => by cases h
  case hopened =>
    intro u _ hu
    rw [ho u] at hu
    cases hu
  case hflags => exact ⟨rfl, rfl, rfl⟩
  case hsealed => exact fun hsealed => ⟨hsealed.refCount, rfl⟩
  case hunheld => exact fun _ => id
  case hreq => exact fun r hr => .inl hr

theorem Inv.ioSection (h : s.Inv) {kind : MmcsdIo} (hp : s.pc t = .io d kind) : (s.ioSection t d kind).Inv := by
  have hlive := h.live (t := t) (d := d) (by rw [hp]; rfl)
  have hgo : (s.setPc t .idle).Inv :=
    h.goTo (d := d) (.inl (by rw [hp]; rfl)) (.inr rfl) hlive (by rw [hp]; rfl) (by rw [hp]; rfl) (fun h => by cases h)
  rw [MmcsdSys.ioSection]
  split_ifs with hremoving
  · exact hgo
  · refine ⟨hgo.refs, hgo.closers, hgo.small, hgo.opened, ?_, fun d' hd => ?_, hgo.gone, fun r hr => ?_, hgo.stray⟩
    · exact hgo.remover.congr rfl (fun _ => ⟨rfl, rfl, rfl⟩) fun d' hs => ⟨hs.removing, hs.refCount, hs.admits⟩
    · obtain ⟨hs, hheld⟩ := hgo.unheld d' hd
      exact ⟨⟨hs.removing, hs.refCount, hs.admits⟩, hheld⟩
    · rcases List.mem_cons.1 hr with rfl | hr
      · intro hd
        by_contra hlate
        have hreturned : s.remover = .returned true := by simpa using hlate
        have hrem := h.remover
        rw [hreturned] at hrem
        exact absurd (hlive.symm.trans (hrem d hd).2) Bool.false_ne_true
      · exact h.requests r hr

theorem Inv.callStep (h : s.Inv) (ho : Orderly s e) (ht : e.thread = some t) (hs : s.callStep t e = some s') :
    s'.Inv := by
  cases e with
  | «open» u d =>
    simp only [MmcsdSys.callStep] at hs
    split_ifs at hs with hp
    cases hs
    exact h.goTo (d := d) (.inr hp.1) (.inl rfl) (h.live_of_held (.inl hp.2)) (by rw [hp.1]; rfl) (by rw [hp.1]; rfl)
      (fun h => by cases h)
  | block u =>
    have hwait : ∀ w, { s with waits := w }.Inv := by
      refine fun w => ⟨h.refs, h.closers, h.small, h.opened, ?_, fun d hd => ?_, h.gone, h.requests, h.stray⟩
      · exact h.remover.congr rfl (fun _ => ⟨rfl, rfl, rfl⟩) fun d' hs => ⟨hs.removing, hs.refCount, hs.admits⟩
      · obtain ⟨hs, hheld⟩ := h.unheld d hd
        exact ⟨⟨hs.removing, hs.refCount, hs.admits⟩, hheld⟩
    cases hp : s.pc t <;> simp only [MmcsdSys.callStep, hp] at hs <;> cases hs
    · exact hwait _
    · exact hwait _
  | openSection u =>
    cases hp : s.pc t <;> simp only [MmcsdSys.callStep, hp] at hs <;> cases hs
    exact h.openSection hp
  | incLoad u =>
    cases hp : s.pc t <;> simp only [MmcsdSys.callStep, hp] at hs <;> cases hs
    exact h.goTo (.inl (by rw [hp]; rfl)) (.inl rfl) (h.live (t := t) (by rw [hp]; rfl)) (by rw [hp]; rfl) (by rw [hp]; rfl)
      fun ha => by rw [hp]; exact ha
  | incStore u =>
    cases ht
    cases hp : s.pc t <;> simp only [MmcsdSys.callStep, hp] at hs <;> try cases hs
    exact h.incStore hp (ho _ _ hp) hs
  | close u d =>
    simp only [MmcsdSys.callStep] at hs
    split_ifs at hs with hp
    exact h.close hp hs
  | closeZero u =>
    cases hp : s.pc t <;> simp only [MmcsdSys.callStep, hp] at hs <;> cases hs
    rename_i d
    split
    next hzero =>
      obtain ⟨n, hn, hsum⟩ := h.refs d
      obtain ⟨hcount, hle⟩ := h.closers d
      have hfinishes := hcount.of_le hn MmcsdPc.closes_of_finishes (by omega) (a := t) (by simp [hp, MmcsdPc.closes])
      rw [hp] at hfinishes
      cases hfinishes
    next =>
      exact h.goTo (.inl (by rw [hp]; rfl)) (.inl rfl) (h.live (t := t) (by rw [hp]; rfl)) (by rw [hp]; rfl)
        (by rw [hp]; rfl) fun ha => by cases ha
  | decLoad u =>
    cases hp : s.pc t <;> simp only [MmcsdSys.callStep, hp] at hs <;> cases hs
    exact h.goTo (.inl (by rw [hp]; rfl)) (.inl rfl) (h.live (t := t) (by rw [hp]; rfl)) (by rw [hp]; rfl)
      (by rw [hp]; rfl) fun ha => by cases ha
  | decStore u =>
    cases ht
    cases hp : s.pc t <;> simp only [MmcsdSys.callStep, hp] at hs <;> cases hs
    exact h.decStore hp (ho _ _ hp)
  | closeTest u =>
    cases hp : s.pc t <;> simp only [MmcsdSys.callStep, hp] at hs <;> cases hs
    split
    · exact h.goTo (.inl (by rw [hp]; rfl)) (.inl rfl) (h.live (t := t) (by rw [hp]; rfl)) (by rw [hp]; rfl)
        (by rw [hp]; rfl) fun ha => by cases ha
    · exact h.closeReturn (by simp [hp, MmcsdPc.finishes]) (by rw [hp]; rfl)
  | closeSection u =>
    cases ht
    cases hp : s.pc t <;> simp only [MmcsdSys.callStep, hp] at hs <;> cases hs
    exact h.closeSection hp (ho _ hp)
  | closeEnd u =>
    cases hp : s.pc t <;> simp only [MmcsdSys.callStep, hp] at hs <;> cases hs
    exact h.closeReturn (by simp [hp, MmcsdPc.finishes]) (by rw [hp]; rfl)
  | io u d kind =>
    simp only [MmcsdSys.callStep] at hs
    split_ifs at hs with hp
    cases hs
    exact h.goTo (d := d) (.inr hp.1) (.inl rfl) (h.live_of_held hp.2) (by rw [hp.1]; rfl) (by rw [hp.1]; rfl)
      (fun h => by cases h)
  | ioTest u =>
    cases hp : s.pc t <;> simp only [MmcsdSys.callStep, hp] at hs <;> cases hs
    rename_i d kind
    have hlive := h.live (t := t) (d := d) (by rw [hp]; rfl)
    rw [MmcsdSys.ioTest]
    split_ifs
    · exact h.goTo (d := d) (.inl (by rw [hp]; rfl)) (.inr rfl) hlive (by rw [hp]; rfl) (by rw [hp]; rfl)
        fun ha => by cases ha
    · exact h.goTo (d := d) (.inl (by rw [hp]; rfl)) (.inl rfl) hlive (by rw [hp]; rfl) (by rw [hp]; rfl)
        fun ha => by cases ha
  | ioSection u =>
    cases hp : s.pc t <;> simp only [MmcsdSys.callStep, hp] at hs <;> cases hs
    exact h.ioSection hp
  | _ => cases ht

theorem Inv.remove (h : s.Inv) (hpc : s'.pc = s.pc) (hdev : s'.devices = s.devices) (hreq : s'.requests = s.requests)
    (hstray : s'.stray = s.stray)
    (hblk : ∀ d, (s'.blk d).refCount = (s.blk d).refCount ∧ (s'.blk d).held = (s.blk d).held ∧
      (s'.blk d).closers = (s.blk d).closers ∧ (s'.blk d).opened = (s.blk d).opened)
    (hremover : s'.RemoverOk s'.remover)
    (hunheld : ∀ d, (s'.blk d).registered = false → s'.Sealed d ∧ (s.blk d).held = 0)
    (hgone : ∀ d, (s'.blk d).freed = true → (s'.blk d).registered = false ∧ ∀ t, (s.pc t).device ≠ some d) :
    s'.Inv := by
  refine ⟨fun d => ?_, fun d => ?_, fun d => ?_, fun t d ht => ?_, hremover, fun d hd => ?_, fun d hd => ?_, ?_, ?_⟩
  · rw [hpc, (hblk d).1, (hblk d).2.1]
    exact h.refs d
  · rw [hpc, (hblk d).2.1, (hblk d).2.2.1]
    exact h.closers d
  · rw [(hblk d).1]
    exact h.small d
  · rw [hpc] at ht
    rw [(hblk d).2.2.2]
    exact h.opened t d ht
  · rw [(hblk d).2.1]
    exact hunheld d hd
  · rw [hpc]
    exact hgone d hd
  · rw [hreq, hdev]
    exact h.requests
  · exact hstray.trans h.stray

theorem setBlk_counts (hb : b.refCount = (s.blk d).refCount ∧ b.held = (s.blk d).held ∧
    b.closers = (s.blk d).closers ∧ b.opened = (s.blk d).opened) (d' : ℕ) :
    ((s.setBlk d b).blk d').refCount = (s.blk d').refCount ∧ ((s.setBlk d b).blk d').held = (s.blk d').held ∧
      ((s.setBlk d b).blk d').closers = (s.blk d').closers ∧ ((s.setBlk d b).blk d').opened = (s.blk d').opened := by
  simp only [setBlk]
  by_cases hd : d' = d
  · rw [hd, Function.update_self]
    exact hb
  · rw [Function.update_of_ne hd]
    exact ⟨rfl, rfl, rfl, rfl⟩

theorem Inv.sealed_of_check (h : s.Inv) (hr : (s.blk d).removing = true) (hb : busy (s.blk d) = false) :
    s.Sealed d := by
  simp only [busy, Bool.or_eq_false_iff, decide_eq_false_iff_not, not_not] at hb
  obtain ⟨hopened, href⟩ := hb
  refine ⟨hr, href, fun t => ?_⟩
  cases ha : (s.pc t).admits d with
  | false => rfl
  | true =>
    rw [h.opened t d ha] at hopened
    cases hopened

theorem Sealed.set {d' : ℕ} (h : s.Sealed d') (href : b.refCount = (s.blk d).refCount)
    (hr : (s.blk d).removing = true → b.removing = true) {r : MmcsdRemover} :
    { s.setBlk d b with remover := r }.Sealed d' := by
  simp only [setBlk]
  by_cases hd : d' = d
  · subst hd
    refine ⟨?_, ?_, h.admits⟩ <;> dsimp only <;> rw [Function.update_self]
    · exact hr h.removing
    · exact href.trans h.refCount
  · refine ⟨?_, ?_, h.admits⟩ <;> dsimp only <;> rw [Function.update_of_ne hd]
    · exact h.removing
    · exact h.refCount

theorem Inv.loop (h : s.Inv) {r : MmcsdRemover} (hr : s.RemoverOk r) : { s with remover := r }.Inv := by
  have hsealed : ∀ d, s.Sealed d → { s with remover := r }.Sealed d := fun d hd =>
    ⟨hd.removing, hd.refCount, hd.admits⟩
  refine h.remove rfl rfl rfl rfl (fun _ => ⟨rfl, rfl, rfl, rfl⟩) ?_ (fun d hd => ?_) h.gone
  · exact hr.congr rfl (fun _ => ⟨rfl, rfl, rfl⟩) hsealed
  · exact ⟨hsealed d (h.unheld d hd).1, (h.unheld d hd).2⟩

theorem setBlk_blk {r : MmcsdRemover} {d' : ℕ} (hd : d' ≠ d) :
    ({ s.setBlk d b with remover := r }).blk d' = s.blk d' := by
  simp only [setBlk, Function.update_of_ne hd]

theorem setBlk_self {r : MmcsdRemover} : ({ s.setBlk d b with remover := r }).blk d = b := by
  simp only [setBlk, Function.update_self]

theorem live_set {r : MmcsdRemover} {d' : ℕ} (h : s.Live d')
    (hb : b.registered = (s.blk d).registered ∧ b.freed = (s.blk d).freed) :
    { s.setBlk d b with remover := r }.Live d' := by
  by_cases hd : d' = d
  · rw [hd] at h ⊢
    rw [Live, setBlk_self, hb.1, hb.2]
    exact h
  · rw [Live, setBlk_blk hd]
    exact h

theorem Inv.flag (h : s.Inv) {flag : Bool} {r : MmcsdRemover} (hlive : s.Live d)
    (hr : { s.setBlk d { s.blk d with removing := flag } with remover := r }.RemoverOk r) :
    { s.setBlk d { s.blk d with removing := flag } with remover := r }.Inv := by
  refine h.remove rfl rfl rfl rfl (setBlk_counts ⟨rfl, rfl, rfl, rfl⟩) hr (fun d' hd' => ?_) fun d' hd' => ?_
  · by_cases hd : d' = d
    · rw [hd, setBlk_self] at hd'
      exact absurd (hlive.1.symm.trans hd') (by simp)
    · rw [setBlk_blk hd] at hd'
      obtain ⟨hs, hheld⟩ := h.unheld d' hd'
      refine ⟨⟨?_, ?_, hs.admits⟩, hheld⟩
      · rw [setBlk_blk hd]
        exact hs.removing
      · rw [setBlk_blk hd]
        exact hs.refCount
  · by_cases hd : d' = d
    · rw [hd, setBlk_self] at hd'
      exact absurd (hlive.2.symm.trans hd') (by simp)
    · rw [setBlk_blk hd] at hd' ⊢
      exact h.gone d' hd'

theorem flag_cons {flag : Bool} {r : MmcsdRemover} {rest : List ℕ} (h : d :: rest ⊆ s.devices ∧
    ∀ d' ∈ s.devices, s.Live d' ∧ (d' ∉ d :: rest → (s.blk d').removing = flag)) :
    rest ⊆ s.devices ∧ ∀ d' ∈ s.devices, { s.setBlk d { s.blk d with removing := flag } with remover := r }.Live d' ∧
      (d' ∉ rest → ((s.setBlk d { s.blk d with removing := flag }).blk d').removing = flag) := by
  obtain ⟨hsub, hok⟩ := h
  refine ⟨fun x hx => hsub (List.mem_cons_of_mem d hx), fun d' hd' => ⟨live_set (hok d' hd').1 ⟨rfl, rfl⟩, fun hn => ?_⟩⟩
  by_cases hd : d' = d
  · rw [hd, setBlk_self]
  · rw [setBlk_blk hd]
    exact (hok d' hd').2 fun hm => (List.mem_cons.1 hm).elim hd hn

theorem Inv.mark (h : s.Inv) {rest : List ℕ} (hr : s.remover = .marking (d :: rest)) :
    { s.setBlk d { s.blk d with removing := true } with remover := .marking rest }.Inv := by
  have hrem := h.remover
  rw [hr] at hrem
  exact h.flag (hrem.2 d (hrem.1 List.mem_cons_self)).1 (flag_cons hrem)

theorem Inv.restore (h : s.Inv) {rest : List ℕ} (hr : s.remover = .restoring (d :: rest)) :
    { s.setBlk d { s.blk d with removing := false } with remover := .restoring rest }.Inv := by
  have hrem := h.remover
  rw [hr] at hrem
  exact h.flag (hrem.2 d (hrem.1 List.mem_cons_self)).1 (flag_cons hrem)

theorem Inv.check (h : s.Inv) {rest : List ℕ} (hr : s.remover = .checking (d :: rest)) :
    { s with remover := if busy (s.blk d) then .restoring s.devices else .checking rest }.Inv := by
  have hrem := h.remover
  rw [hr] at hrem
  apply h.loop
  cases hb : busy (s.blk d) with
  | true => exact ⟨fun _ h => h, fun d' hd' => ⟨(hrem d' hd').1, fun hn => absurd hd' hn⟩⟩
  | false =>
    refine fun d' hd' => ⟨(hrem d' hd').1, (hrem d' hd').2.1, fun hn => ?_⟩
    by_cases hd : d' = d
    · rw [hd] at hd' ⊢
      exact h.sealed_of_check (hrem d hd').2.1 hb
    · exact (hrem d' hd').2.2 fun hm => (List.mem_cons.1 hm).elim hd hn

theorem Inv.unregister (h : s.Inv) {rest : List ℕ} (hr : s.remover = .freeing (d :: rest))
    (ho : ∀ t, (s.pc t).finishes d = false) :
    { s.setBlk d { s.blk d with registered := false } with remover := .unregistered d rest }.Inv := by
  have hrem := h.remover
  rw [hr] at hrem
  obtain ⟨hsub, hok⟩ := hrem
  have hset : ∀ d', s.Sealed d' →
      { s.setBlk d { s.blk d with registered := false } with remover := .unregistered d rest }.Sealed d' :=
    fun d' hs => hs.set (b := { s.blk d with registered := false }) rfl id
  have hsealed := (hok d (hsub List.mem_cons_self)).1
  have hheld : (s.blk d).held = 0 := by
    obtain ⟨n, hn, hsum⟩ := h.refs d
    have hzero : n = 0 := by
      by_contra hne
      obtain ⟨t, ht⟩ := hn.exists_of_pos (Nat.pos_of_ne_zero hne)
      rw [ho t] at ht
      cases ht
    rw [hsealed.refCount, hzero] at hsum
    exact hsum.symm
  refine h.remove rfl rfl rfl rfl (setBlk_counts ⟨rfl, rfl, rfl, rfl⟩) ?_ (fun d' hd' => ?_) fun d' hd' => ?_
  · refine ⟨hsub, ?_, fun d' hd' => ⟨hset d' (hok d' hd').1, fun hn => ?_⟩⟩
    · rw [setBlk_self]
    · have hd : d' ≠ d := fun he => hn (he ▸ List.mem_cons_self)
      rw [setBlk_blk hd]
      exact (hok d' hd').2 hn
  · by_cases hd : d' = d
    · rw [hd]
      exact ⟨hset d hsealed, hheld⟩
    · rw [setBlk_blk hd] at hd'
      exact ⟨hset d' (h.unheld d' hd').1, (h.unheld d' hd').2⟩
  · by_cases hd : d' = d
    · rw [hd, setBlk_self] at hd' ⊢
      exact ⟨rfl, (h.gone d hd').2⟩
    · rw [setBlk_blk hd] at hd' ⊢
      exact h.gone d' hd'

theorem Inv.free (h : s.Inv) {rest : List ℕ} (hr : s.remover = .unregistered d rest)
    (ho : ∀ t, s.pc t = .opening d ∨ (∃ kind, s.pc t = .ioCall d kind ∨ s.pc t = .io d kind) → s.waits t = true) :
    { s.free d with remover := .freeing rest }.Inv := by
  have hrem := h.remover
  rw [hr] at hrem
  obtain ⟨hsub, hreg, hok⟩ := hrem
  obtain ⟨hsealed, hheld⟩ := h.unheld d hreg
  obtain ⟨hcount, hle⟩ := h.closers d
  have hcloses : ∀ t, (s.pc t).closes d = false := by
    rw [show (s.blk d).closers = 0 by omega] at hcount
    exact hcount.of_zero
  have hfinishes : ∀ t, (s.pc t).finishes d = false := by
    intro t
    rw [Bool.eq_false_iff]
    intro hf
    have := MmcsdPc.closes_of_finishes _ hf
    rw [hcloses t] at this
    cases this
  have hwaits : ∀ t, (s.pc t).device = some d → s.waits t = true := by
    intro t hdevice
    apply ho
    have hc := hcloses t
    have ha := hsealed.admits t
    cases hp : s.pc t <;> rw [hp] at hdevice hc ha <;> simp_all [MmcsdPc.device, MmcsdPc.closes, MmcsdPc.admits]
  have hpc : ∀ t, ({ s.free d with remover := .freeing rest }).pc t = s.pc t ∧ (s.pc t).device ≠ some d ∨
      ({ s.free d with remover := .freeing rest }).pc t = .idle ∧ (s.pc t).device = some d := by
    intro t
    by_cases hdevice : (s.pc t).device = some d
    · exact .inr ⟨if_pos ⟨hwaits t hdevice, hdevice⟩, hdevice⟩
    · exact .inl ⟨if_neg fun hand => hdevice hand.2, hdevice⟩
  have hkept : ∀ t d', (({ s.free d with remover := .freeing rest }).pc t).admits d' = (s.pc t).admits d' ∧
      (({ s.free d with remover := .freeing rest }).pc t).closes d' = (s.pc t).closes d' ∧
      (({ s.free d with remover := .freeing rest }).pc t).finishes d' = (s.pc t).finishes d' := by
    intro t d'
    rcases hpc t with ⟨he, -⟩ | ⟨he, hdevice⟩
    · rw [he]
      exact ⟨rfl, rfl, rfl⟩
    · rw [he]
      by_cases hd : d' = d
      · rw [hd, hsealed.admits t, hcloses t, hfinishes t]
        exact ⟨rfl, rfl, rfl⟩
      · have hoff := MmcsdPc.off (p := s.pc t) (d := d') fun h' => hd (Option.some.inj (h'.symm.trans hdevice))
        rw [hoff.1, hoff.2.1, hoff.2.2]
        exact ⟨rfl, rfl, rfl⟩
  have hcounts := setBlk_counts (s := s) (d := d) (b := { s.blk d with freed := true }) ⟨rfl, rfl, rfl, rfl⟩
  have hset : ∀ d', s.Sealed d' → { s.free d with remover := .freeing rest }.Sealed d' := by
    intro d' hs
    have hs' := hs.set (d := d) (b := { s.blk d with freed := true }) (r := .freeing rest) rfl id
    exact ⟨hs'.removing, hs'.refCount, fun t => (hkept t d').1.trans (hs.admits t)⟩
  have hblk : ∀ d', d' ≠ d → ({ s.free d with remover := .freeing rest }).blk d' = s.blk d' := fun d' hd =>
    setBlk_blk (r := .freeing rest) hd
  have hself : ({ s.free d with remover := .freeing rest }).blk d = { s.blk d with freed := true } :=
    setBlk_self (r := .freeing rest)
  refine ⟨fun d' => ?_, fun d' => ?_, fun d' => ?_, fun t d' ht => ?_, ?_, fun d' hd' => ?_, fun d' hd' => ?_,
    h.requests, h.stray⟩
  · obtain ⟨n, hn, hsum⟩ := h.refs d'
    refine ⟨n, hn.congr fun t => (hkept t d').2.2, ?_⟩
    exact (congrArg₂ (· + ·) (hcounts d').1 rfl).trans (hsum.trans (hcounts d').2.1.symm)
  · obtain ⟨hn, hle'⟩ := h.closers d'
    have hclosers := (hcounts d').2.2.1
    have hheld' := (hcounts d').2.1
    exact ⟨hclosers.symm ▸ hn.congr fun t => (hkept t d').2.1, hclosers.trans_le (hle'.trans_eq hheld'.symm)⟩
  · exact (hcounts d').1.symm ▸ h.small d'
  · rw [(hkept t d').1] at ht
    exact (hcounts d').2.2.2.trans (h.opened t d' ht)
  · refine ⟨fun x hx => hsub (List.mem_cons_of_mem d hx), fun d' hd' => ⟨hset d' (hok d' hd').1, fun hn => ?_⟩⟩
    by_cases hd : d' = d
    · rw [hd, hself]
    · rw [hblk d' hd]
      exact (hok d' hd').2 fun hm => (List.mem_cons.1 hm).elim hd hn
  · have hreg' : (s.blk d').registered = false := by
      by_cases hd : d' = d
      · rw [hd]
        exact hreg
      · rwa [hblk d' hd] at hd'
    exact ⟨hset d' (h.unheld d' hreg').1, (hcounts d').2.1.trans (h.unheld d' hreg').2⟩
  · by_cases hd : d' = d
    · rw [hd, hself]
      refine ⟨hreg, fun t => ?_⟩
      rcases hpc t with ⟨he, hdevice⟩ | ⟨he, -⟩
      · rw [he]
        exact hdevice
      · rw [he]
        exact fun h' => by cases h'
    · rw [hblk d' hd] at hd' ⊢
      refine ⟨(h.gone d' hd').1, fun t => ?_⟩
      rcases hpc t with ⟨he, -⟩ | ⟨he, -⟩
      · rw [he]
        exact (h.gone d' hd').2 t
      · rw [he]
        exact fun h' => by cases h'

theorem Inv.removerStep (h : s.Inv) (ho : Orderly s e) (hs : s.removerStep e = some s') : s'.Inv := by
  have hrem := h.remover
  cases e with
  | remove =>
    simp only [MmcsdSys.removerStep] at hs
    split at hs
    next hr =>
      rw [hr] at hrem
      cases hs
      exact h.loop ⟨fun _ h => h, fun d hd => ⟨(hrem d hd).1, fun hn => absurd hd hn⟩⟩
    next hr =>
      rw [hr] at hrem
      cases hs
      exact h.loop ⟨fun _ h => h, fun d hd => ⟨(hrem d hd).1, fun hn => absurd hd hn⟩⟩
    next => cases hs
  | mark =>
    simp only [MmcsdSys.removerStep] at hs
    split at hs
    next d rest hr =>
      cases hs
      exact h.mark hr
    next hr =>
      rw [hr] at hrem
      cases hs
      exact h.loop fun d hd => ⟨(hrem.2 d hd).1, (hrem.2 d hd).2 List.not_mem_nil⟩
    next => cases hs
  | unmount ok =>
    simp only [MmcsdSys.removerStep] at hs
    split at hs
    next d rest hr =>
      rw [hr] at hrem
      cases hs
      apply h.loop
      cases ok with
      | true => exact hrem
      | false => exact ⟨fun _ h => h, fun d hd => ⟨(hrem d hd).1, fun hn => absurd hd hn⟩⟩
    next hr =>
      rw [hr] at hrem
      cases hs
      exact h.loop fun d hd => ⟨(hrem d hd).1, (hrem d hd).2, fun hn => absurd hd hn⟩
    next => cases hs
  | check =>
    simp only [MmcsdSys.removerStep] at hs
    split at hs
    next d rest hr =>
      cases hs
      exact h.check hr
    next hr =>
      rw [hr] at hrem
      cases hs
      exact h.loop ⟨fun _ h => h, fun d hd => ⟨(hrem d hd).2.2 List.not_mem_nil, fun hn => absurd hd hn⟩⟩
    next => cases hs
  | unregister =>
    simp only [MmcsdSys.removerStep] at hs
    split at hs
    next d rest hr =>
      cases hs
      exact h.unregister hr (ho d rest hr)
    next hr =>
      rw [hr] at hrem
      cases hs
      exact h.loop fun d hd => ⟨(hrem.2 d hd).1, (hrem.2 d hd).2 List.not_mem_nil⟩
    next => cases hs
  | free =>
    simp only [MmcsdSys.removerStep] at hs
    split at hs
    next d rest hr =>
      cases hs
      exact h.free hr (ho d rest hr)
    next => cases hs
  | restore =>
    simp only [MmcsdSys.removerStep] at hs
    split at hs
    next d rest hr =>
      cases hs
      exact h.restore hr
    next hr =>
      rw [hr] at hrem
      cases hs
      exact h.loop fun d hd => ⟨(hrem.2 d hd).1, (hrem.2 d hd).2 List.not_mem_nil⟩
    next => cases hs
  | _ => cases hs

theorem Inv.step (h : s.Inv) (ho : Orderly s e) (hs : step s e = some s') : s'.Inv := by
  rw [MmcsdSys.step] at hs
  cases ht : e.thread with
  | some t =>
    rw [ht] at hs
    obtain ⟨s1, h1, rfl⟩ := Option.map_eq_some_iff.1 hs
    have hi := h.callStep ho ht h1
    have hon : s.onFreed t = false := by
      rw [onFreed]
      cases hd : (s.pc t).device with
      | none => rfl
      | some d => exact h.live hd
    have hsame : s1.setStray (s.stray || s.onFreed t) = s1 := by
      rw [h.stray, hon, Bool.or_self, ← hi.stray]
      rfl
    rw [hsame]
    exact hi
  | none =>
    rw [ht] at hs
    exact h.removerStep ho hs

/-- A device that is gone is not open and is not being opened, and once it has been freed no call of it goes on; nothing
reaches the card after its removal; and after a removal that has failed every device takes opens and transfers again. -/
theorem card_removed_unused {es : List MmcsdEvent} (h : run step (init devices) es = some s)
    (hm : Meets step Orderly (init devices) es) :
    (∀ d, (s.blk d).registered = false ∨ (s.blk d).freed = true →
      (s.blk d).held = 0 ∧ ∀ t, (s.pc t).admits d = false) ∧
    (∀ d, (s.blk d).freed = true → ∀ t, (s.pc t).device ≠ some d) ∧ s.stray = false ∧
    (∀ r ∈ s.requests, r.device ∈ s.devices → r.late = false) ∧
    (s.remover = .returned false → ∀ d ∈ s.devices,
      (s.blk d).registered = true ∧ (s.blk d).freed = false ∧ (s.blk d).removing = false) := by
  have hi : s.Inv := run_invariant_of_meets Inv (fun _ _ _ hi ho hs => hi.step ho hs) h hm (inv_init devices)
  refine ⟨fun d hd => ?_, fun d hd => (hi.gone d hd).2, hi.stray, hi.requests, fun hr d hd => ?_⟩
  · have hreg : (s.blk d).registered = false := hd.elim id fun hf => (hi.gone d hf).1
    exact ⟨(hi.unheld d hreg).2, (hi.unheld d hreg).1.admits⟩
  · have hrem := hi.remover
    rw [hr] at hrem
    exact ⟨(hrem d hd).1.1, (hrem d hd).1.2, (hrem d hd).2⟩

theorem callStep_pc {u : ℕ} (hs : s.callStep t e = some s') (hu : u ≠ t) : s'.pc u = s.pc u := by
  have hmove : ∀ {v : MmcsdSys} {q : MmcsdPc}, v.pc = s.pc → (v.setPc t q).pc u = s.pc u := by
    intro v q hv
    exact (Function.update_of_ne hu _ _).trans (congrFun hv u)
  cases e <;> simp only [MmcsdSys.callStep] at hs
  case «open» | io =>
    split_ifs at hs
    cases hs
    exact hmove rfl
  case close =>
    split_ifs at hs
    rw [MmcsdSys.close] at hs
    split_ifs at hs
    cases hs
    exact hmove rfl
  case incStore =>
    split at hs
    · rw [MmcsdSys.incStore] at hs
      split_ifs at hs
      cases hs
      exact hmove rfl
    · cases hs
  case block => split at hs <;> cases hs <;> rfl
  case openSection =>
    split at hs <;> cases hs
    rw [MmcsdSys.openSection]
    split_ifs <;> exact hmove rfl
  case closeZero | closeTest =>
    split at hs <;> cases hs
    split_ifs <;> exact hmove rfl
  case ioSection =>
    split at hs <;> cases hs
    rw [MmcsdSys.ioSection]
    split_ifs <;> exact hmove rfl
  case incLoad | decLoad | decStore | closeSection | closeEnd | ioTest =>
    split at hs <;> cases hs
    exact hmove rfl
  all_goals cases hs

theorem removerStep_pc {u : ℕ} (hs : s.removerStep e = some s') (hu : s.pc u = .idle) : s'.pc u = .idle := by
  cases e <;> simp only [MmcsdSys.removerStep] at hs
  case free =>
    split at hs <;> cases hs
    rw [MmcsdSys.free]
    dsimp only
    split_ifs
    · rfl
    · exact hu
  case remove | mark | unmount | check | unregister | restore =>
    split at hs <;> cases hs <;> exact hu
  all_goals cases hs

theorem step_idle {u : ℕ} (hs : step s e = some s') (hne : e.thread ≠ some u) (hu : s.pc u = .idle) : s'.pc u = .idle := by
  rw [step] at hs
  cases ht : e.thread with
  | some t =>
    rw [ht] at hs hne
    obtain ⟨s1, h1, rfl⟩ := Option.map_eq_some_iff.1 hs
    exact (callStep_pc h1 fun he => hne (by rw [he])).trans hu
  | none =>
    rw [ht] at hs
    exact removerStep_pc hs hu

/-- `Orderly`, looked at for the threads below `n` only. -/
def orderlyBelow (n : ℕ) (s : MmcsdSys) : MmcsdEvent → Bool
  | .closeSection t =>
    match s.pc t with
    | .closing d => (List.range n).all fun u => !(s.pc u).admits d
    | _ => true
  | .incStore t =>
    match s.pc t with
    | .increment d v => (s.blk d).refCount = v
    | _ => true
  | .decStore t =>
    match s.pc t with
    | .decrement d v => (s.blk d).refCount = v
    | _ => true
  | .unregister =>
    match s.remover with
    | .freeing (d :: _) => (List.range n).all fun u => !(s.pc u).finishes d
    | _ => true
  | .free =>
    match s.remover with
    | .unregistered d _ => (List.range n).all fun u => (s.pc u).device ≠ some d || s.waits u
    | _ => true
  | _ => true

theorem Orderly.of_below {n : ℕ} (hidle : ∀ u, n ≤ u → s.pc u = .idle) (h : orderlyBelow n s e = true) :
    Orderly s e := by
  have hall : ∀ {q : ℕ → Bool}, (List.range n).all q = true → (∀ u, s.pc u = .idle → q u = true) → ∀ u, q u = true := by
    intro q hq hrest u
    by_cases hu : u < n
    · exact List.all_eq_true.1 hq u (List.mem_range.2 hu)
    · exact hrest u (hidle u (by omega))
  cases e <;> simp only [orderlyBelow] at h
  case closeSection t =>
    intro d hp u
    rw [hp] at h
    simpa using hall h (fun v hv => by rw [hv]; rfl) u
  case incStore t =>
    intro d v hp
    rw [hp] at h
    exact of_decide_eq_true h
  case decStore t =>
    intro d v hp
    rw [hp] at h
    exact of_decide_eq_true h
  case unregister =>
    intro d rest hr u
    rw [hr] at h
    simpa using hall h (fun v hv => by rw [hv]; rfl) u
  case free =>
    intro d rest hr u hu
    rw [hr] at h
    have hwait := hall h (fun v hv => by rw [hv]; rfl) u
    have hdevice : (s.pc u).device = some d := by rcases hu with hu | ⟨_, hu | hu⟩ <;> rw [hu] <;> rfl
    simpa [hdevice] using hwait
  all_goals trivial

theorem meets_of_below {n : ℕ} {es : List MmcsdEvent} (ht : ∀ e ∈ es, ∀ t ∈ e.thread, t < n)
    (hidle : ∀ u, n ≤ u → s.pc u = .idle) (h : Meets step (fun s e => orderlyBelow n s e = true) s es) :
    Meets step Orderly s es := by
  induction es generalizing s with
  | nil => trivial
  | cons e es ih =>
    refine ⟨.of_below hidle h.1, fun s' hs => ih (fun e' he' => ht e' (List.mem_cons_of_mem e he')) ?_ (h.2 s' hs)⟩
    intro u hu
    refine step_idle hs (fun he => ?_) (hidle u hu)
    have := ht e List.mem_cons_self u he
    omega

/-- A device is opened, read and closed, and the card is removed while another open waits for the lock. -/
def demoRun : List MmcsdEvent :=
  [.open 0 0, .openSection 0, .incLoad 0, .incStore 0, .io 0 0 .read, .ioTest 0, .ioSection 0, .close 0 0, .closeZero 0,
    .decLoad 0, .decStore 0, .closeTest 0, .closeSection 0, .closeEnd 0, .remove, .mark, .mark, .unmount true,
    .unmount true, .check, .check, .open 1 0, .block 1, .unregister, .free, .unregister]

theorem card_removed_unused_demo :
    ∃ s, run step (init [0]) demoRun = some s ∧ s.remover = .returned true ∧ s.requests.length = 1 ∧
      (s.blk 0).freed = true ∧ (s.blk 0).held = 0 ∧ ∀ t, (s.pc t).device ≠ some 0 := by
  have hrun : ((run step (init [0]) demoRun).any fun s =>
      s.remover = .returned true && s.requests.length = 1 && (s.blk 0).freed) = true := by decide +kernel
  obtain ⟨s, hs, hat⟩ := (Option.any_eq_true _ _).mp hrun
  rw [Bool.and_eq_true, Bool.and_eq_true, decide_eq_true_eq, decide_eq_true_eq] at hat
  obtain ⟨⟨hremover, hrequests⟩, hfreed⟩ := hat
  have hunused := card_removed_unused hs (meets_of_below (n := 2) (by decide) (fun _ _ => rfl) (by decide +kernel))
  exact ⟨s, hs, hremover, hrequests, hfreed, (hunused.1 0 (.inr hfreed)).1, hunused.2.1 0 hfreed⟩

/-- The last close of one thread clears the mark of another thread's open before the core has counted it; the
removal finds the device unused and frees it. -/
theorem card_removed_under_open :
    ∃ es s, run step (init [0]) es = some s ∧ (s.blk 0).freed = true ∧ s.pc 1 = .admitted 0 := by
  have hrun : ((run step (init [0]) [.open 0 0, .openSection 0, .incLoad 0, .incStore 0, .close 0 0, .closeZero 0,
      .decLoad 0, .decStore 0, .closeTest 0, .open 1 0, .openSection 1, .closeSection 0, .closeEnd 0, .remove, .mark,
      .mark, .unmount true, .unmount true, .check, .check, .unregister, .free]).any fun s =>
      (s.blk 0).freed && s.pc 1 = .admitted 0) = true := by decide +kernel
  obtain ⟨s, hs, hat⟩ := (Option.any_eq_true _ _).mp hrun
  rw [Bool.and_eq_true, decide_eq_true_eq] at hat
  exact ⟨_, s, hs, hat⟩

/-- A close that has given back the last count is overtaken by another thread's open and close; the removal frees the
device, and the first close goes on there. -/
theorem card_removed_under_close :
    ∃ es s, run step (init [0]) es = some s ∧ (s.blk 0).freed = true ∧ (s.blk 0).held = 1 ∧ s.stray = true := by
  have hrun : ((run step (init [0]) [.open 0 0, .openSection 0, .incLoad 0, .incStore 0, .close 0 0, .closeZero 0,
      .decLoad 0, .decStore 0, .closeTest 0, .open 1 0, .openSection 1, .incLoad 1, .incStore 1, .close 1 0,
      .closeZero 1, .decLoad 1, .decStore 1, .closeTest 1, .closeSection 1, .closeEnd 1, .remove, .mark, .mark,
      .unmount true, .unmount true, .check, .check, .unregister, .free, .closeSection 0]).any fun s =>
      (s.blk 0).freed && (s.blk 0).held = 1 && s.stray) = true := by decide +kernel
  obtain ⟨s, hs, hat⟩ := (Option.any_eq_true _ _).mp hrun
  rw [Bool.and_eq_true, Bool.and_eq_true, decide_eq_true_eq] at hat
  exact ⟨_, s, hs, hat.1.1, hat.1.2, hat.2⟩

end MmcsdSys

end RtSmart
