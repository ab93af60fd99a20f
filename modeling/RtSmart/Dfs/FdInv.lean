import RtSmart.Lib.Refs
import RtSmart.Dfs.Fd

/-!
A file's count is the number of table slots, calls and entries of the list of failed closes that refer to
it, in every run in which `fd_associate` is not given a file that is on its way out and no slot is taken
from an `open` that has not ended.
-/

namespace RtSmart

open Lib

namespace FdPc

/-- The file a call works on. -/
def file : FdPc → Option ℕ
  | idle => none
  | looked d => some d
  | holds d _ => some d
  | putting d _ => some d
  | put d _ _ => some d
  | closing _ d => some d
  | closed _ d _ => some d
  | allocated _ d => some d
  | opening _ d => some d
  | found _ d _ => some d
  | driver _ d _ => some d
  | failing _ d _ => some d
  | mounted d => some d
  | retrying => none

def site : FdPc → Option FdSlot
  | closing σ _ => some σ
  | closed σ _ _ => some σ
  | allocated σ _ => some σ
  | opening (.slot σ) _ => some σ
  | found (.slot σ) _ _ => some σ
  | driver (.slot σ) _ _ => some σ
  | failing σ _ _ => some σ
  | _ => none

/-- The call has found its reference to be the last one. -/
def last : FdPc → Bool
  | putting _ _ => true
  | put _ _ _ => true
  | closing _ _ => true
  | closed _ _ _ => true
  | opening .mount _ => true
  | found .mount _ _ => true
  | driver .mount _ _ => true
  | mounted _ => true
  | _ => false

/-- The file a call has a reference to that is not a slot. -/
def held : FdPc → Option ℕ
  | holds d _ => some d
  | putting d _ => some d
  | put d _ _ => some d
  | opening .mount d => some d
  | found .mount d _ => some d
  | driver .mount d _ => some d
  | mounted d => some d
  | _ => none

theorem held_of_last {p : FdPc} (hl : p.last = true) (hs : p.site = none) : p.held = p.file := by
  match p, hl, hs with
  | .putting _ _, _, _ => rfl
  | .put _ _ _, _, _ => rfl
  | .opening .mount _, _, _ => rfl
  | .found .mount _ _, _, _ => rfl
  | .driver .mount _ _, _, _ => rfl
  | .mounted _, _, _ => rfl

theorem file_of_site {p : FdPc} {σ : FdSlot} (hs : p.site = some σ) : ∃ d, p.file = some d := by
  match p, hs with
  | .closing _ d, _ => exact ⟨d, rfl⟩
  | .closed _ d _, _ => exact ⟨d, rfl⟩
  | .allocated _ d, _ => exact ⟨d, rfl⟩
  | .opening (.slot _) d, _ => exact ⟨d, rfl⟩
  | .found (.slot _) d _, _ => exact ⟨d, rfl⟩
  | .driver (.slot _) d _, _ => exact ⟨d, rfl⟩
  | .failing _ d _, _ => exact ⟨d, rfl⟩

/-- The call is inside `open`, or inside the check of `dfs_mount`. -/
inductive Opens : FdPc → Opener → ℕ → Prop
  | allocated (σ : FdSlot) (d : ℕ) : Opens (allocated σ d) (.slot σ) d
  | opening (o : Opener) (d : ℕ) : Opens (opening o d) o d
  | found (o : Opener) (d f : ℕ) : Opens (found o d f) o d
  | driver (o : Opener) (d f : ℕ) : Opens (driver o d f) o d
  | failing (σ : FdSlot) (d : ℕ) (errno : FdErr) : Opens (failing σ d errno) (.slot σ) d
  | mounted (d : ℕ) : Opens (mounted d) .mount d

def Opener.site : Opener → Option FdSlot
  | .slot σ => some σ
  | .mount => none

namespace Opens

variable {p : FdPc} {o : Opener} {d : ℕ}

theorem file (h : Opens p o d) : p.file = some d := by
  cases h <;> rfl

theorem site (h : Opens p o d) : p.site = Opener.site o := by
  cases h <;> first | rfl | (cases o <;> rfl)

theorem last (h : Opens p o d) : p.last = decide (o = .mount) := by
  cases h <;> first | rfl | (cases o <;> rfl)

theorem held (h : Opens p o d) : p.held = if o = .mount then some d else none := by
  cases h <;> first | rfl | (cases o <;> rfl)

end Opens

/-- The file that a call of `fd_associate` is going to be given. -/
def given : FdPc → Option ℕ
  | looked d => some d
  | _ => none

end FdPc

/-- What a call relies on: its file is in the slot it has reserved, there alone when it is closing it and
nowhere when it is giving it back. -/
structure CallOk (s : FdSys) (p : FdPc) : Prop where
  known : ∀ d, p.file = some d → d < s.next
  slot : ∀ σ, p.site = some σ → s.slot σ = p.file
  last : p.last = true → ∀ d, p.file = some d → (s.fds d).refCount = 1
  detached : p.last = true → p.site = none → ∀ d, p.file = some d → (s.fds d).detached = true
  closing : p.last = true → ∀ σ d, p.site = some σ → p.file = some d →
    (s.fds d).closing = true ∧ (s.fds d).openAt ≠ some σ
  openAt : p.last = false → ∀ σ d, p.site = some σ → p.file = some d → (s.fds d).openAt = some σ

namespace FdSys

noncomputable def owners (s : FdSys) (d : ℕ) : ℕ :=
  refs s.slot d + refs (fun c => (s.pc c).held) d + s.failed.count d + s.pending.count d

/-- The slots, the tables' sizes, the lists of failed closes and the next allocation are the same. -/
structure Same (s s' : FdSys) : Prop where
  slot : s'.slot = s.slot
  maxfd : s'.maxfd = s.maxfd
  next : s'.next = s.next
  failed : s'.failed = s.failed
  pending : s'.pending = s.pending
  retrying : s'.retrying = s.retrying

theorem same_setFd (s : FdSys) (d : ℕ) (x : DfsFd) : s.Same (s.setFd d x) := ⟨rfl, rfl, rfl, rfl, rfl, rfl⟩

theorem Same.trans {s s' s'' : FdSys} (h : Same s s') (h' : Same s' s'') : Same s s'' :=
  ⟨h'.slot.trans h.slot, h'.maxfd.trans h.maxfd, h'.next.trans h.next, h'.failed.trans h.failed,
    h'.pending.trans h.pending, h'.retrying.trans h.retrying⟩

end FdSys

structure FdInv (s : FdSys) : Prop where
  slots : ∀ d, (refSet s.slot d).Finite
  calls : ∀ d, (refSet (fun c => (s.pc c).held) d).Finite
  count : ∀ d, (s.fds d).refCount = s.owners d
  freed : ∀ d, (s.fds d).freed = if d < s.next ∧ (s.fds d).refCount = 0 then 1 else 0
  fresh : ∀ d, s.next ≤ d → (s.fds d).refCount = 0
  table : ∀ σ d, s.slot σ = some d → σ.2 < s.maxfd σ.1
  call : ∀ c, CallOk s (s.pc c)
  alone : ∀ c c' σ, (s.pc c).site = some σ → (s.pc c').site = some σ → c = c'
  quiet : s.retrying = false → s.pending = []
  queued : ∀ d ∈ s.failed ++ s.pending, (s.fds d).refCount = 1 ∧ (s.fds d).closing = true

theorem CallOk.frame {s s' : FdSys} {p : FdPc} (h : CallOk s p) (hnext : s.next ≤ s'.next)
    (hslot : ∀ σ, p.site = some σ → s'.slot σ = s.slot σ)
    (hopen : ∀ σ d, p.site = some σ → p.file = some d → (s'.fds d).openAt = (s.fds d).openAt)
    (hlast : p.last = true → ∀ d, p.file = some d → s'.fds d = s.fds d) : CallOk s' p where
  known d hd := (h.known d hd).trans_le hnext
  slot σ hσ := (hslot σ hσ).trans (h.slot σ hσ)
  last hl d hd := by
    rw [hlast hl d hd]
    exact h.last hl d hd
  detached hl hσ d hd := by
    rw [hlast hl d hd]
    exact h.detached hl hσ d hd
  closing hl σ d hσ hd := by
    rw [hlast hl d hd]
    exact h.closing hl σ d hσ hd
  openAt hl σ d hσ hd := (hopen σ d hσ hd).trans (h.openAt hl σ d hσ hd)

namespace CallOk

variable {s : FdSys} {p : FdPc} {σ : FdSlot} {d : ℕ}

theorem plain (hs : p.site = none) (hl : p.last = false) (hk : ∀ d, p.file = some d → d < s.next) : CallOk s p := by
  refine ⟨hk, ?_, ?_, ?_, ?_, ?_⟩ <;> simp [hs, hl]

theorem opens (hs : p.site = some σ) (hl : p.last = false) (hd : p.file = some d) (hk : d < s.next)
    (hslot : s.slot σ = some d) (hopen : (s.fds d).openAt = some σ) : CallOk s p := by
  constructor <;> simp [hs, hl, hd, hk, hslot, hopen]

theorem closes (hs : p.site = some σ) (hl : p.last = true) (hd : p.file = some d) (hk : d < s.next)
    (hslot : s.slot σ = some d) (hone : (s.fds d).refCount = 1) (hclosing : (s.fds d).closing = true)
    (hopen : (s.fds d).openAt ≠ some σ) : CallOk s p := by
  constructor <;> simp [hs, hl, hd, hk, hslot, hone, hclosing, hopen]

theorem gives (hs : p.site = none) (hl : p.last = true) (hd : p.file = some d) (hk : d < s.next)
    (hone : (s.fds d).refCount = 1) (hdet : (s.fds d).detached = true) : CallOk s p := by
  constructor <;> simp [hs, hl, hd, hk, hone, hdet]

end CallOk

namespace FdInv

variable {s s' : FdSys} {c c' d : ℕ} {σ : FdSlot}

theorem init : FdInv .init where
  slots d := by simp [refSet, FdSys.init]
  calls d := by simp [refSet, FdSys.init, FdPc.held]
  count d := by simp [FdSys.owners, FdSys.init, refs, refSet, FdPc.held]
  freed d := by simp [FdSys.init]
  fresh d _ := rfl
  table σ d h := by simp [FdSys.init] at h
  call c := by constructor <;> simp [FdSys.init, FdPc.file, FdPc.site, FdPc.last]
  alone c c' σ h := by simp [FdSys.init, FdPc.site] at h
  quiet _ := rfl
  queued d hd := by cases hd

theorem count_eq (h : FdInv s) (d : ℕ) : (s.fds d).refCount =
    refs s.slot d + refs (fun c => (s.pc c).held) d + s.failed.count d + s.pending.count d := h.count d

theorem slot_pos (h : FdInv s) (hσ : s.slot σ = some d) : 0 < refs s.slot d := refs_pos (h.slots d) hσ

theorem held_pos (h : FdInv s) (hc : (s.pc c).held = some d) : 0 < refs (fun c => (s.pc c).held) d :=
  refs_pos (h.calls d) hc

theorem lt_next (h : FdInv s) (hd : 0 < (s.fds d).refCount) : d < s.next := by
  by_contra hle
  have := h.fresh d (by omega)
  omega

theorem site_of_last (h : FdInv s) (hl : (s.pc c).last = true) (hd : (s.pc c).file = some d)
    (hσ : s.slot σ = some d) : (s.pc c).site = some σ := by
  have hone := (h.call c).last hl d hd
  have hcount := h.count_eq d
  have hpos := h.slot_pos hσ
  cases hs : (s.pc c).site with
  | none =>
    have := h.held_pos ((FdPc.held_of_last hl hs).trans hd)
    omega
  | some σ' =>
    have hσ' := ((h.call c).slot σ' hs).trans hd
    rw [eq_of_refs_le_one (h.slots d) (by omega) hσ hσ']

theorem queue_pos (hd : d ∈ s.failed ++ s.pending) : 0 < s.failed.count d + s.pending.count d := by
  rw [← List.count_append]
  exact List.count_pos_iff.mpr hd

theorem not_queued_of_slot (h : FdInv s) (hσ : s.slot σ = some d) : d ∉ s.failed ++ s.pending := by
  intro hd
  have hone := (h.queued d hd).1
  have hcount := h.count_eq d
  have hpos := h.slot_pos hσ
  have hq := queue_pos hd
  omega

theorem not_queued_of_held (h : FdInv s) (hc : (s.pc c).held = some d) : d ∉ s.failed ++ s.pending := by
  intro hd
  have hone := (h.queued d hd).1
  have hcount := h.count_eq d
  have hpos := h.held_pos hc
  have hq := queue_pos hd
  omega

theorem eq_of_last (h : FdInv s) (hl : (s.pc c).last = true) (hd : (s.pc c).file = some d)
    (hc : (s.pc c').held = some d) : c' = c := by
  have hone := (h.call c).last hl d hd
  have hcount := h.count_eq d
  have hpos := h.held_pos hc
  cases hs : (s.pc c).site with
  | none =>
    have hself : (s.pc c).held = some d := (FdPc.held_of_last hl hs).trans hd
    have hle : refs (fun c => (s.pc c).held) d ≤ 1 := by omega
    exact eq_of_refs_le_one (h.calls d) hle hc hself
  | some σ' =>
    have := h.slot_pos (((h.call c).slot σ' hs).trans hd)
    omega

theorem held_update {p : FdPc} (hpc : s'.pc = Function.update s.pc c p) :
    (fun c => (s'.pc c).held) = Function.update (fun c => (s.pc c).held) c p.held := by
  funext b
  by_cases hb : b = c
  · subst hb
    rw [hpc, Function.update_self, Function.update_self]
  · rw [hpc, Function.update_of_ne hb, Function.update_of_ne hb]

theorem move (h : FdInv s) {e : ℕ} {x : DfsFd} {a : FdSlot} {v : Option ℕ} {p : FdPc}
    (hfds : s'.fds = Function.update s.fds e x) (hslot : s'.slot = Function.update s.slot a v)
    (hpc : s'.pc = Function.update s.pc c p) (hmax : ∀ t, s.maxfd t ≤ s'.maxfd t)
    (hnext : s'.next = s.next ∨ s'.next = s.next + 1 ∧ e = s.next)
    (hfailed : s'.failed = s.failed) (hpending : s'.pending = s.pending) (hretrying : s'.retrying = s.retrying)
    (hcount : x.refCount + (if s.slot a = some e then 1 else 0) + (if (s.pc c).held = some e then 1 else 0) =
      (s.fds e).refCount + (if v = some e then 1 else 0) + (if p.held = some e then 1 else 0))
    (hrest : ∀ d, d ≠ e → (if s.slot a = some d then 1 else 0) + (if (s.pc c).held = some d then 1 else 0) =
      (if v = some d then 1 else 0) + (if p.held = some d then 1 else 0))
    (hlive : (s'.next = s.next ∧ x.refCount = (s.fds e).refCount ∧ x.freed = (s.fds e).freed) ∨
      (e < s'.next ∧ x.freed = if x.refCount = 0 then 1 else 0))
    (htable : ∀ d, v = some d → a.2 < s'.maxfd a.1)
    (hqueued : e ∈ s.failed ++ s.pending → x.refCount = 1 ∧ x.closing = true)
    (hself : CallOk s' p)
    (hlast : ∀ c', c' ≠ c → (s.pc c').last = true → (s.pc c').file = some e → x = s.fds e)
    (hsite : ∀ c', c' ≠ c → (s.pc c').site = some a → v = s.slot a)
    (hopen : ∀ c' σ, c' ≠ c → (s.pc c').site = some σ → (s.pc c').file = some e → x.openAt = (s.fds e).openAt)
    (halone : ∀ c' σ, c' ≠ c → p.site = some σ → (s.pc c').site ≠ some σ) : FdInv s' := by
  have hheld := held_update hpc
  have hother : ∀ b, b ≠ c → s'.pc b = s.pc b := fun b hb => by rw [hpc, Function.update_of_ne hb]
  have hpcc : s'.pc c = p := by rw [hpc, Function.update_self]
  have hfd : ∀ d, d ≠ e → s'.fds d = s.fds d := fun d hd => by rw [hfds, Function.update_of_ne hd]
  have hfde : s'.fds e = x := by rw [hfds, Function.update_self]
  have hle : s.next ≤ s'.next := by omega
  refine ⟨fun d => ?_, fun d => ?_, fun d => ?_, fun d => ?_, fun d hd => ?_, fun σ d hd => ?_, fun b => ?_,
    fun b b' σ hb hb' => ?_, fun hq => hpending.trans (h.quiet (hretrying.symm.trans hq)), fun d hd => ?_⟩
  · rw [hslot]
    exact refSet_update_finite (h.slots d) _ _
  · rw [hheld]
    exact refSet_update_finite (h.calls d) _ _
  · have h1 := refs_update (h.slots d) a v
    have h2 := refs_update (h.calls d) c p.held
    have h3 := h.count_eq d
    rw [FdSys.owners, hslot, hheld, hfailed, hpending]
    by_cases hd : d = e
    · subst hd
      rw [hfde]
      omega
    · have h4 := hrest d hd
      rw [hfd d hd]
      omega
  · by_cases hd : d = e
    · rw [hd, hfde]
      rcases hlive with ⟨hn, hr, hf⟩ | ⟨hlt, hf⟩
      · rw [hr, hf, hn]
        exact h.freed e
      · simp [hf, hlt]
    · have hlt : d < s'.next ↔ d < s.next := by omega
      rw [hfd d hd, h.freed d]
      simp only [hlt]
  · by_cases hdd : d = e
    · rw [hdd, hfde]
      rcases hlive with ⟨hn, hr, -⟩ | ⟨hlt, -⟩
      · rw [hr]
        exact h.fresh e (by omega)
      · omega
    · rw [hfd d hdd]
      exact h.fresh d (by omega)
  · rw [hslot] at hd
    by_cases hσ : σ = a
    · subst hσ
      rw [Function.update_self] at hd
      exact htable d hd
    · rw [Function.update_of_ne hσ] at hd
      exact (h.table σ d hd).trans_le (hmax _)
  · by_cases hb : b = c
    · rw [hb, hpcc]
      exact hself
    · rw [hother b hb]
      refine (h.call b).frame hle (fun σ hσ => ?_) (fun σ d hσ hd => ?_) fun hl d hd => ?_
      · rw [hslot]
        by_cases hσa : σ = a
        · subst hσa
          rw [Function.update_self]
          exact hsite b hb hσ
        · rw [Function.update_of_ne hσa]
      · by_cases hdd : d = e
        · rw [hdd, hfde]
          exact hopen b σ hb hσ (hdd ▸ hd)
        · rw [hfd d hdd]
      · by_cases hdd : d = e
        · rw [hdd, hfde]
          exact hlast b hb hl (hdd ▸ hd)
        · exact hfd d hdd
  · by_cases hbc : b = c
    · by_cases hbc' : b' = c
      · rw [hbc, hbc']
      · rw [hbc, hpcc] at hb
        rw [hother b' hbc'] at hb'
        exact absurd hb' (halone b' σ hbc' hb)
    · by_cases hbc' : b' = c
      · rw [hbc', hpcc] at hb'
        rw [hother b hbc] at hb
        exact absurd hb (halone b σ hbc hb')
      · rw [hother b hbc] at hb
        rw [hother b' hbc'] at hb'
        exact h.alone b b' σ hb hb'
  · rw [hfailed, hpending] at hd
    by_cases hde : d = e
    · rw [hde, hfde]
      exact hqueued (hde ▸ hd)
    · rw [hfd d hde]
      exact h.queued d hd

variable {e : ℕ} {x : DfsFd} {a : FdSlot} {v : Option ℕ} {p : FdPc}

theorem touch (h : FdInv s) (hfds : s'.fds = Function.update s.fds e x) (hsame : s.Same s')
    (hpc : s'.pc = Function.update s.pc c p) (hcount : x.refCount = (s.fds e).refCount) (hfreed : x.freed = (s.fds e).freed)
    (hheld : p.held = (s.pc c).held) (hqueued : e ∈ s.failed ++ s.pending → x.closing = true) (hself : CallOk s' p)
    (hlast : ∀ c', c' ≠ c → (s.pc c').last = true → (s.pc c').file = some e → x = s.fds e)
    (hopen : ∀ c' σ, c' ≠ c → (s.pc c').site = some σ → (s.pc c').file = some e → x.openAt = (s.fds e).openAt)
    (halone : ∀ c' σ, c' ≠ c → p.site = some σ → (s.pc c').site ≠ some σ) : FdInv s' := by
  refine h.move (a := (0, 0)) (v := s.slot (0, 0)) hfds ?_ hpc (fun t => (congrFun hsame.maxfd t).ge) (.inl hsame.next)
    hsame.failed hsame.pending hsame.retrying ?_ (fun d _ => ?_) (.inl ⟨hsame.next, hcount, hfreed⟩) (fun d hd => ?_)
    (fun hq => ⟨hcount.trans (h.queued e hq).1, hqueued hq⟩) hself hlast (fun _ _ _ => rfl) hopen halone
  · rw [hsame.slot, Function.update_eq_self]
  · rw [hcount, hheld]
  · rw [hheld]
  · rw [hsame.maxfd]
    exact h.table _ d hd

theorem moveOn (h : FdInv s) (hfds : s'.fds = s.fds) (hsame : s.Same s')
    (hpc : s'.pc = Function.update s.pc c p) (hheld : p.held = (s.pc c).held)
    (hself : CallOk s' p) (halone : ∀ c' σ, c' ≠ c → p.site = some σ → (s.pc c').site ≠ some σ) : FdInv s' :=
  h.touch (e := 0) (x := s.fds 0) (by rw [hfds, Function.update_eq_self]) hsame hpc rfl rfl hheld
    (fun hq => (h.queued 0 hq).2) hself (fun _ _ _ _ => rfl) (fun _ _ _ _ _ => rfl) halone

theorem requeue (h : FdInv s) (hfds : s'.fds = s.fds) (hslot : s'.slot = s.slot)
    (hpc : s'.pc = Function.update s.pc c p) (hmax : s'.maxfd = s.maxfd) (hnext : s'.next = s.next)
    (hqueue : ∀ d, (if (s.pc c).held = some d then 1 else 0) + s.failed.count d + s.pending.count d =
      (if p.held = some d then 1 else 0) + s'.failed.count d + s'.pending.count d)
    (hself : CallOk s' p) (hsite : p.site = none) (hquiet : s'.retrying = false → s'.pending = [])
    (hqueued : ∀ d ∈ s'.failed ++ s'.pending, (s.fds d).refCount = 1 ∧ (s.fds d).closing = true) : FdInv s' := by
  have hheld := held_update hpc
  have hother : ∀ b, b ≠ c → s'.pc b = s.pc b := fun b hb => by rw [hpc, Function.update_of_ne hb]
  have hpcc : s'.pc c = p := by rw [hpc, Function.update_self]
  have hne : ∀ b σ, (s'.pc b).site = some σ → b ≠ c := by
    rintro b σ hb rfl
    rw [hpcc, hsite] at hb
    cases hb
  refine ⟨hslot ▸ h.slots, fun d => ?_, fun d => ?_, ?_, ?_, ?_, fun b => ?_, fun b b' σ hb hb' => ?_, hquiet, hfds ▸ hqueued⟩
  · rw [hheld]
    exact refSet_update_finite (h.calls d) _ _
  · have h1 := refs_update (h.calls d) c p.held
    have h2 := h.count_eq d
    have h3 := hqueue d
    rw [FdSys.owners, hfds, hslot, hheld]
    omega
  · rw [hfds, hnext]
    exact h.freed
  · rw [hfds, hnext]
    exact h.fresh
  · rw [hslot, hmax]
    exact h.table
  · by_cases hb : b = c
    · rw [hb, hpcc]
      exact hself
    · rw [hother b hb]
      exact (h.call b).frame hnext.ge (fun _ _ => by rw [hslot]) (fun _ _ _ _ => by rw [hfds]) fun _ _ _ => by rw [hfds]
  · have h1 := hother b (hne b σ hb)
    have h2 := hother b' (hne b' σ hb')
    exact h.alone b b' σ (h1 ▸ hb) (h2 ▸ hb')

theorem drop (h : FdInv s) (hl : (s.pc c).last = true) (hd : (s.pc c).file = some d) (hs : (s.pc c).site = none)
    (hfds : s'.fds = Function.update s.fds d x) (hzero : x.refCount = 0) (hfreed : x.freed = (s.fds d).freed + 1)
    (hopen : x.openAt = (s.fds d).openAt) (hsame : s.Same s') (hpc : s'.pc = Function.update s.pc c p)
    (hheld : p.held = none) (hself : CallOk s' p) (hsite : p.site = none) :
    FdInv s' := by
  have hone := (h.call c).last hl d hd
  have hheldc : (s.pc c).held = some d := (FdPc.held_of_last hl hs).trans hd
  have hlt : d < s.next := (h.call c).known d hd
  refine h.move (a := (0, 0)) (v := s.slot (0, 0)) hfds ?_ hpc (fun t => (congrFun hsame.maxfd t).ge) (.inl hsame.next)
    hsame.failed hsame.pending hsame.retrying ?_ (fun b hb => ?_) (.inr ⟨hsame.next ▸ hlt, ?_⟩) (fun b hb => ?_)
    (fun hq => absurd hq (h.not_queued_of_held hheldc)) hself (fun c' hc' hl' hd' => ?_) (fun _ _ _ => rfl) (fun _ _ _ _ _ => hopen)
    fun _ _ _ hp => ?_
  · rw [hsame.slot, Function.update_eq_self]
  · simp only [hheldc, hheld, hzero, hone, if_pos, reduceCtorEq, if_false]
    omega
  · have hne : ¬ d = b := fun he => hb he.symm
    simp only [hheldc, hheld, Option.some.injEq, hne, if_false, reduceCtorEq]
  · rw [hfreed, h.freed d, if_neg (by omega), if_pos hzero]
  · rw [hsame.maxfd]
    exact h.table _ b hb
  · exact absurd (h.eq_of_last hl' hd' hheldc).symm hc'
  · rw [hsite] at hp
    cases hp

theorem finish (h : FdInv s) (r : FdRet) (hheld : (s.pc c).held = none) : FdInv (s.finish c r) := by
  refine h.moveOn rfl ⟨rfl, rfl, rfl, rfl, rfl, rfl⟩ rfl hheld.symm (.plain rfl rfl fun d hd => ?_) fun _ _ _ hp => ?_
  · cases hd
  · cases hp

end FdInv

section alloc

variable {cfg : DfsConfig} {s : FdSys} {t startfd idx nr maxfd fd d : ℕ} {mem : Bool} {σ : FdSlot}

theorem fdSlotExpand_some (h : fdSlotExpand cfg maxfd fd mem = some nr) : fd < nr ∧ maxfd ≤ nr := by
  unfold fdSlotExpand at h
  split_ifs at h <;> cases h <;> omega

theorem fdSlotAlloc_some (h : FdInv s) (ha : s.fdSlotAlloc cfg t startfd mem = some (idx, nr)) :
    s.slot (t, idx) = none ∧ idx < nr ∧ s.maxfd t ≤ nr := by
  unfold FdSys.fdSlotAlloc at ha
  split at ha
  · next i hi =>
    cases ha
    have hp := List.find?_some hi
    simp only [Bool.and_eq_true, Option.isNone_iff_eq_none] at hp
    exact ⟨hp.2, List.mem_range.mp (List.mem_of_find?_eq_some hi), le_rfl⟩
  · obtain ⟨nr', hnr, he⟩ := Option.map_eq_some_iff.mp ha
    cases he
    obtain ⟨hlt, hle⟩ := fdSlotExpand_some hnr
    refine ⟨?_, hlt, hle⟩
    cases hs : s.slot (t, max (s.maxfd t) startfd) with
    | none => rfl
    | some d =>
      have := h.table _ d hs
      simp only at this
      omega

theorem fdtFdGetLocked_some (h : s.fdtFdGetLocked σ = some d) :
    s.slot σ = some d ∧ (s.fds d).freed = 0 ∧ (s.fds d).closing = false := by
  unfold FdSys.fdtFdGetLocked at h
  split_ifs at h
  split at h
  · cases h
  · next d' hd' =>
    split_ifs at h with hc
    cases h
    exact ⟨hd', hc⟩

theorem le_update_maxfd (hle : s.maxfd t ≤ nr) (u : ℕ) : s.maxfd u ≤ Function.update s.maxfd t nr u := by
  by_cases hu : u = t
  · rw [hu, Function.update_self]
    exact hle
  · rw [Function.update_of_ne hu]

end alloc

namespace FdInv

variable {s : FdSys} {c c' d t : ℕ} {σ : FdSlot}

theorem not_last (h : FdInv s) (hσ : s.slot σ = some d) (hc : (s.fds d).closing = false)
    (hl : (s.pc c).last = true) : (s.pc c).file ≠ some d := by
  intro hd
  have := ((h.call c).closing hl σ d (h.site_of_last hl hd hσ) hd).1
  rw [hc] at this
  cases this

theorem openAt_of_site (h : FdInv s) (hσ : s.slot σ = some d) (hc : (s.fds d).closing = false)
    (hs : (s.pc c).site = some σ) : (s.fds d).openAt = some σ := by
  have hd : (s.pc c).file = some d := ((h.call c).slot σ hs).symm.trans hσ
  cases hl : (s.pc c).last with
  | false => exact (h.call c).openAt hl σ d hs hd
  | true => exact absurd hd (h.not_last hσ hc hl)

theorem site_ne_of_empty (h : FdInv s) (hσ : s.slot σ = none) : (s.pc c).site ≠ some σ := by
  intro hs
  obtain ⟨d, hd⟩ := FdPc.file_of_site hs
  have := (h.call c).slot σ hs
  rw [hσ, hd] at this
  cases this

theorem last_unique (h : FdInv s) (hd : (s.pc c).file = some d)
    (hw : (∃ σ, (s.pc c).site = some σ) ∨ (s.pc c).held = some d) (hne : c' ≠ c) (hl : (s.pc c').last = true) :
    (s.pc c').file ≠ some d := by
  intro hd'
  rcases hw with ⟨σ, hs⟩ | hheld
  · exact hne (h.alone _ _ σ (h.site_of_last hl hd' (((h.call c).slot σ hs).trans hd)) hs)
  · exact hne (h.eq_of_last hl hd' hheld).symm

theorem opener_unique (h : FdInv s) (hd : (s.pc c).file = some d) (hs : (s.pc c).site = some σ)
    (hl : (s.pc c).last = false) (hne : c' ≠ c) {τ : FdSlot} (hs' : (s.pc c').site = some τ) :
    (s.pc c').file ≠ some d := by
  intro hd'
  cases hl' : (s.pc c').last with
  | true => exact h.last_unique hd (.inl ⟨σ, hs⟩) hne hl' hd'
  | false =>
    have hτ := (h.call c').openAt hl' τ d hs' hd'
    rw [(h.call c).openAt hl σ d hs hd] at hτ
    exact hne (h.alone _ _ σ (hs'.trans hτ.symm) hs)

theorem setMaxfd {nr : ℕ} (h : FdInv s) (hle : s.maxfd t ≤ nr) : FdInv (s.setMaxfd t nr) :=
  ⟨h.slots, h.calls, h.count, h.freed, h.fresh, fun σ d hd => (h.table σ d hd).trans_le (le_update_maxfd hle _),
    fun b => ⟨(h.call b).known, (h.call b).slot, (h.call b).last, (h.call b).detached, (h.call b).closing,
      (h.call b).openAt⟩, h.alone, h.quiet, h.queued⟩

end FdInv

end RtSmart
