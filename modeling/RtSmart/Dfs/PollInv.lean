import RtSmart.Dfs.Poll

namespace RtSmart

open Lib

namespace Poller

def toRead (x : Poller) : List PollFd :=
  match x.pc with
  | .clear => x.fds
  | .scan rest => rest
  | .report d events rest => .driver d events :: rest
  | _ => []

def toAdd (x : Poller) : List PollFd :=
  match x.pc with
  | .clear => x.fds
  | .scan rest => rest
  | .report _ _ rest => rest
  | _ => []

def Over (x : Poller) : Prop :=
  match x.pc with
  | .out => True
  | .teardown _ => True
  | .done _ => True
  | _ => False

/-- The poller is not going to sleep over an event at the descriptor. -/
def Heard (x : Poller) (d : ℕ) (key : PollMask) : Prop :=
  x.Over ∨ x.triggered = true ∨ x.num ≠ 0 ∨ ∃ events, .driver d events ∈ x.toRead ∧ pollInterest events = key

structure Ok (x : Poller) : Prop where
  out : x.pc = .out → x.fds = []
  read : ∀ fd ∈ x.toRead, fd ∈ x.fds
  asleep : ∀ timer, x.pc = .suspended timer → x.sleeping = true ∧ x.triggered = false ∧ x.timeout ≠ 0
  none : x.pc = .prepare ∨ x.pc = .readied ∨ (∃ timer, x.pc = .suspended timer) → x.num = 0
  loop : x.pc = .clear → x.single = true

/-- A descriptor of `poll` has the poller's node in its queue, or the poller will not sleep. -/
def Registered (x : Poller) (p : ℕ) (waitingList : ℕ → List PollNode) (d : ℕ) (events : BitVec 16) : Prop :=
  x.single = false → x.error = false → x.timeout ≠ 0 →
    x.Over ∨ .poll p (pollInterest events) ∈ waitingList d ∨ x.triggered = true ∨ x.num ≠ 0 ∨
      (x.proc = true ∧ .driver d events ∈ x.toAdd)

def Later (x y : Poller) : Prop := y = x ∨ y = x.pollwake.1

variable {x y z : Poller} {d p : ℕ} {key : PollMask} {events : BitVec 16} {w : ℕ → List PollNode}

theorem pollwake_triggered (x : Poller) : x.pollwake.1.triggered = true := by
  unfold pollwake
  split_ifs <;> rfl

theorem pollwake_pollwake (x : Poller) : x.pollwake.1.pollwake.1 = x.pollwake.1 := by
  unfold pollwake
  by_cases h : x.sleeping = true
  · rw [if_pos h]
    rfl
  · rw [if_neg h, if_neg h]

theorem Later.trans (h : Later x y) (h' : Later y z) : Later x z := by
  rcases h with rfl | rfl
  · exact h'
  · rcases h' with rfl | rfl
    · exact .inr rfl
    · exact .inr (pollwake_pollwake x)

theorem Later.triggered (h : Later x y) (hx : x.triggered = true) : y.triggered = true := by
  rcases h with rfl | rfl
  · exact hx
  · exact pollwake_triggered x

theorem pollwake_fds (x : Poller) : x.pollwake.1.fds = x.fds := by
  unfold pollwake
  split_ifs <;> rfl

theorem Later.fds (h : Later x y) : y.fds = x.fds := by
  rcases h with rfl | rfl
  · rfl
  · exact pollwake_fds x

theorem Later.heard (h : Later x y) (hx : x.Heard d key) : y.Heard d key := by
  rcases h with rfl | rfl
  · exact hx
  · exact .inr (.inl (pollwake_triggered x))

theorem Later.registered (h : Later x y) (hx : x.Registered p w d events) : y.Registered p w d events := by
  rcases h with rfl | rfl
  · exact hx
  · exact fun _ _ _ => .inr (.inr (.inl (pollwake_triggered x)))

theorem Ok.pollwake (h : x.Ok) : x.pollwake.1.Ok := by
  unfold Poller.pollwake
  by_cases hs : x.sleeping = true
  · rw [if_pos hs]
    obtain ⟨hout, hread, -, hnone, hloop⟩ := h
    cases hpc : x.pc with
    | suspended timer =>
      refine ⟨nofun, nofun, nofun, fun _ => ?_, nofun⟩
      exact hnone (.inr (.inr ⟨timer, hpc⟩))
    | _ =>
      simp only [toRead, hpc] at hread
      rw [hpc] at hout hnone hloop
      exact ⟨hout, hread, nofun, hnone, hloop⟩
  · rw [if_neg hs]
    exact ⟨h.out, h.read, fun timer hp => absurd (h.asleep timer hp).1 hs, h.none, h.loop⟩

theorem Ok.of_scan {rest : List PollFd} (hpc : x.pc = .scan rest) (h : ∀ fd ∈ rest, fd ∈ x.fds) : x.Ok where
  out hp := by simp [hpc] at hp
  read fd hfd := by
    rw [toRead, hpc] at hfd
    exact h fd hfd
  asleep timer hp := by simp [hpc] at hp
  none hp := by simp [hpc] at hp
  loop hp := by simp [hpc] at hp

theorem Ok.of_over (hpc : x.Over) (hp : x.pc ≠ .out) : x.Ok := by
  unfold Over at hpc
  constructor
  · exact fun h => absurd h hp
  · intro fd hfd
    cases h : x.pc <;> simp [toRead, h] at hpc hfd
  · intro timer h
    simp [h] at hpc
  · rintro (h | h | ⟨timer, h⟩) <;> simp [h] at hpc
  · intro h
    simp [h] at hpc

theorem Later.ok (h : Later x y) (hx : x.Ok) : y.Ok := by
  rcases h with rfl | rfl
  · exact hx
  · exact hx.pollwake

end Poller

namespace PollSys

variable {s s' : PollSys} {p d : ℕ} {key k : PollMask} {poller : ℕ → Poller} {l : List PollNode} {n : PollNode}

/-! The loops over a queue. -/

def Matches (key k : PollMask) : Prop := ¬(key ≠ 0 ∧ key &&& k = 0)

theorem callback_later (key : PollMask) (n : PollNode) (p : ℕ) :
    (poller p).Later ((callback key poller n).1 p) := by
  cases n with
  | plain t => exact .inl rfl
  | poll q k =>
    rw [callback]
    split_ifs
    · exact .inl rfl
    · by_cases hpq : p = q
      · subst hpq
        exact .inr (Function.update_self _ _ _)
      · exact .inl (Function.update_of_ne hpq _ _)

theorem callback_triggered (h : Matches key k) : ((callback key poller (.poll p k)).1 p).triggered = true := by
  rw [callback, if_neg h]
  change (Function.update poller p _ p).triggered = true
  rw [Function.update_self]
  exact Poller.pollwake_triggered _

theorem matches_of_callback (h : (callback key poller (.poll p k)).2 = true) : Matches key k := by
  intro hno
  rw [callback, if_pos hno] at h
  cases h

theorem wakeOne_later (p : ℕ) : (poller p).Later ((wakeOne key poller l).1 p) := by
  induction l generalizing poller with
  | nil => exact .inl rfl
  | cons n l ih =>
    rw [wakeOne]
    split_ifs
    · exact callback_later key n p
    · exact (callback_later key n p).trans ih

theorem wakeOne_sublist : (wakeOne key poller l).2.1.Sublist l := by
  induction l generalizing poller with
  | nil => exact List.Sublist.refl []
  | cons n l ih =>
    rw [wakeOne]
    split_ifs
    · exact List.sublist_cons_self n l
    · exact ih.cons_cons n

theorem wakeOne_heard (hk : Matches key k) (h : .poll p k ∈ (wakeOne key poller l).2.1) :
    ((wakeOne key poller l).1 p).triggered = true ∨ .poll p k ∈ (wakeOne key poller l).2.2 := by
  induction l generalizing poller with
  | nil => cases h
  | cons n l ih =>
    rw [wakeOne] at h ⊢
    by_cases hn : (callback key poller n).2 = true
    · rw [if_pos hn] at h ⊢
      exact .inr h
    · rw [if_neg hn] at h ⊢
      cases List.mem_cons.mp h with
      | inl h =>
        subst h
        exact .inl ((wakeOne_later p).triggered (callback_triggered hk))
      | inr h => exact ih h

theorem wakeOne_removed (h : .poll p k ∈ l) :
    .poll p k ∈ (wakeOne key poller l).2.1 ∨ ((wakeOne key poller l).1 p).triggered = true := by
  induction l generalizing poller with
  | nil => cases h
  | cons n l ih =>
    rw [wakeOne]
    by_cases hn : (callback key poller n).2 = true
    · rw [if_pos hn]
      cases List.mem_cons.mp h with
      | inl h =>
        subst h
        exact .inr (callback_triggered (matches_of_callback hn))
      | inr h => exact .inl h
    · rw [if_neg hn]
      cases List.mem_cons.mp h with
      | inl h =>
        subst h
        exact .inl List.mem_cons_self
      | inr h => exact (ih h).imp_left (List.mem_cons_of_mem n)

theorem wakeAll_cons : wakeAll key poller (n :: l) = wakeAll key (callback key poller n).1 l := rfl

theorem wakeAll_later (p : ℕ) : (poller p).Later (wakeAll key poller l p) := by
  induction l generalizing poller with
  | nil => exact .inl rfl
  | cons n l ih =>
    rw [wakeAll_cons]
    exact (callback_later key n p).trans ih

theorem wakeAll_heard (hk : Matches key k) (h : .poll p k ∈ l) : (wakeAll key poller l p).triggered = true := by
  induction l generalizing poller with
  | nil => cases h
  | cons n l ih =>
    rw [wakeAll_cons]
    cases List.mem_cons.mp h with
    | inl h =>
      subst h
      exact (wakeAll_later p).triggered (callback_triggered hk)
    | inr h => exact ih h

/-! The invariant. -/

/-- Bit `i` of the node's key is ready, its wake-up has been made, and it was not spent on another waiter. -/
structure Lost (s : PollSys) (p d : ℕ) (key : PollMask) (i : ℕ) : Prop where
  ready : (s.ready d).getLsbD i = true
  wanted : key.getLsbD i = true
  called : (s.owed d).getLsbD i = false
  unspent : (s.spent p d).getLsbD i = false

structure Inv (s : PollSys) : Prop where
  ok : ∀ p, (s.poller p).Ok
  own : ∀ p d key, .poll p key ∈ s.waitingList d →
    ∃ events, .driver d events ∈ (s.poller p).fds ∧ pollInterest events = key
  heard : ∀ p d key i, .poll p key ∈ s.waitingList d → s.Lost p d key i → (s.poller p).Heard d key
  registered : ∀ p d events, .driver d events ∈ (s.poller p).fds → (s.poller p).Registered p s.waitingList d events

theorem matches_of_bit {i : ℕ} {mask : PollMask} (hk : k.getLsbD i = true)
    (hc : (covered mask key).getLsbD i = true) : Matches key k := by
  intro hno
  rw [covered, if_neg hno.1, BitVec.getLsbD_and, Bool.and_eq_true] at hc
  have hbit := congrArg (fun m : PollMask => m.getLsbD i) hno.2
  simp only [BitVec.getLsbD_and, hc.2, hk, BitVec.ofNat_eq_ofNat, BitVec.getLsbD_zero, Bool.and_self] at hbit
  cases hbit

theorem Inv.init : init.Inv where
  ok _ := ⟨fun _ => rfl, nofun, nofun, fun _ => rfl, nofun⟩
  own _ _ _ h := nomatch h
  heard _ _ _ _ h := nomatch h
  registered _ _ _ h := nomatch h

theorem Lost.mono {i : ℕ} (hr : ∀ i, (s'.ready d).getLsbD i = true → (s'.owed d).getLsbD i = false →
      (s.ready d).getLsbD i = true ∧ (s.owed d).getLsbD i = false)
    (hspent : s'.spent p d = s.spent p d) (h : s'.Lost p d key i) : s.Lost p d key i := by
  obtain ⟨hready, howed⟩ := hr i h.ready h.called
  exact ⟨hready, h.wanted, howed, hspent ▸ h.unspent⟩

theorem Inv.frame (h : s.Inv) (hpoller : s'.poller = s.poller) (hspent : s'.spent = s.spent)
    (hnodes : ∀ p d k, .poll p k ∈ s'.waitingList d ↔ .poll p k ∈ s.waitingList d)
    (hr : ∀ d i, (s'.ready d).getLsbD i = true → (s'.owed d).getLsbD i = false →
      (s.ready d).getLsbD i = true ∧ (s.owed d).getLsbD i = false) : s'.Inv where
  ok p := hpoller ▸ h.ok p
  own p d key hn := by
    rw [hpoller]
    exact h.own p d key ((hnodes p d key).mp hn)
  heard p d key i hn hl := by
    rw [hpoller]
    exact h.heard p d key i ((hnodes p d key).mp hn) (hl.mono (hr d) (by rw [hspent]))
  registered p d events hfd := by
    rw [hpoller] at hfd ⊢
    intro hs he ht
    rcases h.registered p d events hfd hs he ht with ho | hn | hrest
    · exact .inl ho
    · exact .inr (.inl ((hnodes p d _).mpr hn))
    · exact .inr (.inr hrest)

theorem mem_update_append (l : List PollNode) (e : ℕ) (hl : ∀ q k, .poll q k ∉ l) (w : ℕ → List PollNode) (q : ℕ) :
    .poll q k ∈ Function.update w e (w e ++ l) d ↔ .poll q k ∈ w d := by
  by_cases hd : d = e
  · subst hd
    rw [Function.update_self, List.mem_append]
    exact or_iff_left (hl q k)
  · rw [Function.update_of_ne hd]

theorem mem_update_erase {m : PollNode} (e : ℕ) (w : ℕ → List PollNode) (hm : n ≠ m) :
    n ∈ Function.update w e ((w e).erase m) d ↔ n ∈ w d := by
  by_cases hd : d = e
  · subst hd
    rw [Function.update_self]
    exact List.mem_erase_of_ne hm
  · rw [Function.update_of_ne hd]

theorem Inv.arrive (h : s.Inv) (e : ℕ) (bits : PollMask) (hs : s.step (.arrive e bits) = some s') : s'.Inv := by
  cases hs
  refine h.frame rfl rfl (fun _ _ _ => Iff.rfl) fun d i hready howed => ?_
  by_cases hd : d = e
  · subst hd
    simp only [Function.update_self, BitVec.getLsbD_or, Bool.or_eq_true, Bool.or_eq_false_iff] at hready howed
    refine ⟨?_, howed.1⟩
    cases hready with
    | inl hready => exact hready
    | inr hbit =>
      rw [hbit] at howed
      cases howed.2
  · simp only [Function.update_of_ne hd] at hready howed
    exact ⟨hready, howed⟩

theorem Inv.consume (h : s.Inv) (e : ℕ) (bits : PollMask) (hs : s.step (.consume e bits) = some s') : s'.Inv := by
  cases hs
  refine h.frame rfl rfl (fun _ _ _ => Iff.rfl) fun d i hready howed => ⟨?_, howed⟩
  by_cases hd : d = e
  · subst hd
    simp only [Function.update_self, BitVec.getLsbD_and, Bool.and_eq_true] at hready
    exact hready.1
  · simpa only [Function.update_of_ne hd] using hready

/-! Wake-ups. -/

theorem covered_bit {i : ℕ} {mask : PollMask} (h : mask.getLsbD i = true)
    (hno : (mask &&& ~~~covered mask key).getLsbD i = false) : (covered mask key).getLsbD i = true := by
  rw [BitVec.getLsbD_and, h, Bool.true_and, BitVec.getLsbD_not, Bool.and_eq_false_iff] at hno
  have hlt : i < 64 := BitVec.lt_of_getLsbD h
  simpa [hlt] using hno

theorem Inv.woken (h : s.Inv) (e : ℕ) (key : PollMask) (poller : ℕ → Poller) (l : List PollNode)
    (spent : ℕ → ℕ → PollMask) (hlater : ∀ p, (s.poller p).Later (poller p))
    (hsub : ∀ n ∈ l, n ∈ s.waitingList e)
    (hheard : ∀ p k, Matches key k → .poll p k ∈ l →
      (poller p).triggered = true ∨ ∀ i, (covered (s.owed e) key).getLsbD i = true → (spent p e).getLsbD i = true)
    (hremoved : ∀ p k, .poll p k ∈ s.waitingList e → .poll p k ∈ l ∨ (poller p).triggered = true)
    (hspent : ∀ p d i, (s.spent p d).getLsbD i = true → (spent p d).getLsbD i = true) :
    ({ s with
        owed := Function.update s.owed e (s.owed e &&& ~~~covered (s.owed e) key)
        poller := poller
        waitingList := Function.update s.waitingList e l
        spent := spent } : PollSys).Inv := by
  have hnode : ∀ d n, n ∈ Function.update s.waitingList e l d → n ∈ s.waitingList d := by
    intro d n hn
    by_cases hd : d = e
    · subst hd
      rw [Function.update_self] at hn
      exact hsub n hn
    · rwa [Function.update_of_ne hd] at hn
  constructor
  · intro p
    exact (hlater p).ok (h.ok p)
  · intro p d k hn
    change ∃ events, .driver d events ∈ (poller p).fds ∧ pollInterest events = k
    rw [(hlater p).fds]
    exact h.own p d k (hnode d _ hn)
  · intro p d k i hn hl
    have hunspent : (s.spent p d).getLsbD i = false := by
      apply Bool.eq_false_of_not_eq_true
      intro hs
      have := hspent p d i hs
      rw [hl.unspent] at this
      cases this
    by_cases hold : (s.owed d).getLsbD i = true
    · -- the bit is one that this wake-up was for
      have hde : d = e := by
        by_contra hd
        have hcalled := hl.called
        simp only [Function.update_of_ne hd] at hcalled
        rw [hold] at hcalled
        cases hcalled
      subst hde
      have hcalled := hl.called
      simp only [Function.update_self] at hcalled
      have hbit := covered_bit hold hcalled
      simp only [Function.update_self] at hn
      rcases hheard p k (matches_of_bit hl.wanted hbit) hn with ht | hsp
      · exact .inr (.inl ht)
      · have hunsp := hl.unspent
        rw [hsp i hbit] at hunsp
        cases hunsp
    · apply (hlater p).heard
      exact h.heard p d k i (hnode d _ hn) ⟨hl.ready, hl.wanted, Bool.eq_false_of_not_eq_true hold, hunspent⟩
  · intro p d events hfd
    change PollFd.driver d events ∈ (poller p).fds at hfd
    rw [(hlater p).fds] at hfd
    have hreg := (hlater p).registered (h.registered p d events hfd)
    intro hs he ht
    rcases hreg hs he ht with ho | hn | hrest
    · exact .inl ho
    · by_cases hd : d = e
      · subst hd
        rcases hremoved p _ hn with hn | htrig
        · refine .inr (.inl ?_)
          simpa only [Function.update_self] using hn
        · exact .inr (.inr (.inl htrig))
      · refine .inr (.inl ?_)
        simpa only [Function.update_of_ne hd] using hn
    · exact .inr (.inr hrest)

theorem Inv.rtWqueueWakeup (h : s.Inv) (e : ℕ) (key : PollMask) : (s.rtWqueueWakeup e key).Inv := by
  apply h.woken e key
  · intro p
    exact wakeOne_later p
  · intro n hn
    exact wakeOne_sublist.subset hn
  · intro p k hk hn
    rcases wakeOne_heard hk hn with ht | hbehind
    · exact .inl ht
    · right
      intro i hi
      have hany : (wakeOne key s.poller (s.waitingList e)).2.2.any (isOwned p) = true :=
        List.any_eq_true.mpr ⟨_, hbehind, by simp [isOwned]⟩
      simp only [hany, and_self, if_true, BitVec.getLsbD_or, hi, Bool.or_true]
  · intro p k hn
    exact wakeOne_removed hn
  · intro p d i hi
    split_ifs
    · rw [BitVec.getLsbD_or, hi, Bool.true_or]
    · exact hi

theorem Inv.rtWqueueWakeupAll (h : s.Inv) (e : ℕ) (key : PollMask) : (s.rtWqueueWakeupAll e key).Inv := by
  have hw := h.woken e key (wakeAll key s.poller (s.waitingList e)) (s.waitingList e) s.spent
    (fun p => wakeAll_later p) (fun _ hn => hn) (fun p k hk hn => .inl (wakeAll_heard hk hn))
    (fun p k hn => .inl hn) (fun _ _ _ hi => hi)
  rwa [Function.update_eq_self] at hw

/-! The steps of one poller. -/

theorem setPoller_self (x : Poller) : (s.setPoller p x).poller p = x := Function.update_self _ _ _

theorem setPoller_of_ne {q : ℕ} (x : Poller) (h : q ≠ p) : (s.setPoller p x).poller q = s.poller q :=
  Function.update_of_ne h _ _

theorem Inv.setPoller (h : s.Inv) {x : Poller} (hok : x.Ok)
    (hown : ∀ d key, .poll p key ∈ s.waitingList d → ∃ events, .driver d events ∈ x.fds ∧ pollInterest events = key)
    (hheard : ∀ d key i, .poll p key ∈ s.waitingList d → s.Lost p d key i → (s.poller p).Heard d key → x.Heard d key)
    (hreg : ∀ d events, .driver d events ∈ x.fds → x.Registered p s.waitingList d events) : (s.setPoller p x).Inv := by
  constructor
  · intro q
    by_cases hq : q = p
    · subst hq
      rw [setPoller_self]
      exact hok
    · rw [setPoller_of_ne x hq]
      exact h.ok q
  · intro q d k hn
    by_cases hq : q = p
    · subst hq
      rw [setPoller_self]
      exact hown d k hn
    · rw [setPoller_of_ne x hq]
      exact h.own q d k hn
  · intro q d k i hn hl
    have hlost : s.Lost q d k i := ⟨hl.ready, hl.wanted, hl.called, hl.unspent⟩
    have hold := h.heard q d k i hn hlost
    by_cases hq : q = p
    · subst hq
      rw [setPoller_self]
      exact hheard d k i hn hlost hold
    · rw [setPoller_of_ne x hq]
      exact hold
  · intro q d events hfd
    by_cases hq : q = p
    · subst hq
      rw [setPoller_self] at hfd ⊢
      exact hreg d events hfd
    · rw [setPoller_of_ne x hq] at hfd ⊢
      exact h.registered q d events hfd

theorem Inv.update (h : s.Inv) {x : Poller} (hok : x.Ok) (hfds : x.fds = (s.poller p).fds)
    (hheard : ∀ d key i, .poll p key ∈ s.waitingList d → s.Lost p d key i → (s.poller p).Heard d key → x.Heard d key)
    (hreg : ∀ d events, .driver d events ∈ x.fds → (s.poller p).Registered p s.waitingList d events →
      x.Registered p s.waitingList d events) : (s.setPoller p x).Inv := by
  apply h.setPoller hok _ hheard
  · intro d events hfd
    rw [hfds] at hfd
    exact hreg d events (hfds ▸ hfd) (h.registered p d events hfd)
  · intro d k hn
    rw [hfds]
    exact h.own p d k hn

theorem Inv.over (h : s.Inv) {x : Poller} (hok : x.Ok) (hfds : x.fds = (s.poller p).fds) (hover : x.Over) :
    (s.setPoller p x).Inv :=
  h.update hok hfds (fun _ _ _ _ _ _ => .inl hover) (fun _ _ _ _ _ _ _ => .inl hover)

theorem Inv.start (h : s.Inv) (hp : (s.poller p).pc = .out) {x : Poller} (hok : x.Ok)
    (hread : ∀ fd ∈ x.fds, fd ∈ x.toAdd) (hproc : x.timeout ≠ 0 → x.proc = true) : (s.setPoller p x).Inv := by
  have hnone : ∀ d key, .poll p key ∉ s.waitingList d := by
    intro d key hn
    obtain ⟨events, hfd, -⟩ := h.own p d key hn
    rw [(h.ok p).out hp] at hfd
    cases hfd
  apply h.setPoller hok
  · intro d key hn
    exact absurd hn (hnone d key)
  · intro d key i hn
    exact absurd hn (hnone d key)
  · intro d events hfd _ _ ht
    exact .inr (.inr (.inr (.inr ⟨hproc ht, hread _ hfd⟩)))

theorem Inv.poll (h : s.Inv) {fds : List PollFd} {timeout : ℤ} (hs : s.step (.poll p fds timeout) = some s') :
    s'.Inv := by
  rw [step] at hs
  split_ifs at hs with hp
  cases hs
  apply h.start hp
  · exact ⟨nofun, fun fd hfd => hfd, nofun, fun _ => rfl, nofun⟩
  · exact fun fd hfd => hfd
  · exact fun ht => decide_eq_true ht

theorem Inv.pollWait (h : s.Inv) {events : BitVec 16} {timeout : ℤ}
    (hs : s.step (.pollWait p d events timeout) = some s') : s'.Inv := by
  rw [step] at hs
  split_ifs at hs with hp
  cases hs
  apply h.start hp
  · exact ⟨nofun, fun fd hfd => hfd, nofun, fun _ => rfl, fun _ => rfl⟩
  · exact fun fd hfd => hfd
  · exact fun ht => decide_eq_true ht

theorem Inv.clear (h : s.Inv) (hs : s.step (.clear p) = some s') : s'.Inv := by
  rw [step] at hs
  split_ifs at hs with hp
  cases hs
  have hsingle := (h.ok p).loop hp
  apply h.update
  · exact Poller.Ok.of_scan rfl fun fd hfd => hfd
  · rfl
  · intro d key i hn _ _
    exact .inr (.inr (.inr (h.own p d key hn)))
  · intro d events _ _ hs
    rw [hsingle] at hs
    cases hs

theorem Inv.scanMask (h : s.Inv) {mask : PollMask} {fd : PollFd} {rest : List PollFd}
    (hread : (s.poller p).toRead = fd :: rest) (hover : ¬(s.poller p).Over)
    (hadd : ∀ d events, .driver d events ∈ (s.poller p).toAdd → .driver d events ∈ rest)
    (hmask : ∀ d events, fd = .driver d events → ∀ i, s.Lost p d (pollInterest events) i → mask ≠ 0) :
    (s.setPoller p ((s.poller p).scanMask mask rest)).Inv := by
  have hrest : ∀ fd' ∈ rest, fd' ∈ (s.poller p).fds := by
    intro fd' hfd'
    apply (h.ok p).read
    rw [hread]
    exact List.mem_cons_of_mem fd hfd'
  unfold Poller.scanMask
  by_cases hz : mask ≠ 0
  · rw [if_pos hz]
    apply h.update
    · exact Poller.Ok.of_scan rfl hrest
    · rfl
    · intro d k i _ _ _
      exact .inr (.inr (.inl (Nat.succ_ne_zero _)))
    · intro d events _ _ _ _ _
      exact .inr (.inr (.inr (.inl (Nat.succ_ne_zero _))))
  · rw [if_neg hz]
    apply h.update
    · exact Poller.Ok.of_scan rfl hrest
    · rfl
    · intro d k i _ hl hold
      rcases hold with ho | ht | hn | ⟨events, hmem, rfl⟩
      · exact absurd ho hover
      · exact .inr (.inl ht)
      · exact .inr (.inr (.inl hn))
      · rw [hread] at hmem
        cases List.mem_cons.mp hmem with
        | inl hhead => exact absurd (hmask d events hhead.symm i hl) hz
        | inr hmem => exact .inr (.inr (.inr ⟨events, hmem, rfl⟩))
    · intro d events _ hold hs he ht
      rcases hold hs he ht with ho | hn | htrig | hnum | ⟨hproc, hmem⟩
      · exact absurd ho hover
      · exact .inr (.inl hn)
      · exact .inr (.inr (.inl htrig))
      · exact .inr (.inr (.inr (.inl hnum)))
      · exact .inr (.inr (.inr (.inr ⟨hproc, hadd d events hmem⟩)))

theorem Inv.report (h : s.Inv) (hs : s.step (.report p) = some s') : s'.Inv := by
  rw [step] at hs
  cases hpc : (s.poller p).pc with
  | report d events rest =>
    rw [hpc] at hs
    cases hs
    have hread : (s.poller p).toRead = .driver d events :: rest := by rw [Poller.toRead, hpc]
    have hadd : (s.poller p).toAdd = rest := by rw [Poller.toAdd, hpc]
    have hover : ¬(s.poller p).Over := by
      rw [Poller.Over, hpc]
      exact id
    apply h.scanMask hread hover
    · intro e events' hmem
      rwa [hadd] at hmem
    · intro e events' he i hl hz
      cases he
      have hbit := congrArg (fun m : PollMask => m.getLsbD i) hz
      simp only [BitVec.getLsbD_and, hl.ready, hl.wanted, BitVec.ofNat_eq_ofNat, BitVec.getLsbD_zero,
        Bool.and_self] at hbit
      cases hbit
  | _ => simp [hpc] at hs

theorem Inv.addNode (h : s.Inv) {events : BitVec 16} (hread : .driver d events ∈ (s.poller p).toRead) :
    ({ s with waitingList :=
        Function.update s.waitingList d (s.waitingList d ++ [.poll p (pollInterest events)]) } : PollSys).Inv := by
  have hmem : ∀ e n, n ∈ Function.update s.waitingList d (s.waitingList d ++ [.poll p (pollInterest events)]) e →
      n ∈ s.waitingList e ∨ (e = d ∧ n = .poll p (pollInterest events)) := by
    intro e n hn
    by_cases he : e = d
    · subst he
      rw [Function.update_self, List.mem_append, List.mem_singleton] at hn
      exact hn.imp_right fun hn => ⟨rfl, hn⟩
    · rw [Function.update_of_ne he] at hn
      exact .inl hn
  constructor
  · exact h.ok
  · intro q e k hn
    rcases hmem e _ hn with hold | ⟨rfl, heq⟩
    · exact h.own q e k hold
    · cases heq
      exact ⟨events, (h.ok p).read _ hread, rfl⟩
  · intro q e k i hn hl
    rcases hmem e _ hn with hold | ⟨rfl, heq⟩
    · exact h.heard q e k i hold ⟨hl.ready, hl.wanted, hl.called, hl.unspent⟩
    · cases heq
      exact .inr (.inr (.inr ⟨events, hread, rfl⟩))
  · intro q e events' hfd hs he ht
    rcases h.registered q e events' hfd hs he ht with ho | hn | hrest
    · exact .inl ho
    · refine .inr (.inl ?_)
      by_cases hed : e = d
      · subst hed
        simp only [Function.update_self]
        exact List.mem_append_left _ hn
      · simpa only [Function.update_of_ne hed] using hn
    · exact .inr (.inr hrest)

/-- What `rt_poll_add` does to a poller that is at the descriptor. -/
theorem Inv.rtPollAdd (h : s.Inv) {events : BitVec 16} {rest : List PollFd}
    (hpc : (s.poller p).pc = .scan (.driver d events :: rest)) (alloc : Bool) :
    (s.rtPollAdd p d (pollInterest events) alloc).Inv ∧
    ((s.rtPollAdd p d (pollInterest events) alloc).poller p).pc = .scan (.driver d events :: rest) ∧
    (((s.rtPollAdd p d (pollInterest events) alloc).poller p).proc = true →
      ((s.rtPollAdd p d (pollInterest events) alloc).poller p).error = true ∨
      .poll p (pollInterest events) ∈ (s.rtPollAdd p d (pollInterest events) alloc).waitingList d) := by
  have hread : (s.poller p).toRead = .driver d events :: rest := by rw [Poller.toRead, hpc]
  have hok := h.ok p
  unfold PollSys.rtPollAdd
  by_cases hproc : (s.poller p).proc = true
  · rw [if_pos hproc]
    by_cases halloc : alloc = true
    · rw [if_pos halloc]
      have hn := h.update (x := { s.poller p with nodes := (d, pollInterest events) :: (s.poller p).nodes })
        ⟨hok.out, hok.read, hok.asleep, hok.none, hok.loop⟩ rfl (fun _ _ _ _ _ hold => hold) fun _ _ _ hold => hold
      refine ⟨?_, ?_, fun _ => .inr ?_⟩
      · apply hn.addNode
        rw [setPoller_self]
        change PollFd.driver d events ∈ (s.poller p).toRead
        rw [hread]
        exact List.mem_cons_self
      · change (Function.update s.poller p _ p).pc = _
        rw [Function.update_self]
        exact hpc
      · change _ ∈ Function.update s.waitingList d _ d
        rw [Function.update_self]
        exact List.mem_append_right _ (List.mem_singleton_self _)
    · rw [if_neg halloc]
      refine ⟨?_, ?_, fun _ => .inl ?_⟩
      · apply h.update (x := { s.poller p with error := true })
          ⟨hok.out, hok.read, hok.asleep, hok.none, hok.loop⟩ rfl
        · exact fun _ _ _ _ _ hold => hold
        · exact fun _ _ _ _ _ he => nomatch he
      · rw [setPoller_self]
        exact hpc
      · rw [setPoller_self]
  · rw [if_neg hproc]
    exact ⟨h, hpc, fun hp => absurd hp hproc⟩

theorem Inv.scanFd (h : s.Inv) {fd : PollFd} {rest : List PollFd} (hpc : (s.poller p).pc = .scan (fd :: rest))
    (alloc : Bool) : (s.scanFd p alloc rest fd).Inv := by
  have hread : (s.poller p).toRead = fd :: rest := by rw [Poller.toRead, hpc]
  have hadd : (s.poller p).toAdd = fd :: rest := by rw [Poller.toAdd, hpc]
  have hover : ¬(s.poller p).Over := by
    rw [Poller.Over, hpc]
    exact id
  have hplain (mask : PollMask) (hfd : ∀ d events, fd ≠ .driver d events) :
      (s.setPoller p ((s.poller p).scanMask mask rest)).Inv := by
    apply h.scanMask hread hover
    · intro d events hmem
      rw [hadd] at hmem
      cases List.mem_cons.mp hmem with
      | inl hhead => exact absurd hhead.symm (hfd d events)
      | inr hmem => exact hmem
    · intro d events he
      exact absurd he (hfd d events)
  cases fd with
  | ignored => exact hplain 0 nofun
  | invalid => exact hplain 0x10 nofun
  | always events => exact hplain _ nofun
  | driver d events =>
    obtain ⟨hi, hpc', hnode⟩ := h.rtPollAdd hpc alloc
    change ((s.rtPollAdd p d (pollInterest events) alloc).setPc p (.report d events rest)).Inv
    generalize s.rtPollAdd p d (pollInterest events) alloc = t at hi hpc' hnode ⊢
    have hread' : (t.poller p).toRead = .driver d events :: rest := by rw [Poller.toRead, hpc']
    have hadd' : (t.poller p).toAdd = .driver d events :: rest := by rw [Poller.toAdd, hpc']
    have hover' : ¬(t.poller p).Over := by
      rw [Poller.Over, hpc']
      exact id
    apply hi.update
    · refine ⟨nofun, ?_, nofun, fun hno => ?_, nofun⟩
      · have hsub := (hi.ok p).read
        rw [hread'] at hsub
        exact hsub
      · simp at hno
    · rfl
    · intro e k i _ _ hold
      rcases hold with ho | ht | hn | ⟨events', hmem, rfl⟩
      · exact absurd ho hover'
      · exact .inr (.inl ht)
      · exact .inr (.inr (.inl hn))
      · rw [hread'] at hmem
        exact .inr (.inr (.inr ⟨events', hmem, rfl⟩))
    · intro e events' _ hold hs he ht
      rcases hold hs he ht with ho | hn | htrig | hnum | ⟨hproc, hmem⟩
      · exact absurd ho hover'
      · exact .inr (.inl hn)
      · exact .inr (.inr (.inl htrig))
      · exact .inr (.inr (.inr (.inl hnum)))
      · rw [hadd'] at hmem
        cases List.mem_cons.mp hmem with
        | inl hhead =>
          cases hhead
          rcases hnode hproc with herr | hn
          · change (t.poller p).error = false at he
            rw [herr] at he
            cases he
          · exact .inr (.inl hn)
        | inr hmem => exact .inr (.inr (.inr (.inr ⟨hproc, hmem⟩)))

theorem Inv.quiet (h : s.Inv) {x : Poller} (hread : (s.poller p).toRead = []) (hadd : (s.poller p).toAdd = [])
    (hover : ¬(s.poller p).Over) (hnum : (s.poller p).num = 0) (hok : x.Ok) (hfds : x.fds = (s.poller p).fds)
    (hkeep : x.Over ∨ (x.triggered = (s.poller p).triggered ∧ x.single = (s.poller p).single ∧
      x.error = (s.poller p).error ∧ x.timeout = (s.poller p).timeout)) : (s.setPoller p x).Inv := by
  rcases hkeep with ho | ⟨htrig, hsingle, herr, htime⟩
  · exact h.over hok hfds ho
  · apply h.update hok hfds
    · intro d k i _ _ hold
      rcases hold with ho | ht | hn | ⟨events, hmem, -⟩
      · exact absurd ho hover
      · exact .inr (.inl (htrig ▸ ht))
      · exact absurd hnum hn
      · rw [hread] at hmem
        cases hmem
    · intro d events _ hold hs he ht
      rcases hold (hsingle ▸ hs) (herr ▸ he) (htime ▸ ht) with ho | hn | ht | hn | ⟨-, hmem⟩
      · exact absurd ho hover
      · exact .inr (.inl hn)
      · exact .inr (.inr (.inl (htrig ▸ ht)))
      · exact absurd hnum hn
      · rw [hadd] at hmem
        cases hmem

theorem Inv.scanEnd (h : s.Inv) (hpc : (s.poller p).pc = .scan []) (elapsed : Bool) :
    (s.setPoller p ((s.poller p).scanEnd elapsed)).Inv := by
  have hread : (s.poller p).toRead = [] := by rw [Poller.toRead, hpc]
  have hadd : (s.poller p).toAdd = [] := by rw [Poller.toAdd, hpc]
  have hover : ¬(s.poller p).Over := by
    rw [Poller.Over, hpc]
    exact id
  unfold Poller.scanEnd
  by_cases hnum : (s.poller p).num ≠ 0
  · simp only [if_pos hnum]
    exact h.over (Poller.Ok.of_over trivial nofun) rfl trivial
  · simp only [if_neg hnum]
    have hzero : (s.poller p).num = 0 := not_not.mp hnum
    have hprepare : (s.setPoller p { s.poller p with proc := false, pc := .prepare }).Inv := by
      apply h.quiet hread hadd hover hzero
      · exact ⟨nofun, nofun, nofun, fun _ => hzero, nofun⟩
      · rfl
      · exact .inr ⟨rfl, rfl, rfl, rfl⟩
    split_ifs
    · exact h.over (Poller.Ok.of_over trivial nofun) rfl trivial
    · exact h.over (Poller.Ok.of_over trivial nofun) rfl trivial
    · exact hprepare
    · exact h.over (Poller.Ok.of_over trivial nofun) rfl trivial
    · exact hprepare

theorem Inv.waitEnd (h : s.Inv) (hadd : (s.poller p).toAdd = []) (hover : ¬(s.poller p).Over)
    (hnum : (s.poller p).num = 0) : (s.setPoller p (s.poller p).waitEnd).Inv := by
  unfold Poller.waitEnd
  by_cases hsingle : (s.poller p).single = true
  · rw [if_pos hsingle]
    apply h.update
    · exact ⟨nofun, fun fd hfd => hfd, nofun, fun hno => by simp at hno, fun _ => hsingle⟩
    · rfl
    · intro d k i hn _ _
      exact .inr (.inr (.inr (h.own p d k hn)))
    · intro d events _ _ hs
      rw [hsingle] at hs
      cases hs
  · rw [if_neg hsingle]
    apply h.update
    · exact Poller.Ok.of_scan rfl fun fd hfd => hfd
    · rfl
    · intro d k i hn _ _
      exact .inr (.inr (.inr (h.own p d k hn)))
    · intro d events _ hold hs he ht
      rcases hold hs he ht with ho | hn | ht | hn | ⟨-, hmem⟩
      · exact absurd ho hover
      · exact .inr (.inl hn)
      · exact .inr (.inr (.inl ht))
      · exact absurd hnum hn
      · rw [hadd] at hmem
        cases hmem

theorem Inv.waitTimeout (h : s.Inv) (hpc : (s.poller p).pc = .prepare) (suspended : Bool) :
    (s.setPoller p ((s.poller p).waitTimeout suspended)).Inv := by
  have hread : (s.poller p).toRead = [] := by rw [Poller.toRead, hpc]
  have hadd : (s.poller p).toAdd = [] := by rw [Poller.toAdd, hpc]
  have hover : ¬(s.poller p).Over := by
    rw [Poller.Over, hpc]
    exact id
  have hnum : (s.poller p).num = 0 := (h.ok p).none (.inl hpc)
  unfold Poller.waitTimeout
  by_cases hsleep : (s.poller p).timeout ≠ 0 ∧ (s.poller p).triggered = false
  · rw [if_pos hsleep]
    split_ifs
    · apply h.quiet hread hadd hover hnum
      · exact ⟨nofun, nofun, fun _ _ => ⟨rfl, hsleep.2, hsleep.1⟩, fun _ => hnum, nofun⟩
      · rfl
      · exact .inr ⟨rfl, rfl, rfl, rfl⟩
    · exact h.over (Poller.Ok.of_over trivial nofun) rfl trivial
  · rw [if_neg hsleep]
    exact h.waitEnd hadd hover hnum

theorem Inv.ready (h : s.Inv) {timer : Bool} (hpc : (s.poller p).pc = .suspended timer) (err : Err) :
    (s.setPoller p { s.poller p with err := err, pc := .readied }).Inv := by
  have hnum : (s.poller p).num = 0 := (h.ok p).none (.inr (.inr ⟨timer, hpc⟩))
  have hover : ¬(s.poller p).Over := by
    rw [Poller.Over, hpc]
    exact id
  apply h.quiet (by rw [Poller.toRead, hpc]) (by rw [Poller.toAdd, hpc]) hover hnum
  · exact ⟨nofun, nofun, nofun, fun _ => hnum, nofun⟩
  · rfl
  · exact .inr ⟨rfl, rfl, rfl, rfl⟩

theorem setPoller_setPoller (x y : Poller) : (s.setPoller p x).setPoller p y = s.setPoller p y := by
  simp only [setPoller, Function.update_idem]

theorem Inv.resumed (h : s.Inv) (hpc : (s.poller p).pc = .readied) : (s.setPoller p (s.poller p).resumed).Inv := by
  have hnum : (s.poller p).num = 0 := (h.ok p).none (.inr (.inl hpc))
  have hover : ¬(s.poller p).Over := by
    rw [Poller.Over, hpc]
    exact id
  have hadd : (s.poller p).toAdd = [] := by rw [Poller.toAdd, hpc]
  have hread : (s.poller p).toRead = [] := by rw [Poller.toRead, hpc]
  have hok := h.ok p
  have hawake : (s.setPoller p { s.poller p with sleeping := false }).Inv := by
    apply h.quiet hread hadd hover hnum
    · refine ⟨hok.out, hok.read, fun timer hp => ?_, hok.none, hok.loop⟩
      change (s.poller p).pc = .suspended timer at hp
      rw [hpc] at hp
      cases hp
    · rfl
    · exact .inr ⟨rfl, rfl, rfl, rfl⟩
  unfold Poller.resumed
  by_cases herr : (s.poller p).err = .eintr
  · simp only [if_pos herr]
    exact h.over (Poller.Ok.of_over trivial nofun) rfl trivial
  · simp only [if_neg herr]
    have hend := hawake.waitEnd (p := p)
    rw [setPoller_self, setPoller_setPoller] at hend
    exact hend hadd hover hnum

theorem Inv.remove (h : s.Inv) (hs : s.step (.remove p) = some s') : s'.Inv := by
  rw [step] at hs
  cases hpc : (s.poller p).pc with
  | teardown result =>
    rw [hpc] at hs
    have hover : ({ s.poller p with pc := .teardown result } : Poller).Over := trivial
    cases hnodes : (s.poller p).nodes with
    | nil =>
      rw [hnodes] at hs
      cases hs
      exact h.over (Poller.Ok.of_over trivial nofun) rfl trivial
    | cons n nodes =>
      rw [hnodes] at hs
      cases hs
      have hpover : (s.poller p).Over := by
        rw [Poller.Over, hpc]
        trivial
      have hn := h.over (x := { s.poller p with nodes := nodes })
        (Poller.Ok.of_over hpover (by rw [hpc]; exact nofun)) rfl hpover
      have hmem : ∀ d m, m ∈ Function.update s.waitingList n.1 ((s.waitingList n.1).erase (.poll p n.2)) d →
          m ∈ s.waitingList d := by
        intro d m hm
        by_cases hd : d = n.1
        · subst hd
          rw [Function.update_self] at hm
          exact List.mem_of_mem_erase hm
        · rwa [Function.update_of_ne hd] at hm
      refine ⟨hn.ok, fun q d k hq => hn.own q d k (hmem d _ hq), fun q d k i hq hl => ?_, ?_⟩
      · exact hn.heard q d k i (hmem d _ hq) ⟨hl.ready, hl.wanted, hl.called, hl.unspent⟩
      · intro q d events hfd hs he ht
        by_cases hqp : q = p
        · subst hqp
          left
          change (Function.update s.poller q _ q).Over
          rw [Function.update_self]
          exact hpover
        · rcases hn.registered q d events hfd hs he ht with ho | hq | hrest
          · exact .inl ho
          · refine .inr (.inl ((mem_update_erase n.1 s.waitingList ?_).mpr hq))
            intro heq
            exact hqp (PollNode.poll.inj heq).1
          · exact .inr (.inr hrest)
  | _ => simp [hpc] at hs

theorem Inv.step {e : PollEvent} (h : s.Inv) (hs : s.step e = some s') : s'.Inv := by
  cases e with
  | arrive d bits => exact h.arrive d bits hs
  | consume d bits => exact h.consume d bits hs
  | wakeup d key =>
    cases hs
    exact h.rtWqueueWakeup d key
  | wakeupAll d key =>
    cases hs
    exact h.rtWqueueWakeupAll d key
  | enter d t =>
    cases hs
    exact h.frame rfl rfl (fun q e k => mem_update_append [.plain t] d (by simp) s.waitingList q) fun _ _ hr ho => ⟨hr, ho⟩
  | leave d t =>
    cases hs
    exact h.frame rfl rfl (fun q e k => mem_update_erase d s.waitingList nofun) fun _ _ hr ho => ⟨hr, ho⟩
  | poll p fds timeout => exact h.poll hs
  | pollWait p d events timeout => exact h.pollWait hs
  | clear p => exact h.clear hs
  | scan p alloc elapsed =>
    rw [PollSys.step] at hs
    cases hpc : (s.poller p).pc with
    | scan rest =>
      rw [hpc] at hs
      cases rest with
      | nil =>
        cases hs
        exact h.scanEnd hpc elapsed
      | cons fd rest =>
        cases hs
        exact h.scanFd hpc alloc
    | _ => simp [hpc] at hs
  | report p => exact h.report hs
  | fail p =>
    rw [PollSys.step] at hs
    cases hpc : (s.poller p).pc with
    | report d events rest =>
      rw [hpc] at hs
      cases hs
      exact h.over (Poller.Ok.of_over trivial nofun) rfl trivial
    | _ => simp [hpc] at hs
  | wait p suspended =>
    rw [PollSys.step] at hs
    split_ifs at hs with hpc
    cases hs
    exact h.waitTimeout hpc suspended
  | expire p =>
    rw [PollSys.step] at hs
    split_ifs at hs with hpc
    cases hs
    exact h.ready hpc .etimeout
  | signal p =>
    rw [PollSys.step] at hs
    cases hpc : (s.poller p).pc with
    | suspended timer =>
      rw [hpc] at hs
      cases hs
      exact h.ready hpc (s.poller p).err
    | _ => simp [hpc] at hs
  | resume p =>
    rw [PollSys.step] at hs
    split_ifs at hs with hpc
    cases hs
    exact h.resumed hpc
  | remove p => exact h.remove hs

/-! The runs. -/

theorem Inv.not_lost (h : s.Inv) {timer : Bool} {i : ℕ} (hpc : (s.poller p).pc = .suspended timer)
    (hn : .poll p key ∈ s.waitingList d) : ¬s.Lost p d key i := by
  intro hl
  have hnum : (s.poller p).num = 0 := (h.ok p).none (.inr (.inr ⟨timer, hpc⟩))
  rcases h.heard p d key i hn hl with ho | ht | hno | ⟨events, hmem, -⟩
  · rw [Poller.Over, hpc] at ho
    exact ho
  · rw [((h.ok p).asleep timer hpc).2.1] at ht
    cases ht
  · exact hno hnum
  · rw [Poller.toRead, hpc] at hmem
    cases hmem

theorem waitEnd_awake (x : Poller) (timer : Bool) : x.waitEnd.pc ≠ .suspended timer := by
  unfold Poller.waitEnd
  split_ifs <;> exact nofun

theorem Inv.stays_awake (h : s.Inv) {suspended : Bool} {i : ℕ} (hn : .poll p key ∈ s.waitingList d)
    (hl : s.Lost p d key i) (hs : s.step (.wait p suspended) = some s') (timer : Bool) :
    (s'.poller p).pc ≠ .suspended timer := by
  rw [PollSys.step] at hs
  split_ifs at hs with hpc
  cases hs
  have htrig : (s.poller p).triggered = true := by
    rcases h.heard p d key i hn hl with ho | ht | hno | ⟨events, hmem, -⟩
    · rw [Poller.Over, hpc] at ho
      cases ho
    · exact ht
    · exact absurd ((h.ok p).none (.inl hpc)) hno
    · rw [Poller.toRead, hpc] at hmem
      cases hmem
  rw [setPoller_self, Poller.waitTimeout, if_neg (by simp [htrig])]
  exact waitEnd_awake _ timer

theorem Inv.node_of_suspended (h : s.Inv) {timer : Bool} {events : BitVec 16}
    (hpc : (s.poller p).pc = .suspended timer) (hfd : .driver d events ∈ (s.poller p).fds)
    (hsingle : (s.poller p).single = false) (herr : (s.poller p).error = false) :
    .poll p (pollInterest events) ∈ s.waitingList d := by
  obtain ⟨-, hquiet, htime⟩ := (h.ok p).asleep timer hpc
  rcases h.registered p d events hfd hsingle herr htime with ho | hn | ht | hno | ⟨-, hmem⟩
  · rw [Poller.Over, hpc] at ho
    cases ho
  · exact hn
  · rw [hquiet] at ht
    cases ht
  · exact absurd ((h.ok p).none (.inr (.inr ⟨timer, hpc⟩))) hno
  · rw [Poller.toAdd, hpc] at hmem
    cases hmem

/-- What is ready at a queue that holds the poller's node, with the wake-up made and not spent on a waiter ahead
of it, has been seen or keeps the poller from sleeping. -/
theorem poll_no_lost_event {es : List PollEvent} (h : run step init es = some s) :
    (∀ p d key i, .poll p key ∈ s.waitingList d → s.Lost p d key i → (s.poller p).Heard d key) ∧
    (∀ p d key i suspended s', .poll p key ∈ s.waitingList d → s.Lost p d key i →
      s.step (.wait p suspended) = some s' → ∀ timer, (s'.poller p).pc ≠ .suspended timer) ∧
    (∀ p timer, (s.poller p).pc = .suspended timer →
      ∀ d key i, .poll p key ∈ s.waitingList d → ¬s.Lost p d key i) ∧
    ∀ p timer, (s.poller p).pc = .suspended timer → (s.poller p).single = false → (s.poller p).error = false →
      ∀ d events, .driver d events ∈ (s.poller p).fds → .poll p (pollInterest events) ∈ s.waitingList d := by
  have hi : s.Inv := run_invariant Inv (fun _ _ _ hi hs => hi.step hs) h Inv.init
  refine ⟨hi.heard, ?_, ?_, ?_⟩
  · intro p d key i suspended s' hn hl hs timer
    exact hi.stays_awake hn hl hs timer
  · intro p timer hpc d key i hn
    exact hi.not_lost hpc hn
  · intro p timer hpc hsingle herr d events hfd
    exact hi.node_of_suspended hpc hfd hsingle herr

/-- A call of `poll` for `POLLIN` at queue 0 that finds nothing and goes to sleep. -/
def sleepSteps (p : ℕ) : List PollEvent :=
  [.poll p [.driver 0 1] (-1), .scan p true false, .report p, .scan p true false, .wait p true]

theorem poll_no_lost_event_sleeping : ∃ s, run step init (sleepSteps 0) = some s ∧ ∀ i, ¬s.Lost 0 0 0x0d i := by
  have hrun : ((run step init (sleepSteps 0)).any fun s =>
      (s.poller 0).pc = .suspended false ∧ .poll 0 0x0d ∈ s.waitingList 0) = true := by
    decide
  obtain ⟨s, hs, hp⟩ := (Option.any_eq_true _ _).mp hrun
  obtain ⟨hpc, hn⟩ := of_decide_eq_true hp
  exact ⟨s, hs, fun i => (poll_no_lost_event hs).2.2.1 0 false hpc 0 0x0d i hn⟩

/-- Two callers sleep at one queue, and the driver wakes one of them. -/
theorem sleeps_while_ready : ¬ ∀ es s p d key i timer, run step init es = some s →
    (s.poller p).pc = .suspended timer → .poll p key ∈ s.waitingList d → (s.ready d).getLsbD i = true →
    key.getLsbD i = true → (s.owed d).getLsbD i = true := by
  intro h
  have hrun : ((run step init (sleepSteps 0 ++ sleepSteps 1 ++ [.arrive 0 1, .wakeup 0 1])).any fun s =>
      (s.poller 1).pc = .suspended false ∧ .poll 1 0x0d ∈ s.waitingList 0 ∧ (s.ready 0).getLsbD 0 = true ∧
        (s.owed 0).getLsbD 0 = false) = true := by
    decide
  obtain ⟨s, hs, hp⟩ := (Option.any_eq_true _ _).mp hrun
  obtain ⟨hpc, hn, hready, howed⟩ := of_decide_eq_true hp
  have hfound := h _ s 1 0 0x0d 0 false hs hpc hn hready (by decide)
  rw [howed] at hfound
  cases hfound

end PollSys

end RtSmart
