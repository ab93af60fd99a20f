import RtSmart.Lwp.ChannelRun

/-!
Closing a channel, and with it every step: the invariant holds in every state a run reaches.
-/

namespace RtSmart

namespace ChanSys

open RtChannel Lib

variable {max : ℕ} {serves : ℕ → ℕ → Prop} {s s' : ChanSys} {owner : ℕ → Owner} {c t p : ℕ} {e : Event}

theorem resume_error (ht : (s.thread t).suspended = true) :
    (s.setThread t fun x => { x with error := .error }).resume t = { s with
      chan := fun d => (s.chan d).unlink t
      thread := Function.update s.thread t ({ s.thread t with error := .error } : ChanThread).woken } :=
  resume_setThread _ ht

theorem resumeAll_eq {l : List ℕ} (hl : ∀ t ∈ l, (s.thread t).suspended = true) (hd : l.Nodup) :
    s.resumeAll l = { s with
      chan := fun d => { s.chan d with
        suspendThread := (s.chan d).suspendThread.diff l, waitThread := (s.chan d).waitThread.diff l }
      thread := fun x => if x ∈ l then ({ s.thread x with error := .error } : ChanThread).woken else s.thread x } := by
  induction l generalizing s with
  | nil => simp [resumeAll]
  | cons a l ih =>
    rw [List.nodup_cons] at hd
    have hne : ∀ t ∈ l, t ≠ a := fun t ht he => hd.1 (he ▸ ht)
    have hstep : s.resumeAll (a :: l) =
        ((s.setThread a fun x => { x with error := .error }).resume a).resumeAll l := rfl
    rw [hstep, resume_error (hl a List.mem_cons_self), ih _ hd.2]
    · have hthread : (fun x => if x ∈ l then
          ({ Function.update s.thread a ({ s.thread a with error := .error } : ChanThread).woken x with
            error := .error } : ChanThread).woken
          else Function.update s.thread a ({ s.thread a with error := .error } : ChanThread).woken x) =
          fun x => if x ∈ a :: l then ({ s.thread x with error := .error } : ChanThread).woken else s.thread x := by
        funext x
        by_cases hx : x = a
        · subst hx
          simp [hd.1]
        · simp only [Function.update_of_ne hx, List.mem_cons, hx, false_or]
      simp only [hthread, List.diff_cons, unlink]
    · intro t ht
      simp only [Function.update_of_ne (hne t ht)]
      exact hl t (List.mem_cons_of_mem a ht)

theorem diff_eq_self {l k : List ℕ} (h : ∀ t ∈ k, t ∉ l) : l.diff k = l := by
  induction k with
  | nil => rfl
  | cons a k ih =>
    rw [List.diff_cons, List.erase_of_not_mem (h a List.mem_cons_self)]
    exact ih fun t ht => h t (List.mem_cons_of_mem a ht)

theorem diff_self (l : List ℕ) : l.diff l = [] := by
  induction l with
  | nil => rfl
  | cons a l ih => rw [List.diff_cons, List.erase_cons_head, ih]

def listed (s : ChanSys) (c : ℕ) : List ℕ := (s.chan c).suspendThread ++ (s.chan c).waitThread

/-- What closing makes of the state. -/
def closed (s : ChanSys) (c : ℕ) : ChanSys :=
  { s with
    chan := Function.update s.chan c { s.chan c with
      suspendThread := [], waitThread := [], waitMsg := [], alive := false }
    thread := fun x =>
      if x ∈ s.listed c then ({ s.thread x with error := .error } : ChanThread).woken else s.thread x }

theorem Coherent.listed_blocked (h : s.Coherent) (hc : (s.chan c).alive = true) (ht : t ∈ s.listed c) :
    ∃ call, (s.thread t).BlockedIn call c := by
  rcases List.mem_append.mp ht with ht | ht
  · exact ⟨_, ((h.linked c hc).receiver t).mp ht⟩
  · exact ⟨_, (h.linked c hc).waitThread_blocked ht⟩

theorem Coherent.listed_nodup (h : s.Coherent) (hc : (s.chan c).alive = true) : (s.listed c).Nodup := by
  have hl := h.linked c hc
  apply List.Nodup.append
  · match hsus : (s.chan c).suspendThread, hl.one with
    | [], _ => exact List.nodup_nil
    | [a], _ => exact List.nodup_singleton a
  · have hd := hl.distinct
    rcases hl.aligned with he | ⟨u, hu, he⟩
    · rw [he]
      exact (List.nodup_append.mp hd).2.1
    · rw [he]
      rw [hu] at hd
      exact hd
  · intro u hu hw
    have hr := (hl.receiver u).mp hu
    have hs := hl.waitThread_blocked hw
    have hcall := hr.2.1
    rw [hs.2.1] at hcall
    cases hcall

theorem Coherent.release_eq (h : s.Coherent) (hc : (s.chan c).alive = true) : s.release c = s.closed c := by
  have hl := h.linked c hc
  have hnd := h.listed_nodup hc
  have hdisj : ∀ t ∈ (s.chan c).suspendThread, t ∉ (s.chan c).waitThread := fun t ht hw =>
    (List.nodup_append.mp hnd).2.2 t ht t hw rfl
  have hsusp : ∀ t ∈ s.listed c, (s.thread t).suspended = true := by
    intro t ht
    obtain ⟨call, hb⟩ := h.listed_blocked hc ht
    exact hb.1
  -- the senders are still on their list when the receivers are resumed
  have hwait : ((s.resumeAll (s.chan c).suspendThread).chan c).waitThread = (s.chan c).waitThread := by
    rw [resumeAll_eq (fun t ht => hsusp t (List.mem_append_left _ ht)) (List.nodup_append.mp hnd).1]
    exact diff_eq_self hdisj
  have hall : (s.resumeAll (s.chan c).suspendThread).resumeAll (s.chan c).waitThread = s.resumeAll (s.listed c) := by
    unfold resumeAll listed
    rw [List.foldl_append]
  unfold release
  dsimp only
  rw [hwait, hall, resumeAll_eq hsusp hnd]
  unfold setChan closed
  have hchan : Function.update (fun d => ({ s.chan d with
        suspendThread := (s.chan d).suspendThread.diff (s.listed c)
        waitThread := (s.chan d).waitThread.diff (s.listed c) } : RtChannel)) c { s.chan c with
          suspendThread := (s.chan c).suspendThread.diff (s.listed c)
          waitThread := (s.chan c).waitThread.diff (s.listed c), waitMsg := [], alive := false } =
      Function.update s.chan c { s.chan c with suspendThread := [], waitThread := [], waitMsg := [], alive := false } := by
    funext d
    by_cases hd : d = c
    · subst hd
      simp only [Function.update_self, listed, List.diff_append, diff_self, List.nil_diff, diff_eq_self hdisj]
    · simp only [Function.update_of_ne hd]
      -- a thread on the lists of `c` is on no list of another channel
      have hother : ∀ t ∈ s.listed c, t ∉ (s.chan d).suspendThread ∧ t ∉ (s.chan d).waitThread := by
        intro t ht
        obtain ⟨call, hb⟩ := h.listed_blocked hc ht
        cases halive : (s.chan d).alive with
        | false =>
          obtain ⟨-, hs, hw⟩ := h.dead d halive
          simp [hs, hw]
        | true =>
          have hld := h.linked d halive
          constructor
          · intro hmem
            exact hd (((hld.receiver t).mp hmem).2.2.symm.trans hb.2.2)
          · intro hmem
            exact hd ((hld.waitThread_blocked hmem).2.2.symm.trans hb.2.2)
      rw [diff_eq_self fun t ht => (hother t ht).1, diff_eq_self fun t ht => (hother t ht).2]
  dsimp only
  rw [hchan]

theorem Coherent.release_dead (h : s.Coherent) (hc : (s.chan c).alive = false) : s.release c = s := by
  obtain ⟨hm, hs, hw⟩ := h.dead c hc
  unfold release
  dsimp only
  have hnil : ∀ s : ChanSys, s.resumeAll [] = s := fun _ => rfl
  rw [hs, hnil, hw, hnil]
  unfold setChan
  dsimp only
  rw [← hm, ← hc]
  exact congrArg (fun f => { s with chan := f }) (Function.update_eq_self c s.chan)

theorem Coherent.close (h : s.Coherent) (hc : (s.chan c).alive = true) : (s.closed c).Coherent := by
  have hready : ∀ t ∈ s.listed c, ((s.closed c).thread t).suspended = false := by
    intro t ht
    simp only [closed, if_pos ht]
    rfl
  have hsame : ∀ t, t ∉ s.listed c → (s.closed c).thread t = s.thread t := fun t ht => if_neg ht
  apply Coherent.of_local (c := c) h
  · intro t
    by_cases ht : t ∈ s.listed c
    · obtain ⟨call, hb⟩ := h.listed_blocked hc ht
      simp only [closed, if_pos ht]
      exact (h.settled t).giveUp hb.1 (by decide)
    · rw [hsame t ht]
      exact h.settled t
  · intro _ _ _ _
    rfl
  · intro d hd t
    by_cases ht : t ∈ s.listed c
    · obtain ⟨call, hb⟩ := h.listed_blocked hc ht
      exact Or.inr (woken_elsewhere hb (hready t ht) d hd)
    · exact Or.inl (hsame t ht)
  · intro d hd
    exact Or.inl (Function.update_of_ne hd _ _)
  · simp [closed]
  · simp [closed]
  · simp only [closed, Function.update_self]
    intro hf
    rw [(h.unborn c hf).1] at hc
    cases hc

theorem Slots.close (hsl : s.Slots max owner) :
    (s.closed c).Slots max fun p => if owner p = .queued c then .lost else owner p := by
  apply Slots.lose hsl
  · rfl
  · rfl
  · intro d hd
    simp only [closed, Function.update_of_ne hd]
  · simp only [closed, Function.update_self]
  · intro t
    simp only [closed]
    split <;> rfl

/-- The thread that receives on or replies to the channel. -/
def Event.Serves : Event → ℕ → ℕ → Prop
  | .recv c t _ _, d, u => c = d ∧ t = u
  | .reply c t _, d, u => c = d ∧ t = u
  | _, _, _ => False

def Event.closes (s : ChanSys) : Event → Option ℕ
  | .closeCh c => if (s.chan c).alive = true ∧ (s.chan c).ref % 2 ^ 64 = 1 then some c else none
  | .closeFile c n => if n = 1 ∧ (s.chan c).alive = true ∧ (s.chan c).ref % 2 ^ 64 = 1 then some c else none
  | _ => none

def Stepped (max : ℕ) (serves : ℕ → ℕ → Prop) (s : ChanSys) (e : Event) (s' : ChanSys) : Prop :=
  ∃ s1, Move max serves s s1 ∧ (s' = s1 ∨ ∃ c, e.closes s = some c ∧ (s1.chan c).alive = true ∧
    (s1.chan c).waitMsg = (s.chan c).waitMsg ∧ s' = s1.closed c)

theorem Move.stepped (h : Move max serves s s') : Stepped max serves s e s' := ⟨s', h, Or.inl rfl⟩

theorem stepped_dropRef (h : s.Coherent) (hsl : s.Slots max owner)
    (he : (s.chan c).alive = true → (s.chan c).ref % 2 ^ 64 = 1 → e.closes s = some c) :
    Stepped max serves s e (s.dropRef c) := by
  have hmove : Move max serves s _ := .ref c (((s.chan c).ref + (2 ^ 64 - 1)) % 2 ^ 64)
  have hcoh := h.move hsl hmove
  unfold dropRef setChan
  dsimp only
  split
  case isFalse => exact hmove.stepped
  case isTrue hz =>
    simp only [Function.update_self] at hz
    cases hc : (s.chan c).alive with
    | true =>
      refine ⟨_, hmove, Or.inr ⟨c, he hc (by omega), ?_, ?_, ?_⟩⟩
      · simp [hc]
      · simp
      · rw [← hcoh.release_eq (by simp [hc])]
        simp only [hc]
    | false =>
      have hdead := hcoh.release_dead (c := c) (by simp [hc])
      simp only [hc] at hdead hmove
      rw [hdead]
      exact hmove.stepped

theorem step_stepped (h : s.Coherent) (hsl : s.Slots max owner) (hsv : ∀ c t, e.Serves c t → serves c t)
    (hs : s.step max e = some s') : Stepped max serves s e s' := by
  cases e with
  | openCh c => exact (move_of_open hs).stepped
  | send c t data =>
    obtain ⟨⟨s1, res⟩, hr, rfl⟩ := Option.map_eq_some_iff.mp hs
    exact (move_of_sendRecv h (fun hn => by cases hn) hr).stepped
  | sendRecv c t data time sig =>
    simp only [step] at hs
    split at hs
    case isFalse => cases hs
    case isTrue ht =>
      obtain ⟨⟨s1, res⟩, hr, rfl⟩ := Option.map_eq_some_iff.mp hs
      exact (move_of_sendRecv h (fun _ => ht) hr).stepped
  | recv c t time sig =>
    simp only [step] at hs
    split at hs
    case isFalse => cases hs
    case isTrue ht =>
      obtain ⟨⟨s1, res⟩, hr, rfl⟩ := Option.map_eq_some_iff.mp hs
      exact (move_of_recv ht (hsv c t ⟨rfl, rfl⟩) hr).stepped
  | reply c t data =>
    simp only [step] at hs
    split at hs
    case isFalse => cases hs
    case isTrue ht =>
      cases hs
      exact (move_of_reply h ht (hsv c t ⟨rfl, rfl⟩)).stepped
  | finish t =>
    simp only [step] at hs
    split at hs
    case h_1 call hsusp hcall =>
      obtain ⟨⟨s1, res⟩, hr, rfl⟩ := Option.map_eq_some_iff.mp hs
      exact (move_of_finish hsusp hcall hr).stepped
    case h_2 => cases hs
  | timeout t =>
    simp only [step] at hs
    split at hs
    case h_1 hf =>
      cases hs
      exact (move_of_timeout h hf rfl).stepped
    case h_2 hf =>
      cases hs
      exact (move_of_timeout h hf rfl).stepped
    case h_3 => cases hs
  | wakeup t => exact (move_of_wakeup h hs).stepped
  | closeCh c =>
    cases hs
    unfold rawClose
    split
    case isTrue => exact Move.stay.stepped
    case isFalse =>
    split
    case isTrue => exact Move.stay.stepped
    case isFalse => exact stepped_dropRef h hsl fun ha hr => if_pos ⟨ha, hr⟩
  | closeFile c n =>
    cases hs
    unfold fopsClose
    split
    case isTrue hn => exact stepped_dropRef h hsl fun ha hr => if_pos ⟨hn, ha, hr⟩
    case isFalse => exact Move.stay.stepped

theorem Coherent.stepped (h : s.Coherent) (hsl : s.Slots max owner) (hst : Stepped max serves s e s') : s'.Coherent := by
  obtain ⟨s1, hm, rfl | ⟨c, -, hc, -, rfl⟩⟩ := hst
  · exact h.move hsl hm
  · exact (h.move hsl hm).close hc

-- the undelivered messages of a channel are lost when it is closed
def KeepsMsgs (s : ChanSys) (e : Event) : Prop := ∀ c ∈ e.closes s, (s.chan c).waitMsg = []

instance (s : ChanSys) (e : Event) : Decidable (s.KeepsMsgs e) :=
  inferInstanceAs (Decidable (∀ c ∈ e.closes s, (s.chan c).waitMsg = []))

theorem Slots.stepped (hsl : s.Slots max owner) (h : s.Coherent) (hst : Stepped max serves s e s') :
    ∃ owner', s'.Slots max owner' ∧ (s.KeepsMsgs e → Keeps owner owner') := by
  obtain ⟨s1, hm, hcase⟩ := hst
  obtain ⟨owner', hsl', hk⟩ := hsl.move h hm
  rcases hcase with rfl | ⟨c, he, hc, hw, rfl⟩
  · exact ⟨owner', hsl', fun _ => hk⟩
  · refine ⟨_, hsl'.close (c := c), ?_⟩
    intro hkeeps p hp
    have hne : owner' p ≠ .queued c := by
      rw [Ne, hsl'.queued, hw, hkeeps c he]
      exact List.not_mem_nil
    dsimp only
    rw [if_neg hne]
    exact hk p hp

theorem coherent_init : init.Coherent := by
  constructor
  · intro t
    constructor <;> simp [init]
  · simp [init]
  · simp [init]
  · intro c _
    refine ⟨rfl, ?_⟩
    rintro t call ⟨hs, -⟩
    cases hs

theorem slots_init (max : ℕ) : init.Slots max fun _ => .fresh := by
  constructor <;> simp [init]

theorem run_placed {es : List Event} (hr : run (step max) init es = some s)
    (hm : Meets (step max) KeepsMsgs init es) :
    s.Coherent ∧ ∃ owner, s.Slots max owner ∧ ∀ p, (owner p).Placed := by
  apply run_invariant_of_meets (fun s => s.Coherent ∧ ∃ owner, s.Slots max owner ∧ ∀ p, (owner p).Placed) _ hr hm
  · refine ⟨coherent_init, _, slots_init max, ?_⟩
    simp [Owner.Placed]
  · rintro s e s' ⟨h, owner, hsl, hp⟩ hkeeps hs
    have hst : Stepped max (fun _ _ => True) s e s' := step_stepped h hsl (fun _ _ _ => trivial) hs
    obtain ⟨owner', hsl', hk⟩ := hsl.stepped h hst
    exact ⟨h.stepped hsl hst, owner', hsl', fun p => hk hkeeps p (hp p)⟩

/-- The places of a message slot: the pool, the queue of a channel, the hands of a thread. -/
inductive Place
  | pool
  | queue (c : ℕ)
  | thread (t : ℕ)

def At (s : ChanSys) (p : ℕ) : Place → Prop
  | .pool => p ∈ s.freeList ∨ s.used ≤ p
  | .queue c => (s.chan c).alive = true ∧ p ∈ (s.chan c).waitMsg
  | .thread t => (s.thread t).msgRet = some p

theorem Slots.owner_of_at (h : s.Slots max owner) {q : Place} (hq : s.At p q) :
    match q with
    | .pool => owner p = .free ∨ owner p = .fresh
    | .queue c => owner p = .queued c
    | .thread t => owner p = .held t := by
  cases q with
  | pool => exact hq.imp (h.free p).mpr (h.fresh p).mpr
  | queue c => exact (h.queued p c).mpr hq.2
  | thread t => exact (h.held p t).mpr hq

theorem Slots.at_unique (h : s.Slots max owner) {q q' : Place} (hq : s.At p q) (hq' : s.At p q') : q = q' := by
  have ho := h.owner_of_at hq
  have ho' := h.owner_of_at hq'
  cases q <;> cases q' <;> grind

theorem Slots.exists_at (h : s.Slots max owner) (hc : s.Coherent) (hp : (owner p).Placed) : ∃ q, s.At p q := by
  cases ho : owner p with
  | fresh => exact ⟨.pool, Or.inr ((h.fresh p).mp ho)⟩
  | free => exact ⟨.pool, Or.inl ((h.free p).mp ho)⟩
  | queued c =>
    have hmem := (h.queued p c).mp ho
    refine ⟨.queue c, ?_, hmem⟩
    by_contra hne
    rw [(hc.dead c (by simpa using hne)).1] at hmem
    cases hmem
  | held t => exact ⟨.thread t, (h.held p t).mp ho⟩
  | moving => exact absurd ho hp.1
  | lost => exact absurd ho hp.2

/-- The slots are conserved as long as no channel is closed with messages in it. -/
theorem channel_slots_conserved (max : ℕ) (es : List Event) (s : ChanSys) (hr : run (step max) init es = some s)
    (hm : Meets (step max) KeepsMsgs init es) :
    (∀ p < max, ∃! q, s.At p q) ∧ s.freeList.Nodup ∧ ∀ c, (s.chan c).waitMsg.Nodup := by
  obtain ⟨h, owner, hsl, hp⟩ := run_placed hr hm
  refine ⟨?_, hsl.free_nodup, hsl.queued_nodup⟩
  intro p _
  obtain ⟨q, hq⟩ := hsl.exists_at h (hp p)
  exact ⟨q, hq, fun q' hq' => hsl.at_unique hq' hq⟩

theorem channel_slots_conserved_example :
    ∃ s, run (step 2) init [.openCh 0, .send 0 1 ⟨0, 7, 0, 0⟩, .recv 0 2 0 false, .closeCh 0] = some s ∧
      ∃! q, s.At 0 q := by
  obtain ⟨s, hs⟩ := Option.isSome_iff_exists.mp (show (run (step 2) init
    [.openCh 0, .send 0 1 ⟨0, 7, 0, 0⟩, .recv 0 2 0 false, .closeCh 0]).isSome = true by decide +kernel)
  exact ⟨s, hs, (channel_slots_conserved 2 _ s hs (by decide +kernel)).1 0 (by decide)⟩

/-- A message is sent and the channel closed: the slot is neither in the pool nor anywhere else. -/
theorem closed_channel_loses_slot :
    ∃ s, run (step 2) init [.openCh 0, .send 0 1 ⟨0, 7, 0, 0⟩, .closeCh 0] = some s ∧ ∀ q, ¬ s.At 0 q := by
  refine ⟨_, rfl, ?_⟩
  intro q
  cases q with
  | pool =>
    unfold At
    decide +kernel
  | queue c =>
    rintro ⟨halive, -⟩
    cases c with
    | zero => exact Bool.false_ne_true halive
    | succ c => exact Bool.false_ne_true halive
  | thread t =>
    intro hheld
    exact Option.some_ne_none 0 (Eq.symm hheld)

end ChanSys

end RtSmart
