import RtSmart.Drivers.Pipe
import RtSmart.Drivers.Waitqueue

/-!
The wait queues of a pipe under the turns of its readers and writers. A reader that returns wakes a writer before it
gives the pipe's lock back; the other wakeups are made without the lock, so that anything can come before them. The
sections of a queue do not look at the ring buffer, and those that come between a turn and the wakeup that ends it
might as well have come before the turn.
-/

namespace RtSmart

open Lib

inductive PipePhase
  | turn
  | wake
  /-- In `rt_wqueue_wait`. -/
  | wait
  /-- All bytes are written; a reader is still to be woken. -/
  | last (fd : PipeFd)
deriving DecidableEq

/-- `moved t` is what the write of `t` has put into the ring buffer, `ending` the descriptors of the calls in the
phase `last`. -/
structure PipeWaitSys where
  sys : PipeSys
  readers : WqueueSys
  writers : WqueueSys
  phase : ℕ → PipePhase
  ending : List PipeFd
  moved : ℕ → List UInt8

def PipeWaitSys.init (isNamed : Bool) (bufsz : ℕ) : PipeWaitSys :=
  ⟨.init isNamed bufsz, .init fun _ => false, .init fun _ => false, fun _ => .turn, [], fun _ => []⟩

inductive PipeWaitEvent
  | openFd (fd : PipeFd) (mem : Option (ℕ → UInt8))
  | closeFd (fd : PipeFd)
  | read (t : ℕ) (fd : PipeFd) (count : ℕ)
  | write (t : ℕ) (fd : PipeFd) (data : List UInt8)
  | turn (t : ℕ)
  | wake (t : ℕ)
  | enter (t : ℕ)
  | clear (t : ℕ)
  | remove (t : ℕ)

def PipeWaitEvent.caller : PipeWaitEvent → Option ℕ
  | .openFd _ _ | .closeFd _ => none
  | .read t _ _ | .write t _ _ | .turn t | .wake t | .enter t | .clear t | .remove t => some t

namespace PipeWaitSys

variable (s : PipeWaitSys)

def setPhase (t : ℕ) (phase : PipePhase) : PipeWaitSys := { s with phase := Function.update s.phase t phase }

/-- The loop of `pipe_fops_close`. -/
def wakeReaders (q : WqueueSys) : WqueueSys := q.waitingList.foldl (fun q _ => q.rtWqueueWakeup []) q

/-- The end of a turn of `pipe_fops_read`, where `-EAGAIN` jumps over the wakeup. -/
def readTurn (t : ℕ) (sys : PipeSys) : PipeWaitSys :=
  if sys.pc t = .idle then
    { s with sys := sys, writers := if sys.ret t = some .eagain then s.writers else s.writers.rtWqueueWakeup [] }
  else { s.setPhase t .wake with sys := sys }

/-- The end of a turn of `pipe_fops_write`. -/
def writeTurn (t : ℕ) (fd : PipeFd) (sys : PipeSys) : PipeWaitSys :=
  { s.setPhase t (if sys.pc t = .idle then .last fd else .wake) with
    sys := sys
    ending := if sys.pc t = .idle then fd :: s.ending else s.ending
    moved := Function.update s.moved t (s.moved t ++ sys.written.drop s.sys.written.length) }

/-- A section of `rt_wqueue_wait` on the queue of the side that the thread is on. -/
def waitStep (t : ℕ) (e : WqueueEvent) : Option PipeWaitSys :=
  match s.phase t, s.sys.pc t with
  | .wait, .reading _ _ => (s.readers.step e).map fun q => { s with readers := q }
  | .wait, .writing _ _ _ => (s.writers.step e).map fun q => { s with writers := q }
  | _, _ => none

def step (align : ℕ) (s : PipeWaitSys) : PipeWaitEvent → Option PipeWaitSys
  | .openFd fd mem => (s.sys.step align (.openFd fd mem)).map fun sys => { s with sys := sys }
  | .closeFd fd =>
    if fd ∈ s.ending then none
    else
      (s.sys.step align (.closeFd fd)).map fun sys =>
        { s with
          sys := sys
          readers := if fd.access.flags &&& oWronly == oWronly then wakeReaders s.readers else s.readers }
  | .read t fd count =>
    if s.phase t = .turn then (s.sys.step align (.read t fd count)).map fun sys => { s with sys := sys } else none
  | .write t fd data =>
    if s.phase t = .turn then
      (s.sys.step align (.write t fd data)).map fun sys =>
        { s with sys := sys, moved := Function.update s.moved t [] }
    else none
  | .turn t =>
    match s.phase t, s.sys.pc t with
    | .turn, .reading _ _ => (s.sys.step align (.turn t)).map (s.readTurn t)
    | .turn, .writing fd _ _ => (s.sys.step align (.turn t)).map (s.writeTurn t fd)
    | _, _ => none
  | .wake t =>
    -- the wait that follows is for the condition 0, without a timeout
    match s.phase t, s.sys.pc t with
    | .wake, .reading _ _ =>
      (s.readers.step (.test t (-1))).map fun q =>
        { s.setPhase t .wait with readers := q, writers := s.writers.rtWqueueWakeup [] }
    | .wake, .writing _ _ _ =>
      (s.writers.step (.test t (-1))).map fun q =>
        { s.setPhase t .wait with writers := q, readers := s.readers.rtWqueueWakeup [] }
    | .last fd, _ =>
      some { s.setPhase t .turn with readers := s.readers.rtWqueueWakeup [], ending := s.ending.erase fd }
    | _, _ => none
  | .enter t => s.waitStep t (.enter t)
  | .clear t => s.waitStep t (.clear t)
  | .remove t => (s.waitStep t (.remove t)).map fun s => s.setPhase t .turn

def WakesReader (u : ℕ) : Prop :=
  (s.phase u = .wake ∧ ∃ fd data ret, s.sys.pc u = .writing fd data ret) ∨ ∃ fd, s.phase u = .last fd

end PipeWaitSys

/-- A wakeup resumes threads that are suspended and leaves the flag set; a thread that it leaves suspended stays in
the list. -/
structure QueueWoken (q q' : WqueueSys) : Prop where
  pc : ∀ t, q'.pc t = q.pc t ∨ (∃ tick, q.pc t = .suspended tick) ∧ q'.pc t = .readied .eok
  flag : q.flag = true → q'.flag = true
  linked : ∀ t tick, q'.pc t = .suspended tick → t ∈ q.waitingList → t ∈ q'.waitingList
  condition : q'.condition = q.condition

namespace QueueWoken

variable {q q' q'' : WqueueSys} {t : ℕ} {tick : ℤ}

theorem refl (q : WqueueSys) : QueueWoken q q := ⟨fun _ => .inl rfl, id, fun _ _ _ => id, rfl⟩

theorem suspended (h : QueueWoken q q') (ht : q'.pc t = .suspended tick) : q.pc t = .suspended tick := by
  rcases h.pc t with heq | ⟨-, hready⟩
  · exact heq.symm.trans ht
  · rw [hready] at ht
    cases ht

theorem trans (h : QueueWoken q q') (h' : QueueWoken q' q'') : QueueWoken q q'' where
  pc t := by
    rcases h'.pc t with heq | ⟨⟨tick, ht⟩, hready⟩
    · rw [heq]
      exact h.pc t
    · exact .inr ⟨⟨tick, h.suspended ht⟩, hready⟩
  flag hf := h'.flag (h.flag hf)
  linked t tick ht hmem := h'.linked t tick ht (h.linked t tick (h'.suspended ht) hmem)
  condition := h'.condition.trans h.condition

theorem wakeup (q : WqueueSys) (made : List Tid) : QueueWoken q (q.rtWqueueWakeup made) := by
  unfold WqueueSys.rtWqueueWakeup
  dsimp only
  split
  · exact ⟨fun _ => .inl rfl, fun _ => rfl, fun _ _ _ => id, rfl⟩
  next u l hl =>
  have hl : q.waitingList = u :: l := hl
  have hpc : ∀ t, ((q.setFlag made).resume u).pc t = q.pc t ∨
      ((∃ tick, q.pc t = .suspended tick) ∧ ((q.setFlag made).resume u).pc t = .readied .eok) := by
    intro t
    unfold WqueueSys.resume
    split
    · next tick hu =>
      by_cases htu : t = u
      · subst htu
        exact .inr ⟨⟨tick, hu⟩, Function.update_self _ _ _⟩
      · exact .inl (Function.update_of_ne htu _ _)
    · exact .inl rfl
  refine ⟨hpc, fun _ => ?_, fun t tick ht hmem => ?_, ?_⟩
  · unfold WqueueSys.resume
    split <;> rfl
  · have htu : t ≠ u := by
      rintro rfl
      unfold WqueueSys.resume at ht
      split at ht
      · simp [WqueueSys.setPc] at ht
      · next hne => exact hne tick ht
    rw [hl] at hmem
    exact List.mem_of_ne_of_mem htu hmem
  · unfold WqueueSys.resume
    split <;> rfl

theorem wakeReaders (q : WqueueSys) : QueueWoken q (PipeWaitSys.wakeReaders q) := by
  unfold PipeWaitSys.wakeReaders
  generalize q.waitingList = l
  induction l generalizing q with
  | nil => exact .refl q
  | cons u l ih => exact (wakeup q []).trans (ih _)

end QueueWoken

theorem flag_wakeup (q : WqueueSys) (made : List Tid) : (q.rtWqueueWakeup made).flag = true := by
  unfold WqueueSys.rtWqueueWakeup
  dsimp only
  split
  · rfl
  · unfold WqueueSys.resume
    split <;> rfl

theorem readied_wakeup {q : WqueueSys} {t : ℕ} {tick : ℤ} (made : List Tid) (ht : q.pc t = .suspended tick)
    (hfirst : q.waitingList.head? = some t) : (q.rtWqueueWakeup made).pc t = .readied .eok := by
  obtain ⟨l, hl⟩ : ∃ l, q.waitingList = t :: l := by
    cases hq : q.waitingList with
    | nil => simp [hq] at hfirst
    | cons u l =>
      rw [hq, List.head?_cons, Option.some.injEq] at hfirst
      exact ⟨l, by rw [hfirst]⟩
  have hl' : (q.setFlag made).waitingList = t :: l := hl
  have ht' : (q.setFlag made).pc t = .suspended tick := ht
  simp only [WqueueSys.rtWqueueWakeup, hl', WqueueSys.resume, ht', WqueueSys.setPc, Function.update_self]

/-- A call between its turns: while it could go on, it does not sleep and does not come to sleep. -/
structure Waits (q : WqueueSys) (phase : PipePhase) (t : ℕ) (ready : Prop) : Prop where
  place : phase = .wait ∧ q.pc t ≠ .out ∨ (phase = .turn ∨ phase = .wake) ∧ q.pc t = .out
  between : phase = .wake ∨ (∃ tick, q.pc t = .tested tick) → ready → q.flag = true
  asleep : ∀ tick, q.pc t = .suspended tick → ¬ ready ∧ t ∈ q.waitingList
  condition : q.condition t = false

namespace Waits

variable {q q' : WqueueSys} {phase : PipePhase} {t u : ℕ} {ready ready' : Prop}

theorem mono (h : Waits q phase t ready) (hr : ready' → ready) : Waits q phase t ready' :=
  ⟨h.place, fun hb hready => h.between hb (hr hready), fun tick ht => ⟨fun hready => (h.asleep tick ht).1 (hr hready),
    (h.asleep tick ht).2⟩, h.condition⟩

theorem woken (h : Waits q phase t ready) (hw : QueueWoken q q') : Waits q' phase t ready := by
  refine ⟨?_, fun hb hready => hw.flag (h.between ?_ hready), fun tick ht => ?_, hw.condition ▸ h.condition⟩
  · rcases hw.pc t with heq | ⟨⟨tick, ht⟩, hready⟩
    · rw [heq]
      exact h.place
    · rcases h.place with ⟨hp, -⟩ | ⟨-, hout⟩
      · exact .inl ⟨hp, by simp [hready]⟩
      · simp [hout] at ht
  · rcases hb with hp | ⟨tick, ht⟩
    · exact .inl hp
    · rcases hw.pc t with heq | ⟨-, hready⟩
      · exact .inr ⟨tick, heq.symm.trans ht⟩
      · simp [hready] at ht
  · exact ⟨(h.asleep tick (hw.suspended ht)).1, hw.linked t tick ht (h.asleep tick (hw.suspended ht)).2⟩

theorem first (h : Waits q phase t ready) (made : List Tid)
    (hfirst : ∀ tick, q.pc t = .suspended tick → ready' → q.waitingList.head? = some t) :
    Waits (q.rtWqueueWakeup made) phase t ready' := by
  have hw := QueueWoken.wakeup q made
  have hplace := (h.woken hw).place
  refine ⟨hplace, fun _ _ => flag_wakeup q made, fun tick ht => ⟨fun hready => ?_, ?_⟩, (h.woken hw).condition⟩
  · have hsus := hw.suspended ht
    rw [readied_wakeup made hsus (hfirst tick hsus hready)] at ht
    cases ht
  · exact hw.linked t tick ht (h.asleep tick (hw.suspended ht)).2

theorem other {e : WqueueEvent} (h : Waits q phase t ready) (hne : u ≠ t)
    (he : e = .test u (-1) ∨ e = .enter u ∨ e = .clear u ∨ e = .remove u)
    (hflag : e = .enter u ∨ e = .clear u → q.flag = true → phase = .wake ∨ (∃ tick, q.pc t = .tested tick) → ¬ ready)
    (hs : q.step e = some q') : Waits q' phase t ready := by
  have hset : ∀ pc : WqueuePc, Function.update q.pc u pc t = q.pc t := fun pc => Function.update_of_ne hne.symm _ _
  rcases he with rfl | rfl | rfl | rfl
  · simp only [WqueueSys.step, WqueueSys.test] at hs
    split_ifs at hs <;> cases hs
    · exact h
    · refine ⟨?_, ?_, ?_, h.condition⟩
      · simpa only [WqueueSys.setPc, hset] using h.place
      · simpa only [WqueueSys.setPc, hset] using h.between
      · simpa only [WqueueSys.setPc, hset] using h.asleep
  · simp only [WqueueSys.step] at hs
    split at hs <;> cases hs
    unfold WqueueSys.enter
    split_ifs with hf
    · refine ⟨?_, fun hb hready => ?_, ?_, h.condition⟩
      · simpa only [WqueueSys.setPc, hset] using h.place
      · simp only [WqueueSys.setPc, hset] at hb
        exact absurd hready (hflag (.inl rfl) hf hb)
      · simpa only [WqueueSys.setPc, hset] using h.asleep
    · refine ⟨?_, ?_, fun tick ht => ?_, h.condition⟩
      · simpa only [WqueueSys.setPc, hset] using h.place
      · simpa only [WqueueSys.setPc, hset] using h.between
      · simp only [WqueueSys.setPc, hset] at ht
        exact ⟨(h.asleep tick ht).1, List.mem_append_left _ (h.asleep tick ht).2⟩
  · simp only [WqueueSys.step] at hs
    split at hs <;> cases hs
    refine ⟨?_, fun hb hready => ?_, ?_, h.condition⟩
    · simpa only [WqueueSys.setPc, hset] using h.place
    · simp only [WqueueSys.setPc, hset] at hb
      exact absurd hready (hflag (.inr rfl) (h.between hb hready) hb)
    · simpa only [WqueueSys.setPc, hset] using h.asleep
  · simp only [WqueueSys.step] at hs
    split at hs <;> cases hs
    refine ⟨?_, ?_, fun tick ht => ?_, h.condition⟩
    · simpa only [WqueueSys.setPc, hset] using h.place
    · simpa only [WqueueSys.setPc, hset] using h.between
    · simp only [WqueueSys.setPc, hset] at ht
      exact ⟨(h.asleep tick ht).1, (List.mem_erase_of_ne hne.symm).mpr (h.asleep tick ht).2⟩

theorem test (h : Waits q .wake t ready) (hs : q.step (.test t (-1)) = some q') : Waits q' .wait t ready := by
  simp only [WqueueSys.step, WqueueSys.test, h.condition] at hs
  split_ifs at hs with hout hzero
  · simp at hzero
  · cases hs
    refine ⟨.inl ⟨rfl, by simp [WqueueSys.setPc]⟩, fun _ => h.between (.inl rfl), fun tick ht => ?_, h.condition⟩
    simp [WqueueSys.setPc] at ht

theorem enter (h : Waits q .wait t ready) (hs : q.step (.enter t) = some q') : Waits q' .wait t ready := by
  simp only [WqueueSys.step] at hs
  split at hs <;> cases hs
  next tick ht =>
  unfold WqueueSys.enter
  split_ifs with hf
  · refine ⟨.inl ⟨rfl, by simp [WqueueSys.setPc]⟩, fun hb => ?_, fun tick ht => ?_, h.condition⟩
    · simp [WqueueSys.setPc] at hb
    · simp [WqueueSys.setPc] at ht
  · refine ⟨.inl ⟨rfl, by simp [WqueueSys.setPc]⟩, fun hb => ?_, fun tick' ht' => ⟨fun hready => ?_, by simp⟩, h.condition⟩
    · simp [WqueueSys.setPc] at hb
    · exact hf (h.between (.inr ⟨tick, ht⟩) hready)

theorem clear (h : Waits q .wait t ready) (hs : q.step (.clear t) = some q') : Waits q' .wait t ready := by
  simp only [WqueueSys.step] at hs
  split at hs <;> cases hs
  refine ⟨.inl ⟨rfl, by simp [WqueueSys.setPc]⟩, fun hb => ?_, fun tick ht => ?_, h.condition⟩
  · simp [WqueueSys.setPc] at hb
  · simp [WqueueSys.setPc] at ht

theorem remove (h : Waits q .wait t ready) (hs : q.step (.remove t) = some q') : Waits q' .turn t ready := by
  simp only [WqueueSys.step] at hs
  split at hs <;> cases hs
  refine ⟨.inr ⟨.inl rfl, by simp [WqueueSys.setPc]⟩, fun hb => ?_, fun tick ht => ?_, h.condition⟩
  · simp [WqueueSys.setPc] at hb
  · simp [WqueueSys.setPc] at ht

theorem not_last (h : Waits q phase t ready) (fd : PipeFd) : phase ≠ .last fd := by
  rintro rfl
  rcases h.place with ⟨hp, -⟩ | ⟨hp | hp, -⟩ <;> cases hp

theorem goesOn (h : Waits q .wait t ready) (hawake : ∀ tick, q.pc t ≠ .suspended tick) :
    (q.step (.enter t)).isSome = true ∨ (q.step (.clear t)).isSome = true ∨ (q.step (.remove t)).isSome = true := by
  have hne : q.pc t ≠ .out := by
    rcases h.place with ⟨-, hne⟩ | ⟨hp, -⟩
    · exact hne
    · simp at hp
  cases hpc : q.pc t with
  | out => exact absurd hpc hne
  | tested tick => simp [WqueueSys.step, hpc]
  | suspended tick => exact absurd hpc (hawake tick)
  | readied err => simp [WqueueSys.step, hpc]
  | leaving err => simp [WqueueSys.step, hpc]

end Waits

/-- A thread in a call: its descriptor cannot be closed, and so the ring buffer stays. -/
structure InPipe (capacity : ℕ) (s : PipeSys) (t : ℕ) (fd : PipeFd) : Prop where
  fd : fd ∈ s.fds
  active : t ∈ s.active
  fifo : ∃ rb, s.pipe.fifo = some rb ∧ RtRingbuffer.Refines capacity rb rb.contents

namespace InPipe

variable {align capacity t u : ℕ} {s s' : PipeSys} {fd fd' : PipeFd}

theorem openFd {mem : Option (ℕ → UInt8)} (h : InPipe capacity s t fd) (hs : s.step align (.openFd fd' mem) = some s') :
    InPipe capacity s' t fd ∧ s'.pc = s.pc ∧ s'.ret = s.ret ∧ s'.contents = s.contents := by
  have hne : s.fds ≠ [] := List.ne_nil_of_mem h.fd
  simp only [PipeSys.step, PipeSys.pipeFopsOpen, if_neg hne] at hs
  split_ifs at hs
  cases hs
  exact ⟨⟨List.mem_cons_of_mem _ h.fd, h.active, h.fifo⟩, rfl, rfl, rfl⟩

theorem closeFd (h : InPipe capacity s t fd) (hpc : (s.pc t).fd = some fd) (hs : s.step align (.closeFd fd') = some s') :
    InPipe capacity s' t fd ∧ s'.pc = s.pc ∧ s'.ret = s.ret ∧ s'.contents = s.contents := by
  simp only [PipeSys.step] at hs
  split_ifs at hs with hclose
  have hne : fd ≠ fd' := by
    rintro rfl
    have hbusy : s.busy fd = true := List.any_eq_true.mpr ⟨t, h.active, by simp [hpc]⟩
    rw [hclose.2] at hbusy
    cases hbusy
  have hlen : s.fds.length ≠ 1 := by
    intro hlen
    obtain ⟨fd₀, hone⟩ := List.length_eq_one_iff.mp hlen
    have h1 := h.fd
    have h2 := hclose.1
    rw [hone, List.mem_singleton] at h1 h2
    exact hne (h1.trans h2.symm)
  simp only [PipeSys.pipeFopsClose, if_neg hlen, Option.some.injEq] at hs
  subst hs
  exact ⟨⟨(List.mem_erase_of_ne hne).mpr h.fd, h.active, h.fifo⟩, rfl, rfl, rfl⟩

theorem begin {pc : PipePc} (h : InPipe capacity s t fd) (hne : u ≠ t) :
    InPipe capacity (s.begin u pc) t fd ∧ (s.begin u pc).pc t = s.pc t ∧ (s.begin u pc).contents = s.contents :=
  ⟨⟨h.fd, List.mem_cons_of_mem _ h.active, h.fifo⟩, Function.update_of_ne hne.symm _ _, rfl⟩

theorem finish {r : PipeRet} (h : InPipe capacity s t fd) (hne : u ≠ t) :
    InPipe capacity (s.finish u r) t fd ∧ (s.finish u r).pc t = s.pc t ∧ (s.finish u r).ret t = s.ret t :=
  ⟨⟨h.fd, List.mem_filter.mpr ⟨h.active, by simpa using hne.symm⟩, h.fifo⟩, Function.update_of_ne hne.symm _ _,
    Function.update_of_ne hne.symm _ _⟩

theorem readTurn {count : ℕ} (h : InPipe capacity s t fd) (hu : s.pc u = .reading fd' count)
    (hs : s.step align (.turn u) = some s') :
    ∃ bytes s₁, InPipe capacity s₁ t fd ∧ s₁.pc = s.pc ∧ s₁.ret = s.ret ∧ s.contents = bytes ++ s₁.contents ∧
      bytes.length = min (count % 2 ^ 16) s.contents.length ∧
      s' = if 0 < bytes.length ∨ s.pipe.writer = false then s₁.finish u (.read bytes)
        else if fd'.nonblock then s₁.finish u .eagain else s₁ := by
  obtain ⟨rb, hf, hr⟩ := h.fifo
  obtain ⟨hr', hlen, hbytes⟩ := refines_get (fun _ => 0) (UInt16.ofNat count) hr
  rw [UInt16.toNat_ofNat'] at hlen
  have hcontents : s.contents = rb.contents := by simp only [PipeSys.contents, hf]
  simp only [PipeSys.step, hu, PipeSys.pipeFopsRead, hf, Option.map_some, Option.some.injEq] at hs
  generalize rtRingbufferGet rb (fun _ => 0) (UInt16.ofNat count) = r at hr' hlen hbytes hs
  refine ⟨(List.range r.2.2).map r.2.1, { s with
    pipe := { s.pipe with fifo := some r.1 }
    received := s.received ++ (List.range r.2.2).map r.2.1 }, ⟨h.fd, h.active, r.1, rfl, hr'⟩, rfl, rfl, ?_, ?_, ?_⟩
  · exact hcontents.trans hbytes
  · rw [hcontents, List.length_map, List.length_range, hlen]
  · rw [List.length_map, List.length_range]
    exact hs.symm

theorem writeTurn {data : List UInt8} {ret : ℕ} (h : InPipe capacity s t fd) (hu : s.pc u = .writing fd' data ret)
    (hs : s.step align (.turn u) = some s') :
    ∃ k s₁, InPipe capacity s₁ t fd ∧ s₁.pc = s.pc ∧ s₁.ret = s.ret ∧ s₁.contents = s.contents ++ data.take k ∧
      s₁.written = s.written ++ data.take k ∧ k = min (data.length % 2 ^ 16) (capacity - s.contents.length) ∧
      s' = if data.drop k = [] then s₁.finish u (.wrote (ret + k))
        else if fd'.nonblock then s₁.finish u (if ret + k = 0 then .eagain else .wrote (ret + k))
        else { s₁ with pc := Function.update s₁.pc u (.writing fd' (data.drop k) (ret + k)) } := by
  obtain ⟨rb, hf, hr⟩ := h.fifo
  have hk := put_amount (fun i => data.getD i 0) (UInt16.ofNat data.length) hr
  rw [UInt16.toNat_ofNat'] at hk
  obtain ⟨hr', hbytes⟩ := refines_put data hr
  have hcontents : s.contents = rb.contents := by simp only [PipeSys.contents, hf]
  simp only [PipeSys.step, hu, PipeSys.pipeFopsWrite, hf, Option.map_some, Option.some.injEq] at hs
  generalize rtRingbufferPut rb (fun i => data.getD i 0) (UInt16.ofNat data.length) = r at hr' hk hbytes hs
  refine ⟨r.2, { s with pipe := { s.pipe with fifo := some r.1 }, written := s.written ++ data.take r.2 },
    ⟨h.fd, h.active, r.1, rfl, hr'⟩, rfl, rfl, ?_, rfl, ?_, ?_⟩
  · exact hbytes.trans (by rw [hcontents])
  · rw [hcontents, hk]
  · exact hs.symm

end InPipe

namespace PipeWaitSys

variable {align capacity t u : ℕ} {s s' : PipeWaitSys} {fd : PipeFd} {data : List UInt8}

theorem waitStep_cases {e : WqueueEvent} (hs : s.waitStep u e = some s') : s.phase u = .wait ∧
    ((∃ fd count, s.sys.pc u = .reading fd count) ∧ (∃ q, s.readers.step e = some q ∧ s' = { s with readers := q }) ∨
      (∃ fd data ret, s.sys.pc u = .writing fd data ret) ∧
        ∃ q, s.writers.step e = some q ∧ s' = { s with writers := q }) := by
  unfold waitStep at hs
  split at hs
  · next fd count hphase hpc =>
    obtain ⟨q, hq, rfl⟩ := Option.map_eq_some_iff.mp hs
    exact ⟨hphase, .inl ⟨⟨fd, count, hpc⟩, q, hq, rfl⟩⟩
  · next fd data ret hphase hpc =>
    obtain ⟨q, hq, rfl⟩ := Option.map_eq_some_iff.mp hs
    exact ⟨hphase, .inr ⟨⟨fd, data, ret, hpc⟩, q, hq, rfl⟩⟩
  · cases hs

theorem turn_cases (hs : s.step align (.turn u) = some s') : s.phase u = .turn ∧
    ((∃ fd count, s.sys.pc u = .reading fd count ∧
        ∃ sys, s.sys.step align (.turn u) = some sys ∧ s' = s.readTurn u sys) ∨
      ∃ fd data ret, s.sys.pc u = .writing fd data ret ∧
        ∃ sys, s.sys.step align (.turn u) = some sys ∧ s' = s.writeTurn u fd sys) := by
  rw [step] at hs
  split at hs
  · next fd count hphase hpc =>
    obtain ⟨sys, hsys, rfl⟩ := Option.map_eq_some_iff.mp hs
    exact ⟨hphase, .inl ⟨fd, count, hpc, sys, hsys, rfl⟩⟩
  · next fd data ret hphase hpc =>
    obtain ⟨sys, hsys, rfl⟩ := Option.map_eq_some_iff.mp hs
    exact ⟨hphase, .inr ⟨fd, data, ret, hpc, sys, hsys, rfl⟩⟩
  · cases hs

theorem wake_cases (hs : s.step align (.wake u) = some s') :
    (s.phase u = .wake ∧ (∃ fd count, s.sys.pc u = .reading fd count) ∧
      ∃ q, s.readers.step (.test u (-1)) = some q ∧
        s' = { s.setPhase u .wait with readers := q, writers := s.writers.rtWqueueWakeup [] }) ∨
    (s.phase u = .wake ∧ (∃ fd data ret, s.sys.pc u = .writing fd data ret) ∧
      ∃ q, s.writers.step (.test u (-1)) = some q ∧
        s' = { s.setPhase u .wait with writers := q, readers := s.readers.rtWqueueWakeup [] }) ∨
    ∃ fd, s.phase u = .last fd ∧
      s' = { s.setPhase u .turn with readers := s.readers.rtWqueueWakeup [], ending := s.ending.erase fd } := by
  rw [step] at hs
  split at hs
  · next fd count hphase hpc =>
    obtain ⟨q, hq, rfl⟩ := Option.map_eq_some_iff.mp hs
    exact .inl ⟨hphase, ⟨fd, count, hpc⟩, q, hq, rfl⟩
  · next fd data ret hphase hpc =>
    obtain ⟨q, hq, rfl⟩ := Option.map_eq_some_iff.mp hs
    exact .inr (.inl ⟨hphase, ⟨fd, data, ret, hpc⟩, q, hq, rfl⟩)
  · next fd hphase =>
    cases hs
    exact .inr (.inr ⟨fd, hphase, rfl⟩)
  · cases hs

theorem closeFd_cases (hs : s.step align (.closeFd fd) = some s') :
    ∃ sys, s.sys.step align (.closeFd fd) = some sys ∧ s'.sys = sys ∧ s'.writers = s.writers ∧ s'.phase = s.phase ∧
      s'.moved = s.moved ∧ QueueWoken s.readers s'.readers := by
  rw [step] at hs
  by_cases hfd : fd ∈ s.ending
  · rw [if_pos hfd] at hs
    cases hs
  · rw [if_neg hfd] at hs
    obtain ⟨sys, hsys, rfl⟩ := Option.map_eq_some_iff.mp hs
    refine ⟨sys, hsys, rfl, rfl, rfl, rfl, ?_⟩
    dsimp only
    split_ifs
    · exact .wakeReaders _
    · exact .refl _

theorem readTurn_idle {sys : PipeSys} (h : sys.pc u = .idle) : (s.readTurn u sys).phase = s.phase ∧
    (sys.ret u ≠ some .eagain → (s.readTurn u sys).writers = s.writers.rtWqueueWakeup []) := by
  rw [readTurn, if_pos h]
  exact ⟨rfl, fun hret => if_neg hret⟩

theorem readTurn_waits {sys : PipeSys} (h : sys.pc u ≠ .idle) :
    s.readTurn u sys = { s.setPhase u .wake with sys := sys } := if_neg h

theorem readTurn_spec (s : PipeWaitSys) (u : ℕ) (sys : PipeSys) : (s.readTurn u sys).sys = sys ∧
    (s.readTurn u sys).readers = s.readers ∧ (s.readTurn u sys).moved = s.moved ∧
    QueueWoken s.writers (s.readTurn u sys).writers ∧ ∀ t, t ≠ u → (s.readTurn u sys).phase t = s.phase t := by
  unfold readTurn
  by_cases hidle : sys.pc u = .idle
  · rw [if_pos hidle]
    refine ⟨rfl, rfl, rfl, ?_, fun _ _ => rfl⟩
    dsimp only
    split_ifs
    · exact .refl _
    · exact .wakeup _ _
  · rw [if_neg hidle]
    exact ⟨rfl, rfl, rfl, .refl _, fun t ht => Function.update_of_ne ht _ _⟩

theorem frame {e : PipeWaitEvent} (hne : e.caller ≠ some t) (hs : s.step align e = some s') :
    s'.sys.pc t = s.sys.pc t ∧ s'.sys.ret t = s.sys.ret t ∧ s'.moved t = s.moved t ∧ s'.phase t = s.phase t := by
  have hset : ∀ {β : Type} (g : ℕ → β) (u : ℕ) (x : β), e.caller = some u → Function.update g u x t = g t := by
    intro β g u x hu
    refine Function.update_of_ne ?_ _ _
    rintro rfl
    exact hne hu
  have hturn : ∀ u sys, e.caller = some u → s.sys.step align (.turn u) = some sys →
      sys.pc t = s.sys.pc t ∧ sys.ret t = s.sys.ret t := by
    intro u sys hu hsys
    simp only [PipeSys.step] at hsys
    split at hsys
    · cases hsys
    · obtain ⟨rb, -, rfl⟩ := Option.map_eq_some_iff.mp hsys
      dsimp only
      split_ifs
      · exact ⟨hset _ u _ hu, hset _ u _ hu⟩
      · exact ⟨hset _ u _ hu, hset _ u _ hu⟩
      · exact ⟨rfl, rfl⟩
    · obtain ⟨rb, -, rfl⟩ := Option.map_eq_some_iff.mp hsys
      dsimp only
      split_ifs
      · exact ⟨hset _ u _ hu, hset _ u _ hu⟩
      · exact ⟨hset _ u _ hu, hset _ u _ hu⟩
      · exact ⟨hset _ u _ hu, hset _ u _ hu⟩
      · exact ⟨hset _ u _ hu, rfl⟩
  have hwait : ∀ u ev s₁, s.waitStep u ev = some s₁ →
      s₁.sys = s.sys ∧ s₁.moved = s.moved ∧ s₁.phase = s.phase := by
    intro u ev s₁ hs₁
    obtain ⟨-, ⟨-, q, -, rfl⟩ | ⟨-, q, -, rfl⟩⟩ := waitStep_cases hs₁ <;> exact ⟨rfl, rfl, rfl⟩
  cases e with
  | openFd fd mem =>
    obtain ⟨sys, hsys, rfl⟩ := Option.map_eq_some_iff.mp hs
    simp only [PipeSys.step, PipeSys.pipeFopsOpen] at hsys
    split_ifs at hsys
    · cases mem <;> cases hsys <;> exact ⟨rfl, rfl, rfl, rfl⟩
    · cases hsys
      exact ⟨rfl, rfl, rfl, rfl⟩
  | closeFd fd =>
    obtain ⟨sys, hsys, hsys', -, hphase, hmoved, -⟩ := closeFd_cases hs
    rw [hsys', hphase, hmoved]
    simp only [PipeSys.step, PipeSys.pipeFopsClose] at hsys
    split_ifs at hsys <;> cases hsys <;> exact ⟨rfl, rfl, rfl, rfl⟩
  | read u fd count =>
    rw [step] at hs
    split_ifs at hs
    obtain ⟨sys, hsys, rfl⟩ := Option.map_eq_some_iff.mp hs
    simp only [PipeSys.step] at hsys
    split_ifs at hsys
    cases hsys
    exact ⟨hset _ u _ rfl, rfl, rfl, rfl⟩
  | write u fd data =>
    rw [step] at hs
    split_ifs at hs
    obtain ⟨sys, hsys, rfl⟩ := Option.map_eq_some_iff.mp hs
    simp only [PipeSys.step] at hsys
    split_ifs at hsys <;> cases hsys
    · exact ⟨hset _ u _ rfl, hset _ u _ rfl, hset _ u _ rfl, rfl⟩
    · exact ⟨hset _ u _ rfl, rfl, hset _ u _ rfl, rfl⟩
  | turn u =>
    obtain ⟨-, ⟨fd, count, -, sys, hsys, rfl⟩ | ⟨fd, data, ret, -, sys, hsys, rfl⟩⟩ := turn_cases hs
    · obtain ⟨hpc, hret⟩ := hturn u sys rfl hsys
      obtain ⟨hsys', -, hmoved, -, hphase⟩ := readTurn_spec s u sys
      rw [hsys', hmoved]
      refine ⟨hpc, hret, rfl, hphase t ?_⟩
      rintro rfl
      exact hne rfl
    · obtain ⟨hpc, hret⟩ := hturn u sys rfl hsys
      exact ⟨hpc, hret, hset _ u _ rfl, hset _ u _ rfl⟩
  | wake u =>
    obtain ⟨-, -, q, -, rfl⟩ | ⟨-, -, q, -, rfl⟩ | ⟨fd, -, rfl⟩ := wake_cases hs <;>
      exact ⟨rfl, rfl, rfl, hset _ u _ rfl⟩
  | enter u | clear u =>
    obtain ⟨hsys, hmoved, hphase⟩ := hwait u _ _ hs
    rw [hsys, hmoved, hphase]
    exact ⟨rfl, rfl, rfl, rfl⟩
  | remove u =>
    obtain ⟨s₁, hs₁, rfl⟩ := Option.map_eq_some_iff.mp hs
    obtain ⟨hsys, hmoved, hphase⟩ := hwait u _ _ hs₁
    refine ⟨?_, ?_, ?_, ?_⟩
    · exact congrArg (fun sys => sys.pc t) hsys
    · exact congrArg (fun sys => sys.ret t) hsys
    · exact congrFun hmoved t
    · exact (hset _ u _ rfl).trans (congrFun hphase t)

theorem writers_step {e : PipeWaitEvent} (hne : e.caller ≠ some t) (hs : s.step align e = some s') :
    QueueWoken s.writers s'.writers ∨ ∃ u ev, u ≠ t ∧ (ev = .test u (-1) ∨ ev = .enter u ∨ ev = .clear u ∨ ev = .remove u) ∧
      s.writers.step ev = some s'.writers ∧ (ev = .enter u ∨ ev = .clear u → (e = .enter u ∨ e = .clear u) ∧
        ∃ fd data ret, s.sys.pc u = .writing fd data ret) := by
  have hut : ∀ u, e.caller = some u → u ≠ t := by
    rintro u hu rfl
    exact hne hu
  cases e with
  | openFd fd mem =>
    obtain ⟨sys, -, rfl⟩ := Option.map_eq_some_iff.mp hs
    exact .inl (.refl _)
  | closeFd fd =>
    obtain ⟨sys, -, -, hwriters, -⟩ := closeFd_cases hs
    rw [hwriters]
    exact .inl (.refl _)
  | read u fd count | write u fd data =>
    rw [step] at hs
    split_ifs at hs
    obtain ⟨sys, -, rfl⟩ := Option.map_eq_some_iff.mp hs
    exact .inl (.refl _)
  | turn u =>
    obtain ⟨-, ⟨fd, count, -, sys, -, rfl⟩ | ⟨fd, data, ret, -, sys, -, rfl⟩⟩ := turn_cases hs
    · exact .inl (readTurn_spec s u sys).2.2.2.1
    · exact .inl (.refl _)
  | wake u =>
    obtain ⟨-, -, q, -, rfl⟩ | ⟨-, -, q, hq, rfl⟩ | ⟨fd, -, rfl⟩ := wake_cases hs
    · exact .inl (.wakeup _ _)
    · exact .inr ⟨u, _, hut u rfl, .inl rfl, hq, by rintro (h | h) <;> cases h⟩
    · exact .inl (.refl _)
  | enter u =>
    obtain ⟨-, ⟨-, q, -, rfl⟩ | ⟨hpc, q, hq, rfl⟩⟩ := waitStep_cases hs
    · exact .inl (.refl _)
    · exact .inr ⟨u, _, hut u rfl, .inr (.inl rfl), hq, fun _ => ⟨.inl rfl, hpc⟩⟩
  | clear u =>
    obtain ⟨-, ⟨-, q, -, rfl⟩ | ⟨hpc, q, hq, rfl⟩⟩ := waitStep_cases hs
    · exact .inl (.refl _)
    · exact .inr ⟨u, _, hut u rfl, .inr (.inr (.inl rfl)), hq, fun _ => ⟨.inr rfl, hpc⟩⟩
  | remove u =>
    obtain ⟨s₁, hs₁, rfl⟩ := Option.map_eq_some_iff.mp hs
    obtain ⟨-, ⟨-, q, -, rfl⟩ | ⟨hpc, q, hq, rfl⟩⟩ := waitStep_cases hs₁
    · exact .inl (.refl _)
    · exact .inr ⟨u, _, hut u rfl, .inr (.inr (.inr rfl)), hq, by rintro (h | h) <;> cases h⟩

theorem readers_step {e : PipeWaitEvent} (hne : e.caller ≠ some t) (hs : s.step align e = some s') :
    QueueWoken s.readers s'.readers ∨ ∃ u ev, u ≠ t ∧ (ev = .test u (-1) ∨ ev = .enter u ∨ ev = .clear u ∨ ev = .remove u) ∧
      s.readers.step ev = some s'.readers ∧ (ev = .enter u ∨ ev = .clear u → (e = .enter u ∨ e = .clear u) ∧
        ∃ fd count, s.sys.pc u = .reading fd count) := by
  have hut : ∀ u, e.caller = some u → u ≠ t := by
    rintro u hu rfl
    exact hne hu
  cases e with
  | openFd fd mem =>
    obtain ⟨sys, -, rfl⟩ := Option.map_eq_some_iff.mp hs
    exact .inl (.refl _)
  | closeFd fd =>
    obtain ⟨sys, -, -, -, -, -, hwoken⟩ := closeFd_cases hs
    exact .inl hwoken
  | read u fd count | write u fd data =>
    rw [step] at hs
    split_ifs at hs
    obtain ⟨sys, -, rfl⟩ := Option.map_eq_some_iff.mp hs
    exact .inl (.refl _)
  | turn u =>
    obtain ⟨-, ⟨fd, count, -, sys, -, rfl⟩ | ⟨fd, data, ret, -, sys, -, rfl⟩⟩ := turn_cases hs
    · left
      rw [(readTurn_spec s u sys).2.1]
      exact .refl _
    · exact .inl (.refl _)
  | wake u =>
    obtain ⟨-, -, q, hq, rfl⟩ | ⟨-, -, q, -, rfl⟩ | ⟨fd, -, rfl⟩ := wake_cases hs
    · exact .inr ⟨u, _, hut u rfl, .inl rfl, hq, by rintro (h | h) <;> cases h⟩
    · exact .inl (.wakeup _ _)
    · exact .inl (.wakeup _ _)
  | enter u =>
    obtain ⟨-, ⟨hpc, q, hq, rfl⟩ | ⟨-, q, -, rfl⟩⟩ := waitStep_cases hs
    · exact .inr ⟨u, _, hut u rfl, .inr (.inl rfl), hq, fun _ => ⟨.inl rfl, hpc⟩⟩
    · exact .inl (.refl _)
  | clear u =>
    obtain ⟨-, ⟨hpc, q, hq, rfl⟩ | ⟨-, q, -, rfl⟩⟩ := waitStep_cases hs
    · exact .inr ⟨u, _, hut u rfl, .inr (.inr (.inl rfl)), hq, fun _ => ⟨.inr rfl, hpc⟩⟩
    · exact .inl (.refl _)
  | remove u =>
    obtain ⟨s₁, hs₁, rfl⟩ := Option.map_eq_some_iff.mp hs
    obtain ⟨-, ⟨hpc, q, hq, rfl⟩ | ⟨-, q, -, rfl⟩⟩ := waitStep_cases hs₁
    · exact .inr ⟨u, _, hut u rfl, .inr (.inr (.inr rfl)), hq, by rintro (h | h) <;> cases h⟩
    · exact .inl (.refl _)

theorem wakesReader_step {e : PipeWaitEvent} (h : s.WakesReader u) (hne : e ≠ .wake u) (hs : s.step align e = some s') :
    s'.WakesReader u := by
  have hphase : s.phase u ≠ .turn ∧ s.phase u ≠ .wait := by
    rcases h with ⟨hp, -⟩ | ⟨fd, hp⟩ <;> simp [hp]
  by_cases hc : e.caller = some u
  · exfalso
    cases e with
    | openFd fd mem => cases hc
    | closeFd fd => cases hc
    | read v fd count =>
      cases hc
      simp [step, hphase.1] at hs
    | write v fd data =>
      cases hc
      simp [step, hphase.1] at hs
    | turn v =>
      cases hc
      exact hphase.1 (turn_cases hs).1
    | wake v =>
      cases hc
      exact hne rfl
    | enter v =>
      cases hc
      exact hphase.2 (waitStep_cases hs).1
    | clear v =>
      cases hc
      exact hphase.2 (waitStep_cases hs).1
    | remove v =>
      cases hc
      obtain ⟨s₁, hs₁, -⟩ := Option.map_eq_some_iff.mp hs
      exact hphase.2 (waitStep_cases hs₁).1
  · obtain ⟨hpc, -, -, hp⟩ := frame hc hs
    unfold WakesReader
    rw [hpc, hp]
    exact h

theorem writeTurn_wakes {sys : PipeSys} {rest : List UInt8} {ret : ℕ} (h : sys.pc u = .idle ∨ sys.pc u = .writing fd rest ret) :
    (s.writeTurn u fd sys).WakesReader u := by
  rcases h with h | h
  · refine .inr ⟨fd, ?_⟩
    simp [writeTurn, setPhase, h]
  · refine .inl ⟨?_, fd, rest, ret, h⟩
    simp [writeTurn, setPhase, h]

theorem pipe_step {e : PipeWaitEvent} (h : InPipe capacity s.sys t fd) (hpc : (s.sys.pc t).fd = some fd)
    (hne : e.caller ≠ some t) (hs : s.step align e = some s') : InPipe capacity s'.sys t fd ∧
      (s'.sys.contents = s.sys.contents ∨
        (∃ l, s'.sys.contents = s.sys.contents ++ l) ∧ (∃ u, s'.WakesReader u) ∨
        ∃ u fd' count bytes, e = .turn u ∧ s.sys.pc u = .reading fd' count ∧ count % 2 ^ 16 ≠ 0 ∧
          s.sys.contents = bytes ++ s'.sys.contents ∧ bytes ≠ [] ∧ s'.writers = s.writers.rtWqueueWakeup []) := by
  have hut : ∀ u, e.caller = some u → u ≠ t := by
    rintro u hu rfl
    exact hne hu
  have hwait : ∀ u ev s₁, s.waitStep u ev = some s₁ → s₁.sys = s.sys := by
    intro u ev s₁ hs₁
    obtain ⟨-, ⟨-, q, -, rfl⟩ | ⟨-, q, -, rfl⟩⟩ := waitStep_cases hs₁ <;> rfl
  cases e with
  | openFd fd' mem =>
    obtain ⟨sys, hsys, rfl⟩ := Option.map_eq_some_iff.mp hs
    obtain ⟨hin, -, -, hc⟩ := h.openFd hsys
    exact ⟨hin, .inl hc⟩
  | closeFd fd' =>
    obtain ⟨sys, hsys, hsys', -⟩ := closeFd_cases hs
    obtain ⟨hin, -, -, hc⟩ := h.closeFd hpc hsys
    rw [hsys']
    exact ⟨hin, .inl hc⟩
  | read u fd' count =>
    rw [step] at hs
    split_ifs at hs
    obtain ⟨sys, hsys, rfl⟩ := Option.map_eq_some_iff.mp hs
    simp only [PipeSys.step] at hsys
    split_ifs at hsys
    cases hsys
    exact ⟨(h.begin (hut u rfl)).1, .inl rfl⟩
  | write u fd' data =>
    rw [step] at hs
    split_ifs at hs
    obtain ⟨sys, hsys, rfl⟩ := Option.map_eq_some_iff.mp hs
    simp only [PipeSys.step] at hsys
    split_ifs at hsys <;> cases hsys
    · exact ⟨(h.finish (hut u rfl)).1, .inl rfl⟩
    · exact ⟨(h.begin (hut u rfl)).1, .inl rfl⟩
  | turn u =>
    have hu := hut u rfl
    obtain ⟨-, ⟨fd', count, hupc, sys, hsys, rfl⟩ | ⟨fd', data, ret, hupc, sys, hsys, rfl⟩⟩ := turn_cases hs
    · obtain ⟨bytes, s₁, hin, hpc₁, -, hbytes, hlen, hsys'⟩ := h.readTurn hupc hsys
      rw [(readTurn_spec s u sys).1]
      have hends : sys.contents = s₁.contents ∧ InPipe capacity sys t fd := by
        rw [hsys']
        split_ifs
        · exact ⟨rfl, (hin.finish hu).1⟩
        · exact ⟨rfl, (hin.finish hu).1⟩
        · exact ⟨rfl, hin⟩
      refine ⟨hends.2, ?_⟩
      by_cases hnil : bytes = []
      · left
        rw [hends.1, hbytes, hnil, List.nil_append]
      · have hpos := List.length_pos_of_ne_nil hnil
        rw [if_pos (.inl hpos)] at hsys'
        refine .inr (.inr ⟨u, fd', count, bytes, rfl, hupc, by omega, by rw [hends.1, hbytes], hnil, ?_⟩)
        refine (readTurn_idle ?_).2 ?_
        · rw [hsys']
          exact Function.update_self _ _ _
        · rw [hsys']
          simp [PipeSys.finish]
    · obtain ⟨k, s₁, hin, hpc₁, -, hcontents, -, -, hsys'⟩ := h.writeTurn hupc hsys
      have hends : sys.contents = s₁.contents ∧ InPipe capacity sys t fd ∧
          (sys.pc u = .idle ∨ sys.pc u = .writing fd' (data.drop k) (ret + k)) := by
        rw [hsys']
        split_ifs
        · exact ⟨rfl, (hin.finish hu).1, .inl (Function.update_self _ _ _)⟩
        · exact ⟨rfl, (hin.finish hu).1, .inl (Function.update_self _ _ _)⟩
        · exact ⟨rfl, (hin.finish hu).1, .inl (Function.update_self _ _ _)⟩
        · exact ⟨rfl, ⟨hin.fd, hin.active, hin.fifo⟩, .inr (Function.update_self _ _ _)⟩
      exact ⟨hends.2.1, .inr (.inl ⟨⟨_, hends.1.trans hcontents⟩, u, writeTurn_wakes hends.2.2⟩)⟩
  | wake u =>
    obtain ⟨-, -, q, -, rfl⟩ | ⟨-, -, q, -, rfl⟩ | ⟨fd', -, rfl⟩ := wake_cases hs <;> exact ⟨h, .inl rfl⟩
  | enter u =>
    rw [hwait u _ _ hs]
    exact ⟨h, .inl rfl⟩
  | clear u =>
    rw [hwait u _ _ hs]
    exact ⟨h, .inl rfl⟩
  | remove u =>
    obtain ⟨s₁, hs₁, rfl⟩ := Option.map_eq_some_iff.mp hs
    have hsys := hwait u _ _ hs₁
    refine ⟨hsys.symm ▸ h, .inl ?_⟩
    exact congrArg PipeSys.contents hsys

end PipeWaitSys

end RtSmart
