import RtSmart.Drivers.PipeWait

/-!
Readers and writers that sleep: as long as the wakeups of a queue find the thread that they are for, no writer sleeps
while there is room and no reader while there is data.
-/

namespace RtSmart

open Lib

namespace PipeWaitSys

variable {align capacity t u count : ℕ} {s s' : PipeWaitSys} {fd : PipeFd} {data : List UInt8}

/-- The thread makes no other call. A read that makes room while it sleeps finds it first in the list, and no other
writer takes the flag from it while there is room. -/
def WriterServed (capacity t : ℕ) (s : PipeWaitSys) : PipeWaitEvent → Prop
  | .read u _ _ | .write u _ _ => u ≠ t
  | .turn u => ∀ fd count tick, s.sys.pc u = .reading fd count → count % 2 ^ 16 ≠ 0 → s.sys.contents ≠ [] →
      s.writers.pc t = .suspended tick → s.writers.waitingList.head? = some t
  | .enter u | .clear u => u ≠ t → (∃ fd data ret, s.sys.pc u = .writing fd data ret) → s.writers.flag = true →
      s.phase t = .wake ∨ (∃ tick, s.writers.pc t = .tested tick) → ¬ s.sys.contents.length < capacity
  | _ => True

/-- The thread makes no other call. A writer's wakeup that comes while it sleeps and there is data finds it first in
the list, and no other reader takes the flag from it while there is data. -/
def ReaderServed (t : ℕ) (s : PipeWaitSys) : PipeWaitEvent → Prop
  | .read u _ _ | .write u _ _ => u ≠ t
  | .wake u => ∀ tick, s.WakesReader u → s.sys.contents ≠ [] → s.readers.pc t = .suspended tick →
      s.readers.waitingList.head? = some t
  | .enter u | .clear u => u ≠ t → (∃ fd count, s.sys.pc u = .reading fd count) → s.readers.flag = true →
      s.phase t = .wake ∨ (∃ tick, s.readers.pc t = .tested tick) → s.sys.contents = []
  | _ => True

def own (t : ℕ) : List PipeWaitEvent := [.turn t, .wake t, .enter t, .clear t, .remove t]

/-- What is owed to a thread that writes: its bytes go into the ring buffer in their order, it returns their number
when all of them are there, it does not sleep while there is room, a turn that finds room moves a byte, and when it
does not sleep it goes on. -/
structure WriteOwed (align capacity : ℕ) (s : PipeWaitSys) (t : ℕ) (fd : PipeFd) (data : List UInt8) : Prop where
  order : ∃ rest, data = s.moved t ++ rest ∧ (rest = [] → s.sys.pc t = .idle ∧ s.sys.ret t = some (.wrote data.length)) ∧
    (rest ≠ [] → s.sys.pc t = .writing fd rest (s.moved t).length)
  asleep : ∀ tick, s.writers.pc t = .suspended tick → ¬ s.sys.contents.length < capacity ∧ t ∈ s.writers.waitingList
  moves : ∀ s', s.step align (.turn t) = some s' → s.sys.contents.length < capacity →
    (s.moved t).length < (s'.moved t).length
  goesOn : s.sys.pc t ≠ .idle → (∀ tick, s.writers.pc t ≠ .suspended tick) → ∃ e ∈ own t, (s.step align e).isSome = true

/-- What is owed to a thread that reads: it returns at most `count` bytes, it does not sleep while there is data,
except for a wakeup that a writer is about to make, a turn that finds data returns some, and when it does not sleep
it goes on. -/
structure ReadOwed (align : ℕ) (s : PipeWaitSys) (t count : ℕ) : Prop where
  returned : s.sys.pc t = .idle → ∃ bytes, s.sys.ret t = some (.read bytes) ∧ bytes.length ≤ count
  asleep : ∀ tick, s.readers.pc t = .suspended tick → (s.sys.contents = [] ∨ ∃ u, s.WakesReader u) ∧
    t ∈ s.readers.waitingList
  moves : ∀ s', s.step align (.turn t) = some s' → s.sys.contents ≠ [] →
    ∃ bytes, s'.sys.pc t = .idle ∧ s'.sys.ret t = some (.read bytes) ∧ 1 ≤ bytes.length ∧ bytes.length ≤ count
  goesOn : s.sys.pc t ≠ .idle → (∀ tick, s.readers.pc t ≠ .suspended tick) → ∃ e ∈ own t, (s.step align e).isSome = true

theorem waits_writers {e : PipeWaitEvent} {phase : PipePhase} {ready : Prop} (h : Waits s.writers phase t ready)
    (hne : e.caller ≠ some t) (hs : s.step align e = some s')
    (hok : ∀ u, e = .enter u ∨ e = .clear u → (∃ fd data ret, s.sys.pc u = .writing fd data ret) → s.writers.flag = true →
      phase = .wake ∨ (∃ tick, s.writers.pc t = .tested tick) → ¬ ready) : Waits s'.writers phase t ready := by
  rcases writers_step hne hs with hwoken | ⟨u, ev, hut, hev, hq, hcall⟩
  · exact h.woken hwoken
  · refine h.other hut hev (fun hclear hflag => ?_) hq
    obtain ⟨he, hpc⟩ := hcall hclear
    exact hok u he hpc hflag

/-- The write of a thread is going on, with `rest` to be written. -/
structure Writing (capacity : ℕ) (s : PipeWaitSys) (t : ℕ) (fd : PipeFd) (rest : List UInt8) : Prop where
  pc : s.sys.pc t = .writing fd rest (s.moved t).length
  pipe : InPipe capacity s.sys t fd
  waits : Waits s.writers (s.phase t) t (s.sys.contents.length < capacity)

structure Wrote (s : PipeWaitSys) (t : ℕ) (data : List UInt8) : Prop where
  pc : s.sys.pc t = .idle
  ret : s.sys.ret t = some (.wrote data.length)
  moved : s.moved t = data
  waits : Waits s.writers .turn t False

theorem Writing.other {e : PipeWaitEvent} {rest : List UInt8} (h : Writing capacity s t fd rest)
    (hne : e.caller ≠ some t) (hok : s.WriterServed capacity t e) (hs : s.step align e = some s') :
    Writing capacity s' t fd rest := by
  obtain ⟨hpc, -, hmoved, hphase⟩ := frame hne hs
  obtain ⟨hpipe, hcontents⟩ := pipe_step h.pipe (by rw [h.pc]; rfl) hne hs
  have hut : ∀ u, e.caller = some u → u ≠ t := by
    rintro u hu rfl
    exact hne hu
  refine ⟨?_, hpipe, ?_⟩
  · rw [hpc, hmoved]
    exact h.pc
  rw [hphase]
  have hwaits : Waits s'.writers (s.phase t) t (s.sys.contents.length < capacity) := by
    refine waits_writers h.waits hne hs fun u he hupc hflag hb => ?_
    rcases he with rfl | rfl
    · exact hok (hut u rfl) hupc hflag hb
    · exact hok (hut u rfl) hupc hflag hb
  rcases hcontents with heq | ⟨⟨l, hl⟩, -⟩ | ⟨u, fd', count, bytes, rfl, hupc, hcount, hbytes, hnil, hwriters⟩
  · rwa [heq]
  · refine hwaits.mono fun hroom => ?_
    rw [hl, List.length_append] at hroom
    omega
  · rw [hwriters]
    refine h.waits.first [] fun tick hsus _ => hok fd' count tick hupc hcount ?_ hsus
    rw [hbytes]
    simp [hnil]

theorem Wrote.other {e : PipeWaitEvent} (h : Wrote s t data) (hne : e.caller ≠ some t) (hs : s.step align e = some s') :
    Wrote s' t data := by
  obtain ⟨hpc, hret, hmoved, -⟩ := frame hne hs
  exact ⟨hpc.trans h.pc, hret.trans h.ret, hmoved.trans h.moved,
    waits_writers h.waits hne hs fun _ _ _ _ _ => id⟩

theorem Writing.turn {rest : List UInt8} (h : Writing capacity s t fd rest) (hlt : rest.length < 2 ^ 16)
    (hnb : fd.nonblock = false) (hs : s.step align (.turn t) = some s') :
    ∃ k, k = min rest.length (capacity - s.sys.contents.length) ∧ s'.moved t = s.moved t ++ rest.take k ∧
      (k < rest.length ∧ Writing capacity s' t fd (rest.drop k) ∨ Wrote s' t (s.moved t ++ rest)) := by
  obtain ⟨hphase, ⟨fd', count, hpc, -⟩ | ⟨fd', rest', ret, hpc, sys, hsys, rfl⟩⟩ := turn_cases hs
  · rw [h.pc] at hpc
    cases hpc
  rw [h.pc] at hpc
  cases hpc
  obtain ⟨k, s₁, hin, hpc₁, -, hcontents, hwritten, hk, hsys'⟩ := h.pipe.writeTurn h.pc hsys
  rw [Nat.mod_eq_of_lt hlt] at hk
  have hout : s.writers.pc t = .out := by
    rcases h.waits.place with ⟨hp, -⟩ | ⟨-, hout⟩
    · simp [hphase] at hp
    · exact hout
  have hmoved : sys.written.drop s.sys.written.length = rest.take k := by
    have hwr : sys.written = s₁.written := by
      rw [hsys']
      split_ifs <;> rfl
    rw [hwr, hwritten, List.drop_left]
  have hself : (s.writeTurn t fd sys).moved t = s.moved t ++ rest.take k := by
    rw [← hmoved]
    exact Function.update_self _ _ _
  refine ⟨k, hk, hself, ?_⟩
  by_cases hnil : rest.drop k = []
  · right
    have hfull : k = rest.length := by
      have := List.drop_eq_nil_iff.mp hnil
      omega
    rw [if_pos hnil] at hsys'
    subst hsys'
    refine ⟨Function.update_self _ _ _, ?_, ?_, ?_⟩
    · rw [hfull, List.length_append]
      exact Function.update_self _ _ _
    · rw [hself, hfull, List.take_length]
    · exact ⟨.inr ⟨.inl rfl, hout⟩, fun _ => False.elim, fun tick ht => by simp [writeTurn, setPhase, hout] at ht,
        h.waits.condition⟩
  · left
    have hshort : k < rest.length := by
      by_contra hge
      exact hnil (List.drop_eq_nil_of_le (not_lt.mp hge))
    rw [if_neg hnil, hnb, if_neg Bool.false_ne_true] at hsys'
    have hpcs : sys.pc t = .writing fd (rest.drop k) ((s.moved t).length + k) := by
      rw [hsys']
      exact Function.update_self _ _ _
    have hwake : (s.writeTurn t fd sys).phase t = .wake := by
      simp [writeTurn, setPhase, hpcs]
    refine ⟨hshort, ?_, ?_, ?_⟩
    · rw [hself, List.length_append, List.length_take, min_eq_left hshort.le]
      exact hpcs
    · show InPipe capacity sys t fd
      rw [hsys']
      exact ⟨hin.fd, hin.active, hin.fifo⟩
    · rw [hwake]
      have hfull : ¬ (s.writeTurn t fd sys).sys.contents.length < capacity := by
        have hc : (s.writeTurn t fd sys).sys.contents = s₁.contents := by
          show sys.contents = s₁.contents
          rw [hsys']
          rfl
        rw [hc, hcontents, List.length_append, List.length_take, min_eq_left hshort.le]
        omega
      exact ⟨.inr ⟨.inr rfl, hout⟩, fun _ hroom => absurd hroom hfull,
        fun tick ht => by simp [writeTurn, setPhase, hout] at ht, h.waits.condition⟩

theorem Writing.wait {rest : List UInt8} {e : PipeWaitEvent} (h : Writing capacity s t fd rest)
    (he : e = .wake t ∨ e = .enter t ∨ e = .clear t ∨ e = .remove t) (hs : s.step align e = some s') :
    Writing capacity s' t fd rest ∧ s'.moved = s.moved := by
  have hnot : ∀ fd' count, s.sys.pc t ≠ .reading fd' count := fun fd' count hpc => by
    rw [h.pc] at hpc
    cases hpc
  have hqueue : ∀ ev s₁, s.waitStep t ev = some s₁ →
      s.phase t = .wait ∧ ∃ q, s.writers.step ev = some q ∧ s₁ = { s with writers := q } := by
    intro ev s₁ hs₁
    obtain ⟨hphase, ⟨⟨fd', count, hpc⟩, -⟩ | ⟨-, q, hq, rfl⟩⟩ := waitStep_cases hs₁
    · exact absurd hpc (hnot fd' count)
    · exact ⟨hphase, q, hq, rfl⟩
  have hw := h.waits
  rcases he with rfl | rfl | rfl | rfl
  · obtain ⟨-, ⟨fd', count, hpc⟩, -⟩ | ⟨hphase, -, q, hq, rfl⟩ | ⟨fd', hphase, -⟩ := wake_cases hs
    · exact absurd hpc (hnot fd' count)
    · rw [hphase] at hw
      refine ⟨⟨h.pc, h.pipe, ?_⟩, rfl⟩
      simp only [setPhase, Function.update_self]
      exact hw.test hq
    · exact absurd hphase (h.waits.not_last fd')
  · obtain ⟨hphase, q, hq, rfl⟩ := hqueue _ _ hs
    rw [hphase] at hw
    exact ⟨⟨h.pc, h.pipe, hphase.symm ▸ hw.enter hq⟩, rfl⟩
  · obtain ⟨hphase, q, hq, rfl⟩ := hqueue _ _ hs
    rw [hphase] at hw
    exact ⟨⟨h.pc, h.pipe, hphase.symm ▸ hw.clear hq⟩, rfl⟩
  · obtain ⟨s₁, hs₁, rfl⟩ := Option.map_eq_some_iff.mp hs
    obtain ⟨hphase, q, hq, rfl⟩ := hqueue _ _ hs₁
    rw [hphase] at hw
    refine ⟨⟨h.pc, h.pipe, ?_⟩, rfl⟩
    simp only [setPhase, Function.update_self]
    exact hw.remove hq

/-- All that a thread without a call still does is to wake a reader. -/
theorem own_idle {e : PipeWaitEvent} (hpc : s.sys.pc t = .idle) (hc : e.caller = some t)
    (hread : ∀ fd count, e ≠ .read t fd count) (hwrite : ∀ fd data, e ≠ .write t fd data) (hs : s.step align e = some s') :
    ∃ fd, s' = { s.setPhase t .turn with readers := s.readers.rtWqueueWakeup [], ending := s.ending.erase fd } := by
  have hwait : ∀ ev s₁, s.waitStep t ev = some s₁ → False := by
    intro ev s₁ hs₁
    obtain ⟨-, ⟨⟨fd, count, hpc'⟩, -⟩ | ⟨⟨fd, data, ret, hpc'⟩, -⟩⟩ := waitStep_cases hs₁ <;> simp [hpc] at hpc'
  cases e with
  | openFd fd mem => cases hc
  | closeFd fd => cases hc
  | read u fd count => cases hc; exact absurd rfl (hread fd count)
  | write u fd data => cases hc; exact absurd rfl (hwrite fd data)
  | turn u =>
    cases hc
    obtain ⟨-, ⟨fd, count, hpc', -⟩ | ⟨fd, data, ret, hpc', -⟩⟩ := turn_cases hs <;> simp [hpc] at hpc'
  | wake u =>
    cases hc
    obtain ⟨-, ⟨fd, count, hpc'⟩, -⟩ | ⟨-, ⟨fd, data, ret, hpc'⟩, -⟩ | ⟨fd, -, rfl⟩ := wake_cases hs
    · simp [hpc] at hpc'
    · simp [hpc] at hpc'
    · exact ⟨fd, rfl⟩
  | enter u => cases hc; exact (hwait _ _ hs).elim
  | clear u => cases hc; exact (hwait _ _ hs).elim
  | remove u =>
    cases hc
    obtain ⟨s₁, hs₁, -⟩ := Option.map_eq_some_iff.mp hs
    exact (hwait _ _ hs₁).elim

theorem Wrote.own {e : PipeWaitEvent} (h : Wrote s t data) (hc : e.caller = some t) (hok : s.WriterServed capacity t e)
    (hs : s.step align e = some s') : Wrote s' t data := by
  obtain ⟨fd, rfl⟩ := own_idle h.pc hc (fun fd count he => by subst he; exact hok rfl)
    (fun fd data he => by subst he; exact hok rfl) hs
  exact ⟨h.pc, h.ret, h.moved, h.waits⟩

def WriteInv (capacity : ℕ) (s : PipeWaitSys) (t : ℕ) (fd : PipeFd) (data : List UInt8) : Prop :=
  (∃ rest, data = s.moved t ++ rest ∧ rest ≠ [] ∧ Writing capacity s t fd rest) ∨ Wrote s t data

theorem WriteInv.step {e : PipeWaitEvent} (h : WriteInv capacity s t fd data) (hlt : data.length < 2 ^ 16)
    (hnb : fd.nonblock = false) (hok : s.WriterServed capacity t e) (hs : s.step align e = some s') :
    WriteInv capacity s' t fd data := by
  by_cases hc : e.caller = some t
  · rcases h with ⟨rest, hdata, hrest, h⟩ | h
    · have hwait : (e = .wake t ∨ e = .enter t ∨ e = .clear t ∨ e = .remove t) → WriteInv capacity s' t fd data := by
        intro he
        obtain ⟨h', hmoved⟩ := h.wait he hs
        exact .inl ⟨rest, by rw [hmoved]; exact hdata, hrest, h'⟩
      have hlen : rest.length < 2 ^ 16 := by
        have := congrArg List.length hdata
        rw [List.length_append] at this
        omega
      cases e with
      | openFd fd mem => cases hc
      | closeFd fd => cases hc
      | read u fd count => cases hc; exact absurd rfl hok
      | write u fd data => cases hc; exact absurd rfl hok
      | turn u =>
        cases hc
        obtain ⟨k, -, hmoved, ⟨hshort, h'⟩ | h'⟩ := h.turn hlen hnb hs
        · refine .inl ⟨rest.drop k, ?_, ?_, h'⟩
          · rw [hmoved, List.append_assoc, List.take_append_drop]
            exact hdata
          · exact List.ne_nil_of_length_pos (by rw [List.length_drop]; omega)
        · exact .inr (hdata ▸ h')
      | wake u => cases hc; exact hwait (.inl rfl)
      | enter u => cases hc; exact hwait (.inr (.inl rfl))
      | clear u => cases hc; exact hwait (.inr (.inr (.inl rfl)))
      | remove u => cases hc; exact hwait (.inr (.inr (.inr rfl)))
    · exact .inr (h.own hc hok hs)
  · rcases h with ⟨rest, hdata, hrest, h⟩ | h
    · refine .inl ⟨rest, ?_, hrest, h.other hc hok hs⟩
      rw [(frame hc hs).2.2.1]
      exact hdata
    · exact .inr (h.other hc hs)

theorem goesOn_of_waits {q : WqueueSys} {ready : Prop} (h : Waits q (s.phase t) t ready)
    (hturn : s.phase t = .turn → (s.step align (.turn t)).isSome = true)
    (hwake : s.phase t = .wake → q.pc t = .out → (s.step align (.wake t)).isSome = true)
    (hwait : s.phase t = .wait → ∀ e, (q.step e).isSome = true → (s.waitStep t e).isSome = true)
    (hawake : ∀ tick, q.pc t ≠ .suspended tick) : ∃ e ∈ own t, (s.step align e).isSome = true := by
  rcases h.place with ⟨hp, -⟩ | ⟨hp | hp, hout⟩
  · rw [hp] at h
    rcases h.goesOn hawake with he | he | he
    · exact ⟨.enter t, by simp [own], hwait hp _ he⟩
    · exact ⟨.clear t, by simp [own], hwait hp _ he⟩
    · refine ⟨.remove t, by simp [own], ?_⟩
      rw [step, Option.isSome_map]
      exact hwait hp _ he
  · exact ⟨.turn t, by simp [own], hturn hp⟩
  · exact ⟨.wake t, by simp [own], hwake hp hout⟩

theorem WriteInv.owed (h : WriteInv capacity s t fd data) (hlt : data.length < 2 ^ 16) (hnb : fd.nonblock = false) :
    s.WriteOwed align capacity t fd data := by
  rcases h with ⟨rest, hdata, hrest, h⟩ | h
  · have hlen : rest.length < 2 ^ 16 := by
      have := congrArg List.length hdata
      rw [List.length_append] at this
      omega
    refine ⟨⟨rest, hdata, fun hnil => absurd hnil hrest, fun _ => h.pc⟩, h.waits.asleep, fun s' hs hroom => ?_,
      fun _ hawake => goesOn_of_waits h.waits (fun hp => ?_) (fun hp hout => ?_) (fun hp e he => ?_) hawake⟩
    · obtain ⟨k, hk, hmoved, -⟩ := h.turn hlen hnb hs
      have hpos := List.length_pos_of_ne_nil hrest
      rw [hmoved, List.length_append, List.length_take]
      omega
    · obtain ⟨rb, hf, -⟩ := h.pipe.fifo
      simp only [PipeWaitSys.step, hp, h.pc, PipeSys.step, PipeSys.pipeFopsWrite, hf, Option.map_some, Option.isSome_some]
    · simp only [PipeWaitSys.step, hp, h.pc, WqueueSys.step, hout, if_true, Option.map_some, Option.isSome_some]
    · simpa only [waitStep, hp, h.pc, Option.isSome_map] using he
  · have hout : s.writers.pc t = .out := by
      rcases h.waits.place with ⟨hp, -⟩ | ⟨-, hout⟩
      · cases hp
      · exact hout
    refine ⟨⟨[], ?_, fun _ => ⟨h.pc, h.ret⟩, fun hne => absurd rfl hne⟩, fun tick ht => ?_, fun s' hs => ?_,
      fun hpc => absurd h.pc hpc⟩
    · rw [h.moved, List.append_nil]
    · rw [hout] at ht
      cases ht
    · obtain ⟨-, ⟨fd, count, hpc, -⟩ | ⟨fd, data, ret, hpc, -⟩⟩ := turn_cases hs <;> simp [h.pc] at hpc

theorem waits_readers {e : PipeWaitEvent} {phase : PipePhase} {ready : Prop} (h : Waits s.readers phase t ready)
    (hne : e.caller ≠ some t) (hs : s.step align e = some s')
    (hok : ∀ u, e = .enter u ∨ e = .clear u → (∃ fd count, s.sys.pc u = .reading fd count) → s.readers.flag = true →
      phase = .wake ∨ (∃ tick, s.readers.pc t = .tested tick) → ¬ ready) : Waits s'.readers phase t ready := by
  rcases readers_step hne hs with hwoken | ⟨u, ev, hut, hev, hq, hcall⟩
  · exact h.woken hwoken
  · refine h.other hut hev (fun hclear hflag => ?_) hq
    obtain ⟨he, hpc⟩ := hcall hclear
    exact hok u he hpc hflag

def Unserved (s : PipeWaitSys) : Prop := s.sys.contents ≠ [] ∧ ∀ u, ¬ s.WakesReader u

structure Reading (capacity : ℕ) (s : PipeWaitSys) (t : ℕ) (fd : PipeFd) (count : ℕ) : Prop where
  pc : s.sys.pc t = .reading fd count
  pipe : InPipe capacity s.sys t fd
  waits : Waits s.readers (s.phase t) t s.Unserved

structure HasRead (s : PipeWaitSys) (t count : ℕ) : Prop where
  pc : s.sys.pc t = .idle
  ret : ∃ bytes, s.sys.ret t = some (.read bytes) ∧ bytes.length ≤ count
  waits : Waits s.readers .turn t False

theorem Reading.other {e : PipeWaitEvent} (h : Reading capacity s t fd count) (hne : e.caller ≠ some t)
    (hok : s.ReaderServed t e) (hs : s.step align e = some s') : Reading capacity s' t fd count := by
  obtain ⟨hpc, -, -, hphase⟩ := frame hne hs
  obtain ⟨hpipe, hcontents⟩ := pipe_step h.pipe (by rw [h.pc]; rfl) hne hs
  have hut : ∀ u, e.caller = some u → u ≠ t := by
    rintro u hu rfl
    exact hne hu
  refine ⟨hpc.trans h.pc, hpipe, ?_⟩
  rw [hphase]
  by_cases hwakes : ∃ u, e = .wake u ∧ s.WakesReader u
  · -- the wakeup that was to come
    obtain ⟨u, rfl, hu⟩ := hwakes
    obtain ⟨hq, hsame⟩ : s'.readers = s.readers.rtWqueueWakeup [] ∧ s'.sys = s.sys := by
      obtain ⟨-, ⟨fd', count', hupc⟩, -⟩ | ⟨-, -, q, -, rfl⟩ | ⟨fd', -, rfl⟩ := wake_cases hs
      · rcases hu with ⟨-, fd, data, ret, hw⟩ | ⟨fd, hl⟩
        · rw [hw] at hupc
          cases hupc
        · obtain ⟨hp, -⟩ | ⟨hp, -⟩ | ⟨fd', -, rfl⟩ := wake_cases hs
          · rw [hl] at hp
            cases hp
          · rw [hl] at hp
            cases hp
          · exact ⟨rfl, rfl⟩
      · exact ⟨rfl, rfl⟩
      · exact ⟨rfl, rfl⟩
    rw [hq]
    refine h.waits.first [] fun tick hsus hready => hok tick hu ?_ hsus
    rw [← hsame]
    exact hready.1
  · have hpending : (∃ u, s.WakesReader u) → ∃ u, s'.WakesReader u := by
      rintro ⟨u, hu⟩
      exact ⟨u, wakesReader_step hu (fun he => hwakes ⟨u, he, hu⟩) hs⟩
    have hwaits : Waits s'.readers (s.phase t) t s.Unserved := by
      refine waits_readers h.waits hne hs fun u he hupc hflag hb hready => hready.1 ?_
      rcases he with rfl | rfl
      · exact hok (hut u rfl) hupc hflag hb
      · exact hok (hut u rfl) hupc hflag hb
    refine hwaits.mono fun hready => ?_
    have hnone : ∀ u, ¬ s.WakesReader u := fun u hu => (hpending ⟨u, hu⟩).elim hready.2
    rcases hcontents with heq | ⟨-, u, hu⟩ | ⟨u, fd', count', bytes, -, -, -, hbytes, -⟩
    · exact ⟨heq ▸ hready.1, hnone⟩
    · exact absurd hu (hready.2 u)
    · refine ⟨?_, hnone⟩
      rw [hbytes]
      simp [hready.1]

theorem HasRead.other {e : PipeWaitEvent} (h : HasRead s t count) (hne : e.caller ≠ some t) (hs : s.step align e = some s') :
    HasRead s' t count := by
  obtain ⟨hpc, hret, -, -⟩ := frame hne hs
  exact ⟨hpc.trans h.pc, hret ▸ h.ret, waits_readers h.waits hne hs fun _ _ _ _ _ => id⟩

theorem Reading.turn (h : Reading capacity s t fd count) (hcount : count % 2 ^ 16 ≠ 0) (hnb : fd.nonblock = false)
    (hs : s.step align (.turn t) = some s') :
    (s.sys.contents = [] ∧ Reading capacity s' t fd count) ∨
      ∃ bytes, HasRead s' t count ∧ s'.sys.ret t = some (.read bytes) ∧ bytes.length ≤ count ∧
        (s.sys.contents ≠ [] → 1 ≤ bytes.length) := by
  obtain ⟨hphase, ⟨fd', count', hpc, sys, hsys, rfl⟩ | ⟨fd', rest', ret, hpc, -⟩⟩ := turn_cases hs
  swap
  · rw [h.pc] at hpc
    cases hpc
  rw [h.pc] at hpc
  cases hpc
  obtain ⟨bytes, s₁, hin, hpc₁, -, hbytes, hlen, hsys'⟩ := h.pipe.readTurn h.pc hsys
  obtain ⟨hsys₂, hreaders, -⟩ := readTurn_spec s t sys
  have hout : s.readers.pc t = .out := by
    rcases h.waits.place with ⟨hp, -⟩ | ⟨-, hout⟩
    · simp [hphase] at hp
    · exact hout
  have hmod := Nat.mod_le count (2 ^ 16)
  by_cases hend : 0 < bytes.length ∨ s.sys.pipe.writer = false
  · right
    rw [if_pos hend] at hsys'
    have hidle : sys.pc t = .idle := by
      rw [hsys']
      exact Function.update_self _ _ _
    have hret : sys.ret t = some (.read bytes) := by
      rw [hsys']
      exact Function.update_self _ _ _
    have hle : bytes.length ≤ count := by omega
    refine ⟨bytes, ⟨?_, ⟨bytes, ?_, hle⟩, ?_⟩, ?_, hle, fun hne => ?_⟩
    · rw [hsys₂]
      exact hidle
    · rw [hsys₂]
      exact hret
    · rw [hreaders]
      exact ⟨.inr ⟨.inl rfl, hout⟩, fun _ => False.elim, fun tick ht => by simp [hout] at ht, h.waits.condition⟩
    · rw [hsys₂]
      exact hret
    · have hpos := List.length_pos_of_ne_nil hne
      omega
  · left
    rw [if_neg hend, hnb, if_neg Bool.false_ne_true] at hsys'
    have hempty : s.sys.contents = [] := by
      by_contra hne
      have hpos := List.length_pos_of_ne_nil hne
      exact hend (.inl (by omega))
    have hstay : sys.pc t = .reading fd count := by
      rw [hsys', hpc₁]
      exact h.pc
    have hnil : sys.contents = [] := by
      rw [hsys']
      rw [hempty] at hbytes
      exact (List.append_eq_nil_iff.mp hbytes.symm).2
    rw [readTurn_waits (by rw [hstay]; simp)]
    refine ⟨hempty, hstay, hsys' ▸ hin, ?_⟩
    refine ⟨.inr ⟨.inr ?_, hout⟩, fun _ hready => absurd hnil hready.1, fun tick ht => ?_, h.waits.condition⟩
    · exact Function.update_self _ _ _
    · simp [setPhase, hout] at ht

theorem Reading.wait {e : PipeWaitEvent} (h : Reading capacity s t fd count)
    (he : e = .wake t ∨ e = .enter t ∨ e = .clear t ∨ e = .remove t) (hs : s.step align e = some s') :
    Reading capacity s' t fd count := by
  have hnot : ∀ fd' data ret, s.sys.pc t ≠ .writing fd' data ret := fun fd' data ret hpc => by
    rw [h.pc] at hpc
    cases hpc
  have hqueue : ∀ ev s₁, s.waitStep t ev = some s₁ →
      s.phase t = .wait ∧ ∃ q, s.readers.step ev = some q ∧ s₁ = { s with readers := q } := by
    intro ev s₁ hs₁
    obtain ⟨hphase, ⟨-, q, hq, rfl⟩ | ⟨⟨fd', data, ret, hpc⟩, -⟩⟩ := waitStep_cases hs₁
    · exact ⟨hphase, q, hq, rfl⟩
    · exact absurd hpc (hnot fd' data ret)
  -- the reader is not the one whose wakeup is to come
  have hpending : (∀ u, e ≠ .wake u ∨ ¬ s.WakesReader u) → s'.sys.contents = s.sys.contents → s'.Unserved → s.Unserved := by
    intro hu hc hready
    refine ⟨hc ▸ hready.1, fun u hw => hready.2 u (wakesReader_step hw ?_ hs)⟩
    exact (hu u).resolve_right (not_not.mpr hw)
  have hself : ¬ s.WakesReader t := by
    rintro (⟨-, fd', data, ret, hpc⟩ | ⟨fd', hp⟩)
    · exact hnot fd' data ret hpc
    · exact h.waits.not_last fd' hp
  have hw := h.waits
  rcases he with rfl | rfl | rfl | rfl
  · have hu : ∀ u, PipeWaitEvent.wake t ≠ .wake u ∨ ¬ s.WakesReader u := by
      intro u
      by_cases hut : u = t
      · exact .inr (hut ▸ hself)
      · exact .inl fun he => hut (by cases he; rfl)
    obtain ⟨hphase, -, q, hq, rfl⟩ | ⟨-, ⟨fd', data, ret, hpc⟩, -⟩ | ⟨fd', hphase, -⟩ := wake_cases hs
    · rw [hphase] at hw
      refine ⟨h.pc, h.pipe, ?_⟩
      simp only [setPhase, Function.update_self]
      exact (hw.test hq).mono (hpending hu rfl)
    · exact absurd hpc (hnot fd' data ret)
    · exact absurd hphase (h.waits.not_last fd')
  · obtain ⟨hphase, q, hq, rfl⟩ := hqueue _ _ hs
    rw [hphase] at hw
    exact ⟨h.pc, h.pipe, hphase.symm ▸ (hw.enter hq).mono (hpending (fun _ => .inl (by simp)) rfl)⟩
  · obtain ⟨hphase, q, hq, rfl⟩ := hqueue _ _ hs
    rw [hphase] at hw
    exact ⟨h.pc, h.pipe, hphase.symm ▸ (hw.clear hq).mono (hpending (fun _ => .inl (by simp)) rfl)⟩
  · obtain ⟨s₁, hs₁, rfl⟩ := Option.map_eq_some_iff.mp hs
    obtain ⟨hphase, q, hq, rfl⟩ := hqueue _ _ hs₁
    rw [hphase] at hw
    refine ⟨h.pc, h.pipe, ?_⟩
    simp only [setPhase, Function.update_self]
    exact (hw.remove hq).mono (hpending (fun _ => .inl (by simp)) rfl)

theorem HasRead.own {e : PipeWaitEvent} (h : HasRead s t count) (hc : e.caller = some t) (hok : s.ReaderServed t e)
    (hs : s.step align e = some s') : HasRead s' t count := by
  obtain ⟨fd, rfl⟩ := own_idle h.pc hc (fun fd count he => by subst he; exact hok rfl)
    (fun fd data he => by subst he; exact hok rfl) hs
  exact ⟨h.pc, h.ret, h.waits.woken (.wakeup _ _)⟩

def ReadInv (capacity : ℕ) (s : PipeWaitSys) (t : ℕ) (fd : PipeFd) (count : ℕ) : Prop :=
  Reading capacity s t fd count ∨ HasRead s t count

theorem ReadInv.step {e : PipeWaitEvent} (h : ReadInv capacity s t fd count) (hcount : count % 2 ^ 16 ≠ 0)
    (hnb : fd.nonblock = false) (hok : s.ReaderServed t e) (hs : s.step align e = some s') :
    ReadInv capacity s' t fd count := by
  by_cases hc : e.caller = some t
  · rcases h with h | h
    · cases e with
      | openFd fd mem => cases hc
      | closeFd fd => cases hc
      | read u fd count => cases hc; exact absurd rfl hok
      | write u fd data => cases hc; exact absurd rfl hok
      | turn u =>
        cases hc
        obtain ⟨-, h'⟩ | ⟨bytes, h', -⟩ := h.turn hcount hnb hs
        · exact .inl h'
        · exact .inr h'
      | wake u => cases hc; exact .inl (h.wait (.inl rfl) hs)
      | enter u => cases hc; exact .inl (h.wait (.inr (.inl rfl)) hs)
      | clear u => cases hc; exact .inl (h.wait (.inr (.inr (.inl rfl))) hs)
      | remove u => cases hc; exact .inl (h.wait (.inr (.inr (.inr rfl))) hs)
    · exact .inr (h.own hc hok hs)
  · rcases h with h | h
    · exact .inl (h.other hc hok hs)
    · exact .inr (h.other hc hs)

theorem ReadInv.owed (h : ReadInv capacity s t fd count) (hcount : count % 2 ^ 16 ≠ 0) (hnb : fd.nonblock = false) :
    s.ReadOwed align t count := by
  rcases h with h | h
  · refine ⟨fun hidle => ?_, fun tick ht => ?_, fun s' hs hne => ?_, fun _ hawake =>
      goesOn_of_waits h.waits (fun hp => ?_) (fun hp hout => ?_) (fun hp e he => ?_) hawake⟩
    · simp [h.pc] at hidle
    · obtain ⟨hready, hmem⟩ := h.waits.asleep tick ht
      refine ⟨?_, hmem⟩
      by_contra hno
      simp only [not_or, not_exists] at hno
      exact hready hno
    · obtain ⟨hempty, -⟩ | ⟨bytes, h', hret, hle, hpos⟩ := h.turn hcount hnb hs
      · exact absurd hempty hne
      · exact ⟨bytes, h'.pc, hret, hpos hne, hle⟩
    · obtain ⟨rb, hf, -⟩ := h.pipe.fifo
      simp only [PipeWaitSys.step, hp, h.pc, PipeSys.step, PipeSys.pipeFopsRead, hf, Option.map_some, Option.isSome_some]
    · simp only [PipeWaitSys.step, hp, h.pc, WqueueSys.step, hout, if_true, Option.map_some, Option.isSome_some]
    · simpa only [waitStep, hp, h.pc, Option.isSome_map] using he
  · have hout : s.readers.pc t = .out := by
      rcases h.waits.place with ⟨hp, -⟩ | ⟨-, hout⟩
      · cases hp
      · exact hout
    refine ⟨fun _ => h.ret, fun tick ht => ?_, fun s' hs => ?_, fun hpc => absurd h.pc hpc⟩
    · rw [hout] at ht
      cases ht
    · obtain ⟨-, ⟨fd, count, hpc, -⟩ | ⟨fd, data, ret, hpc, -⟩⟩ := turn_cases hs <;> simp [h.pc] at hpc

end PipeWaitSys

end RtSmart
