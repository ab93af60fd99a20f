import RtSmart.Drivers.Dataqueue

namespace RtSmart

open Lib

def DqStage.place : DqStage → Place
  | .suspended => .suspended
  | .readied .eok => .woken
  | .readied _ => .late

def DqPc.pushPlace : DqPc → Option Place
  | .push _ _ stage => some stage.place
  | _ => none

def DqPc.popPlace : DqPc → Option Place
  | .pop _ stage => some stage.place
  | _ => none

structure DqBase (s : DqSys) : Prop where
  ring : s.q.Ring
  conserved : s.accepted = s.received ++ s.q.contents
  push : Parking (DqPc.pushPlace ∘ s.pc) s.q.suspendedPushList s.wokenPush
  pop : Parking (DqPc.popPlace ∘ s.pc) s.q.suspendedPopList s.wokenPop

/-- As long as a thread waits in a pop, a woken thread stands for every item, `spare` items apart. -/
def DqSys.PopDue (s : DqSys) (spare : ℕ) : Prop :=
  s.q.suspendedPopList ≠ [] → s.q.count ≤ s.wokenPop.length + spare

/-- As long as a thread waits in a push, items and woken threads are more than the low-water mark or fill
the queue, `spare` apart. -/
def DqSys.PushDue (s : DqSys) (spare : ℕ) : Prop :=
  s.q.size ≤ 2 ^ 15 → s.q.suspendedPushList ≠ [] →
    min (s.q.lwm + 1) s.q.size ≤ s.q.count + s.wokenPush.length + spare

structure DqInv (s : DqSys) : Prop where
  base : DqBase s
  popDue : s.PopDue 0
  pushDue : s.PushDue 0

theorem DqStage.place_eq_suspended {stage : DqStage} : stage.place = .suspended ↔ stage = .suspended := by
  cases stage with
  | suspended => simp [place]
  | readied err => cases err <;> simp [place]

theorem DqPc.popPlace_suspended {pc : DqPc} :
    pc.popPlace = some .suspended ↔ ∃ timeout, pc = .pop timeout .suspended := by
  cases pc with
  | pop timeout stage => simp [popPlace, DqStage.place_eq_suspended]
  | _ => simp [popPlace]

theorem DqPc.pushPlace_suspended {pc : DqPc} :
    pc.pushPlace = some .suspended ↔ ∃ item timeout, pc = .push item timeout .suspended := by
  cases pc with
  | push item timeout stage => simp [pushPlace, DqStage.place_eq_suspended]
  | _ => simp [pushPlace]

section wake

variable {s : DqSys} {spare : ℕ}

theorem wakePop_cases (h : DqBase s) :
    (s.q.suspendedPopList = [] ∧ s.wakePop = s) ∨
      ∃ u l timeout, s.q.suspendedPopList = u :: l ∧ s.pc u = .pop timeout .suspended ∧
        s.wakePop = { s.setPc u (.pop timeout (.readied .eok)) with
          q := { s.q with suspendedPopList := l }, wokenPop := u :: s.wokenPop } := by
  unfold DqSys.wakePop
  split
  · next hl => exact .inl ⟨hl, rfl⟩
  · next u l hl =>
    have hu : DqPc.popPlace (s.pc u) = some .suspended := (h.pop.mem u).mp (by simp [hl])
    obtain ⟨timeout, hpc⟩ := DqPc.popPlace_suspended.mp hu
    refine .inr ⟨u, l, timeout, hl, hpc, ?_⟩
    rw [hpc]

theorem wakePush_cases (h : DqBase s) :
    (s.q.suspendedPushList = [] ∧ s.wakePush = s) ∨
      ∃ u l item timeout, s.q.suspendedPushList = u :: l ∧ s.pc u = .push item timeout .suspended ∧
        s.wakePush = { s.setPc u (.push item timeout (.readied .eok)) with
          q := { s.q with suspendedPushList := l }, wokenPush := u :: s.wokenPush } := by
  unfold DqSys.wakePush
  split
  · next hl => exact .inl ⟨hl, rfl⟩
  · next u l hl =>
    have hu : DqPc.pushPlace (s.pc u) = some .suspended := (h.push.mem u).mp (by simp [hl])
    obtain ⟨item, timeout, hpc⟩ := DqPc.pushPlace_suspended.mp hu
    refine .inr ⟨u, l, item, timeout, hl, hpc, ?_⟩
    rw [hpc]

theorem DqBase.wakePop (h : DqBase s) (hpop : s.PopDue 1) (hpush : s.PushDue 0) : DqInv s.wakePop := by
  rcases wakePop_cases h with ⟨hl, hs⟩ | ⟨u, l, timeout, hl, hpc, hs⟩
  · rw [hs]
    exact ⟨h, fun hne => absurd hl hne, hpush⟩
  · rw [hs]
    have hp := h.pop
    rw [hl] at hp
    refine ⟨⟨⟨h.ring.pos, h.ring.bound, h.ring.get, h.ring.put, h.ring.empty, h.ring.full⟩, h.conserved, ?_, ?_⟩, ?_, hpush⟩
    · change Parking (DqPc.pushPlace ∘ Function.update s.pc u _) _ _
      rw [Function.comp_update]
      exact h.push.same (by simp [hpc, DqPc.pushPlace])
    · change Parking (DqPc.popPlace ∘ Function.update s.pc u _) _ _
      rw [Function.comp_update]
      exact hp.wake
    · intro _
      have := hpop (by simp [hl])
      change s.q.count ≤ (u :: s.wokenPop).length + 0
      rw [List.length_cons]
      omega

theorem DqBase.wakePush (h : DqBase s) (hpop : s.PopDue 0) (hpush : s.PushDue 1) : DqInv s.wakePush := by
  rcases wakePush_cases h with ⟨hl, hs⟩ | ⟨u, l, item, timeout, hl, hpc, hs⟩
  · rw [hs]
    exact ⟨h, hpop, fun _ hne => absurd hl hne⟩
  · rw [hs]
    have hp := h.push
    rw [hl] at hp
    refine ⟨⟨⟨h.ring.pos, h.ring.bound, h.ring.get, h.ring.put, h.ring.empty, h.ring.full⟩, h.conserved, ?_, ?_⟩, hpop, ?_⟩
    · change Parking (DqPc.pushPlace ∘ Function.update s.pc u _) _ _
      rw [Function.comp_update]
      exact hp.wake
    · change Parking (DqPc.popPlace ∘ Function.update s.pc u _) _ _
      rw [Function.comp_update]
      exact h.pop.same (by simp [hpc, DqPc.popPlace])
    · intro hsize _
      have := hpush hsize (by simp [hl])
      change min (s.q.lwm + 1) s.q.size ≤ s.q.count + (u :: s.wokenPush).length + 0
      rw [List.length_cons]
      omega

end wake

section calls

variable {s : DqSys} {t : Tid} {item : DataItem} {timeout : ℤ} {r : DqRet}

theorem DqBase.finish (h : DqBase s) (ht : s.pc t = .idle) : DqBase (s.finish t r) := by
  refine ⟨h.ring, h.conserved, ?_, ?_⟩
  · change Parking (DqPc.pushPlace ∘ Function.update s.pc t _) _ _
    rw [Function.comp_update]
    exact h.push.same (by simp [ht])
  · change Parking (DqPc.popPlace ∘ Function.update s.pc t _) _ _
    rw [Function.comp_update]
    exact h.pop.same (by simp [ht])

theorem DqBase.put (h : DqBase s) (hf : s.q.isFull = false) :
    DqBase { s with q := s.q.put item, accepted := s.accepted ++ [item] } := by
  refine ⟨h.ring.put_ring hf, ?_, h.push, h.pop⟩
  change s.accepted ++ [item] = s.received ++ (s.q.put item).contents
  rw [h.ring.contents_put hf, h.conserved, List.append_assoc]

theorem DqBase.take (h : DqBase s) (he : s.q.isEmpty = false) :
    DqBase { s with q := s.q.take, received := s.received ++ [s.q.first] } := by
  refine ⟨h.ring.take_ring he, ?_, h.push, h.pop⟩
  change s.accepted = s.received ++ [s.q.first] ++ s.q.take.contents
  rw [h.conserved, h.ring.contents_take he, List.append_assoc, List.singleton_append]

theorem DqBase.rtDataQueuePush (h : DqBase s) (ht : s.pc t = .idle) (hpop : s.PopDue 0) (hpush : s.PushDue 1) :
    DqInv (s.rtDataQueuePush t item timeout) := by
  unfold DqSys.rtDataQueuePush
  split_ifs with hfull h0
  · refine ⟨h.finish ht, hpop, fun hsize hne => ?_⟩
    have hcount : s.q.count = s.q.places := h.ring.isFull_iff.mp hfull
    have hplaces : s.q.places = s.q.size := Nat.min_eq_left hsize
    change min (s.q.lwm + 1) s.q.size ≤ s.q.count + s.wokenPush.length + 0
    omega
  · refine ⟨⟨⟨h.ring.pos, h.ring.bound, h.ring.get, h.ring.put, h.ring.empty, h.ring.full⟩, h.conserved, ?_, ?_⟩, hpop,
      fun hsize hne => ?_⟩
    · change Parking (DqPc.pushPlace ∘ Function.update s.pc t _) _ _
      rw [Function.comp_update]
      exact h.push.park (by simp [ht, DqPc.pushPlace]) (by simp [ht, DqPc.pushPlace])
    · change Parking (DqPc.popPlace ∘ Function.update s.pc t _) _ _
      rw [Function.comp_update]
      exact h.pop.same (by simp [ht, DqPc.popPlace])
    · have hcount : s.q.count = s.q.places := h.ring.isFull_iff.mp hfull
      have hplaces : s.q.places = s.q.size := Nat.min_eq_left hsize
      change min (s.q.lwm + 1) s.q.size ≤ s.q.count + s.wokenPush.length + 0
      omega
  · have hf : s.q.isFull = false := by simpa using hfull
    have hcount : (s.q.put item).count = s.q.count + 1 := h.ring.count_put hf
    apply ((h.finish ht (r := .pushed .eok)).put hf).wakePop
    · intro hne
      have := hpop hne
      change (s.q.put item).count ≤ s.wokenPop.length + 1
      omega
    · intro hsize hne
      have := hpush hsize hne
      change min (s.q.lwm + 1) s.q.size ≤ (s.q.put item).count + s.wokenPush.length + 0
      omega

theorem DqBase.rtDataQueuePop (h : DqBase s) (ht : s.pc t = .idle) (hpop : s.PopDue 1) (hpush : s.PushDue 0) :
    DqInv (s.rtDataQueuePop t timeout) := by
  unfold DqSys.rtDataQueuePop
  split_ifs with hempty h0
  · refine ⟨h.finish ht, fun hne => ?_, hpush⟩
    have hcount : s.q.count = 0 := h.ring.isEmpty_iff.mp hempty
    change s.q.count ≤ s.wokenPop.length + 0
    omega
  · refine ⟨⟨⟨h.ring.pos, h.ring.bound, h.ring.get, h.ring.put, h.ring.empty, h.ring.full⟩, h.conserved, ?_, ?_⟩,
      fun hne => ?_, hpush⟩
    · change Parking (DqPc.pushPlace ∘ Function.update s.pc t _) _ _
      rw [Function.comp_update]
      exact h.push.same (by simp [ht, DqPc.pushPlace])
    · change Parking (DqPc.popPlace ∘ Function.update s.pc t _) _ _
      rw [Function.comp_update]
      exact h.pop.park (by simp [ht, DqPc.popPlace]) (by simp [ht, DqPc.popPlace])
    · have hcount : s.q.count = 0 := h.ring.isEmpty_iff.mp hempty
      change s.q.count ≤ s.wokenPop.length + 0
      omega
  · have he : s.q.isEmpty = false := by simpa using hempty
    have hcount : s.q.count = s.q.take.count + 1 := h.ring.count_take he
    have hbase := (h.finish ht (r := .popped (.ok s.q.first))).take he
    have hpop' : DqSys.PopDue { s.finish t (.popped (.ok s.q.first)) with
        q := s.q.take, received := s.received ++ [s.q.first] } 0 := by
      intro hne
      have := hpop hne
      change s.q.take.count ≤ s.wokenPop.length + 0
      omega
    dsimp only
    split_ifs with hlen
    · apply hbase.wakePush hpop'
      intro hsize hne
      have := hpush hsize hne
      change min (s.q.lwm + 1) s.q.size ≤ s.q.take.count + s.wokenPush.length + 1
      omega
    · refine ⟨hbase, hpop', fun hsize _ => ?_⟩
      have hlen' : s.q.take.rtDataQueueLen = s.q.take.count := (h.ring.take_ring he).len_eq hsize
      have hlow : ¬ s.q.take.rtDataQueueLen ≤ s.q.lwm := hlen
      change min (s.q.lwm + 1) s.q.size ≤ s.q.take.count + s.wokenPush.length + 0
      omega

theorem rtDataQueuePush_setPc (s : DqSys) (pc : DqPc) :
    (s.setPc t pc).rtDataQueuePush t item timeout = s.rtDataQueuePush t item timeout := by
  simp only [DqSys.rtDataQueuePush, DqSys.setPc, DqSys.finish, Function.update_idem]

theorem rtDataQueuePop_setPc (s : DqSys) (pc : DqPc) :
    (s.setPc t pc).rtDataQueuePop t timeout = s.rtDataQueuePop t timeout := by
  simp only [DqSys.rtDataQueuePop, DqSys.setPc, DqSys.finish, Function.update_idem]

theorem DqSys.PopDue.mono {n m : ℕ} (h : s.PopDue n) (hnm : n ≤ m) : s.PopDue m :=
  fun hne => (h hne).trans (Nat.add_le_add_left hnm _)

theorem DqSys.PushDue.mono {n m : ℕ} (h : s.PushDue n) (hnm : n ≤ m) : s.PushDue m :=
  fun hsize hne => (h hsize hne).trans (Nat.add_le_add_left hnm _)

end calls

namespace DqInv

variable {s s' : DqSys} {t : Tid} {item : DataItem} {timeout : ℤ} {err : Err}

theorem init {size lwm : ℕ} (mem : ℕ → DataItem) (hpos : 0 < size) (hb : size < 2 ^ 16) :
    DqInv (.init size lwm mem) := by
  have hring : (rtDataQueueInit size lwm mem).Ring := .init mem hpos hb
  refine ⟨⟨hring, ?_, .nil fun t => rfl, .nil fun t => rfl⟩, fun hne => absurd rfl hne, fun _ hne => absurd rfl hne⟩
  have hcount : (rtDataQueueInit size lwm mem).contents = [] := by
    rw [← List.length_eq_zero_iff, DataQueue.Ring.length_contents]
    exact hring.isEmpty_iff.mp rfl
  change [] = [] ++ (rtDataQueueInit size lwm mem).contents
  rw [hcount, List.append_nil]

theorem expirePush (h : DqInv s) (ht : s.pc t = .push item timeout .suspended) :
    DqInv { s.setPc t (.push item timeout (.readied .etimeout)) with
      q := { s.q with suspendedPushList := s.q.suspendedPushList.erase t } } := by
  have hb := h.base
  have hr := hb.ring
  refine ⟨⟨⟨hr.pos, hr.bound, hr.get, hr.put, hr.empty, hr.full⟩, hb.conserved, ?_, ?_⟩, h.popDue, fun hsize hne => ?_⟩
  · change Parking (DqPc.pushPlace ∘ Function.update s.pc t _) _ _
    rw [Function.comp_update]
    exact hb.push.expire (by simp [ht, DqPc.pushPlace, DqStage.place])
  · change Parking (DqPc.popPlace ∘ Function.update s.pc t _) _ _
    rw [Function.comp_update]
    exact hb.pop.same (by simp [ht, DqPc.popPlace])
  · apply h.pushDue hsize
    intro hnil
    exact hne (by simp [hnil])

theorem expirePop (h : DqInv s) (ht : s.pc t = .pop timeout .suspended) :
    DqInv { s.setPc t (.pop timeout (.readied .etimeout)) with
      q := { s.q with suspendedPopList := s.q.suspendedPopList.erase t } } := by
  have hb := h.base
  have hr := hb.ring
  refine ⟨⟨⟨hr.pos, hr.bound, hr.get, hr.put, hr.empty, hr.full⟩, hb.conserved, ?_, ?_⟩, fun hne => ?_, h.pushDue⟩
  · change Parking (DqPc.pushPlace ∘ Function.update s.pc t _) _ _
    rw [Function.comp_update]
    exact hb.push.same (by simp [ht, DqPc.pushPlace])
  · change Parking (DqPc.popPlace ∘ Function.update s.pc t _) _ _
    rw [Function.comp_update]
    exact hb.pop.expire (by simp [ht, DqPc.popPlace, DqStage.place])
  · apply h.popDue
    intro hnil
    exact hne (by simp [hnil])

theorem resumePush_base (h : DqInv s) (ht : s.pc t = .push item timeout (.readied .eok)) :
    DqBase ({ s with wokenPush := s.wokenPush.erase t }.setPc t .idle) := by
  have hb := h.base
  refine ⟨hb.ring, hb.conserved, ?_, ?_⟩
  · change Parking (DqPc.pushPlace ∘ Function.update s.pc t _) _ _
    rw [Function.comp_update]
    exact hb.push.resume (by simp [ht, DqPc.pushPlace, DqStage.place])
  · change Parking (DqPc.popPlace ∘ Function.update s.pc t _) _ _
    rw [Function.comp_update]
    exact hb.pop.same (by simp [ht, DqPc.popPlace])

theorem resumePop_base (h : DqInv s) (ht : s.pc t = .pop timeout (.readied .eok)) :
    DqBase ({ s with wokenPop := s.wokenPop.erase t }.setPc t .idle) := by
  have hb := h.base
  refine ⟨hb.ring, hb.conserved, ?_, ?_⟩
  · change Parking (DqPc.pushPlace ∘ Function.update s.pc t _) _ _
    rw [Function.comp_update]
    exact hb.push.same (by simp [ht, DqPc.pushPlace])
  · change Parking (DqPc.popPlace ∘ Function.update s.pc t _) _ _
    rw [Function.comp_update]
    exact hb.pop.resume (by simp [ht, DqPc.popPlace, DqStage.place])

theorem resumePush (h : DqInv s) (ht : s.pc t = .push item timeout (.readied .eok)) :
    DqInv ({ s with wokenPush := s.wokenPush.erase t }.rtDataQueuePush t item timeout) := by
  have hlen := h.base.push.length_woken (t := t) (by simp [ht, DqPc.pushPlace, DqStage.place])
  rw [← rtDataQueuePush_setPc _ .idle]
  apply (h.resumePush_base ht).rtDataQueuePush
  · simp [DqSys.setPc]
  · exact h.popDue
  · intro hsize hne
    have := h.pushDue hsize hne
    change min (s.q.lwm + 1) s.q.size ≤ s.q.count + (s.wokenPush.erase t).length + 1
    omega

theorem resumePop (h : DqInv s) (ht : s.pc t = .pop timeout (.readied .eok)) :
    DqInv ({ s with wokenPop := s.wokenPop.erase t }.rtDataQueuePop t timeout) := by
  have hlen := h.base.pop.length_woken (t := t) (by simp [ht, DqPc.popPlace, DqStage.place])
  rw [← rtDataQueuePop_setPc _ .idle]
  apply (h.resumePop_base ht).rtDataQueuePop
  · simp [DqSys.setPc]
  · intro hne
    have := h.popDue hne
    change s.q.count ≤ (s.wokenPop.erase t).length + 1
    omega
  · exact h.pushDue

theorem setPc (pc : DqPc) (h : DqInv s) (hpush : (s.pc t).pushPlace = none ∨ (s.pc t).pushPlace = some .late)
    (hpop : (s.pc t).popPlace = none ∨ (s.pc t).popPlace = some .late) (hpc : pc.pushPlace = none ∧ pc.popPlace = none) :
    DqInv (s.setPc t pc) := by
  have hb := h.base
  refine ⟨⟨hb.ring, hb.conserved, ?_, ?_⟩, h.popDue, h.pushDue⟩
  · change Parking (DqPc.pushPlace ∘ Function.update s.pc t _) _ _
    rw [Function.comp_update, hpc.1]
    exact hpush.elim (fun hp => hb.push.same hp) fun hp => hb.push.quit hp
  · change Parking (DqPc.popPlace ∘ Function.update s.pc t _) _ _
    rw [Function.comp_update, hpc.2]
    exact hpop.elim (fun hp => hb.pop.same hp) fun hp => hb.pop.quit hp

theorem finish {r : DqRet} (h : DqInv s) (hpush : (s.pc t).pushPlace = none ∨ (s.pc t).pushPlace = some .late)
    (hpop : (s.pc t).popPlace = none ∨ (s.pc t).popPlace = some .late) : DqInv (s.finish t r) := by
  have hs := h.setPc .idle hpush hpop ⟨rfl, rfl⟩
  exact ⟨⟨hs.base.ring, hs.base.conserved, hs.base.push, hs.base.pop⟩, hs.popDue, hs.pushDue⟩

theorem place_late (herr : err ≠ .eok) : (DqStage.readied err).place = .late := by
  cases err with
  | eok => exact absurd rfl herr
  | _ => rfl

theorem step {e : DqEvent} (h : DqInv s) (hs : s.step e = some s') : DqInv s' := by
  cases e with
  | push t item timeout =>
    simp only [DqSys.step] at hs
    split_ifs at hs with ht
    cases hs
    exact h.base.rtDataQueuePush ht h.popDue (h.pushDue.mono (Nat.zero_le 1))
  | pop t timeout =>
    simp only [DqSys.step] at hs
    split_ifs at hs with ht
    cases hs
    exact h.base.rtDataQueuePop ht (h.popDue.mono (Nat.zero_le 1)) h.pushDue
  | expire t =>
    simp only [DqSys.step] at hs
    split at hs
    · next item timeout ht =>
      split_ifs at hs
      cases hs
      exact h.expirePush ht
    · next timeout ht =>
      split_ifs at hs
      cases hs
      exact h.expirePop ht
    · cases hs
  | resume t =>
    simp only [DqSys.step] at hs
    split at hs
    · next item timeout err ht =>
      split_ifs at hs with herr
      · cases hs
        exact h.resumePush (herr ▸ ht)
      · cases hs
        exact h.finish (.inr (by simp [ht, DqPc.pushPlace, place_late herr])) (.inl (by simp [ht, DqPc.popPlace]))
    · next timeout err ht =>
      split_ifs at hs with herr
      · cases hs
        exact h.resumePop (herr ▸ ht)
      · cases hs
        exact h.finish (.inl (by simp [ht, DqPc.pushPlace])) (.inr (by simp [ht, DqPc.popPlace, place_late herr]))
    · cases hs
  | peekTest t =>
    simp only [DqSys.step] at hs
    split_ifs at hs with ht hempty
    · cases hs
      exact h.finish (.inl (by simp [ht, DqPc.pushPlace])) (.inl (by simp [ht, DqPc.popPlace]))
    · cases hs
      exact h.setPc _ (.inl (by simp [ht, DqPc.pushPlace])) (.inl (by simp [ht, DqPc.popPlace])) ⟨rfl, rfl⟩
  | peekRead t =>
    simp only [DqSys.step] at hs
    split_ifs at hs with ht
    cases hs
    exact h.finish (.inl (by simp [ht, DqPc.pushPlace])) (.inl (by simp [ht, DqPc.popPlace]))

end DqInv

/-- The queue as it is meant: what is in it, and what went in and came out. -/
def DqSys.fifo (s : DqSys) : Fifo DataItem := ⟨s.q.contents, s.accepted, s.received⟩

section fifo

variable {s s' : DqSys} {t : Tid} {item : DataItem} {timeout : ℤ}

theorem fifo_wakePop (h : DqBase s) : s.wakePop.fifo = s.fifo := by
  rcases wakePop_cases h with ⟨-, hs⟩ | ⟨u, l, timeout, -, -, hs⟩
  · rw [hs]
  · rw [hs]
    rfl

theorem fifo_wakePush (h : DqBase s) : s.wakePush.fifo = s.fifo := by
  rcases wakePush_cases h with ⟨-, hs⟩ | ⟨u, l, item, timeout, -, -, hs⟩
  · rw [hs]
  · rw [hs]
    rfl

theorem wakePop_self (h : DqBase s) (ht : s.pc t = .idle) : s.wakePop.pc t = .idle ∧ s.wakePop.ret = s.ret := by
  rcases wakePop_cases h with ⟨-, hs⟩ | ⟨u, l, timeout, -, hu, hs⟩
  · rw [hs]
    exact ⟨ht, rfl⟩
  · have hut : t ≠ u := by
      rintro rfl
      simp [ht] at hu
    rw [hs]
    exact ⟨(Function.update_of_ne hut _ _).trans ht, rfl⟩

theorem wakePush_self (h : DqBase s) (ht : s.pc t = .idle) : s.wakePush.pc t = .idle ∧ s.wakePush.ret = s.ret := by
  rcases wakePush_cases h with ⟨-, hs⟩ | ⟨u, l, item, timeout, -, hu, hs⟩
  · rw [hs]
    exact ⟨ht, rfl⟩
  · have hut : t ≠ u := by
      rintro rfl
      simp [ht] at hu
    rw [hs]
    exact ⟨(Function.update_of_ne hut _ _).trans ht, rfl⟩

def PushOutcome (capacity : ℕ) (s s' : DqSys) (t : Tid) (item : DataItem) (timeout : ℤ) : Prop :=
  if s.q.contents.length < capacity then
    s'.fifo = ⟨s.q.contents ++ [item], s.accepted ++ [item], s.received⟩ ∧ s'.pc t = .idle ∧
      s'.ret t = some (.pushed .eok)
  else
    s'.fifo = s.fifo ∧
      if timeout = 0 then s'.pc t = .idle ∧ s'.ret t = some (.pushed .etimeout)
      else s'.pc t = .push item timeout .suspended

def PopOutcome (s s' : DqSys) (t : Tid) (timeout : ℤ) : Prop :=
  match s.q.contents with
  | item :: l =>
    s'.fifo = ⟨l, s.accepted, s.received ++ [item]⟩ ∧ s'.pc t = .idle ∧ s'.ret t = some (.popped (.ok item))
  | [] =>
    s'.fifo = s.fifo ∧
      if timeout = 0 then s'.pc t = .idle ∧ s'.ret t = some (.popped (.error .etimeout))
      else s'.pc t = .pop timeout .suspended

theorem push_outcome (h : DqBase s) (ht : s.pc t = .idle) :
    PushOutcome s.q.places s (s.rtDataQueuePush t item timeout) t item timeout := by
  have hle := h.ring.count_le
  have hfull := h.ring.isFull_iff
  unfold PushOutcome DqSys.rtDataQueuePush
  rw [DataQueue.Ring.length_contents]
  by_cases hf : s.q.isFull = true
  · have hcount := hfull.mp hf
    rw [if_neg (by omega), if_pos hf]
    split_ifs with h0
    · exact ⟨rfl, by simp [DqSys.finish], by simp [DqSys.finish]⟩
    · exact ⟨rfl, by simp [DqSys.setPc]⟩
  · have hne : s.q.count ≠ s.q.places := fun heq => hf (hfull.mpr heq)
    have hf' : s.q.isFull = false := by simpa using hf
    have hbase : DqBase { s.finish t (.pushed .eok) with q := s.q.put item, accepted := s.accepted ++ [item] } :=
      (h.finish ht).put hf'
    have hidle : (s.finish t (.pushed .eok)).pc t = .idle := by simp [DqSys.finish]
    have hself := wakePop_self hbase hidle
    rw [if_pos (by omega), if_neg hf]
    refine ⟨(fifo_wakePop hbase).trans ?_, hself.1, (congrFun hself.2 t).trans (by simp [DqSys.finish])⟩
    simp only [DqSys.fifo, DqSys.finish, h.ring.contents_put hf']

theorem pop_outcome (h : DqBase s) (ht : s.pc t = .idle) : PopOutcome s (s.rtDataQueuePop t timeout) t timeout := by
  have hempty := h.ring.isEmpty_iff
  unfold PopOutcome DqSys.rtDataQueuePop
  by_cases he : s.q.isEmpty = true
  · have hnil : s.q.contents = [] := by
      rw [← List.length_eq_zero_iff, DataQueue.Ring.length_contents]
      exact hempty.mp he
    simp only [hnil, he, if_true]
    split_ifs with h0
    · exact ⟨rfl, by simp [DqSys.finish], by simp [DqSys.finish]⟩
    · exact ⟨rfl, by simp [DqSys.setPc]⟩
  · have he' : s.q.isEmpty = false := by simpa using he
    have hbase : DqBase { s.finish t (.popped (.ok s.q.first)) with
        q := s.q.take, received := s.received ++ [s.q.first] } := (h.finish ht).take he'
    have hidle : (s.finish t (.popped (.ok s.q.first))).pc t = .idle := by simp [DqSys.finish]
    have hself := wakePush_self hbase hidle
    simp only [h.ring.contents_take he', he', Bool.false_eq_true, if_false]
    split_ifs with hlen
    · exact ⟨fifo_wakePush hbase, hself.1, (congrFun hself.2 t).trans (by simp [DqSys.finish])⟩
    · exact ⟨rfl, hidle, by simp [DqSys.finish]⟩

theorem PushOutcome.fifo {capacity : ℕ} (h : PushOutcome capacity s s' t item timeout) :
    Fifo.Step capacity s.fifo s'.fifo := by
  unfold PushOutcome at h
  split_ifs at h with hlt
  · rw [h.1]
    exact .enqueue item hlt
  · rw [h.1]
    exact .idle
  · rw [h.1]
    exact .idle

theorem PopOutcome.fifo {capacity : ℕ} (h : PopOutcome s s' t timeout) : Fifo.Step capacity s.fifo s'.fifo := by
  unfold PopOutcome at h
  split at h
  · next v l hl =>
    rw [h.1]
    exact .dequeue v l hl
  · rw [h.1]
    exact .idle

theorem step_fifo {e : DqEvent} (h : DqInv s) (hs : s.step e = some s') : Fifo.Step s.q.places s.fifo s'.fifo := by
  cases e with
  | push t item timeout =>
    simp only [DqSys.step] at hs
    split_ifs at hs with ht
    cases hs
    exact (push_outcome h.base ht).fifo
  | pop t timeout =>
    simp only [DqSys.step] at hs
    split_ifs at hs with ht
    cases hs
    exact (pop_outcome h.base ht).fifo
  | expire t =>
    simp only [DqSys.step] at hs
    split at hs
    · split_ifs at hs
      cases hs
      exact .idle
    · split_ifs at hs
      cases hs
      exact .idle
    · cases hs
  | resume t =>
    simp only [DqSys.step] at hs
    split at hs
    · next item timeout err ht =>
      split_ifs at hs with herr
      · cases hs
        rw [← rtDataQueuePush_setPc _ .idle]
        exact (push_outcome (h.resumePush_base (herr ▸ ht)) (by simp [DqSys.setPc])).fifo
      · cases hs
        exact .idle
    · next timeout err ht =>
      split_ifs at hs with herr
      · cases hs
        rw [← rtDataQueuePop_setPc _ .idle]
        exact (pop_outcome (h.resumePop_base (herr ▸ ht)) (by simp [DqSys.setPc])).fifo
      · cases hs
        exact .idle
    · cases hs
  | peekTest t =>
    simp only [DqSys.step] at hs
    split_ifs at hs
    · cases hs
      exact .idle
    · cases hs
      exact .idle
  | peekRead t =>
    simp only [DqSys.step] at hs
    split_ifs at hs
    cases hs
    exact .idle

end fifo

/-- What `rt_data_queue_init` fixed. -/
def DqSys.config (s : DqSys) : ℕ × ℕ := (s.q.size, s.q.lwm)

section config

variable {s s' : DqSys}

theorem config_wakePop (s : DqSys) : s.wakePop.config = s.config := by
  unfold DqSys.wakePop
  split
  · rfl
  · split <;> rfl

theorem config_wakePush (s : DqSys) : s.wakePush.config = s.config := by
  unfold DqSys.wakePush
  split
  · rfl
  · split <;> rfl

theorem config_push (s : DqSys) (t : Tid) (item : DataItem) (timeout : ℤ) :
    (s.rtDataQueuePush t item timeout).config = s.config := by
  unfold DqSys.rtDataQueuePush
  split_ifs
  · rfl
  · rfl
  · exact config_wakePop _

theorem config_pop (s : DqSys) (t : Tid) (timeout : ℤ) : (s.rtDataQueuePop t timeout).config = s.config := by
  unfold DqSys.rtDataQueuePop
  dsimp only
  split_ifs
  · rfl
  · rfl
  · exact config_wakePush _
  · rfl

theorem step_config {e : DqEvent} (hs : s.step e = some s') : s'.config = s.config := by
  cases e with
  | push t item timeout =>
    simp only [DqSys.step] at hs
    split_ifs at hs
    cases hs
    exact config_push s t item timeout
  | pop t timeout =>
    simp only [DqSys.step] at hs
    split_ifs at hs
    cases hs
    exact config_pop s t timeout
  | expire t =>
    simp only [DqSys.step] at hs
    split at hs
    · split_ifs at hs
      cases hs
      rfl
    · split_ifs at hs
      cases hs
      rfl
    · cases hs
  | resume t =>
    simp only [DqSys.step] at hs
    split at hs
    · split_ifs at hs
      · cases hs
        exact config_push _ _ _ _
      · cases hs
        rfl
    · split_ifs at hs
      · cases hs
        exact config_pop _ _ _
      · cases hs
        rfl
    · cases hs
  | peekTest t =>
    simp only [DqSys.step] at hs
    split_ifs at hs
    · cases hs
      rfl
    · cases hs
      rfl
  | peekRead t =>
    simp only [DqSys.step] at hs
    split_ifs at hs
    cases hs
    rfl

end config

/-- What holds of a queue of `size` places and the threads that use it. -/
structure DqSpec (size lwm : ℕ) (s : DqSys) : Prop where
  conserved : s.accepted = s.received ++ s.q.contents
  bounded : s.q.contents.length ≤ size
  refines : ∀ e s', s.step e = some s' → Fifo.Step size s.fifo s'.fifo
  pop : ∀ t timeout, s.pc t = .idle → ∃ s', s.step (.pop t timeout) = some s' ∧ PopOutcome s s' t timeout
  popWait : (∃ t timeout, s.pc t = .pop timeout .suspended) → s.q.contents.length ≤ s.wokenPop.length
  wokenPop : s.wokenPop.Nodup ∧ ∀ t ∈ s.wokenPop, ∃ timeout, s.pc t = .pop timeout (.readied .eok)
  peek : ∀ t item l, s.q.contents = item :: l → s.pc t = .peeking →
    ∃ s', s.step (.peekRead t) = some s' ∧ s'.ret t = some (.peeked item)
  len : size ≤ 2 ^ 15 → s.q.rtDataQueueLen = s.q.contents.length
  push : size ≤ 2 ^ 15 → ∀ t item timeout, s.pc t = .idle →
    ∃ s', s.step (.push t item timeout) = some s' ∧ PushOutcome size s s' t item timeout
  pushWait : size ≤ 2 ^ 15 → (∃ t item timeout, s.pc t = .push item timeout .suspended) →
    min (lwm + 1) size ≤ s.q.contents.length + s.wokenPush.length
  wokenPush : s.wokenPush.Nodup ∧ ∀ t ∈ s.wokenPush, ∃ item timeout, s.pc t = .push item timeout (.readied .eok)

theorem DqStage.place_eq_woken {stage : DqStage} : stage.place = .woken ↔ stage = .readied .eok := by
  cases stage with
  | suspended => simp [place]
  | readied err => cases err <;> simp [place]

theorem DqInv.spec {s : DqSys} (h : DqInv s) : DqSpec s.q.size s.q.lwm s := by
  have hb := h.base
  have hplaces : s.q.places ≤ s.q.size := DataQueue.Ring.places_le s.q
  have hcount := hb.ring.count_le
  refine ⟨hb.conserved, ?_, fun e s' hs => ?_, fun t timeout ht => ?_, ?_, ?_, ?_, fun hsize => ?_,
    fun hsize t item timeout ht => ?_, fun hsize => ?_, ?_⟩
  · rw [DataQueue.Ring.length_contents]
    omega
  · exact (step_fifo h hs).mono hplaces
  · exact ⟨_, by simp only [DqSys.step, ht, if_true], pop_outcome hb ht⟩
  · rintro ⟨t, timeout, ht⟩
    have hmem : t ∈ s.q.suspendedPopList := (hb.pop.mem t).mpr (by simp [ht, DqPc.popPlace, DqStage.place])
    have := h.popDue (List.ne_nil_of_mem hmem)
    rwa [DataQueue.Ring.length_contents]
  · refine ⟨hb.pop.woken_nodup, fun t ht => ?_⟩
    have hw := (hb.pop.mem_woken t).mp ht
    cases hpc : s.pc t with
    | pop timeout stage => exact ⟨timeout, by simpa [hpc, DqPc.popPlace, DqStage.place_eq_woken] using hw⟩
    | _ => simp [hpc, DqPc.popPlace] at hw
  · intro t item l hl ht
    have hfirst : s.q.first = item := by
      have hne : s.q.isEmpty = false := by
        cases he : s.q.isEmpty
        · rfl
        · have := hb.ring.isEmpty_iff.mp he
          rw [← DataQueue.Ring.length_contents, hl] at this
          simp at this
      rw [hb.ring.contents_take hne] at hl
      exact (List.cons.inj hl).1
    exact ⟨s.finish t (.peeked s.q.first), by simp only [DqSys.step, ht, if_true], by simp [DqSys.finish, hfirst]⟩
  · rw [DataQueue.Ring.length_contents]
    exact hb.ring.len_eq hsize
  · have hp : PushOutcome s.q.places s (s.rtDataQueuePush t item timeout) t item timeout := push_outcome hb ht
    rw [show s.q.places = s.q.size from Nat.min_eq_left hsize] at hp
    exact ⟨_, by simp only [DqSys.step, ht, if_true], hp⟩
  · rintro ⟨t, item, timeout, ht⟩
    have hmem : t ∈ s.q.suspendedPushList := (hb.push.mem t).mpr (by simp [ht, DqPc.pushPlace, DqStage.place])
    have := h.pushDue hsize (List.ne_nil_of_mem hmem)
    rwa [DataQueue.Ring.length_contents]
  · refine ⟨hb.push.woken_nodup, fun t ht => ?_⟩
    have hw := (hb.push.mem_woken t).mp ht
    cases hpc : s.pc t with
    | push item timeout stage => exact ⟨item, timeout, by simpa [hpc, DqPc.pushPlace, DqStage.place_eq_woken] using hw⟩
    | _ => simp [hpc, DqPc.pushPlace] at hw

/-- A data queue of any size is a bounded first-in first-out queue in every run of the threads that
use it. -/
theorem data_queue_fifo {size lwm : ℕ} {mem : ℕ → DataItem} {es : List DqEvent} {s : DqSys} (hpos : 0 < size)
    (hb : size < 2 ^ 16) (hs : run DqSys.step (.init size lwm mem) es = some s) : DqSpec size lwm s := by
  obtain ⟨h, hconfig⟩ : DqInv s ∧ s.config = (size, lwm) :=
    run_invariant (fun s => DqInv s ∧ s.config = (size, lwm))
      (fun _ _ _ h hs => ⟨h.1.step hs, (step_config hs).trans h.2⟩) hs ⟨DqInv.init mem hpos hb, rfl⟩
  obtain ⟨hsize, hlwm⟩ := Prod.mk.inj hconfig
  have hspec := h.spec
  rwa [hsize, hlwm] at hspec

theorem data_queue_fifo_two :
    ∃ s, run DqSys.step (.init 2 1 fun _ => ⟨0, 0⟩) [.push 1 ⟨8, 1⟩ 0, .push 1 ⟨16, 2⟩ 0, .push 2 ⟨24, 3⟩ (-1), .pop 1 0,
        .resume 2] = some s ∧ DqSpec 2 1 s := by
  obtain ⟨s, hs⟩ := Option.isSome_iff_exists.mp (show (run DqSys.step (.init 2 1 fun _ => ⟨0, 0⟩)
    [.push 1 ⟨8, 1⟩ 0, .push 1 ⟨16, 2⟩ 0, .push 2 ⟨24, 3⟩ (-1), .pop 1 0, .resume 2]).isSome = true by decide +kernel)
  exact ⟨s, hs, data_queue_fifo (by decide) (by decide) hs⟩

/-- A push waits on, with a place free and nobody about to take it, because more items than the low-water
mark are left. -/
theorem push_waits_for_lwm : ¬ ∀ es s, run DqSys.step (.init 2 0 fun _ => ⟨0, 0⟩) es = some s → s.wokenPush = [] →
    ∀ t item timeout, s.pc t = .push item timeout .suspended → s.q.contents.length = 2 := by
  intro h
  have hrun : ((run DqSys.step (.init 2 0 fun _ => ⟨0, 0⟩) [.push 1 ⟨8, 1⟩ 0, .push 1 ⟨16, 2⟩ 0, .push 2 ⟨24, 3⟩ (-1),
      .pop 1 0]).any fun s => decide (s.wokenPush = []) && decide (s.pc 2 = .push ⟨24, 3⟩ (-1) .suspended) &&
        decide (s.q.contents.length = 1)) = true := by
    decide +kernel
  obtain ⟨s, hs, hp⟩ := (Option.any_eq_true _ _).mp hrun
  simp only [Bool.and_eq_true, decide_eq_true_eq] at hp
  have := h _ s hs hp.1.1 2 _ _ hp.1.2
  omega

end RtSmart
