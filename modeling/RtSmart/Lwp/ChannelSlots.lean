import RtSmart.Lwp.ChannelInv

/-!
Where the slots of the message pool are: each has one owner, and each operation that moves a slot
changes the owner of that slot only.
-/

namespace RtSmart

namespace ChanSys

/-- `lost` is a slot that nothing refers to any more, `moving` one in the hands of the running operation. -/
inductive Owner
  | fresh
  | free
  | queued (c : ℕ)
  | held (t : ℕ)
  | moving
  | lost
  deriving DecidableEq

structure Slots (max : ℕ) (s : ChanSys) (owner : ℕ → Owner) : Prop where
  fresh : ∀ p, owner p = .fresh ↔ s.used ≤ p
  free : ∀ p, owner p = .free ↔ p ∈ s.freeList
  queued : ∀ p c, owner p = .queued c ↔ p ∈ (s.chan c).waitMsg
  held : ∀ p t, owner p = .held t ↔ (s.thread t).msgRet = some p
  free_nodup : s.freeList.Nodup
  queued_nodup : ∀ c, (s.chan c).waitMsg.Nodup
  used_le : s.used ≤ max

variable {max : ℕ} {s s' : ChanSys} {owner : ℕ → Owner} {p c t : ℕ}

theorem Slots.congr (h : s.Slots max owner) (hf : s'.freeList = s.freeList) (hu : s'.used = s.used)
    (hw : ∀ c, (s'.chan c).waitMsg = (s.chan c).waitMsg) (hm : ∀ t, (s'.thread t).msgRet = (s.thread t).msgRet) :
    s'.Slots max owner := by
  constructor
  · rw [hu]; exact h.fresh
  · rw [hf]; exact h.free
  · intro p c
    rw [hw]
    exact h.queued p c
  · intro p t
    rw [hm]
    exact h.held p t
  · rw [hf]; exact h.free_nodup
  · intro c
    rw [hw]
    exact h.queued_nodup c
  · rw [hu]; exact h.used_le

theorem msgAlloc_eq (ha : s.msgAlloc max = some (p, s')) : s' = { s with freeList := s'.freeList, used := s'.used } := by
  unfold msgAlloc at ha
  split at ha
  · cases ha
    rfl
  · split at ha
    · cases ha
      rfl
    · cases ha

theorem Slots.alloc (h : s.Slots max owner) (ha : s.msgAlloc max = some (p, s')) :
    s'.Slots max (Function.update owner p .moving) ∧ (owner p = .free ∨ owner p = .fresh) := by
  unfold msgAlloc at ha
  split at ha
  case h_1 q l hl =>
    cases ha
    have hfree : owner p = .free := (h.free p).mpr (by rw [hl]; exact List.mem_cons_self)
    have hnd := h.free_nodup
    rw [hl] at hnd
    refine ⟨?_, Or.inl hfree⟩
    constructor <;> dsimp only
    · intro q
      rw [← h.fresh]
      grind [Function.update_apply]
    · intro q
      have hq := h.free q
      rw [hl] at hq
      grind [Function.update_apply]
    · intro q c
      rw [← h.queued]
      grind [Function.update_apply]
    · intro q t
      rw [← h.held]
      grind [Function.update_apply]
    · exact (List.nodup_cons.mp hnd).2
    · exact h.queued_nodup
    · exact h.used_le
  case h_2 hl =>
    split at ha
    case isFalse => cases ha
    case isTrue hlt =>
      cases ha
      have hfresh : owner s.used = .fresh := (h.fresh s.used).mpr le_rfl
      refine ⟨?_, Or.inr hfresh⟩
      constructor <;> dsimp only
      · intro q
        have hq := h.fresh q
        grind [Function.update_apply]
      · intro q
        rw [← h.free]
        grind [Function.update_apply]
      · intro q c
        rw [← h.queued]
        grind [Function.update_apply]
      · intro q t
        rw [← h.held]
        grind [Function.update_apply]
      · exact h.free_nodup
      · exact h.queued_nodup
      · exact hlt

theorem Slots.msgFree (h : s.Slots max owner) (hp : owner p = .moving) :
    (s.msgFree p).Slots max (Function.update owner p .free) := by
  have hnot : p ∉ s.freeList := by
    rw [← h.free, hp]
    decide
  constructor <;> dsimp only [ChanSys.msgFree]
  · intro q
    rw [← h.fresh]
    grind [Function.update_apply]
  · intro q
    rw [List.mem_cons, ← h.free]
    grind [Function.update_apply]
  · intro q c
    rw [← h.queued]
    grind [Function.update_apply]
  · intro q t
    rw [← h.held]
    grind [Function.update_apply]
  · exact List.nodup_cons.mpr ⟨hnot, h.free_nodup⟩
  · exact h.queued_nodup
  · exact h.used_le

theorem Slots.queue (h : s.Slots max owner) (hp : owner p = .moving) (hf : s'.freeList = s.freeList)
    (hu : s'.used = s.used) (hw : ∀ d, d ≠ c → (s'.chan d).waitMsg = (s.chan d).waitMsg)
    (hc : (s'.chan c).waitMsg = (s.chan c).waitMsg ++ [p]) (hm : ∀ t, (s'.thread t).msgRet = (s.thread t).msgRet) :
    s'.Slots max (Function.update owner p (.queued c)) := by
  constructor
  · intro q
    rw [hu, ← h.fresh]
    grind [Function.update_apply]
  · intro q
    rw [hf, ← h.free]
    grind [Function.update_apply]
  · intro q d
    by_cases hd : d = c
    · subst hd
      rw [hc, List.mem_append, List.mem_singleton, ← h.queued]
      grind [Function.update_apply]
    · rw [hw d hd, ← h.queued]
      grind [Function.update_apply]
  · intro q t
    rw [hm, ← h.held]
    grind [Function.update_apply]
  · rw [hf]; exact h.free_nodup
  · intro d
    by_cases hd : d = c
    · subst hd
      rw [hc]
      apply List.Nodup.append (h.queued_nodup d) (List.nodup_singleton p)
      rw [List.disjoint_singleton, ← h.queued, hp]
      simp
    · rw [hw d hd]
      exact h.queued_nodup d
  · rw [hu]; exact h.used_le

theorem Slots.unqueue (h : s.Slots max owner) (hp : p ∈ (s.chan c).waitMsg) (hf : s'.freeList = s.freeList)
    (hu : s'.used = s.used) (hw : ∀ d, d ≠ c → (s'.chan d).waitMsg = (s.chan d).waitMsg)
    (hc : (s'.chan c).waitMsg = (s.chan c).waitMsg.erase p) (hm : ∀ t, (s'.thread t).msgRet = (s.thread t).msgRet) :
    s'.Slots max (Function.update owner p .moving) := by
  have hq := (h.queued p c).mpr hp
  constructor
  · intro q
    rw [hu, ← h.fresh]
    grind [Function.update_apply]
  · intro q
    rw [hf, ← h.free]
    grind [Function.update_apply]
  · intro q d
    by_cases hd : d = c
    · subst hd
      rw [hc, (h.queued_nodup d).mem_erase_iff, ← h.queued]
      grind [Function.update_apply]
    · rw [hw d hd, ← h.queued]
      grind [Function.update_apply]
  · intro q t
    rw [hm, ← h.held]
    grind [Function.update_apply]
  · rw [hf]; exact h.free_nodup
  · intro d
    by_cases hd : d = c
    · subst hd
      rw [hc]
      exact (h.queued_nodup d).erase p
    · rw [hw d hd]
      exact h.queued_nodup d
  · rw [hu]; exact h.used_le

theorem Slots.hold (h : s.Slots max owner) (hp : owner p = .moving) (ht : (s.thread t).msgRet = none)
    (hf : s'.freeList = s.freeList) (hu : s'.used = s.used) (hw : ∀ d, (s'.chan d).waitMsg = (s.chan d).waitMsg)
    (hm : ∀ x, x ≠ t → (s'.thread x).msgRet = (s.thread x).msgRet) (hm' : (s'.thread t).msgRet = some p) :
    s'.Slots max (Function.update owner p (.held t)) := by
  constructor
  · intro q
    rw [hu, ← h.fresh]
    grind [Function.update_apply]
  · intro q
    rw [hf, ← h.free]
    grind [Function.update_apply]
  · intro q d
    rw [hw, ← h.queued]
    grind [Function.update_apply]
  · intro q x
    have hx := h.held q x
    by_cases hxt : x = t
    · subst hxt
      rw [hm']
      grind [Function.update_apply]
    · rw [hm x hxt, ← hx]
      grind [Function.update_apply]
  · rw [hf]; exact h.free_nodup
  · intro d
    rw [hw]
    exact h.queued_nodup d
  · rw [hu]; exact h.used_le

theorem Slots.unhold (h : s.Slots max owner) (ht : (s.thread t).msgRet = some p)
    (hf : s'.freeList = s.freeList) (hu : s'.used = s.used) (hw : ∀ d, (s'.chan d).waitMsg = (s.chan d).waitMsg)
    (hm : ∀ x, x ≠ t → (s'.thread x).msgRet = (s.thread x).msgRet) (hm' : (s'.thread t).msgRet = none) :
    s'.Slots max (Function.update owner p .moving) := by
  have hq := (h.held p t).mpr ht
  constructor
  · intro q
    rw [hu, ← h.fresh]
    grind [Function.update_apply]
  · intro q
    rw [hf, ← h.free]
    grind [Function.update_apply]
  · intro q d
    rw [hw, ← h.queued]
    grind [Function.update_apply]
  · intro q x
    have hx := h.held q x
    by_cases hxt : x = t
    · subst hxt
      rw [hm']
      grind [Function.update_apply]
    · rw [hm x hxt, ← hx]
      grind [Function.update_apply]
  · rw [hf]; exact h.free_nodup
  · intro d
    rw [hw]
    exact h.queued_nodup d
  · rw [hu]; exact h.used_le

theorem Slots.lose (h : s.Slots max owner) (hf : s'.freeList = s.freeList) (hu : s'.used = s.used)
    (hw : ∀ d, d ≠ c → (s'.chan d).waitMsg = (s.chan d).waitMsg) (hc : (s'.chan c).waitMsg = [])
    (hm : ∀ t, (s'.thread t).msgRet = (s.thread t).msgRet) :
    s'.Slots max (fun p => if owner p = .queued c then .lost else owner p) := by
  constructor
  · intro q
    rw [hu, ← h.fresh]
    grind
  · intro q
    rw [hf, ← h.free]
    grind
  · intro q d
    by_cases hd : d = c
    · subst hd
      rw [hc]
      grind
    · rw [hw d hd, ← h.queued]
      grind
  · intro q t
    rw [hm, ← h.held]
    grind
  · rw [hf]; exact h.free_nodup
  · intro d
    by_cases hd : d = c
    · subst hd
      rw [hc]
      exact List.nodup_nil
    · rw [hw d hd]
      exact h.queued_nodup d
  · rw [hu]; exact h.used_le

def Owner.Placed (o : Owner) : Prop := o ≠ .moving ∧ o ≠ .lost

def Keeps (owner owner' : ℕ → Owner) : Prop := ∀ p, (owner p).Placed → (owner' p).Placed

theorem Keeps.refl (owner : ℕ → Owner) : Keeps owner owner := fun _ h => h

theorem Keeps.moved {o : Owner} (ho : o.Placed) (p : ℕ) :
    Keeps owner (Function.update (Function.update owner p .moving) p o) := by
  intro q hq
  rw [Function.update_idem]
  by_cases hqp : q = p
  · subst hqp
    rw [Function.update_self]
    exact ho
  · rw [Function.update_of_ne hqp]
    exact hq

end ChanSys

end RtSmart
