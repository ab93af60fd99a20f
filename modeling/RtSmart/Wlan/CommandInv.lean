import RtSmart.Wlan.Command

namespace RtSmart

open Lib

def ExecutePc.Active (p : ExecutePc) : Prop := p ≠ .idle ∧ ∀ r, p ≠ .returned r

namespace CommandManager

variable {s s' : CommandManager} {c d : ℕ} {x : PendingCommand} {p : ExecutePc} {k : Confirmation}

structure Inv (s : CommandManager) : Prop where
  count : s.pendingCount.toNat = s.pending.length
  bound : s.pending.length ≤ s.maxPending.toNat
  nodup : s.pending.Nodup
  mem : ∀ c, c ∈ s.pending ↔ (s.command c).pending = true
  nonzero : ∀ c ∈ s.pending, (s.command c).token ≠ 0
  apart : ∀ c ∈ s.pending, ∀ d ∈ s.pending, (s.command c).token = (s.command d).token → c = d
  active : ∀ c ∈ s.pending, (s.pc c).Active
  asleep : ∀ c ∈ s.pending, s.completed c = false

/-! The command that is taken off the list. -/

def settle (s : CommandManager) (c : ℕ) (x : PendingCommand) : CommandManager :=
  { s with
    command := Function.update s.command c { x with pending := false }
    pending := s.pending.erase c
    pendingCount := s.pendingCount - 1 }

theorem removeLocked_setCommand (h : x.pending = true) : (s.setCommand c x).removeLocked c = s.settle c x := by
  simp [removeLocked, setCommand, settle, h]

theorem setCommand_removeLocked (result : ℤ) (h : (s.command c).pending = true) :
    (s.removeLocked c).setCommand c { (s.removeLocked c).command c with result := result } =
      s.settle c { s.command c with result := result } := by
  simp [removeLocked, setCommand, settle, h]

theorem settle_command_of_ne (h : d ≠ c) : (s.settle c x).command d = s.command d :=
  Function.update_of_ne h _ _

theorem settle_command_self : (s.settle c x).command c = { x with pending := false } :=
  Function.update_self _ _ _

theorem Inv.settle (h : s.Inv) (hc : c ∈ s.pending) (x : PendingCommand) : (s.settle c x).Inv := by
  have hmem : ∀ d, d ∈ s.pending.erase c ↔ d ≠ c ∧ d ∈ s.pending := fun d => h.nodup.mem_erase_iff
  have hlen : (s.pending.erase c).length = s.pending.length - 1 := List.length_erase_of_mem hc
  have hpos : 0 < s.pending.length := List.length_pos_of_mem hc
  constructor
  · have hcount := h.count
    change (s.pendingCount - 1).toNat = (s.pending.erase c).length
    rw [hlen]
    bv_omega
  · have hbound := h.bound
    change (s.pending.erase c).length ≤ _
    rw [hlen]
    change _ ≤ s.maxPending.toNat
    omega
  · exact h.nodup.erase c
  · intro d
    change d ∈ s.pending.erase c ↔ _
    rw [hmem]
    by_cases hd : d = c
    · subst hd
      simp [settle_command_self]
    · rw [settle_command_of_ne hd, ← h.mem]
      exact and_iff_right hd
  · intro d hd
    obtain ⟨hne, hd⟩ := (hmem d).mp hd
    rw [settle_command_of_ne hne]
    exact h.nonzero d hd
  · intro d hd e he hde
    obtain ⟨hdc, hd⟩ := (hmem d).mp hd
    obtain ⟨hec, he⟩ := (hmem e).mp he
    rw [settle_command_of_ne hdc, settle_command_of_ne hec] at hde
    exact h.apart d hd e he hde
  · intro d hd
    exact h.active d ((hmem d).mp hd).2
  · intro d hd
    exact h.asleep d ((hmem d).mp hd).2

theorem Inv.completionDone (h : s.Inv) (hc : c ∉ s.pending) : (s.completionDone c).Inv := by
  refine ⟨h.count, h.bound, h.nodup, h.mem, h.nonzero, h.apart, h.active, fun d hd => ?_⟩
  change Function.update s.completed c true d = false
  have hdc : d ≠ c := fun hdc => hc (hdc ▸ hd)
  rw [Function.update_of_ne hdc]
  exact h.asleep d hd

theorem Inv.deliver (h : s.Inv) (hc : c ∈ s.pending) (x : PendingCommand) :
    ((s.settle c x).completionDone c).Inv :=
  (h.settle hc x).completionDone h.nodup.not_mem_erase

theorem Inv.setPc (h : s.Inv) (hp : c ∈ s.pending → p.Active) : (s.setPc c p).Inv := by
  refine ⟨h.count, h.bound, h.nodup, h.mem, h.nonzero, h.apart, ?_, h.asleep⟩
  intro d hd
  change (Function.update s.pc c p d).Active
  by_cases hdc : d = c
  · subst hdc
    rw [Function.update_self]
    exact hp hd
  · rw [Function.update_of_ne hdc]
    exact h.active d hd

theorem Inv.not_mem (h : s.Inv) (hp : ¬(s.pc c).Active) : c ∉ s.pending := fun hc => hp (h.active c hc)

/-! The tokens. -/

theorem succToken_ne_zero (t : BitVec 32) : succToken t ≠ 0 := by
  unfold succToken
  split_ifs <;> bv_omega

theorem succToken_toNat (t : BitVec 32) : (succToken t).toNat = t.toNat % (2 ^ 32 - 1) + 1 := by
  have ht := t.isLt
  unfold succToken
  split_ifs with h
  · have hmax : t.toNat = 2 ^ 32 - 1 := by bv_omega
    rw [h, hmax, Nat.mod_self]
    rfl
  · have hlt : t.toNat < 2 ^ 32 - 1 := by bv_omega
    rw [Nat.mod_eq_of_lt hlt]
    bv_omega

theorem succToken_iterate (t : BitVec 32) (i : ℕ) :
    (succToken^[i + 1] t).toNat = (t.toNat + i) % (2 ^ 32 - 1) + 1 := by
  induction i with
  | zero => exact succToken_toNat t
  | succ i ih =>
    rw [Function.iterate_succ_apply', succToken_toNat, ih]
    omega

theorem succToken_iterate_inj (t : BitVec 32) {i j : ℕ} (hi : i < 2 ^ 32 - 1) (hj : j < 2 ^ 32 - 1)
    (h : succToken^[i + 1] t = succToken^[j + 1] t) : i = j := by
  have ht := congrArg BitVec.toNat h
  rw [succToken_iterate, succToken_iterate] at ht
  omega

theorem mem_of_tokenInUse {t : BitVec 32} (h : s.tokenInUse t = true) :
    t ∈ s.pending.map fun c => (s.command c).token := by
  simp only [tokenInUse, Bool.and_eq_true, List.any_eq_true, decide_eq_true_eq] at h
  exact List.mem_map.mpr h.2

theorem Inv.allocTokenLocked (h : s.Inv) : ∃ t, s.allocTokenLocked (s.pending.length + 1) = some t := by
  have hlen : s.pending.length + 1 ≤ 2 ^ 16 := by
    have hb := h.bound
    have hm := s.maxPending.isLt
    omega
  apply firstUnused_isSome (l := s.pending.map fun c => (s.command c).token)
  · rw [List.length_map]
    omega
  · intro t ht
    exact mem_of_tokenInUse ht
  · intro i hi j hj hij
    exact succToken_iterate_inj _ (by omega) (by omega) hij

theorem Inv.tokenInUse (h : s.Inv) (hc : c ∈ s.pending) : s.tokenInUse (s.command c).token = true := by
  have hcount := h.count
  have hpos : 0 < s.pending.length := List.length_pos_of_mem hc
  have hne : s.pendingCount ≠ 0 := by
    intro h0
    rw [h0] at hcount
    simp only [BitVec.toNat_zero, BitVec.ofNat_eq_ofNat] at hcount
    omega
  simp only [CommandManager.tokenInUse, Bool.and_eq_true, List.any_eq_true, decide_eq_true_eq]
  exact ⟨hne, c, hc, rfl⟩

/-! The steps. -/

theorem Inv.commandExecute (h : s.Inv) (hc : s.pc c = .idle) {args : ExecuteArgs}
    (hs : s.commandExecute c args = some s') : s'.Inv := by
  have hnot : c ∉ s.pending := h.not_mem fun ha => ha.1 hc
  unfold CommandManager.commandExecute at hs
  split_ifs at hs with h1 h2 h3
  · cases hs
    exact h.setPc fun hm => absurd hm hnot
  · cases hs
    exact h.setPc fun hm => absurd hm hnot
  · cases hs
    exact h.setPc fun hm => absurd hm hnot
  · obtain ⟨t, ht, rfl⟩ := Option.map_eq_some_iff.mp hs
    obtain ⟨u, rfl⟩ := firstUnused_mem ht
    have hfree := firstUnused_unused ht
    have hold : ∀ d ∈ s.pending, d ≠ c := fun d hd hdc => hnot (hdc ▸ hd)
    have htoken : ∀ d ∈ s.pending, (s.command d).token ≠ succToken u := by
      intro d hd hdt
      have hu := h.tokenInUse hd
      rw [hdt, hfree] at hu
      cases hu
    have hroom : s.pendingCount.toNat < s.maxPending.toNat := by
      rw [BitVec.le_def] at h3
      omega
    have hcount := h.count
    constructor
    · have hmax := s.maxPending.isLt
      change (s.pendingCount + 1).toNat = (s.pending ++ [c]).length
      rw [List.length_append, List.length_singleton]
      bv_omega
    · change (s.pending ++ [c]).length ≤ s.maxPending.toNat
      rw [List.length_append, List.length_singleton]
      omega
    · apply List.Nodup.append h.nodup (List.nodup_singleton c)
      intro d hd hdc
      exact hold d hd (List.mem_singleton.mp hdc)
    · intro d
      change d ∈ s.pending ++ [c] ↔ (Function.update s.command c _ d).pending = true
      rw [List.mem_append, List.mem_singleton]
      by_cases hd : d = c
      · subst hd
        simp
      · rw [Function.update_of_ne hd, ← h.mem]
        exact or_iff_left hd
    · intro d hd
      change (Function.update s.command c _ d).token ≠ 0
      cases List.mem_append.mp hd with
      | inl hd =>
        rw [Function.update_of_ne (hold d hd)]
        exact h.nonzero d hd
      | inr hd =>
        rw [List.mem_singleton.mp hd, Function.update_self]
        exact succToken_ne_zero u
    · intro d hd e he hde
      change (Function.update s.command c _ d).token = (Function.update s.command c _ e).token at hde
      cases List.mem_append.mp hd with
      | inl hd =>
        cases List.mem_append.mp he with
        | inl he =>
          rw [Function.update_of_ne (hold d hd), Function.update_of_ne (hold e he)] at hde
          exact h.apart d hd e he hde
        | inr he =>
          rw [List.mem_singleton.mp he, Function.update_self, Function.update_of_ne (hold d hd)] at hde
          exact absurd hde (htoken d hd)
      | inr hd =>
        cases List.mem_append.mp he with
        | inl he =>
          rw [List.mem_singleton.mp hd, Function.update_self, Function.update_of_ne (hold e he)] at hde
          exact absurd hde.symm (htoken e he)
        | inr he => rw [List.mem_singleton.mp hd, List.mem_singleton.mp he]
    · intro d hd
      change (Function.update s.pc c _ d).Active
      cases List.mem_append.mp hd with
      | inl hd =>
        rw [Function.update_of_ne (hold d hd)]
        exact h.active d hd
      | inr hd =>
        rw [List.mem_singleton.mp hd, Function.update_self]
        exact ⟨nofun, nofun⟩
    · intro d hd
      change Function.update s.completed c false d = false
      cases List.mem_append.mp hd with
      | inl hd =>
        rw [Function.update_of_ne (hold d hd)]
        exact h.asleep d hd
      | inr hd => rw [List.mem_singleton.mp hd, Function.update_self]

theorem Inv.commandExecute_total (h : s.Inv) (c : ℕ) (args : ExecuteArgs) :
    ∃ s', s.commandExecute c args = some s' := by
  unfold CommandManager.commandExecute
  obtain ⟨t, ht⟩ := h.allocTokenLocked
  split_ifs
  · exact ⟨_, rfl⟩
  · exact ⟨_, rfl⟩
  · exact ⟨_, rfl⟩
  · rw [ht]
    exact ⟨_, rfl⟩

theorem commandTimeout_eq (waitResult : ℤ) (h : s.Inv) :
    (c ∈ s.pending ∧ s.commandTimeout c waitResult =
      (s.settle c { s.command c with result := waitResult }).setPc c (.returned waitResult)) ∨
    (c ∉ s.pending ∧ s.commandTimeout c waitResult = s.setPc c (.returned (s.command c).result)) := by
  unfold commandTimeout
  by_cases hc : c ∈ s.pending
  · have hp := (h.mem c).mp hc
    left
    rw [if_pos hp]
    refine ⟨hc, ?_⟩
    simp only
    rw [setCommand_removeLocked waitResult hp, settle_command_self]
  · have hp : ¬(s.command c).pending = true := fun hp => hc ((h.mem c).mpr hp)
    right
    rw [if_neg hp]
    exact ⟨hc, rfl⟩

theorem commandPushed_eq (result : ℤ) :
    s.commandPushed c result = if result ≠ rtEok then s.commandTimeout c result else s.setPc c .waiting := rfl

theorem Inv.commandTimeout (h : s.Inv) (c : ℕ) (waitResult : ℤ) : (s.commandTimeout c waitResult).Inv := by
  rcases commandTimeout_eq waitResult h with ⟨hc, he⟩ | ⟨hc, he⟩
  · rw [he]
    exact (h.settle hc _).setPc fun hm => absurd hm (h.nodup.not_mem_erase)
  · rw [he]
    exact h.setPc fun hm => absurd hm hc

theorem Inv.commandPushed (h : s.Inv) (c : ℕ) (result : ℤ) : (s.commandPushed c result).Inv := by
  rw [commandPushed_eq]
  split_ifs
  · exact h.commandTimeout c result
  · exact h.setPc fun _ => ⟨nofun, nofun⟩

theorem failOne_eq (status : ℤ) (h : s.Inv) (hc : c ∈ s.pending) :
    failOne status s c = (s.settle c { s.command c with result := status }).completionDone c := by
  unfold failOne
  rw [removeLocked_setCommand]
  exact (h.mem c).mp hc

theorem Inv.failAll (status : ℤ) {l : List ℕ} (h : s.Inv) (hl : s.pending = l) :
    (l.foldl (failOne status) s).Inv ∧ (l.foldl (failOne status) s).pending = [] := by
  induction l generalizing s with
  | nil => exact ⟨h, hl⟩
  | cons c l ih =>
    have hc : c ∈ s.pending := by
      rw [hl]
      exact List.mem_cons_self
    rw [List.foldl_cons, failOne_eq status h hc]
    apply ih (h.deliver hc _)
    change s.pending.erase c = l
    rw [hl, List.erase_cons_head]

theorem Inv.managerFail (h : s.Inv) (status : ℤ) : (s.managerFail status).1.Inv := by
  unfold CommandManager.managerFail
  split_ifs
  · exact h
  · have hf : ({ s with state := .failed } : CommandManager).Inv :=
      ⟨h.count, h.bound, h.nodup, h.mem, h.nonzero, h.apart, h.active, h.asleep⟩
    exact (hf.failAll status rfl).1

theorem Inv.managerReset (h : s.Inv) : s.managerReset.1.Inv := by
  unfold CommandManager.managerReset
  split_ifs
  · exact h
  · exact ⟨h.count, h.bound, h.nodup, h.mem, h.nonzero, h.apart, h.active, h.asleep⟩

/-! A confirmation. -/

def Accepts (x : PendingCommand) (k : Confirmation) : Prop :=
  (x.confirmationId = commandResponseAny ∨ x.confirmationId = k.confirmationId) ∧ (k.token = 0 ∨ x.token = k.token)

variable {command : ℕ → PendingCommand} {l : List ℕ}

theorem not_accepts_of_confirmation
    (h : x.confirmationId ≠ commandResponseAny ∧ x.confirmationId ≠ k.confirmationId) : ¬Accepts x k :=
  fun ha => ha.1.elim h.1 h.2

theorem not_accepts_of_token (h : k.token ≠ 0 ∧ x.token ≠ k.token) : ¬Accepts x k :=
  fun ha => ha.2.elim h.1 h.2

theorem accepts_of_not (h1 : ¬(x.confirmationId ≠ commandResponseAny ∧ x.confirmationId ≠ k.confirmationId))
    (h2 : ¬(k.token ≠ 0 ∧ x.token ≠ k.token)) : Accepts x k :=
  ⟨or_iff_not_and_not.mpr h1, or_iff_not_and_not.mpr h2⟩

theorem findCandidate_of_not_accepts (found : Option ℕ) (h : ∀ d ∈ l, ¬Accepts (command d) k) :
    findCandidate command k found l = .ok found := by
  induction l with
  | nil => rfl
  | cons d l ih =>
    have hrest := ih fun e he => h e (List.mem_cons_of_mem d he)
    rw [findCandidate]
    split_ifs with h1 h2 h3 h4
    · exact hrest
    · exact hrest
    · exact absurd (accepts_of_not h1 h2) (h d List.mem_cons_self)
    · exact absurd (accepts_of_not h1 h2) (h d List.mem_cons_self)
    · exact absurd (accepts_of_not h1 h2) (h d List.mem_cons_self)

theorem findCandidate_error {found : Option ℕ} {e : ℤ} (h : findCandidate command k found l = .error e) :
    e = -rtEbusy := by
  induction l generalizing found with
  | nil => cases h
  | cons d l ih =>
    rw [findCandidate] at h
    split_ifs at h
    · exact ih h
    · exact ih h
    · exact (Except.error.inj h).symm
    · exact ih h

theorem findCandidate_some {found : Option ℕ} (h : findCandidate command k found l = .ok (some c)) :
    (found = some c ∧ (k.token = 0 → ∀ d ∈ l, ¬Accepts (command d) k)) ∨
    (c ∈ l ∧ Accepts (command c) k ∧
      (k.token = 0 → found = none ∧ ∀ d ∈ l, Accepts (command d) k → d = c)) := by
  induction l generalizing found with
  | nil =>
    cases h
    exact .inl ⟨rfl, fun _ d hd => absurd hd List.not_mem_nil⟩
  | cons d l ih =>
    have hskip (hd : ¬Accepts (command d) k) (h : findCandidate command k found l = .ok (some c)) :
        (found = some c ∧ (k.token = 0 → ∀ e ∈ d :: l, ¬Accepts (command e) k)) ∨
        (c ∈ d :: l ∧ Accepts (command c) k ∧
          (k.token = 0 → found = none ∧ ∀ e ∈ d :: l, Accepts (command e) k → e = c)) := by
      rcases ih h with ⟨hf, hnone⟩ | ⟨hc, ha, huniq⟩
      · left
        refine ⟨hf, fun h0 e he => ?_⟩
        cases List.mem_cons.mp he with
        | inl he => exact he ▸ hd
        | inr he => exact hnone h0 e he
      · right
        refine ⟨List.mem_cons_of_mem d hc, ha, fun h0 => ⟨(huniq h0).1, fun e he hae => ?_⟩⟩
        cases List.mem_cons.mp he with
        | inl he => exact absurd hae (he ▸ hd)
        | inr he => exact (huniq h0).2 e he hae
    rw [findCandidate] at h
    split_ifs at h with h1 h2 h3 h4
    · exact hskip (not_accepts_of_confirmation h1) h
    · exact hskip (not_accepts_of_token h2) h
    · -- a second command for a confirmation without a token
      cases h
      right
      exact ⟨List.mem_cons_self, accepts_of_not h1 h2, fun h0 => absurd h0 h4⟩
    · rcases ih h with ⟨hf, hnone⟩ | ⟨hc, ha, huniq⟩
      · cases hf
        have h0 : k.token = 0 := not_not.mp h4
        right
        refine ⟨List.mem_cons_self, accepts_of_not h1 h2, fun _ => ⟨?_, fun e he hae => ?_⟩⟩
        · cases found with
          | none => rfl
          | some e => exact absurd ⟨h0, rfl⟩ h3
        · cases List.mem_cons.mp he with
          | inl he => exact he
          | inr he => exact absurd hae (hnone h0 e he)
      · exact absurd (huniq (not_not.mp h4)).1 nofun

theorem commandComplete_cases (h : s.Inv) (k : Confirmation) :
    ((s.commandComplete k).1 = s ∧ (s.commandComplete k).2 ≠ rtEok) ∨
    (s.commandComplete k).2 = rtEok ∧ ∃ c ∈ s.pending, Accepts (s.command c) k ∧
      (k.token = 0 → ∀ d ∈ s.pending, Accepts (s.command d) k → d = c) ∧
      (s.commandComplete k).1 = (s.settle c ((s.command c).deliver k)).completionDone c := by
  unfold commandComplete
  by_cases hk : k.responseLength ≠ 0 ∧ k.response = none
  · rw [if_pos hk]
    exact .inl ⟨rfl, show -rtEinval ≠ rtEok by decide⟩
  · rw [if_neg hk]
    cases hf : findCandidate s.command k none s.pending with
    | error e =>
      rw [findCandidate_error hf]
      exact .inl ⟨rfl, show -rtEbusy ≠ rtEok by decide⟩
    | ok found =>
      cases found with
      | none => exact .inl ⟨rfl, show -rtEempty ≠ rtEok by decide⟩
      | some c =>
        rcases findCandidate_some hf with ⟨hn, -⟩ | ⟨hc, ha, huniq⟩
        · cases hn
        · right
          refine ⟨rfl, c, hc, ha, fun h0 => (huniq h0).2, ?_⟩
          change ((s.setCommand c ((s.command c).deliver k)).removeLocked c).completionDone c = _
          rw [removeLocked_setCommand]
          exact (h.mem c).mp hc

theorem commandComplete_stale (h : ∀ d ∈ s.pending, ¬Accepts (s.command d) k) : (s.commandComplete k).1 = s := by
  unfold commandComplete
  rw [findCandidate_of_not_accepts none h]
  split_ifs <;> rfl

theorem Inv.commandComplete (h : s.Inv) (k : Confirmation) : (s.commandComplete k).1.Inv := by
  rcases commandComplete_cases h k with ⟨he, -⟩ | ⟨-, c, hc, -, -, he⟩
  · rw [he]
    exact h
  · rw [he]
    exact h.deliver hc _

/-! The runs. -/

theorem Inv.managerInit {m : BitVec 16} (h : managerInit m = some s) : s.Inv := by
  unfold CommandManager.managerInit at h
  split_ifs at h
  cases h
  refine ⟨rfl, Nat.zero_le _, List.nodup_nil, fun c => ?_, nofun, nofun, nofun, nofun⟩
  exact ⟨nofun, nofun⟩

theorem Inv.step {e : CommandEvent} (h : s.Inv) (hs : s.step e = some s') : s'.Inv := by
  cases e with
  | execute c args =>
    rw [CommandManager.step] at hs
    split_ifs at hs with hc
    exact h.commandExecute hc hs
  | pushed c result =>
    rw [CommandManager.step] at hs
    split_ifs at hs
    cases hs
    exact h.commandPushed c result
  | wake c =>
    rw [CommandManager.step] at hs
    split_ifs at hs with hc
    cases hs
    apply h.setPc
    intro hm
    rw [h.asleep c hm] at hc
    exact absurd hc.2 nofun
  | expire c waitResult =>
    rw [CommandManager.step] at hs
    split_ifs at hs
    cases hs
    exact h.setPc fun _ => ⟨nofun, nofun⟩
  | timeout c =>
    rw [CommandManager.step] at hs
    cases hp : s.pc c with
    | expired waitResult =>
      rw [hp] at hs
      cases hs
      exact h.commandTimeout c waitResult
    | _ => simp [hp] at hs
  | complete k =>
    cases hs
    exact h.commandComplete k
  | fail status =>
    cases hs
    exact h.managerFail status
  | reset =>
    cases hs
    exact h.managerReset

/-- The command has its result, which is the one that the call returns. -/
structure Settled (s : CommandManager) (c : ℕ) (x : PendingCommand) : Prop where
  record : s.command c = x
  gone : c ∉ s.pending
  started : s.pc c ≠ .idle
  answer : ∀ r, s.pc c = .returned r → r = x.result

theorem Settled.setPc (h : s.Settled c x) (hp : d = c → p ≠ .idle ∧ ∀ r, p = .returned r → r = x.result) :
    (s.setPc d p).Settled c x := by
  have hpc : (s.setPc d p).pc c = if c = d then p else s.pc c := Function.update_apply _ _ _ _
  by_cases hdc : c = d
  · rw [if_pos hdc] at hpc
    refine ⟨h.record, h.gone, ?_, ?_⟩
    · rw [hpc]
      exact (hp hdc.symm).1
    · rw [hpc]
      exact (hp hdc.symm).2
  · rw [if_neg hdc] at hpc
    refine ⟨h.record, h.gone, ?_, ?_⟩
    · rw [hpc]
      exact h.started
    · rw [hpc]
      exact h.answer

theorem Settled.settle {y : PendingCommand} (h : s.Settled c x) (hd : d ∈ s.pending) : (s.settle d y).Settled c x := by
  have hcd : c ≠ d := fun hcd => h.gone (hcd ▸ hd)
  refine ⟨?_, ?_, h.started, h.answer⟩
  · rw [settle_command_of_ne hcd]
    exact h.record
  · intro hc
    exact h.gone (List.mem_of_mem_erase hc)

theorem Settled.deliver {y : PendingCommand} (h : s.Settled c x) (hd : d ∈ s.pending) :
    ((s.settle d y).completionDone d).Settled c x :=
  have h' := h.settle (y := y) hd
  ⟨h'.record, h'.gone, h'.started, h'.answer⟩

theorem Settled.commandTimeout (hi : s.Inv) (h : s.Settled c x) (d : ℕ) (waitResult : ℤ) :
    (s.commandTimeout d waitResult).Settled c x := by
  rcases commandTimeout_eq waitResult hi with ⟨hd, he⟩ | ⟨hd, he⟩
  · rw [he]
    apply (h.settle hd).setPc
    intro hdc
    exact absurd (hdc ▸ hd) h.gone
  · rw [he]
    apply h.setPc
    rintro rfl
    refine ⟨nofun, fun r hr => ?_⟩
    cases hr
    rw [h.record]

theorem Settled.commandExecute (h : s.Settled c x) (hd : s.pc d = .idle) {args : ExecuteArgs}
    (hs : s.commandExecute d args = some s') : s'.Settled c x := by
  have hcd : c ≠ d := fun hcd => h.started (hcd ▸ hd)
  unfold CommandManager.commandExecute at hs
  split_ifs at hs
  · cases hs
    exact h.setPc fun hdc => absurd hdc.symm hcd
  · cases hs
    exact h.setPc fun hdc => absurd hdc.symm hcd
  · cases hs
    exact h.setPc fun hdc => absurd hdc.symm hcd
  · obtain ⟨t, -, rfl⟩ := Option.map_eq_some_iff.mp hs
    have hpc := h.setPc (d := d) (p := .pushing) fun hdc => absurd hdc.symm hcd
    refine ⟨?_, ?_, hpc.started, hpc.answer⟩
    · change Function.update s.command d _ c = x
      rw [Function.update_of_ne hcd]
      exact h.record
    · intro hc
      cases List.mem_append.mp hc with
      | inl hc => exact h.gone hc
      | inr hc => exact hcd (List.mem_singleton.mp hc)

theorem Settled.failAll (status : ℤ) {l : List ℕ} (hi : s.Inv) (h : s.Settled c x) (hl : s.pending = l) :
    (l.foldl (failOne status) s).Settled c x := by
  induction l generalizing s with
  | nil => exact h
  | cons d l ih =>
    have hd : d ∈ s.pending := by
      rw [hl]
      exact List.mem_cons_self
    rw [List.foldl_cons, failOne_eq status hi hd]
    apply ih (hi.deliver hd _) (h.deliver hd)
    change s.pending.erase d = l
    rw [hl, List.erase_cons_head]

theorem Settled.step {e : CommandEvent} (hi : s.Inv) (h : s.Settled c x) (hs : s.step e = some s') :
    s'.Settled c x := by
  cases e with
  | execute d args =>
    rw [CommandManager.step] at hs
    split_ifs at hs with hd
    exact h.commandExecute hd hs
  | pushed d result =>
    rw [CommandManager.step] at hs
    split_ifs at hs
    cases hs
    rw [commandPushed_eq]
    split_ifs
    · exact h.commandTimeout hi d result
    · exact h.setPc fun _ => ⟨nofun, nofun⟩
  | wake d =>
    rw [CommandManager.step] at hs
    split_ifs at hs
    cases hs
    apply h.setPc
    rintro rfl
    refine ⟨nofun, fun r hr => ?_⟩
    cases hr
    rw [h.record]
  | expire d waitResult =>
    rw [CommandManager.step] at hs
    split_ifs at hs
    cases hs
    exact h.setPc fun _ => ⟨nofun, nofun⟩
  | timeout d =>
    rw [CommandManager.step] at hs
    cases hp : s.pc d with
    | expired waitResult =>
      rw [hp] at hs
      cases hs
      exact h.commandTimeout hi d waitResult
    | _ => simp [hp] at hs
  | complete k =>
    cases hs
    rcases commandComplete_cases hi k with ⟨he, -⟩ | ⟨-, d, hd, -, -, he⟩
    · rw [he]
      exact h
    · rw [he]
      exact h.deliver hd
  | fail status =>
    cases hs
    unfold managerFail
    split_ifs
    · exact h
    · have hf : ({ s with state := .failed } : CommandManager).Settled c x :=
        ⟨h.record, h.gone, h.started, h.answer⟩
      exact hf.failAll status ⟨hi.count, hi.bound, hi.nodup, hi.mem, hi.nonzero, hi.apart, hi.active, hi.asleep⟩ rfl
  | reset =>
    cases hs
    unfold managerReset
    split_ifs
    · exact h
    · exact ⟨h.record, h.gone, h.started, h.answer⟩

/-- What a confirmation does. -/
def Delivers (s : CommandManager) (k : Confirmation) : Prop :=
  ((s.commandComplete k).1 = s ∧ (s.commandComplete k).2 ≠ rtEok) ∨
  ∃ c ∈ s.pending, Accepts (s.command c) k ∧ (k.token = 0 → ∀ d ∈ s.pending, Accepts (s.command d) k → d = c) ∧
    (s.commandComplete k).1.command c = { (s.command c).deliver k with pending := false } ∧
    c ∉ (s.commandComplete k).1.pending ∧
    ∀ d ≠ c, (s.commandComplete k).1.command d = s.command d ∧
      (d ∈ (s.commandComplete k).1.pending ↔ d ∈ s.pending)

theorem Inv.delivers (h : s.Inv) (k : Confirmation) : s.Delivers k := by
  rcases commandComplete_cases h k with hsame | ⟨-, c, hc, ha, huniq, he⟩
  · exact .inl hsame
  · refine .inr ⟨c, hc, ha, huniq, ?_⟩
    rw [he]
    refine ⟨settle_command_self, h.nodup.not_mem_erase, fun d hd => ⟨settle_command_of_ne hd, ?_⟩⟩
    exact List.mem_erase_of_ne hd

/-- The calls, the confirmations, the timeouts, the failures and the resets in any order. The result that
a call has been given before it returns stays, and is the one that it returns. -/
theorem command_pairing {m : BitVec 16} {s₀ s : CommandManager} {es : List CommandEvent}
    (h0 : managerInit m = some s₀) (h : run step s₀ es = some s) :
    (s.pendingCount.toNat = s.pending.length ∧ s.pendingCount ≤ s.maxPending) ∧
    (∀ c ∈ s.pending, (s.command c).token ≠ 0) ∧
    (∀ c ∈ s.pending, ∀ d ∈ s.pending, (s.command c).token = (s.command d).token → c = d) ∧
    (∀ k, s.Delivers k) ∧
    (∀ k : Confirmation, k.token ≠ 0 → (∀ c ∈ s.pending, (s.command c).token ≠ k.token) →
      (s.commandComplete k).1 = s) ∧
    (∀ c, (s.pc c).Active → c ∉ s.pending → ∀ es' s', run step s es' = some s' →
      s'.command c = s.command c ∧ ∀ r, s'.pc c = .returned r → r = (s.command c).result) ∧
    ∀ c args, s.pc c = .idle → ∃ t, s.step (.execute c args) = some t := by
  have hi : s.Inv := run_invariant Inv (fun _ _ _ hi hs => hi.step hs) h (Inv.managerInit h0)
  refine ⟨⟨hi.count, ?_⟩, hi.nonzero, hi.apart, hi.delivers, ?_, ?_, ?_⟩
  · rw [BitVec.le_def, hi.count]
    exact hi.bound
  · intro k hk hstale
    apply commandComplete_stale
    intro d hd
    exact not_accepts_of_token ⟨hk, hstale d hd⟩
  · intro c ha hc es' s' h'
    have hset : s.Settled c (s.command c) := ⟨rfl, hc, ha.1, fun r hr => absurd hr (ha.2 r)⟩
    have hboth := run_invariant (fun t => t.Inv ∧ t.Settled c (s.command c))
      (fun _ _ _ hb hs => ⟨hb.1.step hs, hb.2.step hb.1 hs⟩) h' ⟨hi, hset⟩
    exact ⟨hboth.2.record, hboth.2.answer⟩
  · -- the search for a token ends
    intro c args hc
    rw [step, if_pos hc]
    exact hi.commandExecute_total c args

def scanArgs : ExecuteArgs := ⟨6, 7, none, 0, some [0, 0], 2, 100⟩

/-- A late confirmation after the timeout. -/
theorem command_pairing_late : ∃ s₀ s, managerInit 1 = some s₀ ∧
    run step s₀ [.execute 0 scanArgs, .pushed 0 rtEok, .expire 0 (-rtEtimeout), .timeout 0] = some s ∧
    s.pc 0 = .returned (-rtEtimeout) ∧ (s.commandComplete ⟨1, 7, rtEok, none, 0⟩).1 = s := by
  have hrun : ((managerInit 1).any fun s₀ =>
      (run step s₀ [.execute 0 scanArgs, .pushed 0 rtEok, .expire 0 (-rtEtimeout), .timeout 0]).any fun s =>
        s.pc 0 = .returned (-rtEtimeout) ∧ s.pending = []) = true := by
    decide
  obtain ⟨s₀, h0, hrun⟩ := (Option.any_eq_true _ _).mp hrun
  obtain ⟨s, hs, hp⟩ := (Option.any_eq_true _ _).mp hrun
  obtain ⟨hpc, hnil⟩ := of_decide_eq_true hp
  refine ⟨s₀, s, h0, hs, hpc, ?_⟩
  apply (command_pairing h0 hs).2.2.2.2.1 _ (by decide)
  rw [hnil]
  exact nofun

/-- A confirmation without a token goes to a command whose token it does not have. -/
theorem untagged_confirmation : ¬ ∀ (m : BitVec 16) (s₀ s : CommandManager) (es : List CommandEvent) (k : Confirmation)
    (c : ℕ), managerInit m = some s₀ → run step s₀ es = some s → c ∈ s.pending →
    c ∉ (s.commandComplete k).1.pending → (s.command c).token = k.token := by
  intro h
  have hrun : ((managerInit 1).any fun s₀ => (run step s₀ [.execute 0 scanArgs]).any fun s =>
      0 ∈ s.pending ∧ 0 ∉ (s.commandComplete ⟨0, 7, rtEok, none, 0⟩).1.pending ∧ (s.command 0).token = 1) = true := by
    decide
  obtain ⟨s₀, h0, hrun⟩ := (Option.any_eq_true _ _).mp hrun
  obtain ⟨s, hs, hp⟩ := (Option.any_eq_true _ _).mp hrun
  obtain ⟨hc, hgone, htoken⟩ := of_decide_eq_true hp
  have hzero := h 1 s₀ s _ _ 0 h0 hs hc hgone
  rw [htoken] at hzero
  exact absurd hzero (by decide)

end CommandManager

end RtSmart
