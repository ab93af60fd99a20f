import RtSmart.Lwp.ChannelClose

/-!
The requests on their way to a receiver: no request is received twice, and the request of the thread a
channel has to reply to has reached a receiver.
-/

namespace RtSmart

namespace ChanSys

open RtChannel Lib

variable {max : ℕ} {serves : ℕ → ℕ → Prop} {s s' : ChanSys} {owner : ℕ → Owner} {c t p k n : ℕ} {l : List ℕ} {e : Event}

/-- The slot `p` holds a request that is not yet received. -/
def Transit (s : ChanSys) (p : ℕ) : Prop :=
  (∃ c, p ∈ (s.chan c).waitMsg) ∨ ∃ r, (s.thread r).call = some .recv ∧ (s.thread r).msgRet = some p

structure Tagged (s : ChanSys) : Prop where
  lt : ∀ p, s.Transit p → (s.msgs p).tag < s.sends
  inj : ∀ p q, s.Transit p → s.Transit q → (s.msgs p).tag = (s.msgs q).tag → p = q
  fresh : ∀ p, s.Transit p → (s.msgs p).tag ∉ s.received
  received_lt : ∀ k ∈ s.received, k < s.sends
  nodup : s.received.Nodup

theorem Tagged.frame (h : s.Tagged) (ht : ∀ p, s'.Transit p → s.Transit p ∧ s'.msgs p = s.msgs p)
    (hs : s.sends ≤ s'.sends) (hr : s'.received = s.received) : s'.Tagged := by
  constructor
  · intro p hp
    rw [(ht p hp).2]
    exact (h.lt p (ht p hp).1).trans_le hs
  · intro p q hp hq
    rw [(ht p hp).2, (ht q hq).2]
    exact h.inj p q (ht p hp).1 (ht q hq).1
  · intro p hp
    rw [(ht p hp).2, hr]
    exact h.fresh p (ht p hp).1
  · rw [hr]
    intro k hk
    exact (h.received_lt k hk).trans_le hs
  · rw [hr]; exact h.nodup

theorem Tagged.send (h : s.Tagged) (htag : (s'.msgs p).tag = s.sends) (hs : s'.sends = s.sends + 1)
    (hr : s'.received = s.received) (ht : ∀ q, s'.Transit q → q = p ∨ s.Transit q ∧ s'.msgs q = s.msgs q) :
    s'.Tagged := by
  -- the requests already on their way have smaller tags
  have hlt : ∀ q, s'.Transit q → q ≠ p → (s'.msgs q).tag < s.sends := by
    intro q hq hne
    obtain ⟨hq, hm⟩ := (ht q hq).resolve_left hne
    rw [hm]
    exact h.lt q hq
  constructor
  · intro q hq
    rw [hs]
    by_cases hqp : q = p
    · rw [hqp, htag]
      omega
    · have := hlt q hq hqp
      omega
  · intro q q' hq hq' heq
    by_cases hqp : q = p <;> by_cases hqp' : q' = p
    · rw [hqp, hqp']
    · have := hlt q' hq' hqp'
      rw [← heq, hqp, htag] at this
      omega
    · have := hlt q hq hqp
      rw [heq, hqp', htag] at this
      omega
    · obtain ⟨h1, hm1⟩ := (ht q hq).resolve_left hqp
      obtain ⟨h2, hm2⟩ := (ht q' hq').resolve_left hqp'
      rw [hm1, hm2] at heq
      exact h.inj q q' h1 h2 heq
  · intro q hq hmem
    rw [hr] at hmem
    rcases ht q hq with rfl | ⟨h1, hm⟩
    · have := h.received_lt _ hmem
      omega
    · rw [hm] at hmem
      exact h.fresh q h1 hmem
  · intro k hk
    rw [hr] at hk
    have := h.received_lt k hk
    omega
  · rw [hr]; exact h.nodup

theorem Tagged.receive (h : s.Tagged) (hp : s.Transit p) (hm : s'.msgs = s.msgs) (hs : s'.sends = s.sends)
    (hr : s'.received = (s.msgs p).tag :: s.received) (ht : ∀ q, s'.Transit q → q ≠ p ∧ s.Transit q) : s'.Tagged := by
  constructor
  · intro q hq
    rw [hm, hs]
    exact h.lt q (ht q hq).2
  · intro q q' hq hq'
    rw [hm]
    exact h.inj q q' (ht q hq).2 (ht q' hq').2
  · intro q hq hmem
    rw [hm, hr, List.mem_cons] at hmem
    obtain ⟨hne, hq⟩ := ht q hq
    rcases hmem with heq | hmem
    · exact hne (h.inj q p hq hp heq)
    · exact h.fresh q hq hmem
  · intro k hk
    rw [hr, List.mem_cons] at hk
    rw [hs]
    rcases hk with rfl | hk
    · exact h.lt p hp
    · exact h.received_lt k hk
  · rw [hr]
    exact List.nodup_cons.mpr ⟨h.fresh p hp, h.nodup⟩

theorem Slots.not_transit (h : s.Slots max owner) (ha : s.Alloc max p l n) : ¬ s.Transit p := by
  obtain ⟨-, hp⟩ := h.alloc ha
  rintro (⟨c, hc⟩ | ⟨r, -, hr⟩)
  · rw [← h.queued] at hc
    grind
  · rw [← h.held] at hr
    grind

theorem Slots.not_held_of_queued (h : s.Slots max owner) (hp : p ∈ (s.chan c).waitMsg) (r : ℕ) :
    (s.thread r).msgRet ≠ some p := by
  rw [← h.queued] at hp
  rw [Ne, ← h.held]
  grind

theorem Slots.queued_unique (h : s.Slots max owner) {d : ℕ} (hp : p ∈ (s.chan c).waitMsg) (hd : p ∈ (s.chan d).waitMsg) :
    d = c := by
  rw [← h.queued] at hp hd
  grind

theorem Slots.unqueued (h : s.Slots max owner) {m : ℕ} (hm : (s.chan c).waitMsg = m :: l) (d q : ℕ) {ch : RtChannel}
    (hch : ch.waitMsg = l) (hq : q ∈ (Function.update s.chan c ch d).waitMsg) : q ≠ m ∧ s.Transit q := by
  have hmem : m ∈ (s.chan c).waitMsg := by rw [hm]; exact List.mem_cons_self
  by_cases hd : d = c
  · subst hd
    have hnd := h.queued_nodup d
    rw [hm, List.nodup_cons] at hnd
    rw [Function.update_self, hch] at hq
    refine ⟨fun he => hnd.1 (he ▸ hq), Or.inl ⟨d, ?_⟩⟩
    rw [hm]
    exact List.mem_cons_of_mem m hq
  · rw [Function.update_of_ne hd] at hq
    exact ⟨fun he => hd (h.queued_unique hmem (he ▸ hq)), Or.inl ⟨d, hq⟩⟩

theorem Slots.held_unique (h : s.Slots max owner) {u : ℕ} (hp : (s.thread t).msgRet = some p)
    (hu : (s.thread u).msgRet = some p) : u = t := by
  rw [← h.held] at hp hu
  grind

theorem Transit.mono (hw : ∀ d, ∀ q ∈ (s'.chan d).waitMsg, q ∈ (s.chan d).waitMsg)
    (hh : ∀ r q, (s'.thread r).call = some .recv → (s'.thread r).msgRet = some q →
      (s.thread r).call = some .recv ∧ (s.thread r).msgRet = some q) (hp : s'.Transit p) : s.Transit p := by
  rcases hp with ⟨d, hd⟩ | ⟨r, hr, hq⟩
  · exact Or.inl ⟨d, hw d p hd⟩
  · exact Or.inr ⟨r, hh r p hr hq⟩

theorem Tagged.quiet (h : s.Tagged) (hw : ∀ d, ∀ q ∈ (s'.chan d).waitMsg, q ∈ (s.chan d).waitMsg)
    (hh : ∀ r q, (s'.thread r).call = some .recv → (s'.thread r).msgRet = some q →
      (s.thread r).call = some .recv ∧ (s.thread r).msgRet = some q)
    (hm : ∀ q, s.Transit q → s'.msgs q = s.msgs q) (hs : s.sends ≤ s'.sends) (hr : s'.received = s.received) :
    s'.Tagged := by
  apply h.frame
  · intro q hq
    have hq := hq.mono hw hh
    exact ⟨hq, hm q hq⟩
  · exact hs
  · exact hr

theorem mem_waitMsg_update {ch : RtChannel} (hx : ∀ q ∈ ch.waitMsg, q ∈ (s.chan c).waitMsg) (d q : ℕ)
    (hq : q ∈ (Function.update s.chan c ch d).waitMsg) : q ∈ (s.chan d).waitMsg := by
  by_cases hd : d = c
  · subst hd
    rw [Function.update_self] at hq
    exact hx q hq
  · rwa [Function.update_of_ne hd] at hq

theorem held_update {x : ChanThread} (hx : x.call = some .recv → ∀ q, x.msgRet = some q →
    (s.thread t).call = some .recv ∧ (s.thread t).msgRet = some q) (r q : ℕ)
    (hr : (Function.update s.thread t x r).call = some .recv) (hq : (Function.update s.thread t x r).msgRet = some q) :
    (s.thread r).call = some .recv ∧ (s.thread r).msgRet = some q := by
  by_cases hrt : r = t
  · subst hrt
    rw [Function.update_self] at hr hq
    exact hx hr q hq
  · rw [Function.update_of_ne hrt] at hr hq
    exact ⟨hr, hq⟩

theorem held_woken {f : ℕ → ChanThread} {r : ℕ} {x : ChanThread} (hx : x.msgRet = some p)
    (hf : ∀ u q, (f u).call = some .recv → (f u).msgRet = some q →
      (s.thread u).call = some .recv ∧ (s.thread u).msgRet = some q) (u q : ℕ)
    (hu : (Function.update f r x u).call = some .recv) (hq : (Function.update f r x u).msgRet = some q) :
    q = p ∨ (s.thread u).call = some .recv ∧ (s.thread u).msgRet = some q := by
  by_cases hur : u = r
  · rw [hur, Function.update_self, hx] at hq
    exact Or.inl (Option.some.inj hq).symm
  · rw [Function.update_of_ne hur] at hu hq
    exact Or.inr (hf u q hu hq)

theorem Slots.msgs_transit (hsl : s.Slots max owner) (ha : s.Alloc max p l n) (m : RtIpcMsg) (q : ℕ) (hq : s.Transit q) :
    Function.update s.msgs p m q = s.msgs q := by
  apply Function.update_of_ne
  rintro rfl
  exact hsl.not_transit ha hq

theorem Tagged.sent (h : s.Tagged) (hsl : s.Slots max owner) (ha : s.Alloc max p l n) {m : RtIpcMsg}
    (hm : s'.msgs = Function.update s.msgs p m) (htag : m.tag = s.sends)
    (hw : ∀ d, ∀ q ∈ (s'.chan d).waitMsg, q = p ∨ q ∈ (s.chan d).waitMsg)
    (hh : ∀ r q, (s'.thread r).call = some .recv → (s'.thread r).msgRet = some q →
      q = p ∨ (s.thread r).call = some .recv ∧ (s.thread r).msgRet = some q)
    (hs : s'.sends = s.sends + 1) (hr : s'.received = s.received) : s'.Tagged := by
  apply h.send (p := p)
  · rw [hm, Function.update_self, htag]
  · exact hs
  · exact hr
  · intro q hq
    rw [hm]
    have hold : q = p ∨ s.Transit q := by
      rcases hq with ⟨d, hd⟩ | ⟨r, hr, hq⟩
      · exact (hw d q hd).imp_right fun hd => Or.inl ⟨d, hd⟩
      · exact (hh r q hr hq).imp_right fun hq => Or.inr ⟨r, hq⟩
    exact hold.imp_right fun hq => ⟨hq, hsl.msgs_transit ha m q hq⟩

theorem mem_waitMsg_push (d q : ℕ) {ch : RtChannel} (hx : ch.waitMsg = (s.chan c).waitMsg ++ [p])
    (hq : q ∈ (Function.update s.chan c ch d).waitMsg) : q = p ∨ q ∈ (s.chan d).waitMsg := by
  by_cases hd : d = c
  · subst hd
    rw [Function.update_self, hx, List.mem_append, List.mem_singleton] at hq
    exact hq.symm
  · rw [Function.update_of_ne hd] at hq
    exact Or.inr hq

theorem Tagged.move (h : s.Tagged) (hc : s.Coherent) (hsl : s.Slots max owner) (hm : Move max serves s s') :
    s'.Tagged := by
  have hsender : ∀ {x : ChanThread}, x.call = some .sendRecv → x.call ≠ some .recv := by
    intro x hx
    rw [hx]
    decide
  cases hm with
  | stay => exact h
  | ref c r =>
    apply h.quiet
    · exact mem_waitMsg_update fun _ hq => hq
    · exact fun _ _ hr hq => ⟨hr, hq⟩
    · exact fun _ _ => rfl
    · exact le_rfl
    · rfl
  | create c hcr =>
    apply h.quiet
    · exact mem_waitMsg_update fun _ hq => absurd hq List.not_mem_nil
    · exact fun _ _ hr hq => ⟨hr, hq⟩
    · exact fun _ _ => rfl
    · exact le_rfl
    · rfl
  | churn t p l n m ha ht =>
    apply h.quiet
    · exact fun _ _ hq => hq
    · exact held_update fun hx _ hq => ⟨hx, hq⟩
    · exact hsl.msgs_transit ha m
    · exact Nat.le_succ _
    · rfl
  | queue c p l n m ha hal hs hn hm =>
    apply h.sent hsl ha rfl hm
    · exact fun d q => mem_waitMsg_push d q rfl
    · exact fun _ _ hr hq => Or.inr ⟨hr, hq⟩
    · rfl
    · rfl
  | queueWait c t p l n m tm ha hal hs ht hn hsn hm htm =>
    apply h.sent hsl ha rfl hm
    · exact fun d q => mem_waitMsg_push d q rfl
    · intro r q hr hq
      exact Or.inr (held_update (fun hx => absurd hx (hsender rfl)) r q hr hq)
    · rfl
    · rfl
  | hand c r p l n m ha hal hr hn hm =>
    have hb := hc.suspended_of_receiver hal hr
    apply h.sent hsl ha rfl hm
    · intro d q hq
      right
      apply mem_waitMsg_update ?_ d q hq
      exact fun _ hq => hq
    · exact held_woken rfl fun _ _ hu hq => ⟨hu, hq⟩
    · rfl
    · rfl
  | handWait c t r p l n m tm ha hal hr ht hn hsn hm htm =>
    apply h.sent hsl ha rfl hm
    · intro d q hq
      right
      apply mem_waitMsg_update ?_ d q hq
      exact fun _ hq => hq
    · exact held_woken rfl (held_update fun hx => absurd hx (hsender rfl))
    · rfl
    · rfl
  | take c v m l hal hs hv hsv hm hn | takeReply c v m u l w hal hs hv hsv hm hn hw =>
    have hmem : m ∈ (s.chan c).waitMsg := by rw [hm]; exact List.mem_cons_self
    apply h.receive (p := m) (Or.inl ⟨c, hmem⟩)
    · rfl
    · rfl
    · rfl
    · rintro q (⟨d, hd⟩ | ⟨r, hr, hq⟩)
      · exact hsl.unqueued hm d q rfl hd
      · exact ⟨fun he => hsl.not_held_of_queued hmem r (he ▸ hq), Or.inr ⟨r, hr, hq⟩⟩
  | listen c t tm hal hs hm ht hsv htm =>
    have hnone := (hc.settled t).outside ht.2
    apply h.quiet
    · exact mem_waitMsg_update fun _ hq => hq
    · apply held_update
      intro _ q hq
      change (s.thread t).msgRet = some q at hq
      rw [hnone] at hq
      cases hq
    · exact fun _ _ => rfl
    · exact le_rfl
    · rfl
  | answer c v u p l n m ha hal hv hsv hu =>
    have hb := ((hc.linked c hal).sender u).mp (Or.inl hu)
    apply h.quiet
    · exact mem_waitMsg_update fun _ hq => hq
    · exact held_update fun hx => absurd hx (hsender hb.2.1)
    · exact hsl.msgs_transit ha m
    · exact le_rfl
    · rfl
  | fail t hs hcall he | failRecv t hs hcall he | complete t p hs hcall hp =>
    apply h.quiet
    · exact fun _ _ hq => hq
    · exact held_update fun hx => by cases hx
    · exact fun _ _ => rfl
    · exact le_rfl
    · rfl
  | receive t p hs hcall hp =>
    apply h.receive (p := p) (Or.inr ⟨t, hcall, hp⟩)
    · rfl
    · rfl
    · rfl
    · rintro q (⟨d, hd⟩ | ⟨r, hr, hq⟩)
      · exact ⟨fun he => hsl.not_held_of_queued (he ▸ hd) t hp, Or.inl ⟨d, hd⟩⟩
      · by_cases hrt : r = t
        · subst hrt
          simp at hq
        · simp only [Function.update_of_ne hrt] at hr hq
          exact ⟨fun he => hrt (hsl.held_unique hp (he ▸ hq)), Or.inr ⟨r, hr, hq⟩⟩
  | giveUpReply t c e he ht hr | unlisten t c e he ht =>
    apply h.quiet
    · exact mem_waitMsg_update fun _ hq => hq
    · exact held_update fun hx _ hq => ⟨hx, hq⟩
    · exact fun _ _ => rfl
    · exact le_rfl
    · rfl
  | giveUpQueued t c m e he ht hal hr hm hn hsn =>
    apply h.quiet
    · exact mem_waitMsg_update fun _ hq => List.mem_of_mem_erase hq
    · exact held_update fun hx _ hq => ⟨hx, hq⟩
    · exact fun _ _ => rfl
    · exact le_rfl
    · rfl
  | giveUpDead t c e he ht hdead =>
    apply h.quiet
    · exact fun _ _ hq => hq
    · exact held_update fun hx _ hq => ⟨hx, hq⟩
    · exact fun _ _ => rfl
    · exact le_rfl
    · rfl

theorem Tagged.close (h : s.Tagged) (c : ℕ) : (s.closed c).Tagged := by
  apply h.quiet
  · exact mem_waitMsg_update fun _ hq => absurd hq List.not_mem_nil
  · intro r q hr hq
    simp only [closed] at hr hq
    split at hr
    case isTrue hmem =>
      rw [if_pos hmem] at hq
      exact ⟨hr, hq⟩
    case isFalse hmem =>
      rw [if_neg hmem] at hq
      exact ⟨hr, hq⟩
  · exact fun _ _ => rfl
  · exact le_rfl
  · rfl

theorem tagged_init : init.Tagged := by
  have hnone : ∀ p, ¬ init.Transit p := by
    rintro p (⟨c, hc⟩ | ⟨r, hr, -⟩)
    · cases hc
    · cases hr
  constructor
  · exact fun p hp => absurd hp (hnone p)
  · exact fun p q hp => absurd hp (hnone p)
  · exact fun p hp => absurd hp (hnone p)
  · exact fun k hk => absurd hk List.not_mem_nil
  · exact List.nodup_nil

/-- The request `k` has been received, or a receiver holds it. -/
def Delivered (s : ChanSys) (k : ℕ) : Prop :=
  k ∈ s.received ∨ ∃ r p, (s.thread r).call = some .recv ∧ (s.thread r).msgRet = some p ∧ (s.msgs p).tag = k

def Answerable (s : ChanSys) : Prop :=
  ∀ c t, (s.chan c).alive = true → (s.chan c).reply = some t → s.Delivered (s.thread t).tag

theorem Delivered.mono (h : s.Delivered k) (hrec : ∀ k ∈ s.received, k ∈ s'.received)
    (hh : ∀ r p, (s.thread r).call = some .recv → (s.thread r).msgRet = some p → (s.msgs p).tag ∈ s'.received ∨
      (s'.thread r).call = some .recv ∧ (s'.thread r).msgRet = some p ∧ s'.msgs p = s.msgs p) :
    s'.Delivered k := by
  rcases h with h | ⟨r, p, hr, hp, rfl⟩
  · exact Or.inl (hrec k h)
  · rcases hh r p hr hp with h | ⟨hr, hp, hm⟩
    · exact Or.inl h
    · exact Or.inr ⟨r, p, hr, hp, by rw [hm]⟩

theorem hold_update {x : ChanThread} (hx : (s.thread t).call = some .recv → ∀ q, (s.thread t).msgRet = some q →
    x.call = some .recv ∧ x.msgRet = some q) (r q : ℕ) (hr : (s.thread r).call = some .recv)
    (hq : (s.thread r).msgRet = some q) :
    (Function.update s.thread t x r).call = some .recv ∧ (Function.update s.thread t x r).msgRet = some q := by
  by_cases hrt : r = t
  · subst hrt
    rw [Function.update_self]
    exact hx hr q hq
  · rw [Function.update_of_ne hrt]
    exact ⟨hr, hq⟩

theorem Delivered.move (hc : s.Coherent) (hsl : s.Slots max owner) (hm : Move max serves s s') (h : s.Delivered k) :
    s'.Delivered k := by
  -- a free thread and a suspended one hold nothing
  have hfree : ∀ {t}, s.free t → ∀ {P : Prop}, (s.thread t).call = some .recv → P := by
    intro t ht P hcall
    rw [ht.2] at hcall
    cases hcall
  have hnone : ∀ {t q}, (s.thread t).suspended = true → ∀ {P : Prop}, (s.thread t).msgRet = some q → P := by
    intro t q ht P hq
    rw [((hc.settled t).blocked ht).2] at hq
    cases hq
  have hother : ∀ {t}, (s.thread t).call = some .sendRecv → ∀ {P : Prop}, (s.thread t).call = some .recv → P := by
    intro t ht P hcall
    rw [ht] at hcall
    cases hcall
  have hslot : ∀ {p l n}, s.Alloc max p l n → ∀ (m : RtIpcMsg) (r q : ℕ), (s.thread r).call = some .recv →
      (s.thread r).msgRet = some q → Function.update s.msgs p m q = s.msgs q := by
    intro p l n ha m r q hr hq
    exact hsl.msgs_transit ha m q (Or.inr ⟨r, hr, hq⟩)
  cases hm with
  | stay => exact h
  | ref c r => exact h
  | create c hcr => exact h
  | churn t p l n m ha ht =>
    refine h.mono (fun _ hk => hk) ?_
    intro r q hr hq
    obtain ⟨h1, h2⟩ := hold_update (fun hx _ hq => hfree ht hx) r q hr hq
    exact Or.inr ⟨h1, h2, hslot ha m r q hr hq⟩
  | queue c p l n m ha hal hs hn hm =>
    refine h.mono (fun _ hk => hk) ?_
    intro r q hr hq
    exact Or.inr ⟨hr, hq, hslot ha m r q hr hq⟩
  | queueWait c t p l n m tm ha hal hs ht hn hsn hm htm =>
    refine h.mono (fun _ hk => hk) ?_
    intro r q hr hq
    obtain ⟨h1, h2⟩ := hold_update (fun hx _ _ => hfree ht hx) r q hr hq
    exact Or.inr ⟨h1, h2, hslot ha m r q hr hq⟩
  | hand c r p l n m ha hal hr hn hm =>
    have hb := hc.suspended_of_receiver hal hr
    refine h.mono (fun _ hk => hk) ?_
    intro x q hx hq
    obtain ⟨h1, h2⟩ := hold_update (fun _ _ hq => hnone hb.1 hq) x q hx hq
    exact Or.inr ⟨h1, h2, hslot ha m x q hx hq⟩
  | handWait c t r p l n m tm ha hal hr ht hn hsn hm htm =>
    have hb := hc.suspended_of_receiver hal hr
    refine h.mono (fun _ hk => hk) ?_
    intro x q hx hq
    have hxt : x ≠ t := fun he => hfree ht (he ▸ hx)
    have hxr : x ≠ r := fun he => hnone hb.1 (he ▸ hq)
    simp only [Function.update_of_ne hxt, Function.update_of_ne hxr]
    exact Or.inr ⟨hx, hq, hslot ha m x q hx hq⟩
  | take c v m l hal hs hv hsv hm hn | takeReply c v m u l w hal hs hv hsv hm hn hw =>
    refine h.mono (fun _ hk => List.mem_cons_of_mem _ hk) ?_
    exact fun _ _ hr hq => Or.inr ⟨hr, hq, rfl⟩
  | listen c t tm hal hs hm ht hsv htm =>
    refine h.mono (fun _ hk => hk) ?_
    intro r q hr hq
    obtain ⟨h1, h2⟩ := hold_update (fun hx _ _ => hfree ht hx) r q hr hq
    exact Or.inr ⟨h1, h2, rfl⟩
  | answer c v u p l n m ha hal hv hsv hu =>
    have hb := ((hc.linked c hal).sender u).mp (Or.inl hu)
    refine h.mono (fun _ hk => hk) ?_
    intro r q hr hq
    obtain ⟨h1, h2⟩ := hold_update (fun hx _ _ => hother hb.2.1 hx) r q hr hq
    exact Or.inr ⟨h1, h2, hslot ha m r q hr hq⟩
  | fail t hs hcall he | complete t p hs hcall hp =>
    refine h.mono (fun _ hk => hk) ?_
    intro r q hr hq
    obtain ⟨h1, h2⟩ := hold_update (fun hx _ _ => hother hcall hx) r q hr hq
    exact Or.inr ⟨h1, h2, rfl⟩
  | failRecv t hs hcall he =>
    have hret : (s.thread t).msgRet = none := by
      by_contra hne
      exact he (((hc.settled t).result hs (by rw [hcall]; simp)).mpr hne)
    refine h.mono (fun _ hk => hk) ?_
    intro r q hr hq
    have hrt : r ≠ t := by
      rintro rfl
      rw [hret] at hq
      cases hq
    dsimp only
    rw [Function.update_of_ne hrt]
    exact Or.inr ⟨hr, hq, rfl⟩
  | receive t p hs hcall hp =>
    refine h.mono (fun _ hk => List.mem_cons_of_mem _ hk) ?_
    intro r q hr hq
    by_cases hrt : r = t
    · subst hrt
      rw [hp, Option.some.injEq] at hq
      rw [hq]
      exact Or.inl List.mem_cons_self
    · dsimp only
      rw [Function.update_of_ne hrt]
      exact Or.inr ⟨hr, hq, rfl⟩
  | giveUpReply t c e he ht hr | giveUpQueued t c m e he ht hal hr hm hn hsn | giveUpDead t c e he ht hdead
  | unlisten t c e he ht =>
    refine h.mono (fun _ hk => hk) ?_
    intro r q hr hq
    obtain ⟨h1, h2⟩ := hold_update (fun _ _ hq => hnone ht.1 hq) r q hr hq
    exact Or.inr ⟨h1, h2, rfl⟩

theorem Answerable.frame (h : s.Answerable) (hco : s.Coherent) (hd : ∀ k, s.Delivered k → s'.Delivered k)
    (hch : ∀ d, d ≠ c → (s'.chan d).alive = (s.chan d).alive ∧ (s'.chan d).reply = (s.chan d).reply)
    (htag : ∀ u, (s.thread u).suspended = true → (s'.thread u).tag = (s.thread u).tag)
    (hc : ∀ u, (s'.chan c).alive = true → (s'.chan c).reply = some u →
      (s.chan c).alive = true ∧ (s.chan c).reply = some u ∨ s'.Delivered (s'.thread u).tag) : s'.Answerable := by
  have hold : ∀ d u, (s.chan d).alive = true → (s.chan d).reply = some u → s'.Delivered (s'.thread u).tag := by
    intro d u ha hu
    have hb := ((hco.linked d ha).sender u).mp (Or.inl hu)
    rw [htag u hb.1]
    exact hd _ (h d u ha hu)
  intro d u ha hu
  by_cases hdc : d = c
  · subst hdc
    rcases hc u ha hu with ⟨ha, hu⟩ | hdel
    · exact hold d u ha hu
    · exact hdel
  · rw [(hch d hdc).1] at ha
    rw [(hch d hdc).2] at hu
    exact hold d u ha hu

theorem tag_update {x : ChanThread} (hx : (s.thread t).suspended = true → x.tag = (s.thread t).tag) (u : ℕ)
    (hu : (s.thread u).suspended = true) : (Function.update s.thread t x u).tag = (s.thread u).tag := by
  by_cases hut : u = t
  · subst hut
    rw [Function.update_self]
    exact hx hu
  · rw [Function.update_of_ne hut]

theorem Answerable.move (h : s.Answerable) (hc : s.Coherent) (hsl : s.Slots max owner) (hm : Move max serves s s') :
    s'.Answerable := by
  have hd : ∀ k, s.Delivered k → s'.Delivered k := fun k hk => hk.move hc hsl hm
  have hfree : ∀ {t} {x : ChanThread}, s.free t → (s.thread t).suspended = true → x.tag = (s.thread t).tag := by
    intro t x ht hs
    rw [ht.1] at hs
    cases hs
  cases hm with
  | stay => exact h
  | ref c r | queue c p l n m ha hal hs hn hm | take c v m l hal hs hv hsv hm hn =>
    apply h.frame (c := c) hc hd
    · intro d hdc
      simp only [Function.update_of_ne hdc, and_self]
    · exact fun _ _ => rfl
    · simp only [Function.update_self]
      exact fun u ha hu => Or.inl ⟨ha, hu⟩
  | create c hcr =>
    apply h.frame (c := c) hc hd
    · intro d hdc
      simp only [Function.update_of_ne hdc, and_self]
    · exact fun _ _ => rfl
    · simp
  | churn t p l n m ha ht =>
    apply h.frame (c := 0) hc hd
    · exact fun _ _ => ⟨rfl, rfl⟩
    · exact tag_update (hfree ht)
    · exact fun u ha hu => Or.inl ⟨ha, hu⟩
  | queueWait c t p l n m tm ha hal hs ht hn hsn hm htm | listen c t tm hal hs hm ht hsv htm =>
    apply h.frame (c := c) hc hd
    · intro d hdc
      simp only [Function.update_of_ne hdc, and_self]
    · exact tag_update (hfree ht)
    · simp only [Function.update_self]
      exact fun u ha hu => Or.inl ⟨ha, hu⟩
  | hand c r p l n m ha hal hr hn hm | giveUpQueued t c m e he ht hal hr hm hn hsn | unlisten t c e he ht =>
    apply h.frame (c := c) hc hd
    · intro d hdc
      simp only [Function.update_of_ne hdc, unlink, and_self]
    · exact tag_update fun _ => rfl
    · simp only [Function.update_self, unlink]
      exact fun u ha hu => Or.inl ⟨ha, hu⟩
  | handWait c t r p l n m tm ha hal hr ht hn hsn hm htm =>
    have hb := hc.suspended_of_receiver hal hr
    have htr : t ≠ r := by
      rintro rfl
      exact ht.not_blocked _ _ hb
    apply h.frame (c := c) hc hd
    · intro d hdc
      simp only [Function.update_of_ne hdc, unlink, and_self]
    · intro u hu
      by_cases hur : u = r
      · subst hur
        simp only [Function.update_self]
        rfl
      · simp only [Function.update_of_ne hur]
        exact tag_update (hfree ht) u hu
    · simp only [Function.update_self, unlink, Option.some.injEq]
      rintro u - rfl
      -- the receiver holds the request of the new sender
      refine Or.inr (Or.inr ⟨r, p, ?_, ?_, ?_⟩)
      · simp only [Function.update_self]
        exact hb.2.1
      · simp only [Function.update_self]
        rfl
      · simp only [Function.update_self, Function.update_of_ne htr]
        exact hm
  | takeReply c v m u l w hal hs hv hsv hm hn hw =>
    have hl := hc.linked c hal
    apply h.frame (c := c) hc hd
    · intro d hdc
      simp only [Function.update_of_ne hdc, and_self]
    · exact fun _ _ => rfl
    · simp only [Function.update_self, Option.some.injEq]
      rintro x - rfl
      rw [← hl.taken_tag hs hm hn hw]
      exact Or.inr (Or.inl List.mem_cons_self)
  | answer c v u p l n m ha hal hv hsv hu | giveUpReply t c e he ht hr =>
    apply h.frame (c := c) hc hd
    · intro d hdc
      simp only [Function.update_of_ne hdc, unlink, and_self]
    · exact tag_update fun _ => rfl
    · simp [unlink]
  | fail t hs hcall he | failRecv t hs hcall he | complete t p hs hcall hp | receive t p hs hcall hp =>
    apply h.frame (c := 0) hc hd
    · exact fun _ _ => ⟨rfl, rfl⟩
    · exact tag_update fun _ => rfl
    · exact fun u ha hu => Or.inl ⟨ha, hu⟩
  | giveUpDead t c e he ht hdead =>
    apply h.frame (c := c) hc hd
    · exact fun _ _ => ⟨rfl, rfl⟩
    · exact tag_update fun _ => rfl
    · exact fun u ha hu => Or.inl ⟨ha, hu⟩

theorem Delivered.close (h : s.Delivered k) (c : ℕ) : (s.closed c).Delivered k := by
  refine h.mono (fun _ hk => hk) ?_
  intro r q hr hq
  right
  dsimp only [closed]
  split <;> exact ⟨hr, hq, rfl⟩

theorem Answerable.close (h : s.Answerable) (hco : s.Coherent) (c : ℕ) : (s.closed c).Answerable := by
  apply h.frame (c := c) hco
  · exact fun k hk => hk.close c
  · intro d hd
    simp only [closed, Function.update_of_ne hd, and_self]
  · intro u _
    simp only [closed]
    split <;> rfl
  · simp [closed]

theorem run_tagged {es : List Event} (hr : run (step max) init es = some s) :
    s.Coherent ∧ (∃ owner, s.Slots max owner) ∧ s.Tagged ∧ s.Answerable := by
  apply run_invariant (fun s => s.Coherent ∧ (∃ owner, s.Slots max owner) ∧ s.Tagged ∧ s.Answerable) _ hr
  · refine ⟨coherent_init, ⟨_, slots_init max⟩, tagged_init, ?_⟩
    intro c t ha
    cases ha
  · rintro s e s' ⟨h, ⟨owner, hsl⟩, htag, hans⟩ hs
    have hst : Stepped max (fun _ _ => True) s e s' := step_stepped h hsl (fun _ _ _ => trivial) hs
    obtain ⟨owner', hsl', -⟩ := hsl.stepped h hst
    refine ⟨h.stepped hsl hst, ⟨owner', hsl'⟩, ?_⟩
    obtain ⟨s1, hm, rfl | ⟨c, -, -, -, rfl⟩⟩ := hst
    · exact ⟨htag.move h hsl hm, hans.move h hsl hm⟩
    · exact ⟨(htag.move h hsl hm).close c, (hans.move h hsl hm).close (h.move hsl hm) c⟩

/-- The assertion of `_rt_raw_channel_recv_timeout` holds. -/
theorem Coherent.recvTimeout_ne_none (h : s.Coherent) (c t : ℕ) (time : ℤ) (sig : Bool) :
    s.recvTimeout c t time sig ≠ none := by
  unfold recvTimeout
  split
  case isTrue => simp
  case isFalse hdead =>
  have hl := h.linked c (by simpa using hdead)
  split
  case isTrue => simp
  case isFalse hidle =>
  have hst : (s.chan c).stat = .idle := by simpa using hidle
  split
  case h_1 m l hm =>
    dsimp only
    split
    case isTrue hn =>
      have hw := hl.head_eq hst hm hn
      split
      case h_1 hnil =>
        simp only [setChan, Function.update_self] at hnil
        rw [hw] at hnil
        cases hnil
      case h_2 => simp
    case isFalse => simp
  case h_2 =>
    split
    case isTrue => simp
    case isFalse => split <;> simp

/-- The sender of a request that was handed to the waiting receiver stays first on the list of senders until the
reply. -/
theorem channel_state_coherent (max : ℕ) (es : List Event) (s : ChanSys) (c : ℕ)
    (hr : run (step max) init es = some s) (hc : (s.chan c).alive = true) :
    ((s.chan c).stat = .wait ↔ ∃ t, (s.thread t).BlockedIn .recv c) ∧
      ((s.chan c).stat = .wait → (s.chan c).waitMsg = []) ∧
      ((s.chan c).stat = .active ↔ ∃ t, (s.chan c).reply = some t ∧ (s.thread t).BlockedIn .sendRecv c ∧
        s.Delivered (s.thread t).tag) ∧
      ((s.chan c).waitThread = (s.chan c).senders s.msgs ∨
        ∃ t, (s.chan c).reply = some t ∧ (s.chan c).waitThread = t :: (s.chan c).senders s.msgs) ∧
      ((s.chan c).reply.toList ++ (s.chan c).senders s.msgs).Nodup ∧
      ∀ t time sig, s.recvTimeout c t time sig ≠ none := by
  obtain ⟨h, -, -, hans⟩ := run_tagged hr
  have hl := h.linked c hc
  refine ⟨?_, hl.quiet, ?_, hl.aligned, hl.distinct, h.recvTimeout_ne_none c⟩
  · rw [hl.stat_wait]
    constructor
    · intro hne
      obtain ⟨t, ht⟩ := List.exists_mem_of_ne_nil _ hne
      exact ⟨t, (hl.receiver t).mp ht⟩
    · rintro ⟨t, ht⟩
      exact List.ne_nil_of_mem ((hl.receiver t).mpr ht)
  · rw [hl.stat_active, Option.ne_none_iff_exists']
    constructor
    · rintro ⟨t, ht⟩
      exact ⟨t, ht, (hl.sender t).mp (Or.inl ht), hans c t hc ht⟩
    · rintro ⟨t, ht, -⟩
      exact ⟨t, ht⟩

/-- The thread 1 has answered the request of 2 and received that of 3; a message that wants no reply and another
request of 2 are queued. -/
def servedRun : List Event :=
  [.openCh 0, .recv 0 1 (-1) false, .sendRecv 0 2 ⟨0, 7, 0, 0⟩ (-1) false, .finish 1,
    .sendRecv 0 3 ⟨0, 8, 0, 0⟩ (-1) false, .send 0 4 ⟨0, 9, 0, 0⟩, .reply 0 1 ⟨0, 1, 0, 0⟩, .finish 2,
    .recv 0 1 (-1) false, .sendRecv 0 2 ⟨0, 7, 0, 0⟩ (-1) false]

theorem channel_state_coherent_example :
    ∃ s, run (step 4) init servedRun = some s ∧
      (s.chan 0).reply = some 3 ∧ (s.thread 3).BlockedIn .sendRecv 0 ∧ s.Delivered (s.thread 3).tag ∧
      (s.chan 0).waitThread = (s.chan 0).senders s.msgs ∧ (s.chan 0).senders s.msgs = [2] ∧
      (s.chan 0).waitMsg.length = 2 ∧ ¬ ∃ t, (s.thread t).BlockedIn .recv 0 := by
  obtain ⟨s, hs, hv⟩ := Option.map_eq_some_iff.mp (show (run (step 4) init servedRun).map (fun s =>
    (s.chan 0, (s.chan 0).senders s.msgs)) =
      some (⟨true, true, 1, .active, some 3, [], [2], [1, 0]⟩, [2]) by decide +kernel)
  obtain ⟨hchan, hsend⟩ := Prod.mk.inj hv
  obtain ⟨hw, -, ha, hq, -⟩ := channel_state_coherent 4 _ s 0 hs (by rw [hchan])
  obtain ⟨t, ht, hb, hd⟩ := ha.mp (by rw [hchan])
  obtain rfl : 3 = t := by simpa [hchan] using ht
  refine ⟨s, hs, ht, hb, hd, ?_, hsend, by rw [hchan]; rfl, fun h => ?_⟩
  · refine hq.resolve_right ?_
    rintro ⟨t, -, h⟩
    rw [hsend, hchan] at h
    simp at h
  · simpa [hchan] using hw.mpr h

/-- The thread 2 is on the list of senders, and no message is queued. -/
theorem channel_sender_without_message :
    ∃ s, run (step 2) init [.openCh 0, .recv 0 1 (-1) false, .sendRecv 0 2 ⟨0, 7, 0, 0⟩ (-1) false] = some s ∧
      (s.chan 0).alive = true ∧ (s.chan 0).waitMsg = [] ∧ (s.chan 0).waitThread = [2] ∧
      (s.chan 0).waitThread ≠ (s.chan 0).senders s.msgs := by
  refine ⟨_, rfl, ?_⟩
  decide +kernel

end ChanSys

end RtSmart
