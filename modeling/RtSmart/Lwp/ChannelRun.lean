import RtSmart.Lwp.ChannelMoves

/-!
The invariant of the channels over whole runs: the state of each channel, and the place of each message
slot.
-/

namespace RtSmart

namespace ChanSys

open RtChannel Lib

variable {max : ℕ} {serves : ℕ → ℕ → Prop} {s s' : ChanSys} {owner : ℕ → Owner} {c t p n : ℕ} {l : List ℕ}

theorem Slots.not_queued (h : s.Slots max owner) (ha : s.Alloc max p l n) (d : ℕ) : p ∉ (s.chan d).waitMsg := by
  obtain ⟨-, hp⟩ := h.alloc ha
  rw [← h.queued]
  rcases hp with hp | hp <;> simp [hp]

theorem Slots.msgs_update (h : s.Slots max owner) (ha : s.Alloc max p l n) (m : RtIpcMsg) (d : ℕ) :
    ∀ q ∈ (s.chan d).waitMsg, Function.update s.msgs p m q = s.msgs q := by
  intro q hq
  apply Function.update_of_ne
  rintro rfl
  exact h.not_queued ha d hq

theorem free.not_blocked (ht : s.free t) (call : ChanCall) (d : ℕ) : ¬ (s.thread t).BlockedIn call d :=
  Linked.not_blocked_of_free ht.1 call

theorem settled_update (h : ∀ t, (s.thread t).Settled) {x : ChanThread} (hx : x.Settled) (u : ℕ) :
    (Function.update s.thread t x u).Settled := by
  by_cases hu : u = t
  · subst hu
    rw [Function.update_self]
    exact hx
  · rw [Function.update_of_ne hu]
    exact h u

theorem Coherent.assemble (h : s.Coherent) (hc : (s.chan c).alive = true) (hth : ∀ u, u ≠ t → s'.thread u = s.thread u)
    (hset : (s'.thread t).Settled)
    (hb : ∀ d, d ≠ c → ∀ call, ¬ (s.thread t).BlockedIn call d ∧ ¬ (s'.thread t).BlockedIn call d)
    (hm : ∀ d, ∀ m ∈ (s.chan d).waitMsg, d ≠ c → s'.msgs m = s.msgs m)
    (hchan : ∀ d, d ≠ c → s'.chan d = s.chan d ∨ s'.chan d = (s.chan d).unlink t)
    (halive : (s'.chan c).alive = (s.chan c).alive) (hcreated : (s'.chan c).created = (s.chan c).created)
    (hlink : Linked s'.thread s'.msgs c (s'.chan c)) : s'.Coherent := by
  have hsettled : ∀ u, (s'.thread u).Settled := by
    intro u
    by_cases hu : u = t
    · exact hu ▸ hset
    · rw [hth u hu]
      exact h.settled u
  apply Coherent.of_local (c := c) h hsettled hm
  · intro d hd u
    by_cases hu : u = t
    · exact Or.inr (hu ▸ hb d hd)
    · exact Or.inl (hth u hu)
  · intro d hd
    rcases hchan d hd with he | he
    · exact Or.inl he
    · exact Or.inr ⟨t, he, fun call => (hb d hd call).1⟩
  · exact fun _ => hlink
  · rw [halive, hc]
    intro hf
    cases hf
  · rw [hcreated]
    intro hf
    rw [(h.unborn c hf).1] at hc
    cases hc

theorem woken_elsewhere {call : ChanCall} (hb : (s.thread t).BlockedIn call c) (hs : (s'.thread t).suspended = false)
    (d : ℕ) (hd : d ≠ c) (call' : ChanCall) :
    ¬ (s.thread t).BlockedIn call' d ∧ ¬ (s'.thread t).BlockedIn call' d := by
  refine ⟨?_, Linked.not_blocked_of_free hs call'⟩
  rintro ⟨-, -, hch⟩
  rw [hb.2.2] at hch
  exact hd hch.symm

theorem Coherent.of_ready (h : s.Coherent) (hch : s'.chan = s.chan)
    (hm : ∀ d, ∀ m ∈ (s.chan d).waitMsg, s'.msgs m = s.msgs m) (hset : (s'.thread t).Settled)
    (hth : ∀ u, u ≠ t → s'.thread u = s.thread u) (hs : (s.thread t).suspended = false)
    (hs' : (s'.thread t).suspended = false) : s'.Coherent := by
  have hchange : ∀ d u, s'.thread u = s.thread u ∨
      ∀ call, ¬ (s.thread u).BlockedIn call d ∧ ¬ (s'.thread u).BlockedIn call d := by
    intro d u
    by_cases hu : u = t
    · subst hu
      exact Or.inr fun call => ⟨Linked.not_blocked_of_free hs call, Linked.not_blocked_of_free hs' call⟩
    · exact Or.inl (hth u hu)
  constructor
  · intro u
    by_cases hu : u = t
    · exact hu ▸ hset
    · rw [hth u hu]
      exact h.settled u
  · intro d
    rw [hch]
    intro halive
    exact (h.linked d halive).frame (hchange d) (hm d)
  · rw [hch]; exact h.dead
  · intro d
    rw [hch]
    intro hcreated
    obtain ⟨halive, hno⟩ := h.unborn d hcreated
    refine ⟨halive, ?_⟩
    intro u call hb
    rcases hchange d u with he | hn
    · rw [he] at hb
      exact hno u call hb
    · exact (hn call).2 hb

theorem Coherent.relink {ch : RtChannel} (h : s.Coherent) (hc : (s.chan c).alive = true) (hv : s.free t)
    (hth : s'.thread = s.thread) (hm : s'.msgs = s.msgs) (hch : s'.chan = Function.update s.chan c ch)
    (halive : ch.alive = (s.chan c).alive) (hcreated : ch.created = (s.chan c).created)
    (hlink : Linked s.thread s.msgs c ch) : s'.Coherent := by
  have hself : s'.chan c = ch := by
    rw [hch]
    exact Function.update_self _ _ _
  apply h.assemble (c := c) (t := t) hc
  · intro u _
    rw [hth]
  · rw [hth]
    exact h.settled t
  · intro d _ call
    rw [hth]
    exact ⟨hv.not_blocked call d, hv.not_blocked call d⟩
  · intro d m _ _
    rw [hm]
  · intro d hd
    rw [hch]
    exact Or.inl (Function.update_of_ne hd _ _)
  · rw [hself, halive]
  · rw [hself, hcreated]
  · rwa [hself, hth, hm]

theorem Coherent.leaveCall {x : ChanThread} (h : s.Coherent) (hs : (s.thread t).suspended = false) (hch : s'.chan = s.chan)
    (hm : s'.msgs = s.msgs) (hth : s'.thread = Function.update s.thread t x) (hset : x.Settled)
    (hx : x.suspended = false) : s'.Coherent := by
  have hself : s'.thread t = x := by
    rw [hth]
    exact Function.update_self _ _ _
  apply h.of_ready (t := t) hch
  · intro d m _
    rw [hm]
  · rwa [hself]
  · intro u hu
    rw [hth]
    exact Function.update_of_ne hu _ _
  · exact hs
  · rwa [hself]

theorem Coherent.giveUp_alive (h : s.Coherent) {call : ChanCall} {e : ChanErr} (he : e ≠ .eok)
    (hb : (s.thread t).BlockedIn call c) (hc : (s.chan c).alive = true)
    (hchan : ∀ d, d ≠ c → s'.chan d = (s.chan d).unlink t) (halive : (s'.chan c).alive = (s.chan c).alive)
    (hcreated : (s'.chan c).created = (s.chan c).created) (hm : s'.msgs = s.msgs)
    (hth : s'.thread = Function.update s.thread t ({ s.thread t with error := e } : ChanThread).woken)
    (hlink : Linked s'.thread s'.msgs c (s'.chan c)) : s'.Coherent := by
  have hself : s'.thread t = ({ s.thread t with error := e } : ChanThread).woken := by
    rw [hth]
    exact Function.update_self _ _ _
  refine h.assemble (c := c) (t := t) hc ?_ ?_ (woken_elsewhere hb ?_) ?_ (fun d hd => Or.inr (hchan d hd)) halive hcreated
    hlink
  · intro u hu
    rw [hth]
    exact Function.update_of_ne hu _ _
  · rw [hself]
    exact (h.settled t).giveUp hb.1 he
  · rw [hself]
    rfl
  · intro _ _ _ _
    rw [hm]

theorem Coherent.giveUp_dead (h : s.Coherent) {call : ChanCall} {e : ChanErr} (he : e ≠ .eok)
    (hb : (s.thread t).BlockedIn call c)
    (hchan : ∀ d, d ≠ c → s'.chan d = (s.chan d).unlink t) (halive : (s'.chan c).alive = false)
    (hlists : (s'.chan c).waitMsg = [] ∧ (s'.chan c).suspendThread = [] ∧ (s'.chan c).waitThread = [])
    (hcreated : (s'.chan c).created = (s.chan c).created) (hm : s'.msgs = s.msgs)
    (hth : s'.thread = Function.update s.thread t ({ s.thread t with error := e } : ChanThread).woken) :
    s'.Coherent := by
  have hready : (s'.thread t).suspended = false := by
    rw [hth, Function.update_self]
    rfl
  have hchange : ∀ u, u ≠ t → s'.thread u = s.thread u := by
    intro u hu
    rw [hth, Function.update_of_ne hu]
  apply Coherent.of_local (c := c) h
  · intro u
    rw [hth]
    exact settled_update h.settled ((h.settled t).giveUp hb.1 he) u
  · intro d m _ _
    rw [hm]
  · intro d hd u
    by_cases hu : u = t
    · subst hu
      exact Or.inr (woken_elsewhere hb hready d hd)
    · exact Or.inl (hchange u hu)
  · intro d hd
    exact Or.inr ⟨t, hchan d hd, fun call' => (woken_elsewhere hb hready d hd call').1⟩
  · rw [halive]
    intro hf
    cases hf
  · exact fun _ => hlists
  · rw [hcreated]
    intro hf
    exact absurd hb ((h.unborn c hf).2 t call)

theorem Coherent.move (h : s.Coherent) (hsl : s.Slots max owner) (hm : Move max serves s s') : s'.Coherent := by
  cases hm with
  | stay => exact h
  | ref c r =>
    apply Coherent.of_local (c := c) h
    · exact h.settled
    · intro _ _ _ _
      rfl
    · intro _ _ _
      exact Or.inl rfl
    · intro d hd
      exact Or.inl (Function.update_of_ne hd _ _)
    · simp only [Function.update_self]
      intro halive
      have hl := h.linked c halive
      exact ⟨hl.stat_wait, hl.one, hl.quiet, hl.stat_active, hl.aligned, hl.distinct, hl.sender, hl.receiver, hl.handed,
        hl.tags⟩
    · simp only [Function.update_self]
      exact h.dead c
    · simp only [Function.update_self]
      exact h.unborn c
  | create c hc =>
    apply Coherent.of_local (c := c) h
    · exact h.settled
    · intro _ _ _ _
      rfl
    · intro _ _ _
      exact Or.inl rfl
    · intro d hd
      exact Or.inl (Function.update_of_ne hd _ _)
    · simp only [Function.update_self]
      intro _
      exact Linked.fresh (h.unborn c hc).2
    · simp
    · simp
  | churn t p l n m ha ht =>
    apply h.of_ready (t := t)
    · rfl
    · intro d
      exact hsl.msgs_update ha m d
    · dsimp only
      rw [Function.update_self]
      exact (h.settled t).setError ht.2 _
    · intro u hu
      exact Function.update_of_ne hu _ _
    · exact ht.1
    · dsimp only
      rw [Function.update_self]
      exact ht.1
  | queue c p l n m ha hc hs hn hm =>
    apply Coherent.of_local (c := c) h
    · exact h.settled
    · intro d m' hm' _
      exact hsl.msgs_update ha m d m' hm'
    · intro _ _ _
      exact Or.inl rfl
    · intro d hd
      exact Or.inl (Function.update_of_ne hd _ _)
    · simp only [Function.update_self]
      intro _
      apply (h.linked c hc).queue hs (hsl.not_queued ha c)
      · rw [Function.update_self]
        exact hn
      · intro q hq
        exact Function.update_of_ne hq _ _
    · simp [hc]
    · simp only [Function.update_self]
      intro hf
      rw [(h.unborn c hf).1] at hc
      cases hc
  | queueWait c t p l n m tm ha hc hs ht hn hsender hm htm =>
    apply h.assemble (c := c) (t := t) hc
    · intro u hu
      exact Function.update_of_ne hu _ _
    · dsimp only
      rw [Function.update_self]
      exact (h.settled t).block ht.2 htm (Or.inr ⟨rfl, Or.inl rfl⟩)
    · intro d hd call
      dsimp only
      rw [Function.update_self]
      refine ⟨ht.not_blocked call d, ?_⟩
      rintro ⟨-, -, hch⟩
      exact hd hch.symm
    · intro d m' hm' _
      exact hsl.msgs_update ha m d m' hm'
    · intro d hd
      exact Or.inl (Function.update_of_ne hd _ _)
    · simp
    · simp
    · simp only [Function.update_self]
      apply (h.linked c hc).queueWait hs (hsl.not_queued ha c) (fun q hq => Function.update_of_ne hq _ _)
      · rw [Function.update_self]
        exact hn
      · rw [Function.update_self]
        exact hsender
      · rw [Function.update_self, Function.update_self]
        exact hm
      · exact ht.1
      · intro u hu
        exact Function.update_of_ne hu _ _
      · rw [Function.update_self]
        exact ⟨rfl, rfl, rfl⟩
      · rw [Function.update_self]
        rfl
  | hand c r p l n m ha hc hr hn hm =>
    have hb := h.suspended_of_receiver hc hr
    apply h.assemble (c := c) (t := r) hc
    · intro u hu
      exact Function.update_of_ne hu _ _
    · dsimp only
      rw [Function.update_self]
      exact (h.settled r).deliver hb.1 p
    · exact woken_elsewhere hb (by simp [ChanThread.woken])
    · intro d m' hm' _
      exact hsl.msgs_update ha m d m' hm'
    · intro d hd
      exact Or.inr (by simp only [Function.update_of_ne hd])
    · simp [unlink]
    · simp [unlink]
    · simp only [Function.update_self]
      have hl : Linked (Function.update s.thread r ({ s.thread r with msgRet := some p, error := .eok } : ChanThread).woken)
        s.msgs c _ := (h.linked c hc).unlisten hb (fun u hu => Function.update_of_ne hu _ _) (by simp [ChanThread.woken])
      exact hl.frame (fun _ => Or.inl rfl) fun m' hm' => hsl.msgs_update ha m c m' hm'
  | handWait c t r p l n m tm ha hc hr ht hn hsender hm htm =>
    have hb := h.suspended_of_receiver hc hr
    have htr : t ≠ r := by
      rintro rfl
      exact ht.not_blocked _ _ hb
    apply Coherent.of_local (c := c) h
    · intro u
      by_cases hu : u = r
      · subst hu
        dsimp only
        rw [Function.update_self]
        exact (h.settled u).deliver hb.1 p
      · dsimp only
        rw [Function.update_of_ne hu]
        apply settled_update h.settled
        exact (h.settled t).block ht.2 htm (Or.inr ⟨rfl, Or.inr rfl⟩)
    · intro d m' hm' _
      exact hsl.msgs_update ha m d m' hm'
    · intro d hd u
      by_cases hu : u = r
      · subst hu
        exact Or.inr (woken_elsewhere hb (by simp [ChanThread.woken]) d hd)
      · by_cases hut : u = t
        · subst hut
          refine Or.inr fun call => ⟨ht.not_blocked call d, ?_⟩
          dsimp only
          rw [Function.update_of_ne htr, Function.update_self]
          rintro ⟨-, -, hch⟩
          exact hd hch.symm
        · exact Or.inl (by simp only [Function.update_of_ne hu, Function.update_of_ne hut])
    · intro d hd
      refine Or.inr ⟨r, by simp only [Function.update_of_ne hd], ?_⟩
      rintro call ⟨-, -, hch⟩
      rw [hb.2.2] at hch
      exact hd hch.symm
    · simp only [Function.update_self]
      intro _
      have hl : Linked (Function.update (Function.update s.thread t
        ((s.thread t).blockedRecord c .sendRecv .senderWaitReply tm s.sends)) r
        ({ s.thread r with msgRet := some p, error := .eok } : ChanThread).woken) s.msgs c _ :=
        (h.linked c hc).handWait (t := t) hb ht.1
        (fun u hu hut => by rw [Function.update_of_ne hu, Function.update_of_ne hut]) (by simp [ChanThread.woken])
        (by rw [Function.update_of_ne htr, Function.update_self]; exact ⟨rfl, rfl, rfl⟩)
      exact hl.frame (fun _ => Or.inl rfl) fun m' hm' => hsl.msgs_update ha m c m' hm'
    · simp [unlink, hc]
    · simp only [Function.update_self]
      intro hf
      have hcr := (h.unborn c hf).1
      rw [hc] at hcr
      cases hcr
  | take c v m l hc hs hv hsv hm hn => exact h.relink hc hv rfl rfl rfl rfl rfl ((h.linked c hc).take hm hn)
  | takeReply c v m u l w hc hs hv hsv hm hn hw =>
    exact h.relink hc hv rfl rfl rfl rfl rfl ((h.linked c hc).takeReply hs hm hn hw)
  | listen c t tm hc hs hm ht hsv htm =>
    apply h.assemble (c := c) (t := t) hc
    · intro u hu
      exact Function.update_of_ne hu _ _
    · dsimp only
      rw [Function.update_self]
      exact (h.settled t).block ht.2 htm (Or.inl ⟨rfl, rfl⟩)
    · intro d hd call
      dsimp only
      rw [Function.update_self]
      refine ⟨ht.not_blocked call d, ?_⟩
      rintro ⟨-, -, hch⟩
      exact hd hch.symm
    · intro _ _ _ _
      rfl
    · intro d hd
      exact Or.inl (Function.update_of_ne hd _ _)
    · simp
    · simp
    · simp only [Function.update_self]
      apply (h.linked c hc).listen hs hm ht.1
      · intro u hu
        exact Function.update_of_ne hu _ _
      · rw [Function.update_self]
        exact ⟨rfl, rfl, rfl⟩
  | answer c v u p l n m ha hc hv hsv hu =>
    have hb := ((h.linked c hc).sender u).mp (Or.inl hu)
    apply h.assemble (c := c) (t := u) hc
    · intro x hx
      exact Function.update_of_ne hx _ _
    · dsimp only
      rw [Function.update_self]
      exact (h.settled u).answer hb.1 p
    · exact woken_elsewhere hb (by simp [ChanThread.woken])
    · intro d m' hm' _
      exact hsl.msgs_update ha m d m' hm'
    · intro d hd
      exact Or.inr (by simp only [Function.update_of_ne hd])
    · simp [unlink]
    · simp [unlink]
    · simp only [Function.update_self]
      have hl : Linked (Function.update s.thread u ({ s.thread u with msgRet := some p } : ChanThread).woken)
        s.msgs c _ := (h.linked c hc).answered hu
        (fun x hx => Function.update_of_ne hx _ _) (by simp [ChanThread.woken])
      exact hl.frame (fun _ => Or.inl rfl) fun m' hm' => hsl.msgs_update ha m c m' hm'
  | fail t hs hc he => exact h.leaveCall hs rfl rfl rfl ((h.settled t).leave_failed hs (by rw [hc]; simp) he) hs
  | failRecv t hs hc he => exact h.leaveCall hs rfl rfl rfl ((h.settled t).leave_failed hs (by rw [hc]; simp) he) hs
  | complete t p hs hc hp => exact h.leaveCall hs rfl rfl rfl ((h.settled t).leave hs) hs
  | receive t p hs hc hp => exact h.leaveCall hs rfl rfl rfl ((h.settled t).leave hs) hs
  | giveUpReply t c e he ht hr =>
    cases hc : (s.chan c).alive with
    | false =>
      obtain ⟨hwm, hst, hwt⟩ := h.dead c hc
      exact h.giveUp_dead he ht (by intro d hd; simp only [Function.update_of_ne hd])
        (by simp [unlink, hc]) (by simp [unlink, hwm, hst, hwt]) (by simp [unlink]) rfl rfl
    | true =>
      refine h.giveUp_alive he ht hc (by intro d hd; simp only [Function.update_of_ne hd]) (by simp [unlink])
        (by simp [unlink]) rfl rfl ?_
      simp only [Function.update_self]
      exact (h.linked c hc).answered hr (fun x hx => Function.update_of_ne hx _ _) (by simp [ChanThread.woken])
  | giveUpQueued t c m e he ht hc hr hm hn hsender =>
    refine h.giveUp_alive he ht hc (by intro d hd; simp only [Function.update_of_ne hd]) (by simp [unlink])
      (by simp [unlink]) rfl rfl ?_
    simp only [Function.update_self]
    exact (h.linked c hc).withdrawn hr hm hn hsender (fun x hx => Function.update_of_ne hx _ _)
      (by simp [ChanThread.woken])
  | giveUpDead t c e he ht hc =>
    obtain ⟨hwm, hst, hwt⟩ := h.dead c hc
    exact h.giveUp_dead he ht (fun _ _ => rfl) (by simp [unlink, hc]) (by simp [unlink, hwm, hst, hwt])
      (by simp [unlink]) rfl rfl
  | unlisten t c e he ht =>
    cases hc : (s.chan c).alive with
    | false =>
      obtain ⟨hwm, hst, hwt⟩ := h.dead c hc
      exact h.giveUp_dead he ht (by intro d hd; simp only [Function.update_of_ne hd])
        (by simp [unlink, hc]) (by simp [unlink, hwm, hst, hwt]) (by simp [unlink]) rfl rfl
    | true =>
      refine h.giveUp_alive he ht hc (by intro d hd; simp only [Function.update_of_ne hd]) (by simp [unlink])
        (by simp [unlink]) rfl rfl ?_
      simp only [Function.update_self]
      exact (h.linked c hc).unlisten ht (fun x hx => Function.update_of_ne hx _ _) (by simp [ChanThread.woken])

theorem msgRet_update {x : ChanThread} (hx : x.msgRet = (s.thread t).msgRet) (u : ℕ) :
    (Function.update s.thread t x u).msgRet = (s.thread u).msgRet := by
  by_cases hu : u = t
  · subst hu
    rw [Function.update_self, hx]
  · rw [Function.update_of_ne hu]

theorem waitMsg_update {ch : RtChannel} (hx : ch.waitMsg = (s.chan c).waitMsg) (d : ℕ) :
    (Function.update s.chan c ch d).waitMsg = (s.chan d).waitMsg := by
  by_cases hd : d = c
  · subst hd
    rw [Function.update_self, hx]
  · rw [Function.update_of_ne hd]

theorem Slots.move (hsl : s.Slots max owner) (h : s.Coherent) (hm : Move max serves s s') :
    ∃ owner', s'.Slots max owner' ∧ Keeps owner owner' := by
  have hmoving : ∀ p, (Function.update owner p Owner.moving) p = .moving := fun p => Function.update_self _ _ _
  have hnone : ∀ t, (s.thread t).suspended = true → (s.thread t).msgRet = none := fun t ht => ((h.settled t).blocked ht).2
  cases hm with
  | stay => exact ⟨owner, hsl, Keeps.refl owner⟩
  | ref c r =>
    refine ⟨owner, hsl.congr rfl rfl ?_ (fun _ => rfl), Keeps.refl owner⟩
    exact waitMsg_update rfl
  | create c hc =>
    refine ⟨owner, hsl.congr rfl rfl ?_ (fun _ => rfl), Keeps.refl owner⟩
    exact waitMsg_update (h.dead c (h.unborn c hc).1).1.symm
  | churn t p l n m ha ht =>
    obtain ⟨h1, -⟩ := hsl.alloc ha
    refine ⟨_, (h1.msgFree (hmoving p)).congr rfl rfl (fun _ => rfl) ?_,
      Keeps.moved (by simp [Owner.Placed]) p⟩
    exact msgRet_update rfl
  | queue c p l n m ha hc hs hn hm =>
    obtain ⟨h1, -⟩ := hsl.alloc ha
    refine ⟨_, h1.queue (c := c) (hmoving p) rfl rfl ?_ ?_ (fun _ => rfl),
      Keeps.moved (by simp [Owner.Placed]) p⟩
    · intro d hd
      simp only [Function.update_of_ne hd]
    · simp only [Function.update_self]
  | queueWait c t p l n m tm ha hc hs ht hn hsender hm htm =>
    obtain ⟨h1, -⟩ := hsl.alloc ha
    refine ⟨_, h1.queue (c := c) (hmoving p) rfl rfl ?_ ?_ ?_,
      Keeps.moved (by simp [Owner.Placed]) p⟩
    · intro d hd
      simp only [Function.update_of_ne hd]
    · simp only [Function.update_self]
    · exact msgRet_update rfl
  | hand c r p l n m ha hc hr hn hm =>
    obtain ⟨h1, -⟩ := hsl.alloc ha
    refine ⟨_, h1.hold (t := r) (hmoving p) (hnone r (h.suspended_of_receiver hc hr).1) rfl rfl ?_ ?_ ?_,
      Keeps.moved (by simp [Owner.Placed]) p⟩
    · exact waitMsg_update rfl
    · intro x hx
      simp only [Function.update_of_ne hx]
    · simp [ChanThread.woken]
  | handWait c t r p l n m tm ha hc hr ht hn hsender hm htm =>
    obtain ⟨h1, -⟩ := hsl.alloc ha
    refine ⟨_, h1.hold (t := r) (hmoving p) (hnone r (h.suspended_of_receiver hc hr).1) rfl rfl ?_ ?_ ?_,
      Keeps.moved (by simp [Owner.Placed]) p⟩
    · exact waitMsg_update rfl
    · intro x hx
      simp only [Function.update_of_ne hx]
      apply msgRet_update
      rfl
    · simp [ChanThread.woken]
  | take c v m l hc hs hv hsv hm hn =>
    have h1 : Slots max { s with chan := Function.update s.chan c { s.chan c with waitMsg := l } } _ :=
      hsl.unqueue (p := m) (c := c) (by rw [hm]; exact List.mem_cons_self) rfl rfl (fun d hd => by simp only [Function.update_of_ne hd])
      (by simp [hm]) (fun _ => rfl)
    exact ⟨_, (h1.msgFree (hmoving m)).congr rfl rfl (fun _ => rfl) (fun _ => rfl),
      Keeps.moved (by simp [Owner.Placed]) m⟩
  | takeReply c v m u l w hc hs hv hsv hm hn hw =>
    have h1 : Slots max { s with chan := (Function.update s.chan c
        { s.chan c with waitMsg := l, waitThread := w, reply := some u, stat := .active }) } _ :=
      hsl.unqueue (p := m) (c := c) (by rw [hm]; exact List.mem_cons_self) rfl rfl (fun d hd => by simp only [Function.update_of_ne hd])
      (by simp [hm]) (fun _ => rfl)
    exact ⟨_, (h1.msgFree (hmoving m)).congr rfl rfl (fun _ => rfl) (fun _ => rfl),
      Keeps.moved (by simp [Owner.Placed]) m⟩
  | listen c t tm hc hs hm ht hsv htm | giveUpReply t c e he ht hr | unlisten t c e he ht =>
    refine ⟨owner, hsl.congr rfl rfl ?_ ?_, Keeps.refl owner⟩
    · exact waitMsg_update rfl
    · exact msgRet_update rfl
  | answer c v u p l n m ha hc hv hsv hu =>
    obtain ⟨h1, -⟩ := hsl.alloc ha
    have hb := ((h.linked c hc).sender u).mp (Or.inl hu)
    refine ⟨_, h1.hold (t := u) (hmoving p) (hnone u hb.1) rfl rfl ?_ ?_ ?_,
      Keeps.moved (by simp [Owner.Placed]) p⟩
    · exact waitMsg_update rfl
    · intro x hx
      simp only [Function.update_of_ne hx]
    · simp [ChanThread.woken]
  | fail t hs hc he | failRecv t hs hc he | giveUpDead t c e he ht hc =>
    refine ⟨owner, hsl.congr rfl rfl (fun _ => rfl) ?_, Keeps.refl owner⟩
    exact msgRet_update rfl
  | complete t p hs hc hp | receive t p hs hc hp =>
    have h1 : Slots max { s with thread := (Function.update s.thread t
        { s.thread t with call := none, msgRet := none }) } _ := hsl.unhold hp rfl rfl (fun _ => rfl)
      (fun x hx => by simp only [Function.update_of_ne hx]) (by simp)
    exact ⟨_, (h1.msgFree (hmoving p)).congr rfl rfl (fun _ => rfl) (fun _ => rfl),
      Keeps.moved (by simp [Owner.Placed]) p⟩
  | giveUpQueued t c m e he ht hc hr hm hn hsender =>
    have h1 : Slots max { s with chan := (Function.update s.chan c
        { s.chan c with waitMsg := (s.chan c).waitMsg.erase m }) } _ :=
      hsl.unqueue (p := m) (c := c) hm rfl rfl (fun d hd => by simp only [Function.update_of_ne hd]) (by simp) (fun _ => rfl)
    refine ⟨_, (h1.msgFree (hmoving m)).congr rfl rfl (fun _ => rfl) ?_,
      Keeps.moved (by simp [Owner.Placed]) m⟩
    exact msgRet_update rfl

end ChanSys

end RtSmart
