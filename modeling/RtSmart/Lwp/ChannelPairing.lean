import RtSmart.Lwp.ChannelTags

/-!
A channel served by one thread: a `send_recv` returns the reply to its own request.
-/

namespace RtSmart

/-- A caller of `send_recv` in `y` was one in `x`, with the same request, and no reply of the channel `c` has come
to it. -/
def ChanThread.Calm (c : ℕ) (x y : ChanThread) : Prop :=
  y.call = some .sendRecv → x.call = some .sendRecv ∧ y.tag = x.tag ∧ y.channel = x.channel ∧
    (x.channel = c → y.msgRet = x.msgRet) ∧ (x.suspended = false → y.suspended = false ∧ y.msgRet = x.msgRet)

namespace ChanSys

open RtChannel Lib ChanThread

variable {max : ℕ} {serves : ℕ → ℕ → Prop} {s s' : ChanSys} {owner : ℕ → Owner} {c t u p k v n : ℕ} {l : List ℕ}

/-- The clients of the channel `c`. -/
structure Clients (c : ℕ) (s : ChanSys) : Prop where
  tag_lt : ∀ t, (s.thread t).call = some .sendRecv → (s.thread t).tag < s.sends
  tag_inj : ∀ t u, (s.thread t).call = some .sendRecv → (s.thread u).call = some .sendRecv →
    (s.thread t).tag = (s.thread u).tag → t = u
  unfailed : ∀ t, (s.thread t).call = some .sendRecv → (s.thread t).tag ∉ s.failed
  failed_lt : ∀ k ∈ s.failed, k < s.sends
  held : ∀ t p, (s.thread t).call = some .sendRecv → (s.thread t).channel = c → (s.thread t).msgRet = some p →
    (c, some (s.thread t).tag, (s.msgs p).msg) ∈ s.given
  completed : ∀ k m, (c, k, m) ∈ s.completed → (c, some k, m) ∈ s.given
  known : ∀ o m, (c, o, m) ∈ s.given → ∃ k < s.sends, o = some k ∧ k ∉ s.failed
  answered : ∀ k m, (c, some k, m) ∈ s.given → ∀ t, (s.thread t).call = some .sendRecv → (s.thread t).tag = k →
    (s.thread t).suspended = false ∧ (s.thread t).msgRet ≠ none
  once : ∀ k m m', (c, some k, m) ∈ s.given → (c, some k, m') ∈ s.given → m = m'

/-- Nobody calls `send_recv` and the channel gives no reply; a call may return. -/
theorem Clients.frame (h : s.Clients c) (hcalm : ∀ t, (s.thread t).Calm c (s'.thread t))
    (hm : ∀ t p, (s.thread t).call = some .sendRecv → (s.thread t).channel = c → (s.thread t).msgRet = some p →
      s'.msgs p = s.msgs p)
    (hs : s.sends ≤ s'.sends) (hg : ∀ o m, (c, o, m) ∈ s'.given ↔ (c, o, m) ∈ s.given)
    (hcp : ∀ k m, (c, k, m) ∈ s'.completed → (c, k, m) ∈ s.completed ∨ (c, some k, m) ∈ s.given)
    (hf : ∀ k ∈ s'.failed, k ∈ s.failed ∨ k < s.sends ∧ (∀ m, (c, some k, m) ∉ s.given) ∧
      ∀ t, (s'.thread t).call = some .sendRecv → (s'.thread t).tag ≠ k) : s'.Clients c := by
  constructor
  · intro t ht
    obtain ⟨ht, htag, -⟩ := hcalm t ht
    rw [htag]
    exact (h.tag_lt t ht).trans_le hs
  · intro t u ht hu
    obtain ⟨ht, htag, -⟩ := hcalm t ht
    obtain ⟨hu, hutag, -⟩ := hcalm u hu
    rw [htag, hutag]
    exact h.tag_inj t u ht hu
  · intro t ht hmem
    rcases hf _ hmem with hmem | ⟨-, -, hno⟩
    · obtain ⟨ht, htag, -⟩ := hcalm t ht
      rw [htag] at hmem
      exact h.unfailed t ht hmem
    · exact hno t ht rfl
  · intro k hk
    rcases hf k hk with hk | ⟨hlt, -⟩
    · exact (h.failed_lt k hk).trans_le hs
    · exact hlt.trans_le hs
  · intro t p ht hch hp
    obtain ⟨ht, htag, hch', hret, -⟩ := hcalm t ht
    rw [hch'] at hch
    rw [hret hch] at hp
    rw [htag, hg, hm t p ht hch hp]
    exact h.held t p ht hch hp
  · intro k m hmem
    rw [hg]
    exact (hcp k m hmem).elim (h.completed k m) id
  · intro o m hmem
    rw [hg] at hmem
    obtain ⟨k, hlt, ho, hnf⟩ := h.known o m hmem
    refine ⟨k, hlt.trans_le hs, ho, ?_⟩
    intro hk
    rcases hf k hk with hk | ⟨-, hno, -⟩
    · exact hnf hk
    · exact hno m (ho ▸ hmem)
  · intro k m hmem t ht htk
    rw [hg] at hmem
    obtain ⟨ht, htag, -, -, hready⟩ := hcalm t ht
    obtain ⟨hsus, hret⟩ := h.answered k m hmem t ht (htag ▸ htk)
    obtain ⟨hsus', hret'⟩ := hready hsus
    exact ⟨hsus', hret' ▸ hret⟩
  · intro k m m'
    rw [hg, hg]
    exact h.once k m m'

/-- The thread `t` calls `send_recv` and is suspended. -/
theorem Clients.join (h : s.Clients c) (hcalm : ∀ u, u ≠ t → (s.thread u).Calm c (s'.thread u))
    (hm : ∀ u p, (s.thread u).call = some .sendRecv → (s.thread u).msgRet = some p → s'.msgs p = s.msgs p)
    (htag : (s'.thread t).tag = s.sends) (hret : (s'.thread t).msgRet = none)
    (hs : s'.sends = s.sends + 1) (hg : s'.given = s.given) (hcp : s'.completed = s.completed)
    (hf : s'.failed = s.failed) : s'.Clients c := by
  -- the tag of the new caller is larger than any in use
  have hlt : ∀ u, u ≠ t → (s'.thread u).call = some .sendRecv → (s'.thread u).tag < s.sends := by
    intro u hut hu
    obtain ⟨hu, hutag, -⟩ := hcalm u hut hu
    rw [hutag]
    exact h.tag_lt u hu
  constructor
  · intro u hu
    rw [hs]
    by_cases hut : u = t
    · rw [hut, htag]
      omega
    · exact (hlt u hut hu).trans (Nat.lt_succ_self _)
  · intro u w hu hw heq
    by_cases hut : u = t <;> by_cases hwt : w = t
    · rw [hut, hwt]
    · have := hlt w hwt hw
      rw [← heq, hut, htag] at this
      omega
    · have := hlt u hut hu
      rw [heq, hwt, htag] at this
      omega
    · obtain ⟨hu, hutag, -⟩ := hcalm u hut hu
      obtain ⟨hw, hwtag, -⟩ := hcalm w hwt hw
      rw [hutag, hwtag] at heq
      exact h.tag_inj u w hu hw heq
  · intro u hu hmem
    rw [hf] at hmem
    by_cases hut : u = t
    · rw [hut, htag] at hmem
      have := h.failed_lt _ hmem
      omega
    · obtain ⟨hu, hutag, -⟩ := hcalm u hut hu
      rw [hutag] at hmem
      exact h.unfailed u hu hmem
  · intro k hk
    rw [hf] at hk
    rw [hs]
    exact (h.failed_lt k hk).trans (Nat.lt_succ_self _)
  · intro u p hu hch hp
    have hut : u ≠ t := by
      rintro rfl
      rw [hret] at hp
      cases hp
    obtain ⟨hu, hutag, hch', hret', -⟩ := hcalm u hut hu
    rw [hch'] at hch
    rw [hret' hch] at hp
    rw [hutag, hg, hm u p hu hp]
    exact h.held u p hu hch hp
  · rw [hg, hcp]
    exact h.completed
  · intro o m hmem
    rw [hg] at hmem
    obtain ⟨k, hlt, ho, hnf⟩ := h.known o m hmem
    rw [hs, hf]
    exact ⟨k, by omega, ho, hnf⟩
  · intro k m hmem u hu huk
    rw [hg] at hmem
    obtain ⟨k', hk', hok, -⟩ := h.known _ m hmem
    obtain rfl : k = k' := Option.some.inj hok
    have hut : u ≠ t := by
      rintro rfl
      rw [htag] at huk
      omega
    obtain ⟨hu, hutag, -, -, hready⟩ := hcalm u hut hu
    obtain ⟨hsus, hne⟩ := h.answered k m hmem u hu (hutag ▸ huk)
    obtain ⟨hsus', hret'⟩ := hready hsus
    exact ⟨hsus', hret' ▸ hne⟩
  · rw [hg]
    exact h.once

theorem Clients.answer (h : s.Clients c) (hb : (s.thread u).BlockedIn .sendRecv c) {m : RtChannelMsg}
    (hg : s'.given = (c, some (s.thread u).tag, m) :: s.given) (hp : (s'.msgs p).msg = m)
    (hth : ∀ x, x ≠ u → s'.thread x = s.thread x)
    (hu : s'.thread u = ({ s.thread u with msgRet := some p } : ChanThread).woken)
    (hm : ∀ x p, (s.thread x).msgRet = some p → s'.msgs p = s.msgs p)
    (hs : s'.sends = s.sends) (hcp : s'.completed = s.completed) (hf : s'.failed = s.failed) : s'.Clients c := by
  have hcall : ∀ x, (s'.thread x).call = (s.thread x).call ∧ (s'.thread x).tag = (s.thread x).tag ∧
      (s'.thread x).channel = (s.thread x).channel := by
    intro x
    by_cases hx : x = u
    · subst hx
      rw [hu]
      exact ⟨rfl, rfl, rfl⟩
    · rw [hth x hx]
      exact ⟨rfl, rfl, rfl⟩
  -- the request was not answered before
  have hnew : ∀ m, (c, some (s.thread u).tag, m) ∉ s.given := by
    intro m hmem
    have hsus := (h.answered _ m hmem u hb.2.1 rfl).1
    rw [hb.1] at hsus
    cases hsus
  constructor
  · intro x hx
    rw [(hcall x).1] at hx
    rw [(hcall x).2.1, hs]
    exact h.tag_lt x hx
  · intro x y hx hy
    rw [(hcall x).1] at hx
    rw [(hcall y).1] at hy
    rw [(hcall x).2.1, (hcall y).2.1]
    exact h.tag_inj x y hx hy
  · intro x hx
    rw [(hcall x).1] at hx
    rw [(hcall x).2.1, hf]
    exact h.unfailed x hx
  · rw [hf, hs]
    exact h.failed_lt
  · intro x q hx hch hq
    rw [(hcall x).1] at hx
    rw [(hcall x).2.2] at hch
    rw [(hcall x).2.1, hg, List.mem_cons]
    by_cases hxu : x = u
    · subst hxu
      rw [hu] at hq
      obtain rfl : p = q := Option.some.inj hq
      rw [hp]
      exact Or.inl rfl
    · rw [hth x hxu] at hq
      rw [hm x q hq]
      exact Or.inr (h.held x q hx hch hq)
  · intro k m hmem
    rw [hcp] at hmem
    rw [hg]
    exact List.mem_cons_of_mem _ (h.completed k m hmem)
  · intro o m hmem
    rw [hs, hf]
    rw [hg, List.mem_cons] at hmem
    rcases hmem with heq | hmem
    · obtain ⟨-, rfl, -⟩ : c = c ∧ o = some (s.thread u).tag ∧ m = _ := by simpa using heq
      exact ⟨_, h.tag_lt u hb.2.1, rfl, h.unfailed u hb.2.1⟩
    · exact h.known o m hmem
  · intro k m hmem x hx hxk
    rw [(hcall x).1] at hx
    rw [(hcall x).2.1] at hxk
    by_cases hxu : x = u
    · subst hxu
      rw [hu]
      exact ⟨rfl, Option.some_ne_none p⟩
    · rw [hg, List.mem_cons] at hmem
      rw [hth x hxu]
      rcases hmem with heq | hmem
      · obtain ⟨-, hk, -⟩ : c = c ∧ k = (s.thread u).tag ∧ m = _ := by simpa using heq
        exact absurd (h.tag_inj x u hx hb.2.1 (hxk.trans hk)) hxu
      · exact h.answered k m hmem x hx hxk
  · intro k m1 m2 h1 h2
    rw [hg, List.mem_cons] at h1 h2
    simp only [Prod.mk.injEq, Option.some.injEq, true_and] at h1 h2
    rcases h1 with ⟨hk, h1⟩ | h1 <;> rcases h2 with ⟨hk', h2⟩ | h2
    · rw [h1, h2]
    · exact absurd (hk ▸ h2) (hnew m2)
    · exact absurd (hk' ▸ h1) (hnew m1)
    · exact h.once k m1 m2 h1 h2

theorem calm_refl (c : ℕ) (x : ChanThread) : x.Calm c x :=
  fun hx => ⟨hx, rfl, rfl, fun _ => rfl, fun hs => ⟨hs, rfl⟩⟩

theorem calm_update {x : ChanThread} (hx : (s.thread t).Calm c x) (u : ℕ) :
    (s.thread u).Calm c (Function.update s.thread t x u) := by
  by_cases hut : u = t
  · subst hut
    rw [Function.update_self]
    exact hx
  · rw [Function.update_of_ne hut]
    exact calm_refl c _

theorem Slots.msgs_held (hsl : s.Slots max owner) (ha : s.Alloc max p l n) (m : RtIpcMsg) {t q : ℕ}
    (hq : (s.thread t).msgRet = some q) : Function.update s.msgs p m q = s.msgs q := by
  obtain ⟨-, hp⟩ := hsl.alloc ha
  apply Function.update_of_ne
  rintro rfl
  rw [← hsl.held] at hq
  grind

/-- The next reply of the server `v` of the channel `c` is one to the request `k`: it has received the request, or
is about to. -/
def AnswersTo (s : ChanSys) (c v k : ℕ) : Prop :=
  ((s.thread v).call = some .recv ∧ (s.thread v).channel = c →
    ∃ p, (s.thread v).msgRet = some p ∧ (s.msgs p).tag = k) ∧
  (¬ ((s.thread v).call = some .recv ∧ (s.thread v).channel = c) → s.serving c = some k)

/-- The channel `c` and its server `v`. -/
structure Served (c v : ℕ) (s : ChanSys) : Prop where
  server : ∀ r, (s.thread r).call = some .recv → (s.thread r).channel = c → r = v
  heard : ∀ k, s.serving c = some k → k ∈ s.received
  serving : ∀ t, (s.chan c).alive = true → (s.chan c).reply = some t → s.AnswersTo c v (s.thread t).tag

theorem AnswersTo.congr (h : s.AnswersTo c v k)
    (hcall : (s'.thread v).call = some .recv ∧ (s'.thread v).channel = c ↔
      (s.thread v).call = some .recv ∧ (s.thread v).channel = c)
    (hheld : (s.thread v).call = some .recv → (s.thread v).channel = c → ∀ p, (s.thread v).msgRet = some p →
      (s'.thread v).msgRet = some p ∧ s'.msgs p = s.msgs p)
    (hs : s'.serving c = s.serving c) : s'.AnswersTo c v k := by
  constructor
  · intro hv
    rw [hcall] at hv
    obtain ⟨p, hp, hk⟩ := h.1 hv
    obtain ⟨hp', hm⟩ := hheld hv.1 hv.2 p hp
    exact ⟨p, hp', by rw [hm, hk]⟩
  · intro hv
    rw [hcall] at hv
    rw [hs]
    exact h.2 hv

theorem Served.frame (h : s.Served c v) (hco : s.Coherent)
    (hcall : ∀ r, (s'.thread r).call = some .recv ∧ (s'.thread r).channel = c ↔
      (s.thread r).call = some .recv ∧ (s.thread r).channel = c)
    (hheld : (s.thread v).call = some .recv → (s.thread v).channel = c → ∀ p, (s.thread v).msgRet = some p →
      (s'.thread v).msgRet = some p ∧ s'.msgs p = s.msgs p)
    (htag : ∀ u, (s.thread u).suspended = true → (s'.thread u).tag = (s.thread u).tag)
    (hs : s'.serving c = s.serving c) (hrec : ∀ k ∈ s.received, k ∈ s'.received)
    (hrep : ∀ t, (s'.chan c).alive = true → (s'.chan c).reply = some t →
      (s.chan c).alive = true ∧ (s.chan c).reply = some t) : s'.Served c v := by
  constructor
  · intro r hr hch
    obtain ⟨hr, hch⟩ := (hcall r).mp ⟨hr, hch⟩
    exact h.server r hr hch
  · intro k hk
    rw [hs] at hk
    exact hrec k (h.heard k hk)
  · intro t ha ht
    obtain ⟨ha, ht⟩ := hrep t ha ht
    have hb := ((hco.linked c ha).sender t).mp (Or.inl ht)
    rw [htag t hb.1]
    exact (h.serving t ha ht).congr (hcall v) hheld hs

theorem listening_update {x : ChanThread} (hx : x.call = some .recv ∧ x.channel = c ↔
    (s.thread t).call = some .recv ∧ (s.thread t).channel = c) (r : ℕ) :
    (Function.update s.thread t x r).call = some .recv ∧ (Function.update s.thread t x r).channel = c ↔
      (s.thread r).call = some .recv ∧ (s.thread r).channel = c := by
  by_cases hrt : r = t
  · subst hrt
    rw [Function.update_self]
    exact hx
  · rw [Function.update_of_ne hrt]

theorem reply_update {ch : RtChannel} {d : ℕ} (hch : ch.alive = true → ch.reply = some t →
    (s.chan d).alive = true ∧ (s.chan d).reply = some t) (ha : (Function.update s.chan d ch c).alive = true)
    (ht : (Function.update s.chan d ch c).reply = some t) : (s.chan c).alive = true ∧ (s.chan c).reply = some t := by
  by_cases hd : c = d
  · subst hd
    rw [Function.update_self] at ha ht
    exact hch ha ht
  · rw [Function.update_of_ne hd] at ha ht
    exact ⟨ha, ht⟩

theorem Coherent.no_reply (hco : s.Coherent) (hs : (s.chan c).stat = .idle)
    (ha : (s.chan c).alive = true) : (s.chan c).reply = none :=
  (hco.linked c ha).reply_none (by rw [hs]; decide)

theorem Served.move (h : s.Served c v) (hc : s.Coherent) (hsl : s.Slots max owner)
    (hm : Move max (fun d t => d = c → t = v) s s') : s'.Served c v := by
  -- a thread outside `recv` before and after
  have hneither : ∀ {t} {x : ChanThread}, (s.thread t).call ≠ some .recv → x.call ≠ some .recv → ∀ r,
      (Function.update s.thread t x r).call = some .recv ∧ (Function.update s.thread t x r).channel = c ↔
        (s.thread r).call = some .recv ∧ (s.thread r).channel = c := by
    intro t x ht hx
    exact listening_update (iff_of_false (fun hcall => hx hcall.1) fun hcall => ht hcall.1)
  have hfree : ∀ {t}, s.free t → (s.thread t).call ≠ some .recv := by
    intro t ht
    rw [ht.2]
    simp
  have hsender : ∀ {x : ChanThread}, x.call = some .sendRecv → x.call ≠ some .recv := by
    intro x hx
    rw [hx]
    decide
  have htagf : ∀ {t} {x : ChanThread}, s.free t → (s.thread t).suspended = true → x.tag = (s.thread t).tag := by
    intro t x ht hs
    rw [ht.1] at hs
    cases hs
  have hnone : ∀ {t q} {P : Prop}, (s.thread t).suspended = true → (s.thread t).msgRet = some q → P := by
    intro t q P ht hq
    rw [((hc.settled t).blocked ht).2] at hq
    cases hq
  cases hm with
  | stay => exact h
  | ref d r =>
    apply h.frame hc
    · exact fun _ => Iff.rfl
    · exact fun _ _ _ hp => ⟨hp, rfl⟩
    · exact fun _ _ => rfl
    · rfl
    · exact fun _ hk => hk
    · exact fun t => reply_update fun ha ht => ⟨ha, ht⟩
  | create d hcr =>
    apply h.frame hc
    · exact fun _ => Iff.rfl
    · exact fun _ _ _ hp => ⟨hp, rfl⟩
    · exact fun _ _ => rfl
    · rfl
    · exact fun _ hk => hk
    · exact fun t => reply_update fun _ ht => by cases ht
  | churn t p l n m ha ht =>
    apply h.frame hc
    · exact hneither (hfree ht) (hfree ht)
    · intro hv _ q hq
      obtain ⟨-, h2⟩ := hold_update (fun hx => absurd hx (hfree ht)) v q hv hq
      exact ⟨h2, hsl.msgs_held ha m hq⟩
    · exact tag_update (htagf ht)
    · rfl
    · exact fun _ hk => hk
    · exact fun t ha ht => ⟨ha, ht⟩
  | queue d p l n m ha hal hs hn hm =>
    apply h.frame hc
    · exact fun _ => Iff.rfl
    · exact fun _ _ q hq => ⟨hq, hsl.msgs_held ha m hq⟩
    · exact fun _ _ => rfl
    · rfl
    · exact fun _ hk => hk
    · exact fun t => reply_update fun ha ht => ⟨ha, ht⟩
  | queueWait d t p l n m tm ha hal hs ht hn hsn hm htm =>
    apply h.frame hc
    · exact hneither (hfree ht) (hsender rfl)
    · intro hv _ q hq
      obtain ⟨-, h2⟩ := hold_update (fun hx => absurd hx (hfree ht)) v q hv hq
      exact ⟨h2, hsl.msgs_held ha m hq⟩
    · exact tag_update (htagf ht)
    · rfl
    · exact fun _ hk => hk
    · exact fun t => reply_update fun ha ht => ⟨ha, ht⟩
  | hand d r p l n m ha hal hr hn hm =>
    have hb := hc.suspended_of_receiver hal hr
    apply h.frame hc
    · exact listening_update Iff.rfl
    · intro hv _ q hq
      obtain ⟨-, h2⟩ := hold_update (fun _ _ hq => hnone hb.1 hq) v q hv hq
      exact ⟨h2, hsl.msgs_held ha m hq⟩
    · exact tag_update fun _ => rfl
    · rfl
    · exact fun _ hk => hk
    · exact fun t => reply_update fun ha ht => ⟨ha, ht⟩
  | handWait d t r p l n m tm ha hal hr ht hn hsn hm htm =>
    have hb := hc.suspended_of_receiver hal hr
    have htr : t ≠ r := by
      rintro rfl
      exact ht.not_blocked _ _ hb
    have hcall : ∀ x, (Function.update (Function.update s.thread t
          ((s.thread t).blockedRecord d .sendRecv .senderWaitReply tm s.sends)) r
          ({ s.thread r with msgRet := some p, error := .eok } : ChanThread).woken x).call = some .recv ∧
        (Function.update (Function.update s.thread t
          ((s.thread t).blockedRecord d .sendRecv .senderWaitReply tm s.sends)) r
          ({ s.thread r with msgRet := some p, error := .eok } : ChanThread).woken x).channel = c ↔
        (s.thread x).call = some .recv ∧ (s.thread x).channel = c := by
      intro x
      by_cases hx : x = r
      · subst hx
        rw [Function.update_self]
        exact Iff.rfl
      · rw [Function.update_of_ne hx]
        exact hneither (hfree ht) (hsender rfl) x
    by_cases hd : c = d
    · subst hd
      obtain rfl := h.server r hb.2.1 hb.2.2
      constructor
      · intro x hx hch
        obtain ⟨hx, hch⟩ := (hcall x).mp ⟨hx, hch⟩
        exact h.server x hx hch
      · exact h.heard
      · intro u _ hu
        obtain rfl : t = u := by simpa [unlink] using hu
        -- the server is about to receive the request of `t`
        refine ⟨fun _ => ⟨p, ?_, ?_⟩, fun hv => absurd ((hcall r).mpr hb.2) hv⟩
        · simp [woken]
        · simp [Function.update_of_ne htr, blockedRecord, hm]
    · apply h.frame hc
      · exact hcall
      · intro hv _ q hq
        have hvt : v ≠ t := fun he => hfree ht (he ▸ hv)
        have hvr : v ≠ r := fun he => hnone hb.1 (he ▸ hq)
        dsimp only
        rw [Function.update_of_ne hvr, Function.update_of_ne hvt]
        exact ⟨hq, hsl.msgs_held ha m hq⟩
      · intro u hu
        by_cases hur : u = r
        · subst hur
          dsimp only
          rw [Function.update_self]
          rfl
        · dsimp only
          rw [Function.update_of_ne hur]
          exact tag_update (htagf ht) u hu
      · rfl
      · exact fun _ hk => hk
      · intro u ha hu
        simp only [Function.update_of_ne hd] at ha hu
        exact ⟨ha, hu⟩
  | take d w m l hal hs hw hsv hm hn =>
    by_cases hd : c = d
    · subst hd
      constructor
      · exact h.server
      · intro k hk
        simp only [Function.update_self, Option.some.injEq] at hk
        rw [← hk]
        exact List.mem_cons_self
      · intro t _ ht
        simp only [Function.update_self] at ht
        rw [hc.no_reply hs hal] at ht
        cases ht
    · apply h.frame hc
      · exact fun _ => Iff.rfl
      · exact fun _ _ _ hp => ⟨hp, rfl⟩
      · exact fun _ _ => rfl
      · exact Function.update_of_ne hd _ _
      · exact fun _ hk => List.mem_cons_of_mem _ hk
      · exact fun t => reply_update fun ha ht => ⟨ha, ht⟩
  | takeReply d w m u l ws hal hs hw hsv hm hn hwt =>
    by_cases hd : c = d
    · subst hd
      obtain rfl := hsv rfl
      constructor
      · exact h.server
      · intro k hk
        simp only [Function.update_self, Option.some.injEq] at hk
        rw [← hk]
        exact List.mem_cons_self
      · intro t _ ht
        obtain rfl : u = t := by simpa using ht
        refine ⟨fun hv => absurd hv.1 (hfree hw), fun _ => ?_⟩
        simp [(hc.linked c hal).taken_tag hs hm hn hwt]
    · apply h.frame hc
      · exact fun _ => Iff.rfl
      · exact fun _ _ _ hp => ⟨hp, rfl⟩
      · exact fun _ _ => rfl
      · exact Function.update_of_ne hd _ _
      · exact fun _ hk => List.mem_cons_of_mem _ hk
      · intro t ha ht
        simp only [Function.update_of_ne hd] at ha ht
        exact ⟨ha, ht⟩
  | listen d t tm hal hs hm ht hsv htm =>
    by_cases hd : c = d
    · subst hd
      obtain rfl := hsv rfl
      constructor
      · intro r hr hch
        by_contra hne
        simp only [Function.update_of_ne hne] at hr hch
        exact hne (h.server r hr hch)
      · exact h.heard
      · intro u _ hu
        simp only [Function.update_self] at hu
        rw [hc.no_reply hs hal] at hu
        cases hu
    · apply h.frame hc
      · apply listening_update
        exact iff_of_false (fun hx => hd hx.2.symm) fun hx => hfree ht hx.1
      · intro hv _ q hq
        obtain ⟨-, h2⟩ := hold_update (fun hx => absurd hx (hfree ht)) v q hv hq
        exact ⟨h2, rfl⟩
      · exact tag_update (htagf ht)
      · rfl
      · exact fun _ hk => hk
      · exact fun t => reply_update fun ha ht => ⟨ha, ht⟩
  | answer d w u p l n m ha hal hw hsv hu =>
    have hb := ((hc.linked d hal).sender u).mp (Or.inl hu)
    apply h.frame hc
    · exact hneither (hsender hb.2.1) (hsender hb.2.1)
    · intro hv _ q hq
      obtain ⟨-, h2⟩ := hold_update (fun hx => absurd hx (hsender hb.2.1)) v q hv hq
      exact ⟨h2, hsl.msgs_held ha m hq⟩
    · exact tag_update fun _ => rfl
    · rfl
    · exact fun _ hk => hk
    · exact fun t => reply_update fun _ ht => by cases ht
  | fail t hs hcall he | complete t p hs hcall hp =>
    apply h.frame hc
    · exact hneither (hsender hcall) (by simp)
    · intro hv _ q hq
      obtain ⟨-, h2⟩ := hold_update (fun hx => absurd hx (hsender hcall)) v q hv hq
      exact ⟨h2, rfl⟩
    · exact tag_update fun _ => rfl
    · rfl
    · exact fun _ hk => hk
    · exact fun t ha ht => ⟨ha, ht⟩
  | failRecv t hs hcall he =>
    have hret : (s.thread t).msgRet = none := by
      by_contra hne
      exact he (((hc.settled t).result hs (by rw [hcall]; simp)).mpr hne)
    by_cases hch : (s.thread t).channel = c
    · obtain rfl := h.server t hcall hch
      constructor
      · intro r hr hrc
        by_cases hrt : r = t
        · exact hrt
        · simp only [Function.update_of_ne hrt] at hr hrc
          exact h.server r hr hrc
      · exact h.heard
      · intro u ha hu
        -- a server that comes back empty-handed owes no reply
        obtain ⟨p, hp, -⟩ := (h.serving u ha hu).1 ⟨hcall, hch⟩
        rw [hret] at hp
        cases hp
    · apply h.frame hc
      · apply listening_update
        exact iff_of_false (fun hx => by cases hx.1) fun hx => hch hx.2
      · intro hv hvc q hq
        have hvt : v ≠ t := fun he => hch (he ▸ hvc)
        dsimp only
        rw [Function.update_of_ne hvt]
        exact ⟨hq, rfl⟩
      · exact tag_update fun _ => rfl
      · rfl
      · exact fun _ hk => hk
      · exact fun t ha ht => ⟨ha, ht⟩
  | receive t p hs hcall hp =>
    by_cases hch : (s.thread t).channel = c
    · obtain rfl := h.server t hcall hch
      constructor
      · intro r hr hrc
        by_cases hrt : r = t
        · exact hrt
        · simp only [Function.update_of_ne hrt] at hr hrc
          exact h.server r hr hrc
      · intro k hk
        simp only [hch, Function.update_self, Option.some.injEq] at hk
        rw [← hk]
        exact List.mem_cons_self
      · intro u ha hu
        have hb := ((hc.linked c ha).sender u).mp (Or.inl hu)
        obtain ⟨q, hq, htag⟩ := (h.serving u ha hu).1 ⟨hcall, hch⟩
        obtain rfl : p = q := by rw [hp] at hq; exact Option.some.inj hq
        have hut : u ≠ t := by
          rintro rfl
          exact hsender hb.2.1 hcall
        refine ⟨?_, fun _ => ?_⟩
        · intro hv
          simp at hv
        · simp [hch, Function.update_of_ne hut, htag]
    · apply h.frame hc
      · apply listening_update
        exact iff_of_false (fun hx => by cases hx.1) fun hx => hch hx.2
      · intro hv hvc q hq
        have hvt : v ≠ t := fun he => hch (he ▸ hvc)
        dsimp only
        rw [Function.update_of_ne hvt]
        exact ⟨hq, rfl⟩
      · exact tag_update fun _ => rfl
      · exact Function.update_of_ne (Ne.symm hch) _ _
      · exact fun _ hk => List.mem_cons_of_mem _ hk
      · exact fun t ha ht => ⟨ha, ht⟩
  | giveUpReply t d e he ht hr =>
    apply h.frame hc
    · exact listening_update Iff.rfl
    · intro hv _ q hq
      obtain ⟨-, h2⟩ := hold_update (fun _ _ hq => hnone ht.1 hq) v q hv hq
      exact ⟨h2, rfl⟩
    · exact tag_update fun _ => rfl
    · rfl
    · exact fun _ hk => hk
    · exact fun t => reply_update fun _ ht => by cases ht
  | giveUpQueued t d m e he ht hal hr hm hn hsn | unlisten t d e he ht =>
    apply h.frame hc
    · exact listening_update Iff.rfl
    · intro hv _ q hq
      obtain ⟨-, h2⟩ := hold_update (fun _ _ hq => hnone ht.1 hq) v q hv hq
      exact ⟨h2, rfl⟩
    · exact tag_update fun _ => rfl
    · rfl
    · exact fun _ hk => hk
    · exact fun t => reply_update fun ha ht => ⟨ha, ht⟩
  | giveUpDead t d e he ht hdead =>
    apply h.frame hc
    · exact listening_update Iff.rfl
    · intro hv _ q hq
      obtain ⟨-, h2⟩ := hold_update (fun _ _ hq => hnone ht.1 hq) v q hv hq
      exact ⟨h2, rfl⟩
    · exact tag_update fun _ => rfl
    · rfl
    · exact fun _ hk => hk
    · exact fun t ha ht => ⟨ha, ht⟩

theorem Clients.move (h : s.Clients c) (hsv : s.Served c v) (hc : s.Coherent) (hsl : s.Slots max owner)
    (hm : Move max (fun d t => d = c → t = v) s s') : s'.Clients c := by
  have hsame : ∀ t, (s.thread t).Calm c (s.thread t) := fun t => calm_refl c _
  have hnocall : ∀ {t} {x : ChanThread}, x.call ≠ some .sendRecv → (s.thread t).Calm c x :=
    fun hx hcall => absurd hcall hx
  have hslot : ∀ {p l n} (_ : s.Alloc max p l n) (m : RtIpcMsg) (t q : ℕ), (s.thread t).call = some .sendRecv →
      (s.thread t).channel = c → (s.thread t).msgRet = some q → Function.update s.msgs p m q = s.msgs q :=
    fun ha m _ _ _ _ hq => hsl.msgs_held ha m hq
  have hgiveUp : ∀ {t} (e : ChanErr), (s.thread t).Calm c ({ s.thread t with error := e } : ChanThread).woken :=
    fun _ hcall => ⟨hcall, rfl, rfl, fun _ => rfl, fun _ => ⟨rfl, rfl⟩⟩
  cases hm with
  | stay => exact h
  | ref d r | create d hcr | take d w m l hal hs hw hsw hm hn | takeReply d w m u l ws hal hs hw hsw hm hn hwt =>
    apply h.frame
    · exact hsame
    · exact fun _ _ _ _ _ => rfl
    · exact le_rfl
    · exact fun _ _ => Iff.rfl
    · exact fun _ _ hmem => Or.inl hmem
    · exact fun _ hk => Or.inl hk
  | churn t p l n m ha ht =>
    apply h.frame
    · exact calm_update (hnocall (by rw [ht.2]; simp))
    · exact hslot ha m
    · exact Nat.le_succ _
    · exact fun _ _ => Iff.rfl
    · exact fun _ _ hmem => Or.inl hmem
    · exact fun _ hk => Or.inl hk
  | queue d p l n m ha hal hs hn hm =>
    apply h.frame
    · exact hsame
    · exact hslot ha m
    · exact Nat.le_succ _
    · exact fun _ _ => Iff.rfl
    · exact fun _ _ hmem => Or.inl hmem
    · exact fun _ hk => Or.inl hk
  | queueWait d t p l n m tm ha hal hs ht hn hsn hm htm =>
    apply h.join (t := t)
    · intro u hu
      dsimp only
      rw [Function.update_of_ne hu]
      exact hsame u
    · exact fun _ _ _ hq => hsl.msgs_held ha m hq
    · simp [blockedRecord]
    · simp [blockedRecord, (hc.settled t).outside ht.2]
    · rfl
    · rfl
    · rfl
    · rfl
  | hand d r p l n m ha hal hr hn hm =>
    apply h.frame
    · exact calm_update (hnocall (by rw [woken, (hc.suspended_of_receiver hal hr).2.1]; simp))
    · exact hslot ha m
    · exact Nat.le_succ _
    · exact fun _ _ => Iff.rfl
    · exact fun _ _ hmem => Or.inl hmem
    · exact fun _ hk => Or.inl hk
  | handWait d t r p l n m tm ha hal hr ht hn hsn hm htm =>
    have hb := hc.suspended_of_receiver hal hr
    have htr : t ≠ r := by
      rintro rfl
      exact ht.not_blocked _ _ hb
    apply h.join (t := t)
    · intro u hu
      by_cases hur : u = r
      · subst hur
        dsimp only
        rw [Function.update_self]
        exact hnocall (by rw [woken, hb.2.1]; simp)
      · dsimp only
        rw [Function.update_of_ne hur, Function.update_of_ne hu]
        exact hsame u
    · exact fun _ _ _ hq => hsl.msgs_held ha m hq
    · simp [Function.update_of_ne htr, blockedRecord]
    · simp [Function.update_of_ne htr, blockedRecord, (hc.settled t).outside ht.2]
    · rfl
    · rfl
    · rfl
    · rfl
  | listen d t tm hal hs hm ht hsw htm =>
    apply h.frame
    · exact calm_update (hnocall (by simp [blockedRecord]))
    · exact fun _ _ _ _ _ => rfl
    · exact le_rfl
    · exact fun _ _ => Iff.rfl
    · exact fun _ _ hmem => Or.inl hmem
    · exact fun _ hk => Or.inl hk
  | answer d w u p l n m ha hal hw hsw hu =>
    have hb := ((hc.linked d hal).sender u).mp (Or.inl hu)
    by_cases hd : c = d
    · subst hd
      obtain rfl := hsw rfl
      have hans := (hsv.serving u hal hu).2 fun hv => by rw [hw.2] at hv; cases hv.1
      apply h.answer (p := p) hb
      · dsimp only
        rw [hans]
      · simp
      · intro x hx
        exact Function.update_of_ne hx _ _
      · exact Function.update_self _ _ _
      · exact fun _ _ hq => hsl.msgs_held ha m hq
      · rfl
      · rfl
      · rfl
    · apply h.frame
      · apply calm_update
        intro hcall
        refine ⟨hcall, rfl, rfl, fun hch => absurd (hch.symm.trans hb.2.2) hd, fun hs => ?_⟩
        rw [hb.1] at hs
        cases hs
      · exact hslot ha m
      · exact le_rfl
      · intro o m
        simp [hd]
      · exact fun _ _ hmem => Or.inl hmem
      · exact fun _ hk => Or.inl hk
  | fail t hs hcall he =>
    have hret : (s.thread t).msgRet = none := by
      by_contra hne
      exact he (((hc.settled t).result hs (by rw [hcall]; simp)).mpr hne)
    apply h.frame
    · exact calm_update (hnocall (by simp))
    · exact fun _ _ _ _ _ => rfl
    · exact le_rfl
    · exact fun _ _ => Iff.rfl
    · exact fun _ _ hmem => Or.inl hmem
    · intro k hk
      rcases List.mem_cons.mp hk with rfl | hk
      · refine Or.inr ⟨h.tag_lt t hcall, ?_, ?_⟩
        -- a request that fails was not answered
        · intro m hmem
          exact (h.answered _ m hmem t hcall rfl).2 hret
        · intro u hu heq
          have hut : u ≠ t := by
            rintro rfl
            simp at hu
          simp only [Function.update_of_ne hut] at hu heq
          exact hut (h.tag_inj u t hu hcall heq)
      · exact Or.inl hk
  | failRecv t hs hcall he | receive t p hs hcall hp =>
    apply h.frame
    · exact calm_update (hnocall (by simp))
    · exact fun _ _ _ _ _ => rfl
    · exact le_rfl
    · exact fun _ _ => Iff.rfl
    · exact fun _ _ hmem => Or.inl hmem
    · exact fun _ hk => Or.inl hk
  | complete t p hs hcall hp =>
    apply h.frame
    · exact calm_update (hnocall (by simp))
    · exact fun _ _ _ _ _ => rfl
    · exact le_rfl
    · exact fun _ _ => Iff.rfl
    · intro k m hmem
      rcases List.mem_cons.mp hmem with heq | hmem
      · obtain ⟨hch, rfl, rfl⟩ : c = (s.thread t).channel ∧ k = (s.thread t).tag ∧ m = (s.msgs p).msg := by
          simpa using heq
        exact Or.inr (h.held t p hcall hch.symm hp)
      · exact Or.inl hmem
    · exact fun _ hk => Or.inl hk
  | giveUpReply t d e he ht hr | giveUpQueued t d m e he ht hal hr hm hn hsn | giveUpDead t d e he ht hdead
  | unlisten t d e he ht =>
    apply h.frame
    · exact calm_update (hgiveUp e)
    · exact fun _ _ _ _ _ => rfl
    · exact le_rfl
    · exact fun _ _ => Iff.rfl
    · exact fun _ _ hmem => Or.inl hmem
    · exact fun _ hk => Or.inl hk

theorem closed_thread (d t : ℕ) : (s.closed d).thread t = s.thread t ∨
    (s.closed d).thread t = ({ s.thread t with error := .error } : ChanThread).woken := by
  unfold closed
  dsimp only
  split
  · exact Or.inr rfl
  · exact Or.inl rfl

theorem Clients.close (h : s.Clients c) (d : ℕ) : (s.closed d).Clients c := by
  apply h.frame
  · intro t hcall
    rcases closed_thread (s := s) d t with he | he <;> rw [he] at hcall ⊢
    · exact calm_refl c _ hcall
    · exact ⟨hcall, rfl, rfl, fun _ => rfl, fun _ => ⟨rfl, rfl⟩⟩
  · exact fun _ _ _ _ _ => rfl
  · exact le_rfl
  · exact fun _ _ => Iff.rfl
  · exact fun _ _ hmem => Or.inl hmem
  · exact fun _ hk => Or.inl hk

theorem Served.close (h : s.Served c v) (hco : s.Coherent) (d : ℕ) : (s.closed d).Served c v := by
  apply h.frame hco
  · intro r
    rcases closed_thread (s := s) d r with he | he <;> rw [he]
    rfl
  · intro _ _ p hp
    refine ⟨?_, rfl⟩
    rcases closed_thread (s := s) d v with he | he <;> rw [he]
    · exact hp
    · exact hp
  · intro u _
    rcases closed_thread (s := s) d u with he | he <;> rw [he]
    rfl
  · rfl
  · exact fun _ hk => hk
  · exact fun t => reply_update fun ha _ => nomatch ha

theorem run_served {es : List Event} (hr : run (step max) init es = some s)
    (hv : ∀ e ∈ es, ∀ t, e.Serves c t → t = v) :
    s.Coherent ∧ (∃ owner, s.Slots max owner) ∧ s.Served c v ∧ s.Clients c := by
  apply run_invariant_of_meets (fun s => s.Coherent ∧ (∃ owner, s.Slots max owner) ∧ s.Served c v ∧ s.Clients c) _ hr
    (meets_of_forall hv)
  · refine ⟨coherent_init, ⟨_, slots_init max⟩, ?_, ?_⟩ <;> constructor <;> simp [init]
  · rintro s e s' ⟨h, ⟨owner, hsl⟩, hserved, hclients⟩ he hs
    have hst : Stepped max (fun d t => d = c → t = v) s e s' :=
      step_stepped h hsl (fun d t hserves hd => he t (hd ▸ hserves)) hs
    obtain ⟨owner', hsl', -⟩ := hsl.stepped h hst
    refine ⟨h.stepped hsl hst, ⟨owner', hsl'⟩, ?_⟩
    obtain ⟨s1, hm, rfl | ⟨d, -, -, -, rfl⟩⟩ := hst
    · exact ⟨hserved.move h hsl hm, hclients.move hserved h hsl hm⟩
    · exact ⟨(hserved.move h hsl hm).close (h.move hsl hm) d, (hclients.move hserved h hsl hm).close d⟩

theorem Served.rawReply_eok (h : s.Served c v) (hco : s.Coherent) (hv : s.free v) {data : RtChannelMsg}
    (hok : (s.rawReply max c v data).2 = .eok) :
    ∃ t, (s.thread t).BlockedIn .sendRecv c ∧ s.serving c = some (s.thread t).tag ∧
      ∀ u, u ≠ t → (s.rawReply max c v data).1.thread u = s.thread u := by
  unfold rawReply at hok ⊢
  split at hok
  case isTrue => cases hok
  case isFalse hdead =>
  have hc : (s.chan c).alive = true := by simpa using hdead
  rw [if_neg hdead]
  split at hok
  case isTrue => cases hok
  case isFalse hst =>
  rw [if_neg hst]
  split at hok
  case h_1 => cases hok
  case h_2 t ht =>
  split at hok
  case h_1 => cases hok
  case h_2 p s1 ha =>
    have hb := ((hco.linked c hc).sender t).mp (Or.inl ht)
    have hout : ¬ ((s.thread v).call = some .recv ∧ (s.thread v).channel = c) := by
      rw [hv.2]
      simp
    refine ⟨t, hb, (h.serving t hc ht).2 hout, ?_⟩
    intro u hu
    have hth : s1.thread = s.thread := by rw [msgAlloc_eq ha]
    dsimp only [setChan]
    rw [resume_setThread _ (by dsimp only [msgInit]; rw [hth]; exact hb.1)]
    dsimp only [msgInit]
    rw [Function.update_of_ne hu, hth]

/-- One thread serves the channel `c`, whatever the others and the other channels do. -/
theorem channel_replies_paired (max : ℕ) (es : List Event) (s : ChanSys) (c v : ℕ)
    (hr : run (step max) init es = some s) (hv : ∀ e ∈ es, ∀ t, e.Serves c t → t = v) :
    (∀ k m, (c, k, m) ∈ s.completed → (c, some k, m) ∈ s.given) ∧
      (∀ k m m', (c, some k, m) ∈ s.given → (c, some k, m') ∈ s.given → m = m') ∧
      (∀ o m, (c, o, m) ∈ s.given → ∃ k, o = some k ∧ k ∉ s.failed) ∧
      (∀ data, s.free v → (s.rawReply max c v data).2 = .eok → ∃ t, (s.thread t).BlockedIn .sendRecv c ∧
        s.serving c = some (s.thread t).tag ∧ (s.thread t).tag ∈ s.received ∧
        ∀ u, u ≠ t → (s.rawReply max c v data).1.thread u = s.thread u) ∧
      s.received.Nodup := by
  obtain ⟨h, -, hserved, hclients⟩ := run_served hr hv
  obtain ⟨-, -, htagged, -⟩ := run_tagged hr
  refine ⟨hclients.completed, hclients.once, ?_, ?_, htagged.nodup⟩
  · intro o m hmem
    obtain ⟨k, -, ho, hk⟩ := hclients.known o m hmem
    exact ⟨k, ho, hk⟩
  · intro data hfree hok
    obtain ⟨t, hb, hserving, hrest⟩ := hserved.rawReply_eok h hfree hok
    exact ⟨t, hb, hserving, hserved.heard _ hserving, hrest⟩

theorem channel_replies_paired_example :
    ∃ s, run (step 4) init [.openCh 0, .recv 0 9 (-1) false, .sendRecv 0 1 ⟨0, 7, 0, 0⟩ 5 false,
        .sendRecv 0 2 ⟨0, 8, 0, 0⟩ 5 false, .timeout 1, .finish 9, .finish 1, .recv 0 9 0 false,
        .reply 0 9 ⟨0, 9, 0, 0⟩, .finish 2] = some s ∧
      (0, 1, ⟨9, 9, 0, 0⟩) ∈ s.completed ∧ (0, some 1, ⟨9, 9, 0, 0⟩) ∈ s.given := by
  obtain ⟨s, hs, hmem⟩ := Option.map_eq_some_iff.mp (show (run (step 4) init [.openCh 0, .recv 0 9 (-1) false,
    .sendRecv 0 1 ⟨0, 7, 0, 0⟩ 5 false, .sendRecv 0 2 ⟨0, 8, 0, 0⟩ 5 false, .timeout 1, .finish 9, .finish 1,
    .recv 0 9 0 false, .reply 0 9 ⟨0, 9, 0, 0⟩, .finish 2]).map (fun s => s.completed) =
      some [(0, 1, ⟨9, 9, 0, 0⟩)] by decide +kernel)
  have hdone : (0, 1, ⟨9, 9, 0, 0⟩) ∈ s.completed := by rw [hmem]; exact List.mem_singleton_self _
  refine ⟨s, hs, hdone, (channel_replies_paired 4 _ s 0 9 hs ?_).1 1 _ hdone⟩
  intro e he t ht
  simp only [List.mem_cons, List.not_mem_nil, or_false] at he
  rcases he with rfl | rfl | rfl | rfl | rfl | rfl | rfl | rfl | rfl | rfl <;> simp_all [Event.Serves]

end ChanSys

end RtSmart
