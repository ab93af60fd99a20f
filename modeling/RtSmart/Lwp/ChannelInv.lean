import RtSmart.Lwp.Channel

/-!
The invariant of the channels: what the record of a thread says about the call it is in, and how the
lists of a channel and the threads suspended on it belong together.
-/

namespace RtSmart

/-- The thread is suspended in `call` on the channel `c`. -/
def ChanThread.BlockedIn (x : ChanThread) (call : ChanCall) (c : ℕ) : Prop :=
  x.suspended = true ∧ x.call = some call ∧ x.channel = c

structure ChanThread.Settled (x : ChanThread) : Prop where
  blocked : x.suspended = true → x.error = .eok ∧ x.msgRet = none
  wakeup : x.suspended = true → (x.call = some .recv ∧ x.wakeup = some .receiver) ∨
    (x.call = some .sendRecv ∧ (x.wakeup = some .senderWaitRecv ∨ x.wakeup = some .senderWaitReply))
  ready : x.suspended = false → x.timer = none ∧ x.wakeup = none
  outside : x.call = none → x.msgRet = none
  result : x.suspended = false → x.call ≠ none → (x.error = .eok ↔ x.msgRet ≠ none)
  timer : ∀ f, x.timer = some f → x.call = some f

namespace ChanThread

variable {x : ChanThread}

/-- What `wake` makes of the record of a thread. -/
def woken (x : ChanThread) : ChanThread := { x with suspended := false, timer := none, wakeup := none }

theorem Settled.call_ne (h : x.Settled) (hs : x.suspended = true) : x.call ≠ none := by
  rcases h.wakeup hs with ⟨hc, -⟩ | ⟨hc, -⟩ <;> simp [hc]

theorem Settled.giveUp (h : x.Settled) (hs : x.suspended = true) {e : ChanErr} (he : e ≠ .eok) :
    ({ x with error := e } : ChanThread).woken.Settled := by
  have hb := h.blocked hs
  have hc := h.call_ne hs
  constructor <;> simp [woken, hb, he, hc]

theorem Settled.deliver (h : x.Settled) (hs : x.suspended = true) (p : ℕ) :
    ({ x with msgRet := some p, error := .eok } : ChanThread).woken.Settled := by
  have hc := h.call_ne hs
  constructor <;> simp [woken, hc]

theorem Settled.answer (h : x.Settled) (hs : x.suspended = true) (p : ℕ) :
    ({ x with msgRet := some p } : ChanThread).woken.Settled := by
  have hb := h.blocked hs
  have hc := h.call_ne hs
  constructor <;> simp [woken, hb, hc]

theorem Settled.setError (h : x.Settled) (hc : x.call = none) (e : ChanErr) :
    ({ x with error := e } : ChanThread).Settled := by
  have hs : x.suspended = false := by
    by_contra hne
    exact h.call_ne (by simpa using hne) hc
  have hr := h.ready hs
  have ho := h.outside hc
  constructor <;> simp [hs, hc, hr, ho]

def blockedRecord (x : ChanThread) (c : ℕ) (call : ChanCall) (w : WakeupFunc) (tm : Option ChanCall) (tag : ℕ) :
    ChanThread :=
  { x with suspended := true, call := some call, channel := c, error := .eok, wakeup := some w, timer := tm, tag := tag }

theorem Settled.block (h : x.Settled) (hc : x.call = none) {c : ℕ} {call : ChanCall}
    {w : WakeupFunc} {tm : Option ChanCall} {tag : ℕ} (htm : ∀ f, tm = some f → f = call)
    (hw : (call = .recv ∧ w = .receiver) ∨ (call = .sendRecv ∧ (w = .senderWaitRecv ∨ w = .senderWaitReply))) :
    (x.blockedRecord c call w tm tag).Settled := by
  have ho := h.outside hc
  constructor
  · intro _
    exact ⟨rfl, ho⟩
  · intro _
    rcases hw with ⟨rfl, rfl⟩ | ⟨rfl, rfl | rfl⟩ <;> simp [blockedRecord]
  · intro hs
    cases hs
  · intro hs
    cases hs
  · intro hs
    cases hs
  · intro f hf
    exact congrArg some (htm f hf).symm

theorem Settled.leave (h : x.Settled) (hs : x.suspended = false) :
    ({ x with call := none, msgRet := none } : ChanThread).Settled := by
  have hr := h.ready hs
  constructor <;> simp [hs, hr]

theorem Settled.leave_failed (h : x.Settled) (hs : x.suspended = false)
    (hc : x.call ≠ none) (he : x.error ≠ .eok) : ({ x with call := none } : ChanThread).Settled := by
  have hr := h.ready hs
  have hnone : x.msgRet = none := by
    by_contra hne
    exact he ((h.result hs hc).mpr hne)
  constructor <;> simp [hs, hr, hnone]

end ChanThread

/-- The threads whose requests wait in the channel. -/
def RtChannel.senders (ch : RtChannel) (msgs : ℕ → RtIpcMsg) : List ℕ :=
  (ch.waitMsg.filter fun m => (msgs m).needReply).map fun m => (msgs m).msg.sender

/-- The channel `c` with the record `ch`, among the threads and messages given. -/
structure RtChannel.Linked (thread : ℕ → ChanThread) (msgs : ℕ → RtIpcMsg) (c : ℕ) (ch : RtChannel) : Prop where
  stat_wait : ch.stat = .wait ↔ ch.suspendThread ≠ []
  one : ch.suspendThread.length ≤ 1
  quiet : ch.stat = .wait → ch.waitMsg = []
  stat_active : ch.stat = .active ↔ ch.reply ≠ none
  aligned : ch.waitThread = ch.senders msgs ∨ ∃ t, ch.reply = some t ∧ ch.waitThread = t :: ch.senders msgs
  distinct : (ch.reply.toList ++ ch.senders msgs).Nodup
  sender : ∀ t, (ch.reply = some t ∨ t ∈ ch.senders msgs) ↔ (thread t).BlockedIn .sendRecv c
  receiver : ∀ t, t ∈ ch.suspendThread ↔ (thread t).BlockedIn .recv c
  handed : ∀ t, (thread t).BlockedIn .sendRecv c → (thread t).wakeup = some .senderWaitReply → ch.reply = some t
  tags : ∀ m ∈ ch.waitMsg, (msgs m).needReply = true → (msgs m).tag = (thread (msgs m).msg.sender).tag

namespace RtChannel.Linked

variable {thread thread' : ℕ → ChanThread} {msgs msgs' : ℕ → RtIpcMsg} {c : ℕ} {ch : RtChannel} {t r p m u : ℕ}

theorem senders_congr (hm : ∀ m ∈ ch.waitMsg, msgs' m = msgs m) : ch.senders msgs' = ch.senders msgs := by
  unfold senders
  have hf : ch.waitMsg.filter (fun m => (msgs' m).needReply) = ch.waitMsg.filter fun m => (msgs m).needReply :=
    List.filter_congr fun m hmem => by rw [hm m hmem]
  rw [hf]
  apply List.map_congr_left
  intro m hmem
  rw [hm m (List.mem_filter.mp hmem).1]

theorem mem_senders : t ∈ ch.senders msgs ↔
    ∃ m ∈ ch.waitMsg, (msgs m).needReply = true ∧ (msgs m).msg.sender = t := by
  simp only [senders, List.mem_map, List.mem_filter, and_assoc]

theorem not_blocked_of_free {x : ChanThread} (hx : x.suspended = false) (call : ChanCall) : ¬ x.BlockedIn call c := by
  rintro ⟨hs, -⟩
  rw [hx] at hs
  cases hs

theorem frame (h : Linked thread msgs c ch)
    (ht : ∀ x, thread' x = thread x ∨ ∀ call, ¬ (thread x).BlockedIn call c ∧ ¬ (thread' x).BlockedIn call c)
    (hm : ∀ m ∈ ch.waitMsg, msgs' m = msgs m) : Linked thread' msgs' c ch := by
  have hblocked : ∀ x call, (thread' x).BlockedIn call c ↔ (thread x).BlockedIn call c := by
    intro x call
    rcases ht x with he | hn
    · rw [he]
    · exact iff_of_false (hn call).2 (hn call).1
  have hsame : ∀ x call, (thread x).BlockedIn call c → thread' x = thread x := by
    intro x call hb
    exact (ht x).resolve_right fun hn => (hn call).1 hb
  have hsend := senders_congr hm
  constructor
  · exact h.stat_wait
  · exact h.one
  · exact h.quiet
  · exact h.stat_active
  · rw [hsend]; exact h.aligned
  · rw [hsend]; exact h.distinct
  · intro t
    rw [hsend, hblocked]
    exact h.sender t
  · intro t
    rw [hblocked]
    exact h.receiver t
  · intro t hb hw
    rw [hblocked] at hb
    rw [hsame t _ hb] at hw
    exact h.handed t hb hw
  · intro m hmem hn
    rw [hm m hmem] at hn ⊢
    have hb := (h.sender _).mp (Or.inr (mem_senders.mpr ⟨m, hmem, hn, rfl⟩))
    rw [hsame _ _ hb]
    exact h.tags m hmem hn

theorem waitThread_blocked (h : Linked thread msgs c ch) (ht : t ∈ ch.waitThread) :
    (thread t).BlockedIn .sendRecv c := by
  rw [← h.sender]
  rcases h.aligned with he | ⟨u, hu, he⟩
  · exact Or.inr (he ▸ ht)
  · rw [he, List.mem_cons] at ht
    rcases ht with rfl | ht
    · exact Or.inl hu
    · exact Or.inr ht

theorem unlink_of_ne (h : Linked thread msgs c ch) (ht : ∀ call, ¬ (thread t).BlockedIn call c) : ch.unlink t = ch := by
  have hs : t ∉ ch.suspendThread := fun hmem => ht _ ((h.receiver t).mp hmem)
  have hw : t ∉ ch.waitThread := fun hmem => ht _ (h.waitThread_blocked hmem)
  unfold unlink
  rw [List.erase_of_not_mem hs, List.erase_of_not_mem hw]

theorem reply_none (h : Linked thread msgs c ch) (hs : ch.stat ≠ .active) : ch.reply = none := by
  by_contra hne
  exact hs (h.stat_active.mpr hne)

theorem suspendThread_nil (h : Linked thread msgs c ch) (hs : ch.stat ≠ .wait) : ch.suspendThread = [] := by
  by_contra hne
  exact hs (h.stat_wait.mpr hne)

theorem suspendThread_eq (h : Linked thread msgs c ch) (ht : t ∈ ch.suspendThread) : ch.suspendThread = [t] := by
  have hone := h.one
  match hl : ch.suspendThread, ht with
  | [a], ht =>
    rw [List.mem_singleton] at ht
    rw [ht]
  | a :: b :: l, _ =>
    rw [hl] at hone
    simp at hone

theorem senders_append (p : ℕ) : ({ ch with waitMsg := ch.waitMsg ++ [p] } : RtChannel).senders msgs =
    ch.senders msgs ++ if (msgs p).needReply then [(msgs p).msg.sender] else [] := by
  unfold senders
  cases hn : (msgs p).needReply <;> simp [hn]

theorem map_filter_erase {q : ℕ → Bool} {f : ℕ → ℕ} {l : List ℕ} (hm : m ∈ l) (hq : q m = true)
    (hd : ((l.filter q).map f).Nodup) : ((l.erase m).filter q).map f = ((l.filter q).map f).erase (f m) := by
  induction l with
  | nil => cases hm
  | cons a l ih =>
    by_cases ha : a = m
    · subst ha
      simp [hq]
    · have hml : m ∈ l := (List.mem_cons.mp hm).resolve_left (Ne.symm ha)
      rw [List.erase_cons_tail (by simpa using ha)]
      by_cases hqa : q a = true
      · rw [List.filter_cons_of_pos hqa, List.map_cons] at hd ⊢
        rw [List.filter_cons_of_pos hqa, List.map_cons]
        have hne : f a ≠ f m := by
          intro he
          exact (List.nodup_cons.mp hd).1 (he ▸ List.mem_map_of_mem (List.mem_filter.mpr ⟨hml, hq⟩))
        rw [List.erase_cons_tail (by simpa using hne), ih hml (List.nodup_cons.mp hd).2]
      · rw [List.filter_cons_of_neg hqa] at hd ⊢
        rw [List.filter_cons_of_neg hqa]
        exact ih hml hd

theorem queue (h : Linked thread msgs c ch) (hs : ch.stat ≠ .wait) (hp : p ∉ ch.waitMsg)
    (hn : (msgs' p).needReply = false) (hm : ∀ m, m ≠ p → msgs' m = msgs m) :
    Linked thread msgs' c { ch with waitMsg := ch.waitMsg ++ [p] } := by
  have hmem : ∀ m ∈ ch.waitMsg, msgs' m = msgs m := fun m hmem => hm m fun he => hp (he ▸ hmem)
  have h' : Linked thread msgs' c ch := h.frame (fun _ => Or.inl rfl) hmem
  have hsend : ({ ch with waitMsg := ch.waitMsg ++ [p] } : RtChannel).senders msgs' = ch.senders msgs' := by
    rw [senders_append, hn]
    simp
  constructor
  · exact h.stat_wait
  · exact h.one
  · intro hw
    exact absurd hw hs
  · exact h.stat_active
  · rw [hsend]; exact h'.aligned
  · rw [hsend]; exact h'.distinct
  · rw [hsend]; exact h'.sender
  · exact h.receiver
  · exact h.handed
  · intro m hm' hnr
    rcases List.mem_append.mp hm' with hm' | hm'
    · exact h'.tags m hm' hnr
    · rw [List.mem_singleton.mp hm', hn] at hnr
      cases hnr

theorem queueWait (h : Linked thread msgs c ch) (hs : ch.stat ≠ .wait) (hp : p ∉ ch.waitMsg)
    (hm : ∀ m, m ≠ p → msgs' m = msgs m) (hn : (msgs' p).needReply = true) (hsender : (msgs' p).msg.sender = t)
    (htag : (msgs' p).tag = (thread' t).tag) (hfree : (thread t).suspended = false)
    (hth : ∀ x, x ≠ t → thread' x = thread x) (hb : (thread' t).BlockedIn .sendRecv c)
    (hw : (thread' t).wakeup = some .senderWaitRecv) :
    Linked thread' msgs' c { ch with waitThread := ch.waitThread ++ [t], waitMsg := ch.waitMsg ++ [p] } := by
  have hmem : ∀ m ∈ ch.waitMsg, msgs' m = msgs m := fun m hmem => hm m fun he => hp (he ▸ hmem)
  have h' : Linked thread msgs' c ch := h.frame (fun _ => Or.inl rfl) hmem
  have hsend : ({ ch with waitMsg := ch.waitMsg ++ [p] } : RtChannel).senders msgs' = ch.senders msgs' ++ [t] := by
    rw [senders_append, hn, hsender]
    rfl
  have hnot : ¬ (ch.reply = some t ∨ t ∈ ch.senders msgs') := by
    rw [h'.sender]
    exact not_blocked_of_free hfree _
  rw [not_or] at hnot
  constructor
  · exact h.stat_wait
  · exact h.one
  · intro hw
    exact absurd hw hs
  · exact h.stat_active
  · change ch.waitThread ++ [t] = senders _ msgs' ∨ ∃ u, ch.reply = some u ∧ ch.waitThread ++ [t] = u :: senders _ msgs'
    have hal := h'.aligned
    unfold senders at hsend hal ⊢
    dsimp only at hsend ⊢
    rw [hsend]
    rcases hal with he | ⟨u, hu, he⟩
    · exact Or.inl (by rw [he])
    · exact Or.inr ⟨u, hu, by rw [he]; rfl⟩
  · have hd := h'.distinct
    unfold senders at hsend hd hnot ⊢
    dsimp only at hsend ⊢
    rw [hsend, ← List.append_assoc]
    apply List.Nodup.append hd (List.nodup_singleton t)
    rw [List.disjoint_singleton, List.mem_append, Option.mem_toList]
    exact fun hor => hor.elim (fun hr => hnot.1 hr) hnot.2
  · intro x
    have hx := h'.sender x
    unfold senders at hsend hx ⊢
    dsimp only at hsend ⊢
    rw [hsend, List.mem_append, List.mem_singleton, ← or_assoc]
    by_cases hxt : x = t
    · subst hxt
      exact iff_of_true (Or.inr rfl) hb
    · rw [hth x hxt, ← hx]
      simp [hxt]
  · intro x
    by_cases hxt : x = t
    · subst hxt
      apply iff_of_false
      · intro hmem
        exact not_blocked_of_free hfree _ ((h.receiver x).mp hmem)
      · rintro ⟨-, hc, -⟩
        rw [hb.2.1] at hc
        cases hc
    · rw [hth x hxt]
      exact h.receiver x
  · intro x hbx hwx
    by_cases hxt : x = t
    · subst hxt
      rw [hw] at hwx
      cases hwx
    · rw [hth x hxt] at hbx hwx
      exact h.handed x hbx hwx
  · intro m hm' hnr
    rcases List.mem_append.mp hm' with hm' | hm'
    · have hb' := (h'.sender _).mp (Or.inr (mem_senders.mpr ⟨m, hm', hnr, rfl⟩))
      have hne : (msgs' m).msg.sender ≠ t := by
        intro he
        rw [he] at hb'
        exact not_blocked_of_free hfree _ hb'
      rw [hth _ hne]
      exact h'.tags m hm' hnr
    · rw [List.mem_singleton.mp hm', hsender]
      exact htag

theorem unlisten (h : Linked thread msgs c ch) (hr : (thread r).BlockedIn .recv c)
    (hth : ∀ x, x ≠ r → thread' x = thread x) (hfree : (thread' r).suspended = false) :
    Linked thread' msgs c ({ ch with stat := .idle }.unlink r) := by
  have hmem := (h.receiver r).mpr hr
  have hone := h.suspendThread_eq hmem
  have hwait : ch.stat = .wait := h.stat_wait.mpr (by rw [hone]; simp)
  have hrep : ch.reply = none := h.reply_none (by rw [hwait]; decide)
  have hmsg := h.quiet hwait
  have hsend : ch.senders msgs = [] := by
    unfold senders
    rw [hmsg]
    rfl
  have hthr : ch.waitThread = [] := by
    rcases h.aligned with he | ⟨u, hu, -⟩
    · rw [he, hsend]
    · rw [hrep] at hu
      cases hu
  have hno : ∀ x call, ¬ (thread' x).BlockedIn call c := by
    intro x call hb
    by_cases hx : x = r
    · rw [hx] at hb
      exact not_blocked_of_free hfree _ hb
    · rw [hth x hx] at hb
      cases call with
      | sendRecv =>
        rw [← h.sender, hrep, hsend] at hb
        simp at hb
      | recv =>
        rw [← h.receiver, hone, List.mem_singleton] at hb
        exact hx hb
  have hse : ({ ch with stat := .idle }.unlink r : RtChannel).senders msgs = [] := hsend
  constructor
  · simp [unlink, hone]
  · simp [unlink, hone]
  · simp [unlink]
  · simp [unlink, hrep]
  · rw [hse]
    exact Or.inl (by simp [unlink, hthr])
  · rw [hse]
    simp [unlink, hrep]
  · intro x
    rw [hse]
    exact iff_of_false (by simp [unlink, hrep]) (hno x _)
  · intro x
    exact iff_of_false (by simp [unlink, hone]) (hno x _)
  · intro x hb
    exact absurd hb (hno x _)
  · intro m hm
    simp [unlink, hmsg] at hm

theorem handWait (h : Linked thread msgs c ch) (hr : (thread r).BlockedIn .recv c) (hfree : (thread t).suspended = false)
    (hth : ∀ x, x ≠ r → x ≠ t → thread' x = thread x) (hrfree : (thread' r).suspended = false)
    (hb : (thread' t).BlockedIn .sendRecv c) :
    Linked thread' msgs c
      ({ ch with waitThread := ch.waitThread ++ [t], reply := some t, stat := .active }.unlink r) := by
  have hrt : r ≠ t := by
    rintro rfl
    rw [hr.1] at hfree
    cases hfree
  have hidle : Linked (Function.update thread r (thread' r)) msgs c _ := h.unlisten hr
    (fun x hx => Function.update_of_ne hx _ _) (by rw [Function.update_self]; exact hrfree)
  have hmem := (h.receiver r).mpr hr
  have hone := h.suspendThread_eq hmem
  have hwait : ch.stat = .wait := h.stat_wait.mpr (by rw [hone]; simp)
  have hmsg := h.quiet hwait
  have hsend : ch.senders msgs = [] := by
    unfold senders
    rw [hmsg]
    rfl
  have hthr : ch.waitThread = [] := by
    rcases h.aligned with he | ⟨u, hu, -⟩
    · rw [he, hsend]
    · rw [h.reply_none (by rw [hwait]; decide)] at hu
      cases hu
  have hno : ∀ x call, x ≠ t → ¬ (thread' x).BlockedIn call c := by
    intro x call hxt hbx
    have hx' : (Function.update thread r (thread' r) x).BlockedIn call c := by
      by_cases hxr : x = r
      · subst hxr
        rw [Function.update_self]
        exact hbx
      · rw [Function.update_of_ne hxr, ← hth x hxr hxt]
        exact hbx
    cases call with
    | sendRecv =>
      rw [← hidle.sender] at hx'
      have hs' : ({ ch with stat := .idle }.unlink r : RtChannel).senders msgs = [] := hsend
      rw [hs'] at hx'
      have hn := h.reply_none (by rw [hwait]; decide)
      simp [unlink, hn] at hx'
    | recv =>
      rw [← hidle.receiver] at hx'
      simp [unlink, hone] at hx'
  have hse : ({ ch with waitThread := ch.waitThread ++ [t], reply := some t, stat := .active }.unlink r :
      RtChannel).senders msgs = [] := hsend
  constructor
  · simp [unlink, hone]
  · simp [unlink, hone]
  · simp [unlink]
  · simp [unlink]
  · rw [hse]
    refine Or.inr ⟨t, rfl, ?_⟩
    simp only [unlink, hthr, List.nil_append]
    exact List.erase_of_not_mem (by simpa using hrt)
  · rw [hse]
    simp [unlink]
  · intro x
    rw [hse]
    by_cases hxt : x = t
    · subst hxt
      exact iff_of_true (Or.inl rfl) hb
    · exact iff_of_false (by simpa [unlink] using Ne.symm hxt) (hno x _ hxt)
  · intro x
    by_cases hxt : x = t
    · subst hxt
      apply iff_of_false
      · simp [unlink, hone]
      · rintro ⟨-, hc, -⟩
        rw [hb.2.1] at hc
        cases hc
    · exact iff_of_false (by simp [unlink, hone]) (hno x _ hxt)
  · intro x hbx _
    by_contra hne
    have hxt : x ≠ t := by
      rintro rfl
      exact hne rfl
    exact hno x _ hxt hbx
  · intro m hm
    simp [unlink, hmsg] at hm

theorem take {l : List ℕ} (h : Linked thread msgs c ch) (hm : ch.waitMsg = m :: l) (hn : (msgs m).needReply = false) :
    Linked thread msgs c { ch with waitMsg := l } := by
  have hsend : ch.senders msgs = ({ ch with waitMsg := l } : RtChannel).senders msgs := by
    unfold senders
    rw [hm, List.filter_cons_of_neg (by simp [hn])]
  constructor
  · exact h.stat_wait
  · exact h.one
  · intro hw
    rw [h.quiet hw] at hm
    cases hm
  · exact h.stat_active
  · rw [← hsend]; exact h.aligned
  · rw [← hsend]; exact h.distinct
  · rw [← hsend]; exact h.sender
  · exact h.receiver
  · exact h.handed
  · intro m' hm' hnr
    exact h.tags m' (by rw [hm]; exact List.mem_cons_of_mem _ hm') hnr

theorem head_eq {l : List ℕ} (h : Linked thread msgs c ch) (hs : ch.stat = .idle) (hm : ch.waitMsg = m :: l)
    (hn : (msgs m).needReply = true) :
    ch.waitThread = (msgs m).msg.sender :: ({ ch with waitMsg := l } : RtChannel).senders msgs := by
  have hrep := h.reply_none (by rw [hs]; decide)
  rcases h.aligned with he | ⟨u, hu, -⟩
  · rw [he]
    unfold senders
    rw [hm, List.filter_cons_of_pos (by simp [hn])]
    rfl
  · rw [hrep] at hu
    cases hu

theorem taken_tag {l w : List ℕ} (h : Linked thread msgs c ch) (hs : ch.stat = .idle) (hm : ch.waitMsg = m :: l)
    (hn : (msgs m).needReply = true) (hw : ch.waitThread = u :: w) : (msgs m).tag = (thread u).tag := by
  have he := h.head_eq hs hm hn
  rw [hw, List.cons.injEq] at he
  rw [he.1]
  exact h.tags m (by rw [hm]; exact List.mem_cons_self) hn

theorem takeReply {l w : List ℕ} (h : Linked thread msgs c ch) (hs : ch.stat = .idle) (hm : ch.waitMsg = m :: l)
    (hn : (msgs m).needReply = true) (hw : ch.waitThread = u :: w) :
    Linked thread msgs c { ch with waitMsg := l, waitThread := w, reply := some u, stat := .active } := by
  have hhead := h.head_eq hs hm hn
  rw [hw, List.cons.injEq] at hhead
  obtain ⟨rfl, hwl⟩ := hhead
  have hrep := h.reply_none (by rw [hs]; decide)
  have hsend : ch.senders msgs = (msgs m).msg.sender :: ({ ch with waitMsg := l } : RtChannel).senders msgs := by
    unfold senders
    rw [hm, List.filter_cons_of_pos (by simp [hn])]
    rfl
  have hnil := h.suspendThread_nil (by rw [hs]; decide)
  constructor
  · simp [hnil]
  · exact h.one
  · simp
  · simp
  · exact Or.inl hwl
  · have hd := h.distinct
    rw [hrep, hsend] at hd
    exact hd
  · intro x
    have hx := h.sender x
    rw [hrep, hsend, List.mem_cons] at hx
    rw [← hx]
    change some (msgs m).msg.sender = some x ∨ x ∈ ({ ch with waitMsg := l } : RtChannel).senders msgs ↔ _
    simp [eq_comm]
  · exact h.receiver
  · intro x hb hwx
    have hx := h.handed x hb hwx
    rw [hrep] at hx
    cases hx
  · intro m' hm' hnr
    exact h.tags m' (by rw [hm]; exact List.mem_cons_of_mem _ hm') hnr

theorem listen (h : Linked thread msgs c ch) (hs : ch.stat = .idle) (hm : ch.waitMsg = [])
    (hfree : (thread t).suspended = false) (hth : ∀ x, x ≠ t → thread' x = thread x)
    (hb : (thread' t).BlockedIn .recv c) :
    Linked thread' msgs c { ch with suspendThread := ch.suspendThread ++ [t], stat := .wait } := by
  have hrep := h.reply_none (by rw [hs]; decide)
  have hnil := h.suspendThread_nil (by rw [hs]; decide)
  have hsend : ch.senders msgs = [] := by
    unfold senders
    rw [hm]
    rfl
  have hse : ({ ch with suspendThread := ch.suspendThread ++ [t], stat := .wait } : RtChannel).senders msgs = [] := hsend
  have hnosend : ∀ x, ¬ (thread' x).BlockedIn .sendRecv c := by
    intro x hbx
    by_cases hx : x = t
    · rw [hx] at hbx
      have hc := hbx.2.1
      rw [hb.2.1] at hc
      cases hc
    · rw [hth x hx, ← h.sender, hrep, hsend] at hbx
      simp at hbx
  constructor
  · simp
  · simp [hnil]
  · intro _
    exact hm
  · simp [hrep]
  · rw [hse]
    have hal := h.aligned
    rw [hsend, hrep] at hal
    exact Or.inl (by simpa using hal)
  · rw [hse]
    simp [hrep]
  · intro x
    rw [hse]
    exact iff_of_false (by simp [hrep]) (hnosend x)
  · intro x
    by_cases hx : x = t
    · subst hx
      exact iff_of_true (by simp) hb
    · rw [hth x hx, ← h.receiver]
      simp [hx]
  · intro x hbx
    exact absurd hbx (hnosend x)
  · intro m' hm'
    rw [hm] at hm'
    cases hm'

theorem answered (h : Linked thread msgs c ch) (hu : ch.reply = some u) (hth : ∀ x, x ≠ u → thread' x = thread x)
    (hfree : (thread' u).suspended = false) :
    Linked thread' msgs c ({ ch with stat := .idle, reply := none }.unlink u) := by
  have hact : ch.stat = .active := h.stat_active.mpr (by rw [hu]; simp)
  have hnil := h.suspendThread_nil (by rw [hact]; decide)
  have hd := h.distinct
  rw [hu] at hd
  have hnot : u ∉ ch.senders msgs := (List.nodup_cons.mp hd).1
  have hse : ({ ch with stat := .idle, reply := none }.unlink u : RtChannel).senders msgs = ch.senders msgs := rfl
  constructor
  · simp [unlink, hnil]
  · simp [unlink, hnil]
  · simp [unlink]
  · simp [unlink]
  · rw [hse]
    refine Or.inl ?_
    simp only [unlink]
    rcases h.aligned with he | ⟨v, hv, he⟩
    · rw [he, List.erase_of_not_mem hnot]
    · rw [hu] at hv
      obtain rfl := Option.some.inj hv
      rw [he, List.erase_cons_head]
  · rw [hse]
    exact (List.nodup_cons.mp hd).2
  · intro x
    rw [hse]
    simp only [unlink, reduceCtorEq, false_or]
    by_cases hx : x = u
    · subst hx
      exact iff_of_false hnot (not_blocked_of_free hfree _)
    · rw [hth x hx, ← h.sender, hu]
      simp [Ne.symm hx]
  · intro x
    by_cases hx : x = u
    · subst hx
      exact iff_of_false (by simp [unlink, hnil]) (not_blocked_of_free hfree _)
    · rw [hth x hx, ← h.receiver]
      simp [unlink, hnil]
  · intro x hb hw
    by_cases hx : x = u
    · subst hx
      exact absurd hb (not_blocked_of_free hfree _)
    · rw [hth x hx] at hb hw
      have hr := h.handed x hb hw
      rw [hu] at hr
      exact absurd (Option.some.inj hr).symm hx
  · intro m hm hnr
    have hne : (msgs m).msg.sender ≠ u := by
      intro he
      exact hnot (mem_senders.mpr ⟨m, hm, hnr, he⟩)
    rw [hth _ hne]
    exact h.tags m hm hnr

theorem withdrawn (h : Linked thread msgs c ch) (hr : ch.reply ≠ some t) (hm : m ∈ ch.waitMsg)
    (hn : (msgs m).needReply = true) (hsender : (msgs m).msg.sender = t) (hth : ∀ x, x ≠ t → thread' x = thread x)
    (hfree : (thread' t).suspended = false) :
    Linked thread' msgs c ({ ch with waitMsg := ch.waitMsg.erase m }.unlink t) := by
  have hd := h.distinct
  have hds := (List.nodup_append.mp hd).2.1
  have hse : ({ ch with waitMsg := ch.waitMsg.erase m }.unlink t : RtChannel).senders msgs = (ch.senders msgs).erase t := by
    have he := map_filter_erase (q := fun m => (msgs m).needReply) (f := fun m => (msgs m).msg.sender) hm hn hds
    rw [hsender] at he
    exact he
  have hnw : ch.stat ≠ .wait := by
    intro hw
    rw [h.quiet hw] at hm
    cases hm
  have hnil := h.suspendThread_nil hnw
  constructor
  · simp [unlink, hnil, hnw]
  · simp [unlink, hnil]
  · intro hw
    exact absurd hw hnw
  · exact h.stat_active
  · rw [hse]
    simp only [unlink]
    rcases h.aligned with he | ⟨v, hv, he⟩
    · exact Or.inl (by rw [he])
    · refine Or.inr ⟨v, hv, ?_⟩
      have hvt : v ≠ t := by
        rintro rfl
        exact hr hv
      rw [he, List.erase_cons_tail (by simpa using hvt)]
  · rw [hse]
    exact hd.sublist ((List.Sublist.refl _).append List.erase_sublist)
  · intro x
    rw [hse]
    simp only [unlink]
    by_cases hx : x = t
    · subst hx
      apply iff_of_false
      · rintro (hr' | hmem)
        · exact hr hr'
        · exact hds.not_mem_erase hmem
      · exact not_blocked_of_free hfree _
    · rw [List.mem_erase_of_ne hx, hth x hx]
      exact h.sender x
  · intro x
    by_cases hx : x = t
    · subst hx
      exact iff_of_false (by simp [unlink, hnil]) (not_blocked_of_free hfree _)
    · rw [hth x hx, ← h.receiver]
      simp [unlink, hnil]
  · intro x hb hw
    by_cases hx : x = t
    · subst hx
      exact absurd hb (not_blocked_of_free hfree _)
    · rw [hth x hx] at hb hw
      exact h.handed x hb hw
  · intro m' hm' hnr
    have hmem : m' ∈ ch.waitMsg := List.mem_of_mem_erase hm'
    have hne : (msgs m').msg.sender ≠ t := by
      intro he
      have hin : t ∈ (ch.senders msgs).erase t := by
        rw [← hse, ← he]
        exact mem_senders.mpr ⟨m', hm', hnr, rfl⟩
      exact hds.not_mem_erase hin
    rw [hth _ hne]
    exact h.tags m' hmem hnr

theorem fresh (hno : ∀ t call, ¬ (thread t).BlockedIn call c) :
    Linked thread msgs c ⟨true, true, 1, .idle, none, [], [], []⟩ := by
  constructor <;> simp [senders, hno]

end RtChannel.Linked

end RtSmart
