import RtSmart.Lwp.ChannelSlots

/-!
What a step of the channels can do to the state, said once: the calls, the timeouts and the wake-up
functions come down to the moves listed here.
-/

namespace RtSmart

namespace ChanSys

open RtChannel

structure Coherent (s : ChanSys) : Prop where
  settled : ∀ t, (s.thread t).Settled
  linked : ∀ c, (s.chan c).alive = true → Linked s.thread s.msgs c (s.chan c)
  dead : ∀ c, (s.chan c).alive = false →
    (s.chan c).waitMsg = [] ∧ (s.chan c).suspendThread = [] ∧ (s.chan c).waitThread = []
  unborn : ∀ c, (s.chan c).created = false → (s.chan c).alive = false ∧ ∀ t call, ¬ (s.thread t).BlockedIn call c

/-- The slot `p` is allocated and the free list and the count become `l` and `n`. -/
def Alloc (max : ℕ) (s : ChanSys) (p : ℕ) (l : List ℕ) (n : ℕ) : Prop :=
  s.msgAlloc max = some (p, { s with freeList := l, used := n })

-- `serves` are the threads that receive on and reply to a channel
inductive Move (max : ℕ) (serves : ℕ → ℕ → Prop) (s : ChanSys) : ChanSys → Prop
  | stay : Move max serves s s
  | ref (c r : ℕ) : Move max serves s { s with chan := Function.update s.chan c { s.chan c with ref := r } }
  | create (c : ℕ) (hc : (s.chan c).created = false) :
    Move max serves s { s with chan := Function.update s.chan c ⟨true, true, 1, .idle, none, [], [], []⟩ }
  -- a request whose sender is not suspended because of a signal
  | churn (t p : ℕ) (l : List ℕ) (n : ℕ) (m : RtIpcMsg) (ha : s.Alloc max p l n) (ht : s.free t) :
    Move max serves s { s with
      freeList := p :: l, used := n, msgs := Function.update s.msgs p m, sends := s.sends + 1
      thread := Function.update s.thread t { s.thread t with error := .eok } }
  | queue (c p : ℕ) (l : List ℕ) (n : ℕ) (m : RtIpcMsg) (ha : s.Alloc max p l n) (hc : (s.chan c).alive = true)
      (hs : (s.chan c).stat ≠ .wait) (hn : m.needReply = false) (hm : m.tag = s.sends) :
    Move max serves s { s with
      freeList := l, used := n, msgs := Function.update s.msgs p m, sends := s.sends + 1
      chan := Function.update s.chan c { s.chan c with waitMsg := (s.chan c).waitMsg ++ [p] } }
  | queueWait (c t p : ℕ) (l : List ℕ) (n : ℕ) (m : RtIpcMsg) (tm : Option ChanCall) (ha : s.Alloc max p l n)
      (hc : (s.chan c).alive = true) (hs : (s.chan c).stat ≠ .wait) (ht : s.free t) (hn : m.needReply = true)
      (hsender : m.msg.sender = t) (hm : m.tag = s.sends) (htm : ∀ f, tm = some f → f = .sendRecv) :
    Move max serves s { s with
      freeList := l, used := n, msgs := Function.update s.msgs p m, sends := s.sends + 1
      thread := Function.update s.thread t ((s.thread t).blockedRecord c .sendRecv .senderWaitRecv tm s.sends)
      chan := Function.update s.chan c { s.chan c with
        waitThread := (s.chan c).waitThread ++ [t], waitMsg := (s.chan c).waitMsg ++ [p] } }
  | hand (c r p : ℕ) (l : List ℕ) (n : ℕ) (m : RtIpcMsg) (ha : s.Alloc max p l n) (hc : (s.chan c).alive = true)
      (hr : r ∈ (s.chan c).suspendThread) (hn : m.needReply = false) (hm : m.tag = s.sends) :
    Move max serves s { s with
      freeList := l, used := n, msgs := Function.update s.msgs p m, sends := s.sends + 1
      thread := Function.update s.thread r
        ({ s.thread r with msgRet := some p, error := .eok } : ChanThread).woken
      chan := fun d => (Function.update s.chan c { s.chan c with stat := .idle } d).unlink r }
  | handWait (c t r p : ℕ) (l : List ℕ) (n : ℕ) (m : RtIpcMsg) (tm : Option ChanCall) (ha : s.Alloc max p l n)
      (hc : (s.chan c).alive = true) (hr : r ∈ (s.chan c).suspendThread) (ht : s.free t) (hn : m.needReply = true)
      (hsender : m.msg.sender = t) (hm : m.tag = s.sends) (htm : ∀ f, tm = some f → f = .sendRecv) :
    Move max serves s { s with
      freeList := l, used := n, msgs := Function.update s.msgs p m, sends := s.sends + 1
      thread := Function.update
        (Function.update s.thread t ((s.thread t).blockedRecord c .sendRecv .senderWaitReply tm s.sends)) r
        ({ s.thread r with msgRet := some p, error := .eok } : ChanThread).woken
      chan := fun d => (Function.update s.chan c { s.chan c with
        waitThread := (s.chan c).waitThread ++ [t], reply := some t, stat := .active } d).unlink r }
  | take (c v m : ℕ) (l : List ℕ) (hc : (s.chan c).alive = true) (hs : (s.chan c).stat = .idle) (hv : s.free v)
      (hsv : serves c v) (hm : (s.chan c).waitMsg = m :: l) (hn : (s.msgs m).needReply = false) :
    Move max serves s { s with
      freeList := m :: s.freeList
      received := (s.msgs m).tag :: s.received
      serving := Function.update s.serving c (some (s.msgs m).tag)
      chan := Function.update s.chan c { s.chan c with waitMsg := l } }
  | takeReply (c v m u : ℕ) (l w : List ℕ) (hc : (s.chan c).alive = true) (hs : (s.chan c).stat = .idle)
      (hv : s.free v) (hsv : serves c v) (hm : (s.chan c).waitMsg = m :: l) (hn : (s.msgs m).needReply = true)
      (hw : (s.chan c).waitThread = u :: w) :
    Move max serves s { s with
      freeList := m :: s.freeList
      received := (s.msgs m).tag :: s.received
      serving := Function.update s.serving c (some (s.msgs m).tag)
      chan := Function.update s.chan c { s.chan c with waitMsg := l, waitThread := w, reply := some u, stat := .active } }
  | listen (c t : ℕ) (tm : Option ChanCall) (hc : (s.chan c).alive = true) (hs : (s.chan c).stat = .idle)
      (hm : (s.chan c).waitMsg = []) (ht : s.free t) (hsv : serves c t) (htm : ∀ f, tm = some f → f = .recv) :
    Move max serves s { s with
      thread := Function.update s.thread t ((s.thread t).blockedRecord c .recv .receiver tm (s.thread t).tag)
      chan := Function.update s.chan c { s.chan c with
        suspendThread := (s.chan c).suspendThread ++ [t], stat := .wait } }
  | answer (c v u p : ℕ) (l : List ℕ) (n : ℕ) (m : RtIpcMsg) (ha : s.Alloc max p l n) (hc : (s.chan c).alive = true)
      (hv : s.free v) (hsv : serves c v) (hu : (s.chan c).reply = some u) :
    Move max serves s { s with
      freeList := l, used := n, msgs := Function.update s.msgs p m
      given := (c, s.serving c, m.msg) :: s.given
      thread := Function.update s.thread u ({ s.thread u with msgRet := some p } : ChanThread).woken
      chan := fun d => (Function.update s.chan c { s.chan c with stat := .idle, reply := none } d).unlink u }
  | fail (t : ℕ) (hs : (s.thread t).suspended = false) (hc : (s.thread t).call = some .sendRecv)
      (he : (s.thread t).error ≠ .eok) :
    Move max serves s { s with
      thread := Function.update s.thread t { s.thread t with call := none }
      failed := (s.thread t).tag :: s.failed }
  | failRecv (t : ℕ) (hs : (s.thread t).suspended = false) (hc : (s.thread t).call = some .recv)
      (he : (s.thread t).error ≠ .eok) :
    Move max serves s { s with thread := Function.update s.thread t { s.thread t with call := none } }
  | complete (t p : ℕ) (hs : (s.thread t).suspended = false) (hc : (s.thread t).call = some .sendRecv)
      (hp : (s.thread t).msgRet = some p) :
    Move max serves s { s with
      freeList := p :: s.freeList
      thread := Function.update s.thread t { s.thread t with call := none, msgRet := none }
      completed := ((s.thread t).channel, (s.thread t).tag, (s.msgs p).msg) :: s.completed }
  | receive (t p : ℕ) (hs : (s.thread t).suspended = false) (hc : (s.thread t).call = some .recv)
      (hp : (s.thread t).msgRet = some p) :
    Move max serves s { s with
      freeList := p :: s.freeList
      thread := Function.update s.thread t { s.thread t with call := none, msgRet := none }
      received := (s.msgs p).tag :: s.received
      serving := Function.update s.serving (s.thread t).channel (some (s.msgs p).tag) }
  -- a sender gives up: it waits for its reply, its request is queued, or the channel is gone
  | giveUpReply (t c : ℕ) (e : ChanErr) (he : e ≠ .eok) (ht : (s.thread t).BlockedIn .sendRecv c)
      (hr : (s.chan c).reply = some t) :
    Move max serves s { s with
      thread := Function.update s.thread t ({ s.thread t with error := e } : ChanThread).woken
      chan := fun d => (Function.update s.chan c { s.chan c with stat := .idle, reply := none } d).unlink t }
  | giveUpQueued (t c m : ℕ) (e : ChanErr) (he : e ≠ .eok) (ht : (s.thread t).BlockedIn .sendRecv c)
      (hc : (s.chan c).alive = true) (hr : (s.chan c).reply ≠ some t) (hm : m ∈ (s.chan c).waitMsg)
      (hn : (s.msgs m).needReply = true) (hsender : (s.msgs m).msg.sender = t) :
    Move max serves s { s with
      freeList := m :: s.freeList
      thread := Function.update s.thread t ({ s.thread t with error := e } : ChanThread).woken
      chan := fun d => (Function.update s.chan c { s.chan c with waitMsg := (s.chan c).waitMsg.erase m } d).unlink t }
  | giveUpDead (t c : ℕ) (e : ChanErr) (he : e ≠ .eok) (ht : (s.thread t).BlockedIn .sendRecv c)
      (hc : (s.chan c).alive = false) :
    Move max serves s { s with
      thread := Function.update s.thread t ({ s.thread t with error := e } : ChanThread).woken
      chan := fun d => (s.chan d).unlink t }
  | unlisten (t c : ℕ) (e : ChanErr) (he : e ≠ .eok) (ht : (s.thread t).BlockedIn .recv c) :
    Move max serves s { s with
      thread := Function.update s.thread t ({ s.thread t with error := e } : ChanThread).woken
      chan := fun d => (Function.update s.chan c { s.chan c with stat := .idle } d).unlink t }

variable {max : ℕ} {serves : ℕ → ℕ → Prop} {s s' : ChanSys} {c t p : ℕ}

theorem Coherent.suspended_of_receiver (h : s.Coherent) (hc : (s.chan c).alive = true)
    (hr : t ∈ (s.chan c).suspendThread) : (s.thread t).BlockedIn .recv c :=
  ((h.linked c hc).receiver t).mp hr

@[simp] theorem setThread_setThread (f g : ChanThread → ChanThread) :
    (s.setThread t f).setThread t g = s.setThread t fun x => g (f x) := by
  unfold setThread
  simp

theorem resume_of_suspended (h : (s.thread t).suspended = true) : s.resume t = s.wake t := if_pos h

theorem alloc_of_msgAlloc (ha : s.msgAlloc max = some (p, s')) : s.Alloc max p s'.freeList s'.used := by
  unfold Alloc
  rw [ha, ← msgAlloc_eq ha]

theorem wake_setThread (f : ChanThread → ChanThread) : (s.setThread t f).wake t = { s with
    chan := fun d => (s.chan d).unlink t, thread := Function.update s.thread t (f (s.thread t)).woken } := by
  unfold wake setThread
  simp only [Function.update_self, Function.update_idem]
  rfl

theorem resume_setThread (f : ChanThread → ChanThread) (h : (f (s.thread t)).suspended = true) :
    (s.setThread t f).resume t = { s with
      chan := fun d => (s.chan d).unlink t, thread := Function.update s.thread t (f (s.thread t)).woken } := by
  rw [resume_of_suspended (by simpa only [setThread, Function.update_self] using h), wake_setThread]

theorem move_of_sendRecv {needReply sig : Bool} {data : RtChannelMsg} {time : ℤ} {res : Option ChanErr} (h : s.Coherent)
    (ht : needReply = true → s.free t) (hs : s.sendRecvTimeout max c t data needReply time sig = some (s', res)) :
    Move max serves s s' := by
  have htm : ∀ f, (if time > 0 then some ChanCall.sendRecv else none) = some f → f = .sendRecv := by
    intro f hf
    split at hf
    · exact (Option.some.inj hf).symm
    · cases hf
  unfold sendRecvTimeout at hs
  split at hs
  case isTrue => cases hs; exact .stay
  case isFalse hdead =>
  have hc : (s.chan c).alive = true := by simpa using hdead
  split at hs
  case isTrue => cases hs; exact .stay
  case isFalse =>
  split at hs
  case h_1 => cases hs; exact .stay
  case h_2 p s1 ha =>
  have hal := alloc_of_msgAlloc ha
  have he := msgAlloc_eq ha
  generalize s1.freeList = l at he hal
  generalize s1.used = n at he hal
  subst he
  dsimp only [msgInit] at hs
  cases needReply with
  | false =>
    simp only [Bool.false_eq_true, if_false] at hs
    split at hs
    case h_1 hst | h_2 hst =>
      cases hs
      exact .queue c p l n _ hal hc (by rw [hst]; decide) rfl rfl
    case h_3 hst =>
      split at hs
      case h_1 => cases hs
      case h_2 r w hw =>
        have hr : r ∈ (s.chan c).suspendThread := by rw [hw]; exact List.mem_cons_self
        have hb := h.suspended_of_receiver hc hr
        unfold deliver at hs
        rw [resume_setThread _ hb.1] at hs
        cases hs
        exact .hand c r p l n _ hal hc hr rfl rfl
  | true =>
    have ht := ht rfl
    simp only [if_true, suspend, setThread_setThread] at hs
    -- the sender is not suspended when a signal is pending
    cases sig with
    | true =>
      have hchurn : Move max serves s _ := .churn t p l n ⟨{ data with sender := t }, true, s.sends⟩ hal ht
      simp only [if_true] at hs
      split at hs
      case h_1 | h_2 => cases hs; exact hchurn
      case h_3 =>
        split at hs
        case h_1 => cases hs
        case h_2 => cases hs; exact hchurn
    | false =>
      simp only [Bool.false_eq_true, if_false] at hs
      split at hs
      case h_1 hst | h_2 hst =>
        cases hs
        exact .queueWait c t p l n _ _ hal hc (by change (s.chan c).stat = _ at hst; rw [hst]; decide) ht rfl rfl rfl htm
      case h_3 hst =>
        split at hs
        case h_1 => cases hs
        case h_2 r w hw =>
          have hr : r ∈ (s.chan c).suspendThread := by
            change (s.chan c).suspendThread = _ at hw
            rw [hw]; exact List.mem_cons_self
          have hb := h.suspended_of_receiver hc hr
          have hrt : r ≠ t := by
            rintro rfl
            have hsusp := hb.1
            rw [ht.1] at hsusp
            cases hsusp
          unfold deliver at hs
          rw [resume_setThread _ (by simp only [setThread, setChan, Function.update_of_ne hrt]; exact hb.1)] at hs
          have hmove : Move max serves s _ :=
            .handWait c t r p l n ⟨{ data with sender := t }, true, s.sends⟩ _ hal hc hr ht rfl rfl rfl htm
          cases hs
          simp only [setThread, setChan, Function.update_of_ne hrt]
          exact hmove

theorem move_of_recv {sig : Bool} {time : ℤ} {res : Option ChanErr} (ht : s.free t)
    (hsv : serves c t) (hs : s.recvTimeout c t time sig = some (s', res)) : Move max serves s s' := by
  have htm : ∀ f, (if time > 0 then some ChanCall.recv else none) = some f → f = .recv := by
    intro f hf
    split at hf
    · exact (Option.some.inj hf).symm
    · cases hf
  unfold recvTimeout at hs
  split at hs
  case isTrue => cases hs; exact .stay
  case isFalse hdead =>
  have hc : (s.chan c).alive = true := by simpa using hdead
  split at hs
  case isTrue => cases hs; exact .stay
  case isFalse hidle =>
  have hst : (s.chan c).stat = .idle := by simpa using hidle
  split at hs
  case h_1 m l hm =>
    dsimp only [setChan] at hs
    split at hs
    case isTrue hn =>
      simp only [Function.update_self, Function.update_idem] at hs
      split at hs
      case h_1 => cases hs
      case h_2 u w hw =>
        cases hs
        exact .takeReply c t m u l w hc hst ht hsv hm hn hw
    case isFalse hn =>
      cases hs
      exact .take c t m l hc hst ht hsv hm (by simpa using hn)
  case h_2 hm =>
    split at hs
    case isTrue => cases hs; exact .stay
    case isFalse =>
    split at hs
    case isTrue => cases hs; exact .stay
    case isFalse =>
      cases hs
      exact .listen c t _ hc hst hm ht hsv htm

theorem move_of_reply {data : RtChannelMsg} (h : s.Coherent) (ht : s.free t) (hsv : serves c t) :
    Move max serves s (s.rawReply max c t data).1 := by
  unfold rawReply
  split
  case isTrue => exact .stay
  case isFalse hdead =>
  have hc : (s.chan c).alive = true := by simpa using hdead
  split
  case isTrue => exact .stay
  case isFalse =>
  split
  case h_1 => exact .stay
  case h_2 u hu =>
  split
  case h_1 => exact .stay
  case h_2 p s1 ha =>
    have hal := alloc_of_msgAlloc ha
    have he := msgAlloc_eq ha
    generalize s1.freeList = l at he hal
    generalize s1.used = n at he hal
    subst he
    have hb := ((h.linked c hc).sender u).mp (Or.inl hu)
    dsimp only [msgInit]
    rw [resume_setThread _ hb.1]
    have hmove : Move max serves s _ := .answer c t u p l n
      ⟨{ data with sender := t }, false, (s.thread u).tag⟩ hal hc ht hsv hu
    unfold setChan
    have hch : (Function.update (fun d => (s.chan d).unlink u) c
        { (s.chan c).unlink u with stat := .idle, reply := none }) =
        fun d => (Function.update s.chan c { s.chan c with stat := .idle, reply := none } d).unlink u := by
      funext d
      by_cases hd : d = c
      · subst hd
        simp only [Function.update_self]
        rfl
      · simp only [Function.update_of_ne hd]
    dsimp only
    rw [hch]
    exact hmove

theorem move_of_finish {call : ChanCall} {res : ChanErr} (hsusp : (s.thread t).suspended = false)
    (hcall : (s.thread t).call = some call) (hs : s.finish t call = some (s', res)) : Move max serves s s' := by
  unfold ChanSys.finish at hs
  dsimp only at hs
  split at hs
  case isTrue he =>
    cases call with
    | sendRecv =>
      cases hs
      have hmove : Move max serves s _ := .fail t hsusp hcall he
      simpa only [setThread, Function.update_self] using hmove
    | recv =>
      cases hs
      exact .failRecv t hsusp hcall he
  case isFalse he =>
    split at hs
    case h_1 => cases hs
    case h_2 p hp =>
      cases call with
      | sendRecv =>
        cases hs
        have hmove : Move max serves s _ := .complete t p hsusp hcall hp
        simpa only [setThread, msgFree, Function.update_self] using hmove
      | recv =>
        cases hs
        exact .receive t p hsusp hcall hp

theorem move_of_withdraw (h : s.Coherent) {e : ChanErr} (he : e ≠ .eok) (hb : (s.thread t).BlockedIn .sendRecv c) :
    Move max serves s (((s.withdraw c t).setThread t fun x => { x with error := e }).wake t) := by
  rw [wake_setThread]
  unfold withdraw
  split
  case isTrue hr => exact .giveUpReply t c e he hb hr.2
  case isFalse hr =>
    cases hc : (s.chan c).alive with
    | false =>
      rw [(h.dead c hc).1]
      exact .giveUpDead t c e he hb hc
    | true =>
      have hlink := h.linked c hc
      have hnr : (s.chan c).reply ≠ some t := by
        intro heq
        exact hr ⟨hlink.stat_active.mpr (by rw [heq]; simp), heq⟩
      have hmem := ((hlink.sender t).mpr hb).resolve_left hnr
      split
      case h_1 hnone =>
        obtain ⟨m, hm, hn, hsender⟩ := Linked.mem_senders.mp hmem
        have hfalse := List.find?_eq_none.mp hnone m hm
        simp [hn, hsender] at hfalse
      case h_2 m hsome =>
        have hm := List.mem_of_find?_eq_some hsome
        have hp := List.find?_some hsome
        simp only [Bool.and_eq_true, beq_iff_eq] at hp
        exact .giveUpQueued t c m e he hb hc hnr hm hp.1 hp.2

theorem move_of_timeout {f : ChanCall} (h : s.Coherent) (hf : (s.thread t).timer = some f)
    (hs : (match f with | .sendRecv => s.senderTimeout t | .recv => s.receiverTimeout t) = s') :
    Move max serves s s' := by
  have hset := h.settled t
  have hcall := hset.timer f hf
  have hsusp : (s.thread t).suspended = true := by
    by_contra hne
    have hnone := (hset.ready (by simpa using hne)).1
    rw [hf] at hnone
    cases hnone
  subst hs
  cases f with
  | sendRecv =>
    have hb : (s.thread t).BlockedIn .sendRecv (s.thread t).channel := ⟨hsusp, hcall, rfl⟩
    exact move_of_withdraw h (by decide) hb
  | recv =>
    have hb : (s.thread t).BlockedIn .recv (s.thread t).channel := ⟨hsusp, hcall, rfl⟩
    dsimp only [receiverTimeout]
    rw [wake_setThread]
    exact .unlisten t _ _ (by decide) hb

theorem withdraw_thread (c t : ℕ) : (s.withdraw c t).thread = s.thread := by
  unfold withdraw
  split
  · rfl
  · split <;> rfl

theorem move_of_wakeup (h : s.Coherent) (hs : s.threadWakeup t = some s') : Move max serves s s' := by
  have hset := h.settled t
  have hsusp : (s.thread t).wakeup ≠ none → (s.thread t).suspended = true := by
    intro hw
    by_contra hne
    exact hw (hset.ready (by simpa using hne)).2
  unfold threadWakeup at hs
  dsimp only at hs
  split at hs
  case h_1 hw =>
    cases hs
    unfold resume
    split
    case isTrue hsus =>
      rcases hset.wakeup hsus with ⟨-, he⟩ | ⟨-, he | he⟩ <;> · rw [hw] at he; cases he
    case isFalse => exact .stay
  case h_2 hw =>
    cases hs
    have hsus := hsusp (by rw [hw]; simp)
    have hcall : (s.thread t).call = some .sendRecv := by
      rcases hset.wakeup hsus with ⟨-, he⟩ | ⟨hcall, -⟩
      · rw [hw] at he
        cases he
      · exact hcall
    rw [resume_of_suspended (by simp only [setThread, Function.update_self, withdraw_thread]; exact hsus)]
    exact move_of_withdraw h (by decide) ⟨hsus, hcall, rfl⟩
  case h_3 hw =>
    split at hs
    case isFalse => cases hs
    case isTrue hr =>
      have hsus := hsusp (by rw [hw]; simp)
      have hcall : (s.thread t).call = some .sendRecv := by
        rcases hset.wakeup hsus with ⟨-, he⟩ | ⟨hcall, -⟩
        · rw [hw] at he
          cases he
        · exact hcall
      rw [resume_setThread _ hsus] at hs
      cases hs
      exact .giveUpReply t _ _ (by decide) ⟨hsus, hcall, rfl⟩ hr.2
  case h_4 hw =>
    have hsus := hsusp (by rw [hw]; simp)
    have hcall : (s.thread t).call = some .recv := by
      rcases hset.wakeup hsus with ⟨hcall, -⟩ | ⟨-, he | he⟩
      · exact hcall
      · rw [hw] at he
        cases he
      · rw [hw] at he
        cases he
    split at hs
    case h_1 => cases hs
    case h_2 r w hr =>
      have hlist : (s.chan (s.thread t).channel).suspendThread = r :: w := by
        simpa only [setThread, setChan, Function.update_self] using hr
      have hc : (s.chan (s.thread t).channel).alive = true := by
        by_contra hne
        rw [(h.dead _ (by simpa using hne)).2.1] at hlist
        cases hlist
      have hlink := h.linked _ hc
      have hone := hlink.suspendThread_eq ((hlink.receiver t).mpr ⟨hsus, hcall, rfl⟩)
      rw [hlist, List.cons.injEq] at hone
      obtain ⟨rfl, -⟩ := hone
      rw [resume_setThread _ hsus] at hs
      cases hs
      exact .unlisten r _ _ (by decide) ⟨hsus, hcall, rfl⟩

theorem move_of_open (hs : s.rawOpen c = some s') : Move max serves s s' := by
  unfold rawOpen at hs
  split at hs
  · cases hs
    exact .ref c _
  · split at hs
    · cases hs
    · cases hs
      exact .create c (by simpa using ‹¬ (s.chan c).created = true›)

theorem Coherent.of_local (h : s.Coherent) (hset : ∀ t, (s'.thread t).Settled)
    (hmsg : ∀ d, ∀ m ∈ (s.chan d).waitMsg, d ≠ c → s'.msgs m = s.msgs m)
    (hthr : ∀ d, d ≠ c → ∀ x, s'.thread x = s.thread x ∨
      ∀ call, ¬ (s.thread x).BlockedIn call d ∧ ¬ (s'.thread x).BlockedIn call d)
    (hchan : ∀ d, d ≠ c → s'.chan d = s.chan d ∨
      ∃ t, s'.chan d = (s.chan d).unlink t ∧ ∀ call, ¬ (s.thread t).BlockedIn call d)
    (hlink : (s'.chan c).alive = true → Linked s'.thread s'.msgs c (s'.chan c))
    (hdead : (s'.chan c).alive = false →
      (s'.chan c).waitMsg = [] ∧ (s'.chan c).suspendThread = [] ∧ (s'.chan c).waitThread = [])
    (hunborn : (s'.chan c).created = false → (s'.chan c).alive = false ∧ ∀ t call, ¬ (s'.thread t).BlockedIn call c) :
    s'.Coherent := by
  have hsame : ∀ d, d ≠ c → s'.chan d = s.chan d := by
    intro d hd
    rcases hchan d hd with he | ⟨t, he, hn⟩
    · exact he
    · rw [he]
      cases halive : (s.chan d).alive with
      | true => exact (h.linked d halive).unlink_of_ne hn
      | false =>
        obtain ⟨-, hs, hw⟩ := h.dead d halive
        unfold unlink
        rw [hs, hw]
        simp only [List.erase_nil]
        rw [← hs]
        nth_rewrite 2 [hs]
        rw [← hw]
  constructor
  · exact hset
  · intro d halive
    by_cases hd : d = c
    · subst hd
      exact hlink halive
    · rw [hsame d hd] at halive ⊢
      exact (h.linked d halive).frame (hthr d hd) fun m hm => hmsg d m hm hd
  · intro d halive
    by_cases hd : d = c
    · subst hd
      exact hdead halive
    · rw [hsame d hd] at halive ⊢
      exact h.dead d halive
  · intro d hcreated
    by_cases hd : d = c
    · subst hd
      exact hunborn hcreated
    · rw [hsame d hd] at hcreated ⊢
      obtain ⟨halive, hno⟩ := h.unborn d hcreated
      refine ⟨halive, ?_⟩
      intro t call hb
      rcases hthr d hd t with he | hn
      · rw [he] at hb
        exact hno t call hb
      · exact (hn call).2 hb

end ChanSys

end RtSmart
