import RtSmart.Ipc.MessageQueueRun

namespace RtSmart

open Lib Kernel

/-- The slot holds the message. -/
def MessageQueue.Holds (mq : MessageQueue) (msg : Slot) (bytes : List Byte) : Prop :=
  bytes.length ≤ mq.msgSize ∧ (List.range bytes.length).map (mq.data msg) = bytes

def MqOp.Ok (mq : MessageQueue) : MqOp → Prop
  | .sendWait _ buffer _ _ => buffer.length ≤ mq.msgSize
  | .recvWait _ _ _ _ => True
  | .copyIn _ msg buffer urgent cleared n =>
    buffer.length ≤ mq.msgSize ∧ n ≤ buffer.length ∧ (List.range n).map (mq.data msg) = buffer.take n ∧
      (urgent = false → cleared = true → mq.next msg = none)
  | .copyOut _ msg _ m out => mq.Holds msg m.bytes ∧ out = (List.range out.length).map (mq.data msg)

theorem MqOp.Ok.congr {mq mq' : MessageQueue} {op : MqOp} (h : op.Ok mq) (hsz : mq'.msgSize = mq.msgSize)
    (hslot : ∀ m, op.slot op.obj = some m → mq'.data m = mq.data m ∧ mq'.next m = mq.next m) : op.Ok mq' := by
  cases op with
  | sendWait o buffer timeout sf => exact h.trans_eq hsz.symm
  | recvWait o size timeout sf => trivial
  | copyIn o msg buffer urgent cleared n =>
    obtain ⟨hd, hn⟩ := hslot msg (by simp [MqOp.slot, MqOp.obj])
    simp only [MqOp.Ok, hsz, hd, hn] at h ⊢
    exact h
  | copyOut o msg size m out =>
    obtain ⟨hd, -⟩ := hslot msg (by simp [MqOp.slot, MqOp.obj])
    simp only [MqOp.Ok, MessageQueue.Holds, hsz, hd] at h ⊢
    exact h

namespace Tracked

def queue (p : Tracked) : List Slot := walk p.next p.entry p.head

def deque (p : Tracked) : Deque Msg := ⟨p.queue.map p.label, p.accepted, p.received⟩

/-- The invariant of one queue, given the slots that the agents hold and the messages they read. -/
structure At (p : Tracked) (held : Agent → Option Slot) (reads : Agent → Option Msg) : Prop where
  slots : ∃ free busy, Holders held busy ∧ Slots p.toMessageQueue free p.queue (busy.filterMap held)
  labels : ∀ msg ∈ p.queue, p.Holds msg (p.label msg).bytes
  reads : ∃ readers, Holders reads readers ∧
    p.received.Perm (p.returned.map Delivery.msg ++ readers.filterMap reads)
  ids : p.accepted.map Msg.id = List.range p.accepted.length
  perm : p.accepted.Perm p.deque.order
  fifo : p.deque.order.filter (!Msg.urgent ·) = p.accepted.filter (!Msg.urgent ·)
  returned : ∀ d ∈ p.returned, d.Exact p.msgSize

/-- The agent `a` acts on the queue; it then holds the slot `v` and reads the message `w`. -/
structure Evolves (p p' : Tracked) (held : Agent → Option Slot) (reads : Agent → Option Msg) (a : Agent)
    (v : Option Slot) (w : Option Msg) : Prop where
  here : p'.At (Function.update held a v) (Function.update reads a w)
  step : Deque.Step Msg.urgent p.deque p'.deque
  msgSize : p'.msgSize = p.msgSize
  maxMsgs : p'.maxMsgs = p.maxMsgs
  others : ∀ b m, b ≠ a → held b = some m → p'.data m = p.data m ∧ p'.next m = p.next m

section evolves

variable {p p' : Tracked} {held : Agent → Option Slot} {reads : Agent → Option Msg} {a : Agent} {msg : Slot}

theorem At.advance (h : p.At held reads) {held' : Agent → Option Slot} {reads' : Agent → Option Msg}
    (hstep : Deque.Step Msg.urgent p.deque p'.deque) {free q : List Slot} {busy : List Agent}
    (hh : Holders held' busy) (hs : Slots p'.toMessageQueue free q (busy.filterMap held'))
    (hl : ∀ msg ∈ q, p'.Holds msg (p'.label msg).bytes)
    (hr : ∃ readers, Holders reads' readers ∧
      p'.received.Perm (p'.returned.map Delivery.msg ++ readers.filterMap reads'))
    (hid : p'.accepted.map Msg.id = List.range p'.accepted.length)
    (hret : ∀ d ∈ p'.returned, d.Exact p'.msgSize) : p'.At held' reads' := by
  obtain rfl : p'.queue = q := hs.queue_eq
  exact ⟨⟨free, busy, hh, hs⟩, hl, hr, hid, hstep.perm h.perm, hstep.filter h.fifo, hret⟩

theorem At.apart (h : p.At held reads) {b : Agent} (hab : b ≠ a) (ha : held a = some msg) : held b ≠ some msg := by
  intro hb
  obtain ⟨free, busy, hh, hs⟩ := h.slots
  exact hab (hh.inj (List.nodup_append.mp hs.nodup).2.1 ha hb)

theorem At.stay (h : p.At held reads) (a : Agent) : Evolves p p held reads a (held a) (reads a) := by
  refine ⟨?_, .idle, rfl, rfl, fun _ _ _ _ => ⟨rfl, rfl⟩⟩
  rwa [Function.update_eq_self, Function.update_eq_self]

theorem At.take (h : p.At held reads) (ha : held a = none) (hf : p.free = some msg) :
    Evolves p { p with free := p.next msg } held reads a (some msg) (reads a) := by
  obtain ⟨free, busy, hh, hs⟩ := h.slots
  obtain ⟨l, hs'⟩ := hs.take hf
  obtain ⟨hh', he⟩ := hh.gain ha msg
  refine ⟨?_, .idle, rfl, rfl, fun _ _ _ _ => ⟨rfl, rfl⟩⟩
  rw [Function.update_eq_self]
  rw [← he] at hs'
  exact h.advance .idle hh' hs' h.labels h.reads h.ids h.returned

theorem At.write (h : p.At held reads) (ha : held a = some msg) (q : Option Slot) (d : ℕ → Byte) :
    Evolves p { p with next := Function.update p.next msg q, data := Function.update p.data msg d } held reads a
      (some msg) (reads a) := by
  obtain ⟨free, busy, hh, hs⟩ := h.slots
  have hm : msg ∈ busy.filterMap held := List.mem_filterMap.mpr ⟨a, (hh.mem a).mpr (by simp [ha]), ha⟩
  have hs' := (hs.setNext hm q).setData (Function.update p.data msg d)
  have hq : queue { p with next := Function.update p.next msg q, data := Function.update p.data msg d } = p.queue :=
    hs'.queue_eq
  have hd : deque { p with next := Function.update p.next msg q, data := Function.update p.data msg d } = p.deque := by
    simp only [deque, hq]
  have hstep : Deque.Step Msg.urgent p.deque
      (deque { p with next := Function.update p.next msg q, data := Function.update p.data msg d }) := hd ▸ .idle
  refine ⟨?_, hstep, rfl, rfl, fun b m hb hbm => ?_⟩
  · rw [← ha, Function.update_eq_self, Function.update_eq_self]
    refine h.advance hstep hh hs' (fun m hmq => ?_) h.reads h.ids h.returned
    have hne : m ≠ msg := by
      rintro rfl
      exact (hs.not_mem hm).2 hmq
    obtain ⟨h1, h2⟩ := h.labels m hmq
    exact ⟨h1, by simpa [Function.update_of_ne hne] using h2⟩
  · have hne : m ≠ msg := by
      rintro rfl
      exact h.apart hb ha hbm
    simp [Function.update_of_ne hne]

theorem ids_append {l : List Msg} (h : l.map Msg.id = List.range l.length) {m : Msg} (hm : m.id = l.length) :
    (l ++ [m]).map Msg.id = List.range (l ++ [m]).length := by
  simp [List.range_succ, h, hm]

def posted (p : Tracked) (mq : MessageQueue) (msg : Slot) (m : Msg) : Tracked :=
  { p with toMessageQueue := { mq with entry := mq.entry + 1 }, label := Function.update p.label msg m
           accepted := p.accepted ++ [m] }

theorem At.post (h : p.At held reads) (ha : held a = some msg) (mq : MessageQueue) (m : Msg)
    (hm : m.id = p.accepted.length) (hfull : p.Holds msg m.bytes)
    (hlink : ∀ free l l', Slots p.toMessageQueue free p.queue l → l.Perm (msg :: l') →
      Slots { mq with entry := mq.entry + 1 } free (if m.urgent then msg :: p.queue else p.queue ++ [msg]) l')
    (hsz : mq.msgSize = p.msgSize) (hmax : mq.maxMsgs = p.maxMsgs) (hd : mq.data = p.data)
    (hn : ∀ b m', b ≠ a → held b = some m' → mq.next m' = p.next m') :
    Evolves p (p.posted mq msg m) held reads a none (reads a) := by
  obtain ⟨free, busy, hh, hs⟩ := h.slots
  obtain ⟨hh', hp⟩ := hh.lose ha
  have hs' := hlink free _ _ hs hp
  have hmem : msg ∈ busy.filterMap held := hp.symm.subset (by simp)
  have hmq : msg ∉ p.queue := (hs.not_mem hmem).2
  have hlab : ∀ m' ∈ p.queue, Function.update p.label msg m m' = p.label m' := by
    intro m' hm'
    exact Function.update_of_ne (by rintro rfl; exact hmq hm') _ _
  have hmap : p.queue.map (Function.update p.label msg m) = p.queue.map p.label := List.map_congr_left hlab
  have hqueue : (p.posted mq msg m).queue = if m.urgent then msg :: p.queue else p.queue ++ [msg] := hs'.queue_eq
  have hstep : Deque.Step Msg.urgent p.deque (p.posted mq msg m).deque := by
    have hdq : (p.posted mq msg m).deque =
        ⟨((if m.urgent then msg :: p.queue else p.queue ++ [msg]).map (Function.update p.label msg m)),
          p.accepted ++ [m], p.received⟩ := by
      simp only [deque, hqueue]
      rfl
    rw [hdq]
    cases hu : m.urgent with
    | true =>
      simp only [if_true, List.map_cons, Function.update_self, hmap]
      exact .push m hu
    | false =>
      simp only [Bool.false_eq_true, if_false, List.map_append, List.map_cons, List.map_nil, Function.update_self, hmap]
      exact .enqueue m hu
  have hholds : ∀ m' bytes, p.Holds m' bytes → (p.posted mq msg m).Holds m' bytes := by
    intro m' bytes hb
    simp only [MessageQueue.Holds, posted, hsz, hd] at hb ⊢
    exact hb
  refine ⟨?_, hstep, hsz, hmax, fun b m' hb hbm => ⟨by simp [posted, hd], hn b m' hb hbm⟩⟩
  rw [Function.update_eq_self]
  refine h.advance hstep hh' hs' (fun m' hm' => ?_) h.reads (ids_append h.ids hm) fun d hdel => ?_
  · apply hholds
    by_cases hmm : m' = msg
    · subst hmm
      simpa [posted] using hfull
    · have hin : m' ∈ p.queue := by
        split_ifs at hm' <;> simpa [hmm] using hm'
      simp only [posted, Function.update_of_ne hmm]
      exact h.labels m' hin
  · simpa only [posted, hsz] using h.returned d hdel

theorem At.unlink (h : p.At held reads) (ha : held a = none) (hra : reads a = none) (he : p.entry ≠ 0) :
    ∃ msg, p.head = some msg ∧ p.Holds msg (p.label msg).bytes ∧
      Evolves p { p with toMessageQueue := mqUnlink p.toMessageQueue msg, received := p.received ++ [p.label msg] }
        held reads a (some msg) (some (p.label msg)) := by
  obtain ⟨free, busy, hh, hs⟩ := h.slots
  obtain ⟨msg, l, hhead, hq, hs'⟩ := hs.pop he
  obtain ⟨hh', hb⟩ := hh.gain ha msg
  obtain ⟨readers, hr, hperm⟩ := h.reads
  obtain ⟨hr', hrb⟩ := hr.gain hra (p.label msg)
  have hqueue : queue { p with toMessageQueue := mqUnlink p.toMessageQueue msg, received := p.received ++ [p.label msg] } =
      l := hs'.queue_eq
  have hstep : Deque.Step Msg.urgent p.deque
      (deque { p with toMessageQueue := mqUnlink p.toMessageQueue msg, received := p.received ++ [p.label msg] }) := by
    simp only [deque, hqueue]
    exact .dequeue (p.label msg) (l.map p.label) (by simp [hq])
  refine ⟨msg, hhead, h.labels msg (by simp [hq]), ?_, hstep, rfl, rfl, fun _ _ _ _ => ⟨rfl, rfl⟩⟩
  refine h.advance hstep hh' (hb ▸ hs') (fun m hm => h.labels m (by simp [hq, hm])) ⟨a :: readers, hr', ?_⟩ h.ids
    h.returned
  rw [hrb]
  have h1 : (p.received ++ [p.label msg]).Perm (p.label msg :: p.received) := List.perm_append_singleton _ _
  exact h1.trans ((hperm.cons _).trans List.perm_middle.symm)

theorem At.putFree (h : p.At held reads) {m : Msg} (ha : held a = some msg) (hra : reads a = some m) {d : Delivery}
    (hm : d.msg = m) (hd : d.Exact p.msgSize) :
    Evolves p { p with next := Function.update p.next msg p.free, free := some msg, returned := p.returned ++ [d] }
      held reads a none none := by
  obtain ⟨free, busy, hh, hs⟩ := h.slots
  obtain ⟨hh', hp⟩ := hh.lose ha
  obtain ⟨readers, hr, hperm⟩ := h.reads
  obtain ⟨hr', hrp⟩ := hr.lose hra
  have hs' := hs.putFree hp
  have hqueue : queue { p with next := Function.update p.next msg p.free, free := some msg, returned := p.returned ++ [d] }
      = p.queue := hs'.queue_eq
  have hstep : Deque.Step Msg.urgent p.deque (deque
      { p with next := Function.update p.next msg p.free, free := some msg, returned := p.returned ++ [d] }) := by
    simp only [deque, hqueue]
    exact .idle
  refine ⟨?_, hstep, rfl, rfl, fun b m' hb hbm => ⟨rfl, ?_⟩⟩
  · refine h.advance hstep hh' hs' h.labels ⟨_, hr', ?_⟩ h.ids fun d' hd' => ?_
    · refine hperm.trans ?_
      refine (hrp.append_left _).trans ?_
      simp [hm]
    · rcases List.mem_append.mp hd' with hd' | hd'
      · exact h.returned d' hd'
      · obtain rfl : d' = d := by simpa using hd'
        exact hd
  · exact Function.update_of_ne (by rintro rfl; exact h.apart hb ha hbm) _ _

end evolves

end Tracked

end RtSmart
