import RtSmart.Ipc.MessageQueueInv

namespace RtSmart

open Lib Kernel

namespace MqSys

def on (s : MqSys) (t : Tid) : Option ListHead := (s.op ⟨t, 0⟩).bind MqOp.head

def heldBy (s : MqSys) (o : Oid) (a : Agent) : Option Slot := (s.op a).bind (MqOp.slot o)

def readBy (s : MqSys) (o : Oid) (a : Agent) : Option Msg := (s.op a).bind (MqOp.reads o)

structure Inv (s : MqSys) : Prop where
  waiting : s.k.Waiting s.on
  ops : ∀ a op, s.op a = some op → op.Ok (s.q op.obj).toMessageQueue
  here : ∀ o, (s.q o).At (s.heldBy o) (s.readBy o)

def Moves (s s' : MqSys) : Prop :=
  ∀ o, (s'.q o).msgSize = (s.q o).msgSize ∧ (s'.q o).maxMsgs = (s.q o).maxMsgs ∧
    Deque.Step Msg.urgent (s.q o).deque (s'.q o).deque

section steps

variable {s s' : MqSys} {k' : Kernel} {o : Oid} {a : Agent} {x : Option MqOp} {p : Tracked} {msg : Slot}

theorem heldBy_act (o' : Oid) :
    (s.act k' a x o p).heldBy o' = Function.update (s.heldBy o') a (x.bind (MqOp.slot o')) := by
  funext b
  by_cases hb : b = a
  · subst hb
    simp [heldBy, act]
  · simp [heldBy, act, hb]

theorem readBy_act (o' : Oid) :
    (s.act k' a x o p).readBy o' = Function.update (s.readBy o') a (x.bind (MqOp.reads o')) := by
  funext b
  by_cases hb : b = a
  · subst hb
    simp [readBy, act]
  · simp [readBy, act, hb]

theorem on_act (ha : a.level = 0) : (s.act k' a x o p).on = Function.update s.on a.self (x.bind MqOp.head) := by
  obtain ⟨t, l⟩ := a
  obtain rfl : l = 0 := ha
  funext u
  by_cases hu : u = t
  · subst hu
    simp [on, act]
  · simp [on, act, hu]

theorem on_act_same (hx : x.bind MqOp.head = (s.op a).bind MqOp.head) : (s.act k' a x o p).on = s.on := by
  funext u
  by_cases hu : (⟨u, 0⟩ : Agent) = a
  · subst hu
    simpa [on, act] using hx
  · simp [on, act, hu]

theorem Inv.act (hi : s.Inv) (hold : ∀ op, s.op a = some op → op.obj = o) (hnew : ∀ op, x = some op → op.obj = o)
    (hev : (s.q o).Evolves p (s.heldBy o) (s.readBy o) a (x.bind (MqOp.slot o)) (x.bind (MqOp.reads o)))
    (hx : ∀ op, x = some op → op.Ok p.toMessageQueue) (hw : k'.Waiting (s.act k' a x o p).on) :
    (s.act k' a x o p).Inv ∧ s.Moves (s.act k' a x o p) := by
  have hq : ∀ o', o' ≠ o → (s.act k' a x o p).q o' = s.q o' := fun o' ho' => Function.update_of_ne ho' _ _
  have hqo : (s.act k' a x o p).q o = p := Function.update_self _ _ _
  refine ⟨⟨hw, fun b op hb => ?_, fun o' => ?_⟩, fun o' => ?_⟩
  · by_cases hba : b = a
    · subst hba
      have hxo : x = some op := by simpa [MqSys.act] using hb
      rw [hnew op hxo, hqo]
      exact hx op hxo
    · have hb' : s.op b = some op := by simpa [MqSys.act, hba] using hb
      by_cases ho : op.obj = o
      · have hok := hi.ops b op hb'
        rw [ho] at hok ⊢
        rw [hqo]
        refine hok.congr hev.msgSize fun m hm => hev.others b m hba ?_
        rw [ho] at hm
        simp [heldBy, hb', hm]
      · rw [hq _ ho]
        exact hi.ops b op hb'
  · rw [heldBy_act, readBy_act]
    by_cases ho : o' = o
    · subst ho
      rw [hqo]
      exact hev.here
    · have h1 : x.bind (MqOp.slot o') = s.heldBy o' a := by
        rw [Option.bind_eq_none_iff.mpr fun op hop => MqOp.slot_of_ne (hnew op hop ▸ ho), heldBy,
          Option.bind_eq_none_iff.mpr fun op hop => MqOp.slot_of_ne (hold op hop ▸ ho)]
      have h2 : x.bind (MqOp.reads o') = s.readBy o' a := by
        rw [Option.bind_eq_none_iff.mpr fun op hop => MqOp.reads_of_ne (hnew op hop ▸ ho), readBy,
          Option.bind_eq_none_iff.mpr fun op hop => MqOp.reads_of_ne (hold op hop ▸ ho)]
      rw [hq o' ho, h1, h2, Function.update_eq_self, Function.update_eq_self]
      exact hi.here o'
  · by_cases ho : o' = o
    · subst ho
      rw [hqo]
      exact ⟨hev.msgSize, hev.maxMsgs, hev.step⟩
    · rw [hq o' ho]
      exact ⟨rfl, rfl, .idle⟩

/-- The agent calls a function on `o`, or has waited in such a call. -/
structure Calls (s : MqSys) (a : Agent) (o : Oid) : Prop where
  active : s.Active a
  op : ∀ op, s.op a = some op → op.obj = o ∧ op.head.isSome = true ∧ a.level = 0

theorem Calls.heldBy (h : s.Calls a o) : s.heldBy o a = none := by
  refine Option.bind_eq_none_iff.mpr fun op hop => ?_
  have hhead := (h.op op hop).2.1
  cases op <;> simp_all [MqOp.head, MqOp.slot]

theorem Calls.readBy (h : s.Calls a o) : s.readBy o a = none := by
  refine Option.bind_eq_none_iff.mpr fun op hop => ?_
  have hhead := (h.op op hop).2.1
  cases op <;> simp_all [MqOp.head, MqOp.reads]

theorem Calls.obj (h : s.Calls a o) (op : MqOp) (hop : s.op a = some op) : op.obj = o := (h.op op hop).1

theorem Calls.waiting (h : s.Calls a o) (hi : s.Inv) (hx : x.bind MqOp.head = none) :
    s.k.Waiting (s.act k' a x o p).on := by
  by_cases hl : a.level = 0
  · rw [on_act hl, hx]
    exact hi.waiting.leave (h.active hl).2
  · rw [on_act_same]
    · exact hi.waiting
    · rw [hx]
      refine (Option.bind_eq_none_iff.mpr fun op hop => ?_).symm
      exact absurd (h.op op hop).2.2 hl

theorem Inv.stay (hi : s.Inv) (h : s.Calls a o) (hnew : ∀ op, x = some op → op.obj = o)
    (hv : x.bind (MqOp.slot o) = none) (hr : x.bind (MqOp.reads o) = none)
    (hx : ∀ op, x = some op → op.Ok (s.q o).toMessageQueue) (hw : k'.Waiting (s.act k' a x o (s.q o)).on) :
    (s.act k' a x o (s.q o)).Inv ∧ s.Moves (s.act k' a x o (s.q o)) := by
  refine hi.act h.obj hnew ?_ hx hw
  have hev := (hi.here o).stay a
  rw [hv, hr]
  rwa [h.heldBy, h.readBy] at hev

theorem Inv.done (hi : s.Inv) (h : s.Calls a o) :
    (s.act s.k a none o (s.q o)).Inv ∧ s.Moves (s.act s.k a none o (s.q o)) :=
  hi.stay h (by simp) rfl rfl (by simp) (h.waiting hi rfl)

theorem Inv.failed (hi : s.Inv) (h : s.Calls a o) (hl : a.level = 0) (e : Err) :
    (s.act (s.k.setThread a.self fun th => { th with error := e }) a none o (s.q o)).Inv ∧
      s.Moves (s.act (s.k.setThread a.self fun th => { th with error := e }) a none o (s.q o)) :=
  hi.stay h (by simp) rfl rfl (by simp) ((h.waiting hi rfl).setError (h.active hl).2 e)

theorem Inv.blocks (hi : s.Inv) (h : s.Calls a o) (hl : a.level = 0) (op : MqOp) {hd : ListHead} (hobj : op.obj = o)
    (hhead : op.head = some hd) (hok : op.Ok (s.q o).toMessageQueue) {flag : IpcFlag} {sf : SuspendFlag}
    (hco : k'.Coherent none) (ho : k'.CurrentOk) (hb : Blocks s.k k' a.self hd flag sf) :
    (s.act k' a (some op) o (s.q o)).Inv ∧ s.Moves (s.act k' a (some op) o (s.q o)) := by
  have hwait : hd.isWait = true := by
    cases op <;> simp [MqOp.head] at hhead <;> subst hhead <;> rfl
  refine hi.stay h (fun op' hop' => ?_) ?_ ?_ (fun op' hop' => ?_) ?_
  · obtain rfl := Option.some.inj hop'
    exact hobj
  · cases op <;> simp_all [MqOp.head, MqOp.slot]
  · cases op <;> simp_all [MqOp.head, MqOp.reads]
  · obtain rfl := Option.some.inj hop'
    exact hok
  · rw [on_act hl]
    simp only [Option.bind_some, hhead]
    exact hi.waiting.blocks hb hwait (h.active hl).2 hco ho

theorem Inv.taken (hi : s.Inv) (h : s.Calls a o) (hf : (s.q o).free = some msg) {buffer : List Byte}
    (hb : buffer.length ≤ (s.q o).msgSize) (u : Bool) :
    (s.act s.k a (some (.copyIn o msg buffer u u 0)) o { s.q o with free := (s.q o).next msg }).Inv ∧
      s.Moves (s.act s.k a (some (.copyIn o msg buffer u u 0)) o { s.q o with free := (s.q o).next msg }) := by
  have hev := (hi.here o).take h.heldBy hf
  rw [h.readBy] at hev
  refine hi.act h.obj (fun op hop => ?_) ?_ (fun op hop => ?_) (h.waiting hi rfl)
  · obtain rfl := Option.some.inj hop
    rfl
  · simpa [MqOp.slot, MqOp.reads] using hev
  · obtain rfl := Option.some.inj hop
    exact ⟨hb, Nat.zero_le _, rfl, by simp_all⟩

theorem Inv.sendLoop (hi : s.Inv) (h : s.Calls a o) {buffer : List Byte} (hb : buffer.length ≤ (s.q o).msgSize)
    (hwait : (s.q o).free = none → a.level = 0) (timeout : ℤ) (sf : SuspendFlag) :
    (s.sent a o buffer timeout sf false (mqSendLoop s.k (s.q o).toMessageQueue o a.self timeout sf)).Inv ∧
      s.Moves (s.sent a o buffer timeout sf false (mqSendLoop s.k (s.q o).toMessageQueue o a.self timeout sf)) := by
  cases hf : (s.q o).free with
  | some msg =>
    have he : mqSendLoop s.k (s.q o).toMessageQueue o a.self timeout sf =
        (s.k, { (s.q o).toMessageQueue with free := (s.q o).next msg }, .slot msg) := by
      simp only [mqSendLoop, hf]
    rw [he]
    exact hi.taken h hf hb false
  | none =>
    have hl := hwait hf
    by_cases ht : timeout = 0
    · have he : mqSendLoop s.k (s.q o).toMessageQueue o a.self timeout sf =
          (s.k.setThread a.self fun th => { th with error := .eintr }, (s.q o).toMessageQueue, .done .efull) := by
        simp only [mqSendLoop, hf, ht, if_true]
      rw [he]
      exact hi.failed h hl _
    rcases waitOn_cases (s.q o).flag sf hi.waiting.coherent hi.waiting.currentOk (h.active hl).2
      (show (ListHead.sender o).isWait = true from rfl) timeout with hw | ⟨k', hw, hco, ho, hbl⟩
    · have he : mqSendLoop s.k (s.q o).toMessageQueue o a.self timeout sf =
          (s.k.setThread a.self fun th => { th with error := .eintr }, (s.q o).toMessageQueue, .done .eintr) := by
        simp only [mqSendLoop, hf, ht, if_false, hw]
      rw [he]
      exact hi.failed h hl _
    · have he : mqSendLoop s.k (s.q o).toMessageQueue o a.self timeout sf = (k', (s.q o).toMessageQueue, .wait) := by
        simp only [mqSendLoop, hf, ht, if_false, hw]
      rw [he]
      exact hi.blocks h hl (.sendWait o buffer timeout sf) rfl rfl hb hco ho hbl

theorem Inv.recvLoop (hi : s.Inv) (h : s.Calls a o) (size : ℕ) (hwait : (s.q o).entry = 0 → a.level = 0)
    (timeout : ℤ) (sf : SuspendFlag) {r : Kernel × MessageQueue × MqResult}
    (hr : mqRecvLoop s.k (s.q o).toMessageQueue o a.self timeout sf = some r) :
    (s.got a o size timeout sf r).Inv ∧ s.Moves (s.got a o size timeout sf r) := by
  by_cases hempty : (s.q o).entry = 0
  · have hl := hwait hempty
    by_cases ht : timeout = 0
    · simp only [mqRecvLoop, hempty, ht, if_true, Option.some.injEq] at hr
      subst hr
      exact hi.failed h hl _
    rcases waitOn_cases (s.q o).flag sf hi.waiting.coherent hi.waiting.currentOk (h.active hl).2
      (show (ListHead.suspend o).isWait = true from rfl) timeout with hw | ⟨k', hw, hco, ho, hbl⟩
    · simp only [mqRecvLoop, hempty, ht, if_true, if_false, hw, Option.some.injEq] at hr
      subst hr
      exact hi.failed h hl _
    · simp only [mqRecvLoop, hempty, ht, if_true, if_false, hw, Option.some.injEq] at hr
      subst hr
      exact hi.blocks h hl (.recvWait o size timeout sf) rfl rfl trivial hco ho hbl
  · obtain ⟨msg, hhead, hholds, hev⟩ := (hi.here o).unlink h.heldBy h.readBy hempty
    simp only [mqRecvLoop, hempty, if_false, hhead, Option.map_some, Option.some.injEq] at hr
    subst hr
    refine hi.act h.obj (fun op hop => ?_) ?_ (fun op hop => ?_) (h.waiting hi rfl)
    · obtain rfl := Option.some.inj hop
      rfl
    · simpa [MqOp.slot, MqOp.reads] using hev
    · obtain rfl := Option.some.inj hop
      exact ⟨hholds, rfl⟩

theorem heldBy_of_op {op : MqOp} (hop : s.op a = some op) : s.heldBy op.obj a = op.slot op.obj := by
  simp [heldBy, hop]

theorem readBy_of_op {op : MqOp} (hop : s.op a = some op) : s.readBy op.obj a = op.reads op.obj := by
  simp [readBy, hop]

theorem waiting_window {op : MqOp} (hop : s.op a = some op) (hn : op.head = none)
    (hx : x.bind MqOp.head = none) (hw : k'.Waiting s.on) : k'.Waiting (s.act k' a x o p).on := by
  rw [on_act_same]
  · exact hw
  · simp [hx, hop, hn]

theorem range_map_update {d : ℕ → Byte} {n : ℕ} {b : Byte} :
    (List.range (n + 1)).map (Function.update d n b) = (List.range n).map d ++ [b] := by
  rw [List.range_succ, List.map_append, List.map_singleton, Function.update_self]
  congr 1
  apply List.map_congr_left
  intro i hi
  exact Function.update_of_ne (List.mem_range.mp hi).ne _ _

theorem Inv.work (hi : s.Inv) (hs : s.worked a = some s') : s'.Inv ∧ s.Moves s' := by
  cases hop : s.op a with
  | none => simp [worked, hop] at hs
  | some op =>
    have hok := hi.ops a op hop
    have hheld := heldBy_of_op hop
    have hread := readBy_of_op hop
    have hold : ∀ op', s.op a = some op' → op'.obj = op.obj := by
      rintro op' hop'
      rw [hop] at hop'
      rw [Option.some.inj hop']
    cases op with
    | sendWait o buffer timeout sf => simp [worked, hop] at hs
    | recvWait o size timeout sf => simp [worked, hop] at hs
    | copyIn o msg buffer urgent cleared n =>
      simp only [MqOp.obj, MqOp.slot, MqOp.reads, if_true] at hheld hread hold hok
      obtain ⟨hlen, hn, hdata, hnext⟩ := hok
      simp only [worked, hop] at hs
      split_ifs at hs with hc hlt
      · obtain rfl := Option.some.inj hs
        have hev := (hi.here o).write hheld none ((s.q o).data msg)
        rw [Function.update_eq_self, hread] at hev
        refine hi.act hold (by simp [MqOp.obj]) (by simpa [MqOp.slot, MqOp.reads] using hev) (fun op' hop' => ?_)
          (waiting_window hop rfl rfl hi.waiting)
        obtain rfl := Option.some.inj hop'
        exact ⟨hlen, hn, hdata, fun _ _ => Function.update_self _ _ _⟩
      · obtain rfl := Option.some.inj hs
        have hev := (hi.here o).write hheld ((s.q o).next msg) (Function.update ((s.q o).data msg) n buffer[n])
        rw [Function.update_eq_self, hread] at hev
        refine hi.act hold (by simp [MqOp.obj]) (by simpa [MqOp.slot, MqOp.reads] using hev) (fun op' hop' => ?_)
          (waiting_window hop rfl rfl hi.waiting)
        obtain rfl := Option.some.inj hop'
        refine ⟨hlen, hlt, ?_, hnext⟩
        simp only [Function.update_self, range_map_update, hdata]
        rw [List.take_succ_eq_append_getElem hlt]
    | copyOut o msg size m out =>
      simp only [MqOp.obj, MqOp.slot, MqOp.reads, if_true] at hheld hread hold hok
      simp only [worked, hop, Option.ite_none_right_eq_some, Option.some.injEq] at hs
      obtain ⟨hlt, rfl⟩ := hs
      have hev := (hi.here o).stay a
      rw [hheld, hread] at hev
      refine hi.act hold (by simp [MqOp.obj]) (by simpa [MqOp.slot, MqOp.reads] using hev) (fun op' hop' => ?_)
        (waiting_window hop rfl rfl hi.waiting)
      obtain rfl := Option.some.inj hop'
      refine ⟨hok.1, ?_⟩
      rw [List.length_append, List.length_singleton, List.range_succ, List.map_append, ← hok.2, List.map_singleton]

theorem resume_waiting (hi : s.Inv) {h : ListHead} (hw : h.isWait = true) : (s.k.rtIpcListResume h).Waiting s.on :=
  (hi.waiting.resume (n := 0) covered_zero hw).1

theorem exact_of_holds {mq : MessageQueue} {m : Msg} {size : ℕ} {out : List Byte} (hm : mq.Holds msg m.bytes)
    (hout : out = (List.range out.length).map (mq.data msg)) (hlen : out.length = min size mq.msgSize) :
    Delivery.Exact ⟨m, size, out⟩ mq.msgSize := by
  refine ⟨hlen, ?_⟩
  have h1 : out.take m.bytes.length = ((List.range out.length).take m.bytes.length).map (mq.data msg) := by
    conv_lhs => rw [hout]
    rw [List.map_take]
  have h2 : m.bytes.take out.length = ((List.range m.bytes.length).take out.length).map (mq.data msg) := by
    conv_lhs => rw [← hm.2]
    rw [List.map_take]
  simp only [h1, h2, List.take_range, min_comm]

theorem Inv.posted (hi : s.Inv) {buffer : List Byte} {urgent : Bool}
    (hop : s.op a = some (.copyIn o msg buffer urgent true buffer.length)) {mq : MessageQueue}
    (hmq : mq = if urgent then mqLinkUrgent (s.q o).toMessageQueue msg else mqLink (s.q o).toMessageQueue msg) :
    mq.entry < rtMqEntryMax ∧
      (s.q o).Evolves ((s.q o).posted mq msg ⟨(s.q o).accepted.length, urgent, buffer⟩) (s.heldBy o) (s.readBy o) a
        none none := by
  have hheld : s.heldBy o a = some msg := by simp [heldBy, hop, MqOp.slot]
  have hread : s.readBy o a = none := by simp [readBy, hop, MqOp.reads]
  obtain ⟨hlen, hn, hdata, hnext⟩ := hi.ops a _ hop
  simp only [MqOp.obj, List.take_length] at hlen hdata hnext
  obtain ⟨free, busy, hh, hsl⟩ := (hi.here o).slots
  have hmem : msg ∈ busy.filterMap (s.heldBy o) := List.mem_filterMap.mpr ⟨a, (hh.mem a).mpr (by simp [hheld]), hheld⟩
  have hentry : mq.entry = (s.q o).entry := by
    rw [hmq]
    cases urgent <;> rfl
  refine ⟨?_, ?_⟩
  · have hlt := hsl.length_lt hmem
    have hmax := hsl.maxMsgs
    rw [hentry, hsl.entry]
    unfold rtMqEntryMax
    omega
  have hev := (hi.here o).post hheld mq ⟨(s.q o).accepted.length, urgent, buffer⟩ rfl ⟨hlen, hdata⟩
    (fun free l l' hs hp => ?_) ?_ ?_ ?_ fun b m' hb hbm => ?_
  · rwa [hread] at hev
  · cases urgent with
    | true =>
      subst hmq
      exact hs.linkUrgent hp
    | false =>
      subst hmq
      exact hs.link hp (hnext rfl trivial)
  · rw [hmq]
    cases urgent <;> rfl
  · rw [hmq]
    cases urgent <;> rfl
  · rw [hmq]
    cases urgent <;> rfl
  · -- the pointer that a link writes is that of the last queued slot or of the slot itself
    rw [hmq]
    cases urgent with
    | true => exact Function.update_of_ne (by rintro rfl; exact (hi.here o).apart hb hheld hbm) _ _
    | false =>
      simp only [Bool.false_eq_true, if_false, mqLink]
      cases ht : (s.q o).tail with
      | none => rfl
      | some last =>
        have hlast : last ∈ (s.q o).queue := List.mem_of_getLast? (hsl.tail.symm.trans ht)
        have hm' : m' ∈ busy.filterMap (s.heldBy o) := List.mem_filterMap.mpr ⟨b, (hh.mem b).mpr (by simp [hbm]), hbm⟩
        exact Function.update_of_ne (by rintro rfl; exact (hsl.not_mem hm').2 hlast) _ _

theorem Inv.finish (hi : s.Inv) (hs : s.finished a = some s') : s'.Inv ∧ s.Moves s' := by
  cases hop : s.op a with
  | none => simp [finished, hop] at hs
  | some op =>
    have hok := hi.ops a op hop
    have hheld := heldBy_of_op hop
    have hread := readBy_of_op hop
    have hold : ∀ op', s.op a = some op' → op'.obj = op.obj := by
      rintro op' hop'
      rw [hop] at hop'
      rw [Option.some.inj hop']
    cases op with
    | sendWait o buffer timeout sf => simp [finished, hop] at hs
    | recvWait o size timeout sf => simp [finished, hop] at hs
    | copyIn o msg buffer urgent cleared n =>
      simp only [finished, hop, Option.ite_none_right_eq_some, Option.some.injEq] at hs
      obtain ⟨⟨rfl, rfl⟩, rfl⟩ := hs
      obtain ⟨hentry, hev⟩ := hi.posted hop rfl
      rw [mqPosted_eq hentry]
      exact hi.act hold (by simp) hev (by simp) (waiting_window hop rfl rfl (resume_waiting hi rfl))
    | copyOut o msg size m out =>
      simp only [MqOp.obj, MqOp.slot, MqOp.reads, if_true] at hheld hread hold hok
      simp only [finished, hop, Option.ite_none_right_eq_some, Option.some.injEq] at hs
      obtain ⟨hlen, rfl⟩ := hs
      have hev := (hi.here o).putFree (d := ⟨m, size, out⟩) hheld hread rfl (exact_of_holds hok.1 hok.2 hlen)
      rw [mqPutFree_eq]
      exact hi.act hold (by simp) hev (by simp) (waiting_window hop rfl rfl (resume_waiting hi rfl))

theorem calls_of_none (hact : s.Active a) (hop : (s.op a).isNone = true) (o : Oid) : s.Calls a o := by
  refine ⟨hact, fun op h => ?_⟩
  simp [h] at hop

theorem Inv.send {buffer : List Byte} {timeout : ℤ} {sf : SuspendFlag} (hi : s.Inv)
    (hs : s.step (.send a o buffer timeout sf) = some s') : s'.Inv ∧ s.Moves s' := by
  simp only [step, Option.ite_none_right_eq_some, Option.some.injEq] at hs
  obtain ⟨⟨hact, hop, htime⟩, rfl⟩ := hs
  have hcalls := calls_of_none hact hop o
  unfold rtMqSendWait
  by_cases hsize : (s.q o).msgSize < buffer.length
  · rw [if_pos hsize]
    exact hi.done hcalls
  by_cases hfull : (s.q o).free = none ∧ timeout = 0
  · rw [if_neg hsize, if_pos hfull]
    exact hi.done hcalls
  · rw [if_neg hsize, if_neg hfull]
    refine hi.sendLoop hcalls (Nat.le_of_not_lt hsize) (fun hf => ?_) timeout sf
    exact htime.resolve_right fun ht => hfull ⟨hf, ht⟩

theorem Inv.urgent {buffer : List Byte} (hi : s.Inv) (hs : s.step (.urgent a o buffer) = some s') :
    s'.Inv ∧ s.Moves s' := by
  simp only [step, Option.ite_none_right_eq_some, Option.some.injEq] at hs
  obtain ⟨⟨hact, hop⟩, rfl⟩ := hs
  have hcalls := calls_of_none hact hop o
  unfold rtMqUrgent
  by_cases hsize : (s.q o).msgSize < buffer.length
  · rw [if_pos hsize]
    exact hi.done hcalls
  · rw [if_neg hsize]
    cases hf : (s.q o).free with
    | none => exact hi.done hcalls
    | some msg => exact hi.taken hcalls hf (Nat.le_of_not_lt hsize) true

theorem Inv.recv {size : ℕ} {timeout : ℤ} {sf : SuspendFlag} (hi : s.Inv)
    (hs : s.step (.recv a o size timeout sf) = some s') : s'.Inv ∧ s.Moves s' := by
  simp only [step, Option.ite_none_right_eq_some, Option.map_eq_some_iff] at hs
  obtain ⟨⟨hact, hop, htime⟩, r, hr, rfl⟩ := hs
  have hcalls := calls_of_none hact hop o
  unfold rtMqRecv at hr
  by_cases hempty : (s.q o).entry = 0 ∧ timeout = 0
  · rw [if_pos hempty] at hr
    obtain rfl := Option.some.inj hr
    exact hi.done hcalls
  · rw [if_neg hempty] at hr
    refine hi.recvLoop hcalls size (fun he => ?_) timeout sf hr
    exact htime.resolve_right fun ht => hempty ⟨he, ht⟩

theorem Inv.ret {t : Tid} {delta : ℕ} (hi : s.Inv) (hs : s.step (.ret t delta) = some s') : s'.Inv ∧ s.Moves s' := by
  simp only [step, Option.ite_none_right_eq_some] at hs
  obtain ⟨hrun, hs⟩ := hs
  have hcalls : ∀ op, s.op ⟨t, 0⟩ = some op → op.head.isSome = true → s.Calls ⟨t, 0⟩ op.obj := by
    intro op hop hhead
    refine ⟨fun _ => hrun, fun op' hop' => ?_⟩
    obtain rfl := Option.some.inj (hop.symm.trans hop')
    exact ⟨rfl, hhead, rfl⟩
  cases hop : s.op ⟨t, 0⟩ with
  | none => simp [hop] at hs
  | some op =>
    cases op with
    | sendWait o buffer timeout sf =>
      simp only [hop, Option.some.injEq] at hs
      subst hs
      have hc : s.Calls ⟨t, 0⟩ o := hcalls _ hop rfl
      unfold rtMqSendWaitEnd
      split_ifs with he
      · exact hi.done hc
      · exact hi.sendLoop hc (hi.ops _ _ hop) (fun _ => rfl) _ sf
    | recvWait o size timeout sf =>
      simp only [hop, Option.map_eq_some_iff] at hs
      obtain ⟨r, hr, rfl⟩ := hs
      have hc : s.Calls ⟨t, 0⟩ o := hcalls _ hop rfl
      unfold rtMqRecvEnd at hr
      split_ifs at hr with he
      · obtain rfl := Option.some.inj hr
        exact hi.done hc
      · exact hi.recvLoop hc size (fun _ => rfl) _ sf hr
    | copyIn o msg buffer urgent cleared n => simp [hop] at hs
    | copyOut o msg size m out => simp [hop] at hs

theorem Inv.step (hi : s.Inv) {e : Event} (hs : s.step e = some s') : s'.Inv ∧ s.Moves s' := by
  cases e with
  | send a o buffer timeout sf => exact hi.send hs
  | urgent a o buffer => exact hi.urgent hs
  | recv a o size timeout sf => exact hi.recv hs
  | ret t delta => exact hi.ret hs
  | work a =>
    simp only [MqSys.step, Option.ite_none_right_eq_some] at hs
    exact hi.work hs.2
  | finish a =>
    simp only [MqSys.step, Option.ite_none_right_eq_some] at hs
    exact hi.finish hs.2
  | kernel e =>
    simp only [MqSys.step, Option.map_eq_some_iff] at hs
    obtain ⟨k', hk, rfl⟩ := hs
    exact ⟨⟨hi.waiting.kernel hk, hi.ops, hi.here⟩, fun o => ⟨rfl, rfl, .idle⟩⟩

theorem inv_init {k₀ : Kernel} (hq : k₀.Quiet) {mq : Oid → MessageQueue}
    (hs : ∀ o, ∃ free, Slots (mq o) free [] []) : (init k₀ mq).Inv := by
  refine ⟨hq.waiting, by simp [init], fun o => ?_⟩
  obtain ⟨free, hslots⟩ := hs o
  have hqueue : ((init k₀ mq).q o).queue = [] := hslots.queue_eq
  have hdeque : ((init k₀ mq).q o).deque = ⟨[], [], []⟩ := by
    rw [Tracked.deque, hqueue]
    rfl
  have hnone : Holders (fun _ : Agent => (none : Option Slot)) [] := ⟨List.nodup_nil, by simp⟩
  refine ⟨⟨free, [], hnone, ?_⟩, by simp [hqueue], ⟨[], ⟨List.nodup_nil, ?_⟩, by simp [init]⟩, rfl, ?_, ?_, by simp [init]⟩
  · rw [hqueue]
    exact hslots
  · simp [readBy, init]
  · rw [hdeque]
    exact List.Perm.refl []
  · rw [hdeque]
    rfl

end steps

/-- Every slot is free, queued or in the hands of one agent, and every message is queued or was
received once. -/
structure Conserved (s : MqSys) (o : Oid) : Prop where
  slots : ∃ free busy, Holders (s.heldBy o) busy ∧ Chain (s.q o).next (s.q o).free free ∧
    Chain (s.q o).next (s.q o).head (s.q o).queue ∧
    (free ++ (s.q o).queue ++ busy.filterMap (s.heldBy o)).Perm (List.range (s.q o).maxMsgs)
  entry : (s.q o).entry = (s.q o).queue.length
  ends : (s.q o).head = (s.q o).queue.head? ∧ (s.q o).tail = (s.q o).queue.getLast?
  once : (s.q o).accepted.Perm ((s.q o).received ++ (s.q o).queue.map (s.q o).label) ∧
    ((s.q o).accepted.map Msg.id).Nodup
  delivered : ∃ readers, Holders (s.readBy o) readers ∧
    (s.q o).received.Perm ((s.q o).returned.map Delivery.msg ++ readers.filterMap (s.readBy o))
  bytes : ∀ d ∈ (s.q o).returned, d.Exact (s.q o).msgSize

/-- The order in which messages come out, now and in every later state. -/
structure Ordered (s : MqSys) (o : Oid) : Prop where
  fifo : (s.q o).deque.order.filter (!Msg.urgent ·) = (s.q o).accepted.filter (!Msg.urgent ·)
  later : ∀ es s', run step s es = some s' →
    (s.q o).deque.order.Sublist (s'.q o).deque.order ∧ (s.q o).received <+: (s'.q o).received
  urgent : ∀ e s' m, s.step e = some s' → m.urgent = true → (s'.q o).accepted = (s.q o).accepted ++ [m] →
    ∀ es s'', run step s' es = some s'' → ∀ m' ∈ (s.q o).deque.contents, [m, m'].Sublist (s''.q o).deque.order

section results

variable {s : MqSys}

theorem Inv.conserved (hi : s.Inv) (o : Oid) : s.Conserved o := by
  have h := hi.here o
  obtain ⟨free, busy, hh, hs⟩ := h.slots
  refine ⟨⟨free, busy, hh, hs.freeChain, hs.queueChain, hs.perm⟩, hs.entry, ⟨hs.queueChain.head, hs.tail⟩,
    ⟨h.perm, ?_⟩, h.reads, h.returned⟩
  rw [h.ids]
  exact List.nodup_range

theorem Inv.later (hi : s.Inv) (o : Oid) {es : List Event} {s' : MqSys} (h : run MqSys.step s es = some s') :
    (s.q o).deque.order.Sublist (s'.q o).deque.order ∧ (s.q o).received <+: (s'.q o).received := by
  have hrun := run_invariant (fun s' : MqSys => s'.Inv ∧ (s.q o).deque.order.Sublist (s'.q o).deque.order ∧
    (s.q o).received <+: (s'.q o).received) (fun s₁ e s₂ ih hs => ?_) h ⟨hi, List.Sublist.refl _, List.prefix_rfl⟩
  · exact hrun.2
  · obtain ⟨hi₁, hsub, hpre⟩ := ih
    obtain ⟨hi₂, hm⟩ := hi₁.step hs
    exact ⟨hi₂, hsub.trans (hm o).2.2.order_sublist, hpre.trans (hm o).2.2.received_grows⟩

theorem Inv.ordered (hi : s.Inv) (o : Oid) : s.Ordered o := by
  refine ⟨(hi.here o).fifo, fun es s' h => hi.later o h, fun e s' m hs hm hacc es s'' h m' hm' => ?_⟩
  obtain ⟨hi', hmoves⟩ := hi.step hs
  exact ((hmoves o).2.2.pushed hm hacc m' hm').trans (hi'.later o h).1

end results

/-- Slots are conserved, and what is received is what was sent, as far as it was sent. -/
theorem message_queue_conserved {k₀ : Kernel} (hq : k₀.Quiet) (mq₀ : Oid → MessageQueue)
    (hmq : ∀ o, ∃ align msgSize poolSize next data flag,
      rtMqInit align msgSize poolSize next data flag = .ok (mq₀ o)) (es : List Event) (s : MqSys)
    (h : run step (init k₀ mq₀) es = some s) (o : Oid) :
    (s.q o).msgSize = (mq₀ o).msgSize ∧ (s.q o).maxMsgs = (mq₀ o).maxMsgs ∧ s.Conserved o ∧ s.Ordered o := by
  have h0 : (init k₀ mq₀).Inv := inv_init hq fun o => by
    obtain ⟨align, msgSize, poolSize, next, data, flag, he⟩ := hmq o
    exact ⟨_, (rtMqInit_slots he).1⟩
  have hinv : s.Inv ∧ ∀ o, (s.q o).msgSize = (mq₀ o).msgSize ∧ (s.q o).maxMsgs = (mq₀ o).maxMsgs := by
    refine run_invariant (fun s : MqSys => s.Inv ∧ ∀ o, (s.q o).msgSize = (mq₀ o).msgSize ∧
      (s.q o).maxMsgs = (mq₀ o).maxMsgs) (fun s₁ e s₂ ih hs => ?_) h ⟨h0, fun _ => ⟨rfl, rfl⟩⟩
    obtain ⟨hi₂, hm⟩ := ih.1.step hs
    exact ⟨hi₂, fun o => ⟨(hm o).1.trans (ih.2 o).1, (hm o).2.1.trans (ih.2 o).2⟩⟩
  obtain ⟨hi, hfix⟩ := hinv
  exact ⟨(hfix o).1, (hfix o).2, hi.conserved o, hi.ordered o⟩

/-- A queue of messages of four bytes with room for `n`, on a machine that aligns to eight. -/
def smallQueue (n : ℕ) : MessageQueue :=
  match rtMqInit 8 4 (16 * n) (fun _ => none) (fun _ _ => 0) .fifo with
  | .ok mq => mq
  | .error _ => ⟨0, 0, 0, none, none, none, fun _ => none, fun _ _ => 0, .fifo⟩

def urgentRun : List Event :=
  [.send ⟨3, 0⟩ 0 [1, 2] 0 .uninterruptible, .work ⟨3, 0⟩, .urgent ⟨3, 1⟩ 0 [7], .work ⟨3, 1⟩, .finish ⟨3, 1⟩,
    .work ⟨3, 0⟩, .work ⟨3, 0⟩, .finish ⟨3, 0⟩, .recv ⟨3, 0⟩ 0 1 0 .uninterruptible, .work ⟨3, 0⟩, .finish ⟨3, 0⟩]

theorem message_queue_conserved_example :
    ∃ s, run step (init (started 32 (fun t => t % 32) [3]) fun _ => smallQueue 2) urgentRun = some s ∧
      (s.q 0).received.map Msg.bytes = [[7]] ∧ s.Conserved 0 ∧ s.Ordered 0 := by
  have hrun : (run step (init (started 32 (fun t => t % 32) [3]) fun _ => smallQueue 2) urgentRun).map
      (fun s => (s.q 0).received.map Msg.bytes) = some [[7]] := by decide +kernel
  obtain ⟨s, hs, heq⟩ := Option.map_eq_some_iff.mp hrun
  have hq := started_quiet (n := 32) (by decide) (fun t => Nat.mod_lt t (by decide)) [3]
  have halign : rtAlign 4 8 = 8 := by decide +kernel
  have hinit : rtMqInit 8 4 32 (fun _ => none) (fun _ _ => 0) .fifo = .ok (smallQueue 2) := by
    simp only [smallQueue, rtMqInit, mqSlotSize, halign]
    rfl
  have hcon := message_queue_conserved hq (fun _ => smallQueue 2) (fun _ => ⟨8, 4, 32, _, _, _, hinit⟩) _ s hs 0
  exact ⟨s, hs, heq, hcon.2.2.1, hcon.2.2.2⟩

/-- A message of four bytes and then one of a single byte go through the same slot. -/
def staleRun : List Event :=
  [.send ⟨3, 0⟩ 0 [1, 2, 3, 4] 0 .uninterruptible, .work ⟨3, 0⟩, .work ⟨3, 0⟩, .work ⟨3, 0⟩, .work ⟨3, 0⟩, .work ⟨3, 0⟩,
    .finish ⟨3, 0⟩, .recv ⟨3, 0⟩ 0 4 0 .uninterruptible, .work ⟨3, 0⟩, .work ⟨3, 0⟩, .work ⟨3, 0⟩, .work ⟨3, 0⟩,
    .finish ⟨3, 0⟩, .send ⟨3, 0⟩ 0 [9] 0 .uninterruptible, .work ⟨3, 0⟩, .work ⟨3, 0⟩, .finish ⟨3, 0⟩,
    .recv ⟨3, 0⟩ 0 4 0 .uninterruptible, .work ⟨3, 0⟩, .work ⟨3, 0⟩, .work ⟨3, 0⟩, .work ⟨3, 0⟩, .finish ⟨3, 0⟩]

/-- The second receive gets the byte that was sent and three bytes of the message before. -/
theorem message_queue_stale_bytes :
    ∃ s, run step (init (started 32 (fun t => t % 32) [3]) fun _ => smallQueue 1) staleRun = some s ∧
      ∃ d ∈ (s.q 0).returned, d.bytes ≠ d.msg.bytes.take (min d.size (s.q 0).msgSize) := by
  have hrun : (run step (init (started 32 (fun t => t % 32) [3]) fun _ => smallQueue 1) staleRun).map
      (fun s => (s.q 0).returned.any fun d => d.bytes ≠ d.msg.bytes.take (min d.size (s.q 0).msgSize)) = some true := by
    decide +kernel
  obtain ⟨s, hs, heq⟩ := Option.map_eq_some_iff.mp hrun
  obtain ⟨d, hd, hne⟩ := List.any_eq_true.mp heq
  exact ⟨s, hs, d, hd, by simpa using hne⟩

end MqSys

end RtSmart
