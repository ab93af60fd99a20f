import RtSmart.Ipc.Mailbox
import RtSmart.Lib.Chain
import RtSmart.Lib.Deque
import RtSmart.Lib.Word

/-!
Message queues. The slots of the pool are named by their index, a slot has the pointer of
`struct rt_mq_message` and the payload bytes behind it.
-/

namespace RtSmart

open Lib Kernel

abbrev Slot := ℕ
abbrev Byte := BitVec 8

def rtMqEntryMax : ℕ := 0xffff

structure MessageQueue where
  msgSize : ℕ
  maxMsgs : ℕ
  entry : ℕ
  head : Option Slot
  tail : Option Slot
  free : Option Slot
  next : Slot → Option Slot
  data : Slot → ℕ → Byte
  flag : IpcFlag

-- the distance of two slots, the pointer in front included
def mqSlotSize (align msgSize : ℕ) : ℕ := rtAlign msgSize align + 8

def mqFreeStep (mq : MessageQueue) (temp : Slot) : MessageQueue :=
  { mq with next := Function.update mq.next temp mq.free, free := some temp }

def rtMqInit (align msgSize poolSize : ℕ) (next : Slot → Option Slot) (data : Slot → ℕ → Byte) (flag : IpcFlag) :
    Except Err MessageQueue :=
  let maxMsgs := poolSize / mqSlotSize align msgSize % 0x10000
  if maxMsgs = 0 then .error .einval
  else .ok ((List.range maxMsgs).foldl mqFreeStep ⟨msgSize % 0x10000, maxMsgs, 0, none, none, none, next, data, flag⟩)

/-- The end of a critical section of a call: it returns, waits or holds a slot that it copies. -/
inductive MqResult where
  | done (e : Err)
  | wait
  | slot (msg : Slot)

section functions

variable (k : Kernel) (mq : MessageQueue) (o : Oid) (t : Tid)

/-- The loop of `_rt_mq_send_wait` up to its call of `rt_schedule`, and the first critical section. -/
def mqSendLoop (timeout : ℤ) (sf : SuspendFlag) : Kernel × MessageQueue × MqResult :=
  match mq.free with
  | none =>
    if timeout = 0 then (k.setThread t fun th => { th with error := .eintr }, mq, .done .efull)
    else
      match k.waitOn (.sender o) t mq.flag sf timeout with
      | (k, .eok) => (k, mq, .wait)
      | (k, ret) => (k, mq, .done ret)
  | some msg => (k, { mq with free := mq.next msg }, .slot msg)

def rtMqSendWait (size : ℕ) (timeout : ℤ) (sf : SuspendFlag) : Kernel × MessageQueue × MqResult :=
  if mq.msgSize < size then (k, mq, .done .error)
  else if mq.free = none ∧ timeout = 0 then (k, mq, .done .efull)
  else mqSendLoop k mq o t timeout sf

/-- `_rt_mq_send_wait` from the point where the thread runs again. -/
def rtMqSendWaitEnd (timeout : ℤ) (sf : SuspendFlag) (delta : ℕ) : Kernel × MessageQueue × MqResult :=
  if (k.thread t).error ≠ .eok then (k, mq, .done (k.thread t).error)
  else mqSendLoop k mq o t (remaining timeout delta) sf

def rtMqUrgent (size : ℕ) : MessageQueue × MqResult :=
  if mq.msgSize < size then (mq, .done .error)
  else
    match mq.free with
    | none => (mq, .done .efull)
    | some msg => ({ mq with free := mq.next msg }, .slot msg)

def mqPosted : Kernel × MessageQueue × Err :=
  if mq.entry < rtMqEntryMax then
    let mq := { mq with entry := mq.entry + 1 }
    if k.list (.suspend o) ≠ [] then (k.rtIpcListResume (.suspend o), mq, .eok) else (k, mq, .eok)
  else (k, mq, .efull)

def mqLink (msg : Slot) : MessageQueue :=
  { mq with
    next := match mq.tail with
      | some tail => Function.update mq.next tail (some msg)
      | none => mq.next
    tail := some msg
    head := if mq.head = none then some msg else mq.head }

def mqLinkUrgent (msg : Slot) : MessageQueue :=
  { mq with
    next := Function.update mq.next msg mq.head
    head := some msg
    tail := if mq.tail = none then some msg else mq.tail }

def mqUnlink (msg : Slot) : MessageQueue :=
  { mq with head := mq.next msg, tail := if mq.tail = some msg then none else mq.tail, entry := mq.entry - 1 }

def mqRecvLoop (timeout : ℤ) (sf : SuspendFlag) : Option (Kernel × MessageQueue × MqResult) :=
  if mq.entry = 0 then
    if timeout = 0 then
      some (k.setThread t fun th => { th with error := .etimeout }, mq, .done .etimeout)
    else
      match k.waitOn (.suspend o) t mq.flag sf timeout with
      | (k, .eok) => some (k, mq, .wait)
      | (k, ret) => some (k, mq, .done ret)
  -- without a head the null pointer would be followed
  else mq.head.map fun msg => (k, mqUnlink mq msg, .slot msg)

def rtMqRecv (timeout : ℤ) (sf : SuspendFlag) : Option (Kernel × MessageQueue × MqResult) :=
  if mq.entry = 0 ∧ timeout = 0 then some (k, mq, .done .etimeout)
  else mqRecvLoop k mq o t timeout sf

def rtMqRecvEnd (timeout : ℤ) (sf : SuspendFlag) (delta : ℕ) : Option (Kernel × MessageQueue × MqResult) :=
  if (k.thread t).error ≠ .eok then some (k, mq, .done (k.thread t).error)
  else mqRecvLoop k mq o t (remaining timeout delta) sf

/-- The second critical section of `_rt_mq_recv`. -/
def mqPutFree (msg : Slot) : Kernel × MessageQueue :=
  let mq := { mq with next := Function.update mq.next msg mq.free, free := some msg }
  if k.list (.sender o) ≠ [] then (k.rtIpcListResume (.sender o), mq) else (k, mq)

end functions

/-- Where the slots of the pool are: free, queued or held by a call that copies. -/
structure Slots (mq : MessageQueue) (free queue held : List Slot) : Prop where
  freeChain : Chain mq.next mq.free free
  queueChain : Chain mq.next mq.head queue
  tail : mq.tail = queue.getLast?
  entry : mq.entry = queue.length
  perm : (free ++ queue ++ held).Perm (List.range mq.maxMsgs)
  maxMsgs : mq.maxMsgs < 0x10000

section slots

variable {mq : MessageQueue} {free queue held held' : List Slot} {msg : Slot}

theorem Slots.nodup (h : Slots mq free queue held) : (free ++ queue ++ held).Nodup :=
  h.perm.nodup_iff.mpr List.nodup_range

theorem Slots.queue_eq (h : Slots mq free queue held) : walk mq.next mq.entry mq.head = queue := by
  rw [h.entry]
  exact h.queueChain.walk_eq

theorem Slots.not_mem (h : Slots mq free queue held) (hm : msg ∈ held) : msg ∉ free ∧ msg ∉ queue := by
  have hd := (List.nodup_append.mp h.nodup).2.2
  constructor
  · intro hf
    exact hd msg (by simp [hf]) msg hm rfl
  · intro hq
    exact hd msg (by simp [hq]) msg hm rfl

theorem Slots.take (h : Slots mq free queue held) (hf : mq.free = some msg) :
    ∃ l, Slots { mq with free := mq.next msg } l queue (msg :: held) := by
  have hfree := h.freeChain
  rw [hf] at hfree
  obtain ⟨l, rfl, hl⟩ := chain_some hfree
  refine ⟨l, hl, h.queueChain, h.tail, h.entry, ?_, h.maxMsgs⟩
  refine List.Perm.trans ?_ h.perm
  have hmid : (l ++ queue ++ msg :: held).Perm (msg :: (l ++ queue ++ held)) := List.perm_middle
  simpa using hmid

theorem Slots.setNext (h : Slots mq free queue held) (hm : msg ∈ held) (q : Option Slot) :
    Slots { mq with next := Function.update mq.next msg q } free queue held :=
  ⟨h.freeChain.update (h.not_mem hm).1 q, h.queueChain.update (h.not_mem hm).2 q, h.tail, h.entry, h.perm, h.maxMsgs⟩

theorem Slots.setData (h : Slots mq free queue held) (data : Slot → ℕ → Byte) :
    Slots { mq with data := data } free queue held :=
  ⟨h.freeChain, h.queueChain, h.tail, h.entry, h.perm, h.maxMsgs⟩

theorem Slots.length_lt (h : Slots mq free queue held) (hm : msg ∈ held) : queue.length < mq.maxMsgs := by
  have hlen := h.perm.length_eq
  have hpos := List.length_pos_of_mem hm
  simp only [List.length_append, List.length_range] at hlen
  omega

theorem Slots.link (h : Slots mq free queue held) (hp : held.Perm (msg :: held')) (hn : mq.next msg = none) :
    Slots { mqLink mq msg with entry := mq.entry + 1 } free (queue ++ [msg]) held' := by
  have hm : msg ∈ held := hp.symm.subset (by simp)
  obtain ⟨hmf, hmq⟩ := h.not_mem hm
  have hperm : (free ++ (queue ++ [msg]) ++ held').Perm (List.range mq.maxMsgs) := by
    refine List.Perm.trans ?_ h.perm
    simpa using (hp.symm.append_left (free ++ queue))
  refine ⟨?_, ?_, by simp [mqLink], by simp [h.entry], hperm, h.maxMsgs⟩
  · cases hq : mq.tail with
    | none => simpa [mqLink, hq] using h.freeChain
    | some last =>
      have hlast : last ∈ queue := List.mem_of_getLast? (h.tail.symm.trans hq)
      have hnot : last ∉ free := by
        intro hf
        have hd := (List.nodup_append.mp (List.nodup_append.mp h.nodup).1).2.2
        exact hd last hf last hlast rfl
      simpa [mqLink, hq] using h.freeChain.update hnot (some msg)
  · rcases List.eq_nil_or_concat queue with rfl | ⟨l, last, rfl⟩
    · have ht : mq.tail = none := by simpa using h.tail
      have hh : mq.head = none := h.queueChain
      simp only [mqLink, ht, hh, if_true, List.nil_append]
      exact ⟨rfl, hn⟩
    · have ht : mq.tail = some last := by simpa using h.tail
      have hh : mq.head ≠ none := by
        rw [h.queueChain.head]
        simp
      simp only [mqLink, ht, hh, if_false]
      have hnd : (l.concat last).Nodup := (List.nodup_append.mp (List.nodup_append.mp h.nodup).1).2.1
      have hq := h.queueChain
      rw [List.concat_eq_append] at hq hnd hmq ⊢
      exact hq.snoc hnd hmq hn

theorem Slots.linkUrgent (h : Slots mq free queue held) (hp : held.Perm (msg :: held')) :
    Slots { mqLinkUrgent mq msg with entry := mq.entry + 1 } free (msg :: queue) held' := by
  have hm : msg ∈ held := hp.symm.subset (by simp)
  obtain ⟨hmf, hmq⟩ := h.not_mem hm
  have hperm : (free ++ msg :: queue ++ held').Perm (List.range mq.maxMsgs) := by
    refine List.Perm.trans ?_ h.perm
    refine List.Perm.trans ?_ (hp.symm.append_left (free ++ queue))
    rw [List.append_assoc, List.append_assoc, List.cons_append]
    exact (List.perm_middle.symm.append_left free)
  refine ⟨h.freeChain.update hmf _, h.queueChain.cons hmq, ?_, by simp [h.entry], hperm, h.maxMsgs⟩
  simp only [mqLinkUrgent, h.tail]
  cases queue with
  | nil => rfl
  | cons a l => simp [List.getLast?_cons_cons, List.getLast?_eq_none_iff]

theorem Slots.pop (h : Slots mq free queue held) (he : mq.entry ≠ 0) :
    ∃ msg l, mq.head = some msg ∧ queue = msg :: l ∧ Slots (mqUnlink mq msg) free l (msg :: held) := by
  cases queue with
  | nil => simp [h.entry] at he
  | cons msg l =>
    obtain ⟨hh, hl⟩ := h.queueChain
    have hnd : (msg :: l).Nodup := (List.nodup_append.mp (List.nodup_append.mp h.nodup).1).2.1
    refine ⟨msg, l, hh, rfl, h.freeChain, hl, ?_, ?_, ?_, h.maxMsgs⟩
    · simp only [mqUnlink, h.tail]
      cases l with
      | nil => simp
      | cons b l =>
        rw [List.getLast?_cons_cons]
        refine if_neg fun hlast => ?_
        exact (List.nodup_cons.mp hnd).1 (List.mem_of_getLast? hlast)
    · simp [mqUnlink, h.entry]
    · refine List.Perm.trans ?_ h.perm
      have hmid : (l ++ msg :: held).Perm (msg :: l ++ held) := List.perm_middle
      rw [List.append_assoc, List.append_assoc]
      exact hmid.append_left free

theorem Slots.putFree (h : Slots mq free queue held) (hp : held.Perm (msg :: held')) :
    Slots { mq with next := Function.update mq.next msg mq.free, free := some msg } (msg :: free) queue held' := by
  have hm : msg ∈ held := hp.symm.subset (by simp)
  obtain ⟨hmf, hmq⟩ := h.not_mem hm
  refine ⟨h.freeChain.cons hmf, h.queueChain.update hmq _, h.tail, h.entry, ?_, h.maxMsgs⟩
  refine List.Perm.trans ?_ h.perm
  refine List.Perm.trans ?_ (hp.symm.append_left (free ++ queue))
  exact List.perm_middle.symm

theorem mqPosted_eq {k : Kernel} {o : Oid} (he : mq.entry < rtMqEntryMax) :
    mqPosted k mq o = (k.rtIpcListResume (.suspend o), { mq with entry := mq.entry + 1 }, .eok) := by
  by_cases hl : k.list (.suspend o) = []
  · simp [mqPosted, he, hl, rtIpcListResume]
  · simp [mqPosted, he, hl]

theorem mqPutFree_eq {k : Kernel} {o : Oid} :
    mqPutFree k mq o msg =
      (k.rtIpcListResume (.sender o), { mq with next := Function.update mq.next msg mq.free, free := some msg }) := by
  by_cases hl : k.list (.sender o) = []
  · simp [mqPutFree, hl, rtIpcListResume]
  · simp [mqPutFree, hl]

end slots

section init

/-- The loop of `rt_mq_init` strings the slots together, the last one first. -/
theorem chain_freeLoop (mq : MessageQueue) (hf : mq.free = none) (n : ℕ) :
    Chain ((List.range n).foldl mqFreeStep mq).next ((List.range n).foldl mqFreeStep mq).free (List.range n).reverse ∧
      (List.range n).foldl mqFreeStep mq =
        { mq with next := ((List.range n).foldl mqFreeStep mq).next, free := ((List.range n).foldl mqFreeStep mq).free } := by
  induction n with
  | zero => exact ⟨hf, rfl⟩
  | succ n ih =>
    obtain ⟨hc, he⟩ := ih
    rw [List.range_succ, List.foldl_append, List.reverse_append]
    refine ⟨hc.cons (by simp), ?_⟩
    simp only [List.foldl_cons, List.foldl_nil, mqFreeStep]
    rw [he]

theorem rtMqInit_slots {align msgSize poolSize : ℕ} {next : Slot → Option Slot} {data : Slot → ℕ → Byte}
    {flag : IpcFlag} {mq : MessageQueue} (h : rtMqInit align msgSize poolSize next data flag = .ok mq) :
    Slots mq (List.range mq.maxMsgs).reverse [] [] ∧ mq.msgSize = msgSize % 0x10000 ∧
      mq.maxMsgs = poolSize / mqSlotSize align msgSize % 0x10000 := by
  simp only [rtMqInit] at h
  split_ifs at h with h0
  obtain rfl := Except.ok.inj h
  obtain ⟨hc, he⟩ := chain_freeLoop ⟨msgSize % 0x10000, poolSize / mqSlotSize align msgSize % 0x10000, 0, none, none,
    none, next, data, flag⟩ rfl (poolSize / mqSlotSize align msgSize % 0x10000)
  rw [he]
  refine ⟨⟨hc, rfl, rfl, rfl, ?_, Nat.mod_lt _ (by decide)⟩, rfl, rfl⟩
  simp

end init

end RtSmart
