import RtSmart.Ipc.Waiters
import RtSmart.Lib.Ring

/-!
Mailboxes. The kernel has no urgent send, so a mailbox is a queue.
-/

namespace RtSmart

open Lib Kernel

def rtMbEntryMax : ℕ := 0xffff

structure Mailbox where
  msgPool : ℕ → BitVec 64
  size : ℕ
  entry : ℕ
  inOffset : ℕ
  outOffset : ℕ
  flag : IpcFlag

-- `mb->size` has 16 bits, the argument has the width of a machine word
def rtMbInit (msgpool : ℕ → BitVec 64) (size : ℕ) (flag : IpcFlag) : Mailbox where
  msgPool := msgpool
  size := size % 0x10000
  entry := 0
  inOffset := 0
  outOffset := 0
  flag := flag

namespace Mailbox

def next (mb : Mailbox) (offset : ℕ) : ℕ :=
  if mb.size ≤ (offset + 1) % 0x10000 then 0 else (offset + 1) % 0x10000

def contents (mb : Mailbox) : List (BitVec 64) := window mb.msgPool mb.size mb.outOffset mb.entry

structure Ring (mb : Mailbox) : Prop where
  size : mb.size < 0x10000
  entry : mb.entry ≤ mb.size
  outOffset : 0 < mb.size → mb.outOffset < mb.size
  inOffset : 0 < mb.size → mb.inOffset = (mb.outOffset + mb.entry) % mb.size

theorem Ring.next {mb : Mailbox} (h : mb.Ring) {i : ℕ} (hi : i < mb.size) : mb.next i = (i + 1) % mb.size := by
  have hs := h.size
  have hmod : (i + 1) % 0x10000 = i + 1 := Nat.mod_eq_of_lt (by omega)
  unfold Mailbox.next
  rw [hmod]
  split_ifs with hle
  · have he : i + 1 = mb.size := by omega
    rw [he, Nat.mod_self]
  · exact (Nat.mod_eq_of_lt (by omega)).symm

theorem Ring.contents_length {mb : Mailbox} : mb.contents.length = mb.entry := length_window _ _ _ _

theorem ring_init (msgpool : ℕ → BitVec 64) (size : ℕ) (flag : IpcFlag) : (rtMbInit msgpool size flag).Ring where
  size := Nat.mod_lt _ (by decide)
  entry := Nat.zero_le _
  outOffset hs := hs
  inOffset _ := by simp [rtMbInit]

end Mailbox

/-- The ticks left of `timeout` when `delta` have passed, in the arithmetic of `rt_int32_t`. -/
def remaining (timeout : ℤ) (delta : ℕ) : ℤ :=
  if 0 < timeout then max 0 ((timeout - delta).bmod 0x100000000) else timeout

section functions

variable (k : Kernel) (mb : Mailbox) (o : Oid) (t : Tid)

/-- `_rt_mb_send_wait` after its loop. -/
def mbPut (value : BitVec 64) : Kernel × Mailbox × Err :=
  let mb := { mb with msgPool := Function.update mb.msgPool mb.inOffset value, inOffset := mb.next mb.inOffset }
  if mb.entry < rtMbEntryMax then
    let mb := { mb with entry := mb.entry + 1 }
    if k.list (.suspend o) ≠ [] then (k.rtIpcListResume (.suspend o), mb, .eok) else (k, mb, .eok)
  else (k, mb, .efull)

/-- The loop of `_rt_mb_send_wait` up to its call of `rt_schedule`, and what follows the loop; no
return value means that the thread waits. -/
def mbSendLoop (value : BitVec 64) (timeout : ℤ) (sf : SuspendFlag) : Kernel × Mailbox × Option Err :=
  if mb.entry = mb.size then
    if timeout = 0 then (k.setThread t fun th => { th with error := .eintr }, mb, some .efull)
    else
      match k.waitOn (.sender o) t mb.flag sf timeout with
      | (k, .eok) => (k, mb, none)
      | (k, ret) => (k, mb, some ret)
  else
    match mbPut k mb o value with
    | (k, mb, ret) => (k, mb, some ret)

def rtMbSendWait (value : BitVec 64) (timeout : ℤ) (sf : SuspendFlag) : Kernel × Mailbox × Option Err :=
  if mb.entry = mb.size ∧ timeout = 0 then (k, mb, some .efull)
  else mbSendLoop k mb o t value timeout sf

/-- `_rt_mb_send_wait` from the point where the thread runs again. -/
def rtMbSendWaitEnd (value : BitVec 64) (timeout : ℤ) (sf : SuspendFlag) (delta : ℕ) : Kernel × Mailbox × Option Err :=
  if (k.thread t).error ≠ .eok then (k, mb, some (k.thread t).error)
  else mbSendLoop k mb o t value (remaining timeout delta) sf

/-- `_rt_mb_recv` after its loop. -/
def mbGet : Kernel × Mailbox × BitVec 64 :=
  let value := mb.msgPool mb.outOffset
  let mb := { mb with outOffset := mb.next mb.outOffset, entry := mb.entry - 1 }
  if k.list (.sender o) ≠ [] then (k.rtIpcListResume (.sender o), mb, value) else (k, mb, value)

def mbRecvLoop (timeout : ℤ) (sf : SuspendFlag) : Kernel × Mailbox × Option (Except Err (BitVec 64)) :=
  if mb.entry = 0 then
    if timeout = 0 then (k.setThread t fun th => { th with error := .etimeout }, mb, some (.error .etimeout))
    else
      match k.waitOn (.suspend o) t mb.flag sf timeout with
      | (k, .eok) => (k, mb, none)
      | (k, ret) => (k, mb, some (.error ret))
  else
    match mbGet k mb o with
    | (k, mb, value) => (k, mb, some (.ok value))

def rtMbRecv (timeout : ℤ) (sf : SuspendFlag) : Kernel × Mailbox × Option (Except Err (BitVec 64)) :=
  if mb.entry = 0 ∧ timeout = 0 then (k, mb, some (.error .etimeout))
  else mbRecvLoop k mb o t timeout sf

def rtMbRecvEnd (timeout : ℤ) (sf : SuspendFlag) (delta : ℕ) : Kernel × Mailbox × Option (Except Err (BitVec 64)) :=
  if (k.thread t).error ≠ .eok then (k, mb, some (.error (k.thread t).error))
  else mbRecvLoop k mb o t (remaining timeout delta) sf

end functions

/-- The mailbox after an accepted value. -/
def Mailbox.put (mb : Mailbox) (value : BitVec 64) : Mailbox :=
  { mb with msgPool := Function.update mb.msgPool mb.inOffset value, inOffset := mb.next mb.inOffset
            entry := mb.entry + 1 }

def Mailbox.get (mb : Mailbox) : Mailbox :=
  { mb with outOffset := mb.next mb.outOffset, entry := mb.entry - 1 }

section ring

variable {k : Kernel} {mb : Mailbox} {o : Oid}

theorem mbPut_eq (hr : mb.Ring) (hlt : mb.entry < mb.size) (value : BitVec 64) :
    mbPut k mb o value = (k.rtIpcListResume (.suspend o), mb.put value, .eok) := by
  have hmax : mb.entry < rtMbEntryMax := by
    have hs := hr.size
    unfold rtMbEntryMax
    omega
  by_cases hl : k.list (.suspend o) = []
  · simp [mbPut, hmax, hl, Mailbox.put, rtIpcListResume]
  · simp [mbPut, hmax, hl, Mailbox.put]

theorem mbGet_eq : mbGet k mb o = (k.rtIpcListResume (.sender o), mb.get, mb.msgPool mb.outOffset) := by
  by_cases hl : k.list (.sender o) = []
  · simp [mbGet, hl, Mailbox.get, rtIpcListResume]
  · simp [mbGet, hl, Mailbox.get]

theorem Mailbox.Ring.put (hr : mb.Ring) (hlt : mb.entry < mb.size) (value : BitVec 64) : (mb.put value).Ring := by
  have hpos : 0 < mb.size := by omega
  refine ⟨hr.size, hlt, hr.outOffset, fun _ => ?_⟩
  have hin : mb.inOffset < mb.size := by
    rw [hr.inOffset hpos]
    exact Nat.mod_lt _ hpos
  change mb.next mb.inOffset = (mb.outOffset + (mb.entry + 1)) % mb.size
  rw [hr.next hin, hr.inOffset hpos, Nat.mod_add_mod, Nat.add_assoc]

theorem Mailbox.Ring.contents_put (hr : mb.Ring) (hlt : mb.entry < mb.size) (value : BitVec 64) :
    (mb.put value).contents = mb.contents ++ [value] := by
  unfold Mailbox.contents Mailbox.put
  rw [hr.inOffset (by omega)]
  exact window_put _ hlt _

theorem Mailbox.Ring.get (hr : mb.Ring) (hne : mb.entry ≠ 0) : mb.get.Ring := by
  have he := hr.entry
  have hpos : 0 < mb.size := by omega
  have hout := hr.outOffset hpos
  refine ⟨hr.size, (Nat.sub_le _ _).trans he, fun _ => ?_, fun _ => ?_⟩
  · change mb.next mb.outOffset < mb.size
    rw [hr.next hout]
    exact Nat.mod_lt _ hpos
  · change mb.inOffset = (mb.next mb.outOffset + (mb.entry - 1)) % mb.size
    rw [hr.next hout, hr.inOffset hpos, Nat.mod_add_mod]
    congr 1
    omega

theorem Mailbox.Ring.contents_get (hr : mb.Ring) (hne : mb.entry ≠ 0) :
    mb.contents = mb.msgPool mb.outOffset :: mb.get.contents := by
  have he := hr.entry
  have hout := hr.outOffset (by omega)
  obtain ⟨n, hn⟩ := Nat.exists_eq_succ_of_ne_zero hne
  unfold Mailbox.contents Mailbox.get
  simp only [hn, Nat.succ_eq_add_one, Nat.add_sub_cancel]
  rw [window_get, hr.next hout, Nat.mod_eq_of_lt hout]

end ring

inductive MbCall where
  | send (o : Oid) (value : BitVec 64) (timeout : ℤ) (sf : SuspendFlag)
  | recv (o : Oid) (timeout : ℤ) (sf : SuspendFlag)

def MbCall.head : MbCall → ListHead
  | .send o _ _ _ => .sender o
  | .recv o _ _ => .suspend o

/-- `call` is the call in which a thread is past `rt_schedule`; `accepted` and `received` are the
values of the calls that returned `RT_EOK`, in the order of the returns from the critical sections. -/
structure MbSys where
  k : Kernel
  mb : Oid → Mailbox
  call : Tid → Option MbCall
  accepted : Oid → List (BitVec 64)
  received : Oid → List (BitVec 64)

namespace MbSys

def init (k : Kernel) (mb : Oid → Mailbox) : MbSys where
  k := k
  mb := mb
  call _ := none
  accepted _ := []
  received _ := []

inductive Event where
  | send (t : Tid) (o : Oid) (value : BitVec 64) (timeout : ℤ) (sf : SuspendFlag)
  | recv (t : Tid) (o : Oid) (timeout : ℤ) (sf : SuspendFlag)
  | ret (t : Tid) (delta : ℕ)
  | kernel (e : KernelEvent)

def sent (s : MbSys) (t : Tid) (o : Oid) (value : BitVec 64) (timeout : ℤ) (sf : SuspendFlag) :
    Kernel × Mailbox × Option Err → MbSys
  | (k, mb, none) =>
    { s with k := k, mb := Function.update s.mb o mb, call := Function.update s.call t (some (.send o value timeout sf)) }
  | (k, mb, some .eok) =>
    { s with k := k, mb := Function.update s.mb o mb
             accepted := Function.update s.accepted o (s.accepted o ++ [value]) }
  | (k, mb, some _) => { s with k := k, mb := Function.update s.mb o mb }

def got (s : MbSys) (t : Tid) (o : Oid) (timeout : ℤ) (sf : SuspendFlag) :
    Kernel × Mailbox × Option (Except Err (BitVec 64)) → MbSys
  | (k, mb, none) =>
    { s with k := k, mb := Function.update s.mb o mb, call := Function.update s.call t (some (.recv o timeout sf)) }
  | (k, mb, some (.ok value)) =>
    { s with k := k, mb := Function.update s.mb o mb
             received := Function.update s.received o (s.received o ++ [value]) }
  | (k, mb, some (.error _)) => { s with k := k, mb := Function.update s.mb o mb }

def leave (s : MbSys) (t : Tid) : MbSys := { s with call := Function.update s.call t none }

-- a call without waiting time (as `rt_mb_send` makes it) may also come from an interrupt handler,
-- on top of any thread
def step (s : MbSys) : Event → Option MbSys
  | .send t o value timeout sf =>
    if timeout = 0 ∨ s.k.Runs t ∧ s.call t = none then
      some (s.sent t o value timeout sf (rtMbSendWait s.k (s.mb o) o t value timeout sf))
    else none
  | .recv t o timeout sf =>
    if timeout = 0 ∨ s.k.Runs t ∧ s.call t = none then
      some (s.got t o timeout sf (rtMbRecv s.k (s.mb o) o t timeout sf))
    else none
  | .ret t delta =>
    match s.call t with
    | none => none
    | some (.send o value timeout sf) =>
      if s.k.Runs t then
        some ((s.leave t).sent t o value (remaining timeout delta) sf
          (rtMbSendWaitEnd s.k (s.mb o) o t value timeout sf delta))
      else none
    | some (.recv o timeout sf) =>
      if s.k.Runs t then
        some ((s.leave t).got t o (remaining timeout delta) sf (rtMbRecvEnd s.k (s.mb o) o t timeout sf delta))
      else none
  | .kernel e => (s.k.kernelStep e).map fun k => { s with k := k }

/-- The list on which a thread waits. -/
def on (s : MbSys) (t : Tid) : Option ListHead := (s.call t).map MbCall.head

def served (s : MbSys) : ListHead → ℕ
  | .ready _ => 0
  | .suspend o => (s.mb o).entry
  | .sender o => (s.mb o).size - (s.mb o).entry

def fifo (s : MbSys) (o : Oid) : Fifo (BitVec 64) := ⟨(s.mb o).contents, s.accepted o, s.received o⟩

/-- The invariant, with one wake-up missing on the list `gap`: a thread woken on it runs. -/
structure Inv (s : MbSys) (gap : Option ListHead) : Prop where
  waiting : s.k.Waiting s.on
  ring : ∀ o, (s.mb o).Ring
  conserved : ∀ o, (s.fifo o).Conserved
  covered : ∀ h, h.isWait = true → gap ≠ some h → s.k.Covered s.on h (s.served h)
  short : ∀ h, gap = some h → h.isWait = true → s.k.Covered s.on h (s.served h - 1)

section steps

variable {s s' : MbSys} {t : Tid} {o : Oid} {h : ListHead} {k' : Kernel}

theorem on_update (c : Option MbCall) :
    on { s with call := Function.update s.call t c } = Function.update s.on t (c.map MbCall.head) := by
  funext u
  by_cases hut : u = t
  · subst hut
    simp [on]
  · simp [on, hut]

theorem Inv.open (hi : s.Inv none) (h : ListHead) : s.Inv (some h) :=
  ⟨hi.waiting, hi.ring, hi.conserved, fun h' hw _ => hi.covered h' hw (by simp), fun h' he hw =>
    (hi.covered h' hw (by simp)).mono (Nat.sub_le _ _)⟩

theorem Inv.close (hi : s.Inv (some h)) (h0 : s.served h = 0) : s.Inv none := by
  refine ⟨hi.waiting, hi.ring, hi.conserved, fun h' hw _ => ?_, by simp⟩
  by_cases he : h = h'
  · subst he
    rw [h0]
    exact covered_zero
  · exact hi.covered h' hw (by simpa using he)

theorem Inv.leave (hi : s.Inv none) (hon : s.on t = some h) (hrun : (s.k.thread t).stat = .running) :
    (s.leave t).Inv (some h) ∧ ((s.k.thread t).error ≠ .eok → (s.leave t).Inv none) := by
  have hw : s.k.Waiting (s.leave t).on := by
    rw [MbSys.leave, on_update]
    exact hi.waiting.leave hrun
  have hcov : ∀ h', h'.isWait = true → ¬ s.k.Woken s.on h' t → s.k.Covered (s.leave t).on h' (s.served h') := by
    intro h' hw' hnot
    rw [MbSys.leave, on_update]
    exact (hi.covered h' hw' (by simp)).leave_of_not hnot
  refine ⟨⟨hw, hi.ring, hi.conserved, fun h' hw' hne => hcov h' hw' fun hwo => ?_, fun h' he hw' => ?_⟩,
    fun herr => ⟨hw, hi.ring, hi.conserved, fun h' hw' _ => hcov h' hw' fun hwo => herr hwo.2.2, by simp⟩⟩
  · exact hne (hon.symm.trans hwo.1)
  · rw [MbSys.leave, on_update]
    exact (hi.covered h' hw' (by simp)).leave t

theorem Inv.withKernel (hi : s.Inv none) (hw : k'.Waiting s.on)
    (hcov : ∀ h n, h.isWait = true → s.k.Covered s.on h n → k'.Covered s.on h n) : Inv { s with k := k' } none :=
  ⟨hw, hi.ring, hi.conserved, fun h hwait _ => hcov h _ hwait (hi.covered h hwait (by simp)), by simp⟩

theorem Inv.kernel (hi : s.Inv none) {e : KernelEvent} (hs : s.k.kernelStep e = some k') :
    Inv { s with k := k' } none :=
  hi.withKernel (hi.waiting.kernel hs) fun _ _ hw hcov => hcov.kernel hi.waiting hw hs

theorem Inv.setError (hi : s.Inv none) (hc : s.call t = none) (hrun : (s.k.thread t).stat = .running) (e : Err) :
    Inv { s with k := s.k.setThread t fun th => { th with error := e } } none :=
  hi.withKernel (hi.waiting.setError hrun e) fun _ _ _ hcov => hcov.setThread (by simp [on, hc])

theorem Inv.blocks (hi : s.Inv none) {c : MbCall} {flag : IpcFlag} {sf : SuspendFlag} (h0 : s.served c.head = 0)
    (hc : s.call t = none) (hrun : (s.k.thread t).stat = .running) (hco : k'.Coherent none) (ho : k'.CurrentOk)
    (hb : Blocks s.k k' t c.head flag sf) : Inv { s with k := k', call := Function.update s.call t (some c) } none := by
  have hon : on { s with k := k', call := Function.update s.call t (some c) } = Function.update s.on t (some c.head) :=
    on_update (some c)
  have hw : c.head.isWait = true := by cases c <;> rfl
  refine ⟨?_, hi.ring, hi.conserved, fun h' hw' _ => ?_, by simp⟩
  · rw [hon]
    exact hi.waiting.blocks hb hw hrun hco ho
  · rw [hon]
    by_cases he : h' = c.head
    · subst he
      change k'.Covered _ _ (s.served c.head)
      rw [h0]
      exact covered_zero
    · exact (hi.covered h' hw' (by simp)).blocks hb hw' he (.inl (by simp [on, hc]))

def Moves (s s' : MbSys) : Prop :=
  ∀ o, (s'.mb o).size = (s.mb o).size ∧ Fifo.Step (s.mb o).size (s.fifo o) (s'.fifo o)

theorem Inv.moved (gain : ListHead) {gap : ListHead} (hi : s.Inv (some gap)) (hw : gain.isWait = true) (hne : gain ≠ gap)
    (hs : s'.k = s.k.rtIpcListResume gain) (hcall : s'.call = s.call) (hring : ∀ o, (s'.mb o).Ring) (hm : s.Moves s')
    (hgain : s'.served gain = s.served gain + 1) (hgap : s'.served gap = s.served gap - 1)
    (hother : ∀ h, h ≠ gain → h ≠ gap → s'.served h = s.served h) : s'.Inv none := by
  have hon : s'.on = s.on := by
    funext u
    simp only [on, hcall]
  obtain ⟨h1, hcov, hrest⟩ := hi.waiting.resume (hi.covered gain hw (by simpa using hne.symm)) hw
  refine ⟨by rw [hon, hs]; exact h1, hring, fun o => (hm o).2.conserved (hi.conserved o), fun h hwait _ => ?_, by simp⟩
  rw [hon, hs]
  by_cases hg : h = gain
  · subst hg
    rw [hgain]
    exact hcov
  by_cases hg' : h = gap
  · subst hg'
    rw [hgap]
    exact hrest _ _ hwait (hi.short _ rfl hwait)
  · rw [hother h hg hg']
    exact hrest _ _ hwait (hi.covered h hwait (by simpa using Ne.symm hg'))

theorem ring_update (hi : s.Inv (some h)) {mb : Mailbox} (hr : mb.Ring) (o' : Oid) :
    (Function.update s.mb o mb o').Ring := by
  by_cases hoo : o' = o
  · subst hoo
    simpa using hr
  · simpa [hoo] using hi.ring o'

theorem Inv.put (hi : s.Inv (some (.sender o))) (hlt : (s.mb o).entry < (s.mb o).size) (value : BitVec 64) :
    Inv { s with k := s.k.rtIpcListResume (.suspend o), mb := Function.update s.mb o ((s.mb o).put value)
                 accepted := Function.update s.accepted o (s.accepted o ++ [value]) } none ∧
    s.Moves { s with k := s.k.rtIpcListResume (.suspend o), mb := Function.update s.mb o ((s.mb o).put value)
                     accepted := Function.update s.accepted o (s.accepted o ++ [value]) } := by
  have hm : s.Moves { s with k := s.k.rtIpcListResume (.suspend o)
                             mb := Function.update s.mb o ((s.mb o).put value)
                             accepted := Function.update s.accepted o (s.accepted o ++ [value]) } := by
    intro o'
    by_cases hoo : o' = o
    · subst hoo
      simp only [fifo, Function.update_self, (hi.ring o').contents_put hlt]
      exact ⟨rfl, .enqueue value (by simpa [fifo, Mailbox.Ring.contents_length] using hlt)⟩
    · simp only [fifo, Function.update_of_ne hoo]
      exact ⟨trivial, .idle⟩
  refine ⟨hi.moved (.suspend o) rfl (by simp) rfl rfl (ring_update hi ((hi.ring o).put hlt value)) hm
    ?_ ?_ fun h hg hg' => ?_, hm⟩
  · simp [served, Mailbox.put]
  · simp only [served, Mailbox.put, Function.update_self]
    omega
  · cases h with
    | ready p => rfl
    | suspend o' => simp [served, show o' ≠ o by simpa using hg]
    | sender o' => simp [served, show o' ≠ o by simpa using hg']

theorem Inv.get (hi : s.Inv (some (.suspend o))) (hne : (s.mb o).entry ≠ 0) :
    Inv { s with k := s.k.rtIpcListResume (.sender o), mb := Function.update s.mb o (s.mb o).get
                 received := Function.update s.received o (s.received o ++ [(s.mb o).msgPool (s.mb o).outOffset]) } none ∧
    s.Moves { s with k := s.k.rtIpcListResume (.sender o), mb := Function.update s.mb o (s.mb o).get
                     received := Function.update s.received o
                       (s.received o ++ [(s.mb o).msgPool (s.mb o).outOffset]) } := by
  have hm : s.Moves { s with k := s.k.rtIpcListResume (.sender o), mb := Function.update s.mb o (s.mb o).get
                             received := Function.update s.received o
                               (s.received o ++ [(s.mb o).msgPool (s.mb o).outOffset]) } := by
    intro o'
    by_cases hoo : o' = o
    · subst hoo
      simp only [fifo, Function.update_self]
      exact ⟨rfl, .dequeue _ _ ((hi.ring o').contents_get hne)⟩
    · simp only [fifo, Function.update_of_ne hoo]
      exact ⟨trivial, .idle⟩
  refine ⟨hi.moved (.sender o) rfl (by simp) rfl rfl (ring_update hi ((hi.ring o).get hne)) hm
    ?_ ?_ fun h hg hg' => ?_, hm⟩
  · have he := (hi.ring o).entry
    simp only [served, Mailbox.get, Function.update_self]
    omega
  · simp [served, Mailbox.get]
  · cases h with
    | ready p => rfl
    | suspend o' => simp [served, show o' ≠ o by simpa using hg']
    | sender o' => simp [served, show o' ≠ o by simpa using hg]

theorem moves_of_eq (hm : s'.mb = s.mb) (ha : s'.accepted = s.accepted) (hr : s'.received = s.received) :
    s.Moves s' := by
  intro o
  simp only [fifo, hm, ha, hr, true_and]
  exact .idle

theorem sent_error {value : BitVec 64} {timeout : ℤ} {sf : SuspendFlag} {ret : Err} (hr : ret ≠ .eok) :
    s.sent t o value timeout sf (k', s.mb o, some ret) = { s with k := k' } := by
  cases ret <;> simp_all [sent]

theorem sent_none {value : BitVec 64} {timeout : ℤ} {sf : SuspendFlag} :
    s.sent t o value timeout sf (k', s.mb o, none) =
      { s with k := k', call := Function.update s.call t (some (.send o value timeout sf)) } := by
  simp [sent]

theorem got_error {timeout : ℤ} {sf : SuspendFlag} {ret : Err} :
    s.got t o timeout sf (k', s.mb o, some (.error ret)) = { s with k := k' } := by
  simp [got]

theorem got_none {timeout : ℤ} {sf : SuspendFlag} :
    s.got t o timeout sf (k', s.mb o, none) =
      { s with k := k', call := Function.update s.call t (some (.recv o timeout sf)) } := by
  simp [got]

theorem Inv.sendLoop (hi : s.Inv (some (.sender o))) (value : BitVec 64) (timeout : ℤ) (sf : SuspendFlag)
    (hrun : (s.mb o).entry = (s.mb o).size → s.call t = none ∧ (s.k.thread t).stat = .running) :
    (s.sent t o value timeout sf (mbSendLoop s.k (s.mb o) o t value timeout sf)).Inv none ∧
      s.Moves (s.sent t o value timeout sf (mbSendLoop s.k (s.mb o) o t value timeout sf)) := by
  by_cases hfull : (s.mb o).entry = (s.mb o).size
  · obtain ⟨hc, hr⟩ := hrun hfull
    have h0 : s.served (.sender o) = 0 := by simp [served, hfull]
    have hi' := hi.close h0
    by_cases ht : timeout = 0
    · have he : mbSendLoop s.k (s.mb o) o t value timeout sf =
          (s.k.setThread t fun th => { th with error := .eintr }, s.mb o, some .efull) := by
        simp [mbSendLoop, hfull, ht]
      rw [he, sent_error (by simp)]
      exact ⟨hi'.setError hc hr _, moves_of_eq rfl rfl rfl⟩
    rcases waitOn_cases (s.mb o).flag sf hi.waiting.coherent hi.waiting.currentOk hr
      (show (ListHead.sender o).isWait = true from rfl) timeout with hw | ⟨k', hw, hco, ho, hb⟩
    · have he : mbSendLoop s.k (s.mb o) o t value timeout sf =
          (s.k.setThread t fun th => { th with error := .eintr }, s.mb o, some .eintr) := by
        simp [mbSendLoop, hfull, ht, hw]
      rw [he, sent_error (by simp)]
      exact ⟨hi'.setError hc hr _, moves_of_eq rfl rfl rfl⟩
    · have he : mbSendLoop s.k (s.mb o) o t value timeout sf = (k', s.mb o, none) := by
        simp [mbSendLoop, hfull, ht, hw]
      rw [he, sent_none]
      exact ⟨hi'.blocks h0 hc hr hco ho hb, moves_of_eq rfl rfl rfl⟩
  · have hlt : (s.mb o).entry < (s.mb o).size := lt_of_le_of_ne (hi.ring o).entry hfull
    have he : mbSendLoop s.k (s.mb o) o t value timeout sf =
        (s.k.rtIpcListResume (.suspend o), (s.mb o).put value, some .eok) := by
      simp [mbSendLoop, hfull, mbPut_eq (hi.ring o) hlt]
    rw [he]
    exact hi.put hlt value

theorem Inv.recvLoop (hi : s.Inv (some (.suspend o))) (timeout : ℤ) (sf : SuspendFlag)
    (hrun : (s.mb o).entry = 0 → s.call t = none ∧ (s.k.thread t).stat = .running) :
    (s.got t o timeout sf (mbRecvLoop s.k (s.mb o) o t timeout sf)).Inv none ∧
      s.Moves (s.got t o timeout sf (mbRecvLoop s.k (s.mb o) o t timeout sf)) := by
  by_cases hempty : (s.mb o).entry = 0
  · obtain ⟨hc, hr⟩ := hrun hempty
    have h0 : s.served (.suspend o) = 0 := hempty
    have hi' := hi.close h0
    by_cases ht : timeout = 0
    · have he : mbRecvLoop s.k (s.mb o) o t timeout sf =
          (s.k.setThread t fun th => { th with error := .etimeout }, s.mb o, some (.error .etimeout)) := by
        simp [mbRecvLoop, hempty, ht]
      rw [he, got_error]
      exact ⟨hi'.setError hc hr _, moves_of_eq rfl rfl rfl⟩
    rcases waitOn_cases (s.mb o).flag sf hi.waiting.coherent hi.waiting.currentOk hr
      (show (ListHead.suspend o).isWait = true from rfl) timeout with hw | ⟨k', hw, hco, ho, hb⟩
    · have he : mbRecvLoop s.k (s.mb o) o t timeout sf =
          (s.k.setThread t fun th => { th with error := .eintr }, s.mb o, some (.error .eintr)) := by
        simp [mbRecvLoop, hempty, ht, hw]
      rw [he, got_error]
      exact ⟨hi'.setError hc hr _, moves_of_eq rfl rfl rfl⟩
    · have he : mbRecvLoop s.k (s.mb o) o t timeout sf = (k', s.mb o, none) := by
        simp [mbRecvLoop, hempty, ht, hw]
      rw [he, got_none]
      exact ⟨hi'.blocks h0 hc hr hco ho hb, moves_of_eq rfl rfl rfl⟩
  · have he : mbRecvLoop s.k (s.mb o) o t timeout sf =
        (s.k.rtIpcListResume (.sender o), (s.mb o).get, some (.ok ((s.mb o).msgPool (s.mb o).outOffset))) := by
      simp [mbRecvLoop, hempty, mbGet_eq]
    rw [he]
    exact hi.get hempty

theorem Inv.send {value : BitVec 64} {timeout : ℤ} {sf : SuspendFlag} (hi : s.Inv none)
    (hs : s.step (.send t o value timeout sf) = some s') : s'.Inv none ∧ s.Moves s' := by
  simp only [step, Option.ite_none_right_eq_some, Option.some.injEq] at hs
  obtain ⟨hen, rfl⟩ := hs
  unfold rtMbSendWait
  by_cases hfull : (s.mb o).entry = (s.mb o).size ∧ timeout = 0
  · rw [if_pos hfull, sent_error (by simp)]
    exact ⟨hi, moves_of_eq rfl rfl rfl⟩
  · rw [if_neg hfull]
    apply (hi.open _).sendLoop
    intro he
    obtain ⟨hr, hc⟩ := hen.resolve_left fun ht => hfull ⟨he, ht⟩
    exact ⟨hc, hr.2⟩

theorem Inv.recv {timeout : ℤ} {sf : SuspendFlag} (hi : s.Inv none)
    (hs : s.step (.recv t o timeout sf) = some s') : s'.Inv none ∧ s.Moves s' := by
  simp only [step, Option.ite_none_right_eq_some, Option.some.injEq] at hs
  obtain ⟨hen, rfl⟩ := hs
  unfold rtMbRecv
  by_cases hempty : (s.mb o).entry = 0 ∧ timeout = 0
  · rw [if_pos hempty, got_error]
    exact ⟨hi, moves_of_eq rfl rfl rfl⟩
  · rw [if_neg hempty]
    apply (hi.open _).recvLoop
    intro he
    obtain ⟨hr, hc⟩ := hen.resolve_left fun ht => hempty ⟨he, ht⟩
    exact ⟨hc, hr.2⟩

theorem Inv.ret {delta : ℕ} (hi : s.Inv none) (hs : s.step (.ret t delta) = some s') : s'.Inv none ∧ s.Moves s' := by
  have hcall : (s.leave t).call t = none := by simp [MbSys.leave]
  cases hc : s.call t with
  | none => simp [step, hc] at hs
  | some c =>
    cases c with
    | send o value timeout sf =>
      simp only [step, hc, Option.ite_none_right_eq_some, Option.some.injEq] at hs
      obtain ⟨hr, rfl⟩ := hs
      obtain ⟨hgap, herror⟩ := hi.leave (h := .sender o) (by simp [on, hc, MbCall.head]) hr.2
      unfold rtMbSendWaitEnd
      by_cases he : (s.k.thread t).error = .eok
      · rw [if_neg (by simpa using he)]
        exact hgap.sendLoop _ _ _ fun _ => ⟨hcall, hr.2⟩
      · rw [if_pos he]
        have heq : (s.leave t).sent t o value (remaining timeout delta) sf
            (s.k, s.mb o, some (s.k.thread t).error) = s.leave t := sent_error (s := s.leave t) he
        rw [heq]
        exact ⟨herror he, moves_of_eq rfl rfl rfl⟩
    | recv o timeout sf =>
      simp only [step, hc, Option.ite_none_right_eq_some, Option.some.injEq] at hs
      obtain ⟨hr, rfl⟩ := hs
      obtain ⟨hgap, herror⟩ := hi.leave (h := .suspend o) (by simp [on, hc, MbCall.head]) hr.2
      unfold rtMbRecvEnd
      by_cases he : (s.k.thread t).error = .eok
      · rw [if_neg (by simpa using he)]
        exact hgap.recvLoop _ _ fun _ => ⟨hcall, hr.2⟩
      · rw [if_pos he]
        have heq : (s.leave t).got t o (remaining timeout delta) sf
            (s.k, s.mb o, some (.error (s.k.thread t).error)) = s.leave t := got_error (s := s.leave t)
        rw [heq]
        exact ⟨herror he, moves_of_eq rfl rfl rfl⟩

theorem Inv.step (hi : s.Inv none) {e : Event} (hs : s.step e = some s') : s'.Inv none ∧ s.Moves s' := by
  cases e with
  | send t o value timeout sf => exact hi.send hs
  | recv t o timeout sf => exact hi.recv hs
  | ret t delta => exact hi.ret hs
  | kernel e =>
    simp only [MbSys.step, Option.map_eq_some_iff] at hs
    obtain ⟨k', hk, rfl⟩ := hs
    exact ⟨hi.kernel hk, moves_of_eq rfl rfl rfl⟩

theorem inv_init {k₀ : Kernel} (hq : k₀.Quiet) {mb₀ : Oid → Mailbox} (hr : ∀ o, (mb₀ o).Ring)
    (he : ∀ o, (mb₀ o).entry = 0) : (init k₀ mb₀).Inv none := by
  refine ⟨hq.waiting, hr, fun o => ?_, fun h hw _ => covered_nil (hq.empty h hw), by simp⟩
  simp [Fifo.Conserved, fifo, init, Mailbox.contents, he, window]

theorem Inv.cover (hi : s.Inv none) (hon : s.on t = some h) (hs : (s.k.thread t).stat.suspended = true) :
    ∃ l : List Tid, l.Nodup ∧ (∀ u ∈ l, s.k.Woken s.on h u) ∧ l.length = s.served h :=
  hi.covered h (hi.waiting.isWait h t hon) (by simp) (List.ne_nil_of_mem (hi.waiting.queued h t hon hs))

end steps

/-- The mailbox is a queue of at most `size` values, and a thread waits for it in vain only while
enough others have been woken. -/
theorem mailbox_is_bounded_queue {k₀ : Kernel} (hq : k₀.Quiet) (msgpool : Oid → ℕ → BitVec 64) (size : Oid → ℕ)
    (flag : Oid → IpcFlag) (es : List Event) (s : MbSys)
    (h : run step (init k₀ fun o => rtMbInit (msgpool o) (size o) (flag o)) es = some s) (o : Oid) :
    (s.mb o).size = size o % 0x10000 ∧ (s.mb o).entry ≤ (s.mb o).size ∧
    (0 < (s.mb o).size → (s.mb o).outOffset < (s.mb o).size ∧ (s.mb o).inOffset < (s.mb o).size ∧
      (s.mb o).inOffset = ((s.mb o).outOffset + (s.mb o).entry) % (s.mb o).size) ∧
    (s.mb o).contents.length = (s.mb o).entry ∧ s.accepted o = s.received o ++ (s.mb o).contents ∧
    (∀ e s', s.step e = some s' → Fifo.Step (s.mb o).size (s.fifo o) (s'.fifo o)) ∧
    (∀ t, s.on t = some (.suspend o) → (s.k.thread t).stat.suspended = true →
      ∃ l : List Tid, l.Nodup ∧ (∀ u ∈ l, s.k.Woken s.on (.suspend o) u) ∧ l.length = (s.mb o).entry) ∧
    (∀ t, s.on t = some (.sender o) → (s.k.thread t).stat.suspended = true →
      ∃ l : List Tid, l.Nodup ∧ (∀ u ∈ l, s.k.Woken s.on (.sender o) u) ∧
        l.length = (s.mb o).size - (s.mb o).entry) := by
  have hinv : s.Inv none ∧ ∀ o, (s.mb o).size = size o % 0x10000 := by
    refine run_invariant (fun s => s.Inv none ∧ ∀ o, (s.mb o).size = size o % 0x10000) (fun s e s' hi hs => ?_) h ?_
    · obtain ⟨hi', hm⟩ := hi.1.step hs
      exact ⟨hi', fun o => (hm o).1.trans (hi.2 o)⟩
    · exact ⟨inv_init hq (fun o => Mailbox.ring_init _ _ _) fun _ => rfl, fun _ => rfl⟩
  obtain ⟨hi, hsize⟩ := hinv
  have hr := hi.ring o
  refine ⟨hsize o, hr.entry, fun hpos => ⟨hr.outOffset hpos, ?_, hr.inOffset hpos⟩, Mailbox.Ring.contents_length,
    hi.conserved o, fun e s' hs => ((hi.step hs).2 o).2, fun t hon hs => hi.cover hon hs, fun t hon hs => hi.cover hon hs⟩
  rw [hr.inOffset hpos]
  exact Nat.mod_lt _ hpos

/-- Two receivers wait, the first is woken by a send and the mail is taken before it runs. -/
theorem mailbox_is_bounded_queue_example :
    ∃ s, run step (init (started 32 (fun t => t % 32) [3, 4, 5]) fun _ => rtMbInit (fun _ => 0) 2 .prio)
      [.recv 3 0 10 .interruptible, .kernel .schedule, .recv 4 0 (-1) .uninterruptible, .kernel .schedule,
        .send 5 0 7 0 .uninterruptible, .send 5 0 8 3 .killable, .recv 5 0 0 .uninterruptible, .kernel .schedule,
        .ret 3 4] = some s ∧
      s.accepted 0 = [7, 8] ∧ s.received 0 = [7, 8] ∧ s.accepted 0 = s.received 0 ++ (s.mb 0).contents := by
  have hrun : (run step (init (started 32 (fun t => t % 32) [3, 4, 5]) fun _ => rtMbInit (fun _ => 0) 2 .prio)
      [.recv 3 0 10 .interruptible, .kernel .schedule, .recv 4 0 (-1) .uninterruptible, .kernel .schedule,
        .send 5 0 7 0 .uninterruptible, .send 5 0 8 3 .killable, .recv 5 0 0 .uninterruptible, .kernel .schedule,
        .ret 3 4]).map (fun s => (s.accepted 0, s.received 0)) = some ([7, 8], [7, 8]) := by decide +kernel
  obtain ⟨s, hs, heq⟩ := Option.map_eq_some_iff.mp hrun
  simp only [Prod.mk.injEq] at heq
  have hq := started_quiet (n := 32) (by decide) (fun t => Nat.mod_lt t (by decide)) [3, 4, 5]
  have hmb := mailbox_is_bounded_queue hq (fun _ _ => 0) (fun _ => 2) (fun _ => .prio) _ s hs 0
  exact ⟨s, hs, heq.1, heq.2, hmb.2.2.2.2.1⟩

/-- `rt_mb_init` accepts a mailbox without places, and no offset is below its size. -/
theorem mailbox_of_size_zero :
    ∃ s, run step (init (started 32 (fun t => t % 32) [3]) fun _ => rtMbInit (fun _ => 0) 0 .fifo)
      [.send 3 0 7 0 .uninterruptible] = some s ∧ ¬ (s.mb 0).inOffset < (s.mb 0).size := by
  have hrun : (run step (init (started 32 (fun t => t % 32) [3]) fun _ => rtMbInit (fun _ => 0) 0 .fifo)
      [.send 3 0 7 0 .uninterruptible]).map (fun s => ((s.mb 0).inOffset, (s.mb 0).size)) = some (0, 0) := by
    decide +kernel
  obtain ⟨s, hs, heq⟩ := Option.map_eq_some_iff.mp hrun
  simp only [Prod.mk.injEq] at heq
  exact ⟨s, hs, by omega⟩

end MbSys

end RtSmart
