import RtSmart.Kernel.Thread
import RtSmart.Lib.Parking
import RtSmart.Lib.Ring
import RtSmart.Lib.Transition

/-!
The data queue (`dataqueue.c`) and the threads that push, pop and peek. A step ends where interrupts are
enabled. The notification function of the queue's owner is left out.
-/

namespace RtSmart

open Lib

structure DataItem where
  dataPtr : ℕ
  dataSize : ℕ
deriving DecidableEq

structure DataQueue where
  size : ℕ
  lwm : ℕ
  getIndex : ℕ
  putIndex : ℕ
  isEmpty : Bool
  isFull : Bool
  queue : ℕ → DataItem
  suspendedPushList : List Tid
  suspendedPopList : List Tid

/-- `mem` is what the memory of the items held before. -/
def rtDataQueueInit (size lwm : ℕ) (mem : ℕ → DataItem) : DataQueue :=
  ⟨size, lwm, 0, 0, true, false, mem, [], []⟩

namespace DataQueue

/-- An index after its increment; `get_index` and `put_index` are bit-fields of 15 bits. -/
def next (q : DataQueue) (i : ℕ) : ℕ :=
  if (i + 1) % 2 ^ 15 = q.size then 0 else (i + 1) % 2 ^ 15

/-- `rt_data_queue_push` after its loop, up to the waking of a thread. -/
def put (q : DataQueue) (item : DataItem) : DataQueue :=
  { q with
    queue := Function.update q.queue q.putIndex item
    putIndex := q.next q.putIndex
    isEmpty := false
    isFull := if q.next q.putIndex = q.getIndex then true else q.isFull }

/-- `rt_data_queue_pop` after its loop, up to the waking of a thread. -/
def take (q : DataQueue) : DataQueue :=
  { q with
    getIndex := q.next q.getIndex
    isFull := false
    isEmpty := if q.putIndex = q.next q.getIndex then true else q.isEmpty }

def first (q : DataQueue) : DataItem := q.queue q.getIndex

def rtDataQueueLen (q : DataQueue) : ℕ :=
  if q.isEmpty then 0
  else if q.getIndex < q.putIndex then (q.putIndex - q.getIndex) % 2 ^ 16
  else (q.size + q.putIndex - q.getIndex) % 2 ^ 16

def places (q : DataQueue) : ℕ := min q.size (2 ^ 15)

def count (q : DataQueue) : ℕ :=
  if q.isFull then q.places else (q.putIndex + q.places - q.getIndex) % q.places

def contents (q : DataQueue) : List DataItem := window q.queue q.places q.getIndex q.count

end DataQueue

inductive DqStage
  | suspended
  | readied (err : Err)
deriving DecidableEq

inductive DqPc
  | idle
  | push (item : DataItem) (timeout : ℤ) (stage : DqStage)
  | pop (timeout : ℤ) (stage : DqStage)
  /-- `rt_data_queue_peek` after its test. -/
  | peeking
deriving DecidableEq

inductive DqRet
  | pushed (err : Err)
  | popped (item : Except Err DataItem)
  | peeked (item : DataItem)
  | empty

/-- `accepted` and `received` are the items that went in and came out, `woken` the threads that
another thread has made ready and that have not run since. -/
structure DqSys where
  q : DataQueue
  pc : Tid → DqPc
  ret : Tid → Option DqRet
  accepted : List DataItem
  received : List DataItem
  wokenPush : List Tid
  wokenPop : List Tid

def DqSys.init (size lwm : ℕ) (mem : ℕ → DataItem) : DqSys :=
  ⟨rtDataQueueInit size lwm mem, fun _ => .idle, fun _ => none, [], [], [], []⟩

namespace DqSys

def setPc (s : DqSys) (t : Tid) (pc : DqPc) : DqSys :=
  { s with pc := Function.update s.pc t pc }

def finish (s : DqSys) (t : Tid) (r : DqRet) : DqSys :=
  { s with pc := Function.update s.pc t .idle, ret := Function.update s.ret t (some r) }

/-- `rt_thread_resume` of the first thread of the pop list. -/
def wakePop (s : DqSys) : DqSys :=
  match s.q.suspendedPopList with
  | [] => s
  | u :: l =>
    match s.pc u with
    | .pop timeout _ =>
      { s.setPc u (.pop timeout (.readied .eok)) with
        q := { s.q with suspendedPopList := l }, wokenPop := u :: s.wokenPop }
    | _ => s

def wakePush (s : DqSys) : DqSys :=
  match s.q.suspendedPushList with
  | [] => s
  | u :: l =>
    match s.pc u with
    | .push item timeout _ =>
      { s.setPc u (.push item timeout (.readied .eok)) with
        q := { s.q with suspendedPushList := l }, wokenPush := u :: s.wokenPush }
    | _ => s

/-- `rt_data_queue_push` from the test of its loop on. -/
def rtDataQueuePush (s : DqSys) (t : Tid) (item : DataItem) (timeout : ℤ) : DqSys :=
  if s.q.isFull then
    if timeout = 0 then s.finish t (.pushed .etimeout)
    else
      { s.setPc t (.push item timeout .suspended) with
        q := { s.q with suspendedPushList := s.q.suspendedPushList ++ [t] } }
  else
    { s.finish t (.pushed .eok) with q := s.q.put item, accepted := s.accepted ++ [item] }.wakePop

/-- `rt_data_queue_pop` from the test of its loop on. -/
def rtDataQueuePop (s : DqSys) (t : Tid) (timeout : ℤ) : DqSys :=
  if s.q.isEmpty then
    if timeout = 0 then s.finish t (.popped (.error .etimeout))
    else
      { s.setPc t (.pop timeout .suspended) with
        q := { s.q with suspendedPopList := s.q.suspendedPopList ++ [t] } }
  else
    let s' := { s.finish t (.popped (.ok s.q.first)) with q := s.q.take, received := s.received ++ [s.q.first] }
    if s'.q.rtDataQueueLen ≤ s'.q.lwm then s'.wakePush else s'

end DqSys

inductive DqEvent
  | push (t : Tid) (item : DataItem) (timeout : ℤ)
  | pop (t : Tid) (timeout : ℤ)
  | expire (t : Tid)
  | resume (t : Tid)
  | peekTest (t : Tid)
  | peekRead (t : Tid)
deriving DecidableEq

def DqSys.step (s : DqSys) : DqEvent → Option DqSys
  | .push t item timeout => if s.pc t = .idle then some (s.rtDataQueuePush t item timeout) else none
  | .pop t timeout => if s.pc t = .idle then some (s.rtDataQueuePop t timeout) else none
  | .expire t =>
    -- `rt_thread_timeout`
    match s.pc t with
    | .push item timeout .suspended =>
      if 0 < timeout then
        some { s.setPc t (.push item timeout (.readied .etimeout)) with
          q := { s.q with suspendedPushList := s.q.suspendedPushList.erase t } }
      else none
    | .pop timeout .suspended =>
      if 0 < timeout then
        some { s.setPc t (.pop timeout (.readied .etimeout)) with
          q := { s.q with suspendedPopList := s.q.suspendedPopList.erase t } }
      else none
    | _ => none
  | .resume t =>
    match s.pc t with
    | .push item timeout (.readied err) =>
      if err = .eok then some ({ s with wokenPush := s.wokenPush.erase t }.rtDataQueuePush t item timeout)
      else some (s.finish t (.pushed err))
    | .pop timeout (.readied err) =>
      if err = .eok then some ({ s with wokenPop := s.wokenPop.erase t }.rtDataQueuePop t timeout)
      else some (s.finish t (.popped (.error err)))
    | _ => none
  | .peekTest t =>
    if s.pc t = .idle then some (if s.q.isEmpty then s.finish t .empty else s.setPc t .peeking) else none
  | .peekRead t => if s.pc t = .peeking then some (s.finish t (.peeked s.q.first)) else none

namespace DataQueue

structure Ring (q : DataQueue) : Prop where
  pos : 0 < q.size
  bound : q.size < 2 ^ 16
  get : q.getIndex < q.places
  put : q.putIndex < q.places
  empty : q.isEmpty = true ↔ q.isFull = false ∧ q.putIndex = q.getIndex
  full : q.isFull = true → q.putIndex = q.getIndex

namespace Ring

variable {q : DataQueue} {item : DataItem} {i : ℕ}

theorem init {size lwm : ℕ} (mem : ℕ → DataItem) (hpos : 0 < size) (hb : size < 2 ^ 16) :
    (rtDataQueueInit size lwm mem).Ring := by
  have hplaces : 0 < (rtDataQueueInit size lwm mem).places := by
    simp only [places, rtDataQueueInit]
    omega
  exact ⟨hpos, hb, hplaces, hplaces, by simp [rtDataQueueInit], by simp [rtDataQueueInit]⟩

theorem next (hi : i < q.places) : q.next i = if i + 1 = q.places then 0 else i + 1 := by
  have hplaces : q.places = min q.size (2 ^ 15) := rfl
  unfold DataQueue.next
  split_ifs <;> omega

theorem count_eq (h : q.Ring) :
    q.count = if q.isFull then q.places
      else if q.getIndex ≤ q.putIndex then q.putIndex - q.getIndex else q.putIndex + q.places - q.getIndex := by
  have hget := h.get
  have hput := h.put
  unfold count
  rw [mod_of_lt_two_mul (by omega)]
  split_ifs <;> omega

theorem count_le (h : q.Ring) : q.count ≤ q.places := by
  have hget := h.get
  have hput := h.put
  rw [h.count_eq]
  split_ifs <;> omega

theorem isEmpty_iff (h : q.Ring) : q.isEmpty = true ↔ q.count = 0 := by
  have hget := h.get
  have hput := h.put
  rw [h.empty, h.count_eq]
  cases hf : q.isFull
  · simp only [Bool.false_eq_true, if_false, true_and]
    split_ifs <;> omega
  · simp only [Bool.true_eq_false, false_and, if_true, false_iff]
    omega

theorem isFull_iff (h : q.Ring) : q.isFull = true ↔ q.count = q.places := by
  have hget := h.get
  have hput := h.put
  rw [h.count_eq]
  cases hf : q.isFull
  · simp only [Bool.false_eq_true, if_false, false_iff]
    split_ifs <;> omega
  · simp

theorem putIndex_eq (h : q.Ring) : q.putIndex = (q.getIndex + q.count) % q.places := by
  have hget := h.get
  have hput := h.put
  have hfull := h.full
  rw [mod_of_lt_two_mul (by have := h.count_le; omega), h.count_eq]
  cases hf : q.isFull
  · simp only [Bool.false_eq_true, if_false]
    split_ifs <;> omega
  · have := hfull hf
    simp only [if_true]
    split_ifs <;> omega

theorem places_le (q : DataQueue) : q.places ≤ q.size := Nat.min_le_left _ _

theorem len_eq (h : q.Ring) (hs : q.size ≤ 2 ^ 15) : q.rtDataQueueLen = q.count := by
  have hget := h.get
  have hput := h.put
  have hplaces : q.places = q.size := Nat.min_eq_left hs
  have hempty := h.empty
  have hfull := h.full
  rw [h.count_eq]
  unfold rtDataQueueLen
  cases hf : q.isFull
  · simp only [hf, true_and] at hempty
    simp only [hempty, Bool.false_eq_true, if_false]
    split_ifs <;> omega
  · have heq := hfull hf
    have hne : q.isEmpty = false := by
      cases he : q.isEmpty
      · rfl
      · rw [he, hf] at hempty
        simp at hempty
    simp only [hne, Bool.false_eq_true, if_false, if_true]
    split_ifs <;> omega

theorem put_ring (h : q.Ring) (hf : q.isFull = false) : (q.put item).Ring := by
  have hput := h.put
  have hget := h.get
  have hnext := next hput
  refine ⟨h.pos, h.bound, hget, ?_, ?_, ?_⟩
  · change q.next q.putIndex < q.places
    rw [hnext]
    split_ifs <;> omega
  · simp only [DataQueue.put, hf, Bool.false_eq_true, false_iff]
    split_ifs with heq
    · simp
    · simpa using heq
  · simp only [DataQueue.put, hf]
    split_ifs with heq
    · exact fun _ => heq
    · simp

theorem count_put (h : q.Ring) (hf : q.isFull = false) : (q.put item).count = q.count + 1 := by
  have hput := h.put
  have hget := h.get
  have hplaces : (q.put item).places = q.places := rfl
  have hnext := next hput
  rw [(h.put_ring hf).count_eq, h.count_eq, hplaces]
  simp only [DataQueue.put, hf, Bool.false_eq_true, if_false, hnext]
  split_ifs <;> simp_all <;> omega

theorem contents_put (h : q.Ring) (hf : q.isFull = false) : (q.put item).contents = q.contents ++ [item] := by
  have hlt : q.count < q.places := by
    have hne : q.count ≠ q.places := fun heq => by
      rw [h.isFull_iff.mpr heq] at hf
      cases hf
    have := h.count_le
    omega
  unfold contents
  rw [h.count_put hf]
  simp only [DataQueue.put]
  rw [h.putIndex_eq]
  exact window_put q.queue hlt item

theorem take_ring (h : q.Ring) (he : q.isEmpty = false) : q.take.Ring := by
  have hput := h.put
  have hget := h.get
  have hnext := next hget
  refine ⟨h.pos, h.bound, ?_, hput, ?_, ?_⟩
  · change q.next q.getIndex < q.places
    rw [hnext]
    split_ifs <;> omega
  · simp only [DataQueue.take, he, true_and]
    split_ifs with heq
    · simpa using heq
    · simpa using heq
  · simp [DataQueue.take]

theorem count_take (h : q.Ring) (he : q.isEmpty = false) : q.count = q.take.count + 1 := by
  have hput := h.put
  have hget := h.get
  have hplaces : q.take.places = q.places := rfl
  have hnext := next hget
  have hempty := h.empty
  have hfull := h.full
  rw [he] at hempty
  rw [(h.take_ring he).count_eq, h.count_eq, hplaces]
  simp only [DataQueue.take, Bool.false_eq_true, if_false, hnext]
  cases hf : q.isFull
  · simp only [hf, Bool.false_eq_true, true_and, false_iff] at hempty
    simp only [Bool.false_eq_true, if_false]
    split_ifs <;> omega
  · have heq := hfull hf
    simp only [if_true]
    split_ifs <;> omega

theorem contents_take (h : q.Ring) (he : q.isEmpty = false) : q.contents = q.first :: q.take.contents := by
  have hnext : q.next q.getIndex = (q.getIndex + 1) % q.places := by
    rw [next h.get, mod_of_lt_two_mul (by have := h.get; omega)]
    have := h.get
    split_ifs <;> omega
  unfold contents
  rw [h.count_take he, window_get, Nat.mod_eq_of_lt h.get, ← hnext]
  rfl

@[simp] theorem length_contents (q : DataQueue) : q.contents.length = q.count := length_window _ _ _ _

end Ring

end DataQueue

end RtSmart
