import RtSmart.Ipc.WaitList

namespace RtSmart

open Lib Kernel

def rtEventFlagAnd : BitVec 8 := 0x01
def rtEventFlagOr : BitVec 8 := 0x02
def rtEventFlagClear : BitVec 8 := 0x04

structure EventObj where
  set : BitVec 32
  flag : IpcFlag

/-- The walk of `rt_event_send` along the waiting threads. -/
def eventScan (k : Kernel) (set : BitVec 32) : List Tid → Kernel × BitVec 32 × Err
  | [] => (k, set, .eok)
  | t :: l =>
    let th := k.thread t
    let wake (received : BitVec 32) :=
      let set := if th.eventInfo &&& rtEventFlagClear ≠ 0 then set &&& ~~~received else set
      let k := ((k.setThread t fun th => { th with eventSet := received }).rtThreadResume t).1
      eventScan (k.setThread t fun th => { th with error := .eok }) set l
    if th.eventInfo &&& rtEventFlagAnd ≠ 0 then
      if th.eventSet &&& set = th.eventSet then wake th.eventSet else eventScan k set l
    else if th.eventInfo &&& rtEventFlagOr ≠ 0 then
      if th.eventSet &&& set ≠ 0 then wake (th.eventSet &&& set) else eventScan k set l
    else (k, set, .einval)

def rtEventSend (k : Kernel) (event : EventObj) (o : Oid) (set : BitVec 32) : Kernel × EventObj × Err :=
  if set = 0 then (k, event, .error)
  else
    let r := eventScan k (event.set ||| set) (k.list (.suspend o))
    (r.1, { event with set := r.2.1 }, r.2.2)

def eventReady (events set : BitVec 32) (option : BitVec 8) : Bool :=
  if option &&& rtEventFlagAnd ≠ 0 then events &&& set = set else events &&& set ≠ 0

/-- `_rt_event_recv` up to its call of `rt_schedule`: the return value with what is stored through
`recved`, or nothing when the thread waits. -/
def rtEventRecv (k : Kernel) (event : EventObj) (o : Oid) (t : Tid) (set : BitVec 32) (option : BitVec 8)
    (timeout : ℤ) (sf : SuspendFlag) : Kernel × EventObj × Option (Err × Option (BitVec 32)) :=
  if set = 0 then (k, event, some (.error, none))
  else if eventReady event.set set option then
    (k.setThread t fun th => { th with error := .eok, eventSet := event.set &&& set, eventInfo := option },
      { event with set := if option &&& rtEventFlagClear ≠ 0 then event.set &&& ~~~set else event.set },
      some (.eok, some (event.set &&& set)))
  else if timeout = 0 then (k.setThread t fun th => { th with error := .etimeout }, event, some (.etimeout, none))
  else
    let k := k.setThread t fun th => { th with eventSet := set, eventInfo := option }
    match k.waitOn (.suspend o) t event.flag sf timeout with
    | (k, .eok) => (k, event, none)
    | (k, ret) => (k, event, some (ret, none))

/-- What the threads of the list would get by calling `rt_event_recv`, one after the other. -/
def recvScan (k : Kernel) (o : Oid) : EventObj → List Tid → EventObj × List (Tid × BitVec 32)
  | event, [] => (event, [])
  | event, t :: l =>
    match (rtEventRecv k event o t (k.thread t).eventSet (k.thread t).eventInfo 0 .uninterruptible).2 with
    | (event, some (.eok, some received)) =>
      let r := recvScan k o event l
      (r.1, (t, received) :: r.2)
    | _ => recvScan k o event l

section scan

variable {k : Kernel} {t : Tid} {set set' want : BitVec 32} {info : BitVec 8} {f : IpcFlag} {o : Oid}

theorem and_not_and (x y : BitVec 32) : x &&& ~~~(x &&& y) = x &&& ~~~y := by
  ext i
  simp only [BitVec.getElem_and, BitVec.getElem_not]
  cases x[i] <;> simp

theorem eventReady_mono (hsub : set' &&& set = set') (h : eventReady set' want info = true) :
    eventReady set want info = true := by
  simp only [eventReady] at h ⊢
  split_ifs at h ⊢ with ha
  · simp only [decide_eq_true_eq] at h ⊢
    calc set &&& want = set &&& (set' &&& want) := by rw [h]
      _ = (set' &&& set) &&& want := by rw [← BitVec.and_assoc, BitVec.and_comm set set']
      _ = want := by rw [hsub, h]
  · simp only [decide_eq_true_eq, ne_eq] at h ⊢
    intro h0
    apply h
    calc set' &&& want = (set' &&& set) &&& want := by rw [hsub]
      _ = 0 := by rw [BitVec.and_assoc, h0]; simp

def wakeReceiver (k : Kernel) (t : Tid) (received : BitVec 32) : Kernel :=
  ((k.setThread t fun th => { th with eventSet := received }).rtThreadResume t).1.setThread t
    fun th => { th with error := .eok }

def cleared (set want : BitVec 32) (info : BitVec 8) : BitVec 32 :=
  if info &&& rtEventFlagClear ≠ 0 then set &&& ~~~want else set

theorem eventScan_cons {l : List Tid} (hi : (k.thread t).eventInfo &&& (rtEventFlagAnd ||| rtEventFlagOr) ≠ 0) :
    eventScan k set (t :: l) =
      if eventReady set (k.thread t).eventSet (k.thread t).eventInfo then
        eventScan (wakeReceiver k t (set &&& (k.thread t).eventSet))
          (cleared set (k.thread t).eventSet (k.thread t).eventInfo) l
      else eventScan k set l := by
  have hcomm : (k.thread t).eventSet &&& set = set &&& (k.thread t).eventSet := BitVec.and_comm _ _
  by_cases ha : (k.thread t).eventInfo &&& rtEventFlagAnd ≠ 0
  · have hready : eventReady set (k.thread t).eventSet (k.thread t).eventInfo =
        decide (set &&& (k.thread t).eventSet = (k.thread t).eventSet) := by
      rw [eventReady, if_pos ha]
    rw [eventScan, if_pos ha, hready, hcomm]
    by_cases h : set &&& (k.thread t).eventSet = (k.thread t).eventSet
    · rw [if_pos h, if_pos (by simpa using h), h]
      rfl
    · rw [if_neg h, if_neg (by simpa using h)]
  · have hor : (k.thread t).eventInfo &&& rtEventFlagOr ≠ 0 := by
      intro h0
      apply hi
      rw [BitVec.and_or_distrib_left, not_not.mp ha, h0]
      rfl
    have hready : eventReady set (k.thread t).eventSet (k.thread t).eventInfo =
        decide (set &&& (k.thread t).eventSet ≠ 0) := by
      rw [eventReady, if_neg ha]
    rw [eventScan, if_neg ha, if_pos hor, hready]
    by_cases h : (k.thread t).eventSet &&& set ≠ 0
    · rw [if_pos h, if_pos (by simpa [hcomm] using h)]
      simp only [wakeReceiver, cleared, and_not_and, hcomm]
    · rw [if_neg h, if_neg (by simpa [hcomm] using h)]

theorem rtEventRecv_now {event : EventObj} (hw : want ≠ 0) :
    (rtEventRecv k event o t want info 0 .uninterruptible).2 =
      if eventReady event.set want info then
        ({ event with set := cleared event.set want info }, some (.eok, some (event.set &&& want)))
      else (event, some (.etimeout, none)) := by
  simp only [rtEventRecv, hw, if_false]
  by_cases h : eventReady event.set want info = true
  · rw [if_pos h, if_pos h]
    rfl
  · rw [if_neg h, if_neg h]
    rfl

theorem recvScan_cons {event : EventObj} {l : List Tid} (hw : (k.thread t).eventSet ≠ 0) :
    recvScan k o event (t :: l) =
      if eventReady event.set (k.thread t).eventSet (k.thread t).eventInfo then
        let r := recvScan k o { event with set := cleared event.set (k.thread t).eventSet (k.thread t).eventInfo } l
        (r.1, (t, event.set &&& (k.thread t).eventSet) :: r.2)
      else recvScan k o event l := by
  simp only [recvScan, rtEventRecv_now hw]
  split_ifs <;> rfl

theorem recvScan_congr {k' : Kernel} {event : EventObj} {l : List Tid}
    (h : ∀ u ∈ l, k'.thread u = k.thread u) (hw : ∀ u ∈ l, (k.thread u).eventSet ≠ 0) :
    recvScan k' o event l = recvScan k o event l := by
  induction l generalizing event with
  | nil => rfl
  | cons u l ih =>
    have hu := h u (by simp)
    have hrest : ∀ event, recvScan k' o event l = recvScan k o event l :=
      fun event => ih (fun v hv => h v (by simp [hv])) fun v hv => hw v (by simp [hv])
    rw [recvScan_cons (by rw [hu]; exact hw u (by simp)), recvScan_cons (hw u (by simp)), hu]
    simp only [hrest]

theorem cleared_sub (set want : BitVec 32) (info : BitVec 8) : cleared set want info &&& set = cleared set want info := by
  simp only [cleared]
  split_ifs
  · rw [BitVec.and_assoc, BitVec.and_comm _ set, ← BitVec.and_assoc, BitVec.and_self]
  · exact BitVec.and_self

structure Receiver (th : Thread) : Prop where
  suspended : th.stat.suspended = true
  info : th.eventInfo &&& (rtEventFlagAnd ||| rtEventFlagOr) ≠ 0
  want : th.eventSet ≠ 0

structure Woken (k k' : Kernel) (t : Tid) (received : BitVec 32) : Prop where
  coherent : k'.Coherent none
  currentOk : k'.CurrentOk
  runnable : (k'.thread t).stat.runnable
  error : (k'.thread t).error = .eok
  eventSet : (k'.thread t).eventSet = received
  list : ∀ h : ListHead, h.isWait = true → k'.list h = (k.list h).erase t
  other : ∀ u, u ≠ t → k'.thread u = k.thread u

theorem wakeReceiver_woken (hc : k.Coherent none) (ho : k.CurrentOk) (hs : (k.thread t).stat.suspended = true)
    (received : BitVec 32) : Woken k (wakeReceiver k t received) t received := by
  have h1 : (k.setThread t fun th => { th with eventSet := received }).Coherent none :=
    hc.setThread ⟨rfl, rfl, rfl, rfl, rfl, rfl⟩
  have ho1 : (k.setThread t fun th => { th with eventSet := received }).CurrentOk := ho.setThread rfl
  have hw := wakes_resume (k := k.setThread t fun th => { th with eventSet := received }) (t := t) (by simpa using hs)
  refine ⟨h1.resume.setThread ⟨rfl, rfl, rfl, rfl, rfl, rfl⟩, ho1.resume.setThread rfl, ?_, ?_, ?_, ?_, ?_⟩
  · simpa [wakeReceiver] using hw.runnable
  · simp [wakeReceiver]
  · simpa [wakeReceiver] using hw.same.eventSet
  · intro h hd
    simpa [wakeReceiver] using hw.list h hd
  · intro u hu
    simpa [wakeReceiver, hu] using hw.other u hu

/-- The outcome of the walk: `out` lists the threads it woke with the bits they were given. -/
structure Scanned (k k' : Kernel) (set set' : BitVec 32) (l : List Tid) (out : List (Tid × BitVec 32)) : Prop where
  coherent : k'.Coherent none
  currentOk : k'.CurrentOk
  sub : set' &&& set = set'
  keys : ∀ u, u ∉ l → out.lookup u = none
  list : ∀ h : ListHead, h.isWait = true → ∀ u, u ∈ k'.list h ↔ u ∈ k.list h ∧ out.lookup u = none
  passed : ∀ u, out.lookup u = none → k'.thread u = k.thread u
  unready : ∀ u ∈ l, out.lookup u = none →
    eventReady set' (k.thread u).eventSet (k.thread u).eventInfo = false
  woken : ∀ u r, out.lookup u = some r →
    (k'.thread u).stat.runnable ∧ (k'.thread u).error = .eok ∧ (k'.thread u).eventSet = r

theorem eventScan_spec (set : BitVec 32) {l : List Tid} (hc : k.Coherent none) (ho : k.CurrentOk) (hl : l.Nodup)
    (hr : ∀ u ∈ l, Receiver (k.thread u)) :
    (eventScan k set l).2.2 = .eok ∧ (recvScan k o ⟨set, f⟩ l).1 = ⟨(eventScan k set l).2.1, f⟩ ∧
      Scanned k (eventScan k set l).1 set (eventScan k set l).2.1 l (recvScan k o ⟨set, f⟩ l).2 := by
  induction l generalizing k set with
  | nil => exact ⟨rfl, rfl, hc, ho, BitVec.and_self, by simp [recvScan], by simp [eventScan, recvScan],
      by simp [eventScan], by simp, by simp [recvScan]⟩
  | cons t l ih =>
    obtain ⟨htl, hl'⟩ := List.nodup_cons.mp hl
    have ht := hr t (by simp)
    rw [eventScan_cons ht.info, recvScan_cons ht.want]
    by_cases hready : eventReady set (k.thread t).eventSet (k.thread t).eventInfo = true
    · simp only [hready, if_true]
      have hw := wakeReceiver_woken hc ho ht.suspended (set &&& (k.thread t).eventSet)
      have hsame : ∀ u ∈ l, (wakeReceiver k t (set &&& (k.thread t).eventSet)).thread u = k.thread u :=
        fun u hu => hw.other u fun he => htl (he ▸ hu)
      set k1 := wakeReceiver k t (set &&& (k.thread t).eventSet)
      set set1 := cleared set (k.thread t).eventSet (k.thread t).eventInfo
      have hr1 : ∀ u ∈ l, Receiver (k1.thread u) := fun u hu => by
        rw [hsame u hu]
        exact hr u (by simp [hu])
      have hcongr : ∀ event, recvScan k1 o event l = recvScan k o event l :=
        fun event => recvScan_congr hsame fun u hu => (hr u (by simp [hu])).want
      have hnext := ih set1 hw.coherent hw.currentOk hl' hr1
      rw [hcongr] at hnext
      obtain ⟨herr, hset, hscan⟩ := hnext
      refine ⟨herr, hset, hscan.coherent, hscan.currentOk, ?_, ?_, ?_, ?_, ?_, ?_⟩
      · rw [← hscan.sub, BitVec.and_assoc, cleared_sub]
      · intro u hu
        simp only [List.mem_cons, not_or] at hu
        rw [List.lookup_cons, beq_false_of_ne hu.1]
        exact hscan.keys u hu.2
      · intro h hd u
        rw [hscan.list h hd u, hw.list h hd, (hc.nodup h).mem_erase_iff, List.lookup_cons]
        by_cases hut : u = t
        · simp [hut]
        · simp [beq_false_of_ne hut, hut]
      · intro u hu
        rw [List.lookup_cons] at hu
        by_cases hut : u = t
        · simp [hut] at hu
        · rw [beq_false_of_ne hut] at hu
          rw [hscan.passed u hu, hw.other u hut]
      · intro u hu hnone
        rw [List.lookup_cons] at hnone
        by_cases hut : u = t
        · simp [hut] at hnone
        · rw [beq_false_of_ne hut] at hnone
          have hul : u ∈ l := (List.mem_cons.mp hu).resolve_left hut
          rw [← hsame u hul]
          exact hscan.unready u hul hnone
      · intro u r hu
        rw [List.lookup_cons] at hu
        by_cases hut : u = t
        · subst hut
          obtain rfl : set &&& (k.thread u).eventSet = r := by simpa using hu
          rw [hscan.passed u (hscan.keys u htl)]
          exact ⟨hw.runnable, hw.error, hw.eventSet⟩
        · rw [beq_false_of_ne hut] at hu
          exact hscan.woken u r hu
    · rw [if_neg hready, if_neg hready]
      obtain ⟨herr, hset, hscan⟩ := ih set hc ho hl' fun u hu => hr u (by simp [hu])
      refine ⟨herr, hset, hscan.coherent, hscan.currentOk, hscan.sub, ?_, hscan.list, hscan.passed, ?_, hscan.woken⟩
      · intro u hu
        simp only [List.mem_cons, not_or] at hu
        exact hscan.keys u hu.2
      · intro u hu hnone
        rcases List.mem_cons.mp hu with rfl | hul
        · by_contra h0
          exact hready (eventReady_mono hscan.sub (by simpa using h0))
        · exact hscan.unready u hul hnone

end scan

/-- Event objects and their receivers. `result` is what the last call of a thread returned and
stored, and `grant` what `recvScan` found for it when a send woke it. -/
structure EventSys where
  k : Kernel
  event : Oid → EventObj
  waiting : Tid → Option Oid
  result : Tid → Err × Option (BitVec 32)
  grant : Tid → BitVec 32

namespace EventSys

def init (k : Kernel) (event : Oid → EventObj) : EventSys where
  k := k
  event := event
  waiting _ := none
  result _ := (.eok, none)
  grant _ := 0

inductive Event where
  | send (o : Oid) (set : BitVec 32)
  | recv (t : Tid) (o : Oid) (set : BitVec 32) (option : BitVec 8) (timeout : ℤ) (sf : SuspendFlag)
  | ret (t : Tid)
  | kernel (e : KernelEvent)

def received (s : EventSys) (t : Tid) (o : Oid) :
    Kernel × EventObj × Option (Err × Option (BitVec 32)) → EventSys
  | (k, event, some r) =>
    { s with k := k, event := Function.update s.event o event, result := Function.update s.result t r }
  | (k, event, none) =>
    { s with k := k, event := Function.update s.event o event, waiting := Function.update s.waiting t (some o) }

def granted (s : EventSys) (o : Oid) (set : BitVec 32) : EventObj × List (Tid × BitVec 32) :=
  recvScan s.k o { s.event o with set := (s.event o).set ||| set } (s.k.list (.suspend o))

def step (s : EventSys) : Event → Option EventSys
  | .send o set =>
    let r := rtEventSend s.k (s.event o) o set
    let got := if set = 0 then [] else (s.granted o set).2
    some { s with k := r.1, event := Function.update s.event o r.2.1
                  grant := fun t => (got.lookup t).getD (s.grant t) }
  | .recv t o set option timeout sf =>
    -- the assertion of `_rt_event_recv`
    if s.k.Runs t ∧ s.waiting t = none ∧ option &&& (rtEventFlagAnd ||| rtEventFlagOr) ≠ 0 then
      some (s.received t o (rtEventRecv s.k (s.event o) o t set option timeout sf))
    else none
  | .ret t =>
    let th := s.k.thread t
    if s.k.Runs t ∧ s.waiting t ≠ none then
      some { s with waiting := Function.update s.waiting t none
                    result := Function.update s.result t
                      (if th.error = .eok then (.eok, some th.eventSet) else (th.error, none)) }
    else none
  | .kernel e => (s.k.kernelStep e).map fun k => { s with k := k }

structure Inv (s : EventSys) : Prop where
  coherent : s.k.Coherent none
  currentOk : s.k.CurrentOk
  linked : ∀ o t, t ∈ s.k.list (.suspend o) → s.waiting t = some o ∧ (s.k.thread t).stat.suspended = true
  blocked : ∀ o t, s.waiting t = some o → (s.k.thread t).stat.suspended = true →
    t ∈ s.k.list (.suspend o) ∧ Receiver (s.k.thread t) ∧ (s.k.thread t).error ≠ .eok ∧
      eventReady (s.event o).set (s.k.thread t).eventSet (s.k.thread t).eventInfo = false
  granted : ∀ o t, s.waiting t = some o → (s.k.thread t).stat.suspended = false → (s.k.thread t).error = .eok →
    (s.k.thread t).eventSet = s.grant t

section steps

variable {s s' : EventSys} {o : Oid} {t : Tid}

theorem Inv.frame (h : s.Inv) {k' : Kernel} (hc : k'.Coherent none) (ho : k'.CurrentOk)
    (hl : ∀ o, k'.list (.suspend o) = s.k.list (.suspend o))
    (hst : ∀ u o, s.waiting u = some o → (k'.thread u).stat.suspended = (s.k.thread u).stat.suspended)
    (hw : ∀ u o, s.waiting u = some o → (s.k.thread u).SameWait (k'.thread u)) (event : Oid → EventObj)
    (he : ∀ o, (event o).set &&& (s.event o).set = (event o).set) (result : Tid → Err × Option (BitVec 32)) :
    Inv { s with k := k', event := event, result := result } where
  coherent := hc
  currentOk := ho
  linked o u hu := by
    rw [hl] at hu
    obtain ⟨h1, h2⟩ := h.linked o u hu
    exact ⟨h1, (hst u o h1).trans h2⟩
  blocked o u hu hs := by
    rw [hst u o hu] at hs
    obtain ⟨h1, h2, h3, h4⟩ := h.blocked o u hu hs
    have hsame := hw u o hu
    refine ⟨by rwa [hl], ⟨(hst u o hu).trans hs, ?_, ?_⟩, ?_, ?_⟩
    · rw [hsame.eventInfo]
      exact h2.info
    · rw [hsame.eventSet]
      exact h2.want
    · rwa [hsame.error]
    · rw [hsame.eventSet, hsame.eventInfo]
      by_contra h0
      have h1 : eventReady (s.event o).set (s.k.thread u).eventSet (s.k.thread u).eventInfo = true :=
        eventReady_mono (he o) (by simpa using h0)
      simp [h4] at h1
  granted o u hu hs herr := by
    rw [hst u o hu] at hs
    rw [(hw u o hu).error] at herr
    rw [(hw u o hu).eventSet]
    exact h.granted o u hu hs herr

theorem Inv.wakes (h : s.Inv) {k' : Kernel} (hc : k'.Coherent none) (ho : k'.CurrentOk) {err : Err}
    (hw : Wakes s.k k' t err) (he : ∀ o, s.waiting t = some o → err ≠ .eok) : Inv { s with k := k' } where
  coherent := hc
  currentOk := ho
  linked o u hu := by
    rw [hw.suspendList] at hu
    have hut : u ≠ t := by
      rintro rfl
      exact (h.coherent.nodup _).not_mem_erase hu
    rw [hw.other u hut]
    exact h.linked o u (List.mem_of_mem_erase hu)
  blocked o u hu hs := by
    have hut : u ≠ t := by
      rintro rfl
      simp [hw.runnable.suspended] at hs
    rw [hw.other u hut] at hs ⊢
    obtain ⟨h1, h2⟩ := h.blocked o u hu hs
    rw [hw.suspendList]
    exact ⟨(List.mem_erase_of_ne hut).mpr h1, h2⟩
  granted o u hu hs herr := by
    by_cases hut : u = t
    · subst hut
      exact absurd (hw.same.error.symm.trans herr) (he o hu)
    · rw [hw.other u hut] at hs herr ⊢
      exact h.granted o u hu hs herr

theorem Inv.kernel (h : s.Inv) {e : KernelEvent} {k' : Kernel} (hs : s.k.kernelStep e = some k') :
    Inv { s with k := k' } := by
  obtain ⟨hc, ho⟩ := kernelStep_invariant h.coherent h.currentOk hs
  rcases kernelStep_cases h.coherent h.currentOk hs with hr | ⟨t, err, hw, herr⟩
  · refine h.frame hc ho (fun o => hr.list _ rfl) (fun u o _ => ?_) (fun u o _ => hr.same u) s.event
      (fun o => BitVec.and_self) s.result
    rcases hr.stat u with he | ⟨h1, h2⟩
    · rw [he]
    · rw [h1.suspended, h2.suspended]
  · refine h.wakes hc ho hw fun o hwt => ?_
    rcases herr with rfl | rfl
    · exact (h.blocked o t hwt hw.suspended).2.2.1
    · simp

theorem Inv.scanned (h : s.Inv) (o : Oid) (set : BitVec 32) :
    (eventScan s.k ((s.event o).set ||| set) (s.k.list (.suspend o))).2.2 = .eok ∧
    (s.granted o set).1 =
      ⟨(eventScan s.k ((s.event o).set ||| set) (s.k.list (.suspend o))).2.1, (s.event o).flag⟩ ∧
    Scanned s.k (eventScan s.k ((s.event o).set ||| set) (s.k.list (.suspend o))).1 ((s.event o).set ||| set)
      (eventScan s.k ((s.event o).set ||| set) (s.k.list (.suspend o))).2.1 (s.k.list (.suspend o))
      (s.granted o set).2 := by
  refine eventScan_spec _ h.coherent h.currentOk (h.coherent.nodup _) fun u hu => ?_
  obtain ⟨h1, h2⟩ := h.linked o u hu
  exact (h.blocked o u h1 h2).2.1

theorem Inv.send (h : s.Inv) {set : BitVec 32} (hs : s.step (.send o set) = some s') : s'.Inv := by
  obtain rfl := Option.some.inj hs
  by_cases hz : set = 0
  · simp only [hz, rtEventSend, if_true, Function.update_eq_self, List.lookup_nil, Option.getD_none]
    exact h
  obtain ⟨-, -, hscan⟩ := h.scanned o set
  simp only [rtEventSend, hz, if_false]
  set r := eventScan s.k ((s.event o).set ||| set) (s.k.list (.suspend o))
  set out := (s.granted o set).2
  have hsus : ∀ u, (r.1.thread u).stat.suspended = true → out.lookup u = none := by
    intro u hu
    cases hl : out.lookup u with
    | none => rfl
    | some x => simp [(hscan.woken u x hl).1.suspended] at hu
  refine ⟨hscan.coherent, hscan.currentOk, fun o' u hu => ?_, fun o' u hu hs => ?_, fun o' u hu hs herr => ?_⟩
  · obtain ⟨h1, h2⟩ := (hscan.list (.suspend o') rfl u).mp hu
    simp only [hscan.passed u h2]
    exact h.linked o' u h1
  · have hnone := hsus u hs
    simp only [hscan.passed u hnone] at hs ⊢
    obtain ⟨h1, h2, h3, h4⟩ := h.blocked o' u hu hs
    refine ⟨(hscan.list _ rfl u).mpr ⟨h1, hnone⟩, h2, h3, ?_⟩
    by_cases hoo : o' = o
    · subst hoo
      simpa using hscan.unready u h1 hnone
    · simpa [hoo] using h4
  · cases hl : out.lookup u with
    | none =>
      simp only [hscan.passed u hl] at hs herr ⊢
      simpa [hl] using h.granted o' u hu hs herr
    | some x => simpa [hl] using (hscan.woken u x hl).2.2

theorem eventRecv_cases {k : Kernel} (hc : k.Coherent none) (ho : k.CurrentOk) (hrun : (k.thread t).stat = .running)
    (event : EventObj) (o : Oid) (set : BitVec 32) (option : BitVec 8) (timeout : ℤ) (sf : SuspendFlag) :
    (∃ f event' r, rtEventRecv k event o t set option timeout sf = (k.setThread t f, event', some r) ∧
      (f (k.thread t)).SameSched (k.thread t) ∧ event'.set &&& event.set = event'.set) ∨
    (set ≠ 0 ∧ eventReady event.set set option = false ∧ ∃ k', rtEventRecv k event o t set option timeout sf =
        (k', event, none) ∧ k'.Coherent none ∧ k'.CurrentOk ∧
      Blocks (k.setThread t fun th => { th with eventSet := set, eventInfo := option }) k' t (.suspend o)
        event.flag sf) := by
  by_cases hz : set = 0
  · refine .inl ⟨id, event, (.error, none), ?_, ⟨rfl, rfl, rfl, rfl, rfl, rfl⟩, BitVec.and_self⟩
    simp [rtEventRecv, hz, Kernel.setThread]
  by_cases hr : eventReady event.set set option = true
  · refine .inl ⟨_, _, _, by simp only [rtEventRecv, hz, if_false, hr, if_true]; rfl,
      ⟨rfl, rfl, rfl, rfl, rfl, rfl⟩, ?_⟩
    exact cleared_sub event.set set option
  by_cases ht : timeout = 0
  · exact .inl ⟨_, _, _, by simp only [rtEventRecv, hz, if_false, hr, ht, if_true]; rfl,
      ⟨rfl, rfl, rfl, rfl, rfl, rfl⟩, BitVec.and_self⟩
  set k0 := k.setThread t fun th => { th with eventSet := set, eventInfo := option } with hk0
  have hc0 : k0.Coherent none := hc.setThread ⟨rfl, rfl, rfl, rfl, rfl, rfl⟩
  have ho0 : k0.CurrentOk := ho.setThread rfl
  have hrun0 : (k0.thread t).stat = .running := by simpa [hk0] using hrun
  rcases waitOn_cases (h := .suspend o) event.flag sf hc0 ho0 hrun0 rfl timeout with he | ⟨k', he, hc', ho', hb⟩
  · refine .inl ⟨fun th => { th with eventSet := set, eventInfo := option, error := .eintr }, event,
      (.eintr, none), ?_, ⟨rfl, rfl, rfl, rfl, rfl, rfl⟩, BitVec.and_self⟩
    simp only [rtEventRecv, hz, hr, ht, if_false, ← hk0, he, Bool.false_eq_true]
    simp [hk0, Kernel.setThread]
  · refine .inr ⟨hz, by simpa using hr, k', ?_, hc', ho', hb⟩
    simp only [rtEventRecv, hz, hr, ht, if_false, ← hk0, he, Bool.false_eq_true]

theorem Inv.recv (h : s.Inv) {set : BitVec 32} {option : BitVec 8} {timeout : ℤ} {sf : SuspendFlag}
    (hs : s.step (.recv t o set option timeout sf) = some s') : s'.Inv := by
  simp only [step, Option.ite_none_right_eq_some, Option.some.injEq] at hs
  obtain ⟨⟨⟨-, hrun⟩, hwt, hopt⟩, rfl⟩ := hs
  rcases eventRecv_cases h.coherent h.currentOk hrun (s.event o) o set option timeout sf with
    ⟨f, event', r, he, hf, hsub⟩ | ⟨hz, hr, k', he, hc, ho, hb⟩
  · rw [he]
    have hne : ∀ u o', s.waiting u = some o' → u ≠ t := by
      rintro u o' hu rfl
      simp [hwt] at hu
    refine h.frame (h.coherent.setThread hf) (h.currentOk.setThread hf.stat) (fun _ => rfl) (fun u o' hu => ?_)
      (fun u o' hu => ?_) _ (fun o' => ?_) _
    · rw [setThread_thread_of_ne _ _ _ (hne u o' hu)]
    · rw [setThread_thread_of_ne _ _ _ (hne u o' hu)]
      exact ⟨rfl, rfl, rfl, rfl, rfl, rfl⟩
    · by_cases hoo : o' = o
      · subst hoo
        simpa using hsub
      · simp [hoo]
  · rw [he]
    have hother : ∀ u, u ≠ t → k'.thread u = s.k.thread u := by
      intro u hu
      rw [hb.other u hu, setThread_thread_of_ne _ _ _ hu]
    have hmem : ∀ o' u, u ∈ k'.list (.suspend o') ↔ (u = t ∧ o' = o) ∨ u ∈ s.k.list (.suspend o') := by
      intro o' u
      rw [hb.list _ rfl]
      by_cases hoo : o' = o
      · subst hoo
        simp [mem_enqueue]
      · simp [hoo]
    have hset : (k'.thread t).eventSet = set := by simpa using hb.same.eventSet
    have hinfo : (k'.thread t).eventInfo = option := by simpa using hb.same.eventInfo
    simp only [received, Function.update_eq_self]
    refine ⟨hc, ho, fun o' u hu => ?_, fun o' u hu hsus => ?_, fun o' u hu hsus herr => ?_⟩
    · rcases (hmem o' u).mp hu with ⟨rfl, rfl⟩ | hold
      · simp [hb.stat, Stat.suspended]
      · have hut : u ≠ t := by
          rintro rfl
          simp [(h.linked o' u hold).1] at hwt
        simpa [hut, hother u hut] using h.linked o' u hold
    · by_cases hut : u = t
      · subst hut
        obtain rfl : o = o' := by simpa using hu
        refine ⟨(hmem o u).mpr (.inl ⟨rfl, rfl⟩), ⟨hsus, by rwa [hinfo], by rwa [hset]⟩, ?_, by rwa [hset, hinfo]⟩
        simp [hb.same.error]
      · simp only [hother u hut] at hsus ⊢
        obtain ⟨h1, h2⟩ := h.blocked o' u (by simpa [hut] using hu) hsus
        exact ⟨(hmem o' u).mpr (.inr h1), h2⟩
    · have hut : u ≠ t := by
        rintro rfl
        simp [hb.stat, Stat.suspended] at hsus
      simp only [hother u hut] at hsus herr ⊢
      exact h.granted o' u (by simpa [hut] using hu) hsus herr

theorem Inv.ret (h : s.Inv) (hs : s.step (.ret t) = some s') : s'.Inv := by
  simp only [step, Option.ite_none_right_eq_some, Option.some.injEq] at hs
  obtain ⟨⟨⟨-, hrun⟩, -⟩, rfl⟩ := hs
  have hout := h.coherent.not_linked (t := t) (by simp [hrun]) (by simp [hrun, Stat.suspended])
  have hwait : ∀ u o', Function.update s.waiting t none u = some o' → s.waiting u = some o' := by
    intro u o' hu
    have hut : u ≠ t := by
      rintro rfl
      simp at hu
    simpa [hut] using hu
  refine ⟨h.coherent, h.currentOk, fun o' u hu => ?_, fun o' u hu => ?_, fun o' u hu => ?_⟩
  · have hut : u ≠ t := by
      rintro rfl
      exact hout _ hu
    simpa [hut] using h.linked o' u hu
  · exact h.blocked o' u (hwait u o' hu)
  · exact h.granted o' u (hwait u o' hu)

theorem Inv.step (h : s.Inv) {e : Event} (hs : s.step e = some s') : s'.Inv := by
  cases e with
  | send o set => exact h.send hs
  | recv t o set option timeout sf => exact h.recv hs
  | ret t => exact h.ret hs
  | kernel e =>
    simp only [EventSys.step, Option.map_eq_some_iff] at hs
    obtain ⟨k', hk, rfl⟩ := hs
    exact h.kernel hk

theorem inv_init {k₀ : Kernel} (hq : k₀.Quiet) (event₀ : Oid → EventObj) : (init k₀ event₀).Inv := by
  refine ⟨hq.coherent, hq.currentOk, fun o t ht => ?_, by simp [init], by simp [init]⟩
  simp [init, hq.empty (.suspend o) rfl] at ht

end steps

theorem events_leave_nobody_behind {k₀ : Kernel} (hq : k₀.Quiet) (event₀ : Oid → EventObj) (es : List Event)
    (s : EventSys) (h : run step (init k₀ event₀) es = some s) :
    -- no receiver sleeps on a satisfied request
    (∀ o t, s.waiting t = some o → (s.k.thread t).stat.suspended = true →
      eventReady (s.event o).set (s.k.thread t).eventSet (s.k.thread t).eventInfo = false) ∧
    -- a send does to the event set what the receivers it wakes would do by calling in list order
    (∀ o set s', set ≠ 0 → s.step (.send o set) = some s' → (s'.event o).set = (s.granted o set).1.set ∧
      ∀ t ∈ s.k.list (.suspend o),
        match (s.granted o set).2.lookup t with
        | none => s'.k.thread t = s.k.thread t ∧ t ∈ s'.k.list (.suspend o)
        | some r => (s'.k.thread t).stat.suspended = false ∧ (s'.k.thread t).error = .eok ∧ s'.grant t = r) ∧
    -- and each of them returns the bits that its own call would have given it
    (∀ t s', (s.k.thread t).error = .eok → s.step (.ret t) = some s' →
      s'.result t = (.eok, some (s.grant t))) := by
  have hi : s.Inv := run_invariant Inv (fun _ _ _ hi hs => hi.step hs) h (inv_init hq event₀)
  refine ⟨fun o t hw hs => (hi.blocked o t hw hs).2.2.2, fun o set s' hz hs => ?_, fun t s' herr hs => ?_⟩
  · obtain rfl := Option.some.inj hs
    obtain ⟨-, hset, hscan⟩ := hi.scanned o set
    simp only [rtEventSend, hz, if_false]
    refine ⟨by rw [hset]; simp, fun t ht => ?_⟩
    cases hl : (s.granted o set).2.lookup t with
    | none => exact ⟨hscan.passed t hl, (hscan.list _ rfl t).mpr ⟨ht, hl⟩⟩
    | some r => exact ⟨(hscan.woken t r hl).1.suspended, (hscan.woken t r hl).2.1, by simp⟩
  · simp only [step, Option.ite_none_right_eq_some, Option.some.injEq] at hs
    obtain ⟨⟨⟨-, hrun⟩, hw⟩, rfl⟩ := hs
    obtain ⟨o, hw⟩ := Option.ne_none_iff_exists'.mp hw
    simp [herr, hi.granted o t hw (by simp [hrun, Stat.suspended]) herr]

/-- An AND and an OR receiver with CLEAR: the first takes the bits, the second stays. -/
theorem events_leave_nobody_behind_example :
    ∃ s, run step (init (started 32 (fun t => t % 32) [3, 4, 5]) fun _ => ⟨0, .prio⟩)
      [.recv 3 0 3 5 (-1) .interruptible, .kernel .schedule, .recv 4 0 2 6 9 .uninterruptible, .kernel .schedule,
        .send 0 1, .send 0 2, .kernel .schedule, .ret 3, .kernel (.timeout 4)] = some s ∧
      s.result 3 = (.eok, some 3) ∧
      ∀ o t, s.waiting t = some o → (s.k.thread t).stat.suspended = true →
        eventReady (s.event o).set (s.k.thread t).eventSet (s.k.thread t).eventInfo = false := by
  have hq := started_quiet (n := 32) (by decide) (fun t => Nat.mod_lt t (by decide)) [3, 4, 5]
  have hrun : ((run step (init (started 32 (fun t => t % 32) [3, 4, 5]) fun _ => ⟨0, .prio⟩)
      [.recv 3 0 3 5 (-1) .interruptible, .kernel .schedule, .recv 4 0 2 6 9 .uninterruptible, .kernel .schedule,
        .send 0 1, .send 0 2, .kernel .schedule, .ret 3, .kernel (.timeout 4)]).map fun s => s.result 3) =
      some (.eok, some 3) := by decide +kernel
  obtain ⟨s, hs, hres⟩ := Option.map_eq_some_iff.mp hrun
  exact ⟨s, hs, hres, (events_leave_nobody_behind hq _ _ s hs).1⟩

end EventSys

end RtSmart
