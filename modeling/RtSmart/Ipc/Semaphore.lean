import RtSmart.Ipc.WaitList

namespace RtSmart

open Lib Kernel

def rtSemValueMax : ℕ := 0xffff

structure Sem where
  value : ℕ
  flag : IpcFlag

/-- `_rt_sem_take` up to its call of `rt_schedule`; no return value means that the thread waits. -/
def rtSemTake (k : Kernel) (sem : Sem) (o : Oid) (t : Tid) (time : ℤ) (sf : SuspendFlag) :
    Kernel × Sem × Option Err :=
  if 0 < sem.value then (k, { sem with value := sem.value - 1 }, some .eok)
  else if time = 0 then (k, sem, some .etimeout)
  else
    match k.waitOn (.suspend o) t sem.flag sf time with
    | (k, .eok) => (k, sem, none)
    | (k, ret) => (k, sem, some ret)

def rtSemTrytake (k : Kernel) (sem : Sem) (o : Oid) (t : Tid) : Kernel × Sem × Option Err :=
  rtSemTake k sem o t 0 .uninterruptible

def rtSemRelease (k : Kernel) (sem : Sem) (o : Oid) : Kernel × Sem × Err :=
  if k.list (.suspend o) ≠ [] then (k.rtIpcListResume (.suspend o), sem, .eok)
  else if sem.value < rtSemValueMax then (k, { sem with value := sem.value + 1 }, .eok)
  else (k, sem, .efull)

/-- Semaphores and the threads that use them. `waiting` is the semaphore of the `_rt_sem_take` call
in which a thread is past `rt_schedule`; `taken` and `released` count the calls that returned
`RT_EOK`, and `arrival` orders the waiters by the time they were suspended. -/
structure SemSys where
  k : Kernel
  sem : Oid → Sem
  waiting : Tid → Option Oid
  taken : Oid → ℕ
  released : Oid → ℕ
  clock : ℕ
  arrival : Tid → ℕ

namespace SemSys

def init (k : Kernel) (sem : Oid → Sem) : SemSys where
  k := k
  sem := sem
  waiting _ := none
  taken _ := 0
  released _ := 0
  clock := 0
  arrival _ := 0

inductive Event where
  | take (t : Tid) (o : Oid) (time : ℤ) (sf : SuspendFlag)
  | trytake (t : Tid) (o : Oid)
  | ret (t : Tid)
  | release (o : Oid)
  | kernel (e : KernelEvent)

def bump (f : Oid → ℕ) (o : Oid) (ret : Err) : Oid → ℕ :=
  if ret = .eok then Function.update f o (f o + 1) else f

def took (s : SemSys) (t : Tid) (o : Oid) : Kernel × Sem × Option Err → SemSys
  | (k, sem, some ret) => { s with k := k, sem := Function.update s.sem o sem, taken := bump s.taken o ret }
  | (k, sem, none) =>
    { s with k := k, sem := Function.update s.sem o sem, waiting := Function.update s.waiting t (some o)
             arrival := Function.update s.arrival t s.clock, clock := s.clock + 1 }

def step (s : SemSys) : Event → Option SemSys
  | .take t o time sf =>
    if s.k.Runs t ∧ s.waiting t = none then some (s.took t o (rtSemTake s.k (s.sem o) o t time sf)) else none
  -- an interrupt handler may try as well
  | .trytake t o => some (s.took t o (rtSemTrytake s.k (s.sem o) o t))
  | .ret t =>
    match s.waiting t with
    | none => none
    | some o =>
      if s.k.Runs t then
        some { s with waiting := Function.update s.waiting t none, taken := bump s.taken o (s.k.thread t).error }
      else none
  | .release o =>
    let r := rtSemRelease s.k (s.sem o) o
    some { s with k := r.1, sem := Function.update s.sem o r.2.1, released := bump s.released o r.2.2 }
  | .kernel e => (s.k.kernelStep e).map fun k => { s with k := k }

/-- The thread was resumed by a release of `o` and its call has not yet returned. -/
def Granted (s : SemSys) (o : Oid) (t : Tid) : Prop :=
  s.waiting t = some o ∧ (s.k.thread t).stat.suspended = false ∧ (s.k.thread t).error = .eok

/-- The order in which waiters are served. -/
def Before (s : SemSys) (flag : IpcFlag) (a b : Tid) : Prop :=
  match flag with
  | .fifo => s.arrival a < s.arrival b
  | .prio => (s.k.thread a).currentPriority < (s.k.thread b).currentPriority ∨
      ((s.k.thread a).currentPriority = (s.k.thread b).currentPriority ∧ s.arrival a < s.arrival b)

/-- What was there at first and what came back is still there or was taken. -/
def Balanced (s : SemSys) (o : Oid) (value : ℕ) : Prop :=
  ∃ l : List Tid, l.Nodup ∧ (∀ t, t ∈ l ↔ s.Granted o t) ∧
    value + s.released o = (s.sem o).value + (s.taken o + l.length)

structure Wf (sem₀ : Oid → Sem) (s : SemSys) : Prop where
  coherent : s.k.Coherent none
  currentOk : s.k.CurrentOk
  flag : ∀ o, (s.sem o).flag = (sem₀ o).flag
  bound : ∀ o, (s.sem o).value ≤ rtSemValueMax
  empty : ∀ o, 0 < (s.sem o).value → s.k.list (.suspend o) = []
  linked : ∀ o t, t ∈ s.k.list (.suspend o) → s.waiting t = some o ∧ s.arrival t < s.clock
  blocked : ∀ o t, s.waiting t = some o → (s.k.thread t).stat.suspended = true → (s.k.thread t).error ≠ .eok
  order : ∀ o, (s.k.list (.suspend o)).Pairwise (s.Before (s.sem o).flag)

structure Inv (sem₀ : Oid → Sem) (s : SemSys) : Prop extends Wf sem₀ s where
  balance : ∀ o, s.Balanced o (sem₀ o).value

section steps

variable {sem₀ : Oid → Sem} {s s' : SemSys} {o : Oid} {t : Tid}

theorem Balanced.congr {v : ℕ} (h : s.Balanced o v) (hg : ∀ t, s'.Granted o t ↔ s.Granted o t)
    (hr : s'.released o = s.released o) (ht : (s'.sem o).value + s'.taken o = (s.sem o).value + s.taken o) :
    s'.Balanced o v := by
  obtain ⟨l, hl, hm, he⟩ := h
  exact ⟨l, hl, fun t => (hm t).trans (hg t).symm, by omega⟩

theorem granted_congr_of_eq (hw : s'.waiting t = s.waiting t) (hk : s'.k.thread t = s.k.thread t) :
    s'.Granted o t ↔ s.Granted o t := by
  simp only [Granted, hw, hk]

theorem before_congr {flag : IpcFlag} {a b : Tid} (h : s.Before flag a b)
    (hp : ∀ u, (s'.k.thread u).currentPriority = (s.k.thread u).currentPriority)
    (ha : s'.arrival a = s.arrival a) (hb : s'.arrival b = s.arrival b) : s'.Before flag a b := by
  cases flag <;> simpa only [Before, hp, ha, hb] using h

@[simp] theorem bump_of_ne {f : Oid → ℕ} {o' : Oid} (ret : Err) (h : o' ≠ o) : bump f o ret o' = f o' := by
  simp only [bump]
  split_ifs <;> simp [h]

@[simp] theorem bump_eok (f : Oid → ℕ) : bump f o .eok o = f o + 1 := by simp [bump]

theorem bump_of_error {f : Oid → ℕ} {ret : Err} (h : ret ≠ .eok) : bump f o ret = f := by simp [bump, h]

theorem Inv.frame (h : s.Inv sem₀) {k' : Kernel} (hc : k'.Coherent none) (ho : k'.CurrentOk)
    (hl : ∀ o, k'.list (.suspend o) = s.k.list (.suspend o))
    (hp : ∀ u, (k'.thread u).currentPriority = (s.k.thread u).currentPriority)
    (hw : ∀ u o, s.waiting u = some o → (k'.thread u).stat.suspended = (s.k.thread u).stat.suspended ∧
      (k'.thread u).error = (s.k.thread u).error) : Inv sem₀ { s with k := k' } where
  coherent := hc
  currentOk := ho
  flag := h.flag
  bound := h.bound
  empty o hv := by rw [hl, h.empty o hv]
  linked o u hu := h.linked o u (by rwa [hl] at hu)
  blocked o u hu hs := by
    rw [(hw u o hu).2]
    exact h.blocked o u hu (by rwa [(hw u o hu).1] at hs)
  order o := by
    rw [hl]
    refine (h.order o).imp fun hb => ?_
    exact before_congr hb hp rfl rfl
  balance o := by
    refine (h.balance o).congr (fun u => ?_) rfl rfl
    refine and_congr_right fun hu => ?_
    rw [(hw u o hu).1, (hw u o hu).2]

theorem Inv.resched (h : s.Inv sem₀) {k' : Kernel} (hc : k'.Coherent none) (ho : k'.CurrentOk)
    (hr : Resched s.k k') : Inv sem₀ { s with k := k' } := by
  refine h.frame hc ho (fun o => hr.list _ rfl) (fun u => (hr.same u).currentPriority) fun u o _ => ?_
  refine ⟨?_, (hr.same u).error⟩
  rcases hr.stat u with he | ⟨h1, h2⟩
  · rw [he]
  · rw [h1.suspended, h2.suspended]

theorem Wf.wakes (h : s.Wf sem₀) {k' : Kernel} (hc : k'.Coherent none) (ho : k'.CurrentOk) {err : Err}
    (hw : Wakes s.k k' t err) (released : Oid → ℕ) : Wf sem₀ { s with k := k', released := released } where
  coherent := hc
  currentOk := ho
  flag := h.flag
  bound := h.bound
  empty o hv := by rw [hw.suspendList, h.empty o hv]; rfl
  linked o u hu := by
    rw [hw.suspendList] at hu
    exact h.linked o u (List.mem_of_mem_erase hu)
  blocked o u hu hs := by
    have hut : u ≠ t := by
      rintro rfl
      simp [hw.runnable.suspended] at hs
    rw [hw.other u hut] at hs ⊢
    exact h.blocked o u hu hs
  order o := by
    rw [hw.suspendList]
    refine ((h.order o).sublist List.erase_sublist).imp fun hb => ?_
    exact before_congr hb hw.priority rfl rfl

theorem Inv.wakes (h : s.Inv sem₀) {k' : Kernel} (hc : k'.Coherent none) (ho : k'.CurrentOk) {err : Err}
    (hw : Wakes s.k k' t err) (he : ∀ o, s.waiting t = some o → err ≠ .eok) : Inv sem₀ { s with k := k' } where
  toWf := h.toWf.wakes hc ho hw s.released
  balance o := by
    refine (h.balance o).congr (fun u => ?_) rfl rfl
    by_cases hut : u = t
    · subst hut
      constructor
      · rintro ⟨hu, -, h0⟩
        exact absurd (hw.same.error.symm.trans h0) (he o hu)
      · rintro ⟨-, h0, -⟩
        simp [hw.suspended] at h0
    · exact granted_congr_of_eq rfl (hw.other u hut)

theorem Inv.kernel (h : s.Inv sem₀) {e : KernelEvent} {k' : Kernel} (hs : s.k.kernelStep e = some k') :
    Inv sem₀ { s with k := k' } := by
  obtain ⟨hc, ho⟩ := kernelStep_invariant h.coherent h.currentOk hs
  rcases kernelStep_cases h.coherent h.currentOk hs with hr | ⟨t, err, hw, herr⟩
  · exact h.resched hc ho hr
  · refine h.wakes hc ho hw fun o hwt => ?_
    rcases herr with rfl | rfl
    · exact h.blocked o t hwt hw.suspended
    · simp

/-- Every outcome of `_rt_sem_take` before the wait. -/
theorem rtSemTake_cases {k : Kernel} (sem : Sem) {time : ℤ} (sf : SuspendFlag) (hc : k.Coherent none)
    (ho : k.CurrentOk) (hrun : (k.thread t).stat = .running ∨ time = 0) :
    (0 < sem.value ∧ rtSemTake k sem o t time sf = (k, { sem with value := sem.value - 1 }, some .eok)) ∨
    (∃ ret, ret ≠ .eok ∧ rtSemTake k sem o t time sf = (k, sem, some ret)) ∨
    ((k.thread t).stat = .running ∧ rtSemTake k sem o t time sf =
      (k.setThread t fun th => { th with error := .eintr }, sem, some .eintr)) ∨
    (sem.value = 0 ∧ ∃ k', rtSemTake k sem o t time sf = (k', sem, none) ∧ k'.Coherent none ∧
      k'.CurrentOk ∧ Blocks k k' t (.suspend o) sem.flag sf) := by
  by_cases hv : 0 < sem.value
  · exact .inl ⟨hv, by simp only [rtSemTake, hv, if_true]⟩
  by_cases ht : time = 0
  · exact .inr (.inl ⟨.etimeout, by simp, by simp only [rtSemTake, hv, ht, if_true, if_false]⟩)
  have hr := hrun.resolve_right ht
  rcases waitOn_cases (h := .suspend o) sem.flag sf hc ho hr rfl time with
    he | ⟨k', he, hc', ho', hb⟩
  · exact .inr (.inr (.inl ⟨hr, by simp only [rtSemTake, hv, ht, if_false, he]⟩))
  · exact .inr (.inr (.inr ⟨by omega, k', by simp only [rtSemTake, hv, ht, if_false, he], hc', ho', hb⟩))

theorem Inv.blocks (h : s.Inv sem₀) (hwt : s.waiting t = none) (hv : (s.sem o).value = 0) {k' : Kernel}
    {sf : SuspendFlag} (hc : k'.Coherent none) (ho : k'.CurrentOk)
    (hb : Blocks s.k k' t (.suspend o) (s.sem o).flag sf) :
    Inv sem₀ (s.took t o (k', s.sem o, none)) := by
  have hsem : Function.update s.sem o (s.sem o) = s.sem := Function.update_eq_self _ _
  have hprio : ∀ u, (k'.thread u).currentPriority = (s.k.thread u).currentPriority := by
    intro u
    by_cases hu : u = t
    · rw [hu, hb.same.currentPriority]
    · rw [hb.other u hu]
  have hlist : ∀ o', k'.list (.suspend o') = if o' = o then s.k.enqueue (s.sem o).flag t (s.k.list (.suspend o))
      else s.k.list (.suspend o') := by
    intro o'
    rw [hb.list _ rfl]
    simp
  have hnot : ∀ o' u, u ∈ s.k.list (.suspend o') → u ≠ t := by
    rintro o' u hu rfl
    simp [(h.linked o' u hu).1] at hwt
  have harr : ∀ o' u, u ∈ s.k.list (.suspend o') → Function.update s.arrival t s.clock u = s.arrival u :=
    fun o' u hu => Function.update_of_ne (hnot o' u hu) _ _
  have hold : ∀ o', (s.k.list (.suspend o')).Pairwise ((s.took t o (k', s.sem o, none)).Before (s.sem o').flag) :=
    fun o' => (h.order o').imp_of_mem fun ha hb' hab =>
      before_congr hab hprio (harr o' _ ha) (harr o' _ hb')
  refine ⟨⟨hc, ho, ?_, ?_, ?_, ?_, ?_, ?_⟩, ?_⟩
  · intro o'
    simp only [took, hsem]
    exact h.flag o'
  · intro o'
    simp only [took, hsem]
    exact h.bound o'
  · intro o' hv'
    simp only [took, hsem] at hv' ⊢
    have ho' : o' ≠ o := by
      rintro rfl
      omega
    rw [hlist, if_neg ho', h.empty o' hv']
  · intro o' u hu
    simp only [took] at hu ⊢
    by_cases hut : u = t
    · subst hut
      rw [hlist] at hu
      split_ifs at hu with ho'
      · subst ho'
        simp
      · exact absurd rfl (hnot o' u hu)
    · have hu' : u ∈ s.k.list (.suspend o') := by
        rw [hlist] at hu
        split_ifs at hu with ho'
        · subst ho'
          exact (mem_enqueue.mp hu).resolve_left hut
        · exact hu
      rw [Function.update_of_ne hut, Function.update_of_ne hut]
      obtain ⟨h1, h2⟩ := h.linked o' u hu'
      exact ⟨h1, h2.trans (Nat.lt_succ_self _)⟩
  · intro o' u hu hs
    simp only [took] at hu hs ⊢
    by_cases hut : u = t
    · subst hut
      simp [hb.same.error]
    · rw [Function.update_of_ne hut] at hu
      rw [hb.other u hut] at hs ⊢
      exact h.blocked o' u hu hs
  · intro o'
    have hclock : ∀ u ∈ s.k.list (.suspend o'), (s.took t o (k', s.sem o, none)).arrival u <
        (s.took t o (k', s.sem o, none)).arrival t := by
      intro u hu
      simp only [took, Function.update_self, harr o' u hu]
      exact (h.linked o' u hu).2
    simp only [took, hsem, hlist]
    split_ifs with ho'
    · subst ho'
      have hl := hold o'
      cases hf : (s.sem o').flag with
      | fifo =>
        rw [hf] at hl
        refine List.pairwise_append.mpr ⟨hl, by simp, fun a ha b hb' => ?_⟩
        obtain rfl : b = t := by simpa using hb'
        exact hclock a ha
      | prio =>
        rw [hf] at hl
        refine pairwise_orderedInsert (fun u => (s.k.thread u).currentPriority) ?_ hl ?_ ?_
        · intro a b hab
          simp only [Before, hprio] at hab
          omega
        · intro b _ hlt
          refine .inl ?_
          simpa only [took, hprio] using hlt
        · intro b hb' hle
          rcases Nat.lt_or_eq_of_le hle with hlt | heq
          · exact .inl (by simpa only [took, hprio] using hlt)
          · exact .inr ⟨by simpa only [took, hprio] using heq, hclock b hb'⟩
    · exact hold o'
  · intro o'
    refine (h.balance o').congr (fun u => ?_) rfl (by simp only [took, hsem])
    by_cases hut : u = t
    · subst hut
      constructor
      · rintro ⟨-, hs, -⟩
        simp [took, hb.stat, Stat.suspended] at hs
      · rintro ⟨hu, -⟩
        simp [hwt] at hu
    · exact granted_congr_of_eq (by simp [took, hut]) (hb.other u hut)

theorem Wf.setSem (h : s.Wf sem₀) (sem : Sem) (hf : sem.flag = (s.sem o).flag) (hb : sem.value ≤ rtSemValueMax)
    (he : 0 < sem.value → s.k.list (.suspend o) = []) (taken released : Oid → ℕ) :
    Wf sem₀ { s with sem := Function.update s.sem o sem, taken := taken, released := released } := by
  refine ⟨h.coherent, h.currentOk, fun o' => ?_, fun o' => ?_, fun o' hv => ?_, h.linked, h.blocked, fun o' => ?_⟩
  all_goals by_cases hoo : o' = o
  · subst hoo; simpa [hf] using h.flag o'
  · simpa [hoo] using h.flag o'
  · subst hoo; simpa using hb
  · simpa [hoo] using h.bound o'
  · subst hoo; exact he (by simpa using hv)
  · exact h.empty o' (by simpa [hoo] using hv)
  · subst hoo
    simp only [Function.update_self, hf]
    exact (h.order o').imp fun hab => before_congr hab (fun _ => rfl) rfl rfl
  · simp only [Function.update_of_ne hoo]
    exact (h.order o').imp fun hab => before_congr hab (fun _ => rfl) rfl rfl

theorem Inv.fast (h : s.Inv sem₀) (hv : 0 < (s.sem o).value) :
    Inv sem₀ (s.took t o (s.k, { s.sem o with value := (s.sem o).value - 1 }, some .eok)) := by
  have hbound := h.bound o
  refine ⟨h.toWf.setSem ⟨(s.sem o).value - 1, (s.sem o).flag⟩ rfl ?_ (fun _ => h.empty o hv) _ _, fun o' => ?_⟩
  · simp only
    omega
  · refine (h.balance o').congr (fun u => granted_congr_of_eq rfl rfl) rfl ?_
    by_cases hoo : o' = o
    · subst hoo
      simp only [took, Function.update_self, bump_eok]
      omega
    · simp [took, hoo]

theorem took_error {ret : Err} (hr : ret ≠ .eok) (k : Kernel) :
    s.took t o (k, s.sem o, some ret) = { s with k := k } := by
  simp [took, bump_of_error hr]

theorem Inv.take (h : s.Inv sem₀) {time : ℤ} {sf : SuspendFlag} (hwt : s.waiting t = none ∨ time = 0)
    (hrun : (s.k.thread t).stat = .running ∨ time = 0) :
    Inv sem₀ (s.took t o (rtSemTake s.k (s.sem o) o t time sf)) := by
  by_cases ht : time = 0
  · by_cases hv : 0 < (s.sem o).value
    · simp only [rtSemTake, hv, if_true]
      exact h.fast hv
    · simp only [rtSemTake, hv, ht, if_true, if_false]
      rw [took_error (by simp)]
      exact h
  have hwt' := hwt.resolve_right ht
  rcases rtSemTake_cases (o := o) (s.sem o) sf h.coherent h.currentOk hrun with
    ⟨hv, he⟩ | ⟨ret, hret, he⟩ | ⟨hr, he⟩ | ⟨hv, k', he, hc, ho, hb⟩
  · rw [he]
    exact h.fast hv
  · rw [he, took_error hret]
    exact h
  · rw [he, took_error (by simp)]
    refine h.frame (h.coherent.setThread ⟨rfl, rfl, rfl, rfl, rfl, rfl⟩) (h.currentOk.setThread rfl)
      (fun _ => rfl) (fun u => ?_) fun u o' hu => ?_
    · by_cases hut : u = t
      · subst hut; simp
      · simp [hut]
    · have hut : u ≠ t := by
        rintro rfl
        simp [hwt'] at hu
      simp [hut]
  · rw [he]
    exact h.blocks hwt' hv hc ho hb

theorem Inv.handover (h : s.Inv sem₀) {l : List Tid} (hl : s.k.list (.suspend o) = t :: l) :
    Inv sem₀ { s with k := s.k.rtIpcListResume (.suspend o), sem := Function.update s.sem o (s.sem o)
                      released := bump s.released o .eok } ∧
      Granted { s with k := s.k.rtIpcListResume (.suspend o), sem := Function.update s.sem o (s.sem o)
                       released := bump s.released o .eok } o t := by
  have hmem : t ∈ s.k.list (.suspend o) := by simp [hl]
  have hsus := h.coherent.waits t _ hmem (by simp)
  have hw := wakes_listResume hl hsus
  have hwt := (h.linked o t hmem).1
  obtain ⟨hc, ho⟩ := listResume_invariant (h := .suspend o) h.coherent h.currentOk
  set k' := s.k.rtIpcListResume (.suspend o)
  have hsem : Function.update s.sem o (s.sem o) = s.sem := Function.update_eq_self _ _
  simp only [hsem]
  have hgranted : Granted { s with k := k', released := bump s.released o .eok } o t :=
    ⟨hwt, hw.runnable.suspended, hw.same.error⟩
  refine ⟨⟨h.toWf.wakes hc ho hw _, fun o' => ?_⟩, hgranted⟩
  have hsame : ∀ u, u ≠ t ∨ o' ≠ o →
      (Granted { s with k := k', released := bump s.released o .eok } o' u ↔ s.Granted o' u) := by
    intro u hu
    by_cases hut : u = t
    · subst hut
      have hoo := hu.resolve_left (by simp)
      constructor
      · rintro ⟨h0, -⟩
        exact absurd (Option.some.inj (h0.symm.trans hwt)) hoo
      · rintro ⟨h0, -⟩
        exact absurd (Option.some.inj (h0.symm.trans hwt)) hoo
    · exact granted_congr_of_eq rfl (hw.other u hut)
  by_cases hoo : o' = o
  · subst hoo
    obtain ⟨g, hg, hm, he⟩ := h.balance o'
    have htg : t ∉ g := by
      intro htg
      have := ((hm t).mp htg).2.1
      simp [hsus] at this
    refine ⟨t :: g, List.nodup_cons.mpr ⟨htg, hg⟩, fun u => ?_, ?_⟩
    · by_cases hut : u = t
      · subst hut
        simpa using hgranted
      · rw [List.mem_cons, hsame u (.inl hut), ← hm u]
        simp [hut]
    · simp only [bump_eok, List.length_cons]
      omega
  · refine (h.balance o').congr (fun u => hsame u (.inr hoo)) ?_ rfl
    simp [hoo]

theorem Inv.release (h : s.Inv sem₀) (hs : s.step (.release o) = some s') : s'.Inv sem₀ := by
  obtain rfl := Option.some.inj hs
  by_cases hl : s.k.list (.suspend o) = []
  · by_cases hv : (s.sem o).value < rtSemValueMax
    · simp only [rtSemRelease, hl, ne_eq, not_true_eq_false, if_false, hv, if_true]
      refine ⟨h.toWf.setSem ⟨(s.sem o).value + 1, (s.sem o).flag⟩ rfl hv (fun _ => hl) _ _, fun o' => ?_⟩
      by_cases hoo : o' = o
      · subst hoo
        obtain ⟨g, hg, hm, he⟩ := h.balance o'
        refine ⟨g, hg, hm, ?_⟩
        simp only [bump_eok, Function.update_self]
        omega
      · refine (h.balance o').congr (fun u => Iff.rfl) ?_ ?_
        · simp [hoo]
        · simp [hoo]
    · simp only [rtSemRelease, hl, ne_eq, not_true_eq_false, if_false, hv, Function.update_eq_self]
      rw [bump_of_error (by simp)]
      exact h
  · obtain ⟨t, l, hl'⟩ := List.exists_cons_of_ne_nil hl
    simp only [rtSemRelease, ne_eq, hl, not_false_eq_true, if_true]
    exact (h.handover hl').1

theorem Inv.ret (h : s.Inv sem₀) (hs : s.step (.ret t) = some s') : s'.Inv sem₀ := by
  simp only [step] at hs
  split at hs
  · simp at hs
  rename_i o hwt
  simp only [Option.ite_none_right_eq_some, Option.some.injEq] at hs
  obtain ⟨⟨-, hrun⟩, rfl⟩ := hs
  have hsus : (s.k.thread t).stat.suspended = false := by simp [hrun, Stat.suspended]
  have hout := h.coherent.not_linked (t := t) (by simp [hrun]) hsus
  refine ⟨⟨h.coherent, h.currentOk, h.flag, h.bound, h.empty, fun o' u hu => ?_, fun o' u hu => ?_, fun o' => ?_⟩,
    fun o' => ?_⟩
  · have hut : u ≠ t := by
      rintro rfl
      exact hout _ hu
    simpa [hut] using h.linked o' u hu
  · have hut : u ≠ t := by
      rintro rfl
      simp at hu
    exact h.blocked o' u (by simpa [hut] using hu)
  · refine (h.order o').imp fun hb => ?_
    exact before_congr hb (fun _ => rfl) rfl rfl
  · obtain ⟨g, hg, hm, he⟩ := h.balance o'
    by_cases hgr : o' = o ∧ (s.k.thread t).error = .eok
    · obtain ⟨rfl, herr⟩ := hgr
      have htg : t ∈ g := (hm t).mpr ⟨hwt, hsus, herr⟩
      have hlen := List.length_pos_of_mem htg
      refine ⟨g.erase t, hg.erase t, fun u => ?_, ?_⟩
      · rw [hg.mem_erase_iff, hm u]
        by_cases hut : u = t
        · subst hut
          simp [Granted]
        · simp [Granted, hut]
      · simp only [List.length_erase_of_mem htg, herr, bump_eok]
        omega
    · refine ⟨g, hg, fun u => ?_, ?_⟩
      · rw [hm u]
        by_cases hut : u = t
        · subst hut
          simp only [Granted, Function.update_self, hwt, Option.some.injEq, reduceCtorEq, false_and, iff_false]
          rintro ⟨rfl, -, herr⟩
          exact hgr ⟨rfl, herr⟩
        · simp [Granted, hut]
      · have htaken : bump s.taken o (s.k.thread t).error o' = s.taken o' := by
          by_cases hoo : o' = o
          · rw [bump_of_error fun herr => hgr ⟨hoo, herr⟩]
          · exact bump_of_ne _ hoo
        simp only [htaken]
        exact he

theorem Inv.step (h : s.Inv sem₀) {e : Event} (hs : s.step e = some s') : s'.Inv sem₀ := by
  cases e with
  | take t o time sf =>
    simp only [SemSys.step, Option.ite_none_right_eq_some, Option.some.injEq] at hs
    obtain ⟨⟨hr, hwt⟩, rfl⟩ := hs
    exact h.take (.inl hwt) (.inl hr.2)
  | trytake t o =>
    obtain rfl := Option.some.inj hs
    exact h.take (.inr rfl) (.inr rfl)
  | ret t => exact h.ret hs
  | release o => exact h.release hs
  | kernel e =>
    simp only [SemSys.step, Option.map_eq_some_iff] at hs
    obtain ⟨k', hk, rfl⟩ := hs
    exact h.kernel hk

theorem inv_init {k₀ : Kernel} (hq : k₀.Quiet) (hv : ∀ o, (sem₀ o).value < 0x10000) :
    (init k₀ sem₀).Inv sem₀ := by
  have hempty : ∀ o, k₀.list (.suspend o) = [] := fun o => hq.empty _ rfl
  refine ⟨⟨hq.coherent, hq.currentOk, fun _ => rfl, fun o => ?_, fun o _ => hempty o, fun o t ht => ?_,
    by simp [init], fun o => ?_⟩, fun o => ⟨[], List.nodup_nil, ?_, ?_⟩⟩
  · have := hv o
    simp only [init, rtSemValueMax]
    omega
  · simp [init, hempty] at ht
  · simp [init, hempty]
  · simp [Granted, init]
  · simp [init]

end steps

theorem semaphore_conserved {k₀ : Kernel} (hq : k₀.Quiet) (sem₀ : Oid → Sem)
    (hv : ∀ o, (sem₀ o).value < 0x10000) (es : List Event) (s : SemSys)
    (h : run step (init k₀ sem₀) es = some s) (o : Oid) :
    (0 < (s.sem o).value → s.k.list (.suspend o) = []) ∧ (s.sem o).value ≤ rtSemValueMax ∧
    s.Balanced o (sem₀ o).value ∧
    (∀ t l, s.k.list (.suspend o) = t :: l → (∀ u ∈ l, s.Before (sem₀ o).flag t u) ∧
      ∃ s', s.step (.release o) = some s' ∧ s'.Granted o t ∧ s'.k.list (.suspend o) = l ∧
        ∀ u, u ≠ t → s'.k.thread u = s.k.thread u) ∧
    ((rtSemRelease s.k (s.sem o) o).2.2 = .efull → s.step (.release o) = some s) := by
  have hi : s.Inv sem₀ := run_invariant (Inv sem₀) (fun _ _ _ hi hs => hi.step hs) h (inv_init hq hv)
  refine ⟨hi.empty o, hi.bound o, hi.balance o, fun t l hl => ⟨?_, ?_⟩, fun hfull => ?_⟩
  · have hord := hi.order o
    rw [hl, hi.flag o] at hord
    exact (List.pairwise_cons.mp hord).1
  · have hsus := hi.coherent.waits t (.suspend o) (by simp [hl]) (by simp)
    have hw := wakes_listResume hl hsus
    refine ⟨_, rfl, ?_, ?_, ?_⟩
    · simpa [rtSemRelease, hl] using (hi.handover hl).2
    · simp [rtSemRelease, hl, hw.suspendList]
    · intro u hu
      simpa [rtSemRelease, hl] using hw.other u hu
  · by_cases hl : s.k.list (.suspend o) = []
    · by_cases hv' : (s.sem o).value < rtSemValueMax
      · simp [rtSemRelease, hl, hv'] at hfull
      · simp [step, rtSemRelease, hl, hv', bump]
    · simp [rtSemRelease, hl] at hfull

/-- A thread waits with a timeout and is served, a second one times out. -/
theorem semaphore_conserved_example :
    ∃ s, run step (init (started 32 (fun t => t % 32) [3, 4, 5]) fun _ => ⟨0, .prio⟩)
      [.take 3 0 10 .interruptible, .kernel .schedule, .take 4 0 5 .uninterruptible, .kernel .schedule, .release 0,
        .kernel .schedule, .ret 3, .kernel (.timeout 4), .release 0] = some s ∧
      (0 < (s.sem 0).value → s.k.list (.suspend 0) = []) ∧ s.Balanced 0 0 := by
  have hrun : (run step (init (started 32 (fun t => t % 32) [3, 4, 5]) fun _ => ⟨0, .prio⟩)
      [.take 3 0 10 .interruptible, .kernel .schedule, .take 4 0 5 .uninterruptible, .kernel .schedule, .release 0,
        .kernel .schedule, .ret 3, .kernel (.timeout 4), .release 0]).isSome = true := by decide
  obtain ⟨s, hs⟩ := Option.isSome_iff_exists.mp hrun
  have hq := started_quiet (n := 32) (by decide) (fun t => Nat.mod_lt t (by decide)) [3, 4, 5]
  have hcon := semaphore_conserved hq _ (fun _ => by decide) _ s hs 0
  exact ⟨s, hs, hcon.1, hcon.2.2.1⟩

end SemSys

end RtSmart
