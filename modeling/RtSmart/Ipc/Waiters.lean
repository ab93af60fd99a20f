import RtSmart.Ipc.WaitList

/-!
Threads that wait in a call of an object function, with the list on which each of them waits, and
the wake-ups that are still under way: threads resumed by the object that have not run again.
-/

namespace RtSmart

open Lib

namespace Kernel

structure Waiting (k : Kernel) (on : Tid → Option ListHead) : Prop where
  coherent : k.Coherent none
  currentOk : k.CurrentOk
  isWait : ∀ h t, on t = some h → h.isWait = true
  linked : ∀ h t, h.isWait = true → t ∈ k.list h → on t = some h
  queued : ∀ h t, on t = some h → (k.thread t).stat.suspended = true → t ∈ k.list h
  blocked : ∀ h t, on t = some h → (k.thread t).stat.suspended = true → (k.thread t).error ≠ .eok

def Woken (k : Kernel) (on : Tid → Option ListHead) (h : ListHead) (t : Tid) : Prop :=
  on t = some h ∧ (k.thread t).stat.suspended = false ∧ (k.thread t).error = .eok

/-- While threads wait on `h`, at least `n` others have been woken for it and have not run. -/
def Covered (k : Kernel) (on : Tid → Option ListHead) (h : ListHead) (n : ℕ) : Prop :=
  k.list h ≠ [] → ∃ l : List Tid, l.Nodup ∧ (∀ t ∈ l, k.Woken on h t) ∧ l.length = n

variable {k k' : Kernel} {on : Tid → Option ListHead} {t : Tid} {h h' : ListHead} {n m : ℕ}

theorem covered_zero : k.Covered on h 0 := fun _ => ⟨[], List.nodup_nil, by simp, rfl⟩

theorem covered_nil (hl : k.list h = []) : k.Covered on h n := fun hne => absurd hl hne

theorem Covered.mono (hc : k.Covered on h n) (hm : m ≤ n) : k.Covered on h m := by
  intro hne
  obtain ⟨l, hl, hw, hn⟩ := hc hne
  refine ⟨l.take m, hl.sublist (List.take_sublist m l), fun t ht => hw t (List.mem_of_mem_take ht), ?_⟩
  rw [List.length_take, hn]
  omega

theorem Covered.imp {on' : Tid → Option ListHead} (hc : k.Covered on h n) (hl : k.list h = [] → k'.list h = [])
    (hw : ∀ t, k.Woken on h t → k'.Woken on' h t) : k'.Covered on' h n := by
  intro hne
  obtain ⟨l, hnd, hl', hn⟩ := hc (mt hl hne)
  exact ⟨l, hnd, fun t ht => hw t (hl' t ht), hn⟩

theorem Resched.suspended (hr : Resched k k') (t : Tid) :
    (k'.thread t).stat.suspended = (k.thread t).stat.suspended := by
  rcases hr.stat t with he | ⟨h1, h2⟩
  · rw [he]
  · rw [h1.suspended, h2.suspended]

theorem Covered.resched (hc : k.Covered on h n) (hr : Resched k k') (hw : h.isWait = true) :
    k'.Covered on h n := by
  apply hc.imp
  · rw [hr.list h hw]
    exact id
  · rintro t ⟨h1, h2, h3⟩
    exact ⟨h1, by rw [hr.suspended, h2], by rw [(hr.same t).error, h3]⟩

theorem Woken.wakes {e : Err} {u : Tid} (hu : k.Woken on h u) (hwk : Wakes k k' t e) : u ≠ t ∧ k'.Woken on h u := by
  obtain ⟨h1, h2, h3⟩ := hu
  have hut : u ≠ t := by
    rintro rfl
    simp [hwk.suspended] at h2
  exact ⟨hut, h1, by rw [hwk.other u hut, h2], by rw [hwk.other u hut, h3]⟩

theorem Covered.wakes {e : Err} (hc : k.Covered on h n) (hwk : Wakes k k' t e) (hw : h.isWait = true) :
    k'.Covered on h n := by
  apply hc.imp
  · intro he
    rw [hwk.list h hw, he, List.erase_nil]
  · exact fun u hu => (hu.wakes hwk).2

theorem Covered.resume (hc : k.Covered on h n) (hwk : Wakes k k' t .eok) (ht : t ∈ k.list h)
    (hon : on t = some h) : k'.Covered on h (n + 1) := by
  intro _
  obtain ⟨l, hl, hwo, hn⟩ := hc (List.ne_nil_of_mem ht)
  have htl : t ∉ l := fun hmem => ((hwo t hmem).wakes hwk).1 rfl
  refine ⟨t :: l, List.nodup_cons.mpr ⟨htl, hl⟩, fun u hu => ?_, by simp [hn]⟩
  rcases List.mem_cons.mp hu with rfl | hu
  · exact ⟨hon, hwk.runnable.suspended, hwk.same.error⟩
  · exact ((hwo u hu).wakes hwk).2

-- a thread that blocks was either in no call or had been woken on the same list
theorem Covered.blocks {flag : IpcFlag} {sf : SuspendFlag} (hc : k.Covered on h' n) (hb : Blocks k k' t h flag sf)
    (hw : h'.isWait = true) (hne : h' ≠ h) (hon : on t = none ∨ on t = some h) :
    k'.Covered (Function.update on t (some h)) h' n := by
  apply hc.imp
  · intro he
    rw [hb.list h' hw, if_neg hne, he]
  · rintro u ⟨h1, h2, h3⟩
    have hut : u ≠ t := by
      rintro rfl
      rcases hon with h0 | h0
      · simp [h0] at h1
      · exact hne (Option.some.inj (h1.symm.trans h0))
    exact ⟨by rwa [Function.update_of_ne hut], by rw [hb.other u hut, h2], by rw [hb.other u hut, h3]⟩

theorem Covered.leave_of_not (hc : k.Covered on h n) (hnw : ¬ k.Woken on h t) :
    k.Covered (Function.update on t none) h n := by
  refine hc.imp id fun u hu => ?_
  have hut : u ≠ t := by
    rintro rfl
    exact hnw hu
  exact ⟨by rw [Function.update_of_ne hut, hu.1], hu.2⟩

theorem Covered.leave (hc : k.Covered on h n) (t : Tid) : k.Covered (Function.update on t none) h (n - 1) := by
  intro hne
  obtain ⟨l, hl, hwo, hn⟩ := hc hne
  have hlen : n - 1 ≤ (l.erase t).length := by
    rw [List.length_erase, hn]
    split_ifs <;> omega
  have hcov : k.Covered (Function.update on t none) h (l.erase t).length := by
    refine fun _ => ⟨l.erase t, hl.erase t, fun u hu => ?_, rfl⟩
    obtain ⟨hut, hul⟩ := hl.mem_erase_iff.mp hu
    exact ⟨by rw [Function.update_of_ne hut, (hwo u hul).1], (hwo u hul).2⟩
  exact hcov.mono hlen hne

theorem Covered.setThread {f : Thread → Thread} (hc : k.Covered on h n) (hon : on t ≠ some h) :
    (k.setThread t f).Covered on h n := by
  refine hc.imp id fun u hu => ?_
  have hut : u ≠ t := by
    rintro rfl
    exact hon hu.1
  exact ⟨hu.1, by simpa [hut] using hu.2⟩

theorem Waiting.resched (hi : k.Waiting on) (hr : Resched k k') (hc : k'.Coherent none) (ho : k'.CurrentOk) :
    k'.Waiting on where
  coherent := hc
  currentOk := ho
  isWait := hi.isWait
  linked h t hw ht := hi.linked h t hw (by rwa [hr.list h hw] at ht)
  queued h t hon hs := by
    rw [hr.suspended] at hs
    rw [hr.list h (hi.isWait h t hon)]
    exact hi.queued h t hon hs
  blocked h t hon hs := by
    rw [(hr.same t).error]
    exact hi.blocked h t hon (by rwa [hr.suspended] at hs)

theorem Waiting.wakes {e : Err} (hi : k.Waiting on) (hwk : Wakes k k' t e) (hc : k'.Coherent none)
    (ho : k'.CurrentOk) : k'.Waiting on where
  coherent := hc
  currentOk := ho
  isWait := hi.isWait
  linked h u hw hu := hi.linked h u hw (List.mem_of_mem_erase (by rwa [hwk.list h hw] at hu))
  queued h u hon hs := by
    have hut : u ≠ t := by
      rintro rfl
      simp [hwk.runnable.suspended] at hs
    rw [hwk.list h (hi.isWait h u hon), List.mem_erase_of_ne hut]
    exact hi.queued h u hon (by rwa [hwk.other u hut] at hs)
  blocked h u hon hs := by
    have hut : u ≠ t := by
      rintro rfl
      simp [hwk.runnable.suspended] at hs
    rw [hwk.other u hut] at hs ⊢
    exact hi.blocked h u hon hs

theorem Waiting.kernel (hi : k.Waiting on) {e : KernelEvent} (hs : k.kernelStep e = some k') : k'.Waiting on := by
  obtain ⟨hc, ho⟩ := kernelStep_invariant hi.coherent hi.currentOk hs
  rcases kernelStep_cases hi.coherent hi.currentOk hs with hr | ⟨t, err, hw, -⟩
  · exact hi.resched hr hc ho
  · exact hi.wakes hw hc ho

theorem Covered.kernel (hcov : k.Covered on h n) (hi : k.Waiting on) (hw : h.isWait = true) {e : KernelEvent}
    (hs : k.kernelStep e = some k') : k'.Covered on h n := by
  rcases kernelStep_cases hi.coherent hi.currentOk hs with hr | ⟨t, err, hwk, -⟩
  · exact hcov.resched hr hw
  · exact hcov.wakes hwk hw

theorem Waiting.listResume (hi : k.Waiting on) {l : List Tid} (hl : k.list h = t :: l) (hw : h.isWait = true) :
    (k.rtIpcListResume h).Waiting on ∧ Wakes k (k.rtIpcListResume h) t .eok ∧ on t = some h := by
  have ht : t ∈ k.list h := by simp [hl]
  have hsus := hi.coherent.waits t h ht (by cases h <;> simp_all [ListHead.isWait])
  have hwk := wakes_listResume hl hsus
  obtain ⟨hc, ho⟩ := listResume_invariant (h := h) hi.coherent hi.currentOk
  exact ⟨hi.wakes hwk hc ho, hwk, hi.linked h t hw ht⟩

theorem Waiting.resume (hi : k.Waiting on) (hcov : k.Covered on h n) (hw : h.isWait = true) :
    (k.rtIpcListResume h).Waiting on ∧ (k.rtIpcListResume h).Covered on h (n + 1) ∧
      ∀ h' m, h'.isWait = true → k.Covered on h' m → (k.rtIpcListResume h).Covered on h' m := by
  cases hl : k.list h with
  | nil =>
    have he : k.rtIpcListResume h = k := by simp only [rtIpcListResume, hl]
    rw [he]
    exact ⟨hi, covered_nil hl, fun _ _ _ hm => hm⟩
  | cons t l =>
    obtain ⟨h1, hwk, hon⟩ := hi.listResume hl hw
    exact ⟨h1, hcov.resume hwk (by simp [hl]) hon, fun h' m hw' hm => hm.wakes hwk hw'⟩

theorem Waiting.blocks {flag : IpcFlag} {sf : SuspendFlag} (hi : k.Waiting on) (hb : Blocks k k' t h flag sf)
    (hw : h.isWait = true) (hrun : (k.thread t).stat = .running) (hc : k'.Coherent none) (ho : k'.CurrentOk) :
    k'.Waiting (Function.update on t (some h)) := by
  have hout := hi.coherent.not_linked (t := t) (by simp [hrun]) (by simp [hrun, Stat.suspended])
  refine ⟨hc, ho, fun h' u hu => ?_, fun h' u hw' hu => ?_, fun h' u hon hs => ?_, fun h' u hon hs => ?_⟩
  · by_cases hut : u = t
    · subst hut
      simp only [Function.update_self, Option.some.injEq] at hu
      rwa [← hu]
    · exact hi.isWait h' u (by rwa [Function.update_of_ne hut] at hu)
  · by_cases hut : u = t
    · subst hut
      rw [Function.update_self]
      rw [hb.list h' hw'] at hu
      split_ifs at hu with he
      · rw [he]
      · exact absurd hu (hout h')
    · rw [Function.update_of_ne hut]
      rw [hb.list h' hw'] at hu
      split_ifs at hu with he
      · subst he
        exact hi.linked h' u hw' ((mem_enqueue.mp hu).resolve_left hut)
      · exact hi.linked h' u hw' hu
  · by_cases hut : u = t
    · subst hut
      obtain rfl : h = h' := by simpa using hon
      rw [hb.list h hw, if_pos rfl]
      exact mem_enqueue.mpr (.inl rfl)
    · rw [Function.update_of_ne hut] at hon
      have hu := hi.queued h' u hon (by rwa [hb.other u hut] at hs)
      rw [hb.list h' (hi.isWait h' u hon)]
      split_ifs with he
      · subst he
        exact mem_enqueue.mpr (.inr hu)
      · exact hu
  · by_cases hut : u = t
    · subst hut
      simp [hb.same.error]
    · rw [hb.other u hut] at hs ⊢
      exact hi.blocked h' u (by rwa [Function.update_of_ne hut] at hon) hs

theorem Waiting.leave (hi : k.Waiting on) (hrun : (k.thread t).stat = .running) :
    k.Waiting (Function.update on t none) := by
  have hout := hi.coherent.not_linked (t := t) (by simp [hrun]) (by simp [hrun, Stat.suspended])
  have hne : ∀ h' u, Function.update on t none u = some h' → u ≠ t := by
    rintro h' u hu rfl
    simp at hu
  refine ⟨hi.coherent, hi.currentOk, fun h' u hu => ?_, fun h' u hw hu => ?_, fun h' u hon => ?_, fun h' u hon => ?_⟩
  · exact hi.isWait h' u (by rwa [Function.update_of_ne (hne h' u hu)] at hu)
  · have hut : u ≠ t := by
      rintro rfl
      exact hout h' hu
    rw [Function.update_of_ne hut]
    exact hi.linked h' u hw hu
  · exact hi.queued h' u (by rwa [Function.update_of_ne (hne h' u hon)] at hon)
  · exact hi.blocked h' u (by rwa [Function.update_of_ne (hne h' u hon)] at hon)

theorem Waiting.setError (hi : k.Waiting on) (hrun : (k.thread t).stat = .running) (e : Err) :
    (k.setThread t fun th => { th with error := e }).Waiting on := by
  have hstat : ∀ u, ((k.setThread t fun th => { th with error := e }).thread u).stat = (k.thread u).stat := by
    intro u
    by_cases hut : u = t
    · subst hut
      simp
    · simp [hut]
  refine ⟨hi.coherent.setThread ⟨rfl, rfl, rfl, rfl, rfl, rfl⟩, hi.currentOk.setThread rfl, hi.isWait, hi.linked,
    fun h' u hon hs => ?_, fun h' u hon hs => ?_⟩
  · rw [hstat] at hs
    exact hi.queued h' u hon hs
  · rw [hstat] at hs
    have hut : u ≠ t := by
      rintro rfl
      simp [hrun, Stat.suspended] at hs
    simpa [hut] using hi.blocked h' u hon hs

theorem Quiet.waiting (hq : k.Quiet) : k.Waiting fun _ => none where
  coherent := hq.coherent
  currentOk := hq.currentOk
  isWait h t hon := by simp at hon
  linked h t hw ht := by simp [hq.empty h hw] at ht
  queued h t hon := by simp at hon
  blocked h t hon := by simp at hon

end Kernel

end RtSmart
