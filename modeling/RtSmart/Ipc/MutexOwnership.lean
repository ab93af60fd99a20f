import RtSmart.Ipc.MutexFrame

namespace RtSmart

open Lib Kernel MutexState

namespace MutexSys

/-- Owner, hold count and the threads inside `_rt_mutex_take` agree. -/
structure Owns (s : MutexSys) : Prop where
  coherent : s.k.Coherent none
  currentOk : s.k.CurrentOk
  ceiling : ∀ m, (s.mutex m).ceilingPriority ≠ 0xff → (s.mutex m).ceilingPriority < s.k.priorityMax
  linked : ∀ m t, t ∈ s.k.list (.suspend m) → ∃ sf, s.waiting t = some (m, sf)
  pending : ∀ t m, (s.k.thread t).pendingObject = some m →
    (∃ sf, s.waiting t = some (m, sf)) ∧ (s.k.thread t).error ≠ .eok
  granted : ∀ t m sf, s.waiting t = some (m, sf) →
    ((s.mutex m).owner = some t ↔ (s.k.thread t).stat.suspended = false ∧ (s.k.thread t).error = .eok)
  blocked : ∀ t m sf, s.waiting t = some (m, sf) → (s.k.thread t).stat.suspended = true →
    (s.k.thread t).error ≠ .eok ∧ (s.k.thread t).pendingObject = some m
  free : ∀ m, (s.mutex m).owner = none ↔ (s.mutex m).hold = 0
  bound : ∀ m, (s.mutex m).hold ≤ rtMutexHoldMax
  count : ∀ m t, s.acquired m t = s.released m t + if (s.mutex m).owner = some t then (s.mutex m).hold else 0

section steps

variable {s s' : MutexSys} {t : Tid} {m : Oid}

theorem bump_self (f : Oid → Tid → ℕ) (m : Oid) (t : Tid) : bump f m t m t = f m t + 1 := by simp [bump]

theorem bump_of_ne (f : Oid → Tid → ℕ) {m m' : Oid} {t u : Tid} (h : m' ≠ m ∨ u ≠ t) : bump f m t m' u = f m' u := by
  by_cases hm : m' = m
  · subst hm
    simp [bump, h.resolve_left (by simp)]
  · simp [bump, hm]

theorem Owns.frame (h : s.Owns) {st : MutexState} (hf : Frame s.toMutexState st) :
    Owns { s with toMutexState := st } where
  coherent := hf.coherent
  currentOk := hf.currentOk
  ceiling m hm := by
    rw [hf.ceilingPriority m] at hm ⊢
    rw [hf.priorityMax]
    exact h.ceiling m hm
  linked m u hu := h.linked m u ((hf.list _ rfl).subset hu)
  pending u m hu := by
    rw [hf.pendingObject u] at hu
    rw [hf.error u]
    exact h.pending u m hu
  granted u m sf hu := by
    rw [hf.owner m, hf.stat u, hf.error u]
    exact h.granted u m sf hu
  blocked u m sf hu hs := by
    rw [hf.stat u] at hs
    rw [hf.error u, hf.pendingObject u]
    exact h.blocked u m sf hu hs
  free m := by
    rw [hf.owner m, hf.hold m]
    exact h.free m
  bound m := by
    rw [hf.hold m]
    exact h.bound m
  count m u := by
    rw [hf.owner m, hf.hold m]
    exact h.count m u

theorem Owns.sameThreads (h : s.Owns) {k' : Kernel} (hc : k'.Coherent none) (ho : k'.CurrentOk)
    (hmax : k'.priorityMax = s.k.priorityMax)
    (hl : ∀ m, k'.list (.suspend m) = s.k.list (.suspend m))
    (hp : ∀ u, (k'.thread u).pendingObject = (s.k.thread u).pendingObject)
    (hw : ∀ u m sf, s.waiting u = some (m, sf) → (k'.thread u).stat.suspended = (s.k.thread u).stat.suspended ∧
      (k'.thread u).error = (s.k.thread u).error) : Owns { s with k := k' } where
  coherent := hc
  currentOk := ho
  ceiling m hm := by
    rw [hmax]
    exact h.ceiling m hm
  linked m u hu := h.linked m u (by rwa [hl] at hu)
  pending u m hu := by
    rw [hp] at hu
    obtain ⟨⟨sf, h1⟩, h2⟩ := h.pending u m hu
    exact ⟨⟨sf, h1⟩, by rwa [(hw u m sf h1).2]⟩
  granted u m sf hu := by
    rw [(hw u m sf hu).1, (hw u m sf hu).2]
    exact h.granted u m sf hu
  blocked u m sf hu hs := by
    rw [(hw u m sf hu).1] at hs
    rw [(hw u m sf hu).2, hp]
    exact h.blocked u m sf hu hs
  free := h.free
  bound := h.bound
  count := h.count

theorem Owns.wakes (h : s.Owns) {k' : Kernel} (hc : k'.Coherent none) (ho : k'.CurrentOk) {err : Err}
    (hw : Wakes s.k k' t err) (he : ∀ m sf, s.waiting t = some (m, sf) → err ≠ .eok) : Owns { s with k := k' } where
  coherent := hc
  currentOk := ho
  ceiling m hm := by
    rw [hw.priorityMax]
    exact h.ceiling m hm
  linked m u hu := by
    rw [hw.suspendList] at hu
    exact h.linked m u (List.mem_of_mem_erase hu)
  pending u m hu := by
    by_cases hut : u = t
    · subst hut
      rw [hw.same.pendingObject] at hu
      obtain ⟨⟨sf, h1⟩, -⟩ := h.pending u m hu
      exact ⟨⟨sf, h1⟩, by rw [hw.same.error]; exact he m sf h1⟩
    · rw [hw.other u hut] at hu ⊢
      exact h.pending u m hu
  granted u m sf hu := by
    by_cases hut : u = t
    · subst hut
      rw [h.granted u m sf hu, hw.same.error]
      simp [hw.suspended, he m sf hu]
    · rw [hw.other u hut]
      exact h.granted u m sf hu
  blocked u m sf hu hs := by
    have hut : u ≠ t := by
      rintro rfl
      simp [hw.runnable.suspended] at hs
    rw [hw.other u hut] at hs ⊢
    exact h.blocked u m sf hu hs
  free := h.free
  bound := h.bound
  count := h.count

theorem Owns.kernel (h : s.Owns) {e : KernelEvent} {k' : Kernel} (hs : s.k.kernelStep e = some k') :
    Owns { s with k := k' } := by
  obtain ⟨hc, ho⟩ := kernelStep_invariant h.coherent h.currentOk hs
  rcases kernelStep_cases h.coherent h.currentOk hs with hr | ⟨t, err, hw, herr⟩
  · refine h.sameThreads hc ho hr.priorityMax (fun m => hr.list _ rfl) (fun u => (hr.same u).pendingObject) fun u m sf _ => ?_
    refine ⟨?_, (hr.same u).error⟩
    rcases hr.stat u with he | ⟨h1, h2⟩
    · rw [he]
    · rw [h1.suspended, h2.suspended]
  · refine h.wakes hc ho hw fun m sf hwt => ?_
    rcases herr with rfl | rfl
    · exact (h.blocked t m sf hwt hw.suspended).1
    · simp

theorem Owns.setThread (h : s.Owns) (hwt : s.waiting t = none) {f : Thread → Thread}
    (hf : (f (s.k.thread t)).SameSched (s.k.thread t))
    (hp : (f (s.k.thread t)).pendingObject = (s.k.thread t).pendingObject) :
    Owns { s with k := s.k.setThread t f } := by
  refine h.sameThreads (h.coherent.setThread hf) (h.currentOk.setThread hf.stat) rfl (fun _ => rfl) (fun u => ?_)
    fun u m sf hu => ?_
  · by_cases hut : u = t
    · subst hut; simpa using hp
    · simp [hut]
  · have hut : u ≠ t := by
      rintro rfl
      simp [hwt] at hu
    simp [hut]

theorem Owns.setMutex (h : s.Owns) (f : Mutex → Mutex) (acquired released : Oid → Tid → ℕ)
    (hceil : (f (s.mutex m)).ceilingPriority = (s.mutex m).ceilingPriority)
    (hgr : ∀ u sf, s.waiting u = some (m, sf) → ((f (s.mutex m)).owner = some u ↔ (s.mutex m).owner = some u))
    (hfree : (f (s.mutex m)).owner = none ↔ (f (s.mutex m)).hold = 0) (hb : (f (s.mutex m)).hold ≤ rtMutexHoldMax)
    (hcount : ∀ u, acquired m u = released m u +
      if (f (s.mutex m)).owner = some u then (f (s.mutex m)).hold else 0)
    (hrest : ∀ m' u, m' ≠ m → acquired m' u = s.acquired m' u ∧ released m' u = s.released m' u)
    (taken : Tid → List Oid) :
    Owns { s with toMutexState := { s.toMutexState.setMutex m f with taken := taken }
                  acquired := acquired, released := released } := by
  refine ⟨h.coherent, h.currentOk, fun m' hm => ?_, h.linked, h.pending, fun u m' sf hu => ?_, h.blocked,
    fun m' => ?_, fun m' => ?_, fun m' u => ?_⟩
  all_goals by_cases hmm : m' = m
  · subst hmm
    simp only [setMutex_mutex_self, hceil] at hm ⊢
    exact h.ceiling m' hm
  · simp only [setMutex_mutex_of_ne _ _ hmm] at hm ⊢
    exact h.ceiling m' hm
  · subst hmm
    simp only [setMutex_mutex_self]
    exact (hgr u sf hu).trans (h.granted u m' sf hu)
  · simp only [setMutex_mutex_of_ne _ _ hmm]
    exact h.granted u m' sf hu
  · subst hmm; simpa using hfree
  · simpa [hmm] using h.free m'
  · subst hmm; simpa using hb
  · simpa [hmm] using h.bound m'
  · subst hmm; simpa using hcount u
  · obtain ⟨h1, h2⟩ := hrest m' u hmm
    simpa [hmm, h1, h2] using h.count m' u

theorem Owns.acquire (h : s.Owns) (hwt : s.waiting t = none) (hown : (s.mutex m).owner = none)
    (taken : Tid → List Oid) :
    Owns { s with toMutexState := { s.toMutexState.acquire m t with taken := taken }
                  acquired := bump s.acquired m t } := by
  have h0 : Owns { s with k := s.k.setThread t fun th => { th with error := .eok } } :=
    h.setThread hwt ⟨rfl, rfl, rfl, rfl, rfl, rfl⟩ rfl
  refine h0.setMutex (m := m) (fun mx => { mx with owner := some t, priority := 0xff, hold := 1 })
    (bump s.acquired m t) s.released rfl (fun u sf hu => ?_) (by simp) (by simp [rtMutexHoldMax]) (fun u => ?_)
    (fun m' u hm => ⟨bump_of_ne _ (.inl hm), rfl⟩) taken
  · have hut : t ≠ u := by
      rintro rfl
      simp [hwt] at hu
    simp [hut, hown]
  · have hcount := h.count m u
    rw [hown] at hcount
    by_cases hut : u = t
    · subst hut
      simp only [bump_self, if_true]
      simpa using hcount
    · rw [bump_of_ne _ (.inr hut)]
      simpa [Ne.symm hut] using hcount

theorem Owns.enters (h : s.Owns) (hwt : s.waiting t = none) {o : Tid} (hown : (s.mutex m).owner = some o)
    (hot : o ≠ t) {st : MutexState} {sf : SuspendFlag} (he : Enters s.toMutexState st m t sf) :
    Owns { s with toMutexState := st, waiting := Function.update s.waiting t (some (m, sf)) } := by
  have hlist : ∀ m' u, u ∈ st.k.list (.suspend m') → (u = t ∧ m' = m) ∨ u ∈ s.k.list (.suspend m') := by
    intro m' u hu
    rw [he.list _ rfl] at hu
    split_ifs at hu with hm
    · rcases mem_enqueue.mp hu with rfl | hu
      · exact .inl ⟨rfl, by simpa using hm⟩
      · exact .inr hu
    · exact .inr hu
  have hold : ∀ u, u ≠ t → ∀ x, Function.update s.waiting t (some (m, sf)) u = some x → s.waiting u = some x := by
    intro u hu x hx
    rwa [Function.update_of_ne hu] at hx
  refine ⟨he.coherent, he.currentOk, fun m' hm => ?_, fun m' u hu => ?_, fun u m' hu => ?_, fun u m' sf' hu => ?_,
    fun u m' sf' hu hs => ?_, fun m' => ?_, fun m' => ?_, fun m' u => ?_⟩
  · simp only [he.mutex] at hm ⊢
    rw [he.priorityMax]
    exact h.ceiling m' hm
  · rcases hlist m' u hu with ⟨rfl, rfl⟩ | hu
    · exact ⟨sf, by simp⟩
    · obtain ⟨sf', h1⟩ := h.linked m' u hu
      have hut : u ≠ t := by
        rintro rfl
        simp [hwt] at h1
      exact ⟨sf', by simpa [hut] using h1⟩
  · by_cases hut : u = t
    · subst hut
      obtain rfl : m = m' := Option.some.inj (he.pendingObject.symm.trans hu)
      exact ⟨⟨sf, by simp⟩, by simp [he.error]⟩
    · simp only [he.other u hut] at hu ⊢
      simpa [hut] using h.pending u m' hu
  · simp only [he.mutex]
    by_cases hut : u = t
    · subst hut
      obtain ⟨rfl, rfl⟩ : m = m' ∧ sf = sf' := by simpa using hu
      simp [hown, hot, he.stat, Stat.suspended]
    · rw [he.other u hut]
      exact h.granted u m' sf' (hold u hut _ hu)
  · by_cases hut : u = t
    · subst hut
      obtain ⟨rfl, rfl⟩ : m = m' ∧ sf = sf' := by simpa using hu
      exact ⟨by simp [he.error], he.pendingObject⟩
    · simp only [he.other u hut] at hs ⊢
      exact h.blocked u m' sf' (hold u hut _ hu) hs
  · simp only [he.mutex]
    exact h.free m'
  · simp only [he.mutex]
    exact h.bound m'
  · simp only [he.mutex]
    exact h.count m' u

theorem Owns.take (h : s.Owns) {fuel : ℕ} {timeout : ℤ} {sf : SuspendFlag}
    (hs : s.step (.take fuel t m timeout sf) = some s') : s'.Owns := by
  simp only [step, Option.ite_none_right_eq_some] at hs
  obtain ⟨⟨⟨-, hrun⟩, hwt⟩, hs⟩ := hs
  obtain ⟨⟨st, r⟩, htake, rfl⟩ := Option.map_eq_some_iff.mp hs
  rcases rtMutexTake_cases h.coherent h.currentOk hrun htake with
    ⟨hown, rfl, hacq⟩ | ⟨hown, hlt, rfl, rfl⟩ | ⟨ret, e, hret, rfl, rfl⟩ | ⟨o, s₁, s₂, hown, hot, -, -, rfl, hen, hin, rfl⟩
  · rcases hacq with ⟨-, rfl⟩ | ⟨-, -, rfl⟩ | ⟨hceil, -, rfl⟩
    · exact h.acquire hwt hown _
    · exact h.acquire hwt hown _
    · have ha := h.acquire hwt hown s.taken
      exact ha.frame (frame_control ha.coherent ha.currentOk .updatePriority (h.ceiling m hceil))
  · have h0 : Owns { s with k := s.k.setThread t fun th => { th with error := .eok } } :=
      h.setThread hwt ⟨rfl, rfl, rfl, rfl, rfl, rfl⟩ rfl
    refine h0.setMutex (m := m) (fun mx => { mx with hold := mx.hold + 1 }) (bump s.acquired m t) s.released rfl
      (fun u sf hu => Iff.rfl) (by simp [hown]) hlt (fun u => ?_) (fun m' u hm => ⟨bump_of_ne _ (.inl hm), rfl⟩) s.taken
    have hcount := h.count m u
    rw [hown] at hcount
    by_cases hut : u = t
    · subst hut
      simp only [bump_self, hown, if_true] at hcount ⊢
      omega
    · rw [bump_of_ne _ (.inr hut)]
      simpa [Ne.symm hut, hown] using hcount
  · simp only [took, hret, if_false]
    exact h.setThread hwt ⟨rfl, rfl, rfl, rfl, rfl, rfl⟩ rfl
  · have hen' := h.enters hwt hown hot hen
    refine hen'.frame (frame_wait hen.coherent hen.currentOk ?_ hin)
    rw [hen.priorityMax]
    exact (h.coherent.priority t).1

/-- A thread that is past its wait leaves `_rt_mutex_take`. -/
theorem Owns.leave (h : s.Owns) (hrun : (s.k.thread t).stat = .running) (hp : (s.k.thread t).pendingObject = none) :
    Owns { s with waiting := Function.update s.waiting t none } := by
  have hout := h.coherent.not_linked (t := t) (by simp [hrun]) (by simp [hrun, Stat.suspended])
  have hold : ∀ u x, Function.update s.waiting t none u = some x → s.waiting u = some x := by
    intro u x hx
    have hut : u ≠ t := by
      rintro rfl
      simp at hx
    rwa [Function.update_of_ne hut] at hx
  refine ⟨h.coherent, h.currentOk, h.ceiling, fun m' u hu => ?_, fun u m' hu => ?_,
    fun u m' sf hu => h.granted u m' sf (hold u _ hu), fun u m' sf hu => h.blocked u m' sf (hold u _ hu),
    h.free, h.bound, h.count⟩
  · have hut : u ≠ t := by
      rintro rfl
      exact hout _ hu
    simpa [hut] using h.linked m' u hu
  · have hut : u ≠ t := by
      rintro rfl
      simp [hp] at hu
    simpa [hut] using h.pending u m' hu

theorem Owns.clearPending (h : s.Owns) (hrun : (s.k.thread t).stat = .running) :
    Owns { s with k := s.k.setThread t fun th => { th with pendingObject := none } } := by
  have hthread : ∀ u, u ≠ t → (s.k.setThread t fun th => { th with pendingObject := none }).thread u = s.k.thread u :=
    fun u hu => setThread_thread_of_ne _ _ _ hu
  have hc : (s.k.setThread t fun th => { th with pendingObject := none }).Coherent none :=
    h.coherent.setThread ⟨rfl, rfl, rfl, rfl, rfl, rfl⟩
  have ho : (s.k.setThread t fun th => { th with pendingObject := none }).CurrentOk := h.currentOk.setThread rfl
  refine ⟨hc, ho, h.ceiling, h.linked, fun u m' hu => ?_,
    fun u m' sf hu => ?_, fun u m' sf hu hs => ?_, h.free, h.bound, h.count⟩
  all_goals by_cases hut : u = t
  · subst hut
    simp at hu
  · rw [hthread u hut] at hu ⊢
    exact h.pending u m' hu
  · subst hut
    rw [setThread_thread_self]
    exact h.granted u m' sf hu
  · rw [hthread u hut]
    exact h.granted u m' sf hu
  · subst hut
    simp [hrun, Stat.suspended] at hs
  · rw [hthread u hut] at hs ⊢
    exact h.blocked u m' sf hu hs

theorem Owns.ret (h : s.Owns) {fuel : ℕ} (hs : s.step (.ret fuel t) = some s') : s'.Owns := by
  simp only [step] at hs
  split at hs
  · simp at hs
  rename_i m sf hwt
  simp only [Option.ite_none_right_eq_some] at hs
  obtain ⟨⟨-, hrun⟩, hs⟩ := hs
  obtain ⟨⟨st, r⟩, hend, rfl⟩ := Option.map_eq_some_iff.mp hs
  rcases rtMutexTakeEnd_cases hend with ⟨herr, -, rfl⟩ | ⟨-, -, s₁, rfl, hcase⟩
  · refine h.leave hrun ?_
    by_contra hp
    obtain ⟨m', hp⟩ := Option.ne_none_iff_exists'.mp hp
    exact (h.pending t m' hp).2 herr
  · have h1 := h.clearPending hrun
    have h2 := h1.frame (frame_setMutex h1.coherent h1.currentOk m
      (waiterPriority (s.k.setThread t fun th => { th with pendingObject := none }) m))
    have hleave := h2.leave (t := t) (by simpa using hrun) (by simp)
    rcases hcase with ⟨rfl, -⟩ | ⟨o, -, -, -, hup⟩
    · exact hleave
    · exact hleave.frame (frame_threadUpdatePriority h2.coherent h2.currentOk
        (threadGetMutexPriority_lt h2.coherent o) hup)

theorem Owns.handsOver (h : s.Owns) (hwt : s.waiting t = none) (hown : (s.mutex m).owner = some t)
    (hhold : (s.mutex m).hold = 1) {u : Tid} (hu : u ∈ s.k.list (.suspend m)) {st : MutexState} (hh : HandsOver s.toMutexState st m u) :
    Owns { s with toMutexState := st, released := bump s.released m t, acquired := bump s.acquired m u } := by
  obtain ⟨sf, hwu⟩ := h.linked m u hu
  have hne : ∀ v x, s.waiting v = some x → v ≠ t := by
    rintro v x hv rfl
    simp [hwt] at hv
  have hut := hne u _ hwu
  have hmutex : ∀ m', m' ≠ m → st.mutex m' = s.mutex m' := hh.mutex_of_ne
  refine ⟨hh.coherent, hh.currentOk, fun m' hm => ?_, fun m' v hv => ?_, fun v m' hv => ?_, fun v m' sf' hv => ?_,
    fun v m' sf' hv hs => ?_, fun m' => ?_, fun m' => ?_, fun m' v => ?_⟩
  · rw [hh.priorityMax]
    by_cases hmm : m' = m
    · subst hmm
      simp only [hh.mutex] at hm ⊢
      exact h.ceiling m' hm
    · simp only [hmutex m' hmm] at hm ⊢
      exact h.ceiling m' hm
  · rw [hh.list _ rfl] at hv
    exact h.linked m' v (List.mem_of_mem_erase hv)
  · have hvu : v ≠ u := by
      rintro rfl
      simp [hh.pendingObject] at hv
    simp only [hh.other v hvu] at hv ⊢
    exact h.pending v m' hv
  · by_cases hvu : v = u
    · subst hvu
      obtain ⟨rfl, rfl⟩ : m' = m ∧ sf' = sf := by simpa using hv.symm.trans hwu
      simp [hh.mutex, hh.runnable.suspended, hh.error]
    · simp only [hh.other v hvu]
      by_cases hmm : m' = m
      · subst hmm
        rw [← h.granted v m' sf' hv, hown, hh.mutex]
        simp [Ne.symm hvu, (hne v _ hv).symm]
      · rw [hmutex m' hmm]
        exact h.granted v m' sf' hv
  · have hvu : v ≠ u := by
      rintro rfl
      simp [hh.runnable.suspended] at hs
    simp only [hh.other v hvu] at hs ⊢
    exact h.blocked v m' sf' hv hs
  · by_cases hmm : m' = m
    · subst hmm; simp [hh.mutex]
    · simpa [hmutex m' hmm] using h.free m'
  · by_cases hmm : m' = m
    · subst hmm; simp [hh.mutex, rtMutexHoldMax]
    · simpa [hmutex m' hmm] using h.bound m'
  · have hcount := h.count m' v
    by_cases hmm : m' = m
    · subst hmm
      simp only [hh.mutex, hown, hhold] at hcount ⊢
      by_cases hvu : v = u
      · subst hvu
        rw [bump_self, bump_of_ne _ (.inr hut)]
        simpa [hut.symm] using hcount
      · rw [bump_of_ne _ (.inr hvu)]
        by_cases hvt : v = t
        · subst hvt
          rw [bump_self]
          simpa [Ne.symm hvu] using hcount
        · rw [bump_of_ne _ (.inr hvt)]
          simpa [Ne.symm hvu, Ne.symm hvt] using hcount
    · simp only [bump_of_ne _ (.inl hmm), hmutex m' hmm]
      exact hcount

theorem Owns.setTaken (h : s.Owns) (taken : Tid → List Oid) : Owns { s with taken := taken } :=
  ⟨h.coherent, h.currentOk, h.ceiling, h.linked, h.pending, h.granted, h.blocked, h.free, h.bound, h.count⟩

theorem Owns.release (h : s.Owns) (hs : s.step (.release t m) = some s') : s'.Owns := by
  simp only [step, Option.ite_none_right_eq_some, Option.some.injEq] at hs
  obtain ⟨⟨-, hwt⟩, rfl⟩ := hs
  by_cases hown : (s.mutex m).owner = some t
  · have hpos : (s.mutex m).hold ≠ 0 := by
      rw [ne_eq, ← h.free m, hown]
      simp
    have hcount := h.count m
    have hlow := (frame_lowered (m := m) (t := t) h.coherent h.currentOk).1
    have hlist := (frame_lowered (m := m) (t := t) h.coherent h.currentOk).2
    rcases rtMutexRelease_cases h.coherent h.currentOk hown with
      ⟨hh, he⟩ | ⟨hh, hl, he⟩ | ⟨hh, u, l, st, hl, he, hho⟩
    · have hsucc : successor s.toMutexState m t = none := by
        simp only [successor, hown, true_and]
        exact if_neg (by omega)
      rw [he, hsucc]
      refine h.setMutex (m := m) (fun mx => { mx with hold := mx.hold - 1 }) s.acquired (bump s.released m t) rfl
        (fun u sf hu => Iff.rfl) ?_ ?_ (fun u => ?_) (fun m' u hm => ⟨rfl, bump_of_ne _ (.inl hm)⟩) s.taken
      · simpa [hown] using hh
      · have := h.bound m
        simp only
        omega
      · have hcu := hcount u
        rw [hown] at hcu ⊢
        by_cases hut : u = t
        · subst hut
          simp only [bump_self, if_true] at hcu ⊢
          omega
        · rw [bump_of_ne _ (.inr hut)]
          simpa [Ne.symm hut] using hcu
    · have hsucc : successor s.toMutexState m t = none := by
        simp [successor, hl]
      rw [he, hsucc]
      have h1 := h.frame hlow
      refine h1.setMutex (m := m) (fun mx => { mx with owner := none, hold := 0, priority := 0xff }) s.acquired
        (bump s.released m t) rfl (fun u sf hu => ?_) (by simp) (by simp) (fun u => ?_)
        (fun m' u hm => ⟨rfl, bump_of_ne _ (.inl hm)⟩) _
      · have hut : t ≠ u := by
          rintro rfl
          simp [hwt] at hu
        simp [hown, hut]
      · have hcu := hcount u
        rw [hown] at hcu
        by_cases hut : u = t
        · subst hut
          simp only [bump_self, if_true] at hcu ⊢
          simp only [reduceCtorEq, if_false]
          omega
        · rw [bump_of_ne _ (.inr hut)]
          simpa [Ne.symm hut] using hcu
    · have hsucc : successor s.toMutexState m t = some u := by
        simp only [successor, hown, hl, List.head?_cons, true_and]
        exact if_pos (by omega)
      rw [he, hsucc]
      have h1 := (h.frame hlow).setTaken fun u => (s.taken u).erase m
      refine h1.handsOver hwt hown (show (s.mutex m).hold = 1 by omega) ?_ hho
      simp only [hlist (.suspend m) rfl, hl]
      simp
  · have hsucc : successor s.toMutexState m t = none := by simp [successor, hown]
    rw [hsucc]
    simp only [rtMutexRelease, ne_eq, hown, not_false_eq_true, if_true, reduceCtorEq, if_false]
    exact h.setThread hwt ⟨rfl, rfl, rfl, rfl, rfl, rfl⟩ rfl

theorem Owns.step (h : s.Owns) {e : Event} (hs : s.step e = some s') : s'.Owns := by
  cases e with
  | take fuel t m timeout sf => exact h.take hs
  | ret fuel t => exact h.ret hs
  | release t m => exact h.release hs
  | changePriority t p =>
    simp only [MutexSys.step, Option.ite_none_right_eq_some, Option.some.injEq] at hs
    obtain ⟨hp, rfl⟩ := hs
    exact h.frame (frame_control h.coherent h.currentOk .changePriority hp)
  | setprioceiling m p =>
    obtain rfl := Option.some.inj hs
    simp only [rtMutexSetprioceiling]
    split_ifs with hp
    · refine ⟨h.coherent, h.currentOk, fun m' hm => ?_, h.linked, h.pending, fun u m' sf hu => ?_, h.blocked,
        fun m' => ?_, fun m' => ?_, fun m' u => ?_⟩
      all_goals by_cases hmm : m' = m
      · subst hmm; simpa using hp
      · simp only [setMutex_mutex_of_ne _ _ hmm] at hm ⊢
        exact h.ceiling m' hm
      · subst hmm; simpa using h.granted u m' sf hu
      · simpa [hmm] using h.granted u m' sf hu
      · subst hmm; simpa using h.free m'
      · simpa [hmm] using h.free m'
      · subst hmm; simpa using h.bound m'
      · simpa [hmm] using h.bound m'
      · subst hmm; simpa using h.count m' u
      · simpa [hmm] using h.count m' u
    · exact h
  | kernel e =>
    simp only [MutexSys.step, Option.map_eq_some_iff] at hs
    obtain ⟨k', hk, rfl⟩ := hs
    exact h.kernel hk

theorem owns_init {k₀ : Kernel} (hq : k₀.Quiet) : (init k₀).Owns := by
  refine ⟨hq.coherent, hq.currentOk, by simp [init, rtMutexInit], fun m u hu => ?_, fun u m hu => ?_, by simp [init],
    by simp [init], by simp [init, rtMutexInit], by simp [init, rtMutexInit], by simp [init, rtMutexInit]⟩
  · simp [init, hq.empty (.suspend m) rfl] at hu
  · simp [init, (hq.fresh u).pendingObject] at hu

theorem owns_run {k₀ : Kernel} (hq : k₀.Quiet) {es : List Event} (h : run MutexSys.step (init k₀) es = some s) :
    s.Owns :=
  run_invariant Owns (fun _ _ _ hi hs => hi.step hs) h (owns_init hq)

end steps

def Event.on (m : Oid) : Event → Prop
  | .take _ _ m' _ _ => m' = m
  | .release _ m' => m' = m
  | .setprioceiling m' _ => m' = m
  | _ => True

/-- One thread at a time is between a successful take and the matching last release, and `hold` counts
its takes. -/
structure Exclusive (s : MutexSys) (m : Oid) : Prop where
  holder : ∀ t, s.released m t < s.acquired m t ↔ (s.mutex m).owner = some t
  ended : ∀ t sf, s.waiting t = some (m, sf) → (s.k.thread t).stat.suspended = false →
    ((s.k.thread t).error = .eok ↔ (s.mutex m).owner = some t)
  free : (s.mutex m).hold = 0 ↔ (s.mutex m).owner = none
  count : ∀ t, (s.mutex m).owner = some t → (s.mutex m).hold + s.released m t = s.acquired m t
  bound : (s.mutex m).hold ≤ rtMutexHoldMax

/-- Refused and failed calls leave the mutexes and the other waiters alone. -/
structure Harmless (s : MutexSys) (m : Oid) : Prop where
  release : ∀ t s', (s.mutex m).owner ≠ some t → s.step (.release t m) = some s' →
    s'.mutex = s.mutex ∧ s'.k.list = s.k.list ∧ s'.acquired = s.acquired ∧ s'.released = s.released
  take : ∀ fuel t timeout sf st ret, s.k.Runs t →
    s.toMutexState.rtMutexTake fuel m t timeout sf = some (st, some ret) → ret ≠ .eok →
    st.mutex = s.mutex ∧ st.k.list = s.k.list
  expire : ∀ t s', s.step (.kernel (.timeout t)) = some s' →
    s'.mutex = s.mutex ∧ s'.k.list (.suspend m) = (s.k.list (.suspend m)).erase t
  giveUp : ∀ fuel t s', (s.k.thread t).error ≠ .eok → s.step (.ret fuel t) = some s' →
    (s'.mutex m).owner = (s.mutex m).owner ∧ (s'.mutex m).hold = (s.mutex m).hold

/-- The last release with waiters makes the first of them the owner and wakes nobody else. -/
def HandsOn (s : MutexSys) (m : Oid) : Prop :=
  ∀ t u l s', (s.mutex m).owner = some t → (s.mutex m).hold = 1 → s.k.list (.suspend m) = u :: l →
    s.step (.release t m) = some s' →
    (s'.mutex m).owner = some u ∧ (s'.mutex m).hold = 1 ∧ s'.k.list (.suspend m) = l ∧
      (s'.k.thread u).stat.suspended = false ∧ ∀ v, v ≠ u → (s'.k.thread v).stat = (s.k.thread v).stat

section ownership

variable {s s' : MutexSys} {m : Oid} {t : Tid}

theorem Owns.exclusive (h : s.Owns) (m : Oid) : s.Exclusive m := by
  have hown : ∀ t, (s.mutex m).owner = some t → 0 < (s.mutex m).hold := by
    intro t ht
    have hf := h.free m
    rw [ht] at hf
    simp only [reduceCtorEq, false_iff] at hf
    omega
  refine ⟨fun t => ?_, fun t sf hw hs => ?_, (h.free m).symm, fun t ht => ?_, h.bound m⟩
  · have hc := h.count m t
    constructor
    · intro hlt
      by_contra ho
      rw [if_neg ho] at hc
      omega
    · intro ho
      have := hown t ho
      rw [if_pos ho] at hc
      omega
  · have hg := h.granted t m sf hw
    rw [hs] at hg
    simpa using hg.symm
  · have hc := h.count m t
    rw [if_pos ht] at hc
    omega

theorem Owns.harmless (h : s.Owns) (m : Oid) : s.Harmless m where
  release t s' ho hs := by
    simp only [MutexSys.step, Option.ite_none_right_eq_some, Option.some.injEq] at hs
    obtain ⟨-, rfl⟩ := hs
    simp [rtMutexRelease, ho, successor]
  take fuel t timeout sf st ret hr ht hret := by
    rcases rtMutexTake_cases h.coherent h.currentOk hr.2 ht with
      ⟨-, he, -⟩ | ⟨-, -, he, -⟩ | ⟨ret', e, -, -, rfl⟩ | ⟨o, s₁, s₂, -, -, -, -, he, -⟩
    · exact absurd (Option.some.inj he) hret
    · exact absurd (Option.some.inj he) hret
    · exact ⟨rfl, rfl⟩
    · simp at he
  expire t s' hs := by
    simp only [MutexSys.step, kernelStep, Option.map_eq_some_iff, Option.ite_none_right_eq_some,
      Option.some.injEq] at hs
    obtain ⟨k', ⟨⟨-, hsus⟩, rfl⟩, rfl⟩ := hs
    exact ⟨rfl, (wakes_timeout hsus).suspendList m⟩
  giveUp fuel t s' he hs := by
    simp only [MutexSys.step] at hs
    split at hs
    · simp at hs
    rename_i m' sf hwt
    simp only [Option.ite_none_right_eq_some] at hs
    obtain ⟨⟨-, hrun⟩, hs⟩ := hs
    obtain ⟨⟨st, r⟩, hend, rfl⟩ := Option.map_eq_some_iff.mp hs
    rcases rtMutexTakeEnd_cases hend with ⟨herr, -⟩ | ⟨-, -, s₁, rfl, hcase⟩
    · exact absurd herr he
    · have h1 := h.clearPending hrun
      have hf := frame_setMutex h1.coherent h1.currentOk m'
        (waiterPriority (s.k.setThread t fun th => { th with pendingObject := none }) m')
      rcases hcase with ⟨rfl, -⟩ | ⟨o, -, -, -, hup⟩
      · exact ⟨hf.owner m, hf.hold m⟩
      · have hf' := hf.trans (frame_threadUpdatePriority hf.coherent hf.currentOk
          (threadGetMutexPriority_lt hf.coherent o) hup)
        exact ⟨hf'.owner m, hf'.hold m⟩

theorem Owns.handsOn (h : s.Owns) (m : Oid) : s.HandsOn m := by
  intro t u l s' hown hhold hl hs
  simp only [MutexSys.step, Option.ite_none_right_eq_some, Option.some.injEq] at hs
  obtain ⟨-, rfl⟩ := hs
  obtain ⟨hf, hlist⟩ := frame_lowered (m := m) (t := t) h.coherent h.currentOk
  rcases rtMutexRelease_cases h.coherent h.currentOk hown with
    ⟨hh, -⟩ | ⟨-, hnil, -⟩ | ⟨-, u', l', st, hl', he, hho⟩
  · omega
  · simp [hl] at hnil
  · obtain ⟨rfl, rfl⟩ : u' = u ∧ l' = l := by simpa using hl'.symm.trans hl
    simp only [he]
    refine ⟨by rw [hho.mutex], by rw [hho.mutex], ?_, hho.runnable.suspended, fun v hv => ?_⟩
    · rw [hho.list _ rfl, hlist _ rfl, hl]
      simp
    · rw [hho.other v hv]
      exact hf.stat v

theorem oneMutex_step (hw : ∀ t m' sf, s.waiting t = some (m', sf) → m' = m) {e : Event} (he : e.on m)
    (hs : s.step e = some s') : ∀ t m' sf, s'.waiting t = some (m', sf) → m' = m := by
  intro u m' sf' hu
  cases e with
  | take fuel t m'' timeout sf =>
    simp only [MutexSys.step, Option.ite_none_right_eq_some] at hs
    obtain ⟨-, hs⟩ := hs
    obtain ⟨⟨st, r⟩, -, rfl⟩ := Option.map_eq_some_iff.mp hs
    obtain rfl : m'' = m := he
    cases r with
    | none =>
      by_cases hut : u = t
      · subst hut
        simp only [took, Function.update_self, Option.some.injEq, Prod.mk.injEq] at hu
        exact hu.1.symm
      · exact hw u m' sf' (by simpa [took, hut] using hu)
    | some ret => exact hw u m' sf' hu
  | ret fuel t =>
    simp only [MutexSys.step] at hs
    split at hs
    · simp at hs
    simp only [Option.ite_none_right_eq_some] at hs
    obtain ⟨-, hs⟩ := hs
    obtain ⟨r, -, rfl⟩ := Option.map_eq_some_iff.mp hs
    have hut : u ≠ t := by
      rintro rfl
      simp at hu
    exact hw u m' sf' (by simpa [hut] using hu)
  | release t m'' | changePriority t p =>
    simp only [MutexSys.step, Option.ite_none_right_eq_some, Option.some.injEq] at hs
    obtain ⟨-, rfl⟩ := hs
    exact hw u m' sf' hu
  | setprioceiling m'' p =>
    obtain rfl := Option.some.inj hs
    exact hw u m' sf' hu
  | kernel e =>
    obtain ⟨k', -, rfl⟩ := Option.map_eq_some_iff.mp hs
    exact hw u m' sf' hu

theorem giveUp_waiters (h : s.Owns) (hw : ∀ t m' sf, s.waiting t = some (m', sf) → m' = m) {fuel : ℕ}
    (he : (s.k.thread t).error ≠ .eok) (hs : s.step (.ret fuel t) = some s') :
    s'.k.list (.suspend m) = s.k.list (.suspend m) := by
  simp only [MutexSys.step] at hs
  split at hs
  · simp at hs
  rename_i m' sf hwt
  obtain rfl := hw t m' sf hwt
  simp only [Option.ite_none_right_eq_some] at hs
  obtain ⟨⟨-, hrun⟩, hs⟩ := hs
  obtain ⟨⟨st, r⟩, hend, rfl⟩ := Option.map_eq_some_iff.mp hs
  rcases rtMutexTakeEnd_cases hend with ⟨herr, -⟩ | ⟨-, -, s₁, rfl, hcase⟩
  · exact absurd herr he
  rcases hcase with ⟨rfl, -⟩ | ⟨o, hown, -, -, hup⟩
  · rfl
  have h1 := h.clearPending hrun
  have hpend : (s.k.thread o).pendingObject = none := by
    by_contra hp
    obtain ⟨m'', hp⟩ := Option.ne_none_iff_exists'.mp hp
    obtain ⟨⟨sf', hwo⟩, heo⟩ := h.pending o m'' hp
    obtain rfl := hw o m'' sf' hwo
    exact heo ((h.granted o m'' sf' hwo).mp hown).2
  have hot : o ≠ t := by
    rintro rfl
    exact he ((h.granted o m' sf hwt).mp hown).2
  have hc1 : ((s.toMutexState.setThread t fun th => { th with pendingObject := none }).mutexUpdatePriority
    m').k.Coherent none := h1.coherent
  rcases threadUpdatePriority_cases hc1 h1.currentOk hup with ⟨-, rfl⟩ | ⟨n, m'', o', s₂, -, -, hp, -⟩
  · exact (control_reprioritised h1.coherent h1.currentOk .updatePriority _).list _ rfl
  · simp [mutexUpdatePriority, hot, hpend] at hp

end ownership

theorem mutex_excludes {k₀ : Kernel} (hq : k₀.Quiet) (es : List Event) (s : MutexSys)
    (h : run step (init k₀) es = some s) (m : Oid) :
    s.Exclusive m ∧ s.Harmless m ∧ s.HandsOn m ∧
    ((∀ e ∈ es, e.on m) → ∀ fuel t s', (s.k.thread t).error ≠ .eok → s.step (.ret fuel t) = some s' →
      s'.k.list (.suspend m) = s.k.list (.suspend m)) := by
  have ho := owns_run hq h
  refine ⟨ho.exclusive m, ho.harmless m, ho.handsOn m, fun hon fuel t s' he hs => ?_⟩
  refine giveUp_waiters ho ?_ he hs
  exact run_invariant_of_meets (fun s : MutexSys => ∀ t m' sf, s.waiting t = some (m', sf) → m' = m)
    (fun _ _ _ hw hon hs => oneMutex_step hw hon hs) h (meets_of_forall hon) (by simp [init])

theorem mutex_excludes_example :
    ∃ s, run step (init (started 32 (fun t => t % 32) [3, 4, 5]))
      [.take 0 3 0 (-1) .interruptible, .kernel (.signal 3 0 0), .take 0 3 0 0 .killable, .changePriority 4 2,
        .kernel .schedule, .take 1 4 0 7 .uninterruptible, .kernel .schedule, .release 3 0, .kernel (.timeout 4),
        .kernel .yield, .ret 1 4] = some s ∧ s.Exclusive 0 ∧ (s.mutex 0).hold = 1 := by
  have hq := started_quiet (n := 32) (by decide) (fun t => Nat.mod_lt t (by decide)) [3, 4, 5]
  have hrun : ((run step (init (started 32 (fun t => t % 32) [3, 4, 5]))
      [.take 0 3 0 (-1) .interruptible, .kernel (.signal 3 0 0), .take 0 3 0 0 .killable, .changePriority 4 2,
        .kernel .schedule, .take 1 4 0 7 .uninterruptible, .kernel .schedule, .release 3 0, .kernel (.timeout 4),
        .kernel .yield, .ret 1 4]).map fun s => (s.mutex 0).hold) = some 1 := by decide +kernel
  obtain ⟨s, hs, hhold⟩ := Option.map_eq_some_iff.mp hrun
  exact ⟨s, hs, (mutex_excludes hq _ s hs 0).1, hhold⟩

end MutexSys

end RtSmart
