import RtSmart.Kernel.Thread
import RtSmart.Lib.Transition

/-!
The futexes of one process (`lwp_futex.c`). A step of a thread ends where it takes or releases `_futex_lock`, where it
enables interrupts or where it reads the user's word, and user stores, time-outs and signals come in between.
-/

namespace RtSmart

open Lib

inductive FutexCommand where
  | wait | wake | requeue | other
  deriving DecidableEq, Repr

inductive FutexRet where
  | ok
  | woken (n : ℕ)
  | einval | enosys | efault | eintr | enomem | eagain | etimedout
  deriving DecidableEq, Repr

/-- The arguments of `sys_futex`; the `Ok` fields are the answers of `lwp_user_accessable`, and `timeout` is a
pointer to `second` and `nsecond`. -/
structure FutexRequest where
  uaddr : ℕ
  command : FutexCommand
  privateFlag : Bool
  val : ℤ
  timeout : ℕ
  second : ℤ
  nsecond : ℤ
  uaddr2 : ℕ
  uaddrOk : Bool
  timeoutOk : Bool
  uaddr2Ok : Bool
  deriving DecidableEq, Repr

def FutexRequest.check (r : FutexRequest) : Option FutexRet :=
  if r.uaddrOk = false then some .einval
  else if r.command = .wait ∧ r.timeout ≠ 0 then
    if r.timeoutOk = false then some .einval
    else if r.second < 0 ∨ r.nsecond < 0 ∨ 1000000000 ≤ r.nsecond then some .einval
    else none
  else if r.command = .requeue then
    if r.privateFlag = false ∨ r.val ≠ 0 ∨ r.timeout ≠ 1 then some .enosys
    else if r.uaddr2 = r.uaddr then some .einval
    else if r.uaddr2Ok = false then some .efault
    else none
  else none

inductive FutexPc where
  | idle
  | wants (r : FutexRequest)
  | inside (r : FutexRequest)
  | comparing (r : FutexRequest)
  | compared (r : FutexRequest)
  | waiting (r : FutexRequest)
  | waking (a : ℕ) (number : ℤ)
  | returned (ret : FutexRet)
  deriving DecidableEq, Repr

/-- `word` is the user's memory and `futex` the tree `address_search_head` with the `waiting_thread` list of each
futex. `arrival` orders the waiters by the time they were suspended. -/
structure FutexSys where
  word : ℕ → ℤ
  futex : ℕ → Option (List Tid)
  lockOwner : Option Tid
  pc : Tid → FutexPc
  clock : ℕ
  arrival : Tid → ℕ

namespace FutexSys

def init (word : ℕ → ℤ) : FutexSys where
  word := word
  futex _ := none
  lockOwner := none
  pc _ := .idle
  clock := 0
  arrival _ := 0

def waiters (s : FutexSys) (a : ℕ) : List Tid := (s.futex a).getD []

/-- The loop of `futex_wake`: the threads that it resumes and those that stay. -/
def wakeLoop : List Tid → ℤ → List Tid × List Tid
  | [], _ => ([], [])
  | t :: ts, number =>
    if number = 0 then ([], t :: ts)
    else (t :: (wakeLoop ts (number - 1)).1, (wakeLoop ts (number - 1)).2)

def setPc (s : FutexSys) (t : Tid) (p : FutexPc) : FutexSys := { s with pc := Function.update s.pc t p }

/-- The call returns and gives `_futex_lock` back. -/
def leave (s : FutexSys) (t : Tid) (ret : FutexRet) : FutexSys :=
  { s.setPc t (.returned ret) with lockOwner := none }

def futexWait (s : FutexSys) (t : Tid) (r : FutexRequest) : FutexSys :=
  { s.setPc t (.waiting r) with
    futex := Function.update s.futex r.uaddr (some (s.waiters r.uaddr ++ [t])), lockOwner := none
    arrival := Function.update s.arrival t s.clock, clock := s.clock + 1 }

def futexWake (s : FutexSys) (t : Tid) (a : ℕ) (number : ℤ) : FutexSys :=
  let r := wakeLoop (s.waiters a) number
  { s with
    futex := Function.update s.futex a (some r.2), lockOwner := none
    pc := Function.update (fun u => if u ∈ r.1 then .returned .ok else s.pc u) t (.returned (.woken r.1.length)) }

def drop (s : FutexSys) (t : Tid) (ret : FutexRet) : FutexSys :=
  { s.setPc t (.returned ret) with futex := fun a => (s.futex a).map fun l => l.erase t }

inductive Event where
  | call (t : Tid) (r : FutexRequest)
  | takeLock (t : Tid) (taken : Bool)
  | lookup (t : Tid) (created : Bool)
  | compare (t : Tid)
  | suspend (t : Tid) (signalPending : Bool)
  | wake (t : Tid)
  | timeout (t : Tid)
  | signal (t : Tid) (exiting : Bool)
  | store (word : ℕ → ℤ)

def step (s : FutexSys) : Event → Option FutexSys
  | .call t r =>
    match s.pc t with
    | .idle | .returned _ => some (s.setPc t (r.check.elim (.wants r) .returned))
    | _ => none
  | .takeLock t taken =>
    match s.pc t with
    | .wants r =>
      if taken = false then some (s.setPc t (.returned .eintr))
      else if s.lockOwner = none then some { s.setPc t (.inside r) with lockOwner := some t }
      else none
    | _ => none
  | .lookup t created =>
    match s.pc t with
    | .inside r =>
      match r.command, s.futex r.uaddr with
      | .wait, some _ => some (s.setPc t (.comparing r))
      | .wait, none =>
        if created = true then
          some { s.setPc t (.comparing r) with futex := Function.update s.futex r.uaddr (some []) }
        else some (s.leave t .enomem)
      | .wake, some _ => some (s.setPc t (.waking r.uaddr r.val))
      | .requeue, some _ => some (s.setPc t (.waking r.uaddr 1))
      | .wake, none | .requeue, none => some (s.leave t (.woken 0))
      | .other, _ => some (s.leave t .enosys)
    | _ => none
  | .compare t =>
    match s.pc t with
    | .comparing r =>
      if s.word r.uaddr = r.val then some (s.setPc t (.compared r)) else some (s.leave t .eagain)
    | _ => none
  | .suspend t signalPending =>
    match s.pc t with
    | .compared r => if signalPending = true then some (s.leave t .eintr) else some (s.futexWait t r)
    | _ => none
  | .wake t =>
    match s.pc t with
    | .waking a number => some (s.futexWake t a number)
    | _ => none
  | .timeout t =>
    match s.pc t with
    | .waiting r => if r.timeout = 0 then none else some (s.drop t .etimedout)
    | _ => none
  | .signal t exiting =>
    match s.pc t with
    -- the mutex left `RT_EOK` as the thread's error, and only an exit request changes it
    | .waiting _ => some (s.drop t (if exiting = true then .eintr else .ok))
    | _ => none
  | .store word => some { s with word := word }

end FutexSys

namespace FutexPc

/-- The thread holds `_futex_lock`. -/
def holds : FutexPc → Bool
  | .inside _ | .comparing _ | .compared _ | .waking _ _ => true
  | _ => false

/-- The address on which the thread is suspended. -/
def address : FutexPc → Option ℕ
  | .waiting r => some r.uaddr
  | _ => none

end FutexPc

namespace FutexSys

structure Inv (s : FutexSys) : Prop where
  gate : ∀ t, (s.pc t).holds = true ↔ s.lockOwner = some t
  member : ∀ t a, t ∈ s.waiters a ↔ (s.pc t).address = some a
  order : ∀ a, (s.waiters a).Pairwise fun t u => s.arrival t < s.arrival u
  arrived : ∀ a t, t ∈ s.waiters a → s.arrival t < s.clock

section steps

variable {s s' : FutexSys} {t : Tid} {p : FutexPc} {a : ℕ}

theorem Inv.nodup (h : s.Inv) (a : ℕ) : (s.waiters a).Nodup :=
  (h.order a).imp fun hlt he => absurd (he ▸ hlt) (lt_irrefl _)

theorem Inv.gate_keep (h : s.Inv) (hpc : s'.pc = Function.update s.pc t p) (hp : p.holds = (s.pc t).holds)
    (hl : s'.lockOwner = s.lockOwner) (u : Tid) : (s'.pc u).holds = true ↔ s'.lockOwner = some u := by
  rw [hpc, hl]
  by_cases hu : u = t
  · subst hu
    rw [Function.update_self, hp]
    exact h.gate u
  · rw [Function.update_of_ne hu]
    exact h.gate u

theorem Inv.gate_leave (h : s.Inv) (ht : (s.pc t).holds = true) (hp : (s'.pc t).holds = false)
    (ho : ∀ u, u ≠ t → s.lockOwner ≠ some u → (s'.pc u).holds = false)
    (hl : s'.lockOwner = none) (u : Tid) : (s'.pc u).holds = true ↔ s'.lockOwner = some u := by
  rw [hl]
  by_cases hu : u = t
  · subst hu
    simp [hp]
  · have hne : s.lockOwner ≠ some u := by
      rw [(h.gate t).mp ht]
      simpa using Ne.symm hu
    simp [ho u hu hne]

theorem Inv.free (h : s.Inv) {u : Tid} (hu : s.lockOwner ≠ some u) : (s.pc u).holds = false := by
  rw [← Bool.not_eq_true, h.gate u]
  exact hu

theorem Inv.moves (h : s.Inv) (hpc : s'.pc = Function.update s.pc t p) (hw : ∀ a, s'.waiters a = s.waiters a)
    (ha : s'.arrival = s.arrival) (hc : s'.clock = s.clock) (hfrom : (s.pc t).address = none)
    (hto : p.address = none) (hgate : ∀ u, (s'.pc u).holds = true ↔ s'.lockOwner = some u) : s'.Inv := by
  refine ⟨hgate, fun u a => ?_, fun a => ?_, fun a u hu => ?_⟩
  · rw [hw, h.member, hpc]
    by_cases hu : u = t
    · subst hu
      rw [Function.update_self, hfrom, hto]
    · rw [Function.update_of_ne hu]
  · rw [hw, ha]
    exact h.order a
  · rw [ha, hc]
    exact h.arrived a u (hw a ▸ hu)

theorem Inv.walks (h : s.Inv) (hp : p.holds = (s.pc t).holds) (hfrom : (s.pc t).address = none)
    (hto : p.address = none) : (s.setPc t p).Inv :=
  h.moves rfl (fun _ => rfl) rfl rfl hfrom hto (h.gate_keep rfl hp rfl)

theorem Inv.leave (h : s.Inv) (ht : (s.pc t).holds = true) (hfrom : (s.pc t).address = none) (ret : FutexRet) :
    (s.leave t ret).Inv := by
  have hpc : (s.leave t ret).pc = Function.update s.pc t (.returned ret) := rfl
  refine h.moves hpc (fun _ => rfl) rfl rfl hfrom rfl (h.gate_leave ht ?_ (fun u hu hl => ?_) rfl)
  · rw [hpc, Function.update_self]
    rfl
  · rw [hpc, Function.update_of_ne hu]
    exact h.free hl

theorem waiters_update (f : List Tid) (b : ℕ) (hf : s'.futex = Function.update s.futex a (some f)) :
    s'.waiters b = if b = a then f else s.waiters b := by
  unfold waiters
  rw [hf]
  by_cases hb : b = a
  · subst hb
    simp
  · simp [hb]

theorem Inv.lookup (h : s.Inv) {created : Bool} (hs : s.step (.lookup t created) = some s') : s'.Inv := by
  simp only [step] at hs
  split at hs
  · rename_i r hi
    have hh : (s.pc t).holds = true := by simp [hi, FutexPc.holds]
    have ha : (s.pc t).address = none := by simp [hi, FutexPc.address]
    split at hs
    · obtain rfl := Option.some.inj hs
      exact h.walks hh.symm ha rfl
    · rename_i hnone
      split_ifs at hs
      · obtain rfl := Option.some.inj hs
        refine h.moves (p := .comparing r) rfl (fun b => ?_) rfl rfl ha rfl (h.gate_keep rfl hh.symm rfl)
        rw [waiters_update [] b rfl]
        split_ifs with hb
        · rw [hb, waiters, hnone]
          rfl
        · rfl
      · obtain rfl := Option.some.inj hs
        exact h.leave hh ha _
    · obtain rfl := Option.some.inj hs
      exact h.walks hh.symm ha rfl
    · obtain rfl := Option.some.inj hs
      exact h.walks hh.symm ha rfl
    · obtain rfl := Option.some.inj hs
      exact h.leave hh ha _
    · obtain rfl := Option.some.inj hs
      exact h.leave hh ha _
    · obtain rfl := Option.some.inj hs
      exact h.leave hh ha _
  · simp at hs

theorem Inv.futexWait (h : s.Inv) {r : FutexRequest} (hi : s.pc t = .compared r) : (s.futexWait t r).Inv := by
  have hh : (s.pc t).holds = true := by simp [hi, FutexPc.holds]
  have hnot : ∀ b, t ∉ s.waiters b := by
    intro b hb
    rw [h.member, hi] at hb
    simp [FutexPc.address] at hb
  have hpc : (s.futexWait t r).pc = Function.update s.pc t (.waiting r) := rfl
  have hlist : ∀ b, (s.futexWait t r).waiters b = if b = r.uaddr then s.waiters r.uaddr ++ [t] else s.waiters b :=
    fun b => waiters_update _ b rfl
  have harr : ∀ b u, u ∈ s.waiters b → (s.futexWait t r).arrival u = s.arrival u := by
    intro b u hu
    refine Function.update_of_ne ?_ _ _
    rintro rfl
    exact hnot b hu
  have hself : (s.futexWait t r).arrival t = s.clock := Function.update_self _ _ _
  refine ⟨h.gate_leave hh ?_ (fun u hu hl => ?_) rfl, fun u b => ?_, fun b => ?_, fun b u hu => ?_⟩
  · rw [hpc, Function.update_self]
    rfl
  · rw [hpc, Function.update_of_ne hu]
    exact h.free hl
  · rw [hlist, hpc]
    by_cases hu : u = t
    · subst hu
      rw [Function.update_self]
      by_cases hb : b = r.uaddr
      · simp [hb, FutexPc.address]
      · simp [hb, hnot, FutexPc.address, Ne.symm hb]
    · rw [Function.update_of_ne hu, ← h.member]
      by_cases hb : b = r.uaddr
      · simp [hb, hu]
      · simp [hb]
  · have hold : (s.waiters b).Pairwise fun x y => (s.futexWait t r).arrival x < (s.futexWait t r).arrival y := by
      refine (h.order b).imp_of_mem fun hx hy hlt => ?_
      rw [harr b _ hx, harr b _ hy]
      exact hlt
    rw [hlist]
    split_ifs with hb
    · subst hb
      refine List.pairwise_append.mpr ⟨hold, List.pairwise_singleton _ _, fun x hx y hy => ?_⟩
      obtain rfl := List.mem_singleton.mp hy
      rw [harr _ x hx, hself]
      exact h.arrived _ x hx
    · exact hold
  · have hclock : (s.futexWait t r).clock = s.clock + 1 := rfl
    rw [hlist] at hu
    by_cases hut : u = t
    · subst hut
      rw [hself, hclock]
      exact Nat.lt_succ_self _
    · have hu' : u ∈ s.waiters b := by
        split_ifs at hu with hb
        · subst hb
          simpa [hut] using hu
        · exact hu
      rw [harr b u hu', hclock]
      exact (h.arrived b u hu').trans (Nat.lt_succ_self _)

theorem wakeLoop_append (l : List Tid) (number : ℤ) :
    (wakeLoop l number).1 ++ (wakeLoop l number).2 = l := by
  induction l generalizing number with
  | nil => rfl
  | cons u l ih =>
    simp only [wakeLoop]
    split_ifs
    · rfl
    · simp [ih]

theorem wakeLoop_length (l : List Tid) {number : ℤ} (hn : 0 ≤ number) :
    (wakeLoop l number).1.length = min number.toNat l.length := by
  induction l generalizing number with
  | nil => simp [wakeLoop]
  | cons u l ih =>
    simp only [wakeLoop]
    split_ifs with h0
    · simp [h0]
    · rw [List.length_cons, ih (by omega), List.length_cons]
      omega

theorem wakeLoop_neg (l : List Tid) {number : ℤ} (hn : number < 0) : (wakeLoop l number).2 = [] := by
  induction l generalizing number with
  | nil => rfl
  | cons u l ih =>
    simp only [wakeLoop]
    rw [if_neg (by omega)]
    exact ih (by omega)

theorem Inv.futexWake (h : s.Inv) {number : ℤ} (hi : s.pc t = .waking a number) : (s.futexWake t a number).Inv := by
  have hh : (s.pc t).holds = true := by simp [hi, FutexPc.holds]
  have happ := wakeLoop_append (s.waiters a) number
  have hnd := h.nodup a
  rw [← happ, List.nodup_append] at hnd
  have hsub : (wakeLoop (s.waiters a) number).2.Sublist (s.waiters a) := by
    conv_rhs => rw [← happ]
    exact List.sublist_append_right _ _
  have hwoken : ∀ u ∈ (wakeLoop (s.waiters a) number).1, (s.pc u).address = some a := by
    intro u hu
    rw [← h.member, ← happ]
    exact List.mem_append_left _ hu
  have hpct : (s.futexWake t a number).pc t = .returned (.woken (wakeLoop (s.waiters a) number).1.length) := by
    simp only [FutexSys.futexWake, Function.update_self]
  have hpcu : ∀ u, u ≠ t → (s.futexWake t a number).pc u =
      if u ∈ (wakeLoop (s.waiters a) number).1 then .returned .ok else s.pc u :=
    fun u hu => by simp only [FutexSys.futexWake, Function.update_of_ne hu]
  have hlist : ∀ b, (s.futexWake t a number).waiters b =
      if b = a then (wakeLoop (s.waiters a) number).2 else s.waiters b := fun b => waiters_update _ b rfl
  have hsubs : ∀ b, ((s.futexWake t a number).waiters b).Sublist (s.waiters b) := by
    intro b
    rw [hlist]
    split_ifs with hb
    · exact hb ▸ hsub
    · exact .refl _
  refine ⟨h.gate_leave hh (by rw [hpct]; rfl) (fun u hu hl => ?_) rfl, fun u b => ?_,
    fun b => (h.order b).sublist (hsubs b), fun b u hu => h.arrived b u ((hsubs b).subset hu)⟩
  · rw [hpcu u hu]
    split_ifs
    · rfl
    · exact h.free hl
  · rw [hlist]
    by_cases hut : u = t
    · subst hut
      rw [hpct]
      have hnot : u ∉ s.waiters b := by
        rw [h.member, hi]
        simp [FutexPc.address]
      split_ifs with hb
      · subst hb
        simp only [FutexPc.address, reduceCtorEq, iff_false]
        exact fun hu => hnot (hsub.subset hu)
      · simp [FutexPc.address, hnot]
    · rw [hpcu u hut]
      by_cases hu : u ∈ (wakeLoop (s.waiters a) number).1
      · rw [if_pos hu]
        have hout : u ∉ (wakeLoop (s.waiters a) number).2 := fun hu' => hnd.2.2 u hu u hu' rfl
        split_ifs with hb
        · simp [FutexPc.address, hout]
        · simp only [FutexPc.address, reduceCtorEq, iff_false]
          rw [h.member, hwoken u hu]
          simpa using Ne.symm hb
      · rw [if_neg hu, ← h.member]
        split_ifs with hb
        · subst hb
          conv_rhs => rw [← happ]
          simp [hu]
        · rfl

theorem Inv.drop (h : s.Inv) {r : FutexRequest} (hi : s.pc t = .waiting r) (ret : FutexRet) : (s.drop t ret).Inv := by
  have hpc : (s.drop t ret).pc = Function.update s.pc t (.returned ret) := rfl
  have hlist : ∀ b, (s.drop t ret).waiters b = (s.waiters b).erase t := by
    intro b
    simp only [FutexSys.drop, waiters]
    cases s.futex b with
    | none => rfl
    | some l => rfl
  refine ⟨h.gate_keep hpc (by simp [hi, FutexPc.holds]) rfl, fun u b => ?_, fun b => ?_, fun b u hu => ?_⟩
  · rw [hlist, (h.nodup b).mem_erase_iff, h.member, hpc]
    by_cases hu : u = t
    · subst hu
      simp [FutexPc.address]
    · rw [Function.update_of_ne hu]
      simp [hu]
  · rw [hlist]
    exact (h.order b).sublist List.erase_sublist
  · rw [hlist] at hu
    exact h.arrived b u (List.mem_of_mem_erase hu)

theorem Inv.step (h : s.Inv) {e : Event} (hs : s.step e = some s') : s'.Inv := by
  cases e with
  | lookup t created => exact h.lookup hs
  | store word => exact Option.some.inj hs ▸ ⟨h.gate, h.member, h.order, h.arrived⟩
  | call t r =>
    simp only [FutexSys.step] at hs
    have hp : (r.check.elim (FutexPc.wants r) .returned).holds = false ∧
        (r.check.elim (FutexPc.wants r) .returned).address = none := by
      cases r.check with
      | none => exact ⟨rfl, rfl⟩
      | some ret => exact ⟨rfl, rfl⟩
    split at hs
    · rename_i hi
      exact Option.some.inj hs ▸ h.walks (by rw [hp.1, hi]; rfl) (by simp [hi, FutexPc.address]) hp.2
    · rename_i hi
      exact Option.some.inj hs ▸ h.walks (by rw [hp.1, hi]; rfl) (by simp [hi, FutexPc.address]) hp.2
    · simp at hs
  | takeLock t taken =>
    simp only [FutexSys.step] at hs
    split at hs
    · rename_i r hi
      have ha : (s.pc t).address = none := by simp [hi, FutexPc.address]
      split_ifs at hs with h0 hl
      · exact Option.some.inj hs ▸ h.walks (by simp [hi, FutexPc.holds]) ha rfl
      · obtain rfl := Option.some.inj hs
        refine h.moves (p := .inside r) rfl (fun _ => rfl) rfl rfl ha rfl fun u => ?_
        by_cases hu : u = t
        · subst hu
          simp [setPc, FutexPc.holds]
        · simp only [setPc, Function.update_of_ne hu, Option.some.injEq, Ne.symm hu, iff_false, Bool.not_eq_true]
          exact h.free (by simp [hl])
    · simp at hs
  | compare t =>
    simp only [FutexSys.step] at hs
    split at hs
    · rename_i r hi
      have hh : (s.pc t).holds = true := by simp [hi, FutexPc.holds]
      have ha : (s.pc t).address = none := by simp [hi, FutexPc.address]
      split_ifs at hs
      · exact Option.some.inj hs ▸ h.walks hh.symm ha rfl
      · exact Option.some.inj hs ▸ h.leave hh ha _
    · simp at hs
  | suspend t signalPending =>
    simp only [FutexSys.step] at hs
    split at hs
    · rename_i r hi
      split_ifs at hs
      · exact Option.some.inj hs ▸ h.leave (by simp [hi, FutexPc.holds]) (by simp [hi, FutexPc.address]) _
      · exact Option.some.inj hs ▸ h.futexWait hi
    · simp at hs
  | wake t =>
    simp only [FutexSys.step] at hs
    split at hs
    · rename_i a number hi
      exact Option.some.inj hs ▸ h.futexWake hi
    · simp at hs
  | timeout t =>
    simp only [FutexSys.step] at hs
    split at hs
    · rename_i r hi
      split_ifs at hs
      exact Option.some.inj hs ▸ h.drop hi _
    · simp at hs
  | signal t exiting =>
    simp only [FutexSys.step] at hs
    split at hs
    · rename_i r hi
      exact Option.some.inj hs ▸ h.drop hi _
    · simp at hs

theorem inv_init (word : ℕ → ℤ) : (init word).Inv := by
  refine ⟨?_, ?_, ?_, ?_⟩
  · simp [init, FutexPc.holds]
  · simp [init, waiters, FutexPc.address]
  · simp [init, waiters]
  · simp [init, waiters]

/-- Nobody has compared the word of `a` with `v` and not been suspended yet, and those who wait after such a comparison
already did in `s₀`. -/
structure Settled (a : ℕ) (v : ℤ) (s₀ s : FutexSys) : Prop where
  word : s.word a ≠ v
  compared : ∀ u r, s.pc u = .compared r → r.uaddr = a → r.val ≠ v
  waiting : ∀ u r, s.pc u = .waiting r → r.uaddr = a → r.val = v → u ∈ s₀.waiters a ∧ s.arrival u = s₀.arrival u

theorem Settled.moves {v : ℤ} {s₀ : FutexSys} (h : Settled a v s₀ s) (hpc : s'.pc = Function.update s.pc t p)
    (hw : s'.word = s.word) (ha : s'.arrival = s.arrival) (hc : ∀ r, p = .compared r → r.uaddr = a → r.val ≠ v)
    (hp : ∀ r, p ≠ .waiting r) : Settled a v s₀ s' := by
  refine ⟨hw ▸ h.word, fun u r hu => ?_, fun u r hu => ?_⟩
  · rw [hpc] at hu
    by_cases hut : u = t
    · subst hut
      exact hc r (by simpa using hu)
    · exact h.compared u r (by simpa [hut] using hu)
  · rw [hpc] at hu
    by_cases hut : u = t
    · subst hut
      exact absurd (by simpa using hu) (hp r)
    · rw [ha]
      exact h.waiting u r (by simpa [hut] using hu)

theorem Settled.step {v : ℤ} {s₀ : FutexSys} {e : Event} (h : Settled a v s₀ s)
    (he : ∀ word, e = .store word → word a ≠ v) (hs : s.step e = some s') : Settled a v s₀ s' := by
  cases e with
  | store word => exact Option.some.inj hs ▸ ⟨he word rfl, h.compared, h.waiting⟩
  | call t r =>
    simp only [FutexSys.step] at hs
    have hp : ∀ r', r.check.elim (FutexPc.wants r) .returned ≠ .compared r' ∧
        r.check.elim (FutexPc.wants r) .returned ≠ .waiting r' := by
      intro r'
      cases r.check with
      | none => simp
      | some ret => simp
    split at hs
    · exact Option.some.inj hs ▸ h.moves rfl rfl rfl (fun r' hr => absurd hr (hp r').1) fun r' => (hp r').2
    · exact Option.some.inj hs ▸ h.moves rfl rfl rfl (fun r' hr => absurd hr (hp r').1) fun r' => (hp r').2
    · simp at hs
  | takeLock t taken =>
    simp only [FutexSys.step] at hs
    split at hs
    · split_ifs at hs
      · exact Option.some.inj hs ▸ h.moves rfl rfl rfl (by simp) (by simp)
      · exact Option.some.inj hs ▸ h.moves (p := .inside _) rfl rfl rfl (by simp) (by simp)
    · simp at hs
  | lookup t created =>
    simp only [FutexSys.step] at hs
    repeat' split at hs
    all_goals first
      | exact Option.some.inj hs ▸ h.moves (p := .comparing _) rfl rfl rfl (by simp) (by simp)
      | exact Option.some.inj hs ▸ h.moves (p := .returned _) rfl rfl rfl (by simp) (by simp)
      | exact Option.some.inj hs ▸ h.moves (p := .waking _ _) rfl rfl rfl (by simp) (by simp)
      | simp at hs
  | compare t =>
    simp only [FutexSys.step] at hs
    split at hs
    · rename_i r hi
      split_ifs at hs with hv
      · -- the comparison sees the current word, which is not `v`
        refine Option.some.inj hs ▸ h.moves rfl rfl rfl (fun r' hr ha => ?_) (by simp)
        obtain rfl := FutexPc.compared.inj hr
        rw [← hv, ha]
        exact h.word
      · exact Option.some.inj hs ▸ h.moves (p := .returned _) rfl rfl rfl (by simp) (by simp)
    · simp at hs
  | suspend t signalPending =>
    simp only [FutexSys.step] at hs
    split at hs
    · rename_i r hi
      split_ifs at hs
      · exact Option.some.inj hs ▸ h.moves (p := .returned _) rfl rfl rfl (by simp) (by simp)
      · obtain rfl := Option.some.inj hs
        refine ⟨h.word, fun u r' hu => ?_, fun u r' hu ha hv => ?_⟩
        · by_cases hut : u = t
          · subst hut
            simp [FutexSys.futexWait, setPc] at hu
          · exact h.compared u r' (by simpa [FutexSys.futexWait, setPc, hut] using hu)
        · by_cases hut : u = t
          · subst hut
            have hr : r = r' := by simpa [FutexSys.futexWait, setPc] using hu
            exact absurd (hr ▸ hv) (h.compared u r hi (hr ▸ ha))
          · have harr : (s.futexWait t r).arrival u = s.arrival u := Function.update_of_ne hut _ _
            rw [harr]
            exact h.waiting u r' (by simpa [FutexSys.futexWait, setPc, hut] using hu) ha hv
    · simp at hs
  | wake t =>
    simp only [FutexSys.step] at hs
    split at hs
    · rename_i b number hi
      obtain rfl := Option.some.inj hs
      have hold : ∀ u, (s.futexWake t b number).pc u = s.pc u ∨ ∃ ret, (s.futexWake t b number).pc u = .returned ret := by
        intro u
        by_cases hut : u = t
        · subst hut
          exact .inr ⟨.woken (wakeLoop (s.waiters b) number).1.length, by
            simp only [FutexSys.futexWake, Function.update_self]⟩
        · simp only [FutexSys.futexWake, Function.update_of_ne hut]
          split_ifs
          · exact .inr ⟨_, rfl⟩
          · exact .inl rfl
      refine ⟨h.word, fun u r' hu => ?_, fun u r' hu => ?_⟩
      · obtain hsame | ⟨ret, hret⟩ := hold u
        · exact h.compared u r' (hsame ▸ hu)
        · simp [hret] at hu
      · obtain hsame | ⟨ret, hret⟩ := hold u
        · exact h.waiting u r' (hsame ▸ hu)
        · simp [hret] at hu
    · simp at hs
  | timeout t =>
    simp only [FutexSys.step] at hs
    split at hs
    · split_ifs at hs
      exact Option.some.inj hs ▸ h.moves (p := .returned _) rfl rfl rfl (by simp) (by simp)
    · simp at hs
  | signal t exiting =>
    simp only [FutexSys.step] at hs
    split at hs
    · exact Option.some.inj hs ▸ h.moves (p := .returned _) rfl rfl rfl (by simp) (by simp)
    · simp at hs

end steps

theorem futex_wakes_in_order (word : ℕ → ℤ) (es : List Event) (s : FutexSys) (h : run step (init word) es = some s) :
    (∀ t r, s.pc t = .waiting r → ∀ a, t ∈ s.waiters a ↔ a = r.uaddr) ∧
    (∀ a, (s.waiters a).Nodup ∧ (∀ t ∈ s.waiters a, ∃ r, s.pc t = .waiting r ∧ r.uaddr = a) ∧
      (s.waiters a).Pairwise fun t u => s.arrival t < s.arrival u) ∧
    (∀ t a n, s.pc t = .waking a n → ∃ s' woken rest, s.step (.wake t) = some s' ∧
      s.waiters a = woken ++ rest ∧ s'.waiters a = rest ∧ s'.pc t = .returned (.woken woken.length) ∧
      (0 ≤ n → woken.length = min n.toNat (s.waiters a).length) ∧ (n < 0 → rest = []) ∧
      (∀ u ∈ woken, s'.pc u = .returned .ok) ∧ (∀ u, u ≠ t → u ∉ woken → s'.pc u = s.pc u) ∧
      ∀ b, b ≠ a → s'.waiters b = s.waiters b) ∧
    (∀ t a n v, s.pc t = .waking a n → s.word a ≠ v → ∀ es' s', run step s es' = some s' →
      (∀ w, .store w ∈ es' → w a ≠ v) → ∀ u r, s'.pc u = .waiting r → r.uaddr = a → r.val = v →
        u ∈ s.waiters a ∧ s'.arrival u = s.arrival u) := by
  have hi : s.Inv := run_invariant Inv (fun _ _ _ hi hs => hi.step hs) h (inv_init word)
  refine ⟨fun t r ht a => ?_, fun a => ⟨hi.nodup a, fun t ht => ?_, hi.order a⟩, fun t a n ht => ?_,
    fun t a n v ht hv es' s' hr hst u r hu => ?_⟩
  · rw [hi.member, ht]
    simp [FutexPc.address, eq_comm]
  · rw [hi.member] at ht
    cases hp : s.pc t with
    | waiting r => exact ⟨r, rfl, by simpa [hp, FutexPc.address] using ht⟩
    | _ => simp [hp, FutexPc.address] at ht
  · have hnot : t ∉ s.waiters a := by
      rw [hi.member, ht]
      simp [FutexPc.address]
    have happ := wakeLoop_append (s.waiters a) n
    have hlist : ∀ b, (s.futexWake t a n).waiters b = if b = a then (wakeLoop (s.waiters a) n).2 else s.waiters b :=
      fun b => waiters_update _ b rfl
    refine ⟨s.futexWake t a n, (wakeLoop (s.waiters a) n).1, (wakeLoop (s.waiters a) n).2, by simp only [step, ht],
      happ.symm, by rw [hlist, if_pos rfl], by simp only [futexWake, Function.update_self], wakeLoop_length _,
      wakeLoop_neg _, fun u hu => ?_, fun u hut hu => ?_, fun b hb => by rw [hlist, if_neg hb]⟩
    · have hut : u ≠ t := by
        rintro rfl
        exact hnot (happ ▸ List.mem_append_left _ hu)
      simp only [futexWake, Function.update_of_ne hut, hu, if_true]
    · simp only [futexWake, Function.update_of_ne hut, hu, if_false]
  · -- the waker holds the lock, so no waiter stands between its comparison and its suspension
    have hset : Settled a v s s := by
      refine ⟨hv, fun w r' hw => ?_, fun w r' hw ha _ => ⟨?_, rfl⟩⟩
      · have hlt := (hi.gate t).mp (by simp [ht, FutexPc.holds])
        have hlw := (hi.gate w).mp (by simp [hw, FutexPc.holds])
        obtain rfl := Option.some.inj (hlt.symm.trans hlw)
        simp [ht] at hw
      · rw [hi.member, hw]
        exact congrArg some ha
    have hm : Meets step (fun _ e => ∀ w, e = Event.store w → w a ≠ v) s es' := by
      refine meets_of_forall (P := fun e => ∀ w, e = Event.store w → w a ≠ v) fun e he w hw => ?_
      exact hst w (hw ▸ he)
    exact (run_invariant_of_meets (Settled a v s) (fun _ _ _ hi he hs => hi.step he hs) hr hm hset).waiting u r hu

/-- A request with its flags and pointers in order. -/
def request (command : FutexCommand) (uaddr : ℕ) (val : ℤ) : FutexRequest :=
  ⟨uaddr, command, true, val, 0, 0, 0, 0, true, true, true⟩

/-- Two threads wait for the old value, the word is changed, and the first of them is woken. -/
theorem futex_wakes_in_order_example :
    ∃ s s' woken rest, run step (init fun _ => 0)
      [.call 1 (request .wait 8 0), .takeLock 1 true, .lookup 1 true, .compare 1, .store fun _ => 1,
        .call 3 (request .wake 8 1), .suspend 1 false, .store fun _ => 0, .call 2 (request .wait 8 0),
        .takeLock 2 true, .lookup 2 true, .compare 2, .suspend 2 false, .store fun _ => 1, .takeLock 3 true,
        .lookup 3 true] = some s ∧
      s.step (.wake 3) = some s' ∧ s.waiters 8 = woken ++ rest ∧ s'.waiters 8 = rest ∧
        (∀ u ∈ woken, s'.pc u = .returned .ok) := by
  have hrun : ((run step (init fun _ => 0)
      [.call 1 (request .wait 8 0), .takeLock 1 true, .lookup 1 true, .compare 1, .store fun _ => 1,
        .call 3 (request .wake 8 1), .suspend 1 false, .store fun _ => 0, .call 2 (request .wait 8 0),
        .takeLock 2 true, .lookup 2 true, .compare 2, .suspend 2 false, .store fun _ => 1, .takeLock 3 true,
        .lookup 3 true]).map fun s => s.pc 3) = some (.waking 8 1) := by decide +kernel
  obtain ⟨s, hs, hp⟩ := Option.map_eq_some_iff.mp hrun
  obtain ⟨s', woken, rest, h1, h2, h3, -, -, -, h4, -⟩ := (futex_wakes_in_order _ _ s hs).2.2.1 3 8 1 hp
  exact ⟨s, s', woken, rest, hs, h1, h2, h3, h4⟩

/-- A wake call that a signal interrupts while another thread has the lock leaves the waiter suspended. -/
theorem futex_wake_interrupted :
    ((run step (init fun _ => 0)
      [.call 1 (request .wait 8 0), .takeLock 1 true, .lookup 1 true, .compare 1, .suspend 1 false,
        .store fun _ => 1, .call 4 (request .wake 12 1), .takeLock 4 true, .call 3 (request .wake 8 1),
        .takeLock 3 false, .lookup 4 true]).map fun s => (s.pc 3, s.waiters 8)) = some (.returned .eintr, [1]) := by
  decide +kernel

end FutexSys

end RtSmart
