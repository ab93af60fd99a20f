import RtSmart.Dfs.Poll

/-!
`select` (`select.c`) over `poll`. A set of descriptors is the set of the bits that are set in it.
-/

namespace RtSmart

/-- What `do_pollfd` finds for a descriptor: no file, a file without a `poll` operation, or what its driver
reports. -/
inductive PollFile
  | invalid
  | always
  | driver (mask : PollMask)
deriving DecidableEq

def doPollfd (events : BitVec 16) : PollFile → PollMask
  | .invalid => 0x10
  | .always => pollMaskDefault &&& pollInterest events
  | .driver mask => mask &&& pollInterest events

/-- `revents & mask` as a condition. -/
def raised (mask revents : PollMask) : Bool := revents &&& mask ≠ 0

def PollFile.raises (bits : PollMask) : PollFile → Bool
  | .driver mask => raised bits mask
  | _ => false

/-- How `poll` returns: with the negative number `Int.negSucc errno`, or with the last scan. -/
inductive PollReturn
  | failed (errno : ℕ)
  | scanned (file : ℕ → PollFile)

/-- A `struct timeval` as `sys_select` lets it through but for the sign of `tv_sec`. -/
structure Timeval where
  tvSec : ℤ
  tvUsec : ℤ
  nonneg : 0 ≤ tvUsec
  lt : tvUsec < 1000000

/-- The three sets that the caller passes, `none` for a null pointer. -/
structure SelectSets where
  readfds : Option (Finset ℕ)
  writefds : Option (Finset ℕ)
  exceptfds : Option (Finset ℕ)
deriving DecidableEq

/-- A `struct pollfd` before the call of `poll`. -/
structure SelectFd where
  fd : ℕ
  events : BitVec 16
deriving DecidableEq

/-- `msec` is the timeout that `poll` gets, `none` when it is not called. -/
structure SelectResult where
  ret : ℤ
  sets : SelectSets
  msec : Option ℤ
deriving DecidableEq

def pollin : PollMask := 0x01

def pollout : PollMask := 0x02

def pollerr : PollMask := 0x04

def pollhup : PollMask := 0x08

/-- `set && FD_ISSET(fd, set)` -/
def fdIsset (fd : ℕ) (set : Option (Finset ℕ)) : Bool := set.any (fd ∈ ·)

def fdszero (set : Finset ℕ) (nfds : ℤ) : Finset ℕ :=
  (List.range ((nfds.toNat + 63) / 64)).foldl (fun set w => set.filter (· / 64 ≠ w)) set

namespace SelectSets

def wanted (s : SelectSets) (fd : ℕ) : Bool :=
  fdIsset fd s.readfds || fdIsset fd s.writefds || fdIsset fd s.exceptfds

def events (s : SelectSets) (fd : ℕ) : BitVec 16 :=
  (if fdIsset fd s.readfds then 0x01 else 0) ||| if fdIsset fd s.writefds then 0x02 else 0

def pollset (s : SelectSets) (nfds : ℤ) : List SelectFd :=
  ((List.range nfds.toNat).filter s.wanted).map fun fd => ⟨fd, s.events fd⟩

def zero (s : SelectSets) (nfds : ℤ) : SelectSets :=
  ⟨s.readfds.map (fdszero · nfds), s.writefds.map (fdszero · nfds), s.exceptfds.map (fdszero · nfds)⟩

end SelectSets

/-- `FD_SET` in one of the sets when one of the bits of `mask` has come, and how many bits that makes. -/
def setFd (mask revents : PollMask) (fd : ℕ) : Option (Finset ℕ) → Option (Finset ℕ) × ℕ
  | some set => if raised mask revents then (some (insert fd set), 1) else (some set, 0)
  | none => (none, 0)

def unpackFd (x : SelectSets × ℕ) (p : ℕ × PollMask) : SelectSets × ℕ :=
  let r := setFd (pollin ||| pollhup) p.2 p.1 x.1.readfds
  let w := setFd pollout p.2 p.1 x.1.writefds
  let e := setFd pollerr p.2 p.1 x.1.exceptfds
  (⟨r.1, w.1, e.1⟩, x.2 + r.2 + w.2 + e.2)

def selectMsec : Option Timeval → ℤ
  | some t => (t.tvSec * 1000 + t.tvUsec.tdiv 1000).bmod (2 ^ 32)
  | none => -1

/-- The `revents` of a scan. -/
def polled (file : ℕ → PollFile) (l : List SelectFd) : List (ℕ × PollMask) :=
  l.map fun p => (p.fd, doPollfd p.events (file p.fd))

/-- `alloc` is whether `rt_calloc` succeeds. -/
def select (nfds : ℤ) (sets : SelectSets) (timeout : Option Timeval) (alloc : Bool) (answer : PollReturn) :
    SelectResult :=
  let pollset := sets.pollset nfds
  if pollset ≠ [] ∧ alloc = false then ⟨-1, sets, none⟩
  else
    let msec := selectMsec timeout
    match answer with
    | .failed errno => ⟨.negSucc errno, sets.zero nfds, some msec⟩
    | .scanned file =>
      let revents := polled file pollset
      if 0 < revents.countP (·.2 ≠ 0) then
        let x := revents.foldl unpackFd (sets.zero nfds, 0)
        ⟨x.2, x.1, some msec⟩
      else ⟨0, sets.zero nfds, some msec⟩

section sets

variable {nfds : ℤ} {set : Finset ℕ} {fd : ℕ} {sets : SelectSets} {file : ℕ → PollFile} {mask : PollMask}

theorem mem_fdszero : fd ∈ fdszero set nfds ↔ fd ∈ set ∧ (nfds.toNat + 63) / 64 ≤ fd / 64 := by
  unfold fdszero
  generalize (nfds.toNat + 63) / 64 = n
  induction n with
  | zero => simp
  | succ n ih =>
    rw [List.range_succ, List.foldl_append, List.foldl_cons, List.foldl_nil, Finset.mem_filter, ih, and_assoc]
    exact and_congr_right fun _ => by omega

theorem lt_of_mem_fdszero (h : fd ∈ fdszero set nfds) : ¬fd < nfds.toNat := by
  have hle := (mem_fdszero.mp h).2
  omega

theorem polled_pollset : polled file (sets.pollset nfds) =
    ((List.range nfds.toNat).filter sets.wanted).map fun fd => (fd, doPollfd (sets.events fd) (file fd)) := by
  simp only [polled, SelectSets.pollset, List.map_map, Function.comp_def]

def unpackSet (mask : PollMask) (l : List (ℕ × PollMask)) (set : Finset ℕ) : Finset ℕ :=
  set ∪ ((l.filter (raised mask ·.2)).map (·.1)).toFinset

def unpackCount (mask : PollMask) (l : List (ℕ × PollMask)) : Option (Finset ℕ) → ℕ
  | some _ => l.countP (raised mask ·.2)
  | none => 0

theorem setFd_fst (mask revents : PollMask) (fd : ℕ) (l : List (ℕ × PollMask)) (set : Option (Finset ℕ)) :
    (setFd mask revents fd set).1.map (unpackSet mask l) = set.map (unpackSet mask ((fd, revents) :: l)) := by
  cases set with
  | none => rfl
  | some set =>
    unfold setFd unpackSet
    cases h : raised mask revents with
    | true => simp [h]
    | false => simp [h]

theorem setFd_snd (mask revents : PollMask) (fd : ℕ) (l : List (ℕ × PollMask)) (set : Option (Finset ℕ)) :
    (setFd mask revents fd set).2 + unpackCount mask l (setFd mask revents fd set).1 =
      unpackCount mask ((fd, revents) :: l) set := by
  cases set with
  | none => rfl
  | some set =>
    unfold setFd unpackCount
    cases h : raised mask revents with
    | true => simp [h, Nat.add_comm]
    | false => simp [h]

theorem foldl_unpackFd (l : List (ℕ × PollMask)) (x : SelectSets × ℕ) :
    l.foldl unpackFd x =
      (⟨x.1.readfds.map (unpackSet (pollin ||| pollhup) l), x.1.writefds.map (unpackSet pollout l),
        x.1.exceptfds.map (unpackSet pollerr l)⟩,
        x.2 + unpackCount (pollin ||| pollhup) l x.1.readfds + unpackCount pollout l x.1.writefds +
          unpackCount pollerr l x.1.exceptfds) := by
  induction l generalizing x with
  | nil =>
    obtain ⟨⟨r, w, e⟩, n⟩ := x
    cases r <;> cases w <;> cases e <;> simp [unpackSet, unpackCount]
  | cons p l ih =>
    rw [List.foldl_cons, ih]
    have hr := setFd_snd (pollin ||| pollhup) p.2 p.1 l x.1.readfds
    have hw := setFd_snd pollout p.2 p.1 l x.1.writefds
    have he := setFd_snd pollerr p.2 p.1 l x.1.exceptfds
    simp only [unpackFd, setFd_fst, Prod.mk.eta] at hr hw he ⊢
    congr 1
    omega

theorem foldl_unpackFd_of_zero {l : List (ℕ × PollMask)} (h : ∀ p ∈ l, p.2 = 0) (x : SelectSets × ℕ) :
    l.foldl unpackFd x = x := by
  have hnone (mask : PollMask) : ∀ p ∈ l, ¬raised mask p.2 = true := by
    intro p hp
    rw [h p hp]
    simp [raised]
  have hset (mask : PollMask) : unpackSet mask l = id := by
    funext set
    rw [unpackSet, List.filter_eq_nil_iff.mpr (hnone mask)]
    simp
  have hcount (mask : PollMask) (set : Option (Finset ℕ)) : unpackCount mask l set = 0 := by
    cases set with
    | none => rfl
    | some set => exact List.countP_eq_zero.mpr (hnone mask)
  rw [foldl_unpackFd]
  simp only [hset, hcount, Option.map_id, id_eq, Nat.add_zero]

/-- What `select` leaves in one of its sets. -/
def selected (mask : PollMask) (nfds : ℤ) (l : List (ℕ × PollMask)) (set : Option (Finset ℕ)) : Option (Finset ℕ) :=
  set.map fun set => unpackSet mask l (fdszero set nfds)

theorem select_scanned {timeout : Option Timeval} {alloc : Bool} (halloc : alloc = true ∨ sets.pollset nfds = []) :
    select nfds sets timeout alloc (.scanned file) =
      ⟨(unpackCount (pollin ||| pollhup) (polled file (sets.pollset nfds)) sets.readfds +
          unpackCount pollout (polled file (sets.pollset nfds)) sets.writefds +
            unpackCount pollerr (polled file (sets.pollset nfds)) sets.exceptfds : ℕ),
        ⟨selected (pollin ||| pollhup) nfds (polled file (sets.pollset nfds)) sets.readfds,
          selected pollout nfds (polled file (sets.pollset nfds)) sets.writefds,
          selected pollerr nfds (polled file (sets.pollset nfds)) sets.exceptfds⟩,
        some (selectMsec timeout)⟩ := by
  have hcalled : ¬(sets.pollset nfds ≠ [] ∧ alloc = false) := by
    rcases halloc with h | h <;> simp [h]
  have hcount (mask : PollMask) (l : List (ℕ × PollMask)) (set : Option (Finset ℕ)) :
      unpackCount mask l (set.map (fdszero · nfds)) = unpackCount mask l set := by
    cases set <;> rfl
  have hfold := foldl_unpackFd (polled file (sets.pollset nfds)) (sets.zero nfds, 0)
  simp only [SelectSets.zero, hcount, Option.map_map, Nat.zero_add] at hfold
  unfold select
  rw [if_neg hcalled]
  dsimp only
  by_cases hfound : 0 < (polled file (sets.pollset nfds)).countP (·.2 ≠ 0)
  · rw [if_pos hfound, SelectSets.zero, hfold]
    rfl
  · rw [if_neg hfound]
    have hzero : ∀ p ∈ polled file (sets.pollset nfds), p.2 = 0 := by
      simpa [List.countP_eq_zero] using hfound
    rw [foldl_unpackFd_of_zero hzero] at hfold
    obtain ⟨hsets, hret⟩ := Prod.mk.inj hfold
    rw [SelectSets.zero, hsets, ← hret]
    rfl

theorem mem_selected (hfd : fd < nfds.toNat) {s : Finset ℕ} :
    fd ∈ unpackSet mask (polled file (sets.pollset nfds)) (fdszero s nfds) ↔
      sets.wanted fd = true ∧ raised mask (doPollfd (sets.events fd) (file fd)) = true := by
  rw [unpackSet, Finset.mem_union, or_iff_right fun h => lt_of_mem_fdszero h hfd, polled_pollset]
  have hlt : (fd : ℤ) < nfds := by omega
  simp [hlt]

theorem card_selected {s : Finset ℕ} :
    ((unpackSet mask (polled file (sets.pollset nfds)) (fdszero s nfds)).filter (· < nfds.toNat)).card =
      (polled file (sets.pollset nfds)).countP (raised mask ·.2) := by
  set l := (List.range nfds.toNat).filter sets.wanted with hl
  have hnodup : (l.filter fun fd => raised mask (doPollfd (sets.events fd) (file fd))).Nodup :=
    (List.nodup_range.filter _).filter _
  have hset : (unpackSet mask (polled file (sets.pollset nfds)) (fdszero s nfds)).filter (· < nfds.toNat) =
      (l.filter fun fd => raised mask (doPollfd (sets.events fd) (file fd))).toFinset := by
    ext fd
    rw [Finset.mem_filter, List.mem_toFinset, List.mem_filter, hl, List.mem_filter, List.mem_range]
    constructor
    · rintro ⟨hmem, hlt⟩
      obtain ⟨hw, hr⟩ := (mem_selected hlt).mp hmem
      exact ⟨⟨hlt, hw⟩, hr⟩
    · rintro ⟨⟨hlt, hw⟩, hr⟩
      exact ⟨(mem_selected hlt).mpr ⟨hw, hr⟩, hlt⟩
  rw [hset, List.toFinset_card_of_nodup hnodup, polled_pollset, List.countP_map, ← List.countP_eq_length_filter]
  rfl

theorem pollInterest_events_in (h : fdIsset fd sets.readfds = false) :
    pollInterest (sets.events fd) &&& (pollin ||| pollhup) = pollhup := by
  unfold SelectSets.events
  rw [h]
  cases fdIsset fd sets.writefds <;> decide

theorem pollInterest_events_out (h : fdIsset fd sets.writefds = false) :
    pollInterest (sets.events fd) &&& pollout = 0 := by
  unfold SelectSets.events
  rw [h]
  cases fdIsset fd sets.readfds <;> decide

theorem pollInterest_events_err : pollInterest (sets.events fd) &&& pollerr = pollerr := by
  unfold SelectSets.events
  cases fdIsset fd sets.readfds <;> cases fdIsset fd sets.writefds <;> decide

theorem raised_in (f : PollFile) (h : fdIsset fd sets.readfds = false) :
    raised (pollin ||| pollhup) (doPollfd (sets.events fd) f) = f.raises pollhup := by
  cases f with
  | invalid =>
    rw [doPollfd]
    decide
  | always =>
    rw [doPollfd, raised, BitVec.and_assoc, pollInterest_events_in h]
    rfl
  | driver mask =>
    rw [doPollfd, raised, BitVec.and_assoc, pollInterest_events_in h]
    rfl

theorem raised_out (f : PollFile) (h : fdIsset fd sets.writefds = false) :
    raised pollout (doPollfd (sets.events fd) f) = false := by
  cases f with
  | invalid =>
    rw [doPollfd]
    decide
  | always =>
    rw [doPollfd, raised, BitVec.and_assoc, pollInterest_events_out h]
    rfl
  | driver mask =>
    rw [doPollfd, raised, BitVec.and_assoc, pollInterest_events_out h]
    simp

theorem raised_err (f : PollFile) : raised pollerr (doPollfd (sets.events fd) f) = f.raises pollerr := by
  cases f with
  | invalid =>
    rw [doPollfd]
    decide
  | always =>
    rw [doPollfd, raised, BitVec.and_assoc, pollInterest_events_err]
    rfl
  | driver mask =>
    rw [doPollfd, raised, BitVec.and_assoc, pollInterest_events_err]
    rfl

end sets

/-- The number of milliseconds that `select` computes, before it becomes an `int`. -/
def Timeval.millis (t : Timeval) : ℤ := t.tvSec * 1000 + t.tvUsec.tdiv 1000

/-- Whole milliseconds that fit into an `int`; a negative time may wrap to one that is not. -/
def Timeval.Fits (t : Timeval) : Prop :=
  if 0 ≤ t.millis then t.tvUsec % 1000 = 0 ∧ t.millis < 2 ^ 31 else t.millis % 2 ^ 32 < 2 ^ 31

theorem selectMsec_iff (t : Timeval) :
    0 ≤ selectMsec (some t) ∧ t.tvSec * 1000000 + t.tvUsec ≤ selectMsec (some t) * 1000 ↔ t.Fits := by
  have h0 := t.nonneg
  have hlt := t.lt
  have hdiv : t.tvUsec.tdiv 1000 = t.tvUsec / 1000 := Int.tdiv_eq_ediv_of_nonneg h0
  have hm : selectMsec (some t) = t.millis.bmod (2 ^ 32) := rfl
  have hmillis : t.millis = t.tvSec * 1000 + t.tvUsec / 1000 := by rw [Timeval.millis, hdiv]
  rw [hm, Timeval.Fits, Int.bmod_def]
  generalize t.millis = ms at hmillis
  generalize t.tvSec = sec at hmillis ⊢
  generalize t.tvUsec = usec at h0 hlt hmillis ⊢
  clear hm hdiv
  norm_num
  split <;> split <;> omega

/-- One of the bits came back from `poll` for the descriptor. -/
def PollReturn.Returned (answer : PollReturn) (sets : SelectSets) (fd : ℕ) (mask : PollMask) : Prop :=
  match answer with
  | .failed _ => False
  | .scanned file => sets.wanted fd = true ∧ raised mask (doPollfd (sets.events fd) (file fd)) = true

structure SlotAgrees (nfds : ℤ) (sets : SelectSets) (answer : PollReturn) (mask : PollMask)
    (before after : Option (Finset ℕ)) : Prop where
  subset : ∀ fd, fdIsset fd after = true → fdIsset fd before = true
  reported : ∀ fd < nfds.toNat, fdIsset fd after = true → answer.Returned sets fd mask

def bits (nfds : ℤ) : Option (Finset ℕ) → ℕ
  | some set => (set.filter (· < nfds.toNat)).card
  | none => 0

/-- `select` agrees with the `poll` that it called. -/
structure SelectAgrees (nfds : ℤ) (sets : SelectSets) (timeout : Option Timeval) (answer : PollReturn)
    (r : SelectResult) : Prop where
  read : SlotAgrees nfds sets answer (pollin ||| pollhup) sets.readfds r.sets.readfds
  write : SlotAgrees nfds sets answer pollout sets.writefds r.sets.writefds
  except : SlotAgrees nfds sets answer pollerr sets.exceptfds r.sets.exceptfds
  /-- The errors of `poll` are passed on. -/
  ret : r.ret = match answer with
    | .failed errno => .negSucc errno
    | .scanned _ => bits nfds r.sets.readfds + bits nfds r.sets.writefds + bits nfds r.sets.exceptfds
  timeout : ∀ t, timeout = some t → ∀ m, r.msec = some m → 0 ≤ m ∧ t.tvSec * 1000000 + t.tvUsec ≤ m * 1000

/-- No driver reports the end or an error of a descriptor to a set that the descriptor is not in. -/
def Quiet (nfds : ℤ) (sets : SelectSets) (answer : PollReturn) : Prop :=
  ∀ file, answer = .scanned file → ∀ fd < nfds.toNat, sets.wanted fd = true →
    (sets.readfds.isSome → (file fd).raises pollhup = true → fdIsset fd sets.readfds = true) ∧
      (sets.exceptfds.isSome → (file fd).raises pollerr = true → fdIsset fd sets.exceptfds = true)

section agrees

variable {nfds : ℤ} {sets : SelectSets} {timeout : Option Timeval} {alloc : Bool} {answer : PollReturn} {fd : ℕ}
  {file : ℕ → PollFile} {mask : PollMask} {set : Option (Finset ℕ)}

theorem isset_selected (hfd : fd < nfds.toNat) :
    fdIsset fd (selected mask nfds (polled file (sets.pollset nfds)) set) = true ↔
      set.isSome ∧ sets.wanted fd = true ∧ raised mask (doPollfd (sets.events fd) (file fd)) = true := by
  cases set with
  | none => simp [fdIsset, selected]
  | some s => simp [fdIsset, selected, mem_selected hfd]

theorem isset_zero (h : fdIsset fd (set.map (fdszero · nfds)) = true) :
    fdIsset fd set = true ∧ ¬fd < nfds.toNat := by
  cases set with
  | none => exact nomatch h
  | some s =>
    have hmem : fd ∈ fdszero s nfds := by simpa [fdIsset] using h
    exact ⟨by simpa [fdIsset] using (mem_fdszero.mp hmem).1, lt_of_mem_fdszero hmem⟩

theorem isset_selected_of_ge (hfd : ¬fd < nfds.toNat)
    (h : fdIsset fd (selected mask nfds (polled file (sets.pollset nfds)) set) = true) : fdIsset fd set = true := by
  cases set with
  | none => exact nomatch h
  | some s =>
    have hmem : fd ∈ unpackSet mask (polled file (sets.pollset nfds)) (fdszero s nfds) := by
      simpa [fdIsset, selected] using h
    rw [unpackSet, Finset.mem_union] at hmem
    rcases hmem with hmem | hmem
    · simpa [fdIsset] using (mem_fdszero.mp hmem).1
    · rw [List.mem_toFinset, List.mem_map] at hmem
      obtain ⟨p, hp, rfl⟩ := hmem
      rw [polled_pollset] at hp
      obtain ⟨fd, hrange, rfl⟩ := List.mem_map.mp (List.mem_filter.mp hp).1
      exact absurd (List.mem_range.mp (List.mem_filter.mp hrange).1) hfd

theorem SlotAgrees.selected (h : ∀ fd < nfds.toNat, sets.wanted fd = true → set.isSome →
      raised mask (doPollfd (sets.events fd) (file fd)) = true → fdIsset fd set = true) :
    SlotAgrees nfds sets (.scanned file) mask set (selected mask nfds (polled file (sets.pollset nfds)) set) where
  subset fd hset := by
    by_cases hfd : fd < nfds.toNat
    · obtain ⟨hsome, hw, hr⟩ := (isset_selected hfd).mp hset
      exact h fd hfd hw hsome hr
    · exact isset_selected_of_ge hfd hset
  reported fd hfd hset := ((isset_selected hfd).mp hset).2

theorem SlotAgrees.failed (errno : ℕ) : SlotAgrees nfds sets (.failed errno) mask set (set.map (fdszero · nfds)) where
  subset _ hset := (isset_zero hset).1
  reported _ hfd hset := absurd hfd (isset_zero hset).2

theorem bits_selected : bits nfds (selected mask nfds (polled file (sets.pollset nfds)) set) =
    unpackCount mask (polled file (sets.pollset nfds)) set := by
  cases set with
  | none => rfl
  | some s => exact card_selected

theorem select_failed (errno : ℕ) (halloc : alloc = true ∨ sets.pollset nfds = []) :
    select nfds sets timeout alloc (.failed errno) = ⟨.negSucc errno, sets.zero nfds, some (selectMsec timeout)⟩ := by
  have hcalled : ¬(sets.pollset nfds ≠ [] ∧ alloc = false) := by
    rcases halloc with h | h <;> simp [h]
  unfold select
  rw [if_neg hcalled]

theorem agrees_of_quiet (halloc : alloc = true ∨ sets.pollset nfds = []) (hquiet : Quiet nfds sets answer)
    (hfits : ∀ t, timeout = some t → t.Fits) :
    SelectAgrees nfds sets timeout answer (select nfds sets timeout alloc answer) := by
  have htime : ∀ t, timeout = some t → ∀ m, some (selectMsec timeout) = some m →
      0 ≤ m ∧ t.tvSec * 1000000 + t.tvUsec ≤ m * 1000 := by
    rintro t rfl m hm
    rw [← Option.some.inj hm]
    exact (selectMsec_iff t).mpr (hfits t rfl)
  cases answer with
  | failed errno =>
    rw [select_failed errno halloc]
    exact ⟨.failed errno, .failed errno, .failed errno, rfl, htime⟩
  | scanned file =>
    rw [select_scanned halloc]
    refine ⟨.selected ?_, .selected ?_, .selected ?_, ?_, htime⟩
    · intro fd hfd hw hsome hr
      cases hset : fdIsset fd sets.readfds with
      | true => rfl
      | false =>
        rw [raised_in _ hset] at hr
        exact hset ▸ (hquiet file rfl fd hfd hw).1 hsome hr
    · intro fd hfd hw hsome hr
      cases hset : fdIsset fd sets.writefds with
      | true => rfl
      | false =>
        rw [raised_out _ hset] at hr
        exact hr
    · intro fd hfd hw hsome hr
      rw [raised_err] at hr
      exact (hquiet file rfl fd hfd hw).2 hsome hr
    · dsimp only
      rw [bits_selected, bits_selected, bits_selected]
      push_cast
      rfl

theorem quiet_of_agrees (halloc : alloc = true ∨ sets.pollset nfds = [])
    (h : SelectAgrees nfds sets timeout answer (select nfds sets timeout alloc answer)) : Quiet nfds sets answer := by
  rintro file rfl fd hfd hw
  rw [select_scanned halloc] at h
  constructor
  · intro hsome hup
    cases hset : fdIsset fd sets.readfds with
    | true => rfl
    | false =>
      rw [← raised_in (file fd) hset] at hup
      exact hset ▸ h.read.subset fd ((isset_selected hfd).mpr ⟨hsome, hw, hup⟩)
  · intro hsome herr
    rw [← @raised_err fd sets] at herr
    exact h.except.subset fd ((isset_selected hfd).mpr ⟨hsome, hw, herr⟩)

theorem select_msec_isSome : (select nfds sets timeout alloc answer).msec.isSome = true ↔
    alloc = true ∨ sets.pollset nfds = [] := by
  by_cases halloc : alloc = true ∨ sets.pollset nfds = []
  · cases answer with
    | failed errno => simp [select_failed errno halloc, halloc]
    | scanned file => simp [select_scanned halloc, halloc]
  · have hcalled : sets.pollset nfds ≠ [] ∧ alloc = false := by
      simpa [not_or, and_comm] using halloc
    simp [select, hcalled]

end agrees

/-- A `select` that calls `poll` agrees with it as long as the drivers report ends and errors to the right sets and the
time fits. -/
theorem select_agrees_iff (nfds : ℤ) (sets : SelectSets) (timeout : Option Timeval) (alloc : Bool)
    (answer : PollReturn) :
    ((select nfds sets timeout alloc answer).msec.isSome = true →
        SelectAgrees nfds sets timeout answer (select nfds sets timeout alloc answer)) ↔
      (alloc = true ∨ sets.pollset nfds = [] → Quiet nfds sets answer ∧ ∀ t, timeout = some t → t.Fits) := by
  rw [select_msec_isSome]
  refine forall_congr' fun halloc => ⟨fun h => ⟨quiet_of_agrees halloc h, ?_⟩, fun h => agrees_of_quiet halloc h.1 h.2⟩
  rintro t rfl
  have hmsec : (select nfds sets (some t) alloc answer).msec = some (selectMsec (some t)) := by
    cases answer with
    | failed errno => rw [select_failed errno halloc]
    | scanned file => rw [select_scanned halloc]
  exact (selectMsec_iff t).mp (h.timeout t rfl _ hmsec)

/-- A descriptor in the write set alone whose peer is gone is reported readable, half a millisecond becomes none, and
25 days become a wait for ever. -/
theorem select_reports_unasked :
    ¬SelectAgrees 1 ⟨some ∅, some {0}, none⟩ none (.scanned fun _ => .driver 0x08)
        (select 1 ⟨some ∅, some {0}, none⟩ none true (.scanned fun _ => .driver 0x08)) ∧
      ¬SelectAgrees 0 ⟨none, none, none⟩ (some ⟨0, 500, by decide, by decide⟩) (.scanned fun _ => .invalid)
        (select 0 ⟨none, none, none⟩ (some ⟨0, 500, by decide, by decide⟩) true (.scanned fun _ => .invalid)) ∧
      ¬SelectAgrees 0 ⟨none, none, none⟩ (some ⟨2147484, 0, by decide, by decide⟩) (.scanned fun _ => .invalid)
        (select 0 ⟨none, none, none⟩ (some ⟨2147484, 0, by decide, by decide⟩) true (.scanned fun _ => .invalid)) := by
  refine ⟨fun h => ?_, fun h => ?_, fun h => ?_⟩
  · exact absurd (h.read.subset 0 (by decide)) (by decide)
  · exact absurd (h.timeout _ rfl 0 (by decide)).2 (by decide)
  · exact absurd (h.timeout _ rfl (-2147483296) (by decide)).1 (by decide)

end RtSmart
