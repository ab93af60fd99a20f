import RtSmart.Drivers.Ringbuffer
import RtSmart.Lib.Transition

/-!
A pipe (`pipe.c`) and the descriptors and threads that use it. A step of a read or a write is one turn of
its loop, made with the pipe's lock held; a thread that waits takes its next turn at any time. Opening and
closing a descriptor are one step each, and a descriptor is not closed while a call on it is going on.
-/

namespace RtSmart

open Lib

def oRdonly : ℕ := 0
def oWronly : ℕ := 1
def oRdwr : ℕ := 2

inductive PipeAccess
  | rdonly
  | wronly
  | rdwr
deriving DecidableEq

def PipeAccess.flags : PipeAccess → ℕ
  | .rdonly => oRdonly
  | .wronly => oWronly
  | .rdwr => oRdwr

structure PipeFd where
  id : ℕ
  access : PipeAccess
  nonblock : Bool
deriving DecidableEq

structure Pipe where
  isNamed : Bool
  bufsz : ℕ
  fifo : Option RtRingbuffer
  writer : Bool
  reader : Bool

inductive PipePc
  | idle
  | reading (fd : PipeFd) (count : ℕ)
  /-- `data` is still to be written, `ret` bytes have been. -/
  | writing (fd : PipeFd) (data : List UInt8) (ret : ℕ)
deriving DecidableEq

def PipePc.fd : PipePc → Option PipeFd
  | .idle => none
  | .reading fd _ => some fd
  | .writing fd _ _ => some fd

inductive PipeRet
  | read (bytes : List UInt8)
  | wrote (n : ℕ)
  | eagain
  | epipe
deriving DecidableEq

/-- `active` are the threads inside a call; `written` and `received` the bytes that went into the ring
buffer and came out of it since it was created. -/
structure PipeSys where
  pipe : Pipe
  fds : List PipeFd
  deleted : Bool
  pc : ℕ → PipePc
  active : List ℕ
  ret : ℕ → Option PipeRet
  written : List UInt8
  received : List UInt8

/-- `rt_pipe_create`; `pipe` clears `is_named` afterwards. -/
def PipeSys.init (isNamed : Bool) (bufsz : ℕ) : PipeSys :=
  ⟨⟨isNamed, bufsz, none, false, false⟩, [], false, fun _ => .idle, [], fun _ => none, [], []⟩

inductive PipeEvent
  | openFd (fd : PipeFd) (mem : Option (ℕ → UInt8))
  | closeFd (fd : PipeFd)
  | read (t : ℕ) (fd : PipeFd) (count : ℕ)
  | write (t : ℕ) (fd : PipeFd) (data : List UInt8)
  | turn (t : ℕ)

namespace PipeSys

def finish (s : PipeSys) (t : ℕ) (r : PipeRet) : PipeSys :=
  { s with
    pc := Function.update s.pc t .idle
    active := s.active.filter (· ≠ t)
    ret := Function.update s.ret t (some r) }

def begin (s : PipeSys) (t : ℕ) (pc : PipePc) : PipeSys :=
  { s with pc := Function.update s.pc t pc, active := t :: s.active }

/-- `mem` is the memory that `rt_ringbuffer_create` gets, if it gets any. -/
def pipeFopsOpen (align : ℕ) (s : PipeSys) (fd : PipeFd) (mem : Option (ℕ → UInt8)) : PipeSys :=
  let pipe := { s.pipe with
    reader := s.pipe.reader || fd.access.flags &&& oRdonly == oRdonly
    writer := s.pipe.writer || fd.access.flags &&& oWronly == oWronly }
  if s.fds = [] then
    match mem with
    | none => { s with pipe := pipe }
    | some pool => { s with pipe := { pipe with fifo := some (rtRingbufferInit align pool pipe.bufsz) }, fds := [fd] }
  else { s with pipe := pipe, fds := fd :: s.fds }

def pipeFopsClose (s : PipeSys) (fd : PipeFd) : PipeSys :=
  let pipe := { s.pipe with
    reader := if fd.access.flags &&& oRdonly == oRdonly then false else s.pipe.reader
    writer := if fd.access.flags &&& oWronly == oWronly then false else s.pipe.writer }
  if s.fds.length = 1 then
    { s with
      pipe := { pipe with fifo := none }
      fds := []
      deleted := !pipe.isNamed
      written := []
      received := [] }
  else { s with pipe := pipe, fds := s.fds.erase fd }

/-- One turn of the loop of `pipe_fops_read`. -/
def pipeFopsRead (s : PipeSys) (t : ℕ) (fd : PipeFd) (count : ℕ) : Option PipeSys :=
  s.pipe.fifo.map fun rb =>
    let r := rtRingbufferGet rb (fun _ => 0) (UInt16.ofNat count)
    let bytes := (List.range r.2.2).map r.2.1
    let s := { s with pipe := { s.pipe with fifo := some r.1 }, received := s.received ++ bytes }
    if 0 < r.2.2 ∨ s.pipe.writer = false then s.finish t (.read bytes)
    else if fd.nonblock then s.finish t .eagain
    else s

/-- One turn of the loop of `pipe_fops_write`. -/
def pipeFopsWrite (s : PipeSys) (t : ℕ) (fd : PipeFd) (data : List UInt8) (ret : ℕ) : Option PipeSys :=
  s.pipe.fifo.map fun rb =>
    let r := rtRingbufferPut rb (fun i => data.getD i 0) (UInt16.ofNat data.length)
    let s := { s with pipe := { s.pipe with fifo := some r.1 }, written := s.written ++ data.take r.2 }
    let ret := ret + r.2
    let data := data.drop r.2
    if data = [] then s.finish t (.wrote ret)
    else if fd.nonblock then s.finish t (if ret = 0 then .eagain else .wrote ret)
    else { s with pc := Function.update s.pc t (.writing fd data ret) }

/-- `fd_get_ref` keeps a descriptor open until the calls on it have returned. -/
def busy (s : PipeSys) (fd : PipeFd) : Bool :=
  s.active.any fun t => (s.pc t).fd == some fd

def step (align : ℕ) (s : PipeSys) : PipeEvent → Option PipeSys
  | .openFd fd mem =>
    if s.deleted = false ∧ ∀ fd' ∈ s.fds, fd'.id ≠ fd.id then some (s.pipeFopsOpen align fd mem) else none
  | .closeFd fd => if fd ∈ s.fds ∧ s.busy fd = false then some (s.pipeFopsClose fd) else none
  | .read t fd count => if s.pc t = .idle ∧ fd ∈ s.fds then some (s.begin t (.reading fd count)) else none
  | .write t fd data =>
    if s.pc t = .idle ∧ fd ∈ s.fds then
      some (if data = [] then s.finish t (.wrote 0) else s.begin t (.writing fd data 0))
    else none
  | .turn t =>
    match s.pc t with
    | .idle => none
    | .reading fd count => s.pipeFopsRead t fd count
    | .writing fd data ret => s.pipeFopsWrite t fd data ret

/-- The descriptor is open for writing. -/
def writes (fd : PipeFd) : Bool := fd.access != .rdonly

/-- `O_RDWR` is asked for only while the writer flag is set, an `O_WRONLY` descriptor is closed only as the
last one open for writing, and a read asks for a number of bytes that the ring buffer does not take for
none. -/
def Counted (s : PipeSys) : PipeEvent → Prop
  | .openFd fd _ => fd.access = .rdwr → s.pipe.writer = true
  | .closeFd fd => fd.access = .wronly → ∀ fd' ∈ s.fds, fd' ≠ fd → writes fd' = false
  | .read _ _ count => count % 2 ^ 16 ≠ 0
  | _ => True

instance (s : PipeSys) (e : PipeEvent) : Decidable (s.Counted e) :=
  match e with
  | .openFd fd _ => inferInstanceAs (Decidable (fd.access = .rdwr → s.pipe.writer = true))
  | .closeFd fd => inferInstanceAs (Decidable (fd.access = .wronly → ∀ fd' ∈ s.fds, fd' ≠ fd → writes fd' = false))
  | .read _ _ count => inferInstanceAs (Decidable (count % 2 ^ 16 ≠ 0))
  | .write _ _ _ => isTrue trivial
  | .turn _ => isTrue trivial

/-- What the ring buffer holds. -/
def contents (s : PipeSys) : List UInt8 :=
  match s.pipe.fifo with
  | none => []
  | some rb => rb.contents

end PipeSys

structure PipeInv (align bufsz : ℕ) (s : PipeSys) : Prop where
  size : s.pipe.bufsz = bufsz
  fifo : match s.pipe.fifo with
    | none => s.fds = [] ∧ s.written = [] ∧ s.received = []
    | some rb => s.fds ≠ [] ∧ RtRingbuffer.Refines (rtAlignDown bufsz align) rb rb.contents ∧
        s.written = s.received ++ rb.contents
  ids : (s.fds.map PipeFd.id).Nodup
  active : ∀ t, s.pc t ≠ .idle → t ∈ s.active
  held : ∀ t fd, (s.pc t).fd = some fd → fd ∈ s.fds
  counts : ∀ t fd count, s.pc t = .reading fd count → count % 2 ^ 16 ≠ 0
  writer : ∀ fd ∈ s.fds, PipeSys.writes fd = true → s.pipe.writer = true
  noEpipe : ∀ t, s.ret t ≠ some .epipe

section buffer

variable {rb : RtRingbuffer} {capacity : ℕ} (ptr : ℕ → UInt8) (length : UInt16) (data : List UInt8)

theorem refines_get (h : RtRingbuffer.Refines capacity rb rb.contents) :
    RtRingbuffer.Refines capacity (rtRingbufferGet rb ptr length).1 (rtRingbufferGet rb ptr length).1.contents ∧
      (rtRingbufferGet rb ptr length).2.2 = min length.toNat rb.contents.length ∧
      rb.contents = (List.range (rtRingbufferGet rb ptr length).2.2).map (rtRingbufferGet rb ptr length).2.1 ++
        (rtRingbufferGet rb ptr length).1.contents := by
  obtain ⟨hr, hreply⟩ := h.get ptr length
  have hcontents : (rtRingbufferGet rb ptr length).1.contents = rb.contents.drop length.toNat := hr.2.2
  have hamount : (rtRingbufferGet rb ptr length).2.2 = min length.toNat rb.contents.length :=
    congrArg RingReply.amount hreply
  have hbytes : (List.range (rtRingbufferGet rb ptr length).2.2).map (rtRingbufferGet rb ptr length).2.1 =
      rb.contents.take length.toNat := congrArg RingReply.delivered hreply
  refine ⟨?_, hamount, ?_⟩
  · rw [hcontents]
    exact hr
  · rw [hbytes, hcontents, List.take_append_drop]

theorem map_getD_range {n : ℕ} (hn : n ≤ data.length) : (List.range n).map (fun i => data.getD i 0) = data.take n := by
  apply List.ext_getElem
  · simp [hn]
  · intro i h1 h2
    have hi : i < data.length := by simp at h1; omega
    simp [List.getD_eq_getElem?_getD, hi]

theorem put_amount (h : RtRingbuffer.Refines capacity rb rb.contents) :
    (rtRingbufferPut rb ptr length).2 = min length.toNat (capacity - rb.contents.length) := by
  obtain ⟨-, hreply⟩ := h.put ptr length
  have hamount : (rtRingbufferPut rb ptr length).2 =
      (ByteQueue.step capacity rb.contents (.put ptr length)).2.amount := congrArg RingReply.amount hreply
  simpa only [ByteQueue.step, ByteQueue.offer, ByteQueue.reply, List.length_map, List.length_range] using hamount

theorem refines_put (h : RtRingbuffer.Refines capacity rb rb.contents) :
    let r := rtRingbufferPut rb (fun i => data.getD i 0) (UInt16.ofNat data.length)
    RtRingbuffer.Refines capacity r.1 r.1.contents ∧ r.1.contents = rb.contents ++ data.take r.2 := by
  intro r
  obtain ⟨hr, -⟩ := h.put (fun i => data.getD i 0) (UInt16.ofNat data.length)
  have hn : (UInt16.ofNat data.length).toNat ≤ data.length := by
    rw [UInt16.toNat_ofNat']
    exact Nat.mod_le _ _
  have hamount : r.2 = min (UInt16.ofNat data.length).toNat (capacity - rb.contents.length) := put_amount _ _ h
  have hcontents : r.1.contents = rb.contents ++ data.take r.2 := by
    have hq : r.1.contents = rb.contents ++ ((List.range (UInt16.ofNat data.length).toNat).map
        (fun i => data.getD i 0)).take (capacity - rb.contents.length) := hr.2.2
    rw [hq, map_getD_range data hn, List.take_take, hamount, Nat.min_comm]
  have hq : r.1.contents = (ByteQueue.step capacity rb.contents
      (.put (fun i => data.getD i 0) (UInt16.ofNat data.length))).1 := hr.2.2
  refine ⟨?_, hcontents⟩
  rw [hq]
  exact hr

end buffer

namespace PipeInv

variable {align bufsz : ℕ} {s s' : PipeSys} {t : ℕ} {fd : PipeFd} {r : PipeRet}

theorem init (isNamed : Bool) : PipeInv align bufsz (.init isNamed bufsz) :=
  ⟨rfl, ⟨rfl, rfl, rfl⟩, .nil, fun _ h => absurd rfl h, by simp [PipeSys.init, PipePc.fd], by simp [PipeSys.init],
    by simp [PipeSys.init], by simp [PipeSys.init]⟩

theorem setPc {pc : PipePc} {active : List ℕ} (h : PipeInv align bufsz s) (ht : t ∈ active)
    (hsub : ∀ u ∈ s.active, u ∈ active) (hfd : ∀ fd, pc.fd = some fd → fd ∈ s.fds)
    (hcount : ∀ fd count, pc = .reading fd count → count % 2 ^ 16 ≠ 0) :
    PipeInv align bufsz { s with pc := Function.update s.pc t pc, active := active } := by
  have hother : ∀ u, u ≠ t → Function.update s.pc t pc u = s.pc u := fun u hu => Function.update_of_ne hu _ _
  have hself : Function.update s.pc t pc t = pc := Function.update_self _ _ _
  refine ⟨h.size, h.fifo, h.ids, fun u hu => ?_, fun u fd hu => ?_, fun u fd count hu => ?_, h.writer, h.noEpipe⟩
  · by_cases hut : u = t
    · exact hut ▸ ht
    · exact hsub u (h.active u (by rwa [← hother u hut]))
  · by_cases hut : u = t
    · subst hut
      exact hfd fd (by rwa [← hself])
    · exact h.held u fd (by rwa [← hother u hut])
  · by_cases hut : u = t
    · subst hut
      exact hcount fd count (hself.symm.trans hu)
    · exact h.counts u fd count ((hother u hut).symm.trans hu)

theorem finish (h : PipeInv align bufsz s) (hr : r ≠ .epipe) : PipeInv align bufsz (s.finish t r) := by
  have hother : ∀ u, u ≠ t → (s.finish t r).pc u = s.pc u := fun u hu => Function.update_of_ne hu _ _
  have hself : (s.finish t r).pc t = .idle := Function.update_self _ _ _
  refine ⟨h.size, h.fifo, h.ids, fun u hu => ?_, fun u fd hu => ?_, fun u fd count hu => ?_, h.writer, fun u => ?_⟩
  · have hut : u ≠ t := by
      rintro rfl
      exact hu hself
    rw [hother u hut] at hu
    exact List.mem_filter.mpr ⟨h.active u hu, by simpa using hut⟩
  · have hut : u ≠ t := by
      rintro rfl
      rw [hself] at hu
      cases hu
    rw [hother u hut] at hu
    exact h.held u fd hu
  · have hut : u ≠ t := by
      rintro rfl
      rw [hself] at hu
      cases hu
    exact h.counts u fd count ((hother u hut).symm.trans hu)
  · by_cases hut : u = t
    · subst hut
      simpa [PipeSys.finish] using hr
    · simpa [PipeSys.finish, hut] using h.noEpipe u

theorem setFifo {rb rb' : RtRingbuffer} {written received : List UInt8} (h : PipeInv align bufsz s)
    (hf : s.pipe.fifo = some rb) (hr : RtRingbuffer.Refines (rtAlignDown bufsz align) rb' rb'.contents)
    (hw : written = received ++ rb'.contents) :
    PipeInv align bufsz { s with pipe := { s.pipe with fifo := some rb' }, written := written, received := received } := by
  have hfifo := h.fifo
  rw [hf] at hfifo
  exact ⟨h.size, ⟨hfifo.1, hr, hw⟩, h.ids, h.active, h.held, h.counts, h.writer, h.noEpipe⟩

theorem read {count : ℕ} (h : PipeInv align bufsz s) (hs : s.pipeFopsRead t fd count = some s') : PipeInv align bufsz s' := by
  obtain ⟨rb, hf, rfl⟩ := Option.map_eq_some_iff.mp hs
  have hfifo := h.fifo
  rw [hf] at hfifo
  obtain ⟨hr, -, hbytes⟩ := refines_get (fun _ => 0) (UInt16.ofNat count) hfifo.2.1
  have hw := hfifo.2.2
  rw [hbytes, ← List.append_assoc] at hw
  have hset := h.setFifo hf hr hw
  dsimp only
  split_ifs
  · exact hset.finish (by simp)
  · exact hset.finish (by simp)
  · exact hset

theorem write {data : List UInt8} {ret : ℕ} (h : PipeInv align bufsz s) (ht : s.pc t = .writing fd data ret)
    (hs : s.pipeFopsWrite t fd data ret = some s') : PipeInv align bufsz s' := by
  obtain ⟨rb, hf, rfl⟩ := Option.map_eq_some_iff.mp hs
  have hfifo := h.fifo
  rw [hf] at hfifo
  obtain ⟨hr, hbytes⟩ := refines_put data hfifo.2.1
  have hw : s.written ++ data.take (rtRingbufferPut rb (fun i => data.getD i 0) (UInt16.ofNat data.length)).2 =
      s.received ++ (rtRingbufferPut rb (fun i => data.getD i 0) (UInt16.ofNat data.length)).1.contents := by
    rw [hbytes, ← List.append_assoc, ← hfifo.2.2]
  have hset := h.setFifo hf hr hw
  dsimp only
  split_ifs with hdata hnb
  · exact hset.finish (by simp)
  · exact hset.finish (by simp)
  · exact hset.finish (by simp)
  · apply hset.setPc
    · exact h.active t (by simp [ht])
    · exact fun u hu => hu
    · intro fd' hfd'
      exact h.held t fd' (by rw [ht]; exact hfd')
    · intro fd' count hpc
      cases hpc

theorem fifo_none (h : PipeInv align bufsz s) (hfds : s.fds = []) :
    s.pipe.fifo = none ∧ s.written = [] ∧ s.received = [] := by
  have hf := h.fifo
  cases hfifo : s.pipe.fifo with
  | none =>
    rw [hfifo] at hf
    exact ⟨rfl, hf.2⟩
  | some rb =>
    rw [hfifo] at hf
    exact absurd hfds hf.1

theorem open_writer (hok : fd.access = .rdwr → s.pipe.writer = true) (hw : PipeSys.writes fd = true) :
    (s.pipe.writer || fd.access.flags &&& oWronly == oWronly) = true := by
  cases ha : fd.access with
  | rdonly => simp [PipeSys.writes, ha] at hw
  | wronly => simp [PipeAccess.flags, oWronly]
  | rdwr => simp [hok ha]

theorem openFd {mem : Option (ℕ → UInt8)} (h : PipeInv align bufsz s) (hb : bufsz < 2 ^ 15)
    (hfresh : ∀ fd' ∈ s.fds, fd'.id ≠ fd.id) (hok : fd.access = .rdwr → s.pipe.writer = true) :
    PipeInv align bufsz (s.pipeFopsOpen align fd mem) := by
  have hwriter : ∀ fd' ∈ fd :: s.fds, PipeSys.writes fd' = true →
      (s.pipe.writer || fd.access.flags &&& oWronly == oWronly) = true := by
    intro fd' hmem hw
    rcases List.mem_cons.mp hmem with rfl | hmem
    · exact open_writer hok hw
    · simp [h.writer fd' hmem hw]
  unfold PipeSys.pipeFopsOpen
  dsimp only
  split_ifs with hfds
  · obtain ⟨hnone, hwritten, hreceived⟩ := h.fifo_none hfds
    cases mem with
    | none =>
      refine ⟨h.size, ?_, h.ids, h.active, h.held, h.counts, fun fd' hmem => ?_, h.noEpipe⟩
      · simp only [hnone]
        exact ⟨hfds, hwritten, hreceived⟩
      · simp [hfds] at hmem
    | some pool =>
      have hr := RtRingbuffer.refines_init align pool hb
      have hnil : (rtRingbufferInit align pool bufsz).contents = [] := hr.2.2
      refine ⟨h.size, ?_, by simp, h.active, fun u fd' hu => ?_, h.counts, fun fd' hmem hw => ?_, h.noEpipe⟩
      · simp only [h.size]
        refine ⟨by simp, ?_, ?_⟩
        · rw [hnil]
          exact hr
        · rw [hnil, hwritten, hreceived]
          rfl
      · have := h.held u fd' hu
        simp [hfds] at this
      · exact hwriter fd' (by rw [hfds]; exact hmem) hw
  · refine ⟨h.size, ?_, ?_, h.active, fun u fd' hu => List.mem_cons_of_mem _ (h.held u fd' hu), h.counts, hwriter, h.noEpipe⟩
    · have hf := h.fifo
      cases hfifo : s.pipe.fifo with
      | none =>
        rw [hfifo] at hf
        exact absurd hf.1 hfds
      | some rb =>
        rw [hfifo] at hf
        simp only
        exact ⟨by simp, hf.2⟩
    · rw [List.map_cons, List.nodup_cons]
      refine ⟨?_, h.ids⟩
      intro hmem
      obtain ⟨fd', hfd', hid⟩ := List.mem_map.mp hmem
      exact hfresh fd' hfd' hid

theorem closeFd (h : PipeInv align bufsz s) (hfd : fd ∈ s.fds) (hbusy : s.busy fd = false)
    (hok : fd.access = .wronly → ∀ fd' ∈ s.fds, fd' ≠ fd → PipeSys.writes fd' = false) :
    PipeInv align bufsz (s.pipeFopsClose fd) := by
  have hidle : ∀ u fd', (s.pc u).fd = some fd' → fd' ≠ fd := by
    rintro u fd' hu rfl
    have hact : u ∈ s.active := by
      apply h.active
      intro heq
      simp [heq, PipePc.fd] at hu
    have hany : s.busy fd' = true := List.any_eq_true.mpr ⟨u, hact, by simp [hu]⟩
    rw [hbusy] at hany
    cases hany
  have hnodup : s.fds.Nodup := h.ids.of_map
  unfold PipeSys.pipeFopsClose
  dsimp only
  by_cases hlen : s.fds.length = 1
  · rw [if_pos hlen]
    obtain ⟨fd₀, hone⟩ := List.length_eq_one_iff.mp hlen
    have hfd₀ : fd = fd₀ := by simpa [hone] using hfd
    refine ⟨h.size, ⟨rfl, rfl, rfl⟩, by simp, h.active, fun u fd' hu => ?_, h.counts, by simp, h.noEpipe⟩
    have := h.held u fd' hu
    rw [hone, List.mem_singleton, ← hfd₀] at this
    exact absurd this (hidle u fd' hu)
  · rw [if_neg hlen]
    refine ⟨h.size, ?_, ?_, h.active, fun u fd' hu => ?_, h.counts, fun fd' hmem hw => ?_, h.noEpipe⟩
    · have hf := h.fifo
      cases hfifo : s.pipe.fifo with
      | none =>
        rw [hfifo] at hf
        simp [hf.1] at hfd
      | some rb =>
        rw [hfifo] at hf
        simp only
        refine ⟨?_, hf.2⟩
        intro hnil
        have hl := List.length_erase_of_mem hfd
        have hpos := List.length_pos_of_mem hfd
        rw [hnil, List.length_nil] at hl
        omega
    · exact h.ids.sublist (List.erase_sublist.map _)
    · exact (List.mem_erase_of_ne (hidle u fd' hu)).mpr (h.held u fd' hu)
    · obtain ⟨hne, hmem⟩ := hnodup.mem_erase_iff.mp hmem
      have hwr := h.writer fd' hmem hw
      cases ha : fd.access with
      | wronly =>
        rw [hok ha fd' hmem hne] at hw
        cases hw
      | rdonly => simpa [PipeAccess.flags, oWronly, oRdonly] using hwr
      | rdwr => simpa [PipeAccess.flags, oWronly, oRdwr] using hwr

theorem contents_eq (h : PipeInv align bufsz s) : s.written = s.received ++ s.contents := by
  have hf := h.fifo
  unfold PipeSys.contents
  split at hf
  · rw [hf.2.1, hf.2.2, List.append_nil]
  · exact hf.2.2

theorem fifo_some (h : PipeInv align bufsz s) (hfd : fd ∈ s.fds) : ∃ rb, s.pipe.fifo = some rb := by
  cases hfifo : s.pipe.fifo with
  | none =>
    have hf := h.fifo
    rw [hfifo] at hf
    simp [hf.1] at hfd
  | some rb => exact ⟨rb, rfl⟩

theorem turn_isSome (h : PipeInv align bufsz s) (ht : s.pc t ≠ .idle) : ∃ s', s.step align (.turn t) = some s' := by
  cases hpc : s.pc t with
  | idle => exact absurd hpc ht
  | reading fd count =>
    obtain ⟨rb, hrb⟩ := h.fifo_some (h.held t fd (by rw [hpc]; rfl))
    exact Option.isSome_iff_exists.mp (by
      simp only [PipeSys.step, hpc, PipeSys.pipeFopsRead, hrb, Option.map_some, Option.isSome_some])
  | writing fd data ret =>
    obtain ⟨rb, hrb⟩ := h.fifo_some (h.held t fd (by rw [hpc]; rfl))
    exact Option.isSome_iff_exists.mp (by
      simp only [PipeSys.step, hpc, PipeSys.pipeFopsWrite, hrb, Option.map_some, Option.isSome_some])

theorem read_returns {count : ℕ} {bytes : List UInt8} (h : PipeInv align bufsz s) (ht : s.pc t = .reading fd count)
    (hs : s.step align (.turn t) = some s') (hidle : s'.pc t = .idle) (hret : s'.ret t = some (.read bytes)) :
    s'.received = s.received ++ bytes ∧
      (bytes = [] → s.contents = [] ∧ ∀ fd' ∈ s.fds, PipeSys.writes fd' = false) := by
  simp only [PipeSys.step, ht] at hs
  obtain ⟨rb, hf, rfl⟩ := Option.map_eq_some_iff.mp hs
  have hfifo := h.fifo
  rw [hf] at hfifo
  obtain ⟨-, hlen, -⟩ := refines_get (fun _ => 0) (UInt16.ofNat count) hfifo.2.1
  dsimp only at hidle hret ⊢
  split_ifs at hidle hret ⊢ with hend hnb
  · obtain rfl : _ = bytes := by simpa [PipeSys.finish] using hret
    refine ⟨rfl, fun hnil => ?_⟩
    have hzero : (rtRingbufferGet rb (fun _ => 0) (UInt16.ofNat count)).2.2 = 0 := by
      simpa using hnil
    have hwriter : s.pipe.writer = false := hend.resolve_left (by omega)
    refine ⟨?_, fun fd' hfd' => ?_⟩
    · have hcount := h.counts t fd count ht
      rw [hzero, UInt16.toNat_ofNat'] at hlen
      have hnone : rb.contents.length = 0 := by omega
      rw [PipeSys.contents, hf]
      exact List.length_eq_zero_iff.mp hnone
    · by_contra hw
      rw [h.writer fd' hfd' (by simpa using hw)] at hwriter
      cases hwriter
  · simp [PipeSys.finish] at hret
  · rw [show s.pc t = _ from ht] at hidle
    cases hidle

theorem step {e : PipeEvent} (h : PipeInv align bufsz s) (hb : bufsz < 2 ^ 15) (hok : s.Counted e)
    (hs : s.step align e = some s') : PipeInv align bufsz s' := by
  cases e with
  | openFd fd mem =>
    simp only [PipeSys.step] at hs
    split_ifs at hs with hfresh
    cases hs
    exact h.openFd hb hfresh.2 hok
  | closeFd fd =>
    simp only [PipeSys.step] at hs
    split_ifs at hs with hfd
    cases hs
    exact h.closeFd hfd.1 hfd.2 hok
  | read t fd count =>
    simp only [PipeSys.step] at hs
    split_ifs at hs with hfd
    cases hs
    apply h.setPc List.mem_cons_self fun u hu => List.mem_cons_of_mem _ hu
    · intro fd' hfd'
      exact Option.some.inj hfd' ▸ hfd.2
    · intro fd' count' hpc
      cases hpc
      exact hok
  | write t fd data =>
    simp only [PipeSys.step] at hs
    split_ifs at hs with hfd hdata
    · cases hs
      exact h.finish (by simp)
    · cases hs
      apply h.setPc List.mem_cons_self fun u hu => List.mem_cons_of_mem _ hu
      · intro fd' hfd'
        exact Option.some.inj hfd' ▸ hfd.2
      · intro fd' count' hpc
        cases hpc
  | turn t =>
    simp only [PipeSys.step] at hs
    split at hs
    · cases hs
    · exact h.read hs
    · next fd data ret ht => exact h.write ht hs

end PipeInv

/-- The bytes read are the bytes written, a read finds the end of the file only in an empty pipe that no
descriptor can write to, and no write fails with `EPIPE`. -/
theorem pipe_end_of_file {align bufsz : ℕ} {isNamed : Bool} {es : List PipeEvent} {s : PipeSys} (hb : bufsz < 2 ^ 15)
    (hs : run (PipeSys.step align) (.init isNamed bufsz) es = some s)
    (hok : Meets (PipeSys.step align) PipeSys.Counted (.init isNamed bufsz) es) :
    s.written = s.received ++ s.contents ∧
      (∀ t fd count bytes s', s.pc t = .reading fd count → s.step align (.turn t) = some s' → s'.pc t = .idle →
        s'.ret t = some (.read bytes) → s'.received = s.received ++ bytes ∧
          (bytes = [] → s.contents = [] ∧ ∀ fd' ∈ s.fds, PipeSys.writes fd' = false)) ∧
      (∀ t, s.pc t ≠ .idle → ∃ s', s.step align (.turn t) = some s') ∧ ∀ t, s.ret t ≠ some .epipe := by
  have h : PipeInv align bufsz s := run_invariant_of_meets (PipeInv align bufsz)
    (fun _ _ _ h hok hs => h.step hb hok hs) hs hok (PipeInv.init isNamed)
  exact ⟨h.contents_eq, fun t fd count bytes s' ht hs hidle hret => h.read_returns ht hs hidle hret,
    fun t ht => h.turn_isSome ht, h.noEpipe⟩

def pipeReader : PipeFd := ⟨0, .rdonly, false⟩
def pipeWriter (id : ℕ) : PipeFd := ⟨id, .wronly, false⟩

theorem pipe_end_of_file_example :
    ∃ s, run (PipeSys.step 8) (.init false 512) [.openFd pipeReader (some fun _ => 0), .openFd (pipeWriter 1) none,
        .write 7 (pipeWriter 1) [104, 105], .turn 7, .closeFd (pipeWriter 1), .read 8 pipeReader 16, .turn 8,
        .read 8 pipeReader 16, .turn 8] = some s ∧
      s.ret 8 = some (.read []) ∧ s.written = s.received ++ s.contents := by
  have hrun : ((run (PipeSys.step 8) (.init false 512) [.openFd pipeReader (some fun _ => 0), .openFd (pipeWriter 1) none,
        .write 7 (pipeWriter 1) [104, 105], .turn 7, .closeFd (pipeWriter 1), .read 8 pipeReader 16, .turn 8,
        .read 8 pipeReader 16, .turn 8]).any fun s => s.ret 8 == some (.read [])) = true := by
    decide +kernel
  obtain ⟨s, hs, hret⟩ := (Option.any_eq_true _ _).mp hrun
  exact ⟨s, hs, by simpa using hret, (pipe_end_of_file (by decide) hs (by decide +kernel)).1⟩

/-- One of two writers closes its descriptor, and the reader is told that the file has ended. -/
theorem end_of_file_with_writer : ¬ ∀ es s s' t fd count, run (PipeSys.step 8) (.init false 512) es = some s →
    s.pc t = .reading fd count → s.step 8 (.turn t) = some s' → s'.pc t = .idle → s'.ret t = some (.read []) →
      ∀ fd' ∈ s.fds, PipeSys.writes fd' = false := by
  intro h
  have hrun : ((run (PipeSys.step 8) (.init false 512) [.openFd pipeReader (some fun _ => 0), .openFd (pipeWriter 1) none,
        .openFd (pipeWriter 2) none, .closeFd (pipeWriter 1), .read 8 pipeReader 16]).any fun s =>
        decide (s.pc 8 = .reading pipeReader 16) && decide (pipeWriter 2 ∈ s.fds) &&
        (s.step 8 (.turn 8)).any fun s' => decide (s'.pc 8 = .idle) && decide (s'.ret 8 = some (.read []))) = true := by
    decide +kernel
  obtain ⟨s, hs, hp⟩ := (Option.any_eq_true _ _).mp hrun
  simp only [Bool.and_eq_true, decide_eq_true_eq, Option.any_eq_true] at hp
  obtain ⟨⟨hpc, hfd⟩, s', hs', hidle, hret⟩ := hp
  have := h _ s s' 8 _ _ hs hpc hs' hidle hret _ hfd
  revert this
  decide

end RtSmart
