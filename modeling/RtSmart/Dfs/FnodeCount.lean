import RtSmart.Dfs.Fnode

/-!
The count of a file node under two locks: `fd_free` counts down with `fdlock` held, `dfs_file_open` counts up and
down with the lock of the file manager held, and neither keeps the other from coming between its read and its write.
-/

namespace RtSmart

open Lib

inductive DfsLock
  | fd
  | fm
deriving DecidableEq

instance : Fintype DfsLock where
  elems := {.fd, .fm}
  complete l := by cases l <;> simp

namespace FdEvent

def caller : FdEvent → Option ℕ
  | newTable _ _ => none
  | fdNew c _ _ _ | fdGet c _ | openGet c | openFind c _ _ _ _ _ | openFlags c _ | opened c _ | openFailed c | release c
  | getRef c _ | put c | close c _ _ | fileClose c _ | closed c | dup c _ _ _ | dup2 c _ _ _ _ | associate c _ | retry c
  | retryNext c | mount c => some c

end FdEvent

namespace FdSys

variable (s : FdSys)

/-- The lock that is held from the beginning of a section to its end. -/
def lock : FdEvent → Option DfsLock
  | .openFind _ _ _ _ _ _ | .openFailed _ => some .fm
  | .fileClose c _ =>
    if (s.pc c).file.any fun d => (s.fds d).fnode.isSome && (s.fds d).refCount == 1 then some .fm else none
  | .newTable _ _ | .openFlags _ _ | .opened _ _ | .mount _ => none
  | .fdNew _ _ _ _ | .fdGet _ _ | .openGet _ | .release _ | .getRef _ _ | .put _ | .close _ _ _ | .closed _ | .dup _ _ _ _
  | .dup2 _ _ _ _ _ | .associate _ _ | .retry _ | .retryNext _ => some .fd

/-- The node whose `ref_count` a section reads and writes. -/
def counted : FdEvent → Option ℕ
  | .openFind c cwd path _ alloc _ =>
    match s.pc c with
    | .opening _ _ => (if alloc then dfsNormalizePath cwd path else none).bind s.dfsFnodeFind
    | _ => none
  | .openFailed c =>
    match s.pc c with
    | .driver _ _ f => some f
    | _ => none
  | .closed c =>
    match s.pc c with
    | .put d _ result | .closed _ d result => if result = .retry then none else (s.fds d).fnode
    | _ => none
  | .release c =>
    match s.pc c with
    | .failing σ _ _ =>
      if σ.2 < s.maxfd σ.1 then
        (s.slot σ).bind fun d => if (s.fds d).refCount - 1 = 0 then (s.fds d).fnode else none
      else none
    | _ => none
  | _ => none

def recount (f n : ℕ) : FdSys := s.setFnode f { s.fnodes f with refCount := n }

end FdSys

/-- A section that has read the count of a node and has not written it yet. -/
structure FnodeRead where
  event : FdEvent
  fnode : ℕ
  count : ℕ

structure FnodeSys where
  sys : FdSys
  reading : DfsLock → Option FnodeRead

/-- A section that changes no count, or the two halves of one that does. -/
inductive FnodeEvent
  | act (e : FdEvent)
  | read (e : FdEvent)
  | write (l : DfsLock)

namespace FnodeSys

def init : FnodeSys := ⟨.init, fun _ => none⟩

def Free (s : FnodeSys) (e : FdEvent) : Prop :=
  ∀ l, ∀ r ∈ s.reading l, s.sys.lock e ≠ some l ∧ r.event.caller ≠ e.caller

instance (s : FnodeSys) (e : FdEvent) : Decidable (s.Free e) :=
  inferInstanceAs (Decidable (∀ l, ∀ r ∈ s.reading l, s.sys.lock e ≠ some l ∧ r.event.caller ≠ e.caller))

def step (cfg : DfsConfig) (s : FnodeSys) : FnodeEvent → Option FnodeSys
  | .act e =>
    if s.sys.counted e = none ∧ s.Free e then (s.sys.step cfg e).map fun sys => { s with sys := sys } else none
  | .read e =>
    match s.sys.counted e, s.sys.lock e with
    | some f, some l =>
      if s.Free e ∧ (s.sys.step cfg e).isSome = true then
        some { s with reading := Function.update s.reading l (some ⟨e, f, (s.sys.fnodes f).refCount⟩) }
      else none
    | _, _ => none
  | .write l =>
    -- the new count is made from the one that was read
    match s.reading l with
    | none => none
    | some r =>
      ((s.sys.recount r.fnode r.count).step cfg r.event).map fun sys => ⟨sys, Function.update s.reading l none⟩

/-- The conditions on the section, and no other write since its read. -/
def Orderly (s : FnodeSys) : FnodeEvent → Prop
  | .act e => s.sys.Owned e ∧ s.sys.Shared e
  | .read _ => True
  | .write l => ∀ r ∈ s.reading l, (s.sys.fnodes r.fnode).refCount = r.count ∧ s.sys.Owned r.event ∧ s.sys.Shared r.event

instance (s : FnodeSys) (e : FnodeEvent) : Decidable (s.Orderly e) :=
  match e with
  | .act e => inferInstanceAs (Decidable (s.sys.Owned e ∧ s.sys.Shared e))
  | .read _ => isTrue trivial
  | .write l =>
    inferInstanceAs (Decidable (∀ r ∈ s.reading l, (s.sys.fnodes r.fnode).refCount = r.count ∧
      s.sys.Owned r.event ∧ s.sys.Shared r.event))

variable {cfg : DfsConfig} {s s' : FnodeSys} {e : FnodeEvent}

end FnodeSys

/-- The steps of an `open` of a path that is in use. -/
def reopenSteps (c : ℕ) (path : List Char) : List FnodeEvent :=
  [.act (.fdNew c 0 true true), .act (.openGet c), .read (.openFind c rootDir path rootMounted true true), .write .fm,
    .act (.openFlags c false), .act (.opened c false)]

/-- The steps of an `open` of a path that is not in use. -/
def freshSteps (c : ℕ) (path : List Char) : List FnodeEvent := (openSteps c path).map .act

/-- An `open` between the read and the write of `fd_free` is not counted: the next close frees the node under it. -/
theorem freed_while_open : ¬ ∀ es s, run (FnodeSys.step plainConfig) .init es = some s →
    ∀ d f, (s.sys.fds d).freed = 0 → (s.sys.fds d).fnode = some f → (s.sys.fnodes f).freed = 0 := by
  intro h
  have hrun : ((run (FnodeSys.step plainConfig) .init (freshSteps 0 ['a'] ++ (reopenSteps 1 ['a'] ++
      ([.act (.fdNew 2 0 true true), .act (.openGet 2), .act (.close 0 (0, 3) none), .act (.fileClose 0 .done),
        .read (.closed 0), .read (.openFind 2 rootDir ['a'] rootMounted true true), .write .fm, .write .fd,
        .act (.openFlags 2 false), .act (.opened 2 false), .act (.close 1 (0, 4) none), .act (.fileClose 1 .done)] :
          List FnodeEvent)))).any
        fun s => (s.sys.fds 2).freed == 0 && (s.sys.fds 2).fnode == some 0 && (s.sys.fnodes 0).freed == 1) = true := by
    decide +kernel
  obtain ⟨s, hs, hp⟩ := (Option.any_eq_true _ _).mp hrun
  simp only [Bool.and_eq_true, beq_iff_eq] at hp
  have := h _ s hs 2 0 hp.1.1 hp.1.2
  omega

end RtSmart
