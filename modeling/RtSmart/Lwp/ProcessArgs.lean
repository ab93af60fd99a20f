import RtSmart.Lib.ByteMem

/-!
The page with the arguments of a process: `lwp_argscopy`, the auxiliary vector that `load_elf` fills in, and how a process
reads the page when it starts.
-/

namespace RtSmart.ProcessArgs

open Lib

/-- A string without its zero. -/
abbrev CString := {s : List UInt8 // 0 ∉ s}

def userVaddrTop : ℕ := 0xfffffffffffff000

def archPageSize : ℕ := 4096

def argsVaddr : ℕ := userVaddrTop - archPageSize

def auxArrayItemsNr : ℕ := 6

/-- The memory from the start of the page on, and the end of what was written. -/
structure Page where
  byte : ℕ → UInt8
  high : ℕ

def Page.write (p : Page) (off : ℕ) (bytes : List UInt8) : Page :=
  ⟨writeBytes p.byte off bytes, max p.high (off + bytes.length)⟩

/-- `args_k[i]` -/
def Page.word (p : Page) (i : ℕ) : ℕ := leAt p.byte (8 * i) 8

def Page.setWord (p : Page) (i v : ℕ) : Page := p.write (8 * i) (leList 8 v)

/-- `size`, an `int`. -/
def argsSize (argv : List CString) (envp : Option (List CString)) : BitVec 32 :=
  let size := argv.foldl (fun size s => size + .ofNat 32 (s.1.length + 1)) (BitVec.ofNat 32 (8 * 5))
  let size := size + .ofNat 32 (8 * argv.length)
  let size := (envp.getD []).foldl (fun size s => size + .ofNat 32 (s.1.length + 1) + .ofNat 32 8) size
  size + .ofNat 32 (auxArrayItemsNr * 16)

/-- The loop over `argv` or `envp`, with `i` and `str` before and after it; `new_argve[i]` is word `i + 1`. -/
def copyStrings : List CString → ℕ → ℕ → Page → Page × ℕ × ℕ
  | [], i, str, p => (p, i, str)
  | s :: rest, i, str, p =>
    copyStrings rest (i + 1) (str + (s.1.length + 1)) ((p.setWord (i + 1) (argsVaddr + str)).write str (s.1 ++ [0]))

/-- `new_argve[i] = 0`, and the strings of the environment with their NULL; `i` is returned. -/
def copyEnv (envp : Option (List CString)) (i str : ℕ) (p : Page) : Page × ℕ :=
  let p := p.setWord (i + 1) 0
  match envp with
  | none => (p, i)
  | some envs =>
    let (p, i, _) := copyStrings envs i str p
    (p.setWord (i + 1) 0, i)

/-- The first item of the auxiliary vector and the word behind the vector; `aux` is the word that it starts with. -/
def openAux (aux : ℕ) (p : Page) : Page :=
  let p := p.setWord aux 31
  let p := p.setWord (aux + 1) (p.word 1)
  p.setWord (aux + auxArrayItemsNr * 2) 0

/-- The page with the word of `aux`; `mapped` says whether the page could be mapped, and `fresh` is what it held. -/
def lwpArgscopy (mapped : Bool) (fresh : ℕ → UInt8) (argv : List CString) (envp : Option (List CString)) :
    Option (Page × ℕ) :=
  if archPageSize < ((argsSize argv envp).signExtend 64).toNat ∨ mapped = false then none
  else
    let envc := (envp.getD []).length
    let str := (argv.length + 2 + envc + 1 + auxArrayItemsNr * 2 + 1) * 8
    let (p, i, str) := copyStrings argv 0 str (Page.setWord ⟨fresh, 0⟩ 0 argv.length)
    let (p, i) := copyEnv envp (i + 1) str (p.setWord (i + 1) 0)
    some (openAux (i + 2) p, i + 2)

def Page.setItem (p : Page) (aux : ℕ) (item : ℕ) (key value : ℕ) : Page :=
  (p.setWord (aux + 2 * item) key).setWord (aux + 2 * item + 1) value

/-- The part of `load_elf` that fills in the auxiliary vector. -/
def loadAux (p : Page) (aux phnum : ℕ) : Page :=
  let p := p.setItem aux 1 6 archPageSize
  let p := p.setItem aux 2 25 (userVaddrTop - archPageSize - 16)
  let p := p.setItem aux 3 3 (userVaddrTop - archPageSize * 2)
  let p := p.setItem aux 4 5 phnum
  p.setItem aux 5 4 56

/-! The start of a process. -/

structure Startup where
  argPtrs : List ℕ
  envPtrs : List ℕ
  auxv : List (ℕ × ℕ)
deriving DecidableEq

/-- `n` words from one on. -/
def wordsAt (p : Page) : ℕ → ℕ → List ℕ
  | 0, _ => []
  | n + 1, i => p.word i :: wordsAt p n (i + 1)

def ptrsAt (p : Page) : ℕ → ℕ → List ℕ
  | 0, _ => []
  | n + 1, i => if p.word i = 0 then [] else p.word i :: ptrsAt p n (i + 1)

def auxAt (p : Page) : ℕ → ℕ → List (ℕ × ℕ)
  | 0, _ => []
  | n + 1, i => if p.word i = 0 then [] else (p.word i, p.word (i + 1)) :: auxAt p n (i + 2)

/-- `argc`, the pointers of `argv`, NULL, those of `envp`, NULL, and the auxiliary vector. -/
def startup (p : Page) : Option Startup :=
  let argc := p.word 0
  if p.word (argc + 1) ≠ 0 then none
  else
    let envPtrs := ptrsAt p archPageSize (argc + 2)
    some ⟨wordsAt p argc 1, envPtrs, auxAt p archPageSize (argc + envPtrs.length + 3)⟩

def Page.string (p : Page) (ptr : ℕ) : List UInt8 := cstrAt p.byte archPageSize (ptr - argsVaddr)

/-! Words and strings of a page. -/

section

variable {p : Page} {i j v off : ℕ} {bytes : List UInt8}

theorem word_of_holds (h : Holds p.byte (8 * i) (leList 8 v)) : p.word i = v % 2 ^ 64 := leAt_of_holds h

theorem word_setWord_self (p : Page) (i v : ℕ) : (p.setWord i v).word i = v % 2 ^ 64 := word_of_holds (holds_writeBytes _ _ _)

theorem word_write (h : 8 * i + 8 ≤ off ∨ off + bytes.length ≤ 8 * i) : (p.write off bytes).word i = p.word i := by
  apply leAt_congr
  intro k hk hk'
  apply writeBytes_of_outside
  omega

theorem word_setWord_of_ne (h : j ≠ i) : (p.setWord j v).word i = p.word i := by
  apply word_write
  rw [length_leList]
  omega

theorem word_setWord (p : Page) (i j v : ℕ) : (p.setWord j v).word i = if j = i then v % 2 ^ 64 else p.word i := by
  split
  · rename_i h
    rw [h]
    exact word_setWord_self p i v
  · rename_i h
    exact word_setWord_of_ne h

theorem high_setWord (p : Page) (i v : ℕ) : (p.setWord i v).high = max p.high (8 * i + 8) := by
  unfold Page.setWord Page.write
  rw [length_leList]

def stringBytes (ss : List CString) : ℕ := (ss.map fun s => s.1.length + 1).sum

theorem stringBytes_cons (s : CString) (ss : List CString) : stringBytes (s :: ss) = s.1.length + 1 + stringBytes ss :=
  List.sum_cons

/-- The strings lie one after the other from `str` on, and their addresses in the words from `i + 1` on. -/
def Laid (p : Page) : ℕ → ℕ → List CString → Prop
  | _, _, [] => True
  | i, str, s :: rest =>
    p.word (i + 1) = (argsVaddr + str) % 2 ^ 64 ∧ Holds p.byte str (s.1 ++ [0]) ∧ Laid p (i + 1) (str + (s.1.length + 1)) rest

variable {str : ℕ} {s : CString} {ss : List CString}

theorem length_zeroed (s : CString) : (s.1 ++ [(0 : UInt8)]).length = s.1.length + 1 := List.length_append

theorem Laid.congr {p' : Page} (h : Laid p i str ss) (hword : ∀ j, i < j → j ≤ i + ss.length → p'.word j = p.word j)
    (hbyte : ∀ k, str ≤ k → k < str + stringBytes ss → p'.byte k = p.byte k) : Laid p' i str ss := by
  induction ss generalizing i str with
  | nil => trivial
  | cons s ss ih =>
    obtain ⟨hfirst, hstring, hrest⟩ := h
    rw [List.length_cons] at hword
    rw [stringBytes_cons] at hbyte
    refine ⟨?_, ?_, ih hrest (fun j hj hj' => hword j (by omega) (by omega)) fun k hk hk' => hbyte k (by omega) (by omega)⟩
    · rw [hword (i + 1) (by omega) (by omega)]
      exact hfirst
    · apply hstring.congr
      intro k hk hk'
      rw [length_zeroed] at hk'
      exact (hbyte k hk (by omega)).symm

theorem Laid.setWord (h : Laid p i str ss) (hword : j ≤ i ∨ i + ss.length < j) (hbelow : 8 * j + 8 ≤ str) :
    Laid (p.setWord j v) i str ss := by
  apply h.congr
  · intro k hk hk'
    exact word_setWord_of_ne (by omega)
  · intro k hk _
    apply writeBytes_of_outside
    rw [length_leList]
    omega

/-- What a copy leaves: the strings are laid, and other words and the bytes between are as before. -/
structure Copied (p p' : Page) (i str : ℕ) (ss : List CString) : Prop where
  laid : Laid p' i str ss
  word : ∀ j, j ≤ i ∨ i + ss.length < j → 8 * j + 8 ≤ str → p'.word j = p.word j
  byte : ∀ k, 8 * (i + 1 + ss.length) ≤ k → k < str → p'.byte k = p.byte k
  high : p'.high ≤ max p.high (str + stringBytes ss)

theorem copyStrings_copied (hroom : 8 * (i + 1 + ss.length) ≤ str) : ∃ p', Copied p p' i str ss ∧
    copyStrings ss i str p = (p', i + ss.length, str + stringBytes ss) := by
  induction ss generalizing i str p with
  | nil => exact ⟨p, ⟨trivial, fun _ _ _ => rfl, fun _ _ _ => rfl, le_max_left _ _⟩, rfl⟩
  | cons s ss ih =>
    rw [List.length_cons] at hroom
    set q := (p.setWord (i + 1) (argsVaddr + str)).write str (s.1 ++ [0]) with hq
    obtain ⟨p', hcopied, heq⟩ := @ih q (i + 1) (str + (s.1.length + 1)) (by omega)
    have hword : ∀ j, 8 * j + 8 ≤ str → q.word j = (p.setWord (i + 1) (argsVaddr + str)).word j := fun j hj => word_write (.inl hj)
    have hhigh : q.high = max (max p.high (8 * (i + 1) + 8)) (str + (s.1.length + 1)) := by
      rw [hq, Page.write, length_zeroed, high_setWord]
    refine ⟨p', ⟨⟨?_, ?_, hcopied.laid⟩, fun j hj hbelow => ?_, fun k hk hk' => ?_, ?_⟩, ?_⟩
    · rw [hcopied.word (i + 1) (by omega) (by omega), hword (i + 1) (by omega), word_setWord_self]
    · apply (holds_writeBytes (p.setWord (i + 1) (argsVaddr + str)).byte str (s.1 ++ [0])).congr
      intro k hk hk'
      rw [length_zeroed] at hk'
      exact (hcopied.byte k (by omega) (by omega)).symm
    · rw [List.length_cons] at hj
      rw [hcopied.word j (by omega) (by omega), hword j hbelow, word_setWord_of_ne (by omega)]
    · rw [List.length_cons] at hk
      rw [hcopied.byte k (by omega) (by omega)]
      have hbelow : q.byte k = (p.setWord (i + 1) (argsVaddr + str)).byte k := writeBytes_of_outside (.inl hk')
      rw [hbelow]
      apply writeBytes_of_outside
      rw [length_leList]
      omega
    · have hrest := hcopied.high
      rw [hhigh] at hrest
      rw [stringBytes_cons]
      omega
    · rw [copyStrings, heq, List.length_cons, stringBytes_cons, Nat.add_assoc, Nat.add_assoc, Nat.add_comm 1 ss.length]

theorem Copied.other {p' : Page} {i' str' : ℕ} {ss' : List CString} (h : Copied p p' i str ss) (hlaid : Laid p i' str' ss')
    (hwords : i' + ss'.length ≤ i) (hroom : 8 * (i + 1 + ss.length) ≤ str') (hstrings : str' + stringBytes ss' ≤ str) :
    Laid p' i' str' ss' := by
  apply hlaid.congr
  · intro j hj hj'
    exact h.word j (.inl (by omega)) (by omega)
  · intro k hk hk'
    exact h.byte k (by omega) (by omega)

/-! The page when `lwp_argscopy` is done. -/

/-- The bytes of the page that the arguments take. -/
def blockSize (argv envs : List CString) : ℕ := 8 * (argv.length + envs.length + 16) + stringBytes (argv ++ envs)

def stringsAt (argv envs : List CString) : ℕ := 8 * (argv.length + envs.length + 16)

/-- The part of the page before the auxiliary vector, and the strings. -/
structure Filled (p : Page) (argv envs : List CString) : Prop where
  argc : p.word 0 = argv.length % 2 ^ 64
  argsLaid : Laid p 0 (stringsAt argv envs) argv
  argEnd : p.word (argv.length + 1) = 0
  envsLaid : Laid p (argv.length + 1) (stringsAt argv envs + stringBytes argv) envs
  envEnd : p.word (argv.length + envs.length + 2) = 0
  high : p.high ≤ blockSize argv envs

variable {argv envs : List CString}

theorem Filled.setWord (h : Filled p argv envs) (hj : argv.length + envs.length + 2 < j)
    (hj' : j < argv.length + envs.length + 16) : Filled (p.setWord j v) argv envs where
  argc := by
    rw [word_setWord_of_ne (by omega)]
    exact h.argc
  argsLaid := by
    apply h.argsLaid.setWord (.inr (by omega))
    unfold stringsAt
    omega
  argEnd := by
    rw [word_setWord_of_ne (by omega)]
    exact h.argEnd
  envsLaid := by
    apply h.envsLaid.setWord (.inr (by omega))
    unfold stringsAt
    omega
  envEnd := by
    rw [word_setWord_of_ne (by omega)]
    exact h.envEnd
  high := by
    have hhigh := h.high
    rw [high_setWord]
    unfold blockSize at hhigh ⊢
    omega

theorem stringBytes_append (ss ss' : List CString) : stringBytes (ss ++ ss') = stringBytes ss + stringBytes ss' := by
  unfold stringBytes
  rw [List.map_append, List.sum_append]

/-- The arguments are in place, and what is between them and the strings is free. -/
structure Argued (p : Page) (argv envs : List CString) : Prop where
  argc : p.word 0 = argv.length % 2 ^ 64
  laid : Laid p 0 (stringsAt argv envs) argv
  argEnd : p.word (argv.length + 1) = 0
  high : p.high ≤ stringsAt argv envs + stringBytes argv

theorem Argued.setWord (h : Argued p argv envs) (hj : argv.length + 1 < j) (hj' : j < argv.length + envs.length + 16) :
    Argued (p.setWord j v) argv envs where
  argc := by
    rw [word_setWord_of_ne (by omega)]
    exact h.argc
  laid := by
    apply h.laid.setWord (.inr (by omega))
    unfold stringsAt
    omega
  argEnd := by
    rw [word_setWord_of_ne (by omega)]
    exact h.argEnd
  high := by
    have hhigh := h.high
    rw [high_setWord]
    unfold stringsAt at hhigh ⊢
    omega

theorem copyStrings_argued (fresh : ℕ → UInt8) (argv envs : List CString) : ∃ p,
    copyStrings argv 0 (stringsAt argv envs) (Page.setWord ⟨fresh, 0⟩ 0 argv.length) =
      (p, argv.length, stringsAt argv envs + stringBytes argv) ∧ Argued (p.setWord (argv.length + 1) 0) argv envs := by
  have hstart : stringsAt argv envs = 8 * (argv.length + envs.length + 16) := rfl
  obtain ⟨p, hcopied, heq⟩ :=
    @copyStrings_copied (Page.setWord ⟨fresh, 0⟩ 0 argv.length) 0 (stringsAt argv envs) argv (by omega)
  rw [Nat.zero_add] at heq
  refine ⟨p, heq, ?_, ?_, ?_, ?_⟩
  · rw [word_setWord_of_ne (by omega), hcopied.word 0 (.inl le_rfl) (by omega), word_setWord_self]
  · exact hcopied.laid.setWord (.inr (by omega)) (by omega)
  · exact word_setWord_self _ _ _
  · have hhigh := hcopied.high
    rw [high_setWord] at hhigh ⊢
    dsimp only at hhigh
    omega

theorem copyEnv_filled {envp : Option (List CString)} (h : Argued p argv (envp.getD [])) : ∃ p',
    copyEnv envp (argv.length + 1) (stringsAt argv (envp.getD []) + stringBytes argv) p =
      (p', argv.length + 1 + (envp.getD []).length) ∧ Filled p' argv (envp.getD []) := by
  have hbytes := stringBytes_append argv (envp.getD [])
  have hnull : Argued (p.setWord (argv.length + 2) 0) argv (envp.getD []) := h.setWord (by omega) (by omega)
  cases envp with
  | none =>
    refine ⟨_, rfl, hnull.argc, hnull.laid, hnull.argEnd, trivial, word_setWord_self _ _ _, ?_⟩
    have hhigh : (p.setWord (argv.length + 1 + 1) 0).high ≤ _ := hnull.high
    unfold blockSize
    unfold stringsAt at hhigh
    rw [hbytes]
    omega
  | some envs =>
    rw [Option.getD_some] at hbytes hnull ⊢
    have hstart : stringsAt argv envs = 8 * (argv.length + envs.length + 16) := rfl
    obtain ⟨q, hcopied, heq⟩ := @copyStrings_copied (p.setWord (argv.length + 2) 0) (argv.length + 1)
      (stringsAt argv envs + stringBytes argv) envs (by omega)
    refine ⟨q.setWord (argv.length + 1 + envs.length + 1) 0, ?_, ?_, ?_, ?_, ?_, ?_, ?_⟩
    · unfold copyEnv
      dsimp only
      rw [heq]
    · rw [word_setWord_of_ne (by omega), hcopied.word 0 (.inl (by omega)) (by omega)]
      exact hnull.argc
    · apply Laid.setWord
      · exact hcopied.other hnull.laid (by omega) (by omega) le_rfl
      · exact .inr (by omega)
      · omega
    · rw [word_setWord_of_ne (by omega), hcopied.word _ (.inl le_rfl) (by omega)]
      exact hnull.argEnd
    · exact hcopied.laid.setWord (.inr (by omega)) (by omega)
    · rw [show argv.length + envs.length + 2 = argv.length + 1 + envs.length + 1 by omega]
      exact word_setWord_self _ _ _
    · have hhigh := hcopied.high
      have hargued := hnull.high
      rw [high_setWord]
      unfold blockSize
      rw [hbytes]
      omega

theorem openAux_filled (h : Filled p argv envs) (hj : j = argv.length + envs.length + 3) :
    Filled (openAux j p) argv envs ∧ (openAux j p).word j = 31 ∧ (openAux j p).word (j + 1) = p.word 1 ∧
      (openAux j p).word (j + 12) = 0 := by
  have hlt : p.word 1 < 2 ^ 64 := leAt_lt _ _ _
  unfold openAux auxArrayItemsNr
  refine ⟨?_, ?_, ?_, ?_⟩
  · apply Filled.setWord
    · apply Filled.setWord
      · exact h.setWord (by omega) (by omega)
      · omega
      · omega
    · omega
    · omega
  · rw [word_setWord_of_ne (by omega), word_setWord_of_ne (by omega), word_setWord_self]
    rfl
  · rw [word_setWord_of_ne (by omega), word_setWord_self, word_setWord_of_ne (by omega), Nat.mod_eq_of_lt hlt]
  · exact word_setWord_self _ _ _

theorem lwpArgscopy_filled {mapped : Bool} {fresh : ℕ → UInt8} {envp : Option (List CString)} {aux : ℕ}
    (h : lwpArgscopy mapped fresh argv envp = some (p, aux)) : aux = argv.length + (envp.getD []).length + 3 ∧
      Filled p argv (envp.getD []) ∧ p.word aux = 31 ∧ p.word (aux + 1) = p.word 1 ∧ p.word (aux + 12) = 0 := by
  unfold lwpArgscopy at h
  split at h
  · cases h
  · obtain ⟨q, hargs, hargued⟩ := copyStrings_argued fresh argv (envp.getD [])
    obtain ⟨q', henv, hfilled⟩ := copyEnv_filled hargued
    have hstr : (argv.length + 2 + (envp.getD []).length + 1 + auxArrayItemsNr * 2 + 1) * 8 = stringsAt argv (envp.getD []) := by
      unfold stringsAt auxArrayItemsNr
      omega
    dsimp only at h
    rw [hstr, hargs] at h
    dsimp only at h
    rw [henv] at h
    cases h
    have haux : argv.length + 1 + (envp.getD []).length + 2 = argv.length + (envp.getD []).length + 3 := by omega
    obtain ⟨hdone, hkey, hvalue, hend⟩ := openAux_filled hfilled haux
    refine ⟨haux, hdone, hkey, hvalue.trans ?_, hend⟩
    unfold openAux
    rw [word_setWord_of_ne (by omega), word_setWord_of_ne (by omega), word_setWord_of_ne (by omega)]

/-! What the process reads. -/

def ptrs : ℕ → List CString → List ℕ
  | _, [] => []
  | str, s :: rest => (argsVaddr + str) :: ptrs (str + (s.1.length + 1)) rest

theorem length_ptrs (str : ℕ) (ss : List CString) : (ptrs str ss).length = ss.length := by
  induction ss generalizing str with
  | nil => rfl
  | cons s ss ih => rw [ptrs, List.length_cons, List.length_cons, ih]

theorem ptrs_append (str : ℕ) (ss ss' : List CString) :
    ptrs str (ss ++ ss') = ptrs str ss ++ ptrs (str + stringBytes ss) ss' := by
  induction ss generalizing str with
  | nil => rfl
  | cons s ss ih => rw [List.cons_append, ptrs, ptrs, ih, stringBytes_cons, List.cons_append, Nat.add_assoc]

theorem ptrs_inside (hoff : off ≤ str) (hend : str + stringBytes ss ≤ archPageSize) :
    List.Forall₂ (fun ptr (s : CString) => argsVaddr + off ≤ ptr ∧ ptr + s.1.length < argsVaddr + archPageSize)
      (ptrs str ss) ss := by
  induction ss generalizing str with
  | nil => exact .nil
  | cons s ss ih =>
    rw [stringBytes_cons] at hend
    exact .cons ⟨by omega, by omega⟩ (ih (by omega) (by omega))

theorem ptr_lt (h : str < archPageSize) : (argsVaddr + str) % 2 ^ 64 = argsVaddr + str := by
  apply Nat.mod_eq_of_lt
  unfold argsVaddr userVaddrTop
  unfold archPageSize at h ⊢
  omega

theorem Laid.wordsAt_eq (h : Laid p i str ss) (hend : str + stringBytes ss ≤ archPageSize) :
    wordsAt p ss.length (i + 1) = ptrs str ss := by
  induction ss generalizing i str with
  | nil => rfl
  | cons s ss ih =>
    obtain ⟨hword, -, hrest⟩ := h
    rw [stringBytes_cons] at hend
    rw [List.length_cons, wordsAt, ptrs, hword, ptr_lt (by omega), ih hrest (by omega)]

theorem Laid.ptrsAt_eq {n : ℕ} (h : Laid p i str ss) (hend : str + stringBytes ss ≤ archPageSize)
    (hnull : p.word (i + 1 + ss.length) = 0) (hn : ss.length < n) : ptrsAt p n (i + 1) = ptrs str ss := by
  induction ss generalizing i str n with
  | nil =>
    obtain ⟨n, rfl⟩ : ∃ k, n = k + 1 := ⟨n - 1, by rw [List.length_nil] at hn; omega⟩
    exact if_pos hnull
  | cons s ss ih =>
    obtain ⟨hword, -, hrest⟩ := h
    rw [stringBytes_cons] at hend
    rw [List.length_cons] at hn hnull
    obtain ⟨n, rfl⟩ : ∃ k, n = k + 1 := ⟨n - 1, by omega⟩
    rw [ptr_lt (by omega)] at hword
    have hne : argsVaddr + str ≠ 0 := by
      unfold argsVaddr userVaddrTop archPageSize
      omega
    have hnull' : p.word (i + 1 + 1 + ss.length) = 0 := by rw [Nat.add_assoc _ 1, Nat.add_comm 1, hnull]
    rw [ptrsAt, hword, if_neg hne, ptrs, ih hrest (by omega) hnull' (by omega)]

theorem Laid.strings_eq (h : Laid p i str ss) (hend : str + stringBytes ss ≤ archPageSize) :
    (ptrs str ss).map p.string = ss.map Subtype.val := by
  induction ss generalizing i str with
  | nil => rfl
  | cons s ss ih =>
    obtain ⟨-, hstring, hrest⟩ := h
    rw [stringBytes_cons] at hend
    have hs : p.string (argsVaddr + str) = s.1 := by
      unfold Page.string
      rw [Nat.add_sub_cancel_left]
      exact cstrAt_of_holds s.2 (by omega) hstring
    rw [ptrs, List.map_cons, List.map_cons, hs, ih hrest (by omega)]

/-- The page as the process finds it: nothing was written outside, and the strings that it reads are the ones given, in order
and behind the words. -/
structure RoundTrip (p : Page) (argv envs : List CString) (phnum : BitVec 16) : Prop where
  inside : p.high ≤ archPageSize
  read : ∃ st, startup p = some st ∧ st.argPtrs.map p.string = argv.map Subtype.val ∧
    st.envPtrs.map p.string = envs.map Subtype.val ∧
    st.auxv = [(31, st.argPtrs.headD 0), (6, archPageSize), (25, userVaddrTop - archPageSize - 16),
      (3, userVaddrTop - archPageSize * 2), (5, phnum.toNat), (4, 56)] ∧
    List.Forall₂ (fun ptr (s : CString) => argsVaddr + 8 * (argv.length + envs.length + 16) ≤ ptr ∧
      ptr + s.1.length < argsVaddr + archPageSize) (st.argPtrs ++ st.envPtrs) (argv ++ envs)

theorem loadAux_filled {aux phnum : ℕ} (h : Filled p argv envs) (haux : aux = argv.length + envs.length + 3) :
    Filled (loadAux p aux phnum) argv envs := by
  unfold loadAux Page.setItem
  iterate 9 refine Filled.setWord ?_ (by omega) (by omega)
  exact h.setWord (by omega) (by omega)

theorem auxAt_loadAux {aux phnum n : ℕ} (hkey : p.word aux = 31) (hend : p.word (aux + 12) = 0) (hphnum : phnum < 2 ^ 64) :
    auxAt (loadAux p aux phnum) (n + 7) aux = [(31, p.word (aux + 1)), (6, archPageSize), (25, userVaddrTop - archPageSize - 16),
      (3, userVaddrTop - archPageSize * 2), (5, phnum), (4, 56)] := by
  simp [auxAt, loadAux, Page.setItem, word_setWord, hkey, hend, archPageSize, userVaddrTop, Nat.add_assoc]
  exact hphnum

theorem word_loadAux {aux phnum : ℕ} (hj : j ≤ aux + 1) : (loadAux p aux phnum).word j = p.word j := by
  unfold loadAux Page.setItem
  iterate 10 rw [word_setWord_of_ne (by omega)]

theorem startup_roundTrip {aux : ℕ} {phnum : BitVec 16} (h : Filled p argv envs) (haux : aux = argv.length + envs.length + 3)
    (hkey : p.word aux = 31) (hvalue : p.word (aux + 1) = p.word 1) (hend : p.word (aux + 12) = 0)
    (hfits : blockSize argv envs ≤ archPageSize) : RoundTrip (loadAux p aux phnum.toNat) argv envs phnum := by
  have hdone := @loadAux_filled _ _ _ aux phnum.toNat h haux
  set q := loadAux p aux phnum.toNat with hq
  have hstart : stringsAt argv envs = 8 * (argv.length + envs.length + 16) := rfl
  have hbytes := stringBytes_append argv envs
  have hpage : archPageSize = 4096 := rfl
  unfold blockSize at hfits
  have hargc : q.word 0 = argv.length := by
    rw [hdone.argc]
    exact Nat.mod_eq_of_lt (by omega)
  have hargs : wordsAt q argv.length 1 = ptrs (stringsAt argv envs) argv := hdone.argsLaid.wordsAt_eq (by omega)
  have henvs : ptrsAt q archPageSize (argv.length + 2) = ptrs (stringsAt argv envs + stringBytes argv) envs := by
    apply hdone.envsLaid.ptrsAt_eq (by omega) _ (by omega)
    have hnull : argv.length + 1 + 1 + envs.length = argv.length + envs.length + 2 := by omega
    rw [hnull]
    exact hdone.envEnd
  have hfuel : auxAt q archPageSize aux = auxAt q (4089 + 7) aux := congrArg (fun n => auxAt q n aux) hpage
  have hauxv := @auxAt_loadAux p aux phnum.toNat 4089 hkey hend (phnum.isLt.trans (by decide))
  refine ⟨hdone.high.trans hfits, ⟨ptrs (stringsAt argv envs) argv, ptrs (stringsAt argv envs + stringBytes argv) envs,
    auxAt q archPageSize aux⟩, ?_, ?_, ?_, ?_, ?_⟩
  · unfold startup
    dsimp only
    rw [hargc, hdone.argEnd, if_neg (not_not.mpr rfl), hargs, henvs, length_ptrs, ← haux]
  · exact hdone.argsLaid.strings_eq (by omega)
  · exact hdone.envsLaid.strings_eq (by omega)
  · have hfirst : p.word 1 = (ptrs (stringsAt argv envs) argv).headD 0 := by
      have hone : q.word 1 = p.word 1 := word_loadAux (by omega)
      cases argv with
      | nil =>
        rw [← hone]
        exact hdone.argEnd
      | cons s rest =>
        rw [← hone, ← hargs]
        rfl
    dsimp only
    rw [hfuel, hauxv, hvalue, hfirst]
  · rw [← ptrs_append]
    exact ptrs_inside hstart.ge (by omega)

theorem toNat_foldl {step : BitVec 32 → CString → BitVec 32} {g : CString → ℕ}
    (hstep : ∀ x s, (step x s).toNat = (x.toNat + g s) % 2 ^ 32) (ss : List CString) (x : BitVec 32) :
    (ss.foldl step x).toNat = (x.toNat + (ss.map g).sum) % 2 ^ 32 := by
  induction ss generalizing x with
  | nil => exact (Nat.mod_eq_of_lt x.isLt).symm
  | cons s ss ih =>
    rw [List.foldl_cons, ih, hstep, List.map_cons, List.sum_cons]
    omega

theorem argsSize_toNat (argv : List CString) (envp : Option (List CString)) :
    (argsSize argv envp).toNat = (blockSize argv (envp.getD []) + 8) % 2 ^ 32 := by
  have hargs := @toNat_foldl (fun size s => size + .ofNat 32 (s.1.length + 1)) (fun s => s.1.length + 1)
    (fun x s => by rw [BitVec.toNat_add, BitVec.toNat_ofNat]; omega) argv (BitVec.ofNat 32 (8 * 5))
  have henvs := fun x => @toNat_foldl (fun size s => size + .ofNat 32 (s.1.length + 1) + .ofNat 32 8)
    (fun s => s.1.length + 1 + 8) (fun x s => by simp only [BitVec.toNat_add, BitVec.toNat_ofNat]; omega) (envp.getD []) x
  have hsplit : ∀ ss : List CString, (ss.map fun s => s.1.length + 1 + 8).sum = stringBytes ss + 8 * ss.length := fun ss => by
    rw [List.sum_map_add, List.map_const', List.sum_replicate, smul_eq_mul, Nat.mul_comm]
    rfl
  have hsum : (argv.map fun s => s.1.length + 1).sum = stringBytes argv := rfl
  unfold argsSize auxArrayItemsNr
  dsimp only
  rw [BitVec.toNat_add, henvs, BitVec.toNat_add, hargs, hsplit, hsum, BitVec.toNat_ofNat, BitVec.toNat_ofNat, BitVec.toNat_ofNat]
  unfold blockSize
  rw [stringBytes_append]
  omega

theorem pageSize_lt_signExtend (size : BitVec 32) : archPageSize < (size.signExtend 64).toNat ↔ archPageSize < size.toNat := by
  unfold archPageSize
  rw [BitVec.toNat_signExtend, BitVec.toNat_setWidth, Nat.mod_eq_of_lt (size.isLt.trans (by decide))]
  split
  · rename_i hmsb
    rw [BitVec.msb_eq_decide, decide_eq_true_eq] at hmsb
    omega
  · rfl

theorem lwpArgscopy_isSome {envp : Option (List CString)} (fresh : ℕ → UInt8)
    (hfits : (blockSize argv (envp.getD []) + 8) % 2 ^ 32 ≤ archPageSize) : ∃ r, lwpArgscopy true fresh argv envp = some r := by
  unfold lwpArgscopy
  rw [if_neg]
  · exact ⟨_, rfl⟩
  · rw [not_or, pageSize_lt_signExtend, argsSize_toNat]
    exact ⟨by omega, by decide⟩

end

/-- When `lwp_argscopy` succeeds, the block fits in its page and the process finds its arguments there. -/
def ArgsOk (mapped : Bool) (fresh : ℕ → UInt8) (argv : List CString) (envp : Option (List CString)) : Prop :=
  ∀ p aux, lwpArgscopy mapped fresh argv envp = some (p, aux) →
    blockSize argv (envp.getD []) ≤ archPageSize ∧ ∀ phnum, RoundTrip (loadAux p aux phnum.toNat) argv (envp.getD []) phnum

/-- Arguments are passed on whole unless their size wraps to one that fits in a page. -/
theorem argscopy_ok_iff (mapped : Bool) (fresh : ℕ → UInt8) (argv : List CString) (envp : Option (List CString)) :
    ArgsOk mapped fresh argv envp ↔ ¬ (mapped = true ∧ 2 ^ 32 ≤ blockSize argv (envp.getD []) + 8 ∧
      (blockSize argv (envp.getD []) + 8) % 2 ^ 32 ≤ archPageSize) := by
  constructor
  · rintro hok ⟨rfl, hwraps, hfits⟩
    obtain ⟨⟨p, aux⟩, hr⟩ := lwpArgscopy_isSome fresh hfits
    have hblock := (hok p aux hr).1
    unfold archPageSize at hblock
    omega
  · intro hgood p aux hr
    have haccepted : ¬ (archPageSize < ((argsSize argv envp).signExtend 64).toNat ∨ mapped = false) := fun hbad => by
      unfold lwpArgscopy at hr
      rw [if_pos hbad] at hr
      cases hr
    rw [not_or, pageSize_lt_signExtend, argsSize_toNat, not_lt, Bool.not_eq_false] at haccepted
    have hfits : blockSize argv (envp.getD []) ≤ archPageSize := by
      by_contra hbig
      have hpage : archPageSize = 4096 := rfl
      refine hgood ⟨haccepted.2, ?_, haccepted.1⟩
      have hwrapped := haccepted.1
      omega
    obtain ⟨haux, hfilled, hkey, hvalue, hend⟩ := lwpArgscopy_filled hr
    exact ⟨hfits, fun phnum => startup_roundTrip hfilled haux hkey hvalue hend hfits⟩

/-- 2^20 arguments of 4087 bytes, whose size wraps to 136, are copied to one page. -/
theorem wrapped_size : ¬ ArgsOk true (fun _ => 0)
    (List.replicate (2 ^ 20) ⟨List.replicate 4087 97, fun h => absurd (List.eq_of_mem_replicate h) (by decide)⟩) none := by
  intro hok
  set s : CString := ⟨List.replicate 4087 97, fun h => absurd (List.eq_of_mem_replicate h) (by decide)⟩ with hs
  have hlength : s.1.length = 4087 := List.length_replicate
  have hblock : blockSize (List.replicate (2 ^ 20) s) ((none : Option (List CString)).getD []) = 2 ^ 32 + 128 := by
    rw [Option.getD_none, blockSize, List.append_nil, stringBytes, List.map_replicate, List.sum_replicate, hlength,
      List.length_replicate]
    norm_num
  have hpage : archPageSize = 4096 := rfl
  obtain ⟨⟨p, aux⟩, hr⟩ := @lwpArgscopy_isSome (List.replicate (2 ^ 20) s) none (fun _ => 0) (by rw [hblock]; omega)
  have hfits := (hok p aux hr).1
  omega

end RtSmart.ProcessArgs
