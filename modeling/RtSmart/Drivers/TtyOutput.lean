import Mathlib.Tactic

/-!
Output of the terminal line discipline (`n_tty.c`) to a device that takes all it is given. A block is shorter than
2^31 bytes, as `sys_write` makes them.
-/

namespace RtSmart

/-- The flags of `init_termios`. -/
structure OutputFlags where
  cIflag : BitVec 32
  cOflag : BitVec 32
deriving DecidableEq

namespace OutputFlags

variable (t : OutputFlags)

def oOpost : Bool := t.cOflag &&& 0o1 != 0

def oOnlcr : Bool := t.cOflag &&& 0o2 != 0

def oOlcuc : Bool := t.cOflag &&& 0o4 != 0

def oOcrnl : Bool := t.cOflag &&& 0o10 != 0

def oOnocr : Bool := t.cOflag &&& 0o20 != 0

def oOnlret : Bool := t.cOflag &&& 0o40 != 0

def oTabdly : BitVec 32 := t.cOflag &&& 0o6000

def xtabs : BitVec 32 := 0o1000000

def iIutf8 : Bool := t.cIflag &&& 0o40000 != 0

end OutputFlags

/-- The columns of `struct n_tty_data`. -/
structure TtyColumns where
  column : BitVec 32
  canonColumn : BitVec 32
deriving DecidableEq

def iscntrl (c : UInt8) : Bool := c < 0x20 || c == 0x7f

def toupper (c : UInt8) : UInt8 := if 0x61 ≤ c ∧ c ≤ 0x7a then c - 0x20 else c

def isUtf8Continuation (c : UInt8) : Bool := c &&& 0xc0 == 0x80

def isContinuation (t : OutputFlags) (c : UInt8) : Bool := t.iIutf8 && isUtf8Continuation c

section

variable (t : OutputFlags) (chBytes : List UInt8)

/-- The columns and the bytes for the device. With XTABS the device is given the bytes of the pointer `ch` itself,
`chBytes`. -/
def doOutputChar (s : TtyColumns) (c : UInt8) : TtyColumns × List UInt8 :=
  if c = 0x0a then
    let s := if t.oOnlret then { s with column := 0 } else s
    if t.oOnlcr then ({ column := 0, canonColumn := 0 }, [0x0d, 0x0a])
    else ({ s with canonColumn := s.column }, [c])
  else if c = 0x0d then
    if t.oOnocr && s.column == 0 then (s, [])
    else if t.oOcrnl then (if t.oOnlret then { column := 0, canonColumn := 0 } else s, [0x0a])
    else ({ column := 0, canonColumn := 0 }, [c])
  else if c = 0x09 then
    let spaces := 8 - (s.column &&& 7)
    let s := { s with column := s.column + spaces }
    if t.oTabdly = OutputFlags.xtabs then (s, chBytes.take spaces.toNat) else (s, [c])
  else if c = 0x08 then
    (if 0 < s.column then { s with column := s.column - 1 } else s, [0x08, 0x20, 0x08])
  else if !iscntrl c then
    (if !isContinuation t c then { s with column := s.column + 1 } else s, [if t.oOlcuc then toupper c else c])
  else (s, [c])

/-- The `switch` of `process_output_block`: the columns, and whether the loop goes on. -/
def blockChar (s : TtyColumns) (c : UInt8) : TtyColumns × Bool :=
  if c = 0x0a then
    let s := if t.oOnlret then { s with column := 0 } else s
    if t.oOnlcr then (s, false) else ({ s with canonColumn := s.column }, true)
  else if c = 0x0d then
    if t.oOnocr && s.column == 0 then (s, false)
    else if t.oOcrnl then (s, false)
    else ({ column := 0, canonColumn := 0 }, true)
  else if c = 0x09 then (s, false)
  else if c = 0x08 then (if 0 < s.column then { s with column := s.column - 1 } else s, true)
  else if !iscntrl c then
    if t.oOlcuc then (s, false)
    else (if !isContinuation t c then { s with column := s.column + 1 } else s, true)
  else (s, true)

/-- The loop of `process_output_block`, with the number of bytes before `break_out`. -/
def blockLoop (s : TtyColumns) : List UInt8 → TtyColumns × ℕ
  | [] => (s, 0)
  | c :: cp =>
    let r := blockChar t s c
    if r.2 then
      let q := blockLoop r.1 cp
      (q.1, q.2 + 1)
    else (r.1, 0)

def processOutputBlock (s : TtyColumns) (buf : List UInt8) : TtyColumns × List UInt8 × ℕ :=
  let r := blockLoop t s buf
  (r.1, buf.take r.2, r.2)

/-- The loop of `n_tty_write` under OPOST, with what it has not come to after `n` turns. -/
def opostLoop : ℕ → TtyColumns → List UInt8 → TtyColumns × List UInt8 × List UInt8
  | 0, s, b => (s, [], b)
  | n + 1, s, b =>
    if b = [] then (s, [], [])
    else
      let r := processOutputBlock t s b
      match b.drop r.2.2 with
      | [] => (r.1, r.2.1, [])
      | c :: b =>
        let o := doOutputChar t chBytes r.1 c
        let q := opostLoop n o.1 b
        (q.1, r.2.1 ++ o.2 ++ q.2.1, q.2.2)

/-- `n_tty_write` after the echoes. Every turn takes a byte at least. -/
def nTtyWrite (s : TtyColumns) (buf : List UInt8) : TtyColumns × List UInt8 × List UInt8 :=
  if t.oOpost then opostLoop t chBytes buf.length s buf else (s, buf, [])

/-- What `output` does with the bytes one by one. -/
def outputAll (output : TtyColumns → UInt8 → TtyColumns × List UInt8) (s : TtyColumns) : List UInt8 → TtyColumns × List UInt8
  | [] => (s, [])
  | c :: b =>
    let r := output s c
    let q := outputAll output r.1 b
    (q.1, r.2 ++ q.2)

/-- The output of one byte by `n_tty_write`: a backspace is not followed by a space and another one. -/
def plainChar (s : TtyColumns) (c : UInt8) : TtyColumns × List UInt8 :=
  if c = 0x08 then ((doOutputChar t chBytes s c).1, [c]) else doOutputChar t chBytes s c

end

section

variable {t : OutputFlags} {chBytes : List UInt8} {s : TtyColumns} {c : UInt8}

theorem blockChar_continues (h : (blockChar t s c).2 = true) : plainChar t chBytes s c = ((blockChar t s c).1, [c]) := by
  unfold blockChar at h
  unfold plainChar doOutputChar blockChar
  by_cases hbs : c = 0x08
  · subst hbs
    rfl
  rw [if_neg hbs]
  by_cases hnl : c = 0x0a
  · rw [if_pos hnl] at h ⊢
    rw [if_pos hnl]
    cases hcr : t.oOnlcr with
    | true => simp [hcr] at h
    | false => simp
  rw [if_neg hnl] at h ⊢
  rw [if_neg hnl]
  by_cases hcr : c = 0x0d
  · rw [if_pos hcr] at h ⊢
    rw [if_pos hcr]
    generalize (t.oOnocr && s.column == 0) = nocr at h ⊢
    cases nocr with
    | true => exact absurd h Bool.false_ne_true
    | false =>
      cases hcrnl : t.oOcrnl with
      | true => simp [hcrnl] at h
      | false => simp
  rw [if_neg hcr] at h ⊢
  rw [if_neg hcr]
  by_cases htab : c = 0x09
  · rw [if_pos htab] at h
    exact absurd h Bool.false_ne_true
  rw [if_neg htab, if_neg hbs] at h ⊢
  rw [if_neg htab, if_neg hbs]
  cases hcntrl : iscntrl c with
  | true => simp
  | false =>
    cases hlcuc : t.oOlcuc with
    | true => simp [hcntrl, hlcuc] at h
    | false => simp

theorem blockChar_breaks (h : (blockChar t s c).2 = false) :
    plainChar t chBytes s c = doOutputChar t chBytes (blockChar t s c).1 c := by
  unfold blockChar at h
  unfold plainChar blockChar
  by_cases hbs : c = 0x08
  · subst hbs
    exact absurd h Bool.noConfusion
  rw [if_neg hbs]
  by_cases hnl : c = 0x0a
  · subst hnl
    rw [if_pos rfl] at h ⊢
    cases hcr : t.oOnlcr with
    | true => simp [doOutputChar, hcr]
    | false => simp [hcr] at h
  rw [if_neg hnl] at h ⊢
  by_cases hcr : c = 0x0d
  · rw [if_pos hcr] at h ⊢
    generalize (t.oOnocr && s.column == 0) = nocr at h ⊢
    cases nocr with
    | true => simp
    | false =>
      cases hcrnl : t.oOcrnl with
      | true => simp
      | false => simp [hcrnl] at h
  rw [if_neg hcr] at h ⊢
  by_cases htab : c = 0x09
  · rw [if_pos htab]
  rw [if_neg htab, if_neg hbs] at h ⊢
  cases hcntrl : iscntrl c with
  | true => simp [hcntrl] at h
  | false =>
    cases hlcuc : t.oOlcuc with
    | true => simp
    | false => simp [hcntrl, hlcuc] at h

theorem blockLoop_eq (s : TtyColumns) (b : List UInt8) :
    outputAll (plainChar t chBytes) s b =
      match b.drop (blockLoop t s b).2 with
      | [] => ((blockLoop t s b).1, b)
      | c :: rest =>
        let o := doOutputChar t chBytes (blockLoop t s b).1 c
        let q := outputAll (plainChar t chBytes) o.1 rest
        (q.1, b.take (blockLoop t s b).2 ++ o.2 ++ q.2) := by
  induction b generalizing s with
  | nil => rfl
  | cons c b ih =>
    rw [outputAll, blockLoop]
    cases hgo : (blockChar t s c).2 with
    | true =>
      rw [if_pos rfl, blockChar_continues hgo]
      dsimp only
      rw [ih, List.drop_succ_cons, List.take_succ_cons]
      cases b.drop (blockLoop t (blockChar t s c).1 b).2 with
      | nil => rfl
      | cons d rest => simp
    | false =>
      rw [if_neg Bool.false_ne_true, blockChar_breaks hgo]
      rfl

theorem opostLoop_eq {n : ℕ} (s : TtyColumns) (b : List UInt8) (hn : b.length ≤ n) :
    opostLoop t chBytes n s b =
      ((outputAll (plainChar t chBytes) s b).1, (outputAll (plainChar t chBytes) s b).2, []) := by
  induction n generalizing s b with
  | zero =>
    obtain rfl := List.eq_nil_of_length_eq_zero (Nat.le_zero.mp hn)
    rfl
  | succ n ih =>
    rw [opostLoop]
    by_cases hb : b = []
    · rw [if_pos hb, hb]
      rfl
    · rw [if_neg hb, blockLoop_eq s b]
      unfold processOutputBlock
      dsimp only
      cases hrest : b.drop (blockLoop t s b).2 with
      | nil =>
        dsimp only
        rw [List.take_of_length_le (List.drop_eq_nil_iff.mp hrest)]
      | cons c rest =>
        have hlen : rest.length ≤ n := by
          have hlen := congrArg List.length hrest
          rw [List.length_drop, List.length_cons] at hlen
          omega
        dsimp only
        rw [ih _ _ hlen]

theorem plainChar_columns (s : TtyColumns) (c : UInt8) : (plainChar t chBytes s c).1 = (doOutputChar t chBytes s c).1 := by
  unfold plainChar
  split
  · rfl
  · rfl

theorem plainChar_length (s : TtyColumns) (c : UInt8) :
    (doOutputChar t chBytes s c).2.length = (plainChar t chBytes s c).2.length + if c = 0x08 then 2 else 0 := by
  unfold plainChar
  split
  · rename_i hc
    subst hc
    rfl
  · rfl

theorem outputAll_plain (s : TtyColumns) (b : List UInt8) :
    (outputAll (plainChar t chBytes) s b).1 = (outputAll (doOutputChar t chBytes) s b).1 ∧
      (outputAll (doOutputChar t chBytes) s b).2.length =
        (outputAll (plainChar t chBytes) s b).2.length + 2 * b.count 0x08 := by
  induction b generalizing s with
  | nil => exact ⟨rfl, rfl⟩
  | cons c b ih =>
    obtain ⟨hcolumns, hlength⟩ := ih (doOutputChar t chBytes s c).1
    have hfirst := @plainChar_length t chBytes s c
    rw [outputAll, outputAll]
    dsimp only
    rw [plainChar_columns]
    refine ⟨hcolumns, ?_⟩
    rw [List.length_append, List.length_append, hlength, hfirst, List.count_cons]
    simp only [beq_iff_eq]
    split_ifs <;> omega

theorem outputAll_congr (s : TtyColumns) {b : List UInt8} (h : 0x08 ∉ b) :
    outputAll (plainChar t chBytes) s b = outputAll (doOutputChar t chBytes) s b := by
  induction b generalizing s with
  | nil => rfl
  | cons c b ih =>
    rw [List.mem_cons, not_or] at h
    rw [outputAll, outputAll, plainChar, if_neg (Ne.symm h.1), ih _ h.2]

/-- Block output is character output just for the strings without a backspace. -/
theorem nTtyWrite_agrees_iff (hpost : t.oOpost = true) (s : TtyColumns) (buf : List UInt8) :
    (nTtyWrite t chBytes s buf).1 = (outputAll (doOutputChar t chBytes) s buf).1 ∧
        (nTtyWrite t chBytes s buf).2.1 = (outputAll (doOutputChar t chBytes) s buf).2 ↔
      0x08 ∉ buf := by
  rw [nTtyWrite, if_pos hpost, opostLoop_eq s buf le_rfl]
  obtain ⟨hcolumns, hlength⟩ := @outputAll_plain t chBytes s buf
  constructor
  · rintro ⟨-, hbytes⟩
    dsimp only at hbytes
    rw [hbytes] at hlength
    apply List.count_eq_zero.mp
    omega
  · intro h
    rw [outputAll_congr s h]
    exact ⟨rfl, rfl⟩

theorem nTtyWrite_agrees_iff_newline :
    (nTtyWrite ⟨0, 0o3⟩ [] ⟨5, 0⟩ [0x61, 0x0a, 0x62]).1 = (outputAll (doOutputChar ⟨0, 0o3⟩ []) ⟨5, 0⟩ [0x61, 0x0a, 0x62]).1 ∧
        (nTtyWrite ⟨0, 0o3⟩ [] ⟨5, 0⟩ [0x61, 0x0a, 0x62]).2.1 =
          (outputAll (doOutputChar ⟨0, 0o3⟩ []) ⟨5, 0⟩ [0x61, 0x0a, 0x62]).2 ↔
      0x08 ∉ ([0x61, 0x0a, 0x62] : List UInt8) :=
  nTtyWrite_agrees_iff (by decide) ⟨5, 0⟩ [0x61, 0x0a, 0x62]

/-- A backspace by itself. -/
theorem nTtyWrite_backspace :
    (nTtyWrite ⟨0, 0o3⟩ [] ⟨5, 0⟩ [0x08]).2.1 = [0x08] ∧
      (outputAll (doOutputChar ⟨0, 0o3⟩ []) ⟨5, 0⟩ [0x08]).2 = [0x08, 0x20, 0x08] ∧
      ¬∀ (t : OutputFlags) (chBytes : List UInt8) (s : TtyColumns) (buf : List UInt8), t.oOpost = true →
        (nTtyWrite t chBytes s buf).1 = (outputAll (doOutputChar t chBytes) s buf).1 ∧
          (nTtyWrite t chBytes s buf).2.1 = (outputAll (doOutputChar t chBytes) s buf).2 := by
  refine ⟨by decide, by decide, ?_⟩
  intro h
  have hbytes := (h ⟨0, 0o3⟩ [] ⟨5, 0⟩ [0x08] (by decide)).2
  revert hbytes
  decide

end

end RtSmart
