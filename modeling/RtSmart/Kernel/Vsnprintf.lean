import RtSmart.Lib.ByteMem

/-!
`rt_vsnprintf` and `print_number` of `kservice.c`, without the conversions of floating point numbers. An `int` is an integer
that wraps at 32 bits, and an address is a number below 2^64.
-/

namespace RtSmart.Vsnprintf

open Lib

/-- The value of an `int`. -/
def wrap (x : ℤ) : ℤ := Int.bmod x (2 ^ 32)

def ch (c : Char) : UInt8 := UInt8.ofNat c.toNat

/-! The output. -/

/-- The memory, and where the next byte goes; `out` records every byte that has been put out, stored or not. -/
structure Cursor where
  mem : ℕ → UInt8
  str : ℕ
  out : List UInt8

/-- `if (str < end) *str = c; ++ str;` -/
def put (stop : ℕ) (c : UInt8) (st : Cursor) : Cursor :=
  ⟨if st.str < stop then Function.update st.mem st.str c else st.mem, (st.str + 1) % 2 ^ 64, st.out ++ [c]⟩

def puts (stop : ℕ) (text : List UInt8) (st : Cursor) : Cursor := text.foldl (fun st c => put stop c st) st

/-- The byte `c` as often as a loop over `n` runs that ends at 0. -/
def pad (stop : ℕ) (c : UInt8) (n : ℤ) (st : Cursor) : Cursor := (put stop c)^[n.toNat] st

def onlyIf (p : Prop) [Decidable p] (f : Cursor → Cursor) (st : Cursor) : Cursor := if p then f st else st

/-! The format. -/

structure Flags where
  zeropad : Bool
  sign : Bool
  plus : Bool
  space : Bool
  left : Bool
  special : Bool
  large : Bool
deriving DecidableEq

def Flags.none : Flags := ⟨false, false, false, false, false, false, false⟩

def parseFlags (flags : Flags) : List UInt8 → Flags × List UInt8
  | [] => (flags, [])
  | c :: fmt =>
    if c = ch '-' then parseFlags { flags with left := true } fmt
    else if c = ch '+' then parseFlags { flags with plus := true } fmt
    else if c = ch ' ' then parseFlags { flags with space := true } fmt
    else if c = ch '#' then parseFlags { flags with special := true } fmt
    else if c = ch '0' then parseFlags { flags with zeropad := true } fmt
    else (flags, c :: fmt)

def isDigit (c : UInt8) : Bool := ch '0' ≤ c ∧ c ≤ ch '9'

def skipAtoi (i : ℤ) : List UInt8 → ℤ × List UInt8
  | [] => (i, [])
  | c :: fmt => if isDigit c then skipAtoi (wrap (i * 10 + c.toNat - 48)) fmt else (i, c :: fmt)

/-- A width or a precision: not there, a number, or the next argument. -/
inductive Field
  | absent
  | number (n : ℤ)
  | star
deriving DecidableEq

def parseField : List UInt8 → Field × List UInt8
  | [] => (.absent, [])
  | c :: fmt =>
    if isDigit c then
      let (n, fmt) := skipAtoi 0 (c :: fmt)
      (.number n, fmt)
    else if c = ch '*' then (.star, fmt)
    else (.absent, c :: fmt)

def parsePrecision : List UInt8 → Field × List UInt8
  | [] => (.absent, [])
  | c :: fmt =>
    if c = ch '.' then
      match parseField fmt with
      | (.absent, fmt) => (.number 0, fmt)
      | parsed => parsed
    else (.absent, c :: fmt)

inductive Qualifier
  | none
  | short
  | long
  | longLong
deriving DecidableEq

def parseQualifier : List UInt8 → Qualifier × List UInt8
  | [] => (.none, [])
  | c :: fmt =>
    if c = ch 'h' then (.short, fmt)
    else if c = ch 'L' then (.longLong, fmt)
    else if c = ch 'l' then
      match fmt with
      | d :: rest => if d = ch 'l' then (.longLong, rest) else (.long, d :: rest)
      | [] => (.long, [])
    else (.none, c :: fmt)

/-- What stands behind a `%`; `conv` is 0 at the end of the format, and `length` is without the `%`. -/
structure Directive where
  flags : Flags
  width : Field
  precision : Field
  qualifier : Qualifier
  conv : UInt8
  length : ℕ
deriving DecidableEq

def parseDirective (fmt : List UInt8) : Directive :=
  let (flags, rest) := parseFlags .none fmt
  let (width, rest) := parseField rest
  let (precision, rest) := parsePrecision rest
  let (qualifier, rest) := parseQualifier rest
  ⟨flags, width, precision, qualifier, rest.headD 0, fmt.length - rest.length + 1⟩

/-! The arguments. -/

inductive Kind
  | int
  | long
  | longLong
  | str
  | ptr
deriving DecidableEq

/-- An argument; a string is without its zero, or a NULL. -/
inductive Arg
  | int (v : BitVec 32)
  | long (v : BitVec 64)
  | longLong (v : BitVec 64)
  | str (s : Option {s : List UInt8 // 0 ∉ s})
  | ptr (v : BitVec 64)

def Arg.kind : Arg → Kind
  | .int _ => .int
  | .long _ => .long
  | .longLong _ => .longLong
  | .str _ => .str
  | .ptr _ => .ptr

def takeField : Field → List Arg → Option (Option ℤ × List Arg)
  | .absent, args => some (none, args)
  | .number n, args => some (some n, args)
  | .star, .int v :: args => some (some v.toInt, args)
  | .star, _ => none

/-- The `num` of a conversion, as the qualifier has it. -/
def takeNumber : Qualifier → List Arg → Option (BitVec 64 × List Arg)
  | .longLong, .longLong v :: args => some (v, args)
  | .long, .long v :: args => some (v, args)
  | .short, .int v :: args => some ((v.setWidth 16).setWidth 64, args)
  | .none, .int v :: args => some (v.setWidth 64, args)
  | _, _ => none

/-! The conversions. -/

def signOf (type : Flags) (qualifier : Qualifier) (num : BitVec 64) : UInt8 × BitVec 64 :=
  if type.sign = false then (0, num)
  else
    let (negative, magnitude) :=
      match qualifier with
      | .short => ((num.setWidth 16).msb, -(num.setWidth 16).signExtend 64)
      | .long | .longLong => (num.msb, 0 - num)
      | .none => ((num.setWidth 32).msb, (0 - num.setWidth 32).setWidth 64)
    if negative then (ch '-', magnitude)
    else (if type.plus then ch '+' else if type.space then ch ' ' else 0, num)

def digit (large : Bool) (d : ℕ) : UInt8 :=
  if d < 10 then UInt8.ofNat (48 + d) else UInt8.ofNat ((if large then 55 else 87) + d)

/-- The digits of a number, the last one first, by a loop that turns `n` times at most. -/
def digitLoop (large : Bool) (base : ℕ) : ℕ → ℕ → List UInt8
  | 0, _ => []
  | n + 1, num => if num = 0 then [] else digit large (num % base) :: digitLoop large base n (num / base)

/-- `tmp`, up to `i`. -/
def digits (large : Bool) (base : ℕ) (num : BitVec 64) : List UInt8 :=
  if num = 0 then [ch '0'] else digitLoop large base 64 num.toNat

/-- The counter behind `while (size-- > 0)`. -/
def drained (size : ℤ) : ℤ := if 0 < size then -1 else wrap (size - 1)

def printNumber (num : BitVec 64) (base : ℕ) (qualifier : Qualifier) (s precision : ℤ) (type : Flags) (stop : ℕ)
    (st : Cursor) : Cursor :=
  let zeropad := type.zeropad && !type.left
  let c := if zeropad then ch '0' else ch ' '
  let (sign, num) := signOf type qualifier num
  let size := if type.special then if base = 16 then wrap (s - 2) else if base = 8 then wrap (s - 1) else s else s
  let tmp := digits type.large base num
  let total := max precision tmp.length
  let size := wrap (size - total)
  let ahead := !(zeropad || type.left)
  let size := if ahead ∧ sign ≠ 0 ∧ 0 < size then size - 1 else size
  let st := onlyIf ahead (pad stop (ch ' ') size) st
  let size := if ahead then drained size else size
  let st := onlyIf (sign ≠ 0) (put stop sign) st
  let size := if sign ≠ 0 then wrap (size - 1) else size
  let st := onlyIf (type.special ∧ (base = 8 ∨ base = 16)) (put stop (ch '0')) st
  let st := onlyIf (type.special ∧ base = 16) (put stop (if type.large then ch 'X' else ch 'x')) st
  let st := onlyIf (type.left = false) (pad stop c size) st
  let size := if type.left then size else drained size
  let st := pad stop (ch '0') (total - tmp.length) st
  let st := onlyIf (precision ≠ 0) (puts stop tmp.reverse) st
  pad stop (ch ' ') size st

/-- `%c` -/
def printChar (v : BitVec 32) (fieldWidth : ℤ) (left : Bool) (stop : ℕ) (st : Cursor) : Cursor :=
  let st := onlyIf (left = false) (pad stop (ch ' ') (wrap (fieldWidth - 1))) st
  let fieldWidth := if left then fieldWidth else min 0 (wrap (fieldWidth - 1))
  let st := put stop (UInt8.ofNat v.toNat) st
  pad stop (ch ' ') (wrap (fieldWidth - 1)) st

/-- `%s` -/
def printString (s : List UInt8) (fieldWidth precision : ℤ) (left : Bool) (stop : ℕ) (st : Cursor) : Cursor :=
  let len := wrap s.length
  let len := if 0 < precision ∧ precision < len then precision else len
  let st := onlyIf (left = false) (pad stop (ch ' ') (fieldWidth - len)) st
  let fieldWidth := if left then fieldWidth else wrap (min fieldWidth len - 1)
  let st := puts stop (s.take len.toNat) st
  pad stop (ch ' ') (fieldWidth - len) st

def integerConv (conv : UInt8) (flags : Flags) : Option (ℕ × Flags) :=
  if conv = ch 'o' then some (8, flags)
  else if conv = ch 'X' then some (16, { flags with large := true })
  else if conv = ch 'x' then some (16, flags)
  else if conv = ch 'd' ∨ conv = ch 'i' then some (10, { flags with sign := true })
  else if conv = ch 'u' then some (10, flags)
  else none

/-- The switch over the conversion; `none` when the arguments do not match, or for a floating point number. -/
def convert (d : Directive) (flags : Flags) (fieldWidth precision : ℤ) (args : List Arg) (stop : ℕ) (st : Cursor) :
    Option (Cursor × List Arg) :=
  if d.conv = ch 'c' then
    match args with
    | .int v :: args => some (printChar v fieldWidth flags.left stop st, args)
    | _ => none
  else if d.conv = ch 's' then
    match args with
    | .str s :: args =>
      some (printString (s.elim ("(NULL)".toList.map ch) Subtype.val) fieldWidth precision flags.left stop st, args)
    | _ => none
  else if d.conv = ch 'p' then
    match args with
    | .ptr v :: args =>
      let (fieldWidth, flags) :=
        if fieldWidth = -1 then (18, { flags with special := true, zeropad := true }) else (fieldWidth, flags)
      some (printNumber v 16 d.qualifier fieldWidth precision flags stop st, args)
    | _ => none
  else if d.conv = ch 'F' ∨ d.conv = ch 'f' then none
  else if d.conv = ch '%' then some (put stop (ch '%') st, args)
  else
    match integerConv d.conv flags with
    | some (base, flags) =>
      (takeNumber d.qualifier args).map fun (num, args) =>
        (printNumber num base d.qualifier fieldWidth precision flags stop st, args)
    | none =>
      let st := put stop (ch '%') st
      some (onlyIf (d.conv ≠ 0) (put stop d.conv) st, args)

def runDirective (d : Directive) (args : List Arg) (stop : ℕ) (st : Cursor) : Option (Cursor × List Arg) := do
  let (width, args) ← takeField d.width args
  let fieldWidth := width.getD (-1)
  let (fieldWidth, flags) :=
    if d.width = .star ∧ fieldWidth < 0 then (wrap (-fieldWidth), { d.flags with left := true }) else (fieldWidth, d.flags)
  let (precision, args) ← takeField d.precision args
  let precision := precision.elim (-1) (max 0)
  convert d flags fieldWidth precision args stop st

/-- The loop over the format; `skip` bytes of it belong to a directive that is done. -/
def vsnprintfLoop : List UInt8 → ℕ → List Arg → ℕ → Cursor → Option Cursor
  | [], _, _, _, st => some st
  | _ :: fmt, skip + 1, args, stop, st => vsnprintfLoop fmt skip args stop st
  | c :: fmt, 0, args, stop, st =>
    if c ≠ ch '%' then vsnprintfLoop fmt 0 args stop (put stop c st)
    else do
      let d := parseDirective fmt
      let (st, args) ← runDirective d args stop st
      vsnprintfLoop fmt d.length args stop st

/-- The zero behind the text, in a buffer that ends at `stop`. -/
def finish (stop size : ℕ) (st : Cursor) : ℕ → UInt8 :=
  if 0 < size then
    if st.str < stop then Function.update st.mem st.str 0 else Function.update st.mem (stop - 1) 0
  else st.mem

/-- The memory and the result. -/
def rtVsnprintf (mem : ℕ → UInt8) (buf size : ℕ) (fmt : List UInt8) (args : List Arg) : Option ((ℕ → UInt8) × ℤ) := do
  let stop := (buf + size) % 2 ^ 64
  let (stop, size) := if stop < buf then (2 ^ 64 - 1, 2 ^ 64 - 1 - buf) else (stop, size)
  let st ← vsnprintfLoop fmt 0 args stop ⟨mem, buf, []⟩
  some (finish stop size st, wrap (st.str - buf))

/-- The full output: all that is put out when the buffer is the whole address space. -/
def fullOutput (fmt : List UInt8) (args : List Arg) : List UInt8 :=
  (vsnprintfLoop fmt 0 args (2 ^ 64) ⟨fun _ => 0, 0, []⟩).elim [] Cursor.out

/-! The arguments that a format takes. -/

def Field.kinds : Field → List Kind
  | .star => [.int]
  | _ => []

def Qualifier.kind : Qualifier → Kind
  | .longLong => .longLong
  | .long => .long
  | _ => .int

/-- What the conversion itself takes; `none` for a floating point number. -/
def Directive.convKinds (d : Directive) : Option (List Kind) :=
  if d.conv = ch 'c' then some [.int]
  else if d.conv = ch 's' then some [.str]
  else if d.conv = ch 'p' then some [.ptr]
  else if d.conv = ch 'F' ∨ d.conv = ch 'f' then none
  else if (integerConv d.conv d.flags).isSome then some [d.qualifier.kind]
  else some []

def Directive.kinds (d : Directive) : Option (List Kind) :=
  d.convKinds.map fun conv => d.width.kinds ++ (d.precision.kinds ++ conv)

def kinds : List UInt8 → ℕ → Option (List Kind)
  | [], _ => some []
  | _ :: fmt, skip + 1 => kinds fmt skip
  | c :: fmt, 0 =>
    if c ≠ ch '%' then kinds fmt 0
    else do
      let first ← (parseDirective fmt).kinds
      let rest ← kinds fmt (parseDirective fmt).length
      some (first ++ rest)

/-- The arguments start with those that the format takes. -/
def Matching (fmt : List UInt8) (args : List Arg) : Prop := ∃ ks, kinds fmt 0 = some ks ∧ ks <+: args.map Arg.kind

/-! What is put out does not depend on the buffer. -/

def Emits (f : ℕ → Cursor → Cursor) : Prop := ∃ text, ∀ stop st, f stop st = puts stop text st

section

variable {f g : ℕ → Cursor → Cursor} {c : UInt8} {n : ℤ} {p : Prop} [Decidable p] {text : List UInt8}

theorem puts_append (stop : ℕ) (text text' : List UInt8) (st : Cursor) :
    puts stop (text ++ text') st = puts stop text' (puts stop text st) := List.foldl_append

theorem puts_out (stop : ℕ) (text : List UInt8) (st : Cursor) : (puts stop text st).out = st.out ++ text := by
  induction text generalizing st with
  | nil => exact (List.append_nil _).symm
  | cons c text ih =>
    change (puts stop text (put stop c st)).out = _
    rw [ih, put, List.append_assoc]
    rfl

theorem puts_replicate (stop n : ℕ) (c : UInt8) (st : Cursor) : puts stop (List.replicate n c) st = (put stop c)^[n] st := by
  induction n generalizing st with
  | zero => rfl
  | succ n ih => exact ih (put stop c st)

theorem Emits.same : Emits fun _ st => st := ⟨[], fun _ _ => rfl⟩

theorem Emits.puts (hf : Emits f) : Emits fun stop st => puts stop text (f stop st) := by
  obtain ⟨before, hf⟩ := hf
  refine ⟨before ++ text, fun stop st => ?_⟩
  dsimp only
  rw [hf, puts_append]

theorem Emits.put (hf : Emits f) : Emits fun stop st => put stop c (f stop st) := @Emits.puts f [c] hf

theorem Emits.pad (hf : Emits f) : Emits fun stop st => pad stop c n (f stop st) := by
  obtain ⟨before, hf⟩ := hf
  refine ⟨before ++ List.replicate n.toNat c, fun stop st => ?_⟩
  dsimp only
  rw [hf, puts_append, puts_replicate]
  rfl

theorem Emits.onlyIf (hf : Emits f) (hg : Emits fun stop st => g stop (f stop st)) :
    Emits fun stop st => onlyIf p (g stop) (f stop st) := by
  unfold Vsnprintf.onlyIf
  by_cases hp : p
  · simp only [if_pos hp]
    exact hg
  · simp only [if_neg hp]
    exact hf

theorem Emits.putIf (hf : Emits f) : Emits fun stop st => Vsnprintf.onlyIf p (Vsnprintf.put stop c) (f stop st) :=
  hf.onlyIf hf.put

theorem Emits.putsIf (hf : Emits f) : Emits fun stop st => Vsnprintf.onlyIf p (Vsnprintf.puts stop text) (f stop st) :=
  hf.onlyIf hf.puts

theorem Emits.padIf (hf : Emits f) : Emits fun stop st => Vsnprintf.onlyIf p (Vsnprintf.pad stop c n) (f stop st) :=
  hf.onlyIf hf.pad

theorem printNumber_emits (num : BitVec 64) (base : ℕ) (qualifier : Qualifier) (s precision : ℤ) (type : Flags) :
    Emits (printNumber num base qualifier s precision type) := by
  unfold printNumber
  obtain ⟨sign, magnitude⟩ := signOf type qualifier num
  dsimp only
  apply Emits.pad
  apply Emits.putsIf
  apply Emits.pad
  apply Emits.padIf
  apply Emits.putIf
  apply Emits.putIf
  apply Emits.putIf
  apply Emits.padIf
  exact Emits.same

theorem printChar_emits (v : BitVec 32) (fieldWidth : ℤ) (left : Bool) : Emits (printChar v fieldWidth left) := by
  unfold printChar
  dsimp only
  apply Emits.pad
  apply Emits.put
  apply Emits.padIf
  exact Emits.same

theorem printString_emits (s : List UInt8) (fieldWidth precision : ℤ) (left : Bool) :
    Emits (printString s fieldWidth precision left) := by
  unfold printString
  dsimp only
  apply Emits.pad
  apply Emits.puts
  apply Emits.padIf
  exact Emits.same

end

/-! The arguments are there. -/

section

variable {d : Directive} {args : List Arg} {ks : List Kind}

theorem takeField_of_kinds {field : Field} (h : field.kinds ++ ks <+: args.map Arg.kind) :
    ∃ v args', takeField field args = some (v, args') ∧ ks <+: args'.map Arg.kind := by
  cases field with
  | absent => exact ⟨none, args, rfl, h⟩
  | number n => exact ⟨some n, args, rfl, h⟩
  | star =>
    obtain ⟨rest, hrest⟩ := h
    match args, hrest with
    | .int v :: args, hrest =>
      injection hrest with _ htail
      exact ⟨some v.toInt, args, rfl, rest, htail⟩

theorem takeNumber_of_kinds {q : Qualifier} (h : q.kind :: ks <+: args.map Arg.kind) :
    ∃ v args', takeNumber q args = some (v, args') ∧ ks <+: args'.map Arg.kind := by
  obtain ⟨rest, hrest⟩ := h
  cases args with
  | nil => cases hrest
  | cons arg args =>
    injection hrest with hhead htail
    cases q with
    | none | short =>
      cases arg with
      | int v => exact ⟨_, args, rfl, rest, htail⟩
      | _ => cases hhead
    | long =>
      cases arg with
      | long v => exact ⟨_, args, rfl, rest, htail⟩
      | _ => cases hhead
    | longLong =>
      cases arg with
      | longLong v => exact ⟨_, args, rfl, rest, htail⟩
      | _ => cases hhead

theorem integerConv_isSome (conv : UInt8) (flags flags' : Flags) :
    (integerConv conv flags).isSome = (integerConv conv flags').isSome := by
  unfold integerConv
  split
  · rfl
  · split
    · rfl
    · split
      · rfl
      · split
        · rfl
        · split
          · rfl
          · rfl

def Steps (f : ℕ → Cursor → Option (Cursor × List Arg)) (ks : List Kind) : Prop :=
  ∃ text args', (∀ stop st, f stop st = some (puts stop text st, args')) ∧ ks <+: args'.map Arg.kind

theorem Emits.steps {f : ℕ → Cursor → Cursor} (hf : Emits f) (hargs : ks <+: args.map Arg.kind) :
    Steps (fun stop st => some (f stop st, args)) ks := by
  obtain ⟨text, hf⟩ := hf
  refine ⟨text, args, fun stop st => ?_, hargs⟩
  dsimp only
  rw [hf]

theorem convert_steps {conv : List Kind} (flags : Flags) (fieldWidth precision : ℤ) (hconv : d.convKinds = some conv)
    (h : conv ++ ks <+: args.map Arg.kind) : Steps (convert d flags fieldWidth precision args) ks := by
  unfold Directive.convKinds at hconv
  unfold convert
  by_cases hc : d.conv = ch 'c'
  · rw [if_pos hc] at hconv
    simp only [if_pos hc]
    cases hconv
    obtain ⟨rest, hrest⟩ := h
    match args, hrest with
    | .int v :: args, hrest =>
      injection hrest with _ htail
      exact (printChar_emits v fieldWidth flags.left).steps ⟨rest, htail⟩
  · rw [if_neg hc] at hconv
    simp only [if_neg hc]
    by_cases hs : d.conv = ch 's'
    · rw [if_pos hs] at hconv
      simp only [if_pos hs]
      cases hconv
      obtain ⟨rest, hrest⟩ := h
      match args, hrest with
      | .str s :: args, hrest =>
        injection hrest with _ htail
        exact (printString_emits _ fieldWidth precision flags.left).steps ⟨rest, htail⟩
    · rw [if_neg hs] at hconv
      simp only [if_neg hs]
      by_cases hp : d.conv = ch 'p'
      · rw [if_pos hp] at hconv
        simp only [if_pos hp]
        cases hconv
        obtain ⟨rest, hrest⟩ := h
        match args, hrest with
        | .ptr v :: args, hrest =>
          injection hrest with _ htail
          exact (printNumber_emits v 16 d.qualifier _ precision _).steps ⟨rest, htail⟩
      · rw [if_neg hp] at hconv
        simp only [if_neg hp]
        by_cases hfloat : d.conv = ch 'F' ∨ d.conv = ch 'f'
        · rw [if_pos hfloat] at hconv
          cases hconv
        · rw [if_neg hfloat] at hconv
          simp only [if_neg hfloat]
          by_cases hpercent : d.conv = ch '%'
          · have hnone : integerConv d.conv d.flags = none := by
              rw [hpercent]
              rfl
            rw [hnone] at hconv
            simp only [if_pos hpercent]
            cases hconv
            exact Emits.same.put.steps h
          · simp only [if_neg hpercent]
            rw [integerConv_isSome d.conv d.flags flags] at hconv
            cases hinteger : integerConv d.conv flags with
            | some r =>
              rw [hinteger] at hconv
              cases hconv
              obtain ⟨v, args', hv, hargs⟩ := takeNumber_of_kinds h
              simp only [hv, Option.map_some]
              exact (printNumber_emits v r.1 d.qualifier fieldWidth precision r.2).steps hargs
            | none =>
              rw [hinteger] at hconv
              cases hconv
              exact Emits.same.put.putIf.steps h

theorem runDirective_steps {first : List Kind} (hfirst : d.kinds = some first) (h : first ++ ks <+: args.map Arg.kind) :
    Steps (runDirective d args) ks := by
  unfold Directive.kinds at hfirst
  rw [Option.map_eq_some_iff] at hfirst
  obtain ⟨conv, hconv, rfl⟩ := hfirst
  rw [List.append_assoc, List.append_assoc] at h
  obtain ⟨width, args₁, hwidth, h₁⟩ := takeField_of_kinds h
  obtain ⟨precision, args₂, hprecision, h₂⟩ := takeField_of_kinds h₁
  unfold runDirective
  simp only [hwidth, hprecision, Option.bind_eq_bind, Option.bind_some]
  exact convert_steps _ _ _ hconv h₂

theorem vsnprintfLoop_emits {fmt : List UInt8} {skip : ℕ} (hks : kinds fmt skip = some ks) (h : ks <+: args.map Arg.kind) :
    ∃ text, ∀ stop st, vsnprintfLoop fmt skip args stop st = some (puts stop text st) := by
  induction fmt generalizing skip ks args with
  | nil => exact ⟨[], fun _ _ => rfl⟩
  | cons c fmt ih =>
    cases skip with
    | succ skip => exact ih hks h
    | zero =>
      rw [kinds] at hks
      by_cases hc : c ≠ ch '%'
      · rw [if_pos hc] at hks
        obtain ⟨text, htext⟩ := ih hks h
        refine ⟨c :: text, fun stop st => ?_⟩
        rw [vsnprintfLoop, if_pos hc, htext]
        rfl
      · rw [if_neg hc, Option.bind_eq_bind, Option.bind_eq_some_iff] at hks
        obtain ⟨first, hfirst, hks⟩ := hks
        rw [Option.bind_eq_some_iff] at hks
        obtain ⟨rest, hrest, heq⟩ := hks
        cases heq
        obtain ⟨text, args', hstep, hargs⟩ := runDirective_steps hfirst h
        obtain ⟨text', htext⟩ := ih hrest hargs
        refine ⟨text ++ text', fun stop st => ?_⟩
        rw [vsnprintfLoop, if_neg hc]
        simp only [hstep, Option.bind_eq_bind, Option.bind_some]
        rw [htext, puts_append]

theorem vsnprintfLoop_eq {fmt : List UInt8} (h : Matching fmt args) (stop : ℕ) (st : Cursor) :
    vsnprintfLoop fmt 0 args stop st = some (puts stop (fullOutput fmt args) st) := by
  obtain ⟨ks, hks, hargs⟩ := h
  obtain ⟨text, htext⟩ := vsnprintfLoop_emits hks hargs
  have hfull : fullOutput fmt args = text := by
    rw [fullOutput, htext, Option.elim_some, puts_out, List.nil_append]
  rw [hfull, htext]

theorem puts_eq {mem : ℕ → UInt8} {stop str : ℕ} {text out : List UInt8} (h : str + text.length < 2 ^ 64) :
    puts stop text ⟨mem, str, out⟩ =
      ⟨writeBytes mem str (text.take (stop - str)), str + text.length, out ++ text⟩ := by
  induction text generalizing mem str out with
  | nil =>
    rw [List.take_nil, List.append_nil]
    rfl
  | cons c text ih =>
    rw [List.length_cons] at h
    have hput : put stop c ⟨mem, str, out⟩ =
        ⟨if str < stop then Function.update mem str c else mem, str + 1, out ++ [c]⟩ := by
      unfold put
      dsimp only
      rw [Nat.mod_eq_of_lt (by omega)]
    change puts stop text (put stop c ⟨mem, str, out⟩) = _
    rw [hput, ih (by omega), List.length_cons, Nat.add_assoc, Nat.add_comm 1, List.append_assoc, List.singleton_append]
    congr 1
    by_cases hstop : str < stop
    · obtain ⟨k, hk⟩ : ∃ k, stop - str = k + 1 := ⟨stop - str - 1, by omega⟩
      rw [if_pos hstop, hk, List.take_succ_cons, show stop - (str + 1) = k by omega]
      rfl
    · rw [if_neg hstop, show stop - (str + 1) = 0 by omega, show stop - str = 0 by omega]
      rfl

theorem wrap_length {n buf : ℕ} (h : n < 2 ^ 31) : wrap (((buf + n : ℕ) : ℤ) - buf) = n := by
  have hdiff : ((buf + n : ℕ) : ℤ) - buf = n := by push_cast; ring
  rw [hdiff]
  unfold wrap
  rw [Int.bmod_eq_of_le (by omega) (by omega)]

theorem holds_terminated {mem : ℕ → UInt8} {buf k : ℕ} {text : List UInt8} (hk : k ≤ text.length) :
    Holds (Function.update (writeBytes mem buf text) (buf + k) 0) buf (text.take k ++ [0]) := by
  have hstored : Holds (writeBytes mem buf text) buf text := holds_writeBytes mem buf text
  induction text generalizing mem buf k with
  | nil =>
    rw [List.length_nil, Nat.le_zero] at hk
    rw [hk]
    exact ⟨Function.update_self _ _ _, trivial⟩
  | cons c text ih =>
    cases k with
    | zero => exact ⟨Function.update_self _ _ _, trivial⟩
    | succ k =>
      rw [List.length_cons] at hk
      refine ⟨?_, ?_⟩
      · rw [Function.update_of_ne (by omega)]
        exact hstored.1
      · rw [show buf + (k + 1) = buf + 1 + k by omega]
        exact ih (by omega) hstored.2

theorem finish_puts {mem : ℕ → UInt8} {buf size : ℕ} {text : List UInt8} (h : buf + text.length < 2 ^ 64) (hsize : 0 < size) :
    finish (buf + size) size (puts (buf + size) text ⟨mem, buf, []⟩) =
      Function.update (writeBytes mem buf (text.take size)) (buf + min text.length (size - 1)) 0 := by
  rw [puts_eq h, Nat.add_sub_cancel_left]
  unfold finish
  dsimp only
  rw [if_pos hsize]
  split
  · rw [Nat.min_eq_left (by omega)]
  · rw [Nat.min_eq_right (by omega), Nat.add_sub_assoc hsize]

end

/-- What `rt_vsnprintf` does for a size: nothing is written outside, the result is the length of the full text, and as much of it
as fits is stored with a zero behind it. -/
structure Bounded (mem : ℕ → UInt8) (buf size : ℕ) (full : List UInt8) (r : (ℕ → UInt8) × ℤ) : Prop where
  outside : ∀ k, k < buf ∨ buf + size ≤ k → r.1 k = mem k
  stored : 0 < size → Holds r.1 buf (full.take (size - 1) ++ [0])
  length : r.2 = full.length

theorem finish_bounded {mem : ℕ → UInt8} {buf size : ℕ} {text : List UInt8} (h : buf + text.length < 2 ^ 64)
    (hlength : text.length < 2 ^ 31) : Bounded mem buf size text
      (finish (buf + size) size (puts (buf + size) text ⟨mem, buf, []⟩),
        wrap ((puts (buf + size) text ⟨mem, buf, []⟩).str - buf)) := by
  refine ⟨fun k hk => ?_, fun hsize => ?_, ?_⟩
  · by_cases hsize : 0 < size
    · dsimp only
      rw [finish_puts h hsize, Function.update_of_ne (by omega)]
      apply writeBytes_of_outside
      rw [List.length_take]
      omega
    · unfold finish
      rw [if_neg hsize, puts_eq h, show buf + size - buf = 0 by omega]
      rfl
  · dsimp only
    rw [finish_puts h hsize]
    have htake : (text.take size).take (min text.length (size - 1)) = text.take (size - 1) := by
      rw [List.take_take, Nat.min_assoc, Nat.min_eq_left (Nat.sub_le size 1), Nat.min_comm]
      exact List.take_eq_take_min.symm
    rw [← htake]
    apply holds_terminated
    rw [List.length_take]
    omega
  · dsimp only
    rw [puts_eq h]
    exact wrap_length hlength

/-- For all arguments that match the format, the text does not depend on the buffer, of which only as much is used as there is.
The memory of the kernel is the lower half of the addresses. -/
theorem rtVsnprintf_bounded {fmt : List UInt8} {args : List Arg} (h : Matching fmt args)
    (hlength : (fullOutput fmt args).length < 2 ^ 31) (mem : ℕ → UInt8) {buf size : ℕ} (hbuf : buf < 2 ^ 63)
    (hsize : size < 2 ^ 64) :
    ∃ r, rtVsnprintf mem buf size fmt args = some r ∧ Bounded mem buf size (fullOutput fmt args) r := by
  have hloop := fun stop => vsnprintfLoop_eq h stop ⟨mem, buf, []⟩
  have hroom : buf + (fullOutput fmt args).length < 2 ^ 64 := by omega
  by_cases hwrap : (buf + size) % 2 ^ 64 < buf
  · have hstop : buf + (2 ^ 64 - 1 - buf) = 2 ^ 64 - 1 := by omega
    have hfinish := @finish_bounded mem buf (2 ^ 64 - 1 - buf) (fullOutput fmt args) hroom hlength
    rw [hstop] at hfinish
    refine ⟨_, ?_, ⟨fun k hk => hfinish.outside k (by omega), fun _ => ?_, hfinish.length⟩⟩
    · unfold rtVsnprintf
      simp only [if_pos hwrap, hloop, Option.bind_eq_bind, Option.bind_some]
    · have hstored := hfinish.stored (by omega)
      rw [List.take_of_length_le (by omega)] at hstored ⊢
      exact hstored
  · have hstop : (buf + size) % 2 ^ 64 = buf + size := by omega
    refine ⟨_, ?_, finish_bounded hroom hlength⟩
    unfold rtVsnprintf
    simp only [if_neg hwrap, hloop, Option.bind_eq_bind, Option.bind_some]
    rw [hstop]

/-- `%-5d|%s` with 42 and `ab` in 6 bytes. -/
theorem rtVsnprintf_bounded_demo :
    fullOutput ("%-5d|%s".toList.map ch) [.int 42, .str (some ⟨[97, 98], by decide⟩)] = "42   |ab".toList.map ch ∧
      ∃ r, rtVsnprintf (fun _ => 0) 64 6 ("%-5d|%s".toList.map ch) [.int 42, .str (some ⟨[97, 98], by decide⟩)] = some r ∧
        Holds r.1 64 ("42   ".toList.map ch ++ [0]) ∧ r.2 = 8 := by
  have hfull : fullOutput ("%-5d|%s".toList.map ch) [.int 42, .str (some ⟨[97, 98], by decide⟩)] =
      "42   |ab".toList.map ch := by decide +kernel
  obtain ⟨r, hr, hbounded⟩ := @rtVsnprintf_bounded ("%-5d|%s".toList.map ch)
    [.int 42, .str (some ⟨[97, 98], by decide⟩)] ⟨[.int, .str], by decide, by decide⟩ (by rw [hfull]; decide)
    (fun _ => 0) 64 6 (by decide) (by decide)
  rw [hfull] at hbounded
  exact ⟨hfull, r, hr, hbounded.stored (by decide), hbounded.length⟩

end RtSmart.Vsnprintf
