import Mathlib.Tactic

/-!
Canonical input of the terminal line discipline (`n_tty.c`, and the flag helpers of `tty.h`): what the terminal
receives, and `n_tty_read`. The attributes stay as they are, with ICANON and without EXTPROC. Output, echo and the
delivery of signals are left out, and `size_t` counters do not come round.
-/

namespace RtSmart

abbrev rtTtyBuf : ℕ := 1024

abbrev disabledChar : UInt8 := 0

/-- The part of `struct termios` that input depends on. -/
structure TtyTermios where
  istrip : Bool
  iuclc : Bool
  igncr : Bool
  icrnl : Bool
  inlcr : Bool
  ixon : Bool
  iutf8 : Bool
  parmrk : Bool
  isig : Bool
  noflsh : Bool
  iexten : Bool
  echo : Bool
  echoe : Bool
  echok : Bool
  echoke : Bool
  intrChar : UInt8
  quitChar : UInt8
  suspChar : UInt8
  startChar : UInt8
  stopChar : UInt8
  eraseChar : UInt8
  weraseChar : UInt8
  killChar : UInt8
  eofChar : UInt8
  eolChar : UInt8
  eol2Char : UInt8
  lnextChar : UInt8
  reprintChar : UInt8

/-- `struct n_tty_data`; `readFlags` by bits. -/
structure NTty where
  readHead : ℕ
  canonHead : ℕ
  readTail : ℕ
  readBuf : ℕ → UInt8
  readFlags : ℕ → Bool

/-- The difference of two `size_t`. -/
def subSize (a b : ℕ) : ℕ :=
  (a + 2 ^ 64 - b) % 2 ^ 64

/-! ### The flags (`tty.h`) -/

/-- `__ffs`, which looks at 32 bits: `BITS_PER_LONG` is defined below it. -/
def ffs (word : BitVec 64) : ℕ :=
  let (num, word) := if word &&& 0xffff = 0 then (16, word >>> 16) else (0, word)
  let (num, word) := if word &&& 0xff = 0 then (num + 8, word >>> 8) else (num, word)
  let (num, word) := if word &&& 0xf = 0 then (num + 4, word >>> 4) else (num, word)
  let (num, word) := if word &&& 0x3 = 0 then (num + 2, word >>> 2) else (num, word)
  if word &&& 0x1 = 0 then num + 1 else num

/-- The `unsigned long` number `i` of the flags. -/
def flagsWord (flags : ℕ → Bool) (i : ℕ) : BitVec 64 :=
  BitVec.ofNat 64 ((List.range 64).foldl (fun w k => if flags (64 * i + k) then w + 2 ^ k else w) 0)

/-- From the label `found_first` of `find_next_bit`. -/
def findFirst (word : BitVec 64) (size result : ℕ) : ℕ :=
  let tmp := word &&& BitVec.allOnes 64 >>> (32 - size)
  if tmp = 0 then result + size else result + ffs tmp

/-- The loop of `find_next_bit`, with what follows it. -/
def findWords (flags : ℕ → Bool) (p size result : ℕ) : ℕ :=
  if 32 ≤ size then
    if flagsWord flags p ≠ 0 then result + ffs (flagsWord flags p)
    else findWords flags (p + 1) (size - 32) (result + 32)
  else if size = 0 then result
  else findFirst (flagsWord flags p) size result
termination_by size

def findNextBit (flags : ℕ → Bool) (size offset : ℕ) : ℕ :=
  let p := offset / 32
  let result := offset / 32 * 32
  if size ≤ offset then size
  else if offset % 32 ≠ 0 then
    let tmp := flagsWord flags p &&& BitVec.allOnes 64 <<< (offset % 32)
    if size - result < 32 then findFirst tmp (size - result) result
    else if tmp ≠ 0 then result + ffs tmp
    else findWords flags (p + 1) (size - result - 32) (result + 32)
  else findWords flags p (size - result) result

/-! ### Reading -/

namespace NTty

/-- `read_buf` -/
def readBufAt (s : NTty) (i : ℕ) : UInt8 :=
  s.readBuf (i % rtTtyBuf)

/-- `input_available_p` -/
def inputAvailable (s : NTty) : Bool :=
  s.canonHead ≠ s.readTail

/-- The `memcpy`s of `canon_copy_from_read_buf`. -/
def copyOut (s : NTty) (n : ℕ) : List UInt8 :=
  let tail := s.readTail % rtTtyBuf
  let bufSize := rtTtyBuf - tail
  if bufSize < n then
    ((List.range bufSize).map fun i => s.readBuf (tail + i)) ++ (List.range (n - bufSize)).map s.readBuf
  else (List.range n).map fun i => s.readBuf (tail + i)

/-- `canon_copy_from_read_buf` -/
def canonCopy (s : NTty) (nr : ℕ) : NTty × List UInt8 :=
  if nr = 0 then (s, [])
  else
    let n := min ((nr + 1) % 2 ^ 64) (subSize s.canonHead s.readTail)
    let tail := s.readTail % rtTtyBuf
    let size := min (tail + n) rtTtyBuf
    let eol := findNextBit s.readFlags size tail
    let more := n - (size - tail)
    let (eol, found) :=
      if eol = rtTtyBuf ∧ more ≠ 0 then
        (findNextBit s.readFlags more 0, decide (findNextBit s.readFlags more 0 ≠ more))
      else (eol, decide (eol ≠ size))
    let n := subSize eol tail
    let n := if rtTtyBuf < n then (n + rtTtyBuf) % 2 ^ 64 else n
    let c := n + found.toNat
    let (n, c) := if !found ∨ s.readBufAt eol ≠ disabledChar then (min nr c, min nr c) else (n, c)
    ({ s with
        readFlags := if found then Function.update s.readFlags eol false else s.readFlags
        readTail := s.readTail + c },
      s.copyOut n)

/-- What a read comes to: it returns bytes, or it waits (or gives up with `EAGAIN`). -/
inductive ReadAnswer
  | bytes (b : List UInt8)
  | wait
deriving DecidableEq

/-- The loop of `n_tty_read`. A turn that returns no byte takes at least one from the buffer, so that as many turns
as the buffer has bytes are enough. -/
def readLoop : ℕ → NTty → ℕ → NTty × ReadAnswer
  | 0, s, _ => (s, .wait)
  | k + 1, s, count =>
    if !s.inputAvailable then (s, .wait)
    else
      let (s, b) := s.canonCopy count
      if b.length ≥ 1 then (s, .bytes b) else readLoop k s count

/-- `n_tty_read` -/
def read (s : NTty) (count : ℕ) : NTty × ReadAnswer :=
  if count = 0 then (s, .bytes []) else s.readLoop (rtTtyBuf + 1) count

/-! ### Receiving -/

def putTtyQueue (s : NTty) (c : UInt8) : NTty :=
  { s with readBuf := Function.update s.readBuf (s.readHead % rtTtyBuf) c, readHead := s.readHead + 1 }

/-- The `handle_newline` of `n_tty_receive_char_special`. -/
def handleNewline (s : NTty) (c : UInt8) : NTty :=
  let s := { s with readFlags := Function.update s.readFlags (s.readHead % rtTtyBuf) true }.putTtyQueue c
  { s with canonHead := s.readHead }

def resetBufferFlags (s : NTty) : NTty :=
  { s with
    readHead := 0
    canonHead := 0
    readTail := 0
    readFlags := fun i => if i < 8 * rtTtyBuf then false else s.readFlags i }

end NTty

inductive KillType
  | kerase
  | werase
  | kill
deriving DecidableEq

namespace TtyTermios

def isContinuation (t : TtyTermios) (c : UInt8) : Bool :=
  t.iutf8 ∧ c &&& 0xc0 = 0x80

/-- `isalnum`, and the underscore. -/
def isWordChar (c : UInt8) : Bool :=
  (48 ≤ c ∧ c ≤ 57) ∨ (65 ≤ c ∧ c ≤ 90) ∨ (97 ≤ c ∧ c ≤ 122) ∨ c = 95

def strip (t : TtyTermios) (c : UInt8) : UInt8 :=
  let c := if t.istrip then c &&& 0x7f else c
  if t.iuclc ∧ t.iexten ∧ 65 ≤ c ∧ c ≤ 90 then c + 32 else c

/-- `char_map`, as `n_tty_set_termios` sets it. -/
def charMap (t : TtyTermios) (c : UInt8) : Bool :=
  c ≠ disabledChar ∧
    (c = 13 ∧ (t.igncr ∨ t.icrnl) ∨ c = 10 ∨ c = t.eraseChar ∨ c = t.killChar ∨ c = t.eofChar ∨ c = t.eolChar ∨
      t.iexten ∧ (c = t.weraseChar ∨ c = t.lnextChar ∨ c = t.eol2Char ∨ t.echo ∧ c = t.reprintChar) ∨
      t.ixon ∧ (c = t.startChar ∨ c = t.stopChar) ∨ t.isig ∧ (c = t.intrChar ∨ c = t.quitChar ∨ c = t.suspChar))

end TtyTermios

namespace NTty

variable (t : TtyTermios)

/-- The `do` loop of `eraser`: back over one character, from above `canon_head`. -/
def eraseBack (s : NTty) : ℕ → ℕ → ℕ × UInt8
  | 0, head => (head, s.readBufAt head)
  | k + 1, head =>
    let head := head - 1
    let c := s.readBufAt head
    if t.isContinuation c ∧ head ≠ s.canonHead then eraseBack s k head else (head, c)

/-- The `while` loop of `eraser`; the first argument is the number of bytes there are to erase. -/
def eraseLoop (kind : KillType) : ℕ → NTty → Bool → NTty
  | 0, s, _ => s
  | k + 1, s, seenAlnums =>
    if s.readHead = s.canonHead then s
    else
      let (head, c) := s.eraseBack t (s.readHead - s.canonHead) s.readHead
      if t.isContinuation c then s
      else if kind = .werase ∧ !TtyTermios.isWordChar c ∧ seenAlnums then s
      else
        let s := { s with readHead := head }
        if kind = .kerase then s
        else eraseLoop kind k s (seenAlnums || kind = .werase && TtyTermios.isWordChar c)

def eraser (s : NTty) (c : UInt8) : NTty :=
  if s.readHead = s.canonHead then s
  else if c = t.eraseChar then eraseLoop t .kerase (s.readHead - s.canonHead) s false
  else if c = t.weraseChar then eraseLoop t .werase (s.readHead - s.canonHead) s false
  else if !t.echo ∨ !t.echok ∨ !t.echoke ∨ !t.echoe then { s with readHead := s.canonHead }
  else eraseLoop t .kill (s.readHead - s.canonHead) s false

/-- `n_tty_receive_char_inline`, `n_tty_receive_char_fast` -/
def receiveCharInline (s : NTty) (c : UInt8) : NTty :=
  if c = 0xff ∧ t.parmrk then (s.putTtyQueue c).putTtyQueue c else s.putTtyQueue c

/-- `n_tty_receive_char_special` after the mapping of carriage return and newline. -/
def receiveCharCanon (s : NTty) (c : UInt8) : NTty × Bool :=
  if c = t.eraseChar ∨ c = t.killChar ∨ c = t.weraseChar ∧ t.iexten then (s.eraser t c, false)
  else if c = t.lnextChar ∧ t.iexten then (s, true)
  else if c = t.reprintChar ∧ t.echo ∧ t.iexten then (s, false)
  else if c = 10 then (s.handleNewline c, false)
  else if c = t.eofChar then (s.handleNewline disabledChar, false)
  else if c = t.eolChar ∨ c = t.eol2Char ∧ t.iexten then
    ((if c = 0xff ∧ t.parmrk then s.putTtyQueue c else s).handleNewline c, false)
  else (s.receiveCharInline t c, false)

/-- `n_tty_receive_char_special`, and whether it was LNEXT. -/
def receiveCharSpecial (s : NTty) (c : UInt8) : NTty × Bool :=
  if t.ixon ∧ (c = t.startChar ∨ c = t.stopChar) then (s, false)
  else if t.isig ∧ (c = t.intrChar ∨ c = t.quitChar ∨ c = t.suspChar) then
    (if t.noflsh then s else s.resetBufferFlags, false)
  else if c = 13 ∧ t.igncr then (s, false)
  else if c = 13 ∧ t.icrnl then s.receiveCharCanon t 10
  else if c = 10 ∧ t.inlcr then s.receiveCharCanon t 13
  else s.receiveCharCanon t c

/-- `n_tty_receive_buf_fast`, `n_tty_receive_buf_standard` -/
def receiveChars : NTty → List UInt8 → NTty
  | s, [] => s
  | s, c :: cp =>
    if !t.charMap (t.strip c) then receiveChars (s.receiveCharInline t (t.strip c)) cp
    else
      match s.receiveCharSpecial t (t.strip c), cp with
      | (s, true), c' :: cp => receiveChars (s.receiveCharInline t (t.strip c')) cp
      | (s, _), cp => receiveChars s cp

/-- The room that `n_tty_receive_buf` finds. -/
def room (s : NTty) : ℤ :=
  let room : ℤ := rtTtyBuf - ((s.readHead : ℤ) - s.readTail)
  (if t.parmrk then (room + 2).tdiv 3 else room) - 1

def overflow (s : NTty) : Bool :=
  s.room t ≤ 0 ∧ s.canonHead = s.readTail

/-- The loop of `n_tty_receive_buf`: the terminal, and how many bytes it has taken. All turns but the last one take
some. -/
def receiveLoop : ℕ → NTty → List UInt8 → NTty × ℕ
  | 0, s, _ => (s, 0)
  | k + 1, s, cp =>
    let full := s.overflow t
    let n := min cp.length (if full then 1 else (s.room t).toNat)
    let s1 := if full ∧ s.room t < 0 then { s with readHead := s.readHead - 1 } else s
    if n = 0 then (s1, 0)
    else
      let out := receiveLoop k (if full then s1 else s1.receiveChars t (cp.take n)) (cp.drop n)
      (out.1, n + out.2)

/-- `n_tty_receive_buf` -/
def receiveBuf (s : NTty) (cp : List UInt8) : NTty × ℕ :=
  receiveLoop t (cp.length + 1) s cp

/-- After `n_tty_open`. -/
def opened : NTty :=
  { readHead := 0, canonHead := 0, readTail := 0, readBuf := fun _ => 0, readFlags := fun _ => false }

end NTty

end RtSmart
