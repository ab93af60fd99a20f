import RtSmart.Drivers.NTty

/-!
What canonical input is for: the characters that come in edit a line, complete lines queue up, and a read takes from
one line.
-/

namespace RtSmart

/-- A line, less what has been read of it. An end-of-file character leaves no delimiter. -/
structure TtyLine where
  text : List UInt8
  delim : Option UInt8
deriving DecidableEq

def TtyLine.bytes (l : TtyLine) : List UInt8 :=
  l.text ++ l.delim.toList

inductive TtyAction
  | put (c : UInt8)
  | ignore
  | flush
  | erase (c : UInt8)
  | quote
  | newline (c : UInt8)
  | eof
deriving DecidableEq

/-- The complete lines, the line that is edited, and whether the next character is quoted. -/
structure Terminal where
  lines : List TtyLine
  pending : List UInt8
  quoting : Bool
deriving DecidableEq

namespace TtyTermios

variable (t : TtyTermios)

def mapped (c : UInt8) : UInt8 :=
  if c = 13 ∧ t.icrnl then 10 else if c = 10 ∧ t.inlcr then 13 else c

def canonAction (c : UInt8) : TtyAction :=
  if c = t.eraseChar ∨ c = t.killChar ∨ c = t.weraseChar ∧ t.iexten then .erase c
  else if c = t.lnextChar ∧ t.iexten then .quote
  else if c = t.reprintChar ∧ t.echo ∧ t.iexten then .ignore
  else if c = 10 then .newline c
  else if c = t.eofChar then .eof
  else if c = t.eolChar ∨ c = t.eol2Char ∧ t.iexten then .newline c
  else .put c

def action (c : UInt8) : TtyAction :=
  if !t.charMap c then .put c
  else if t.ixon ∧ (c = t.startChar ∨ c = t.stopChar) then .ignore
  else if t.isig ∧ (c = t.intrChar ∨ c = t.quitChar ∨ c = t.suspChar) then if t.noflsh then .ignore else .flush
  else if c = 13 ∧ t.igncr then .ignore
  else t.canonAction (t.mapped c)

def marked (c : UInt8) : List UInt8 :=
  if c = 0xff ∧ t.parmrk then [c, c] else [c]

def grow : ℕ :=
  if t.parmrk then 2 else 1

theorem length_marked (c : UInt8) : 0 < (t.marked c).length ∧ (t.marked c).length ≤ t.grow := by
  unfold marked grow
  split
  · rename_i h
    rw [if_pos h.2]
    exact ⟨Nat.two_pos, le_rfl⟩
  · split <;> simp

end TtyTermios

/-! ### Editing; the line is taken from its end -/

def lastChar (t : TtyTermios) : List UInt8 → UInt8 × List UInt8
  | [] => (0, [])
  | [c] => (c, [])
  | c :: c' :: line => if t.isContinuation c then lastChar t (c' :: line) else (c, c' :: line)

def wipe (t : TtyTermios) (kind : KillType) : ℕ → List UInt8 → Bool → List UInt8
  | 0, line, _ => line
  | _ + 1, [], _ => []
  | k + 1, b :: line, seenWord =>
    let (c, rest) := lastChar t (b :: line)
    if t.isContinuation c then b :: line
    else if kind = .werase ∧ !TtyTermios.isWordChar c ∧ seenWord then b :: line
    else if kind = .kerase then rest
    else wipe t kind k rest (seenWord || kind = .werase && TtyTermios.isWordChar c)

def editLine (t : TtyTermios) (c : UInt8) (pending : List UInt8) : List UInt8 :=
  if c = t.eraseChar then (wipe t .kerase pending.length pending.reverse false).reverse
  else if c = t.weraseChar then (wipe t .werase pending.length pending.reverse false).reverse
  else if !t.echo ∨ !t.echok ∨ !t.echoke ∨ !t.echoe then []
  else (wipe t .kill pending.length pending.reverse false).reverse

theorem lastChar_suffix (t : TtyTermios) (line : List UInt8) : (lastChar t line).2 <:+ line := by
  induction line using lastChar.induct t with
  | case1 => exact List.suffix_rfl
  | case2 c => exact List.nil_suffix
  | case3 c c' line hcont ih =>
    rw [lastChar, if_pos hcont]
    exact ih.trans (List.suffix_cons _ _)
  | case4 c c' line hcont =>
    rw [lastChar, if_neg hcont]
    exact List.suffix_cons _ _

theorem wipe_suffix (t : TtyTermios) (kind : KillType) (k : ℕ) (line : List UInt8) (seen : Bool) :
    wipe t kind k line seen <:+ line := by
  induction k generalizing line seen with
  | zero => exact List.suffix_rfl
  | succ k ih =>
    cases line with
    | nil => exact List.suffix_rfl
    | cons b line =>
      have hrest := lastChar_suffix t (b :: line)
      rw [wipe]
      generalize lastChar t (b :: line) = out at hrest ⊢
      obtain ⟨c, rest⟩ := out
      dsimp only at hrest ⊢
      split
      · exact List.suffix_rfl
      split
      · exact List.suffix_rfl
      split
      · exact hrest
      · exact (ih _ _).trans hrest

theorem take_of_suffix {α : Type*} {p q : List α} (h : q <:+ p.reverse) : p.take q.length = q.reverse := by
  obtain ⟨gone, hgone⟩ := h
  have hp : p = q.reverse ++ gone.reverse := by
    rw [← List.reverse_append, hgone, List.reverse_reverse]
  rw [hp, List.take_left' List.length_reverse]

theorem editLine_nil (t : TtyTermios) (c : UInt8) : editLine t c [] = [] := by
  unfold editLine
  split_ifs <;> rfl

theorem length_editLine (t : TtyTermios) (c : UInt8) (line : List UInt8) : (editLine t c line).length ≤ line.length := by
  have hwipe : ∀ kind, (wipe t kind line.length line.reverse false).reverse.length ≤ line.length := by
    intro kind
    have := (wipe_suffix t kind line.length line.reverse false).length_le
    rwa [List.length_reverse] at this ⊢
  unfold editLine
  split
  · exact hwipe _
  split
  · exact hwipe _
  split
  · exact Nat.zero_le _
  · exact hwipe _

namespace Terminal

variable (t : TtyTermios)

def act (m : Terminal) : TtyAction → Terminal
  | .put c => { m with pending := m.pending ++ t.marked c }
  | .ignore => m
  | .flush => { m with lines := [], pending := [] }
  | .erase c => { m with pending := editLine t c m.pending }
  | .quote => { m with quoting := true }
  | .newline c => { m with lines := m.lines ++ [⟨m.pending ++ (t.marked c).tail, some c⟩], pending := [] }
  | .eof => { m with lines := m.lines ++ [⟨m.pending, none⟩], pending := [] }

def char (m : Terminal) (b : UInt8) : Terminal :=
  if m.quoting then { m with pending := m.pending ++ t.marked (t.strip b), quoting := false }
  else m.act t (t.action (t.strip b))

/-- A read takes a line, or the part of it that fits. -/
def read (m : Terminal) (count : ℕ) : Terminal × NTty.ReadAnswer :=
  if count = 0 then (m, .bytes [])
  else
    match m.lines with
    | [] => (m, .wait)
    | l :: lines =>
      if l.bytes.length ≤ count then ({ m with lines := lines }, .bytes l.bytes)
      else ({ m with lines := ⟨l.text.drop count, l.delim⟩ :: lines }, .bytes (l.text.take count))

def opened : Terminal :=
  { lines := [], pending := [], quoting := false }

end Terminal

end RtSmart
