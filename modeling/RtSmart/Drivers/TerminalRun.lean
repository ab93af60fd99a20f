import RtSmart.Drivers.TerminalLines

namespace RtSmart

open Lib

/-- A line as it lies in the buffer, each byte with its flag. -/
def TtyLine.cells (l : TtyLine) : List (UInt8 × Bool) :=
  l.text.map (·, false) ++ [(l.delim.getD disabledChar, true)]

@[simp] theorem TtyLine.length_cells (l : TtyLine) : l.cells.length = l.text.length + 1 := by
  simp [TtyLine.cells]

namespace Terminal

def lineCells (m : Terminal) : List (UInt8 × Bool) :=
  m.lines.flatMap TtyLine.cells

def cells (m : Terminal) : List (UInt8 × Bool) :=
  m.lineCells ++ m.pending.map (·, false)

end Terminal

namespace NTty

def cell (s : NTty) (i : ℕ) : UInt8 × Bool :=
  (s.readBuf i, s.readFlags i)

/-- The bytes that have been received and not read. -/
def held (s : NTty) : List (UInt8 × Bool) :=
  window s.cell rtTtyBuf s.readTail (s.readHead - s.readTail)

/-- The buffer holds the terminal's lines, and the line that is edited behind them. -/
structure Rel (s : NTty) (m : Terminal) : Prop where
  tail : s.readTail ≤ s.canonHead
  head : s.canonHead ≤ s.readHead
  fits : s.readHead - s.readTail < rtTtyBuf
  lines : s.canonHead - s.readTail = m.lineCells.length
  held : s.held = m.cells
  free : ∀ k < rtTtyBuf, s.readHead - s.readTail ≤ k → s.readFlags ((s.readTail + k) % rtTtyBuf) = false
  delims : ∀ l ∈ m.lines, l.delim ≠ some disabledChar

theorem opened_rel : Rel opened Terminal.opened := by
  constructor
  case free => intros; rfl
  case delims => intro l hl; cases hl
  all_goals decide

variable {t : TtyTermios} {s : NTty} {m : Terminal} {c : UInt8}

namespace Rel

theorem held_length (h : Rel s m) : s.readHead - s.readTail = m.lineCells.length + m.pending.length := by
  have := congrArg List.length h.held
  simpa [NTty.held, Terminal.cells] using this

theorem pending_length (h : Rel s m) : s.readHead - s.canonHead = m.pending.length := by
  have := h.held_length
  have := h.lines
  have := h.tail
  have := h.head
  omega

theorem pending_get (h : Rel s m) {j : ℕ} (hj : j < m.pending.length) :
    s.readBufAt (s.canonHead + j) = m.pending[j] := by
  have hlen := h.held_length
  have hlines := h.lines
  have htail := h.tail
  have hcell := congrArg (·[m.lineCells.length + j]?) h.held
  simp only [NTty.held, Terminal.cells] at hcell
  rw [getElem?_window (by omega), List.getElem?_append_right (by omega), Nat.add_sub_cancel_left, List.getElem?_map,
    List.getElem?_eq_getElem hj] at hcell
  have hbyte : s.readBuf ((s.readTail + (m.lineCells.length + j)) % rtTtyBuf) = m.pending[j] :=
    congrArg Prod.fst (Option.some.inj hcell)
  rw [← hbyte, NTty.readBufAt, show s.readTail + (m.lineCells.length + j) = s.canonHead + j by omega]

theorem held_put (h : Rel s m) (hroom : s.readHead - s.readTail + 1 < rtTtyBuf) (c : UInt8) (b : Bool) :
    window (fun i => (Function.update s.readBuf (s.readHead % rtTtyBuf) c i,
        Function.update s.readFlags (s.readHead % rtTtyBuf) b i)) rtTtyBuf s.readTail (s.readHead - s.readTail + 1) =
      m.cells ++ [(c, b)] := by
  have htail := h.tail
  have hhead := h.head
  rw [← h.held, NTty.held, ← window_put _ (by omega)]
  have hat : s.readTail + (s.readHead - s.readTail) = s.readHead := by omega
  rw [hat]
  congr 1
  funext i
  by_cases hi : i = s.readHead % rtTtyBuf
  · subst hi
    simp
  · simp [Function.update_of_ne hi, cell]

theorem put (h : Rel s m) (hroom : s.readHead - s.readTail + 1 < rtTtyBuf) (c : UInt8) :
    Rel (s.putTtyQueue c) { m with pending := m.pending ++ [c] } := by
  have htail := h.tail
  have hhead := h.head
  -- The flag at the place is free already.
  have hflag : s.readFlags (s.readHead % rtTtyBuf) = false := by
    have := h.free (s.readHead - s.readTail) (by omega) le_rfl
    rwa [show s.readTail + (s.readHead - s.readTail) = s.readHead by omega] at this
  have hput := h.held_put hroom c false
  constructor
  case tail => exact htail
  case head => exact hhead.trans (Nat.le_succ _)
  case fits =>
    show s.readHead + 1 - s.readTail < rtTtyBuf
    omega
  case lines => exact h.lines
  case held =>
    rw [show s.readHead - s.readTail + 1 = s.readHead + 1 - s.readTail by omega, ← hflag, Function.update_eq_self] at hput
    show window _ rtTtyBuf s.readTail (s.readHead + 1 - s.readTail) = _
    refine Eq.trans hput ?_
    simp [Terminal.cells, Terminal.lineCells, hflag]
  case free =>
    intro k hk hle
    apply h.free k hk
    have : s.readHead + 1 - s.readTail ≤ k := hle
    omega
  case delims => exact h.delims

theorem newline (h : Rel s m) (hroom : s.readHead - s.readTail + 1 < rtTtyBuf) {d : Option UInt8}
    (hd : d ≠ some disabledChar) :
    Rel (s.handleNewline (d.getD disabledChar)) { m with lines := m.lines ++ [⟨m.pending, d⟩], pending := [] } := by
  have htail := h.tail
  have hhead := h.head
  have hput := h.held_put hroom (d.getD disabledChar) true
  have hcells : (Terminal.lineCells { m with lines := m.lines ++ [⟨m.pending, d⟩], pending := [] }) =
      m.cells ++ [(d.getD disabledChar, true)] := by
    simp [Terminal.cells, Terminal.lineCells, TtyLine.cells]
  constructor
  case tail =>
    show s.readTail ≤ s.readHead + 1
    omega
  case head => exact le_rfl
  case fits =>
    show s.readHead + 1 - s.readTail < rtTtyBuf
    omega
  case lines =>
    rw [hcells, List.length_append, ← h.held]
    show s.readHead + 1 - s.readTail = _
    simp [NTty.held]
    omega
  case held =>
    show window _ rtTtyBuf s.readTail (s.readHead + 1 - s.readTail) = _
    rw [show s.readHead - s.readTail + 1 = s.readHead + 1 - s.readTail by omega] at hput
    apply hput.trans
    conv_rhs => unfold Terminal.cells
    rw [hcells]
    exact (List.append_nil _).symm
  case free =>
    intro k hk hle
    have hle : s.readHead + 1 - s.readTail ≤ k := hle
    show Function.update s.readFlags (s.readHead % rtTtyBuf) true ((s.readTail + k) % rtTtyBuf) = false
    rw [Function.update_of_ne]
    · exact h.free k hk (by omega)
    · have : (s.readTail + (s.readHead - s.readTail)) % rtTtyBuf ≠ (s.readTail + k) % rtTtyBuf :=
        add_mod_ne (by omega) hk
      rw [show s.readTail + (s.readHead - s.readTail) = s.readHead by omega] at this
      exact fun heq => this heq.symm
  case delims =>
    intro l hl
    rcases List.mem_append.mp hl with hl | hl
    · exact h.delims l hl
    · cases List.mem_singleton.mp hl
      exact hd

theorem shorten (h : Rel s m) {n : ℕ} (hn : n ≤ m.pending.length) :
    Rel { s with readHead := s.canonHead + n } { m with pending := m.pending.take n } := by
  have htail := h.tail
  have hhead := h.head
  have hlines := h.lines
  have hpending := h.pending_length
  have hlen := h.held_length
  have hfits := h.fits
  constructor
  case tail => exact htail
  case head => exact Nat.le_add_right _ _
  case fits =>
    show s.canonHead + n - s.readTail < rtTtyBuf
    omega
  case lines => exact hlines
  case held =>
    show window s.cell rtTtyBuf s.readTail (s.canonHead + n - s.readTail) = _
    rw [← take_window _ (show s.canonHead + n - s.readTail ≤ s.readHead - s.readTail by omega)]
    refine (congrArg _ h.held).trans ?_
    show (m.lineCells ++ _).take _ = m.lineCells ++ _
    rw [List.take_append, List.take_of_length_le (by omega), List.map_take]
    congr 2
    omega
  case free =>
    intro k hk hle
    have hle : s.canonHead + n - s.readTail ≤ k := hle
    by_cases hin : k < s.readHead - s.readTail
    · have hcell := congrArg (·[k]?) h.held
      simp only [NTty.held, Terminal.cells] at hcell
      rw [getElem?_window hin, List.getElem?_append_right (by omega), List.getElem?_map,
        List.getElem?_eq_getElem (by omega)] at hcell
      exact congrArg Prod.snd (Option.some.inj hcell)
    · exact h.free k hk (by omega)
  case delims => exact h.delims

theorem reset (_ : Rel s m) : Rel s.resetBufferFlags { m with lines := [], pending := [] } := by
  constructor
  case free =>
    intro k hk _
    have := Nat.mod_lt (0 + k) (show 0 < rtTtyBuf by decide)
    exact if_pos (show (0 + k) % rtTtyBuf < 8 * rtTtyBuf by omega)
  case delims => intro l hl; cases hl
  case fits =>
    show 0 < rtTtyBuf
    decide
  case held => rfl
  case lines => rfl
  case tail => exact Nat.le_refl 0
  case head => exact Nat.le_refl 0

end Rel

/-! ### Editing -/

theorem eraseBack_eq {p : List UInt8} (hget : ∀ j (hj : j < p.length), s.readBufAt (s.canonHead + j) = p[j])
    {k j : ℕ} (hj : 0 < j) (hle : j ≤ p.length) (hk : j ≤ k) :
    s.eraseBack t k (s.canonHead + j) =
      (s.canonHead + (lastChar t (p.take j).reverse).2.length, (lastChar t (p.take j).reverse).1) := by
  induction k generalizing j with
  | zero => omega
  | succ k ih =>
    obtain ⟨i, rfl⟩ : ∃ i, j = i + 1 := ⟨j - 1, by omega⟩
    have hsplit : (p.take (i + 1)).reverse = p[i] :: (p.take i).reverse := by
      rw [List.take_succ_eq_append_getElem (by omega), List.reverse_append]
      rfl
    have hbyte := hget i (by omega)
    rw [hsplit, eraseBack, show s.canonHead + (i + 1) - 1 = s.canonHead + i by omega, hbyte]
    rcases Nat.eq_zero_or_pos i with rfl | hi
    · simp [lastChar]
    · obtain ⟨c', line, hline⟩ : ∃ c' line, (p.take i).reverse = c' :: line :=
        List.exists_cons_of_length_pos (by rw [List.length_reverse, List.length_take]; omega)
      rw [hline, lastChar]
      by_cases hcont : t.isContinuation p[i]
      · rw [if_pos ⟨hcont, by omega⟩, if_pos hcont, ih hi (by omega) (by omega), hline]
      · rw [if_neg (fun h => hcont h.1), if_neg hcont]
        have := congrArg List.length hline
        rw [List.length_reverse, List.length_take] at this
        simp only [List.length_cons] at this ⊢
        rw [← this, Nat.min_eq_left (by omega)]

theorem eraseLoop_eq {p : List UInt8} (kind : KillType) {k j : ℕ} {s : NTty} {seen : Bool}
    (hget : ∀ j (hj : j < p.length), s.readBufAt (s.canonHead + j) = p[j])
    (hle : j ≤ p.length) (hhead : s.readHead = s.canonHead + j) :
    eraseLoop t kind k s seen =
      { s with readHead := s.canonHead + (wipe t kind k (p.take j).reverse seen).length } := by
  induction k generalizing j s seen with
  | zero => rw [eraseLoop, wipe, List.length_reverse, List.length_take, Nat.min_eq_left hle, ← hhead]
  | succ k ih =>
    rcases Nat.eq_zero_or_pos j with rfl | hj
    · have hnone : s.readHead = s.canonHead := hhead
      rw [eraseLoop, if_pos hnone]
      show s = { s with readHead := s.canonHead + 0 }
      rw [← hhead]
    · obtain ⟨b, line, hline⟩ : ∃ b line, (p.take j).reverse = b :: line :=
        List.exists_cons_of_length_pos (by rw [List.length_reverse, List.length_take]; omega)
      have hlen : j = (b :: line).length := by
        rw [← hline, List.length_reverse, List.length_take]
        omega
      have hback := eraseBack_eq (t := t) hget hj hle (k := s.readHead - s.canonHead) (by omega)
      have hsuffix := lastChar_suffix t (b :: line)
      rw [eraseLoop, if_neg (by omega), hline, wipe]
      rw [← hhead, hline] at hback
      rw [hback]
      dsimp only
      split
      · rw [← hlen, ← hhead]
      split
      · rw [← hlen, ← hhead]
      split
      · rfl
      · have hrest : (p.take (lastChar t (b :: line)).2.length).reverse = (lastChar t (b :: line)).2 := by
          obtain ⟨gone, hgone⟩ := hsuffix
          have hp : p.take j = (lastChar t (b :: line)).2.reverse ++ gone.reverse := by
            rw [← List.reverse_append, hgone, ← hline, List.reverse_reverse]
          have htake := congrArg (List.take (lastChar t (b :: line)).2.length) hp
          rw [List.take_take, Nat.min_eq_left (by
            have := congrArg List.length hgone
            simp only [List.length_append] at this
            omega), List.take_left' (List.length_reverse)] at htake
          rw [htake, List.reverse_reverse]
        rw [ih (j := (lastChar t (b :: line)).2.length)
          (s := { s with readHead := s.canonHead + (lastChar t (b :: line)).2.length }) hget (by
            have := hsuffix.length_le
            omega) rfl, hrest]

theorem Rel.wipe (h : Rel s m) (kind : KillType) :
    Rel (eraseLoop t kind (s.readHead - s.canonHead) s false)
      { m with pending := (RtSmart.wipe t kind m.pending.length m.pending.reverse false).reverse } := by
  have hlen := h.pending_length
  have hhead := h.head
  have hsuffix := wipe_suffix t kind m.pending.length m.pending.reverse false
  rw [hlen, eraseLoop_eq kind (fun j hj => h.pending_get hj) le_rfl (by omega), List.take_length,
    ← take_of_suffix hsuffix]
  apply h.shorten
  have := hsuffix.length_le
  rwa [List.length_reverse] at this

theorem Rel.eraser (h : Rel s m) : Rel (s.eraser t c) { m with pending := editLine t c m.pending } := by
  have hlen := h.pending_length
  unfold NTty.eraser
  split
  · have hnone : m.pending = [] := List.length_eq_zero_iff.mp (by omega)
    rw [hnone, editLine_nil, ← hnone]
    exact h
  unfold editLine
  split
  · exact h.wipe .kerase
  split
  · exact h.wipe .werase
  split
  · exact h.shorten (Nat.zero_le _)
  · exact h.wipe .kill

/-! ### Receiving -/

theorem Rel.quote (h : Rel s m) (b : Bool) : Rel s { m with quoting := b } :=
  ⟨h.tail, h.head, h.fits, h.lines, h.held, h.free, h.delims⟩

theorem Rel.inline (h : Rel s m) (hroom : s.readHead - s.readTail + t.grow < rtTtyBuf) :
    Rel (s.receiveCharInline t c) { m with pending := m.pending ++ t.marked c } := by
  have hhead := h.head
  have htail := h.tail
  unfold TtyTermios.grow at hroom
  unfold receiveCharInline TtyTermios.marked
  split
  · rename_i hmark
    rw [if_pos hmark.2] at hroom
    have htwo := (h.put (by omega) c).put (by
      show s.readHead + 1 - s.readTail + 1 < rtTtyBuf
      omega) c
    rwa [List.append_assoc] at htwo
  · apply h.put
    split at hroom
    · omega
    · exact hroom

theorem Rel.receiveCharCanon (h : Rel s m) (hroom : s.readHead - s.readTail + t.grow < rtTtyBuf) (hc : c ≠ disabledChar) :
    Rel (s.receiveCharCanon t c).1 (m.act t (t.canonAction c)) := by
  have hhead := h.head
  have htail := h.tail
  have hone : s.readHead - s.readTail + 1 < rtTtyBuf := by
    unfold TtyTermios.grow at hroom
    split at hroom
    · omega
    · exact hroom
  have hdelim : some c ≠ some disabledChar := fun h => hc (Option.some.inj h)
  unfold NTty.receiveCharCanon TtyTermios.canonAction
  split
  · exact h.eraser
  split
  · exact h.quote true
  split
  · exact h
  split
  · rename_i hten
    subst hten
    have := h.newline hone hdelim
    show Rel _ { m with lines := m.lines ++ [⟨m.pending ++ [], some 10⟩], pending := [] }
    rwa [List.append_nil]
  split
  · exact h.newline hone (d := none) (by simp)
  split
  · simp only [Terminal.act, TtyTermios.marked]
    split
    · rename_i hmark
      unfold TtyTermios.grow at hroom
      rw [if_pos hmark.2] at hroom
      exact (h.put hone c).newline (d := some c) (by
        show s.readHead + 1 - s.readTail + 1 < rtTtyBuf
        omega) hdelim
    · have := h.newline hone hdelim
      show Rel _ { m with lines := m.lines ++ [⟨m.pending ++ [], some c⟩], pending := [] }
      rwa [List.append_nil]
  · exact h.inline hroom

theorem receiveCharCanon_quote (s : NTty) (c : UInt8) :
    (s.receiveCharCanon t c).2 = decide (t.canonAction c = .quote) := by
  unfold NTty.receiveCharCanon TtyTermios.canonAction
  by_cases herase : c = t.eraseChar ∨ c = t.killChar ∨ c = t.weraseChar ∧ t.iexten
  · rw [if_pos herase, if_pos herase]
    rfl
  rw [if_neg herase, if_neg herase]
  by_cases hnext : c = t.lnextChar ∧ t.iexten
  · rw [if_pos hnext, if_pos hnext]
    rfl
  rw [if_neg hnext, if_neg hnext]
  by_cases hreprint : c = t.reprintChar ∧ t.echo ∧ t.iexten
  · rw [if_pos hreprint, if_pos hreprint]
    rfl
  rw [if_neg hreprint, if_neg hreprint]
  by_cases hnewline : c = 10
  · rw [if_pos hnewline, if_pos hnewline]
    rfl
  rw [if_neg hnewline, if_neg hnewline]
  by_cases heof : c = t.eofChar
  · rw [if_pos heof, if_pos heof]
    rfl
  rw [if_neg heof, if_neg heof]
  by_cases heol : c = t.eolChar ∨ c = t.eol2Char ∧ t.iexten
  · rw [if_pos heol, if_pos heol]
    rfl
  · rw [if_neg heol, if_neg heol]
    rfl

theorem Rel.receiveCharSpecial (h : Rel s m) (hroom : s.readHead - s.readTail + t.grow < rtTtyBuf) (hc : t.charMap c) :
    Rel (s.receiveCharSpecial t c).1 (m.act t (t.action c)) ∧
      (s.receiveCharSpecial t c).2 = decide (t.action c = .quote) := by
  have hne : c ≠ disabledChar := by
    intro heq
    simp [TtyTermios.charMap, heq] at hc
  have hcanon : ∀ c' ≠ disabledChar, Rel (s.receiveCharCanon t c').1 (m.act t (t.canonAction c')) ∧
      (s.receiveCharCanon t c').2 = decide (t.canonAction c' = .quote) :=
    fun c' hc' => ⟨h.receiveCharCanon hroom hc', receiveCharCanon_quote s c'⟩
  have hmap : (!t.charMap c) = false := by simp [hc]
  unfold NTty.receiveCharSpecial TtyTermios.action
  rw [hmap, if_neg Bool.false_ne_true]
  split
  · exact ⟨h, rfl⟩
  split
  · by_cases hflush : t.noflsh
    · rw [if_pos hflush, if_pos hflush]
      exact ⟨h, rfl⟩
    · rw [if_neg hflush, if_neg hflush]
      exact ⟨h.reset, rfl⟩
  split
  · exact ⟨h, rfl⟩
  unfold TtyTermios.mapped
  split
  · exact hcanon 10 (by decide)
  split
  · exact hcanon 13 (by decide)
  · exact hcanon c hne

end NTty

/-! ### How much a character adds -/

namespace Terminal

variable {t : TtyTermios} {m : Terminal}

theorem length_cells (m : Terminal) : m.cells.length = m.lineCells.length + m.pending.length := by
  simp [cells]

theorem length_act (m : Terminal) (a : TtyAction) : (m.act t a).cells.length ≤ m.cells.length + t.grow := by
  rw [length_cells, length_cells]
  cases a with
  | put c =>
    have := (t.length_marked c).2
    show m.lineCells.length + (m.pending ++ t.marked c).length ≤ _
    rw [List.length_append]
    omega
  | ignore => exact Nat.le_add_right _ _
  | flush => exact Nat.zero_le _
  | erase c =>
    have := length_editLine t c m.pending
    show m.lineCells.length + (editLine t c m.pending).length ≤ _
    omega
  | quote => exact Nat.le_add_right _ _
  | newline c =>
    have := t.length_marked c
    have hlen : (lineCells (m.act t (.newline c))).length =
        m.lineCells.length + (m.pending.length + ((t.marked c).length - 1) + 1) := by
      simp [act, lineCells]
    rw [hlen]
    show _ + 0 ≤ _
    omega
  | eof =>
    have := t.length_marked 0
    have hlen : (lineCells (m.act t .eof)).length = m.lineCells.length + (m.pending.length + 1) := by
      simp [act, lineCells]
    rw [hlen]
    show _ + 0 ≤ _
    omega

theorem length_char (m : Terminal) (b : UInt8) : (m.char t b).cells.length ≤ m.cells.length + t.grow := by
  unfold char
  split
  · have := (t.length_marked (t.strip b)).2
    rw [length_cells, length_cells]
    show m.lineCells.length + (m.pending ++ t.marked (t.strip b)).length ≤ _
    rw [List.length_append]
    omega
  · exact length_act m _

theorem quoting_act (h : m.quoting = false) (a : TtyAction) : (m.act t a).quoting = decide (a = .quote) := by
  cases a <;> first | exact h | rfl

def chars (t : TtyTermios) (m : Terminal) (cp : List UInt8) : Terminal :=
  cp.foldl (char t) m

@[simp] theorem chars_cons (b : UInt8) (cp : List UInt8) : chars t m (b :: cp) = chars t (m.char t b) cp := rfl

theorem chars_append (m : Terminal) (cp cp' : List UInt8) : chars t m (cp ++ cp') = chars t (chars t m cp) cp' :=
  List.foldl_append

end Terminal

namespace NTty

variable {t : TtyTermios} {s : NTty} {m : Terminal} {c : UInt8}

theorem Rel.size (h : Rel s m) : s.readHead - s.readTail = m.cells.length := by
  rw [h.held_length, Terminal.length_cells]

theorem receiveChars_rel (n : ℕ) {s : NTty} {m : Terminal} {cp : List UInt8} (hn : cp.length ≤ n) (h : Rel s m)
    (hm : m.quoting = false) (hroom : m.cells.length + t.grow * cp.length < rtTtyBuf)
    (hlast : (m.chars t cp).quoting = false) : Rel (s.receiveChars t cp) (m.chars t cp) := by
  induction n generalizing s m cp with
  | zero =>
    rw [List.length_eq_zero_iff.mp (Nat.le_zero.mp hn)]
    exact h
  | succ n ih =>
    cases cp with
    | nil => exact h
    | cons c cp =>
      rw [List.length_cons, Nat.mul_succ] at hroom
      have hfits : s.readHead - s.readTail + t.grow < rtTtyBuf := by
        rw [h.size]
        omega
      have hlen := Terminal.length_char (t := t) m c
      have hact : m.char t c = m.act t (t.action (t.strip c)) := by
        simp [Terminal.char, hm]
      rw [Terminal.chars_cons] at hlast ⊢
      unfold receiveChars
      split
      · rename_i hput
        have hchar : m.char t c = { m with pending := m.pending ++ t.marked (t.strip c) } := by
          rw [hact, TtyTermios.action, if_pos hput]
          rfl
        have hin := h.inline (c := t.strip c) hfits
        rw [← hchar] at hin
        refine ih (Nat.le_of_succ_le_succ hn) hin ?_ (by omega) hlast
        rw [hchar]
        exact hm
      · rename_i hmap
        have hmap : t.charMap (t.strip c) := by simpa using hmap
        obtain ⟨hrel, hquote⟩ := h.receiveCharSpecial hfits hmap
        rw [← hact] at hrel
        have hquoting := Terminal.quoting_act (t := t) hm (t.action (t.strip c))
        rw [← hact] at hquoting
        generalize s.receiveCharSpecial t (t.strip c) = out at hrel hquote ⊢
        obtain ⟨s1, quote⟩ := out
        dsimp only at hrel hquote
        by_cases hq : t.action (t.strip c) = .quote
        · rw [decide_eq_true hq] at hquote hquoting
          subst hquote
          cases cp with
          | nil =>
            have hlast : (m.char t c).quoting = false := hlast
            rw [hlast] at hquoting
            cases hquoting
          | cons c' cp =>
            rw [List.length_cons, Nat.mul_succ] at hroom
            have hchar : (m.char t c).char t c' =
                { m.char t c with pending := (m.char t c).pending ++ t.marked (t.strip c'), quoting := false } := by
              conv_lhs => rw [Terminal.char, if_pos hquoting]
            have hlen' := Terminal.length_char (t := t) (m.char t c) c'
            have hfits' : s1.readHead - s1.readTail + t.grow < rtTtyBuf := by
              rw [hrel.size]
              omega
            have hin := (hrel.inline (c := t.strip c') hfits').quote false
            rw [Terminal.chars_cons] at hlast ⊢
            rw [← hchar] at hin
            refine ih ?_ hin ?_ (by omega) hlast
            · rw [List.length_cons, List.length_cons] at hn
              omega
            · rw [hchar]
        · rw [decide_eq_false hq] at hquote hquoting
          subst hquote
          have hrest : Rel (s1.receiveChars t cp) ((m.char t c).chars t cp) :=
            ih (Nat.le_of_succ_le_succ hn) hrel hquoting (by omega) hlast
          cases cp with
          | nil => exact hrest
          | cons c' cp => exact hrest

/-- At every turn of the loop the line that is edited leaves room, and LNEXT is not the last character taken. -/
def TurnsOk (t : TtyTermios) : ℕ → NTty → Terminal → List UInt8 → Prop
  | 0, _, _, _ => True
  | k + 1, s, m, cp =>
    let n := min cp.length (s.room t).toNat
    s.overflow t = false ∧
      (n = 0 ∨ (m.chars t (cp.take n)).quoting = false ∧
        TurnsOk t k (s.receiveChars t (cp.take n)) (m.chars t (cp.take n)) (cp.drop n))

theorem room_bound {s : NTty} {n : ℕ} (hle : s.readTail ≤ s.readHead) (hfits : s.readHead - s.readTail < rtTtyBuf)
    (hn : n ≤ (s.room t).toNat) (_ : n ≠ 0) :
    s.readHead - s.readTail + t.grow * n < rtTtyBuf := by
  have hN : rtTtyBuf = 1024 := rfl
  have hint : (s.readHead : ℤ) - s.readTail = (s.readHead - s.readTail : ℕ) := (Nat.cast_sub hle).symm
  unfold room at hn
  rw [hint] at hn
  unfold TtyTermios.grow
  generalize s.readHead - s.readTail = cnt at hfits hn ⊢
  split at hn
  · rename_i hmark
    rw [if_pos hmark]
    rw [hN] at hn hfits ⊢
    dsimp only at hn
    rw [Int.tdiv_eq_ediv_of_nonneg (by omega)] at hn
    omega
  · rename_i hmark
    rw [if_neg hmark]
    rw [hN] at hn ⊢
    dsimp only at hn
    omega

theorem receiveLoop_rel {k : ℕ} {s : NTty} {m : Terminal} {cp : List UInt8} (h : Rel s m) (hm : m.quoting = false)
    (hok : TurnsOk t k s m cp) :
    Rel (receiveLoop t k s cp).1 (m.chars t (cp.take (receiveLoop t k s cp).2)) ∧
      (m.chars t (cp.take (receiveLoop t k s cp).2)).quoting = false := by
  induction k generalizing s m cp with
  | zero => exact ⟨h, hm⟩
  | succ k ih =>
    obtain ⟨hfull, hturn⟩ := hok
    rw [receiveLoop]
    dsimp only at hturn ⊢
    rw [hfull]
    simp only [Bool.false_eq_true, if_false, false_and]
    by_cases hn : min cp.length (s.room t).toNat = 0
    · rw [if_pos hn]
      exact ⟨h, hm⟩
    · rw [if_neg hn]
      obtain ⟨hlast, hrest⟩ := hturn.resolve_left hn
      have hroom := room_bound (h.tail.trans h.head) h.fits (min_le_right cp.length (s.room t).toNat) hn
      rw [h.size] at hroom
      have hlen : (cp.take (min cp.length (s.room t).toNat)).length = min cp.length (s.room t).toNat := by
        rw [List.length_take]
        omega
      have hrel := receiveChars_rel _ le_rfl h hm (by rwa [hlen]) hlast
      have hout := ih hrel hlast hrest
      dsimp only
      rwa [List.take_add, Terminal.chars_append]

/-! ### Reading -/

theorem Rel.taken (h : Rel s m) {m' : Terminal} {n : ℕ} {flags : ℕ → Bool} (hn : n ≤ s.canonHead - s.readTail)
    (hsame : ∀ k < rtTtyBuf, n ≤ k → flags ((s.readTail + k) % rtTtyBuf) = s.readFlags ((s.readTail + k) % rtTtyBuf))
    (hclear : ∀ k < n, flags ((s.readTail + k) % rtTtyBuf) = false) (hcells : m'.lineCells = m.lineCells.drop n)
    (hpending : m'.pending = m.pending) (hdelims : ∀ l ∈ m'.lines, l.delim ≠ some disabledChar) :
    Rel { s with readFlags := flags, readTail := s.readTail + n } m' := by
  have htail := h.tail
  have hhead := h.head
  have hfits := h.fits
  have hlines := h.lines
  constructor
  case tail =>
    show s.readTail + n ≤ s.canonHead
    omega
  case head => exact hhead
  case fits =>
    show s.readHead - (s.readTail + n) < rtTtyBuf
    omega
  case lines =>
    rw [hcells, List.length_drop]
    show s.canonHead - (s.readTail + n) = _
    omega
  case held =>
    have hdrop : window s.cell rtTtyBuf ((s.readTail + n) % rtTtyBuf) (s.readHead - s.readTail - n) = m.cells.drop n := by
      rw [← drop_window _ (by omega)]
      exact congrArg _ h.held
    rw [window_mod] at hdrop
    show window (fun i => (s.readBuf i, flags i)) rtTtyBuf (s.readTail + n) (s.readHead - (s.readTail + n)) = _
    rw [Terminal.cells, hcells, hpending, ← List.drop_append_of_le_length (by omega)]
    rw [show s.readHead - (s.readTail + n) = s.readHead - s.readTail - n by omega]
    apply Eq.trans _ hdrop
    apply window_congr
    intro k hk
    have := hsame (n + k) (by omega) (by omega)
    rw [← Nat.add_assoc] at this
    exact congrArg (Prod.mk _) this
  case free =>
    intro k hk hle
    have hle : s.readHead - (s.readTail + n) ≤ k := hle
    show flags ((s.readTail + n + k) % rtTtyBuf) = false
    rw [Nat.add_assoc]
    by_cases hlap : n + k < rtTtyBuf
    · rw [hsame _ hlap (Nat.le_add_right _ _)]
      exact h.free _ hlap (by omega)
    · have hwrap : (s.readTail + (n + k)) % rtTtyBuf = (s.readTail + (n + k - rtTtyBuf)) % rtTtyBuf := by
        rw [show s.readTail + (n + k) = s.readTail + (n + k - rtTtyBuf) + rtTtyBuf by omega, Nat.add_mod_right]
      rw [hwrap]
      exact hclear _ (by omega)
  case delims => exact hdelims

section FirstLine

variable {l : TtyLine} {ls : List TtyLine}

theorem Rel.cell_first (h : Rel s m) (hl : m.lines = l :: ls) {k : ℕ} (hk : k < l.text.length + 1) :
    l.cells[k]? = some (s.readBuf ((s.readTail + k) % rtTtyBuf), s.readFlags ((s.readTail + k) % rtTtyBuf)) := by
  have hlen := h.held_length
  have hfirst : m.cells = l.cells ++ (ls.flatMap TtyLine.cells ++ m.pending.map (·, false)) := by
    simp [Terminal.cells, Terminal.lineCells, hl]
  have hcount : l.text.length + 1 ≤ m.lineCells.length := by
    simp [Terminal.lineCells, hl]
  have hcell := congrArg (·[k]?) h.held
  rw [hfirst, NTty.held, getElem?_window (by omega), List.getElem?_append_left (by simpa using hk)] at hcell
  exact hcell.symm

theorem Rel.text (h : Rel s m) (hl : m.lines = l :: ls) {k : ℕ} (hk : k < l.text.length) :
    s.readFlags ((s.readTail + k) % rtTtyBuf) = false ∧ s.readBuf ((s.readTail + k) % rtTtyBuf) = l.text[k] := by
  have hcell := h.cell_first hl (k := k) (by omega)
  rw [TtyLine.cells, List.getElem?_append_left (by simpa using hk), List.getElem?_map, List.getElem?_eq_getElem hk] at hcell
  have hpair := Option.some.inj hcell
  exact ⟨(congrArg Prod.snd hpair).symm, (congrArg Prod.fst hpair).symm⟩

theorem Rel.delim (h : Rel s m) (hl : m.lines = l :: ls) :
    s.readFlags ((s.readTail + l.text.length) % rtTtyBuf) = true ∧
      s.readBuf ((s.readTail + l.text.length) % rtTtyBuf) = l.delim.getD disabledChar := by
  have hcell := h.cell_first hl (k := l.text.length) (by omega)
  rw [TtyLine.cells, List.getElem?_append_right (by simp), List.length_map, Nat.sub_self] at hcell
  have hpair := Option.some.inj hcell
  exact ⟨(congrArg Prod.snd hpair).symm, (congrArg Prod.fst hpair).symm⟩

theorem Rel.copyOut (h : Rel s m) (hl : m.lines = l :: ls) {n : ℕ} (hn : n ≤ l.text.length) :
    s.copyOut n = l.text.take n := by
  have hlen := h.held_length
  have hfits := h.fits
  have hcount : l.text.length + 1 ≤ m.lineCells.length := by
    simp [Terminal.lineCells, hl]
  rw [copyOut_eq s (by omega)]
  apply List.ext_getElem
  · simp [hn]
  · intro k hk _
    rw [length_window] at hk
    simp [window, (h.text hl (show k < l.text.length by omega)).2]

theorem Rel.copyOut_line (h : Rel s m) (hl : m.lines = l :: ls) :
    s.copyOut (l.text.length + 1) = l.text ++ [l.delim.getD disabledChar] := by
  have hlen := h.held_length
  have hfits := h.fits
  have hcount : l.text.length + 1 ≤ m.lineCells.length := by
    simp [Terminal.lineCells, hl]
  have htext := h.copyOut hl le_rfl
  rw [List.take_length, copyOut_eq s (by omega)] at htext
  rw [copyOut_eq s (by omega), window_append, htext]
  simp [(h.delim hl).2]

theorem Rel.taken_line (h : Rel s m) (hl : m.lines = l :: ls) :
    Rel { s with
        readFlags := Function.update s.readFlags ((s.readTail + l.text.length) % rtTtyBuf) false
        readTail := s.readTail + (l.text.length + 1) } { m with lines := ls } := by
  have hlines := h.lines
  have hcount : l.text.length + 1 ≤ m.lineCells.length := by
    simp [Terminal.lineCells, hl]
  apply h.taken (n := l.text.length + 1)
  case hn => omega
  case hsame =>
    intro k hk hle
    exact Function.update_of_ne (add_mod_ne (by omega) hk).symm ..
  case hclear =>
    intro k hk
    by_cases hlast : k = l.text.length
    · subst hlast
      exact Function.update_self ..
    · have hfits := h.fits
      have hlen := h.held_length
      rw [Function.update_of_ne (add_mod_ne (by omega) (by omega))]
      exact (h.text hl (by omega)).1
  case hcells =>
    show ls.flatMap TtyLine.cells = _
    rw [Terminal.lineCells, hl, List.flatMap_cons, List.drop_left' l.length_cells]
  case hpending => rfl
  case hdelims =>
    intro l' hl'
    apply h.delims
    rw [hl]
    exact List.mem_cons_of_mem _ hl'

theorem Rel.taken_part {n : ℕ} (h : Rel s m) (hl : m.lines = l :: ls) (hn : n ≤ l.text.length) :
    Rel { s with readTail := s.readTail + n } { m with lines := ⟨l.text.drop n, l.delim⟩ :: ls } := by
  have hlines := h.lines
  have hcount : l.text.length + 1 ≤ m.lineCells.length := by
    simp [Terminal.lineCells, hl]
  apply h.taken (n := n)
  case hn => omega
  case hsame => exact fun _ _ _ => rfl
  case hclear => exact fun k hk => (h.text hl (by omega)).1
  case hcells =>
    show TtyLine.cells ⟨l.text.drop n, l.delim⟩ ++ ls.flatMap TtyLine.cells = (m.lines.flatMap TtyLine.cells).drop n
    rw [hl, List.flatMap_cons, List.drop_append_of_le_length (by rw [l.length_cells]; omega), TtyLine.cells,
      TtyLine.cells, List.drop_append_of_le_length (by rw [List.length_map]; omega), ← List.map_drop]
  case hpending => rfl
  case hdelims =>
    intro l' hl'
    rcases List.mem_cons.mp hl' with rfl | hl'
    · exact h.delims l (by simp [hl])
    · apply h.delims
      rw [hl]
      exact List.mem_cons_of_mem _ hl'

end FirstLine

/-- A line that ends with a delimiter is not read up to it, and there is no end of file on an empty line. -/
def ReadOk (s : NTty) (m : Terminal) (nr : ℕ) : Prop :=
  nr ≠ 0 → ∀ l ∈ m.lines.head?, nr + 1 < 2 ^ 64 ∧ s.ScanOk nr ∧
    (l.delim = none → l.text ≠ []) ∧ (l.delim ≠ none → l.text.length ≠ nr)

theorem Rel.canonCopy {nr : ℕ} {l : TtyLine} {ls : List TtyLine} (h : Rel s m) (hl : m.lines = l :: ls) (hnr : nr ≠ 0)
    (hok : s.ReadOk m nr) :
    ∃ b, b ≠ [] ∧ (m.read nr).2 = .bytes b ∧ (s.canonCopy nr).2 = b ∧ Rel (s.canonCopy nr).1 (m.read nr).1 := by
  obtain ⟨hsize, hscan, heof, hdelim⟩ := hok hnr l (by simp [hl])
  have hlen := h.held_length
  have hfits := h.fits
  have htail := h.tail
  have hhead := h.head
  have hlines := h.lines
  have hcount : l.text.length + 1 ≤ m.lineCells.length := by
    simp [Terminal.lineCells, hl]
  have hN : rtTtyBuf = 1024 := rfl
  have hsub : subSize s.canonHead s.readTail = s.canonHead - s.readTail := subSize_eq htail (by omega)
  obtain ⟨hset, hlast⟩ := h.delim hl
  have hspec := canonCopy_spec hnr hsize (by omega) (by omega) (fun k hk => (h.text hl hk).1) hset hscan
  rw [hspec, Terminal.read, if_neg hnr, hl]
  dsimp only
  rw [hlast]
  by_cases hd : l.text.length ≤ nr
  · rw [if_pos hd]
    cases hend : l.delim with
    | none =>
      have hbytes : l.bytes = l.text := by simp [TtyLine.bytes, hend]
      rw [if_pos (by rw [hbytes]; exact hd), hbytes, Option.getD_none, if_neg (by simp), if_neg (by simp)]
      refine ⟨l.text, heof hend, rfl, ?_, h.taken_line hl⟩
      exact (h.copyOut hl le_rfl).trans List.take_length
    | some c =>
      have hbytes : l.bytes = l.text ++ [c] := by simp [TtyLine.bytes, hend]
      have hne : c ≠ disabledChar := fun heq => h.delims l (by simp [hl]) (by rw [hend, heq])
      have hlt : l.text.length ≠ nr := hdelim (by simp [hend])
      have hwhole := h.copyOut_line hl
      rw [hend, Option.getD_some] at hwhole
      rw [if_pos (by rw [hbytes, List.length_append, List.length_singleton]; omega), hbytes, Option.getD_some,
        if_pos hne, if_pos hne, Nat.min_eq_right (by omega)]
      exact ⟨l.text ++ [c], by simp, rfl, hwhole, h.taken_line hl⟩
  · have hbytes : l.text.length ≤ l.bytes.length := by simp [TtyLine.bytes]
    rw [if_neg hd, if_neg (by omega)]
    refine ⟨l.text.take nr, ?_, rfl, h.copyOut hl (by omega), h.taken_part hl (by omega)⟩
    intro hnil
    have := congrArg List.length hnil
    rw [List.length_take, List.length_nil] at this
    omega

theorem Rel.read {nr : ℕ} (h : Rel s m) (hok : s.ReadOk m nr) :
    (s.read nr).2 = (m.read nr).2 ∧ Rel (s.read nr).1 (m.read nr).1 ∧ (m.read nr).1.quoting = m.quoting := by
  by_cases hnr : nr = 0
  · rw [NTty.read, Terminal.read, if_pos hnr, if_pos hnr]
    exact ⟨rfl, h, rfl⟩
  have hlines := h.lines
  have htail := h.tail
  rw [NTty.read, if_neg hnr, readLoop]
  cases hl : m.lines with
  | nil =>
    have hnone : s.canonHead = s.readTail := by
      have : m.lineCells = [] := by simp [Terminal.lineCells, hl]
      rw [this] at hlines
      exact Nat.le_antisymm (by simpa using Nat.sub_eq_zero_iff_le.mp hlines) htail
    have hm : m.read nr = (m, .wait) := by
      rw [Terminal.read, if_neg hnr, hl]
    rw [if_pos (by simp [inputAvailable, hnone]), hm]
    exact ⟨rfl, h, rfl⟩
  | cons l ls =>
    have hsome : s.canonHead ≠ s.readTail := by
      have : 0 < m.lineCells.length := by simp [Terminal.lineCells, hl]
      omega
    obtain ⟨b, hb, hanswer, hcopy, hrel⟩ := h.canonCopy hl hnr hok
    rw [if_neg (by simp [inputAvailable, hsome])]
    generalize s.canonCopy nr = out at hcopy hrel ⊢
    obtain ⟨s1, b1⟩ := out
    dsimp only at hcopy hrel ⊢
    subst hcopy
    rw [if_pos (show b1.length ≥ 1 from List.length_pos_iff.mpr hb)]
    refine ⟨hanswer.symm, hrel, ?_⟩
    rw [Terminal.read, if_neg hnr, hl]
    dsimp only
    split <;> rfl

end NTty

/-! ### Runs -/

inductive NTtyEvent
  | receive (cp : List UInt8)
  | read (nr : ℕ)

/-- The line discipline beside the terminal, and what the reads have given on either side. -/
structure NTtySys where
  tty : NTty
  term : Terminal
  answers : List (NTty.ReadAnswer × NTty.ReadAnswer)

namespace NTtySys

def init : NTtySys :=
  { tty := NTty.opened, term := Terminal.opened, answers := [] }

variable (t : TtyTermios)

/-- Of a buffer, the characters that the line discipline does not take do not count. -/
def step (s : NTtySys) : NTtyEvent → Option NTtySys
  | .receive cp =>
    let (tty, n) := s.tty.receiveBuf t cp
    some { s with tty := tty, term := s.term.chars t (cp.take n) }
  | .read nr =>
    let (tty, a) := s.tty.read nr
    let (term, b) := s.term.read nr
    some { tty := tty, term := term, answers := s.answers ++ [(a, b)] }

def EventOk (s : NTtySys) : NTtyEvent → Prop
  | .receive cp => NTty.TurnsOk t (cp.length + 1) s.tty s.term cp
  | .read nr => s.tty.ReadOk s.term nr

structure Inv (s : NTtySys) : Prop where
  rel : s.tty.Rel s.term
  quoting : s.term.quoting = false
  answers : ∀ p ∈ s.answers, p.1 = p.2

variable {t} {s s' : NTtySys} {e : NTtyEvent}

theorem Inv.step (h : Inv s) (hok : EventOk t s e) (he : s.step t e = some s') : Inv s' := by
  cases e with
  | receive cp =>
    cases Option.some.inj he
    obtain ⟨hrel, hquoting⟩ := NTty.receiveLoop_rel h.rel h.quoting hok
    exact ⟨hrel, hquoting, h.answers⟩
  | read nr =>
    cases Option.some.inj he
    obtain ⟨hanswer, hrel, hquoting⟩ := h.rel.read hok
    refine ⟨hrel, hquoting.trans h.quoting, ?_⟩
    intro p hp
    rcases List.mem_append.mp hp with hp | hp
    · exact h.answers p hp
    · cases List.mem_singleton.mp hp
      exact hanswer

theorem init_inv : Inv init :=
  ⟨NTty.opened_rel, rfl, fun p hp => (by cases hp)⟩

/-- Every read gives what the terminal gives, and the buffer holds what the terminal holds. -/
theorem canonical_reads (t : TtyTermios) (es : List NTtyEvent) (s : NTtySys) (hrun : run (step t) init es = some s)
    (hm : Meets (step t) (EventOk t) init es) : (∀ p ∈ s.answers, p.1 = p.2) ∧ s.tty.held = s.term.cells := by
  have h := run_invariant_of_meets Inv (fun s e s' h hok he => h.step hok he) hrun hm init_inv
  exact ⟨h.answers, h.rel.held⟩

def demoTermios : TtyTermios :=
  { istrip := false, iuclc := false, igncr := false, icrnl := true, inlcr := false, ixon := true, iutf8 := false,
    parmrk := false, isig := true, noflsh := false, iexten := true, echo := true, echoe := true, echok := true,
    echoke := true, intrChar := 3, quitChar := 28, suspChar := 26, startChar := 17, stopChar := 19, eraseChar := 127,
    weraseChar := 23, killChar := 21, eofChar := 4, eolChar := 0, eol2Char := 0, lnextChar := 22, reprintChar := 18 }

/-- A read stops before the newline; the next one gives the newline and the next line. -/
theorem lines_run_together :
    ¬∀ (t : TtyTermios) (es : List NTtyEvent) (s : NTtySys), run (step t) init es = some s →
      (∀ p ∈ s.answers, p.1 = p.2) ∧ s.tty.held = s.term.cells := by
  intro h
  have hrun : ∃ s, run (step demoTermios) init [.receive [97, 98, 10, 99, 100, 10], .read 2, .read 10] = some s ∧
      s.answers = [(.bytes [97, 98], .bytes [97, 98]), (.bytes [10, 99, 100, 10], .bytes [10])] := by
    refine ⟨_, rfl, ?_⟩
    decide +kernel
  obtain ⟨s, hs, hanswers⟩ := hrun
  have := (h demoTermios _ s hs).1 (.bytes [10, 99, 100, 10], .bytes [10]) (by simp [hanswers])
  simp at this

def demoEvents : List NTtyEvent :=
  [.receive [97, 98, 99, 10, 120], .read 2, .read 10]

theorem demo_meets : Meets (step demoTermios) (EventOk demoTermios) init demoEvents := by
  refine ⟨?_, fun s1 h1 => ⟨?_, fun s2 h2 => ⟨?_, fun _ _ => trivial⟩⟩⟩
  · exact ⟨by decide +kernel, .inr ⟨by decide +kernel, by decide +kernel, .inl (by decide +kernel)⟩⟩
  · cases Option.some.inj h1
    intro _ l hl
    cases Option.mem_some_iff.mp hl
    refine ⟨by decide, ⟨?_, ?_⟩, by decide, by decide⟩
    · exact seen_low (by decide +kernel) (by decide +kernel) (.inr (by decide +kernel))
    · intro h
      exact absurd h.1 (by decide +kernel)
  · cases Option.some.inj h1
    cases Option.some.inj h2
    intro _ l hl
    have hl : l = ⟨[99], some 10⟩ := (Option.mem_some_iff.mp hl).symm
    subst hl
    refine ⟨by decide, ⟨?_, ?_⟩, by decide, by decide⟩
    · exact seen_low (by decide +kernel) (by decide +kernel) (.inl (by decide +kernel))
    · intro h
      exact absurd h.1 (by decide +kernel)

/-- A line is read in two parts. -/
theorem canonical_reads_demo :
    ∃ s, run (step demoTermios) init demoEvents = some s ∧
      ((∀ p ∈ s.answers, p.1 = p.2) ∧ s.tty.held = s.term.cells) ∧
      s.answers.map Prod.fst = [.bytes [97, 98], .bytes [99, 10]] := by
  refine ⟨_, rfl, canonical_reads demoTermios demoEvents _ rfl demo_meets, ?_⟩
  decide +kernel

end NTtySys

end RtSmart
