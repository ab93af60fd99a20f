import RtSmart.Drivers.TerminalRun

/-! Whether a line can be finished: the counters of the buffer over whole runs, and the newline that no room is left for. -/

namespace RtSmart

open Lib

namespace TtyTermios

variable (t : TtyTermios)

/-- A newline ends a line, and means nothing else. -/
def PlainNewline : Prop :=
  t.inlcr = false ∧ 10 ≠ t.eraseChar ∧ 10 ≠ t.killChar ∧
    (t.iexten = true → 10 ≠ t.weraseChar ∧ 10 ≠ t.lnextChar ∧ (t.echo = true → 10 ≠ t.reprintChar)) ∧
    (t.ixon = true → 10 ≠ t.startChar ∧ 10 ≠ t.stopChar) ∧
    (t.isig = true → 10 ≠ t.intrChar ∧ 10 ≠ t.quitChar ∧ 10 ≠ t.suspChar)

def quotes (c : UInt8) : Bool := t.charMap (t.strip c) && (NTty.opened.receiveCharSpecial t (t.strip c)).2

def signals (c : UInt8) : Prop :=
  ¬(t.ixon ∧ (c = t.startChar ∨ c = t.stopChar)) ∧ (t.isig ∧ (c = t.intrChar ∨ c = t.quitChar ∨ c = t.suspChar)) ∧
    t.noflsh = false

def flushes (c : UInt8) : Prop := t.charMap (t.strip c) ∧ t.signals (t.strip c)

/-- The characters have a newline that is not quoted, and no signal empties the buffer behind it. -/
def Delivers (cp : List UInt8) : Prop :=
  ∃ before after, cp = before ++ 10 :: after ∧ (∀ c ∈ before.getLast?, t.quotes c = false) ∧
    ∀ c ∈ after, ¬t.flushes c

end TtyTermios

namespace NTty

/-- The counters are in order, and at most `m` bytes are held. -/
structure Holds (m : ℕ) (s : NTty) : Prop where
  tail : s.readTail ≤ s.canonHead
  canon : s.canonHead ≤ s.readHead
  fits : s.readHead ≤ s.readTail + m

/-- At most `n` bytes more are held, and no finished line has gone. -/
structure Fed (n : ℕ) (s s' : NTty) : Prop where
  tail : s'.readTail = s.readTail
  lines : s.canonHead ≤ s'.canonHead
  canon : s'.canonHead ≤ s'.readHead
  head : s'.readHead ≤ s.readHead + n

variable {t : TtyTermios} {s s' : NTty} {c : UInt8} {m n k : ℕ} {cp : List UInt8}

theorem Holds.fed (h : Holds m s) (hfed : Fed n s s') : Holds (m + n) s' where
  tail := hfed.tail ▸ h.tail.trans hfed.lines
  canon := hfed.canon
  fits := by
    have hfits := h.fits
    have hhead := hfed.head
    rw [hfed.tail]
    omega

theorem Holds.mono (h : Holds m s) (hle : m ≤ n) : Holds n s := ⟨h.tail, h.canon, h.fits.trans (by omega)⟩

theorem Fed.refl (h : s.canonHead ≤ s.readHead) : Fed n s s := ⟨rfl, le_rfl, h, Nat.le_add_right _ _⟩

theorem Fed.trans {s'' : NTty} (h : Fed m s s') (h' : Fed n s' s'') : Fed (m + n) s s'' where
  tail := h'.tail.trans h.tail
  lines := h.lines.trans h'.lines
  canon := h'.canon
  head := by
    have h1 := h.head
    have h2 := h'.head
    omega

theorem Fed.mono (h : Fed m s s') (hle : m ≤ n) : Fed n s s' := ⟨h.tail, h.lines, h.canon, h.head.trans (by omega)⟩

/-! ### What a character does to the counters -/

theorem putTtyQueue_fed (h : s.canonHead ≤ s.readHead) (c : UInt8) : Fed 1 s (s.putTtyQueue c) :=
  ⟨rfl, le_rfl, h.trans (Nat.le_succ _), le_rfl⟩

theorem handleNewline_fed (h : s.canonHead ≤ s.readHead) (c : UInt8) : Fed 1 s (s.handleNewline c) :=
  ⟨rfl, h.trans (Nat.le_succ _), le_rfl, le_rfl⟩

theorem grow_pos (t : TtyTermios) : 1 ≤ t.grow := by
  unfold TtyTermios.grow
  split <;> decide

theorem receiveCharInline_fed (h : s.canonHead ≤ s.readHead) (c : UInt8) : Fed t.grow s (s.receiveCharInline t c) := by
  unfold receiveCharInline
  split
  · rename_i hmark
    have hgrow : t.grow = 1 + 1 := by
      unfold TtyTermios.grow
      rw [if_pos hmark.2]
    rw [hgrow]
    have hput := putTtyQueue_fed h c
    exact hput.trans (putTtyQueue_fed hput.canon c)
  · exact (putTtyQueue_fed h c).mono (grow_pos t)

theorem eraseBack_bounds (k head : ℕ) (h : s.canonHead < head) :
    s.canonHead ≤ (s.eraseBack t k head).1 ∧ (s.eraseBack t k head).1 ≤ head := by
  induction k generalizing head with
  | zero => exact ⟨h.le, le_rfl⟩
  | succ k ih =>
    rw [eraseBack]
    split
    · rename_i hgo
      have hlt : s.canonHead < head - 1 := by
        have hne := hgo.2
        omega
      obtain ⟨hlow, hhigh⟩ := ih (head - 1) hlt
      exact ⟨hlow, hhigh.trans (Nat.sub_le _ _)⟩
    · omega

theorem eraseLoop_fed (kind : KillType) (k : ℕ) (seen : Bool) (h : s.canonHead ≤ s.readHead) :
    Fed 0 s (eraseLoop t kind k s seen) := by
  induction k generalizing s seen with
  | zero => exact .refl h
  | succ k ih =>
    rw [eraseLoop]
    split
    · exact .refl h
    · rename_i hne
      have hlt : s.canonHead < s.readHead := lt_of_le_of_ne h (Ne.symm hne)
      obtain ⟨hlow, hhigh⟩ := eraseBack_bounds (t := t) (s.readHead - s.canonHead) s.readHead hlt
      generalize s.eraseBack t (s.readHead - s.canonHead) s.readHead = r at hlow hhigh ⊢
      obtain ⟨head, c⟩ := r
      dsimp only
      have hback : Fed 0 s { s with readHead := head } := ⟨rfl, le_rfl, hlow, hhigh⟩
      split
      · exact .refl h
      split
      · exact .refl h
      split
      · exact hback
      · exact hback.trans (ih _ hlow)

theorem eraser_fed (h : s.canonHead ≤ s.readHead) (c : UInt8) : Fed 0 s (s.eraser t c) := by
  unfold eraser
  split
  · exact .refl h
  split
  · exact eraseLoop_fed _ _ _ h
  split
  · exact eraseLoop_fed _ _ _ h
  split
  · exact ⟨rfl, le_rfl, le_rfl, h⟩
  · exact eraseLoop_fed _ _ _ h

theorem receiveCharCanon_fed (h : s.canonHead ≤ s.readHead) (c : UInt8) : Fed t.grow s (s.receiveCharCanon t c).1 := by
  unfold receiveCharCanon
  split
  · exact (eraser_fed h c).mono (Nat.zero_le _)
  split
  · exact .refl h
  split
  · exact .refl h
  split
  · exact (handleNewline_fed h c).mono (grow_pos t)
  split
  · exact (handleNewline_fed h _).mono (grow_pos t)
  split
  · dsimp only
    split
    · rename_i hmark
      have hgrow : t.grow = 1 + 1 := by
        unfold TtyTermios.grow
        rw [if_pos hmark.2]
      rw [hgrow]
      have hput := putTtyQueue_fed h c
      exact hput.trans (handleNewline_fed hput.canon c)
    · exact (handleNewline_fed h c).mono (grow_pos t)
  · exact receiveCharInline_fed h c

theorem receiveCharSpecial_fed (h : s.canonHead ≤ s.readHead) (c : UInt8) :
    Fed t.grow s (s.receiveCharSpecial t c).1 ∨ t.signals c ∧ (s.receiveCharSpecial t c).1 = s.resetBufferFlags := by
  unfold receiveCharSpecial
  split
  · exact .inl (.refl h)
  rename_i hflow
  split
  · rename_i hsig
    cases hflush : t.noflsh with
    | true => exact .inl (.refl h)
    | false => exact .inr ⟨⟨hflow, hsig, hflush⟩, rfl⟩
  split
  · exact .inl (.refl h)
  split
  · exact .inl (receiveCharCanon_fed h _)
  split
  · exact .inl (receiveCharCanon_fed h _)
  · exact .inl (receiveCharCanon_fed h _)

theorem receiveCharCanon_quoted (c : UInt8) (hq : (s.receiveCharCanon t c).2 = true) :
    (s.receiveCharCanon t c).1 = s ∧ (opened.receiveCharCanon t c).2 = true := by
  unfold receiveCharCanon at hq ⊢
  by_cases herase : c = t.eraseChar ∨ c = t.killChar ∨ c = t.weraseChar ∧ t.iexten
  · rw [if_pos herase] at hq
    cases hq
  simp only [if_neg herase] at hq ⊢
  by_cases hnext : c = t.lnextChar ∧ t.iexten
  · simp only [if_pos hnext, and_self]
  simp only [if_neg hnext] at hq ⊢
  -- the other characters do not quote
  by_cases hreprint : c = t.reprintChar ∧ t.echo ∧ t.iexten
  · rw [if_pos hreprint] at hq
    cases hq
  rw [if_neg hreprint] at hq
  by_cases hnewline : c = 10
  · rw [if_pos hnewline] at hq
    cases hq
  rw [if_neg hnewline] at hq
  by_cases heof : c = t.eofChar
  · rw [if_pos heof] at hq
    cases hq
  rw [if_neg heof] at hq
  split at hq <;> cases hq

theorem receiveCharSpecial_quoted (c : UInt8) (hq : (s.receiveCharSpecial t c).2 = true) :
    (s.receiveCharSpecial t c).1 = s ∧ (opened.receiveCharSpecial t c).2 = true := by
  unfold receiveCharSpecial at hq ⊢
  split_ifs at hq ⊢
  · exact receiveCharCanon_quoted _ hq
  · exact receiveCharCanon_quoted _ hq
  · exact receiveCharCanon_quoted _ hq

theorem receiveChars_put (s : NTty) (cp : List UInt8) (h : t.charMap (t.strip c) = false) :
    s.receiveChars t (c :: cp) = (s.receiveCharInline t (t.strip c)).receiveChars t cp := by
  conv_lhs => unfold receiveChars
  rw [h]
  rfl

theorem receiveChars_quote (cp : List UInt8) (h : t.charMap (t.strip c) = true) {c' : UInt8}
    (hq : s.receiveCharSpecial t (t.strip c) = (s', true)) :
    s.receiveChars t (c :: c' :: cp) = (s'.receiveCharInline t (t.strip c')).receiveChars t cp := by
  conv_lhs => unfold receiveChars
  rw [h, hq]
  rfl

theorem receiveChars_special (s : NTty) (cp : List UInt8) (h : t.charMap (t.strip c) = true)
    (hq : (s.receiveCharSpecial t (t.strip c)).2 = false ∨ cp = []) :
    s.receiveChars t (c :: cp) = (s.receiveCharSpecial t (t.strip c)).1.receiveChars t cp := by
  conv_lhs => unfold receiveChars
  rw [h]
  generalize s.receiveCharSpecial t (t.strip c) = out at hq ⊢
  obtain ⟨s1, q⟩ := out
  rcases hq with hq | rfl
  · dsimp only at hq
    subst hq
    rfl
  · cases q <;> rfl

theorem receiveChars_cons (h : s.canonHead ≤ s.readHead) (c : UInt8) (cp : List UInt8) :
    ∃ s1 used rest, cp = used ++ rest ∧ used.length ≤ 1 ∧ (used ≠ [] → t.quotes c = true) ∧
      s.receiveChars t (c :: cp) = s1.receiveChars t rest ∧
        (Fed t.grow s s1 ∨ t.flushes c ∧ s1 = s.resetBufferFlags) := by
  cases hmap : t.charMap (t.strip c) with
  | false =>
    exact ⟨_, [], cp, rfl, Nat.zero_le 1, fun hne => absurd rfl hne, receiveChars_put s cp hmap,
      .inl (receiveCharInline_fed h _)⟩
  | true =>
    have hspecial : Fed t.grow s (s.receiveCharSpecial t (t.strip c)).1 ∨
        t.flushes c ∧ (s.receiveCharSpecial t (t.strip c)).1 = s.resetBufferFlags :=
      (receiveCharSpecial_fed h (t.strip c)).imp_right fun hs => ⟨⟨hmap, hs.1⟩, hs.2⟩
    by_cases hq : (s.receiveCharSpecial t (t.strip c)).2 = false ∨ cp = []
    · exact ⟨_, [], cp, rfl, Nat.zero_le 1, fun hne => absurd rfl hne, receiveChars_special s cp hmap hq, hspecial⟩
    · push Not at hq
      obtain ⟨hquoted, hne⟩ := hq
      obtain ⟨c', cp, rfl⟩ := List.exists_cons_of_ne_nil hne
      have hquoted := Bool.eq_true_of_not_eq_false hquoted
      obtain ⟨hsame, hopened⟩ := receiveCharSpecial_quoted _ hquoted
      refine ⟨_, [c'], cp, rfl, le_rfl, fun _ => ?_, receiveChars_quote cp hmap (Prod.ext hsame hquoted),
        .inl (receiveCharInline_fed h _)⟩
      rw [TtyTermios.quotes, hmap, hopened]
      rfl

theorem Holds.reset (m : ℕ) (s : NTty) : Holds m s.resetBufferFlags := ⟨le_rfl, le_rfl, Nat.zero_le _⟩

theorem Holds.receiveChars (h : Holds m s) (hn : cp.length ≤ n) : Holds (m + t.grow * n) (s.receiveChars t cp) := by
  induction n generalizing s cp m with
  | zero =>
    obtain rfl := List.eq_nil_of_length_eq_zero (Nat.le_zero.mp hn)
    exact h
  | succ n ih =>
    cases cp with
    | nil => exact h.mono (Nat.le_add_right _ _)
    | cons c cp =>
      obtain ⟨s1, used, rest, rfl, -, -, heq, hone⟩ := receiveChars_cons (t := t) h.canon c cp
      have hrest : rest.length ≤ n := by
        rw [List.length_cons, List.length_append] at hn
        omega
      have h1 : Holds (m + t.grow) s1 := by
        rcases hone with hfed | ⟨-, rfl⟩
        · exact h.fed hfed
        · exact Holds.reset _ s
      rw [heq]
      have hall := ih h1 hrest
      rwa [Nat.mul_succ, Nat.add_comm (t.grow * n), ← Nat.add_assoc]

theorem receiveChars_fed (h : s.canonHead ≤ s.readHead) (hn : cp.length ≤ n) (hkeep : ∀ c ∈ cp, ¬t.flushes c) :
    Fed (t.grow * n) s (s.receiveChars t cp) := by
  induction n generalizing s cp with
  | zero =>
    obtain rfl := List.eq_nil_of_length_eq_zero (Nat.le_zero.mp hn)
    exact .refl h
  | succ n ih =>
    cases cp with
    | nil => exact .refl h
    | cons c cp =>
      obtain ⟨s1, used, rest, rfl, -, -, heq, hone⟩ := receiveChars_cons (t := t) h c cp
      have hrest : rest.length ≤ n := by
        rw [List.length_cons, List.length_append] at hn
        omega
      have hfed : Fed t.grow s s1 := hone.resolve_right fun hflush => hkeep c List.mem_cons_self hflush.1
      have hall := ih hfed.canon hrest fun c' hc' =>
        hkeep c' (List.mem_cons_of_mem c (List.mem_append_right used hc'))
      rw [heq, Nat.mul_succ, Nat.add_comm]
      exact hfed.trans hall

def Ready (s : NTty) : Prop := s.canonHead ≠ s.readTail

theorem Ready.fed (hready : Ready s) (h : Holds m s) (hfed : Fed n s s') : Ready s' := by
  have htail := h.tail
  have hkeep := hfed.tail
  have hlines := hfed.lines
  unfold Ready at *
  omega

theorem receiveChars_newline (hplain : t.PlainNewline) (s : NTty) (cp : List UInt8) :
    s.receiveChars t (10 :: cp) = (s.handleNewline 10).receiveChars t cp := by
  obtain ⟨hinlcr, herase, hkill, hext, hflow, hsig⟩ := hplain
  have hstrip : t.strip 10 = 10 := by
    unfold TtyTermios.strip
    cases t.istrip <;> cases t.iuclc <;> cases t.iexten <;> rfl
  have hmap : t.charMap 10 = true := by
    simp [TtyTermios.charMap, disabledChar]
  have hcanon : s.receiveCharCanon t 10 = (s.handleNewline 10, false) := by
    unfold receiveCharCanon
    rw [if_neg, if_neg, if_neg, if_pos rfl]
    · rintro ⟨h1, h2, h3⟩
      exact (hext h3).2.2 h2 h1
    · rintro ⟨h1, h2⟩
      exact (hext h2).2.1 h1
    · rintro (h1 | h1 | ⟨h1, h2⟩)
      · exact herase h1
      · exact hkill h1
      · exact (hext h2).1 h1
  have hspecial : s.receiveCharSpecial t 10 = (s.handleNewline 10, false) := by
    unfold receiveCharSpecial
    rw [if_neg, if_neg, if_neg, if_neg, if_neg, hcanon]
    · rw [hinlcr]
      simp
    · simp
    · simp
    · rintro ⟨h1, h2⟩
      obtain ⟨h3, h4, h5⟩ := hsig h1
      rcases h2 with h2 | h2 | h2
      exacts [h3 h2, h4 h2, h5 h2]
    · rintro ⟨h1, h2⟩
      obtain ⟨h3, h4⟩ := hflow h1
      rcases h2 with h2 | h2
      exacts [h3 h2, h4 h2]
  have heq := receiveChars_special s cp (hstrip.symm ▸ hmap) (.inl (by rw [hstrip, hspecial]))
  rwa [hstrip, hspecial] at heq

theorem receiveChars_ready (hplain : t.PlainNewline) {before after : List UInt8} (h : Holds m s) (hn : before.length ≤ n)
    (hlast : ∀ c ∈ before.getLast?, t.quotes c = false) (hkeep : ∀ c ∈ after, ¬t.flushes c) :
    Ready (s.receiveChars t (before ++ 10 :: after)) := by
  induction n generalizing s before m with
  | zero =>
    obtain rfl := List.eq_nil_of_length_eq_zero (Nat.le_zero.mp hn)
    have hline := handleNewline_fed h.canon 10
    have hready : Ready (s.handleNewline 10) := by
      have htail := h.tail.trans h.canon
      change s.readHead + 1 ≠ s.readTail
      omega
    rw [List.nil_append, receiveChars_newline hplain]
    exact hready.fed (h.fed hline) (receiveChars_fed hline.canon le_rfl hkeep)
  | succ n ih =>
    cases before with
    | nil => exact ih h (Nat.zero_le n) (by simp)
    | cons c before =>
      obtain ⟨s1, used, rest, hsplit, hused, hquote, heq, hone⟩ :=
        receiveChars_cons (t := t) h.canon c (before ++ 10 :: after)
      have h1 : Holds (m + t.grow) s1 := by
        rcases hone with hfed | ⟨-, rfl⟩
        · exact h.fed hfed
        · exact Holds.reset _ s
      rw [List.cons_append, heq]
      cases used with
      | nil =>
        rw [List.nil_append] at hsplit
        rw [← hsplit]
        apply ih h1 (Nat.le_of_succ_le_succ hn)
        intro d hd
        apply hlast d
        rw [List.getLast?_cons]
        cases hb : before.getLast? with
        | none =>
          rw [hb] at hd
          cases hd
        | some e =>
          rw [hb] at hd
          exact hd
      | cons d used =>
        have hnil : used = [] := List.eq_nil_of_length_eq_zero (by
          rw [List.length_cons] at hused
          omega)
        subst hnil
        have hquotes := hquote (List.cons_ne_nil _ _)
        cases before with
        | nil =>
          have := hlast c rfl
          rw [this] at hquotes
          cases hquotes
        | cons e before =>
          rw [List.cons_append, List.singleton_append, List.cons.injEq] at hsplit
          rw [← hsplit.2]
          apply ih h1
          · rw [List.length_cons, List.length_cons] at hn
            omega
          · intro d' hd'
            apply hlast d'
            rw [List.getLast?_cons_cons, List.getLast?_cons]
            cases hb : before.getLast? with
            | none =>
              rw [hb] at hd'
              cases hd'
            | some x =>
              rw [hb] at hd'
              exact hd'

/-! ### The loop of `n_tty_receive_buf` -/

/-- At no turn with characters left has the unfinished line filled the buffer. -/
def Fits (t : TtyTermios) : ℕ → NTty → List UInt8 → Prop
  | 0, _, _ => True
  | k + 1, s, cp =>
    let n := min cp.length (s.room t).toNat
    cp = [] ∨ s.overflow t = false ∧ (n = 0 ∨ Fits t k (s.receiveChars t (cp.take n)) (cp.drop n))

theorem Holds.room_nonneg (h : Holds 1023 s) : 0 ≤ s.room t := by
  have hfits := h.fits
  unfold room
  rw [show (rtTtyBuf : ℤ) = 1024 from rfl]
  dsimp only
  split
  · rw [Int.tdiv_eq_ediv_of_nonneg (by omega)]
    omega
  · omega

theorem Holds.chunk (h : Holds 1023 s) (hn : n ≤ (s.room t).toNat) (hpos : n ≠ 0) :
    Holds 1023 (s.receiveChars t (cp.take n)) := by
  have hfits := h.fits
  have hle := h.tail.trans h.canon
  have hN : rtTtyBuf = 1024 := rfl
  have hbound := room_bound hle (by omega) hn hpos
  have hexact : Holds (s.readHead - s.readTail) s := ⟨h.tail, h.canon, by omega⟩
  have hall : Holds (s.readHead - s.readTail + t.grow * n) (s.receiveChars t (cp.take n)) :=
    hexact.receiveChars (List.length_take_le n cp)
  exact hall.mono (by omega)

theorem receiveLoop_succ (h : Holds 1023 s) (k : ℕ) (cp : List UInt8) :
    receiveLoop t (k + 1) s cp =
      if s.overflow t then
        if cp = [] then (s, 0) else ((receiveLoop t k s (cp.drop 1)).1, 1 + (receiveLoop t k s (cp.drop 1)).2)
      else
        let n := min cp.length (s.room t).toNat
        if n = 0 then (s, 0)
        else ((receiveLoop t k (s.receiveChars t (cp.take n)) (cp.drop n)).1,
          n + (receiveLoop t k (s.receiveChars t (cp.take n)) (cp.drop n)).2) := by
  have hroom := h.room_nonneg (t := t)
  rw [receiveLoop]
  dsimp only
  cases hfull : s.overflow t with
  | true =>
    have hneg : ¬(true = true ∧ s.room t < 0) := fun hno => absurd hno.2 (not_lt.mpr hroom)
    rw [if_pos rfl, if_pos rfl, if_neg hneg, if_pos rfl]
    cases cp with
    | nil => rfl
    | cons c cp =>
      have hone : min (c :: cp).length 1 = 1 := min_eq_right (Nat.succ_le_succ (Nat.zero_le _))
      rw [hone, if_neg Nat.one_ne_zero, if_neg (List.cons_ne_nil _ _)]
  | false =>
    simp only [Bool.false_eq_true, if_false, false_and]

theorem Holds.receiveLoop (h : Holds 1023 s) : Holds 1023 (receiveLoop t k s cp).1 := by
  induction k generalizing s cp with
  | zero => exact h
  | succ k ih =>
    rw [receiveLoop_succ h]
    split
    · split
      · exact h
      · exact ih h
    · dsimp only
      split
      · exact h
      · rename_i hn
        exact ih (h.chunk (min_le_right _ _) hn)

theorem overflow_iff (s : NTty) : s.overflow t = true ↔ s.room t ≤ 0 ∧ ¬Ready s := by
  simp [NTty.overflow, Ready]

theorem receiveLoop_overflow (h : Holds 1023 s) (hfull : s.overflow t = true) : (receiveLoop t k s cp).1 = s := by
  induction k generalizing cp with
  | zero => rfl
  | succ k ih =>
    rw [receiveLoop_succ h, if_pos hfull]
    split
    · rfl
    · exact ih

theorem Ready.receiveLoop (hready : Ready s) (h : Holds 1023 s) (hkeep : ∀ c ∈ cp, ¬t.flushes c) :
    Ready (receiveLoop t k s cp).1 ∧ Fits t k s cp := by
  induction k generalizing s cp with
  | zero => exact ⟨hready, trivial⟩
  | succ k ih =>
    have hopen : s.overflow t = false := by
      apply Bool.eq_false_iff.mpr
      intro hfull
      exact ((overflow_iff s).mp hfull).2 hready
    rw [receiveLoop_succ h, if_neg (by simp [hopen]), Fits]
    dsimp only
    split
    · rename_i hn
      exact ⟨hready, .inr ⟨hopen, .inl hn⟩⟩
    · rename_i hn
      have hfed : Fed (t.grow * (cp.take (min cp.length (s.room t).toNat)).length) s
          (s.receiveChars t (cp.take (min cp.length (s.room t).toNat))) :=
        receiveChars_fed h.canon le_rfl fun c hc => hkeep c (List.mem_of_mem_take hc)
      obtain ⟨hrest, hfits⟩ := ih (hready.fed h hfed) (h.chunk (min_le_right _ _) hn) fun c hc =>
        hkeep c (List.mem_of_mem_drop hc)
      exact ⟨hrest, .inr ⟨hopen, .inr hfits⟩⟩

theorem receiveLoop_ready_iff (hplain : t.PlainNewline) (h : Holds 1023 s) (hcp : t.Delivers cp) (hk : cp.length ≤ k) :
    Ready (receiveLoop t k s cp).1 ↔ Fits t k s cp := by
  induction k generalizing s cp with
  | zero =>
    obtain ⟨before, after, rfl, -, -⟩ := hcp
    simp at hk
  | succ k ih =>
    obtain ⟨before, after, rfl, hlast, hkeep⟩ := hcp
    have hne : before ++ 10 :: after ≠ [] := by simp
    cases hfull : s.overflow t with
    | true =>
      have hnot := ((overflow_iff s).mp hfull).2
      rw [receiveLoop_overflow h hfull, Fits, hfull]
      exact iff_of_false hnot fun hno => hno.elim hne fun hno => Bool.noConfusion hno.1
    | false =>
      rw [receiveLoop_succ h, hfull, Fits, hfull]
      simp only [Bool.false_eq_true, if_false]
      by_cases hn : min (before ++ 10 :: after).length (s.room t).toNat = 0
      · have hready : Ready s := by
          by_contra hnot
          have hroom : s.room t ≤ 0 := by
            have hlen := List.length_pos_iff.mpr hne
            omega
          rw [(overflow_iff s).mpr ⟨hroom, hnot⟩] at hfull
          cases hfull
        rw [if_pos hn]
        exact iff_of_true hready (.inr ⟨trivial, .inl hn⟩)
      · have hchunk := @Holds.chunk t s _ (before ++ 10 :: after) h (min_le_right (before ++ 10 :: after).length _) hn
        have hbound : min (before ++ 10 :: after).length (s.room t).toNat ≤ (before ++ 10 :: after).length := min_le_left _ _
        rw [if_neg hn]
        dsimp only
        generalize min (before ++ 10 :: after).length (s.room t).toNat = n at hn hchunk hbound ⊢
        by_cases hin : before.length < n
        · obtain ⟨d, rfl⟩ : ∃ d, n = before.length + (d + 1) := ⟨n - before.length - 1, by omega⟩
          rw [List.take_length_add_append, List.take_succ_cons] at hchunk ⊢
          rw [List.drop_length_add_append, List.drop_succ_cons]
          have hready : Ready (s.receiveChars t (before ++ 10 :: after.take d)) :=
            receiveChars_ready hplain h le_rfl hlast fun c hc => hkeep c (List.mem_of_mem_take hc)
          obtain ⟨hrest, hfits⟩ := hready.receiveLoop (k := k) hchunk fun c hc => hkeep c (List.mem_of_mem_drop hc)
          exact iff_of_true hrest (.inr ⟨trivial, .inr hfits⟩)
        · have hle : n ≤ before.length := Nat.le_of_not_lt hin
          rw [List.take_append_of_le_length hle] at hchunk ⊢
          rw [List.drop_append_of_le_length hle]
          have hdelivers : t.Delivers (before.drop n ++ 10 :: after) := by
            refine ⟨before.drop n, after, rfl, ?_, hkeep⟩
            intro c hc
            apply hlast c
            rw [List.getLast?_drop] at hc
            split at hc
            · cases hc
            · exact hc
          have hlen : (before.drop n ++ 10 :: after).length ≤ k := by
            rw [List.length_append, List.length_drop] at *
            omega
          rw [ih hchunk hdelivers hlen]
          constructor
          · exact fun hfits => .inr ⟨trivial, .inr hfits⟩
          · rintro (hnil | ⟨-, hzero | hfits⟩)
            · exact absurd hnil hne
            · exact absurd hzero hn
            · exact hfits

/-! ### Reading -/

/-- The scans of `canon_copy_from_read_buf` end inside of what they are to look at. -/
def ScanInside (s : NTty) (nr : ℕ) : Prop :=
  let n := min ((nr + 1) % 2 ^ 64) (subSize s.canonHead s.readTail)
  let tail := s.readTail % rtTtyBuf
  let size := min (tail + n) rtTtyBuf
  let more := n - (size - tail)
  tail ≤ findNextBit s.readFlags size tail ∧ findNextBit s.readFlags size tail ≤ size ∧
    findNextBit s.readFlags more 0 ≤ more

/-- So do those of all turns of `n_tty_read`. -/
def ReadInside : ℕ → NTty → ℕ → Prop
  | 0, _, _ => True
  | k + 1, s, count =>
    s.inputAvailable = false ∨
      s.ScanInside count ∧ (1 ≤ (s.canonCopy count).2.length ∨ ReadInside k (s.canonCopy count).1 count)

theorem scanned_le {tail size eol eol' : ℕ} (htail : tail < rtTtyBuf) (hsize : size ≤ rtTtyBuf) (hsum : size ≤ tail + n)
    (_ : size = tail + n ∨ size = rtTtyBuf) (hn : n ≤ 1023) (hlow : tail ≤ eol) (hhigh : eol ≤ size)
    (hmore : eol' ≤ n - (size - tail)) :
    let p := if eol = rtTtyBuf ∧ n - (size - tail) ≠ 0 then (eol', decide (eol' ≠ n - (size - tail)))
      else (eol, decide (eol ≠ size))
    (if rtTtyBuf < subSize p.1 tail then (subSize p.1 tail + rtTtyBuf) % 2 ^ 64 else subSize p.1 tail) + p.2.toNat ≤ n := by
  have hN : rtTtyBuf = 1024 := rfl
  unfold subSize
  by_cases hwrap : eol = rtTtyBuf ∧ n - (size - tail) ≠ 0
  · rw [if_pos hwrap]
    by_cases hend : eol' = n - (size - tail)
    · rw [decide_eq_false (not_not.mpr hend)]
      simp only [Bool.toNat_false]
      split <;> omega
    · rw [decide_eq_true hend]
      simp only [Bool.toNat_true]
      split <;> omega
  · rw [if_neg hwrap]
    by_cases hend : eol = size
    · rw [decide_eq_false (not_not.mpr hend)]
      simp only [Bool.toNat_false]
      split <;> omega
    · rw [decide_eq_true hend]
      simp only [Bool.toNat_true]
      split <;> omega

theorem Holds.canonCopy (h : Holds 1023 s) {nr : ℕ} (hscan : s.ScanInside nr) : Holds 1023 (s.canonCopy nr).1 := by
  have htail := h.tail
  have hcanon := h.canon
  have hfits := h.fits
  have hbehind : subSize s.canonHead s.readTail = s.canonHead - s.readTail := by
    unfold subSize
    omega
  unfold ScanInside at hscan
  unfold NTty.canonCopy
  rw [hbehind] at hscan ⊢
  have hN : rtTtyBuf = 1024 := rfl
  have hmod : s.readTail % rtTtyBuf < rtTtyBuf := Nat.mod_lt _ (by decide)
  dsimp only at hscan ⊢
  have hn : min ((nr + 1) % 2 ^ 64) (s.canonHead - s.readTail) ≤ s.canonHead - s.readTail := min_le_right _ _
  generalize min ((nr + 1) % 2 ^ 64) (s.canonHead - s.readTail) = n at hscan hn ⊢
  generalize s.readTail % rtTtyBuf = tail at hscan hmod ⊢
  obtain ⟨hlow, hhigh, hmore⟩ := hscan
  have hsize : min (tail + n) rtTtyBuf ≤ rtTtyBuf := min_le_right _ _
  have hsum : min (tail + n) rtTtyBuf ≤ tail + n := min_le_left _ _
  have hsize' : min (tail + n) rtTtyBuf = tail + n ∨ min (tail + n) rtTtyBuf = rtTtyBuf := min_choice _ _
  generalize min (tail + n) rtTtyBuf = size at *
  generalize findNextBit s.readFlags size tail = eol at *
  generalize findNextBit s.readFlags (n - (size - tail)) 0 = eol' at *
  split
  · exact h
  · have hle := scanned_le hmod hsize hsum hsize' (hn.trans (by omega)) hlow hhigh hmore
    generalize (if eol = rtTtyBuf ∧ n - (size - tail) ≠ 0 then (eol', decide (eol' ≠ n - (size - tail)))
        else (eol, decide (eol ≠ size))) = p at hle ⊢
    obtain ⟨e, f⟩ := p
    dsimp only at hle ⊢
    generalize (if rtTtyBuf < subSize e tail then (subSize e tail + rtTtyBuf) % 2 ^ 64 else subSize e tail) = d at hle ⊢
    split
    · exact ⟨show s.readTail + min nr (d + f.toNat) ≤ s.canonHead by omega, hcanon,
        show s.readHead ≤ s.readTail + min nr (d + f.toNat) + 1023 by omega⟩
    · exact ⟨show s.readTail + (d + f.toNat) ≤ s.canonHead by omega, hcanon,
        show s.readHead ≤ s.readTail + (d + f.toNat) + 1023 by omega⟩

theorem Holds.readLoop (h : Holds 1023 s) {count : ℕ} (hread : ReadInside k s count) :
    Holds 1023 (s.readLoop k count).1 := by
  induction k generalizing s with
  | zero => exact h
  | succ k ih =>
    rw [NTty.readLoop]
    rcases hread with hnone | ⟨hscan, hrest⟩
    · rw [if_pos (by rw [hnone]; rfl)]
      exact h
    · have hcopy := h.canonCopy hscan
      generalize s.canonCopy count = out at hcopy hrest ⊢
      obtain ⟨s1, b⟩ := out
      dsimp only at hcopy hrest ⊢
      split
      · exact h
      split
      · exact hcopy
      · rename_i hshort
        exact ih hcopy (hrest.resolve_left hshort)

/-! ### Runs -/

/-- A buffer comes in, or a reader comes. -/
def turn (t : TtyTermios) (s : NTty) : NTtyEvent → Option NTty
  | .receive cp => some (s.receiveBuf t cp).1
  | .read nr => some (s.read nr).1

/-- A buffer may be any; the scans of a read end inside. -/
def TurnInside (s : NTty) : NTtyEvent → Prop
  | .receive _ => True
  | .read nr => ReadInside (rtTtyBuf + 1) s nr

theorem Holds.turn (h : Holds 1023 s) {e : NTtyEvent} (hok : s.TurnInside e) (he : s.turn t e = some s') : Holds 1023 s' := by
  cases e with
  | receive cp =>
    cases Option.some.inj he
    exact h.receiveLoop
  | read nr =>
    cases Option.some.inj he
    unfold NTty.read
    split
    · exact h
    · exact h.readLoop hok

/-- In all runs the buffer holds what it has place for, and a newline ends a line just when there was room for it. -/
theorem line_ready_iff (t : TtyTermios) (es : List NTtyEvent) (s : NTty) (hrun : run (turn t) opened es = some s)
    (hinside : Meets (turn t) TurnInside opened es) :
    (s.readTail ≤ s.readHead ∧ s.readHead - s.readTail ≤ rtTtyBuf) ∧
      ∀ cp, t.PlainNewline → t.Delivers cp →
        ((s.receiveBuf t cp).1.canonHead ≠ (s.receiveBuf t cp).1.readTail ↔ Fits t (cp.length + 1) s cp) := by
  have h : Holds 1023 s :=
    run_invariant_of_meets (Holds 1023) (fun _ _ _ h hok he => h.turn hok he) hrun hinside ⟨le_rfl, le_rfl, Nat.zero_le _⟩
  refine ⟨⟨h.tail.trans h.canon, ?_⟩, ?_⟩
  · have hfits := h.fits
    have hN : rtTtyBuf = 1024 := rfl
    omega
  · intro cp hplain hcp
    exact receiveLoop_ready_iff hplain h hcp (Nat.le_succ _)

/-- A line is read, and the next one comes in two parts. -/
theorem line_ready_iff_demo :
    ∃ s, run (turn NTtySys.demoTermios) opened [.receive [97, 98, 10], .read 10, .receive [97]] = some s ∧
      s.readHead - s.readTail ≤ rtTtyBuf ∧ (s.receiveBuf NTtySys.demoTermios [98, 10]).1.canonHead ≠
        (s.receiveBuf NTtySys.demoTermios [98, 10]).1.readTail := by
  have hinside : Meets (turn NTtySys.demoTermios) TurnInside opened [.receive [97, 98, 10], .read 10, .receive [97]] := by
    refine ⟨trivial, fun s1 h1 => ⟨?_, fun _ _ => ⟨trivial, fun _ _ => trivial⟩⟩⟩
    cases Option.some.inj h1
    exact .inr ⟨⟨by decide +kernel, by decide +kernel, by decide +kernel⟩, .inl (by decide +kernel)⟩
  have hplain : NTtySys.demoTermios.PlainNewline := by
    refine ⟨by decide, by decide, by decide, by decide, by decide, by decide⟩
  have hdelivers : NTtySys.demoTermios.Delivers [98, 10] := by
    refine ⟨[98], [], rfl, ?_, by simp⟩
    intro c hc
    obtain rfl : 98 = c := Option.some.inj hc
    decide
  refine ⟨_, rfl, ?_⟩
  obtain ⟨hbound, hready⟩ := line_ready_iff NTtySys.demoTermios _ _ rfl hinside
  refine ⟨hbound.2, (hready [98, 10] hplain hdelivers).mpr ?_⟩
  exact .inr ⟨by decide +kernel, .inr (.inl (by decide +kernel))⟩

/-- A line has filled the buffer, and the newline is dropped. -/
theorem full_line_stuck :
    ¬∀ (t : TtyTermios) (es : List NTtyEvent) (s : NTty), run (turn t) opened es = some s →
      ∀ cp, t.PlainNewline → t.Delivers cp → (s.receiveBuf t cp).1.canonHead ≠ (s.receiveBuf t cp).1.readTail := by
  intro h
  have hplain : NTtySys.demoTermios.PlainNewline := by
    refine ⟨by decide, by decide, by decide, by decide, by decide, by decide⟩
  refine h NTtySys.demoTermios [.receive (List.replicate 1023 97)] _ rfl [10] hplain ⟨[], [], rfl, by simp, by simp⟩ ?_
  decide +kernel

end NTty

end RtSmart
