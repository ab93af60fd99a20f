import RtSmart.Dfs.Path

/-!
`dfs_normalize_path` in the block that it rewrites, with its two cursors.
-/

namespace RtSmart

open Lib Lib.Path

/-- The block `fullpath` and the cursors into it, as offsets. -/
structure PathScan where
  fullpath : List Char
  src : ℕ
  dst : ℕ

inductive PathTurn where
  | next (s : PathScan)
  | done (s : PathScan)
  | null

/-- The write `p[i] = c`. As for a read, there is no result outside the block. -/
def writeAt (p : List Char) (i : ℕ) (c : Char) : Option (List Char) :=
  if i < p.length then some (p.set i c) else none

/-- The loops that leave `src` on the first character that is no slash. -/
def skipSlashes (fullpath : List Char) (src : ℕ) : Option ℕ :=
  match h : fullpath[src]? with
  | none => none
  | some c => if c = '/' then skipSlashes fullpath (src + 1) else some src
termination_by fullpath.length - src
decreasing_by
  have := (List.getElem?_eq_some_iff.mp h).1
  omega

/-- `while (dst0 < dst && dst[-1] != '/') dst--`. -/
def backUp (fullpath : List Char) : ℕ → Option ℕ
  | 0 => some 0
  | dst + 1 => fullpath[dst]?.bind fun c => if c = '/' then some (dst + 1) else backUp fullpath dst

namespace PathScan

/-- `while ((c = *src++) != '\0' && c != '/') *dst++ = c`, and the `c` it stops at. -/
def copyName (s : PathScan) : Option (PathScan × Char) :=
  match h : s.fullpath[s.src]? with
  | none => none
  | some c =>
    if c = '\x00' ∨ c = '/' then some (⟨s.fullpath, s.src + 1, s.dst⟩, c)
    else if s.dst < s.fullpath.length then copyName ⟨s.fullpath.set s.dst c, s.src + 1, s.dst + 1⟩
    else none
termination_by s.fullpath.length - s.src
decreasing_by
  have := (List.getElem?_eq_some_iff.mp h).1
  simp only [List.length_set]
  omega

def nameTurn (s : PathScan) : Option PathTurn :=
  s.copyName.bind fun (s, c) =>
    if c = '/' then
      (writeAt s.fullpath s.dst '/').bind fun p =>
        (skipSlashes p s.src).map fun src => .next ⟨p, src, s.dst + 1⟩
    else some (.done s)

/-- The label `up_one`, from the cursor `src` on. -/
def upTurn (s : PathScan) : Option PathTurn :=
  (if s.dst = 1 then s.fullpath[0]?.map (· == '/') else some false).bind fun root =>
    if root then (backUp s.fullpath s.dst).map fun dst => .next ⟨s.fullpath, s.src, dst⟩
    else match s.dst with
      | 0 => some .null
      | dst + 1 => (backUp s.fullpath dst).map fun dst => .next ⟨s.fullpath, s.src, dst⟩

/-- A turn of the loop of `dfs_normalize_path`. -/
def turn (s : PathScan) : Option PathTurn :=
  s.fullpath[s.src]?.bind fun c =>
    if c = '.' then
      s.fullpath[s.src + 1]?.bind fun c₁ =>
        if c₁ = '\x00' then nameTurn ⟨s.fullpath, s.src + 1, s.dst⟩
        else if c₁ = '/' then
          (skipSlashes s.fullpath (s.src + 2)).map fun src => .next ⟨s.fullpath, src, s.dst⟩
        else if c₁ = '.' then
          s.fullpath[s.src + 2]?.bind fun c₂ =>
            if c₂ = '\x00' then upTurn ⟨s.fullpath, s.src + 2, s.dst⟩
            else if c₂ = '/' then
              (skipSlashes s.fullpath (s.src + 3)).bind fun src => upTurn ⟨s.fullpath, src, s.dst⟩
            else s.nameTurn
        else s.nameTurn
    else s.nameTurn

/-- The loop, in at most `fuel` turns. The inner `none` is the `NULL` it returns above the root. -/
def loop : ℕ → PathScan → Option (Option PathScan)
  | 0, _ => none
  | fuel + 1, s => s.turn.bind fun
    | .next s => loop fuel s
    | .done s => some (some s)
    | .null => some none

/-- What follows the loop. -/
def finish (s : PathScan) : Option (List Char) :=
  (writeAt s.fullpath s.dst '\x00').bind fun p =>
    match s.dst with
    | 0 => none -- `*dst` is read before the block
    | dst + 1 =>
      (if dst = 0 then some p
        else p[dst]?.bind fun c => if c = '/' then writeAt p dst '\x00' else some p).bind fun p =>
      p[0]?.bind fun c =>
        if c = '\x00' then (writeAt p 0 '/').bind fun p => writeAt p 1 '\x00' else some p

end PathScan

/-- `dfs_normalize_path`, where `alloc` says whether there is memory for the block. The outer `none` is an
access outside the block. -/
def dfsNormalizePathBlock (alloc : Bool) (cwd : WorkDir) (directory : Option WorkDir) (filename : List Char) :
    Option (Option (List Char)) :=
  if alloc then
    let fullpath := joinPath (directory.getD cwd).val filename ++ ['\x00']
    (PathScan.loop fullpath.length ⟨fullpath, 0, 0⟩).bind fun
      | none => some none
      | some s => s.finish.map some
  else some none

/-- The string that a block holds. -/
def cString (p : List Char) : List Char :=
  p.takeWhile (· != '\x00')

example : (dfsNormalizePathBlock true ⟨"/a/b".toList, rfl⟩ none "../c//./d/..".toList).map (Option.map cString) =
    some (some "/a/c".toList) := by decide +kernel

namespace PathScan

variable {s : PathScan} {dst src name rest : List Char} {c : Char}

/-- The block holds `dst`, last character first, what the scan has left behind, and `src`. -/
structure Layout (s : PathScan) (dst src : List Char) : Prop where
  block : ∃ left, s.fullpath = dst.reverse ++ left ++ src ++ ['\x00'] ∧ s.src = dst.length + left.length
  dst_eq : s.dst = dst.length
  no_nul : '\x00' ∉ src

/-- The block begins with `dst` and has room for its end. -/
structure Written (s : PathScan) (dst : List Char) : Prop where
  block : ∃ c left, s.fullpath = dst.reverse ++ c :: left
  dst_eq : s.dst = dst.length

/-- The loop ends as the one on lists does. -/
def Ends : Option (Option PathScan) → Option (List Char) → Prop
  | some none, none => True
  | some (some s), some dst => s.Written dst
  | _, _ => False

theorem Layout.written (h : s.Layout dst src) : s.Written dst := by
  obtain ⟨left, hblock, -⟩ := h.block
  obtain ⟨c, l, hl⟩ := List.exists_cons_of_ne_nil (show left ++ src ++ ['\x00'] ≠ [] by simp)
  exact ⟨⟨c, l, by rw [hblock, ← hl]; simp⟩, h.dst_eq⟩

theorem Layout.read (h : s.Layout dst src) (i : ℕ) : s.fullpath[s.src + i]? = (src ++ ['\x00'])[i]? := by
  obtain ⟨left, hblock, hsrc⟩ := h.block
  rw [hblock, hsrc, List.append_assoc _ src, List.getElem?_append_right (by simp)]
  simp

theorem Layout.advance (name : List Char) (h : s.Layout dst (name ++ rest)) :
    Layout ⟨s.fullpath, s.src + name.length, s.dst⟩ dst rest := by
  obtain ⟨left, hblock, hsrc⟩ := h.block
  refine ⟨⟨left ++ name, ?_, ?_⟩, h.dst_eq, fun hc => h.no_nul (by simp [hc])⟩
  · simp [hblock]
  · simp [hsrc, Nat.add_assoc]

theorem Layout.put (h : s.Layout dst src) (hlt : s.dst < s.src) (c : Char) :
    s.dst < s.fullpath.length ∧ Layout ⟨s.fullpath.set s.dst c, s.src, s.dst + 1⟩ (c :: dst) src := by
  obtain ⟨left, hblock, hsrc⟩ := h.block
  have hdst := h.dst_eq
  cases left with
  | nil =>
    simp only [List.length_nil] at hsrc
    omega
  | cons a left =>
    refine ⟨?_, ⟨left, ?_, ?_⟩, ?_, h.no_nul⟩
    · simp only [hblock, hdst, List.length_append, List.length_reverse, List.length_cons]
      omega
    · simp [hblock, hdst, List.set_append_right]
    · simp only [hsrc, List.length_cons]
      omega
    · simp [hdst]

theorem Layout.dst_le (h : s.Layout dst src) : s.dst ≤ s.src := by
  obtain ⟨left, -, hsrc⟩ := h.block
  have hdst := h.dst_eq
  omega

theorem Layout.retreat (name : List Char) (h : s.Layout (name ++ dst) src) : Layout ⟨s.fullpath, s.src, dst.length⟩ dst src := by
  obtain ⟨left, hblock, hsrc⟩ := h.block
  refine ⟨⟨name.reverse ++ left, ?_, ?_⟩, rfl, h.no_nul⟩
  · simp [hblock]
  · simp only [hsrc, List.length_append, List.length_reverse]
    omega

theorem skipSlashes_read {fullpath : List Char} {i : ℕ} (h : fullpath[i]? = some c) :
    RtSmart.skipSlashes fullpath i = if c = '/' then RtSmart.skipSlashes fullpath (i + 1) else some i := by
  rw [RtSmart.skipSlashes]
  split
  · next h' => simp [h] at h'
  · next h' =>
    rw [h, Option.some.injEq] at h'
    rw [h']

theorem copyName_read (h : s.fullpath[s.src]? = some c) :
    s.copyName =
      if c = '\x00' ∨ c = '/' then some (⟨s.fullpath, s.src + 1, s.dst⟩, c)
      else if s.dst < s.fullpath.length then copyName ⟨s.fullpath.set s.dst c, s.src + 1, s.dst + 1⟩
      else none := by
  rw [copyName]
  split
  · next h' => simp [h] at h'
  · next h' =>
    rw [h, Option.some.injEq] at h'
    rw [h']

theorem Layout.skipSlashes (h : s.Layout dst src) :
    ∃ src', RtSmart.skipSlashes s.fullpath s.src = some src' ∧
      Layout ⟨s.fullpath, src', s.dst⟩ dst (src.dropWhile (· == '/')) := by
  induction src generalizing s with
  | nil =>
    have hread : s.fullpath[s.src]? = some '\x00' := by simpa using h.read 0
    refine ⟨s.src, ?_, h⟩
    rw [skipSlashes_read hread, if_neg (by decide)]
  | cons a src ih =>
    have hread : s.fullpath[s.src]? = some a := by simpa using h.read 0
    by_cases ha : a = '/'
    · have hnext : Layout ⟨s.fullpath, s.src + 1, s.dst⟩ dst src := Layout.advance [a] h
      obtain ⟨src', hskip, hlay⟩ := ih hnext
      refine ⟨src', ?_, ?_⟩
      · rwa [skipSlashes_read hread, if_pos ha]
      · rwa [List.dropWhile_cons_of_pos (by simpa using ha)]
    · refine ⟨s.src, ?_, ?_⟩
      · rw [skipSlashes_read hread, if_neg ha]
      · rwa [List.dropWhile_cons_of_neg (by simpa using ha)]

theorem Layout.copyName_last (h : s.Layout dst src) (hsrc : '/' ∉ src) :
    ∃ s', s.copyName = some (s', '\x00') ∧ s'.Written (src.reverse ++ dst) := by
  induction src generalizing s dst with
  | nil =>
    have hread : s.fullpath[s.src]? = some '\x00' := by simpa using h.read 0
    refine ⟨⟨s.fullpath, s.src + 1, s.dst⟩, ?_, ⟨h.written.block, h.written.dst_eq⟩⟩
    rw [copyName_read hread, if_pos (by decide)]
  | cons a src ih =>
    have hread : s.fullpath[s.src]? = some a := by simpa using h.read 0
    have hnul : a ≠ '\x00' := by
      rintro rfl
      exact h.no_nul (by simp)
    have hslash : a ≠ '/' := by
      rintro rfl
      exact hsrc (by simp)
    have hnext : Layout ⟨s.fullpath, s.src + 1, s.dst⟩ dst src := Layout.advance [a] h
    obtain ⟨hroom, hput⟩ := hnext.put (Nat.lt_succ_of_le h.dst_le) a
    obtain ⟨s', hcopy, hw⟩ := ih hput fun hc => hsrc (by simp [hc])
    refine ⟨s', ?_, by simpa using hw⟩
    rwa [copyName_read hread, if_neg (by simp [hnul, hslash]), if_pos hroom]

theorem Layout.copyName_next (h : s.Layout dst (name ++ '/' :: rest)) (hname : '/' ∉ name) :
    ∃ s', s.copyName = some (s', '/') ∧ s'.Layout (name.reverse ++ dst) rest ∧ s'.dst < s'.src := by
  induction name generalizing s dst with
  | nil =>
    have hread : s.fullpath[s.src]? = some '/' := by simpa using h.read 0
    have hnext : Layout ⟨s.fullpath, s.src + 1, s.dst⟩ dst rest := Layout.advance ['/'] h
    refine ⟨⟨s.fullpath, s.src + 1, s.dst⟩, ?_, hnext, Nat.lt_succ_of_le h.dst_le⟩
    rw [copyName_read hread, if_pos (by decide)]
  | cons a name ih =>
    have hread : s.fullpath[s.src]? = some a := by simpa using h.read 0
    have hnul : a ≠ '\x00' := by
      rintro rfl
      exact h.no_nul (by simp)
    have hslash : a ≠ '/' := by
      rintro rfl
      exact hname (by simp)
    have hnext : Layout ⟨s.fullpath, s.src + 1, s.dst⟩ dst (name ++ '/' :: rest) := Layout.advance [a] h
    obtain ⟨hroom, hput⟩ := hnext.put (Nat.lt_succ_of_le h.dst_le) a
    obtain ⟨s', hcopy, hlay, hlt⟩ := ih hput fun hc => hname (by simp [hc])
    refine ⟨s', ?_, by simpa using hlay, hlt⟩
    rwa [copyName_read hread, if_neg (by simp [hnul, hslash]), if_pos hroom]

theorem Layout.nameTurn_last (h : s.Layout dst src) (hsrc : '/' ∉ src) :
    ∃ s', s.nameTurn = some (.done s') ∧ s'.Written (src.reverse ++ dst) := by
  obtain ⟨s', hcopy, hw⟩ := h.copyName_last hsrc
  exact ⟨s', by simp [PathScan.nameTurn, hcopy], hw⟩

theorem Layout.nameTurn_next (h : s.Layout dst (name ++ '/' :: rest)) (hname : '/' ∉ name) :
    ∃ s', s.nameTurn = some (.next s') ∧
      s'.Layout ('/' :: (name.reverse ++ dst)) (rest.dropWhile (· == '/')) := by
  obtain ⟨s', hcopy, hlay, hlt⟩ := h.copyName_next hname
  obtain ⟨hroom, hput⟩ := hlay.put hlt '/'
  obtain ⟨src', hskip, hnext⟩ := hput.skipSlashes
  refine ⟨_, ?_, hnext⟩
  simp [PathScan.nameTurn, hcopy, writeAt, hroom, hskip]

theorem backUp_eq (dst left : List Char) :
    backUp (dst.reverse ++ left) dst.length = some (dst.dropWhile (· != '/')).length := by
  induction dst generalizing left with
  | nil => rfl
  | cons a dst ih =>
    have hread : ((a :: dst).reverse ++ left)[dst.length]? = some a := by
      rw [List.reverse_cons, List.append_assoc, List.getElem?_append_right (by simp)]
      simp
    rw [List.length_cons, backUp, hread, Option.bind_some]
    by_cases ha : a = '/'
    · rw [if_pos ha, List.dropWhile_cons_of_neg (by simpa using ha), List.length_cons]
    · rw [if_neg ha, List.dropWhile_cons_of_pos (by simpa using ha), List.reverse_cons, List.append_assoc]
      exact ih _

theorem Layout.backUp (name : List Char) (h : s.Layout (name ++ dst) src) :
    RtSmart.backUp s.fullpath dst.length = some (dst.dropWhile (· != '/')).length ∧
      Layout ⟨s.fullpath, s.src, (dst.dropWhile (· != '/')).length⟩ (dst.dropWhile (· != '/')) src := by
  obtain ⟨left, hblock, -⟩ := (Layout.retreat name h).block
  refine ⟨?_, ?_⟩
  · have hfull : s.fullpath = dst.reverse ++ (left ++ src ++ ['\x00']) := by simpa using hblock
    rw [hfull]
    exact backUp_eq _ _
  · apply Layout.retreat (name ++ dst.takeWhile (· != '/'))
    rwa [List.append_assoc, List.takeWhile_append_dropWhile]

theorem Layout.upTurn_none (h : s.Layout dst src) (hup : upOne dst = none) : s.upTurn = some .null := by
  cases dst with
  | nil => simp [PathScan.upTurn, h.dst_eq]
  | cons a dst =>
    rw [upOne] at hup
    split_ifs at hup

theorem Layout.upTurn_some (h : s.Layout dst src) {dst' : List Char} (hup : upOne dst = some dst') :
    ∃ s', s.upTurn = some (.next s') ∧ s'.Layout dst' src := by
  cases dst with
  | nil => cases hup
  | cons a dst =>
    have hroot : (if s.dst = 1 then s.fullpath[0]?.map (· == '/') else some false) =
        some (decide (a = '/' ∧ dst = [])) := by
      cases dst with
      | nil =>
        obtain ⟨left, hblock, -⟩ := h.block
        simp [h.dst_eq, hblock, beq_eq_decide]
      | cons b dst => simp [h.dst_eq]
    rw [upOne] at hup
    rw [PathScan.upTurn, hroot, Option.bind_some]
    split_ifs at hup with hr
    · obtain ⟨rfl, rfl⟩ := hr
      obtain ⟨hback, hlay⟩ := Layout.backUp [] h
      cases hup
      refine ⟨⟨s.fullpath, s.src, 1⟩, ?_, hlay⟩
      rw [if_pos (by simp), h.dst_eq, hback]
      rfl
    · obtain ⟨hback, hlay⟩ := Layout.backUp [a] h
      cases hup
      refine ⟨_, ?_, hlay⟩
      rw [if_neg (by simpa using hr), h.dst_eq, List.length_cons]
      simp [hback]

theorem Layout.turn_name (h : s.Layout dst src) (h1 : src ≠ ['.']) (h2 : ∀ rest, src ≠ '.' :: '/' :: rest)
    (h3 : src ≠ ['.', '.']) (h4 : ∀ rest, src ≠ '.' :: '.' :: '/' :: rest) : s.turn = s.nameTurn := by
  have hread := h.read
  have hnul := h.no_nul
  have h0 := hread 0
  rw [Nat.add_zero] at h0
  rw [turn, h0]
  cases src with
  | nil => rfl
  | cons a src =>
    by_cases ha : a = '.'
    swap
    · exact if_neg ha
    subst ha
    rw [List.cons_append, List.getElem?_cons_zero, Option.bind_some, if_pos rfl, hread 1]
    cases src with
    | nil => exact absurd rfl h1
    | cons b src =>
      have hb : b ≠ '\x00' := by
        rintro rfl
        exact hnul (by simp)
      have hb' : b ≠ '/' := by
        rintro rfl
        exact h2 src rfl
      rw [List.cons_append, List.cons_append, List.getElem?_cons_succ, List.getElem?_cons_zero, Option.bind_some,
        if_neg hb, if_neg hb']
      by_cases hdot : b = '.'
      swap
      · exact if_neg hdot
      subst hdot
      rw [if_pos rfl, hread 2]
      cases src with
      | nil => exact absurd rfl h3
      | cons c src =>
        have hc : c ≠ '\x00' := by
          rintro rfl
          exact hnul (by simp)
        have hc' : c ≠ '/' := by
          rintro rfl
          exact h4 src rfl
        simp [hc, hc']

theorem Layout.loop (h : s.Layout dst src) {fuel : ℕ} (hfuel : src.length < fuel) :
    Ends (s.loop fuel) (normalizeLoop src dst) := by
  induction src, dst using normalizeLoop.induct generalizing s fuel with
  | case1 dst =>
    obtain ⟨fuel, rfl⟩ := Nat.exists_eq_succ_of_ne_zero (Nat.ne_zero_of_lt hfuel)
    have hread := h.read
    have h0 := hread 0
    rw [Nat.add_zero] at h0
    obtain ⟨s', hturn, hw⟩ := (h.advance ['.']).nameTurn_last (by simp)
    have hs : s.turn = some (.done s') := by
      rw [turn, h0]
      simpa [hread 1] using hturn
    rw [PathScan.loop, hs, normalizeLoop]
    exact hw
  | case2 src dst ih =>
    obtain ⟨fuel, rfl⟩ := Nat.exists_eq_succ_of_ne_zero (Nat.ne_zero_of_lt hfuel)
    have hread := h.read
    have h0 := hread 0
    rw [Nat.add_zero] at h0
    obtain ⟨src', hskip, hlay⟩ := (Layout.advance ['.', '/'] h).skipSlashes
    have hs : s.turn = some (.next ⟨s.fullpath, src', s.dst⟩) := by
      rw [turn, h0]
      simpa [hread 1] using hskip
    have hlen := (List.dropWhile_suffix (l := src) (· == '/')).length_le
    simp only [List.length_cons] at hfuel
    rw [PathScan.loop, hs, normalizeLoop]
    exact ih hlay (by omega)
  | case3 dst ih =>
    obtain ⟨fuel, rfl⟩ := Nat.exists_eq_succ_of_ne_zero (Nat.ne_zero_of_lt hfuel)
    have hread := h.read
    have h0 := hread 0
    rw [Nat.add_zero] at h0
    have hlay : Layout ⟨s.fullpath, s.src + 2, s.dst⟩ dst [] := Layout.advance ['.', '.'] h
    have hs : s.turn = upTurn ⟨s.fullpath, s.src + 2, s.dst⟩ := by
      rw [turn, h0]
      simp [hread 1, hread 2]
    rw [PathScan.loop, hs, normalizeLoop]
    cases hup : upOne dst with
    | none =>
      rw [hlay.upTurn_none hup]
      trivial
    | some dst' =>
      obtain ⟨s', hturn, hnext⟩ := hlay.upTurn_some hup
      simp only [List.length_cons] at hfuel
      rw [hturn]
      exact ih dst' hnext (by simp; omega)
  | case4 src dst ih =>
    obtain ⟨fuel, rfl⟩ := Nat.exists_eq_succ_of_ne_zero (Nat.ne_zero_of_lt hfuel)
    have hread := h.read
    have h0 := hread 0
    rw [Nat.add_zero] at h0
    obtain ⟨src', hskip, hlay⟩ := (Layout.advance ['.', '.', '/'] h).skipSlashes
    have hs : s.turn = upTurn ⟨s.fullpath, src', s.dst⟩ := by
      rw [turn, h0]
      simp only [List.length_cons, List.length_nil] at hskip
      simp [hread 1, hread 2, hskip]
    have hlen := (List.dropWhile_suffix (l := src) (· == '/')).length_le
    simp only [List.length_cons] at hfuel
    rw [PathScan.loop, hs, normalizeLoop]
    cases hup : upOne dst with
    | none =>
      rw [hlay.upTurn_none hup]
      trivial
    | some dst' =>
      obtain ⟨s', hturn, hnext⟩ := hlay.upTurn_some hup
      rw [hturn]
      exact ih dst' hnext (by omega)
  | case5 src dst h1 h2 h3 h4 hrest =>
    obtain ⟨fuel, rfl⟩ := Nat.exists_eq_succ_of_ne_zero (Nat.ne_zero_of_lt hfuel)
    have hname : src.takeWhile (· != '/') = src := by
      have h := List.takeWhile_append_dropWhile (p := (· != '/')) (l := src)
      rwa [hrest, List.append_nil] at h
    obtain ⟨s', hturn, hw⟩ := h.nameTurn_last (hname ▸ not_mem_takeWhile '/' src)
    rw [PathScan.loop, h.turn_name h1 h2 h3 h4, hturn, normalizeLoop, hname]
    · split
      · exact hw
      · next h => simp [hrest] at h
    all_goals assumption
  | case6 src dst h1 h2 h3 h4 a rest hrest ih =>
    obtain ⟨fuel, rfl⟩ := Nat.exists_eq_succ_of_ne_zero (Nat.ne_zero_of_lt hfuel)
    have ha : a = '/' := by
      have h := List.head?_dropWhile_not (· != '/') src
      rw [hrest] at h
      simpa using h
    subst ha
    have hcut : src.takeWhile (· != '/') ++ '/' :: rest = src := by
      rw [← hrest]
      exact List.takeWhile_append_dropWhile
    have hlay := h
    rw [← hcut] at hlay
    obtain ⟨s', hturn, hnext⟩ := hlay.nameTurn_next (not_mem_takeWhile '/' src)
    have hlen := (List.dropWhile_suffix (l := rest) (· == '/')).length_le
    have hlen' := (List.dropWhile_suffix (l := src) (· != '/')).length_le
    rw [hrest, List.length_cons] at hlen'
    rw [PathScan.loop, h.turn_name h1 h2 h3 h4, hturn, normalizeLoop]
    · split
      · next h => simp [hrest] at h
      · next h =>
        rw [hrest, List.cons.injEq] at h
        rw [← h.2]
        exact ih hnext (by omega)
    all_goals assumption

theorem cString_append {l left : List Char} (h : '\x00' ∉ l) : cString (l ++ '\x00' :: left) = l := by
  have hl : ∀ x ∈ l, (x != '\x00') = true := by
    intro x hx
    simp only [bne_iff_ne, ne_eq]
    rintro rfl
    exact h hx
  rw [cString, List.takeWhile_append_of_pos hl]
  simp

theorem finish_check {l left : List Char} (hne : l ≠ []) (h : '\x00' ∉ l) :
    ((l ++ '\x00' :: left)[0]?.bind fun c =>
      if c = '\x00' then (writeAt (l ++ '\x00' :: left) 0 '/').bind fun p => writeAt p 1 '\x00'
      else some (l ++ '\x00' :: left)) = some (l ++ '\x00' :: left) := by
  cases l with
  | nil => exact absurd rfl hne
  | cons a l => exact if_neg fun ha => h (by simp [ha])

theorem Written.finish (h : s.Written dst) (hne : dst ≠ []) (hnul : '\x00' ∉ dst) :
    ∃ p, s.finish = some p ∧ '\x00' ∈ p ∧ cString p = normalizeEnd dst := by
  obtain ⟨b, left, hblock⟩ := h.block
  have hdst := h.dst_eq
  cases dst with
  | nil => exact absurd rfl hne
  | cons a dst =>
    have hput : writeAt s.fullpath s.dst '\x00' = some ((a :: dst).reverse ++ '\x00' :: left) := by
      rw [writeAt, if_pos (by simp [hblock, hdst]), hblock, hdst, List.set_append_right _ _ (by simp)]
      simp
    have hrev : '\x00' ∉ (a :: dst).reverse := fun hc => hnul (List.mem_reverse.mp hc)
    have hread : ((a :: dst).reverse ++ '\x00' :: left)[dst.length]? = some a := by
      rw [List.reverse_cons, List.append_assoc, List.getElem?_append_right (by simp)]
      simp
    by_cases hslash : a = '/' ∧ dst ≠ []
    · obtain ⟨rfl, hd⟩ := hslash
      have hd' : '\x00' ∉ dst.reverse := fun hc => hrev (by simp [List.mem_reverse.mp hc])
      have hcut : writeAt (('/' :: dst).reverse ++ '\x00' :: left) dst.length '\x00' =
          some (dst.reverse ++ '\x00' :: '\x00' :: left) := by
        rw [writeAt, if_pos (by simp), List.reverse_cons, List.append_assoc, List.set_append_right _ _ (by simp)]
        simp
      refine ⟨dst.reverse ++ '\x00' :: '\x00' :: left, ?_, by simp, ?_⟩
      · rw [PathScan.finish, hput, hdst, Option.bind_some]
        simp only [List.length_cons]
        rw [if_neg (by simpa using hd), hread, Option.bind_some, if_pos rfl, hcut, Option.bind_some]
        exact finish_check (by simpa using hd) hd'
      · rw [cString_append hd', normalizeEnd, if_pos ⟨rfl, hd⟩]
    · refine ⟨(a :: dst).reverse ++ '\x00' :: left, ?_, by simp, ?_⟩
      · have hkeep : (if dst.length = 0 then some ((a :: dst).reverse ++ '\x00' :: left)
            else ((a :: dst).reverse ++ '\x00' :: left)[dst.length]?.bind fun c =>
              if c = '/' then writeAt ((a :: dst).reverse ++ '\x00' :: left) dst.length '\x00'
              else some ((a :: dst).reverse ++ '\x00' :: left)) = some ((a :: dst).reverse ++ '\x00' :: left) := by
          split_ifs with h0
          · rfl
          · rw [hread, Option.bind_some, if_neg fun ha => hslash ⟨ha, by simpa using h0⟩]
        rw [PathScan.finish, hput, hdst, Option.bind_some]
        simp only [List.length_cons]
        rw [hkeep, Option.bind_some]
        exact finish_check (by simp) hrev
      · rw [cString_append hrev, normalizeEnd, if_neg hslash]

end PathScan

section rooted

variable {src dst dst' : List Char}

structure Rooted (dst : List Char) : Prop where
  root : ['/'] <:+ dst
  no_nul : '\x00' ∉ dst

theorem Rooted.ne_nil (h : Rooted dst) : dst ≠ [] := by
  rintro rfl
  simpa using h.root

theorem Rooted.upOne (h : Rooted dst) (hup : RtSmart.upOne dst = some dst') : Rooted dst' := by
  obtain ⟨l, rfl⟩ := h.root
  cases l with
  | nil =>
    cases hup
    exact h
  | cons c l =>
    rw [List.cons_append, RtSmart.upOne, if_neg (by simp), Option.some.injEq, List.dropWhile_append] at hup
    have hnul := h.no_nul
    simp only [List.cons_append, List.mem_cons, List.mem_append, not_or] at hnul
    subst hup
    split_ifs with hempty
    · exact ⟨List.suffix_rfl, by simp⟩
    · refine ⟨List.suffix_append _ _, ?_⟩
      rw [List.mem_append]
      rintro (hmem | hmem)
      · exact hnul.2.1 ((List.dropWhile_suffix _).mem hmem)
      · simp at hmem

theorem Rooted.append (h : Rooted dst) (hsrc : '\x00' ∉ src) : Rooted (src.reverse ++ dst) := by
  refine ⟨h.root.trans (List.suffix_append _ _), ?_⟩
  simp [hsrc, h.no_nul]

theorem Rooted.normalizeLoop (h : Rooted dst) (hsrc : '\x00' ∉ src)
    (hloop : RtSmart.normalizeLoop src dst = some dst') : Rooted dst' := by
  induction src, dst using normalizeLoop.induct with
  | case1 dst =>
    rw [RtSmart.normalizeLoop, Option.some.injEq] at hloop
    exact hloop ▸ h
  | case2 src dst ih =>
    rw [RtSmart.normalizeLoop] at hloop
    exact ih h (fun hc => hsrc (by simp [(List.dropWhile_suffix _).mem hc])) hloop
  | case3 dst ih =>
    rw [RtSmart.normalizeLoop, Option.bind_eq_some_iff] at hloop
    obtain ⟨d, hup, hloop⟩ := hloop
    exact ih d (h.upOne hup) (by simp) hloop
  | case4 src dst ih =>
    rw [RtSmart.normalizeLoop, Option.bind_eq_some_iff] at hloop
    obtain ⟨d, hup, hloop⟩ := hloop
    exact ih d (h.upOne hup) (fun hc => hsrc (by simp [(List.dropWhile_suffix _).mem hc])) hloop
  | case5 src dst h1 h2 h3 h4 hrest =>
    rw [RtSmart.normalizeLoop] at hloop
    · split at hloop
      · cases hloop
        exact h.append fun hc => hsrc ((List.takeWhile_prefix _).mem hc)
      · next h => simp [hrest] at h
    all_goals assumption
  | case6 src dst h1 h2 h3 h4 a rest hrest ih =>
    have htail : '\x00' ∉ rest := fun hc =>
      hsrc ((List.dropWhile_suffix _).mem (hrest ▸ List.mem_cons_of_mem a hc))
    have hhead : Rooted ((src.takeWhile (· != '/')).reverse ++ dst) :=
      h.append fun hc => hsrc ((List.takeWhile_prefix _).mem hc)
    rw [RtSmart.normalizeLoop] at hloop
    · split at hloop
      · next h => simp [hrest] at h
      · next h =>
        rw [hrest, List.cons.injEq] at h
        rw [← h.2] at hloop
        apply ih _ _ hloop
        · exact ⟨hhead.root.trans (List.suffix_cons _ _), by simp [hhead.no_nul]⟩
        · exact fun hc => htail ((List.dropWhile_suffix _).mem hc)
    all_goals assumption

end rooted

section canonical

variable {cwd : WorkDir} {directory : Option WorkDir} {filename : List Char}

theorem joinPath_no_nul {d : List Char} (hd : '\x00' ∉ d) (hf : '\x00' ∉ filename) :
    '\x00' ∉ joinPath d filename := by
  unfold joinPath
  split_ifs
  · exact hf
  · simp [hd, hf]

/-- The block that `dfs_normalize_path` returns holds the path computed on lists. -/
theorem dfsNormalizePathBlock_eq (hcwd : '\x00' ∉ cwd.val) (hdir : ∀ d ∈ directory, '\x00' ∉ d.val)
    (hf : '\x00' ∉ filename) :
    ∃ p, dfsNormalizePathBlock true cwd directory filename = some (some p) ∧ '\x00' ∈ p ∧
      some (cString p) = dfsNormalizePath (directory.getD cwd) filename := by
  have hd : '\x00' ∉ (directory.getD cwd).val := by
    cases directory with
    | none => exact hcwd
    | some d => exact hdir d rfl
  obtain ⟨rest, hrest⟩ := joinPath_head (directory.getD cwd) filename
  have hjoin := joinPath_no_nul hd hf
  have hpath := dfsNormalizePath_eq (directory.getD cwd) filename
  rw [dfsNormalizePath, Option.map_eq_some_iff] at hpath
  obtain ⟨dst, hdst, -⟩ := hpath
  have hroot : Rooted dst := by
    rw [hrest, normalizeLoop_root] at hdst
    rw [hrest, List.mem_cons, not_or] at hjoin
    have hslash : Rooted (dirs []) := ⟨List.suffix_rfl, by decide⟩
    exact hslash.normalizeLoop (fun hc => hjoin.2 ((List.dropWhile_suffix _).mem hc)) hdst
  have hlay : PathScan.Layout ⟨joinPath (directory.getD cwd).val filename ++ ['\x00'], 0, 0⟩ []
      (joinPath (directory.getD cwd).val filename) := ⟨⟨[], by simp⟩, rfl, hjoin⟩
  have hends := hlay.loop (show _ < (joinPath (directory.getD cwd).val filename ++ ['\x00']).length by simp)
  rw [hdst] at hends
  rw [dfsNormalizePath, hdst, dfsNormalizePathBlock, if_pos rfl]
  dsimp only
  generalize PathScan.loop _ _ = r at hends ⊢
  cases r with
  | none => exact hends.elim
  | some r =>
    cases r with
    | none => exact hends.elim
    | some s =>
      obtain ⟨p, hp, hend, hstr⟩ := PathScan.Written.finish hends hroot.ne_nil hroot.no_nul
      exact ⟨p, by simp [hp], hend, by simp [hstr]⟩

theorem joinPath_root (d rest : List Char) : joinPath d ('/' :: rest) = '/' :: rest :=
  if_pos rfl

theorem resolve_up_root (rest : List Char) :
    resolve '/' '.' [] ('/' :: '.' :: '.' :: '/' :: rest) = resolve '/' '.' [] ('/' :: rest) := by
  have h : resolve '/' '.' [] (['.', '.'] ++ '/' :: rest) = resolve '/' '.' (place '.' [] ['.', '.']) rest :=
    resolve_cons (by decide)
  rw [resolve_sep, resolve_sep]
  exact h

theorem dfs_normalize_path_canonical (alloc : Bool) (cwd : WorkDir) (directory : Option WorkDir)
    (filename : List Char) (hcwd : '\x00' ∉ cwd.val) (hdir : ∀ d ∈ directory, '\x00' ∉ d.val)
    (hf : '\x00' ∉ filename) :
    ∃ r, dfsNormalizePathBlock alloc cwd directory filename = some r ∧ (r = none ↔ alloc = false) ∧
      ∀ p, r = some p →
        '\x00' ∈ p ∧
        cString p = render '/' (resolve '/' '.' [] (joinPath (directory.getD cwd).val filename)) ∧
        (cString p).head? = some '/' ∧
        ((cString p).getLast? = some '/' → cString p = ['/']) ∧
        (cString p ≠ ['/'] → ∀ name ∈ ((cString p).splitOn '/').tail, Proper '/' '.' name) ∧
        (∀ rest, filename = '/' :: '.' :: '.' :: '/' :: rest → ∃ q,
          dfsNormalizePathBlock true cwd directory ('/' :: rest) = some (some q) ∧ cString q = cString p) ∧
        ∀ (cwd' : WorkDir) (directory' : Option WorkDir), '\x00' ∉ cwd'.val → (∀ d ∈ directory', '\x00' ∉ d.val) →
          ∃ q, dfsNormalizePathBlock true cwd' directory' (cString p) = some (some q) ∧ cString q = cString p := by
  cases alloc with
  | false => exact ⟨none, rfl, by simp, by simp⟩
  | true =>
    obtain ⟨p, hblock, hend, hpath⟩ := dfsNormalizePathBlock_eq hcwd hdir hf
    refine ⟨some p, hblock, by simp, ?_⟩
    rintro q ⟨⟩
    have hstr := hpath
    rw [dfsNormalizePath_eq, Option.some.injEq] at hstr
    have hproper : ∀ c ∈ resolve '/' '.' [] (joinPath (directory.getD cwd).val filename), Proper '/' '.' c :=
      proper_resolve (by simp)
    refine ⟨hend, hstr, ?_, ?_, ?_, ?_, ?_⟩
    · obtain ⟨l, hl⟩ := render_cons (resolve '/' '.' [] (joinPath (directory.getD cwd).val filename))
      rw [hstr, hl]
      rfl
    · rw [hstr]
      exact render_getLast hproper
    · rw [hstr]
      intro hne name hname
      generalize resolve '/' '.' [] _ = st at hproper hne hname
      cases st with
      | nil => exact absurd rfl hne
      | cons c st =>
        rw [render, splitOn_flatMap _ fun d hd => (hproper d (List.mem_reverse.mp hd)).no_sep] at hname
        exact hproper name (List.mem_reverse.mp hname)
    · rintro rest rfl
      obtain ⟨q, hq, -, hqpath⟩ := dfsNormalizePathBlock_eq hcwd hdir (show '\x00' ∉ '/' :: rest by simp_all)
      refine ⟨q, hq, ?_⟩
      rw [dfsNormalizePath_eq, Option.some.injEq] at hqpath
      rw [hqpath, hstr, joinPath_root, joinPath_root, resolve_up_root]
    · intro cwd' directory' hcwd' hdir'
      obtain ⟨q, hq, -, hqpath⟩ := dfsNormalizePathBlock_eq hcwd' hdir' (not_mem_takeWhile '\x00' p)
      refine ⟨q, hq, ?_⟩
      have hidem := dfsNormalizePath_idem hpath.symm (directory'.getD cwd')
      exact Option.some.inj (hqpath.trans hidem)

theorem dfs_normalize_path_canonical_dots :
    ∃ r, dfsNormalizePathBlock true ⟨['/', 'a'], rfl⟩ none ['.', '.', '/', 'b'] = some r ∧
      ∀ p, r = some p → cString p = ['/', 'b'] := by
  obtain ⟨r, hr, -, h⟩ := dfs_normalize_path_canonical true ⟨['/', 'a'], rfl⟩ none ['.', '.', '/', 'b'] (by decide)
    (by simp) (by decide)
  refine ⟨r, hr, fun p hp => (h p hp).2.1.trans ?_⟩
  decide

end canonical

end RtSmart
