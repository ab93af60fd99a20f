import Mathlib.Tactic

/-!
Singly linked lists: nodes of type `α` with a `next` pointer each, where `none` is the null pointer.
`Linked` lists also have a pointer back in each node.
-/

namespace RtSmart.Lib

variable {α : Type*}

/-- The pointer `p` starts the list of nodes `l`. -/
def Chain (next : α → Option α) : Option α → List α → Prop
  | p, [] => p = none
  | p, a :: l => p = some a ∧ Chain next (next a) l

/-- The first `n` nodes from the pointer on. -/
def walk (next : α → Option α) : ℕ → Option α → List α
  | n + 1, some a => a :: walk next n (next a)
  | _, _ => []

variable {next next' : α → Option α} {p : Option α} {a b : α} {l : List α}

theorem Chain.walk_eq (h : Chain next p l) : walk next l.length p = l := by
  induction l generalizing p with
  | nil => rfl
  | cons a l ih =>
    obtain ⟨rfl, hl⟩ := h
    simp only [List.length_cons, walk, ih hl]

theorem Chain.walk_of_le (h : Chain next p l) {n : ℕ} (hn : l.length ≤ n) : walk next n p = l := by
  induction l generalizing p n with
  | nil =>
    rw [show p = none from h]
    cases n <;> rfl
  | cons a l ih =>
    obtain ⟨rfl, hl⟩ := h
    obtain ⟨n, rfl⟩ : ∃ m, n = m + 1 := ⟨n - 1, by simp at hn; omega⟩
    rw [walk, ih hl (by simpa using hn)]

theorem Chain.head (h : Chain next p l) : p = l.head? := by
  cases l with
  | nil => exact h
  | cons a l => exact h.1

theorem chain_some (h : Chain next (some a) l) : ∃ l', l = a :: l' ∧ Chain next (next a) l' := by
  cases l with
  | nil => simp [Chain] at h
  | cons b l =>
    obtain ⟨hb, hl⟩ := h
    obtain rfl := Option.some.inj hb
    exact ⟨l, rfl, hl⟩

theorem Chain.congr (h : Chain next p l) (hn : ∀ a ∈ l, next' a = next a) : Chain next' p l := by
  induction l generalizing p with
  | nil => exact h
  | cons a l ih =>
    refine ⟨h.1, ?_⟩
    rw [hn a (by simp)]
    exact ih h.2 fun b hb => hn b (by simp [hb])

variable {prev prev' : α → Option α} {q : Option α} {x : α} {l₁ l₂ : List α}

/-- The pointer `p` starts the nodes `l`, and the first of them points back to `q`. -/
def Linked (next prev : α → Option α) : Option α → Option α → List α → Prop
  | _, p, [] => p = none
  | q, p, a :: l => (p = some a ∧ prev a = q) ∧ Linked next prev (some a) (next a) l

theorem Linked.chain (h : Linked next prev q p l) : Chain next p l := by
  induction l generalizing q p with
  | nil => exact h
  | cons a l ih => exact ⟨h.1.1, ih h.2⟩

theorem Linked.congr (h : Linked next prev q p l) (hn : ∀ a ∈ l, next' a = next a)
    (hp : ∀ a ∈ l, prev' a = prev a) : Linked next' prev' q p l := by
  induction l generalizing q p with
  | nil => exact h
  | cons a l ih =>
    refine ⟨⟨h.1.1, ?_⟩, ?_⟩
    · rw [hp a (by simp)]
      exact h.1.2
    · rw [hn a (by simp)]
      exact ih h.2 (fun b hb => hn b (by simp [hb])) fun b hb => hp b (by simp [hb])

theorem Linked.next_eq (h : Linked next prev q p (l₁ ++ x :: l₂)) : next x = l₂.head? := by
  induction l₁ generalizing q p with
  | nil => exact h.2.chain.head
  | cons a l₁ ih => exact ih h.2

theorem Linked.prev_eq (h : Linked next prev q p (l₁ ++ x :: l₂)) : prev x = l₁.getLast?.or q := by
  induction l₁ generalizing q p with
  | nil => exact h.1.2
  | cons a l₁ ih =>
    rw [ih h.2]
    cases l₁ with
    | nil => rfl
    | cons b l₁ =>
      rw [List.getLast?_cons_cons, List.getLast?_eq_some_getLast (List.cons_ne_nil b l₁)]
      rfl

variable [DecidableEq α]

theorem Chain.update (h : Chain next p l) (ha : a ∉ l) (q : Option α) : Chain (Function.update next a q) p l := by
  apply h.congr
  intro b hb
  exact Function.update_of_ne (by rintro rfl; exact ha hb) _ _

theorem Chain.cons (h : Chain next p l) (ha : a ∉ l) : Chain (Function.update next a p) (some a) (a :: l) := by
  refine ⟨rfl, ?_⟩
  rw [Function.update_self]
  exact h.update ha p

theorem Chain.snoc (h : Chain next p (l ++ [a])) (hnd : (l ++ [a]).Nodup) (hb : b ∉ l ++ [a]) (hnb : next b = none) :
    Chain (Function.update next a (some b)) p (l ++ [a] ++ [b]) := by
  induction l generalizing p with
  | nil =>
    have hba : b ≠ a := by simpa using hb
    refine ⟨h.1, ?_⟩
    rw [Function.update_self]
    refine ⟨rfl, ?_⟩
    rw [Function.update_of_ne hba]
    exact hnb
  | cons c l ih =>
    obtain ⟨hc, hl⟩ := h
    have hca : c ≠ a := by
      rintro rfl
      simp at hnd
    refine ⟨hc, ?_⟩
    rw [Function.update_of_ne hca]
    exact ih hl (List.nodup_cons.mp hnd).2 fun hmem => hb (by simpa using .inr (by simpa using hmem))

theorem Linked.push (h : Linked next prev none p l) (hnd : l.Nodup) (hnx : next' x = p) (hpx : prev' x = none)
    (hn : ∀ a ∈ l, next' a = next a) (hp : ∀ a ∈ l, prev' a = if some a = p then some x else prev a) :
    Linked next' prev' none (some x) (x :: l) := by
  refine ⟨⟨rfl, hpx⟩, ?_⟩
  rw [hnx]
  cases l with
  | nil => exact h
  | cons a l =>
    obtain ⟨⟨rfl, -⟩, h⟩ := h
    refine ⟨⟨rfl, by rw [hp a (by simp), if_pos rfl]⟩, ?_⟩
    rw [hn a (by simp)]
    apply h.congr (fun b hb => hn b (by simp [hb]))
    intro b hb
    have hba : b ≠ a := by
      rintro rfl
      exact (List.nodup_cons.mp hnd).1 hb
    rw [hp b (by simp [hb]), if_neg (by simpa using hba)]

theorem Linked.unlink (h : Linked next prev q p (l₁ ++ x :: l₂)) (hnd : (l₁ ++ x :: l₂).Nodup)
    (hq : ∀ a ∈ l₁ ++ x :: l₂, q ≠ some a) (hn : ∀ a ∈ l₁ ++ l₂, next' a = if some a = prev x then next x else next a)
    (hp : ∀ a ∈ l₁ ++ l₂, prev' a = if some a = next x then prev x else prev a) :
    Linked next' prev' q (if l₁ = [] then next x else p) (l₁ ++ l₂) := by
  have hnext := h.next_eq
  induction l₁ generalizing q p with
  | nil =>
    simp only [List.nil_append, if_pos] at *
    obtain ⟨⟨rfl, rfl⟩, h⟩ := h
    cases l₂ with
    | nil => exact h
    | cons r l =>
      obtain ⟨⟨hr, -⟩, h⟩ := h
      simp only [List.mem_cons, forall_eq_or_imp, List.nodup_cons] at hq hn hp hnd
      refine ⟨⟨hr, by rw [hp.1, if_pos hr.symm]⟩, ?_⟩
      rw [hn.1, if_neg (Ne.symm hq.2.1)]
      apply h.congr
      · intro a ha
        rw [hn.2 a ha, if_neg (Ne.symm (hq.2.2 a ha))]
      · intro a ha
        have har : some a ≠ next x := by
          rw [hr]
          rintro ⟨⟩
          exact hnd.2.1 ha
        rw [hp.2 a ha, if_neg har]
  | cons a l₁ ih =>
    obtain ⟨⟨rfl, hpa⟩, h⟩ := h
    simp only [List.cons_append, List.nodup_cons, List.mem_cons, forall_eq_or_imp] at hnd hn hp hq
    have hax : ∀ b ∈ l₁ ++ x :: l₂, a ≠ b := fun b hb hab => hnd.1 (hab ▸ hb)
    rw [if_neg (List.cons_ne_nil _ _)]
    refine ⟨⟨rfl, ?_⟩, ?_⟩
    · have han : some a ≠ next x := by
        rw [hnext]
        intro hh
        exact hax a (by simp [List.mem_of_head? hh.symm]) rfl
      rw [hp.1, if_neg han, hpa]
    · have ht := ih h hnd.2 (fun b hb hab => hax b hb (Option.some.inj hab)) hn.2 hp.2
      -- the pointer of `a` changes only when `x` comes right after it
      have hna : next' a = if l₁ = [] then next x else next a := by
        rw [hn.1, h.prev_eq]
        cases l₁ with
        | nil => simp
        | cons b l₁ =>
          rw [List.getLast?_eq_some_getLast (List.cons_ne_nil b l₁), if_neg (List.cons_ne_nil b l₁)]
          apply if_neg
          rintro ⟨⟩
          exact hax _ (List.mem_append_left _ (List.getLast_mem (List.cons_ne_nil b l₁))) rfl
      rw [hna]
      exact ht

end RtSmart.Lib
