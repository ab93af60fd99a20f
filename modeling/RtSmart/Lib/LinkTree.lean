import Mathlib.Data.List.Nodup
import Mathlib.Tactic

/-!
Trees given by the list of children of each node. A chain of links is written as the list of the nodes
below its first one.
-/

namespace RtSmart.Lib

variable {α : Type*}

inductive Down (sub : α → List α) (a : α) : List α → α → Prop
  | nil : Down sub a [] a
  | snoc {l : List α} {b c : α} : Down sub a l b → c ∈ sub b → Down sub a (l ++ [c]) c

/-- The links form a tree with the nodes `live` below `root`. -/
structure LinkTree (sub : α → List α) (root : α) (live : Set α) : Prop where
  rooted : root ∈ live
  free : ∀ a, root ∉ sub a
  parent : ∀ a b c, c ∈ sub a → c ∈ sub b → a = b
  nodup : ∀ a, (sub a).Nodup
  closed : ∀ a, ∀ b ∈ sub a, a ∈ live ∧ b ∈ live
  reach : ∀ n ∈ live, ∃ l, Down sub root l n

variable {sub : α → List α} {a b c d n p root : α} {l m : List α} {live : Set α}

theorem Down.trans (h : Down sub a l b) (h' : Down sub b m c) : Down sub a (l ++ m) c := by
  induction h' with
  | nil => simpa using h
  | snoc _ hc ih =>
    rw [← List.append_assoc]
    exact ih.snoc hc

namespace LinkTree

theorem unique (h : LinkTree sub root live) (hl : Down sub root l n) (hm : Down sub root m n) : l = m := by
  induction hl generalizing m with
  | nil =>
    cases hm with
    | nil => rfl
    | snoc _ hc => exact absurd hc (h.free _)
  | snoc _ hc ih =>
    cases hm with
    | nil => exact absurd hc (h.free _)
    | snoc hm hc' =>
      cases h.parent _ _ _ hc hc'
      rw [ih hm]

theorem reach_unique (h : LinkTree sub root live) (hn : n ∈ live) : ∃! l, Down sub root l n := by
  obtain ⟨l, hl⟩ := h.reach n hn
  exact ⟨l, hl, fun m hm => h.unique hm hl⟩

theorem acyclic (h : LinkTree sub root live) (hl : Down sub n l n) : l = [] := by
  cases hl with
  | nil => rfl
  | snoc hl hc =>
    obtain ⟨m, hm⟩ := h.reach n (h.closed _ _ hc).2
    have hloop := h.unique hm (hm.trans (hl.snoc hc))
    exact List.self_eq_append_right.mp hloop

theorem leaf_of_not_live (h : LinkTree sub root live) (ha : a ∉ live) : sub a = [] := by
  apply List.eq_nil_iff_forall_not_mem.mpr
  intro b hb
  exact ha (h.closed a b hb).1

variable [DecidableEq α]

/-- `d` is taken out of the list that it is in. -/
def unlink (sub : α → List α) (d : α) : α → List α := fun a => (sub a).erase d

/-- `d` becomes the first child of `p`. -/
def link (sub : α → List α) (p d : α) : α → List α := Function.update sub p (d :: sub p)

theorem mem_unlink (h : LinkTree sub root live) : b ∈ unlink sub d a ↔ b ≠ d ∧ b ∈ sub a := (h.nodup a).mem_erase_iff

theorem mem_link : b ∈ link sub p d a ↔ (a = p ∧ b = d) ∨ b ∈ sub a := by
  by_cases ha : a = p
  · subst ha
    simp [link]
  · simp [link, ha]

theorem remove (h : LinkTree sub root live) (hd : d ≠ root) (hleaf : sub d = []) :
    LinkTree (unlink sub d) root (live \ {d}) where
  rooted := ⟨h.rooted, fun hr => hd (Set.mem_singleton_iff.mp hr).symm⟩
  free a ha := h.free a (h.mem_unlink.mp ha).2
  parent a b c hc hc' := h.parent a b c (h.mem_unlink.mp hc).2 (h.mem_unlink.mp hc').2
  nodup a := (h.nodup a).erase d
  closed a b hb := by
    obtain ⟨hbd, hba⟩ := h.mem_unlink.mp hb
    have had : a ≠ d := by
      rintro rfl
      rw [hleaf] at hba
      cases hba
    exact ⟨⟨(h.closed a b hba).1, had⟩, (h.closed a b hba).2, hbd⟩
  reach n hn := by
    obtain ⟨l, hl⟩ := h.reach n hn.1
    have hkeep : n ≠ d → Down (unlink sub d) root l n := by
      clear hn
      induction hl with
      | nil => exact fun _ => .nil
      | @snoc _ b c _ hc ih =>
        intro hcd
        have hbd : b ≠ d := by
          rintro rfl
          rw [hleaf] at hc
          cases hc
        exact (ih hbd).snoc (h.mem_unlink.mpr ⟨hcd, hc⟩)
    exact ⟨l, hkeep hn.2⟩

theorem insert (h : LinkTree sub root live) (hp : p ∈ live) (hd : d ∉ live) : LinkTree (link sub p d) root (Insert.insert d live) where
  rooted := .inr h.rooted
  free a ha := by
    cases mem_link.mp ha with
    | inl ha => exact hd (ha.2 ▸ h.rooted)
    | inr ha => exact h.free a ha
  parent a b c hc hc' := by
    cases mem_link.mp hc with
    | inl hc =>
      cases mem_link.mp hc' with
      | inl hc' => rw [hc.1, hc'.1]
      | inr hc' => exact absurd (hc.2 ▸ (h.closed b c hc').2) hd
    | inr hc =>
      cases mem_link.mp hc' with
      | inl hc' => exact absurd (hc'.2 ▸ (h.closed a c hc).2) hd
      | inr hc' => exact h.parent a b c hc hc'
  nodup a := by
    by_cases ha : a = p
    · subst ha
      rw [link, Function.update_self]
      exact List.nodup_cons.mpr ⟨fun hda => hd (h.closed a d hda).2, h.nodup a⟩
    · rw [link, Function.update_of_ne ha]
      exact h.nodup a
  closed a b hb := by
    cases mem_link.mp hb with
    | inl hb => exact ⟨.inr (hb.1 ▸ hp), .inl hb.2⟩
    | inr hb => exact ⟨.inr (h.closed a b hb).1, .inr (h.closed a b hb).2⟩
  reach n hn := by
    have hkeep : ∀ {l n}, Down sub root l n → Down (link sub p d) root l n := by
      intro l n hl
      induction hl with
      | nil => exact .nil
      | snoc _ hc ih => exact ih.snoc (mem_link.mpr (.inr hc))
    cases hn with
    | inl hn =>
      obtain ⟨l, hl⟩ := h.reach p hp
      exact ⟨l ++ [n], (hkeep hl).snoc (mem_link.mpr (.inl ⟨rfl, hn⟩))⟩
    | inr hn =>
      obtain ⟨l, hl⟩ := h.reach n hn
      exact ⟨l, hkeep hl⟩

theorem move (h : LinkTree sub root live) (hp : p ∈ live) (hd : d ∈ live) (hdp : ∀ l, ¬Down sub d l p) :
    LinkTree (link (unlink sub d) p d) root live where
  rooted := h.rooted
  free a ha := by
    cases mem_link.mp ha with
    | inl ha =>
      obtain ⟨l, hl⟩ := h.reach p hp
      exact hdp l (ha.2 ▸ hl)
    | inr ha => exact h.free a (h.mem_unlink.mp ha).2
  parent a b c hc hc' := by
    cases mem_link.mp hc with
    | inl hc =>
      cases mem_link.mp hc' with
      | inl hc' => rw [hc.1, hc'.1]
      | inr hc' => exact absurd hc.2 (h.mem_unlink.mp hc').1
    | inr hc =>
      cases mem_link.mp hc' with
      | inl hc' => exact absurd hc'.2 (h.mem_unlink.mp hc).1
      | inr hc' => exact h.parent a b c (h.mem_unlink.mp hc).2 (h.mem_unlink.mp hc').2
  nodup a := by
    by_cases ha : a = p
    · subst ha
      rw [link, Function.update_self]
      exact List.nodup_cons.mpr ⟨fun hda => (h.mem_unlink.mp hda).1 rfl, (h.nodup a).erase d⟩
    · rw [link, Function.update_of_ne ha]
      exact (h.nodup a).erase d
  closed a b hb := by
    cases mem_link.mp hb with
    | inl hb => exact ⟨hb.1 ▸ hp, hb.2 ▸ hd⟩
    | inr hb => exact h.closed a b (h.mem_unlink.mp hb).2
  reach n hn := by
    have hout : ∀ {l n}, Down sub root l n → (∀ m, ¬Down sub d m n) → Down (link (unlink sub d) p d) root l n := by
      intro l n hl
      induction hl with
      | nil => exact fun _ => .nil
      | snoc _ hc ih =>
        intro hbelow
        apply (ih fun m hm => hbelow _ (hm.snoc hc)).snoc
        apply mem_link.mpr
        exact .inr (h.mem_unlink.mpr ⟨fun hcd => hbelow [] (hcd ▸ .nil), hc⟩)
    have hin : ∀ {l n}, Down sub d l n → Down (link (unlink sub d) p d) d l n := by
      intro l n hl
      induction hl with
      | nil => exact .nil
      | snoc hb hc ih =>
        apply ih.snoc
        apply mem_link.mpr
        refine .inr (h.mem_unlink.mpr ⟨?_, hc⟩)
        rintro rfl
        have hloop := h.acyclic (hb.snoc hc)
        simp at hloop
    by_cases hbelow : ∃ m, Down sub d m n
    · obtain ⟨m, hm⟩ := hbelow
      obtain ⟨l, hl⟩ := h.reach p hp
      have hlast := (hout hl hdp).snoc (mem_link.mpr (.inl ⟨rfl, rfl⟩))
      exact ⟨_, hlast.trans (hin hm)⟩
    · push Not at hbelow
      obtain ⟨l, hl⟩ := h.reach n hn
      exact ⟨l, hout hl hbelow⟩

end LinkTree

end RtSmart.Lib
