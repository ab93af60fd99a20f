import Mathlib.Tactic

namespace RtSmart.Lib

variable {σ ε : Type*}

/-- The state after a list of events; `none` when one of them is not enabled. -/
def run (step : σ → ε → Option σ) : σ → List ε → Option σ
  | s, [] => some s
  | s, e :: es => (step s e).bind fun s' => run step s' es

/-- Every event of the list meets `ok` in the state it is taken from. -/
def Meets (step : σ → ε → Option σ) (ok : σ → ε → Prop) : σ → List ε → Prop
  | _, [] => True
  | s, e :: es => ok s e ∧ ∀ s', step s e = some s' → Meets step ok s' es

instance decidableMeets (step : σ → ε → Option σ) (ok : σ → ε → Prop) [∀ s e, Decidable (ok s e)] :
    ∀ s es, Decidable (Meets step ok s es)
  | _, [] => isTrue trivial
  | s, e :: es =>
    match h : step s e with
    | none => decidable_of_iff (ok s e) ⟨fun hok => ⟨hok, by simp [h]⟩, And.left⟩
    | some s' =>
      have := decidableMeets step ok s' es
      decidable_of_iff (ok s e ∧ Meets step ok s' es) (by simp [Meets, h])

variable {step : σ → ε → Option σ} {ok : σ → ε → Prop} {s t : σ} {e : ε} {es : List ε}

theorem run_cons (h : run step s (e :: es) = some t) :
    ∃ u, step s e = some u ∧ run step u es = some t := by
  simpa only [run, Option.bind_eq_some_iff] using h

theorem run_append {es' : List ε} {u : σ} (h : run step s es = some t) (h' : run step t es' = some u) :
    run step s (es ++ es') = some u := by
  induction es generalizing s with
  | nil =>
    cases h
    exact h'
  | cons e es ih =>
    obtain ⟨v, hv, hrest⟩ := run_cons h
    rw [List.cons_append, run, hv]
    exact ih hrest

theorem Meets.of_forall (h : ∀ e ∈ es, ∀ s, ok s e) : Meets step ok s es := by
  induction es generalizing s with
  | nil => trivial
  | cons e es ih => exact ⟨h e (by simp) s, fun s' _ => ih fun e' he' => h e' (by simp [he'])⟩

theorem meets_of_forall {P : ε → Prop} (h : ∀ e ∈ es, P e) : Meets step (fun _ e => P e) s es :=
  .of_forall fun e he _ => h e he

theorem Meets.and {ok' : σ → ε → Prop} (h : Meets step ok s es) (h' : Meets step ok' s es) :
    Meets step (fun s e => ok s e ∧ ok' s e) s es := by
  induction es generalizing s with
  | nil => trivial
  | cons e es ih => exact ⟨⟨h.1, h'.1⟩, fun u hu => ih (h.2 u hu) (h'.2 u hu)⟩

theorem run_invariant_of_meets (I : σ → Prop)
    (hs : ∀ s e s', I s → ok s e → step s e = some s' → I s')
    (h : run step s es = some t) (hm : Meets step ok s es) (h0 : I s) : I t := by
  induction es generalizing s with
  | nil => exact Option.some.inj h ▸ h0
  | cons e es ih =>
    obtain ⟨u, hu, ht⟩ := run_cons h
    exact ih ht (hm.2 u hu) (hs s e u h0 hm.1 hu)

theorem run_invariant (I : σ → Prop) (hs : ∀ s e s', I s → step s e = some s' → I s')
    (h : run step s es = some t) (h0 : I s) : I t := by
  induction es generalizing s with
  | nil => exact Option.some.inj h ▸ h0
  | cons e es ih =>
    obtain ⟨u, hu, ht⟩ := run_cons h
    exact ih ht (hs s e u h0 hu)

theorem run_total_of_meets (I : σ → Prop) (hs : ∀ s e, I s → ok s e → ∃ s', step s e = some s' ∧ I s')
    (hm : Meets step ok s es) (h0 : I s) : ∃ t, run step s es = some t ∧ I t := by
  induction es generalizing s with
  | nil => exact ⟨s, rfl, h0⟩
  | cons e es ih =>
    obtain ⟨u, hu, hi⟩ := hs s e h0 hm.1
    obtain ⟨t, ht, hit⟩ := ih (hm.2 u hu) hi
    refine ⟨t, ?_, hit⟩
    rw [run, hu]
    exact ht

end RtSmart.Lib
