import Mathlib.Data.Option.Basic

namespace BytePatterns

variable {σ τ γ : Type} {r r' : σ → τ → Prop} {x : Option σ} {y : Option τ}

theorem rel_mono (h : Option.Rel r x y) (himp : ∀ s t, r s t → r' s t) : Option.Rel r' x y := by
  cases h with
  | some h => exact .some (himp _ _ h)
  | none => exact .none

theorem rel_congr (h : ∀ s t, x = some s → y = some t → (r s t ↔ r' s t)) :
    Option.Rel r x y ↔ Option.Rel r' x y := by
  refine ⟨fun hrel ↦ ?_, fun hrel ↦ ?_⟩
  · cases hrel with
    | some hst => exact .some ((h _ _ rfl rfl).1 hst)
    | none => exact .none
  · cases hrel with
    | some hst => exact .some ((h _ _ rfl rfl).2 hst)
    | none => exact .none

theorem exists_right_of_rel {s : σ} (h : Option.Rel r x y) (hx : x = some s) :
    ∃ t, y = some t ∧ r s t := by
  subst hx
  cases h with
  | some h => exact ⟨_, rfl, h⟩

theorem exists_left_of_rel {t : τ} (h : Option.Rel r x y) (hy : y = some t) :
    ∃ s, x = some s ∧ r s t := by
  subst hy
  cases h with
  | some h => exact ⟨_, rfl, h⟩

theorem rel_swap (h : Option.Rel r x y) : Option.Rel (fun t s ↦ r s t) y x := by
  cases h with
  | some h => exact .some h
  | none => exact .none

theorem rel_trans {ρ : Type} {q : τ → ρ → Prop} {z : Option ρ} (h : Option.Rel r x y)
    (h' : Option.Rel q y z) : Option.Rel (fun s u ↦ ∃ t, r s t ∧ q t u) x z := by
  cases h with
  | some h =>
    cases h' with
    | some h' => exact .some ⟨_, h, h'⟩
  | none =>
    cases h' with
    | none => exact .none

theorem eq_none_iff_of_rel (h : Option.Rel r x y) : x = none ↔ y = none := by cases h <;> simp

theorem any_eq_of_rel {p : σ → Bool} {q : τ → Bool} (h : Option.Rel (fun s t ↦ p s = q t) x y) :
    x.any p = y.any q := by
  cases h with
  | some h => exact h
  | none => rfl

theorem rel_map_left {σ' : Type} {q : σ' → τ → Prop} {f : σ → σ'}
    (h : Option.Rel (fun s t ↦ q (f s) t) x y) :
    Option.Rel q (x.map f) y := by
  cases h with
  | some h => exact .some h
  | none => exact .none

theorem rel_or {x' : Option σ} {y' : Option τ} (h : Option.Rel r x y) (h' : Option.Rel r x' y') :
    Option.Rel r (x.or x') (y.or y') := by
  cases h with
  | some h => exact .some h
  | none => exact h'

theorem rel_bind {σ' τ' : Type} {q : σ' → τ' → Prop} {f : σ → Option σ'} {g : τ → Option τ'}
    (h : Option.Rel r x y) (hf : ∀ s t, r s t → Option.Rel q (f s) (g t)) :
    Option.Rel q (x.bind f) (y.bind g) := by
  cases h with
  | some h => exact hf _ _ h
  | none => exact .none

theorem rel_foldlM {step : σ → γ → Option σ} {step' : τ → γ → Option τ}
    (hstep : ∀ s t c, r s t → Option.Rel r (step s c) (step' t c)) {s : σ} {t : τ} (h : r s t)
    (word : List γ) : Option.Rel r (word.foldlM step s) (word.foldlM step' t) := by
  induction word generalizing s t with
  | nil => exact .some h
  | cons c word ih =>
    rw [List.foldlM_cons, List.foldlM_cons]
    exact rel_bind (hstep s t c h) fun _ _ ↦ ih

end BytePatterns
