import CasperNodeProxy.Lib.Run

/-!
# Refinement between step systems

* `Simulates`: every step of one system is matched by a run of another, up to a relation between
  their states; **`Simulates.reaches`**: so is every run.
-/

namespace Run

variable {σ τ α β : Type*} {step : σ → α → Option σ} {step' : τ → β → Option τ}

/-! ## Simulations -/

/-- Every step is matched by a run. -/
def Simulates (step : σ → α → Option σ) (step' : τ → β → Option τ) (R : σ → τ → Prop) : Prop :=
  ∀ s t a s', R s t → step s a = some s' → ∃ t', Reaches step' t t' ∧ R s' t'

/-- **Every run is matched by a run.** -/
theorem Simulates.reaches {R : σ → τ → Prop} (h : Simulates step step' R) {s s' : σ} {t : τ}
    (hR : R s t) (hs : Reaches step s s') : ∃ t', Reaches step' t t' ∧ R s' t' := by
  refine hs.invariant (I := fun u => ∃ t', Reaches step' t t' ∧ R u t') ⟨t, .refl t, hR⟩ ?_
  rintro u a v ⟨t₁, ht₁, hu⟩ hv
  obtain ⟨t₂, ht₂, hR₂⟩ := h u t₁ a v hu hv
  exact ⟨t₂, ht₁.trans ht₂, hR₂⟩

theorem Reaches.single {s t : σ} {a : α} (h : step s a = some t) : Reaches step s t :=
  (Reaches.refl s).snoc h

end Run
