import Mathlib

/-!
# Worst case over a set of scenarios

The worst value that a quantity takes over a set of scenarios.  One rule carries
every comparison: if each scenario of a smaller set changes the quantity by at
least `δ`, then the worst case changes by at least `δ` (`worst_add_le`).
-/

namespace Sybil

variable {Ω : Type*} {S S' : Set Ω} {v v' : Ω → ℤ} {δ b : ℤ}

/-- The least value over a set of scenarios. -/
noncomputable def worst (S : Set Ω) (v : Ω → ℤ) : ℤ := sInf (v '' S)

/-- A quantity bounded from below attains at most its value in any scenario. -/
theorem worst_le {σ : Ω} (hb : ∀ σ, b ≤ v σ) (hσ : σ ∈ S) : worst S v ≤ v σ := by
  refine csInf_le ⟨b, ?_⟩ (Set.mem_image_of_mem v hσ)
  rintro _ ⟨τ, -, rfl⟩
  exact hb τ

/-- A bound on every scenario bounds the worst case. -/
theorem le_worst (hne : S.Nonempty) (h : ∀ σ ∈ S, b ≤ v σ) : b ≤ worst S v := by
  refine le_csInf (hne.image v) ?_
  rintro _ ⟨σ, hσ, rfl⟩
  exact h σ hσ

/-- **Comparison of worst cases.** -/
theorem worst_add_le (hne : S'.Nonempty) (hsub : S' ⊆ S) (hb : ∀ σ, b ≤ v σ)
    (h : ∀ σ ∈ S', v σ + δ ≤ v' σ) : worst S v + δ ≤ worst S' v' :=
  le_worst hne fun σ hσ => (add_le_add_left (worst_le hb (hsub hσ)) δ).trans (h σ hσ)

/-- A scenario that is worse than all others gives the worst case. -/
theorem worst_eq {σ : Ω} (hσ : σ ∈ S) (h : ∀ τ ∈ S, v σ ≤ v τ) : worst S v = v σ := by
  refine IsLeast.csInf_eq ⟨Set.mem_image_of_mem v hσ, ?_⟩
  rintro _ ⟨τ, hτ, rfl⟩
  exact h τ hτ

end Sybil
