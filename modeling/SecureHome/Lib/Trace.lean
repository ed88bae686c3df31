-- The labels of the steps that lead from one state to another.
inductive Trace {ℓ σ : Type} (step : ℓ → σ → σ → Prop) (s : σ) : List ℓ → σ → Prop
  | nil : Trace step s [] s
  | snoc {ls s₁ l s₂} : Trace step s ls s₁ → step l s₁ s₂ → Trace step s (ls ++ [l]) s₂

namespace Trace

variable {ℓ σ : Type} {step step' : ℓ → σ → σ → Prop} {s s₁ s₂ : σ} {l : ℓ} {ls ls' : List ℓ}

-- What holds initially and is preserved by each step holds at the end of a trace.
theorem invariant (inv : List ℓ → σ → Prop) (h : Trace step s ls s₁) (hi : inv [] s)
    (hs : ∀ ls l s₁ s₂, inv ls s₁ → step l s₁ s₂ → inv (ls ++ [l]) s₂) : inv ls s₁ := by
  induction h
  case nil             => exact hi
  case snoc _ h₂ hi => exact hs _ _ _ _ hi h₂

theorem single (h : step l s s₁) : Trace step s [l] s₁ :=
  .snoc .nil h

theorem append (h₁ : Trace step s ls s₁) (h₂ : Trace step s₁ ls' s₂) :
    Trace step s (ls ++ ls') s₂ := by
  induction h₂
  case nil            => simpa using h₁
  case snoc _ hs hi => simpa using hi.snoc hs

end Trace
