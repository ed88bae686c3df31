import SecureHome.Lib.RelyGuarantee

variable {S : Sig} {τ κ ε σ ω : Type}

namespace System

open Pool

variable [DecidableEq τ] (M : System S τ κ ε σ) (powerUp : σ → σ)

-- The pools that are reached by steps that all meet the condition, when the power may be lost at any
-- point. After that all threads are idle, and the shared state is what is left of it at power-up.
inductive Survives (C : Cond S τ ε σ) (p₀ : Pool S τ σ) : Pool S τ σ → Prop
  | refl : Survives C p₀ p₀
  | step {p p' l} : Survives C p₀ p → C.Meets p l → M.step p l = some p' → Survives C p₀ p'
  | powerLoss {p} : Survives C p₀ p → Survives C p₀ (.idle (powerUp p.shared))

-- A run in which the power is lost where there is no label.
def runWithLosses (C : Cond S τ ε σ) [∀ t o s, Decidable (C.op t o s)]
    [∀ e s, Decidable (C.event e s)] (p : Pool S τ σ) :
    List (Option (Label τ κ ε)) → Option (Pool S τ σ)
  | []           => some p
  | none :: ls   => runWithLosses C (.idle (powerUp p.shared)) ls
  | some l :: ls => do
    let p ← M.run C p [l]
    runWithLosses C p ls

variable {M powerUp} {C : Cond S τ ε σ} {p p' p₀ : Pool S τ σ}

namespace Survives

theorem of_reaches (h : M.Survives powerUp C p₀ p) (hr : M.Reaches C p p') :
    M.Survives powerUp C p₀ p' := by
  induction hr
  case refl            => exact h
  case step _ hm hs hi => exact hi.step hm hs

theorem of_run [∀ t o s, Decidable (C.op t o s)] [∀ e s, Decidable (C.event e s)]
    {ls : List (Option (Label τ κ ε))} (h : M.Survives powerUp C p₀ p)
    (hr : M.runWithLosses powerUp C p ls = some p') : M.Survives powerUp C p₀ p' := by
  induction ls generalizing p
  case nil => exact Option.some.inj hr ▸ h
  case cons l _ hi =>
    cases l
    case none => exact hi h.powerLoss hr
    case some =>
      have ⟨_, hs, hr⟩ := Option.bind_eq_some_iff.mp hr
      exact hi (h.of_reaches (.of_run .refl hs)) hr

end Survives

variable (M powerUp)

-- A run that ends in a pool with the property `q` can be checked by evaluation.
theorem exists_survives_of_run (C : Cond S τ ε σ) [∀ t o s, Decidable (C.op t o s)]
    [∀ e s, Decidable (C.event e s)] (p₀ : Pool S τ σ) (q : Pool S τ σ → Bool)
    (ls : List (Option (Label τ κ ε))) (h : (M.runWithLosses powerUp C p₀ ls).any q = true) :
    ∃ p, M.Survives powerUp C p₀ p ∧ q p = true := by
  cases hr : M.runWithLosses powerUp C p₀ ls <;> rw [hr] at h
  case none   => contradiction
  case some p => exact ⟨p, .of_run .refl hr, h⟩

end System

namespace Outline

variable [DecidableEq τ] {O : Outline τ σ ω} {M : System S τ κ ε σ} {C : Pool.Cond S τ ε σ}
variable {idle : τ → ω → Prop} {powerUp : σ → σ} {p : Pool S τ σ} {w : ω}

-- A valid outline survives a loss of power if the invariant alone is enough to start again.
theorem Valid.sound_of_survives (hv : O.Valid M C idle)
    (hl : ∀ w, O.inv w → ∃ w', O.shared w' = powerUp (O.shared w) ∧ O.inv w' ∧ ∀ t, idle t w')
    (hi : O.inv w) (hw : ∀ t, idle t w) (h : M.Survives powerUp C (.idle (O.shared w)) p) :
    ∃ w', O.Sound M C idle p w' := by
  induction h
  case refl => exact ⟨w, rfl, hi, hw⟩
  case step hm hs hi =>
    have ⟨_, h⟩ := hi
    exact h.step hv hm hs
  case powerLoss hi =>
    have ⟨w₁, h⟩ := hi
    have ⟨w₂, hs, hn, hw⟩ := hl w₁ h.inv
    exact ⟨w₂, hs.trans (congrArg powerUp h.shared), hn, hw⟩

end Outline
