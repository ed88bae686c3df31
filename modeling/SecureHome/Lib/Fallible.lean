import SecureHome.Lib.RelyGuarantee

variable {S : Sig} {τ κ ε σ ω χ ψ α β : Type}

-- A program that may stop with an error.
abbrev Fallible (S : Sig) (χ α : Type) :=
  ExceptT χ (Prog S) α

namespace Fallible

variable {A : S.Op → Prop}

-- All operations of the program are of the given kind.
def Uses (A : S.Op → Prop) (p : Fallible S χ α) : Prop :=
  p.run.Uses A

namespace Uses

theorem pure {a : α} : Uses A (Pure.pure a : Fallible S χ α) :=
  trivial

theorem throw {e : χ} : Uses A (MonadExcept.throw e : Fallible S χ α) :=
  trivial

theorem lift {q : Prog S α} (h : q.Uses A) : Uses A (ExceptT.lift q : Fallible S χ α) :=
  Prog.Uses.bind h fun _ => .pure

theorem bind {p : Fallible S χ β} {f : β → Fallible S χ α} (hp : Uses A p)
    (hf : ∀ b, Uses A (f b)) : Uses A (p >>= f) := by
  refine Prog.Uses.bind hp fun r => ?_
  cases r
  case ok b    => exact hf b
  case error e => exact .pure

theorem tryCatch {p : Fallible S χ α} {f : χ → Fallible S χ α} (hp : Uses A p)
    (hf : ∀ e, Uses A (f e)) : Uses A (MonadExcept.tryCatch p f) := by
  refine Prog.Uses.bind hp fun r => ?_
  cases r
  case ok a    => exact .pure
  case error e => exact hf e

theorem adapt {p : Fallible S χ α} {f : χ → ψ} (h : Uses A p) : Uses A (ExceptT.adapt f p) := by
  unfold Uses ExceptT.adapt
  rw [ExceptT.run_mk, map_eq_pure_bind]
  exact Prog.Uses.bind h fun _ => .pure

end Uses

end Fallible

namespace Outline

variable (O : Outline τ σ ω) (M : System S τ κ ε σ) (C : Pool.Cond S τ ε σ)

-- The program satisfies `Q` when it returns and `R` when it stops with an error.
def FallibleTriple (t : τ) (P : ω → Prop) (p : Fallible S χ α) (Q : α → ω → Prop)
    (R : χ → ω → Prop) : Prop :=
  O.Triple M C t P p.run fun
    | .ok a    => Q a
    | .error e => R e

variable {O M C} {t : τ} {P P' : ω → Prop}

-- Whatever the precondition does not fix can be named in front of the program.
theorem Triple.intro {ι : Sort*} {A : ι → ω → Prop} {p : Prog S α} {Q : α → ω → Prop}
    (h : ∀ i, O.Triple M C t (A i) p Q) : O.Triple M C t (fun w => ∃ i, A i w) p Q :=
  fun w hi ⟨i, hw⟩ => h i w hi hw

namespace FallibleTriple

variable {p : Fallible S χ α} {Q : α → ω → Prop} {R R' : χ → ω → Prop}

theorem pure {a : α} (h : ∀ w, O.inv w → P w → Q a w) :
    O.FallibleTriple M C t P (Pure.pure a : Fallible S χ α) Q R :=
  h

theorem throw {e : χ} (h : ∀ w, O.inv w → P w → R e w) :
    O.FallibleTriple M C t P (MonadExcept.throw e : Fallible S χ α) Q R :=
  h

theorem lift {q : Prog S α} (h : O.Triple M C t P q Q) :
    O.FallibleTriple M C t P (ExceptT.lift q : Fallible S χ α) Q R := by
  exact Triple.bind h fun _ => .pure fun _ _ h => h

theorem bind {q : Fallible S χ β} {f : β → Fallible S χ α} {I : β → ω → Prop}
    (h : O.FallibleTriple M C t P q I R) (hf : ∀ b, O.FallibleTriple M C t (I b) (f b) Q R) :
    O.FallibleTriple M C t P (q >>= f) Q R := by
  refine Triple.bind h fun r => ?_
  cases r
  case ok b    => exact hf b
  case error e => exact .pure fun _ _ h => h

theorem tryCatch {f : χ → Fallible S χ α} (h : O.FallibleTriple M C t P p Q R')
    (hf : ∀ e, O.FallibleTriple M C t (R' e) (f e) Q R) :
    O.FallibleTriple M C t P (MonadExcept.tryCatch p f) Q R := by
  refine Triple.bind h fun r => ?_
  cases r
  case ok a    => exact .pure fun _ _ h => h
  case error e => exact hf e

theorem adapt {f : χ → ψ} {R' : ψ → ω → Prop} (h : O.FallibleTriple M C t P p Q R)
    (hf : ∀ e w, O.inv w → R e w → R' (f e) w) :
    O.FallibleTriple M C t P (ExceptT.adapt f p) Q R' := by
  unfold FallibleTriple ExceptT.adapt
  rw [ExceptT.run_mk, map_eq_pure_bind]
  refine Triple.bind h fun r => .pure fun w hi hr => ?_
  cases r
  case ok a    => exact hr
  case error e => exact hf e w hi hr

theorem weaken {Q' : α → ω → Prop} (h : O.FallibleTriple M C t P' p Q' R')
    (hp : ∀ w, O.inv w → P w → P' w) (hq : ∀ a w, O.inv w → Q' a w → Q a w)
    (hr : ∀ e w, O.inv w → R' e w → R e w) : O.FallibleTriple M C t P p Q R := by
  refine Triple.weaken h hp fun r w hi => ?_
  cases r
  case ok a    => exact hq a w hi
  case error e => exact hr e w hi

end FallibleTriple

end Outline
