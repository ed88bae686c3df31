import SecureHome.Lib.Prog
import Mathlib.Tactic.Common

-- Programs over an interface that has several implementations, each with its own form of the state.
namespace Prog

variable {S : Sig} {α β σ τ : Type} {p : Prog S α} {s : σ} {t : τ}

-- The result of a program and the state behind it when each operation is a function on states.
def runOn (exec : (o : S.Op) → σ → S.Ret o × σ) : Prog S α → σ → α × σ
  | pure a, s => (a, s)
  | op o k, s => (k (exec o s).1).runOn exec (exec o s).2

-- All operations of the program are of the given kind when it runs from a state.
def UsesFrom (A : S.Op → Prop) (exec : (o : S.Op) → σ → S.Ret o × σ) : Prog S α → σ → Prop
  | pure _, _ => True
  | op o k, s => A o ∧ (k (exec o s).1).UsesFrom A exec (exec o s).2

variable {exec : (o : S.Op) → σ → S.Ret o × σ} {exec' : (o : S.Op) → τ → S.Ret o × τ} {A : S.Op → Prop}
  {R : σ → τ → Prop}

@[simp]
theorem runOn_pure {a : α} : (Pure.pure a : Prog S α).runOn exec s = (a, s) :=
  rfl

@[simp]
theorem runOn_perform {o : S.Op} : (perform o).runOn exec s = exec o s :=
  rfl

@[simp]
theorem runOn_bind {f : α → Prog S β} :
    (p >>= f).runOn exec s = (f (p.runOn exec s).1).runOn exec (p.runOn exec s).2 := by
  induction p generalizing s
  case pure      => rfl
  case op o _ hi => exact hi _

@[simp]
theorem runOn_map {f : α → β} : (f <$> p).runOn exec s = (f (p.runOn exec s).1, (p.runOn exec s).2) := by
  rw [← bind_pure_comp, runOn_bind, runOn_pure]

@[simp]
theorem usesFrom_pure {a : α} : (Pure.pure a : Prog S α).UsesFrom A exec s :=
  trivial

@[simp]
theorem usesFrom_perform {o : S.Op} : (perform o).UsesFrom A exec s ↔ A o :=
  and_iff_left trivial

@[simp]
theorem usesFrom_bind {f : α → Prog S β} : (p >>= f).UsesFrom A exec s ↔
    p.UsesFrom A exec s ∧ (f (p.runOn exec s).1).UsesFrom A exec (p.runOn exec s).2 := by
  induction p generalizing s
  case pure      => exact (and_iff_right trivial).symm
  case op o _ hi => exact (and_congr_right fun _ => hi _).trans (and_assoc ..).symm

theorem UsesFrom.of_forall (h : ∀ o, A o) : p.UsesFrom A exec s := by
  induction p generalizing s
  case pure      => trivial
  case op o _ hi => exact ⟨h o, hi _⟩

-- The operations of a kind have the same results in related states, and keep them related.
def Simulates (A : S.Op → Prop) (exec : (o : S.Op) → σ → S.Ret o × σ)
    (exec' : (o : S.Op) → τ → S.Ret o × τ) (R : σ → τ → Prop) : Prop :=
  ∀ o s t, A o → R s t → (exec o s).1 = (exec' o t).1 ∧ R (exec o s).2 (exec' o t).2

-- Whatever holds of one operation holds of all programs.
theorem Simulates.runOn (h : Simulates A exec exec' R) (hp : p.UsesFrom A exec' t) (hr : R s t) :
    (p.runOn exec s).1 = (p.runOn exec' t).1 ∧ R (p.runOn exec s).2 (p.runOn exec' t).2 := by
  induction p generalizing s t
  case pure => exact ⟨rfl, hr⟩
  case op o k hi =>
    obtain ⟨he, hr⟩ := h o s t hp.left hr
    rw [Prog.runOn, Prog.runOn, ← he]
    exact hi _ (he ▸ hp.right) hr

end Prog
