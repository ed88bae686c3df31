import Mathlib.Data.Nat.Notation
import Mathlib.Tactic.Common

-- The atomic operations of a program, together with the type of each operation's result.
structure Sig where
  Op  : Type
  Ret : Op → Type

-- A program that performs one atomic operation after the other. Between two operations the program
-- may be interrupted.
inductive Prog (S : Sig) (α : Type)
  | pure (a : α)
  | op (o : S.Op) (k : S.Ret o → Prog S α)

namespace Prog

variable {S : Sig} {α β : Type}

def bind : Prog S α → (α → Prog S β) → Prog S β
  | pure a, f => f a
  | op o k, f => op o fun r => (k r).bind f

instance : Monad (Prog S) where
  pure := pure
  bind := bind

def perform (o : S.Op) : Prog S (S.Ret o) :=
  op o pure

@[simp]
theorem pure_def (a : α) : (pure a : Prog S α) = Pure.pure a :=
  rfl

theorem bind_pure (p : Prog S α) : p >>= Pure.pure = p := by
  induction p
  case pure => rfl
  case op o _ hi => exact congrArg (op o) (funext hi)

theorem bind_assoc {γ : Type} (p : Prog S α) (f : α → Prog S β) (g : β → Prog S γ) :
    p >>= f >>= g = p >>= fun a => f a >>= g := by
  induction p
  case pure => rfl
  case op o _ hi => exact congrArg (op o) (funext hi)

instance : LawfulMonad (Prog S) :=
  .mk' (Prog S) bind_pure (fun _ _ => rfl) bind_assoc

-- The same program in a system with other operations.
def mapOps {T : Sig} (f : S.Op → T.Op) (g : ∀ o, T.Ret (f o) → S.Ret o) : Prog S α → Prog T α
  | pure a => pure a
  | op o k => op (f o) fun r => (k (g o r)).mapOps f g

def isPure : Prog S α → Bool
  | pure _ => true
  | op ..  => false

-- All operations of the program are of the given kind.
def Uses (A : S.Op → Prop) : Prog S α → Prop
  | pure _ => True
  | op o k => A o ∧ ∀ r, (k r).Uses A

namespace Uses

variable {A B : S.Op → Prop} {p : Prog S α}

theorem pure {a : α} : (Pure.pure a : Prog S α).Uses A :=
  trivial

theorem perform {o : S.Op} (h : A o) : (Prog.perform o).Uses A :=
  ⟨h, fun _ => trivial⟩

theorem bind {f : α → Prog S β} (hp : p.Uses A) (hf : ∀ a, (f a).Uses A) : (p >>= f).Uses A := by
  induction p
  case pure a    => exact hf a
  case op o _ hi => exact ⟨hp.left, fun r => hi r (hp.right r)⟩

theorem of_forall (h : ∀ o, A o) (p : Prog S α) : p.Uses A := by
  induction p
  case pure      => trivial
  case op o _ hi => exact ⟨h o, hi⟩

theorem weaken (hp : p.Uses A) (h : ∀ o, A o → B o) : p.Uses B := by
  induction p
  case pure      => trivial
  case op o _ hi => exact ⟨h o hp.left, fun r => hi r (hp.right r)⟩

end Uses

end Prog
