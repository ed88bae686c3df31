import SecureHome.Lib.Fallible

namespace Prog

variable {S : Sig} {α β : Type}

-- All operations of the program are of the given kind, and whatever their results are, the value that
-- it returns satisfies `Q`.
def Always (A : S.Op → Prop) (Q : α → Prop) : Prog S α → Prop
  | pure a => Q a
  | op o k => A o ∧ ∀ r, (k r).Always A Q

-- What the program returns if each operation has the given result.
def eval (answer : (o : S.Op) → S.Ret o) : Prog S α → α
  | pure a => a
  | op o k => (k (answer o)).eval answer

variable {A : S.Op → Prop} {answer : (o : S.Op) → S.Ret o}

namespace Always

variable {Q Q' : α → Prop} {p : Prog S α}

theorem bind {f : α → Prog S β} {Q : β → Prop} (h : p.Always A Q') (hf : ∀ a, Q' a → (f a).Always A Q) :
    (p >>= f).Always A Q := by
  induction p
  case pure a    => exact hf a h
  case op o _ hi => exact ⟨h.left, fun r => hi r (h.right r)⟩

end Always

theorem eval_bind {p : Prog S α} {f : α → Prog S β} :
    (p >>= f).eval answer = (f (p.eval answer)).eval answer := by
  induction p
  case pure      => rfl
  case op o _ hi => exact hi (answer o)

end Prog

namespace Fallible

variable {S : Sig} {χ α β : Type} {A : S.Op → Prop}

-- The program does not stop with an error either.
def Always (A : S.Op → Prop) (p : Fallible S χ α) (Q : α → Prop) : Prop :=
  p.run.Always A fun
    | .ok a    => Q a
    | .error _ => False

namespace Always

variable {Q Q' : α → Prop} {p : Fallible S χ α}

theorem pure {a : α} (h : Q a) : Always A (Pure.pure a : Fallible S χ α) Q :=
  h

theorem perform {o : S.Op} {Q : S.Ret o → Prop} (ho : A o) (h : ∀ r, Q r) :
    Always A (ExceptT.lift (Prog.perform o) : Fallible S χ (S.Ret o)) Q :=
  ⟨ho, h⟩

theorem bind {f : α → Fallible S χ β} {Q : β → Prop} (h : Always A p Q')
    (hf : ∀ a, Q' a → Always A (f a) Q) : Always A (p >>= f) Q := by
  refine Prog.Always.bind h fun r hr => ?_
  cases r
  case ok a    => exact hf a hr
  case error e => exact hr.elim

end Always

variable {answer : (o : S.Op) → S.Ret o}

-- What the program returns, or the error that it stops with, if each operation has the given result.
def eval (answer : (o : S.Op) → S.Ret o) (p : Fallible S χ α) : Except χ α :=
  p.run.eval answer

@[simp]
theorem eval_pure {a : α} : eval answer (Pure.pure a : Fallible S χ α) = .ok a :=
  rfl

@[simp]
theorem eval_perform {o : S.Op} :
    eval answer (ExceptT.lift (Prog.perform o) : Fallible S χ (S.Ret o)) = .ok (answer o) :=
  rfl

theorem eval_bind {p : Fallible S χ α} {f : α → Fallible S χ β} {a : α} (h : eval answer p = .ok a) :
    eval answer (p >>= f) = eval answer (f a) := by
  unfold eval at h
  rw [eval, ExceptT.run_bind, Prog.eval_bind, h]
  rfl

end Fallible
