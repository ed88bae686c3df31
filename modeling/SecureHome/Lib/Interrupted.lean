import SecureHome.Lib.Fallible

-- A single program whose operations are interleaved with the steps of its environment.
namespace Prog

variable {S : Sig} {σ α β χ : Type} (exec : (o : S.Op) → σ → List (S.Ret o × σ))
variable (env : σ → σ → Prop)

-- The program returns, with a result and in a state that satisfy `Q`, whatever the outcomes of its
-- operations are and whenever the environment takes a step.
inductive MustReturn (Q : α → σ → Prop) : Prog S α → σ → Prop
  | pure {a s} : Q a s → MustReturn Q (pure a) s
  | op {o k s} : ((∃ r s', (r, s') ∈ exec o s) ∨ ∃ s', env s s') →
    (∀ r s', (r, s') ∈ exec o s → MustReturn Q (k r) s') →
    (∀ s', env s s' → MustReturn Q (op o k) s') → MustReturn Q (op o k) s

-- The program can return with a result in a state.
inductive MayReturn : Prog S α → σ → α → σ → Prop
  | pure {a s} : MayReturn (pure a) s a s
  | op {o k r s s' a s''} : (r, s') ∈ exec o s → MayReturn (k r) s' a s'' →
    MayReturn (op o k) s a s''
  | env {o k s s' a s''} : env s s' → MayReturn (op o k) s' a s'' → MayReturn (op o k) s a s''

def Total (P : σ → Prop) (p : Prog S α) (Q : α → σ → Prop) : Prop :=
  ∀ s, P s → p.MustReturn exec env Q s

variable {exec env}

namespace MustReturn

variable {Q Q' : α → σ → Prop} {p : Prog S α} {s : σ}

theorem bind {f : α → Prog S β} {Q : β → σ → Prop} (h : p.MustReturn exec env Q' s)
    (hf : ∀ a s, Q' a s → (f a).MustReturn exec env Q s) : (p >>= f).MustReturn exec env Q s := by
  induction h
  case pure hq           => exact hf _ _ hq
  case op hn _ _ ho he   => exact .op hn ho he

theorem weaken (h : p.MustReturn exec env Q' s) (hq : ∀ a s, Q' a s → Q a s) :
    p.MustReturn exec env Q s := by
  induction h
  case pure h          => exact .pure (hq _ _ h)
  case op hn _ _ ho he => exact .op hn ho he

theorem of_mayReturn {a : α} {s' : σ} (h : p.MustReturn exec env Q s)
    (hm : p.MayReturn exec env s a s') : Q a s' := by
  induction hm
  case pure => cases h; assumption
  case op hr _ hi =>
    cases h
    case op ho _ => exact hi (ho _ _ hr)
  case env hs _ hi =>
    cases h
    case op he => exact hi (he _ hs)

-- A program that returns in any case does return in some way.
theorem exists_mayReturn (h : p.MustReturn exec env Q s) :
    ∃ a s', p.MayReturn exec env s a s' ∧ Q a s' := by
  induction h
  case pure hq => exact ⟨_, _, .pure, hq⟩
  case op hn _ _ ho he =>
    obtain ⟨r, s', hr⟩ | ⟨s', hs⟩ := hn
    · have ⟨a, s'', hm, hq⟩ := ho r s' hr
      exact ⟨a, s'', .op hr hm, hq⟩
    · have ⟨a, s'', hm, hq⟩ := he s' hs
      exact ⟨a, s'', .env hs hm, hq⟩

end MustReturn

theorem MayReturn.mono {env' : σ → σ → Prop} {p : Prog S α} {s s' : σ} {a : α}
    (h : p.MayReturn exec env s a s') (he : ∀ s s', env s s' → env' s s') :
    p.MayReturn exec env' s a s' := by
  induction h
  case pure         => exact .pure
  case op hr _ hi   => exact .op hr hi
  case env hs _ hi  => exact .env (he _ _ hs) hi

namespace Total

variable {P P' : σ → Prop} {Q Q' : α → σ → Prop} {p : Prog S α}

theorem pure {a : α} (h : ∀ s, P s → Q a s) : Total exec env P (Pure.pure a : Prog S α) Q :=
  fun s hs => .pure (h s hs)

-- The steps of the environment keep the precondition and come to an end, and if the operation
-- blocks, there is one to come.
theorem perform {o : S.Op} {Q : S.Ret o → σ → Prop} (m : σ → ℕ)
    (hs : ∀ s s', P s → env s s' → P s' ∧ m s' < m s)
    (hn : ∀ s, P s → (∃ r s', (r, s') ∈ exec o s) ∨ ∃ s', env s s')
    (ho : ∀ s r s', P s → (r, s') ∈ exec o s → Q r s') : Total exec env P (.perform o) Q := by
  intro s hp
  generalize he : m s = n
  induction n using Nat.strongRecOn generalizing s
  case ind n hi =>
    subst he
    apply MustReturn.op (hn s hp) fun r s' hr => .pure (ho s r s' hp hr)
    intro s' hs'
    have ⟨hp', hm⟩ := hs s s' hp hs'
    exact hi _ hm s' hp' rfl

theorem bind {f : α → Prog S β} {I : α → σ → Prop} {Q : β → σ → Prop}
    (h : Total exec env P p I) (hf : ∀ a, Total exec env (I a) (f a) Q) :
    Total exec env P (p >>= f) Q :=
  fun s hs => (h s hs).bind fun a s' hi => hf a s' hi

theorem intro {ι : Sort*} {A : ι → σ → Prop} (h : ∀ i, Total exec env (A i) p Q) :
    Total exec env (fun s => ∃ i, A i s) p Q :=
  fun s ⟨i, hs⟩ => h i s hs

end Total

variable (exec env)

-- The program returns with `Q` or stops with an error that satisfies `R`.
def FallibleTotal (P : σ → Prop) (p : Fallible S χ α) (Q : α → σ → Prop) (R : χ → σ → Prop) :
    Prop :=
  Total exec env P p.run fun
    | .ok a    => Q a
    | .error e => R e

variable {exec env}

namespace FallibleTotal

variable {P P' : σ → Prop} {Q Q' : α → σ → Prop} {R R' : χ → σ → Prop} {p : Fallible S χ α}

theorem pure {a : α} (h : ∀ s, P s → Q a s) :
    FallibleTotal exec env P (Pure.pure a : Fallible S χ α) Q R :=
  Total.pure h

theorem throw {e : χ} (h : ∀ s, P s → R e s) :
    FallibleTotal exec env P (MonadExcept.throw e : Fallible S χ α) Q R :=
  Total.pure h

theorem lift {q : Prog S α} (h : Total exec env P q Q) :
    FallibleTotal exec env P (ExceptT.lift q : Fallible S χ α) Q R :=
  Total.bind h fun _ => .pure fun _ hs => hs

theorem bind {q : Fallible S χ β} {f : β → Fallible S χ α} {I : β → σ → Prop}
    (h : FallibleTotal exec env P q I R) (hf : ∀ b, FallibleTotal exec env (I b) (f b) Q R) :
    FallibleTotal exec env P (q >>= f) Q R := by
  refine Total.bind h fun r => ?_
  cases r
  case ok b    => exact hf b
  case error e => exact .pure fun _ hs => hs

end FallibleTotal

end Prog
