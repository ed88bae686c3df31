import Mathlib.Logic.Function.Basic
import Mathlib.Logic.Relation
import SecureHome.Lib.Prog

open Relation

-- A pool of threads that share a state. A thread serves one call after the other.
structure System (S : Sig) (τ κ ε σ : Type) where
  -- The program of a call, unless the thread never makes that call.
  calls : τ → κ → Option (Prog S Unit)
  -- The possible outcomes of an operation. A thread is blocked while there are none.
  exec  : τ → (o : S.Op) → σ → List (S.Ret o × σ)
  -- The effect of an event from outside of the threads, such as an interrupt.
  event : ε → σ → Option σ

structure Pool (S : Sig) (τ σ : Type) where
  threads : τ → Prog S Unit
  shared  : σ

inductive Pool.Label (τ κ ε : Type)
  | call (t : τ) (c : κ)
  -- The thread performs its next operation, with the outcome at the given index.
  | op (t : τ) (i : ℕ)
  | event (e : ε)

-- A condition on the steps of a system, in terms of the shared state before the step.
structure Pool.Cond (S : Sig) (τ ε σ : Type) where
  op    : τ → S.Op → σ → Prop
  event : ε → σ → Prop

variable {S : Sig} {τ κ ε σ : Type}

namespace Pool

def idle (s : σ) : Pool S τ σ where
  threads _ := .pure ()
  shared    := s

def Cond.any : Cond S τ ε σ where
  op _ _ _  := True
  event _ _ := True

-- The next operation of a program meets the condition.
@[simp]
def Cond.Next (C : Cond S τ ε σ) (t : τ) (s : σ) : Prog S Unit → Prop
  | .pure _ => True
  | .op o _ => C.op t o s

@[simp]
def Cond.Meets (C : Cond S τ ε σ) (p : Pool S τ σ) : Label τ κ ε → Prop
  | .call ..  => True
  | .op t _   => C.Next t p.shared (p.threads t)
  | .event e  => C.event e p.shared

instance {C : Cond S τ ε σ} [∀ t o s, Decidable (C.op t o s)] (t : τ) (s : σ) :
    (q : Prog S Unit) → Decidable (C.Next t s q)
  | .pure _ => inferInstanceAs (Decidable True)
  | .op o _ => inferInstanceAs (Decidable (C.op t o s))

instance {C : Cond S τ ε σ} [∀ t o s, Decidable (C.op t o s)] [∀ e s, Decidable (C.event e s)]
    (p : Pool S τ σ) : (l : Label τ κ ε) → Decidable (C.Meets p l)
  | .call ..  => inferInstanceAs (Decidable True)
  | .op t _   => inferInstanceAs (Decidable (C.Next t p.shared (p.threads t)))
  | .event e  => inferInstanceAs (Decidable (C.event e p.shared))

instance (t : τ) (o : S.Op) (s : σ) : Decidable ((Cond.any (ε := ε)).op t o s) :=
  inferInstanceAs (Decidable True)

instance (e : ε) (s : σ) : Decidable ((Cond.any (S := S) (τ := τ)).event e s) :=
  inferInstanceAs (Decidable True)

end Pool

namespace System

open Pool

variable [DecidableEq τ] (M : System S τ κ ε σ)

def step (p : Pool S τ σ) : Label τ κ ε → Option (Pool S τ σ)
  | .call t c =>
    match p.threads t with
    | .pure _ => do return { p with threads := Function.update p.threads t (← M.calls t c) }
    | .op ..  => none
  | .op t i =>
    match p.threads t with
    | .pure _ => none
    | .op o k => do
      let (r, s) ← (M.exec t o p.shared)[i]?
      return { threads := Function.update p.threads t (k r), shared := s }
  | .event e => do return { p with shared := ← M.event e p.shared }

-- A run whose steps all meet the condition.
def run (C : Cond S τ ε σ) [∀ t o s, Decidable (C.op t o s)] [∀ e s, Decidable (C.event e s)]
    (p : Pool S τ σ) (ls : List (Label τ κ ε)) : Option (Pool S τ σ) :=
  ls.foldlM (fun p l => if C.Meets p l then M.step p l else none) p

-- The pools that are reached by steps that all meet the condition.
inductive Reaches (C : Cond S τ ε σ) (p₀ : Pool S τ σ) : Pool S τ σ → Prop
  | refl : Reaches C p₀ p₀
  | step {p p' l} : Reaches C p₀ p → C.Meets p l → M.step p l = some p' → Reaches C p₀ p'

-- All that can happen in a step.
inductive Steps (p : Pool S τ σ) : Label τ κ ε → Pool S τ σ → Prop
  | call {t c q} (ht : p.threads t = .pure ()) (hq : M.calls t c = some q) :
    Steps p (.call t c) { p with threads := Function.update p.threads t q }
  | op {t o k r s} (i : ℕ) (ht : p.threads t = .op o k) (hm : (r, s) ∈ M.exec t o p.shared) :
    Steps p (.op t i) { threads := Function.update p.threads t (k r), shared := s }
  | event {e s} (he : M.event e p.shared = some s) : Steps p (.event e) { p with shared := s }

-- A thread on its own can get to where `P` holds.
inductive Attains (t : τ) (P : Prog S Unit → σ → Prop) : Prog S Unit → σ → Prop
  | here {q s} : P q s → Attains t P q s
  | step {o k s r s'} : (r, s') ∈ M.exec t o s → Attains t P (k r) s' → Attains t P (.op o k) s

variable {M} {C : Cond S τ ε σ} {p p' p₀ : Pool S τ σ} {t : τ}

theorem steps_of_step {l : Label τ κ ε} (h : M.step p l = some p') : M.Steps p l p' := by
  cases l <;> simp only [step] at h
  case call t c =>
    split at h
    case h_2 => contradiction
    case h_1 ht =>
      have ⟨q, hq, h⟩ := Option.bind_eq_some_iff.mp h
      cases h
      exact .call ht hq
  case op t i =>
    split at h
    case h_1 => contradiction
    case h_2 o k ht =>
      have ⟨⟨r, s⟩, hm, h⟩ := Option.bind_eq_some_iff.mp h
      cases h
      exact .op i ht (List.mem_of_getElem? hm)
  case event e =>
    have ⟨s, he, h⟩ := Option.bind_eq_some_iff.mp h
    cases h
    exact .event he

theorem exists_step_op {o : S.Op} {k : S.Ret o → Prog S Unit} {r : S.Ret o} {s : σ}
    (ht : p.threads t = .op o k) (hm : (r, s) ∈ M.exec t o p.shared) :
    ∃ i, M.step p (.op t i) =
      some { threads := Function.update p.threads t (k r), shared := s } := by
  have ⟨i, hi⟩ := List.getElem?_of_mem hm
  refine ⟨i, ?_⟩
  simp only [step, ht, hi]
  rfl

theorem step_event {e : ε} {s : σ} (he : M.event e p.shared = some s) :
    M.step p (.event e) = some { p with shared := s } := by
  simp only [step, he]
  rfl

-- A step changes a thread only if it is one of its own.
theorem Steps.threads {l : Label τ κ ε} (h : M.Steps p l p') (t : τ) :
    p'.threads t = p.threads t ∨ (∃ c q, M.calls t c = some q ∧ p'.threads t = q) ∨
      ∃ o k r, p.threads t = .op o k ∧ p'.threads t = k r := by
  cases h
  case event => exact .inl rfl
  case call u c q ht hq =>
    by_cases hn : t = u
    case pos => subst hn; exact .inr (.inl ⟨c, q, hq, Function.update_self ..⟩)
    case neg => exact .inl (Function.update_of_ne hn ..)
  case op u o k r s i ht hm =>
    by_cases hn : t = u
    case pos => subst hn; exact .inr (.inr ⟨o, k, r, ht, Function.update_self ..⟩)
    case neg => exact .inl (Function.update_of_ne hn ..)

namespace Reaches

theorem trans (h : M.Reaches C p₀ p) (h' : M.Reaches C p p') : M.Reaches C p₀ p' := by
  induction h'
  case refl          => exact h
  case step hm hs hi => exact hi.step hm hs

theorem mono {C' : Cond S τ ε σ} (h : M.Reaches C p₀ p)
    (hm : ∀ p (l : Label τ κ ε), M.Reaches C p₀ p → C.Meets p l → C'.Meets p l) :
    M.Reaches C' p₀ p := by
  induction h
  case refl            => exact .refl
  case step hr hc hs hi => exact hi.step (hm _ _ hr hc) hs

theorem of_run [∀ t o s, Decidable (C.op t o s)] [∀ e s, Decidable (C.event e s)]
    {ls : List (Label τ κ ε)} (h : M.Reaches C p₀ p) (hr : M.run C p ls = some p') :
    M.Reaches C p₀ p' := by
  induction ls generalizing p
  case nil => exact Option.some.inj hr ▸ h
  case cons l _ hi =>
    have ⟨_, hs, hr⟩ := Option.bind_eq_some_iff.mp hr
    dsimp only at hs
    split at hs
    case isFalse   => contradiction
    case isTrue hc => exact hi (.step h hc hs) hr

theorem call {c : κ} {q : Prog S Unit} (ht : p.threads t = .pure ()) (hq : M.calls t c = some q) :
    M.Reaches C p { p with threads := Function.update p.threads t q } := by
  refine .step (l := .call t c) .refl trivial ?_
  simp only [System.step, ht, hq]
  rfl

theorem op {o : S.Op} {k : S.Ret o → Prog S Unit} {r : S.Ret o} {s : σ}
    (ht : p.threads t = .op o k) (hc : C.op t o p.shared) (hm : (r, s) ∈ M.exec t o p.shared) :
    M.Reaches C p { threads := Function.update p.threads t (k r), shared := s } := by
  have ⟨i, hs⟩ := exists_step_op ht hm
  refine .step (l := .op t i) .refl ?_ hs
  simp only [Cond.Meets, Cond.Next, ht, hc]

theorem event {e : ε} {s : σ} (hc : C.event e p.shared) (he : M.event e p.shared = some s) :
    M.Reaches C p { p with shared := s } :=
  .step (l := .event e) .refl hc (step_event he)

theorem attains {P : Prog S Unit → σ → Prop} (hc : ∀ o s, C.op t o s)
    (h : M.Attains t P (p.threads t) p.shared) :
    ∃ p', M.Reaches C p p' ∧ P (p'.threads t) p'.shared := by
  generalize hq : p.threads t = q, hs : p.shared = s at h
  induction h generalizing p
  case here hp =>
    subst hq hs
    exact ⟨p, .refl, hp⟩
  case step hm _ hi =>
    subst hs
    have ⟨p', hr, hp⟩ := hi (p := { threads := Function.update p.threads t _, shared := _ })
      (Function.update_self ..) rfl
    exact ⟨p', (op hq (hc _ _) hm).trans hr, hp⟩

theorem call_attains {c : κ} {q : Prog S Unit} {P : Prog S Unit → σ → Prop}
    (ht : p.threads t = .pure ()) (hq : M.calls t c = some q) (hc : ∀ o s, C.op t o s)
    (h : M.Attains t P q p.shared) : ∃ p', M.Reaches C p p' ∧ P (p'.threads t) p'.shared := by
  have ha : M.Attains t P (Function.update p.threads t q t) p.shared := by
    rwa [Function.update_self]
  have ⟨p', hr, hp⟩ := attains (p := { p with threads := Function.update p.threads t q }) hc ha
  exact ⟨p', (call ht hq).trans hr, hp⟩

-- A thread on its own finishes a program whose operations do not block.
theorem finish {α : Type} {A : S.Op → Prop} {P : σ → Prop} {q : Prog S α} {k : α → Prog S Unit}
    (ht : p.threads t = q >>= k) (hq : q.Uses A) (hp : P p.shared)
    (hc : ∀ o s, A o → C.op t o s) (hn : ∀ o s, A o → ∃ r s', (r, s') ∈ M.exec t o s)
    (ha : ∀ o s r s', A o → P s → (r, s') ∈ M.exec t o s → P s') :
    ∃ p' a, M.Reaches C p p' ∧ p'.threads t = k a ∧ P p'.shared := by
  induction q generalizing p
  case pure a => exact ⟨p, a, .refl, ht, hp⟩
  case op o k' hi =>
    have hp' := ht
    have ⟨r, s', hm⟩ := hn o p.shared hq.left
    have ⟨p', a, hr, ht, hp⟩ := hi r (p := { threads := Function.update p.threads t _, shared := s' })
      (Function.update_self ..) (hq.right r) (ha o _ r s' hq.left hp hm)
    exact ⟨p', a, (op (k := fun r => k' r >>= k) hp' (hc o _ hq.left) hm).trans hr, ht, hp⟩

-- The remaining program of a thread has what the programs of its calls have.
theorem program {A : Prog S Unit → Prop} {s : σ} (h : M.Reaches C (.idle s) p) (hp : A (.pure ()))
    (hk : ∀ o k r, A (.op o k) → A (k r)) (hc : ∀ c q, M.calls t c = some q → A q) :
    A (p.threads t) := by
  induction h
  case refl => exact hp
  case step hs hi =>
    rcases (steps_of_step hs).threads t with h | ⟨c, q, hq, h⟩ | ⟨o, k, r, ht, h⟩ <;> rw [h]
    · exact hi
    · exact hc c q hq
    · exact hk o k r (ht ▸ hi)

theorem uses {A : S.Op → Prop} {s : σ} (h : M.Reaches C (.idle s) p)
    (hu : ∀ c q, M.calls t c = some q → q.Uses A) : (p.threads t).Uses A :=
  h.program (A := fun q => q.Uses A) trivial (fun _ _ r hq => hq.right r) hu

-- What the events and the operations of the threads preserve holds in all states.
theorem invariant {A : τ → S.Op → Prop} {P : σ → Prop} {s : σ} (h : M.Reaches C (.idle s) p) (hs : P s)
    (hu : ∀ t c q, M.calls t c = some q → q.Uses (A t))
    (ho : ∀ t o s r s', A t o → P s → (r, s') ∈ M.exec t o s → P s')
    (he : ∀ e s s', P s → M.event e s = some s' → P s') : P p.shared := by
  induction h
  case refl => exact hs
  case step hr hc hs hi =>
    clear hc
    cases steps_of_step hs
    case call     => exact hi
    case event hm => exact he _ _ _ hi hm
    case op t o _ r s _ ht hm =>
      have hq := hr.uses (t := t) (hu t)
      rw [ht] at hq
      exact ho t o _ r s hq.left hi hm

end Reaches

variable (M)

-- A run that ends in a state with the property `q` can be checked by evaluation.
theorem exists_reaches_of_run (C : Cond S τ ε σ) [∀ t o s, Decidable (C.op t o s)]
    [∀ e s, Decidable (C.event e s)] (p₀ : Pool S τ σ) (q : σ → Bool) (ls : List (Label τ κ ε))
    (h : (M.run C p₀ ls).any (q ·.shared) = true) :
    ∃ p, M.Reaches C p₀ p ∧ q p.shared = true := by
  cases hr : M.run C p₀ ls <;> rw [hr] at h
  case none   => contradiction
  case some p => exact ⟨p, .of_run .refl hr, h⟩

theorem exists_reaches_idle_of_run (C : Cond S τ ε σ) [∀ t o s, Decidable (C.op t o s)]
    [∀ e s, Decidable (C.event e s)] (p₀ : Pool S τ σ) (t : τ) (q : σ → Bool)
    (ls : List (Label τ κ ε))
    (h : (M.run C p₀ ls).any (fun p => (p.threads t).isPure && q p.shared) = true) :
    ∃ p, M.Reaches C p₀ p ∧ p.threads t = .pure () ∧ q p.shared = true := by
  cases hr : M.run C p₀ ls <;> rw [hr] at h
  case none   => contradiction
  case some p =>
    have ⟨ht, hq⟩ := (Bool.and_eq_true _ _).mp h
    refine ⟨p, .of_run .refl hr, ?_, hq⟩
    cases hp : p.threads t
    case pure => rfl
    case op   =>
      rw [hp] at ht
      contradiction

end System
