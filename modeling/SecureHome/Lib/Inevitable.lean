import SecureHome.Lib.RelyGuarantee

open Pool

variable {S : Sig} {τ κ ε σ ω : Type} [DecidableEq τ]

namespace System

variable (M : System S τ κ ε σ) (C : Cond S τ ε σ)

-- Every run gets to where `A` holds, however the threads are scheduled.
inductive Inevitable (A : Pool S τ σ → Prop) : Pool S τ σ → Prop
  | now {p} : A p → Inevitable A p
  | later {p} : (∃ l p', C.Meets p l ∧ M.step p l = some p') →
    (∀ l p', C.Meets p l → M.step p l = some p' → Inevitable A p') → Inevitable A p

namespace Inevitable

variable {M C} {A B : Pool S τ σ → Prop} {p p' : Pool S τ σ}

theorem mono (h : M.Inevitable C A p) (hab : ∀ p, A p → B p) : M.Inevitable C B p := by
  induction h
  case now hp      => exact .now (hab _ hp)
  case later hn _ hi => exact .later hn hi

-- What is inevitable remains so, as long as it is not undone.
theorem of_reaches (h : M.Inevitable C A p)
    (ha : ∀ p l p', A p → M.step p l = some p' → A p') (hr : M.Reaches C p p') :
    M.Inevitable C A p' := by
  induction hr
  case refl => exact h
  case step hc hs hi =>
    cases hi
    case now hp     => exact .now (ha _ _ _ hp hs)
    case later _ hi => exact hi _ _ hc hs

-- Nothing is inevitable that can be avoided forever.
theorem not_of_invariant (h : M.Inevitable C A p) (hb : ∀ p, B p → ¬A p)
    (hs : ∀ p l p', B p → M.step p l = some p' → B p') : ¬B p := by
  induction h
  case now hp => exact fun hp' => hb _ hp' hp
  case later hn _ hi =>
    intro hp
    have ⟨l, p', hc, hl⟩ := hn
    exact hi l p' hc hl (hs _ _ _ hp hl)

end Inevitable

end System

namespace Outline

variable {O : Outline Unit σ ω} {M : System S Unit κ ε σ} {C : Cond S Unit ε σ}
variable {idle : Unit → ω → Prop}

-- The thread returns, if its operations only block while there is an event to come, and if there is
-- no infinite sequence of events.
theorem Sound.inevitable {A : S.Op → Prop} (m : σ → ℕ) (hv : O.Valid M C idle)
    (hcalls : ∀ c, M.calls () c = none)
    (hm : ∀ e s s', C.event e s → M.event e s = some s' → m s' < m s)
    (ho : ∀ o s, C.op () o s)
    (hp : ∀ o w, A o → O.inv w → (∃ r s', (r, s') ∈ M.exec () o (O.shared w)) ∨
      ∃ e s', C.event e (O.shared w) ∧ M.event e (O.shared w) = some s')
    {p : Pool S Unit σ} {w : ω} (h : O.Sound M C idle p w) (hu : (p.threads ()).Uses A) :
    M.Inevitable C (fun p => p.threads () = .pure () ∧ ∃ w, O.shared w = p.shared ∧ idle () w) p := by
  generalize hq : p.threads () = q at hu
  induction q generalizing p w
  case pure =>
    have hi := h.threads ()
    rw [hq] at hi
    exact .now ⟨hq, w, h.shared, hi⟩
  case op o k hk =>
    generalize hn : m p.shared = n
    induction n using Nat.strongRecOn generalizing p w
    case ind n hi =>
      refine .later ?_ fun l p' hc hs => ?_
      case refine_1 =>
        rcases hp o w hu.left h.inv with ⟨r, s', hm⟩ | ⟨e, s', hc, he⟩
        case inl =>
          rw [h.shared] at hm
          have ⟨i, hs⟩ := System.exists_step_op hq hm
          exact ⟨.op () i, _, by simpa only [Cond.Meets, Cond.Next, hq] using ho o _, hs⟩
        case inr =>
          rw [h.shared] at hc he
          exact ⟨.event e, _, hc, System.step_event he⟩
      case refine_2 =>
        have ⟨w', hw⟩ := h.step hv hc hs
        cases System.steps_of_step hs
        case call hq => simp [hcalls] at hq
        case event he =>
          subst hn
          exact hi _ (hm _ _ _ hc he) hw hq rfl
        case op r _ _ ht _ =>
          cases hq.symm.trans ht
          exact hk r hw (Function.update_self () (k r) p.threads) (hu.right r)

end Outline
