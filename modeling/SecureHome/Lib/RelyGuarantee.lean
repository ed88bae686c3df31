import SecureHome.Lib.Pool

open Relation

variable {S : Sig} {τ κ ε σ : Type}

-- A proof outline for the threads of a system. Its states refine those of the system, so that they
-- may carry auxiliary data for the proof.
structure Outline (τ σ ω : Type) where
  shared : ω → σ
  inv    : ω → Prop
  -- What a thread relies on of the steps of all others.
  rely   : τ → ω → ω → Prop

namespace Outline

variable {ω α β : Type} (O : Outline τ σ ω) (M : System S τ κ ε σ) (C : Pool.Cond S τ ε σ)
variable {t : τ}

def Interferes (t : τ) (w w' : ω) : Prop :=
  O.inv w ∧ O.inv w' ∧ O.rely t w w'

-- What a step of a thread guarantees to all others.
def Guar (t : τ) (w w' : ω) : Prop :=
  O.inv w' ∧ ∀ u ≠ t, O.rely u w w'

def Stable (t : τ) (P : ω → Prop) : Prop :=
  ∀ w w', O.Interferes t w w' → P w → P w'

-- All steps of the program keep the guarantee, and it only ends in states that satisfy `Q`.
def Safe (t : τ) (Q : α → ω → Prop) : Prog S α → ω → Prop
  | .pure a, w => Q a w
  | .op o k, w =>
    ∀ w', ReflTransGen (O.Interferes t) w w' → C.op t o (O.shared w') →
      ∀ r s, (r, s) ∈ M.exec t o (O.shared w') →
        ∃ w'', O.shared w'' = s ∧ O.Guar t w' w'' ∧ Safe t Q (k r) w''

def Triple (t : τ) (P : ω → Prop) (p : Prog S α) (Q : α → ω → Prop) : Prop :=
  ∀ w, O.inv w → P w → O.Safe M C t Q p w

variable {O M C}

theorem Stable.closed {P : ω → Prop} {w w' : ω} (h : O.Stable t P)
    (hw : ReflTransGen (O.Interferes t) w w') (hp : P w) : P w' := by
  induction hw
  case refl         => exact hp
  case tail _ hs hi => exact h _ _ hs hi

theorem inv_of_interferes {w w' : ω} (hw : ReflTransGen (O.Interferes t) w w') (hi : O.inv w) :
    O.inv w' := by
  cases hw
  case refl      => exact hi
  case tail _ hs => exact hs.right.left

namespace Safe

variable {Q : α → ω → Prop} {p : Prog S α} {w w' : ω}

theorem weaken {Q' : α → ω → Prop} (h : O.Safe M C t Q p w) (hi : O.inv w)
    (hq : ∀ a w, O.inv w → Q a w → Q' a w) : O.Safe M C t Q' p w := by
  induction p generalizing w
  case pure a => exact hq a w hi h
  case op o k hk =>
    intro w₁ h₁ hc r s hm
    have ⟨w₂, hs, hg, h₂⟩ := h w₁ h₁ hc r s hm
    exact ⟨w₂, hs, hg, hk r h₂ hg.left⟩

theorem bind {f : α → Prog S β} {Q' : β → ω → Prop} (h : O.Safe M C t Q p w) (hi : O.inv w)
    (hf : ∀ a w, O.inv w → Q a w → O.Safe M C t Q' (f a) w) : O.Safe M C t Q' (p >>= f) w := by
  induction p generalizing w
  case pure a => exact hf a w hi h
  case op o k hk =>
    intro w₁ h₁ hc r s hm
    have ⟨w₂, hs, hg, h₂⟩ := h w₁ h₁ hc r s hm
    exact ⟨w₂, hs, hg, hk r h₂ hg.left⟩

theorem interfered (h : O.Safe M C t Q p w) (hw : O.Interferes t w w')
    (hq : ∀ a, O.Stable t (Q a)) : O.Safe M C t Q p w' := by
  cases p
  case pure a => exact hq a _ _ hw h
  case op     => exact fun w₁ h₁ => h w₁ (.head hw h₁)

end Safe

namespace Triple

variable {P P' : ω → Prop} {Q : α → ω → Prop}

theorem pure {a : α} (h : ∀ w, O.inv w → P w → Q a w) : O.Triple M C t P (Pure.pure a) Q :=
  h

theorem op {o : S.Op} {k : S.Ret o → Prog S α} {Q' : S.Ret o → ω → Prop} (hp : O.Stable t P)
    (ho : ∀ w, O.inv w → P w → C.op t o (O.shared w) → ∀ r s, (r, s) ∈ M.exec t o (O.shared w) →
      ∃ w', O.shared w' = s ∧ O.Guar t w w' ∧ Q' r w')
    (hk : ∀ r, O.Triple M C t (Q' r) (k r) Q) : O.Triple M C t P (.op o k) Q := by
  intro w hi hw w₁ h₁ hc r s hm
  have ⟨w₂, hs, hg, hq⟩ := ho w₁ (inv_of_interferes h₁ hi) (hp.closed h₁ hw) hc r s hm
  exact ⟨w₂, hs, hg, hk r w₂ hg.left hq⟩

theorem bind {p : Prog S β} {f : β → Prog S α} {Q' : β → ω → Prop} (h : O.Triple M C t P p Q')
    (hf : ∀ b, O.Triple M C t (Q' b) (f b) Q) : O.Triple M C t P (p >>= f) Q :=
  fun w hi hw => (h w hi hw).bind hi hf

-- A program keeps what each of its operations keeps.
theorem of_uses {A : S.Op → Prop} {p : Prog S α} (hu : p.Uses A) (hp : O.Stable t P)
    (ho : ∀ o, A o → ∀ w, O.inv w → P w → C.op t o (O.shared w) →
      ∀ r s, (r, s) ∈ M.exec t o (O.shared w) → ∃ w', O.shared w' = s ∧ O.Guar t w w' ∧ P w') :
    O.Triple M C t P p fun _ => P := by
  induction p
  case pure      => exact .pure fun _ _ hw => hw
  case op o _ hi => exact .op hp (ho o hu.left) fun r => hi r (hu.right r)

-- The same where it is known already what each operation keeps.
theorem of_performs {A : S.Op → Prop} {p : Prog S α} (hu : p.Uses A)
    (ho : ∀ o, A o → O.Triple M C t P (.perform o) fun _ => P) : O.Triple M C t P p fun _ => P := by
  induction p
  case pure      => exact .pure fun _ _ hw => hw
  case op o k hi => exact bind (f := k) (ho o hu.left) fun r => hi r (hu.right r)

theorem weaken {p : Prog S α} {Q' : α → ω → Prop} (h : O.Triple M C t P' p Q')
    (hp : ∀ w, O.inv w → P w → P' w) (hq : ∀ a w, O.inv w → Q' a w → Q a w) :
    O.Triple M C t P p Q :=
  fun w hi hw => (h w hi (hp w hi hw)).weaken hi hq

end Triple

-- An outline without auxiliary data.
def direct (inv : σ → Prop) (rely : τ → σ → σ → Prop) : Outline τ σ σ where
  shared s := s
  inv      := inv
  rely     := rely

section Direct

variable {inv : σ → Prop} {rely : τ → σ → σ → Prop} {P : σ → Prop}

theorem Triple.direct_perform {o : S.Op} {Q : S.Ret o → σ → Prop}
    (hp : (direct inv rely).Stable t P)
    (ho : ∀ s r s', inv s → P s → C.op t o s → (r, s') ∈ M.exec t o s →
      (direct inv rely).Guar t s s' ∧ Q r s') :
    (direct inv rely).Triple M C t P (.perform o) Q :=
  .op hp (fun s hi hs hc r s' hm => ⟨s', rfl, ho s r s' hi hs hc hm⟩) fun _ =>
    .pure fun _ _ h => h

theorem Triple.direct_uses {A : S.Op → Prop} {p : Prog S α} (hu : p.Uses A)
    (hp : (direct inv rely).Stable t P)
    (ho : ∀ o, A o → ∀ s r s', inv s → P s → C.op t o s → (r, s') ∈ M.exec t o s →
      (direct inv rely).Guar t s s' ∧ P s') :
    (direct inv rely).Triple M C t P p fun _ => P :=
  .of_uses hu hp fun o ha s hi hs hc r s' hm => ⟨s', rfl, ho o ha s r s' hi hs hc hm⟩

end Direct

variable (O M C)

-- A valid outline, in which all threads are idle between their calls.
structure Valid (idle : τ → ω → Prop) : Prop where
  event  : ∀ w e s, O.inv w → C.event e (O.shared w) → M.event e (O.shared w) = some s →
    ∃ w', O.shared w' = s ∧ O.inv w' ∧ ∀ t, O.rely t w w'
  stable : ∀ t, O.Stable t (idle t)
  call   : ∀ t c p, M.calls t c = some p → O.Triple M C t (idle t) p fun _ => idle t

-- The threads of the pool are about to run programs that are safe from the state `w`.
structure Sound (idle : τ → ω → Prop) (p : Pool S τ σ) (w : ω) : Prop where
  shared  : O.shared w = p.shared
  inv     : O.inv w
  threads : ∀ t, O.Safe M C t (fun _ => idle t) (p.threads t) w

variable {O M C} {idle : τ → ω → Prop}

namespace Sound

variable {p p' : Pool S τ σ} {w w' : ω}

theorem interfered {u : τ} (hv : O.Valid M C idle) (h : O.Sound M C idle p w) (hi : O.inv w')
    (hr : O.rely u w w') : O.Safe M C u (fun _ => idle u) (p.threads u) w' :=
  (h.threads u).interfered ⟨h.inv, hi, hr⟩ fun _ => hv.stable u

theorem event {e : ε} {s : σ} (hv : O.Valid M C idle) (h : O.Sound M C idle p w)
    (hc : C.event e p.shared) (he : M.event e p.shared = some s) :
    ∃ w', O.Sound M C idle { p with shared := s } w' := by
  have ⟨w', hw, hi, hr⟩ := hv.event w e s h.inv (h.shared ▸ hc) (h.shared ▸ he)
  refine ⟨w', hw, hi, fun u => ?_⟩
  show O.Safe M C u (fun _ => idle u) (p.threads u) w'
  exact h.interfered hv hi (hr u)

variable [DecidableEq τ]

theorem call {c : κ} {q : Prog S Unit} (hv : O.Valid M C idle) (h : O.Sound M C idle p w)
    (ht : p.threads t = .pure ()) (hq : M.calls t c = some q) :
    O.Sound M C idle { p with threads := Function.update p.threads t q } w := by
  refine ⟨h.shared, h.inv, fun u => ?_⟩
  by_cases hu : u = t
  case neg => simp only [Function.update_of_ne hu]; exact h.threads u
  case pos =>
    subst hu
    simp only [Function.update_self]
    have hs := h.threads u
    rw [ht] at hs
    exact hv.call u c q hq w h.inv hs

theorem op {o : S.Op} {k : S.Ret o → Prog S Unit} {r : S.Ret o} {s : σ} (hv : O.Valid M C idle)
    (h : O.Sound M C idle p w) (ht : p.threads t = .op o k) (hc : C.op t o p.shared)
    (hm : (r, s) ∈ M.exec t o p.shared) :
    ∃ w', O.Sound M C idle { threads := Function.update p.threads t (k r), shared := s } w' := by
  have hs := ht ▸ h.threads t
  have ⟨w', hw, hg, hq⟩ := hs w .refl (h.shared ▸ hc) r s (h.shared ▸ hm)
  refine ⟨w', hw, hg.left, fun u => ?_⟩
  by_cases hu : u = t
  case pos => subst hu; simp only [Function.update_self]; exact hq
  case neg => simp only [Function.update_of_ne hu]; exact h.interfered hv hg.left (hg.right u hu)

theorem step {l : Pool.Label τ κ ε} (hv : O.Valid M C idle) (h : O.Sound M C idle p w)
    (hc : C.Meets p l) (hs : M.step p l = some p') : ∃ w', O.Sound M C idle p' w' := by
  cases System.steps_of_step hs
  case call ht hq => exact ⟨w, h.call hv ht hq⟩
  case op ht hm   => exact h.op hv ht (by simpa only [Pool.Cond.Meets, Pool.Cond.Next, ht] using hc) hm
  case event he   => exact h.event hv hc he

end Sound

variable [DecidableEq τ]

theorem Valid.sound {p : Pool S τ σ} {w : ω} (hv : O.Valid M C idle) (hi : O.inv w)
    (hw : ∀ t, idle t w) (h : M.Reaches C (.idle (O.shared w)) p) :
    ∃ w', O.Sound M C idle p w' := by
  induction h
  case refl => exact ⟨w, rfl, hi, hw⟩
  case step hm hs hi =>
    have ⟨_, h⟩ := hi
    exact h.step hv hm hs

end Outline
