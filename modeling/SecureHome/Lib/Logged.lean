import SecureHome.Lib.Pool

variable {S : Sig} {τ κ ε σ η : Type}

-- Keeps a log of a run, in terms of what a step does and of the states before and after it.
structure Logger (S : Sig) (τ ε σ η : Type) where
  op    : τ → (o : S.Op) → S.Ret o → σ → σ → η → η
  event : ε → σ → σ → η → η

-- A state together with the log of what led to it.
structure Logged (σ η : Type) where
  state : σ
  log   : η

namespace System

open Pool

-- The system itself does not depend on the log.
def logged (M : System S τ κ ε σ) (L : Logger S τ ε σ η) : System S τ κ ε (Logged σ η) where
  calls      := M.calls
  exec t o s := (M.exec t o s.state).map fun (r, s') => (r, ⟨s', L.op t o r s.state s' s.log⟩)
  event e s  := (M.event e s.state).map fun s' => ⟨s', L.event e s.state s' s.log⟩

variable {M : System S τ κ ε σ} {L : Logger S τ ε σ η} {t : τ} {s s' : Logged σ η}

theorem mem_exec_logged {o : S.Op} {r : S.Ret o} (h : (r, s') ∈ (M.logged L).exec t o s) :
    (r, s'.state) ∈ M.exec t o s.state ∧ s'.log = L.op t o r s.state s'.state s.log := by
  have ⟨⟨_, _⟩, hm, he⟩ := List.mem_map.mp h
  cases he
  exact ⟨hm, rfl⟩

theorem event_logged {e : ε} (h : (M.logged L).event e s = some s') :
    M.event e s.state = some s'.state ∧ s'.log = L.event e s.state s'.state s.log := by
  have ⟨_, hm, he⟩ := Option.map_eq_some_iff.mp h
  cases he
  exact ⟨hm, rfl⟩

-- Each run has a log.
theorem Reaches.exists_log [DecidableEq τ] {p₀ p : Pool S τ σ} (h : M.Reaches .any p₀ p) (l₀ : η) :
    ∃ l, (M.logged L).Reaches .any ⟨p₀.threads, p₀.shared, l₀⟩ ⟨p.threads, p.shared, l⟩ := by
  induction h
  case refl => exact ⟨l₀, .refl⟩
  case step hm hs hi =>
    have ⟨l, hi⟩ := hi
    clear hm
    cases steps_of_step hs
    case call ht hq => exact ⟨l, hi.trans (.call ht hq)⟩
    case op ht hm   => exact ⟨_, hi.trans (.op ht trivial (List.mem_map.mpr ⟨_, hm, rfl⟩))⟩
    case event he   => exact ⟨_, hi.trans (.event trivial (Option.map_eq_some_iff.mpr ⟨_, he, rfl⟩))⟩

end System
