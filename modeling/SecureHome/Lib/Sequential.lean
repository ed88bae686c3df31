import SecureHome.Lib.Fallible

namespace Prog

variable {S : Sig} {σ α β χ ψ : Type} (exec : (o : S.Op) → σ → List (S.Ret o × σ))

-- A program that runs on its own ends with a result in a state.
def Ends : Prog S α → σ → α → σ → Prop
  | pure a, s, a', s' => a' = a ∧ s' = s
  | op o k, s, a', s' => ∃ r s₁, (r, s₁) ∈ exec o s ∧ (k r).Ends s₁ a' s'

-- The end of a program in which each operation has the outcome at the next of the given indices,
-- or the first outcome once there are no more indices.
def follow : Prog S α → List ℕ → σ → Option (α × σ)
  | pure a, _, s  => some (a, s)
  | op o k, is, s => do
    let (r, s) ← (exec o s)[is.headD 0]?
    (k r).follow is.tail s

def Hoare (P : σ → Prop) (p : Prog S α) (Q : α → σ → Prop) : Prop :=
  ∀ s a s', P s → p.Ends exec s a s' → Q a s'

-- The operations with a log of those that were performed and what they returned.
def logging (o : S.Op) : σ × List (Σ o, S.Ret o) → List (S.Ret o × σ × List (Σ o, S.Ret o))
  | (s, l) => (exec o s).map fun (r, s') => (r, s', l ++ [⟨o, r⟩])

variable {exec}

theorem mem_logging {o : S.Op} {s s' : σ} {l l' : List (Σ o, S.Ret o)} {r : S.Ret o} :
    (r, s', l') ∈ logging exec o (s, l) ↔ (r, s') ∈ exec o s ∧ l' = l ++ [⟨o, r⟩] := by
  simp only [logging, List.mem_map, Prod.exists, Prod.mk.injEq]
  constructor
  case mp =>
    rintro ⟨r, s', hm, rfl, rfl, rfl⟩
    exact ⟨hm, rfl⟩
  case mpr =>
    rintro ⟨hm, rfl⟩
    exact ⟨r, s', hm, rfl, rfl, rfl⟩

-- The log does not change what a program does.
theorem ends_iff_logging {p : Prog S α} {s s' : σ} {a : α} (l : List (Σ o, S.Ret o)) :
    p.Ends exec s a s' ↔ ∃ l', p.Ends (logging exec) (s, l) a (s', l') := by
  induction p generalizing s l
  case pure =>
    constructor
    case mp =>
      rintro ⟨rfl, rfl⟩
      exact ⟨l, rfl, rfl⟩
    case mpr =>
      rintro ⟨_, rfl, he⟩
      exact ⟨rfl, congrArg Prod.fst he⟩
  case op hi =>
    constructor
    case mp =>
      rintro ⟨r, s₁, hm, h⟩
      have ⟨l', h⟩ := (hi r (l ++ [⟨_, r⟩])).mp h
      exact ⟨l', r, _, mem_logging.mpr ⟨hm, rfl⟩, h⟩
    case mpr =>
      rintro ⟨l', r, ⟨s₁, l₁⟩, hm, h⟩
      exact ⟨r, s₁, (mem_logging.mp hm).left, (hi r l₁).mpr ⟨l', h⟩⟩

theorem ends_of_follow {p : Prog S α} {is : List ℕ} {s s' : σ} {a : α}
    (h : p.follow exec is s = some (a, s')) : p.Ends exec s a s' := by
  induction p generalizing is s
  case pure => cases h; exact ⟨rfl, rfl⟩
  case op hi =>
    have ⟨⟨r, s₁⟩, hm, h⟩ := Option.bind_eq_some_iff.mp h
    exact ⟨r, s₁, List.mem_of_getElem? hm, hi r h⟩

theorem exists_ends_of_follow {p : Prog S α} (is : List ℕ) {s : σ} (q : α → σ → Bool)
    (h : (p.follow exec is s).any (fun r => q r.1 r.2) = true) :
    ∃ a s', p.Ends exec s a s' ∧ q a s' = true := by
  cases hf : p.follow exec is s <;> rw [hf] at h
  case none   => contradiction
  case some r => exact ⟨r.1, r.2, ends_of_follow hf, h⟩

-- A program whose operations never block comes to an end.
theorem exists_ends {A : S.Op → Prop} {p : Prog S α} {s : σ} (hu : p.Uses A)
    (hn : ∀ o s, A o → exec o s ≠ []) : ∃ a s', p.Ends exec s a s' := by
  induction p generalizing s
  case pure a => exact ⟨a, s, rfl, rfl⟩
  case op o k hi =>
    have ⟨⟨r, s₁⟩, hm⟩ := List.exists_mem_of_ne_nil _ (hn o s hu.left)
    have ⟨a, s', h⟩ := hi r (s := s₁) (hu.right r)
    exact ⟨a, s', r, s₁, hm, h⟩

theorem ends_bind {p : Prog S α} {f : α → Prog S β} {s s' : σ} {b : β}
    (h : (p >>= f).Ends exec s b s') : ∃ a s₁, p.Ends exec s a s₁ ∧ (f a).Ends exec s₁ b s' := by
  induction p generalizing s
  case pure a => exact ⟨a, s, ⟨rfl, rfl⟩, h⟩
  case op hi  =>
    have ⟨r, s₁, hm, h⟩ := h
    have ⟨a, s₂, h₁, h₂⟩ := hi r h
    exact ⟨a, s₂, ⟨r, s₁, hm, h₁⟩, h₂⟩

theorem Ends.bind {p : Prog S α} {f : α → Prog S β} {s s₁ s' : σ} {a : α} {b : β}
    (h : p.Ends exec s a s₁) (hf : (f a).Ends exec s₁ b s') : (p >>= f).Ends exec s b s' := by
  induction p generalizing s
  case pure =>
    obtain ⟨rfl, rfl⟩ := h
    exact hf
  case op hi =>
    have ⟨r, s₂, hm, h⟩ := h
    exact ⟨r, s₂, hm, hi r h⟩

namespace Hoare

variable {P P' : σ → Prop} {Q Q' : α → σ → Prop} {p : Prog S α}

theorem pure {a : α} (h : ∀ s, P s → Q a s) : Hoare exec P (Pure.pure a) Q := by
  intro s a' s' hp ⟨ha, hs⟩
  exact ha ▸ hs ▸ h s hp

theorem perform {o : S.Op} {Q : S.Ret o → σ → Prop}
    (h : ∀ s r s', P s → (r, s') ∈ exec o s → Q r s') : Hoare exec P (.perform o) Q := by
  intro s a' s' hp ⟨r, s₁, hm, ha, hs⟩
  exact ha ▸ hs ▸ h s r s₁ hp hm

theorem bind {f : α → Prog S β} {I : α → σ → Prop} {Q : β → σ → Prop} (h : Hoare exec P p I)
    (hf : ∀ a, Hoare exec (I a) (f a) Q) : Hoare exec P (p >>= f) Q := by
  intro s b s' hp he
  have ⟨a, s₁, h₁, h₂⟩ := ends_bind he
  exact hf a s₁ b s' (h s a s₁ hp h₁) h₂

theorem weaken (h : Hoare exec P' p Q') (hp : ∀ s, P s → P' s) (hq : ∀ a s, Q' a s → Q a s) :
    Hoare exec P p Q :=
  fun s a s' hs he => hq a s' (h s a s' (hp s hs) he)

theorem intro {ι : Sort*} {A : ι → σ → Prop} (h : ∀ i, Hoare exec (A i) p Q) :
    Hoare exec (fun s => ∃ i, A i s) p Q :=
  fun s a s' ⟨i, hs⟩ => h i s a s' hs

end Hoare

variable (exec)

-- The program satisfies `Q` when it returns and `R` when it stops with an error.
def FallibleHoare (P : σ → Prop) (p : Fallible S χ α) (Q : α → σ → Prop) (R : χ → σ → Prop) :
    Prop :=
  Hoare exec P p.run fun
    | .ok a    => Q a
    | .error e => R e

variable {exec}

namespace FallibleHoare

variable {P P' : σ → Prop} {Q Q' : α → σ → Prop} {R R' : χ → σ → Prop} {p : Fallible S χ α}

theorem pure {a : α} (h : ∀ s, P s → Q a s) :
    FallibleHoare exec P (Pure.pure a : Fallible S χ α) Q R :=
  Hoare.pure h

theorem throw {e : χ} (h : ∀ s, P s → R e s) :
    FallibleHoare exec P (MonadExcept.throw e : Fallible S χ α) Q R :=
  Hoare.pure h

theorem lift {q : Prog S α} (h : Hoare exec P q Q) :
    FallibleHoare exec P (ExceptT.lift q : Fallible S χ α) Q R :=
  Hoare.bind h fun _ => .pure fun _ hs => hs

theorem bind {q : Fallible S χ β} {f : β → Fallible S χ α} {I : β → σ → Prop}
    (h : FallibleHoare exec P q I R) (hf : ∀ b, FallibleHoare exec (I b) (f b) Q R) :
    FallibleHoare exec P (q >>= f) Q R := by
  refine Hoare.bind h fun r => ?_
  cases r
  case ok b    => exact hf b
  case error e => exact .pure fun _ hs => hs

theorem weaken (h : FallibleHoare exec P' p Q' R') (hp : ∀ s, P s → P' s)
    (hq : ∀ a s, Q' a s → Q a s) (hr : ∀ e s, R' e s → R e s) : FallibleHoare exec P p Q R := by
  refine Hoare.weaken h hp fun r s => ?_
  cases r
  case ok a    => exact hq a s
  case error e => exact hr e s

theorem weaken_error (h : FallibleHoare exec P p Q R') (hr : ∀ e s, R' e s → R e s) :
    FallibleHoare exec P p Q R :=
  h.weaken (fun _ h => h) (fun _ _ h => h) hr

theorem intro {ι : Sort*} {A : ι → σ → Prop} (h : ∀ i, FallibleHoare exec (A i) p Q R) :
    FallibleHoare exec (fun s => ∃ i, A i s) p Q R :=
  Hoare.intro h

theorem and_left {φ : Prop} (h : φ → FallibleHoare exec P p Q R) :
    FallibleHoare exec (fun s => φ ∧ P s) p Q R :=
  fun s a s' ⟨hφ, hs⟩ => h hφ s a s' hs

end FallibleHoare

end Prog
