import SecureHome.Gsm.Rules
import SecureHome.Gsm.Steps

open FreeRTOS Hal

namespace Gsm

variable {τ : Type} [DecidableEq τ]

-- One task initialises the driver, and all tasks use it.
def usesDriver (starter t : τ) : Call → Bool
  | .init                                 => t = starter
  | .getSimStatus | .sendSms .. | .getImsi => true
  | _                                     => false

-- The task may use the UART, as no other task does. Until the driver is initialised, this is the
-- task that initialises it.
structure Owns (starter t : τ) (n : ℕ) (s : State τ) : Prop where
  depth     : s.taskMutex.depth t = n
  exclusive : 0 < n ∨ t = starter ∧ s.isInitialized = false

-- The mutex is not taken before the driver is initialised.
def Locked (s : State τ) : Prop :=
  s.isInitialized = false → ∀ t, s.taskMutex.depth t = 0

-- What a task relies on, where `E` are the events that can happen.
structure Respects (E : Event τ → State τ → Prop) (starter t : τ) (s s' : State τ) : Prop where
  depth       : s'.taskMutex.depth t = s.taskMutex.depth t
  initialized : s.isInitialized = true → s'.isInitialized = true
  owned n     : Owns starter t n s → s' = s ∨ ∃ e, E e s ∧ s.Happens e s'

-- The statements that are not about the mutex.
def Op.Unlocked : Op → Prop
  | .setInitialized | .createMutex | .takeMutex | .giveMutex => False
  | _                                                        => True

variable {E : Event τ → State τ → Prop} {s s' : State τ} {e : Event τ} {o : Op} {r : sig.Ret o}
variable {starter t u : τ} {n k : ℕ}

theorem State.locks_rxEventCallback (huart : Uart) (size : ℕ) :
    ({ s with huart }.rxEventCallback size).taskMutex = s.taskMutex ∧
      ({ s with huart }.rxEventCallback size).isInitialized = s.isInitialized := by
  unfold rxEventCallback
  split <;> exact ⟨rfl, rfl⟩

theorem State.Happens.locks (h : s.Happens e s') :
    s'.taskMutex = s.taskMutex ∧ s'.isInitialized = s.isInitialized := by
  cases h
  case idleIrq | halfIrq | cpltIrq => exact locks_rxEventCallback ..
  all_goals exact ⟨rfl, rfl⟩

theorem State.Performs.locks (h : s.Performs t o r s') (ho : o.Unlocked) :
    s'.taskMutex = s.taskMutex ∧ s'.isInitialized = s.isInitialized := by
  cases h <;> first | exact ho.elim | exact ⟨rfl, rfl⟩

namespace Owns

theorem congr (h : Owns starter t n s) (hm : s'.taskMutex = s.taskMutex)
    (hi : s'.isInitialized = s.isInitialized) : Owns starter t n s' :=
  ⟨hm ▸ h.depth, hi ▸ h.exclusive⟩

-- There is one owner at most.
theorem unique (ht : Owns starter t n s) (hu : Owns starter u k s) (hl : Locked s) : u = t := by
  rcases ht.exclusive, hu.exclusive with ⟨hd | ⟨rfl, hi⟩, hk | ⟨rfl, hi'⟩⟩
  · by_contra hn
    have := RecursiveMutex.depth_of_ne (ht.depth.symm ▸ hd) hn
    have := hu.depth
    omega
  · have := hl hi' t
    have := ht.depth
    omega
  · have := hl hi u
    have := hu.depth
    omega
  · rfl

end Owns

theorem Respects.of_happens (hc : E e s) (h : s.Happens e s') (t : τ) : Respects E starter t s s' where
  depth         := by rw [h.locks.left]
  initialized _ := by rwa [h.locks.right]
  owned _ _     := .inr ⟨e, hc, h⟩

theorem Respects.refl (s : State τ) (t : τ) : Respects E starter t s s where
  depth         := rfl
  initialized h := h
  owned _ _     := .inl rfl

-- The steps of the owner are of no concern to the others.
theorem Respects.of_owner (ht : Owns starter t n s) (hl : Locked s) (hu : u ≠ t)
    (hd : s'.taskMutex.depth u = s.taskMutex.depth u)
    (hi : s.isInitialized = true → s'.isInitialized = true) : Respects E starter u s s' where
  depth       := hd
  initialized := hi
  owned _ h   := (hu (ht.unique h hl)).elim

end Gsm
