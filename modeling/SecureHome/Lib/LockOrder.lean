import Mathlib.Logic.Relation
import Mathlib.Order.Basic

open Relation

-- Threads that take locks, each of which waits for one lock at most.
structure LockGraph (τ ι : Type) where
  holds : τ → ι → Prop
  -- The thread waits for the lock.
  wants : τ → ι → Prop

namespace LockGraph

variable {τ ι α : Type} [Preorder α] (G : LockGraph τ ι) (rank : ι → α)

-- A thread waits for another one to give a lock back.
def Waits (t u : τ) : Prop :=
  ∃ i, G.wants t i ∧ G.holds u i

-- A thread only waits for locks that come behind all those that it holds.
def Ordered : Prop :=
  ∀ t i j, G.wants t i → G.holds t j → rank j < rank i

variable {G rank} {t u : τ}

-- The last thread of a chain holds a lock that does not come before the one that the first waits for.
theorem Ordered.rank_le (h : G.Ordered rank) (hw : TransGen G.Waits t u) :
    ∃ i j, G.wants t i ∧ G.holds u j ∧ rank i ≤ rank j := by
  induction hw
  case single hw =>
    have ⟨i, hi, hj⟩ := hw
    exact ⟨i, i, hi, hj, le_refl _⟩
  case tail hw hi =>
    have ⟨i, j, hi, hj, hl⟩ := hi
    have ⟨k, hk, hu⟩ := hw
    exact ⟨i, k, hi, hu, hl.trans (h _ k j hk hj).le⟩

theorem Ordered.not_cycle (h : G.Ordered rank) (t : τ) : ¬TransGen G.Waits t t := by
  intro hw
  have ⟨i, j, hi, hj, hl⟩ := h.rank_le hw
  exact (h t i j hi hj).not_ge hl

end LockGraph
