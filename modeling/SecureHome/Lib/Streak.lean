import Mathlib.Data.Nat.Notation
import Mathlib.Order.Basic
import Mathlib.Tactic.Common

namespace Streak

-- The `k` positions that end with `n` all satisfy `p`.
def Window (p : ℕ → Prop) (k n : ℕ) : Prop :=
  k ≤ n + 1 ∧ ∀ i, n < i + k → i ≤ n → p i

-- `n` is the first position that satisfies `q`.
def First (q : ℕ → Prop) (n : ℕ) : Prop :=
  q n ∧ ∀ m < n, ¬q m

-- The number of consecutive positions directly before `n` that satisfy `p`.
def count (p : ℕ → Prop) [DecidablePred p] : ℕ → ℕ
  | 0     => 0
  | n + 1 => if p n then count p n + 1 else 0

variable {p q : ℕ → Prop} {k n : ℕ}

theorem First.exists (h : p n) : ∃ m ≤ n, First p m := by
  induction n using Nat.strongRecOn
  case ind n hi =>
    by_cases hc : ∃ m < n, p m
    case pos =>
      have ⟨m, hm, hp⟩ := hc
      have ⟨k, hk, hf⟩ := hi m hm hp
      exact ⟨k, by omega, hf⟩
    case neg =>
      push Not at hc
      exact ⟨n, Nat.le_refl n, h, hc⟩

section Count

variable [DecidablePred p]

theorem le_count_iff : k ≤ count p n ↔ (k ≤ n ∧ ∀ i, n ≤ i + k → i < n → p i) := by
  induction n generalizing k
  case zero => simp [count]
  case succ n hi =>
    by_cases hp : p n
    case neg =>
      simp only [count, hp, if_false]
      constructor
      case mp =>
        intro h
        refine ⟨by omega, fun i _ _ => ?_⟩
        omega
      case mpr =>
        intro ⟨_, h⟩
        by_contra hk
        exact hp (h n (by omega) (by omega))
    case pos =>
      simp only [count, hp, if_true]
      cases k
      case zero => simp; omega
      case succ k =>
        rw [Nat.add_le_add_iff_right, hi]
        constructor
        case mp =>
          intro ⟨hk, h⟩
          refine ⟨by omega, fun i h₁ h₂ => ?_⟩
          by_cases hn : i = n
          case pos => exact hn ▸ hp
          case neg => exact h i (by omega) (by omega)
        case mpr =>
          intro ⟨hk, h⟩
          exact ⟨by omega, fun i h₁ h₂ => h i (by omega) (by omega)⟩

theorem window_iff_le_count : Window p k n ↔ k ≤ count p (n + 1) := by
  simp only [Window, le_count_iff, Nat.lt_succ_iff, Nat.succ_le_iff]

end Count

-- Windows of two predicates that exclude each other never end at the same position.
theorem Window.disjoint (hd : ∀ i, p i → ¬q i) (hp : Window p (k + 1) n) : ¬Window q (k + 1) n :=
  fun hq => hd n (hp.right n (by omega) (Nat.le_refl n)) (hq.right n (by omega) (Nat.le_refl n))

end Streak
