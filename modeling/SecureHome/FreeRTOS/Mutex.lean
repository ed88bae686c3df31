import Mathlib.Data.Nat.Notation
import Mathlib.Tactic.Common

namespace FreeRTOS

inductive RecursiveMutex (τ : Type)
  | notCreated
  | free
  | heldBy (t : τ) (depth : ℕ)
  deriving DecidableEq

namespace RecursiveMutex

variable {τ : Type} [DecidableEq τ] {t u : τ} {n : ℕ} {m m' : RecursiveMutex τ}

-- How many times the task has taken the mutex.
def depth (t : τ) : RecursiveMutex τ → ℕ
  | .heldBy u depth => if u = t then depth else 0
  | _               => 0

-- `xSemaphoreTakeRecursive`, which blocks while another task holds the mutex.
def take (t : τ) : RecursiveMutex τ → Option (RecursiveMutex τ)
  | .notCreated     => none
  | .free           => some (.heldBy t 1)
  | .heldBy u depth => if u = t then some (.heldBy t (depth + 1)) else none

-- `xSemaphoreGiveRecursive`, which fails if another task holds the mutex.
def give (t : τ) : RecursiveMutex τ → RecursiveMutex τ
  | .heldBy u (depth + 1) =>
    if u = t then if depth = 0 then .free else .heldBy u depth else .heldBy u (depth + 1)
  | m                     => m

@[simp]
theorem depth_free : (free : RecursiveMutex τ).depth t = 0 :=
  rfl

@[simp]
theorem depth_heldBy_self : (heldBy t n).depth t = n :=
  if_pos rfl

theorem depth_heldBy_of_ne (h : u ≠ t) : (heldBy t n).depth u = 0 :=
  if_neg h.symm

theorem eq_heldBy (h : 0 < m.depth t) : m = .heldBy t (m.depth t) := by
  cases m
  case heldBy u depth =>
    by_cases hu : u = t
    case pos => simp only [RecursiveMutex.depth, hu, if_true]
    case neg => simp [RecursiveMutex.depth, hu] at h
  all_goals simp [RecursiveMutex.depth] at h

-- Only one task holds the mutex.
theorem depth_of_ne (h : 0 < m.depth t) (hu : u ≠ t) : m.depth u = 0 := by
  rw [eq_heldBy h, depth_heldBy_of_ne hu]

theorem depth_take (h : m.take t = some m') :
    m'.depth t = m.depth t + 1 ∧ ∀ u, u ≠ t → m'.depth u = m.depth u := by
  cases m <;> simp only [take, Option.some.injEq, reduceCtorEq] at h
  case free => exact h ▸ ⟨depth_heldBy_self, fun u hu => depth_heldBy_of_ne hu⟩
  case heldBy v n =>
    split at h <;> cases h
    case isTrue hv =>
      rw [hv]
      refine ⟨by simp, fun u hu => ?_⟩
      rw [depth_heldBy_of_ne hu, depth_heldBy_of_ne hu]

theorem depth_give (h : 0 < m.depth t) :
    (m.give t).depth t + 1 = m.depth t ∧ ∀ u, u ≠ t → (m.give t).depth u = m.depth u := by
  have ⟨n, hn⟩ := Nat.exists_eq_succ_of_ne_zero (Nat.ne_of_gt h)
  rw [eq_heldBy h, hn]
  cases n
  case zero   => exact ⟨by simp [give], fun u hu => by simp [give, depth_heldBy_of_ne hu]⟩
  case succ n => exact ⟨by simp [give], fun u hu => by simp [give, depth_heldBy_of_ne hu]⟩

theorem depth_of_take_eq_none (h : m.take t = none) : m.depth t = 0 := by
  cases m <;> simp only [take, reduceCtorEq] at h
  case notCreated => rfl
  case heldBy v n =>
    split at h
    case isTrue     => cases h
    case isFalse hv => exact if_neg hv

end RecursiveMutex

end FreeRTOS
