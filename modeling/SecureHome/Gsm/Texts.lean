import Mathlib.Data.List.TakeWhile
import SecureHome.Gsm.Driver

namespace Gsm

-- The text is made of two parts with the first occurrence of the pattern between them.
structure FirstAt (s pattern a b : List UInt8) : Prop where
  eq    : s = a ++ pattern ++ b
  first : ∀ a' b', s = a' ++ pattern ++ b' → a.length ≤ a'.length

def IsDigit (c : UInt8) : Prop :=
  '0'.toUInt8 ≤ c ∧ c ≤ '9'.toUInt8

instance (c : UInt8) : Decidable (IsDigit c) := inferInstanceAs (Decidable (_ ∧ _))

-- The value of a number, however long.
def decimal (digits : List UInt8) : ℕ :=
  digits.foldl (fun n c => 10 * n + (c - '0'.toUInt8).toNat) 0

-- A number stands at the beginning of a text, with the given rest behind all of its digits.
structure LeadingNumber (s digits rest : List UInt8) : Prop where
  eq     : s = digits ++ rest
  ne_nil : digits ≠ []
  digits : ∀ c ∈ digits, IsDigit c
  ended  : ∀ c ∈ rest.head?, ¬IsDigit c

variable {s pattern a b : List UInt8} {n : ℕ}

theorem prefix_drop_iff :
    pattern <+: s.drop n ∧ n ≤ s.length ↔ ∃ a b, s = a ++ pattern ++ b ∧ a.length = n := by
  constructor
  case mp =>
    intro ⟨⟨b, hb⟩, hn⟩
    refine ⟨s.take n, b, ?_, List.length_take_of_le hn⟩
    rw [List.append_assoc, hb, List.take_append_drop]
  case mpr =>
    intro ⟨a, b, hs, hn⟩
    subst hs hn
    refine ⟨⟨b, ?_⟩, by simp⟩
    rw [List.append_assoc, List.drop_left]

theorem find_eq_some_iff : find s pattern = some n ↔ ∃ a b, FirstAt s pattern a b ∧ a.length = n := by
  simp only [find, List.findIdx?_eq_some_iff_getElem, List.length_tails, List.getElem_tails,
    decide_eq_true_eq]
  constructor
  case mp =>
    intro ⟨hn, hp, hf⟩
    have ⟨a, b, hs, ha⟩ := prefix_drop_iff.mp ⟨hp, Nat.le_of_lt_succ hn⟩
    refine ⟨a, b, ⟨hs, fun a' b' hs' => ?_⟩, ha⟩
    by_contra hl
    exact hf a'.length (by omega) (prefix_drop_iff.mpr ⟨a', b', hs', rfl⟩).left
  case mpr =>
    intro ⟨a, b, h, ha⟩
    have ⟨hp, hn⟩ := prefix_drop_iff.mpr ⟨a, b, h.eq, ha⟩
    refine ⟨Nat.lt_succ_of_le hn, hp, fun j hj hp' => ?_⟩
    have ⟨a', b', hs', ha'⟩ := prefix_drop_iff.mp ⟨hp', by omega⟩
    have := h.first a' b' hs'
    omega

namespace FirstAt

variable {a' b' : List UInt8}

theorem unique (h : FirstAt s pattern a b) (h' : FirstAt s pattern a' b') : a = a' ∧ b = b' := by
  have he := h.eq.symm.trans h'.eq
  have hl := Nat.le_antisymm (h.first _ _ h'.eq) (h'.first _ _ h.eq)
  rw [List.append_assoc, List.append_assoc] at he
  have ⟨ha, hp⟩ := List.append_inj he hl
  exact ⟨ha, List.append_cancel_left hp⟩

theorem drop (h : FirstAt s pattern a b) : s.drop (a.length + pattern.length) = b := by
  rw [h.eq, ← List.length_append, List.drop_left]

theorem singleton_iff {c : UInt8} : FirstAt s [c] a b ↔ s = a ++ [c] ++ b ∧ c ∉ a := by
  constructor
  case mp =>
    refine fun h => ⟨h.eq, fun hc => ?_⟩
    have ⟨a₁, a₂, ha⟩ := List.append_of_mem hc
    have hl := h.first a₁ (a₂ ++ [c] ++ b) (by simp [h.eq, ha])
    simp only [ha, List.length_append, List.length_cons] at hl
    omega
  case mpr =>
    refine fun ⟨hs, hc⟩ => ⟨hs, fun a' b' hs' => ?_⟩
    by_contra hl
    have hp : a' ++ [c] <+: a := by
      refine List.prefix_of_prefix_length_le ⟨b', hs'.symm⟩ ⟨[c] ++ b, ?_⟩ (by simp; omega)
      rw [hs, List.append_assoc]
    exact hc (hp.subset (by simp))

end FirstAt

theorem find_eq_none_iff : find s pattern = none ↔ ∀ a b, s ≠ a ++ pattern ++ b := by
  simp only [find, List.findIdx?_eq_none_iff, List.mem_tails, decide_eq_false_iff_not]
  constructor
  case mp =>
    intro h a b hs
    refine h (pattern ++ b) ⟨a, ?_⟩ ⟨b, rfl⟩
    rw [hs, List.append_assoc]
  case mpr =>
    intro h t ⟨a, ht⟩ ⟨b, hb⟩
    exact h a b (by rw [List.append_assoc, hb, ht])

namespace LeadingNumber

variable {digits rest : List UInt8}

theorem takeWhile_eq (h : LeadingNumber s digits rest) : s.takeWhile (fun c => decide (IsDigit c)) = digits := by
  rw [h.eq, List.takeWhile_append_of_pos fun c hc => decide_eq_true (h.digits c hc)]
  cases hr : rest
  case nil => simp
  case cons c cs =>
    have hc := h.ended c (by rw [hr]; rfl)
    rw [List.takeWhile_cons_of_neg (by simpa using hc), List.append_nil]

theorem of_takeWhile (h : s.takeWhile (fun c => decide (IsDigit c)) ≠ []) :
    LeadingNumber s (s.takeWhile fun c => decide (IsDigit c)) (s.dropWhile fun c => decide (IsDigit c)) where
  eq         := List.takeWhile_append_dropWhile.symm
  ne_nil     := h
  digits c hc := of_decide_eq_true (List.mem_takeWhile_imp (p := fun c => decide (IsDigit c)) hc)
  ended c hc := by
    have hn := List.head?_dropWhile_not (fun c => decide (IsDigit c)) s
    rw [hc] at hn
    simpa using hn

end LeadingNumber

theorem fromChars_eq_some_iff :
    fromChars s = some n ↔
      ∃ digits rest, LeadingNumber s digits rest ∧ decimal digits = n ∧ n < 2 ^ 32 := by
  show (if s.takeWhile (fun c => decide (IsDigit c)) = [] ∨
      2 ^ 32 ≤ decimal (s.takeWhile fun c => decide (IsDigit c))
    then none else some (decimal (s.takeWhile fun c => decide (IsDigit c)))) = some n ↔ _
  simp only [Option.ite_none_left_eq_some, not_or, Nat.not_le, Option.some.injEq]
  constructor
  case mp =>
    intro ⟨⟨hn, hl⟩, hv⟩
    exact ⟨_, _, .of_takeWhile hn, hv, hv ▸ hl⟩
  case mpr =>
    intro ⟨digits, rest, h, hv, hl⟩
    rw [h.takeWhile_eq]
    exact ⟨⟨h.ne_nil, hv ▸ hl⟩, hv⟩

end Gsm
