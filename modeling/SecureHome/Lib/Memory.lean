import Mathlib.Data.List.OfFn
import Mathlib.Data.Nat.Notation
import Mathlib.Tactic.Common

-- A memory that has one value at each address.
abbrev Memory (β : Type) := ℕ → β

namespace Memory

variable {β : Type} {m : Memory β} {a x n : ℕ} {l l' : List β}

-- The memory after the values were stored next to each other from an address on.
def store (m : Memory β) (a : ℕ) (l : List β) : Memory β :=
  fun x => if a ≤ x then l[x - a]?.getD (m x) else m x

def load (m : Memory β) (a n : ℕ) : List β :=
  List.ofFn fun i : Fin n => m (a + i)

-- The memory in which all addresses of a range have the values of another memory.
def replace (m m' : Memory β) (r : ℕ → Bool) : Memory β :=
  fun x => if r x then m' x else m x

@[simp]
theorem store_nil : m.store a [] = m := by
  funext x
  simp [store]

theorem store_of_not_mem (h : x < a ∨ a + l.length ≤ x) : m.store a l x = m x := by
  unfold store
  split
  case isTrue hx  => rw [List.getElem?_eq_none (by omega)]; rfl
  case isFalse hx => rfl

theorem store_add (h : n < l.length) : m.store a l (a + n) = l[n] := by
  simp [store, h]

theorem store_append : m.store a (l ++ l') = (m.store a l).store (a + l.length) l' := by
  funext x
  by_cases hx : a + l.length ≤ x
  case pos =>
    have ha : a ≤ x := by omega
    have hs : x - a - l.length = x - (a + l.length) := by omega
    rw [store, store, if_pos ha, if_pos hx, List.getElem?_append_right (by omega), hs,
      store_of_not_mem (.inr hx)]
  case neg =>
    rw [store_of_not_mem (m := m.store a l) (.inl (by omega)), store, store]
    split
    case isTrue ha  => rw [List.getElem?_append_left (by omega)]
    case isFalse ha => rfl

theorem load_eq_iff (h : l.length = n) :
    m.load a n = l ↔ ∀ i (hi : i < l.length), m (a + i) = l[i] := by
  subst h
  constructor
  case mp =>
    intro h i hi
    have he : (m.load a l.length)[i]? = some l[i] := by rw [h, List.getElem?_eq_getElem hi]
    simpa [load, hi] using he
  case mpr =>
    intro h
    apply List.ext_getElem (by simp [load])
    intro i _ hi
    simpa [load] using h i hi

theorem drop_load : (m.load a n).drop x = m.load (a + x) (n - x) := by
  apply List.ext_getElem (by simp [load])
  intro i _ _
  simp [load, Nat.add_assoc]

theorem take_load (h : x ≤ n) : (m.load a n).take x = m.load a x := by
  apply List.ext_getElem (by simp [load, h])
  intro i _ _
  simp [load]

@[simp]
theorem load_store : (m.store a l).load a l.length = l :=
  (load_eq_iff rfl).mpr fun _ hi => store_add hi

end Memory
