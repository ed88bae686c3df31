import Mathlib.Data.List.Nodup
import Mathlib.Data.List.Basic

variable {ι β : Type}

-- A list of labelled elements in which all elements with the same label stand together.
inductive Grouped : List (ι × β) → Prop
  | nil : Grouped []
  | group {l : List (ι × β)} {x : ι} {bs : List β} (h : Grouped l) (hx : x ∉ l.map Prod.fst) (hb : bs ≠ []) :
    Grouped (l ++ bs.map (x, ·))

namespace Grouped

variable {l : List (ι × β)} {x : ι} {b : β}

-- All that comes after the first element with the label has that label.
def Last (x : ι) (l : List (ι × β)) : Prop :=
  ∃ (l₀ : List (ι × β)) (bs : List β), Grouped l₀ ∧ x ∉ l₀.map Prod.fst ∧ l = l₀ ++ bs.map (x, ·)

theorem last (h : Grouped l) (hx : x ∉ l.map Prod.fst) : Last x l :=
  ⟨l, [], h, hx, by simp⟩

theorem Last.grouped (h : Last x l) : Grouped l := by
  have ⟨l₀, bs, hl, hx, h⟩ := h
  cases bs
  case nil => simpa [h] using hl
  case cons => exact h ▸ .group hl hx (by simp)

theorem Last.append (h : Last x l) (b : β) : Last x (l ++ [(x, b)]) := by
  have ⟨l₀, bs, hl, hx, h⟩ := h
  exact ⟨l₀, bs ++ [b], hl, hx, by simp [h]⟩

variable [DecidableEq ι]

-- The elements with the label.
def of (x : ι) (l : List (ι × β)) : List β :=
  (l.filter (·.1 = x)).map Prod.snd

theorem of_append (l' : List (ι × β)) : of x (l ++ l') = of x l ++ of x l' := by
  simp [of]

theorem of_map_self (bs : List β) : of x (bs.map (x, ·)) = bs := by
  simp [of, List.filter_map, Function.comp_def]

theorem of_map_of_ne {y : ι} (h : y ≠ x) (bs : List β) : of x (bs.map (y, ·)) = [] := by
  simp [of, List.filter_map, Function.comp_def, h]

theorem of_eq_nil (h : x ∉ l.map Prod.fst) : of x l = [] := by
  simp only [of, List.map_eq_nil_iff, List.filter_eq_nil_iff, decide_eq_true_eq]
  exact fun a ha he => h (List.mem_map.mpr ⟨a, ha, he⟩)

theorem of_singleton_self : of x [(x, b)] = [b] :=
  of_map_self [b]

theorem of_singleton_of_ne {y : ι} (h : y ≠ x) : of x [(y, b)] = [] :=
  of_map_of_ne h [b]

theorem exists_groups (h : Grouped l) :
    ∃ gs : List (ι × List β), (gs.map Prod.fst).Nodup ∧ l = gs.flatMap (fun g => g.2.map (g.1, ·)) ∧
      ∀ g ∈ gs, g.1 ∈ l.map Prod.fst ∧ g.2 = of g.1 l := by
  induction h
  case nil => exact ⟨[], .nil, rfl, nofun⟩
  case group l x bs hl hx hb hi =>
    have ⟨gs, hn, hf, hg⟩ := hi
    have hxs : ∀ g ∈ gs, g.1 ≠ x := fun g hm he => hx (he ▸ (hg g hm).left)
    refine ⟨gs ++ [(x, bs)], ?_, by simp [hf], fun g hm => ?_⟩
    case refine_1 =>
      simp only [List.map_append, List.map_cons, List.map_nil]
      refine List.Nodup.append hn (List.nodup_singleton x) ?_
      simpa using fun ys hm => hxs (x, ys) hm rfl
    case refine_2 =>
      rw [of_append, List.map_append]
      rcases List.mem_append.mp hm with hm | hm
      · rw [of_map_of_ne (hxs g hm).symm, List.append_nil]
        exact ⟨List.mem_append_left _ (hg g hm).left, (hg g hm).right⟩
      · cases List.mem_singleton.mp hm
        rw [of_map_self, of_eq_nil hx]
        have ⟨b, hb⟩ := List.exists_mem_of_ne_nil bs hb
        exact ⟨List.mem_append_right _ (List.mem_map.mpr ⟨(x, b), List.mem_map.mpr ⟨b, hb, rfl⟩, rfl⟩), rfl⟩

end Grouped
