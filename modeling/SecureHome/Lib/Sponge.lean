import Mathlib.Data.Nat.Notation
import Mathlib.Logic.Function.Iterate
import Mathlib.Tactic.Common

-- A permutation of the states, whose outer part takes in and gives out a number of units.
structure Sponge (σ α : Type) where
  rate     : ℕ
  permute  : σ → σ
  add      : σ → ℕ → α → σ
  get      : σ → ℕ → α
  padding  : α
  rate_pos : 0 < rate

-- A sponge in use, together with the number of units of the current block that are done.
structure Duplex (σ : Type) where
  state     : σ
  count     : ℕ
  squeezing : Bool

namespace Sponge

variable {σ α : Type} (S : Sponge σ α) {s t : Duplex σ} {x : σ} {input input' : List α} {m n k : ℕ}

def startAbsorbing (s : Duplex σ) : Duplex σ :=
  if s.squeezing then
    { state := S.permute s.state, count := 0, squeezing := false }
  else
    s

def startSqueezing (s : Duplex σ) : Duplex σ :=
  if s.squeezing then
    s
  else
    { state := S.add s.state s.count S.padding, count := 0, squeezing := true }

def next (count : ℕ) : ℕ :=
  if count + 1 = S.rate then 0 else count + 1

def absorbOne (s : Duplex σ) (a : α) : Duplex σ :=
  let x := S.add s.state s.count a
  { s with state := if s.count + 1 = S.rate then S.permute x else x, count := S.next s.count }

def squeezeOne (s : Duplex σ) : α × Duplex σ :=
  let x := if s.count = 0 then S.permute s.state else s.state
  (S.get x s.count, { s with state := x, count := S.next s.count })

def squeezeMany (s : Duplex σ) : ℕ → List α × Duplex σ
  | 0     => ([], s)
  | n + 1 =>
    let r := S.squeezeOne s
    let r' := squeezeMany r.2 n
    (r.1 :: r'.1, r'.2)

def absorb (s : Duplex σ) (input : List α) : Duplex σ :=
  input.foldl S.absorbOne (S.startAbsorbing s)

def squeeze (s : Duplex σ) (n : ℕ) : List α × Duplex σ :=
  S.squeezeMany (S.startSqueezing s) n

-- What is absorbed or squeezed within one block.
def addFrom (x : σ) : List α → (offset : ℕ) → σ
  | [], _              => x
  | a :: input, offset => addFrom (S.add x offset a) input (offset + 1)

def getFrom (x : σ) (offset n : ℕ) : List α :=
  (List.range' offset n).map (S.get x)

variable {S}

theorem foldl_absorbOne_squeezing : (input.foldl S.absorbOne s).squeezing = s.squeezing := by
  induction input generalizing s
  case nil          => rfl
  case cons _ _ hi  => exact hi

theorem startAbsorbing_squeezing : (S.startAbsorbing s).squeezing = false := by
  rw [startAbsorbing]
  split
  case isTrue    => rfl
  case isFalse h => simpa using h

theorem startAbsorbing_eq (h : s.squeezing = false) : S.startAbsorbing s = s := by
  simp [startAbsorbing, h]

theorem startSqueezing_squeezing : (S.startSqueezing s).squeezing = true := by
  rw [startSqueezing]
  split
  case isTrue h => exact h
  case isFalse  => rfl

theorem startSqueezing_eq (h : s.squeezing = true) : S.startSqueezing s = s := by
  simp [startSqueezing, h]

theorem squeezeMany_squeezing : (S.squeezeMany s n).2.squeezing = s.squeezing := by
  induction n generalizing s
  case zero       => rfl
  case succ n hi  => exact hi

theorem absorb_squeezing : (S.absorb s input).squeezing = false := by
  rw [absorb, foldl_absorbOne_squeezing, startAbsorbing_squeezing]

theorem squeeze_squeezing : (S.squeeze s n).2.squeezing = true := by
  rw [squeeze, squeezeMany_squeezing, startSqueezing_squeezing]

-- It makes no difference how an input or an output is divided.
theorem absorb_append : S.absorb s (input ++ input') = S.absorb (S.absorb s input) input' := by
  rw [absorb, List.foldl_append, absorb.eq_1 S (S.absorb s input), startAbsorbing_eq absorb_squeezing,
    absorb]

theorem squeezeMany_add : S.squeezeMany s (m + n) =
    ((S.squeezeMany s m).1 ++ (S.squeezeMany (S.squeezeMany s m).2 n).1,
      (S.squeezeMany (S.squeezeMany s m).2 n).2) := by
  induction m generalizing s
  case zero      => simp [squeezeMany]
  case succ m hi => rw [Nat.succ_add, squeezeMany, hi, squeezeMany, List.cons_append]

theorem squeeze_add : S.squeeze s (m + n) =
    ((S.squeeze s m).1 ++ (S.squeeze (S.squeeze s m).2 n).1, (S.squeeze (S.squeeze s m).2 n).2) := by
  rw [squeeze.eq_1 S (S.squeeze s m).2, startSqueezing_eq squeeze_squeezing]
  exact squeezeMany_add

theorem length_squeezeMany : (S.squeezeMany s n).1.length = n := by
  induction n generalizing s
  case zero      => rfl
  case succ n hi => rw [squeezeMany, List.length_cons, hi]

theorem length_squeeze : (S.squeeze s n).1.length = n :=
  length_squeezeMany

-- The count never reaches the end of a block.
theorem next_lt (h : k < S.rate) : S.next k < S.rate := by
  rw [next]
  split
  case isTrue  => exact S.rate_pos
  case isFalse => omega

theorem count_foldl_lt (h : s.count < S.rate) : (input.foldl S.absorbOne s).count < S.rate := by
  induction input generalizing s
  case nil         => exact h
  case cons _ _ hi => exact hi (next_lt h)

theorem count_squeezeMany_lt (h : s.count < S.rate) : (S.squeezeMany s n).2.count < S.rate := by
  induction n generalizing s
  case zero      => exact h
  case succ _ hi => exact hi (next_lt h)

theorem count_absorb_lt (h : s.count < S.rate) : (S.absorb s input).count < S.rate := by
  apply count_foldl_lt
  rw [startAbsorbing]
  split
  case isTrue  => exact S.rate_pos
  case isFalse => exact h

theorem count_squeeze_lt (h : s.count < S.rate) : (S.squeeze s n).2.count < S.rate := by
  apply count_squeezeMany_lt
  rw [startSqueezing]
  split
  case isTrue  => exact h
  case isFalse => exact S.rate_pos

-- Absorbing within one block, and up to its end.
theorem foldl_absorbOne_of_lt (h : s.count + input.length < S.rate) : input.foldl S.absorbOne s =
    { s with state := S.addFrom s.state input s.count, count := s.count + input.length } := by
  induction input generalizing s
  case nil => rfl
  case cons a input hi =>
    rw [List.length_cons] at h
    have hn : s.count + 1 ≠ S.rate := by omega
    have hs : S.absorbOne s a = { s with state := S.add s.state s.count a, count := s.count + 1 } := by
      simp [absorbOne, next, hn]
    rw [List.foldl_cons, hs, hi (by simp only; omega), addFrom, List.length_cons]
    simp only [Nat.add_assoc, Nat.add_comm 1]

theorem foldl_absorbOne_of_eq (hi : input ≠ []) (h : s.count + input.length = S.rate) :
    input.foldl S.absorbOne s =
      { s with state := S.permute (S.addFrom s.state input s.count), count := 0 } := by
  induction input generalizing s
  case nil => exact absurd rfl hi
  case cons a input hi' =>
    rw [List.length_cons] at h
    rw [List.foldl_cons, addFrom]
    by_cases he : input = []
    case pos =>
      have hs : s.count + 1 = S.rate := by simpa [he] using h
      simp [he, absorbOne, next, hs, addFrom]
    case neg =>
      have hl := List.length_pos_iff.mpr he
      have hn : s.count + 1 ≠ S.rate := by omega
      have hs : S.absorbOne s a = { s with state := S.add s.state s.count a, count := s.count + 1 } := by
        simp [absorbOne, next, hn]
      rw [hs, hi' he (by simp only; omega)]

-- The rest of the block comes first.
theorem foldl_absorbOne_of_ge (hl : s.count < S.rate) (h : S.rate - s.count ≤ input.length) :
    input.foldl S.absorbOne s = (input.drop (S.rate - s.count)).foldl S.absorbOne
      { s with state := S.permute (S.addFrom s.state (input.take (S.rate - s.count)) s.count), count := 0 } := by
  have ht : (input.take (S.rate - s.count)).length = S.rate - s.count := by rw [List.length_take]; omega
  have hn : input.take (S.rate - s.count) ≠ [] := List.ne_nil_of_length_pos (by omega)
  rw [← foldl_absorbOne_of_eq hn (by omega), ← List.foldl_append, List.take_append_drop]

theorem getFrom_succ {offset : ℕ} :
    S.getFrom x offset (n + 1) = S.get x offset :: S.getFrom x (offset + 1) n := by
  rw [getFrom, List.range'_succ, List.map_cons, getFrom]

-- Squeezing within one block, without the permutation at its start and with it.
theorem squeezeMany_of_ne (hc : s.count ≠ 0) (hl : s.count < S.rate) (h : s.count + n ≤ S.rate) :
    S.squeezeMany s n = (S.getFrom s.state s.count n,
      { s with count := if s.count + n = S.rate then 0 else s.count + n }) := by
  induction n generalizing s
  case zero =>
    have hn : s.count ≠ S.rate := Nat.ne_of_lt hl
    simp [squeezeMany, getFrom, hn]
  case succ n hi =>
    by_cases hr : s.count + 1 = S.rate
    case pos =>
      obtain rfl : n = 0 := by omega
      simp [squeezeMany, squeezeOne, getFrom, next, hc, hr]
    case neg =>
      have hs : S.squeezeOne s = (S.get s.state s.count, { s with count := s.count + 1 }) := by
        simp [squeezeOne, next, hc, hr]
      rw [squeezeMany, hs, hi (Nat.succ_ne_zero _) (by simp only; omega) (by simp only; omega), getFrom_succ]
      simp only [Nat.add_assoc, Nat.add_comm 1]

theorem squeezeMany_of_eq (hc : s.count = 0) (hn : n ≠ 0) (h : n ≤ S.rate) :
    S.squeezeMany s n = (S.getFrom (S.permute s.state) 0 n,
      { s with state := S.permute s.state, count := if n = S.rate then 0 else n }) := by
  obtain ⟨n, rfl⟩ := Nat.exists_eq_succ_of_ne_zero hn
  rw [squeezeMany, getFrom_succ]
  by_cases hr : 1 = S.rate
  case pos =>
    obtain rfl : n = 0 := by omega
    simp [squeezeMany, squeezeOne, getFrom, next, hc, ← hr]
  case neg =>
    have hs : S.squeezeOne s = (S.get (S.permute s.state) 0,
        { s with state := S.permute s.state, count := 1 }) := by
      simp [squeezeOne, next, hc, hr]
    have hl : 1 < S.rate := by have := S.rate_pos; omega
    rw [hs, squeezeMany_of_ne Nat.one_ne_zero hl (by simp only; omega)]
    simp only [Nat.add_comm 1, Nat.succ_eq_add_one]

theorem squeezeMany_of_ge (hc : s.count ≠ 0) (hl : s.count < S.rate) (h : S.rate - s.count ≤ n) :
    S.squeezeMany s n =
      let r := S.squeezeMany { s with count := 0 } (n - (S.rate - s.count))
      (S.getFrom s.state s.count (S.rate - s.count) ++ r.1, r.2) := by
  conv => lhs; rw [← Nat.add_sub_cancel' h]
  rw [squeezeMany_add, squeezeMany_of_ne hc hl (by omega), if_pos (by omega)]

theorem squeezeMany_block (hc : s.count = 0) (h : S.rate ≤ n) :
    S.squeezeMany s n =
      let r := S.squeezeMany { s with state := S.permute s.state } (n - S.rate)
      (S.getFrom (S.permute s.state) 0 S.rate ++ r.1, r.2) := by
  have hr := S.rate_pos
  conv => lhs; rw [← Nat.add_sub_cancel' h]
  rw [squeezeMany_add, squeezeMany_of_eq hc (by omega) (Nat.le_refl _), if_pos rfl, ← hc]

-- The sponge as it is commonly defined: a padded input is absorbed block by block, and the output are
-- the outer parts of the states from there on.
def absorbAll (S : Sponge σ α) (x : σ) (input : List α) : σ :=
  if input = [] then
    x
  else
    absorbAll S (S.permute (S.addFrom x (input.take S.rate) 0)) (input.drop S.rate)
termination_by input.length
decreasing_by
  have hr := S.rate_pos
  have hl := List.length_pos_iff.mpr ‹input ≠ []›
  rw [List.length_drop]
  omega

def output (S : Sponge σ α) (x : σ) (n : ℕ) : List α :=
  (List.range n).map fun k => S.get (S.permute^[k / S.rate] x) (k % S.rate)

theorem addFrom_append {offset : ℕ} :
    S.addFrom x (input ++ input') offset = S.addFrom (S.addFrom x input offset) input' (offset + input.length) := by
  induction input generalizing x offset
  case nil => rfl
  case cons a input hi =>
    rw [List.cons_append, addFrom, addFrom, hi, List.length_cons, Nat.add_assoc, Nat.add_comm 1]

theorem permute_startSqueezing (hs : s.squeezing = false) (hc : s.count = 0) :
    S.permute (S.startSqueezing (S.absorb s input)).state = S.absorbAll s.state (input ++ [S.padding]) := by
  have hs' : S.startSqueezing (S.absorb s input) =
      { state := S.add (S.absorb s input).state (S.absorb s input).count S.padding, count := 0,
        squeezing := true } := by
    simp [startSqueezing, absorb_squeezing]
  rw [hs', absorb, startAbsorbing_eq hs]
  clear hs'
  generalize hn : input.length = n
  induction n using Nat.strongRecOn generalizing s input
  case ind n hi =>
    rw [absorbAll, if_neg (by simp)]
    by_cases hl : input.length < S.rate
    case pos =>
      rw [foldl_absorbOne_of_lt (by omega), List.take_of_length_le (by simp; omega),
        List.drop_of_length_le (by simp; omega), absorbAll, if_pos rfl, addFrom_append, hc, addFrom, addFrom]
    case neg =>
      have hr := S.rate_pos
      have hd : (input.drop S.rate).length = input.length - S.rate := List.length_drop
      have hi := hi (input.length - S.rate) (by omega)
        (s := { s with state := S.permute (S.addFrom s.state (input.take S.rate) 0), count := 0 }) hs rfl hd
      rw [List.take_append_of_le_length (by omega), List.drop_append_of_le_length (by omega), ← hi,
        foldl_absorbOne_of_ge (by omega) (by omega), hc, Nat.sub_zero]

theorem squeezeMany_fst (hl : s.count < S.rate) : (S.squeezeMany s n).1 =
    (List.range n).map fun k =>
      S.get (S.permute^[(s.count + k) / S.rate] (if s.count = 0 then S.permute s.state else s.state))
        ((s.count + k) % S.rate) := by
  induction n generalizing s
  case zero => rfl
  case succ n hi =>
    rw [squeezeMany, hi (next_lt hl), List.range_succ_eq_map, List.map_cons, List.map_map]
    refine congrArg₂ List.cons ?_ (List.map_congr_left fun k _ => ?_)
    case refine_1 => simp [squeezeOne, Nat.div_eq_of_lt hl, Nat.mod_eq_of_lt hl]
    case refine_2 =>
      by_cases hr : s.count + 1 = S.rate
      case pos =>
        have hk : s.count + (k + 1) = k + S.rate := by omega
        simp [squeezeOne, next, hr, hk, Nat.add_div_right _ S.rate_pos]
      case neg =>
        simp [squeezeOne, next, hr, Nat.add_assoc, Nat.add_comm 1]

-- However the input was divided before, the output is that of the sponge as it is commonly defined.
theorem squeeze_absorb (hs : s.squeezing = false) (hc : s.count = 0) :
    (S.squeeze (S.absorb s input) n).1 = S.output (S.absorbAll s.state (input ++ [S.padding])) n := by
  have hc' : (S.startSqueezing (S.absorb s input)).count = 0 := by
    simp [startSqueezing, absorb_squeezing]
  rw [squeeze, squeezeMany_fst (hc' ▸ S.rate_pos), hc', if_pos rfl, permute_startSqueezing hs hc, output]
  simp only [Nat.zero_add]

end Sponge
