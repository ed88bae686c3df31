import Mathlib.Data.BitVec
import Mathlib.Tactic.Common

-- A word as two halves, one with the bits at even positions and one with those at odd positions. A
-- processor with half the word size can then rotate the word by rotating the two halves.
namespace BitVec

variable {n w : ℕ} {x y : BitVec n} {e o e' o' : BitVec w} {i k k' : ℕ}

def ofBits (f : ℕ → Bool) : BitVec n :=
  (iunfoldr (fun i u => (u, f i)) ()).snd

def evens (x : BitVec n) : BitVec w :=
  ofBits fun i => x.getLsbD (2 * i)

def odds (x : BitVec n) : BitVec w :=
  ofBits fun i => x.getLsbD (2 * i + 1)

def interleave (e o : BitVec w) : BitVec n :=
  ofBits fun i => if i % 2 = 0 then e.getLsbD (i / 2) else o.getLsbD (i / 2)

theorem getLsbD_ofBits {f : ℕ → Bool} (hi : i < n) : (ofBits f : BitVec n).getLsbD i = f i :=
  iunfoldr_getLsbD (fun _ => ()) ⟨i, hi⟩ fun _ => rfl

theorem getLsbD_evens (hi : i < w) : (evens x : BitVec w).getLsbD i = x.getLsbD (2 * i) :=
  getLsbD_ofBits hi

theorem getLsbD_odds (hi : i < w) : (odds x : BitVec w).getLsbD i = x.getLsbD (2 * i + 1) :=
  getLsbD_ofBits hi

-- Words are equal when their halves are.
theorem eq_of_halves (hn : n = 2 * w) (he : (evens x : BitVec w) = evens y)
    (ho : (odds x : BitVec w) = odds y) : x = y := by
  apply eq_of_getLsbD_eq
  intro i hi
  have hw : i / 2 < w := by omega
  cases Nat.mod_two_eq_zero_or_one i
  case inl h =>
    have h := congrArg (getLsbD · (i / 2)) he
    simp only [getLsbD_evens hw] at h
    rwa [show 2 * (i / 2) = i by omega] at h
  case inr h =>
    have h := congrArg (getLsbD · (i / 2)) ho
    simp only [getLsbD_odds hw] at h
    rwa [show 2 * (i / 2) + 1 = i by omega] at h

theorem evens_interleave (hn : n = 2 * w) : evens (interleave e o : BitVec n) = e := by
  apply eq_of_getLsbD_eq
  intro i hi
  rw [getLsbD_evens hi, interleave, getLsbD_ofBits (by omega), if_pos (by omega)]
  congr 1
  omega

theorem odds_interleave (hn : n = 2 * w) : odds (interleave e o : BitVec n) = o := by
  apply eq_of_getLsbD_eq
  intro i hi
  rw [getLsbD_odds hi, interleave, getLsbD_ofBits (by omega), if_neg (by omega)]
  congr 1
  omega

theorem interleave_halves (hn : n = 2 * w) : interleave (evens x : BitVec w) (odds x) = x :=
  eq_of_halves hn (evens_interleave hn) (odds_interleave hn)

theorem evens_xor : (evens (x ^^^ y) : BitVec w) = evens x ^^^ evens y := by
  apply eq_of_getLsbD_eq
  intro i hi
  simp [getLsbD_evens hi]

theorem odds_xor : (odds (x ^^^ y) : BitVec w) = odds x ^^^ odds y := by
  apply eq_of_getLsbD_eq
  intro i hi
  simp [getLsbD_odds hi]

theorem evens_and : (evens (x &&& y) : BitVec w) = evens x &&& evens y := by
  apply eq_of_getLsbD_eq
  intro i hi
  simp [getLsbD_evens hi]

theorem odds_and : (odds (x &&& y) : BitVec w) = odds x &&& odds y := by
  apply eq_of_getLsbD_eq
  intro i hi
  simp [getLsbD_odds hi]

theorem evens_not (hn : n = 2 * w) : (evens (~~~x) : BitVec w) = ~~~evens x := by
  apply eq_of_getLsbD_eq
  intro i hi
  rw [getLsbD_evens hi, getLsbD_not, getLsbD_not, getLsbD_evens hi]
  simp [hi, show 2 * i < n by omega]

theorem odds_not (hn : n = 2 * w) : (odds (~~~x) : BitVec w) = ~~~odds x := by
  apply eq_of_getLsbD_eq
  intro i hi
  rw [getLsbD_odds hi, getLsbD_not, getLsbD_not, getLsbD_odds hi]
  simp [hi, show 2 * i + 1 < n by omega]

theorem getLsbD_rotateRight_mod (hi : i < n) :
    (x.rotateRight k).getLsbD i = x.getLsbD ((i + k) % n) := by
  have hk := Nat.mod_lt k (Nat.zero_lt_of_lt hi)
  rw [← rotateRight_mod_eq_rotateRight, getLsbD_rotateRight_of_lt hk, ← Nat.add_mod_mod]
  generalize k % n = k at hk
  by_cases h : i < n - k
  case pos => rw [Nat.mod_eq_of_lt (by omega), decide_eq_true h, cond_true, Nat.add_comm]
  case neg =>
    have hm : (i + k) % n = i - (n - k) := by
      rw [Nat.mod_eq_sub_mod (by omega), Nat.mod_eq_of_lt (by omega)]
      omega
    simp [h, hi, hm]

theorem rotateRight_xor : (x ^^^ y).rotateRight k = x.rotateRight k ^^^ y.rotateRight k := by
  apply eq_of_getLsbD_eq
  intro i hi
  simp only [getLsbD_xor, getLsbD_rotateRight_mod hi]

theorem rotateRight_not : (~~~x).rotateRight k = ~~~x.rotateRight k := by
  apply eq_of_getLsbD_eq
  intro i hi
  have hk := Nat.mod_lt (i + k) (Nat.zero_lt_of_lt hi)
  simp only [getLsbD_not, getLsbD_rotateRight_mod hi, hi, hk, decide_true]

theorem rotateRight_add : (x.rotateRight k).rotateRight k' = x.rotateRight (k + k') := by
  apply eq_of_getLsbD_eq
  intro i hi
  rw [getLsbD_rotateRight_mod hi, getLsbD_rotateRight_mod (Nat.mod_lt _ (by omega)),
    getLsbD_rotateRight_mod hi, Nat.mod_add_mod, Nat.add_assoc, Nat.add_comm k']

theorem rotateRight_of_dvd (h : n ∣ k) : x.rotateRight k = x := by
  apply eq_of_getLsbD_eq
  intro i hi
  rw [getLsbD_rotateRight_mod hi, ← Nat.add_mod_mod, Nat.mod_eq_zero_of_dvd h, Nat.add_zero,
    Nat.mod_eq_of_lt hi]

theorem two_mul_add_one_mod {a : ℕ} (hw : 0 < w) : (2 * a + 1) % (2 * w) = 2 * (a % w) + 1 := by
  have ha := Nat.div_add_mod a w
  have hl := Nat.mod_lt a hw
  calc (2 * a + 1) % (2 * w)
    _ = (2 * w * (a / w) + (2 * (a % w) + 1)) % (2 * w) := by rw [Nat.mul_assoc]; congr 1; omega
    _ = 2 * (a % w) + 1 := by rw [Nat.mul_add_mod, Nat.mod_eq_of_lt (by omega)]

-- A rotation by an even number of bits rotates both halves by half of it.
theorem evens_rotateRight_even (hn : n = 2 * w) (hk : k < w) :
    (evens (x.rotateRight (2 * k)) : BitVec w) = (evens x).rotateRight k := by
  apply eq_of_getLsbD_eq
  intro i hi
  have hm : (2 * i + 2 * k) % n = 2 * ((i + k) % w) := by
    rw [hn, ← Nat.mul_add, Nat.mul_mod_mul_left]
  rw [getLsbD_evens hi, getLsbD_rotateRight_mod (by omega), hm,
    getLsbD_rotateRight_mod hi, getLsbD_evens (Nat.mod_lt _ (by omega))]

theorem odds_rotateRight_even (hn : n = 2 * w) (hk : k < w) :
    (odds (x.rotateRight (2 * k)) : BitVec w) = (odds x).rotateRight k := by
  apply eq_of_getLsbD_eq
  intro i hi
  have hm : (2 * i + 1 + 2 * k) % n = 2 * ((i + k) % w) + 1 := by
    rw [hn, ← two_mul_add_one_mod (by omega)]
    congr 1
    omega
  rw [getLsbD_odds hi, getLsbD_rotateRight_mod (by omega), hm,
    getLsbD_rotateRight_mod hi, getLsbD_odds (Nat.mod_lt _ (by omega))]

-- A rotation by an odd number of bits also swaps the halves.
theorem evens_rotateRight_odd (hn : n = 2 * w) (hk : k < w) :
    (evens (x.rotateRight (2 * k + 1)) : BitVec w) = (odds x).rotateRight k := by
  apply eq_of_getLsbD_eq
  intro i hi
  have hm : (2 * i + (2 * k + 1)) % n = 2 * ((i + k) % w) + 1 := by
    rw [hn, ← two_mul_add_one_mod (by omega)]
    congr 1
    omega
  rw [getLsbD_evens hi, getLsbD_rotateRight_mod (by omega), hm,
    getLsbD_rotateRight_mod hi, getLsbD_odds (Nat.mod_lt _ (by omega))]

theorem odds_rotateRight_odd (hn : n = 2 * w) (hk : k + 1 < w) :
    (odds (x.rotateRight (2 * k + 1)) : BitVec w) = (evens x).rotateRight (k + 1) := by
  apply eq_of_getLsbD_eq
  intro i hi
  have hm : (2 * i + 1 + (2 * k + 1)) % n = 2 * ((i + (k + 1)) % w) := by
    rw [hn, ← Nat.mul_mod_mul_left]
    congr 1
    omega
  rw [getLsbD_odds hi, getLsbD_rotateRight_mod (by omega), hm,
    getLsbD_rotateRight_mod hi, getLsbD_evens (Nat.mod_lt _ (by omega))]

theorem evens_rotateRight (hn : n = 2 * w) (hk : k < n) :
    (evens (x.rotateRight k) : BitVec w) =
      if k % 2 = 0 then (evens x).rotateRight (k / 2) else (odds x).rotateRight (k / 2) := by
  split
  case isTrue h  => rw [← evens_rotateRight_even hn (by omega), show 2 * (k / 2) = k by omega]
  case isFalse h => rw [← evens_rotateRight_odd hn (by omega), show 2 * (k / 2) + 1 = k by omega]

theorem odds_rotateRight (hn : n = 2 * w) (hk : k + 1 < n) :
    (odds (x.rotateRight k) : BitVec w) =
      if k % 2 = 0 then (odds x).rotateRight (k / 2) else (evens x).rotateRight (k / 2 + 1) := by
  split
  case isTrue h  => rw [← odds_rotateRight_even hn (by omega), show 2 * (k / 2) = k by omega]
  case isFalse h => rw [← odds_rotateRight_odd hn (by omega), show 2 * (k / 2) + 1 = k by omega]

end BitVec
