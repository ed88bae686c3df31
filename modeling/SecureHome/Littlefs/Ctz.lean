import Mathlib.NumberTheory.Padics.PadicVal.Basic
import Mathlib.Data.Nat.Size

open Finset

-- The layout of a file in blocks, where the blocks are linked to a skip list.
namespace Littlefs

-- The number of binary ones.
def popc (a : ℕ) : ℕ :=
  (Nat.digits 2 a).sum

-- The number of trailing binary zeros.
def ctz (a : ℕ) : ℕ :=
  padicValNat 2 a

-- The exponent of the smallest power of two that is not below `a`.
def npw2 (a : ℕ) : ℕ :=
  (a - 1).size

-- The block of a position and the offset there.
def ctzIndex (blockSize off : UInt32) : UInt32 × UInt32 :=
  let size := off
  let b := blockSize - 2 * 4
  let i := size / b
  if i = 0 then
    (0, off)
  else
    let i := (size - 4 * (.ofNat (popc (i - 1).toNat) + 2)) / b
    (i, size - b * i - 4 * .ofNat (popc i.toNat))

-- The block at an index begins with this number of pointers.
def pointers (i : ℕ) : ℕ :=
  if i = 0 then 0 else ctz i + 1

-- The position of the first byte in the block at an index.
def start (blockSize i : ℕ) : ℕ :=
  ∑ j ∈ range i, (blockSize - 4 * pointers j)

-- The indices that are needed for positions of 32 bits.
def maxIndex := 2 ^ 26

variable {i j n : ℕ} {blockSize pos : UInt32}

theorem popc_add_ctz : popc (n + 1) + ctz (n + 1) = popc n + 1 := by
  have hs := sub_one_mul_padicValNat_factorial (p := 2) (n + 1)
  have h := sub_one_mul_padicValNat_factorial (p := 2) n
  rw [Nat.factorial_succ, padicValNat.mul (Nat.succ_ne_zero n) (Nat.factorial_ne_zero n)] at hs
  have hl := Nat.digit_sum_le 2 n
  have hl' := Nat.digit_sum_le 2 (n + 1)
  simp only [popc, ctz, Nat.add_one_sub_one, one_mul, Nat.succ_eq_add_one] at *
  omega

theorem pow_dvd_iff (hn : n ≠ 0) : 2 ^ i ∣ n ↔ i ≤ ctz n :=
  padicValNat_dvd_iff_le hn

theorem popc_lt (h : n < 2 ^ i) : popc n ≤ i := by
  induction i generalizing n
  case zero => simp [popc, Nat.lt_one_iff.mp h]
  case succ i hi =>
    rcases Nat.eq_zero_or_pos n with rfl | hn
    case inl => simp [popc]
    case inr =>
      have hd := hi (n := n / 2) (by omega)
      rw [popc, Nat.digits_def' (by decide) hn, List.sum_cons]
      rw [popc] at hd
      omega

theorem ctz_lt (hn : n ≠ 0) (h : n < 2 ^ i) : ctz n < i := by
  have hd := Nat.le_of_dvd (Nat.pos_of_ne_zero hn) ((pow_dvd_iff hn).mpr (Nat.le_refl _))
  exact (Nat.pow_lt_pow_iff_right (by decide)).mp (Nat.lt_of_le_of_lt hd h)

theorem pointers_le (h : i < maxIndex) : pointers i ≤ 26 := by
  unfold pointers
  split
  case isTrue  => decide
  case isFalse hi => exact ctz_lt hi h

theorem start_succ : start n (i + 1) = start n i + (n - 4 * pointers i) :=
  sum_range_succ ..

theorem start_mono (h : i ≤ j) : start n i ≤ start n j :=
  sum_le_sum_of_subset (range_subset_range.mpr h)

-- A block is shorter than the first one by two pointers on average.
theorem start_eq (hn : 120 ≤ n) (hi : i < maxIndex) : start (n + 8) (i + 1) = n * (i + 1) + 8 + 4 * popc i := by
  induction i
  case zero => simp [start, pointers, popc]
  case succ i h =>
    have hp := pointers_le hi
    have hc := popc_add_ctz (n := i)
    have h := h (by omega)
    rw [start_succ, Nat.mul_add n (i + 1) 1]
    rw [pointers, if_neg (Nat.succ_ne_zero i)] at hp ⊢
    omega

-- A position lies in the block at an index, at an offset behind the pointers.
structure Located (n pos i off : ℕ) : Prop where
  eq : start n i + off = pos + 4 * pointers i
  le : 4 * pointers i ≤ off
  lt : off < n

theorem Located.of_start {p : ℕ} (h : start n i ≤ p) (h' : p < start n (i + 1)) :
    Located n p i (p - start n i + 4 * pointers i) := by
  rw [start_succ] at h'
  exact ⟨by omega, by omega, by omega⟩

namespace Located

variable {p off off' : ℕ}

theorem start_le (h : Located n p i off) : start n i ≤ p := by
  have heq := h.eq
  have hle := h.le
  omega

theorem lt_start (h : Located n p i off) : p < start n (i + 1) := by
  have heq := h.eq
  have hlt := h.lt
  rw [start_succ]
  omega

-- A position lies at one place only.
theorem unique (h : Located n p i off) (h' : Located n p j off') : i = j ∧ off = off' := by
  have hij : i = j := by
    rcases Nat.lt_trichotomy i j with hl | he | hl
    case inl => exact absurd (h.lt_start.trans_le (start_mono hl)) h'.start_le.not_gt
    case inr.inl => exact he
    case inr.inr => exact absurd (h'.lt_start.trans_le (start_mono hl)) h.start_le.not_gt
  subst hij
  have heq := h.eq
  have heq' := h'.eq
  exact ⟨rfl, by omega⟩

theorem mono {q : ℕ} (h : Located n p i off) (h' : Located n q j off') (hle : p ≤ q) : i ≤ j :=
  Nat.le_of_not_lt fun hl =>
    absurd (h'.lt_start.trans_le (start_mono hl)) (h.start_le.trans hle).not_gt

-- The positions behind are in the same block up to its end.
theorem add {d : ℕ} (h : Located n p i off) (hl : off + d < n) : Located n (p + d) i (off + d) :=
  ⟨by rw [← Nat.add_assoc, h.eq]; omega, Nat.le_add_right_of_le h.le, hl⟩

end Located

theorem start_zero : start n 0 = 0 :=
  rfl

theorem start_one : start n 1 = n := by
  simp [start, pointers]

-- The quotient counts the block before if the position is in front of where its block would begin without
-- the pointers.
theorem start_div {p m : ℕ} (hn : 120 ≤ n) (hm : m + 1 < maxIndex) (hd : p / n = m + 1) :
    start (n + 8) ((p - 4 * (popc m + 2)) / n) ≤ p ∧ p < start (n + 8) ((p - 4 * (popc m + 2)) / n + 1) ∧
      (p - 4 * (popc m + 2)) / n < maxIndex := by
  have hm' : m < maxIndex := Nat.lt_of_succ_lt hm
  have hc := popc_lt (n := m) (i := 26) hm'
  have hs := start_eq hn hm'
  have hle : n * (m + 1) ≤ p := by
    rw [← hd]
    exact Nat.mul_div_le p n
  have hlt : p < n * (m + 1) + n := by
    rw [← hd]
    exact Nat.lt_mul_div_succ p (by omega)
  have hmul := Nat.mul_add_one n m
  have hmul' := Nat.mul_add_one n (m + 1)
  rcases Nat.lt_or_ge p (start (n + 8) (m + 1)) with hp | hp
  case inl =>
    have he : (p - 4 * (popc m + 2)) / n = m :=
      Nat.div_eq_of_lt_le (by rw [Nat.mul_comm _ n]; omega) (by rw [Nat.mul_comm _ n]; omega)
    rw [he]
    refine ⟨?_, hp, hm'⟩
    rcases m with _ | m
    case zero => exact Nat.zero_le _
    case succ =>
      have hc' := popc_lt (n := m) (i := 26) (Nat.lt_of_succ_lt hm')
      rw [start_eq hn (Nat.lt_of_succ_lt hm')]
      omega
  case inr =>
    have he : (p - 4 * (popc m + 2)) / n = m + 1 :=
      Nat.div_eq_of_lt_le (by rw [Nat.mul_comm _ n]; omega) (by rw [Nat.mul_comm _ n]; omega)
    rw [he]
    refine ⟨hp, ?_, hm⟩
    rw [start_eq hn hm]
    omega

theorem offset_eq {p : ℕ} (hn : 120 ≤ n) (hi : i < maxIndex) (hs : start (n + 8) i ≤ p) :
    n * i + 4 * popc i ≤ p ∧ p - n * i - 4 * popc i = p - start (n + 8) i + 4 * pointers i := by
  rcases i with _ | i
  case zero => simp [popc, pointers, start_zero]
  case succ =>
    have hc := popc_add_ctz (n := i)
    rw [start_eq hn (Nat.lt_of_succ_lt hi)] at hs ⊢
    rw [pointers, if_neg (Nat.succ_ne_zero i)]
    omega

theorem toNat_four_mul {a : ℕ} (h : a < 2 ^ 30) : (4 * UInt32.ofNat a).toNat = 4 * a := by
  rw [UInt32.toNat_mul, UInt32.toNat_ofNat_of_lt' (Nat.lt_trans h (by decide))]
  exact Nat.mod_eq_of_lt (by simp only [UInt32.reduceToNat]; omega)

theorem toNat_sub {a b : UInt32} (h : b.toNat ≤ a.toNat) : (a - b).toNat = a.toNat - b.toNat :=
  UInt32.toNat_sub_of_le _ _ (UInt32.le_iff_toNat_le.mpr h)

-- Whether nothing wraps in `ctzIndex`: no difference in it is negative, and each product and each sum is
-- a part of a position. `m` is the `i - 1` whose ones are counted first.
def NoWrap (n p : ℕ) : Prop :=
  2 * 4 ≤ n ∧ ∀ m, p / (n - 2 * 4) = m + 1 →
    4 * (popc m + 2) ≤ p ∧
      let i := (p - 4 * (popc m + 2)) / (n - 2 * 4)
      (n - 2 * 4) * i + 4 * popc i ≤ p

theorem lt_maxIndex_of_div_eq {p m : ℕ} (hn : 120 ≤ n) (hp : p < 2 ^ 32) (hm : p / n = m + 1) :
    m + 1 < maxIndex := by
  rw [← hm]
  exact Nat.lt_of_le_of_lt (Nat.div_le_div_left hn (by decide)) (by simp only [maxIndex]; omega)

theorem noWrap_of_le {p : ℕ} (hn : 128 ≤ n) (hp : p < 2 ^ 32) : NoWrap n p := by
  obtain ⟨b, rfl⟩ := Nat.exists_eq_add_of_le' (show 8 ≤ n by omega)
  have hb : 120 ≤ b := by omega
  refine ⟨Nat.le_add_left .., fun m hm => ?_⟩
  change p / b = m + 1 at hm
  have hi := lt_maxIndex_of_div_eq hb hp hm
  have hc := popc_lt (n := m) (i := 26) (Nat.lt_of_succ_lt hi)
  have hle : b ≤ p := Nat.le_of_not_lt fun hl => by
    rw [Nat.div_eq_of_lt hl] at hm
    contradiction
  obtain ⟨hs, -, hi⟩ := start_div hb hi hm
  exact ⟨by omega, (offset_eq hb hi hs).left⟩

theorem ctzIndex_spec (hB : 128 ≤ blockSize.toNat) :
    (ctzIndex blockSize pos).1.toNat < maxIndex ∧
      Located blockSize.toNat pos.toNat (ctzIndex blockSize pos).1.toNat (ctzIndex blockSize pos).2.toNat := by
  have hp : pos.toNat < 2 ^ 32 := pos.toNat_lt
  have hw := (noWrap_of_le hB hp).right
  obtain ⟨b, hb⟩ := Nat.exists_eq_add_of_le' (show 8 ≤ blockSize.toNat by omega)
  have hb' : 120 ≤ b := by omega
  rw [hb, Nat.add_sub_cancel] at hw
  have hbs : (blockSize - 2 * 4).toNat = b := by
    rw [toNat_sub (Nat.le_trans (by decide) hB), hb]
    rfl
  have hd : (pos / (blockSize - 2 * 4)).toNat = pos.toNat / b := by
    rw [UInt32.toNat_div, hbs]
  rcases hm : pos.toNat / b with _ | m
  case zero =>
    have h : pos / (blockSize - 2 * 4) = 0 := UInt32.toNat_inj.mp (hd.trans hm)
    have hl : pos.toNat < b := Nat.lt_of_div_eq_zero (by omega) hm
    simp only [ctzIndex, if_pos h]
    refine ⟨by decide, Located.of_start (i := 0) (Nat.zero_le _) ?_⟩
    rw [start_one]
    omega
  case succ =>
    have h : pos / (blockSize - 2 * 4) ≠ 0 := fun h => by
      rw [h] at hd
      exact absurd (hd.trans hm) (by simp)
    have hi := lt_maxIndex_of_div_eq hb' hp hm
    have hc := popc_lt (n := m) (i := 26) (Nat.lt_of_succ_lt hi)
    have hm' : (pos / (blockSize - 2 * 4) - 1).toNat = m := by
      rw [toNat_sub (by rw [hd, hm]; exact Nat.le_add_left ..), hd, hm]
      rfl
    obtain ⟨hsz, hoff⟩ := hw m hm
    have hi' : ((pos - 4 * (.ofNat (popc m) + 2)) / (blockSize - 2 * 4)).toNat =
        (pos.toNat - 4 * (popc m + 2)) / b := by
      have ha : (4 * (UInt32.ofNat (popc m) + 2)).toNat = 4 * (popc m + 2) := by
        rw [show UInt32.ofNat (popc m) + 2 = .ofNat (popc m + 2) from (UInt32.ofNat_add ..).symm]
        exact toNat_four_mul (by omega)
      rw [UInt32.toNat_div, hbs, toNat_sub (by rw [ha]; exact hsz), ha]
    obtain ⟨hs, hs', hi⟩ := start_div hb' hi hm
    simp only [ctzIndex, if_neg h, hm', hi']
    generalize hI : (pos - 4 * (.ofNat (popc m) + 2)) / (blockSize - 2 * 4) = I at hi' ⊢
    rw [← hi'] at hs hs' hi hoff ⊢
    rw [hb]
    have hc := popc_lt (n := I.toNat) (i := 26) hi
    have hml : ((blockSize - 2 * 4) * I).toNat = b * I.toNat := by
      rw [UInt32.toNat_mul, hbs]
      exact Nat.mod_eq_of_lt (by omega)
    have hm4 : (4 * UInt32.ofNat (popc I.toNat)).toNat = 4 * popc I.toNat := toNat_four_mul (by omega)
    have hs₁ : (pos - (blockSize - 2 * 4) * I).toNat = pos.toNat - b * I.toNat := by
      rw [toNat_sub (by rw [hml]; omega), hml]
    rw [toNat_sub (by rw [hs₁, hm4]; omega), hs₁, hm4, (offset_eq hb' hi hs).right]
    exact ⟨hi, .of_start hs hs'⟩

-- The index and the offset are the only place of the position, and nothing wraps.
theorem ctzIndex_iff {index off : UInt32} (hB : 128 ≤ blockSize.toNat) :
    NoWrap blockSize.toNat pos.toNat ∧
      (ctzIndex blockSize pos = (index, off) ↔
        Located blockSize.toNat pos.toNat index.toNat off.toNat) := by
  refine ⟨noWrap_of_le hB pos.toNat_lt, ?_⟩
  have hl := (@ctzIndex_spec _ pos hB).right
  constructor
  case mp =>
    intro h
    rw [h] at hl
    exact hl
  case mpr =>
    intro h
    obtain ⟨hi, ho⟩ := hl.unique h
    exact Prod.ext (UInt32.toNat_inj.mp hi) (UInt32.toNat_inj.mp ho)

-- The second block begins with one pointer.
theorem ctzIndex_iff_second :
    128 ≤ UInt32.toNat 4096 ∧ start 4096 1 = 4096 ∧ pointers 1 = 1 ∧ ctzIndex 4096 5000 = (1, 908) := by
  have hs : start 4096 1 = 4096 := start_one
  have hp : pointers 1 = 1 := by simp [pointers, ctz]
  refine ⟨by decide, hs, hp, (ctzIndex_iff (by decide)).right.mpr ⟨?_, ?_, by decide⟩⟩
  case refine_1 =>
    change start 4096 1 + 908 = 5000 + 4 * pointers 1
    rw [hs, hp]
  case refine_2 =>
    change 4 * pointers 1 ≤ 908
    rw [hp]
    decide

end Littlefs
