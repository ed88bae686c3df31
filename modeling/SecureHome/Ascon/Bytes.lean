import SecureHome.Ascon.Permutation
import Mathlib.Data.Nat.Notation
import Mathlib.Data.Vector.Basic
import Mathlib.Tactic.Common

-- The state as 40 bytes, and the backend which keeps it in this form.
namespace Ascon

-- A byte of a word in big-endian order. There are no bytes behind the last one.
def byte (v : BitVec 64) (k : ℕ) : UInt8 :=
  .ofBitVec ((v <<< (8 * k)).extractLsb' 56 8)

def beLoadWord64 (ptr : ℕ → UInt8) : BitVec 64 :=
  (ptr 0).toBitVec.setWidth 64 <<< 56 ||| (ptr 1).toBitVec.setWidth 64 <<< 48 |||
  (ptr 2).toBitVec.setWidth 64 <<< 40 ||| (ptr 3).toBitVec.setWidth 64 <<< 32 |||
  (ptr 4).toBitVec.setWidth 64 <<< 24 ||| (ptr 5).toBitVec.setWidth 64 <<< 16 |||
  (ptr 6).toBitVec.setWidth 64 <<< 8  ||| (ptr 7).toBitVec.setWidth 64

theorem getLsbD_byte {v : BitVec 64} {k j : ℕ} (hj : j < 8) :
    (byte v k).toBitVec.getLsbD j = (decide (k < 8) && v.getLsbD (56 - 8 * k + j)) := by
  rw [byte, UInt8.toBitVec_ofBitVec, BitVec.getLsbD_extractLsb', BitVec.getLsbD_shiftLeft]
  by_cases hk : k < 8
  case pos =>
    simp [hj, hk, show ¬56 + j < 8 * k by omega, show 56 + j - 8 * k = 56 - 8 * k + j by omega,
      show 56 + j < 64 by omega]
  case neg => simp [hk, show 56 + j < 8 * k by omega]

-- The conversion `(uint8_t)(value >> shift)`.
theorem byte_eq {v : BitVec 64} {k : ℕ} (hk : k < 8) :
    byte v k = .ofBitVec ((v >>> (56 - 8 * k)).setWidth 8) := by
  apply UInt8.toBitVec_inj.mp
  apply BitVec.eq_of_getLsbD_eq
  intro j hj
  rw [getLsbD_byte hj]
  simp [hj, hk]

theorem eq_of_byte {v v' : BitVec 64} (h : ∀ k < 8, byte v k = byte v' k) : v = v' := by
  apply BitVec.eq_of_getLsbD_eq
  intro i hi
  have hb := congrArg (fun x : UInt8 => x.toBitVec.getLsbD (i % 8)) (h (7 - i / 8) (by omega))
  simp only [getLsbD_byte (Nat.mod_lt i (by decide : 0 < 8))] at hb
  rwa [show 56 - 8 * (7 - i / 8) + i % 8 = i by omega, decide_eq_true (by omega : 7 - i / 8 < 8),
    Bool.true_and, Bool.true_and] at hb

theorem byte_of_le {v : BitVec 64} {k : ℕ} (hk : 8 ≤ k) : byte v k = 0 := by
  apply UInt8.toBitVec_inj.mp
  apply BitVec.eq_of_getLsbD_eq
  intro j hj
  rw [getLsbD_byte hj, decide_eq_false (Nat.not_lt.mpr hk), Bool.false_and]
  simp

theorem byte_xor {v v' : BitVec 64} {k : ℕ} : byte (v ^^^ v') k = byte v k ^^^ byte v' k := by
  apply UInt8.toBitVec_inj.mp
  apply BitVec.eq_of_getLsbD_eq
  intro j hj
  simp [getLsbD_byte hj, Bool.and_xor_distrib_left]

theorem byte_or {v v' : BitVec 64} {k : ℕ} : byte (v ||| v') k = byte v k ||| byte v' k := by
  apply UInt8.toBitVec_inj.mp
  apply BitVec.eq_of_getLsbD_eq
  intro j hj
  simp [getLsbD_byte hj, Bool.and_or_distrib_left]

-- A byte that is shifted to its place in a word.
theorem byte_shiftLeft {x : UInt8} {m k : ℕ} (hm : m < 8) :
    byte (x.toBitVec.setWidth 64 <<< (56 - 8 * m)) k = if k = m then x else 0 := by
  apply UInt8.toBitVec_inj.mp
  apply BitVec.eq_of_getLsbD_eq
  intro j hj
  rw [getLsbD_byte hj, BitVec.getLsbD_shiftLeft, BitVec.getLsbD_setWidth]
  rcases Nat.lt_trichotomy k m with h | rfl | h
  case inl =>
    have hx : x.toBitVec.getLsbD (56 - 8 * k + j - (56 - 8 * m)) = false :=
      BitVec.getLsbD_of_ge _ _ (by omega)
    rw [if_neg (by omega), hx]
    simp
  case inr.inl =>
    simp [hm, show 56 - 8 * k + j < 64 by omega, show j < 64 by omega,
      show ¬56 - 8 * k + j < 56 - 8 * k by omega]
  case inr.inr =>
    by_cases hk : k < 8
    case pos =>
      rw [if_neg (by omega), decide_eq_true (p := 56 - 8 * k + j < 56 - 8 * m) (by omega)]
      simp
    case neg => simp [hk, show k ≠ m by omega]

theorem byte_beLoadWord64 {ptr : ℕ → UInt8} {k : ℕ} (hk : k < 8) : byte (beLoadWord64 ptr) k = ptr k := by
  have h {x m} (hm) := byte_shiftLeft (x := x) (m := m) (k := k) hm
  have h0 {x : UInt8} : x.toBitVec.setWidth 64 = x.toBitVec.setWidth 64 <<< (56 - 8 * 7) := by simp
  rw [beLoadWord64, h0 (x := ptr 7)]
  simp only [byte_or]
  have hk' : k = 0 ∨ k = 1 ∨ k = 2 ∨ k = 3 ∨ k = 4 ∨ k = 5 ∨ k = 6 ∨ k = 7 := by omega
  rw [h (m := 7) (by decide), h (m := 0) (by decide), h (m := 1) (by decide), h (m := 2) (by decide),
    h (m := 3) (by decide), h (m := 4) (by decide), h (m := 5) (by decide), h (m := 6) (by decide)]
  rcases hk' with rfl | rfl | rfl | rfl | rfl | rfl | rfl | rfl <;> simp

-- The bytes of the state in the order of the interface. There are none behind the last one.
def Words.view (x : Words 64) (n : ℕ) : UInt8 :=
  byte (x.get (n / 8)) (n % 8)

section

variable {α β : Type} {f : UInt8 → α → UInt8 × β} {b b' : ℕ → UInt8} {input input' : List α}
  {offset n : ℕ}

-- An operation on the bytes from an offset on, where each byte of the state and of the input gives the
-- new byte of the state and a byte of the output.
def each (f : UInt8 → α → UInt8 × β) (b : ℕ → UInt8) :
    List α → (offset : ℕ) → (ℕ → UInt8) × List β
  | [], _ => (b, [])
  | x :: input, offset =>
    let r := f (b offset) x
    let s := each f (fun n => if n = offset then r.1 else b n) input (offset + 1)
    (s.1, r.2 :: s.2)

theorem each_append : each f b (input ++ input') offset =
    let r := each f b input offset
    let s := each f r.1 input' (offset + input.length)
    (s.1, r.2 ++ s.2) := by
  induction input generalizing b offset
  case nil => rfl
  case cons x input hi =>
    rw [List.cons_append, each, each, hi]
    simp [Nat.add_assoc, Nat.add_comm 1]

theorem each_fst : (each f b input offset).1 n =
    if offset ≤ n then (input[n - offset]?).elim (b n) fun x => (f (b n) x).1 else b n := by
  induction input generalizing b offset
  case nil => simp [each]
  case cons x input hi =>
    rw [each, hi]
    rcases Nat.lt_trichotomy n offset with h | rfl | h
    case inl     => simp [Nat.not_le.mpr h, show ¬offset + 1 ≤ n by omega, Nat.ne_of_lt h]
    case inr.inl => simp
    case inr.inr =>
      simp [Nat.le_of_lt h, show offset + 1 ≤ n by omega, Nat.ne_of_gt h,
        show n - offset = n - (offset + 1) + 1 by omega]

theorem each_snd : (each f b input offset).2 = input.mapIdx fun i x => (f (b (offset + i)) x).2 := by
  induction input generalizing b offset
  case nil => rfl
  case cons x input hi =>
    simp [each, hi, List.mapIdx_cons, Nat.add_assoc, Nat.add_comm 1]

theorem each_fst_eq_self (hf : ∀ b y, (f b y).1 = b) : (each f b input offset).1 = b := by
  induction input generalizing b offset
  case nil => rfl
  case cons x input hi =>
    rw [each, hi, hf]
    funext n
    by_cases hn : n = offset <;> simp [hn]

theorem byte_eq_each {v w : BitVec 64} {m : ℕ} (hm : m + input.length ≤ 8)
    (h : ∀ k < 8, byte v k = (each f (byte w) input m).1 k) : byte v = (each f (byte w) input m).1 := by
  funext k
  by_cases hk : k < 8
  case pos => exact h k hk
  case neg =>
    rw [byte_of_le (Nat.not_lt.mp hk), each_fst]
    split
    case isTrue hm' =>
      rw [List.getElem?_eq_none (by omega)]
      exact (byte_of_le (Nat.not_lt.mp hk)).symm
    case isFalse => exact (byte_of_le (Nat.not_lt.mp hk)).symm

-- An operation within one word of the state only changes this word.
theorem each_view {x : Words 64} {v : BitVec 64} {i m : ℕ} (hi : i < 5) (hm : m + input.length ≤ 8)
    (hv : byte v = (each f (byte (x.get i)) input m).1) :
    each f x.view input (8 * i + m) = ((x.set v i).view, (each f (byte (x.get i)) input m).2) := by
  refine Prod.ext (funext fun n => ?_) ?_
  case refine_1 =>
    rw [each_fst]
    simp only [Words.view, Words.get_set hi]
    by_cases hn : n / 8 = i
    case pos =>
      rw [if_pos hn, hv, each_fst, hn, show n - (8 * i + m) = n % 8 - m by omega]
      by_cases h : m ≤ n % 8
      case pos => rw [if_pos h, if_pos (by omega)]
      case neg => rw [if_neg h, if_neg (by omega)]
    case neg =>
      rw [if_neg hn]
      split
      case isTrue h =>
        rw [List.getElem?_eq_none (by omega)]
        rfl
      case isFalse => rfl
  case refine_2 =>
    rw [each_snd, each_snd]
    apply List.ext_getElem (by simp)
    intro j hj _
    have hj : j < input.length := by simpa using hj
    simp [Words.view, show (8 * i + m + j) / 8 = i by omega, show (8 * i + m + j) % 8 = m + j by omega]

end

end Ascon
