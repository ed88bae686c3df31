import SecureHome.Ascon.Armv7m
import SecureHome.Ascon.Snp
import Mathlib.Data.Nat.Notation
import Mathlib.Tactic.Common

-- The backend of the firmware, which keeps the even and the odd bits of the words apart.
namespace Ascon.Sliced32

def bitPermuteStep (y mask : BitVec 32) (shift : ℕ) : BitVec 32 :=
  let t := ((y >>> shift) ^^^ y) &&& mask
  (y ^^^ t) ^^^ (t <<< shift)

-- The even bits to the lower half and the odd ones to the upper half.
def separate (x : BitVec 32) : BitVec 32 :=
  let x := bitPermuteStep x 0x22222222 1
  let x := bitPermuteStep x 0x0c0c0c0c 2
  let x := bitPermuteStep x 0x00f000f0 4
  bitPermuteStep x 0x0000ff00 8

def combine (x : BitVec 32) : BitVec 32 :=
  let x := bitPermuteStep x 0x0000aaaa 15
  let x := bitPermuteStep x 0x0000cccc 14
  let x := bitPermuteStep x 0x0000f0f0 12
  bitPermuteStep x 0x0000ff00 8

variable {x y mask high low : BitVec 32} {shift i : ℕ} {v : BitVec 64}

-- A step exchanges the bits of the mask with those at a distance.
def exchange (mask : BitVec 32) (shift i : ℕ) : ℕ :=
  if mask.getLsbD i then i + shift else if shift ≤ i ∧ mask.getLsbD (i - shift) then i - shift else i

theorem getLsbD_bitPermuteStep
    (hm : ∀ i < 32, mask.getLsbD i → ¬(shift ≤ i ∧ mask.getLsbD (i - shift)) ∧ i + shift < 32)
    (hi : i < 32) : (bitPermuteStep y mask shift).getLsbD i = y.getLsbD (exchange mask shift i) := by
  have hx (a b : Bool) : (a ^^ (b ^^ a)) = b := by cases a <;> cases b <;> rfl
  simp only [bitPermuteStep, BitVec.getLsbD_xor, BitVec.getLsbD_and, BitVec.getLsbD_ushiftRight,
    BitVec.getLsbD_shiftLeft, hi, decide_true, Bool.true_and, exchange]
  by_cases h : mask.getLsbD i
  case pos =>
    have hn := (hm i hi h).left
    by_cases hs : shift ≤ i
    case pos =>
      have hn : mask.getLsbD (i - shift) = false := by simpa [hs] using hn
      simp [h, hn, hx, Nat.add_comm i]
    case neg => simp [h, hx, Nat.lt_of_not_le hs, Nat.add_comm i]
  case neg =>
    by_cases hs : shift ≤ i
    case pos =>
      by_cases hn : mask.getLsbD (i - shift)
      case pos => simp [h, hs, hn, Nat.not_lt.mpr hs, Nat.add_sub_cancel' hs]
      case neg => simp [h, hn]
    case neg => simp [h, hs, Nat.lt_of_not_le hs]

theorem getLsbD_separate (hi : i < 32) :
    (separate x).getLsbD i = x.getLsbD (if i < 16 then 2 * i else 2 * (i - 16) + 1) := by
  have h : ∀ i < 32, exchange 0x0000ff00 8 i < 32 ∧ exchange 0x00f000f0 4 (exchange 0x0000ff00 8 i) < 32 ∧
      exchange 0x0c0c0c0c 2 (exchange 0x00f000f0 4 (exchange 0x0000ff00 8 i)) < 32 ∧
      exchange 0x22222222 1 (exchange 0x0c0c0c0c 2 (exchange 0x00f000f0 4 (exchange 0x0000ff00 8 i))) =
        if i < 16 then 2 * i else 2 * (i - 16) + 1 := by decide
  obtain ⟨h₁, h₂, h₃, h⟩ := h i hi
  rw [separate, getLsbD_bitPermuteStep (by decide) hi, getLsbD_bitPermuteStep (by decide) h₁,
    getLsbD_bitPermuteStep (by decide) h₂, getLsbD_bitPermuteStep (by decide) h₃, h]

theorem getLsbD_combine (hi : i < 32) :
    (combine x).getLsbD i = x.getLsbD (if i % 2 = 0 then i / 2 else 16 + i / 2) := by
  have h : ∀ i < 32, exchange 0x0000ff00 8 i < 32 ∧ exchange 0x0000f0f0 12 (exchange 0x0000ff00 8 i) < 32 ∧
      exchange 0x0000cccc 14 (exchange 0x0000f0f0 12 (exchange 0x0000ff00 8 i)) < 32 ∧
      exchange 0x0000aaaa 15 (exchange 0x0000cccc 14 (exchange 0x0000f0f0 12 (exchange 0x0000ff00 8 i))) =
        if i % 2 = 0 then i / 2 else 16 + i / 2 := by decide
  obtain ⟨h₁, h₂, h₃, h⟩ := h i hi
  rw [combine, getLsbD_bitPermuteStep (by decide) hi, getLsbD_bitPermuteStep (by decide) h₁,
    getLsbD_bitPermuteStep (by decide) h₂, getLsbD_bitPermuteStep (by decide) h₃, h]

theorem combine_separate : combine (separate x) = x := by
  apply BitVec.eq_of_getLsbD_eq
  intro i hi
  rw [getLsbD_combine hi]
  split
  case isTrue h =>
    rw [getLsbD_separate (by omega), if_pos (by omega)]
    congr 1
    omega
  case isFalse h =>
    rw [getLsbD_separate (by omega), if_neg (by omega)]
    congr 1
    omega

-- The two words of the state for the separated halves of a word, and back.
def pack (high low : BitVec 32) : BitVec 32 × BitVec 32 :=
  ((high <<< 16) ||| (low &&& 0x0000ffff#32), (high &&& 0xffff0000#32) ||| (low >>> 16))

def unpack (w : BitVec 32 × BitVec 32) : BitVec 32 × BitVec 32 :=
  ((w.1 >>> 16) ||| (w.2 &&& 0xffff0000#32), (w.1 &&& 0x0000ffff#32) ||| (w.2 <<< 16))

theorem getLsbD_and_low (hi : i < 32) :
    (x &&& 0x0000ffff#32).getLsbD i = (decide (i < 16) && x.getLsbD i) := by
  have h : ∀ i < 32, (0x0000ffff#32).getLsbD i = decide (i < 16) := by decide
  rw [BitVec.getLsbD_and, h i hi, Bool.and_comm]

theorem getLsbD_and_high (hi : i < 32) :
    (x &&& 0xffff0000#32).getLsbD i = (decide (16 ≤ i) && x.getLsbD i) := by
  have h : ∀ i < 32, (0xffff0000#32).getLsbD i = decide (16 ≤ i) := by decide
  rw [BitVec.getLsbD_and, h i hi, Bool.and_comm]

theorem getLsbD_pack_fst (hi : i < 32) :
    (pack high low).1.getLsbD i = if i < 16 then low.getLsbD i else high.getLsbD (i - 16) := by
  rw [pack, BitVec.getLsbD_or, BitVec.getLsbD_shiftLeft, getLsbD_and_low hi]
  by_cases h : i < 16 <;> simp [h, hi]

theorem getLsbD_pack_snd (hi : i < 32) :
    (pack high low).2.getLsbD i = if i < 16 then low.getLsbD (16 + i) else high.getLsbD i := by
  rw [pack, BitVec.getLsbD_or, BitVec.getLsbD_ushiftRight, getLsbD_and_high hi]
  by_cases h : i < 16
  case pos => simp [h, Nat.not_le.mpr h]
  case neg => simp [h, Nat.not_lt.mp h, BitVec.getLsbD_of_ge low (16 + i) (by omega)]

theorem getLsbD_unpack_fst {w : BitVec 32 × BitVec 32} (hi : i < 32) :
    (unpack w).1.getLsbD i = if i < 16 then w.1.getLsbD (16 + i) else w.2.getLsbD i := by
  rw [unpack, BitVec.getLsbD_or, BitVec.getLsbD_ushiftRight, getLsbD_and_high hi]
  by_cases h : i < 16
  case pos => simp [h, Nat.not_le.mpr h]
  case neg => simp [h, Nat.not_lt.mp h, BitVec.getLsbD_of_ge w.1 (16 + i) (by omega)]

theorem getLsbD_unpack_snd {w : BitVec 32 × BitVec 32} (hi : i < 32) :
    (unpack w).2.getLsbD i = if i < 16 then w.1.getLsbD i else w.2.getLsbD (i - 16) := by
  rw [unpack, BitVec.getLsbD_or, BitVec.getLsbD_shiftLeft, getLsbD_and_low hi]
  by_cases h : i < 16 <;> simp [h, hi]

theorem unpack_pack : unpack (pack high low) = (high, low) := by
  refine Prod.ext (BitVec.eq_of_getLsbD_eq fun i hi => ?_) (BitVec.eq_of_getLsbD_eq fun i hi => ?_)
  case refine_1 =>
    rw [getLsbD_unpack_fst hi]
    split
    case isTrue h  => rw [getLsbD_pack_fst (by omega), if_neg (by omega), Nat.add_sub_cancel_left]
    case isFalse h => rw [getLsbD_pack_snd hi, if_neg h]
  case refine_2 =>
    rw [getLsbD_unpack_snd hi]
    split
    case isTrue h  => rw [getLsbD_pack_fst hi, if_pos h]
    case isFalse h => rw [getLsbD_pack_snd (by omega), if_pos (by omega), Nat.add_sub_cancel' (by omega)]

-- The words of the state are the halves of the word that is put together from both halves.
theorem pack_separate :
    pack (separate high) (separate low) = ((high ++ low).evens, (high ++ low).odds) := by
  refine Prod.ext (BitVec.eq_of_getLsbD_eq fun i hi => ?_) (BitVec.eq_of_getLsbD_eq fun i hi => ?_)
  case refine_1 =>
    rw [getLsbD_pack_fst hi, BitVec.getLsbD_evens hi, BitVec.getLsbD_append]
    split
    case isTrue h =>
      rw [getLsbD_separate hi, if_pos h, if_pos (by omega)]
    case isFalse h =>
      rw [getLsbD_separate (by omega), if_pos (by omega), if_neg (by omega)]
      congr 1
      omega
  case refine_2 =>
    rw [getLsbD_pack_snd hi, BitVec.getLsbD_odds hi, BitVec.getLsbD_append]
    split
    case isTrue h =>
      rw [getLsbD_separate (by omega), if_neg (by omega), if_pos (by omega)]
      congr 1
      omega
    case isFalse h =>
      rw [getLsbD_separate hi, if_neg h, if_neg (by omega)]
      congr 1
      omega

abbrev State := Sliced

-- The words `W[2 * i]` and `W[2 * i + 1]`.
def getWords (s : State) (i : ℕ) : BitVec 32 × BitVec 32 :=
  (s.even.get i, s.odd.get i)

def setWords (s : State) (i : ℕ) (w : BitVec 32 × BitVec 32) : State where
  even := s.even.set w.1 i
  odd  := s.odd.set w.2 i

def xorWords (s : State) (i : ℕ) (w : BitVec 32 × BitVec 32) : State :=
  setWords s i ((getWords s i).1 ^^^ w.1, (getWords s i).2 ^^^ w.2)

def beLoadWord32 (ptr : ℕ → UInt8) : BitVec 32 :=
  (ptr 0).toBitVec.setWidth 32 <<< 24 ||| (ptr 1).toBitVec.setWidth 32 <<< 16 |||
  (ptr 2).toBitVec.setWidth 32 <<< 8  ||| (ptr 3).toBitVec.setWidth 32

def beStoreWord32 (x : BitVec 32) : List UInt8 :=
  [.ofBitVec ((x >>> 24).setWidth 8), .ofBitVec ((x >>> 16).setWidth 8), .ofBitVec ((x >>> 8).setWidth 8),
    .ofBitVec (x.setWidth 8)]

def setWord64 (s : State) (value : BitVec 64) (i : ℕ) : State :=
  setWords s i (pack (separate ((value >>> 32).setWidth 32)) (separate (value.setWidth 32)))

def absorbWord64 (s : State) (value : BitVec 64) (i : ℕ) : State :=
  xorWords s i (pack (separate ((value >>> 32).setWidth 32)) (separate (value.setWidth 32)))

def squeezeWord64 (s : State) (i : ℕ) : BitVec 64 :=
  let w := unpack (getWords s i)
  (combine w.1).setWidth 64 <<< 32 ||| (combine w.2).setWidth 64

-- The variants of these functions that read eight bytes from a pointer or write them there.
def loadSliced (data : List UInt8) : BitVec 32 × BitVec 32 :=
  (separate (beLoadWord32 fun k => data.getD k 0), separate (beLoadWord32 fun k => data.getD (4 + k) 0))

def storeSliced (w : BitVec 32 × BitVec 32) : List UInt8 :=
  beStoreWord32 (combine w.1) ++ beStoreWord32 (combine w.2)

def setSliced (s : State) (data : List UInt8) (i : ℕ) : State :=
  setWords s i (pack (loadSliced data).1 (loadSliced data).2)

def absorbSliced (s : State) (data : List UInt8) (i : ℕ) : State :=
  xorWords s i (pack (loadSliced data).1 (loadSliced data).2)

def squeezeSliced (s : State) (i : ℕ) : List UInt8 :=
  storeSliced (unpack (getWords s i))

def decryptSliced (s : State) (c : List UInt8) (i : ℕ) : State × List UInt8 :=
  let w := loadSliced c
  let high2 := w.1 ^^^ (unpack (getWords s i)).1
  let low2 := w.2 ^^^ (unpack (getWords s i)).2
  (setWords s i (pack w.1 w.2), storeSliced (high2, low2))

def decryptSlicedNoInsert (s : State) (c : List UInt8) (i : ℕ) : List UInt8 :=
  let w := loadSliced c
  storeSliced (w.1 ^^^ (unpack (getWords s i)).1, w.2 ^^^ (unpack (getWords s i)).2)

-- The operations in terms of the words of 64 bits.
section

variable {x : Words 64}

theorem append_halves : (v >>> 32).setWidth 32 ++ v.setWidth 32 = v := by
  apply BitVec.eq_of_getLsbD_eq
  intro i hi
  rw [BitVec.getLsbD_append]
  split
  case isTrue h  => simp [h]
  case isFalse h => simp [show i - 32 < 32 by omega, show 32 + (i - 32) = i by omega]

theorem shiftLeft_or_setWidth : high.setWidth 64 <<< 32 ||| low.setWidth 64 = high ++ low := by
  apply BitVec.eq_of_getLsbD_eq
  intro i hi
  rw [BitVec.getLsbD_append, BitVec.getLsbD_or, BitVec.getLsbD_shiftLeft]
  split
  case isTrue h  => simp [h, hi]
  case isFalse h => simp [hi, h, show i - 32 < 64 by omega, BitVec.getLsbD_of_ge low i (by omega)]

theorem getWords_slice : getWords x.slice i = ((x.get i).evens, (x.get i).odds) := by
  match i with
  | 0 | 1 | 2 | 3 | 4 => rfl
  | _ + 5             =>
    have h : ((0 : BitVec 64).evens, (0 : BitVec 64).odds) = ((0 : BitVec 32), (0 : BitVec 32)) := by
      decide +kernel
    exact h.symm

theorem setWords_slice : setWords x.slice i (v.evens, v.odds) = (x.set v i).slice := by
  match i with
  | 0 | 1 | 2 | 3 | 4 | _ + 5 => rfl

theorem setWords_zero : setWords x.slice i (0, 0) = (x.set 0 i).slice := by
  have h : ((0 : BitVec 32), (0 : BitVec 32)) = ((0 : BitVec 64).evens, (0 : BitVec 64).odds) := by
    decide +kernel
  rw [h, setWords_slice]

theorem setWord64_slice : setWord64 x.slice v i = (x.set v i).slice := by
  rw [setWord64, pack_separate, append_halves, setWords_slice]

theorem absorbWord64_slice : absorbWord64 x.slice v i = (x.set (x.get i ^^^ v) i).slice := by
  rw [absorbWord64, pack_separate, append_halves, xorWords, getWords_slice, ← BitVec.evens_xor,
    ← BitVec.odds_xor, setWords_slice]

-- Any two words are what the separated halves of a word are packed to.
theorem unpack_halves : unpack (v.evens, v.odds) =
    (separate ((v >>> 32).setWidth 32), separate (v.setWidth 32)) := by
  rw [← append_halves (v := v), ← pack_separate, unpack_pack, append_halves]

theorem squeezeWord64_slice : squeezeWord64 x.slice i = x.get i := by
  rw [squeezeWord64, getWords_slice, unpack_halves, combine_separate, combine_separate,
    shiftLeft_or_setWidth, append_halves]

theorem setWidth_shiftLeft {x : UInt8} {j : ℕ} (hj : j ≤ 24) :
    (x.toBitVec.setWidth 32 <<< j).setWidth 64 = x.toBitVec.setWidth 64 <<< j := by
  apply BitVec.eq_of_getLsbD_eq
  intro i hi
  simp only [BitVec.getLsbD_shiftLeft, BitVec.getLsbD_setWidth]
  by_cases h : i < j
  case pos => simp [h]
  case neg =>
    by_cases hx : 8 ≤ i - j
    case pos => simp [BitVec.getLsbD_of_ge x.toBitVec (i - j) hx]
    case neg => simp [h, hi, show i < 32 by omega, show i - j < 32 by omega, show i - j < 64 by omega]

theorem beLoadWord32_append {ptr : ℕ → UInt8} :
    beLoadWord32 ptr ++ beLoadWord32 (fun k => ptr (4 + k)) = beLoadWord64 ptr := by
  have h (x : UInt8) : (x.toBitVec.setWidth 32).setWidth 64 = x.toBitVec.setWidth 64 := by
    simpa only [BitVec.shiftLeft_zero] using setWidth_shiftLeft (x := x) (j := 0) (by decide)
  rw [← shiftLeft_or_setWidth, beLoadWord32, beLoadWord32, beLoadWord64]
  simp (disch := decide) only [BitVec.setWidth_or, BitVec.shiftLeft_or_distrib, setWidth_shiftLeft, h,
    ← BitVec.shiftLeft_add, Nat.reduceAdd, BitVec.or_assoc]

-- A byte of one of the halves of a word.
theorem ofBitVec_low {k : ℕ} (hk : k < 4) :
    UInt8.ofBitVec ((v.setWidth 32 >>> (8 * k)).setWidth 8) = byte v (7 - k) := by
  apply UInt8.toBitVec_inj.mp
  apply BitVec.eq_of_getLsbD_eq
  intro j hj
  rw [getLsbD_byte hj, UInt8.toBitVec_ofBitVec, BitVec.getLsbD_setWidth, BitVec.getLsbD_ushiftRight,
    BitVec.getLsbD_setWidth]
  simp [hj, show 7 - k < 8 by omega, show 8 * k + j < 32 by omega,
    show 56 - 8 * (7 - k) + j = 8 * k + j by omega]

theorem ofBitVec_high {k : ℕ} (hk : k < 4) :
    UInt8.ofBitVec (((v >>> 32).setWidth 32 >>> (8 * k)).setWidth 8) = byte v (3 - k) := by
  apply UInt8.toBitVec_inj.mp
  apply BitVec.eq_of_getLsbD_eq
  intro j hj
  rw [getLsbD_byte hj, UInt8.toBitVec_ofBitVec, BitVec.getLsbD_setWidth, BitVec.getLsbD_ushiftRight,
    BitVec.getLsbD_setWidth, BitVec.getLsbD_ushiftRight]
  simp [hj, show 3 - k < 8 by omega, show 8 * k + j < 32 by omega,
    show 56 - 8 * (3 - k) + j = 32 + (8 * k + j) by omega]

theorem beStoreWord32_append : beStoreWord32 ((v >>> 32).setWidth 32) ++ beStoreWord32 (v.setWidth 32) =
    [byte v 0, byte v 1, byte v 2, byte v 3, byte v 4, byte v 5, byte v 6, byte v 7] := by
  have hl {k} (hk) := ofBitVec_low (v := v) (k := k) hk
  have hh {k} (hk) := ofBitVec_high (v := v) (k := k) hk
  rw [← hh (k := 3) (by decide), ← hh (k := 2) (by decide), ← hh (k := 1) (by decide),
    ← hh (k := 0) (by decide), ← hl (k := 3) (by decide), ← hl (k := 2) (by decide),
    ← hl (k := 1) (by decide), ← hl (k := 0) (by decide)]
  rfl

theorem pack_loadSliced {data : List UInt8} : pack (loadSliced data).1 (loadSliced data).2 =
    ((beLoadWord64 fun k => data.getD k 0).evens, (beLoadWord64 fun k => data.getD k 0).odds) := by
  rw [loadSliced, pack_separate, beLoadWord32_append]

theorem storeSliced_unpack : storeSliced (unpack (v.evens, v.odds)) =
    [byte v 0, byte v 1, byte v 2, byte v 3, byte v 4, byte v 5, byte v 6, byte v 7] := by
  rw [storeSliced, unpack_halves, combine_separate, combine_separate, beStoreWord32_append]

theorem separate_xor {x y : BitVec 32} : separate x ^^^ separate y = separate (x ^^^ y) := by
  apply BitVec.eq_of_getLsbD_eq
  intro i hi
  simp only [BitVec.getLsbD_xor, getLsbD_separate hi]

theorem setSliced_slice {data : List UInt8} :
    setSliced x.slice data i = (x.set (beLoadWord64 fun k => data.getD k 0) i).slice := by
  rw [setSliced, pack_loadSliced, setWords_slice]

theorem absorbSliced_slice {data : List UInt8} :
    absorbSliced x.slice data i =
      (x.set (x.get i ^^^ beLoadWord64 fun k => data.getD k 0) i).slice := by
  rw [absorbSliced, pack_loadSliced, xorWords, getWords_slice, ← BitVec.evens_xor, ← BitVec.odds_xor,
    setWords_slice]

-- The eight bytes of a word.
def bytes (v : BitVec 64) : List UInt8 :=
  [byte v 0, byte v 1, byte v 2, byte v 3, byte v 4, byte v 5, byte v 6, byte v 7]

theorem squeezeSliced_slice : squeezeSliced x.slice i = bytes (x.get i) := by
  rw [squeezeSliced, getWords_slice, storeSliced_unpack, bytes]

theorem loadSliced_eq {data : List UInt8} (hv : beLoadWord64 (data.getD · 0) = v) :
    loadSliced data = (separate ((v >>> 32).setWidth 32), separate (v.setWidth 32)) := by
  rw [← unpack_halves, ← hv, ← pack_loadSliced, unpack_pack]

theorem decryptSlicedNoInsert_slice {c : List UInt8} :
    decryptSlicedNoInsert x.slice c i = bytes ((beLoadWord64 fun k => c.getD k 0) ^^^ x.get i) := by
  rw [decryptSlicedNoInsert, getWords_slice, unpack_halves, loadSliced_eq rfl]
  simp only [storeSliced, separate_xor, combine_separate, ← BitVec.setWidth_xor,
    ← BitVec.ushiftRight_xor_distrib, beStoreWord32_append, bytes]

theorem decryptSliced_slice {c : List UInt8} : decryptSliced x.slice c i =
    ((x.set (beLoadWord64 fun k => c.getD k 0) i).slice,
      bytes ((beLoadWord64 fun k => c.getD k 0) ^^^ x.get i)) := by
  have hd : decryptSliced x.slice c i = (setSliced x.slice c i, decryptSlicedNoInsert x.slice c i) := rfl
  rw [hd, setSliced_slice, decryptSlicedNoInsert_slice]

end

end Ascon.Sliced32
