import SecureHome.Lib.Interleaved
import Mathlib.Data.Nat.Notation
import Mathlib.Tactic.Common

namespace Ascon

-- The five words of the state, or the halves of these words with the bits at even or at odd positions.
structure Words (w : ℕ) where
  x0 : BitVec w
  x1 : BitVec w
  x2 : BitVec w
  x3 : BitVec w
  x4 : BitVec w
  deriving DecidableEq

-- The state of the backends with 32-bit words, where `W[2 * i]` and `W[2 * i + 1]` are the halves of
-- the word `i`.
structure Sliced where
  even : Words 32
  odd  : Words 32
  deriving DecidableEq

namespace Words

variable {n w : ℕ} {x y : Words w}

def map (f : BitVec n → BitVec w) (x : Words n) : Words w where
  x0 := f x.x0
  x1 := f x.x1
  x2 := f x.x2
  x3 := f x.x3
  x4 := f x.x4

def get (x : Words w) : ℕ → BitVec w
  | 0 => x.x0
  | 1 => x.x1
  | 2 => x.x2
  | 3 => x.x3
  | 4 => x.x4
  | _ => 0

def set (x : Words w) (v : BitVec w) : ℕ → Words w
  | 0 => { x with x0 := v }
  | 1 => { x with x1 := v }
  | 2 => { x with x2 := v }
  | 3 => { x with x3 := v }
  | 4 => { x with x4 := v }
  | _ => x

-- The s-box, bit-sliced. The inversion of `x2` at its end is left to the round.
def sbox (x : Words w) : Words w :=
  let x0 := x.x0 ^^^ x.x4
  let x4 := x.x4 ^^^ x.x3
  let x2 := x.x2 ^^^ x.x1
  let t0 := ~~~x0 &&& x.x1
  let t1 := ~~~x.x1 &&& x2
  let t2 := ~~~x2 &&& x.x3
  let t3 := ~~~x.x3 &&& x4
  let t4 := ~~~x4 &&& x0
  let x0 := x0 ^^^ t1
  let x1 := x.x1 ^^^ t2
  let x2 := x2 ^^^ t3
  let x3 := x.x3 ^^^ t4
  let x4 := x4 ^^^ t0
  let x1 := x1 ^^^ x0
  let x0 := x0 ^^^ x4
  let x3 := x3 ^^^ x2
  { x0, x1, x2, x3, x4 }

def invert (x : Words w) : Words w :=
  { x with x2 := ~~~x.x2 }

def addConstant (c : BitVec w) (x : Words w) : Words w :=
  { x with x2 := x.x2 ^^^ c }

-- The linear diffusion layer.
def diffuse (x : Words 64) : Words 64 where
  x0 := x.x0 ^^^ (x.x0.rotateRight 19 ^^^ x.x0.rotateRight 28)
  x1 := x.x1 ^^^ (x.x1.rotateRight 61 ^^^ x.x1.rotateRight 39)
  x2 := x.x2 ^^^ (x.x2.rotateRight 1  ^^^ x.x2.rotateRight 6)
  x3 := x.x3 ^^^ (x.x3.rotateRight 10 ^^^ x.x3.rotateRight 17)
  x4 := x.x4 ^^^ (x.x4.rotateRight 7  ^^^ x.x4.rotateRight 41)

def slice (x : Words 64) : Sliced where
  even := x.map .evens
  odd  := x.map .odds

end Words

def roundConstant (round : ℕ) : BitVec 64 :=
  .ofNat 64 ((0x0f - round) <<< 4 ||| round)

-- A round of the permutation and the permutation, which ends with round 11.
def round (x : Words 64) (round : ℕ) : Words 64 :=
  (x.addConstant (roundConstant round)).sbox.invert.diffuse

def permute (x : Words 64) (firstRound : ℕ) : Words 64 :=
  (List.range' firstRound (12 - firstRound)).foldl round x

-- The backend for processors with 64-bit words. It moves the inversion of `x2` into the constants.
namespace C64

def round (x : Words 64) (round : ℕ) : Words 64 :=
  (x.addConstant (~~~roundConstant round)).sbox.diffuse

def permute (x : Words 64) (firstRound : ℕ) : Words 64 :=
  ((List.range' firstRound (12 - firstRound)).foldl round x.invert).invert

end C64

namespace Sliced

variable {x : Words 64}

def sbox (x : Sliced) : Sliced where
  even := x.even.sbox
  odd  := x.odd.sbox

def invert (x : Sliced) : Sliced where
  even := x.even.invert
  odd  := x.odd.invert

def addConstants (c : BitVec 32 × BitVec 32) (x : Sliced) : Sliced where
  even := x.even.addConstant c.1
  odd  := x.odd.addConstant c.2

def join (x : Sliced) : Words 64 where
  x0 := .interleave x.even.x0 x.odd.x0
  x1 := .interleave x.even.x1 x.odd.x1
  x2 := .interleave x.even.x2 x.odd.x2
  x3 := .interleave x.even.x3 x.odd.x3
  x4 := .interleave x.even.x4 x.odd.x4

-- The linear diffusion layer by rotations of the halves.
def diffuse (x : Sliced) : Sliced :=
  let ⟨e, o⟩ := x
  let t0 := e.x0 ^^^ o.x0.rotateRight 4
  let t1 := o.x0 ^^^ e.x0.rotateRight 5
  let e0 := e.x0 ^^^ t1.rotateRight 9
  let o0 := o.x0 ^^^ t0.rotateRight 10
  let t0 := e.x1 ^^^ e.x1.rotateRight 11
  let t1 := o.x1 ^^^ o.x1.rotateRight 11
  let e1 := e.x1 ^^^ t1.rotateRight 19
  let o1 := o.x1 ^^^ t0.rotateRight 20
  let t0 := e.x2 ^^^ o.x2.rotateRight 2
  let t1 := o.x2 ^^^ e.x2.rotateRight 3
  let e2 := e.x2 ^^^ t1
  let o2 := o.x2 ^^^ t0.rotateRight 1
  let t0 := e.x3 ^^^ o.x3.rotateRight 3
  let t1 := o.x3 ^^^ e.x3.rotateRight 4
  let e3 := e.x3 ^^^ t0.rotateRight 5
  let o3 := o.x3 ^^^ t1.rotateRight 5
  let t0 := e.x4 ^^^ e.x4.rotateRight 17
  let t1 := o.x4 ^^^ o.x4.rotateRight 17
  let e4 := e.x4 ^^^ t1.rotateRight 3
  let o4 := o.x4 ^^^ t0.rotateRight 4
  { even := ⟨e0, e1, e2, e3, e4⟩, odd := ⟨o0, o1, o2, o3, o4⟩ }

end Sliced

-- The backend for processors with 32-bit words.
namespace C32

def roundConstants : List (BitVec 32 × BitVec 32) :=
  [(12, 12), (9, 12), (12, 9), (9, 9), (6, 12), (3, 12), (6, 9), (3, 9), (12, 6), (9, 6), (12, 3), (9, 3)]

def round (x : Sliced) (round : ℕ) : Sliced :=
  let (c₁, c₂) := roundConstants.getD round 0
  (x.addConstants (~~~c₁, ~~~c₂)).sbox.diffuse

def permute (x : Sliced) (firstRound : ℕ) : Sliced :=
  ((List.range' firstRound (12 - firstRound)).foldl round x.invert).invert

end C32

namespace Words

variable {w n i j : ℕ} {x : Words 64}

theorem get_set {x : Words w} {v : BitVec w} (hi : i < 5) :
    (x.set v i).get j = if j = i then v else x.get j := by
  have hi : i = 0 ∨ i = 1 ∨ i = 2 ∨ i = 3 ∨ i = 4 := by omega
  rcases hi with rfl | rfl | rfl | rfl | rfl <;> match j with
  | 0 | 1 | 2 | 3 | 4 | _ + 5 => simp [get, set]

theorem slice_join {x : Sliced} : x.join.slice = x := by
  simp only [slice, Sliced.join, map, BitVec.evens_interleave rfl, BitVec.odds_interleave rfl]

theorem join_slice : x.slice.join = x := by
  simp only [slice, Sliced.join, map, BitVec.interleave_halves rfl]

theorem slice_sbox : x.sbox.slice = x.slice.sbox := by
  simp only [slice, Sliced.sbox, sbox, map, BitVec.evens_xor, BitVec.odds_xor, BitVec.evens_and,
    BitVec.odds_and, BitVec.evens_not rfl, BitVec.odds_not rfl]

theorem slice_invert : x.invert.slice = x.slice.invert := by
  simp only [slice, Sliced.invert, invert, map, BitVec.evens_not rfl, BitVec.odds_not rfl]

theorem slice_addConstant {c : BitVec 64} :
    (x.addConstant c).slice = x.slice.addConstants (c.evens, c.odds) := by
  simp only [slice, Sliced.addConstants, addConstant, map, BitVec.evens_xor, BitVec.odds_xor]

theorem slice_diffuse : x.diffuse.slice = x.slice.diffuse := by
  simp (disch := decide) only [slice, Sliced.diffuse, diffuse, map, BitVec.evens_xor, BitVec.odds_xor,
    BitVec.evens_rotateRight, BitVec.odds_rotateRight, BitVec.rotateRight_xor, BitVec.rotateRight_add,
    Nat.reduceMod, Nat.reduceDiv, Nat.reduceAdd, reduceIte, one_ne_zero, BitVec.rotateRight_of_dvd]
  simp only [Sliced.mk.injEq, Words.mk.injEq, true_and, and_true]
  exact ⟨by ac_rfl, by ac_rfl⟩

theorem invert_invert : x.invert.invert = x := by
  simp [invert]

-- The diffusion adds up three bits for each bit, so an inversion of all of them goes through it.
theorem diffuse_invert : x.invert.diffuse = x.diffuse.invert := by
  simp only [diffuse, invert, BitVec.rotateRight_not, mk.injEq, true_and, and_true]
  simp only [← BitVec.not_xor_left, ← BitVec.not_xor_right, BitVec.not_not]

end Words

namespace C64

variable {x : Words 64} {r : ℕ}

theorem round_invert : round x.invert r = (Ascon.round x r).invert := by
  have hc : x.invert.addConstant (~~~roundConstant r) = x.addConstant (roundConstant r) := by
    simp only [Words.addConstant, Words.invert, ← BitVec.not_xor_left, ← BitVec.not_xor_right,
      BitVec.not_not]
  rw [round, Ascon.round, Words.diffuse_invert, Words.invert_invert, hc]

theorem permute_eq_permute : permute x r = Ascon.permute x r := by
  rw [permute, List.foldl_hom Words.invert fun _ _ => round_invert,
    Words.invert_invert, Ascon.permute]

end C64

namespace C32

variable {x : Words 64} {r : ℕ}

theorem roundConstants_eq (hr : r < 12) :
    roundConstants.getD r 0 = ((roundConstant r).evens, (roundConstant r).odds) := by
  decide +revert +kernel

theorem round_slice (hr : r < 12) : round x.slice r = (C64.round x r).slice := by
  rw [round, roundConstants_eq hr, C64.round, Words.slice_diffuse, Words.slice_sbox,
    Words.slice_addConstant, BitVec.evens_not rfl, BitVec.odds_not rfl]

theorem foldl_round_slice {rs : List ℕ} (hr : ∀ r ∈ rs, r < 12) :
    rs.foldl round x.slice = (rs.foldl C64.round x).slice := by
  induction rs generalizing x
  case nil => rfl
  case cons r rs hi =>
    rw [List.foldl_cons, List.foldl_cons, round_slice (hr r (by simp))]
    exact hi fun r hr' => hr r (by simp [hr'])

theorem permute_slice : permute x.slice r = (Ascon.permute x r).slice := by
  have hr : ∀ r' ∈ List.range' r (12 - r), r' < 12 := by simp; omega
  rw [← C64.permute_eq_permute, permute, C64.permute, ← Words.slice_invert, foldl_round_slice hr,
    Words.slice_invert]

end C32

end Ascon
