import SecureHome.Ascon.Permutation
import Mathlib.Data.Fintype.EquivFin
import Mathlib.Data.Fintype.Prod
import Mathlib.Tactic.Common

-- The permutation can be inverted, so no two states are ever mapped to the same one.
namespace Ascon

namespace Words

variable {w i : ℕ} {x y : Words w}

-- The bits of the five words at one position.
def column (x : Words w) (i : ℕ) : Words 1 :=
  x.map fun x => .ofBool (x.getLsbD i)

theorem ext_column (h : ∀ i < w, x.column i = y.column i) : x = y := by
  have hb (f : {n : ℕ} → Words n → BitVec n)
      (hf : ∀ (z : Words w) i, f (z.column i) = .ofBool ((f z).getLsbD i)) : f x = f y := by
    apply BitVec.eq_of_getLsbD_eq
    intro i hi
    have h := congrArg f (h i hi)
    rw [hf, hf] at h
    simpa using congrArg (BitVec.getLsbD · 0) h
  have h0 := hb Words.x0 fun _ _ => rfl
  have h1 := hb Words.x1 fun _ _ => rfl
  have h2 := hb Words.x2 fun _ _ => rfl
  have h3 := hb Words.x3 fun _ _ => rfl
  have h4 := hb Words.x4 fun _ _ => rfl
  cases x
  cases y
  simp_all

-- The s-box works on each column on its own.
theorem column_sbox (hi : i < w) : x.sbox.column i = (x.column i).sbox := by
  simp only [column, map, sbox, BitVec.getLsbD_xor, BitVec.getLsbD_and, BitVec.getLsbD_not, hi,
    decide_true, Bool.true_and, ← BitVec.ofBool_xor_ofBool, ← BitVec.ofBool_and_ofBool,
    ← BitVec.not_ofBool]

theorem sbox_injective_one : ∀ a b c d e a' b' c' d' e' : Bool,
    sbox (w := 1) ⟨.ofBool a, .ofBool b, .ofBool c, .ofBool d, .ofBool e⟩ =
      sbox ⟨.ofBool a', .ofBool b', .ofBool c', .ofBool d', .ofBool e'⟩ →
      a = a' ∧ b = b' ∧ c = c' ∧ d = d' ∧ e = e' := by
  decide +kernel

theorem sbox_injective : Function.Injective (sbox (w := w)) := by
  intro x y h
  apply ext_column
  intro i hi
  have h := congrArg (column · i) h
  simp only [column_sbox hi] at h
  obtain ⟨h0, h1, h2, h3, h4⟩ := sbox_injective_one _ _ _ _ _ _ _ _ _ _ h
  rw [column, column, map, map, h0, h1, h2, h3, h4]

theorem invert_injective : Function.Injective (invert (w := w)) :=
  Function.LeftInverse.injective (g := invert) fun _ => by simp [invert]

theorem addConstant_injective {c : BitVec w} : Function.Injective (addConstant c) :=
  Function.LeftInverse.injective (g := addConstant c) fun _ => by
    simp only [addConstant, BitVec.xor_assoc, BitVec.xor_self, BitVec.xor_zero]

-- One word of the diffusion layer. Applied twice it is the same map with twice the rotations, because
-- everything else cancels out, so it can be undone by applying it often enough.
def sigma (j k : ℕ) (x : BitVec w) : BitVec w :=
  x ^^^ (x.rotateRight j ^^^ x.rotateRight k)

theorem sigma_sigma {j k : ℕ} {x : BitVec w} : sigma j k (sigma j k x) = sigma (2 * j) (2 * k) x := by
  have hc {a b c d e f : BitVec w} :
      a ^^^ (b ^^^ c) ^^^ (b ^^^ (d ^^^ e) ^^^ (c ^^^ (e ^^^ f))) = a ^^^ (d ^^^ f) :=
    calc a ^^^ (b ^^^ c) ^^^ (b ^^^ (d ^^^ e) ^^^ (c ^^^ (e ^^^ f)))
      _ = (b ^^^ b) ^^^ (c ^^^ c) ^^^ (e ^^^ e) ^^^ (a ^^^ (d ^^^ f)) := by ac_rfl
      _ = a ^^^ (d ^^^ f)                                             := by simp
  simp only [sigma, BitVec.rotateRight_xor, BitVec.rotateRight_add, Nat.two_mul, Nat.add_comm k j, hc]

theorem sigma_injective {j k : ℕ} : Function.Injective (sigma (w := 64) j k) := by
  have hs {j k : ℕ} (h : Function.Injective (sigma (w := 64) (2 * j) (2 * k))) :
      Function.Injective (sigma (w := 64) j k) := by
    refine fun x y hx => h ?_
    rw [← sigma_sigma, ← sigma_sigma, hx]
  refine hs (hs (hs (hs (hs (hs fun x y h => ?_)))))
  have hd (z : BitVec 64) (k : ℕ) : z.rotateRight (2 * (2 * (2 * (2 * (2 * (2 * k)))))) = z :=
    BitVec.rotateRight_of_dvd ⟨k, by omega⟩
  simpa only [sigma, hd, BitVec.xor_self, BitVec.xor_zero] using h

theorem diffuse_injective : Function.Injective diffuse := by
  intro x y h
  obtain ⟨h0, h1, h2, h3, h4⟩ := Words.mk.inj h
  have h0 : x.x0 = y.x0 := sigma_injective h0
  have h1 : x.x1 = y.x1 := sigma_injective h1
  have h2 : x.x2 = y.x2 := sigma_injective h2
  have h3 : x.x3 = y.x3 := sigma_injective h3
  have h4 : x.x4 = y.x4 := sigma_injective h4
  cases x
  cases y
  simp_all

end Words

theorem round_injective {r : ℕ} : Function.Injective (round · r) :=
  Words.diffuse_injective.comp
    (Words.invert_injective.comp (Words.sbox_injective.comp Words.addConstant_injective))

theorem foldl_round_injective {rs : List ℕ} : Function.Injective (rs.foldl round) := by
  induction rs
  case nil          => exact Function.injective_id
  case cons r rs hi => exact hi.comp round_injective

theorem permute_injective {r : ℕ} : Function.Injective (permute · r) :=
  foldl_round_injective

instance {w : ℕ} : Finite (Words w) :=
  Finite.of_injective (fun x : Words w => (x.x0.toFin, x.x1.toFin, x.x2.toFin, x.x3.toFin, x.x4.toFin)) <| by
    intro x y h
    cases x
    cases y
    simpa [BitVec.toFin_inj] using h

theorem permute_bijective {r : ℕ} : Function.Bijective (permute · r) :=
  Finite.injective_iff_bijective.mp permute_injective

end Ascon
