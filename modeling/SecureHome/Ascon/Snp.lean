import SecureHome.Ascon.Bytes
import SecureHome.Lib.Backend
import Mathlib.Data.Nat.Notation
import Mathlib.Tactic.Common

-- The interface of the permutation, and the backend which keeps the state as bytes.
namespace Ascon

-- The initial values that are stored as tables.
inductive Iv
  | xof
  | hash

inductive Snp
  | init
  | initTable (iv : Iv)
  | addBytes (data : List UInt8) (offset : ℕ)
  | overwriteBytes (data : List UInt8) (offset : ℕ)
  | overwriteWithZeroes (offset size : ℕ)
  | extractBytes (offset size : ℕ)
  | extractAndAddBytes (input : List UInt8) (offset : ℕ)
  | extractAndOverwriteBytes (input : List UInt8) (offset : ℕ)
  | absorb8 (data : List UInt8) (offset : ℕ)
  | squeeze8 (offset : ℕ)
  | pad (offset : ℕ)
  | separator
  | permute (firstRound : UInt8)

-- The operations that have an output return its bytes.
abbrev snp : Sig where
  Op := Snp
  Ret
    | .extractBytes ..             => List UInt8
    | .extractAndAddBytes ..       => List UInt8
    | .extractAndOverwriteBytes .. => List UInt8
    | .squeeze8 ..                 => List UInt8
    | _                            => Unit

abbrev Snp.call (o : Snp) : Prog snp (snp.Ret o) :=
  Prog.perform (S := snp) o

-- What the callers of the interface must keep to: no access leaves the state, and the operations on
-- whole words are aligned.
def Snp.Valid : Snp → Prop
  | addBytes data offset                  => offset + data.length ≤ 40
  | overwriteBytes data offset            => offset + data.length ≤ 40
  | overwriteWithZeroes offset size       => offset + size ≤ 40
  | extractBytes offset size              => offset + size ≤ 40
  | extractAndAddBytes input offset       => offset + input.length ≤ 40
  | extractAndOverwriteBytes input offset => offset + input.length ≤ 40
  | absorb8 data offset                   => data.length = 8 ∧ offset % 8 = 0 ∧ offset + 8 ≤ 40
  | squeeze8 offset                       => offset % 8 = 0 ∧ offset + 8 ≤ 40
  | pad offset                            => offset < 40
  | _                                     => True

namespace Direct

abbrev State := Vector UInt8 40

def view (b : State) (n : ℕ) : UInt8 :=
  b[n]?.getD 0

section

variable {α β : Type}

-- The loop of all functions on bytes.
def loop (f : UInt8 → α → UInt8 × β) (b : State) : List α → (offset : ℕ) → State × List β
  | [], _ => (b, [])
  | x :: input, offset =>
    if h : offset < 40 then
      let r := f (b.get ⟨offset, h⟩) x
      let s := loop f (b.set offset r.1 h) input (offset + 1)
      (s.1, r.2 :: s.2)
    else
      (b, [])

variable {f : UInt8 → α → UInt8 × β} {b : State} {input : List α} {offset n : ℕ}

theorem view_set {y : UInt8} {h : offset < 40} :
    view (b.set offset y h) = fun n => if n = offset then y else view b n := by
  funext n
  by_cases hn : n = offset
  case pos => simp [view, hn]
  case neg => simp [view, hn, Ne.symm hn]

theorem view_loop (h : offset + input.length ≤ 40) :
    (view (loop f b input offset).1, (loop f b input offset).2) = each f (view b) input offset := by
  induction input generalizing b offset
  case nil => rfl
  case cons x input hi =>
    have ho : offset < 40 := by simp at h; omega
    have hv : view b offset = b.get ⟨offset, ho⟩ := by simp [view, ho, Vector.get]
    rw [loop, dif_pos ho, each, hv, ← view_set (h := ho), ← hi (by simp at h; omega)]

theorem view_loop_fst (h : offset + input.length ≤ 40) :
    view (loop f b input offset).1 = (each f (view b) input offset).1 :=
  congrArg Prod.fst (view_loop h)

theorem loop_snd (h : offset + input.length ≤ 40) :
    (loop f b input offset).2 = (each f (view b) input offset).2 :=
  congrArg Prod.snd (view_loop h)

theorem ext_view {b b' : State} (h : ∀ n < 40, view b n = view b' n) : b = b' := by
  apply Vector.ext
  intro n hn
  simpa [view, hn] using h n hn

end

def addBytes (b : State) (data : List UInt8) (offset : ℕ) : State :=
  (loop (fun b x => (b ^^^ x, ())) b data offset).1

def overwriteBytes (b : State) (data : List UInt8) (offset : ℕ) : State :=
  (loop (fun _ x => (x, ())) b data offset).1

def overwriteWithZeroes (b : State) (offset size : ℕ) : State :=
  (loop (fun _ _ => (0, ())) b (.replicate size ()) offset).1

def extractBytes (b : State) (offset size : ℕ) : List UInt8 :=
  (loop (fun b _ => (b, b)) b (.replicate size ()) offset).2

def extractAndAddBytes (b : State) (input : List UInt8) (offset : ℕ) : List UInt8 :=
  (loop (fun b x => (b, x ^^^ b)) b input offset).2

def extractAndOverwriteBytes (b : State) (input : List UInt8) (offset : ℕ) : State × List UInt8 :=
  loop (fun b x => (x, x ^^^ b)) b input offset

def load (b : State) : Words 64 where
  x0 := beLoadWord64 (view b)
  x1 := beLoadWord64 fun k => view b (8 + k)
  x2 := beLoadWord64 fun k => view b (16 + k)
  x3 := beLoadWord64 fun k => view b (24 + k)
  x4 := beLoadWord64 fun k => view b (32 + k)

def store (x : Words 64) : State :=
  .ofFn fun n => byte (x.get (n / 8)) (n % 8)

def permute (b : State) (firstRound : UInt8) : State :=
  store (C64.permute (load b) firstRound.toNat)

def init : State :=
  .replicate 40 0

def iv : Iv → State
  | .xof => #v[
      0xb5, 0x7e, 0x27, 0x3b, 0x81, 0x4c, 0xd4, 0x16, 0x2b, 0x51, 0x04, 0x25, 0x62, 0xae,
      0x24, 0x20, 0x66, 0xa3, 0xa7, 0x76, 0x8d, 0xdf, 0x22, 0x18, 0x5a, 0xad, 0x0a, 0x7a,
      0x81, 0x53, 0x65, 0x0c, 0x4f, 0x3e, 0x0e, 0x32, 0x53, 0x94, 0x93, 0xb6]
  | .hash => #v[
      0xee, 0x93, 0x98, 0xaa, 0xdb, 0x67, 0xf0, 0x3d, 0x8b, 0xb2, 0x18, 0x31, 0xc6, 0x0f,
      0x10, 0x02, 0xb4, 0x8a, 0x92, 0xdb, 0x98, 0xd5, 0xda, 0x62, 0x43, 0x18, 0x99, 0x21,
      0xb8, 0xf8, 0xe3, 0xe8, 0x34, 0x8f, 0xa5, 0xc9, 0xd5, 0x25, 0xe1, 0x40]

def exec : (o : Snp) → State → snp.Ret o × State
  | .init, _                                   => ((), init)
  | .initTable i, _                            => ((), iv i)
  | .addBytes data offset, b                   => ((), addBytes b data offset)
  | .overwriteBytes data offset, b             => ((), overwriteBytes b data offset)
  | .overwriteWithZeroes offset size, b        => ((), overwriteWithZeroes b offset size)
  | .extractBytes offset size, b               => (extractBytes b offset size, b)
  | .extractAndAddBytes input offset, b        => (extractAndAddBytes b input offset, b)
  | .extractAndOverwriteBytes input offset, b  => (extractAndOverwriteBytes b input offset).swap
  | .absorb8 data offset, b                    => ((), addBytes b data offset)
  | .squeeze8 offset, b                        => (extractBytes b offset 8, b)
  | .pad offset, b                             => ((), addBytes b [0x80] offset)
  | .separator, b                              => ((), addBytes b [0x01] 39)
  | .permute firstRound, b                     => ((), permute b firstRound)

variable {b : State} {x : Words 64} {r : UInt8} {i : Iv}

theorem view_store : view (store x) = x.view := by
  funext n
  by_cases hn : n < 40
  case pos => simp [view, store, Words.view, hn]
  case neg =>
    have hx : x.get (n / 8) = 0 := by
      obtain ⟨i, hi⟩ : ∃ i, n / 8 = i + 5 := ⟨n / 8 - 5, by omega⟩
      rw [hi]
      rfl
    simp [view, Words.view, hn, hx, byte]

-- The bytes of the state determine the words, so there is only one way to load them.
theorem load_eq (h : view b = x.view) : load b = x := by
  have hw (i : ℕ) (hi : i < 5) : beLoadWord64 (fun k => view b (8 * i + k)) = x.get i := by
    refine eq_of_byte fun k hk => ?_
    rw [byte_beLoadWord64 hk, h, Words.view, show (8 * i + k) / 8 = i by omega,
      show (8 * i + k) % 8 = k by omega]
  have h0 : beLoadWord64 (view b) = x.get 0 := by simpa using hw 0 (by decide)
  rw [load, h0, hw 1 (by decide), hw 2 (by decide), hw 3 (by decide), hw 4 (by decide)]
  rfl

theorem view_permute (h : view b = x.view) : view (permute b r) = (Ascon.permute x r.toNat).view := by
  rw [permute, load_eq h, C64.permute_eq_permute, view_store]

end Direct

end Ascon
