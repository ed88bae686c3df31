import SecureHome.Ascon.Sliced32
import Mathlib.Data.Nat.Notation
import Mathlib.Tactic.Common

namespace Ascon.Sliced32

-- The loops over the bytes of one word.
section

variable {α β : Type}

def loop (step : BitVec 64 → α → (shift : ℕ) → BitVec 64 × β) (value : BitVec 64) :
    List α → (shift : ℕ) → BitVec 64 × List β
  | [], _ => (value, [])
  | x :: input, shift =>
    let r := step value x shift
    let s := loop step r.1 input (shift - 8)
    (s.1, r.2 :: s.2)

-- How the functions on bytes split a range: what is left of the first word, then whole words as long as
-- there are any, and the rest in the last word.
def words (part : State → (i ofs : ℕ) → List α → State × List β)
    (full : State → (i : ℕ) → List α → State × List β) (s : State) (input : List α) (offset : ℕ) :
    State × List β :=
  if 8 ≤ input.length then
    let r := full s (offset / 8) (input.take 8)
    let r' := words part full r.1 (input.drop 8) (offset + 8)
    (r'.1, r.2 ++ r'.2)
  else if 0 < input.length then
    part s (offset / 8) 0 input
  else
    (s, [])
termination_by input.length

def split (part : State → (i ofs : ℕ) → List α → State × List β)
    (full : State → (i : ℕ) → List α → State × List β) (s : State) (input : List α) (offset : ℕ) :
    State × List β :=
  let ofs := offset % 8
  if ofs ≠ 0 then
    let r := part s (offset / 8) ofs (input.take (8 - ofs))
    let r' := words part full r.1 (input.drop (8 - ofs)) (offset + min (8 - ofs) input.length)
    (r'.1, r.2 ++ r'.2)
  else
    words part full s input offset

end

def insert (value : BitVec 64) (x : UInt8) (shift : ℕ) : BitVec 64 :=
  value ||| x.toBitVec.setWidth 64 <<< shift

def clear (value : BitVec 64) (shift : ℕ) : BitVec 64 :=
  value &&& ~~~(0xff#64 <<< shift)

def extract (value : BitVec 64) (shift : ℕ) : UInt8 :=
  .ofBitVec ((value >>> shift).setWidth 8)

def addBytes (s : State) (data : List UInt8) (offset : ℕ) : State :=
  let part s i ofs data :=
    let r := loop (fun v x shift => (insert v x shift, ())) 0 data ((7 - ofs) * 8)
    (absorbWord64 s r.1 i, r.2)
  let full s i data := (absorbSliced s data i, data.map fun _ => ())
  (split part full s data offset).1

def overwriteBytes (s : State) (data : List UInt8) (offset : ℕ) : State :=
  let part s i ofs data :=
    let r := loop (fun v x shift => (insert (clear v shift) x shift, ())) (squeezeWord64 s i) data
      ((7 - ofs) * 8)
    (setWord64 s r.1 i, r.2)
  let full s i data := (setSliced s data i, data.map fun _ => ())
  (split part full s data offset).1

-- The zeroes in a part of a word. The masks keep the bytes before and behind them.
def keepOutside (value : BitVec 64) (ofs size : ℕ) : BitVec 64 :=
  if ofs ≠ 0 then
    (value &&& (~~~0#64) <<< ((8 - ofs) * 8)) ||| (value &&& (1#64 <<< ((8 - ofs - size) * 8)) - 1)
  else
    value &&& (~~~0#64) >>> (size * 8)

def overwriteWithZeroes (s : State) (offset size : ℕ) : State :=
  let part s i ofs (zeroes : List Unit) :=
    (setWord64 s (keepOutside (squeezeWord64 s i) ofs zeroes.length) i, zeroes)
  let full s i zeroes := (setWords s i (0, 0), zeroes)
  (split part full s (.replicate size ()) offset).1

def extractBytes (s : State) (offset size : ℕ) : List UInt8 :=
  let part s i ofs input :=
    (s, (loop (fun v _ shift => (v, extract v shift)) (squeezeWord64 s i) input ((7 - ofs) * 8)).2)
  let full s i _ := (s, squeezeSliced s i)
  (split part full s (.replicate size ()) offset).2

def extractAndAddBytes (s : State) (input : List UInt8) (offset : ℕ) : List UInt8 :=
  let part s i ofs input :=
    (s, (loop (fun v x shift => (v, x ^^^ extract v shift)) (squeezeWord64 s i) input ((7 - ofs) * 8)).2)
  let full s i input := (s, decryptSlicedNoInsert s input i)
  (split part full s input offset).2

def extractAndOverwriteBytes (s : State) (input : List UInt8) (offset : ℕ) : State × List UInt8 :=
  let part s i ofs input :=
    let r := loop (fun v x shift => (insert (clear v shift) x shift, x ^^^ extract v shift))
      (squeezeWord64 s i) input ((7 - ofs) * 8)
    (setWord64 s r.1 i, r.2)
  let full s i input := decryptSliced s input i
  split part full s input offset

def pad (s : State) (offset : ℕ) : State :=
  xorWords s (offset / 8) (0, 0x80000000#32 >>> ((offset % 8) * 4))

def init : State where
  even := ⟨0, 0, 0, 0, 0⟩
  odd  := ⟨0, 0, 0, 0, 0⟩

def iv : Iv → State
  | .xof => {
      even := ⟨0x7e351ae6, 0x1d238220, 0xa13e3f04, 0xc30c1db2, 0xb624d656⟩
      odd  := ⟨0xc7578281, 0x70045f44, 0x5dd5ab52, 0x3e378142, 0x3735189d⟩ }
  | .hash => {
      even := ⟨0xa540dbc7, 0x1445a340, 0x604d4fc8, 0x94514c98, 0x6339f398⟩
      odd  := ⟨0xf9afb5c6, 0xbd249301, 0xcb9ba8b5, 0x12a4eede, 0x4bca84c0⟩ }

-- The permutation of this backend is the one in assembly language.
def exec : (o : Snp) → State → snp.Ret o × State
  | .init, _                                   => ((), init)
  | .initTable i, _                            => ((), iv i)
  | .addBytes data offset, s                   => ((), addBytes s data offset)
  | .overwriteBytes data offset, s             => ((), overwriteBytes s data offset)
  | .overwriteWithZeroes offset size, s        => ((), overwriteWithZeroes s offset size)
  | .extractBytes offset size, s               => (extractBytes s offset size, s)
  | .extractAndAddBytes input offset, s        => (extractAndAddBytes s input offset, s)
  | .extractAndOverwriteBytes input offset, s  => (extractAndOverwriteBytes s input offset).swap
  | .absorb8 data offset, s                    => ((), absorbSliced s data (offset / 8))
  | .squeeze8 offset, s                        => (squeezeSliced s (offset / 8), s)
  | .pad offset, s                             => ((), pad s offset)
  | .separator, s                              => ((), xorWords s 4 (1, 0))
  | .permute firstRound, s                     => ((), Asm.permute s firstRound)

-- What each function does to the bytes of the state.
section

variable {α β : Type} {f : UInt8 → α → UInt8 × β} {input input' : List α} {offset m : ℕ} {x : Words 64}
  {part : State → (i ofs : ℕ) → List α → State × List β}
  {full : State → (i : ℕ) → List α → State × List β}

theorem loop_spec {g : BitVec 64 → α → (shift : ℕ) → BitVec 64 × β}
    (hs : ∀ v x m, m < 8 →
      (byte (g v x (56 - 8 * m)).1 = fun n => if n = m then (f (byte v m) x).1 else byte v n) ∧
      (g v x (56 - 8 * m)).2 = (f (byte v m) x).2) (hm : m + input.length ≤ 8) :
    byte (loop g v input ((7 - m) * 8)).1 = (each f (byte v) input m).1 ∧
      (loop g v input ((7 - m) * 8)).2 = (each f (byte v) input m).2 := by
  induction input generalizing v m
  case nil => exact ⟨rfl, rfl⟩
  case cons x input hi =>
    have hm' : m < 8 := by simp at hm; omega
    obtain ⟨h₁, h₂⟩ := hs v x m hm'
    obtain ⟨hi₁, hi₂⟩ := hi (v := (g v x (56 - 8 * m)).1) (m := m + 1) (by simp at hm; omega)
    rw [loop, each, show (7 - m) * 8 = 56 - 8 * m by omega, show 56 - 8 * m - 8 = (7 - (m + 1)) * 8 by omega,
      h₂, ← h₁, ← hi₂]
    exact ⟨hi₁, rfl⟩

-- The result of a function that does an operation on some bytes.
def Does (f : UInt8 → α → UInt8 × β) (x : Words 64) (input : List α) (offset : ℕ)
    (r : State × List β) : Prop :=
  ∃ x' : Words 64, r.1 = x'.slice ∧ (x'.view, r.2) = each f x.view input offset

theorem Does.append (input' : List α) {r : State × List β} (r' : State × List β) (h : Does f x input offset r)
    (h' : ∀ x' : Words 64, r.1 = x'.slice → Does f x' input' (offset + input.length) r') :
    Does f x (input ++ input') offset (r'.1, r.2 ++ r'.2) := by
  obtain ⟨x', hx, he⟩ := h
  obtain ⟨x'', hx', he'⟩ := h' x' hx
  refine ⟨x'', hx', ?_⟩
  rw [each_append, ← he]
  simp only [← he']

-- The specification of the code for a part of a word and for a whole word.
structure Spec (f : UInt8 → α → UInt8 × β) (part : State → (i ofs : ℕ) → List α → State × List β)
    (full : State → (i : ℕ) → List α → State × List β) : Prop where
  part : ∀ (x : Words 64) i ofs input, i < 5 → ofs + input.length ≤ 8 →
    Does f x input (8 * i + ofs) (part x.slice i ofs input)
  full : ∀ (x : Words 64) i input, i < 5 → input.length = 8 → Does f x input (8 * i) (full x.slice i input)

theorem Spec.words (h : Spec f part full) (ho : offset % 8 = 0) (hl : offset + input.length ≤ 40) :
    Does f x input offset (words part full x.slice input offset) := by
  generalize hn : input.length = n
  induction n using Nat.strongRecOn generalizing x input offset
  case ind n hi =>
    have hd : 8 * (offset / 8) = offset := by omega
    rw [Sliced32.words]
    split
    case isTrue h8 =>
      have ht : (input.take 8).length = 8 := by simp [h8]
      have hf := h.full x (offset / 8) (input.take 8) (by omega) ht
      rw [hd] at hf
      have hd := List.take_append_drop 8 input
      have ha := hf.append (input.drop 8)
        (Sliced32.words part full (full x.slice (offset / 8) (input.take 8)).1 (input.drop 8) (offset + 8))
        fun x' hx => by
          rw [hx, ht]
          exact hi (n - 8) (by omega) (by omega) (by simp; omega) (by simp [hn])
      rwa [hd] at ha
    case isFalse h8 =>
      split
      case isTrue h0 =>
        have hp := h.part x (offset / 8) 0 input (by omega) (by omega)
        rwa [Nat.add_zero, hd] at hp
      case isFalse h0 =>
        obtain rfl : input = [] := List.eq_nil_of_length_eq_zero (by omega)
        exact ⟨x, rfl, rfl⟩

theorem words_nil {s : State} : words part full s [] offset = (s, []) := by
  rw [words, if_neg (by simp), if_neg (by simp)]

theorem Spec.split (h : Spec f part full) (hl : offset + input.length ≤ 40) :
    Does f x input offset (split part full x.slice input offset) := by
  rw [Sliced32.split]
  split
  case isTrue ho =>
    have ho : 0 < offset % 8 := by omega
    have ht : (input.take (8 - offset % 8)).length = min (8 - offset % 8) input.length := by simp
    have hp := h.part x (offset / 8) (offset % 8) (input.take (8 - offset % 8)) (by omega) (by omega)
    rw [Nat.div_add_mod] at hp
    have ha := hp.append (input.drop (8 - offset % 8))
      (Sliced32.words part full (part x.slice (offset / 8) (offset % 8) (input.take (8 - offset % 8))).1
        (input.drop (8 - offset % 8)) (offset + min (8 - offset % 8) input.length))
      fun x' hx => by
        rw [hx, ht]
        by_cases hd : input.length ≤ 8 - offset % 8
        case pos =>
          rw [List.drop_of_length_le hd, words_nil]
          exact ⟨x', rfl, rfl⟩
        case neg =>
          refine h.words (by omega) ?_
          rw [List.length_drop]
          omega
    rwa [List.take_append_drop] at ha
  case isFalse ho => exact h.words (by omega) hl

end

theorem byte_insert {value : BitVec 64} {b : UInt8} {m : ℕ} (hm : m < 8) :
    byte (insert value b (56 - 8 * m)) = fun k => if k = m then byte value m ||| b else byte value k := by
  funext k
  rw [insert, byte_or, byte_shiftLeft hm]
  split
  case isTrue h => rw [h]
  case isFalse  => simp

theorem byte_clear {value : BitVec 64} {m : ℕ} (hm : m < 8) :
    byte (clear value (56 - 8 * m)) = fun k => if k = m then 0 else byte value k := by
  funext k
  apply UInt8.toBitVec_inj.mp
  apply BitVec.eq_of_getLsbD_eq
  intro j hj
  have hb : ∀ j < 8, (0xff : UInt8).toBitVec.getLsbD j := by decide
  have hs := congrArg (fun b : UInt8 => b.toBitVec.getLsbD j) (byte_shiftLeft (x := 0xff) (k := k) hm)
  simp only [getLsbD_byte hj] at hs
  rw [getLsbD_byte hj, clear, BitVec.getLsbD_and, BitVec.getLsbD_not]
  by_cases hk : k < 8
  case pos =>
    rw [decide_eq_true hk, Bool.true_and] at hs
    have hc : (0xff#64 <<< (56 - 8 * m)).getLsbD (56 - 8 * k + j) = decide (k = m) := by
      refine hs.trans ?_
      split
      case isTrue h  => rw [hb j hj, decide_eq_true h]
      case isFalse h => simp [h]
    rw [hc]
    by_cases h : k = m <;> simp [h, hk, hm, getLsbD_byte hj, show 56 - 8 * k + j < 64 by omega]
  case neg =>
    rw [if_neg (by omega), getLsbD_byte hj]
    simp [hk]

theorem byte_replace {value : BitVec 64} {b : UInt8} {m : ℕ} (hm : m < 8) :
    byte (insert (clear value (56 - 8 * m)) b (56 - 8 * m)) = fun k => if k = m then b else byte value k := by
  funext k
  simp only [byte_insert hm, byte_clear hm]
  split <;> simp

theorem extract_eq {value : BitVec 64} {m : ℕ} (hm : m < 8) : extract value (56 - 8 * m) = byte value m := by
  rw [extract, byte_eq hm]

-- The code for a part of a word and for a whole word, by the bytes of the word it ends with.
section

variable {α β : Type} {f : UInt8 → α → UInt8 × β} {x : Words 64} {input : List α} {m : ℕ} {w : BitVec 64}

theorem does_set {v : BitVec 64} {output : List β} (hi : i < 5) (hm : m + input.length ≤ 8)
    (hv : byte v = (each f (byte (x.get i)) input m).1)
    (ho : output = (each f (byte (x.get i)) input m).2) :
    Does f x input (8 * i + m) ((x.set v i).slice, output) := by
  refine ⟨x.set v i, rfl, ?_⟩
  rw [each_view hi hm hv, ho]

-- An operation that leaves the state as it is.
theorem does_get {r : List β} (hi : i < 5) (hm : m + input.length ≤ 8) (hf : ∀ b y, (f b y).1 = b)
    (hr : r = (each f (byte (x.get i)) input m).2) : Does f x input (8 * i + m) (x.slice, r) := by
  have hv := each_view (x := x) (v := x.get i) hi hm (each_fst_eq_self hf).symm
  refine ⟨x, rfl, Prod.ext (each_fst_eq_self hf).symm ?_⟩
  rw [hv, hr]

theorem bytes_eq_each {b : ℕ → UInt8} {v : BitVec 64} {f : UInt8 → α → UInt8 × UInt8}
    (hl : input.length = 8) (h : ∀ k (hk : k < input.length), byte v k = (f (b k) input[k]).2) :
    bytes v = (each f b input 0).2 := by
  have hb : bytes v = List.ofFn fun k : Fin 8 => byte v k := rfl
  rw [each_snd, hb]
  apply List.ext_getElem (by rw [List.length_ofFn, List.length_mapIdx, hl])
  intro k hk hk'
  rw [List.getElem_ofFn, List.getElem_mapIdx, Nat.zero_add]
  exact h k (by rwa [List.length_mapIdx] at hk')

-- The first component of an operation on a whole word.
theorem byte_eq_each_full {v : BitVec 64} (hl : input.length = 8)
    (h : ∀ k (hk : k < input.length), byte v k = (f (byte w k) input[k]).1) :
    byte v = (each f (byte w) input 0).1 := by
  refine byte_eq_each (by omega) fun k hk => ?_
  rw [each_fst, if_pos (Nat.zero_le _), Nat.sub_zero, List.getElem?_eq_getElem (by omega)]
  exact h k (by omega)

end

-- The functions on bytes.
section

variable {x : Words 64} {data input : List UInt8} {offset size : ℕ}

theorem ext_unit {l l' : List Unit} (h : l.length = l'.length) : l = l' :=
  List.ext_getElem h fun _ _ _ => rfl

theorem addBytes_view (h : offset + data.length ≤ 40) :
    ∃ x' : Words 64, addBytes x.slice data offset = x'.slice ∧
      x'.view = (each (fun b y => (b ^^^ y, ())) x.view data offset).1 := by
  refine Exists.imp (fun x' h => ⟨h.left, congrArg Prod.fst h.right⟩) (Spec.split ?_ h)
  constructor
  case part =>
    intro x i ofs data hi hm
    have ⟨hr₁, hr₂⟩ := loop_spec (v := 0) (f := fun b y => (b ||| y, ()))
      (g := fun v y shift => (insert v y shift, ())) (fun v y m hm => ⟨byte_insert hm, rfl⟩) hm
    have hz {k} : byte 0 k = 0 := by simp [byte]
    simp only [absorbWord64_slice]
    refine does_set hi hm (byte_eq_each hm fun k hk => ?_) (hr₂.trans (ext_unit (by simp [each_snd])))
    rw [byte_xor, each_fst, hr₁, each_fst, hz]
    split
    case isTrue  => cases data[k - ofs]? <;> simp
    case isFalse => simp
  case full =>
    intro x i data hi hl
    simp only [absorbSliced_slice]
    refine does_set (m := 0) hi (by omega) (byte_eq_each_full hl fun k hk => ?_)
      (ext_unit (by simp [each_snd]))
    rw [byte_xor, byte_beLoadWord64 (by omega)]
    simp [hk]

theorem overwriteBytes_view (h : offset + data.length ≤ 40) :
    ∃ x' : Words 64, overwriteBytes x.slice data offset = x'.slice ∧
      x'.view = (each (fun _ y => (y, ())) x.view data offset).1 := by
  refine Exists.imp (fun x' h => ⟨h.left, congrArg Prod.fst h.right⟩) (Spec.split ?_ h)
  constructor
  case part =>
    intro x i ofs data hi hm
    simp only [squeezeWord64_slice, setWord64_slice]
    have ⟨hr₁, hr₂⟩ := loop_spec (v := x.get i) (f := fun _ y => (y, ()))
      (g := fun v y shift => (insert (clear v shift) y shift, ()))
      (fun v y m hm => ⟨byte_replace hm, rfl⟩) hm
    exact does_set hi hm hr₁ hr₂
  case full =>
    intro x i data hi hl
    simp only [setSliced_slice]
    refine does_set (m := 0) hi (by omega) (byte_eq_each_full hl fun k hk => ?_)
      (ext_unit (by simp [each_snd]))
    rw [byte_beLoadWord64 (by omega)]
    simp [hk]

theorem getLsbD_keepOutside {v : BitVec 64} {ofs size i : ℕ} (hi : i < 64) (hm : ofs + size ≤ 8) :
    (keepOutside v ofs size).getLsbD i =
      (v.getLsbD i && !decide ((8 - ofs - size) * 8 ≤ i ∧ i < (8 - ofs) * 8)) := by
  have hl : ∀ n < 8, ∀ i < 64, ((1#64 <<< (n * 8)) - 1).getLsbD i = decide (i < n * 8) := by
    decide +kernel
  have hz : BitVec.allOnes 64 = ~~~0#64 := by simp
  have hh {n} : (BitVec.allOnes 64 <<< n).getLsbD i = !decide (i < n) := by
    rw [BitVec.getLsbD_shiftLeft, BitVec.getLsbD_allOnes, decide_eq_true hi,
      decide_eq_true (show i - n < 64 by omega), Bool.true_and, Bool.and_true]
  have hr {n} : (BitVec.allOnes 64 >>> n).getLsbD i = decide (n + i < 64) := by
    rw [BitVec.getLsbD_ushiftRight, BitVec.getLsbD_allOnes]
  rw [keepOutside, ← hz]
  split
  case isTrue ho =>
    rw [BitVec.getLsbD_or, BitVec.getLsbD_and, BitVec.getLsbD_and, hh, hl _ (by omega) i hi,
      ← Bool.and_or_distrib_left]
    congr 1
    grind
  case isFalse ho =>
    rw [BitVec.getLsbD_and, hr]
    congr 1
    grind

theorem byte_keepOutside {v : BitVec 64} {zeroes : List Unit} {ofs : ℕ} (hm : ofs + zeroes.length ≤ 8) :
    byte (keepOutside v ofs zeroes.length) = (each (fun _ _ => (0, ())) (byte v) zeroes ofs).1 := by
  refine byte_eq_each hm fun k hk => ?_
  rw [each_fst]
  apply UInt8.toBitVec_inj.mp
  apply BitVec.eq_of_getLsbD_eq
  intro j hj
  rw [getLsbD_byte hj, getLsbD_keepOutside (by omega) hm, ← Bool.and_assoc, ← getLsbD_byte hj]
  by_cases h : ofs ≤ k ∧ k < ofs + zeroes.length
  case pos =>
    rw [if_pos h.left, List.getElem?_eq_getElem (by omega), decide_eq_true (by omega)]
    simp
  case neg =>
    rw [decide_eq_false (by omega)]
    split
    case isTrue ho => simp [List.getElem?_eq_none (show zeroes.length ≤ k - ofs by omega)]
    case isFalse ho => simp

theorem overwriteWithZeroes_view (h : offset + size ≤ 40) :
    ∃ x' : Words 64, overwriteWithZeroes x.slice offset size = x'.slice ∧
      x'.view = (each (fun _ _ => (0, ())) x.view (.replicate size ()) offset).1 := by
  refine Exists.imp (fun x' h => ⟨h.left, congrArg Prod.fst h.right⟩) (Spec.split ?_ (by simpa using h))
  constructor
  case part =>
    intro x i ofs zeroes hi hm
    simp only [squeezeWord64_slice, setWord64_slice]
    exact does_set hi hm (byte_keepOutside hm) (ext_unit (by simp [each_snd]))
  case full =>
    intro x i zeroes hi hl
    simp only [setWords_zero]
    refine does_set (m := 0) hi (by omega) (byte_eq_each_full hl fun k hk => ?_)
      (ext_unit (by simp [each_snd]))
    simp [byte]

-- A loop that only reads the word.
theorem byte_eq_ite {v : BitVec 64} {m : ℕ} : byte v = fun n => if n = m then byte v m else byte v n := by
  funext n
  split
  case isTrue h => rw [h]
  case isFalse  => rfl

theorem extractBytes_view (h : offset + size ≤ 40) : extractBytes x.slice offset size =
    (each (fun b _ => (b, b)) x.view (.replicate size ()) offset).2 := by
  have hs : Spec (α := Unit) (fun b _ => (b, b))
      (fun s i ofs input =>
        (s, (loop (fun v _ shift => (v, extract v shift)) (squeezeWord64 s i) input ((7 - ofs) * 8)).2))
      (fun s i _ => (s, squeezeSliced s i)) := by
    constructor
    case part =>
      intro x i ofs input hi hm
      have hr := loop_spec (v := x.get i) (f := fun b _ => (b, b))
        (g := fun v _ shift => (v, extract v shift))
        (fun v y m hm => ⟨byte_eq_ite, extract_eq hm⟩) hm
      rw [squeezeWord64_slice]
      exact does_get hi hm (fun _ _ => rfl) hr.right
    case full =>
      intro x i input hi hl
      rw [squeezeSliced_slice]
      exact does_get (m := 0) hi (by omega) (fun _ _ => rfl) (bytes_eq_each hl fun _ _ => rfl)
  have hl : offset + (List.replicate size ()).length ≤ 40 := by simpa using h
  obtain ⟨x', _, he⟩ := hs.split (x := x) hl
  exact congrArg Prod.snd he

-- The eight bytes of a whole word added to the input.
theorem bytes_xor_eq_each {i : ℕ} {f : UInt8 → UInt8 → UInt8 × UInt8} (hf : ∀ b y, (f b y).2 = y ^^^ b)
    (hl : input.length = 8) : bytes ((beLoadWord64 fun k => input.getD k 0) ^^^ x.get i) =
      (each f (byte (x.get i)) input 0).2 := by
  refine bytes_eq_each hl fun k hk => ?_
  rw [byte_xor, byte_beLoadWord64 (by omega), hf]
  simp [hk]

theorem extractAndAddBytes_view (h : offset + input.length ≤ 40) :
    extractAndAddBytes x.slice input offset = (each (fun b y => (b, y ^^^ b)) x.view input offset).2 := by
  have hs : Spec (fun b y => (b, y ^^^ b))
      (fun s i ofs input =>
        (s, (loop (fun v x shift => (v, x ^^^ extract v shift)) (squeezeWord64 s i) input ((7 - ofs) * 8)).2))
      (fun s i input => (s, decryptSlicedNoInsert s input i)) := by
    constructor
    case part =>
      intro x i ofs input hi hm
      have hr := loop_spec (v := x.get i) (f := fun b y => (b, y ^^^ b))
        (g := fun v x shift => (v, x ^^^ extract v shift))
        (fun v y m hm => ⟨byte_eq_ite, by rw [extract_eq hm]⟩) hm
      rw [squeezeWord64_slice]
      exact does_get hi hm (fun _ _ => rfl) hr.right
    case full =>
      intro x i input hi hl
      rw [decryptSlicedNoInsert_slice]
      exact does_get (m := 0) hi (by omega) (fun _ _ => rfl) (bytes_xor_eq_each (fun _ _ => rfl) hl)
  obtain ⟨x', _, he⟩ := hs.split (x := x) h
  exact congrArg Prod.snd he

theorem extractAndOverwriteBytes_view (h : offset + input.length ≤ 40) :
    ∃ x' : Words 64, (extractAndOverwriteBytes x.slice input offset).1 = x'.slice ∧
      (x'.view, (extractAndOverwriteBytes x.slice input offset).2) =
        each (fun b y => (y, y ^^^ b)) x.view input offset := by
  refine Spec.split ?_ h
  constructor
  case part =>
    intro x i ofs input hi hm
    have hr := loop_spec (v := x.get i) (f := fun b y => (y, y ^^^ b))
      (g := fun v x shift => (insert (clear v shift) x shift, x ^^^ extract v shift))
      (fun v y m hm => ⟨byte_replace hm, by rw [extract_eq hm]⟩) hm
    simp only [squeezeWord64_slice, setWord64_slice]
    exact does_set hi hm hr.left hr.right
  case full =>
    intro x i input hi hl
    simp only [decryptSliced_slice]
    refine does_set (m := 0) hi (by omega) (byte_eq_each_full hl fun k hk => ?_)
      (bytes_xor_eq_each (fun _ _ => rfl) hl)
    rw [byte_beLoadWord64 (by omega)]
    simp [hk]

end

-- The states of both backends that stand for the same bytes.
def Same (s : State) (b : Direct.State) : Prop :=
  Direct.view b = s.join.view

section

variable {α : Type} {x : Words 64} {s : State} {b : Direct.State} {offset : ℕ} {i : Iv}

theorem same_slice : Same x.slice b ↔ Direct.view b = x.view := by
  rw [Same, Words.join_slice]

theorem Same.of_each {β : Type} {f : UInt8 → α → UInt8 × β} {input : List α} {x x' : Words 64}
    (hs : s = x'.slice) (hx : x'.view = (each f x.view input offset).1) (hb : Direct.view b = x.view)
    (hl : offset + input.length ≤ 40) : Same s (Direct.loop f b input offset).1 := by
  rw [hs, same_slice, hx, ← hb, ← Direct.view_loop hl]

theorem same_of_eq_store (h : b = Direct.store s.join) : Same s b := by
  rw [Same, h, Direct.view_store]

-- An access to one whole word and one to a single byte.
theorem split_full {β : Type} {input : List α} {s : State}
    {part : State → (i ofs : ℕ) → List α → State × List β}
    {full : State → (i : ℕ) → List α → State × List β} (ho : offset % 8 = 0) (hl : input.length = 8) :
    split part full s input offset = full s (offset / 8) input := by
  have ht : input.take 8 = input := List.take_of_length_le (by omega)
  have hd : input.drop 8 = [] := List.drop_of_length_le (by omega)
  simp [split, ho, words, hl, ht, hd, words_nil]

theorem split_singleton {β : Type} {a : α} {s : State}
    {part : State → (i ofs : ℕ) → List α → State × List β}
    {full : State → (i : ℕ) → List α → State × List β} :
    split part full s [a] offset = part s (offset / 8) (offset % 8) [a] := by
  rw [split]
  split
  case isTrue ho =>
    have hl : 1 ≤ 8 - offset % 8 := by omega
    simp [List.take_of_length_le (l := [a]) hl, List.drop_of_length_le (l := [a]) hl, words_nil]
  case isFalse ho =>
    have ho : offset % 8 = 0 := by omega
    simp [words, ho]

theorem addBytes_singleton {a : UInt8} {w : BitVec 32 × BitVec 32} (hw : w =
    ((insert 0 a ((7 - offset % 8) * 8)).evens, (insert 0 a ((7 - offset % 8) * 8)).odds)) :
    addBytes x.slice [a] offset = xorWords x.slice (offset / 8) w := by
  rw [addBytes, split_singleton, hw]
  simp only [loop, absorbWord64, pack_separate, append_halves]

theorem pad_eq : pad x.slice offset = addBytes x.slice [0x80] offset := by
  have h : ∀ m < 8, ((0 : BitVec 32), 0x80000000#32 >>> (m * 4)) =
      ((insert 0 0x80 ((7 - m) * 8)).evens, (insert 0 0x80 ((7 - m) * 8)).odds) := by
    decide +kernel
  exact (addBytes_singleton (h _ (Nat.mod_lt offset (by decide)))).symm

theorem separator_eq : xorWords x.slice 4 (1, 0) = addBytes x.slice [0x01] 39 := by
  have h : ((1 : BitVec 32), (0 : BitVec 32)) = ((insert 0 0x01 ((7 - 39 % 8) * 8)).evens,
      (insert 0 0x01 ((7 - 39 % 8) * 8)).odds) := by
    decide +kernel
  exact (addBytes_singleton h).symm

theorem same_addBytes {data : List UInt8} (hs : Direct.view b = x.view) (h : offset + data.length ≤ 40) :
    Same (addBytes x.slice data offset) (Direct.addBytes b data offset) := by
  obtain ⟨x', hx', hx⟩ := addBytes_view (x := x) h
  exact .of_each hx' hx hs h

theorem extractBytes_eq {size : ℕ} (hs : Direct.view b = x.view) (h : offset + size ≤ 40) :
    extractBytes x.slice offset size = Direct.extractBytes b offset size := by
  rw [extractBytes_view h, Direct.extractBytes, Direct.loop_snd (by simpa using h), hs]

end

-- Every operation has the same results for both backends.
theorem simulates : Prog.Simulates (S := snp) Snp.Valid exec Direct.exec Same := by
  intro o s b ho hr
  obtain ⟨x, rfl⟩ : ∃ x : Words 64, s = x.slice := ⟨s.join, Words.slice_join.symm⟩
  have hs := same_slice.mp hr
  cases o
  case init =>
    have hi : Direct.init = Direct.store init.join := by decide +kernel
    exact ⟨rfl, same_of_eq_store hi⟩
  case initTable i =>
    have hi : Direct.iv i = Direct.store (iv i).join := by
      cases i <;> decide +kernel
    exact ⟨rfl, same_of_eq_store hi⟩
  case addBytes data offset => exact ⟨rfl, same_addBytes hs ho⟩
  case overwriteBytes data offset =>
    obtain ⟨x', hx', hx⟩ := overwriteBytes_view (x := x) ho
    exact ⟨rfl, .of_each hx' hx hs ho⟩
  case overwriteWithZeroes offset size =>
    obtain ⟨x', hx', hx⟩ := overwriteWithZeroes_view (x := x) ho
    exact ⟨rfl, .of_each hx' hx hs (by simpa [Snp.Valid] using ho)⟩
  case extractBytes offset size => exact ⟨extractBytes_eq hs ho, hr⟩
  case extractAndAddBytes input offset =>
    refine ⟨?_, hr⟩
    exact (extractAndAddBytes_view ho).trans (hs ▸ (Direct.loop_snd ho).symm)
  case extractAndOverwriteBytes input offset =>
    obtain ⟨x', hx', hx⟩ := extractAndOverwriteBytes_view (x := x) ho
    refine ⟨?_, .of_each hx' (congrArg Prod.fst hx) hs ho⟩
    exact (congrArg Prod.snd hx).trans (hs ▸ (Direct.loop_snd ho).symm)
  case absorb8 data offset =>
    obtain ⟨hl, ho, hb⟩ := ho
    have ha := same_addBytes hs (hl ▸ hb)
    rw [addBytes, split_full ho hl] at ha
    exact ⟨rfl, ha⟩
  case squeeze8 offset =>
    have he := extractBytes_eq hs ho.right
    rw [extractBytes, split_full ho.left (by rw [List.length_replicate])] at he
    exact ⟨he, hr⟩
  case pad offset =>
    have hp : Same (addBytes x.slice [0x80] offset) (Direct.addBytes b [0x80] offset) := same_addBytes hs ho
    rw [← pad_eq] at hp
    exact ⟨rfl, hp⟩
  case separator =>
    have hp : Same (addBytes x.slice [0x01] 39) (Direct.addBytes b [0x01] 39) := same_addBytes hs (by decide)
    rw [← separator_eq] at hp
    exact ⟨rfl, hp⟩
  case permute firstRound =>
    have hp : Same (Asm.permute x.slice firstRound) (Direct.permute b firstRound) := by
      rw [Asm.permute_eq, Words.join_slice, same_slice, Direct.view_permute hs]
    exact ⟨rfl, hp⟩

-- A program that keeps to the interface cannot tell the backends apart.
theorem runOn_eq_direct {α : Type} {p : Prog snp α} {s : State} {b : Direct.State}
    (hp : p.UsesFrom Snp.Valid Direct.exec b) (hs : Same s b) :
    (p.runOn exec s).1 = (p.runOn Direct.exec b).1 ∧
      Same (p.runOn exec s).2 (p.runOn Direct.exec b).2 :=
  simulates.runOn hp hs

-- A program that absorbs a message across the border of two words and reads from four of them.
def absorbThenExtract : Prog snp (List UInt8) := do
  Snp.call .init
  Snp.call (.addBytes [0x41, 0x73, 0x63, 0x6F, 0x6E] 6)
  Snp.call (.pad 11)
  Snp.call (.permute 4)
  let tag : List UInt8 ← Snp.call (.extractBytes 5 20)
  let out : List UInt8 ← Snp.call (.extractAndOverwriteBytes (.replicate 12 0xFF) 7)
  return tag ++ out

theorem runOn_eq_direct_absorbThenExtract :
    (absorbThenExtract.runOn exec init).1 = (absorbThenExtract.runOn Direct.exec Direct.init).1 ∧
      Same (absorbThenExtract.runOn exec init).2 (absorbThenExtract.runOn Direct.exec Direct.init).2 :=
  runOn_eq_direct ⟨trivial, show 6 + 5 ≤ 40 by decide, show 11 < 40 by decide, trivial,
    show 5 + 20 ≤ 40 by decide,
    show 7 + 12 ≤ 40 by decide, trivial⟩ (same_of_eq_store (by decide +kernel))

end Ascon.Sliced32
