import SecureHome.Ascon.Backends
import SecureHome.Ascon.Xof
import SecureHome.Lib.Sponge
import Mathlib.Data.Nat.Notation
import Mathlib.Tactic.Common

namespace Ascon

-- The reference for these functions is a sponge that absorbs and squeezes byte by byte.
def sponge : Sponge Direct.State UInt8 where
  rate      := xofRate
  permute b := Direct.permute b 0
  add b n y := Direct.addBytes b [y] n
  get       := Direct.view
  padding   := 0x80
  rate_pos  := by decide

variable {b b' : Direct.State} {data input : List UInt8} {offset size n : ℕ} {s : XofState} {α β : Type}
  {p : Prog snp α} {r : α × Direct.State}

theorem addBytes_eq_addFrom (b : Direct.State) (h : offset + data.length ≤ 40) :
    Direct.addBytes b data offset = sponge.addFrom b data offset := by
  induction data generalizing b offset
  case nil => rfl
  case cons y data hi =>
    rw [List.length_cons] at h
    have ho : offset < 40 := by omega
    rw [Sponge.addFrom, ← hi _ (by omega)]
    simp [sponge, Direct.addBytes, Direct.loop, ho]

theorem extractBytes_eq_getFrom (b : Direct.State) (h : offset + size ≤ 40) :
    Direct.extractBytes b offset size = sponge.getFrom b offset size := by
  rw [Direct.extractBytes, Direct.loop_snd (by simpa using h), each_snd, Sponge.getFrom]
  apply List.ext_getElem (by simp)
  intro i hi hi'
  simp [sponge]

-- A program that keeps to the interface and ends with a result.
def Runs (p : Prog snp α) (b : Direct.State) (r : α × Direct.State) : Prop :=
  p.UsesFrom Snp.Valid Direct.exec b ∧ p.runOn Direct.exec b = r

theorem Runs.pure {a : α} : Runs (Pure.pure a) b (a, b) :=
  ⟨trivial, rfl⟩

theorem Runs.bind {f : α → Prog snp β} {r' : β × Direct.State} (h : Runs p b r) (hf : Runs (f r.1) r.2 r') :
    Runs (p >>= f) b r' := by
  obtain ⟨hu, rfl⟩ := h
  exact ⟨Prog.usesFrom_bind.mpr ⟨hu, hf.left⟩, Prog.runOn_bind.trans hf.right⟩

theorem Runs.call {o : Snp} (h : o.Valid) : Runs o.call b (Direct.exec o b) :=
  ⟨⟨h, trivial⟩, rfl⟩

theorem runs_permute : Runs (Snp.call (.permute 0)) b ((), sponge.permute b) :=
  .call trivial

theorem runs_addBytes (h : offset + data.length ≤ 40) :
    Runs (Snp.call (.addBytes data offset)) b ((), sponge.addFrom b data offset) :=
  addBytes_eq_addFrom b h ▸ .call h

theorem runs_absorb8 (h : data.length = 8) :
    Runs (Snp.call (.absorb8 data 0)) b ((), sponge.addFrom b data 0) :=
  addBytes_eq_addFrom b (h ▸ by decide : 0 + data.length ≤ 40) ▸ .call ⟨h, rfl, by decide⟩

theorem runs_pad (h : offset < 40) :
    Runs (Snp.call (.pad offset)) b ((), sponge.add b offset sponge.padding) :=
  .call h

theorem runs_extractBytes (h : offset + size ≤ 40) :
    Runs (Snp.call (.extractBytes offset size)) b (sponge.getFrom b offset size, b) :=
  extractBytes_eq_getFrom b h ▸ .call h

theorem runs_squeeze8 : Runs (Snp.call (.squeeze8 0)) b (sponge.getFrom b 0 8, b) :=
  extractBytes_eq_getFrom b (by decide : 0 + 8 ≤ 40) ▸ .call ⟨rfl, by decide⟩

def XofState.duplex (s : XofState) (b : Direct.State) : Duplex Direct.State where
  state     := b
  count     := s.count
  squeezing := s.mode

def fields (d : Duplex Direct.State) : XofState × Direct.State :=
  ({ count := d.count, mode := d.squeezing }, d.state)

theorem runs_xofAbsorbBlocks (hc : s.count = 0) :
    Runs (xofAbsorbBlocks s input) b (fields (input.foldl sponge.absorbOne (s.duplex b))) := by
  have hc' : (s.duplex b).count = 0 := hc
  have hr : sponge.rate = 8 := rfl
  generalize hn : input.length = n
  induction n using Nat.strongRecOn generalizing input b
  case ind n hi =>
    rw [xofAbsorbBlocks, show xofRate = 8 from rfl]
    split
    case isTrue h8 =>
      rw [Sponge.foldl_absorbOne_of_ge (by omega) (by omega), hc', hr, Nat.sub_zero]
      refine .bind (runs_absorb8 (by simpa using h8)) (.bind runs_permute ?_)
      have hd : (input.drop 8).length = n - 8 := hn ▸ List.length_drop
      have hi := hi (n - 8) (by omega) (b := sponge.permute (sponge.addFrom b (input.take 8) 0)) hc hd
      simpa [XofState.duplex, hc] using hi
    case isFalse h8 =>
      rw [Sponge.foldl_absorbOne_of_lt (by omega), hc', Nat.zero_add]
      split
      case isTrue h0 => exact .bind (runs_addBytes (by omega)) .pure
      case isFalse h0 =>
        obtain rfl : input = [] := List.eq_nil_of_length_eq_zero (by omega)
        exact .pure

theorem runs_xofAbsorbRest (hc : s.count < xofRate) :
    Runs (xofAbsorbRest s input) b (fields (input.foldl sponge.absorbOne (s.duplex b))) := by
  have hc' : (s.duplex b).count = s.count := rfl
  have hr : sponge.rate = 8 := rfl
  rw [xofRate] at hc
  rw [xofAbsorbRest, show xofRate = 8 from rfl]
  split
  case isTrue h0 =>
    dsimp only
    split
    case isTrue ht =>
      rw [Sponge.foldl_absorbOne_of_lt (by omega)]
      exact .bind (runs_addBytes (by omega)) .pure
    case isFalse ht =>
      rw [Sponge.foldl_absorbOne_of_ge (by omega) (by omega)]
      refine .bind (runs_addBytes (by rw [List.length_take]; omega)) (.bind runs_permute ?_)
      exact runs_xofAbsorbBlocks rfl
  case isFalse h0 => exact runs_xofAbsorbBlocks (by simpa using h0)

theorem runs_xofAbsorb (hc : s.count < xofRate) :
    Runs (xofAbsorb s input) b (fields (sponge.absorb (s.duplex b) input)) := by
  rw [xofAbsorb, Sponge.absorb, Sponge.startAbsorbing, show (s.duplex b).squeezing = s.mode from rfl]
  split
  case isTrue  => exact .bind runs_permute (runs_xofAbsorbRest (by decide))
  case isFalse => exact runs_xofAbsorbRest hc

-- The result of squeezing with the fields of the state behind it.
def squeezed (r : List UInt8 × Duplex Direct.State) : (List UInt8 × XofState) × Direct.State :=
  ((r.1, (fields r.2).1), (fields r.2).2)

theorem runs_xofSqueezeBlocks (hc : s.count = 0) :
    Runs (xofSqueezeBlocks s n) b (squeezed (sponge.squeezeMany (s.duplex b) n)) := by
  have hr : sponge.rate = 8 := rfl
  induction n using Nat.strongRecOn generalizing b
  case ind n hi =>
    have hc' : (s.duplex b).count = 0 := hc
    rw [xofSqueezeBlocks, show xofRate = 8 from rfl]
    split
    case isTrue h8 =>
      rw [Sponge.squeezeMany_block hc' (by omega)]
      exact .bind runs_permute (.bind runs_squeeze8 (.bind (hi (n - 8) (by omega)) .pure))
    case isFalse h8 =>
      split
      case isTrue h0 =>
        rw [Sponge.squeezeMany_of_eq hc' (by omega) (by omega), if_neg (by omega)]
        exact .bind runs_permute (.bind (runs_extractBytes (by omega)) .pure)
      case isFalse h0 =>
        obtain rfl : n = 0 := by omega
        exact .pure

theorem runs_xofSqueezeRest (hc : s.count < xofRate) :
    Runs (xofSqueezeRest s n) b (squeezed (sponge.squeezeMany (s.duplex b) n)) := by
  have hc' : (s.duplex b).count = s.count := rfl
  have hr : sponge.rate = 8 := rfl
  rw [xofRate] at hc
  rw [xofSqueezeRest, show xofRate = 8 from rfl]
  split
  case isTrue h0 =>
    dsimp only
    split
    case isTrue ht =>
      rw [Sponge.squeezeMany_of_ne h0 (by omega) (by omega), if_neg (by omega)]
      exact .bind (runs_extractBytes (by omega)) .pure
    case isFalse ht =>
      rw [Sponge.squeezeMany_of_ge h0 (by omega) (by omega)]
      exact .bind (runs_extractBytes (by omega)) (.bind (runs_xofSqueezeBlocks rfl) .pure)
  case isFalse h0 => exact runs_xofSqueezeBlocks (by simpa using h0)

theorem runs_xofSqueeze (hc : s.count < xofRate) :
    Runs (xofSqueeze s n) b (squeezed (sponge.squeeze (s.duplex b) n)) := by
  rw [xofSqueeze, Sponge.squeeze, Sponge.startSqueezing, show (s.duplex b).squeezing = s.mode from rfl]
  split
  case isTrue  => exact runs_xofSqueezeRest hc
  case isFalse => exact .bind (runs_pad (Nat.lt_trans hc (by decide))) (runs_xofSqueezeRest (by decide))

-- Adding zeroes changes nothing, so padding is the same as absorbing them.
theorem add_zero : sponge.add b n 0 = b := by
  have h : Direct.addBytes b [0] n = b := by
    simp only [Direct.addBytes, Direct.loop]
    split
    case isTrue h => simp [Vector.get]
    case isFalse  => rfl
  exact h

theorem addFrom_zeroes : sponge.addFrom b (.replicate size 0) offset = b := by
  induction size generalizing offset
  case zero       => rfl
  case succ _ hi  => rw [List.replicate_succ, Sponge.addFrom, add_zero, hi]

def zeroes (d : Duplex Direct.State) : List UInt8 :=
  .replicate (if d.squeezing then 0 else (xofRate - d.count) % xofRate) 0

theorem runs_xofPad (hc : s.count < xofRate) :
    Runs (xofPad s) b (fields (sponge.absorb (s.duplex b) (zeroes (s.duplex b)))) := by
  have hr : sponge.rate = 8 := rfl
  rw [xofRate] at hc
  rw [xofPad, zeroes, show (s.duplex b).squeezing = s.mode from rfl]
  split
  case isTrue h => exact runs_xofAbsorb hc
  case isFalse h =>
    have hc' : (s.duplex b).count = s.count := rfl
    rw [Sponge.absorb, Sponge.startAbsorbing_eq (by simpa [XofState.duplex] using h), hc',
      show xofRate = 8 from rfl]
    split
    case isTrue h0 =>
      have hl : (List.replicate ((8 - s.count) % 8) (0 : UInt8)).length = 8 - s.count := by simp; omega
      rw [Sponge.foldl_absorbOne_of_eq (List.ne_nil_of_length_pos (by omega)) (by omega), addFrom_zeroes]
      exact .bind runs_permute .pure
    case isFalse h0 =>
      have h0 : (8 - s.count) % 8 = 0 := by omega
      rw [h0]
      exact .pure

-- The state behind the first block, which holds the output length and the name of a function.
@[irreducible]
def start (outlen : ℕ) (name : List UInt8) : Direct.State :=
  Direct.permute (.ofFn fun n => (beStoreWord64 (xofIv (xofLimit outlen)) ++ name).getD n 0) 0

def digest (b : Direct.State) (message : List UInt8) (size : ℕ) : List UInt8 :=
  sponge.output (sponge.absorbAll b (message ++ [0x80])) size

def initial (functionName custom : List UInt8) (outlen : ℕ) : Direct.State :=
  let name :=
    if functionName.length ≤ 32 then
      functionName
    else
      digest (start hashSize []) functionName hashSize
  let b := start outlen name
  if custom = [] then b else sponge.add (sponge.absorbAll b (custom ++ [0x80])) 39 0x01

variable {name functionName custom : List UInt8} {outlen : ℕ}

theorem view_overwriteBytes (h : offset + data.length ≤ 40) :
    Direct.view (Direct.overwriteBytes b data offset) n =
      if offset ≤ n then (data[n - offset]?).getD (Direct.view b n) else Direct.view b n := by
  rw [Direct.overwriteBytes, Direct.view_loop_fst h, each_fst]
  cases data[n - offset]? <;> rfl

theorem length_beStoreWord64 {x : BitVec 64} : (beStoreWord64 x).length = 8 := by
  simp [beStoreWord64]

theorem runs_overwriteIv {x : BitVec 64} : Runs (Snp.call (.overwriteBytes (beStoreWord64 x) 0)) b
    ((), Direct.overwriteBytes b (beStoreWord64 x) 0) :=
  .call (Nat.le_trans (Nat.le_of_eq (congrArg (0 + ·) length_beStoreWord64)) (by decide))

theorem view_init : Direct.view Direct.init n = 0 := by
  by_cases h : n < 40 <;> simp [Direct.view, Direct.init, h]

theorem overwriteBytes_init (outlen : ℕ) (h : name.length ≤ 32) :
    Direct.permute (Direct.overwriteBytes (Direct.overwriteBytes Direct.init name 8)
      (beStoreWord64 (xofIv (xofLimit outlen))) 0) 0 = start outlen name := by
  have hl := length_beStoreWord64 (x := xofIv (xofLimit outlen))
  rw [start]
  refine congrArg (Direct.permute · 0) (Direct.ext_view fun n hn => ?_)
  rw [view_overwriteBytes (by omega), view_overwriteBytes (by omega), view_init]
  generalize beStoreWord64 (xofIv (xofLimit outlen)) = iv at *
  by_cases h8 : n < 8
  case pos => simp [Direct.view, hn, h8, hl, List.getElem?_append_left, show ¬8 ≤ n by omega]
  case neg =>
    simp [Direct.view, hn, hl, Nat.not_lt.mp h8, List.getElem?_append_right]

theorem start_eq_of_xofLimit (h : xofLimit outlen = n) (hn : xofLimit n = n) :
    start outlen name = start n name := by
  rw [start, start, h, hn]

-- The precomputed states are those behind the first blocks for no length and for 32 bytes.
theorem iv_eq_start : Direct.iv .xof = start 0 [] ∧ Direct.iv .hash = start 32 [] := by
  decide +kernel

theorem runs_xofInit : Runs xofInit b ({ count := 0, mode := false }, start 0 []) :=
  iv_eq_start.left ▸ .bind (.call trivial) .pure

theorem runs_xofInitFixed : Runs (xofInitFixed outlen) b ({ count := 0, mode := false }, start outlen []) := by
  rw [xofInitFixed]
  split
  case isTrue h =>
    have hs : start outlen [] = start 0 [] := start_eq_of_xofLimit h rfl
    rw [hs]
    exact runs_xofInit
  case isFalse h0 =>
    split
    case isTrue h =>
      have hs : start outlen [] = start 32 [] := start_eq_of_xofLimit h rfl
      rw [hs, ← iv_eq_start.right]
      exact .bind (.call trivial) .pure
    case isFalse h32 =>
      rw [← overwriteBytes_init outlen (by decide : ([] : List UInt8).length ≤ 32)]
      exact .bind (.call trivial) (.bind runs_overwriteIv (.bind (.call trivial) .pure))

theorem count_absorb (h : s.count < xofRate) : (fields (sponge.absorb (s.duplex b) input)).1.count < xofRate :=
  Sponge.count_absorb_lt h

-- The name as it is written into the block, where it is followed by zeroes.
theorem start_append_replicate (name : List UInt8) : start outlen (name ++ .replicate n 0) = start outlen name := by
  rw [start, start]
  refine congrArg (Direct.permute · 0) (congrArg Vector.ofFn (funext fun k => ?_))
  rw [← List.append_assoc]
  generalize beStoreWord64 (xofIv (xofLimit outlen)) ++ name = l
  rcases Nat.lt_or_ge k.val l.length with h | h
  case inl => simp [List.getElem?_append_left h]
  case inr =>
    simp only [List.getD_eq_getElem?_getD, List.getElem?_append_right h, List.getElem?_eq_none h,
      List.getElem?_replicate]
    split <;> rfl

theorem runs_xofFunctionName (functionName : List UInt8) (b : Direct.State) :
    ∃ temp b', Runs (xofFunctionName functionName) b (temp, b') ∧
    temp.length = hashSize ∧ ∀ outlen, start outlen temp =
      start outlen (if functionName.length ≤ 32 then functionName
        else digest (start hashSize []) functionName hashSize) := by
  rw [xofFunctionName]
  split
  case isTrue h0 =>
    obtain rfl := List.eq_nil_of_length_eq_zero h0
    refine ⟨_, b, .pure, List.length_replicate, fun _ => ?_⟩
    rw [if_pos (by decide), ← start_append_replicate [], List.nil_append]
  case isFalse h0 =>
    split
    case isTrue h =>
      refine ⟨_, b, .pure, ?_, fun _ => ?_⟩
      case refine_1 => rw [List.length_append, List.length_replicate, hashSize, Nat.add_sub_cancel' h]
      case refine_2 => exact start_append_replicate _
    case isFalse h =>
      refine ⟨_, _, .bind runs_xofInitFixed (.bind (runs_xofAbsorb (by decide))
        (.bind (runs_xofSqueeze (count_absorb (by decide))) .pure)), ?_, fun _ => ?_⟩
      case refine_1 => exact Sponge.length_squeeze
      case refine_2 => exact congrArg _ (Sponge.squeeze_absorb rfl rfl)

theorem runs_separator : Runs (Snp.call .separator) b ((), sponge.add b 39 0x01) :=
  .call trivial

theorem runs_xofAbsorbCustom (custom : List UInt8) (b : Direct.State) :
    Runs (xofAbsorbCustom { count := 0, mode := false } custom) b
    ({ count := 0, mode := false },
      if custom = [] then b else sponge.add (sponge.absorbAll b (custom ++ [0x80])) 39 0x01) := by
  rw [xofAbsorbCustom]
  split
  case isTrue h =>
    let d := ({ count := 0, mode := false } : XofState).duplex b
    have hp : sponge.permute (sponge.startSqueezing (sponge.absorb d custom)).state =
        sponge.absorbAll b (custom ++ [0x80]) := Sponge.permute_startSqueezing rfl rfl
    have hm : (sponge.absorb d custom).squeezing = false := Sponge.absorb_squeezing
    rw [Sponge.startSqueezing, hm, if_neg Bool.false_ne_true] at hp
    rw [if_neg (List.ne_nil_of_length_pos h), ← show _ = sponge.absorbAll b (custom ++ [0x80]) from hp]
    refine .bind (runs_xofAbsorb (by decide)) (.bind (runs_pad ?_) (.bind runs_permute
      (.bind runs_separator ?_)))
    case refine_1 => exact Nat.lt_trans (count_absorb (by decide)) (by decide)
    case refine_2 =>
      have hm : (fields (sponge.absorb (({ count := 0, mode := false } : XofState).duplex b) custom)).1.mode =
        false := hm
      simp only [hm]
      exact .pure
  case isFalse h =>
    obtain rfl := List.eq_nil_of_length_eq_zero (Nat.eq_zero_of_not_pos h)
    rw [if_pos rfl]
    exact .pure

theorem runs_xofInitCustom : Runs (xofInitCustom functionName custom outlen) b
    ({ count := 0, mode := false }, initial functionName custom outlen) := by
  obtain ⟨temp, b', ht, hl, hs⟩ := runs_xofFunctionName functionName b
  have hl : temp.length = 32 := hl
  rw [xofInitCustom]
  refine .bind ht (.bind (.call trivial) (.bind (.call ?_) (.bind runs_overwriteIv (.bind runs_permute ?_))))
  case refine_1 => exact Nat.le_of_eq (congrArg (8 + ·) hl)
  case refine_2 =>
    have hi := overwriteBytes_init outlen (Nat.le_of_eq hl)
    rw [hs] at hi
    have hc := runs_xofAbsorbCustom custom (start outlen (if functionName.length ≤ 32 then functionName
      else digest (start hashSize []) functionName hashSize))
    rw [← hi] at hc
    rw [initial, ← hi]
    exact hc

-- The interface of the functions above for their callers, and of the loop of `ascon_random_rekey`, which
-- goes behind this interface.
inductive XofCall
  | init
  | initFixed (outlen : ℕ)
  | initCustom (functionName custom : List UInt8) (outlen : ℕ)
  | absorb (input : List UInt8)
  | squeeze (outlen : ℕ)
  | pad
  | forget

abbrev xof : Sig where
  Op := XofCall
  Ret
    | .squeeze _ => List UInt8
    | _          => Unit

abbrev XofCall.call (o : XofCall) : Prog xof (xof.Ret o) :=
  Prog.perform (S := xof) o

def randomForget : (temp : ℕ) → Prog snp Unit
  | 0        => return
  | temp + 1 => do
    Snp.call (.overwriteWithZeroes 0 xofRate)
    Snp.call (.permute 0)
    randomForget temp

-- The code runs on a backend.
def XofCall.exec {σ : Type} (exec : (o : Snp) → σ → snp.Ret o × σ) :
    (o : XofCall) → XofState × σ → xof.Ret o × XofState × σ
  | .init, r                                  => ((), xofInit.runOn exec r.2)
  | .initFixed outlen, r                      => ((), (xofInitFixed outlen).runOn exec r.2)
  | .initCustom functionName custom outlen, r =>
    ((), (xofInitCustom functionName custom outlen).runOn exec r.2)
  | .absorb input, r                          => ((), (xofAbsorb r.1 input).runOn exec r.2)
  | .squeeze outlen, r                        =>
    let r := (xofSqueeze r.1 outlen).runOn exec r.2
    (r.1.1, r.1.2, r.2)
  | .pad, r                                   => ((), (xofPad r.1).runOn exec r.2)
  | .forget, r                                => ((), r.1, ((randomForget 4).runOn exec r.2).2)

def forgetOnce (b : Direct.State) : Direct.State :=
  sponge.permute (Direct.overwriteWithZeroes b 0 xofRate)

-- The reference has no code for blocks, partial blocks or precomputed states.
def XofCall.reference : (o : XofCall) → Duplex Direct.State → xof.Ret o × Duplex Direct.State
  | .init, _                                  =>
    ((), { state := initial [] [] 0, count := 0, squeezing := false })
  | .initFixed outlen, _                      =>
    ((), { state := initial [] [] outlen, count := 0, squeezing := false })
  | .initCustom functionName custom outlen, _ =>
    ((), { state := initial functionName custom outlen, count := 0, squeezing := false })
  | .absorb input, d                          => ((), sponge.absorb d input)
  | .squeeze outlen, d                        => sponge.squeeze d outlen
  | .pad, d                                   => ((), sponge.absorb d (zeroes d))
  | .forget, d                                => ((), { d with state := forgetOnce^[4] d.state })

-- A state of the code that stands for one of the reference.
structure Represents (r : XofState × Sliced32.State) (d : Duplex Direct.State) : Prop where
  state : Sliced32.Same r.2 d.state
  count : r.1.count = d.count
  mode  : r.1.mode = d.squeezing
  lt    : d.count < xofRate

theorem runs_randomForget {temp : ℕ} : Runs (randomForget temp) b ((), forgetOnce^[temp] b) := by
  induction temp generalizing b
  case zero         => exact .pure
  case succ temp hi => exact .bind (.call (show 0 + xofRate ≤ 40 by decide)) (.bind runs_permute hi)

section

variable {w : Sliced32.State} {x : XofState} {d : Duplex Direct.State}

theorem Runs.sliced (h : Runs p b r) (hs : Sliced32.Same w b) :
    (p.runOn Sliced32.exec w).1 = r.1 ∧ Sliced32.Same (p.runOn Sliced32.exec w).2 r.2 := by
  obtain ⟨hu, rfl⟩ := h
  exact Sliced32.simulates.runOn hu hs

theorem Runs.represents {p : Prog snp XofState} (h : Runs p b (fields d)) (hs : Sliced32.Same w b)
    (hd : d.count < xofRate) : Represents (p.runOn Sliced32.exec w) d := by
  obtain ⟨he, hs⟩ := h.sliced hs
  exact ⟨hs, congrArg XofState.count he, congrArg XofState.mode he, hd⟩

theorem Represents.duplex (h : Represents (x, w) d) : x.duplex d.state = d := by
  rw [XofState.duplex, h.count, h.mode]

theorem XofCall.simulates :
    Prog.Simulates (S := xof) (fun _ => True) (exec Sliced32.exec) reference Represents := by
  rintro o ⟨x, w⟩ d - h
  have hl : x.count < xofRate := h.count ▸ h.lt
  cases o
  case init => exact ⟨rfl, runs_xofInit.represents (d := ⟨_, 0, false⟩) h.state sponge.rate_pos⟩
  case initFixed outlen =>
    exact ⟨rfl, runs_xofInitFixed.represents (d := ⟨_, 0, false⟩) h.state sponge.rate_pos⟩
  case initCustom functionName custom outlen =>
    exact ⟨rfl, runs_xofInitCustom.represents (d := ⟨_, 0, false⟩) h.state sponge.rate_pos⟩
  case absorb input =>
    have ha : Runs (xofAbsorb x input) d.state _ := runs_xofAbsorb hl
    rw [h.duplex] at ha
    exact ⟨rfl, ha.represents h.state (Sponge.count_absorb_lt h.lt)⟩
  case squeeze outlen =>
    have hq := runs_xofSqueeze (b := d.state) (n := outlen) hl
    rw [h.duplex] at hq
    obtain ⟨he, hs⟩ := hq.sliced h.state
    refine ⟨congrArg Prod.fst he, hs, ?_, ?_, Sponge.count_squeeze_lt h.lt⟩
    case refine_1 => exact congrArg (·.2.count) he
    case refine_2 => exact congrArg (·.2.mode) he
  case pad =>
    have hp := runs_xofPad (b := d.state) hl
    rw [h.duplex] at hp
    exact ⟨rfl, hp.represents h.state (Sponge.count_absorb_lt h.lt)⟩
  case forget =>
    have hf : Runs (randomForget 4) d.state ((), forgetOnce^[4] d.state) := runs_randomForget
    obtain ⟨-, hs⟩ := hf.sliced h.state
    simp only [exec, reference]
    exact ⟨trivial, hs, h.count, h.mode, h.lt⟩

theorem Represents.of_lt (hx : x.count < xofRate) : Represents (x, w) (x.duplex (Direct.store w.join)) :=
  ⟨Sliced32.same_of_eq_store rfl, rfl, rfl, hx⟩

-- Whatever a task does with the functions, it does with the reference.
theorem firmware_eq_reference {p : Prog xof α} (hx : x.count < xofRate) :
    let r := p.runOn (XofCall.exec Sliced32.exec) (x, w)
    let r' := p.runOn XofCall.reference (x.duplex (Direct.store w.join))
    r.1 = r'.1 ∧ Represents r.2 r'.2 :=
  XofCall.simulates.runOn (.of_forall fun _ => trivial) (.of_lt hx)

-- A program that leaves a part of a block over when it absorbs and when it squeezes.
def leftOverBlocks : Prog xof (List UInt8) := do
  XofCall.call (.absorb [0x41, 0x73, 0x63, 0x6F, 0x6E, 0x2D, 0x58, 0x4F, 0x46, 0x41, 0x31])
  XofCall.call (.absorb [0x32, 0x38, 0x61])
  let out : List UInt8 ← XofCall.call (.squeeze 5)
  let rest : List UInt8 ← XofCall.call (.squeeze 13)
  XofCall.call (.absorb rest)
  XofCall.call .forget
  let next : List UInt8 ← XofCall.call (.squeeze 3)
  return out ++ rest ++ next

theorem firmware_eq_reference_leftOverBlocks :
    let r := leftOverBlocks.runOn (XofCall.exec Sliced32.exec)
      ({ count := 3, mode := false }, Sliced32.init)
    let r' := leftOverBlocks.runOn XofCall.reference
      (({ count := 3, mode := false } : XofState).duplex (Direct.store Sliced32.init.join))
    r.1 = r'.1 ∧ Represents r.2 r'.2 :=
  firmware_eq_reference (x := { count := 3, mode := false }) (by decide)

end

-- Programs that hash a message, in any number of pieces and with an output in any number of pieces.
def absorbChunks : List (List UInt8) → Prog xof Unit
  | []              => return
  | chunk :: chunks => do
    XofCall.call (.absorb chunk)
    absorbChunks chunks

def squeezeSizes : List ℕ → Prog xof (List UInt8)
  | []            => return []
  | size :: sizes => do
    let out : List UInt8 ← XofCall.call (.squeeze size)
    let rest ← squeezeSizes sizes
    return out ++ rest

def hashing (functionName custom : List UInt8) (outlen : ℕ) (chunks : List (List UInt8))
    (sizes : List ℕ) : Prog xof (List UInt8) := do
  XofCall.call (.initCustom functionName custom outlen)
  absorbChunks chunks
  squeezeSizes sizes

variable {d : Duplex Direct.State} {chunks : List (List UInt8)} {sizes : List ℕ}

theorem runOn_absorbChunks (hd : d.squeezing = false) :
    (absorbChunks chunks).runOn XofCall.reference d = ((), sponge.absorb d chunks.flatten) := by
  induction chunks generalizing d
  case nil => rw [List.flatten_nil, Sponge.absorb, Sponge.startAbsorbing_eq hd]; rfl
  case cons chunk chunks hi =>
    rw [absorbChunks, Prog.runOn_bind, List.flatten_cons, Sponge.absorb_append]
    exact hi Sponge.absorb_squeezing

theorem runOn_squeezeSizes :
    ((squeezeSizes sizes).runOn XofCall.reference d).1 = (sponge.squeeze d sizes.sum).1 := by
  induction sizes generalizing d
  case nil => rfl
  case cons size sizes hi =>
    rw [squeezeSizes, Prog.runOn_bind, Prog.runOn_bind, List.sum_cons, Sponge.squeeze_add, ← hi]
    rfl

-- The division of the message and of the output makes no difference.
theorem hashing_eq_digest {x : XofState} {w : Sliced32.State} :
    ((hashing functionName custom outlen chunks sizes).runOn (XofCall.exec Sliced32.exec) (x, w)).1 =
      digest (initial functionName custom outlen) chunks.flatten sizes.sum := by
  have hi : Runs (xofInitCustom functionName custom outlen) (Direct.store w.join)
      ({ count := 0, mode := false }, initial functionName custom outlen) := runs_xofInitCustom
  have hr := hi.represents (d := ⟨initial functionName custom outlen, 0, false⟩) (w := w)
    (Sliced32.same_of_eq_store rfl) sponge.rate_pos
  have hs := (XofCall.simulates.runOn (p := absorbChunks chunks >>= fun _ => squeezeSizes sizes)
    (.of_forall fun _ => trivial) hr).left
  conv at hs => rhs; rw [Prog.runOn_bind, runOn_absorbChunks rfl, runOn_squeezeSizes, Sponge.squeeze_absorb rfl rfl]
  exact hs

-- The hash of the empty message begins with these bytes.
example : digest (initial [] [] hashSize) [] 4 = [0x73, 0x46, 0xbc, 0x14] := by
  decide +kernel

end Ascon
