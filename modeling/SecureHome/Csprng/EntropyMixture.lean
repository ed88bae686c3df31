import Mathlib.Data.Fin.Tuple.Basic
import Mathlib.Data.Nat.Notation
import Mathlib.Tactic.Common
import Mathlib.Tactic.IntervalCases

-- The exclusive or of all members of a family.
def xorAll : {n : ℕ} → (Fin n → UInt8) → UInt8
  | 0,     _ => 0
  | n + 1, f => xorAll (fun i : Fin n => f i.castSucc) ^^^ f (Fin.last n)

-- A change of a single member is never cancelled.
theorem xorAll_ne {n : ℕ} {f g : Fin n → UInt8} (h : ∃! i, f i ≠ g i) : xorAll f ≠ xorAll g := by
  induction n
  case zero =>
    have ⟨i, _⟩ := h
    exact i.elim0
  case succ n hi =>
    have ⟨i, hne, hu⟩ := h
    cases i using Fin.lastCases
    case last =>
      have hf : (fun i : Fin n => f i.castSucc) = fun i => g i.castSucc := by
        funext j
        by_contra hj
        exact (Fin.castSucc_lt_last j).ne (hu _ hj)
      simp only [xorAll, hf, ne_eq, UInt8.xor_right_inj]
      exact hne
    case cast j =>
      have hl : f (Fin.last n) = g (Fin.last n) := by
        by_contra hl
        exact (Fin.castSucc_lt_last j).ne (hu _ hl).symm
      simp only [xorAll, hl, ne_eq, UInt8.xor_left_inj]
      exact hi ⟨j, hne, fun k hk => Fin.castSucc_injective n (hu _ hk)⟩

namespace Csprng

def adcNumChannels := 7

-- What a call of `get_entropy_mixture` mixes in besides its own variables.
structure Sources where
  rtcJitter      : UInt32
  adcBuf         : Vector UInt16 adcNumChannels
  bootCycleCount : UInt32

def Sources.zero : Sources where
  rtcJitter      := 0
  adcBuf         := .replicate _ 0
  bootCycleCount := 0

-- The static variables of `get_entropy_mixture`.
structure Mixture where
  entropy     : UInt8
  callCounter : UInt32

def xorBytesInWord (value : UInt32) : UInt8 :=
  let t₁ := value ^^^ (value >>> 8)
  let t₂ := t₁ ^^^ (t₁ >>> 16)
  t₂.toUInt8

-- The loop over the samples, which keeps the shift for the next sample.
def packAdcSamples (adcBuf : Vector UInt16 adcNumChannels) : UInt32 :=
  let pack : UInt32 × UInt32 → UInt16 → UInt32 × UInt32 := fun (packed, shift) sample =>
    (packed ||| (sample.toUInt32 &&& 0xF) <<< shift, shift + 4)
  (adcBuf.foldl pack (0, 0)).1

def getEntropyMixture (m : Mixture) (s : Sources) : UInt8 × Mixture :=
  let entropy := m.entropy ^^^ xorBytesInWord m.callCounter
  let entropy := entropy ^^^ xorBytesInWord s.rtcJitter
  let entropy := entropy ^^^ xorBytesInWord (packAdcSamples s.adcBuf)
  let entropy := entropy ^^^ xorBytesInWord s.bootCycleCount
  (entropy, { entropy, callCounter := m.callCounter + 1 })

-- `ascon_trng_get_bytes`, where each of the calls has its own sources.
def trngGetBytes (m : Mixture) : List Sources → List UInt8 × Mixture
  | []      => ([], m)
  | s :: ss =>
    let (out, m)  := getEntropyMixture m s
    let (outs, m) := trngGetBytes m ss
    (out :: outs, m)

namespace Mixture

def boot : Mixture where
  entropy     := 0
  callCounter := 0

-- The variables before the `n`-th call since boot.
def before (run : ℕ → Sources) : ℕ → Mixture
  | 0     => .boot
  | n + 1 => (getEntropyMixture (before run n) (run n)).2

-- The byte that the `n`-th call since boot returns.
def output (run : ℕ → Sources) (n : ℕ) : UInt8 :=
  (getEntropyMixture (before run n) (run n)).1

-- What a call adds to the entropy.
def added (callCounter : UInt32) (s : Sources) : UInt8 :=
  xorBytesInWord callCounter ^^^ xorBytesInWord s.rtcJitter ^^^
    xorBytesInWord (packAdcSamples s.adcBuf) ^^^ xorBytesInWord s.bootCycleCount

end Mixture

-- The byte of a word, where the lowest comes first.
def byte (word : UInt32) (i : Fin 4) : UInt8 :=
  (word >>> (8 * i.val).toUInt32).toUInt8

def lowNibble (sample : UInt16) : UInt8 :=
  sample.toUInt8 &&& 0xF

-- The byte of the packed samples into which a sample goes has it in one of its halves.
def placed (i : Fin adcNumChannels) (sample : UInt16) : UInt8 :=
  lowNibble sample <<< (4 * (i.val % 2)).toUInt8

theorem xorBytesInWord_eq (word : UInt32) : xorBytesInWord word = xorAll (byte word) := by
  rw [← UInt8.toBitVec_inj]
  ext i hi
  simp [xorBytesInWord, byte, xorAll, ← Nat.add_assoc]

theorem packAdcSamples_eq (v : Vector UInt16 adcNumChannels) :
    packAdcSamples v =
      (v[0].toUInt32 &&& (0xF : UInt32)) ||| (v[1].toUInt32 &&& (0xF : UInt32)) <<< (4 : UInt32) |||
        (v[2].toUInt32 &&& (0xF : UInt32)) <<< (8 : UInt32) |||
        (v[3].toUInt32 &&& (0xF : UInt32)) <<< (12 : UInt32) |||
        (v[4].toUInt32 &&& (0xF : UInt32)) <<< (16 : UInt32) |||
        (v[5].toUInt32 &&& (0xF : UInt32)) <<< (20 : UInt32) |||
        (v[6].toUInt32 &&& (0xF : UInt32)) <<< (24 : UInt32) := by
  have ⟨⟨l⟩, h⟩ := v
  match l, h with
  | [a, b, c, d, e, f, g], _ => simp [packAdcSamples]

-- No two samples are packed into the same bits.
theorem xorBytesInWord_packAdcSamples (v : Vector UInt16 adcNumChannels) :
    xorBytesInWord (packAdcSamples v) = xorAll fun i => placed i v[i.val] := by
  rw [← UInt8.toBitVec_inj, packAdcSamples_eq]
  ext i hi
  interval_cases i <;>
    simp [xorBytesInWord, adcNumChannels, xorAll, placed, lowNibble, Bool.bne_eq_xor] <;> rfl

theorem lowNibble_shift (sample : UInt16) : lowNibble sample <<< 4 >>> 4 = lowNibble sample := by
  rw [← UInt8.toBitVec_inj]
  ext i hi
  interval_cases i <;> simp [lowNibble]

theorem placed_inj {i : Fin adcNumChannels} {a b : UInt16} :
    placed i a = placed i b ↔ lowNibble a = lowNibble b := by
  refine ⟨fun h => ?_, fun h => congrArg (· <<< (4 * (i.val % 2)).toUInt8) h⟩
  rcases Nat.mod_two_eq_zero_or_one i.val with hi | hi <;> simp only [placed, hi] at h
  case inl => simpa using h
  case inr =>
    rw [← lowNibble_shift a, ← lowNibble_shift b]
    exact congrArg (fun b : UInt8 => b >>> 4) h

-- Another byte of the jitter, and nothing else, is different.
structure JitterDiffers (s s' : Sources) : Prop where
  rtcJitter      : ∃! i, byte s.rtcJitter i ≠ byte s'.rtcJitter i
  adcBuf         : s.adcBuf = s'.adcBuf
  bootCycleCount : s.bootCycleCount = s'.bootCycleCount

-- The low nibble of one sample, and of no other, is different.
structure SampleDiffers (s s' : Sources) : Prop where
  rtcJitter      : s.rtcJitter = s'.rtcJitter
  adcBuf         : ∃! i : Fin adcNumChannels, lowNibble s.adcBuf[i.val] ≠ lowNibble s'.adcBuf[i.val]
  bootCycleCount : s.bootCycleCount = s'.bootCycleCount

-- Only the bits of the samples from the fourth on are different.
structure Indistinct (s s' : Sources) : Prop where
  rtcJitter      : s.rtcJitter = s'.rtcJitter
  adcBuf         : ∀ i : Fin adcNumChannels, lowNibble s.adcBuf[i.val] = lowNibble s'.adcBuf[i.val]
  bootCycleCount : s.bootCycleCount = s'.bootCycleCount

namespace Mixture

variable {run run' : ℕ → Sources} {s s' : Sources} {m : Mixture} {n k : ℕ}

theorem before_succ_entropy : (before run (n + 1)).entropy = output run n :=
  rfl

theorem before_callCounter : (before run n).callCounter = n.toUInt32 := by
  induction n
  case zero => rfl
  case succ n hi =>
    simp only [before, getEntropyMixture, hi]
    exact (UInt32.ofNat_add n 1).symm

theorem output_eq : output run n = (before run n).entropy ^^^ added n.toUInt32 (run n) := by
  simp only [output, getEntropyMixture, added, before_callCounter, UInt8.xor_assoc]

-- The static variable holds all that the calls have added to it since boot.
theorem output_eq_xorAll (run : ℕ → Sources) (n : ℕ) :
    output run n = xorAll fun i : Fin (n + 1) => added i.val.toUInt32 (run i) := by
  induction n
  case zero => simp [output_eq, before, boot, xorAll]
  case succ n hi =>
    rw [output_eq, before_succ_entropy, hi]
    rfl

-- The hook of the library returns the bytes of as many calls.
theorem trngGetBytes_eq (run : ℕ → Sources) (k n : ℕ) :
    (trngGetBytes (before run k) ((List.range n).map fun i => run (k + i))).1 =
      (List.range n).map fun i => output run (k + i) := by
  induction n generalizing k
  case zero => rfl
  case succ n hi =>
    have hk {α : Type} (f : ℕ → α) : (fun i => f (k + i)) ∘ Nat.succ = fun i => f (k + 1 + i) :=
      funext fun i => congrArg f (Nat.add_right_comm k i 1)
    simp only [List.range_succ_eq_map, List.map_cons, List.map_map, hk, ← hi]
    rfl

theorem added_ne_of_jitter {callCounter : UInt32} (h : JitterDiffers s s') :
    added callCounter s ≠ added callCounter s' := by
  have hn := xorAll_ne h.rtcJitter
  simpa [added, h.adcBuf, h.bootCycleCount, xorBytesInWord_eq s.rtcJitter,
    xorBytesInWord_eq s'.rtcJitter] using hn

theorem added_ne_of_sample {callCounter : UInt32} (h : SampleDiffers s s') :
    added callCounter s ≠ added callCounter s' := by
  have hn : xorAll (fun i => placed i s.adcBuf[i.val]) ≠ xorAll fun i => placed i s'.adcBuf[i.val] :=
    xorAll_ne (by simpa only [ne_eq, placed_inj] using h.adcBuf)
  simpa [added, h.rtcJitter, h.bootCycleCount, xorBytesInWord_packAdcSamples] using hn

theorem added_eq_of_indistinct {callCounter : UInt32} (h : Indistinct s s') :
    added callCounter s = added callCounter s' := by
  have hp : (fun i => placed i s.adcBuf[i.val]) = fun i => placed i s'.adcBuf[i.val] :=
    funext fun i => placed_inj.mpr (h.adcBuf i)
  simp only [added, h.rtcJitter, h.bootCycleCount, xorBytesInWord_packAdcSamples, hp]

-- Whatever a call adds is in all bytes from then on, and in none before.
theorem output_eq_of_added (h : ∀ i ≤ n, added i.toUInt32 (run i) = added i.toUInt32 (run' i)) :
    output run n = output run' n := by
  rw [output_eq_xorAll, output_eq_xorAll]
  exact congrArg xorAll (funext fun i => h i (Nat.le_of_lt_succ i.isLt))

theorem output_ne_of_added (hk : k ≤ n)
    (h : ∀ i, added i.toUInt32 (run i) ≠ added i.toUInt32 (run' i) ↔ i = k) :
    output run n ≠ output run' n := by
  rw [output_eq_xorAll, output_eq_xorAll]
  refine xorAll_ne ⟨⟨k, Nat.lt_succ_of_le hk⟩, (h k).mpr rfl, fun i hi => ?_⟩
  exact Fin.ext ((h i).mp hi)

-- A difference in one call shows in all bytes from that call on, while the upper bits of the samples
-- show in none.
theorem difference_persists :
    (∀ (run run' : ℕ → Sources) (k : ℕ), (∀ n, n ≠ k → run n = run' n) →
      JitterDiffers (run k) (run' k) ∨ SampleDiffers (run k) (run' k) →
      (∀ n < k, output run n = output run' n) ∧ ∀ n ≥ k, output run n ≠ output run' n) ∧
    ∀ run run' : ℕ → Sources, (∀ n, Indistinct (run n) (run' n)) →
      ∀ n, output run n = output run' n := by
  constructor
  case left =>
    intro run run' k hs hk
    constructor
    case left =>
      intro n hn
      exact output_eq_of_added fun i hi => by rw [hs i (by omega)]
    case right =>
      intro n hn
      refine output_ne_of_added hn fun i => ⟨fun hne => ?_, fun hi => ?_⟩
      case refine_1 =>
        by_contra hi
        exact hne (by rw [hs i hi])
      case refine_2 =>
        subst hi
        exact hk.elim added_ne_of_jitter added_ne_of_sample
  case right =>
    intro run run' h n
    exact output_eq_of_added fun i _ => added_eq_of_indistinct (h i)

-- The second byte of the jitter is different in the second call.
theorem difference_persists_zero :
    let run' : ℕ → Sources := fun n => if n = 1 then { Sources.zero with rtcJitter := 0x100 } else .zero
    output (fun _ => .zero) 0 = output run' 0 ∧ output (fun _ => .zero) 5 ≠ output run' 5 := by
  intro run'
  have hd : JitterDiffers .zero (run' 1) := ⟨⟨1, by decide, by decide⟩, rfl, rfl⟩
  have h := difference_persists.left (fun _ => .zero) run' 1 (fun n hn => (if_neg hn).symm) (.inl hd)
  exact ⟨h.left 0 (by decide), h.right 5 (by decide)⟩

-- The bytes of the counter, the jitter, the packed samples and the boot count cancel each other.
def Cancels (callCounter : UInt32) (s : Sources) : Prop :=
  xorAll (byte callCounter) ^^^ xorAll (byte s.rtcJitter) ^^^
    xorAll (fun i => placed i s.adcBuf[i.val]) ^^^ xorAll (byte s.bootCycleCount) = 0

theorem added_eq_zero_iff {callCounter : UInt32} : added callCounter s = 0 ↔ Cancels callCounter s := by
  rw [added, xorBytesInWord_packAdcSamples]
  simp only [xorBytesInWord_eq, Cancels]

theorem getEntropyMixture_fst : (getEntropyMixture m s).1 = m.entropy ^^^ added m.callCounter s := by
  simp only [getEntropyMixture, added, UInt8.xor_assoc]

theorem xor_eq_left_iff {a b : UInt8} : a ^^^ b = a ↔ b = 0 := by
  have h := UInt8.xor_right_inj (b := 0) (a := b) a
  rwa [UInt8.xor_zero] at h

-- Two calls in a row with the same sources return different bytes, unless the second one adds nothing.
theorem changes_iff (m : Mixture) (s : Sources) :
    (getEntropyMixture (getEntropyMixture m s).2 s).1 ≠ (getEntropyMixture m s).1 ↔
      ¬Cancels (m.callCounter + 1) s := by
  have he : (getEntropyMixture (getEntropyMixture m s).2 s).1 =
      (getEntropyMixture m s).1 ^^^ added (m.callCounter + 1) s := getEntropyMixture_fst
  rw [he, ne_eq, xor_eq_left_iff, added_eq_zero_iff]

-- In the first boot with nothing to be mixed in otherwise, the second call returns the byte again.
theorem not_changes_firstBoot :
    ¬∀ (run : ℕ → Sources) (n : ℕ) (s : Sources),
      (getEntropyMixture (getEntropyMixture (before run n) s).2 s).1 ≠
        (getEntropyMixture (before run n) s).1 :=
  fun h => h (fun _ => .zero) 0 { Sources.zero with bootCycleCount := 1 } (by decide)

theorem xorBytesInWord_toUInt32 (b : UInt8) : xorBytesInWord b.toUInt32 = b := by
  rw [← UInt8.toBitVec_inj]
  ext i hi
  simp [xorBytesInWord, BitVec.getLsbD_of_ge b.toBitVec (16 + i) (by omega)]

-- The counter gets to each byte soon, also to zero again.
theorem exists_xorBytesInWord_eq (b : UInt8) : ∃ n ≤ 256, xorBytesInWord (n + 1).toUInt32 = b := by
  by_cases hb : b = 0
  case pos => exact ⟨256, Nat.le_refl _, hb ▸ by decide⟩
  case neg =>
    have hn : b.toNat ≠ 0 := fun h => hb (UInt8.toNat_inj.mp h)
    have hl : b.toNat < 256 := b.toNat_lt
    have hc : (b.toNat - 1 + 1).toUInt32 = b.toUInt32 := by
      rw [Nat.sub_add_cancel (Nat.pos_of_ne_zero hn)]
      exact UInt32.ofNat_uInt8ToNat b
    exact ⟨b.toNat - 1, by omega, hc ▸ xorBytesInWord_toUInt32 b⟩

theorem output_succ : output run (n + 1) = output run n ^^^ added (n + 1).toUInt32 (run (n + 1)) := by
  rw [output_eq, before_succ_entropy]

-- Whatever the sources are, as long as they stay the same there is a byte that is returned twice in a
-- row.
theorem exists_repeat (s : Sources) :
    ∃ n ≤ 256, output (fun _ => s) (n + 1) = output (fun _ => s) n := by
  have ⟨n, hn, hb⟩ := exists_xorBytesInWord_eq
    (xorBytesInWord s.rtcJitter ^^^ xorBytesInWord (packAdcSamples s.adcBuf) ^^^
      xorBytesInWord s.bootCycleCount)
  refine ⟨n, hn, ?_⟩
  rw [output_succ, xor_eq_left_iff, added, UInt8.xor_assoc _ (xorBytesInWord s.rtcJitter), UInt8.xor_assoc, hb,
    UInt8.xor_self]

-- The sources in a boot with the given count.
def withBoot (bootCycleCount : UInt32) (run : ℕ → Sources) : ℕ → Sources :=
  fun n => { run n with bootCycleCount }

theorem added_withBoot {b callCounter : UInt32} (run : ℕ → Sources) (n : ℕ) :
    added callCounter (withBoot b run n) = added callCounter (withBoot 0 run n) ^^^ xorAll (byte b) := by
  have hz : xorBytesInWord 0 = 0 := by decide
  simp only [added, withBoot, hz, UInt8.xor_zero, xorBytesInWord_eq b]

-- The boot count is in every other byte only, since each call adds it again.
theorem output_withBoot {b : UInt32} (run : ℕ → Sources) (n : ℕ) :
    output (withBoot b run) n =
      output (withBoot 0 run) n ^^^ if n % 2 = 0 then xorAll (byte b) else 0 := by
  induction n
  case zero =>
    rw [output_eq, output_eq, added_withBoot]
    simp [before, UInt8.xor_assoc]
  case succ n hi =>
    rw [output_succ, output_succ, hi, added_withBoot]
    rcases Nat.mod_two_eq_zero_or_one n with hn | hn
    case inl =>
      have hx (x y z : UInt8) : x ^^^ z ^^^ (y ^^^ z) = x ^^^ y ^^^ (z ^^^ z) := by ac_rfl
      rw [if_pos hn, if_neg (by omega), hx, UInt8.xor_self]
    case inr =>
      rw [if_neg (by omega), if_pos (by omega)]
      simp [UInt8.xor_assoc]

-- One of the first two bytes is different in two boots with the same sources otherwise if and only if
-- the bytes of the two counts are, taken together.
theorem differ_iff (run : ℕ → Sources) (b₁ b₂ : UInt32) :
    (∃ n < 2, output (withBoot b₁ run) n ≠ output (withBoot b₂ run) n) ↔
      xorAll (byte b₁) ≠ xorAll (byte b₂) := by
  constructor
  case mp =>
    intro ⟨n, _, hn⟩ hb
    exact hn (by rw [output_withBoot, hb, ← output_withBoot])
  case mpr =>
    intro hb
    refine ⟨0, Nat.two_pos, ?_⟩
    rw [output_withBoot, output_withBoot (b := b₂)]
    simpa using hb

-- The first boot and the 256th are the same.
theorem not_differ_firstBoot :
    ¬∀ b₁ b₂ : UInt32, b₁ ≠ b₂ → ∀ run : ℕ → Sources,
      ∃ n < 2, output (withBoot b₁ run) n ≠ output (withBoot b₂ run) n := by
  intro h
  have ⟨n, hl, hn⟩ := h 1 256 (by decide) fun _ => .zero
  interval_cases n <;> exact hn (by decide)

end Mixture

end Csprng
