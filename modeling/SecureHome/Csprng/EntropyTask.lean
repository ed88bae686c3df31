import Mathlib.Data.Seq.Defs
import SecureHome.Csprng.Ascon
import SecureHome.Lib.Streak
import SecureHome.Utils.Error

open Stream'

namespace Csprng

def maxConsecutiveErrors : UInt8 := 5
def numOfEntropySamples          := 32
def blockSizeBytes               := 1024

-- Everything that the environment decides about one cycle of the task's loop: the samples returned
-- by `get_entropy_mixture`, the system seed for a reseed that falls into the cycle, and the results
-- of the calls of `file::write` and `file::sync` in the storage callback.
structure Cycle where
  entropy : Vector UInt8 numOfEntropySamples
  seed    : List UInt8
  write   : ErrorT
  sync    : ErrorT

namespace Cycle

-- The write callback of `s_ascon_storage`. The call of `file::sync` is skipped if the write failed.
def storageWrite (c : Cycle) (size : ℕ) : Int :=
  if c.write ≠ .none then
    -1
  else if c.sync ≠ .none then
    -1
  else
    size

def storage (c : Cycle) : Ascon.Storage where
  eraseSize           := blockSizeBytes
  size                := blockSizeBytes
  write _offset data _ := c.storageWrite data.length

-- The callback stored the seed, respectively did not.
def Saved (c : Cycle) : Prop := c.write = .none ∧ c.sync = .none
def Failed (c : Cycle) : Prop := ¬c.Saved

instance (c : Cycle) : Decidable c.Saved := inferInstanceAs (Decidable (_ ∧ _))
instance (c : Cycle) : Decidable c.Failed := inferInstanceAs (Decidable (¬_))

-- A cycle whose seed is saved.
def saved : Cycle where
  entropy := .replicate _ 0
  seed    := []
  write   := .none
  sync    := .none

theorem storageWrite_eq (c : Cycle) (size : ℕ) :
    c.storageWrite size = if c.Saved then (size : Int) else -1 := by
  by_cases hw : c.write = .none <;> by_cases hs : c.sync = .none <;>
    simp [storageWrite, Saved, hw, hs]

end Cycle

structure EntropyTask (X : Xof) where
  rng              : Ascon.RandomState X
  consErrorCounter : UInt8
  retVal           : Int

namespace EntropyTask

variable {X : Xof}

def start (rng : Ascon.RandomState X) : EntropyTask X where
  rng              := rng
  consErrorCounter := 0
  retVal           := 0

-- One iteration of the task's loop, where `none` means that it ends in `utils::panic`.
def cycle (s : EntropyTask X) (c : Cycle) : Option (EntropyTask X) :=
  let rng := Ascon.randomFeed s.rng c.entropy.toList
  let (retVal, rng') := Ascon.randomSaveSeed (some rng) c.seed (some c.storage)
  let rng := rng'.getD rng
  if retVal ≠ 0 then
    let consErrorCounter := s.consErrorCounter + 1
    if consErrorCounter = maxConsecutiveErrors then
      none
    else
      some { rng, consErrorCounter, retVal }
  else
    some { rng, consErrorCounter := 0, retVal }

-- The state in which the `n`-th cycle starts. A finite run may stop at any cycle, and no cycle
-- starts after a panic.
def before (s : EntropyTask X) (run : Seq Cycle) : ℕ → Option (EntropyTask X)
  | 0     => some s
  | n + 1 => do (← before s run n).cycle (← run.get? n)

def PanicsAt (s : EntropyTask X) (run : Seq Cycle) (n : ℕ) : Prop :=
  ∃ s' c, s.before run n = some s' ∧ run.get? n = some c ∧ s'.cycle c = none

end EntropyTask

-- The `n`-th cycle of the run exists and its save failed, respectively succeeded.
def FailedAt (run : Seq Cycle) (n : ℕ) : Prop := ∃ c ∈ run.get? n, c.Failed
def SavedAt (run : Seq Cycle) (n : ℕ) : Prop := ∃ c ∈ run.get? n, c.Saved

instance (run : Seq Cycle) : DecidablePred (SavedAt run) := fun n =>
  inferInstanceAs (Decidable (∃ c ∈ run.get? n, c.Saved))

theorem SavedAt.not_failedAt {run : Seq Cycle} {n : ℕ} : SavedAt run n → ¬FailedAt run n
  | ⟨_, h₁, hs⟩, ⟨_, h₂, hf⟩ => hf (Option.mem_unique h₁ h₂ ▸ hs)

namespace EntropyTask

variable {X : Xof} {rng : Ascon.RandomState X} {s s' : EntropyTask X} {c : Cycle}
variable {run : Seq Cycle} {n : ℕ}

-- The loop treats the value that the library returns for a saved seed as an error.
theorem retVal_eq :
    (Ascon.randomSaveSeed (some rng) c.seed (some c.storage)).1 = if c.Saved then 1 else 0 := by
  have hs : Ascon.randomSavedSeedSize ≤ c.storage.size := by
    simp [Cycle.storage, Ascon.randomSavedSeedSize, blockSizeBytes]
  rw [Ascon.randomSaveSeed_fst hs]
  by_cases h : c.Saved <;>
    simp [Cycle.storage, Cycle.storageWrite_eq, h, Ascon.randomSavedSeedSize]

theorem succ_eq_max_iff (counter : UInt8) :
    counter + 1 = maxConsecutiveErrors ↔ counter.toNat = 4 := by
  rw [← UInt8.toNat_inj, UInt8.toNat_add]
  have := counter.toNat_lt
  simp [maxConsecutiveErrors]
  omega

theorem cycle_eq_none_iff : s.cycle c = none ↔ (c.Saved ∧ s.consErrorCounter.toNat = 4) := by
  by_cases h : c.Saved <;> simp [cycle, retVal_eq, h, succ_eq_max_iff]

theorem cycle_counter (h : s.cycle c = some s') :
    s'.consErrorCounter = if c.Saved then s.consErrorCounter + 1 else 0 := by
  by_cases hc : c.Saved <;> simp [cycle, retVal_eq, hc] at h ⊢
  case pos => exact h.right ▸ rfl
  case neg => exact h ▸ rfl

theorem before_succ (h : s.before run (n + 1) = some s') :
    ∃ s'' c, s.before run n = some s'' ∧ run.get? n = some c ∧ s''.cycle c = some s' := by
  simp only [before, Option.bind_eq_bind, Option.bind_eq_some_iff] at h
  have ⟨s'', h₁, c, h₂, h₃⟩ := h
  exact ⟨s'', c, h₁, h₂, h₃⟩

theorem before_isSome_of_le {m : ℕ} (hm : m ≤ n) (h : (s.before run n).isSome) :
    (s.before run m).isSome := by
  induction hm
  case refl => exact h
  case step hi =>
    have ⟨_, hs⟩ := Option.isSome_iff_exists.mp h
    have ⟨_, _, hb, _, _⟩ := before_succ hs
    exact hi (hb ▸ rfl)

-- The counter counts the consecutive cycles with a *saved* seed, and stays below the limit.
theorem before_counter (h : (start rng).before run n = some s) :
    s.consErrorCounter.toNat = Streak.count (SavedAt run) n ∧ Streak.count (SavedAt run) n < 5 := by
  induction n generalizing s
  case zero =>
    cases h
    simp [start, Streak.count]
  case succ n hi =>
    obtain ⟨s', c, hb, hg, hc⟩ := before_succ h
    obtain ⟨hn, hl⟩ := hi hb
    have hs : SavedAt run n ↔ c.Saved := by simp [SavedAt, hg]
    simp only [cycle_counter hc, Streak.count, hs]
    by_cases hv : c.Saved <;> simp only [hv, if_true, if_false]
    case neg => simp
    case pos =>
      have h4 : s'.consErrorCounter.toNat ≠ 4 := fun he =>
        absurd (cycle_eq_none_iff.mpr ⟨hv, he⟩) (hc ▸ Option.some_ne_none _)
      rw [UInt8.toNat_add]
      simp
      omega

theorem no_window_of_before (h : ((start rng).before run n).isSome) :
    ∀ m < n, ¬Streak.Window (SavedAt run) 5 m := by
  intro m hm hw
  have ⟨_, hs⟩ := Option.isSome_iff_exists.mp (before_isSome_of_le hm h)
  exact absurd (before_counter hs).right (Nat.not_lt.mpr (Streak.window_iff_le_count.mp hw))

-- The loop runs on for as long as no window of saved seeds is complete.
theorem before_isSome (hr : ∀ m < n, (run.get? m).isSome)
    (hw : ∀ m < n, ¬Streak.Window (SavedAt run) 5 m) : ((start rng).before run n).isSome := by
  induction n
  case zero => rfl
  case succ n hi =>
    have ⟨s, hs⟩ := Option.isSome_iff_exists.mp <|
      hi (fun m hm => hr m (by omega)) (fun m hm => hw m (by omega))
    have ⟨c, hc⟩ := Option.isSome_iff_exists.mp (hr n (by omega))
    simp only [before, hs, hc, Option.bind_eq_bind, Option.bind_some]
    by_contra hp
    have ⟨hv, h4⟩ := cycle_eq_none_iff.mp (Option.not_isSome_iff_eq_none.mp hp)
    have hv : SavedAt run n := ⟨c, hc, hv⟩
    refine hw n (by omega) (Streak.window_iff_le_count.mpr ?_)
    simp only [Streak.count, hv, if_true, ← (before_counter hs).left, h4, Nat.le_refl]

-- The panic comes with the fifth of five consecutive cycles whose seed *was* saved.
theorem panicsAt_iff :
    (start rng).PanicsAt run n ↔ Streak.First (Streak.Window (SavedAt run) 5) n := by
  constructor
  case mp =>
    rintro ⟨s, c, hb, hg, hc⟩
    obtain ⟨hv, h4⟩ := cycle_eq_none_iff.mp hc
    have hv : SavedAt run n := ⟨c, hg, hv⟩
    refine ⟨Streak.window_iff_le_count.mpr ?_, no_window_of_before (Option.isSome_of_eq_some hb)⟩
    simp only [Streak.count, hv, if_true, ← (before_counter hb).left, h4, Nat.le_refl]
  case mpr =>
    rintro ⟨hw, hf⟩
    obtain ⟨c, hg, hv⟩ := hw.right n (by omega) (Nat.le_refl n)
    have hr : ∀ m < n, (run.get? m).isSome := by
      intro m hm
      obtain ⟨_, h⟩ := run.ge_stable (Nat.le_of_lt hm) hg
      exact h ▸ rfl
    have hb : ((start rng).before run n).isSome := before_isSome hr hf
    obtain ⟨s, hs⟩ := Option.isSome_iff_exists.mp hb
    refine ⟨s, c, hs, hg, cycle_eq_none_iff.mpr ⟨hv, ?_⟩⟩
    have h5 := Streak.window_iff_le_count.mp hw
    obtain ⟨hn, hl⟩ := before_counter hs
    simp only [Streak.count, show SavedAt run n from ⟨c, hg, hv⟩, if_true] at h5
    omega

-- The documented behavior: the task panics with the first window of five failed saves.
def PanicsOnFailures (s : EntropyTask X) (run : Seq Cycle) : Prop :=
  ∀ n, s.PanicsAt run n ↔ Streak.First (Streak.Window (FailedAt run) 5) n

-- Two windows, one of saved and one of failed cycles, never end with the same cycle.
theorem PanicsOnFailures.no_window (h : (start rng).PanicsOnFailures run) (n : ℕ) :
    ¬Streak.Window (SavedAt run) 5 n ∧ ¬Streak.Window (FailedAt run) 5 n := by
  have hd : ∀ m, ¬(Streak.First (Streak.Window (SavedAt run) 5) m ∧
      Streak.First (Streak.Window (FailedAt run) 5) m) := fun m ⟨h₁, h₂⟩ =>
    h₁.left.disjoint (fun _ => SavedAt.not_failedAt) h₂.left
  constructor <;> intro hw <;> have ⟨m, _, hm⟩ := Streak.First.exists hw
  case left  => exact hd m ⟨hm, (h m).mp (panicsAt_iff.mpr hm)⟩
  case right => exact hd m ⟨panicsAt_iff.mp ((h m).mpr hm), hm⟩

theorem panicsOnFailures_iff :
    (start rng).PanicsOnFailures run ↔
      ∀ n, ¬Streak.Window (SavedAt run) 5 n ∧ ¬Streak.Window (FailedAt run) 5 n := by
  constructor
  case mp => exact PanicsOnFailures.no_window
  case mpr =>
    intro h n
    constructor <;> intro hw
    case mp  => exact absurd (panicsAt_iff.mp hw).left (h n).left
    case mpr => exact absurd hw.left (h n).right

-- Five cycles whose seeds are all saved end in a panic.
theorem not_panicsOnFailures_of_saved :
    ¬(start ⟨(), 0⟩ : EntropyTask .trivial).PanicsOnFailures
      (Seq.ofList (List.replicate 5 .saved)) := by
  intro h
  refine (h.no_window 4).left ⟨by omega, fun i _ hi => ⟨.saved, ?_, rfl, rfl⟩⟩
  rw [Seq.ofList_get?]
  exact List.getElem?_replicate_of_lt (Nat.lt_succ_of_le hi)

end EntropyTask
end Csprng
