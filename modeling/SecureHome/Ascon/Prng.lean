import SecureHome.Ascon.Bijective
import SecureHome.Ascon.Reference
import SecureHome.Csprng.Ascon
import Mathlib.Data.Nat.Notation
import Mathlib.SetTheory.Cardinal.Finite
import Mathlib.Tactic.Common

-- The generator with the sponge of the firmware.
namespace Ascon

variable {o : XofCall} {x : XofState} {w : Sliced32.State} {r : XofState × Sliced32.State} {n : ℕ}

theorem count_exec_lt (h : r.1.count < xofRate) : (o.exec Sliced32.exec r).2.1.count < xofRate := by
  obtain ⟨-, hr⟩ := XofCall.simulates o r _ trivial (.of_lt h)
  exact hr.count ▸ hr.lt

theorem length_squeeze (h : r.1.count < xofRate) :
    ((XofCall.squeeze n).exec Sliced32.exec r).1.length = n := by
  obtain ⟨he, -⟩ := XofCall.simulates (.squeeze n) r _ trivial (.of_lt h)
  exact (congrArg List.length he).trans Sponge.length_squeeze

def firmware : Xof where
  State           := { r : XofState × Sliced32.State // r.1.count < xofRate }
  absorb r input  := ⟨((XofCall.absorb input).exec Sliced32.exec r.1).2, count_exec_lt r.2⟩
  pad r           := ⟨(XofCall.pad.exec Sliced32.exec r.1).2, count_exec_lt r.2⟩
  squeeze r n     :=
    (⟨((XofCall.squeeze n).exec Sliced32.exec r.1).1.toArray, length_squeeze r.2⟩,
      ⟨((XofCall.squeeze n).exec Sliced32.exec r.1).2, count_exec_lt r.2⟩)
  forget r        := ⟨(XofCall.forget.exec Sliced32.exec r.1).2, count_exec_lt r.2⟩

def spongePrng : List UInt8 :=
  "SpongePRNG".toUTF8.toList

theorem count_initCustom : ((XofCall.initCustom spongePrng [] 0).exec Sliced32.exec r).2.1.count < xofRate := by
  have hi : Runs (xofInitCustom spongePrng [] 0) (Direct.store r.2.join)
      ({ count := 0, mode := false }, initial spongePrng [] 0) := runs_xofInitCustom
  have hr := hi.represents (d := ⟨_, 0, false⟩) (Sliced32.same_of_eq_store rfl) sponge.rate_pos
  exact hr.count ▸ hr.lt

-- The memory of the state is not initialized before.
def randomInit (r : XofState × Sliced32.State) (seed : List UInt8) : RandomState firmware :=
  let xof : firmware.State := ⟨((XofCall.initCustom spongePrng [] 0).exec Sliced32.exec r).2, count_initCustom⟩
  randomRekey { xof := firmware.absorb xof seed, counter := 0 }

section

variable {X : Xof}

-- The read callback returns the number of bytes that were read, and fills the buffer. The last seed is
-- only used if the generator has to be seeded again. The result contains the bytes that are written.
def randomLoadSeed (state : Option (RandomState X)) (storage : Option Storage) (read : Int × List UInt8)
    (seed seed' : List UInt8) : Int × Option (RandomState X) × Option (List UInt8) :=
  match state, storage with
  | some state, some storage =>
    if storage.size < randomSavedSeedSize then
      (-1, some state, none)
    else
      let state := if read.1 = randomSavedSeedSize then randomFeed state read.2 else state
      let (out, state) := randomFetch (randomReseed state seed) seed' randomSavedSeedSize
      (if read.1 = randomSavedSeedSize then 1 else 0, some state, some out.toList)
  | state, _ => (-1, state, none)

-- The calls of the tasks, with what the callbacks and the source of the system seed return.
inductive RandomCall
  | reseed (seed : List UInt8)
  | fetch (outlen : ℕ) (seed : List UInt8)
  | feed (entropy : List UInt8)
  | saveSeed (storage : Storage) (seed : List UInt8)
  | loadSeed (storage : Storage) (read : Int × List UInt8) (seed seed' : List UInt8)

-- A generator with the number of bytes that it has generated since it was seeded the last time.
structure Generator (X : Xof) where
  state : RandomState X
  bytes : ℕ

namespace Generator

variable {g : Generator X} {c : RandomCall}

def reseed (g : Generator X) (seed : List UInt8) : Generator X where
  state := randomReseed g.state seed
  bytes := 0

def fetch (g : Generator X) (seed : List UInt8) (outlen : ℕ) : Generator X where
  state := (randomFetch g.state seed outlen).2
  bytes := if g.state.counter ≥ randomReseedLimit then outlen else g.bytes + outlen

def exec (g : Generator X) : RandomCall → Generator X
  | .reseed seed                      => g.reseed seed
  | .fetch outlen seed                => g.fetch seed outlen
  | .feed entropy                     => { g with state := randomFeed g.state entropy }
  | .saveSeed storage seed            =>
    { state := (randomSaveSeed (some g.state) seed (some storage)).2.getD g.state
      bytes := if storage.size < randomSavedSeedSize then g.bytes else (g.fetch seed randomSavedSeedSize).bytes }
  | .loadSeed storage read seed seed' =>
    { state := (randomLoadSeed (some g.state) (some storage) read seed seed').2.1.getD g.state
      bytes :=
        if storage.size < randomSavedSeedSize then
          g.bytes
        else
          ((g.reseed seed).fetch seed' randomSavedSeedSize).bytes }

-- What the counter says about the number of bytes.
structure Counts (g : Generator X) : Prop where
  lt    : g.state.counter < 2 * randomReseedLimit
  le    : g.state.counter ≤ g.bytes
  exact : g.state.counter < randomReseedLimit → g.state.counter = g.bytes

theorem exec_saveSeed {storage : Storage} {seed : List UInt8} : g.exec (.saveSeed storage seed) =
    if storage.size < randomSavedSeedSize then g else g.fetch seed randomSavedSeedSize := by
  rw [exec, randomSaveSeed]
  split <;> rfl

theorem exec_loadSeed {storage : Storage} {read : Int × List UInt8} {seed seed' : List UInt8} :
    g.exec (.loadSeed storage read seed seed') =
      if storage.size < randomSavedSeedSize then
        g
      else
        (({ g with state := if read.1 = randomSavedSeedSize then randomFeed g.state read.2 else g.state } :
          Generator X).reseed seed).fetch seed' randomSavedSeedSize := by
  rw [exec, randomLoadSeed]
  split <;> rfl

theorem Counts.reseed {seed : List UInt8} : (g.reseed seed).Counts where
  lt      := show 0 < 2 * randomReseedLimit by decide
  le      := Nat.le_refl _
  exact _ := rfl

theorem Counts.fetch {seed : List UInt8} {outlen : ℕ} (h : g.Counts) : (g.fetch seed outlen).Counts := by
  have hc : (g.fetch seed outlen).state.counter = if outlen < randomReseedLimit then
      (if g.state.counter ≥ randomReseedLimit then 0 else g.state.counter) + outlen
      else randomReseedLimit := by
    rw [Generator.fetch, randomFetch, apply_ite RandomState.counter]
    rfl
  have hb : (g.fetch seed outlen).bytes =
      if g.state.counter ≥ randomReseedLimit then outlen else g.bytes + outlen := rfl
  obtain ⟨hl, hle, he⟩ := h
  refine ⟨?_, ?_, fun hl' => ?_⟩ <;> grind

theorem Counts.exec (h : g.Counts) : (g.exec c).Counts := by
  cases c
  case reseed => exact .reseed
  case fetch  => exact h.fetch
  case feed   => exact ⟨h.lt, h.le, h.exact⟩
  case saveSeed =>
    rw [exec_saveSeed]
    split
    case isTrue  => exact h
    case isFalse => exact h.fetch
  case loadSeed =>
    rw [exec_loadSeed]
    split
    case isTrue  => exact h
    case isFalse => exact Counts.reseed.fetch

end Generator

end

-- Between two calls the sponge stands at the start of a block.
section

variable {σ : Type} {exec : (o : Snp) → σ → snp.Ret o × σ} {s : σ} {r : XofState × σ}

theorem runOn_xofPad_fst :
    ((xofPad x).runOn exec s).1 = { count := 0, mode := false } := by
  obtain ⟨count, mode⟩ := x
  rw [xofPad]
  cases mode
  case true =>
    have hb : xofAbsorbBlocks { count := 0, mode := false } [] = return { count := 0, mode := false } := by
      rw [xofAbsorbBlocks]
      rfl
    simp [xofAbsorb, xofAbsorbRest, hb]
  case false =>
    by_cases h : count = 0 <;> simp [h]

theorem exec_pad_fst : (XofCall.pad.exec exec r).2.1 = { count := 0, mode := false } := by
  rw [XofCall.exec, runOn_xofPad_fst]

theorem exec_forget_fst : (XofCall.forget.exec exec r).2.1 = r.1 := by
  rw [XofCall.exec]

end

theorem randomRekey_xof {s : RandomState firmware} :
    (randomRekey s).xof.val.1 = { count := 0, mode := false } :=
  exec_forget_fst.trans exec_pad_fst

theorem Generator.exec_xof {g : Generator firmware} {c : RandomCall}
    (h : g.state.xof.val.1 = { count := 0, mode := false }) :
    (g.exec c).state.xof.val.1 = { count := 0, mode := false } := by
  cases c
  case reseed => exact randomRekey_xof
  case fetch  => exact randomRekey_xof
  case feed   => exact randomRekey_xof
  case saveSeed =>
    rw [exec_saveSeed]
    split
    case isTrue  => exact h
    case isFalse => exact randomRekey_xof
  case loadSeed =>
    rw [exec_loadSeed]
    split
    case isTrue  => exact h
    case isFalse => exact randomRekey_xof

def generator (r : XofState × Sliced32.State) (seed : List UInt8) (calls : List RandomCall) :
    Generator firmware :=
  calls.foldl Generator.exec { state := randomInit r seed, bytes := 0 }

-- The generator is seeded again in front of an output exactly if it has generated the number of bytes that
-- is the limit since the last time.
theorem reseeds_iff {seed : List UInt8} {calls : List RandomCall} :
    let g := generator r seed calls
    (g.state.counter ≥ randomReseedLimit ↔ g.bytes ≥ randomReseedLimit) ∧
    (g.bytes < randomReseedLimit → g.state.counter = g.bytes) ∧ g.state.counter < 2 * randomReseedLimit ∧
    g.state.xof.val.1 = { count := 0, mode := false } := by
  have hg : (generator r seed calls).Counts ∧
      (generator r seed calls).state.xof.val.1 = { count := 0, mode := false } := by
    rw [generator]
    refine List.foldlRecOn (motive := fun g : Generator firmware =>
      g.Counts ∧ g.state.xof.val.1 = { count := 0, mode := false }) calls Generator.exec
      ⟨?_, randomRekey_xof⟩ fun g hg c _ => ⟨hg.left.exec, Generator.exec_xof hg.right⟩
    exact ⟨show 0 < 2 * randomReseedLimit by decide, Nat.le_refl _, fun _ => rfl⟩
  obtain ⟨⟨hl, hle, he⟩, hx⟩ := hg
  refine ⟨⟨fun h => Nat.le_trans h hle, fun h => ?_⟩, fun h => he (Nat.lt_of_le_of_lt hle h), hl, hx⟩
  by_contra hc
  exact Nat.not_le.mpr (he (Nat.not_le.mp hc) ▸ Nat.not_le.mp hc) h

theorem runOn_randomForget : (randomForget 1).runOn Sliced32.exec w =
    ((), (Ascon.permute (w.join.set 0 0) 0).slice) := by
  have ho : Sliced32.overwriteWithZeroes w 0 xofRate = (w.join.set 0 0).slice := by
    have hl : (List.replicate xofRate ()).length = 8 := List.length_replicate
    rw [← Sliced32.setWords_zero, Words.slice_join, Sliced32.overwriteWithZeroes,
      Sliced32.split_full (Nat.zero_mod 8) hl]
  have hr : (randomForget 1).runOn Sliced32.exec w =
      ((), Asm.permute (Sliced32.overwriteWithZeroes w 0 xofRate) 0) := rfl
  rw [hr, ho, Asm.permute_eq, Words.join_slice]
  rfl

-- Each pass of the loop in `ascon_random_rekey` leaves open what the outer part was before, and nothing else.
theorem card_forget : Nat.card { w' : Sliced32.State //
    (randomForget 1).runOn Sliced32.exec w' = (randomForget 1).runOn Sliced32.exec w } = 2 ^ 64 := by
  have hs : Function.Injective Words.slice := Function.LeftInverse.injective fun _ => Words.join_slice
  have hw (i : Fin (2 ^ 64)) : (randomForget 1).runOn Sliced32.exec (w.join.set (.ofFin i) 0).slice =
      (randomForget 1).runOn Sliced32.exec w := by
    rw [runOn_randomForget, runOn_randomForget, Words.join_slice]
    rfl
  refine (Nat.card_eq_of_bijective (fun i => ⟨_, hw i⟩) ⟨?_, ?_⟩).symm.trans (Nat.card_fin (2 ^ 64))
  case refine_1 =>
    intro i i' h
    have h := hs (Subtype.ext_iff.mp h)
    exact BitVec.ofFin.inj (congrArg Words.x0 h)
  case refine_2 =>
    rintro ⟨w', h⟩
    rw [runOn_randomForget, runOn_randomForget] at h
    have h : w'.join.set 0 0 = w.join.set 0 0 := permute_injective (hs (congrArg Prod.snd h))
    have hx : w.join.set w'.join.x0 0 = w'.join := (congrArg (Words.set · w'.join.x0 0) h).symm
    refine ⟨w'.join.x0.toFin, Subtype.ext ?_⟩
    exact (congrArg Words.slice hx).trans Words.slice_join

end Ascon
