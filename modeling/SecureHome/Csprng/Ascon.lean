import Mathlib.Data.Nat.Notation
import Mathlib.Tactic.Common

-- The sponge underneath the generator. The permutation itself plays no role in the control flow of
-- the functions below, so the sponge is a parameter of the model.
structure Xof where
  State   : Type
  absorb  : State → List UInt8 → State
  pad     : State → State
  squeeze : State → (n : ℕ) → Vector UInt8 n × State
  -- The loop of `ascon_random_rekey`, which overwrites the rate with zeroes and permutes.
  forget  : State → State

-- The sponge with no state, which only produces zeroes.
def Xof.trivial : Xof where
  State       := Unit
  absorb _ _  := ()
  pad _       := ()
  squeeze _ n := ⟨.replicate n 0, ()⟩
  forget _    := ()

namespace Ascon

def randomReseedLimit   := 16384
def randomSavedSeedSize := 32

-- The write callback returns the number of bytes that were written, or -1 on error.
structure Storage where
  eraseSize : ℕ
  size      : ℕ
  write     : (offset : ℕ) → (data : List UInt8) → (erase : Bool) → Int

structure RandomState (X : Xof) where
  xof     : X.State
  counter : ℕ

variable {X : Xof}

def randomRekey (state : RandomState X) : RandomState X :=
  { state with xof := X.forget (X.pad state.xof) }

-- The system seed comes from `ascon_trng_generate`.
def randomReseed (state : RandomState X) (seed : List UInt8) : RandomState X :=
  randomRekey { xof := X.absorb state.xof seed, counter := 0 }

def randomFetch (state : RandomState X) (seed : List UInt8) (outlen : ℕ) :
    Vector UInt8 outlen × RandomState X :=
  let state := if state.counter ≥ randomReseedLimit then randomReseed state seed else state
  let (out, xof) := X.squeeze state.xof outlen
  let counter :=
    if outlen < randomReseedLimit then state.counter + outlen else randomReseedLimit
  (out, randomRekey { xof, counter })

def randomFeed (state : RandomState X) (entropy : List UInt8) : RandomState X :=
  randomRekey { state with xof := X.pad (X.absorb state.xof entropy) }

-- Note that the comparison in the last line of the C function makes it return 1 when the seed was
-- saved and 0 when it was not, while its header promises 0 and -1.
def randomSaveSeed (state : Option (RandomState X)) (seed : List UInt8)
    (storage : Option Storage) : Int × Option (RandomState X) :=
  match state, storage with
  | some state, some storage =>
    if storage.size < randomSavedSeedSize then
      (-1, some state)
    else
      let (out, state) := randomFetch state seed randomSavedSeedSize
      let written := storage.write 0 out.toList (storage.eraseSize ≠ 0)
      (if written = randomSavedSeedSize then 1 else 0, some state)
  | state, _ => (-1, state)

-- The return value only depends on whether the callback reports all bytes of the seed as written.
theorem randomSaveSeed_fst {state : RandomState X} {seed : List UInt8} {storage : Storage}
    (hs : randomSavedSeedSize ≤ storage.size) :
    (randomSaveSeed (some state) seed (some storage)).1 =
      if storage.write 0 (randomFetch state seed randomSavedSeedSize).1.toList
        (storage.eraseSize ≠ 0) = randomSavedSeedSize then 1 else 0 := by
  simp [randomSaveSeed, Nat.not_lt.mpr hs]

end Ascon
