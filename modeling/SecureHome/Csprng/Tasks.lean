import SecureHome.Csprng.EntropyMixture
import SecureHome.Csprng.EntropyTask
import SecureHome.File.Basic
import SecureHome.FreeRTOS.Mutex
import SecureHome.Hal.Uart

open FreeRTOS Hal

namespace Csprng

def systemSeedSize := 32

-- The tasks that share the generator.
inductive Thread (τ : Type)
  | entropyTask
  | task (t : τ)
  deriving DecidableEq

-- The functions of the HAL that `deinit` calls.
inductive HalCall
  | adcStopDma
  | dmaDeInit
  | adcDeInit
  | rtcDeInit

structure State (τ : Type) (X : Xof) where
  isInitialized      : Bool
  taskMutex          : RecursiveMutex (Thread τ)
  rngState           : Ascon.RandomState X
  -- The static variables of `get_entropy_mixture`, and what it reads.
  mixture            : Mixture
  sources            : Sources
  -- The local variable of the entropy task.
  consErrorCounter   : UInt8
  entropyTaskDeleted : Bool
  -- The entropy task is inside of `ascon_random_save_seed`.
  saving             : Bool
  file               : File.State (Thread τ)

-- The statements of the functions below.
inductive Op (X : Xof)
  | file (o : File.Op)
  | isInitialized
  | resetInitialized
  | takeMutex
  | giveMutex
  | deleteMutex
  | mixEntropy
  | loadCounter
  | randomFetch (seed : List UInt8) (outlen : ℕ)
  | randomFeed (entropy : List UInt8)
  | randomFree
  | enterSaveSeed
  | leaveSaveSeed
  | loadErrors
  | storeErrors (counter : UInt8)
  | panic
  | delay
  | hal (c : HalCall)
  | deleteEntropyTask

@[reducible]
def sig (X : Xof) : Sig where
  Op  := Op X
  Ret
    | .file o          => File.sig.Ret o
    | .isInitialized   => Bool
    | .mixEntropy      => UInt8
    | .loadCounter     => ℕ
    | .randomFetch ..  => List UInt8
    | .loadErrors      => UInt8
    | .hal _           => Status
    | _                => Unit

variable {X : Xof} {α : Type}

abbrev perform (o : Op X) : Prog (sig X) ((sig X).Ret o) :=
  Prog.perform (S := sig X) o

-- A function of the other module.
def inFile (p : Prog File.sig α) : Prog (sig X) α :=
  p.mapOps (T := sig X) .file fun _ r => r

-- The scope of a `scoped_mutex_t`.
def scopedMutex (p : Prog (sig X) α) : Prog (sig X) α := do
  perform .takeMutex
  let r ← p
  perform .giveMutex
  return r

def getEntropyMixtureLocked : Prog (sig X) UInt8 :=
  scopedMutex (perform .mixEntropy)

-- `ascon_trng_get_bytes`
def getBytes : ℕ → Prog (sig X) (List UInt8)
  | 0     => return []
  | n + 1 => do
    let byte ← getEntropyMixtureLocked
    return byte :: (← getBytes n)

-- `ascon_trng_generate`, whose own generator plays no role.
def trngGenerate : Prog (sig X) (List UInt8) :=
  getBytes systemSeedSize

-- The seed is only needed if the generator has to be reseeded.
def asconRandomFetch (outlen : ℕ) : Prog (sig X) (List UInt8) := do
  let seed ← if (← perform .loadCounter) ≥ Ascon.randomReseedLimit then trngGenerate else pure []
  perform (.randomFetch seed outlen)

-- The write callback of `s_ascon_storage`.
def storageWrite (data : List UInt8) : Prog (sig X) Int := do
  match ← inFile (File.write .asconSeed data 0).run with
  | .error _ => return -1
  | .ok _    =>
    match ← inFile (File.sync .asconSeed).run with
    | .error _ => return -1
    | .ok _    => return data.length

def asconRandomSaveSeed : Prog (sig X) Int := do
  perform .enterSaveSeed
  let seed ← asconRandomFetch Ascon.randomSavedSeedSize
  let written ← storageWrite seed
  perform .leaveSaveSeed
  return if written = Ascon.randomSavedSeedSize then 1 else 0

-- The loop of the entropy task over its samples.
def gatherEntropy : ℕ → Prog (sig X) (List UInt8)
  | 0     => return []
  | n + 1 => do
    let data ← getEntropyMixtureLocked
    perform .delay
    return data :: (← gatherEntropy n)

def saveEntropy (entropy : List UInt8) : Prog (sig X) Int :=
  scopedMutex do
    perform (.randomFeed entropy)
    asconRandomSaveSeed

def countErrors (retVal : Int) : Prog (sig X) Unit := do
  if retVal ≠ 0 then
    let counter := (← perform .loadErrors) + 1
    perform (.storeErrors counter)
    if counter = maxConsecutiveErrors then
      perform .panic
  else
    perform (.storeErrors 0)

-- A pass through the loop of the entropy task.
def entropyCycle : Prog (sig X) Unit := do
  let entropy ← gatherEntropy numOfEntropySamples
  let retVal ← saveEntropy entropy
  countErrors retVal
  perform .delay

def checkInitialized : Fallible (sig X) ErrorT Unit := do
  if !(← ExceptT.lift (perform .isInitialized)) then
    throw .errInvalidState

-- `TRY_HAL`
def tryHal (c : HalCall) : Fallible (sig X) ErrorT Unit := do
  if (← ExceptT.lift (perform (.hal c))) ≠ .ok then
    throw .errHalFail

-- What `deinit` does while it holds the mutex.
def deinitLocked : Fallible (sig X) ErrorT Unit := do
  tryHal .adcStopDma
  tryHal .dmaDeInit
  tryHal .adcDeInit
  tryHal .rtcDeInit
  ExceptT.lift (perform .deleteEntropyTask)
  ExceptT.lift (perform .randomFree)

def deinit : Fallible (sig X) ErrorT Unit := do
  checkInitialized
  ExceptT.mk (scopedMutex deinitLocked.run)
  ExceptT.lift (perform .deleteMutex)
  ExceptT.lift (perform .resetInitialized)

def getRandomNumbers (size : ℕ) : Fallible (sig X) ErrorT (List UInt8) := do
  checkInitialized
  if size = 0 then
    throw .errInvalidArg
  else
    ExceptT.lift (scopedMutex (asconRandomFetch size))

inductive Call
  | entropyCycle
  | deinit
  | getRandomNumbers (size : ℕ)
  | file (c : File.Call)

inductive Event
  -- `HAL_RTCEx_RTCEventCallback`
  | rtcEvent (jitter : UInt32)
  -- The DMA controller updates the samples.
  | adcSamples (adcBuf : Vector UInt16 adcNumChannels)
  | flashFault (e : File.LfsError)

namespace State

variable {τ : Type} [DecidableEq τ]

-- The state after a successful `init` of both modules.
def initialized (flash : File.Flash) (rngState : Ascon.RandomState X) (mixture : Mixture)
    (sources : Sources) : State τ X where
  isInitialized      := true
  taskMutex          := .free
  rngState           := rngState
  mixture            := mixture
  sources            := sources
  consErrorCounter   := 0
  entropyTaskDeleted := false
  saving             := false
  file               := .init flash

-- `ascon_random_free` resets the counter and clears the state.
def freeRng (s : State τ X) : State τ X :=
  { s with rngState.counter := 0 }

def exec (t : Thread τ) (s : State τ X) : (o : Op X) → List ((sig X).Ret o × State τ X)
  | .file o               => (s.file.exec t o).map fun (r, file) => (r, { s with file })
  | .isInitialized        => [(s.isInitialized, s)]
  | .resetInitialized     => [((), { s with isInitialized := false })]
  -- The mutex is waited for without a timeout.
  | .takeMutex            =>
    ((s.taskMutex.take t).map fun taskMutex => ((), { s with taskMutex })).toList
  | .giveMutex            => [((), { s with taskMutex := s.taskMutex.give t })]
  -- The memory of the mutex is static and left as it is.
  | .deleteMutex          => [((), s)]
  | .mixEntropy           =>
    let (entropy, mixture) := getEntropyMixture s.mixture s.sources
    [(entropy, { s with mixture })]
  | .loadCounter          => [(s.rngState.counter, s)]
  | .randomFetch seed outlen =>
    let (out, rngState) := Ascon.randomFetch s.rngState seed outlen
    [(out.toList, { s with rngState })]
  | .randomFeed entropy   => [((), { s with rngState := Ascon.randomFeed s.rngState entropy })]
  | .randomFree           => [((), s.freeRng)]
  | .enterSaveSeed        => [((), { s with saving := true })]
  | .leaveSaveSeed        => [((), { s with saving := false })]
  | .loadErrors           => [(s.consErrorCounter, s)]
  | .storeErrors counter  => [((), { s with consErrorCounter := counter })]
  -- The task never returns from `utils::panic`.
  | .panic                => []
  | .delay                => [((), s)]
  | .hal _                => [(.ok, s), (.error, s), (.busy, s)]
  | .deleteEntropyTask    => [((), { s with entropyTaskDeleted := true })]

def event (s : State τ X) : Event → Option (State τ X)
  | .rtcEvent jitter   => some { s with sources.rtcJitter := jitter }
  | .adcSamples adcBuf => some { s with sources.adcBuf := adcBuf }
  | .flashFault e      => some { s with file.fault := some e }

end State

-- The entropy task together with any tasks that call the functions of both modules. A deleted task
-- does nothing anymore.
def system (τ : Type) [DecidableEq τ] (X : Xof) : System (sig X) (Thread τ) Call Event (State τ X) where
  calls
    | .entropyTask, .entropyCycle         => some entropyCycle
    | .task _,      .deinit               => some (do let _ ← deinit.run)
    | .task _,      .getRandomNumbers n   => some (do let _ ← (getRandomNumbers n).run)
    | .task _,      .file c               => if c = .deinit then none else some (inFile (File.serve c))
    | _,            _                     => none
  exec t o s := if t = .entropyTask ∧ s.entropyTaskDeleted then [] else s.exec t o
  event e s  := s.event e

end Csprng
