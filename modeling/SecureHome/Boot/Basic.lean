import SecureHome.Boot.Lfs
import SecureHome.Csprng.Ascon
import SecureHome.Hal.Uart
import SecureHome.Lib.PowerLoss

open File (LfsError Mutex Name)
open Hal (Status)

namespace Boot

-- What is not up to the software.
structure Env where
  fault         : Option Fault
  -- The RTC has updated the jitter in this boot.
  jitterUpdated : Bool
  -- What the generator is going to return.
  output        : Vector UInt8 Ascon.randomSavedSeedSize

structure State where
  board : Board
  env   : Env

-- The bytes of the counter in memory, and the number that bytes stand for.
def counterBytes (count : UInt32) : List UInt8 :=
  [.ofNat count.toNat, .ofNat (count.toNat / 2 ^ 8), .ofNat (count.toNat / 2 ^ 16),
    .ofNat (count.toNat / 2 ^ 24)]

def countOf (bytes : List UInt8) : UInt32 :=
  .ofNat (bytes.foldr (fun byte n => byte.toNat + 2 ^ 8 * n) 0)

-- The counter after its first bytes were overwritten.
def overwrite (count : UInt32) (bytes : List UInt8) : UInt32 :=
  countOf (bytes ++ (counterBytes count).drop bytes.length)

-- The statements of the functions below.
inductive Op
  | isInitialized
  | setInitialized
  | resetInitialized
  | createMutex
  | takeMutex
  | giveMutex
  | deleteMutex
  | lfs (c : LfsCall)
  | loadBootCycleCounter
  | storeBootCycleCounter (bytes : List UInt8)
  | incrementBootCycleCounter
  | record (e : Entry)
  | recordInitialized
  | recordRead
  | rndIsInitialized
  | rndSetInitialized
  -- The calls of the HAL that set up the ADC, its DMA channel and the RTC.
  | halInit
  | rtcSetSecondIt
  | enableRtcIrq
  -- `vTaskDelay` for longer than it takes the RTC to raise its second interrupt.
  | delay
  | trngGenerate
  | randomFetch

@[reducible]
def sig : Sig where
  Op  := Op
  Ret
    | .isInitialized | .rndIsInitialized | .trngGenerate => Bool
    | .lfs _                                             => LfsResult
    | .loadBootCycleCounter                              => UInt32
    | .halInit | .rtcSetSecondIt                         => Status
    | .randomFetch                                       => List UInt8
    | _                                                  => Unit

abbrev Driver (α : Type) :=
  Fallible sig ErrorT α

def perform (o : Op) : Driver (sig.Ret o) :=
  ExceptT.lift (Prog.perform (S := sig) o)

-- `TRY_LFS`
def tryLfs (c : LfsCall) (err : ErrorT) : Driver Unit := do
  match (← perform (.lfs c)).1 with
  | .ok _    => return
  | .error e => throw (if e = .corrupt then .fileFsCorrupted else err)

-- `TRY_HAL`
def tryHal (p : Driver Status) : Driver Unit := do
  if (← p) ≠ .ok then
    throw .errHalFail

-- The scope of a `scoped_mutex_t`.
def scopedMutex {α : Type} (p : Driver α) : Driver α := .mk do
  Prog.perform (S := sig) .takeMutex
  let r ← p.run
  Prog.perform (S := sig) .giveMutex
  return r

-- Mounts the file system, and formats it first if there is none. Returns whether it did.
def setupFs : Driver Bool := do
  match (← perform (.lfs .mount)).1 with
  | .ok _    => return false
  | .error _ => do
    tryLfs .format .fileFsFailedToFormat
    tryLfs .mount .fileFsFailedToMount
    return true

def readCounter : Driver Unit := do
  let (ret, bytes) ← perform (.lfs (.fileRead .counter 4))
  perform (.storeBootCycleCounter bytes)
  if ret ≠ .ok 4 ∧ ret ≠ .ok 0 then
    throw .fileFailedToRead

def writeCounter : Driver Unit := do
  let count ← perform .loadBootCycleCounter
  let (ret, _) ← perform (.lfs (.fileWrite .counter (counterBytes count)))
  if ret ≠ .ok 4 then
    throw .fileFailedToWrite

def bumpCounter (firstBoot : Bool) : Driver Unit := do
  if !firstBoot then
    perform .incrementBootCycleCounter

namespace File

-- `file::init`
def init : Driver Unit := do
  if ← perform .isInitialized then
    throw .errInvalidState
  else
    perform .createMutex
    let firstBoot ← setupFs
    tryLfs (.fileOpen .counter) .fileFailedToOpen
    readCounter
    tryLfs (.fileSeek .counter 0) .fileFailedToSeek
    bumpCounter firstBoot
    writeCounter
    tryLfs (.fileClose .counter) .fileFailedToClose
    tryLfs (.fileOpen .pNumbers) .fileFailedToOpen
    tryLfs (.fileOpen .password) .fileFailedToOpen
    tryLfs (.fileOpen .asconSeed) .fileFailedToOpen
    perform .setInitialized

def checkInitialized : Driver Unit := do
  if !(← perform .isInitialized) then
    throw .errInvalidState

-- `file::deinit`
def deinit : Driver Unit := do
  checkInitialized
  scopedMutex do
    tryLfs (.fileClose .password) .fileFailedToClose
    tryLfs (.fileClose .pNumbers) .fileFailedToClose
    tryLfs (.fileClose .asconSeed) .fileFailedToClose
    tryLfs .unmount .fileFsFailedToUnmount
  perform .deleteMutex
  perform .resetInitialized

-- `file::get_boot_cycle_count`
def getBootCycleCount : Driver UInt32 := do
  checkInitialized
  perform .loadBootCycleCounter

-- The counter file is not to be accessed during normal operation.
def checkName (name : Name) : Driver Unit := do
  if name = .counter ∨ name = .count then
    throw .errInvalidArg

def writeLocked (name : Name) (data : List UInt8) (offset : UInt32) : Driver Unit := do
  tryLfs (.fileSeek name offset.toNat) .fileFailedToSeek
  let (ret, _) ← perform (.lfs (.fileWrite name data))
  if ret ≠ .ok data.length then
    throw .fileFailedToWrite

def readLocked (name : Name) (size : ℕ) (offset : UInt32) : Driver (List UInt8) := do
  tryLfs (.fileSeek name offset.toNat) .fileFailedToSeek
  let (ret, bytes) ← perform (.lfs (.fileRead name size))
  if ret ≠ .ok size then
    throw .fileFailedToRead
  else
    return bytes

-- `file::write`
def write (name : Name) (data : List UInt8) (offset : UInt32) : Driver Unit := do
  checkInitialized
  if data.length = 0 then
    throw .errInvalidArg
  else
    checkName name
    scopedMutex (writeLocked name data offset)

-- `file::read`
def read (name : Name) (size : ℕ) (offset : UInt32) : Driver (List UInt8) := do
  checkInitialized
  if size = 0 then
    throw .errInvalidArg
  else
    checkName name
    scopedMutex (readLocked name size offset)

-- `file::sync`
def sync (name : Name) : Driver Unit := do
  checkInitialized
  checkName name
  scopedMutex (tryLfs (.fileSync name) .fileFailedToSync)

end File

namespace Rnd

-- The read callback of `s_ascon_storage`, together with the bytes that it has read. The offset is
-- ignored.
def storageRead (size : ℕ) : Prog sig (Int × List UInt8) := do
  Prog.perform (S := sig) .recordRead
  match ← (File.read .asconSeed size 0).run with
  | .error _  =>
    Prog.perform (S := sig) (.record .notLoaded)
    return (-1, [])
  | .ok bytes =>
    Prog.perform (S := sig) (.record (.loaded bytes))
    return (size, bytes)

-- The write callback of `s_ascon_storage`.
def storageWrite (data : List UInt8) : Prog sig Int := do
  Prog.perform (S := sig) (.record (.write data))
  match ← (File.write .asconSeed data 0).run with
  | .error _ => return -1
  | .ok _    =>
    match ← (File.sync .asconSeed).run with
    | .error _ => return -1
    | .ok _    =>
      Prog.perform (S := sig) (.record (.saved data))
      return data.length

-- `ascon_random_load_seed`, which only returns a negative number for invalid arguments. The state of
-- the generator plays no role here.
def randomLoadSeed : Prog sig Int := do
  let (read, _) ← storageRead Ascon.randomSavedSeedSize
  let _ ← Prog.perform (S := sig) .trngGenerate
  let seed ← Prog.perform (S := sig) .randomFetch
  let _ ← storageWrite seed
  return if read = Ascon.randomSavedSeedSize then 1 else 0

-- The wait for the RTC, if this is the first boot.
def awaitJitter (bootCycleCount : UInt32) : Driver Unit := do
  if bootCycleCount = 0 then
    perform .delay

-- `ascon_random_init` and `ascon_random_load_seed`
def seedGenerator : Driver Unit := do
  if !(← perform .trngGenerate) then
    throw .errFail
  else
    if (← ExceptT.lift randomLoadSeed) < 0 then
      throw .errFail

-- `rnd::init`, without its mutex and the task that it creates, which saves seeds by the write callback.
def init : Driver Unit := do
  if ← perform .rndIsInitialized then
    throw .errInvalidState
  else
    tryHal (perform .halInit)
    tryHal (perform .rtcSetSecondIt)
    perform .enableRtcIrq
    let bootCycleCount ← tryCatch File.getBootCycleCount fun _ => throw .errInvalidState
    awaitJitter bootCycleCount
    seedGenerator
    perform .rndSetInitialized

end Rnd

inductive Call
  | init
  | deinit
  | write (name : Name) (data : List UInt8) (offset : UInt32)
  | read (name : Name) (size : ℕ) (offset : UInt32)
  | sync (name : Name)
  | getBootCycleCount
  | storageRead (size : ℕ)
  | storageWrite (data : List UInt8)
  | rndInit
  deriving DecidableEq

-- The counts that the callers of the functions see are recorded.
def runCall : Call → Driver Unit
  | .init                   => do File.init; perform .recordInitialized
  | .deinit                 => File.deinit
  | .write name data offset => File.write name data offset
  | .read name size offset  => do let _ ← File.read name size offset
  | .sync name              => File.sync name
  | .getBootCycleCount      => do perform (.record (.counted (← File.getBootCycleCount)))
  | .storageRead size       => do let _ ← ExceptT.lift (Rnd.storageRead size)
  | .storageWrite data      => do let _ ← ExceptT.lift (Rnd.storageWrite data)
  | .rndInit                => Rnd.init

def serve (c : Call) : Prog sig Unit := do
  let _ ← (runCall c).run

inductive Event
  | fault (f : Fault)
  -- `HAL_RTCEx_RTCEventCallback`
  | rtcEvent
  | output (seed : Vector UInt8 Ascon.randomSavedSeedSize)

def Env.after (env : Env) : Op → Env
  | .lfs _ => { env with fault := none }
  | _      => env

-- All that a statement can do.
def Board.outcomes (b : Board) (env : Env) : (o : Op) → List (sig.Ret o × Board)
  | .isInitialized             => [(b.isInitialized, b)]
  | .setInitialized            => [((), { b with isInitialized := true })]
  | .resetInitialized          => [((), { b with isInitialized := false })]
  | .createMutex               => [((), { b with mutex := .free })]
  | .takeMutex                 => if b.mutex = .free then [((), { b with mutex := .heldBy () })] else []
  | .giveMutex                 => [((), { b with mutex := .free })]
  | .deleteMutex               => [((), { b with mutex := .deleted })]
  | .lfs c                     => c.outcomes env.fault b
  | .loadBootCycleCounter      => [(b.bootCycleCounter, b)]
  | .storeBootCycleCounter bytes =>
    [((), { b with bootCycleCounter := overwrite b.bootCycleCounter bytes })]
  | .incrementBootCycleCounter => [((), { b with bootCycleCounter := b.bootCycleCounter + 1 })]
  | .record e                  => [((), b.record e)]
  | .recordInitialized         =>
    [((), b.record (.initialized b.bootCycleCounter (b.partition.bytes .counter)))]
  | .recordRead                => [((), b.record (.read b.isInitialized))]
  | .rndIsInitialized          => [(b.rndIsInitialized, b)]
  | .rndSetInitialized         => [((), { b with rndIsInitialized := true })]
  | .halInit                   => [(.ok, b), (.error, b)]
  | .rtcSetSecondIt            => [(.ok, b), (.error, b)]
  | .enableRtcIrq              => [((), { b with rtcIrqEnabled := true })]
  | .delay                     => if env.jitterUpdated then [((), b)] else []
  | .trngGenerate              =>
    let b := b.record (.seeded env.jitterUpdated b.seedHeld)
    [(true, b), (false, b)]
  | .randomFetch               => [(env.output.toList, b)]

namespace State

def exec (s : State) (o : Op) : List (sig.Ret o × State) :=
  if s.board.halted then
    []
  else
    (s.board.outcomes s.env o).map fun (r, board) => (r, { board, env := s.env.after o })

def event (s : State) : Event → Option State
  | .fault f     => some { s with env.fault := some f }
  | .rtcEvent    => if s.board.rtcIrqEnabled then some { s with env.jitterUpdated := true } else none
  | .output seed => some { s with env.output := seed }

def powerUp (s : State) : State where
  board := s.board.powerUp
  env   := { s.env with fault := none, jitterUpdated := false }

end State

-- A device whose flash has never been used.
def State.virgin : State where
  board := {
    partition := .unformatted, seedHeld := false, history := [], mounted := false
    files := fun _ => .closed, isInitialized := false, mutex := .deleted, bootCycleCounter := 0
    halted := false, rndIsInitialized := false, rtcIrqEnabled := false }
  env   := { fault := none, jitterUpdated := false, output := .replicate _ 0 }

-- The first call of `file::init` on such a device, in which nothing fails.
def firstInit : List (Option (Pool.Label Unit Call Event)) :=
  some (.call () .init) :: .replicate 17 (some (.op () 0))

-- A task that makes the calls that are allowed, one after the other.
def system (allowed : Call → Bool) : System sig Unit Call Event State where
  calls _ c  := if allowed c then some (serve c) else none
  exec _ o s := s.exec o
  event e s  := s.event e

theorem system_calls_eq_some_iff {allowed : Call → Bool} {t : Unit} {c : Call} {q : Prog sig Unit} :
    (system allowed).calls t c = some q ↔ allowed c = true ∧ serve c = q := by
  simp [system]

end Boot
