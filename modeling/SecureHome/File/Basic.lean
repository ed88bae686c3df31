import Mathlib.Algebra.Group.Nat.Defs
import SecureHome.Lib.Fallible
import SecureHome.Lib.Linearizability
import SecureHome.Utils.Error

open Linearizability

namespace File

def maxFileSizeBytes := 4096

inductive Name
  | counter | password | pNumbers | asconSeed | count
  deriving DecidableEq

-- The files that are open during normal operation.
def Name.IsOpened : Name → Prop
  | .password | .pNumbers | .asconSeed => True
  | .counter | .count                  => False

instance : DecidablePred Name.IsOpened
  | .password | .pNumbers | .asconSeed => inferInstanceAs (Decidable True)
  | .counter | .count                  => inferInstanceAs (Decidable False)

inductive LfsError
  | io | corrupt | noEnt | exist | notDir | isDir | notEmpty | badF | fBig | inval | noSpc | noMem
  | noAttr | nameTooLong
  deriving DecidableEq

def LfsError.all : List LfsError :=
  [.io, .corrupt, .noEnt, .exist, .notDir, .isDir, .notEmpty, .badF, .fBig, .inval, .noSpc, .noMem,
    .noAttr, .nameTooLong]

theorem LfsError.mem_all (e : LfsError) : e ∈ all := by
  cases e <;> decide

-- The reasons for LittleFS to access the flash.
inductive Access
  -- The block of a position is looked up.
  | find
  | read
  -- The block that is written to is looked up and extended.
  | extend
  | prog
  | flush
  | sync
  -- The directory entry is updated.
  | commit
  deriving DecidableEq

-- The state that LittleFS keeps of a file.
structure LfsFile where
  pos     : ℕ
  -- The bytes of the file as of its last flush.
  ctz     : List UInt8
  -- The bytes in front of the position that were written since.
  branch  : List UInt8
  reading : Bool
  writing : Bool
  dirty   : Bool
  erred   : Bool
  isOpen  : Bool
  -- The bytes that the directory entry on the flash refers to.
  disk    : List UInt8
  deriving DecidableEq

namespace LfsFile

def opened (disk : List UInt8) : LfsFile where
  pos     := 0
  ctz     := disk
  branch  := []
  reading := false
  writing := false
  dirty   := false
  erred   := false
  isOpen  := true
  disk    := disk

-- The bytes of the file as seen by a reader, some of which may only be in RAM.
def content (file : LfsFile) : List UInt8 :=
  if file.writing then file.branch ++ file.ctz.drop file.pos else file.ctz

end LfsFile

inductive Call
  | write (name : Name) (data : List UInt8) (offset : UInt32)
  | read (name : Name) (size : ℕ) (offset : UInt32)
  | sync (name : Name)
  | deinit
  deriving DecidableEq

-- The status of a call, where the bytes that were read come with the status `NONE`.
abbrev Result :=
  Except ErrorT (List UInt8)

inductive Mutex (τ : Type)
  | deleted
  | free
  | heldBy (t : τ)
  deriving DecidableEq

structure State (τ : Type) where
  isInitialized : Bool
  mutex         : Mutex τ
  files         : Name → LfsFile
  -- An error that the next access to the flash is going to have.
  fault         : Option LfsError
  -- The calls and returns of the functions below, and the contents at the last call.
  history       : List (Event τ Call Result)
  atCall        : Name → List UInt8

-- The statements of the functions below.
inductive Op
  | invoke (c : Call)
  | respond (c : Call) (r : Result)
  | isInitialized
  | resetInitialized
  | takeMutex
  | giveMutex
  | deleteMutex
  | assertOpen (name : Name)
  | loadErred (name : Name)
  | load (name : Name)
  | update (name : Name) (f : LfsFile → LfsFile)
  -- Whether a read position stays in the block that is cached.
  | isCached (name : Name)
  | access (name : Name) (a : Access)

@[reducible]
def sig : Sig where
  Op  := Op
  Ret
    | .isInitialized | .loadErred _ | .isCached _ => Bool
    | .load _                                     => LfsFile
    | .access ..                                  => Option LfsError
    | _                                           => Unit

abbrev perform (o : Op) : Prog sig (sig.Ret o) :=
  Prog.perform (S := sig) o

abbrev Lfs (α : Type) :=
  Fallible sig LfsError α

namespace Lfs

def load (name : Name) : Lfs LfsFile :=
  ExceptT.lift (perform (.load name))

def update (name : Name) (f : LfsFile → LfsFile) : Lfs Unit :=
  ExceptT.lift (perform (.update name f))

def access (name : Name) (a : Access) : Lfs Unit := do
  if let some e ← ExceptT.lift (perform (.access name a)) then
    throw e

def onError {α : Type} (name : Name) (f : LfsFile → LfsFile) (p : Lfs α) : Lfs α :=
  tryCatch p fun e => do
    update name f
    throw e

-- An error of the program leaves the file marked.
def orErred {α : Type} (name : Name) (p : Lfs α) : Lfs α :=
  onError name ({ · with erred := true }) p

-- The public functions of LittleFS assert that the file is open.
def asserted {α : Type} (name : Name) (p : Lfs α) : Lfs α := do
  ExceptT.lift (perform (.assertOpen name))
  p

end Lfs

open Lfs

-- A pass through the loop of `lfs_file_flushedwrite`. Programming a number of bytes at once is the
-- same as programming one after the other.
def lfsFileFlushedWriteByte (name : Name) (byte : UInt8) : Lfs Unit := do
  if !(← load name).writing then
    orErred name (access name .extend)
    update name fun file => { file with branch := file.ctz.take file.pos, writing := true }
  orErred name (access name .prog)
  update name fun file => { file with branch := file.branch ++ [byte], pos := file.pos + 1 }

def lfsFileFlushedWrite (name : Name) : List UInt8 → Lfs Unit
  | []            => return
  | byte :: bytes => do
    lfsFileFlushedWriteByte name byte
    lfsFileFlushedWrite name bytes

-- The part of `lfs_file_flush` that copies what is behind the branch.
def lfsFileCopy (name : Name) : List UInt8 → Lfs Unit
  | []            => return
  | byte :: bytes => do
    access name .read
    lfsFileFlushedWriteByte name byte
    lfsFileCopy name bytes

def lfsFileFlush (name : Name) : Lfs Unit := do
  update name ({ · with reading := false })
  let file ← load name
  if file.writing then
    lfsFileCopy name (file.ctz.drop file.pos)
    access name .flush
    update name fun file' =>
      { file' with ctz := file'.branch, writing := false, dirty := true, pos := file.pos }

def lfsFileSync (name : Name) : Lfs Unit := do
  -- It is not safe to do anything if the file errored.
  if ← ExceptT.lift (perform (.loadErred name)) then
    return
  orErred name (lfsFileFlush name)
  if (← load name).dirty then
    access name .sync
    orErred name (access name .commit)
    update name ({ · with dirty := false })

-- The file is closed whether its sync fails or not.
def lfsFileClose (name : Name) : Lfs Unit := do
  onError name ({ · with isOpen := false }) (lfsFileSync name)
  update name ({ · with isOpen := false })

-- The loop of `lfs_file_flushedread`.
def lfsFileReadBytes (name : Name) : List UInt8 → Lfs Unit
  | []         => return
  | _ :: bytes => do
    if !(← load name).reading then
      access name .find
      update name ({ · with reading := true })
    access name .read
    update name fun file => { file with pos := file.pos + 1 }
    lfsFileReadBytes name bytes

def lfsFileFlushedRead (name : Name) (size : ℕ) : Lfs (List UInt8) := do
  let file ← load name
  if file.pos ≥ file.ctz.length then
    return []
  let bytes := (file.ctz.drop file.pos).take size
  lfsFileReadBytes name bytes
  return bytes

def lfsFileRead (name : Name) (size : ℕ) : Lfs (List UInt8) := do
  if (← load name).writing then
    lfsFileFlush name
  lfsFileFlushedRead name size

-- The part of `lfs_file_write_` that fills the gap in front of the position with zeroes.
def lfsFileFillGap (name : Name) : Lfs Unit := do
  let file ← load name
  if !file.writing && file.pos > file.ctz.length then
    update name fun file => { file with pos := file.ctz.length }
    lfsFileFlushedWrite name (.replicate (file.pos - file.ctz.length) 0)

def lfsFileWrite (name : Name) (data : List UInt8) : Lfs ℕ := do
  if (← load name).reading then
    lfsFileFlush name
  if ((← load name).pos + data.length) % 2 ^ 32 > maxFileSizeBytes then
    throw .fBig
  else
    lfsFileFillGap name
    lfsFileFlushedWrite name data
    update name ({ · with erred := false })
    return data.length

-- The part of `lfs_file_seek_` that changes the position.
def lfsFileMove (name : Name) (npos : ℕ) : Lfs Unit := do
  let isCached ← ExceptT.lift (perform (.isCached name))
  if !(isCached && (← load name).reading) then
    lfsFileFlush name
  update name ({ · with pos := npos })

def lfsFileSeek (name : Name) (off : Int32) : Lfs ℕ := do
  let npos := off.toUInt32.toNat
  if npos > maxFileSizeBytes then
    throw .inval
  else
    if (← load name).pos ≠ npos then
      lfsFileMove name npos
    return npos

def lfsUnmount : Lfs Unit :=
  return

-- `TRY_LFS`
def tryLfs {α : Type} (p : Lfs α) (err : ErrorT) : Fallible sig ErrorT α :=
  p.adapt fun e => if e = .corrupt then .fileFsCorrupted else err

-- The scope of a `scoped_mutex_t`.
def scopedMutex {α : Type} (p : Fallible sig ErrorT α) : Fallible sig ErrorT α := .mk do
  perform .takeMutex
  let r ← p.run
  perform .giveMutex
  return r

def checkInitialized : Fallible sig ErrorT Unit := do
  if !(← ExceptT.lift (perform .isInitialized)) then
    throw .errInvalidState

-- The counter file is not to be accessed during normal operation.
def checkName (name : Name) : Fallible sig ErrorT Unit := do
  if name = .counter ∨ name = .count then
    throw .errInvalidArg

-- What `write` and `read` do while they hold the mutex.
def writeLocked (name : Name) (data : List UInt8) (offset : UInt32) :
    Fallible sig ErrorT Unit := do
  let _ ← tryLfs (asserted name (lfsFileSeek name offset.toInt32)) .fileFailedToSeek
  let ret ← ExceptT.lift (asserted name (lfsFileWrite name data)).run
  if ret ≠ .ok data.length then
    throw .fileFailedToWrite

def readLocked (name : Name) (size : ℕ) (offset : UInt32) :
    Fallible sig ErrorT (List UInt8) := do
  let _ ← tryLfs (asserted name (lfsFileSeek name offset.toInt32)) .fileFailedToSeek
  match ← ExceptT.lift (asserted name (lfsFileRead name size)).run with
  | .ok bytes => if bytes.length = size then return bytes else throw .fileFailedToRead
  | .error _  => throw .fileFailedToRead

def write (name : Name) (data : List UInt8) (offset : UInt32) : Fallible sig ErrorT Unit := do
  checkInitialized
  if data.length = 0 then
    throw .errInvalidArg
  else
    checkName name
    scopedMutex (writeLocked name data offset)

def read (name : Name) (size : ℕ) (offset : UInt32) : Fallible sig ErrorT (List UInt8) := do
  checkInitialized
  if size = 0 then
    throw .errInvalidArg
  else
    checkName name
    scopedMutex (readLocked name size offset)

def sync (name : Name) : Fallible sig ErrorT Unit := do
  checkInitialized
  checkName name
  scopedMutex (tryLfs (asserted name (lfsFileSync name)) .fileFailedToSync)

def closeFile (name : Name) : Fallible sig ErrorT Unit :=
  tryLfs (asserted name (lfsFileClose name)) .fileFailedToClose

def deinit : Fallible sig ErrorT Unit := do
  checkInitialized
  scopedMutex do
    closeFile .password
    closeFile .pNumbers
    closeFile .asconSeed
    tryLfs lfsUnmount .fileFsFailedToUnmount
  ExceptT.lift (perform .deleteMutex)
  ExceptT.lift (perform .resetInitialized)

def runCall : Call → Fallible sig ErrorT (List UInt8)
  | .write name data offset => do write name data offset; return []
  | .read name size offset  => read name size offset
  | .sync name              => do sync name; return []
  | .deinit                 => do deinit; return []

def serve (c : Call) : Prog sig Unit := do
  perform (.invoke c)
  let r ← (runCall c).run
  perform (.respond c r)

-- The contents of the files on the flash, none of which is too large.
structure Flash where
  bytes : Name → List UInt8
  size  : ∀ name, (bytes name).length ≤ maxFileSizeBytes

namespace State

variable {τ : Type}

-- The state after a successful `init`.
def init (flash : Flash) : State τ where
  isInitialized := true
  mutex         := .free
  files name    := { LfsFile.opened (flash.bytes name) with isOpen := name.IsOpened }
  fault         := none
  history       := []
  atCall        := flash.bytes

def modify (s : State τ) (name : Name) (f : LfsFile → LfsFile) : State τ :=
  { s with files := Function.update s.files name (f (s.files name)) }

def invoke (s : State τ) (t : τ) (c : Call) : State τ :=
  { s with history := s.history ++ [.invoke t c], atCall := fun name => (s.files name).content }

def respond (s : State τ) (t : τ) (c : Call) (r : Result) : State τ :=
  { s with history := s.history ++ [.respond t c r] }

-- The effect of an access to the flash that has no error.
def access (s : State τ) (name : Name) : Access → State τ
  | .commit => s.modify name fun file => { file with disk := file.ctz }
  | _       => s

variable [DecidableEq τ]

def exec (t : τ) (s : State τ) : (o : Op) → List (sig.Ret o × State τ)
  | .invoke c         => [((), s.invoke t c)]
  | .respond c r      => [((), s.respond t c r)]
  | .isInitialized    => [(s.isInitialized, s)]
  | .resetInitialized => [((), { s with isInitialized := false })]
  -- The mutex is waited for without a timeout.
  | .takeMutex        => if s.mutex = .free then [((), { s with mutex := .heldBy t })] else []
  | .giveMutex        => [((), { s with mutex := .free })]
  | .deleteMutex      => [((), { s with mutex := .deleted })]
  | .assertOpen name  => if (s.files name).isOpen then [((), s)] else []
  | .loadErred name   => [((s.files name).erred, s)]
  | .load name        => [(s.files name, s)]
  | .update name f    => [((), s.modify name f)]
  | .isCached _       => [(false, s), (true, s)]
  | .access name a    =>
    let s' := { s with fault := none }
    match s.fault with
    | none   => [(none, s'.access name a)]
    -- An error may be found after the access has had its effect.
    | some e => [(some e, s'), (some e, s'.access name a)]

end State

-- Tasks that make calls of the given kind, and errors that the next access to the flash will have.
def system (τ : Type) [DecidableEq τ] (allowed : Call → Bool) :
    System sig τ Call LfsError (State τ) where
  calls _ c  := if allowed c then some (serve c) else none
  exec t o s := s.exec t o
  event e s  := some { s with fault := some e }

end File
