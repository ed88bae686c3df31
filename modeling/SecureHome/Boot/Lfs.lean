import SecureHome.File.Basic
import SecureHome.Lib.Overlay

open File (LfsError Mutex Name maxFileSizeBytes)

namespace Boot

-- A file that is not larger than this is kept in its directory entry.
def inlineMax := 128

-- The partition of LittleFS on the flash.
structure Partition where
  formatted : Bool
  -- What the directory entries refer to. A file that does not exist yet has no bytes.
  bytes     : Name → List UInt8

def Partition.unformatted : Partition where
  formatted := false
  bytes _   := []

def Partition.empty : Partition where
  formatted := true
  bytes _   := []

-- A file as LittleFS keeps it in RAM.
structure Handle where
  isOpen  : Bool
  pos     : ℕ
  content : List UInt8
  erred   : Bool

namespace Handle

def closed : Handle where
  isOpen  := false
  pos     := 0
  content := []
  erred   := false

def opened (bytes : List UInt8) : Handle where
  isOpen  := true
  pos     := 0
  content := bytes
  erred   := false

def write (file : Handle) (data : List UInt8) : Handle :=
  { file with
    pos     := file.pos + data.length
    content := file.content.overlay 0 file.pos data
    erred   := false }

-- A write of this size leaves the file in its directory entry.
def IsInline (file : Handle) (size : ℕ) : Prop :=
  max (file.pos + size) file.content.length ≤ inlineMax

instance (file : Handle) (size : ℕ) : Decidable (file.IsInline size) :=
  inferInstanceAs (Decidable (_ ≤ _))

end Handle

-- How the next call of LittleFS is going to fail.
structure Fault where
  error   : LfsError
  -- Where a call leaves the position of its file.
  pos     : ℕ
  -- What a write leaves of a file that is not kept in its directory entry.
  content : List UInt8

-- What the events of interest were.
inductive Entry
  -- A format was attempted.
  | format
  -- A call of LittleFS has failed.
  | fault
  -- `file::init` has succeeded with the count in RAM and the bytes of the counter file on the flash.
  | initialized (count : UInt32) (committed : List UInt8)
  -- `file::get_boot_cycle_count` has returned the count.
  | counted (count : UInt32)
  -- The write callback was called with a seed, and it has returned the size of the seed.
  | write (seed : List UInt8)
  | saved (seed : List UInt8)
  -- The read callback was called while `file` was initialised or not, it has returned the size of the
  -- seed, or it has failed.
  | read (isInitialized : Bool)
  | loaded (seed : List UInt8)
  | notLoaded
  -- The generator was seeded by `ascon_trng_generate`, where the first flag says whether the RTC
  -- has updated the jitter in this boot and the second one whether a seed was ever on the flash.
  | seeded (jitter held : Bool)
  deriving DecidableEq

structure Board where
  partition        : Partition
  -- A seed was on the flash at some time.
  seedHeld         : Bool
  -- What has happened so far, latest first.
  history          : List Entry
  mounted          : Bool
  files            : Name → Handle
  isInitialized    : Bool
  mutex            : Mutex Unit
  bootCycleCounter : UInt32
  -- An assertion of LittleFS does not hold.
  halted           : Bool
  rndIsInitialized : Bool
  rtcIrqEnabled    : Bool

namespace Board

-- The board after power-up.
def powerUp (b : Board) : Board where
  partition        := b.partition
  seedHeld         := b.seedHeld
  history          := b.history
  mounted          := false
  files _          := .closed
  isInitialized    := false
  mutex            := .deleted
  bootCycleCounter := 0
  halted           := false
  rndIsInitialized := false
  rtcIrqEnabled    := false

def record (b : Board) (e : Entry) : Board :=
  { b with history := e :: b.history }

def setFile (b : Board) (name : Name) (file : Handle) : Board :=
  { b with files := Function.update b.files name file }

-- The file is committed to the flash.
def commit (b : Board) (name : Name) : Board :=
  { b with
    partition.bytes := Function.update b.partition.bytes name (b.files name).content
    seedHeld        := b.seedHeld || (name = .asconSeed && (b.files name).content ≠ []) }

-- `lfs_init`, which forgets the files that are open.
def lfsInit (b : Board) : Board :=
  { b with mounted := false, files := fun _ => .closed }

def halt (b : Board) : Board :=
  { b with halted := true }

-- A failure is recorded.
def noted (b : Board) (fault : Option Fault) : Board :=
  if fault.isSome then b.record .fault else b

end Board

-- The calls of LittleFS.
inductive LfsCall
  | mount
  | format
  | unmount
  | fileOpen (name : Name)
  | fileClose (name : Name)
  | fileSync (name : Name)
  | fileSeek (name : Name) (npos : ℕ)
  | fileRead (name : Name) (size : ℕ)
  | fileWrite (name : Name) (data : List UInt8)

-- The value that a call returns, with the bytes that it has copied to the buffer of its caller.
abbrev LfsResult :=
  Except LfsError ℕ × List UInt8

namespace LfsCall

-- What a call asserts of its file.
def Asserts (b : Board) : LfsCall → Prop
  | mount | format | unmount => True
  | fileOpen name            => (b.files name).isOpen = false
  | fileClose name | fileSync name | fileSeek name _ | fileRead name _ | fileWrite name _ =>
    (b.files name).isOpen = true

instance (b : Board) : (c : LfsCall) → Decidable (c.Asserts b)
  | mount | format | unmount => inferInstanceAs (Decidable True)
  | fileOpen name            => inferInstanceAs (Decidable ((b.files name).isOpen = false))
  | fileClose name | fileSync name | fileSeek name _ | fileRead name _ | fileWrite name _ =>
    inferInstanceAs (Decidable ((b.files name).isOpen = true))

-- The results of a call whose assertion holds. A file is committed as a whole or not at all.
def results (fault : Option Fault) (b : Board) : LfsCall → List (LfsResult × Board)
  | mount =>
    match fault with
    | some f => [((.error f.error, []), b.lfsInit)]
    | none   =>
      if b.partition.formatted then
        [((.ok 0, []), { b.lfsInit with mounted := true })]
      else
        [((.error .corrupt, []), b.lfsInit)]
  | format =>
    let b := b.lfsInit.record .format
    match fault with
    | none   => [((.ok 0, []), { b with partition := .empty })]
    | some f =>
      [((.error f.error, []), b), ((.error f.error, []), { b with partition := .unformatted }),
        ((.error f.error, []), { b with partition := .empty })]
  -- `lfs_unmount` always returns zero.
  | unmount => [((.ok 0, []), { b with mounted := false })]
  | fileOpen name =>
    match fault with
    | some f => [((.error f.error, []), b)]
    | none   => [((.ok 0, []), b.setFile name (.opened (b.partition.bytes name)))]
  -- The file is closed whether its sync fails or not.
  | fileClose name =>
    if (b.files name).erred then
      [((.ok 0, []), b.setFile name .closed)]
    else
      match fault with
      | some f =>
        [((.error f.error, []), b.setFile name .closed),
          ((.error f.error, []), (b.commit name).setFile name .closed)]
      | none   => [((.ok 0, []), (b.commit name).setFile name .closed)]
  | fileSync name =>
    let file := b.files name
    -- It is not safe to do anything if the file errored.
    if file.erred then
      [((.ok 0, []), b)]
    else
      match fault with
      | some f =>
        [((.error f.error, []), b.setFile name { file with pos := f.pos }),
          ((.error f.error, []), b.setFile name { file with pos := f.pos, erred := true }),
          ((.error f.error, []), (b.commit name).setFile name { file with pos := f.pos, erred := true })]
      | none   => [((.ok 0, []), b.commit name)]
  | fileSeek name npos =>
    let file := b.files name
    if npos > maxFileSizeBytes then
      [((.error .inval, []), b)]
    else
      match fault with
      | some f =>
        [((.error f.error, []), b.setFile name { file with pos := f.pos }),
          ((.error f.error, []), b.setFile name { file with pos := f.pos, erred := true })]
      | none   => [((.ok npos, []), b.setFile name { file with pos := npos })]
  | fileRead name size =>
    let file  := b.files name
    let bytes := (file.content.drop file.pos).take size
    match fault with
    | some f =>
      [file.erred, true].flatMap fun erred =>
        (List.range (bytes.length + 1)).map fun n =>
          ((.error f.error, bytes.take n), b.setFile name { file with pos := f.pos, erred })
    | none   =>
      [((.ok bytes.length, bytes), b.setFile name { file with pos := file.pos + bytes.length })]
  | fileWrite name data =>
    let file := b.files name
    if (file.pos + data.length) % 2 ^ 32 > maxFileSizeBytes then
      [((.error .fBig, []), b)]
    else
      match fault with
      | some f =>
        let content := if file.IsInline data.length then file.content else f.content
        [((.error f.error, []), b.setFile name { file with pos := f.pos }),
          ((.error f.error, []), b.setFile name { file with pos := f.pos, content, erred := true })]
      | none   => [((.ok data.length, []), b.setFile name (file.write data))]

-- All that a call of LittleFS does, by its outcome.
inductive Performs (fault : Option Fault) (b : Board) : LfsCall → LfsResult → Board → Prop
  | mount (hf : b.partition.formatted = true) (hn : fault = none) :
    Performs fault b .mount (.ok 0, []) { b.lfsInit with mounted := true }
  | mountError {e} : Performs fault b .mount (.error e, []) b.lfsInit
  | format (hn : fault = none) :
    Performs fault b .format (.ok 0, []) { b.lfsInit.record .format with partition := .empty }
  | formatError {e partition}
    (hp : partition = b.partition ∨ partition = .unformatted ∨ partition = .empty) :
    Performs fault b .format (.error e, []) { b.lfsInit.record .format with partition }
  | unmount : Performs fault b .unmount (.ok 0, []) { b with mounted := false }
  | fileOpen {name} (hn : fault = none) :
    Performs fault b (.fileOpen name) (.ok 0, []) (b.setFile name (.opened (b.partition.bytes name)))
  | fileOpenError {name e} : Performs fault b (.fileOpen name) (.error e, []) b
  | fileClose {name} (he : (b.files name).erred = false) (hn : fault = none) :
    Performs fault b (.fileClose name) (.ok 0, []) ((b.commit name).setFile name .closed)
  | fileCloseErred {name} (he : (b.files name).erred = true) :
    Performs fault b (.fileClose name) (.ok 0, []) (b.setFile name .closed)
  | fileCloseError {name e} (hn : fault ≠ none) :
    Performs fault b (.fileClose name) (.error e, []) (b.setFile name .closed)
  | fileCloseCommitted {name e} (he : (b.files name).erred = false) (hn : fault ≠ none) :
    Performs fault b (.fileClose name) (.error e, []) ((b.commit name).setFile name .closed)
  | fileSync {name} (he : (b.files name).erred = false) (hn : fault = none) :
    Performs fault b (.fileSync name) (.ok 0, []) (b.commit name)
  | fileSyncErred {name} (he : (b.files name).erred = true) :
    Performs fault b (.fileSync name) (.ok 0, []) b
  | fileSyncError {name e} (pos : ℕ) (erred : Bool) (hn : fault ≠ none) :
    Performs fault b (.fileSync name) (.error e, []) (b.setFile name { b.files name with pos, erred })
  | fileSyncCommitted {name e} (pos : ℕ) (he : (b.files name).erred = false) (hn : fault ≠ none) :
    Performs fault b (.fileSync name) (.error e, [])
      ((b.commit name).setFile name { b.files name with pos, erred := true })
  | fileSeek {name npos} (hm : npos ≤ maxFileSizeBytes) (hn : fault = none) :
    Performs fault b (.fileSeek name npos) (.ok npos, [])
      (b.setFile name { b.files name with pos := npos })
  | fileSeekError {name npos e} (pos : ℕ) (erred : Bool)
    (hn : npos > maxFileSizeBytes ∨ fault ≠ none) :
    Performs fault b (.fileSeek name npos) (.error e, [])
      (b.setFile name { b.files name with pos, erred })
  | fileRead {name size bytes} (hb : bytes = ((b.files name).content.drop (b.files name).pos).take size)
    (hn : fault = none) :
    Performs fault b (.fileRead name size) (.ok bytes.length, bytes)
      (b.setFile name { b.files name with pos := (b.files name).pos + bytes.length })
  | fileReadError {name size bytes e} (pos : ℕ) (erred : Bool)
    (hb : bytes <+: (b.files name).content.drop (b.files name).pos) (hn : fault ≠ none) :
    Performs fault b (.fileRead name size) (.error e, bytes)
      (b.setFile name { b.files name with pos, erred })
  | fileWrite {name data} (hn : fault = none) :
    Performs fault b (.fileWrite name data) (.ok data.length, [])
      (b.setFile name ((b.files name).write data))
  | fileWriteError {name data e} (pos : ℕ) (content : List UInt8) (erred : Bool)
    (hc : (b.files name).IsInline data.length → content = (b.files name).content)
    (he : erred = false → (b.files name).erred = false ∧ content = (b.files name).content) :
    Performs fault b (.fileWrite name data) (.error e, [])
      (b.setFile name { b.files name with pos, content, erred })

theorem setFile_self {b : Board} {name : Name} : b.setFile name (b.files name) = b := by
  simp [Board.setFile]

section

variable {fault : Option Fault} {b b' : Board} {r : LfsResult} {name : Name}

theorem performs_mount (h : (r, b') ∈ results fault b .mount) : Performs fault b .mount r b' := by
  simp only [results] at h
  cases fault
  case some => cases List.mem_singleton.mp h; exact .mountError
  case none =>
    dsimp only at h
    split at h <;> cases List.mem_singleton.mp h
    case isTrue hf => exact .mount hf rfl
    case isFalse   => exact .mountError

theorem performs_format (h : (r, b') ∈ results fault b .format) : Performs fault b .format r b' := by
  simp only [results] at h
  cases fault
  case none => cases List.mem_singleton.mp h; exact .format rfl
  case some =>
    simp only [List.mem_cons, List.not_mem_nil, or_false, Prod.mk.injEq] at h
    rcases h with ⟨rfl, rfl⟩ | ⟨rfl, rfl⟩ | ⟨rfl, rfl⟩
    · exact .formatError (.inl rfl)
    · exact .formatError (.inr (.inl rfl))
    · exact .formatError (.inr (.inr rfl))

theorem performs_fileClose (h : (r, b') ∈ results fault b (.fileClose name)) :
    Performs fault b (.fileClose name) r b' := by
  simp only [results] at h
  split at h
  case isTrue he  => cases List.mem_singleton.mp h; exact .fileCloseErred he
  case isFalse he =>
    have he := Bool.eq_false_iff.mpr he
    cases fault
    case none => cases List.mem_singleton.mp h; exact .fileClose he rfl
    case some =>
      simp only [List.mem_cons, List.not_mem_nil, or_false, Prod.mk.injEq] at h
      rcases h with ⟨rfl, rfl⟩ | ⟨rfl, rfl⟩
      · exact .fileCloseError nofun
      · exact .fileCloseCommitted he nofun

theorem performs_fileSync (h : (r, b') ∈ results fault b (.fileSync name)) :
    Performs fault b (.fileSync name) r b' := by
  simp only [results] at h
  split at h
  case isTrue he  => cases List.mem_singleton.mp h; exact .fileSyncErred he
  case isFalse he =>
    have he := Bool.eq_false_iff.mpr he
    cases fault
    case none => cases List.mem_singleton.mp h; exact .fileSync he rfl
    case some f =>
      simp only [List.mem_cons, List.not_mem_nil, or_false, Prod.mk.injEq] at h
      rcases h with ⟨rfl, rfl⟩ | ⟨rfl, rfl⟩ | ⟨rfl, rfl⟩
      · exact .fileSyncError f.pos (b.files name).erred nofun
      · exact .fileSyncError f.pos true nofun
      · exact .fileSyncCommitted f.pos he nofun

theorem performs_fileSeek {npos : ℕ} (h : (r, b') ∈ results fault b (.fileSeek name npos)) :
    Performs fault b (.fileSeek name npos) r b' := by
  simp only [results] at h
  split at h
  case isTrue hm =>
    cases List.mem_singleton.mp h
    have hp : Performs fault b (.fileSeek name npos) (.error .inval, [])
        (b.setFile name (b.files name)) :=
      .fileSeekError (b.files name).pos (b.files name).erred (.inl hm)
    rwa [setFile_self] at hp
  case isFalse hm =>
    cases fault
    case none => cases List.mem_singleton.mp h; exact .fileSeek (Nat.le_of_not_lt hm) rfl
    case some f =>
      simp only [List.mem_cons, List.not_mem_nil, or_false, Prod.mk.injEq] at h
      rcases h with ⟨rfl, rfl⟩ | ⟨rfl, rfl⟩
      · exact .fileSeekError f.pos (b.files name).erred (.inr nofun)
      · exact .fileSeekError f.pos true (.inr nofun)

theorem performs_fileRead {size : ℕ} (h : (r, b') ∈ results fault b (.fileRead name size)) :
    Performs fault b (.fileRead name size) r b' := by
  simp only [results] at h
  cases fault
  case none => cases List.mem_singleton.mp h; exact .fileRead rfl rfl
  case some f =>
    have ⟨erred, _, h⟩ := List.mem_flatMap.mp h
    have ⟨n, _, he⟩ := List.mem_map.mp h
    cases he
    exact .fileReadError f.pos erred ((List.take_prefix ..).trans (List.take_prefix ..)) nofun

theorem performs_fileWrite {data : List UInt8} (h : (r, b') ∈ results fault b (.fileWrite name data)) :
    Performs fault b (.fileWrite name data) r b' := by
  simp only [results] at h
  split at h
  case isTrue =>
    cases List.mem_singleton.mp h
    have hp : Performs fault b (.fileWrite name data) (.error .fBig, [])
        (b.setFile name (b.files name)) :=
      .fileWriteError (b.files name).pos _ (b.files name).erred (fun _ => rfl) fun he => ⟨he, rfl⟩
    rwa [setFile_self] at hp
  case isFalse =>
    cases fault
    case none => cases List.mem_singleton.mp h; exact .fileWrite rfl
    case some f =>
      simp only [List.mem_cons, List.not_mem_nil, or_false, Prod.mk.injEq] at h
      rcases h with ⟨rfl, rfl⟩ | ⟨rfl, rfl⟩
      · exact .fileWriteError _ _ _ (fun _ => rfl) fun he => ⟨he, rfl⟩
      · exact .fileWriteError _ _ _ (fun hi => if_pos hi) nofun

-- A call does nothing else.
theorem performs_of_results {c : LfsCall} (h : (r, b') ∈ c.results fault b) :
    c.Performs fault b r b' := by
  cases c
  case mount     => exact performs_mount h
  case format    => exact performs_format h
  case unmount   => cases List.mem_singleton.mp h; exact .unmount
  case fileOpen  =>
    cases fault <;> cases List.mem_singleton.mp h
    case none => exact .fileOpen rfl
    case some => exact .fileOpenError
  case fileClose => exact performs_fileClose h
  case fileSync  => exact performs_fileSync h
  case fileSeek  => exact performs_fileSeek h
  case fileRead  => exact performs_fileRead h
  case fileWrite => exact performs_fileWrite h

end

theorem Performs.halted {fault : Option Fault} {b b' : Board} {c : LfsCall} {r : LfsResult}
    (h : c.Performs fault b r b') : b'.halted = b.halted := by
  cases h <;> rfl

-- All that a call can do. The board stops at an assertion that does not hold.
def outcomes (fault : Option Fault) (b : Board) (c : LfsCall) : List (LfsResult × Board) :=
  if c.Asserts b then
    (c.results fault b).map fun (r, b') => (r, b'.noted fault)
  else
    [((.ok 0, []), b.halt)]

end LfsCall

end Boot
