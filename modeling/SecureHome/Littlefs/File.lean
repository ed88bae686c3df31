import SecureHome.Littlefs.SkipList

open File (LfsError maxFileSizeBytes)

-- The functions of LittleFS for an open file, down to the accesses to its blocks.
namespace Littlefs

-- An error of the program leaves the file marked.
def orErred {α : Type} (p : Lfs α) : Lfs α :=
  tryCatch p fun e => do
    update .file ({ · with erred := true })
    throw e

variable (cfg : Config)

-- No more blocks than there are can be tried without a checkpoint.
def Config.attempts : ℕ :=
  cfg.blockCount + 1

-- What `lfs_file_relocate` does with a new block, unless that is a bad one.
def relocateInto (nblock : ℕ) : Lfs Bool := do
  let file ← load .file
  if !(← orRelocate (bdErase nblock)) then
    return false
  copyBytes .pcache (if file.isInline then (readInline · 1) else (bdRead file.block · 1)) nblock file.off 0

def fileRelocate : ℕ → Lfs Unit
  | 0     => do
    lfsAssert false
    throw .noSpc
  | n + 1 => do
    let nblock ← lfsAlloc
    if ← relocateInto nblock then
      cacheHandOver
      update .file ({ · with block := nblock, writing := true })
    else
      -- Just clear the cache and try a new block.
      cacheDrop .pcache
      fileRelocate n

def fileOutline : Lfs Unit := do
  update .file fun file => { file with off := file.pos }
  lfsAllocCkpoint
  fileRelocate cfg.attempts
  update .file ({ · with isInline := false })

-- A new block is looked up for the reader.
def readBlock (w : Which) : Lfs Unit := do
  let file ← load w
  if !file.isInline then
    cacheFetch w
    let (block, off) ← ctzFind cfg file.head file.size file.pos
    update w ({ · with block, off, reading := true })
  else
    update w fun file => { file with block := blockInline, off := file.pos, reading := true }

def locateBlock (w : Which) : Lfs Unit := do
  let file ← load w
  if !file.reading || file.off = cfg.blockSize then
    readBlock cfg w

-- A pass through the loop of `lfs_file_flushedread`.
def readChunk (w : Which) (nsize : ℕ) : Lfs (List UInt8) := do
  locateBlock cfg w
  let file ← load w
  let diff := min nsize (cfg.blockSize - file.off)
  let data ← (if file.isInline then
      readInline file.off diff
    else do
      cacheFetch w
      bdRead file.block file.off diff)
  update w fun file => { file with pos := file.pos + diff, off := file.off + diff }
  return data

-- Reads a number of bytes.
def readBytes (w : Which) : ℕ → ℕ → Lfs (List UInt8)
  | _, 0         => return []
  | 0, _         => do
    lfsAssert false
    return []
  | n + 1, nsize => do
    let data ← readChunk cfg w nsize
    return data ++ (← readBytes w n (nsize - data.length))

def fileFlushedRead (w : Which) (size : ℕ) : Lfs (List UInt8) := do
  let file ← load w
  if file.pos ≥ file.size then
    return []
  let size := min size (file.size - file.pos)
  readBytes cfg w size size

-- Looks up the block in front of the position.
def findBlock : Lfs Unit := do
  let file ← load .file
  if !file.writing && file.pos > 0 then
    cacheFetch .file
    let (block, _) ← ctzFind cfg file.head file.size (file.pos - 1)
    update .file ({ · with block })
    -- Data may have been read into the cache.
    cacheDrop .file

-- The block in front of the position is followed by the one that is going to be written to.
def extendFile : Lfs Unit := do
  findBlock cfg
  lfsAllocCkpoint
  let file ← load .file
  let (block, off) ← ctzExtend cfg file.block file.pos cfg.attempts
  update .file ({ · with block, off })

-- A new block is prepared for the writer.
def writeBlock : Lfs Unit := do
  if !(← load .file).isInline then
    orErred (extendFile cfg)
  else
    update .file fun file => { file with block := blockInline, off := file.pos }
  update .file ({ · with writing := true })

-- Programs as much as fits in the current block, which is relocated if it is a bad one.
def progBytes (data : List UInt8) : ℕ → Lfs Unit
  | 0     => do
    lfsAssert false
    throw .noSpc
  | n + 1 => do
    let file ← load .file
    if ← orRelocate (bdProg .file file.block file.off data) then
      return
    else
      fileRelocate cfg.attempts
      progBytes data n

-- A new block is needed at the beginning, and when the current one is full.
def prepareBlock : Lfs Unit := do
  let file ← load .file
  if !file.writing || file.off = cfg.blockSize then
    writeBlock cfg

-- A pass through the loop of `lfs_file_flushedwrite`.
def writeChunk (data : List UInt8) : Lfs ℕ := do
  prepareBlock cfg
  let file ← load .file
  let diff := min data.length (cfg.blockSize - file.off)
  orErred (progBytes cfg (data.take diff) cfg.attempts)
  update .file fun file => { file with pos := file.pos + diff, off := file.off + diff }
  lfsAllocCkpoint
  return diff

def writeBytes : ℕ → List UInt8 → Lfs Unit
  | _, []       => return
  | 0, _        => lfsAssert false
  | n + 1, data => do
    let diff ← writeChunk cfg data
    writeBytes n (data.drop diff)

def fileFlushedWrite (data : List UInt8) : Lfs Unit := do
  let file ← load .file
  if file.isInline && max (file.pos + data.length) file.size > cfg.inlineMax then
    orErred (fileOutline cfg)
  writeBytes cfg data.length data

def copyByte : Lfs Unit := do
  let data ← fileFlushedRead cfg .orig 1
  fileFlushedWrite cfg data

-- Copies what is behind the branch a byte at a time.
def copyTail : ℕ → Lfs Unit
  | 0     => return
  | n + 1 => do
    copyByte cfg
    copyTail n

def flushBlock : ℕ → Lfs Unit
  | 0     => do
    lfsAssert false
    throw .noSpc
  | n + 1 => do
    if ← orRelocate bdFlush then
      return
    else
      fileRelocate cfg.attempts
      flushBlock n

-- The part of `lfs_file_flush` that writes out what an open branch has.
def flushBranch : Lfs Unit := do
  let file ← load .file
  if !file.isInline then
    update .orig fun _ => {
      head := file.head, size := file.size, pos := file.pos, block := 0, off := 0
      isInline := false, reading := false, writing := false, dirty := false, erred := false }
    copyTail cfg (file.size - file.pos)
    flushBlock cfg cfg.attempts
  else
    update .file fun file => { file with pos := max file.pos file.size }
  update .file fun file' =>
    { file' with head := file'.block, size := file'.pos, writing := false, dirty := true, pos := file.pos }

-- What was read into the cache is of no use any more.
def stopReading : Lfs Unit := do
  let file ← load .file
  if file.reading then
    if !file.isInline then
      cacheDrop .file
    update .file ({ · with reading := false })

def fileFlush : Lfs Unit := do
  stopReading
  if (← load .file).writing then
    flushBranch cfg

def fileSync : Lfs Unit := do
  -- It is not safe to do anything if the file errored.
  if (← load .file).erred then
    return
  orErred (fileFlush cfg)
  let file ← load .file
  if file.dirty then
    if !file.isInline then
      bdSync
    orErred dirCommit
    update .file ({ · with dirty := false })

def fileRead (size : ℕ) : Lfs (List UInt8) := do
  if (← load .file).writing then
    fileFlush cfg
  fileFlushedRead cfg .file size

def writeZeroes : ℕ → Lfs Unit
  | 0     => return
  | n + 1 => do
    fileFlushedWrite cfg [0]
    writeZeroes n

-- The part of `lfs_file_write_` that fills the gap in front of the position.
def fillGap : Lfs Unit := do
  let file ← load .file
  if !file.writing && file.pos > file.size then
    update .file fun file => { file with pos := file.size }
    writeZeroes cfg (file.pos - file.size)

def fileWrite (data : List UInt8) : Lfs ℕ := do
  if (← load .file).reading then
    fileFlush cfg
  if ((← load .file).pos + data.length) % 2 ^ 32 > maxFileSizeBytes then
    throw .fBig
  else
    fillGap cfg
    fileFlushedWrite cfg data
    update .file ({ · with erred := false })
    return data.length

-- Whether the new position is in the block that is being read, and the offset there.
def seekInBlock (npos : ℕ) : Lfs Bool := do
  let file ← load .file
  if file.reading && file.off ≠ cfg.blockSize then
    let (oindex, _) := cfg.index file.pos
    let (nindex, noff) := cfg.index npos
    if oindex = nindex && (← ExceptT.lift (perform (.isCached noff))) then
      update .file ({ · with pos := npos, off := noff })
      return true
    else
      return false
  else
    return false

def fileSeek (off : Int32) : Lfs ℕ := do
  let npos := off.toUInt32.toNat
  if npos > maxFileSizeBytes then
    throw .inval
  if (← load .file).pos = npos then
    return npos
  if ← seekInBlock cfg npos then
    return npos
  fileFlush cfg
  update .file ({ · with pos := npos })
  return npos

end Littlefs
