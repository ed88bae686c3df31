import SecureHome.File.Basic
import SecureHome.Lib.Sequential
import SecureHome.Littlefs.Alloc
import SecureHome.Littlefs.Ctz

open File (LfsError)

-- The block device as LittleFS sees it through its caches.
namespace Littlefs

def blockNull := 0xffffffff

def blockInline := 0xfffffffe

structure Config extends AllocConfig where
  progSize      : ℕ
  cacheSize     : ℕ
  blockSize     : ℕ
  inlineMax     : ℕ
  le_blockSize  : 128 ≤ blockSize
  blockSize_lt  : blockSize < 2 ^ 32
  blockCount_lt : blockCount ≤ blockInline
  inlineMax_le  : inlineMax ≤ blockSize / 8
  inlineMax_le' : inlineMax ≤ cacheSize
  progSize_dvd  : progSize ∣ cacheSize
  cacheSize_dvd : cacheSize ∣ blockSize

-- `lfs_ctz_index` with the index and the offset as numbers.
def Config.index (cfg : Config) (pos : ℕ) : ℕ × ℕ :=
  let (i, off) := ctzIndex (.ofNat cfg.blockSize) (.ofNat pos)
  (i.toNat, off.toNat)

-- What a directory entry refers to.
inductive Struct
  | inline (data : List UInt8)
  | ctz (head size : ℕ)

structure LfsFile where
  head     : ℕ
  size     : ℕ
  pos      : ℕ
  block    : ℕ
  off      : ℕ
  isInline : Bool
  reading  : Bool
  writing  : Bool
  dirty    : Bool
  erred    : Bool

-- A file that is flushed is read through another one that refers to its last contents.
inductive Which
  | file
  | orig
  deriving DecidableEq

-- The caches that blocks are programmed through.
inductive Cache
  | pcache
  | file
  deriving DecidableEq

structure Volume where
  -- What a byte of a block is read as.
  bytes     : ℕ → ℕ → UInt8
  -- What it will be read as after a loss of power.
  flash     : ℕ → ℕ → UInt8
  -- The blocks of the directories and of the other files.
  others    : List ℕ
  allocator : Allocator
  -- The blocks that were given out since the last update of the directory entry.
  fresh     : List ℕ
  entry     : Struct
  file      : LfsFile
  orig      : LfsFile
  -- The block that a cache is in use for, and the offset where it starts.
  caches    : Cache → Option (ℕ × ℕ)
  -- All assertions were met so far, and only fresh blocks were erased and programmed.
  asserted  : Bool

inductive Op
  | alloc
  | ckpoint
  | erase (block : ℕ)
  | read (block off size : ℕ)
  -- An inline file is read from the cache that has its contents.
  | readInline (off size : ℕ)
  | prog (cache : Cache) (block off : ℕ) (data : List UInt8)
  | flush
  | drop (cache : Cache)
  -- The file gets the cache that a block was relocated with.
  | handOver
  -- The cache of a file may be loaded with what is read.
  | fetch (w : Which)
  | sync
  | commit
  -- Whether an offset is in the range that the cache of the file has.
  | isCached (off : ℕ)
  | assert (p : Bool)
  | load (w : Which)
  | update (w : Which) (f : LfsFile → LfsFile)

@[reducible]
def sig : Sig where
  Op  := Op
  Ret
    | .alloc         => Except LfsError ℕ
    | .ckpoint       => Unit
    | .read ..       => Except LfsError (List UInt8)
    | .readInline .. => List UInt8
    | .isCached _    => Bool
    | .load _        => LfsFile
    | .drop _        => Unit
    | .handOver      => Unit
    | .fetch _       => Unit
    | .assert _      => Unit
    | .update ..     => Unit
    | _              => Except LfsError Unit

-- What becomes of the traversals of a call of `lfs_alloc`.
abbrev Traversals :=
  ℕ → Option (ℕ × ℤ)

structure Faults where
  -- The errors that an operation may have, and what it may leave in a block.
  errors     : Op → Volume → List LfsError
  junk       : List (ℕ → UInt8)
  -- What a cache may have after a read, or after a commit that has failed.
  cached     : List (ℕ × ℕ)
  traversals : List Traversals
  -- The blocks that a commit may allocate for the directory, and what it may leave to those that are not
  -- of the file.
  directory  : List (List Traversals × List ℕ)

def toLe32 (a : ℕ) : List UInt8 :=
  (List.range 4).map fun i => .ofNat (a / 256 ^ i)

def fromLe32 (bytes : List UInt8) : ℕ :=
  Nat.ofDigits 256 (bytes.map UInt8.toNat)

-- A pointer at the start of a block.
def pointer (bytes : ℕ → ℕ → UInt8) (block k : ℕ) : ℕ :=
  fromLe32 ((List.range 4).map fun i => bytes block (4 * k + i))

-- The blocks that the loop of `lfs_ctz_traverse` visits.
def ctzVisited (bytes : ℕ → ℕ → UInt8) (index head : ℕ) : List ℕ :=
  if index = 0 then
    [head]
  else if index % 2 = 0 then
    head :: pointer bytes head 0 :: ctzVisited bytes (index - 2) (pointer bytes head 1)
  else
    head :: ctzVisited bytes (index - 1) (pointer bytes head 0)
termination_by index

def Config.ctzTraversed (cfg : Config) (bytes : ℕ → ℕ → UInt8) (head size : ℕ) : List ℕ :=
  if size = 0 then [] else ctzVisited bytes (cfg.index (size - 1)).1 head

-- What `lfs_bd_prog` does with its cache for a byte of a block. The cache is flushed once it is full.
def Config.progByte (cfg : Config) (block off : ℕ) (cache : Option (ℕ × ℕ)) : Bool × Option (ℕ × ℕ) :=
  let fits := cache.filter fun (b, start) => b = block ∧ start ≤ off ∧ off < start + cfg.cacheSize
  let start := (fits.map (·.2)).getD (off / cfg.progSize * cfg.progSize)
  (cache.isNone || fits.isSome,
    if off + 1 = start + cfg.cacheSize ∧ block ≠ blockInline then none else some (block, start))

-- The same for a number of bytes, and whether the assertion on the cache was met.
def Config.progCache (cfg : Config) (block : ℕ) : ℕ → ℕ → Option (ℕ × ℕ) → Bool × Option (ℕ × ℕ)
  | 0, _, cache       => (true, cache)
  | n + 1, off, cache =>
    let r := cfg.progByte block off cache
    let r' := cfg.progCache block n (off + 1) r.2
    (r.1 && r'.1, r'.2)

-- What the cache is in use for whenever it is flushed.
def Config.flushes (cfg : Config) (block : ℕ) : ℕ → ℕ → Option (ℕ × ℕ) → List (ℕ × ℕ)
  | 0, _, _           => []
  | n + 1, off, cache =>
    let r := cfg.progByte block off cache
    (if r.2.isNone then [(block, off + 1 - cfg.cacheSize)] else []) ++ cfg.flushes block n (off + 1) r.2

namespace Volume

variable (cfg : Config) (v : Volume)

def view (block off size : ℕ) : List UInt8 :=
  (List.range size).map fun i => v.bytes block (off + i)

def setBlock (block : ℕ) (row flashRow : ℕ → UInt8) : Volume :=
  { v with
    bytes := Function.update v.bytes block row
    flash := Function.update v.flash block flashRow }

def get : Which → LfsFile
  | .file => v.file
  | .orig => v.orig

def modify (f : LfsFile → LfsFile) : Which → Volume
  | .file => { v with file := f v.file }
  | .orig => { v with orig := f v.orig }

def setCache (cache : Cache) (c : Option (ℕ × ℕ)) : Volume :=
  { v with caches := Function.update v.caches cache c }

def assert (p : Bool) : Volume :=
  { v with asserted := v.asserted && p }

-- The directory entry for the file.
def struct : Struct :=
  if v.file.isInline then .inline (v.view blockInline 0 v.file.size) else .ctz v.file.head v.file.size

def commit : Volume :=
  { v with entry := v.struct }

def entryTraversed : List ℕ :=
  match v.entry with
  | .inline _      => []
  | .ctz head size => cfg.ctzTraversed v.flash head size

def dirtyTraversed : List ℕ :=
  if v.file.dirty && !v.file.isInline then cfg.ctzTraversed v.bytes v.file.head v.file.size else []

def branchTraversed : List ℕ :=
  if v.file.writing && !v.file.isInline then cfg.ctzTraversed v.bytes v.file.block v.file.pos else []

-- The blocks that `lfs_fs_traverse_` visits.
def traversed : List ℕ :=
  v.others ++ v.entryTraversed cfg ++ v.dirtyTraversed cfg ++ v.branchTraversed cfg

-- A block of the flash that is in the tree was there before, or was given out for it.
def Tracked (b : ℕ) : Prop :=
  b < cfg.blockCount → b ∈ v.allocator.tree ∨ b ∈ v.allocator.pending

instance : DecidablePred (v.Tracked cfg) :=
  fun _ => inferInstanceAs (Decidable (_ → _))

-- The tree of the allocator is that of the file system.
def grown : Volume :=
  { v.assert (∀ b ∈ v.traversed cfg, v.Tracked cfg b) with
    allocator := { v.allocator with tree := (v.traversed cfg).filter (· < cfg.blockCount) } }

-- A call of `lfs_alloc`.
def alloc (errs : Traversals) : Except ℤ ℕ × Volume :=
  let v' := v.grown cfg
  match Littlefs.alloc cfg.toAllocConfig v.allocator.lookahead (v.traversed cfg) errs with
  | (.ok block, lookahead) =>
    (.ok block, { v' with
      allocator := { v'.allocator with lookahead, pending := block :: v.allocator.pending } })
  | (.error err, lookahead) =>
    (.error err, { v' with
      allocator := { v'.allocator with
        lookahead
        pending := if lookahead.ckpoint = 0 then v.allocator.pending else [] } })

def ckpoint : Volume :=
  let v' := v.grown cfg
  { v' with
    allocator := { v'.allocator with
      lookahead := allocCkpoint cfg.toAllocConfig v.allocator.lookahead
      pending   := [] } }

-- The blocks of the directory that a commit leaves are those that it had and those that were allocated for it.
def relocated (calls : List Traversals) (others : List ℕ) : List Volume :=
  let v' := calls.foldl (fun v errs => (v.alloc cfg errs).2) v
  if ∀ b ∈ others, b ∈ v.others ∨ b ∈ v'.allocator.pending then [{ v' with others }] else []

end Volume

@[simp]
theorem setBlock_bytes {v : Volume} {block : ℕ} {row flashRow : ℕ → UInt8} :
    (v.setBlock block row flashRow).bytes block = row :=
  Function.update_self ..

@[simp]
theorem setBlock_caches {v : Volume} {block : ℕ} {row flashRow : ℕ → UInt8} :
    (v.setBlock block row flashRow).caches = v.caches :=
  rfl

@[simp]
theorem setCache_caches {v : Volume} {cache : Cache} {c : Option (ℕ × ℕ)} : (v.setCache cache c).caches cache = c :=
  Function.update_self ..

@[simp]
theorem setCache_caches_of_ne {v : Volume} {cache cache' : Cache} {c : Option (ℕ × ℕ)} (h : cache' ≠ cache) :
    (v.setCache cache c).caches cache' = v.caches cache' :=
  Function.update_of_ne h ..

-- A row with data at an offset.
def overwrite (row : ℕ → UInt8) (off : ℕ) (data : List UInt8) (i : ℕ) : UInt8 :=
  if off ≤ i then data.getD (i - off) (row i) else row i

-- A row with something else in a range.
def spoil (row : ℕ → UInt8) (off size : ℕ) (junk : ℕ → UInt8) (i : ℕ) : UInt8 :=
  if off ≤ i ∧ i < off + size then junk i else row i

-- Programmed bytes may reach the flash any time, but only a flush makes sure that they do.
def exec (cfg : Config) (faults : Faults) (o : Op) (v : Volume) : List (sig.Ret o × Volume) :=
  let errors := faults.errors o v
  match o with
  | .alloc =>
    faults.traversals.flatMap fun errs =>
      match v.alloc cfg errs with
      | (.ok block, v') => [(.ok block, { v' with fresh := block :: v'.fresh })]
      | (.error _, v')  =>
        (if v'.allocator.lookahead.ckpoint = 0 then [.noSpc] else errors).map fun e => (.error e, v')
  | .ckpoint => [((), v.ckpoint cfg)]
  | .erase block =>
    let v' := v.assert (block ∈ v.fresh ∧ block < cfg.blockCount)
    (.ok (), v'.setBlock block (fun _ => 0xff) fun _ => 0xff) ::
      errors.flatMap fun e => faults.junk.map fun row => (.error e, v'.setBlock block row row)
  | .read block off size =>
    if off + size > cfg.blockSize ∨ block ≥ cfg.blockCount then
      [(.error .corrupt, v)]
    else
      -- A read that has failed leaves a cache with something else, so that nothing is to be read after it.
      (.ok (v.view block off size), v) :: errors.map fun e => (.error e, v)
  | .readInline off size => [(v.view blockInline off size, v)]
  | .prog cache block off data =>
    let (ok, c) := cfg.progCache block data.length off (v.caches cache)
    let v' := v.assert (ok && off + data.length ≤ cfg.blockSize)
    if block = blockInline then
      [(.ok (), (v'.setCache cache c).setBlock block (overwrite (v.bytes block) off data) (v.flash block))]
    else
      let v' := v'.assert (block ∈ v.fresh ∧ block < cfg.blockCount)
      faults.junk.flatMap fun row =>
        (.ok (), (v'.setCache cache c).setBlock block (overwrite (v.bytes block) off data) row) ::
          -- A cache that cannot be flushed stays in use.
          errors.flatMap fun e => (cfg.flushes block data.length off (v.caches cache)).map fun c =>
            (.error e, (v'.setCache cache (some c)).setBlock block
              (spoil (v.bytes block) off data.length row) row)
  | .flush => (.ok (), { v with flash := v.bytes }.setCache .file none) :: errors.map fun e => (.error e, v)
  | .drop cache => [((), v.setCache cache none)]
  | .handOver => [((), (v.setCache .file (v.caches .pcache)).setCache .pcache none)]
  | .fetch .file => ((), v) :: faults.cached.map fun c => ((), v.setCache .file (some c))
  | .fetch .orig => [((), v)]
  | .sync => (.ok (), v) :: errors.map fun e => (.error e, v)
  -- An error may be found after the entry was updated.
  | .commit =>
    let v := v.assert (v.caches .pcache).isNone
    (faults.directory.flatMap fun (calls, others) => v.relocated cfg calls others).flatMap fun v =>
      let v' := { v with fresh := [] }
      (.ok (), v'.commit) :: errors.flatMap fun e => (none :: faults.cached.map some).flatMap fun c =>
        [(.error e, v'.setCache .pcache c), (.error e, v'.commit.setCache .pcache c)]
  | .isCached _ => [(false, v), (true, v)]
  | .assert p => [((), v.assert p)]
  | .load w => [(v.get w, v)]
  | .update w f => [((), v.modify f w)]

abbrev Lfs (α : Type) :=
  Fallible sig LfsError α

abbrev perform (o : Op) : Prog sig (sig.Ret o) :=
  Prog.perform (S := sig) o

def lfsAlloc : Lfs ℕ :=
  .mk (perform .alloc)

def lfsAllocCkpoint : Lfs Unit :=
  ExceptT.lift (perform .ckpoint)

def bdErase (block : ℕ) : Lfs Unit :=
  .mk (perform (.erase block))

def bdRead (block off size : ℕ) : Lfs (List UInt8) :=
  .mk (perform (.read block off size))

def bdProg (cache : Cache) (block off : ℕ) (data : List UInt8) : Lfs Unit :=
  .mk (perform (.prog cache block off data))

def readInline (off size : ℕ) : Lfs (List UInt8) :=
  ExceptT.lift (perform (.readInline off size))

def bdFlush : Lfs Unit :=
  .mk (perform .flush)

def cacheDrop (cache : Cache) : Lfs Unit :=
  ExceptT.lift (perform (.drop cache))

def cacheFetch (w : Which) : Lfs Unit :=
  ExceptT.lift (perform (.fetch w))

def cacheHandOver : Lfs Unit :=
  ExceptT.lift (perform .handOver)

def bdSync : Lfs Unit :=
  .mk (perform .sync)

def dirCommit : Lfs Unit :=
  .mk (perform .commit)

def load (w : Which) : Lfs LfsFile :=
  ExceptT.lift (perform (.load w))

def update (w : Which) (f : LfsFile → LfsFile) : Lfs Unit :=
  ExceptT.lift (perform (.update w f))

def lfsAssert (p : Bool) : Lfs Unit :=
  ExceptT.lift (perform (.assert p))

-- Whether the program did not stop because of a bad block.
def orRelocate (p : Lfs Unit) : Lfs Bool :=
  tryCatch (do p; return true) fun e => if e = .corrupt then return false else throw e

-- A pointer at an offset of a block.
def bdReadPointer (block off : ℕ) : Lfs ℕ := do
  return fromLe32 (← bdRead block off 4)

theorem fromLe32_toLe32 {a : ℕ} (h : a < 2 ^ 32) : fromLe32 (toLe32 a) = a := by
  simp only [fromLe32, toLe32, List.range_succ, List.range_zero, List.nil_append, List.cons_append, List.map_cons,
    List.map_nil, Nat.ofDigits_cons, Nat.ofDigits_nil, UInt8.toNat_ofNat']
  omega

section

variable {row junk : ℕ → UInt8} {off size i : ℕ} {data : List UInt8}

theorem overwrite_of_lt (h : i < off) : overwrite row off data i = row i :=
  if_neg (Nat.not_le.mpr h)

theorem overwrite_of_le (h : off + data.length ≤ i) : overwrite row off data i = row i := by
  rw [overwrite, if_pos (by omega), List.getD_eq_getElem?_getD, List.getElem?_eq_none (by omega)]
  rfl

theorem overwrite_add {a : UInt8} (h : data[i]? = some a) : overwrite row off data (off + i) = a := by
  rw [overwrite, if_pos (Nat.le_add_right ..), Nat.add_sub_cancel_left, List.getD_eq_getElem?_getD, h]
  rfl

theorem spoil_of_lt (h : i < off) : spoil row off size junk i = row i :=
  if_neg (by omega)

end

section

variable {bytes bytes' : ℕ → ℕ → UInt8} {k b head size i : ℕ} {cfg : Config}

theorem pointer_congr {b' : ℕ} (h : ∀ j < 4 * (k + 1), bytes b j = bytes' b' j) :
    pointer bytes b k = pointer bytes' b' k :=
  congrArg fromLe32 (List.map_congr_left fun i hi => h _ (by rw [List.mem_range] at hi; omega))

theorem pointer_eq (h : bytes' b = bytes b) : pointer bytes' b k = pointer bytes b k := by
  simp only [pointer, h]

theorem ctzVisited_congr (h : ∀ b ∈ ctzVisited bytes i head, bytes' b = bytes b) :
    ctzVisited bytes' i head = ctzVisited bytes i head := by
  fun_induction ctzVisited bytes i head
  case case1 => rw [ctzVisited, if_pos rfl]
  case case2 hz hm hi =>
    have hh := h _ List.mem_cons_self
    rw [ctzVisited, if_neg hz, if_pos hm, pointer_eq hh, pointer_eq hh,
      hi fun b hb => h b (List.mem_cons_of_mem _ (List.mem_cons_of_mem _ hb))]
  case case3 hz hm hi =>
    have hh := h _ List.mem_cons_self
    rw [ctzVisited, if_neg hz, if_neg hm, pointer_eq hh, hi fun b hb => h b (List.mem_cons_of_mem _ hb)]

theorem Config.ctzTraversed_congr (h : ∀ b ∈ cfg.ctzTraversed bytes head size, bytes' b = bytes b) :
    cfg.ctzTraversed bytes' head size = cfg.ctzTraversed bytes head size := by
  unfold ctzTraversed at h ⊢
  split
  case isTrue      => rfl
  case isFalse hs  =>
    rw [if_neg hs] at h
    exact ctzVisited_congr h

end

-- What a cache is in use for after the bytes of a block were programmed in front of an offset.
def Config.caught (cfg : Config) (block off : ℕ) : Option (ℕ × ℕ) :=
  if cfg.cacheSize ∣ off then none else some (block, off / cfg.cacheSize * cfg.cacheSize)

section

variable {cfg : Config} {block off n : ℕ}

theorem Config.cacheSize_pos (cfg : Config) : 0 < cfg.cacheSize :=
  Nat.pos_of_dvd_of_pos cfg.cacheSize_dvd (Nat.lt_of_lt_of_le (by decide) cfg.le_blockSize)

theorem caught_zero : cfg.caught block 0 = none :=
  if_pos (Nat.dvd_zero _)

theorem caught_blockSize : cfg.caught block cfg.blockSize = none :=
  if_pos cfg.cacheSize_dvd

theorem progByte_caught (hb : block ≠ blockInline) :
    cfg.progByte block off (cfg.caught block off) = (true, cfg.caught block (off + 1)) := by
  have hc := cfg.cacheSize_pos
  have hle := Nat.div_mul_le_self off cfg.cacheSize
  have hlt := Nat.lt_div_mul_add hc (a := off)
  have hs : (off + 1) / cfg.cacheSize * cfg.cacheSize =
      off / cfg.cacheSize * cfg.cacheSize + if cfg.cacheSize ∣ off + 1 then cfg.cacheSize else 0 := by
    rw [Nat.succ_div, Nat.add_mul, ite_mul, Nat.one_mul, Nat.zero_mul]
  have hfull : off + 1 = off / cfg.cacheSize * cfg.cacheSize + cfg.cacheSize ↔ cfg.cacheSize ∣ off + 1 := by
    split at hs
    case isTrue hd  =>
      rw [Nat.div_mul_cancel hd] at hs
      exact iff_of_true hs hd
    case isFalse hd =>
      refine iff_of_false (fun he => hd (he ▸ ?_)) hd
      exact Nat.dvd_add (Nat.dvd_mul_left ..) (Nat.dvd_refl _)
  have hnext : cfg.caught block (off + 1) =
      if off + 1 = off / cfg.cacheSize * cfg.cacheSize + cfg.cacheSize then none
      else some (block, off / cfg.cacheSize * cfg.cacheSize) := by
    unfold Config.caught
    split <;> simp_all
  rw [hnext]
  by_cases hz : cfg.cacheSize ∣ off
  case pos =>
    have hp : off / cfg.progSize * cfg.progSize = off := Nat.div_mul_cancel (cfg.progSize_dvd.trans hz)
    simp [Config.progByte, Config.caught, hz, hp, hb, Nat.div_mul_cancel hz]
  case neg =>
    simp [Config.progByte, Config.caught, hz, Option.filter, hle, hlt, hb]

theorem progCache_caught (hb : block ≠ blockInline) :
    cfg.progCache block n off (cfg.caught block off) = (true, cfg.caught block (off + n)) := by
  induction n generalizing off
  case zero => rfl
  case succ n hi =>
    simp only [Config.progCache, progByte_caught hb, hi, Bool.and_self, Nat.add_assoc, Nat.add_comm 1]

theorem progCache_inline (hn : off + n ≤ cfg.cacheSize) :
    cfg.progCache blockInline n off (some (blockInline, 0)) = (true, some (blockInline, 0)) := by
  induction n generalizing off
  case zero => rfl
  case succ n hi =>
    have hb : cfg.progByte blockInline off (some (blockInline, 0)) = (true, some (blockInline, 0)) := by
      simp [Config.progByte, Option.filter, show off < cfg.cacheSize by omega]
    simp only [Config.progCache, hb, @hi (off + 1) (by omega), Bool.and_self]

end

-- What stays the same while blocks are allocated and written to.
structure Frame (cfg : Config) (keep : ℕ → Prop) (v v' : Volume) : Prop where
  bytes    : ∀ b, keep b → v'.bytes b = v.bytes b
  flash    : ∀ b, keep b → v'.flash b = v.flash b
  others   : v'.others = v.others
  entry    : v'.entry = v.entry
  file     : v'.file = v.file
  orig     : v'.orig = v.orig
  asserted : v'.asserted = v.asserted
  inv      : v.allocator.Inv cfg.toAllocConfig → v'.allocator.Inv cfg.toAllocConfig
  tracked  : ∀ b, keep b → v.Tracked cfg b → v'.Tracked cfg b
  fresh    : ∀ b ∈ v.fresh, b ∈ v'.fresh
  new      : ∀ b, keep b → b ∈ v'.fresh → b ∈ v.fresh

namespace Frame

variable {cfg : Config} {keep keep' : ℕ → Prop} {v v' v'' : Volume} {block : ℕ}

theorem refl : Frame cfg keep v v :=
  ⟨fun _ _ => rfl, fun _ _ => rfl, rfl, rfl, rfl, rfl, rfl, id, fun _ _ => id, fun _ => id, fun _ _ => id⟩

theorem trans (h : Frame cfg keep v v') (h' : Frame cfg keep v' v'') : Frame cfg keep v v'' where
  bytes b hb   := (h'.bytes b hb).trans (h.bytes b hb)
  flash b hb   := (h'.flash b hb).trans (h.flash b hb)
  others       := h'.others.trans h.others
  entry        := h'.entry.trans h.entry
  file         := h'.file.trans h.file
  orig         := h'.orig.trans h.orig
  asserted     := h'.asserted.trans h.asserted
  inv hi       := h'.inv (h.inv hi)
  tracked b hb := h'.tracked b hb ∘ h.tracked b hb
  fresh b hb   := h'.fresh b (h.fresh b hb)
  new b hb     := h.new b hb ∘ h'.new b hb

theorem mono (h : Frame cfg keep v v') (hk : ∀ b, keep' b → keep b) : Frame cfg keep' v v' :=
  { h with
    bytes   := fun b hb => h.bytes b (hk b hb)
    flash   := fun b hb => h.flash b (hk b hb)
    tracked := fun b hb => h.tracked b (hk b hb)
    new     := fun b hb => h.new b (hk b hb) }

theorem setBlock {row flashRow : ℕ → UInt8} : Frame cfg (· ≠ block) v (v.setBlock block row flashRow) :=
  { (refl : Frame cfg (fun _ => True) v v) with
    bytes   := fun _ hb => Function.update_of_ne hb ..
    flash   := fun _ hb => Function.update_of_ne hb ..
    tracked := fun _ _ => id
    new     := fun _ _ => id }

end Frame

-- Nothing but a block was written to, through a cache.
def Written (cache : Cache) (block : ℕ) (v v' : Volume) : Prop :=
  ∃ row flashRow c, v' = (v.setCache cache c).setBlock block row flashRow

namespace Written

variable {cfg : Config} {cache : Cache} {v v' : Volume} {block : ℕ}

theorem setBlock {row flashRow : ℕ → UInt8} : Written cache block v (v.setBlock block row flashRow) :=
  ⟨row, flashRow, v.caches cache, by simp [Volume.setBlock, Volume.setCache]⟩

theorem prog {row flashRow : ℕ → UInt8} {c : Option (ℕ × ℕ)} (h : Written cache block v v') :
    Written cache block v ((v'.setCache cache c).setBlock block row flashRow) := by
  obtain ⟨_, _, _, rfl⟩ := h
  exact ⟨row, flashRow, c, by simp [Volume.setBlock, Volume.setCache]⟩

theorem drop {c : Option (ℕ × ℕ)} (h : Written cache block v v') : Written cache block v (v'.setCache cache c) := by
  obtain ⟨row, flashRow, _, rfl⟩ := h
  exact ⟨row, flashRow, c, by simp [Volume.setBlock, Volume.setCache]⟩

theorem frame (h : Written cache block v v') : Frame cfg (· ≠ block) v v' := by
  obtain ⟨_, _, _, rfl⟩ := h
  exact { (Frame.setBlock : Frame cfg (· ≠ block) v (v.setBlock block _ _)) with }

theorem bytes {b : ℕ} (h : Written cache block v v') (hb : b ≠ block) : v'.bytes b = v.bytes b := by
  obtain ⟨_, _, _, rfl⟩ := h
  exact Function.update_of_ne hb ..

theorem fresh (h : Written cache block v v') : v'.fresh = v.fresh := by
  obtain ⟨_, _, _, rfl⟩ := h
  rfl

theorem allocator (h : Written cache block v v') : v'.allocator = v.allocator := by
  obtain ⟨_, _, _, rfl⟩ := h
  rfl

theorem caches {cache' : Cache} (h : Written cache block v v') (hc : cache' ≠ cache) :
    v'.caches cache' = v.caches cache' := by
  obtain ⟨_, _, _, rfl⟩ := h
  exact Function.update_of_ne hc ..

end Written

-- The blocks that are not written to when a new one is.
def Volume.Kept (cfg : Config) (v : Volume) (block : ℕ) : Prop :=
  block ∈ v.traversed cfg ∨ block = blockInline

-- The allocator has kept track of the blocks of the file system.
structure Accounted (cfg : Config) (v : Volume) : Prop where
  inv     : v.allocator.Inv cfg.toAllocConfig
  tracked : ∀ b ∈ v.traversed cfg, v.Tracked cfg b

-- A block was given out.
structure Allocated (cfg : Config) (v v' : Volume) (block : ℕ) : Prop where
  frame   : Frame cfg (v.Kept cfg) v v'
  bytes   : v'.bytes = v.bytes
  caches  : v'.caches = v.caches
  lt      : block < cfg.blockCount
  new     : block ∉ v.traversed cfg
  pending : v'.allocator.pending = block :: v.allocator.pending
  unused  : block ∉ v.allocator.pending
  fresh   : block ∈ v'.fresh

section

variable {cfg : Config} {v v' : Volume} {block : ℕ} {errs : Traversals}

theorem Volume.Kept.ne {b : ℕ} (h : v.Kept cfg b) (hn : block ∉ v.traversed cfg) (hlt : block < cfg.blockCount) :
    b ≠ block := by
  rintro rfl
  rcases h with h | rfl
  case inl => exact hn h
  case inr => exact absurd (hlt.trans_le cfg.blockCount_lt) (Nat.lt_irrefl _)

theorem Frame.traversed (h : Frame cfg (v.Kept cfg) v v') : v'.traversed cfg = v.traversed cfg := by
  have hm {b : ℕ} (hb : b ∈ v.traversed cfg) : v.Kept cfg b := .inl hb
  have he : v'.entryTraversed cfg = v.entryTraversed cfg := by
    have hk (b : ℕ) (hb : b ∈ v.entryTraversed cfg) : v'.flash b = v.flash b :=
      h.flash b (hm (by simp [Volume.traversed, hb]))
    unfold Volume.entryTraversed at hk ⊢
    rw [h.entry]
    cases hv : v.entry
    case inline => rfl
    case ctz    =>
      rw [hv] at hk
      exact Config.ctzTraversed_congr hk
  have hd : v'.dirtyTraversed cfg = v.dirtyTraversed cfg := by
    have hk (b : ℕ) (hb : b ∈ v.dirtyTraversed cfg) : v'.bytes b = v.bytes b :=
      h.bytes b (hm (by simp [Volume.traversed, hb]))
    unfold Volume.dirtyTraversed at hk ⊢
    rw [h.file]
    split
    case isTrue hc  =>
      rw [if_pos hc] at hk
      exact Config.ctzTraversed_congr hk
    case isFalse => rfl
  have hw : v'.branchTraversed cfg = v.branchTraversed cfg := by
    have hk (b : ℕ) (hb : b ∈ v.branchTraversed cfg) : v'.bytes b = v.bytes b :=
      h.bytes b (hm (by simp [Volume.traversed, hb]))
    unfold Volume.branchTraversed at hk ⊢
    rw [h.file]
    split
    case isTrue hc  =>
      rw [if_pos hc] at hk
      exact Config.ctzTraversed_congr hk
    case isFalse => rfl
  rw [Volume.traversed, Volume.traversed, h.others, he, hd, hw]

theorem Volume.Kept.frame {b : ℕ} (h : v.Kept cfg b) (hf : Frame cfg (v.Kept cfg) v v') : v'.Kept cfg b :=
  h.imp_left fun hb => hf.traversed ▸ hb

theorem Accounted.frame (h : Accounted cfg v) (hf : Frame cfg (v.Kept cfg) v v') : Accounted cfg v' where
  inv          := hf.inv h.inv
  tracked b hb := by
    rw [hf.traversed] at hb
    exact hf.tracked b (.inl hb) (h.tracked b hb)

theorem assert_true : v.assert true = v := by
  simp [Volume.assert]

theorem Accounted.grown (h : Accounted cfg v) : v.grown cfg =
    { v with allocator := { v.allocator with tree := (v.traversed cfg).filter (· < cfg.blockCount) } } := by
  rw [Volume.grown, decide_eq_true h.tracked, assert_true]

-- The allocator gets to know what was added to the file system since it was called last.
theorem Accounted.inv_grown (h : Accounted cfg v) : (v.grown cfg).allocator.Inv cfg.toAllocConfig := by
  rw [h.grown]
  refine h.inv.step (.commit fun b hb => ?_)
  rw [List.mem_filter, decide_eq_true_eq] at hb
  exact h.tracked b hb.left hb.right

theorem Accounted.frame_grown (h : Accounted cfg v) {lookahead : Lookahead} {pending : List ℕ}
    (hi : Allocator.Inv cfg.toAllocConfig { (v.grown cfg).allocator with lookahead, pending }) :
    Frame cfg (v.Kept cfg) v { v.grown cfg with
      allocator := { (v.grown cfg).allocator with lookahead, pending } } := by
  rw [h.grown] at hi ⊢
  exact { (Frame.refl : Frame cfg (v.Kept cfg) v v) with
    inv     := fun _ => hi
    tracked := fun b hb _ hlt => by
      have hb' : b ∈ v.traversed cfg :=
        hb.resolve_right fun he => (he ▸ hlt.trans_le cfg.blockCount_lt).false
      exact .inl (List.mem_filter.mpr ⟨hb', decide_eq_true hlt⟩) }

theorem Accounted.frame_ckpoint (h : Accounted cfg v) : Frame cfg (v.Kept cfg) v (v.ckpoint cfg) :=
  h.frame_grown (h.inv_grown.step .ckpoint)

-- A block that is given out is not one of the file system, and was not given out since the last checkpoint.
theorem Accounted.alloc (h : Accounted cfg v) (errs : Traversals) :
    match v.alloc cfg errs with
    | (.ok block, v') => Allocated cfg v { v' with fresh := block :: v'.fresh } block ∧
      Frame cfg (v.Kept cfg) v v'
    | (.error _, v')  => Frame cfg (v.Kept cfg) v v' := by
  have hi := h.inv_grown
  have ht : ∀ b ∈ (v.grown cfg).allocator.tree, b ∈ v.traversed cfg := fun b hb =>
    (List.mem_filter.mp hb).left
  have hl : (v.grown cfg).allocator.lookahead = v.allocator.lookahead := rfl
  have hp : (v.grown cfg).allocator.pending = v.allocator.pending := rfl
  have ha := hi.alloc ht errs
  rw [hl] at ha
  revert ha
  unfold Volume.alloc
  rcases Littlefs.alloc cfg.toAllocConfig v.allocator.lookahead (v.traversed cfg) errs with ⟨_ | block, lookahead⟩
  case ok =>
    rintro ⟨hnt, hnp, hi'⟩
    have hlt := (hi'.pending block List.mem_cons_self).left
    have hf := h.frame_grown hi'
    have hnt' : block ∉ v.traversed cfg := fun hb =>
      hnt (List.mem_filter.mpr ⟨hb, decide_eq_true hlt⟩)
    refine ⟨⟨{ hf with fresh := ?_, new := ?_ }, by rw [h.grown], by rw [h.grown], hlt, hnt', rfl, hnp,
      List.mem_cons_self⟩, hf⟩
    case refine_1 => exact fun b hb => List.mem_cons_of_mem _ (hf.fresh b hb)
    case refine_2 =>
      intro b hb hm
      exact (List.mem_cons.mp hm).elim (fun he => absurd he (hb.ne hnt' hlt)) (hf.new b hb)
  case error =>
    rintro ⟨-, ⟨hc, -, hi'⟩ | ⟨hc, hi'⟩⟩
    case inl =>
      dsimp only
      rw [if_pos hc]
      exact h.frame_grown hi'
    case inr =>
      dsimp only
      rw [if_neg (hc ▸ cfg.blockCount_pos.ne')]
      exact h.frame_grown hi'

-- The calls for a directory leave the file as it is.
theorem Accounted.foldl_alloc (h : Accounted cfg v) (calls : List Traversals) :
    Frame cfg (v.Kept cfg) v (calls.foldl (fun v errs => (v.alloc cfg errs).2) v) := by
  induction calls generalizing v
  case nil => exact .refl
  case cons errs calls hi =>
    have hf : Frame cfg (v.Kept cfg) v (v.alloc cfg errs).2 := by
      have ha := h.alloc errs
      rcases hr : v.alloc cfg errs with ⟨_ | block, v'⟩ <;> rw [hr] at ha
      case error => exact ha
      case ok    => exact ha.right
    exact hf.trans ((hi (h.frame hf)).mono fun _ hb => hb.frame hf)

end

section

variable {cfg : Config} {faults : Faults} {P : Volume → Prop} {block off size : ℕ} {data : List UInt8}

open Prog

theorem does_of_eq {α : Type} {p : Lfs α} {Q : α → Volume → Prop} {R : LfsError → Volume → Prop}
    (h : ∀ v, P v → FallibleHoare (exec cfg faults) (fun v' => v' = v) p Q R) :
    FallibleHoare (exec cfg faults) P p Q R :=
  fun v r v' hv he => h v hv v r v' rfl he

theorem does_alloc {Q : ℕ → Volume → Prop} {R : LfsError → Volume → Prop} (ha : ∀ v, P v → Accounted cfg v)
    (h : ∀ v v' b, P v → Allocated cfg v v' b → Q b v')
    (hr : ∀ v v' e, P v → Frame cfg (v.Kept cfg) v v' → R e v') :
    FallibleHoare (exec cfg faults) P lfsAlloc Q R := by
  refine Hoare.perform (S := sig) (o := .alloc) fun v r v' hp hm => ?_
  obtain ⟨errs, -, hm⟩ := List.mem_flatMap.mp hm
  have ha := (ha v hp).alloc errs
  rcases hv : v.alloc cfg errs with ⟨_ | block, v₁⟩ <;> rw [hv] at ha hm
  case ok =>
    cases List.mem_singleton.mp hm
    exact h v _ block hp ha.left
  case error =>
    obtain ⟨e, -, he⟩ := List.mem_map.mp hm
    cases he
    exact hr v _ e hp ha

theorem does_ckpoint {Q : Unit → Volume → Prop} {R : LfsError → Volume → Prop}
    (h : ∀ v, P v → Q () (v.ckpoint cfg)) : FallibleHoare (exec cfg faults) P lfsAllocCkpoint Q R :=
  .lift <| Hoare.perform (S := sig) (o := .ckpoint) fun v _ _ hp hm => by
    cases List.mem_singleton.mp hm
    exact h v hp

theorem does_load {w : Which} {Q : LfsFile → Volume → Prop} {R : LfsError → Volume → Prop}
    (h : ∀ v, P v → Q (v.get w) v) : FallibleHoare (exec cfg faults) P (load w) Q R :=
  .lift <| Hoare.perform (S := sig) (o := .load w) fun v _ _ hp hm => by
    cases List.mem_singleton.mp hm
    exact h v hp

theorem does_update {w : Which} {g : LfsFile → LfsFile} {Q : Unit → Volume → Prop}
    {R : LfsError → Volume → Prop} (h : ∀ v, P v → Q () (v.modify g w)) :
    FallibleHoare (exec cfg faults) P (update w g) Q R :=
  .lift <| Hoare.perform (S := sig) (o := .update w g) fun v _ _ hp hm => by
    cases List.mem_singleton.mp hm
    exact h v hp

theorem does_readInline {Q : List UInt8 → Volume → Prop} {R : LfsError → Volume → Prop}
    (h : ∀ v, P v → Q (v.view blockInline off size) v) :
    FallibleHoare (exec cfg faults) P (readInline off size) Q R :=
  .lift <| Hoare.perform (S := sig) (o := .readInline off size) fun v _ _ hp hm => by
    cases List.mem_singleton.mp hm
    exact h v hp

theorem does_erase {Q : Unit → Volume → Prop} {R : LfsError → Volume → Prop}
    (hb : ∀ v, P v → block ∈ v.fresh ∧ block < cfg.blockCount)
    (h : ∀ v row flashRow, P v → Q () (v.setBlock block row flashRow))
    (hr : ∀ v e row flashRow, P v → R e (v.setBlock block row flashRow)) :
    FallibleHoare (exec cfg faults) P (bdErase block) Q R := by
  refine Hoare.perform (S := sig) (o := .erase block) fun v r v' hp hm => ?_
  simp only [exec, hb v hp, and_self, decide_true, assert_true, List.mem_cons, List.mem_flatMap,
    List.mem_map] at hm
  rcases hm with he | ⟨e, -, row, -, he⟩ <;> cases he
  case inl => exact h v _ _ hp
  case inr => exact hr v e _ _ hp

theorem does_read {Q : List UInt8 → Volume → Prop} {R : LfsError → Volume → Prop}
    (h : ∀ v, P v → Q (v.view block off size) v) (hr : ∀ v e, P v → R e v) :
    FallibleHoare (exec cfg faults) P (bdRead block off size) Q R := by
  refine Hoare.perform (S := sig) (o := .read block off size) fun v r v' hp hm => ?_
  simp only [exec] at hm
  split at hm
  case isTrue => cases List.mem_singleton.mp hm; exact hr v _ hp
  case isFalse =>
    rcases List.mem_cons.mp hm with he | hm
    case inl => cases he; exact h v hp
    case inr =>
      obtain ⟨e, -, he⟩ := List.mem_map.mp hm
      cases he
      exact hr v e hp

theorem does_prog {cache : Cache} {Q : Unit → Volume → Prop} {R : LfsError → Volume → Prop}
    (hb : ∀ v, P v → block ∈ v.fresh ∧ block < cfg.blockCount ∧ off + data.length ≤ cfg.blockSize)
    (hc : ∀ v, P v → v.caches cache = cfg.caught block off)
    (h : ∀ v flashRow, P v → Q () ((v.setCache cache (cfg.caught block (off + data.length))).setBlock block
      (overwrite (v.bytes block) off data) flashRow))
    (hr : ∀ v e c row flashRow, P v → e ∈ faults.errors (.prog cache block off data) v →
      R e ((v.setCache cache c).setBlock block (spoil (v.bytes block) off data.length row) flashRow)) :
    FallibleHoare (exec cfg faults) P (bdProg cache block off data) Q R := by
  refine Hoare.perform (S := sig) (o := .prog cache block off data) fun v r v' hp hm => ?_
  obtain ⟨hf, hlt, hle⟩ := hb v hp
  have hn : block ≠ blockInline := Nat.ne_of_lt (hlt.trans_le cfg.blockCount_lt)
  simp only [exec, hc v hp, progCache_caught hn, if_neg hn, hf, hlt, hle, and_self, decide_true, Bool.and_self,
    assert_true, List.mem_flatMap, List.mem_cons, List.mem_map] at hm
  rcases hm with ⟨row, -, he | ⟨e, hm, c, -, he⟩⟩ <;> cases he
  case inl => exact h v row hp
  case inr => exact hr v e _ row row hp hm

theorem does_prog_inline {Q : Unit → Volume → Prop} {R : LfsError → Volume → Prop}
    (hb : off + data.length ≤ cfg.inlineMax) (hc : ∀ v, P v → v.caches .file = some (blockInline, 0))
    (h : ∀ v, P v → Q () (v.setBlock blockInline (overwrite (v.bytes blockInline) off data)
      (v.flash blockInline))) :
    FallibleHoare (exec cfg faults) P (bdProg .file blockInline off data) Q R := by
  refine Hoare.perform (S := sig) (o := .prog .file blockInline off data) fun v r v' hp hm => ?_
  have hle : off + data.length ≤ cfg.blockSize := by
    have hm := cfg.inlineMax_le
    omega
  have hv : v.setCache .file (some (blockInline, 0)) = v := by simp [Volume.setCache, ← hc v hp]
  simp only [exec, hc v hp, progCache_inline (hb.trans cfg.inlineMax_le'), reduceIte, hle, decide_true,
    Bool.and_self, assert_true, List.mem_singleton, hv] at hm
  cases hm
  exact h v hp

theorem does_flush {Q : Unit → Volume → Prop} {R : LfsError → Volume → Prop}
    (h : ∀ v, P v → Q () ({ v with flash := v.bytes }.setCache .file none)) (hr : ∀ v e, P v → R e v) :
    FallibleHoare (exec cfg faults) P bdFlush Q R := by
  refine Hoare.perform (S := sig) (o := .flush) fun v r v' hp hm => ?_
  rcases List.mem_cons.mp hm with he | hm
  case inl => cases he; exact h v hp
  case inr =>
    obtain ⟨e, -, he⟩ := List.mem_map.mp hm
    cases he
    exact hr v e hp

theorem does_cacheDrop {cache : Cache} {Q : Unit → Volume → Prop} {R : LfsError → Volume → Prop}
    (h : ∀ v, P v → Q () (v.setCache cache none)) :
    FallibleHoare (exec cfg faults) P (cacheDrop cache) Q R :=
  .lift <| Hoare.perform (S := sig) (o := .drop cache) fun v _ _ hp hm => by
    cases List.mem_singleton.mp hm
    exact h v hp

theorem does_cacheFetch {w : Which} {Q : Unit → Volume → Prop} {R : LfsError → Volume → Prop}
    (h : ∀ v c, P v → (w = .orig → c = v.caches .file) → Q () (v.setCache .file c)) :
    FallibleHoare (exec cfg faults) P (cacheFetch w) Q R :=
  .lift <| Hoare.perform (S := sig) (o := .fetch w) fun v _ _ hp hm => by
    have hv : v.setCache .file (v.caches .file) = v := by simp [Volume.setCache]
    cases w
    case orig => cases List.mem_singleton.mp hm; exact hv ▸ h v _ hp fun _ => rfl
    case file =>
      rcases List.mem_cons.mp hm with he | hm
      case inl => cases he; exact hv ▸ h v _ hp fun _ => rfl
      case inr =>
        obtain ⟨c, -, he⟩ := List.mem_map.mp hm
        cases he
        exact h v _ hp fun he => absurd he (by simp)

theorem does_cacheHandOver {Q : Unit → Volume → Prop} {R : LfsError → Volume → Prop}
    (h : ∀ v, P v → Q () ((v.setCache .file (v.caches .pcache)).setCache .pcache none)) :
    FallibleHoare (exec cfg faults) P cacheHandOver Q R :=
  .lift <| Hoare.perform (S := sig) (o := .handOver) fun v _ _ hp hm => by
    cases List.mem_singleton.mp hm
    exact h v hp

theorem does_sync {Q : Unit → Volume → Prop} {R : LfsError → Volume → Prop} (h : ∀ v, P v → Q () v)
    (hr : ∀ v e, P v → R e v) : FallibleHoare (exec cfg faults) P bdSync Q R := by
  refine Hoare.perform (S := sig) (o := .sync) fun v r v' hp hm => ?_
  rcases List.mem_cons.mp hm with he | hm
  case inl => cases he; exact h v hp
  case inr =>
    obtain ⟨e, -, he⟩ := List.mem_map.mp hm
    cases he
    exact hr v e hp

-- What becomes of a volume if blocks are allocated for the directory.
structure Relocated (cfg : Config) (v v' : Volume) : Prop where
  frame   : Frame cfg (v.Kept cfg) v { v' with others := v.others }
  tracked : ∀ b ∈ v'.others, v'.Tracked cfg b
  caches  : v'.caches = v.caches

theorem caches_alloc {v : Volume} {errs : Traversals} : (v.alloc cfg errs).2.caches = v.caches := by
  unfold Volume.alloc
  rcases Littlefs.alloc cfg.toAllocConfig v.allocator.lookahead (v.traversed cfg) errs with ⟨_ | _, _⟩ <;> rfl

theorem caches_foldl_alloc {v : Volume} {calls : List Traversals} :
    (calls.foldl (fun v errs => (v.alloc cfg errs).2) v).caches = v.caches := by
  induction calls generalizing v
  case nil       => rfl
  case cons _ hi => exact hi.trans caches_alloc

theorem Accounted.relocated {v v' : Volume} {calls : List Traversals} {others : List ℕ} (h : Accounted cfg v)
    (hm : v' ∈ v.relocated cfg calls others) : Relocated cfg v v' := by
  have hf := h.foldl_alloc calls
  simp only [Volume.relocated] at hm
  split at hm
  case isFalse    => contradiction
  case isTrue ho  =>
    cases List.mem_singleton.mp hm
    refine ⟨hf.others ▸ hf, fun b hb hlt => ?_, caches_foldl_alloc⟩
    rcases ho b hb with hb | hb
    case inl =>
      have hb : b ∈ v.traversed cfg := by simp [Volume.traversed, hb]
      exact hf.tracked b (.inl hb) (h.tracked b hb) hlt
    case inr => exact .inr hb

theorem does_commit {Q : Unit → Volume → Prop} {R : LfsError → Volume → Prop} (ha : ∀ v, P v → Accounted cfg v)
    (hc : ∀ v, P v → v.caches .pcache = none)
    (h : ∀ v v', P v → Relocated cfg v v' → Q () { v' with fresh := [] }.commit)
    (hr : ∀ v v' e c, P v → Relocated cfg v v' → R e ({ v' with fresh := [] }.setCache .pcache c))
    (hr' : ∀ v v' e c, P v → Relocated cfg v v' → R e ({ v' with fresh := [] }.commit.setCache .pcache c)) :
    FallibleHoare (exec cfg faults) P dirCommit Q R := by
  refine Hoare.perform (S := sig) (o := .commit) fun v r v' hp hm => ?_
  have hn : v.assert (v.caches .pcache).isNone = v := by rw [hc v hp]; exact assert_true
  simp only [exec, hn] at hm
  obtain ⟨v₁, hv₁, hm⟩ := List.mem_flatMap.mp hm
  obtain ⟨calls, -, hv₁⟩ := List.mem_flatMap.mp hv₁
  have hv₁ := (ha v hp).relocated hv₁
  rcases List.mem_cons.mp hm with he | hm
  case inl => cases he; exact h v v₁ hp hv₁
  case inr =>
    obtain ⟨e, -, hm⟩ := List.mem_flatMap.mp hm
    obtain ⟨c, -, hm⟩ := List.mem_flatMap.mp hm
    rcases List.mem_cons.mp hm with he | hm
    case inl => cases he; exact hr v v₁ e c hp hv₁
    case inr => cases List.mem_singleton.mp hm; exact hr' v v₁ e c hp hv₁

theorem does_isCached {Q : Bool → Volume → Prop} {R : LfsError → Volume → Prop}
    (h : ∀ v b, P v → Q b v) :
    FallibleHoare (exec cfg faults) P (ExceptT.lift (perform (.isCached off)) : Lfs Bool) Q R :=
  .lift <| Hoare.perform (S := sig) (o := .isCached off) fun v _ _ hp hm => by
    rcases List.mem_cons.mp hm with he | hm
    case inl => cases he; exact h v _ hp
    case inr => cases List.mem_singleton.mp hm; exact h v _ hp

theorem does_orRelocate {p : Lfs Unit} {F : LfsError → Volume → Prop} {Q : Bool → Volume → Prop}
    {R : LfsError → Volume → Prop} (h : FallibleHoare (exec cfg faults) P p (fun _ => Q true) F)
    (hq : ∀ v, F .corrupt v → Q false v) (hr : ∀ e v, F e v → R e v) :
    FallibleHoare (exec cfg faults) P (orRelocate p) Q R := by
  have ht : FallibleHoare (exec cfg faults) P (do p; return true : Lfs Bool) Q F :=
    h.bind fun _ => .pure fun _ h => h
  refine Hoare.bind ht fun r => ?_
  cases r
  case ok      => exact .pure fun _ h => h
  case error e =>
    by_cases he : e = .corrupt
    case pos => simp only [he, reduceIte]; exact .pure hq
    case neg => simp only [he, reduceIte]; exact .pure (hr e)

end

end Littlefs
