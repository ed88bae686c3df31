import SecureHome.Littlefs.File

open File (LfsError maxFileSizeBytes)

-- What the blocks and the state of a file stand for.
namespace Littlefs

-- What is known about the blocks of a file that another one has been reading since its last flush.
abbrev Along :=
  LfsFile → List ℕ → Prop

variable (cfg : Config)

-- A directory entry refers to the bytes of a file, which are in blocks that are not written to any more.
def Stored (v : Volume) (bytes : List UInt8) : Struct → Prop
  | .inline data   => data = bytes
  | .ctz head size => size = bytes.length ∧ ∃ pre off, Holds cfg v.flash pre head off bytes ∧
    (bytes ≠ [] → ∀ b ∈ pre ++ [head], v.Tracked cfg b ∧ b ∉ v.fresh ∧ v.bytes b = v.flash b)

-- A file that is kept in its directory entry is written to and read from in its cache.
structure Inlined (K : Along) (v : Volume) (f : File.LfsFile) : Prop where
  head    : v.file.head = blockInline
  content : ∀ i a, f.content[i]? = some a → v.bytes blockInline i = a
  length  : f.content.length ≤ cfg.inlineMax
  block   : f.writing = true ∨ f.reading = true → v.file.block = blockInline ∧ v.file.off = f.pos
  pos_lt  : f.reading = true → f.pos < cfg.blockSize
  along   : K v.orig []

-- The blocks as of the last flush, which are those of the directory entry unless the file is dirty.
structure Chained (K : Along) (v : Volume) (f : File.LfsFile) (pre : List ℕ) (off : ℕ) : Prop where
  holds   : Holds cfg v.bytes pre v.file.head off f.ctz
  tracked : f.ctz ≠ [] → ∀ b ∈ pre ++ [v.file.head], v.Tracked cfg b ∧ (f.writing = true → b ≠ v.file.block)
  clean   : f.dirty = false → v.entry = .ctz v.file.head v.file.size
  flushed : f.writing = false → f.ctz ≠ [] → ∀ b ∈ pre ++ [v.file.head], v.flash b = v.bytes b
  reading : f.reading = true → v.file.off = cfg.blockSize ∨
    ∃ i, Located cfg.blockSize f.pos i v.file.off ∧ (pre ++ [v.file.head])[i]? = some v.file.block
  along   : K v.orig (pre ++ [v.file.head])

-- The block that is written to and those before.
structure Branched (v : Volume) (f : File.LfsFile) (pre : List ℕ) : Prop where
  branch  : Branch cfg v.bytes pre v.file.block v.file.off f.branch
  fresh   : v.file.block ∈ v.fresh
  tracked : f.branch ≠ [] → ∀ b ∈ pre ++ [v.file.block], v.Tracked cfg b

-- What an inline file had before cannot be read any more once the file was moved to a block.
structure Dangling (K : Along) (v : Volume) (f : File.LfsFile) : Prop where
  head    : v.file.head = blockInline
  writing : f.writing = true
  length  : f.ctz.length ≤ cfg.inlineMax
  along   : K v.orig []

-- The fields of a file, where a file that is written to is not read from.
structure Agrees (file : LfsFile) (f : File.LfsFile) : Prop where
  pos     : file.pos = f.pos
  size    : file.size = f.ctz.length
  reading : file.reading = f.reading
  writing : file.writing = f.writing
  dirty   : file.dirty = f.dirty
  erred   : file.erred = f.erred
  pos_le  : f.pos ≤ maxFileSizeBytes
  size_le : f.ctz.length ≤ maxFileSizeBytes
  disk_le : f.disk.length ≤ maxFileSizeBytes
  branch  : f.writing = true → f.branch.length = f.pos ∧ f.reading = false

structure Represents (K : Along) (v : Volume) (f : File.LfsFile) : Prop where
  asserted : v.asserted = true
  inv      : v.allocator.Inv cfg.toAllocConfig
  others   : ∀ b ∈ v.others, v.Tracked cfg b
  agrees   : Agrees v.file f
  entry    : Stored cfg v f.disk v.entry
  inlined  : v.file.isInline = true → Inlined cfg K v f
  chained  : v.file.isInline = false → (∃ pre off, Chained cfg K v f pre off) ∨ Dangling cfg K v f
  branched : v.file.isInline = false → f.writing = true → ∃ pre, Branched cfg v f pre

-- There is data in the block that is written to, unless it is the first one.
def HasData (file : LfsFile) : Prop :=
  file.pos = 0 ∨ file.off = cfg.blockSize ∨
    ∃ i, Located cfg.blockSize file.pos i file.off ∧ 4 * pointers i < file.off

def Filled (v : Volume) : Prop :=
  v.file.isInline = false → v.Tracked cfg v.file.block ∧ HasData cfg v.file

-- The cache of a file is in use if that is inline or read from, or if what was programmed does not fill it yet.
structure Cached (v : Volume) : Prop where
  pcache  : v.caches .pcache = none
  inlined : v.file.isInline = true → v.caches .file = some (blockInline, 0)
  writing : v.file.isInline = false → v.file.writing = true → v.caches .file = cfg.caught v.file.block v.file.off
  idle    : v.file.isInline = false → v.file.writing = false → v.file.reading = false → v.caches .file = none

-- A block that was just added to a branch does not turn out to be bad. LittleFS does not find the blocks in
-- front of it before it has data, so that they could be given out for the copy.
def Faults.Spares (faults : Faults) : Prop :=
  ∀ v data, v.file.writing = true → v.file.isInline = false →
    .corrupt ∈ faults.errors (.prog .file v.file.block v.file.off data) v → HasData cfg v.file

variable {cfg} {K : Along} {faults : Faults} {v v₀ : Volume} {f : File.LfsFile}

open Prog

theorem lt_of_le_maxFileSizeBytes {n : ℕ} (h : n ≤ maxFileSizeBytes) : n < 2 ^ 32 :=
  Nat.lt_of_le_of_lt h (by decide)

theorem pointers_lt {pre : List ℕ} {block off : ℕ} {bytes : ℕ → ℕ → UInt8} {data : List UInt8}
    (h : Branch cfg bytes pre block off data) (hl : data.length < 2 ^ 32) :
    4 * pointers pre.length < cfg.blockSize := by
  have heq := h.eq
  have hle := h.le
  have hB := cfg.le_blockSize
  have hp := pointers_le (lt_maxIndex (show start cfg.blockSize pre.length < 2 ^ 32 by omega))
  omega

theorem index_of_lt {pos : ℕ} (h : pos < cfg.blockSize) : cfg.index pos = (0, pos) := by
  have hl : Located cfg.blockSize pos 0 pos := ⟨by rw [start_zero]; simp [pointers], by simp [pointers], h⟩
  have hi := (cfg.located_index (h.trans cfg.blockSize_lt)).right.unique hl
  exact Prod.ext hi.left hi.right

theorem Stored.entryTraversed {bytes : List UInt8} {head size : ℕ} (h : Stored cfg v bytes v.entry)
    (he : v.entry = .ctz head size) (hl : bytes.length < 2 ^ 32) : ∃ pre off, size = bytes.length ∧
      Holds cfg v.flash pre head off bytes ∧
      (bytes ≠ [] → ∀ b ∈ pre ++ [head], v.Tracked cfg b ∧ b ∉ v.fresh ∧ v.bytes b = v.flash b) ∧
      v.entryTraversed cfg = if bytes = [] then [] else head :: pre.reverse := by
  rw [he] at h
  obtain ⟨hs, pre, off, hh, hb⟩ := h
  refine ⟨pre, off, hs, hh, hb, ?_⟩
  rw [← hh.ctzTraversed hl, ← hs, Volume.entryTraversed, he]

theorem mem_traversed {b head : ℕ} {pre : List ℕ} {data : List UInt8} :
    (b ∈ if data = [] then [] else head :: pre.reverse) ↔ data ≠ [] ∧ b ∈ pre ++ [head] := by
  split
  case isTrue h  => simp [h]
  case isFalse h => simp [h, or_comm]

theorem Stored.tracked {bytes : List UInt8} {b : ℕ} (h : Stored cfg v bytes v.entry) (hl : bytes.length < 2 ^ 32)
    (hb : b ∈ v.entryTraversed cfg) : v.Tracked cfg b ∧ b ∉ v.fresh ∧ v.bytes b = v.flash b := by
  cases he : v.entry
  case inline data => simp [Volume.entryTraversed, he] at hb
  case ctz head size =>
    obtain ⟨pre, off, -, -, ht, hm⟩ := h.entryTraversed he hl
    rw [hm, mem_traversed] at hb
    exact ht hb.left b hb.right

theorem Stored.frame {keep : ℕ → Prop} {bytes : List UInt8} (h : Stored cfg v₀ bytes v₀.entry)
    (hl : bytes.length < 2 ^ 32) (hf : Frame cfg keep v₀ v)
    (hk : ∀ b ∈ v₀.entryTraversed cfg, b ∉ v₀.fresh → b < cfg.blockCount → keep b) :
    Stored cfg v bytes v.entry := by
  rw [hf.entry]
  cases he : v₀.entry
  case inline data =>
    rw [he] at h
    exact h
  case ctz head size =>
    obtain ⟨pre, off, hs, hh, hb, hm⟩ := h.entryTraversed he hl
    have hk' (hd : bytes ≠ []) (b : ℕ) (hb' : b ∈ pre ++ [head]) : keep b := by
      refine hk b (by rw [hm, mem_traversed]; exact ⟨hd, hb'⟩) (hb hd b hb').right.left ?_
      exact (hh.resolve_left fun he => hd he.left).left.chain.lt b hb'
    refine ⟨hs, pre, off, hh.congr fun hd b hm => hf.flash b (hk' hd b hm), fun hd b hm => ?_⟩
    obtain ⟨ht, hn, he⟩ := hb hd b hm
    refine ⟨hf.tracked b (hk' hd b hm) ht, fun hm' => hn (hf.new b (hk' hd b hm) hm'), ?_⟩
    rw [hf.bytes b (hk' hd b hm), hf.flash b (hk' hd b hm), he]

theorem Stored.modify {g : LfsFile → LfsFile} {w : Which} {bytes : List UInt8} {s : Struct}
    (h : Stored cfg v bytes s) : Stored cfg (v.modify g w) bytes s := by
  cases w <;> cases s <;> exact h

-- The blocks as of the last flush are those of the directory entry or visited for the file itself.
theorem Chained.mem_traversed {pre : List ℕ} {off b : ℕ} (h : Chained cfg K v f pre off)
    (ha : Agrees v.file f) (he : Stored cfg v f.disk v.entry) (hi : v.file.isInline = false) (hd : f.ctz ≠ [])
    (hb : b ∈ pre ++ [v.file.head]) : b ∈ v.traversed cfg := by
  have ht := h.holds.ctzTraversed (lt_of_le_maxFileSizeBytes ha.size_le)
  rw [← ha.size] at ht
  have hm : b ∈ cfg.ctzTraversed v.bytes v.file.head v.file.size := by
    rw [ht, Littlefs.mem_traversed]
    exact ⟨hd, hb⟩
  cases hdirty : f.dirty
  case true =>
    have hdt : v.dirtyTraversed cfg = cfg.ctzTraversed v.bytes v.file.head v.file.size :=
      if_pos (by rw [ha.dirty, hdirty, hi]; rfl)
    simp [Volume.traversed, hdt, hm]
  case false =>
    have het : v.entryTraversed cfg = cfg.ctzTraversed v.flash v.file.head v.file.size := by
      rw [Volume.entryTraversed, h.clean hdirty]
    have hc := Config.ctzTraversed_congr fun b hb =>
      (he.tracked (lt_of_le_maxFileSizeBytes ha.disk_le) (het ▸ hb)).right.right
    rw [hc, ← het] at hm
    simp [Volume.traversed, hm]

-- The head of the flushed file is the block with its last byte.
theorem Branched.holds {pre : List ℕ} (h : Branched cfg v f pre) (hl : f.branch.length = v.file.pos)
    (hlt : f.branch.length < 2 ^ 32) (hf : HasData cfg v.file) :
    Holds cfg v.bytes pre v.file.block v.file.off f.branch := by
  have hb := h.branch
  rcases hf with hz | ho | ⟨i, hi, hlt⟩
  case inl =>
    have hn : f.branch = [] := List.length_eq_zero_iff.mp (hl.trans hz)
    rw [hn] at hb
    exact .inl ⟨hn, hb.eq_nil.left⟩
  case inr.inl =>
    refine .inr ⟨hb, ?_⟩
    rw [ho]
    exact pointers_lt hb hlt
  case inr.inr =>
    have hl' : Located cfg.blockSize v.file.pos pre.length v.file.off := ⟨hl ▸ hb.eq, hb.le, hi.lt⟩
    refine .inr ⟨hb, ?_⟩
    rw [← (hi.unique hl').left]
    exact hlt

-- The last block of a branch is only found by a traversal if it has data.
theorem Branched.branchTraversed {pre : List ℕ} (h : Branched cfg v f pre) (ha : Agrees v.file f)
    (hi : v.file.isInline = false) (hw : f.writing = true) (hf : Filled cfg v) :
    v.branchTraversed cfg = if f.branch = [] then [] else v.file.block :: pre.reverse := by
  have hl : f.branch.length = v.file.pos := (ha.branch hw).left.trans ha.pos.symm
  have hlt : f.branch.length < 2 ^ 32 := hl ▸ lt_of_le_maxFileSizeBytes (ha.pos ▸ ha.pos_le)
  rw [← (h.holds hl hlt (hf hi).right).ctzTraversed hlt, hl]
  exact if_pos (by rw [ha.writing, hw, hi]; rfl)

theorem Branched.mem_traversed {pre : List ℕ} {b : ℕ} (h : Branched cfg v f pre) (ha : Agrees v.file f)
    (hi : v.file.isInline = false) (hw : f.writing = true) (hf : Filled cfg v) (hd : f.branch ≠ [])
    (hb : b ∈ pre ++ [v.file.block]) : b ∈ v.traversed cfg := by
  have hm : b ∈ v.branchTraversed cfg := by
    rw [h.branchTraversed ha hi hw hf, Littlefs.mem_traversed]
    exact ⟨hd, hb⟩
  simp [Volume.traversed, hm]

theorem Dangling.dirtyTraversed {b : ℕ} (h : Dangling cfg K v f) (ha : Agrees v.file f)
    (hb : b ∈ v.dirtyTraversed cfg) : b = blockInline := by
  have hB := cfg.le_blockSize
  have hm := cfg.inlineMax_le
  have hl := h.length
  unfold Volume.dirtyTraversed Config.ctzTraversed at hb
  split at hb
  case isFalse => contradiction
  case isTrue =>
    split at hb
    case isTrue => contradiction
    case isFalse hs =>
      rw [ha.size] at hs hb
      rw [index_of_lt (by omega), ctzVisited, if_pos rfl, h.head] at hb
      exact List.mem_singleton.mp hb

theorem tracked_blockInline : v.Tracked cfg blockInline :=
  fun hlt => absurd (hlt.trans_le cfg.blockCount_lt) (Nat.lt_irrefl _)

-- A traversal finds blocks of the file system only.
theorem Represents.accounted (h : Represents cfg K v f) (hf : f.writing = true → Filled cfg v) :
    Accounted cfg v := by
  refine ⟨h.inv, fun b hb => ?_⟩
  have ha := h.agrees
  simp only [Volume.traversed, List.mem_append, or_assoc] at hb
  rcases hb with hb | hb | hb | hb
  case inl         => exact h.others b hb
  case inr.inl     => exact (h.entry.tracked (lt_of_le_maxFileSizeBytes ha.disk_le) hb).left
  case inr.inr.inl =>
    cases hi : v.file.isInline
    case true  => simp [Volume.dirtyTraversed, hi] at hb
    case false =>
      rcases h.chained hi with ⟨pre, off, hc⟩ | hd
      case inr => exact hd.dirtyTraversed ha hb ▸ tracked_blockInline
      case inl =>
        have ht := hc.holds.ctzTraversed (lt_of_le_maxFileSizeBytes ha.size_le)
        unfold Volume.dirtyTraversed at hb
        split at hb
        case isFalse => contradiction
        case isTrue  =>
          rw [ha.size, ht, mem_traversed] at hb
          exact (hc.tracked hb.left b hb.right).left
  case inr.inr.inr =>
    cases hi : v.file.isInline
    case true  => simp [Volume.branchTraversed, hi] at hb
    case false =>
      cases hw : f.writing
      case false => simp [Volume.branchTraversed, ha.writing, hw] at hb
      case true  =>
        obtain ⟨pre, hbr⟩ := h.branched hi hw
        rw [hbr.branchTraversed ha hi hw (hf hw), mem_traversed] at hb
        exact hbr.tracked hb.left b hb.right

theorem Inlined.congr (h : Inlined cfg K v₀ f) (hf : v.file = v₀.file) (ho : v.orig = v₀.orig)
    (hb : v.bytes blockInline = v₀.bytes blockInline) : Inlined cfg K v f where
  head           := hf ▸ h.head
  content i a ha := by rw [hb]; exact h.content i a ha
  length         := h.length
  block hw       := hf ▸ h.block hw
  pos_lt         := h.pos_lt
  along          := ho ▸ h.along

theorem Dangling.congr {f' : File.LfsFile} (h : Dangling cfg K v₀ f) (hf : v.file.head = v₀.file.head)
    (ho : v.orig = v₀.orig) (hw : f'.writing = true) (hc : f'.ctz = f.ctz) : Dangling cfg K v f' where
  head    := hf.trans h.head
  writing := hw
  length  := hc ▸ h.length
  along   := ho ▸ h.along

theorem Chained.frame {keep : ℕ → Prop} {pre : List ℕ} {off : ℕ} (h : Chained cfg K v₀ f pre off)
    (hf : Frame cfg keep v₀ v)
    (hk : f.ctz ≠ [] → ∀ b ∈ pre ++ [v₀.file.head], (f.writing = true → b ≠ v₀.file.block) → keep b) :
    Chained cfg K v f pre off := by
  have hk' : f.ctz ≠ [] → ∀ b ∈ pre ++ [v₀.file.head], keep b := fun hd b hb =>
    hk hd b hb (h.tracked hd b hb).right
  refine ⟨?_, ?_, ?_, ?_, ?_, ?_⟩ <;> rw [hf.file]
  case refine_1 => exact h.holds.congr fun hd b hb => hf.bytes b (hk' hd b hb)
  case refine_2 =>
    exact fun hd b hb => ⟨hf.tracked b (hk' hd b hb) (h.tracked hd b hb).left, (h.tracked hd b hb).right⟩
  case refine_3 => exact hf.entry ▸ h.clean
  case refine_4 =>
    intro hw hd b hb
    rw [hf.flash b (hk' hd b hb), hf.bytes b (hk' hd b hb)]
    exact h.flushed hw hd b hb
  case refine_5 => exact h.reading
  case refine_6 => exact hf.orig ▸ h.along

-- Writing to other blocks does not change what a file stands for.
theorem Represents.frame (h : Represents cfg K v₀ f) (hfill : f.writing = true → Filled cfg v₀)
    (hf : Frame cfg (v₀.Kept cfg) v₀ v) : Represents cfg K v f where
  asserted    := hf.asserted.trans h.asserted
  inv         := hf.inv h.inv
  others b hb := by
    rw [hf.others] at hb
    exact hf.tracked b (.inl (by simp [Volume.traversed, hb])) (h.others b hb)
  agrees      := hf.file ▸ h.agrees
  entry       := h.entry.frame (lt_of_le_maxFileSizeBytes h.agrees.disk_le) hf fun b hb _ _ =>
    .inl (by simp [Volume.traversed, hb])
  inlined hi  := (h.inlined (hf.file ▸ hi)).congr hf.file hf.orig (hf.bytes _ (.inr rfl))
  chained hi  := by
    have hi : v₀.file.isInline = false := hf.file ▸ hi
    refine (h.chained hi).imp ?_ fun hd => hd.congr (congrArg _ hf.file) hf.orig hd.writing rfl
    rintro ⟨pre, off, hc⟩
    exact ⟨pre, off, hc.frame hf fun hd b hb _ => .inl (hc.mem_traversed h.agrees h.entry hi hd hb)⟩
  branched hi hw := by
    have hi : v₀.file.isInline = false := hf.file ▸ hi
    obtain ⟨pre, hb⟩ := h.branched hi hw
    have hk (hd : f.branch ≠ []) (b : ℕ) (hm : b ∈ pre ++ [v₀.file.block]) : v₀.Kept cfg b :=
      .inl (hb.mem_traversed h.agrees hi hw (hfill hw) hd hm)
    refine ⟨pre, ?_, ?_, ?_⟩ <;> rw [hf.file]
    case refine_1 => exact hb.branch.congr_of_ne fun hd b hm => hf.bytes b (hk hd b hm)
    case refine_2 => exact hf.fresh _ hb.fresh
    case refine_3 => exact fun hd b hm => hf.tracked b (hk hd b hm) (hb.tracked hd b hm)

section

variable {nblock n : ℕ}

-- What is in front of the offset of the file.
def Volume.source (v : Volume) : ℕ → UInt8 :=
  v.bytes (if v.file.isInline then blockInline else v.file.block)

-- What is in front of the offset is also in a new block.
structure Moved (cfg : Config) (v₀ v : Volume) (nblock : ℕ) : Prop extends Prepared cfg v₀ v nblock where
  bytes  : ∀ j < v₀.file.off, v.bytes nblock j = v₀.source j
  pcache : v.caches .pcache = none
  cache  : v.caches .file = cfg.caught nblock v₀.file.off

theorem Volume.source_eq {keep : ℕ → Prop} (hf : Frame cfg keep v₀ v) (hi : keep blockInline)
    (hk : v₀.file.isInline = false → keep v₀.file.block) : v.source = v₀.source := by
  rw [Volume.source, Volume.source, hf.file]
  cases hin : v₀.file.isInline
  case true  => exact hf.bytes _ hi
  case false => exact hf.bytes _ (hk hin)

theorem Moved.of_prepared {v₁ : Volume} {b : ℕ} (h : Moved cfg v v₁ nblock) (hp : Prepared cfg v₀ v b)
    (hk : v₀.file.isInline = false → 0 < v₀.file.off → v₀.Kept cfg v₀.file.block) : Moved cfg v₀ v₁ nblock :=
  { h.toPrepared.of_prepared hp with
    bytes  := fun j hj => by
      rw [h.bytes j (hp.frame.file ▸ hj), Volume.source_eq hp.frame (.inr rfl) fun hi => hk hi (by omega)]
    pcache := h.pcache
    cache  := by rw [h.cache, hp.frame.file] }

theorem does_relocateInto (hb : nblock ∈ v₀.fresh) (hlt : nblock < cfg.blockCount)
    (hs : v₀.file.off ≤ cfg.blockSize)
    (hne : v₀.file.isInline = false → 0 < v₀.file.off → v₀.file.block ≠ nblock) (hc : v₀.caches .pcache = none) :
    FallibleHoare (exec cfg faults) (fun v => v = v₀) (relocateInto nblock)
      (fun ok v => Written .pcache nblock v₀ v ∧ (ok = true → v.caches .pcache = cfg.caught nblock v₀.file.off ∧
        ∀ j < v₀.file.off, v.bytes nblock j = v₀.source j))
      fun _ => Written .pcache nblock v₀ := by
  refine FallibleHoare.bind (I := fun file v => file = v₀.file ∧ v = v₀)
    (does_load fun v hv => ⟨by rw [hv]; rfl, hv⟩) fun file => .and_left fun he => ?_
  subst he
  refine FallibleHoare.bind (I := fun _ v => Written .pcache nblock v₀ v ∧ v.caches .pcache = none)
    (does_orRelocate (F := fun _ v => Written .pcache nblock v₀ v ∧ v.caches .pcache = none) (does_erase ?_ ?_ ?_)
    (fun _ h => h) fun _ _ h => h.left) fun ok => ?_
  case refine_1 => rintro _ rfl; exact ⟨hb, hlt⟩
  case refine_2 => rintro _ row flashRow rfl; exact ⟨.setBlock, hc⟩
  case refine_3 => rintro _ e row flashRow rfl; exact ⟨.setBlock, hc⟩
  cases ok
  case false => exact .pure fun v hv => ⟨hv.left, fun h => absurd h Bool.false_ne_true⟩
  case true  =>
    rcases Nat.eq_zero_or_pos v₀.file.off with hz | hpos
    case inl =>
      rw [hz]
      exact .pure fun v hv => ⟨hv.left, fun _ => ⟨hv.right.trans caught_zero.symm, fun j hj =>
        absurd hj (Nat.not_lt_zero j)⟩⟩
    case inr =>
      have hr : Reads cfg faults .pcache
          (if v₀.file.isInline then (readInline · 1) else (bdRead v₀.file.block · 1)) nblock v₀
          v₀.source := by
        unfold Volume.source
        cases hi : v₀.file.isInline
        case false => exact reads_bdRead (hne hi hpos)
        case true  =>
          refine fun P i hP => does_readInline fun v hv => ⟨?_, hv⟩
          simp [Volume.view, (hP v hv).bytes (hlt.trans_le cfg.blockCount_lt).ne']
      refine (does_copyBytes hb hlt (by omega) hr).weaken
        (fun v hv => ⟨hv.left, hv.right.trans caught_zero.symm, fun _ hk => absurd hk (Nat.not_lt_zero _)⟩)
        (fun ok v hv => ?_) fun _ _ h => h
      rwa [Nat.zero_add] at hv

-- The block of the file is replaced by a new one.
theorem does_fileRelocate (ha : Accounted cfg v₀) (hs : v₀.file.off ≤ cfg.blockSize)
    (hk : v₀.file.isInline = false → 0 < v₀.file.off → v₀.Kept cfg v₀.file.block)
    (hc : v₀.caches .pcache = none) (hn : v₀.available cfg < n) :
    FallibleHoare (exec cfg faults) (fun v => v = v₀) (fileRelocate n)
      (fun _ v => ∃ v₁ nblock, Moved cfg v₀ v₁ nblock ∧
        v = v₁.modify ({ · with block := nblock, writing := true }) .file)
      fun _ => Frame cfg (v₀.Kept cfg) v₀ := by
  induction n generalizing v₀
  case zero => exact absurd hn (Nat.not_lt_zero _)
  case succ n hi =>
    refine FallibleHoare.bind (I := fun b v => Allocated cfg v₀ v b)
      (does_alloc ?_ ?_ ?_) fun nblock => does_of_eq fun v₁ hal => ?_
    case refine_1 => rintro _ rfl; exact ha
    case refine_2 => rintro _ v b rfl hv; exact hv
    case refine_3 => rintro _ v e rfl hv; exact hv
    have hfile := hal.frame.file
    have hsrc : v₁.source = v₀.source := by
      rw [Volume.source, Volume.source, hfile, hal.bytes]
    refine FallibleHoare.bind ((does_relocateInto hal.fresh hal.lt (hfile ▸ hs) ?_ (hal.caches ▸ hc)).weaken_error
      fun _ v hv => (Prepared.written hal hv).frame) fun ok => ?_
    case refine_1 =>
      rw [hfile]
      exact fun hi hpos => (hk hi hpos).ne hal.new hal.lt
    cases ok
    case true =>
      refine FallibleHoare.bind (I := fun _ v => Moved cfg v₀ v nblock) (does_cacheHandOver fun v hv => ?_)
        fun _ => does_update fun v hv => ⟨v, nblock, hv, rfl⟩
      obtain ⟨hw, hcopied⟩ := hv
      obtain ⟨hcache, hbytes⟩ := hcopied rfl
      rw [hfile] at hcache hbytes
      refine { (Prepared.written hal hw).setCache.setCache with
        bytes  := hsrc ▸ hbytes
        pcache := setCache_caches
        cache  := by simpa using hcache }
    case false =>
      refine FallibleHoare.bind (I := fun _ v => Written .pcache nblock v₁ v ∧ v.caches .pcache = none)
        (does_cacheDrop fun v hv => ⟨hv.left.drop, setCache_caches⟩) fun _ => does_of_eq fun v hv => ?_
      have hp := Prepared.written hal hv.left
      have hf := hp.frame
      have hav := hp.available_lt
      refine (hi (ha.frame hf) (hf.file ▸ hs) (fun hi hpos => ?_) hv.right (by omega)).weaken (fun _ h => h)
        (fun _ v' hv' => ?_) fun _ v' hv' => ?_
      case refine_1 =>
        rw [hf.file] at hi hpos ⊢
        exact (hk hi hpos).frame hf
      case refine_2 =>
        obtain ⟨v₁, b, hm, he⟩ := hv'
        exact ⟨v₁, b, hm.of_prepared hp hk, he⟩
      case refine_3 => exact hf.trans (hv'.mono fun _ h => h.frame hf)

variable {data : List UInt8}

-- The first write since the last flush keeps what is in front of the position.
def started (f : File.LfsFile) : File.LfsFile :=
  if f.writing then f else { f with branch := f.ctz.take f.pos, writing := true }

def put (f : File.LfsFile) (data : List UInt8) : File.LfsFile :=
  { f with branch := f.branch ++ data, pos := f.pos + data.length }

def marked (f : File.LfsFile) : File.LfsFile :=
  { f with erred := true }

theorem Represents.off_le (h : Represents cfg K v f) (hi : v.file.isInline = false) (hw : f.writing = true) :
    v.file.off ≤ cfg.blockSize :=
  have ⟨_, hb⟩ := h.branched hi hw
  hb.branch.off_le

-- A traversal finds the block that is written to if it has data.
theorem Represents.kept_block (h : Represents cfg K v f) (hf : f.writing = true → Filled cfg v)
    (hi : v.file.isInline = false) (hw : f.writing = true) (ho : 0 < v.file.off) : v.Kept cfg v.file.block := by
  obtain ⟨pre, hb⟩ := h.branched hi hw
  refine .inl (hb.mem_traversed h.agrees hi hw (hf hw) (fun hn => ?_)
    (List.mem_append_right _ (List.mem_singleton.mpr rfl)))
  have hbr := hb.branch
  rw [hn] at hbr
  exact absurd hbr.eq_nil.right ho.ne'

-- The block that is written to may be replaced.
theorem Represents.moved {v₁ : Volume} (h : Represents cfg K v f) (hfill : f.writing = true → Filled cfg v)
    (hi : v.file.isInline = false) (hw : f.writing = true) (hm : Moved cfg v v₁ nblock) :
    Represents cfg K (v₁.modify ({ · with block := nblock, writing := true }) .file) f := by
  have hf := hm.frame
  have h₁ := h.frame hfill hf
  have hi₁ : v₁.file.isInline = false := hf.file ▸ hi
  refine ⟨h₁.asserted, h₁.inv, h₁.others, ?_, h₁.entry.modify, fun hi' => ?_, fun _ => ?_, fun _ _ => ?_⟩
  case refine_1 => exact { h₁.agrees with writing := hw.symm }
  case refine_2 => exact absurd (hi₁.symm.trans hi') (by simp)
  case refine_3 =>
    refine (h.chained hi).imp ?_ fun hd => hd.congr (congrArg (·.head) hf.file :) hf.orig hw rfl
    rintro ⟨pre, off, hc⟩
    have hk (hd : f.ctz ≠ []) (b : ℕ) (hb : b ∈ pre ++ [v.file.head]) : v.Kept cfg b :=
      .inl (hc.mem_traversed h.agrees h.entry hi hd hb)
    have hc₁ := hc.frame hf fun hd b hb _ => hk hd b hb
    refine ⟨pre, off, hc₁.holds, fun hd b hb => ⟨(hc₁.tracked hd b hb).left, fun _ => ?_⟩, hc₁.clean, ?_, ?_,
      hc₁.along⟩
    case refine_1 => exact hm.ne (hk hd b (hf.file ▸ hb))
    case refine_2 => exact fun hw' => absurd (hw.symm.trans hw') (by simp)
    case refine_3 => exact fun hr => absurd ((h.agrees.branch hw).right.symm.trans hr) (by simp)
  case refine_4 =>
    obtain ⟨pre, hb⟩ := h.branched hi hw
    have hk (hd : f.branch ≠ []) (b : ℕ) (hm : b ∈ pre ++ [v.file.block]) : v.Kept cfg b :=
      .inl (hb.mem_traversed h.agrees hi hw (hfill hw) hd hm)
    have hp (b : ℕ) (hm' : b ∈ pre) : v.Kept cfg b := by
      refine hk (fun hn => ?_) b (List.mem_append_left _ hm')
      have hbr := hb.branch
      rw [hn] at hbr
      rw [hbr.eq_nil.left] at hm'
      contradiction
    have hbr : Branch cfg v₁.bytes pre nblock v.file.off f.branch :=
      hb.branch.copy (fun b hm' => hf.bytes b (hp b hm'))
        (fun j hj => by rw [hm.bytes j hj, Volume.source, hi]; rfl) hm.lt fun hm' => hm.ne (hp _ hm') rfl
    refine ⟨pre, by rw [← hf.file] at hbr; exact hbr, hm.fresh, fun hd b hb' => ?_⟩
    rcases List.mem_append.mp hb' with hb' | hb'
    case inl => exact hf.tracked b (hp b hb') (hb.tracked hd b (List.mem_append_left _ hb'))
    case inr =>
      have he : b = nblock := List.mem_singleton.mp hb'
      subst he
      exact hm.tracked

-- What the branch has when the writing begins is in front of the position.
theorem content_started (ha : Agrees v.file f) (hp : f.writing = false → f.pos ≤ f.ctz.length) :
    (started f).branch.length = f.pos ∧ ∃ rest, f.content = (started f).branch ++ rest := by
  unfold started File.LfsFile.content
  cases hw : f.writing
  case false =>
    simp only [Bool.false_eq_true, reduceIte, List.length_take]
    exact ⟨Nat.min_eq_left (hp hw), _, (List.take_append_drop ..).symm⟩
  case true =>
    simp only [reduceIte]
    exact ⟨(ha.branch hw).left, _, rfl⟩

theorem Agrees.started {file : LfsFile} (h : Agrees file f) (hr : f.reading = false)
    (hp : f.writing = false → f.pos ≤ f.ctz.length) : Agrees { file with writing := true } (started f) := by
  unfold Littlefs.started
  cases hw : f.writing
  case true  => exact { h with writing := hw.symm }
  case false =>
    exact { h with
      writing := rfl
      branch  := fun _ => ⟨by simpa using hp hw, hr⟩ }

theorem writing_started : (started f).writing = true := by
  unfold started
  split <;> simp_all

theorem disk_started : (started f).disk = f.disk := by
  unfold started
  split <;> rfl

theorem ctz_started : (started f).ctz = f.ctz := by
  unfold started
  split <;> rfl

theorem dirty_started : (started f).dirty = f.dirty := by
  unfold started
  split <;> rfl

theorem pos_started : (started f).pos = f.pos := by
  unfold started
  split <;> rfl

theorem reading_started : (started f).reading = f.reading := by
  unfold started
  split <;> rfl

-- An inline file becomes a file whose first block is written to.
theorem Represents.outlined {v₁ : Volume} (h : Represents cfg K v f) (hi : v.file.isInline = true)
    (hr : f.reading = false) (hp : f.writing = false → f.pos ≤ f.ctz.length) (ho : v.file.off = f.pos)
    (hm : Moved cfg v v₁ nblock) :
    Represents cfg K ((v₁.modify ({ · with block := nblock, writing := true }) .file).modify
      ({ · with isInline := false }) .file) (started f) := by
  have hf := hm.frame
  have hin := h.inlined hi
  have hB := cfg.inlineMax_le
  have hl := hin.length
  obtain ⟨hlen, rest, hc⟩ := content_started h.agrees hp
  have ha := h.agrees.started hr hp
  have h₁ := h.frame (fun _ hi' => absurd (hi.symm.trans hi') (by simp)) hf
  have hpre : (started f).branch.length ≤ f.content.length := by simp [hc]
  refine ⟨h₁.asserted, h₁.inv, h₁.others, ?_, ?_, fun hi' => absurd hi' Bool.false_ne_true,
    fun _ => .inr ⟨?_, writing_started, ?_, hf.orig ▸ hin.along⟩, fun _ _ => ⟨[], ?_, hm.fresh, ?_⟩⟩
  case refine_1 =>
    change Agrees { v₁.file with block := nblock, writing := true, isInline := false } (started f)
    rw [hf.file]
    exact { ha with }
  case refine_2 =>
    rw [disk_started]
    exact h₁.entry.modify.modify
  case refine_3 =>
    change v₁.file.head = blockInline
    rw [hf.file]
    exact hin.head
  case refine_4 =>
    rw [ctz_started]
    refine Nat.le_trans ?_ hl
    unfold File.LfsFile.content
    split
    case isTrue hw =>
      have := (h.agrees.branch hw).left
      simp only [List.length_append, List.length_drop]
      omega
    case isFalse => exact Nat.le_refl _
  case refine_5 =>
    change Branch cfg v₁.bytes [] nblock v₁.file.off (started f).branch
    have ho' : v₁.file.off = (started f).branch.length := by rw [hf.file, hlen, ho]
    rw [ho']
    refine .first hm.lt (by omega) fun i a ha => ?_
    have hlt := (List.getElem?_eq_some_iff.mp ha).choose
    rw [hm.bytes i (by rw [← hf.file, ho']; exact hlt)]
    simp only [Volume.source, hi, reduceIte]
    exact hin.content i a (by rw [hc, List.getElem?_append_left hlt, ha])
  case refine_6 =>
    intro _ b hb
    have he : b = nblock := List.mem_singleton.mp hb
    subst he
    exact hm.tracked

-- What is behind the offset in the block that is written to does not matter.
theorem Represents.setBlock {row flashRow : ℕ → UInt8} (h : Represents cfg K v f) (hi : v.file.isInline = false)
    (hw : f.writing = true) (hrow : ∀ j < v.file.off, row j = v.bytes v.file.block j) :
    Represents cfg K (v.setBlock v.file.block row flashRow) f := by
  obtain ⟨pre, hb⟩ := h.branched hi hw
  have hf : Frame cfg (· ≠ v.file.block) v (v.setBlock v.file.block row flashRow) := .setBlock
  refine ⟨h.asserted, h.inv, h.others, h.agrees, ?_, fun hi' => absurd (hi.symm.trans hi') (by simp),
    fun _ => ?_, fun _ _ => ?_⟩
  case refine_1 =>
    exact h.entry.frame (lt_of_le_maxFileSizeBytes h.agrees.disk_le) hf fun b _ hn _ he => hn (he ▸ hb.fresh)
  case refine_2 =>
    refine (h.chained hi).imp ?_ fun hd => hd.congr rfl rfl hw rfl
    exact fun ⟨pre, off, hc⟩ => ⟨pre, off, hc.frame hf fun _ _ _ hn => hn hw⟩
  case refine_3 =>
    have hnd := List.nodup_append.mp hb.branch.nodup
    have hn : v.file.block ∉ pre := fun hm => hnd.right.right _ hm _ (List.mem_singleton.mpr rfl) rfl
    refine ⟨pre, hb.branch.copy (fun b hm => hf.bytes b fun he => hn (he ▸ hm)) (fun j hj => ?_)
      (hb.branch.chain.lt _ (List.mem_append_right _ (List.mem_singleton.mpr rfl))) hn, hb.fresh, hb.tracked⟩
    change (v.setBlock v.file.block row flashRow).bytes v.file.block j = _
    rw [setBlock_bytes]
    exact hrow j hj

def advance (n : ℕ) (file : LfsFile) : LfsFile :=
  { file with pos := file.pos + n, off := file.off + n }

theorem Agrees.wrote {file : LfsFile} (h : Agrees file f) (hl : f.pos + data.length ≤ maxFileSizeBytes) :
    Agrees (advance data.length file) (put f data) :=
  { h with
    pos    := congrArg (· + data.length) h.pos
    pos_le := hl
    branch := fun hw => ⟨by simp [put, (h.branch hw).left], (h.branch hw).right⟩ }

-- Bytes are added to the block that is written to.
theorem Represents.wrote {flashRow : ℕ → UInt8} (h : Represents cfg K v f) (hi : v.file.isInline = false)
    (hw : f.writing = true) (ht : v.Tracked cfg v.file.block) (hle : v.file.off + data.length ≤ cfg.blockSize)
    (hl : f.pos + data.length ≤ maxFileSizeBytes) :
    Represents cfg K ((v.setBlock v.file.block (overwrite (v.bytes v.file.block) v.file.off data) flashRow).modify
      (advance data.length) .file) (put f data) := by
  obtain ⟨pre, hb⟩ := h.branched hi hw
  have h' : Represents cfg K
      (v.setBlock v.file.block (overwrite (v.bytes v.file.block) v.file.off data) flashRow) f :=
    h.setBlock hi hw fun j hj => overwrite_of_lt hj
  have hf : Frame cfg (· ≠ v.file.block) v
      (v.setBlock v.file.block (overwrite (v.bytes v.file.block) v.file.off data) flashRow) := .setBlock
  refine ⟨h'.asserted, h'.inv, h'.others, h.agrees.wrote hl, h'.entry.modify,
    fun hi' => absurd (hi.symm.trans hi') (by simp), fun _ => ?_, fun _ _ => ?_⟩
  case refine_1 =>
    refine (h'.chained hi).imp ?_ fun hd => hd.congr rfl rfl hw rfl
    exact fun ⟨pre, off, hc⟩ => ⟨pre, off, hc.holds, hc.tracked, hc.clean, hc.flushed, fun hr =>
      absurd ((h.agrees.branch hw).right.symm.trans hr) (by simp), hc.along⟩
  case refine_2 =>
    have hnd := List.nodup_append.mp hb.branch.nodup
    refine ⟨pre, hb.branch.write (fun b hm => ?_) ?_ hle, hb.fresh, fun _ b hm => ?_⟩
    case refine_1 =>
      exact hf.bytes b fun he => hnd.right.right _ hm _ (List.mem_singleton.mpr rfl) he
    case refine_2 => exact Function.update_self ..
    case refine_3 =>
      rcases List.mem_append.mp hm with hm | hm
      case inr => exact List.mem_singleton.mp hm ▸ ht
      case inl =>
        refine hb.tracked (fun hn => ?_) b (List.mem_append_left _ hm)
        have hbr := hb.branch
        rw [hn] at hbr
        rw [hbr.eq_nil.left] at hm
        contradiction

-- An inline file is written to in its cache.
theorem Represents.wrote_inline (h : Represents cfg K v f) (hi : v.file.isInline = true) (hw : f.writing = true)
    (hle : max (f.pos + data.length) f.ctz.length ≤ cfg.inlineMax)
    (hl : f.pos + data.length ≤ maxFileSizeBytes) :
    Represents cfg K ((v.setBlock blockInline (overwrite (v.bytes blockInline) v.file.off data)
      (v.flash blockInline)).modify (advance data.length) .file) (put f data) := by
  have hin := h.inlined hi
  obtain ⟨hblock, hoff⟩ := hin.block (.inl hw)
  have hlen := (h.agrees.branch hw).left
  have hc : f.content = f.branch ++ f.ctz.drop f.pos := if_pos hw
  have hc' : (put f data).content = f.branch ++ data ++ f.ctz.drop (f.pos + data.length) := if_pos hw
  refine ⟨h.asserted, h.inv, h.others, h.agrees.wrote hl, ?_, fun _ => ⟨hin.head, ?_, ?_, fun _ => ⟨hblock, ?_⟩,
      fun hr => absurd ((h.agrees.branch hw).right.symm.trans hr) (by simp), hin.along⟩,
    fun hi' => absurd (hi.symm.trans hi') (by simp), fun hi' => absurd (hi.symm.trans hi') (by simp)⟩
  case refine_1 =>
    have hs : Stored cfg (v.setBlock blockInline (overwrite (v.bytes blockInline) v.file.off data)
        (v.flash blockInline)) f.disk v.entry :=
      h.entry.frame (lt_of_le_maxFileSizeBytes h.agrees.disk_le) .setBlock fun b _ _ hlt =>
        (hlt.trans_le cfg.blockCount_lt).ne
    exact hs.modify
  case refine_2 =>
    intro i a ha
    refine (congrFun (Function.update_self blockInline (overwrite (v.bytes blockInline) v.file.off data) v.bytes)
      i).trans ?_
    rw [hoff]
    rw [hc', List.append_assoc] at ha
    rcases Nat.lt_or_ge i f.pos with hlt | hge
    case inl =>
      rw [List.getElem?_append_left (by omega)] at ha
      rw [overwrite_of_lt hlt]
      exact hin.content i a (by rw [hc, List.getElem?_append_left (by omega), ha])
    case inr =>
      obtain ⟨j, rfl⟩ := Nat.exists_eq_add_of_le hge
      rw [List.getElem?_append_right (by omega), hlen, Nat.add_sub_cancel_left] at ha
      rcases Nat.lt_or_ge j data.length with hj | hj
      case inl =>
        rw [List.getElem?_append_left hj] at ha
        exact overwrite_add ha
      case inr =>
        rw [List.getElem?_append_right hj, List.getElem?_drop] at ha
        rw [overwrite_of_le (by omega)]
        refine hin.content _ a ?_
        rw [hc, List.getElem?_append_right (by omega), hlen, List.getElem?_drop, ← ha]
        congr 1
        omega
  case refine_3 =>
    rw [hc']
    simp only [List.length_append, List.length_drop]
    omega
  case refine_4 => exact congrArg (· + data.length) hoff

theorem does_orErred {α : Type} {P : Volume → Prop} {p : Lfs α} {Q : α → Volume → Prop}
    {R R' : LfsError → Volume → Prop} (h : FallibleHoare (exec cfg faults) P p Q R)
    (hr : ∀ e v, R e v → R' e (v.modify ({ · with erred := true }) .file)) :
    FallibleHoare (exec cfg faults) P (orErred p) Q R' := by
  refine Hoare.bind h fun r => ?_
  cases r
  case ok      => exact .pure fun _ h => h
  case error e =>
    refine FallibleHoare.bind (I := fun _ => R' e) (does_update (hr e)) fun _ => ?_
    exact .throw fun _ h => h

theorem Represents.marked (h : Represents cfg K v f) :
    Represents cfg K (v.modify ({ · with erred := true }) .file) (marked f) where
  asserted    := h.asserted
  inv         := h.inv
  others      := h.others
  agrees      := { h.agrees with erred := rfl }
  entry       := h.entry.modify
  inlined hi  := { h.inlined hi with }
  chained hi  := (h.chained hi).imp (fun ⟨pre, off, hc⟩ => ⟨pre, off, { hc with }⟩) fun hd => { hd with }
  branched hi hw := (h.branched hi hw).imp fun _ hb => { hb with }

-- The block does not matter before the file is read or written.
theorem Represents.setFileBlock {b : ℕ} (h : Represents cfg K v f) (hr : f.reading = false)
    (hw : f.writing = false) :
    Represents cfg K (v.modify ({ · with block := b }) .file) f where
  asserted    := h.asserted
  inv         := h.inv
  others      := h.others
  agrees      := { h.agrees with }
  entry       := h.entry.modify
  inlined hi  := { h.inlined hi with block := by simp [hr, hw] }
  chained hi  := by
    refine (h.chained hi).imp (fun ⟨pre, off, hc⟩ => ⟨pre, off, ?_⟩) fun hd => { hd with }
    exact { hc with
      tracked := fun hd b hb => ⟨(hc.tracked hd b hb).left, by simp [hw]⟩
      reading := by simp [hr] }
  branched _ hw' := absurd (hw.symm.trans hw') (by simp)

-- A file is written to behind what is in front of its position.
theorem Represents.extended {pre : List ℕ} {head off : ℕ} (h : Represents cfg K v₀ f)
    (hfill : f.writing = true → Filled cfg v₀) (hi : v₀.file.isInline = false) (hr : f.reading = false)
    (hp : f.writing = false → f.pos ≤ f.ctz.length) (hn : Prepared cfg v₀ v nblock)
    (hpre : (started f).branch ≠ [] → ∀ b ∈ pre ++ [head], b ∈ v₀.traversed cfg)
    (he : Extended cfg v.bytes pre head nblock off (started f).branch) :
    Represents cfg K (v.modify ({ · with block := nblock, off := off, writing := true }) .file) (started f) := by
  have hf := hn.frame
  have h₁ := h.frame hfill hf
  have hi₁ : v.file.isInline = false := hf.file ▸ hi
  obtain ⟨pre', hb, -, hm⟩ := he
  refine ⟨h₁.asserted, h₁.inv, h₁.others, ?_, ?_, fun hi' => absurd (hi₁.symm.trans hi') (by simp), fun _ => ?_,
    fun _ _ => ⟨pre', hb, hn.fresh, fun _ b hb => ?_⟩⟩
  case refine_1 => exact { h₁.agrees.started hr hp with }
  case refine_2 =>
    rw [disk_started]
    exact h₁.entry.modify
  case refine_3 =>
    refine (h.chained hi).imp ?_ fun hd =>
      hd.congr (congrArg (·.head) hf.file :) hf.orig writing_started ctz_started
    rintro ⟨pre, off, hc⟩
    have hk (hd : f.ctz ≠ []) (b : ℕ) (hb : b ∈ pre ++ [v₀.file.head]) : v₀.Kept cfg b :=
      .inl (hc.mem_traversed h.agrees h.entry hi hd hb)
    have hc₁ := hc.frame hf fun hd b hb _ => hk hd b hb
    refine ⟨pre, off, ?_, fun hd b hb => ?_, ?_, fun hw => ?_, fun hr' => ?_, hc₁.along⟩
    case refine_1 =>
      rw [ctz_started]
      exact hc₁.holds
    case refine_2 =>
      rw [ctz_started] at hd
      exact ⟨(hc₁.tracked hd b hb).left, fun _ => hn.ne (hk hd b (hf.file ▸ hb))⟩
    case refine_3 =>
      rw [dirty_started]
      exact hc₁.clean
    case refine_4 => exact absurd (writing_started.symm.trans hw) (by simp)
    case refine_5 =>
      rw [reading_started] at hr'
      exact absurd (hr.symm.trans hr') (by simp)
  case refine_4 =>
    rcases List.mem_append.mp hb with hb | hb
    case inl =>
      have hb := hpre (hm b hb).left b (hm b hb).right
      exact hf.tracked b (.inl hb) ((h.accounted hfill).tracked b hb)
    case inr =>
      have he : b = nblock := List.mem_singleton.mp hb
      subst he
      exact hn.tracked

-- The block of a file that is followed by the one that is going to be written to.
def Found (cfg : Config) (v : Volume) (f : File.LfsFile) : Prop :=
  ∃ pre off, Holds cfg v.bytes pre v.file.block off (started f).branch ∧
    ((started f).branch ≠ [] → ∀ b ∈ pre ++ [v.file.block], b ∈ v.traversed cfg)

-- A traversal does not look at the block of a file that is not written to.
theorem traversed_modify_block {b : ℕ} (hw : v.file.writing = false) :
    (v.modify ({ · with block := b }) .file).traversed cfg = v.traversed cfg := by
  have hb : v.branchTraversed cfg = [] := if_neg (by simp [hw])
  have hb' : (v.modify ({ · with block := b }) .file).branchTraversed cfg = [] :=
    if_neg (by simp [Volume.modify, hw])
  rw [Volume.traversed, Volume.traversed, hb, hb']
  rfl

theorem Represents.setCache {cache : Cache} {c : Option (ℕ × ℕ)} (h : Represents cfg K v f) :
    Represents cfg K (v.setCache cache c) f where
  asserted       := h.asserted
  inv            := h.inv
  others         := h.others
  agrees         := h.agrees
  entry          := h.entry
  inlined hi     := { h.inlined hi with }
  chained hi     := (h.chained hi).imp (fun ⟨pre, off, hc⟩ => ⟨pre, off, { hc with }⟩) fun hd => { hd with }
  branched hi hw := (h.branched hi hw).imp fun _ hb => { hb with }

theorem Cached.full (h : Cached cfg v) (ha : Agrees v.file f) (hi : v.file.isInline = false)
    (hr : f.reading = false) (hfull : f.writing = true → v.file.off = cfg.blockSize) : v.caches .file = none := by
  cases hw : f.writing
  case false => exact h.idle hi (ha.writing.trans hw) (ha.reading.trans hr)
  case true  => rw [h.writing hi (ha.writing.trans hw), hfull hw, caught_blockSize]

theorem Cached.congr (h : Cached cfg v₀) (hf : v.file = v₀.file) (hc : v.caches = v₀.caches) : Cached cfg v := by
  obtain ⟨hp, hi, hw, hn⟩ := h
  exact ⟨hc ▸ hp, hf ▸ hc ▸ hi, hf ▸ hc ▸ hw, hf ▸ hc ▸ hn⟩

theorem Cached.ckpoint (h : Cached cfg v) : Cached cfg (v.ckpoint cfg) :=
  ⟨h.pcache, h.inlined, h.writing, h.idle⟩

theorem Cached.of_none (hp : v.caches .pcache = none) (hi : v.file.isInline = false) (hw : v.file.writing = false)
    (hc : v.caches .file = none) : Cached cfg v where
  pcache       := hp
  inlined hi'  := absurd (hi.symm.trans hi') (by simp)
  writing _ hw' := absurd (hw.symm.trans hw') (by simp)
  idle _ _ _   := hc

-- The file is written to, and the offset is where its cache ends.
theorem Cached.written {g : LfsFile → LfsFile} (hp : v.caches .pcache = none) (hi : (g v.file).isInline = false)
    (hc : v.caches .file = cfg.caught (g v.file).block (g v.file).off) (hw : (g v.file).writing = true) :
    Cached cfg (v.modify g .file) where
  pcache       := hp
  inlined hi'  := absurd (hi.symm.trans hi') (by simp)
  writing _ _  := hc
  idle _ hw' _ := absurd (hw.symm.trans hw') (by simp)

theorem Cached.of_inline (hp : v.caches .pcache = none) (hi : v.file.isInline = true)
    (hc : v.caches .file = some (blockInline, 0)) : Cached cfg v where
  pcache       := hp
  inlined _    := hc
  writing hi'  := absurd (hi.symm.trans hi') (by simp)
  idle hi'     := absurd (hi.symm.trans hi') (by simp)

-- The block of a branch is the one that is found already.
theorem Represents.found (h : Represents cfg K v f) (hfill : f.writing = true → Filled cfg v)
    (hi : v.file.isInline = false) (hfull : f.writing = true → v.file.off = cfg.blockSize)
    (hn : f.writing = false → f.pos = 0) : Found cfg v f := by
  cases hw : f.writing
  case true =>
    obtain ⟨pre, hb⟩ := h.branched hi hw
    have hbr : (started f).branch = f.branch := by simp [started, hw]
    rw [Found, hbr]
    refine ⟨pre, v.file.off, .inr ⟨hb.branch, ?_⟩, fun hd b hm =>
      hb.mem_traversed h.agrees hi hw (hfill hw) hd hm⟩
    rw [hfull hw]
    refine pointers_lt hb.branch ?_
    rw [(h.agrees.branch hw).left]
    exact lt_of_le_maxFileSizeBytes h.agrees.pos_le
  case false =>
    have hbr : (started f).branch = [] := by simp [started, hw, hn hw]
    exact ⟨[], 0, .inl ⟨hbr, rfl⟩, fun hne => absurd hbr hne⟩

-- The block in front of the position is found in the list of a file that is not written to.
theorem Represents.found_block {j off : ℕ} {b : ℕ} {pre : List ℕ} (h : Represents cfg K v f)
    (hi : v.file.isInline = false) (hw : f.writing = false) (hz : 0 < f.pos) (hle : f.pos ≤ f.ctz.length)
    (hch : Chained cfg K v f pre off) {o : ℕ} (hl : Located cfg.blockSize (f.pos - 1) j o)
    (hj : (pre ++ [v.file.head])[j]? = some b) : Found cfg (v.modify ({ · with block := b }) .file) f := by
  have hne : f.ctz ≠ [] := List.ne_nil_of_length_pos (by omega)
  obtain ⟨hb, -⟩ := hch.holds.resolve_left fun he => hne he.left
  have hbr : (started f).branch = f.ctz.take f.pos := by simp [started, hw]
  refine ⟨(pre ++ [v.file.head]).take j, o + 1, ?_, fun _ b' hm => ?_⟩
  case refine_1 =>
    rw [hbr]
    refine .inr ⟨hb.take hz hle hl hj, ?_⟩
    have hj' := (List.getElem?_eq_some_iff.mp hj).choose
    have := hl.le
    rw [List.length_take, Nat.min_eq_left (by omega)]
    omega
  case refine_2 =>
    rw [traversed_modify_block (h.agrees.writing.trans hw)]
    refine hch.mem_traversed h.agrees h.entry hi hne ?_
    rcases List.mem_append.mp hm with hm | hm
    case inl => exact List.mem_of_mem_take hm
    case inr =>
      have he : b' = b := List.mem_singleton.mp hm
      exact he ▸ List.mem_of_getElem? hj

theorem does_findBlock (h : Represents cfg K v₀ f) (hfill : f.writing = true → Filled cfg v₀) (hc : Cached cfg v₀)
    (hi : v₀.file.isInline = false) (hr : f.reading = false) (hp : f.writing = false → f.pos ≤ f.ctz.length)
    (hfull : f.writing = true → v₀.file.off = cfg.blockSize) :
    FallibleHoare (exec cfg faults) (fun v => v = v₀) (findBlock cfg)
      (fun _ v => Represents cfg K v f ∧ v.file.isInline = false ∧ Found cfg v f ∧
        (v.caches .file = none ∧ v.caches .pcache = none) ∧ (f.writing = true → v = v₀))
      fun _ v => Represents cfg K v f := by
  refine FallibleHoare.bind (I := fun file v => file = v₀.file ∧ v = v₀)
    (does_load fun v hv => ⟨by rw [hv]; rfl, hv⟩) fun file => .and_left fun he => ?_
  subst he
  rw [h.agrees.writing, h.agrees.pos, h.agrees.size]
  split
  case isFalse hn =>
    refine .pure fun v hv => ?_
    subst hv
    refine ⟨h, hi, h.found hfill hi hfull fun hw => ?_, ⟨hc.full h.agrees hi hr hfull, hc.pcache⟩, fun _ => rfl⟩
    rw [hw] at hn
    simpa using hn
  case isTrue hn =>
    rw [Bool.and_eq_true, Bool.not_eq_true', decide_eq_true_eq] at hn
    obtain ⟨hw, hz⟩ := hn
    have hle := hp hw
    refine FallibleHoare.bind (I := fun _ v => ∃ c, v = v₀.setCache .file c)
      (does_cacheFetch fun v c hv _ => ⟨c, by rw [hv]⟩) fun _ => does_of_eq fun v₁ ⟨c, hv₁⟩ => ?_
    have h₁ : Represents cfg K v₁ f := hv₁ ▸ h.setCache
    have hi₁ : v₁.file.isInline = false := hv₁ ▸ hi
    have hp₁ : v₁.caches .pcache = none := by rw [hv₁]; exact hc.pcache
    have hhead : v₀.file.head = v₁.file.head := by rw [hv₁]; rfl
    obtain ⟨pre, off, hch⟩ := (h₁.chained hi₁).resolve_right fun hd => absurd (hw.symm.trans hd.writing) (by simp)
    obtain ⟨hb, hlt⟩ := hch.holds.resolve_left fun he => absurd (congrArg List.length he.left) (by
      rw [List.length_nil]
      omega)
    have hchain : ∀ v, v = v₁ → Chain cfg v.bytes (pre ++ [v₁.file.head]) f.ctz := by rintro v rfl; exact hb.chain
    have hl := lt_of_le_maxFileSizeBytes h₁.agrees.size_le
    rw [hhead]
    refine FallibleHoare.bind (((does_ctzFind hchain hl (hb.located hlt) (by simp) (by omega))).weaken_error
      fun _ v hv => hv ▸ h₁) fun r => ?_
    refine FallibleHoare.bind (I := fun _ v => Represents cfg K v f ∧ v.file.isInline = false ∧ Found cfg v f ∧
      v.caches .pcache = none) (does_update fun v ⟨hv, j, hl, hj⟩ => ?_) fun _ =>
      does_cacheDrop fun v hv => ⟨hv.left.setCache, hv.right.left, hv.right.right.left,
        ⟨setCache_caches, hv.right.right.right⟩, fun hw' => absurd (hw.symm.trans hw') (by simp)⟩
    subst hv
    exact ⟨h₁.setFileBlock hr hw, hi₁, h₁.found_block hi₁ hw hz hle hch hl hj, hp₁⟩

theorem available_le {v : Volume} : v.available cfg < cfg.attempts :=
  Nat.lt_succ_of_le ((Finset.card_filter_le ..).trans (by simp))

-- A block with data is still that of the file after a checkpoint.
theorem Represents.ckpoint (h : Represents cfg K v f) (hfill : f.writing = true → Filled cfg v)
    (ho : f.writing = true → v.file.isInline = false → 0 < v.file.off) :
    Represents cfg K (v.ckpoint cfg) f ∧ (f.writing = true → Filled cfg (v.ckpoint cfg)) := by
  have hf := (h.accounted hfill).frame_ckpoint
  refine ⟨h.frame hfill hf, fun hw hi => ?_⟩
  obtain ⟨ht, hd⟩ := hfill hw hi
  exact ⟨hf.tracked _ (h.kept_block hfill hi hw (ho hw hi)) ht, hd⟩

theorem does_extendFile (h : Represents cfg K v₀ f) (hfill : f.writing = true → Filled cfg v₀) (hc : Cached cfg v₀)
    (hi : v₀.file.isInline = false) (hr : f.reading = false) (hp : f.writing = false → f.pos ≤ f.ctz.length)
    (hfull : f.writing = true → v₀.file.off = cfg.blockSize) :
    FallibleHoare (exec cfg faults) (fun v => v = v₀) (extendFile cfg)
      (fun _ v => Represents cfg K (v.modify ({ · with writing := true }) .file) (started f) ∧
        v.file.off < cfg.blockSize ∧ v.file.isInline = false ∧ v.Tracked cfg v.file.block ∧
        v.caches .file = cfg.caught v.file.block v.file.off ∧ v.caches .pcache = none)
      fun _ v => Represents cfg K v f := by
  have hB := cfg.le_blockSize
  refine FallibleHoare.bind (does_findBlock h hfill hc hi hr hp hfull) fun _ =>
    does_of_eq fun v₁ ⟨h₁, hi₁, hfound, ⟨hfile₁, hpcache₁⟩, hv₁⟩ => ?_
  have hfill₁ (hw : f.writing = true) : Filled cfg v₁ := hv₁ hw ▸ hfill hw
  obtain ⟨pre, off, hh, hm⟩ := hfound
  obtain ⟨h₂, hfill₂⟩ := h₁.ckpoint hfill₁ fun hw _ => by
    rw [hv₁ hw, hfull hw]
    omega
  have hf := (h₁.accounted hfill₁).frame_ckpoint
  have hcaches : (v₁.ckpoint cfg).caches = v₁.caches := rfl
  generalize hv₂ : v₁.ckpoint cfg = v₂ at h₂ hfill₂ hf hcaches
  have hfile : v₂.file = v₁.file := hf.file
  refine FallibleHoare.bind (I := fun _ v => v = v₂) (does_ckpoint fun v hv => by rw [hv, hv₂]) fun _ => ?_
  refine FallibleHoare.bind (I := fun file v => file = v₂.file ∧ v = v₂)
    (does_load fun v hv => ⟨by rw [hv]; rfl, hv⟩) fun file => .and_left fun he => ?_
  subst he
  have hl := (content_started h₂.agrees hp).left
  have hh₂ : Holds cfg v₂.bytes pre v₂.file.block off (started f).branch := by
    rw [hfile]
    exact hh.congr fun hd b hb => hf.bytes b (.inl (hm hd b hb))
  have hm₂ : (started f).branch ≠ [] → ∀ b ∈ pre ++ [v₂.file.block], b ∈ v₂.traversed cfg := by
    rw [hfile, hf.traversed]
    exact hm
  rw [h₂.agrees.pos, ← hl]
  refine FallibleHoare.bind ((does_ctzExtend (h₂.accounted hfill₂) hh₂ ?_ hm₂ (hcaches ▸ hfile₁)
    available_le).weaken_error fun _ _ hv => h₂.frame hfill₂ hv) fun r => ?_
  case refine_1 => exact hl ▸ lt_of_le_maxFileSizeBytes h₂.agrees.pos_le
  refine does_update fun v ⟨hn, he, hcache, hpcache⟩ => ⟨?_, ?_, ?_, ?_, hcache, ?_⟩
  case refine_1 =>
    have h₃ := h₂.extended hfill₂ (hfile ▸ hi₁) hr hp hn hm₂ he
    exact h₃
  case refine_2 =>
    obtain ⟨_, _, hlt, _⟩ := he
    exact hlt
  case refine_3 =>
    change v.file.isInline = false
    rw [hn.frame.file, hfile]
    exact hi₁
  case refine_4 => exact hn.tracked
  case refine_5 => exact hpcache.trans (hcaches ▸ hpcache₁)

theorem Represents.started_inline (h : Represents cfg K v f) (hi : v.file.isInline = true) (hr : f.reading = false)
    (hp : f.writing = false → f.pos ≤ f.ctz.length) :
    Represents cfg K (v.modify (fun file => { file with block := blockInline, off := file.pos, writing := true })
      .file) (started f) := by
  have hin := h.inlined hi
  obtain ⟨hl, rest, hc⟩ := content_started h.agrees hp
  have hs : (started f).content = f.content := by
    unfold started File.LfsFile.content
    split <;> simp_all
  refine ⟨h.asserted, h.inv, h.others, { h.agrees.started hr hp with }, ?_,
    fun _ => ⟨hin.head, ?_, ?_, fun _ => ⟨rfl, ?_⟩, fun hr' =>
      absurd (hr.symm.trans (reading_started.symm.trans hr')) (by simp), hin.along⟩,
    fun hi' => absurd (hi.symm.trans hi') (by simp), fun hi' => absurd (hi.symm.trans hi') (by simp)⟩
  case refine_1 => rw [disk_started]; exact h.entry.modify
  case refine_2 => rw [hs]; exact hin.content
  case refine_3 => rw [hs]; exact hin.length
  case refine_4 =>
    rw [pos_started]
    exact h.agrees.pos

theorem pos_lt (h : Represents cfg K v f) (hi : v.file.isInline = true)
    (hp : f.writing = false → f.pos ≤ f.ctz.length) : f.pos < cfg.blockSize := by
  obtain ⟨hl, rest, hc⟩ := content_started h.agrees hp
  have hlen := (h.inlined hi).length
  have hB := cfg.le_blockSize
  have hm := cfg.inlineMax_le
  rw [hc, List.length_append] at hlen
  omega

-- After a block was prepared, there is room in it.
theorem does_writeBlock (h : Represents cfg K v₀ f) (hfill : f.writing = true → Filled cfg v₀) (hc : Cached cfg v₀)
    (hr : f.reading = false) (hp : f.writing = false → f.pos ≤ f.ctz.length)
    (hfull : f.writing = true → v₀.file.off = cfg.blockSize) :
    FallibleHoare (exec cfg faults) (fun v => v = v₀) (writeBlock cfg)
      (fun _ v => Represents cfg K v (started f) ∧ v.file.off < cfg.blockSize ∧
        v.file.isInline = v₀.file.isInline ∧ (v.file.isInline = false → v.Tracked cfg v.file.block) ∧ Cached cfg v)
      fun _ v => Represents cfg K v (marked f) := by
  refine FallibleHoare.bind (I := fun file v => file = v₀.file ∧ v = v₀)
    (does_load fun v hv => ⟨by rw [hv]; rfl, hv⟩) fun file => .and_left fun he => ?_
  subst he
  cases hi : v₀.file.isInline
  case false =>
    refine FallibleHoare.bind (does_orErred (does_extendFile h hfill hc hi hr hp hfull) fun _ _ hv => hv.marked)
      fun _ => ?_
    exact does_update fun v ⟨hv, ho, hi, ht, hcache, hpcache⟩ =>
      ⟨hv, ho, hi, fun _ => ht, .written hpcache hi hcache rfl⟩
  case true =>
    refine FallibleHoare.bind (I := fun _ v => v = v₀.modify (fun file =>
      { file with block := blockInline, off := file.pos }) .file) (does_update fun v hv => by rw [hv]) fun _ => ?_
    refine does_update fun v hv => ?_
    subst hv
    exact ⟨h.started_inline hi hr hp, h.agrees.pos.trans_lt (pos_lt h hi hp), hi, fun hi' =>
      absurd (hi.symm.trans hi') (by simp), .of_inline hc.pcache hi (hc.inlined hi)⟩

end

end Littlefs
