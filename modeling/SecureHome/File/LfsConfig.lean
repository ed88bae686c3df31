import SecureHome.Hal.Flash

open Hal

-- The functions through which LittleFS accesses the flash.
namespace File.LfsConfig

def progSizeBytes : UInt32 := 2

def blockCount : UInt32 := 32

def blockSizeBytes : UInt32 := 1024

-- `lfs_start` is behind the 96 KiB that the linker script sets aside for the program.
def lfsPartitionStart : UInt32 := 0x08000000 + 96 * 1024

def lfsErrInval : ℤ := -22

def lfsErrCorrupt : ℤ := -84

def pageIdxToPhyAddr (idx : UInt32) : UInt32 :=
  lfsPartitionStart + idx * blockSizeBytes

abbrev Driver := Prog Flash.sig

def perform (o : Flash.Op) : Driver (Flash.sig.Ret o) :=
  Prog.perform (S := Flash.sig) o

def flashUnlock : Driver Status :=
  perform .unlock

def flashProgram (address : UInt32) (data : UInt16) : Driver Status :=
  perform (.program address data)

def flashErase (init : FlashEraseInit) (pageError : UInt32) : Driver (Status × UInt32) :=
  perform (.erase init pageError)

def flashClearPgerr : Driver Unit :=
  perform .clearPgerr

def flashLock : Driver Status :=
  perform .lock

def memcpy (address size : UInt32) : Driver (List UInt8) :=
  perform (.memcpy address size)

def read (block off size : UInt32) : Driver (ℤ × List UInt8) := do
  let phyAddr := pageIdxToPhyAddr block + off
  let buffer ← memcpy phyAddr size
  return (0, buffer)

-- The element of the buffer at an index, as the buffer of halfwords that it is cast to.
def halfword (buffer : List UInt8) (i : ℕ) : UInt16 :=
  (buffer.getD (2 * i) 0).toUInt16 + 256 * (buffer.getD (2 * i + 1) 0).toUInt16

-- The loop of `prog`, where the last argument is the number of halfwords that remain.
def progFrom (buffer : List UInt8) (phyAddr : UInt32) (i : ℕ) : ℕ → Driver ℤ
  | 0     => return 0
  | n + 1 => do
    let ret ← flashProgram phyAddr (halfword buffer i)
    if ret ≠ .ok then
      flashClearPgerr
      return lfsErrCorrupt
    progFrom buffer (phyAddr + progSizeBytes) (i + 1) n

def prog (block off : UInt32) (buffer : List UInt8) (size : UInt32) : Driver ℤ := do
  if size % progSizeBytes ≠ 0 then
    return lfsErrInval
  let _ ← flashUnlock
  let phyAddr := pageIdxToPhyAddr block + off
  let elementCount := size / progSizeBytes
  let rc ← progFrom buffer phyAddr 0 elementCount.toNat
  let _ ← flashLock
  return rc

def erase (block : UInt32) : Driver ℤ := do
  let _ ← flashUnlock
  let init := { pageAddress := pageIdxToPhyAddr block, nbPages := 1 }
  let (ret, pageError) ← flashErase init 0
  let mut rc := 0
  if ret ≠ .ok ∨ pageError ≠ 0xFFFFFFFF then
    flashClearPgerr
    rc := lfsErrCorrupt
  let _ ← flashLock
  return rc

-- The address of a byte of a block.
def address (block off : UInt32) : ℕ :=
  lfsPartitionStart.toNat + block.toNat * blockSizeBytes.toNat + off.toNat

variable {residue : Memory UInt8} {block off size phyAddr : UInt32} {buffer : List UInt8}
variable {f f' : Flash} {i n : ℕ} {rc : ℤ}

theorem toNat_pageIdxToPhyAddr (hb : block < blockCount) (ho : off ≤ blockSizeBytes) :
    (pageIdxToPhyAddr block + off).toNat = address block off := by
  have hb' : block.toNat < 32 := UInt32.lt_iff_toNat_lt.mp hb
  have ho' : off.toNat ≤ 1024 := UInt32.le_iff_toNat_le.mp ho
  have hs : lfsPartitionStart.toNat = 0x08018000 := rfl
  have hz : blockSizeBytes.toNat = 1024 := rfl
  simp only [pageIdxToPhyAddr, address, UInt32.toNat_add, UInt32.toNat_mul, hs, hz]
  omega

theorem toNat_add_progSizeBytes (h : phyAddr.toNat + 2 < UInt32.size) :
    (phyAddr + progSizeBytes).toNat = phyAddr.toNat + 2 := by
  have hz : progSizeBytes.toNat = 2 := rfl
  rw [UInt32.toNat_add, hz, Nat.mod_eq_of_lt h]

theorem toNat_mod_two (h : size % progSizeBytes = 0) : size.toNat % 2 = 0 :=
  (UInt32.toNat_mod size progSizeBytes).symm.trans (congrArg _ h)

-- The halfword at an index, back in memory.
theorem bytes_halfword (h : 2 * i + 1 < buffer.length) :
    Flash.bytes (halfword buffer i) = [buffer[2 * i], buffer[2 * i + 1]] := by
  have h₀ : buffer.getD (2 * i) 0 = buffer[2 * i] := by simp [List.getD, show 2 * i < buffer.length by omega]
  have h₁ : buffer.getD (2 * i + 1) 0 = buffer[2 * i + 1] := by simp [List.getD, h]
  rw [Flash.bytes, halfword, h₀, h₁]
  generalize buffer[2 * i] = b₀
  generalize buffer[2 * i + 1] = b₁
  have hl : (b₀.toUInt16 + 256 * b₁.toUInt16).toUInt8 = b₀ := by
    apply UInt8.toNat_inj.mp
    simp
  have hh : ((b₀.toUInt16 + 256 * b₁.toUInt16) >>> 8).toUInt8 = b₁ := by
    apply UInt8.toNat_inj.mp
    simp [Nat.shiftRight_eq_div_pow]
    have := b₀.toNat_lt
    have := b₁.toNat_lt
    omega
  rw [hl, hh]

-- What was performed on the flash, and with which results.
abbrev Log :=
  List (Σ o, Flash.sig.Ret o)

-- The results of programming one halfword after the other.
def statuses (l : Log) : List Status :=
  l.filterMap fun
    | ⟨.program .., status⟩ => some status
    | _                     => none

@[simp]
theorem statuses_append (l l' : Log) : statuses (l ++ l') = statuses l ++ statuses l' :=
  List.filterMap_append

@[simp]
theorem statuses_nil : statuses [] = [] :=
  rfl

theorem ends_perform {o : Flash.Op} {r : Flash.sig.Ret o} {l l' : Log}
    (h : (perform o).Ends (Prog.logging (Flash.exec residue)) (f, l) r (f', l')) :
    (r, f') ∈ Flash.exec residue o f ∧ l' = l ++ [⟨o, r⟩] := by
  obtain ⟨r, s, hm, rfl, rfl⟩ := h
  exact Prog.mem_logging.mp hm

-- The first halfwords of a buffer were programmed. If these are not all of them, the next one
-- failed.
structure Programs (buffer : List UInt8) (a n k : ℕ) (f f' : Flash) (l l' : Log) (rc : ℤ) :
    Prop where
  le      : k ≤ n
  memory  : f'.memory = f.memory.store a (buffer.take (2 * k))
  outcome : k = n ∧ rc = 0 ∧ statuses l' = statuses l ++ .replicate n .ok ∨
    k < n ∧ rc = lfsErrCorrupt ∧ ∃ r ≠ .ok, statuses l' = statuses l ++ .replicate k .ok ++ [r]

theorem programs_progFrom {l l' : Log}
    (h : (progFrom buffer phyAddr i n).Ends (Prog.logging (Flash.exec residue)) (f, l) rc (f', l'))
    (ha : phyAddr.toNat + 2 * n < UInt32.size) (hl : buffer.length = 2 * (i + n)) :
    ∃ k, Programs (buffer.drop (2 * i)) phyAddr.toNat n k f f' l l' rc := by
  induction n generalizing phyAddr i f l
  case zero =>
    obtain ⟨rfl, he⟩ := h
    cases he
    exact ⟨0, Nat.le_refl 0, by simp, .inl ⟨rfl, rfl, by simp⟩⟩
  case succ n hi =>
    have ⟨r, ⟨f₁, l₁⟩, hp, h⟩ := Prog.ends_bind h
    have ⟨hm, he⟩ := ends_perform hp
    have ⟨_, hc⟩ := Flash.program_cases hm
    have hs : statuses l₁ = statuses l ++ [r] := by
      rw [he, statuses_append]
      rfl
    obtain ⟨rfl, hf⟩ | ⟨hr, hf⟩ := hc
    case inr =>
      rw [if_pos hr] at h
      have ⟨_, ⟨f₂, l₂⟩, hp, hr', he'⟩ := Prog.ends_bind h
      have ⟨hm', hl'⟩ := ends_perform hp
      cases he'
      cases List.mem_singleton.mp hm'
      refine ⟨0, Nat.zero_le _, ?_, .inr ⟨Nat.succ_pos n, hr', r, hr, ?_⟩⟩
      · simp [hf]
      · have hc : statuses [⟨.clearPgerr, ()⟩] = [] := rfl
        simp [hl', hs, hc]
    case inl =>
      rw [if_neg (by simp)] at h
      have hp : (phyAddr + progSizeBytes).toNat = phyAddr.toNat + 2 :=
        toNat_add_progSizeBytes (by omega)
      have ⟨k, hk⟩ := hi h (by omega) (by omega)
      have hd : (buffer.drop (2 * i)).take (2 * (k + 1)) =
          Flash.bytes (halfword buffer i) ++ (buffer.drop (2 * (i + 1))).take (2 * k) := by
        rw [bytes_halfword (by omega), List.drop_eq_getElem_cons (by omega),
          List.drop_eq_getElem_cons (by omega)]
        rfl
      refine ⟨k + 1, Nat.succ_le_succ hk.le, ?_, ?_⟩
      · rw [hk.memory, hf, hp, hd, Memory.store_append]
        rfl
      · refine hk.outcome.imp (fun ⟨hn, hr, ho⟩ => ⟨congrArg _ hn, hr, ?_⟩)
          fun ⟨hn, hr, r, he, ho⟩ => ⟨Nat.succ_lt_succ hn, hr, r, he, ?_⟩
        · simp [ho, hs, List.replicate_succ]
        · simp [ho, hs, List.replicate_succ]

-- A region of a block that is in the block as a whole.
structure InBlock (block off size : UInt32) : Prop where
  block : block < blockCount
  off   : off.toNat + size.toNat ≤ blockSizeBytes.toNat

theorem InBlock.toNat_phyAddr (h : InBlock block off size) :
    (pageIdxToPhyAddr block + off).toNat = address block off :=
  toNat_pageIdxToPhyAddr h.block <| UInt32.le_iff_toNat_le.mpr (by have := h.off; omega)

theorem InBlock.address_add_lt (h : InBlock block off size) :
    address block off + size.toNat < UInt32.size := by
  have hb : block.toNat < 32 := UInt32.lt_iff_toNat_lt.mp h.block
  have ho := h.off
  have hs : lfsPartitionStart.toNat = 0x08018000 := rfl
  have hz : blockSizeBytes.toNat = 1024 := rfl
  simp only [address, hs, hz] at *
  exact Nat.lt_of_lt_of_le (m := 0x08020001) (by omega) (by decide)

theorem programs_prog {l : Log} (hb : InBlock block off size) (hs : size % progSizeBytes = 0)
    (hl : buffer.length = size.toNat)
    (h : (prog block off buffer size).Ends (Prog.logging (Flash.exec residue)) (f, []) rc (f', l)) :
    f'.lock = true ∧
      ∃ k, Programs buffer (address block off) (size.toNat / 2) k f f' [] l rc := by
  unfold prog at h
  rw [if_neg (not_not_intro hs)] at h
  have ⟨_, ⟨f₁, l₁⟩, hp, h⟩ := Prog.ends_bind h
  have ⟨hm, he⟩ := ends_perform hp
  cases List.mem_singleton.mp hm
  have ⟨rc', ⟨f₂, l₂⟩, hp, h⟩ := Prog.ends_bind h
  have ⟨_, ⟨f₃, l₃⟩, hp', h⟩ := Prog.ends_bind h
  obtain ⟨rfl, hf⟩ := h
  cases hf
  have ⟨hm, he'⟩ := ends_perform hp'
  cases List.mem_singleton.mp hm
  have hn : (size / progSizeBytes).toNat = size.toNat / 2 := UInt32.toNat_div size progSizeBytes
  have hz := toNat_mod_two hs
  have ha := hb.address_add_lt
  rw [hn] at hp
  have ⟨k, hk⟩ := programs_progFrom hp (by rw [hb.toNat_phyAddr]; omega) (by omega)
  rw [hb.toNat_phyAddr] at hk
  refine ⟨rfl, k, hk.le, hk.memory, ?_⟩
  have hu : statuses [⟨.unlock, .ok⟩] = [] := rfl
  have hk' : statuses [⟨.lock, .ok⟩] = [] := rfl
  simpa [he, he', hu, hk'] using hk.outcome

theorem exists_ends_progFrom (hf : f.Ready) (hz : phyAddr.toNat % 2 = 0)
    (ha : phyAddr.toNat + 2 * n < UInt32.size)
    (he : ∀ j < 2 * n, f.memory (phyAddr.toNat + j) = 0xFF) :
    ∃ f', (progFrom buffer phyAddr i n).Ends (Flash.exec residue) f 0 f' := by
  induction n generalizing phyAddr i f
  case zero => exact ⟨f, rfl, rfl⟩
  case succ n hi =>
    let data := halfword buffer i
    have hp : f.Programmable phyAddr data := by
      refine ⟨hz, .inl ?_⟩
      have h₀ := he 0 (by omega)
      have h₁ := he 1 (by omega)
      simpa [Memory.load, List.ofFn_succ] using ⟨h₀, h₁⟩
    let f₁ := { f with memory := f.memory.store phyAddr.toNat (Flash.bytes data) }
    have hm : (Status.ok, f₁) ∈ Flash.exec residue (.program phyAddr data) f := by
      apply List.mem_append_left
      rw [if_pos ⟨hf, hp⟩]
      exact .head _
    have hn : (phyAddr + progSizeBytes).toNat = phyAddr.toNat + 2 :=
      toNat_add_progSizeBytes (by omega)
    have he₁ : ∀ j < 2 * n, f₁.memory ((phyAddr + progSizeBytes).toNat + j) = 0xFF := by
      intro j hj
      rw [hn, Nat.add_assoc, ← he (2 + j) (by omega)]
      apply Memory.store_of_not_mem
      simp [Flash.bytes]
    obtain ⟨f', h⟩ := hi (f := f₁) (i := i + 1) hf (by omega) (by omega) he₁
    exact ⟨f', .ok, f₁, hm, h⟩

-- An erased region can be programmed.
theorem exists_ends_prog (hb : InBlock block off size) (ho : off % progSizeBytes = 0)
    (hs : size % progSizeBytes = 0) (hf : f.pgerr = false)
    (he : f.memory.load (address block off) size.toNat = .replicate size.toNat 0xFF) :
    ∃ f', (prog block off buffer size).Ends (Flash.exec residue) f 0 f' := by
  have hz := toNat_mod_two hs
  have ha : address block off % 2 = 0 := by
    have ho := toNat_mod_two ho
    have hs : lfsPartitionStart.toNat = 0x08018000 := rfl
    have hz : blockSizeBytes.toNat = 1024 := rfl
    simp only [address, hs, hz]
    omega
  have hn : (size / progSizeBytes).toNat = size.toNat / 2 := UInt32.toNat_div size progSizeBytes
  have hl := hb.address_add_lt
  have he := (Memory.load_eq_iff List.length_replicate).mp he
  simp only [List.length_replicate, List.getElem_replicate] at he
  rw [← hb.toNat_phyAddr] at ha hl he
  have ⟨f', h⟩ : ∃ f', (progFrom buffer (pageIdxToPhyAddr block + off) 0
      (size / progSizeBytes).toNat).Ends (Flash.exec residue) { f with lock := false } 0 f' :=
    exists_ends_progFrom ⟨rfl, hf⟩ ha (by omega) fun j hj => he j (by omega)
  unfold prog
  rw [if_neg (not_not_intro hs)]
  exact ⟨{ f' with lock := true }, .ok, _, .head _, h.bind ⟨.ok, _, .head _, rfl, rfl⟩⟩

theorem read_region (hb : InBlock block off size) {data : List UInt8}
    (h : (read block off size).Ends (Flash.exec residue) f (rc, data) f') :
    data = f.memory.load (address block off) size.toNat := by
  have ⟨_, f₁, ⟨_, _, hm, rfl, rfl⟩, h⟩ := Prog.ends_bind h
  cases List.mem_singleton.mp hm
  rw [← hb.toNat_phyAddr]
  exact congrArg Prod.snd h.left

-- The memory outside of a range of addresses is as it was before.
def Unchanged (a n : ℕ) (f f' : Flash) : Prop :=
  ∀ x, x < a ∨ a + n ≤ x → f'.memory x = f.memory x

theorem covers_block (hb : block < blockCount) {x : ℕ} :
    FlashEraseInit.covers { pageAddress := pageIdxToPhyAddr block, nbPages := 1 } x =
      decide (address block 0 ≤ x ∧ x < address block 0 + blockSizeBytes.toNat) := by
  have ha : (pageIdxToPhyAddr block).toNat = address block 0 := by
    rw [← toNat_pageIdxToPhyAddr hb (by decide), UInt32.add_zero]
  have hs : lfsPartitionStart.toNat = 96 * 1024 + 0x08000000 := rfl
  have hz : blockSizeBytes.toNat = 1024 := rfl
  simp only [FlashEraseInit.covers, ha, address, hs, hz, flashPageSize, UInt32.toNat_zero]
  exact decide_eq_decide.mpr (by omega)

-- What an erase leaves behind, where the controller is locked again.
theorem erase_block (hb : block < blockCount) (h : (erase block).Ends (Flash.exec residue) f rc f') :
    f'.lock = true ∧
      Unchanged (address block 0) blockSizeBytes.toNat f f' ∧
      (rc = 0 → f'.memory.load (address block 0) blockSizeBytes.toNat =
        .replicate blockSizeBytes.toNat 0xFF) := by
  unfold erase at h
  have ⟨_, f₁, ⟨_, _, hm, _, rfl⟩, h⟩ := Prog.ends_bind h
  cases List.mem_singleton.mp hm
  have ⟨⟨ret, pageError⟩, f₂, ⟨_, _, hm, rfl, rfl⟩, h⟩ := Prog.ends_bind h
  have ⟨_, hc, he⟩ := Flash.erase_cases hm
  have hf : Unchanged (address block 0) blockSizeBytes.toNat f f₂ := by
    intro x hx
    apply hc
    rw [covers_block hb, decide_eq_false_iff_not]
    omega
  dsimp only at h
  split at h
  case isTrue =>
    have ⟨_, f₃, ⟨_, _, hm, _, rfl⟩, h⟩ := Prog.ends_bind h
    cases List.mem_singleton.mp hm
    have ⟨_, f₄, ⟨_, _, hm, _, rfl⟩, h⟩ := Prog.ends_bind h
    cases List.mem_singleton.mp hm
    obtain ⟨rfl, rfl⟩ := h
    exact ⟨rfl, hf, nofun⟩
  case isFalse hr =>
    have ⟨_, f₃, ⟨_, _, hm, _, rfl⟩, h⟩ := Prog.ends_bind h
    cases List.mem_singleton.mp hm
    obtain ⟨rfl, rfl⟩ := h
    have ⟨_, he⟩ := he (not_not.mp (not_or.mp hr).left)
    refine ⟨rfl, hf, fun _ => (Memory.load_eq_iff List.length_replicate).mpr fun i hi => ?_⟩
    rw [List.getElem_replicate]
    apply he
    rw [covers_block hb, decide_eq_true_iff]
    simpa using hi

-- The halfword at an index is the one that could not be programmed.
def FailsAt (l : Log) (i : ℕ) : Prop :=
  ∃ r ≠ .ok, (statuses l)[i]? = some r

-- What LittleFS relies on when it programs a region of a block.
structure Contract (block off : UInt32) (buffer : List UInt8) (size : UInt32) (f f' : Flash)
    (l : Log) (rc : ℤ) : Prop where
  locked    : f'.lock = true
  unchanged : Unchanged (address block off) size.toNat f f'
  succeeds  : rc = 0 → statuses l = .replicate (size.toNat / 2) .ok ∧
    f'.memory.load (address block off) size.toNat = buffer
  fails     : ∀ i, FailsAt l i → rc = lfsErrCorrupt ∧
    f'.memory = f.memory.store (address block off) (buffer.take (2 * i))
  failed    : rc ≠ 0 → ∃ i < size.toNat / 2, FailsAt l i

theorem Programs.contract {l : Log} {k : ℕ} (hl : buffer.length = size.toNat) (hz : 2 ∣ size.toNat)
    (hf : f'.lock = true)
    (h : Programs buffer (address block off) (size.toNat / 2) k f f' [] l rc) :
    Contract block off buffer size f f' l rc where
  locked := hf
  unchanged := by
    intro x hx
    rw [h.memory]
    apply Memory.store_of_not_mem
    rw [List.length_take]
    omega
  succeeds := by
    rintro rfl
    obtain ⟨rfl, _, hs⟩ | ⟨_, hr, _⟩ := h.outcome
    case inr => contradiction
    case inl =>
      refine ⟨hs, ?_⟩
      rw [h.memory, Nat.mul_div_cancel' hz, ← hl, List.take_length]
      exact Memory.load_store
  fails := by
    rintro i ⟨r, hr, hi⟩
    have hm : r ∈ statuses l := List.mem_of_getElem? hi
    obtain ⟨_, _, hs⟩ | ⟨_, rfl, r', _, hs⟩ := h.outcome
    case inl =>
      rw [hs, statuses_nil, List.nil_append] at hm
      exact absurd (List.eq_of_mem_replicate hm) hr
    case inr =>
      obtain rfl : i = k := by
        rw [hs, statuses_nil, List.nil_append] at hi
        grind
      exact ⟨rfl, h.memory⟩
  failed := by
    intro hr
    obtain ⟨_, rfl, _⟩ | ⟨hk, _, r, hn, hs⟩ := h.outcome
    case inl => contradiction
    case inr => exact ⟨k, hk, r, hn, by simp [hs]⟩

-- Erases a block, programs a region of it, and reads the region.
def rewrite (block off : UInt32) (buffer : List UInt8) (size : UInt32) :
    Driver (ℤ × List UInt8) := do
  let _ ← erase block
  let rc ← prog block off buffer size
  let (_, data) ← read block off size
  return (rc, data)

-- Whatever fails on the way, LittleFS can rely on how the flash is programmed and erased.
theorem contract_of_ends (residue : Memory UInt8) {block off size : UInt32} {buffer : List UInt8}
    (hb : block < blockCount) (hr : off.toNat + size.toNat ≤ blockSizeBytes.toNat)
    (hs : size % progSizeBytes = 0) (hl : buffer.length = size.toNat) :
    (∀ f f' l rc,
      (prog block off buffer size).Ends (Prog.logging (Flash.exec residue)) (f, []) rc (f', l) →
        Contract block off buffer size f f' l rc) ∧
      (∀ f f' rc, (erase block).Ends (Flash.exec residue) f rc f' →
        f'.lock = true ∧ Unchanged (address block 0) blockSizeBytes.toNat f f') ∧
      ∀ f f' data, (rewrite block off buffer size).Ends (Flash.exec residue) f (0, data) f' →
        data = buffer := by
  have hb' : InBlock block off size := ⟨hb, hr⟩
  have hz : 2 ∣ size.toNat := Nat.dvd_of_mod_eq_zero (toNat_mod_two hs)
  have hc : ∀ f f' l rc,
      (prog block off buffer size).Ends (Prog.logging (Flash.exec residue)) (f, []) rc (f', l) →
        Contract block off buffer size f f' l rc := by
    intro f f' l rc h
    have ⟨hf, k, hk⟩ := programs_prog hb' hs hl h
    exact hk.contract hl hz hf
  refine ⟨hc, fun f f' rc h => ?_, fun f f' data h => ?_⟩
  case refine_1 =>
    have ⟨hf, hu, _⟩ := erase_block hb h
    exact ⟨hf, hu⟩
  case refine_2 =>
    have ⟨_, f₁, _, h⟩ := Prog.ends_bind h
    have ⟨rc, f₂, hp, h⟩ := Prog.ends_bind h
    have ⟨⟨_, data⟩, f₃, hd, he, _⟩ := Prog.ends_bind h
    cases he
    have ⟨l, hp⟩ := (Prog.ends_iff_logging []).mp hp
    rw [read_region hb' hd]
    exact (hc _ _ _ _ hp).succeeds rfl |>.right

-- The last four bytes of the partition.
theorem contract_of_ends_last :
    (∀ f f' l rc,
      (prog 31 1020 [1, 2, 3, 4] 4).Ends (Prog.logging (Flash.exec fun _ => 0)) (f, []) rc
        (f', l) → Contract 31 1020 [1, 2, 3, 4] 4 f f' l rc) ∧
      (∀ f f' rc, (erase 31).Ends (Flash.exec fun _ => 0) f rc f' →
        f'.lock = true ∧ Unchanged (address 31 0) blockSizeBytes.toNat f f') ∧
      ∀ f f' data, (rewrite 31 1020 [1, 2, 3, 4] 4).Ends (Flash.exec fun _ => 0) f (0, data) f' →
        data = [1, 2, 3, 4] :=
  contract_of_ends (fun _ => 0) (by decide) (by decide) (by decide) (by decide)

end File.LfsConfig
