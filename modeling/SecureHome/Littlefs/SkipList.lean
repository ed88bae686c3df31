import Mathlib.Data.List.GetD
import SecureHome.Littlefs.Bd

open File (LfsError)

-- The blocks of a file, where the block at an index has a pointer to the one at `index - 2 ^ k` for each
-- `k` up to the number of trailing zeros of the index.
namespace Littlefs

variable (cfg : Config)

-- The loop of `lfs_ctz_find`.
def ctzSeek (current target head : ℕ) : Lfs ℕ :=
  if current > target then do
    let skip := min (npw2 (current - target + 1) - 1) (ctz current)
    let head ← bdReadPointer head (4 * skip)
    ctzSeek (current - 2 ^ skip) target head
  else
    return head
termination_by current
decreasing_by
  have h : 0 < 2 ^ min (npw2 (current - target + 1) - 1) (ctz current) := Nat.two_pow_pos _
  omega

-- The block of a position and the offset there.
def ctzFind (head size pos : ℕ) : Lfs (ℕ × ℕ) :=
  if size = 0 then
    return (blockNull, 0)
  else do
    let (current, _) := cfg.index (size - 1)
    let (target, off) := cfg.index pos
    let block ← ctzSeek current target head
    return (block, off)

-- Copies a number of bytes to a new block, unless that is a bad one.
def copyBytes (cache : Cache) (read : ℕ → Lfs (List UInt8)) (nblock : ℕ) : ℕ → ℕ → Lfs Bool
  | 0, _     => return true
  | n + 1, i => do
    let data ← read i
    if ← orRelocate (bdProg cache nblock i data) then
      copyBytes cache read nblock n (i + 1)
    else
      return false

-- Programs the pointers of a new block, unless that is a bad one.
def linkBlock (nblock : ℕ) : ℕ → ℕ → ℕ → Lfs Bool
  | 0, _, _         => return true
  | n + 1, i, nhead => do
    if !(← orRelocate (bdProg .file nblock (4 * i) (toLe32 nhead))) then
      return false
    if n = 0 then
      return true
    linkBlock nblock n (i + 1) (← bdReadPointer nhead (4 * i))

-- What `lfs_ctz_extend` does with a new block. The result is the offset to write to, if any.
def extendInto (nblock head size : ℕ) : Lfs (Option ℕ) := do
  if !(← orRelocate (bdErase nblock)) then
    return none
  if size = 0 then
    return some 0
  let (index, noff) := cfg.index (size - 1)
  -- Just copy out the last block if it is incomplete.
  if noff + 1 ≠ cfg.blockSize then
    return if ← copyBytes .file (bdRead head · 1) nblock (noff + 1) 0 then some (noff + 1) else none
  let skips := ctz (index + 1) + 1
  return if ← linkBlock nblock skips 0 head then some (4 * skips) else none

-- The number of blocks to try is limited by the number of those that can be allocated.
def ctzExtend (head size : ℕ) : ℕ → Lfs (ℕ × ℕ)
  | 0     => do
    lfsAssert false
    throw .noSpc
  | n + 1 => do
    let nblock ← lfsAlloc
    match ← extendInto cfg nblock head size with
    | some off => return (nblock, off)
    | none     => do
      cacheDrop .file
      ctzExtend head size n

-- The loop of `lfs_ctz_traverse`.
def ctzVisit (cb : ℕ → Lfs Unit) (index head : ℕ) : Lfs Unit := do
  cb head
  if h : index = 0 then
    return
  else
    let count := 2 - index % 2
    let bytes ← bdRead head 0 (4 * count)
    if count = 2 then
      cb (fromLe32 (bytes.take 4))
      ctzVisit cb (index - 2) (fromLe32 (bytes.drop 4))
    else
      ctzVisit cb (index - 1) (fromLe32 (bytes.take 4))
termination_by index

def ctzTraverse (head size : ℕ) (cb : ℕ → Lfs Unit) : Lfs Unit :=
  if size = 0 then
    return
  else
    ctzVisit cb (cfg.index (size - 1)).1 head

-- The blocks are those of a file with the data.
structure Chain (bytes : ℕ → ℕ → UInt8) (blocks : List ℕ) (data : List UInt8) : Prop where
  lt      : ∀ b ∈ blocks, b < cfg.blockCount
  pointer : ∀ i k b, blocks[i]? = some b → i ≠ 0 → k ≤ ctz i →
    blocks[i - 2 ^ k]? = some (pointer bytes b k)
  content : ∀ pos i off a, data[pos]? = some a → Located cfg.blockSize pos i off →
    ∃ b, blocks[i]? = some b ∧ bytes b off = a

-- The blocks that lead to the given one, where the data ends at an offset of that block.
structure Branch (bytes : ℕ → ℕ → UInt8) (pre : List ℕ) (block off : ℕ) (data : List UInt8) : Prop where
  chain  : Chain cfg bytes (pre ++ [block]) data
  eq     : start cfg.blockSize pre.length + off = data.length + 4 * pointers pre.length
  le     : 4 * pointers pre.length ≤ off
  off_le : off ≤ cfg.blockSize
  nodup  : (pre ++ [block]).Nodup

-- The last byte of the data is in the given block, if there is any.
def Holds (bytes : ℕ → ℕ → UInt8) (pre : List ℕ) (head off : ℕ) (data : List UInt8) : Prop :=
  data = [] ∧ pre = [] ∨ Branch cfg bytes pre head off data ∧ 4 * pointers pre.length < off

variable {cfg} {faults : Faults} {bytes : ℕ → ℕ → UInt8} {blocks : List ℕ} {data : List UInt8}
  {i k pos off current target head : ℕ} {P : Volume → Prop}

open Prog

theorem Config.located_index (cfg : Config) (h : pos < 2 ^ 32) :
    (cfg.index pos).1 < maxIndex ∧ Located cfg.blockSize pos (cfg.index pos).1 (cfg.index pos).2 := by
  have hB := UInt32.toNat_ofNat_of_lt' cfg.blockSize_lt
  have hs := @ctzIndex_spec (.ofNat cfg.blockSize) (.ofNat pos) (by rw [hB]; exact cfg.le_blockSize)
  rwa [hB, UInt32.toNat_ofNat_of_lt' h] at hs

theorem lt_maxIndex (h : start cfg.blockSize i < 2 ^ 32) : i < maxIndex := by
  obtain ⟨hi, hl⟩ := cfg.located_index h
  refine Nat.lt_of_le_of_lt (Nat.le_of_not_lt fun hlt => ?_) hi
  exact absurd (start_mono (n := cfg.blockSize) hlt) hl.lt_start.not_ge

theorem pow_npw2_le (h : target < current) : 2 ^ (npw2 (current - target + 1) - 1) ≤ current - target := by
  rw [npw2, Nat.add_sub_cancel]
  have hp := Nat.size_pos.mpr (Nat.sub_pos_of_lt h)
  exact Nat.lt_size.mp (by omega)

theorem does_readPointer {Q : ℕ → Volume → Prop} {R : LfsError → Volume → Prop}
    (h : ∀ v, P v → Q (pointer v.bytes head k) v) (hr : ∀ v e, P v → R e v) :
    FallibleHoare (exec cfg faults) P (bdReadPointer head (4 * k)) Q R :=
  (does_read (Q := fun bytes => Q (fromLe32 bytes)) h hr).bind fun _ => .pure fun _ h => h

theorem pointer_overwrite {row : ℕ → UInt8} {b a : ℕ} (hb : bytes b = overwrite row (4 * k) (toLe32 a))
    (ha : a < 2 ^ 32) : pointer bytes b k = a := by
  rw [pointer, hb, ← fromLe32_toLe32 ha]
  refine congrArg fromLe32 (List.map_congr_left fun i hi => ?_)
  rw [fromLe32_toLe32 ha]
  exact overwrite_add (by simp [toLe32, List.mem_range.mp hi])

-- The pointers that are followed exist, and do not lead past the target.
theorem does_ctzSeek (hP : ∀ v, P v → Chain cfg v.bytes blocks data) (hc : blocks[current]? = some head)
    (hle : target ≤ current) :
    FallibleHoare (exec cfg faults) P (ctzSeek current target head)
      (fun b v => P v ∧ blocks[target]? = some b) fun _ => P := by
  induction current using Nat.strong_induction_on generalizing head
  case h current hi =>
    rw [ctzSeek]
    split
    case isTrue hlt =>
      have hs := pow_npw2_le hlt
      have hk := Nat.pow_le_pow_right (n := 2) (by decide)
        (Nat.min_le_left (npw2 (current - target + 1) - 1) (ctz current))
      have hp := Nat.two_pow_pos (min (npw2 (current - target + 1) - 1) (ctz current))
      refine FallibleHoare.bind (I := fun b v =>
        blocks[current - 2 ^ min (npw2 (current - target + 1) - 1) (ctz current)]? = some b ∧ P v)
        (does_readPointer (fun v hv => ?_) fun _ _ hv => hv) fun b => .and_left fun hb => ?_
      case refine_1 => exact ⟨(hP v hv).pointer _ _ _ hc (by omega) (Nat.min_le_right ..), hv⟩
      case refine_2 => exact hi _ (by omega) hb (by omega)
    case isFalse hle' =>
      have he : current = target := by omega
      exact .pure fun v hv => ⟨hv, he ▸ hc⟩

theorem getElem?_concat {l : List ℕ} {a b : ℕ} :
    (l ++ [a])[i]? = some b ↔ l[i]? = some b ∨ i = l.length ∧ a = b := by
  rcases Nat.lt_trichotomy i l.length with hi | rfl | hi
  case inl     => simp [List.getElem?_append_left hi, hi.ne]
  case inr.inl => simp
  case inr.inr => simp [List.getElem?_eq_none, hi.ne', hi.le, Nat.succ_le_of_lt hi]

namespace Branch

variable {bytes' : ℕ → ℕ → UInt8} {pre : List ℕ} {block nblock : ℕ} {new : List UInt8}

theorem located (h : Branch cfg bytes pre block off data) (hn : 4 * pointers pre.length < off) :
    Located cfg.blockSize (data.length - 1) pre.length (off - 1) := by
  have heq := h.eq
  have hle := h.off_le
  exact ⟨by omega, by omega, by omega⟩

-- The data in the last block is in front of the offset.
theorem lt_off {o : ℕ} (h : Branch cfg bytes pre block off data) (hp : pos < data.length)
    (hl : Located cfg.blockSize pos pre.length o) : o < off := by
  have heq := h.eq
  have heq' := hl.eq
  omega

-- A block is replaced by a copy.
theorem copy (h : Branch cfg bytes pre block off data) (hp : ∀ b ∈ pre, bytes' b = bytes b)
    (hn : ∀ j < off, bytes' nblock j = bytes block j) (hlt : nblock < cfg.blockCount) (hne : nblock ∉ pre) :
    Branch cfg bytes' pre nblock off data := by
  have hc := h.chain
  refine { h with chain := ⟨?_, ?_, ?_⟩, nodup := ?_ }
  case refine_1 =>
    intro b hb
    rcases List.mem_append.mp hb with hb | hb
    case inl => exact hc.lt b (List.mem_append_left _ hb)
    case inr => exact List.mem_singleton.mp hb ▸ hlt
  case refine_2 =>
    intro i k b hb hi hk
    have hp' := Nat.two_pow_pos k
    rcases getElem?_concat.mp hb with hb | ⟨rfl, rfl⟩
    case inl =>
      have hlt := (List.getElem?_eq_some_iff.mp hb).choose
      have hm := hc.pointer i k b (getElem?_concat.mpr (.inl hb)) hi hk
      rw [List.getElem?_append_left (by omega)] at hm ⊢
      rw [hm, pointer_eq (hp b (List.mem_of_getElem? hb))]
    case inr =>
      have hm := hc.pointer _ k block (getElem?_concat.mpr (.inr ⟨rfl, rfl⟩)) hi hk
      have hle := h.le
      rw [pointers, if_neg hi] at hle
      rw [List.getElem?_append_left (by omega)] at hm ⊢
      rw [hm, pointer_congr fun j hj => (hn j (by omega)).symm]
  case refine_3 =>
    intro pos i o a ha hl
    obtain ⟨b, hb, ho⟩ := hc.content pos i o a ha hl
    rcases getElem?_concat.mp hb with hb | ⟨rfl, rfl⟩
    case inl =>
      exact ⟨b, getElem?_concat.mpr (.inl hb), by rw [hp b (List.mem_of_getElem? hb), ho]⟩
    case inr =>
      have hlt := (List.getElem?_eq_some_iff.mp ha).choose
      exact ⟨nblock, getElem?_concat.mpr (.inr ⟨rfl, rfl⟩), by rw [hn o (h.lt_off hlt hl), ho]⟩
  case refine_4 =>
    have hd := List.nodup_append.mp h.nodup
    refine List.nodup_append.mpr ⟨hd.left, List.nodup_singleton _, fun a ha b hb => ?_⟩
    rw [List.mem_singleton.mp hb]
    exact fun he => hne (he ▸ ha)

-- The first block of a file has no pointers.
theorem first (hlt : nblock < cfg.blockCount) (hle : data.length ≤ cfg.blockSize)
    (hb : ∀ i a, data[i]? = some a → bytes nblock i = a) : Branch cfg bytes [] nblock data.length data := by
  have hz : pointers 0 = 0 := rfl
  refine ⟨⟨?_, ?_, ?_⟩, by simp [start, pointers], Nat.zero_le _, hle, by simp⟩
  case refine_1 => exact fun b hb => List.mem_singleton.mp hb ▸ hlt
  case refine_2 =>
    intro i k b hb hi
    have := (List.getElem?_eq_some_iff.mp hb).choose
    exact absurd (Nat.lt_one_iff.mp this) hi
  case refine_3 =>
    intro pos i o a ha hl
    have hlt := (List.getElem?_eq_some_iff.mp ha).choose
    have hl' : Located cfg.blockSize pos 0 pos := ⟨by rw [start_zero, hz]; omega, Nat.zero_le _, by omega⟩
    obtain ⟨rfl, rfl⟩ := hl.unique hl'
    exact ⟨nblock, rfl, hb o a ha⟩

theorem congr (h : Branch cfg bytes pre block off data) (hp : ∀ b ∈ pre ++ [block], bytes' b = bytes b) :
    Branch cfg bytes' pre block off data :=
  h.copy (fun b hb => hp b (List.mem_append_left _ hb))
    (fun _ _ => by rw [hp block (List.mem_append_right _ (List.mem_singleton.mpr rfl))])
    (h.chain.lt _ (List.mem_append_right _ (List.mem_singleton.mpr rfl))) fun hm =>
      (List.nodup_append.mp h.nodup).right.right _ hm _ (List.mem_singleton.mpr rfl) rfl

-- A full block is followed by another one.
theorem link (h : Branch cfg bytes pre block cfg.blockSize data)
    (hp : ∀ b ∈ pre ++ [block], bytes' b = bytes b)
    (hn : ∀ k ≤ ctz (pre.length + 1), (pre ++ [block])[pre.length + 1 - 2 ^ k]? = some (pointer bytes' nblock k))
    (hlt : nblock < cfg.blockCount) (hne : nblock ∉ pre ++ [block])
    (hb : 4 * pointers (pre.length + 1) ≤ cfg.blockSize) :
    Branch cfg bytes' (pre ++ [block]) nblock (4 * pointers (pre.length + 1)) data := by
  have hc := h.chain
  have hl : (pre ++ [block]).length = pre.length + 1 := by simp
  refine ⟨⟨?_, ?_, ?_⟩, ?_, ?_, ?_, ?_⟩
  case refine_1 =>
    intro b hb
    rcases List.mem_append.mp hb with hb | hb
    case inl => exact hc.lt b hb
    case inr => exact List.mem_singleton.mp hb ▸ hlt
  case refine_2 =>
    intro i k b hb hi hk
    have hp' := Nat.two_pow_pos k
    rcases getElem?_concat.mp hb with hb | ⟨rfl, rfl⟩
    case inl =>
      have hlt := (List.getElem?_eq_some_iff.mp hb).choose
      rw [List.getElem?_append_left (by omega), hc.pointer i k b hb hi hk,
        pointer_eq (hp b (List.mem_of_getElem? hb))]
    case inr =>
      rw [List.getElem?_append_left (by omega)]
      rw [hl] at hk ⊢
      exact hn k hk
  case refine_3 =>
    intro pos i o a ha hl
    obtain ⟨b, hb, ho⟩ := hc.content pos i o a ha hl
    exact ⟨b, getElem?_concat.mpr (.inl hb), by rw [hp b (List.mem_of_getElem? hb), ho]⟩
  case refine_4 =>
    have heq := h.eq
    have hle := h.le
    rw [hl, start_succ]
    omega
  case refine_5 => rw [hl]
  case refine_6 => exact hb
  case refine_7 =>
    refine List.nodup_append.mpr ⟨h.nodup, List.nodup_singleton _, fun a ha b hb => ?_⟩
    rw [List.mem_singleton.mp hb]
    exact fun he => hne (he ▸ ha)

theorem write (h : Branch cfg bytes pre block off data) (hp : ∀ b ∈ pre, bytes' b = bytes b)
    (hb : bytes' block = overwrite (bytes block) off new) (hle : off + new.length ≤ cfg.blockSize) :
    Branch cfg bytes' pre block (off + new.length) (data ++ new) := by
  have hn : block ∉ pre := fun hm =>
    (List.nodup_append.mp h.nodup).right.right _ hm _ (List.mem_singleton.mpr rfl) rfl
  have hc := (h.copy hp (fun j hj => by rw [hb, overwrite_of_lt hj])
    (h.chain.lt _ (List.mem_append_right _ (List.mem_singleton.mpr rfl))) hn)
  have heq := h.eq
  have hle' := h.le
  refine { hc with chain := { hc.chain with content := ?_ }, eq := ?_, le := ?_, off_le := hle }
  case refine_1 =>
    intro pos i o a ha hl
    rcases Nat.lt_or_ge pos data.length with hlt | hge
    case inl =>
      rw [List.getElem?_append_left hlt] at ha
      exact hc.chain.content pos i o a ha hl
    case inr =>
      obtain ⟨j, rfl⟩ := Nat.exists_eq_add_of_le hge
      rw [List.getElem?_append_right hge, Nat.add_sub_cancel_left] at ha
      have hj := (List.getElem?_eq_some_iff.mp ha).choose
      have hl' : Located cfg.blockSize (data.length + j) pre.length (off + j) := ⟨by omega, by omega, by omega⟩
      obtain ⟨rfl, rfl⟩ := hl.unique hl'
      exact ⟨block, getElem?_concat.mpr (.inr ⟨rfl, rfl⟩), by rw [hb]; exact overwrite_add ha⟩
  case refine_2 =>
    rw [List.length_append]
    omega
  case refine_3 => omega

-- The blocks up to the one of a position.
theorem take {j o b : ℕ} (h : Branch cfg bytes pre block off data) (hp : 0 < pos) (hle : pos ≤ data.length)
    (hl : Located cfg.blockSize (pos - 1) j o) (hb : (pre ++ [block])[j]? = some b) :
    Branch cfg bytes ((pre ++ [block]).take j) b (o + 1) (data.take pos) := by
  have hc := h.chain
  have hj := (List.getElem?_eq_some_iff.mp hb).choose
  have hj' : ((pre ++ [block]).take j).length = j := by rw [List.length_take]; omega
  have he : (pre ++ [block]).take j ++ [b] = (pre ++ [block]).take (j + 1) := by
    rw [List.take_add_one, hb]
    rfl
  have heq := hl.eq
  have hlt := hl.lt
  have hle' := hl.le
  refine ⟨⟨?_, ?_, ?_⟩, ?_, ?_, hlt, ?_⟩
  case refine_1 => exact fun b hb => hc.lt b (List.mem_of_mem_take (he ▸ hb))
  case refine_2 =>
    intro i k b hb hi hk
    rw [he] at hb ⊢
    have hp' := Nat.two_pow_pos k
    have hlt := (List.getElem?_eq_some_iff.mp hb).choose
    rw [List.length_take] at hlt
    rw [List.getElem?_take_of_lt (by omega)] at hb ⊢
    exact hc.pointer i k b hb hi hk
  case refine_3 =>
    intro p i o' a ha hl'
    have hlt := (List.getElem?_eq_some_iff.mp ha).choose
    rw [List.length_take] at hlt
    rw [List.getElem?_take_of_lt (by omega)] at ha
    obtain ⟨b, hb, ho⟩ := hc.content p i o' a ha hl'
    have hij := hl'.mono hl (by omega)
    rw [he]
    exact ⟨b, by rw [List.getElem?_take_of_lt (by omega), hb], ho⟩
  case refine_4 =>
    rw [hj', List.length_take, Nat.min_eq_left hle]
    omega
  case refine_5 => rw [hj']; omega
  case refine_6 => exact he ▸ h.nodup.take

-- There is nothing in front of the first block.
theorem eq_nil (h : Branch cfg bytes pre block off []) : pre = [] ∧ off = 0 := by
  have heq := h.eq
  have hle := h.le
  rw [List.length_nil] at heq
  have hp : pre = [] := by
    by_contra hp
    have hpos := List.length_pos_of_ne_nil hp
    have hs : start cfg.blockSize 1 ≤ start cfg.blockSize pre.length := start_mono hpos
    have hB := cfg.le_blockSize
    rw [start_one] at hs
    omega
  subst hp
  exact ⟨rfl, by simpa [start_zero, pointers] using heq⟩

theorem congr_of_ne (h : Branch cfg bytes pre block off data)
    (hp : data ≠ [] → ∀ b ∈ pre ++ [block], bytes' b = bytes b) : Branch cfg bytes' pre block off data := by
  by_cases hd : data = []
  case neg => exact h.congr (hp hd)
  case pos =>
    subst hd
    obtain ⟨rfl, rfl⟩ := h.eq_nil
    have hlt := h.chain.lt block (List.mem_singleton.mpr rfl)
    have hb : Branch cfg bytes' [] block ([] : List UInt8).length [] :=
      .first hlt (Nat.zero_le _) fun i a ha => by simp at ha
    exact hb

end Branch

theorem Holds.congr {bytes' : ℕ → ℕ → UInt8} {pre : List ℕ} (h : Holds cfg bytes pre head off data)
    (hp : data ≠ [] → ∀ b ∈ pre ++ [head], bytes' b = bytes b) : Holds cfg bytes' pre head off data := by
  rcases h with h | ⟨hb, hlt⟩
  case inl => exact .inl h
  case inr =>
    have heq := hb.eq
    exact .inr ⟨hb.congr (hp (List.ne_nil_of_length_pos (by omega))), hlt⟩

-- The block of a position is found, with the offset of the position in it.
theorem does_ctzFind {size : ℕ} (hP : ∀ v, P v → Chain cfg v.bytes blocks data)
    (hs : size < 2 ^ 32) (hi : Located cfg.blockSize (size - 1) i off) (hh : blocks[i]? = some head)
    (hp : pos < size) :
    FallibleHoare (exec cfg faults) P (ctzFind cfg head size pos)
      (fun r v => P v ∧ ∃ j, Located cfg.blockSize pos j r.2 ∧ blocks[j]? = some r.1) fun _ => P := by
  have hn := (cfg.located_index (show size - 1 < 2 ^ 32 by omega)).right
  have ht := (cfg.located_index (show pos < 2 ^ 32 by omega)).right
  obtain ⟨rfl, -⟩ := hi.unique hn
  rw [ctzFind, if_neg (by omega)]
  exact (does_ctzSeek hP hh (ht.mono hn (by omega))).bind fun b => .pure fun v ⟨hv, hb⟩ => ⟨hv, _, ht, hb⟩

section

variable {n size block : ℕ}

-- A bound for the number of pointers to follow: first those to blocks that have more pointers, until one
-- of these leads far enough, and then at most one for each bit of the distance.
def hops (current target : ℕ) : ℕ :=
  let bits := (current - target).size
  bits + (bits - 1 - ctz current)

theorem lt_ctz_sub (h : 2 ^ ctz current < current) : ctz current < ctz (current - 2 ^ ctz current) := by
  have hc : current ≠ 0 := Nat.ne_zero_of_lt h
  obtain ⟨m, hm⟩ := (pow_dvd_iff hc).mpr (Nat.le_refl (ctz current))
  have hodd : m % 2 = 1 := by
    rcases Nat.mod_two_eq_zero_or_one m with hm' | hm'
    case inl =>
      obtain ⟨j, rfl⟩ := Nat.dvd_of_mod_eq_zero hm'
      have hd : 2 ^ (ctz current + 1) ∣ current := ⟨j, by rw [pow_succ, Nat.mul_assoc]; exact hm⟩
      exact absurd ((pow_dvd_iff hc).mp hd) (Nat.not_succ_le_self _)
    case inr => exact hm'
  refine (pow_dvd_iff (by omega)).mp ⟨m / 2, ?_⟩
  have he : m = 2 * (m / 2) + 1 := by omega
  rw [pow_succ, Nat.mul_assoc]
  generalize 2 ^ ctz current = p at hm
  rw [hm, ← Nat.mul_sub_one]
  exact congrArg (p * ·) (by omega)

theorem hops_sub (h : target < current) :
    hops (current - 2 ^ min (npw2 (current - target + 1) - 1) (ctz current)) target < hops current target := by
  have hs := Nat.size_pos.mpr (Nat.sub_pos_of_lt h)
  have hp := Nat.lt_size.mp (Nat.sub_one_lt hs.ne')
  rw [npw2, Nat.add_sub_cancel, hops, hops]
  generalize hb : (current - target).size = bits at hs hp ⊢
  have hlt : current - target < 2 ^ bits := hb ▸ Nat.lt_size_self _
  rcases Nat.lt_or_ge (ctz current) (bits - 1) with hc | hc
  case inl =>
    rw [min_eq_right hc.le]
    have hpow := Nat.pow_lt_pow_right (a := 2) (by decide) hc
    have hs' : (current - 2 ^ ctz current - target).size ≤ bits :=
      hb ▸ Nat.size_le_size (Nat.sub_le_sub_right (Nat.sub_le ..) _)
    have hc' := @lt_ctz_sub current (by omega)
    omega
  case inr =>
    rw [min_eq_left hc]
    have hbits : 2 ^ bits = 2 ^ (bits - 1) * 2 := by rw [← pow_succ, Nat.sub_add_cancel hs]
    have hs' : (current - 2 ^ (bits - 1) - target).size ≤ bits - 1 := Nat.size_le.mpr (by omega)
    have hc' : (current - 2 ^ (bits - 1) - target).size ≤ ctz (current - 2 ^ (bits - 1)) := by
      rcases Nat.eq_zero_or_pos (current - 2 ^ (bits - 1)) with he | hpos
      case inl => simp [he]
      case inr =>
        have hd := Nat.dvd_sub ((pow_dvd_iff (by omega)).mpr hc) (Nat.dvd_refl _)
        exact hs'.trans ((pow_dvd_iff hpos.ne').mp hd)
    omega

theorem logs_readPointer : FallibleHoare (logging (exec cfg faults)) (fun s => s.2.length = n)
    (bdReadPointer block off) (fun _ s => s.2.length = n + 1) fun _ s => s.2.length = n + 1 := by
  refine FallibleHoare.bind (I := fun _ s => s.2.length = n + 1) ?_ fun _ => .pure fun _ hs => hs
  refine Hoare.perform (S := sig) (o := .read block off 4) fun ⟨v, l⟩ r ⟨v', l'⟩ hn hm => ?_
  have hl : l'.length = n + 1 := by
    rw [(mem_logging.mp hm).right, List.length_append, hn]
    rfl
  cases r <;> exact hl

theorem logs_ctzSeek : FallibleHoare (logging (exec cfg faults)) (fun s => s.2.length = n)
    (ctzSeek current target head) (fun _ s => s.2.length ≤ n + hops current target)
    fun _ s => s.2.length ≤ n + hops current target := by
  induction current using Nat.strong_induction_on generalizing head n
  case h current hi =>
    rw [ctzSeek]
    split
    case isTrue hlt =>
      have hh := hops_sub hlt
      have hp := Nat.two_pow_pos (min (npw2 (current - target + 1) - 1) (ctz current))
      refine FallibleHoare.bind (logs_readPointer.weaken_error fun _ s hs => by omega) fun b => ?_
      exact (hi _ (by omega)).weaken (fun _ h => h) (fun _ s hs => by omega) fun _ s hs => by omega
    case isFalse => exact .pure fun s hs => by omega

-- Whatever is in the blocks, the number of pointers that are read is logarithmic in the distance.
theorem logs_ctzFind : FallibleHoare (logging (exec cfg faults)) (fun s => s.2 = [])
    (ctzFind cfg head size pos)
    (fun _ s => s.2.length ≤ 2 * ((cfg.index (size - 1)).1 - (cfg.index pos).1).size)
    fun _ s => s.2.length ≤ 2 * ((cfg.index (size - 1)).1 - (cfg.index pos).1).size := by
  have hh : hops (cfg.index (size - 1)).1 (cfg.index pos).1 ≤
      2 * ((cfg.index (size - 1)).1 - (cfg.index pos).1).size := by
    rw [hops]
    omega
  rw [ctzFind]
  split
  case isTrue => exact .pure fun s hs => by simp [hs]
  case isFalse =>
    refine FallibleHoare.bind ((logs_ctzSeek (n := 0)).weaken (fun s hs => by simp [hs]) (fun _ s hs => ?_)
      fun _ s hs => ?_) fun b => .pure fun _ hs => hs
    case refine_1 => exact (Nat.zero_add _ ▸ hs).trans hh
    case refine_2 => exact (Nat.zero_add _ ▸ hs).trans hh

end

section

variable {v₀ : Volume} {block nblock n : ℕ}

-- The bytes are read from somewhere else.
def Reads (cfg : Config) (faults : Faults) (cache : Cache) (read : ℕ → Lfs (List UInt8)) (nblock : ℕ) (v₀ : Volume)
    (row : ℕ → UInt8) : Prop :=
  ∀ (P : Volume → Prop) i, (∀ v, P v → Written cache nblock v₀ v) →
    FallibleHoare (exec cfg faults) P (read i) (fun bytes v => bytes = [row i] ∧ P v) fun _ => P

theorem reads_bdRead {cache : Cache} (hne : block ≠ nblock) :
    Reads cfg faults cache (bdRead block · 1) nblock v₀ (v₀.bytes block) :=
  fun _ _ hP => does_read (fun v hv => ⟨by simp [Volume.view, (hP v hv).bytes hne], hv⟩) fun _ _ hv => hv

theorem does_copyBytes {cache : Cache} {read : ℕ → Lfs (List UInt8)} {row : ℕ → UInt8} (hb : nblock ∈ v₀.fresh)
    (hlt : nblock < cfg.blockCount) (hs : i + n ≤ cfg.blockSize) (hr : Reads cfg faults cache read nblock v₀ row) :
    FallibleHoare (exec cfg faults)
      (fun v => Written cache nblock v₀ v ∧ v.caches cache = cfg.caught nblock i ∧
        ∀ j < i, v.bytes nblock j = row j)
      (copyBytes cache read nblock n i)
      (fun ok v => Written cache nblock v₀ v ∧
        (ok = true → v.caches cache = cfg.caught nblock (i + n) ∧ ∀ j < i + n, v.bytes nblock j = row j))
      fun _ => Written cache nblock v₀ := by
  induction n generalizing i
  case zero => exact .pure fun v hv => ⟨hv.left, fun _ => hv.right⟩
  case succ n hi =>
    refine FallibleHoare.bind (I := fun data v => data = [row i] ∧
      Written cache nblock v₀ v ∧ v.caches cache = cfg.caught nblock i ∧ ∀ j < i, v.bytes nblock j = row j)
      ((hr _ i fun _ hv => hv.left).weaken_error fun _ _ h => h.left)
      fun data => .and_left fun hd => ?_
    subst hd
    refine FallibleHoare.bind (I := fun ok v => Written cache nblock v₀ v ∧
      (ok = true → v.caches cache = cfg.caught nblock (i + 1) ∧ ∀ j < i + 1, v.bytes nblock j = row j))
      (does_orRelocate (F := fun _ => Written cache nblock v₀) (does_prog ?_ ?_ ?_ ?_) ?_ fun _ _ h => h)
      fun ok => ?_
    case refine_1 =>
      intro v hv
      exact ⟨hv.left.fresh ▸ hb, hlt, by simp only [List.length_singleton]; omega⟩
    case refine_2 => exact fun v hv => hv.right.left
    case refine_3 =>
      intro v flashRow hv
      refine ⟨hv.left.prog, fun _ => ⟨setCache_caches, fun j hj => ?_⟩⟩
      rw [setBlock_bytes]
      rcases Nat.lt_succ_iff_lt_or_eq.mp hj with hj | rfl
      case inl => rw [overwrite_of_lt hj, hv.right.right j hj]
      case inr => exact overwrite_add (i := 0) rfl
    case refine_4 => exact fun v e c row flashRow hv _ => hv.left.prog
    case refine_5 => exact fun v hv => ⟨hv, fun h => absurd h Bool.false_ne_true⟩
    case refine_6 =>
      cases ok
      case false => exact .pure fun v hv => ⟨hv.left, fun h => absurd h Bool.false_ne_true⟩
      case true =>
        rw [show i + (n + 1) = i + 1 + n by omega]
        exact (hi (by omega)).weaken (fun v hv => ⟨hv.left, hv.right rfl⟩) (fun _ _ h => h) fun _ _ h => h

-- Each pointer is found in the block that the pointer before leads to.
theorem does_linkBlock {f : ℕ → ℕ} (hb : nblock ∈ v₀.fresh) (hlt : nblock < cfg.blockCount)
    (hs : 4 * (i + n) ≤ cfg.blockSize) (hl : ∀ k < i + n, f k < 2 ^ 32 ∧ f k ≠ nblock)
    (hn : ∀ k, k + 1 < i + n → pointer v₀.bytes (f k) k = f (k + 1)) :
    FallibleHoare (exec cfg faults)
      (fun v => Written .file nblock v₀ v ∧ v.caches .file = cfg.caught nblock (4 * i) ∧
        ∀ k < i, pointer v.bytes nblock k = f k)
      (linkBlock nblock n i (f i))
      (fun ok v => Written .file nblock v₀ v ∧ (ok = true → v.caches .file = cfg.caught nblock (4 * (i + n)) ∧
        ∀ k < i + n, pointer v.bytes nblock k = f k))
      fun _ => Written .file nblock v₀ := by
  induction n generalizing i
  case zero => exact .pure fun v hv => ⟨hv.left, fun _ => hv.right⟩
  case succ n hi =>
    have hlen : (toLe32 (f i)).length = 4 := by simp [toLe32]
    refine FallibleHoare.bind (I := fun ok v => Written .file nblock v₀ v ∧ (ok = true →
      v.caches .file = cfg.caught nblock (4 * (i + 1)) ∧ ∀ k < i + 1, pointer v.bytes nblock k = f k))
      (does_orRelocate (F := fun _ => Written .file nblock v₀) (does_prog ?_ ?_ ?_ ?_) ?_ fun _ _ h => h)
      fun ok => ?_
    case refine_1 => exact fun v hv => ⟨hv.left.fresh ▸ hb, hlt, by omega⟩
    case refine_2 => exact fun v hv => hv.right.left
    case refine_3 =>
      intro v flashRow hv
      refine ⟨hv.left.prog, fun _ => ⟨by rw [setBlock_caches, setCache_caches, hlen, Nat.mul_succ], fun k hk => ?_⟩⟩
      rcases Nat.lt_succ_iff_lt_or_eq.mp hk with hk | rfl
      case inl =>
        rw [← hv.right.right k hk]
        refine pointer_congr fun j hj => ?_
        rw [setBlock_bytes, overwrite_of_lt (by omega)]
      case inr => exact pointer_overwrite setBlock_bytes (hl k (by omega)).left
    case refine_4 => exact fun v e c row flashRow hv _ => hv.left.prog
    case refine_5 => exact fun v hv => ⟨hv, fun h => absurd h Bool.false_ne_true⟩
    case refine_6 =>
      cases ok
      case false => exact .pure fun v hv => ⟨hv.left, fun h => absurd h Bool.false_ne_true⟩
      case true =>
        rw [show i + (n + 1) = i + 1 + n by omega] at hs hl hn ⊢
        by_cases hz : n = 0
        case pos =>
          subst hz
          exact .pure fun v hv => hv
        case neg =>
          simp only [hz]
          refine FallibleHoare.bind (I := fun nhead v => nhead = f (i + 1) ∧ Written .file nblock v₀ v ∧
            v.caches .file = cfg.caught nblock (4 * (i + 1)) ∧ ∀ k < i + 1, pointer v.bytes nblock k = f k)
            (does_readPointer (fun v hv => ⟨?_, hv.left, hv.right trivial⟩) fun _ _ hv => hv.left)
            fun nhead => .and_left fun he => ?_
          case refine_1 =>
            rw [← hn i (by omega)]
            exact pointer_congr fun j _ => by rw [hv.left.bytes (hl i (by omega)).right]
          case refine_2 => exact he ▸ hi hs hl hn

variable {pre : List ℕ}

-- What a new block holds after the blocks were extended by it.
def Extended (cfg : Config) (bytes : ℕ → ℕ → UInt8) (pre : List ℕ) (head nblock off : ℕ)
    (data : List UInt8) :
    Prop :=
  ∃ pre', Branch cfg bytes pre' nblock off data ∧ off < cfg.blockSize ∧
    ∀ b ∈ pre', data ≠ [] ∧ b ∈ pre ++ [head]

-- The block that a pointer of the block after the last one leads to.
def linkOf (blocks : List ℕ) (k : ℕ) : ℕ :=
  blocks[blocks.length - 2 ^ k]?.getD 0

theorem getElem?_linkOf (hb : blocks ≠ []) :
    blocks[blocks.length - 2 ^ k]? = some (linkOf blocks k) := by
  have hl := List.length_pos_of_ne_nil hb
  have hp := Nat.two_pow_pos k
  rw [linkOf, List.getElem?_eq_getElem (by omega)]
  rfl

theorem pointer_linkOf (h : Chain cfg bytes blocks data) (hb : blocks ≠ []) (hk : k + 1 ≤ ctz blocks.length) :
    pointer bytes (linkOf blocks k) k = linkOf blocks (k + 1) := by
  have hn : blocks.length ≠ 0 := (List.length_pos_of_ne_nil hb).ne'
  have hd := (pow_dvd_iff hn).mpr hk
  have hle := Nat.le_of_dvd (Nat.pos_of_ne_zero hn) hd
  have hp := Nat.two_pow_pos k
  have hz : blocks.length - 2 ^ k ≠ 0 := by omega
  have hd' : 2 ^ k ∣ blocks.length - 2 ^ k :=
    Nat.dvd_sub ((Nat.pow_dvd_pow 2 (Nat.le_succ k)).trans hd) (Nat.dvd_refl _)
  have hm := h.pointer _ k _ (getElem?_linkOf hb) hz ((pow_dvd_iff hz).mp hd')
  rw [Nat.sub_sub, ← Nat.two_mul, ← Nat.pow_succ', getElem?_linkOf hb] at hm
  exact (Option.some_inj.mp hm).symm

section

variable {off' : ℕ}

-- What a new block holds if there is an offset to write to.
def Ended (cfg : Config) (v₀ : Volume) (pre : List ℕ) (head nblock : ℕ) (data : List UInt8) (r : Option ℕ)
    (v : Volume) : Prop :=
  Written .file nblock v₀ v ∧ ∀ off', r = some off' →
    Extended cfg v.bytes pre head nblock off' data ∧ v.caches .file = cfg.caught nblock off'

-- Just copies out the last block.
theorem does_copyBlock (hbr : Branch cfg v₀.bytes pre head off data) (hd : data ≠ []) (ho : off < cfg.blockSize)
    (hb : nblock ∈ v₀.fresh) (hlt : nblock < cfg.blockCount) (hne : nblock ∉ pre ++ [head]) :
    FallibleHoare (exec cfg faults) (fun v => Written .file nblock v₀ v ∧ v.caches .file = none)
      (do return if ← copyBytes .file (bdRead head · 1) nblock off 0 then some off else none)
      (Ended cfg v₀ pre head nblock data) fun _ => Written .file nblock v₀ := by
  have hr : head ≠ nblock := fun he => hne (List.mem_append_right _ (List.mem_singleton.mpr he.symm))
  have hp {b : ℕ} (hb : b ∈ pre) : b ≠ nblock := fun he => hne (List.mem_append_left _ (he ▸ hb))
  refine FallibleHoare.bind ((does_copyBytes (n := off) (i := 0) hb hlt (by omega) (reads_bdRead hr)).weaken
    (fun v hv => ⟨hv.left, hv.right.trans caught_zero.symm, fun j hj => absurd hj (Nat.not_lt_zero j)⟩)
    (fun _ _ h => h) fun _ _ h => h) fun ok => .pure fun v hv => ⟨hv.left, fun off' he => ?_⟩
  cases ok <;> cases he
  have hc := hv.right rfl
  rw [Nat.zero_add] at hc
  have hn : nblock ∉ pre := fun hm => hne (List.mem_append_left _ hm)
  exact ⟨⟨pre, hbr.copy (fun b hb => hv.left.bytes (hp hb)) hc.right hlt hn, ho, fun b hb =>
    ⟨hd, List.mem_append_left _ hb⟩⟩, hc.left⟩

-- Programs the pointers of the block after the last one.
theorem does_linkBranch (hbr : Branch cfg v₀.bytes pre head cfg.blockSize data) (hd : data ≠ [])
    (hs : data.length < 2 ^ 32) (hb : nblock ∈ v₀.fresh) (hlt : nblock < cfg.blockCount)
    (hne : nblock ∉ pre ++ [head]) :
    FallibleHoare (exec cfg faults) (fun v => Written .file nblock v₀ v ∧ v.caches .file = none)
      (do return if ← linkBlock nblock (ctz (pre.length + 1) + 1) 0 head then
        some (4 * (ctz (pre.length + 1) + 1)) else none)
      (Ended cfg v₀ pre head nblock data) fun _ => Written .file nblock v₀ := by
  have hB := cfg.le_blockSize
  have heq := hbr.eq
  have hle := hbr.le
  have hbl : pre ++ [head] ≠ [] := by simp
  have hlen : (pre ++ [head]).length = pre.length + 1 := by simp
  have hm : pre.length + 1 < maxIndex := lt_maxIndex
    (show start cfg.blockSize (pre.length + 1) < 2 ^ 32 by rw [start_succ]; omega)
  have hp := pointers_le hm
  have hpe : pointers (pre.length + 1) = ctz (pre.length + 1) + 1 := if_neg (Nat.succ_ne_zero _)
  have hlk : ∀ k, linkOf (pre ++ [head]) k ∈ pre ++ [head] := fun k => List.mem_of_getElem? (getElem?_linkOf hbl)
  have hzero : linkOf (pre ++ [head]) 0 = head := by simp [linkOf]
  have hlink := @does_linkBlock cfg faults 0 v₀ nblock (ctz (pre.length + 1) + 1) (linkOf (pre ++ [head])) hb hlt
    (by omega) (fun k _ => ⟨?_, ?_⟩) fun k hk => ?_
  case refine_1 => exact (hbr.chain.lt _ (hlk k)).trans_le (cfg.blockCount_lt.trans (by decide))
  case refine_2 => exact fun he => hne (he ▸ hlk k)
  case refine_3 =>
    rw [Nat.zero_add, ← hlen] at hk
    exact pointer_linkOf hbr.chain hbl (by omega)
  rw [hzero] at hlink
  refine FallibleHoare.bind (hlink.weaken
    (fun v hv => ⟨hv.left, hv.right.trans caught_zero.symm, fun k hk => absurd hk (Nat.not_lt_zero k)⟩)
    (fun _ _ h => h) fun _ _ h => h) fun ok => .pure fun v hv => ⟨hv.left, fun off' he => ?_⟩
  cases ok <;> cases he
  have hc := hv.right rfl
  rw [Nat.zero_add] at hc
  rw [← hpe] at hc ⊢
  refine ⟨⟨pre ++ [head], hbr.link (fun b hb => hv.left.bytes fun he => hne (he ▸ hb)) (fun k hk => ?_) hlt hne
    (by omega), by omega, fun b hb => ⟨hd, hb⟩⟩, hc.left⟩
  rw [hc.right k (by omega), ← hlen]
  exact getElem?_linkOf hbl

end

theorem does_extendInto (hh : Holds cfg v₀.bytes pre head off data) (hs : data.length < 2 ^ 32)
    (hb : nblock ∈ v₀.fresh) (hlt : nblock < cfg.blockCount) (hne : data ≠ [] → nblock ∉ pre ++ [head])
    (hc : v₀.caches .file = none) :
    FallibleHoare (exec cfg faults) (fun v => v = v₀) (extendInto cfg nblock head data.length)
      (Ended cfg v₀ pre head nblock data) fun _ => Written .file nblock v₀ := by
  refine FallibleHoare.bind (I := fun _ v => Written .file nblock v₀ v ∧ v.caches .file = none)
    (does_orRelocate (F := fun _ v => Written .file nblock v₀ v ∧ v.caches .file = none) (does_erase ?_ ?_ ?_)
    (fun _ h => h) fun _ _ h => h.left) fun ok => ?_
  case refine_1 => rintro _ rfl; exact ⟨hb, hlt⟩
  case refine_2 => rintro _ row flashRow rfl; exact ⟨.setBlock, hc⟩
  case refine_3 => rintro _ e row flashRow rfl; exact ⟨.setBlock, hc⟩
  cases ok
  case false => exact .pure fun v hv => ⟨hv.left, fun _ he => absurd he (by simp)⟩
  rcases hh with ⟨rfl, rfl⟩ | ⟨hbr, hlt'⟩
  case true.inl =>
    refine .pure fun v hv => ⟨hv.left, fun off' he => ⟨?_, ?_⟩⟩ <;> cases he
    case refine_1 =>
      have hB := cfg.le_blockSize
      have hb : Branch cfg v.bytes [] nblock ([] : List UInt8).length [] :=
        .first hlt (Nat.zero_le _) fun i a ha => by simp at ha
      exact ⟨[], hb, by omega, fun b hb => absurd hb List.not_mem_nil⟩
    case refine_2 => exact hv.right.trans caught_zero.symm
  case true.inr =>
    have heq := hbr.eq
    have hle := hbr.off_le
    have hi : cfg.index (data.length - 1) = (pre.length, off - 1) := by
      obtain ⟨h₁, h₂⟩ := (hbr.located hlt').unique (cfg.located_index (by omega)).right
      exact Prod.ext h₁.symm h₂.symm
    have hz : data.length ≠ 0 := by omega
    have hd : data ≠ [] := List.ne_nil_of_length_pos (Nat.pos_of_ne_zero hz)
    simp only [Bool.not_true, Bool.false_eq_true, hz, hi, show off - 1 + 1 = off by omega, ↓reduceIte]
    split
    case isTrue hn  => exact does_copyBlock hbr hd (by omega) hb hlt (hne hd)
    case isFalse hn =>
      obtain rfl : off = cfg.blockSize := by omega
      exact does_linkBranch hbr hd hs hb hlt (hne hd)

-- The number of blocks that were not given out since the last checkpoint.
def Volume.available (cfg : Config) (v : Volume) : ℕ :=
  ((Finset.range cfg.blockCount).filter (· ∉ v.allocator.pending)).card

-- A block was given out for a file and written to.
structure Prepared (cfg : Config) (v₀ v : Volume) (nblock : ℕ) : Prop where
  frame   : Frame cfg (v₀.Kept cfg) v₀ v
  lt      : nblock < cfg.blockCount
  fresh   : nblock ∈ v.fresh
  new     : nblock ∉ v₀.traversed cfg
  pending : nblock ∈ v.allocator.pending
  unused  : nblock ∉ v₀.allocator.pending
  kept    : ∀ b ∈ v₀.allocator.pending, b ∈ v.allocator.pending

namespace Prepared

variable {v v₁ : Volume}

theorem available_lt (h : Prepared cfg v₀ v nblock) : v.available cfg < v₀.available cfg := by
  refine Finset.card_lt_card (Finset.ssubset_iff_of_subset ?_ |>.mpr ⟨nblock, ?_, ?_⟩)
  case refine_1 => exact Finset.monotone_filter_right _ fun b _ hn hh => hn (h.kept b hh)
  case refine_2 => simp [h.lt, h.unused]
  case refine_3 => simp [h.pending]

theorem tracked (h : Prepared cfg v₀ v nblock) : v.Tracked cfg nblock :=
  fun _ => .inr h.pending

theorem ne {b : ℕ} (h : Prepared cfg v₀ v nblock) (hb : v₀.Kept cfg b) : b ≠ nblock :=
  hb.ne h.new h.lt

theorem written {cache : Cache} (h : Allocated cfg v₀ v₁ nblock) (hw : Written cache nblock v₁ v) :
    Prepared cfg v₀ v nblock where
  frame      := h.frame.trans (hw.frame.mono fun _ hb => hb.ne h.new h.lt)
  lt         := h.lt
  fresh      := hw.fresh ▸ h.fresh
  new        := h.new
  pending    := by
    rw [hw.allocator, h.pending]
    exact List.mem_cons_self
  unused     := h.unused
  kept b hb  := by
    rw [hw.allocator, h.pending]
    exact List.mem_cons_of_mem _ hb

theorem setCache {cache : Cache} {c : Option (ℕ × ℕ)} (h : Prepared cfg v₀ v nblock) :
    Prepared cfg v₀ (v.setCache cache c) nblock :=
  { h with frame := { h.frame with } }

-- Blocks that turned out to be bad are not used.
theorem of_prepared {b : ℕ} (h : Prepared cfg v₁ v nblock) (h₁ : Prepared cfg v₀ v₁ b) :
    Prepared cfg v₀ v nblock where
  frame     := h₁.frame.trans (h.frame.mono fun _ hk => hk.frame h₁.frame)
  lt        := h.lt
  fresh     := h.fresh
  new       := h₁.frame.traversed ▸ h.new
  pending   := h.pending
  unused hb := h.unused (h₁.kept _ hb)
  kept b hb := h.kept b (h₁.kept b hb)

end Prepared

-- A block is added to the blocks of a file. Bad blocks are passed over, as long as there are others.
theorem does_ctzExtend (ha : Accounted cfg v₀) (hh : Holds cfg v₀.bytes pre head off data)
    (hs : data.length < 2 ^ 32) (hm : data ≠ [] → ∀ b ∈ pre ++ [head], b ∈ v₀.traversed cfg)
    (hc : v₀.caches .file = none) (hn : v₀.available cfg < n) :
    FallibleHoare (exec cfg faults) (fun v => v = v₀) (ctzExtend cfg head data.length n)
      (fun r v => Prepared cfg v₀ v r.1 ∧ Extended cfg v.bytes pre head r.1 r.2 data ∧
        v.caches .file = cfg.caught r.1 r.2 ∧ v.caches .pcache = v₀.caches .pcache)
      fun _ => Frame cfg (v₀.Kept cfg) v₀ := by
  induction n generalizing v₀
  case zero => exact absurd hn (Nat.not_lt_zero _)
  case succ n hi =>
    refine FallibleHoare.bind (I := fun b v => Allocated cfg v₀ v b)
      (does_alloc ?_ ?_ ?_) fun nblock => does_of_eq fun v₁ hal => ?_
    case refine_1 => rintro _ rfl; exact ha
    case refine_2 => rintro _ v b rfl hv; exact hv
    case refine_3 => rintro _ v e rfl hv; exact hv
    have hne : data ≠ [] → nblock ∉ pre ++ [head] := fun hd hb => hal.new (hm hd _ hb)
    have hh' : Holds cfg v₁.bytes pre head off data := hal.bytes ▸ hh
    refine FallibleHoare.bind ((does_extendInto hh' hs hal.fresh hal.lt hne (hal.caches ▸ hc)).weaken_error
      fun _ v hv => (Prepared.written hal hv).frame) fun r => ?_
    cases r
    case some off' =>
      refine .pure fun v hv => ⟨.written hal hv.left, (hv.right off' rfl).left, (hv.right off' rfl).right, ?_⟩
      rw [hv.left.caches (by decide), hal.caches]
    case none =>
      refine FallibleHoare.bind (I := fun _ v => Written .file nblock v₁ v ∧ v.caches .file = none)
        (does_cacheDrop fun v hv => ⟨hv.left.drop, setCache_caches⟩) fun _ => does_of_eq fun v hv => ?_
      have hp := Prepared.written hal hv.left
      have hpc : v.caches .pcache = v₀.caches .pcache := by rw [hv.left.caches (by decide), hal.caches]
      have hf := hp.frame
      have hav := hp.available_lt
      refine (hi (ha.frame hf) (hh.congr fun hd b hb => hf.bytes b (.inl (hm hd b hb)))
        (fun hd b hb => hf.traversed ▸ hm hd b hb) hv.right (by omega)).weaken (fun _ h => h) (fun r v' hv' => ?_)
        fun _ v' hv' => ?_
      case refine_1 => exact ⟨hv'.left.of_prepared hp, hpc ▸ hv'.right⟩
      case refine_2 => exact hf.trans (hv'.mono fun _ h => h.frame hf)

end

section

variable {Q : List ℕ → Volume → Prop} {R : LfsError → Volume → Prop} {cb : ℕ → Lfs Unit} {seen visited : List ℕ}

theorem take_view {v : Volume} {block : ℕ} (hi : i = 4 ∨ i = 8) :
    fromLe32 ((v.view block 0 i).take 4) = pointer v.bytes block 0 := by
  rcases hi with rfl | rfl <;> simp [Volume.view, pointer, List.range_succ]

theorem drop_view {v : Volume} {block : ℕ} :
    fromLe32 ((v.view block 0 8).drop 4) = pointer v.bytes block 1 := by
  simp [Volume.view, pointer, List.range_succ]

theorem reverse_take_succ (hh : blocks[i]? = some head) :
    (blocks.take (i + 1)).reverse = head :: (blocks.take i).reverse := by
  rw [List.take_add_one, hh]
  simp

-- A traversal visits the blocks up to the one that it starts at.
theorem Chain.ctzVisited (h : Chain cfg bytes blocks data) (hh : blocks[i]? = some head) :
    ctzVisited bytes i head = (blocks.take (i + 1)).reverse := by
  induction i using Nat.strong_induction_on generalizing head
  case h i hi =>
    rw [Littlefs.ctzVisited, reverse_take_succ hh]
    split
    case isTrue hz  => simp [hz]
    case isFalse hz =>
      have hp {k : ℕ} (hk : 2 ^ k ∣ i) : blocks[i - 2 ^ k]? = some (Littlefs.pointer bytes head k) :=
        h.pointer i k head hh hz ((pow_dvd_iff hz).mp hk)
      have h₀ : blocks[i - 1]? = some (Littlefs.pointer bytes head 0) := hp (k := 0) (Nat.one_dvd i)
      have ht := reverse_take_succ h₀
      rw [show i - 1 + 1 = i by omega] at ht
      split
      case isTrue hm =>
        have h₁ : blocks[i - 2]? = some (Littlefs.pointer bytes head 1) := hp (k := 1) (Nat.dvd_of_mod_eq_zero hm)
        rw [ht, hi (i - 2) (by omega) h₁, show i - 2 + 1 = i - 1 by omega]
      case isFalse =>
        rw [hi (i - 1) (by omega) h₀, show i - 1 + 1 = i by omega]

theorem Holds.ctzTraversed {pre : List ℕ} (h : Holds cfg bytes pre head off data) (hs : data.length < 2 ^ 32) :
    cfg.ctzTraversed bytes head data.length = if data = [] then [] else head :: pre.reverse := by
  rcases h with ⟨rfl, rfl⟩ | ⟨hb, hlt⟩
  case inl => rfl
  case inr =>
    have heq := hb.eq
    obtain ⟨h₁, -⟩ := (hb.located hlt).unique (cfg.located_index (by omega)).right
    have hd : data ≠ [] := List.ne_nil_of_length_pos (by omega)
    rw [Config.ctzTraversed, if_neg (by omega), if_neg hd, ← h₁, hb.chain.ctzVisited (by simp),
      List.take_of_length_le (by simp)]
    simp

theorem exists_ctzVisited : ∃ rest, ctzVisited bytes i head = head :: rest := by
  rw [ctzVisited]
  split
  case isTrue => exact ⟨[], rfl⟩
  case isFalse =>
    split
    case isTrue  => exact ⟨_, rfl⟩
    case isFalse => exact ⟨_, rfl⟩

theorem does_ctzVisit (hQ : ∀ l v, Q l v → ctzVisited v.bytes i head = visited)
    (hcb : ∀ l b, FallibleHoare (exec cfg faults) (Q l) (cb b) (fun _ => Q (l ++ [b])) R)
    (hr : ∀ l v e, Q l v → R e v) :
    FallibleHoare (exec cfg faults) (Q seen) (ctzVisit cb i head) (fun _ => Q (seen ++ visited)) R := by
  induction i using Nat.strong_induction_on generalizing head seen visited
  case h i hi =>
    rw [ctzVisit]
    refine FallibleHoare.bind (hcb seen head) fun _ => ?_
    split
    case isTrue hz =>
      refine .pure fun v hv => ?_
      have hv' := hQ _ v hv
      rw [ctzVisited, if_pos hz] at hv'
      exact hv' ▸ hv
    case isFalse hz =>
      rcases Nat.mod_two_eq_zero_or_one i with hm | hm
      case inl =>
        have hQ' {l : List ℕ} {v : Volume} (hv : Q l v) : head :: pointer v.bytes head 0 ::
            ctzVisited v.bytes (i - 2) (pointer v.bytes head 1) = visited := by
          have hv := hQ l v hv
          rwa [ctzVisited, if_neg hz, if_pos hm] at hv
        simp only [hm, Nat.sub_zero, reduceIte]
        refine FallibleHoare.bind (I := fun bytes v => (∃ rest, head :: fromLe32 (bytes.take 4) ::
          fromLe32 (bytes.drop 4) :: rest = visited) ∧ Q (seen ++ [head]) v)
          (does_read (fun v hv => ⟨?_, hv⟩) fun v e hv => hr _ v e hv) fun bytes => .and_left fun he => ?_
        case refine_1 =>
          obtain ⟨rest, he⟩ := @exists_ctzVisited v.bytes (i - 2) (pointer v.bytes head 1)
          rw [take_view (.inr rfl), drop_view]
          exact ⟨rest, he ▸ hQ' hv⟩
        obtain ⟨rest, he⟩ := he
        refine FallibleHoare.bind (hcb _ _) fun _ => ?_
        have hv := @hi (i - 2) (by omega) (fromLe32 (bytes.drop 4)) (seen ++ [head] ++ [fromLe32 (bytes.take 4)])
          (fromLe32 (bytes.drop 4) :: rest) fun l v hv => by
            have hv := (hQ' hv).trans he.symm
            obtain ⟨rest', he'⟩ := @exists_ctzVisited v.bytes (i - 2) (pointer v.bytes head 1)
            rw [he'] at hv
            simp only [List.cons.injEq, true_and] at hv
            rw [← hv.right.left, ← hv.right.right, ← he']
        rw [← he]
        simpa using hv
      case inr =>
        have hQ' {l : List ℕ} {v : Volume} (hv : Q l v) : head ::
            ctzVisited v.bytes (i - 1) (pointer v.bytes head 0) = visited := by
          have hv := hQ l v hv
          rwa [ctzVisited, if_neg hz, if_neg (by omega)] at hv
        simp only [hm, Nat.add_one_sub_one, Nat.mul_one, OfNat.one_ne_ofNat, reduceIte]
        refine FallibleHoare.bind (I := fun bytes v => (∃ rest, head :: fromLe32 (bytes.take 4) :: rest = visited) ∧
          Q (seen ++ [head]) v)
          (does_read (fun v hv => ⟨?_, hv⟩) fun v e hv => hr _ v e hv) fun bytes => .and_left fun he => ?_
        case refine_1 =>
          obtain ⟨rest, he⟩ := @exists_ctzVisited v.bytes (i - 1) (pointer v.bytes head 0)
          rw [take_view (.inl rfl)]
          exact ⟨rest, he ▸ hQ' hv⟩
        obtain ⟨rest, he⟩ := he
        have hv := @hi (i - 1) (by omega) (fromLe32 (bytes.take 4)) (seen ++ [head])
          (fromLe32 (bytes.take 4) :: rest) fun l v hv => by
            have hv := (hQ' hv).trans he.symm
            obtain ⟨rest', he'⟩ := @exists_ctzVisited v.bytes (i - 1) (pointer v.bytes head 0)
            rw [he'] at hv
            simp only [List.cons.injEq, true_and] at hv
            rw [← hv.left, ← hv.right, ← he']
        rw [← he]
        simpa using hv

-- The traversal visits each block of a file once.
theorem does_ctzTraverse {pre : List ℕ} (hQ : ∀ l v, Q l v → Holds cfg v.bytes pre head off data)
    (hs : data.length < 2 ^ 32)
    (hcb : ∀ l b, FallibleHoare (exec cfg faults) (Q l) (cb b) (fun _ => Q (l ++ [b])) R)
    (hr : ∀ l v e, Q l v → R e v) :
    FallibleHoare (exec cfg faults) (Q []) (ctzTraverse cfg head data.length cb)
      (fun _ => Q (if data = [] then [] else head :: pre.reverse)) R := by
  rw [ctzTraverse]
  split
  case isTrue hz =>
    rw [if_pos (List.length_eq_zero_iff.mp hz)]
    exact .pure fun v hv => hv
  case isFalse hz =>
    refine does_ctzVisit (fun l v hv => ?_) hcb hr
    have hv := (hQ l v hv).ctzTraversed hs
    rwa [Config.ctzTraversed, if_neg hz] at hv

end

-- The sizes of this device.
def device : Config where
  toAllocConfig := Allocator.allocConfig
  progSize      := 2
  cacheSize     := 128
  blockSize     := 1024
  inlineMax     := 128
  le_blockSize  := by decide
  blockSize_lt  := by decide
  blockCount_lt := by decide
  inlineMax_le  := by decide
  inlineMax_le' := by decide
  progSize_dvd  := by decide
  cacheSize_dvd := by decide

def noFaults : Faults where
  errors _ _ := []
  junk       := [fun _ => 0xff]
  cached     := []
  traversals := [fun _ => none]
  directory  := [([], [0, 1])]

-- A volume with an empty file.
def blank : Volume where
  bytes     := fun _ _ => 0xff
  flash     := fun _ _ => 0xff
  others    := [0, 1]
  allocator := .mount device.toAllocConfig 2 (Allocator.format device.toAllocConfig).lookahead [0, 1]
  fresh     := []
  entry     := .inline []
  file      := {
    head := 0, size := 0, pos := 0, block := 0, off := 0, isInline := false
    reading := false, writing := false, dirty := false, erred := false }
  orig      := {
    head := 0, size := 0, pos := 0, block := 0, off := 0, isInline := false
    reading := false, writing := false, dirty := false, erred := false }
  caches    := fun _ => none
  asserted  := true

-- The blocks of a file, of which one has one pointer and one has two.
def threeBlocks (block off : ℕ) : UInt8 :=
  match block with
  | 3 => [2, 0, 0, 0].getD off 0xff
  | 4 => [3, 0, 0, 0, 2, 0, 0, 0].getD off 0xff
  | _ => 0xff

theorem pointers_one : pointers 1 = 1 := by simp [pointers, ctz]

theorem ctz_two : ctz 2 = 1 := padicValNat_self

theorem pointers_two : pointers 2 = 2 := by rw [pointers, if_neg (by decide), ctz_two]

theorem start_two : start device.blockSize 2 = 2044 := by
  rw [start_succ, start_one, pointers_one]
  rfl

theorem holds_threeBlocks : Holds device threeBlocks [2, 3] 4 9 (.replicate 2045 0xff) := by
  have hs : pointers [2, 3].length = 2 := pointers_two
  refine .inr ⟨⟨⟨?_, ?_, ?_⟩, ?_, ?_, by decide, by decide⟩, by rw [hs]; decide⟩
  case refine_1 => decide
  case refine_2 =>
    intro i k b hb hi hk
    rcases i with _ | _ | _ | i
    case zero => exact absurd rfl hi
    case succ.zero =>
      obtain rfl : k = 0 := by simpa [ctz] using hk
      cases hb
      decide
    case succ.succ.zero =>
      cases hb
      rw [show 0 + 1 + 1 = 2 from rfl, ctz_two] at hk
      interval_cases k <;> decide
    case succ.succ.succ => simp at hb
  case refine_3 =>
    intro pos i off a ha hl
    rw [List.getElem?_replicate] at ha
    split at ha
    case isFalse => contradiction
    case isTrue hp =>
      cases ha
      have hi : i < 3 := Nat.lt_of_not_le fun hi => by
        have hm := (start_mono (n := device.blockSize) hi).trans hl.start_le
        rw [start_succ, start_two, pointers_two] at hm
        exact absurd hm (by simp only [device]; omega)
      have hle := hl.le
      rcases i with _ | _ | _ | i
      case zero => exact ⟨2, rfl, rfl⟩
      case succ.zero =>
        rw [pointers_one] at hle
        exact ⟨3, rfl, List.getD_eq_default _ _ hle⟩
      case succ.succ.zero =>
        rw [pointers_two] at hle
        exact ⟨4, rfl, List.getD_eq_default _ _ hle⟩
      case succ.succ.succ => omega
  case refine_4 =>
    rw [hs, List.length_replicate]
    exact congrArg (· + 9) start_two
  case refine_5 => rw [hs]; decide

-- The callback gets blocks of the file only.
theorem does_ctzTraverse_threeBlocks :
    let v := { blank with bytes := threeBlocks }
    Holds device v.bytes [2, 3] 4 9 (.replicate 2045 0xff) ∧
      FallibleHoare (exec device noFaults) (· = v) (ctzTraverse device 4 2045 fun b => lfsAssert (b ∈ [2, 3, 4]))
        (fun _ => (· = v)) fun _ _ => True := by
  intro v
  have hcb (l : List ℕ) (b : ℕ) : FallibleHoare (exec device noFaults)
      (· = v.assert (l.all (· ∈ [2, 3, 4]))) (lfsAssert (b ∈ [2, 3, 4]))
      (fun _ => (· = v.assert ((l ++ [b]).all (· ∈ [2, 3, 4])))) fun _ _ => True :=
    .lift <| Hoare.perform (S := sig) (o := .assert (b ∈ [2, 3, 4])) fun v' _ _ hv hm => by
      cases List.mem_singleton.mp hm
      rw [hv, List.all_append]
      simp [Volume.assert, Bool.and_assoc]
  have hQ (l : List ℕ) (v' : Volume) (hv : v' = v.assert (l.all (· ∈ [2, 3, 4]))) :
      Holds device v'.bytes [2, 3] 4 9 (.replicate 2045 0xff) := hv ▸ holds_threeBlocks
  have ht := does_ctzTraverse hQ (by rw [List.length_replicate]; decide) hcb fun _ _ _ _ => trivial
  rw [List.length_replicate] at ht
  exact ⟨holds_threeBlocks, ht⟩

end Littlefs
