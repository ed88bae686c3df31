import Mathlib.Data.Nat.ModEq
import Mathlib.Tactic.Common
import SecureHome.Lib.Trace

-- The block allocator of LittleFS.
namespace Littlefs

-- The sizes that the allocator depends on. Both are checked when the file system is initialized.
structure AllocConfig where
  blockCount        : ℕ
  lookaheadSize     : ℕ
  blockCount_pos    : 0 < blockCount
  lookaheadSize_pos : 0 < lookaheadSize

-- The window of blocks that were looked up in the tree, where the bits of the buffer are set for the
-- blocks in use.
structure Lookahead where
  start   : ℕ
  size    : ℕ
  next    : ℕ
  ckpoint : ℕ
  buffer  : ℕ → Bool

def lfsErrNospc : ℤ := -28

variable (cfg : AllocConfig)

def allocCkpoint (lookahead : Lookahead) : Lookahead :=
  { lookahead with ckpoint := cfg.blockCount }

def allocDrop (lookahead : Lookahead) : Lookahead :=
  allocCkpoint cfg { lookahead with size := 0, next := 0 }

def allocLookahead (lookahead : Lookahead) (block : ℕ) : Lookahead :=
  let off := (block + cfg.blockCount - lookahead.start) % cfg.blockCount
  if off < lookahead.size then
    { lookahead with buffer := fun i => if i = off then true else lookahead.buffer i }
  else
    lookahead

-- Moves the window to the first block that was not passed over yet. It is limited to the blocks that were
-- not looked at since the last checkpoint.
def Lookahead.move (lookahead : Lookahead) : Lookahead where
  start   := (lookahead.start + lookahead.next) % cfg.blockCount
  size    := min (8 * cfg.lookaheadSize) lookahead.ckpoint
  next    := 0
  ckpoint := lookahead.ckpoint
  buffer  := fun _ => false

-- A traversal visits the blocks of the tree, or fails with an error after some of them.
def allocScan (lookahead : Lookahead) (tree : List ℕ) : Option (ℕ × ℤ) → Option ℤ × Lookahead
  | none          => (none, tree.foldl (allocLookahead cfg) (lookahead.move cfg))
  | some (n, err) =>
    (some err, allocDrop cfg ((tree.take n).foldl (allocLookahead cfg) (lookahead.move cfg)))

def Lookahead.advance (lookahead : Lookahead) : Lookahead :=
  { lookahead with next := lookahead.next + 1, ckpoint := lookahead.ckpoint - 1 }

-- Both inner loops of `lfs_alloc` pass over the blocks in use.
def Lookahead.skip (lookahead : Lookahead) : Lookahead :=
  if lookahead.next < lookahead.size ∧ lookahead.buffer lookahead.next then
    lookahead.advance.skip
  else
    lookahead
termination_by lookahead.size - lookahead.next
decreasing_by
  simp only [advance]
  omega

section

variable {cfg : AllocConfig} {l l' : Lookahead} {tree : List ℕ} {i b : ℕ}

-- What passing over blocks does to the window.
structure Lookahead.Skips (l l' : Lookahead) : Prop where
  start   : l'.start = l.start
  size    : l'.size = l.size
  buffer  : l'.buffer = l.buffer
  le      : l.next ≤ l'.next
  ckpoint : l'.ckpoint = l.ckpoint - (l'.next - l.next)
  used    : ∀ i, l.next ≤ i → i < l'.next → i < l.size ∧ l.buffer i
  stop    : l'.next < l.size → l.buffer l'.next = false

theorem Lookahead.skips_skip : l.Skips l.skip := by
  induction l using Lookahead.skip.induct
  case case1 l h hi =>
    rw [skip, if_pos h]
    obtain ⟨h₁, h₂, h₃, hle, hc, hu, hs⟩ := hi
    refine ⟨h₁, h₂, h₃, Nat.le_of_succ_le hle, ?_, fun i hl hl' => ?_, hs⟩
    case refine_1 =>
      rw [hc]
      simp only [advance] at hle ⊢
      omega
    case refine_2 =>
      rcases Nat.eq_or_lt_of_le hl with rfl | hl
      case inl => exact h
      case inr => exact hu i hl hl'
  case case2 l h =>
    rw [skip, if_neg h]
    exact ⟨rfl, rfl, rfl, Nat.le_refl _, by simp, by omega, fun hl => by simpa [hl] using h⟩

theorem foldl_allocLookahead : tree.foldl (allocLookahead cfg) l =
    { l with buffer := fun i => l.buffer i ||
      (decide (i < l.size) && tree.any fun b => (b + cfg.blockCount - l.start) % cfg.blockCount = i) } := by
  induction tree generalizing l
  case nil => simp
  case cons b tree hi =>
    rw [List.foldl_cons, hi, allocLookahead]
    split
    case isTrue h =>
      simp only [List.any_cons, Lookahead.mk.injEq, true_and]
      funext i
      grind
    case isFalse h =>
      simp only [List.any_cons, Lookahead.mk.injEq, true_and]
      funext i
      grind

theorem allocScan_none : (allocScan cfg l tree none).snd = {
    start   := (l.start + l.next) % cfg.blockCount
    size    := min (8 * cfg.lookaheadSize) l.ckpoint
    next    := 0
    ckpoint := l.ckpoint
    buffer  := fun i => decide (i < min (8 * cfg.lookaheadSize) l.ckpoint) && tree.any fun b =>
      (b + cfg.blockCount - (l.start + l.next) % cfg.blockCount) % cfg.blockCount = i } := by
  simp only [allocScan, foldl_allocLookahead, Lookahead.move, Bool.false_or]

theorem allocScan_some {n : ℕ} {err : ℤ} : (allocScan cfg l tree (some (n, err))).snd = {
    (tree.take n).foldl (allocLookahead cfg) (l.move cfg) with
    size := 0, next := 0, ckpoint := cfg.blockCount } :=
  rfl

theorem offset_eq_iff {n start : ℕ} (hs : start < n) (hb : b < n) (hi : i < n) :
    (b + n - start) % n = i ↔ (start + i) % n = b := by
  have hm : ∀ a < 2 * n, a % n = if a < n then a else a - n := fun a ha => by
    split
    case isTrue h  => exact Nat.mod_eq_of_lt h
    case isFalse h => rw [Nat.mod_eq_sub_mod (Nat.le_of_not_lt h), Nat.mod_eq_of_lt (by omega)]
  rw [hm _ (by omega), hm _ (by omega)]
  split <;> split <;> omega

-- The bit of a block is set that is in the tree.
theorem buffer_of_mem (hi : i < (allocScan cfg l tree none).snd.size) (hc : l.ckpoint ≤ cfg.blockCount)
    (hb : ((allocScan cfg l tree none).snd.start + i) % cfg.blockCount ∈ tree) :
    (allocScan cfg l tree none).snd.buffer i = true := by
  rw [allocScan_none] at hi hb ⊢
  simp only [hi, decide_true, Bool.true_and, List.any_eq_true, decide_eq_true_eq]
  have hs := Nat.mod_lt (l.start + l.next) cfg.blockCount_pos
  have hi' : i < cfg.blockCount := Nat.lt_of_lt_of_le hi (Nat.le_trans (Nat.min_le_right _ _) hc)
  exact ⟨_, hb, (offset_eq_iff hs (Nat.mod_lt _ cfg.blockCount_pos) hi').mpr rfl⟩

-- A bit of the window is set if its block is in the tree.
theorem buffer_allocScan (ht : ∀ b ∈ tree, b < cfg.blockCount)
    (hi : i < (allocScan cfg l tree none).snd.size) (hc : l.ckpoint ≤ cfg.blockCount) :
    (allocScan cfg l tree none).snd.buffer i = true ↔
      ((allocScan cfg l tree none).snd.start + i) % cfg.blockCount ∈ tree := by
  refine ⟨fun hb => ?_, buffer_of_mem hi hc⟩
  rw [allocScan_none] at hi hb ⊢
  simp only [hi, decide_true, Bool.true_and, List.any_eq_true, decide_eq_true_eq] at hb
  have hs := Nat.mod_lt (l.start + l.next) cfg.blockCount_pos
  have hi' : i < cfg.blockCount := Nat.lt_of_lt_of_le hi (Nat.le_trans (Nat.min_le_right _ _) hc)
  obtain ⟨b, hb, he⟩ := hb
  rwa [(offset_eq_iff hs (ht b hb) hi').mp he]

-- A window always makes the number of blocks smaller that are left to look at.
theorem Lookahead.Skips.lt (h : l.Skips l') (hn : ¬l'.next < l'.size) (hc : l'.ckpoint ≠ 0) :
    2 * (allocScan cfg l' tree none).snd.ckpoint +
      (if (allocScan cfg l' tree none).snd.next < (allocScan cfg l' tree none).snd.size then 0 else 1) <
    2 * l.ckpoint + if l.next < l.size then 0 else 1 := by
  have hl := cfg.lookaheadSize_pos
  have hc' := h.ckpoint
  have hs := h.size
  have hw : 0 < min (8 * cfg.lookaheadSize) l'.ckpoint := by omega
  rw [allocScan_none]
  simp only [hw, reduceIte]
  split <;> omega

end

-- What becomes of the traversals of a call is given in their order.
def alloc (cfg : AllocConfig) (lookahead : Lookahead) (tree : List ℕ) (errs : ℕ → Option (ℕ × ℤ)) :
    Except ℤ ℕ × Lookahead :=
  let found := lookahead.skip
  if found.next < found.size then
    (.ok ((found.start + found.next) % cfg.blockCount), found.advance.skip)
  else if found.ckpoint = 0 then
    (.error lfsErrNospc, found)
  else
    match errs 0 with
    | none     => alloc cfg (allocScan cfg found tree none).snd tree fun i => errs (i + 1)
    | some err => (.error err.snd, (allocScan cfg found tree err).snd)
termination_by 2 * lookahead.ckpoint + if lookahead.next < lookahead.size then 0 else 1
decreasing_by
  exact Lookahead.skips_skip.lt ‹_› ‹_›

theorem Lookahead.skip_of_free {l : Lookahead} (h : l.buffer l.next = false) : l.skip = l := by
  rw [skip, if_neg (by simp [h])]

theorem alloc_of_free {cfg : AllocConfig} {l : Lookahead} {tree : List ℕ} {errs : ℕ → Option (ℕ × ℤ)}
    (hn : l.next < l.size) (h : l.buffer l.next = false) :
    alloc cfg l tree errs = (.ok ((l.start + l.next) % cfg.blockCount), l.advance.skip) := by
  rw [alloc, Lookahead.skip_of_free h, if_pos hn]

-- The allocator with the blocks that a traversal finds, and those that were allocated since the last
-- checkpoint.
structure Allocator where
  lookahead : Lookahead
  tree      : List ℕ
  pending   : List ℕ

namespace Allocator

-- The window of a file system that is formatted, where the tree has no blocks yet.
def format (cfg : AllocConfig) : Allocator where
  lookahead := allocCkpoint cfg {
    start   := 0
    size    := min (8 * cfg.lookaheadSize) cfg.blockCount
    next    := 0
    ckpoint := 0
    buffer  := fun _ => false }
  tree      := []
  pending   := []

-- The window starts at a random block when a file system is mounted.
def mount (cfg : AllocConfig) (seed : ℕ) (lookahead : Lookahead) (tree : List ℕ) : Allocator where
  lookahead := allocDrop cfg { lookahead with start := seed % cfg.blockCount }
  tree      := tree
  pending   := []

inductive Initial (cfg : AllocConfig) : Allocator → Prop
  | format : Initial cfg (format cfg)
  | mount {seed lookahead tree} (h : ∀ b ∈ tree, b < cfg.blockCount) :
    Initial cfg (mount cfg seed lookahead tree)

inductive Event
  | alloc (errs : ℕ → Option (ℕ × ℤ))
  | ckpoint
  | commit (tree : List ℕ)

-- A failed traversal is a checkpoint as well, and blocks are passed over up to the next one if there is no
-- more free space.
def alloc (cfg : AllocConfig) (s : Allocator) (errs : ℕ → Option (ℕ × ℤ)) : Allocator :=
  match Littlefs.alloc cfg s.lookahead s.tree errs with
  | (.ok block, lookahead) => { s with lookahead, pending := block :: s.pending }
  | (.error _, lookahead)  =>
    { s with lookahead, pending := if lookahead.ckpoint = 0 then s.pending else [] }

-- What is committed is made of the blocks that are in the tree already and of those that were allocated
-- for it.
inductive Step (cfg : AllocConfig) : Event → Allocator → Allocator → Prop
  | alloc {s errs} :
    Step cfg (.alloc errs) s (s.alloc cfg errs)
  | ckpoint {s} :
    Step cfg .ckpoint s { s with lookahead := allocCkpoint cfg s.lookahead, pending := [] }
  | commit {s tree} (h : ∀ b ∈ tree, b ∈ s.tree ∨ b ∈ s.pending) :
    Step cfg (.commit tree) s { s with tree }

variable {cfg : AllocConfig} {s s' : Allocator} {l : Lookahead} {tree visited : List ℕ} {b i : ℕ}
  {errs : ℕ → Option (ℕ × ℤ)}

-- What holds between the calls. The blocks that were allocated since the last checkpoint are among those
-- that were passed over since then.
structure Inv (cfg : AllocConfig) (s : Allocator) : Prop where
  start   : s.lookahead.start < cfg.blockCount
  next    : s.lookahead.next ≤ s.lookahead.size
  window  : s.lookahead.size - s.lookahead.next ≤ s.lookahead.ckpoint
  ckpoint : s.lookahead.ckpoint ≤ cfg.blockCount
  tree    : ∀ b ∈ s.tree, b < cfg.blockCount
  free    : ∀ i, s.lookahead.next ≤ i → i < s.lookahead.size → s.lookahead.buffer i = false →
    (s.lookahead.start + i) % cfg.blockCount ∉ s.tree
  pending : ∀ b ∈ s.pending, b < cfg.blockCount ∧ ∃ k < cfg.blockCount - s.lookahead.ckpoint,
    b + 1 + k ≡ s.lookahead.start + s.lookahead.next [MOD cfg.blockCount]

namespace Inv

theorem format : (format cfg).Inv cfg where
  start   := cfg.blockCount_pos
  next    := Nat.zero_le _
  window  := Nat.min_le_right _ _
  ckpoint := Nat.le_refl _
  tree    := by simp [Allocator.format]
  free    := by simp [Allocator.format]
  pending := by simp [Allocator.format]

theorem mount {seed : ℕ} (ht : ∀ b ∈ tree, b < cfg.blockCount) : (mount cfg seed l tree).Inv cfg where
  start   := Nat.mod_lt _ cfg.blockCount_pos
  next    := Nat.le_refl _
  window  := Nat.zero_le _
  ckpoint := Nat.le_refl _
  tree    := ht
  free    := by simp [Allocator.mount, allocDrop, allocCkpoint]
  pending := by simp [Allocator.mount]

-- Fewer blocks are passed over between the checkpoints than there are.
theorem not_mem_pending (h : s.Inv cfg) (hn : s.lookahead.next ≤ i)
    (hi : i - s.lookahead.next < s.lookahead.ckpoint) :
    (s.lookahead.start + i) % cfg.blockCount ∉ s.pending := by
  intro hp
  obtain ⟨-, k, hk, he⟩ := h.pending _ hp
  have hm : s.lookahead.start + s.lookahead.next + (i - s.lookahead.next + 1 + k) ≡
      s.lookahead.start + s.lookahead.next + 0 [MOD cfg.blockCount] :=
    calc s.lookahead.start + s.lookahead.next + (i - s.lookahead.next + 1 + k)
      _ = s.lookahead.start + i + (1 + k) := by omega
      _ ≡ (s.lookahead.start + i) % cfg.blockCount + (1 + k) [MOD cfg.blockCount] :=
        (Nat.mod_modEq _ _).symm.add_right _
      _ = (s.lookahead.start + i) % cfg.blockCount + 1 + k := by omega
      _ ≡ s.lookahead.start + s.lookahead.next + 0 [MOD cfg.blockCount] := he
  have hz := Nat.ModEq.add_left_cancel' _ hm
  have hc := h.ckpoint
  rw [Nat.ModEq, Nat.zero_mod, Nat.mod_eq_of_lt (by omega)] at hz
  omega

-- Passing over blocks keeps what holds, whether they are in use or become pending.
theorem moved (h : s.Inv cfg) (hs : l.start = s.lookahead.start) (hz : l.size = s.lookahead.size)
    (hb : l.buffer = s.lookahead.buffer) (hn : s.lookahead.next ≤ l.next) (hl : l.next ≤ l.size)
    (hc : l.ckpoint = s.lookahead.ckpoint - (l.next - s.lookahead.next)) :
    { s with lookahead := l : Allocator }.Inv cfg where
  start   := hs ▸ h.start
  next    := hl
  window  := by
    have hw := h.window
    simp only
    omega
  ckpoint := by
    have hk := h.ckpoint
    simp only
    omega
  tree    := h.tree
  free i hi hi' hf := by
    simp only [hs, hz, hb] at hi' hf ⊢
    exact h.free i (Nat.le_trans hn hi) hi' hf
  pending b hb := by
    obtain ⟨hlt, k, hk, he⟩ := h.pending b hb
    have hw := h.window
    have hk' := h.ckpoint
    refine ⟨hlt, k + (l.next - s.lookahead.next), by simp only; omega, ?_⟩
    simp only [hs]
    calc b + 1 + (k + (l.next - s.lookahead.next))
      _ = b + 1 + k + (l.next - s.lookahead.next) := by omega
      _ ≡ s.lookahead.start + s.lookahead.next + (l.next - s.lookahead.next) [MOD cfg.blockCount] :=
        he.add_right _
      _ = s.lookahead.start + l.next := by omega

theorem skip (h : s.Inv cfg) : { s with lookahead := s.lookahead.skip : Allocator }.Inv cfg := by
  have hs := s.lookahead.skips_skip
  refine h.moved hs.start hs.size hs.buffer hs.le ?_ hs.ckpoint
  have hn := h.next
  rcases Nat.eq_or_lt_of_le hs.le with he | hl
  case inl => rw [← he, hs.size]; exact hn
  case inr =>
    have hu := hs.used (s.lookahead.skip.next - 1) (by omega) (by omega)
    rw [hs.size]
    omega

theorem advance (h : s.Inv cfg) (hn : s.lookahead.next < s.lookahead.size) :
    Inv cfg {
      s with
      lookahead := s.lookahead.advance
      pending   := (s.lookahead.start + s.lookahead.next) % cfg.blockCount :: s.pending } := by
  have hm := h.moved (l := s.lookahead.advance) rfl rfl rfl (Nat.le_succ _) hn
    (by simp [Lookahead.advance])
  refine { hm with pending := fun b hb => ?_ }
  rcases List.mem_cons.mp hb with rfl | hb
  case inl =>
    have hw := h.window
    have hc := h.ckpoint
    refine ⟨Nat.mod_lt _ cfg.blockCount_pos, 0, ?_, ?_⟩
    case refine_1 => simp only [Lookahead.advance]; omega
    case refine_2 => exact (Nat.mod_modEq _ _).add_right 1
  case inr => exact hm.pending b hb

theorem scan (h : s.Inv cfg) (ht : ∀ b ∈ s.tree, b ∈ visited) :
    { s with lookahead := (allocScan cfg s.lookahead visited none).snd : Allocator }.Inv cfg where
  start   := by
    simp only [allocScan_none]
    exact Nat.mod_lt _ cfg.blockCount_pos
  next    := by simp [allocScan_none]
  window  := by simp [allocScan_none]
  ckpoint := by simpa [allocScan_none] using h.ckpoint
  tree    := h.tree
  free i _ hi hf := fun hm => by
    rw [buffer_of_mem hi h.ckpoint (ht _ hm)] at hf
    contradiction
  pending := by
    simp only [allocScan_none, Nat.add_zero]
    intro b hb
    obtain ⟨hlt, k, hk, he⟩ := h.pending b hb
    exact ⟨hlt, k, hk, he.trans (Nat.mod_modEq _ _).symm⟩

theorem drop {n : ℕ} {err : ℤ} (h : s.Inv cfg) :
    Inv cfg {
      s with
      lookahead := (allocScan cfg s.lookahead visited (some (n, err))).snd
      pending   := [] } where
  start   := by
    rw [allocScan_some, foldl_allocLookahead]
    exact Nat.mod_lt _ cfg.blockCount_pos
  next    := Nat.le_refl _
  window  := Nat.zero_le _
  ckpoint := Nat.le_refl _
  tree    := h.tree
  free    := by simp [allocScan_some]
  pending := by simp

-- A block that is found is free, and there are no blocks left to look at or nothing is known about the
-- tree if none is found. A traversal may visit more than the tree.
theorem alloc (h : s.Inv cfg) (ht : ∀ b ∈ s.tree, b ∈ visited) (errs : ℕ → Option (ℕ × ℤ)) :
    match Littlefs.alloc cfg s.lookahead visited errs with
    | (.ok block, lookahead) =>
      block ∉ s.tree ∧ block ∉ s.pending ∧
        { s with lookahead, pending := block :: s.pending : Allocator }.Inv cfg
    | (.error err, lookahead) =>
      lookahead.next = lookahead.size ∧
        (lookahead.ckpoint = 0 ∧ err = lfsErrNospc ∧ { s with lookahead : Allocator }.Inv cfg ∨
        lookahead.ckpoint = cfg.blockCount ∧ { s with lookahead, pending := [] : Allocator }.Inv cfg) := by
  obtain ⟨l, tree, pending⟩ := s
  dsimp only at h ht ⊢
  induction l, errs using Littlefs.alloc.induct cfg visited
  case case1 l errs found hn =>
    rw [Littlefs.alloc, if_pos hn]
    have hn : l.skip.next < l.skip.size := hn
    have hs := h.skip
    have hf := l.skips_skip.stop (by rw [← l.skips_skip.size]; exact hn)
    have hw := hs.window
    refine ⟨hs.free _ (Nat.le_refl _) hn ?_, hs.not_mem_pending (Nat.le_refl _) ?_, ?_⟩
    case refine_1 => rw [l.skips_skip.buffer]; exact hf
    case refine_2 => simp only at hw ⊢; omega
    case refine_3 => exact (hs.advance hn).skip
  case case2 l errs found hn hc =>
    rw [Littlefs.alloc, if_neg hn, if_pos hc]
    exact ⟨Nat.le_antisymm h.skip.next (Nat.le_of_not_lt hn), .inl ⟨hc, rfl, h.skip⟩⟩
  case case3 l errs found hn hc he hi =>
    rw [Littlefs.alloc, if_neg hn, if_neg hc, he]
    exact hi (h.skip.scan ht)
  case case4 l errs found hn hc err he =>
    rw [Littlefs.alloc, if_neg hn, if_neg hc, he]
    exact ⟨rfl, .inr ⟨rfl, h.skip.drop⟩⟩

theorem step {e : Event} (h : s.Inv cfg) (hs : Step cfg e s s') : s'.Inv cfg := by
  cases hs
  case alloc errs =>
    have ha := h.alloc (fun _ h => h) errs
    simp only [Allocator.alloc]
    revert ha
    rcases Littlefs.alloc cfg s.lookahead s.tree errs with ⟨_ | block, lookahead⟩
    case error =>
      rintro ⟨-, ⟨hc, -, ha⟩ | ⟨hc, ha⟩⟩
      case inl => simpa only [hc, reduceIte] using ha
      case inr => simpa only [hc, cfg.blockCount_pos.ne', reduceIte] using ha
    case ok => exact fun ha => ha.right.right
  case ckpoint =>
    have hw := h.window
    have hn := h.next
    refine { h with window := ?_, ckpoint := Nat.le_refl _, pending := by simp }
    have hc := h.ckpoint
    simp only [allocCkpoint]
    omega
  case commit tree ht =>
    refine { h with tree := fun b hb => ?_, free := fun i hn hi hf hb => ?_ }
    case refine_1 =>
      rcases ht b hb with hb | hb
      case inl => exact h.tree b hb
      case inr => exact (h.pending b hb).left
    case refine_2 =>
      have hw := h.window
      rcases ht _ hb with hb | hb
      case inl => exact h.free i hn hi hf hb
      case inr => exact h.not_mem_pending hn (by simp only at hn hi; omega) hb

theorem initial (h : Initial cfg s) : s.Inv cfg := by
  cases h
  case format   => exact format
  case mount ht => exact mount ht

theorem trace {es : List Event} (h : s.Inv cfg) (ht : Trace (Step cfg) s es s') : s'.Inv cfg :=
  ht.invariant (fun _ s => s.Inv cfg) h fun _ _ _ _ hi hs => hi.step hs

theorem skip_end (h : s.Inv cfg) (hn : ¬s.lookahead.skip.next < s.lookahead.skip.size) :
    s.lookahead.skip.next = s.lookahead.size ∧
      ∀ i, s.lookahead.next ≤ i → i < s.lookahead.size → s.lookahead.buffer i = true := by
  have hs := s.lookahead.skips_skip
  have he : s.lookahead.skip.next = s.lookahead.size := by
    rw [← hs.size]
    exact Nat.le_antisymm h.skip.next (Nat.le_of_not_lt hn)
  exact ⟨he, fun i hi hi' => (hs.used i hi (he ▸ hi')).right⟩

-- There is no more free space for a call if the rest of the window is set and all blocks after it, up to
-- those that were passed over since the last checkpoint, are in the tree.
theorem alloc_eq_error_iff (h : s.Inv cfg) (he : ∀ n, errs n = none) :
    (Littlefs.alloc cfg s.lookahead s.tree errs).fst = .error lfsErrNospc ↔
      (∀ i, s.lookahead.next ≤ i → i < s.lookahead.size → s.lookahead.buffer i = true) ∧
        ∀ i, s.lookahead.size ≤ i → i < s.lookahead.next + s.lookahead.ckpoint →
          (s.lookahead.start + i) % cfg.blockCount ∈ s.tree := by
  obtain ⟨l, tree, pending⟩ := s
  dsimp only at h ⊢
  induction l, errs using Littlefs.alloc.induct cfg tree
  case case1 l errs found hn =>
    rw [Littlefs.alloc, if_pos hn]
    have hs := l.skips_skip
    have hn : l.skip.next < l.skip.size := hn
    rw [hs.size] at hn
    refine ⟨fun h => (nomatch h), fun h => ?_⟩
    have hb := h.left _ hs.le hn
    rw [hs.stop hn] at hb
    contradiction
  case case2 l errs found hn hc =>
    rw [Littlefs.alloc, if_neg hn, if_pos hc]
    obtain ⟨hz, hu⟩ := h.skip_end hn
    have hk := l.skips_skip.ckpoint
    have hn := h.next
    have hw := h.window
    have hc : l.skip.ckpoint = 0 := hc
    simp only at hz hn hw
    refine iff_of_true rfl ⟨hu, fun i hi hi' => ?_⟩
    omega
  case case3 l errs found hn hc he' hi =>
    rw [Littlefs.alloc, if_neg hn, if_neg hc, he', hi (fun n => he (n + 1)) (h.skip.scan fun _ h => h)]
    obtain ⟨hz, hu⟩ := h.skip_end hn
    have hn := h.next
    have hw := h.window
    have hk := l.skips_skip.ckpoint
    have hb := fun i hi => buffer_allocScan (l := l.skip) (i := i) h.tree hi h.skip.ckpoint
    simp only at hz hn hw
    rw [hz] at hk
    have hck : (allocScan cfg l.skip tree none).snd.ckpoint = l.ckpoint - (l.size - l.next) := by
      rw [allocScan_none, hk]
    have hmod (j : ℕ) : ((allocScan cfg l.skip tree none).snd.start + j) % cfg.blockCount =
        (l.start + (l.size + j)) % cfg.blockCount := by
      rw [allocScan_none, ← Nat.add_assoc, hz, l.skips_skip.start]
      exact Nat.mod_add_mod ..
    have hnx : (allocScan cfg l.skip tree none).snd.next = 0 := by rw [allocScan_none]
    simp only [hmod] at hb
    simp only [show found = l.skip from rfl, hck, hmod, hnx]
    constructor
    case mp =>
      refine fun ⟨h₁, h₂⟩ => ⟨hu, fun i hi hi' => ?_⟩
      obtain ⟨j, rfl⟩ := Nat.exists_eq_add_of_le hi
      by_cases hj : j < (allocScan cfg l.skip tree none).snd.size
      case pos => exact (hb j hj).mp (h₁ j (Nat.zero_le _) hj)
      case neg => exact h₂ j (Nat.le_of_not_lt hj) (by omega)
    case mpr =>
      refine fun ⟨_, h₂⟩ => ⟨fun j _ hj => ?_, fun j _ hj => h₂ _ (Nat.le_add_right ..) (by omega)⟩
      have hj' : j < l.ckpoint - (l.size - l.next) := by
        rw [allocScan_none, hk] at hj
        exact Nat.lt_of_lt_of_le hj (Nat.min_le_right ..)
      exact (hb j hj).mpr (h₂ _ (Nat.le_add_right ..) (by omega))
  case case4 l errs found hn hc err he' =>
    rw [he] at he'
    contradiction

end Inv

variable {s₀ : Allocator} {es es' : List Event}

-- An allocated block is neither in the tree nor allocated since the last checkpoint.
theorem alloc_fresh (h₀ : Initial cfg s₀) (ht : Trace (Step cfg) s₀ es s)
    (ha : Littlefs.alloc cfg s.lookahead s.tree errs = (.ok b, l)) :
    b < cfg.blockCount ∧ b ∉ s.tree ∧ b ∉ s.pending := by
  have h := ((Inv.initial h₀).trace ht).alloc (fun _ h => h) errs
  rw [ha] at h
  obtain ⟨hs, hp, hi⟩ := h
  exact ⟨(hi.pending b List.mem_cons_self).left, hs, hp⟩

-- The sizes of this device.
def allocConfig : AllocConfig where
  blockCount        := 32
  lookaheadSize     := 8
  blockCount_pos    := by decide
  lookaheadSize_pos := by decide

theorem alloc_fresh_second :
    let s := (format allocConfig).alloc allocConfig fun _ => none
    (Littlefs.alloc allocConfig s.lookahead [0] fun _ => none).fst = .ok 1 ∧
      1 < 32 ∧ 1 ∉ [0] ∧ 1 ∉ s.pending := by
  intro s
  have ha : Littlefs.alloc allocConfig (format allocConfig).lookahead (format allocConfig).tree
      (fun _ => none) =
      (.ok 0, (format allocConfig).lookahead.advance) := by
    rw [alloc_of_free (by decide) rfl, Lookahead.skip_of_free rfl]
    rfl
  have hs : s = { lookahead := (format allocConfig).lookahead.advance, tree := [], pending := [0] } := by
    simp only [s, Allocator.alloc, ha]
    rfl
  have ht : Trace (Step allocConfig) (format allocConfig) [.alloc fun _ => none, .commit [0]]
      { s with tree := [0] } :=
    (Trace.single .alloc).snoc (.commit (by simp [hs]))
  have ha' : Littlefs.alloc allocConfig s.lookahead [0] (fun _ => none) =
      (.ok 1, (format allocConfig).lookahead.advance.advance) := by
    rw [hs, alloc_of_free (by decide) rfl, Lookahead.skip_of_free rfl]
    rfl
  exact ⟨by rw [ha'], alloc_fresh .format ht ha'⟩

-- What is left of a window from before the last checkpoint counts as passed over, even if some of its
-- blocks were removed from the tree since then.
theorem alloc_error_iff (h₀ : Initial cfg s₀) (ht : Trace (Step cfg) s₀ es s) (he : ∀ n, errs n = none) :
    (Littlefs.alloc cfg s.lookahead s.tree errs).fst = .error lfsErrNospc ↔
      (∀ i, s.lookahead.next ≤ i → i < s.lookahead.size → s.lookahead.buffer i = true) ∧
        ∀ i, s.lookahead.size ≤ i → i < s.lookahead.next + s.lookahead.ckpoint →
          (s.lookahead.start + i) % cfg.blockCount ∈ s.tree :=
  ((Inv.initial h₀).trace ht).alloc_eq_error_iff he

-- The device with a tree that has all of its blocks.
def full : Allocator :=
  mount allocConfig 5 (format allocConfig).lookahead (List.range 32)

theorem initial_full : Initial allocConfig full :=
  .mount (by simp [allocConfig])

theorem passed_full :
    (∀ i, full.lookahead.next ≤ i → i < full.lookahead.size → full.lookahead.buffer i = true) ∧
      ∀ i, full.lookahead.size ≤ i → i < full.lookahead.next + full.lookahead.ckpoint →
        (full.lookahead.start + i) % allocConfig.blockCount ∈ full.tree :=
  ⟨fun i _ hi => absurd hi (Nat.not_lt_zero i), fun _ _ _ =>
    List.mem_range.mpr (Nat.mod_lt _ allocConfig.blockCount_pos)⟩

theorem alloc_error_iff_full :
    (Littlefs.alloc allocConfig full.lookahead full.tree fun _ => none).fst = .error lfsErrNospc :=
  (alloc_error_iff initial_full .nil fun _ => rfl).mpr passed_full

-- There is no window left of the calls before.
structure Exhausted (cfg : AllocConfig) (es : List Event) (s : Allocator) : Prop where
  inv     : s.Inv cfg
  next    : s.lookahead.next = s.lookahead.size
  ckpoint : .ckpoint ∈ es → s.lookahead.ckpoint = cfg.blockCount

theorem Exhausted.step {e : Event} (h : s.Exhausted cfg es) (hs : Step cfg e s s')
    (he : ∀ errs, e ≠ .alloc errs) : s'.Exhausted cfg (es ++ [e]) := by
  refine ⟨h.inv.step hs, ?_, ?_⟩
  all_goals cases hs
  case refine_1.alloc  => exact absurd rfl (he _)
  case refine_1.ckpoint => exact h.next
  case refine_1.commit  => exact h.next
  case refine_2.alloc  => exact absurd rfl (he _)
  case refine_2.ckpoint => exact fun _ => rfl
  case refine_2.commit  => exact fun hm => h.ckpoint (by simpa using hm)

theorem Exhausted.alloc_eq_error_iff (h : s.Exhausted cfg es) (hc : .ckpoint ∈ es)
    (he : ∀ n, errs n = none) :
    (Littlefs.alloc cfg s.lookahead s.tree errs).fst = .error lfsErrNospc ↔
      ∀ b < cfg.blockCount, b ∈ s.tree := by
  rw [h.inv.alloc_eq_error_iff he, h.next, h.ckpoint hc]
  constructor
  case mp =>
    intro ⟨_, ht⟩ b hb
    have hs := Nat.mod_lt (s.lookahead.start + s.lookahead.size) cfg.blockCount_pos
    have hi := Nat.mod_lt
      (b + cfg.blockCount - (s.lookahead.start + s.lookahead.size) % cfg.blockCount) cfg.blockCount_pos
    have hm := ht _ (Nat.le_add_right ..) (Nat.add_lt_add_left hi _)
    rwa [← Nat.add_assoc, ← Nat.mod_add_mod, (offset_eq_iff hs hb hi).mp rfl] at hm
  case mpr =>
    intro ht
    exact ⟨fun i hi hi' => absurd hi' (Nat.not_lt.mpr hi), fun i _ _ =>
      ht _ (Nat.mod_lt _ cfg.blockCount_pos)⟩

-- Once a call has failed, the first call after the next checkpoint only fails if all blocks are in use.
theorem alloc_error_iff_of_error {err : ℤ} {errs' : ℕ → Option (ℕ × ℤ)} (h₀ : Initial cfg s₀)
    (ht : Trace (Step cfg) s₀ es s) (hf : (Littlefs.alloc cfg s.lookahead s.tree errs').fst = .error err)
    (ht' : Trace (Step cfg) (s.alloc cfg errs') es' s') (ha : ∀ errs, .alloc errs ∉ es')
    (hc : .ckpoint ∈ es') (he : ∀ n, errs n = none) :
    (Littlefs.alloc cfg s'.lookahead s'.tree errs).fst = .error lfsErrNospc ↔
      ∀ b < cfg.blockCount, b ∈ s'.tree := by
  have hi := (Inv.initial h₀).trace ht
  have hx : (s.alloc cfg errs').Exhausted cfg [] := by
    refine ⟨hi.step .alloc, ?_, by simp⟩
    have h := hi.alloc (fun _ h => h) errs'
    revert h hf
    simp only [Allocator.alloc]
    rcases Littlefs.alloc cfg s.lookahead s.tree errs' with ⟨_ | block, lookahead⟩
    case error => exact fun _ h => h.left
    case ok    => exact fun hf => nomatch hf
  have hx' := ht'.invariant (fun es s => (∀ errs, .alloc errs ∉ es) → s.Exhausted cfg es) (fun _ => hx)
    fun _ _ _ _ hi hs hn => (hi fun errs hm => hn errs (List.mem_append_left _ hm)).step hs
      fun errs he => hn errs (he ▸ List.mem_append_right _ List.mem_cons_self)
  exact (hx' ha).alloc_eq_error_iff hc he

theorem alloc_error_iff_of_error_removed :
    let s := full.alloc allocConfig fun _ => none
    (Littlefs.alloc allocConfig (allocCkpoint allocConfig s.lookahead) (List.range 31) fun _ => none).fst ≠
      .error lfsErrNospc := by
  intro s hf
  have he : (Littlefs.alloc allocConfig full.lookahead full.tree fun _ => none).fst = .error lfsErrNospc :=
    ((Inv.initial initial_full).alloc_eq_error_iff fun _ => rfl).mpr passed_full
  have hs : s.tree = List.range 32 := by
    simp only [s, Allocator.alloc]
    split <;> rfl
  have hc : ∀ b ∈ List.range 31, b ∈ s.tree ∨ b ∈ s.pending := by
    simp only [hs, List.mem_range]
    omega
  have ht := (Trace.single (@Step.commit allocConfig s _ hc)).snoc .ckpoint
  have hm := (alloc_error_iff_of_error initial_full .nil he ht (by simp) (by simp) fun _ => rfl).mp hf 31
    (by decide)
  exact absurd hm (by decide)

end Allocator

end Littlefs
