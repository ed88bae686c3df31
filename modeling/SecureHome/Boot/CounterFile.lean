import SecureHome.Boot.Statements

open File (Name)

namespace Boot

theorem length_counterBytes {count : UInt32} : (counterBytes count).length = 4 :=
  rfl

theorem countOf_counterBytes {count : UInt32} : countOf (counterBytes count) = count := by
  have hl := count.toNat_lt
  apply UInt32.toNat_inj.mp
  simp [countOf, counterBytes]
  omega

theorem overwrite_of_length {count : UInt32} {bytes : List UInt8} (h : bytes.length = 4) :
    overwrite count bytes = countOf bytes := by
  simp [overwrite, h, counterBytes]

-- The count that the bytes of the counter file stand for.
def committed (bytes : List UInt8) : Option UInt32 :=
  if 4 ≤ bytes.length then some (countOf (bytes.take 4)) else none

-- The bytes of the counter file after a count was written to it.
def withCount (bytes : List UInt8) (count : UInt32) : List UInt8 :=
  bytes.overlay 0 0 (counterBytes count)

theorem committed_withCount {bytes : List UInt8} {count : UInt32} :
    committed (withCount bytes count) = some count := by
  have hl : 4 ≤ (withCount bytes count).length := by
    rw [withCount, List.length_overlay, length_counterBytes]
    omega
  have ht : (withCount bytes count).take 4 = counterBytes count := by
    rw [withCount, List.overlay_of_le (Nat.zero_le _)]
    simp [length_counterBytes, List.take_append]
  rw [committed, if_pos hl, ht, countOf_counterBytes]

-- What the boot count depends on: the counter file, the variable, and what has happened so far.
structure BootCounter where
  bytes   : List UInt8
  count   : UInt32
  held    : Bool
  history : List Entry

-- The entries that are not about the count.
def Entry.Neutral : Entry → Prop
  | .fault | .write _ | .saved _ | .read _ | .loaded _ | .notLoaded => True
  | .format | .initialized .. | .counted _ | .seeded ..           => False

namespace BootCounter

def note (c : BootCounter) (e : Entry) : BootCounter :=
  { c with history := e :: c.history }

def hold (c : BootCounter) : BootCounter :=
  { c with held := true }

-- The variable is read from the file, where an error may occur in between.
def load (c : BootCounter) (bytes : List UInt8) : BootCounter :=
  { c with count := overwrite c.count bytes }

def bump (c : BootCounter) : BootCounter :=
  { c with count := c.count + 1 }

def close (c : BootCounter) : BootCounter :=
  { c with bytes := withCount c.bytes c.count }

def format (c : BootCounter) (bytes : List UInt8) : BootCounter :=
  { c with bytes, history := .format :: c.history }

-- The variable agrees with the file, unless there was none.
def Loaded (c : BootCounter) : Prop :=
  c.bytes = [] ∨ committed c.bytes = some c.count

def Committed (c : BootCounter) : Prop :=
  committed c.bytes = some c.count

-- The same count, where a seed may have been saved.
structure Keeps (c c' : BootCounter) : Prop where
  bytes   : c'.bytes = c.bytes
  count   : c'.count = c.count
  held    : c.held = true → c'.held = true
  history : c'.history = c.history

-- What is not changed by the statements that are not about the count.
structure Framed (P : BootCounter → Prop) : Prop where
  note : ∀ c e, e.Neutral → P c → P (c.note e)
  hold : ∀ c, P c → P c.hold

theorem Framed.keeps {P : BootCounter → Prop} {c c' : BootCounter} (hp : Framed P) (h : Keeps c c')
    (hc : P c) : P c' := by
  have he : c' = { c with held := c'.held } := by
    rw [← h.bytes, ← h.count, ← h.history]
  rw [he]
  cases hh : c'.held
  case true  => exact hp.hold c hc
  case false =>
    have hf : c.held = false := Bool.eq_false_iff.mpr fun ht => by simp [h.held ht] at hh
    exact hf ▸ hc

theorem Framed.and {P Q : BootCounter → Prop} (hp : Framed P) (hq : Framed Q) :
    Framed fun c => P c ∧ Q c where
  note c e he hc := ⟨hp.note c e he hc.left, hq.note c e he hc.right⟩
  hold c hc      := ⟨hp.hold c hc.left, hq.hold c hc.right⟩

theorem framed_true : Framed fun _ => True where
  note _ _ _ _ := trivial
  hold _ _     := trivial

theorem framed_loaded : Framed Loaded where
  note _ _ _ h := h
  hold _ h     := h

theorem framed_committed : Framed Committed where
  note _ _ _ h := h
  hold _ h     := h

end BootCounter

def Board.counter (b : Board) : BootCounter where
  bytes   := b.partition.bytes .counter
  count   := b.bootCycleCounter
  held    := b.seedHeld
  history := b.history

open BootCounter

-- The statements that are not about the count.
def LfsCall.Plain : LfsCall → Prop
  | .format | .fileClose .counter | .fileSync .counter => False
  | _                                                  => True

def Op.Plain : Op → Prop
  | .storeBootCycleCounter _ | .incrementBootCycleCounter | .recordInitialized | .trngGenerate => False
  | .setInitialized => False
  | .record e => e.Neutral
  | .lfs c    => c.Plain
  | _         => True

section

variable {b b' : Board} {env : Env} {fault : Option Fault} {o : Op} {name : Name} {file : Handle}

@[simp]
theorem counter_setFile : (b.setFile name file).counter = b.counter :=
  rfl

theorem keeps_of_eq (h : b'.counter = b.counter) : Keeps b.counter b'.counter where
  bytes   := congrArg BootCounter.bytes h
  count   := congrArg BootCounter.count h
  held    := (congrArg BootCounter.held h).trans
  history := congrArg BootCounter.history h

theorem keeps_commit (h : name ≠ .counter) : Keeps b.counter (b.commit name).counter where
  bytes   := Function.update_of_ne h.symm ..
  count   := rfl
  held hs := by
    have hs : b.seedHeld = true := hs
    simp [Board.counter, Board.commit, hs]
  history := rfl

theorem counter_commit (h : (b.files .counter).content = b.counter.close.bytes) :
    (b.commit .counter).counter = b.counter.close := by
  simp [Board.counter, Board.commit, BootCounter.close, h]

variable {r : LfsResult} {P : BootCounter → Prop}

theorem keeps_of_performs {c : LfsCall} (hc : c.Plain) (h : c.Performs fault b r b') :
    Keeps b.counter b'.counter := by
  cases h
  case format      => contradiction
  case formatError => contradiction
  case fileClose name _ _ | fileCloseCommitted name _ _ _ | fileSync name _ _ |
      fileSyncCommitted name _ _ _ _ =>
    have hn : name ≠ .counter := fun he => by subst he; contradiction
    exact keeps_commit hn
  all_goals exact keeps_of_eq rfl

theorem BootCounter.Framed.performs {r : sig.Ret o} (hp : Framed P) (ho : o.Plain)
    (h : o.Performs env b r b') (hb : P b.counter) : P b'.counter := by
  cases h
  case record  => exact hp.note _ _ ho hb
  case recordRead => exact hp.note _ (.read b.isInitialized) trivial hb
  case lfs h   =>
    have hb := hp.keeps (keeps_of_performs ho h) hb
    exact noted_cases (A := fun b => P b.counter) hb (hp.note _ .fault trivial hb)
  case storeBootCycleCounter | incrementBootCycleCounter | recordInitialized | trngGenerate =>
    contradiction
  all_goals exact hb

-- The module is initialised or not as before.
theorem isInitialized_of_performs {r : sig.Ret o} (h : o.Performs env b r b') :
    b'.isInitialized = b.isInitialized ∨ o = .setInitialized ∨ o = .resetInitialized := by
  cases h
  case setInitialized   => exact .inr (.inl rfl)
  case resetInitialized => exact .inr (.inr rfl)
  case lfs h            =>
    refine .inl (noted_cases (A := fun b' : Board => b'.isInitialized = b.isInitialized) ?_ ?_) <;>
      cases h <;> rfl
  all_goals exact .inl rfl

end

-- What a proof about the boot count has to show of the steps that are taken with it, where `Fresh`
-- holds after a format, `Bumped` holds of a count that may be written, and `Ready` holds while the
-- module is initialised.
structure CounterRule (C : Pool.Cond sig Unit Event State) (I Fresh Bumped Ready : BootCounter → Prop) :
    Prop where
  inv         : Framed I
  fresh       : Framed Fresh
  bumped      : Framed Bumped
  ready       : Framed Ready
  powerUp     : ∀ c, I c → I { c with count := 0 }
  format      : ∀ c bytes, bytes = c.bytes ∨ bytes = [] → I c → I (c.format bytes)
  formatted   : ∀ c, I c → Fresh (c.format [])
  load        : ∀ c bytes, bytes <+: c.bytes → I c → I (c.load bytes) ∧ (Fresh c → Fresh (c.load bytes))
  bump        : ∀ s : State, C.op () .incrementBootCycleCounter s → I s.board.counter →
    Loaded s.board.counter → I s.board.counter.bump ∧ Bumped s.board.counter.bump
  first       : ∀ c, I c → Fresh c → Bumped c
  close       : ∀ c, I c → Bumped c → I c.close ∧ Bumped c.close
  initialized : ∀ c, I c → Bumped c → Committed c →
    I (c.note (.initialized c.count c.bytes)) ∧ Ready (c.note (.initialized c.count c.bytes))
  counted     : ∀ c, I c → Ready c → I (c.note (.counted c.count)) ∧ Ready (c.note (.counted c.count))
  seeded      : ∀ c jitter, (c.count = 0 → jitter = true) → I c →
    I (c.note (.seeded jitter c.held)) ∧ (Ready c → Ready (c.note (.seeded jitter c.held)))

namespace CounterRule

variable {C : Pool.Cond sig Unit Event State} {I Fresh Bumped Ready : BootCounter → Prop}
variable {allowed : Call → Bool} {α β : Type} {P R : Board → Prop} {Q : α → Board → Prop}
variable {p : Driver α} {c : LfsCall} {firstBoot : Bool}

def Down (b : Board) : Prop :=
  b.isInitialized = false

def Idle (Ready : BootCounter → Prop) (b : Board) : Prop :=
  b.isInitialized = true → Ready b.counter

-- A program of the drivers that satisfies `R` when it stops with an error, unless the board has
-- stopped.
abbrev Counts (C : Pool.Cond sig Unit Event State) (I : BootCounter → Prop) (allowed : Call → Bool)
    (P : Board → Prop) (p : Driver α) (Q : α → Board → Prop) (R : Board → Prop) : Prop :=
  Runs (fun b => I b.counter) allowed C (Live fun s => P s.board) p
    (fun a => Live fun s => Q a s.board) (Live fun s => R s.board)

abbrev CountsOp (C : Pool.Cond sig Unit Event State) (I : BootCounter → Prop) (allowed : Call → Bool)
    (P : Board → Prop) (o : Op) (Q : sig.Ret o → Board → Prop) : Prop :=
  Does (fun b => I b.counter) allowed C (Live fun s => P s.board) o
    fun r => Live fun s => Q r s.board

theorem does {o : Op} {Q : sig.Ret o → Board → Prop}
    (h : ∀ s r b, I s.board.counter → P s.board → C.op () o s → o.Performs s.env s.board r b →
      I b.counter ∧ Q r b) : CountsOp C I allowed P o Q :=
  .live stable_board (fun _ hi => hi) fun s r b hi hp hc ho _ => h s r b hi hp hc ho

variable (h : CounterRule C I Fresh Bumped Ready)

include h in
theorem does_plain {o : Op} {Q : sig.Ret o → Board → Prop} (ho : o.Plain)
    (hq : ∀ env b r b', P b → o.Performs env b r b' → Q r b') : CountsOp C I allowed P o Q :=
  does fun s r b hi hp _ hs => ⟨h.inv.performs ho hs hi, hq s.env s.board r b hp hs⟩

include h in
theorem does_lfs {Q : LfsResult → Board → Prop}
    (hq : ∀ fault b r b', I b.counter → P b → c.Performs fault b r b' → I b'.counter ∧ Q r b')
    (hn : ∀ r b, Q r b → Q r (b.record .fault)) : CountsOp C I allowed P (.lfs c) Q := by
  refine .live stable_board (fun _ hi => hi) fun s r b hi hp _ hs hb => ?_
  cases hs
  case halt => contradiction
  case lfs hl =>
    have ⟨hi, hq⟩ := hq s.env.fault s.board r _ hi hp hl
    exact noted_cases (A := fun b => I b.counter ∧ Q r b) ⟨hi, hq⟩
      ⟨h.inv.note _ .fault trivial hi, hn r _ hq⟩

-- A statement that is not about the count keeps what is framed, and the module stays down.
include h in
theorem does_down {A : BootCounter → Prop} {o : Op} (hA : Framed A) (ho : o.Plain) :
    CountsOp C I allowed (fun b => Down b ∧ A b.counter) o fun _ b => Down b ∧ A b.counter := by
  refine does_plain h ho fun env b r b' hb hs => ⟨?_, hA.performs ho hs hb.right⟩
  rcases isInitialized_of_performs hs with hf | rfl | rfl
  · exact hf.trans hb.left
  · contradiction
  · cases hs; rfl

-- An error of LittleFS leaves the module down.
theorem tryLfs {Q : Board → Prop} {err : ErrorT}
    (hd : CountsOp C I allowed P (.lfs c) fun r b => Down b ∧ (r.1.isOk = true → Q b)) :
    Counts C I allowed P (tryLfs c err) (fun _ => Q) Down := by
  apply Runs.bind (.perform hd)
  rintro ⟨r, _⟩
  cases r
  case ok    => exact .pure fun _ hs hh => (hs hh).right rfl
  case error => exact .throw fun _ hs hh => (hs hh).left

include h in
theorem tryLfs_plain {A : BootCounter → Prop} {err : ErrorT} (hA : Framed A) (hc : c.Plain) :
    Counts C I allowed (fun b => Down b ∧ A b.counter) (Boot.tryLfs c err)
      (fun _ b => Down b ∧ A b.counter) Down :=
  tryLfs (.weaken (h.does_down hA hc) (fun _ _ hs => hs) fun _ _ _ hs hh => ⟨(hs hh).left, fun _ => hs hh⟩)

-- The counter file is open with the bytes that are on the flash, where `A` holds of the count.
structure Opened (A : BootCounter → Prop) (b : Board) : Prop where
  down    : Down b
  content : (b.files .counter).content = b.counter.bytes
  count   : A b.counter

-- The position of the file is at its start.
structure Rewound (A : BootCounter → Prop) (b : Board) : Prop extends Opened A b where
  pos : (b.files .counter).pos = 0

-- The count is written to the file, but not to the flash.
structure Written (A : BootCounter → Prop) (b : Board) : Prop where
  down    : Down b
  content : (b.files .counter).content = b.counter.close.bytes
  erred   : (b.files .counter).erred = false
  count   : A b.counter

-- What is known of the format by the time that the file system is mounted.
def Setup (Fresh : BootCounter → Prop) (firstBoot : Bool) (c : BootCounter) : Prop :=
  firstBoot = true → Fresh c

theorem framed_setup (h : Framed Fresh) : Framed (Setup Fresh firstBoot) where
  note c e he hs hf := h.note c e he (hs hf)
  hold c hs hf      := h.hold c (hs hf)

include h in
theorem does_format : CountsOp C I allowed Down (.lfs .format)
    fun r b => Down b ∧ (r.1.isOk = true → Down b ∧ Fresh b.counter) := by
  apply h.does_lfs
  case hq =>
    intro _ b _ _ hi hd hs
    cases hs
    case format => exact ⟨h.format b.counter [] (.inr rfl) hi, hd, fun _ => ⟨hd, h.formatted b.counter hi⟩⟩
    case formatError partition hb =>
      refine ⟨h.format b.counter (partition.bytes .counter) ?_ hi, hd, nofun⟩
      rcases hb with rfl | rfl | rfl
      · exact .inl rfl
      · exact .inr rfl
      · exact .inr rfl
  case hn =>
    exact fun _ b hs => ⟨hs.left, fun hr =>
      ⟨hs.left, h.fresh.note b.counter .fault trivial (hs.right hr).right⟩⟩

include h in
theorem counts_setupFs :
    Counts C I allowed Down setupFs (fun firstBoot b => Down b ∧ Setup Fresh firstBoot b.counter) Down := by
  have hm : CountsOp C I allowed _ (.lfs .mount) _ := h.does_down framed_true trivial
  apply Runs.bind (.perform (.weaken hm (fun _ _ hs hh => ⟨hs hh, trivial⟩) fun _ _ _ hs => hs))
  rintro ⟨_ | _, _⟩
  case ok    => exact .pure fun _ hs hh => ⟨(hs hh).left, nofun⟩
  case error =>
    apply Runs.bind (.pre (tryLfs h.does_format) fun _ hs hh => (hs hh).left)
    intro _
    apply Runs.bind (h.tryLfs_plain (c := .mount) h.fresh trivial)
    exact fun _ => .pure fun _ hs hh => ⟨(hs hh).left, fun _ => (hs hh).right⟩

section Stages

variable {A : BootCounter → Prop}

theorem Opened.record (hA : Framed A) {b : Board} (hb : Opened A b) : Opened A (b.record .fault) :=
  { hb with count := hA.note _ .fault trivial hb.count }

theorem Rewound.record (hA : Framed A) {b : Board} (hb : Rewound A b) : Rewound A (b.record .fault) where
  toOpened := hb.toOpened.record hA
  pos      := hb.pos

include h in
theorem does_fileOpen (hA : Framed A) :
    CountsOp C I allowed (fun b => Down b ∧ A b.counter) (.lfs (.fileOpen .counter))
      fun r b => Down b ∧ (r.1.isOk = true → Rewound A b) := by
  apply h.does_lfs
  case hn => exact fun _ _ hs => ⟨hs.left, fun hr => (hs.right hr).record hA⟩
  case hq =>
    intro _ b _ _ hi hb hs
    cases hs
    case fileOpenError => exact ⟨hi, hb.left, nofun⟩
    case fileOpen      =>
      refine ⟨hi, hb.left, fun _ => ⟨⟨hb.left, ?_, hb.right⟩, ?_⟩⟩ <;>
        simp [Board.setFile, Handle.opened, Board.counter]

-- What was read by a call.
structure Read (A : BootCounter → Prop) (r : LfsResult) (b : Board) : Prop extends Opened A b where
  isPrefix : r.2 <+: b.counter.bytes
  ok       : ∀ n, r.1 = .ok n → r.2 = b.counter.bytes.take 4 ∧ n = r.2.length

include h in
theorem does_fileRead (hA : Framed A) :
    CountsOp C I allowed (Rewound A) (.lfs (.fileRead .counter 4)) fun r => Read A r := by
  apply h.does_lfs
  case hn => exact fun _ _ hs => { hs with toOpened := hs.toOpened.record hA }
  case hq =>
    intro _ b _ _ hi hb hs
    have ho {pos : ℕ} {erred : Bool} :
        Opened A (b.setFile .counter { b.files .counter with pos, erred }) :=
      { hb.toOpened with content := by simpa using hb.content }
    cases hs
    case fileRead bytes _ he =>
      rw [hb.content, hb.pos, List.drop_zero] at he
      refine ⟨hi, ho, he ▸ List.take_prefix .., fun n hr => ⟨he, ?_⟩⟩
      cases hr
      rfl
    case fileReadError bytes _ pos erred _ hp =>
      rw [hb.content, hb.pos, List.drop_zero] at hp
      exact ⟨hi, ho, hp, nofun⟩

theorem loaded_of_read {c : BootCounter} {ret : Except File.LfsError ℕ} {bytes : List UInt8}
    (hr : ∀ n, ret = .ok n → bytes = c.bytes.take 4 ∧ n = bytes.length)
    (hn : ret = .ok 4 ∨ ret = .ok 0) : Loaded (c.load bytes) := by
  rcases hn with hn | hn
  case inl =>
    have ⟨hb, hl⟩ := hr 4 hn
    have hc : 4 ≤ c.bytes.length := by
      rw [hb, List.length_take] at hl
      omega
    right
    show committed c.bytes = some (overwrite c.count bytes)
    rw [committed, if_pos hc, ← hb, overwrite_of_length hl.symm]
  case inr =>
    have ⟨hb, hl⟩ := hr 0 hn
    left
    show c.bytes = []
    rw [hb] at hl
    simpa using hl.symm

include h in
theorem does_store {r : LfsResult} :
    CountsOp C I allowed (Read (Setup Fresh firstBoot) r) (.storeBootCycleCounter r.2)
      fun _ b => Opened (Setup Fresh firstBoot) b ∧ (r.1 = .ok 4 ∨ r.1 = .ok 0 → Loaded b.counter) := by
  refine does fun s _ b hi hb _ hs => ?_
  cases hs
  have ⟨hi, hf⟩ := h.load s.board.counter r.2 hb.isPrefix hi
  exact ⟨hi, { hb.toOpened with count := fun he => hf (hb.count he) }, loaded_of_read hb.ok⟩

include h in
theorem counts_readCounter :
    Counts C I allowed (Rewound (Setup Fresh firstBoot)) readCounter
      (fun _ => Opened fun c => Setup Fresh firstBoot c ∧ Loaded c) Down := by
  apply Runs.bind (.perform (h.does_fileRead (framed_setup h.fresh)))
  rintro ⟨ret, bytes⟩
  apply Runs.bind (.perform (h.does_store (r := (ret, bytes))))
  intro _
  split
  case isTrue     => exact .throw fun _ hs hh => (hs hh).left.down
  case isFalse hn =>
    have hn : ret = .ok 4 ∨ ret = .ok 0 := by
      by_contra hc
      exact hn (not_or.mp hc)
    exact .pure fun _ hs hh => { (hs hh).left with count := ⟨(hs hh).left.count, (hs hh).right hn⟩ }

include h in
theorem does_fileSeek (hA : Framed A) :
    CountsOp C I allowed (Opened A) (.lfs (.fileSeek .counter 0))
      fun r b => Down b ∧ (r.1.isOk = true → Rewound A b) := by
  apply h.does_lfs
  case hn => exact fun _ _ hs => ⟨hs.left, fun hr => (hs.right hr).record hA⟩
  case hq =>
    intro _ b _ _ hi hb hs
    cases hs
    case fileSeekError => exact ⟨hi, hb.down, nofun⟩
    case fileSeek      =>
      exact ⟨hi, hb.down, fun _ => { hb with content := by simpa using hb.content, pos := by simp }⟩

include h in
theorem counts_bumpCounter :
    Counts C I allowed (Rewound fun c => Setup Fresh firstBoot c ∧ Loaded c) (bumpCounter firstBoot)
      (fun _ => Rewound Bumped) Down := by
  cases firstBoot
  case true =>
    refine Outline.FallibleTriple.pure fun s hi hs hh => ?_
    have hs := hs hh
    exact { hs with count := h.first _ hi (hs.count.left rfl) }
  case false =>
    refine .perform (does fun s _ b hi hb hc hs => ?_)
    cases hs
    have ⟨hi, hn⟩ := h.bump s hc hi hb.count.right
    exact ⟨hi, { hb with count := hn }⟩

include h in
theorem does_fileWrite {count : UInt32} :
    CountsOp C I allowed (fun b => Rewound Bumped b ∧ b.counter.count = count)
      (.lfs (.fileWrite .counter (counterBytes count)))
      fun r b => Down b ∧ (r.1 = .ok 4 → Written Bumped b) := by
  apply h.does_lfs
  case hn =>
    exact fun _ b hs => ⟨hs.left, fun hr =>
      { hs.right hr with count := h.bumped.note _ .fault trivial (hs.right hr).count }⟩
  case hq =>
    intro _ b _ _ hi ⟨hb, hc⟩ hs
    cases hs
    case fileWriteError => exact ⟨hi, hb.down, nofun⟩
    case fileWrite      =>
      subst hc
      refine ⟨hi, hb.down, fun _ => { hb with content := ?_, erred := by simp [Handle.write] }⟩
      simp [Handle.write, hb.pos, hb.content, BootCounter.close, withCount]

include h in
theorem counts_writeCounter :
    Counts C I allowed (Rewound Bumped) writeCounter (fun _ => Written Bumped) Down := by
  have hl : CountsOp C I allowed (Rewound Bumped) .loadBootCycleCounter
      fun count b => Rewound Bumped b ∧ b.counter.count = count := by
    refine does fun s r b hi hb _ hs => ?_
    cases hs
    exact ⟨hi, hb, rfl⟩
  apply Runs.bind (.perform hl)
  intro count
  apply Runs.bind (.perform h.does_fileWrite)
  rintro ⟨ret, _⟩
  dsimp only
  split
  case isTrue     => exact .throw fun _ hs hh => (hs hh).left
  case isFalse hn => exact .pure fun _ hs hh => (hs hh).right (not_not.mp hn)

-- The file is closed.
include h in
theorem does_fileClose :
    CountsOp C I allowed (Written Bumped) (.lfs (.fileClose .counter))
      fun r b => Down b ∧ (r.1.isOk = true → Down b ∧ Bumped b.counter ∧ Committed b.counter) := by
  apply h.does_lfs
  case hn =>
    intro _ b hs
    refine ⟨hs.left, fun hr => ⟨hs.left, ?_, (hs.right hr).right.right⟩⟩
    exact h.bumped.note _ .fault trivial (hs.right hr).right.left
  case hq =>
    intro _ b _ _ hi hb hs
    have ⟨hi', hb'⟩ := h.close b.counter hi hb.count
    rw [← counter_commit hb.content] at hi' hb'
    have hc : Committed (b.commit .counter).counter := by
      rw [counter_commit hb.content]
      exact committed_withCount
    cases hs
    case fileClose              => exact ⟨hi', hb.down, fun _ => ⟨hb.down, hb', hc⟩⟩
    case fileCloseCommitted     => exact ⟨hi', hb.down, nofun⟩
    case fileCloseError         => exact ⟨hi, hb.down, nofun⟩
    case fileCloseErred he      => rw [hb.erred] at he; contradiction

end Stages

end CounterRule

end Boot
