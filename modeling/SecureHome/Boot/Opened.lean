import SecureHome.Boot.Rules

open File (Name)

namespace Boot

-- The statements that close the files in `file::deinit`.
def Op.closes : Op → Bool
  | .lfs (.fileClose name) => name ≠ .counter
  | _                      => false

def closesSucceed : Pool.Cond sig Unit Event State where
  op _ o s  := o.closes = true → s.env.fault = none
  event _ _ := True

instance (t : Unit) (o : Op) (s : State) : Decidable (closesSucceed.op t o s) :=
  inferInstanceAs (Decidable (o.closes = true → s.env.fault = none))

instance (e : Event) (s : State) : Decidable (closesSucceed.event e s) :=
  inferInstanceAs (Decidable True)

namespace Board

-- The file system is mounted, and the given files are open.
structure Opens (b : Board) (names : List Name) : Prop where
  mounted : b.mounted = true
  isOpen  : ∀ name, (b.files name).isOpen = true ↔ name ∈ names

variable {b b' : Board} {names : List Name} {name : Name} {file : Handle} {e : Entry}

theorem Opens.congr (h : b.Opens names) (hm : b'.mounted = b.mounted) (hf : b'.files = b.files) :
    b'.Opens names where
  mounted := hm ▸ h.mounted
  isOpen  := hf ▸ h.isOpen

theorem Opens.record (h : b.Opens names) : (b.record e).Opens names :=
  h.congr rfl rfl

theorem Opens.commit (h : b.Opens names) : (b.commit name).Opens names :=
  h.congr rfl rfl

theorem Opens.setFile (h : b.Opens names) (hf : file.isOpen = (b.files name).isOpen) :
    (b.setFile name file).Opens names where
  mounted := h.mounted
  isOpen u := by
    by_cases hu : u = name
    case pos => subst hu; simp [Board.setFile, hf, h.isOpen]
    case neg => simp [Board.setFile, hu, h.isOpen]

theorem Opens.openFile (h : b.Opens names) (hf : file.isOpen = true) :
    (b.setFile name file).Opens (name :: names) where
  mounted := h.mounted
  isOpen u := by
    by_cases hu : u = name
    case pos => subst hu; simp [Board.setFile, hf]
    case neg => simp [Board.setFile, hu, h.isOpen]

theorem Opens.closeFile (h : b.Opens (name :: names)) (hn : name ∉ names) :
    (b.setFile name .closed).Opens names where
  mounted := h.mounted
  isOpen u := by
    by_cases hu : u = name
    case pos => subst hu; simp [Board.setFile, Handle.closed, hn]
    case neg => simp [Board.setFile, hu, h.isOpen]

end Board

namespace Opened

variable {b b' : Board} {names : List Name} {name : Name} {flag : Bool} {fault : Option Fault}
variable {r : LfsResult} {allowed : Call → Bool} {α : Type}

-- The file module is initialised or it is not, and the given files are open.
structure Stands (flag : Bool) (names : List Name) (b : Board) : Prop extends b.Opens names where
  flag : b.isInitialized = flag

def Running (b : Board) : Prop :=
  b.halted = false

-- What holds between two calls.
def Idle (b : Board) : Prop :=
  b.isInitialized = true → Stands true [.asconSeed, .password, .pNumbers] b

-- What a call of LittleFS leaves alone.
structure Keeps (b b' : Board) : Prop where
  halted        : b'.halted = b.halted
  isInitialized : b'.isInitialized = b.isInitialized

theorem keeps {c : LfsCall} (h : c.Performs fault b r b') : Keeps b b' := by
  cases h <;> exact ⟨rfl, rfl⟩

theorem Stands.of_keeps {names' : List Name} (h : Stands flag names b) (hb : Keeps b b')
    (ho : b'.Opens names') : Stands flag names' b' where
  toOpens := ho
  flag    := hb.isInitialized.trans h.flag

theorem Stands.record {e : Entry} (h : Stands flag names b) : Stands flag names (b.record e) where
  toOpens := h.toOpens.record
  flag    := h.flag

-- A call that uses a file leaves it open.
def Using (name : Name) : LfsCall → Prop
  | .fileSync u | .fileSeek u _ | .fileRead u _ | .fileWrite u _ => u = name
  | _                                                           => False

theorem opens_of_using {c : LfsCall} (hc : Using name c) (h : b.Opens names)
    (hp : c.Performs fault b r b') : b'.Opens names := by
  cases hp <;> cases hc
  case fileSync          => exact h.commit
  case fileSyncErred     => exact h
  case fileSyncCommitted => exact h.commit.setFile rfl
  all_goals exact h.setFile rfl

theorem asserts_of_using {c : LfsCall} (hc : Using name c) (h : b.Opens names) (hn : name ∈ names) :
    c.Asserts b := by
  cases c <;> cases hc <;> exact (h.isOpen name).mpr hn

theorem does_use {c : LfsCall} (hc : Using name c) (hn : name ∈ names) :
    Does Running allowed closesSucceed (fun s => Stands flag names s.board) (.lfs c)
      fun _ s => Stands flag names s.board :=
  .lfs (fun _ h => asserts_of_using hc h.toOpens hn)
    (fun _ _ _ hi h _ hp =>
      ⟨(keeps hp).halted.trans hi, h.of_keeps (keeps hp) (opens_of_using hc h.toOpens hp)⟩)
    fun _ _ hi h => ⟨hi, h.record⟩

theorem does_fileOpen (hn : name ∉ names) :
    Does Running allowed closesSucceed (fun s => Stands flag names s.board) (.lfs (.fileOpen name))
      fun r s => Stands flag (if r.1.isOk then name :: names else names) s.board := by
  refine .lfs (Q := fun r => Stands flag (if r.1.isOk then name :: names else names))
    (fun b h => ?_) (fun s r b hi h _ hp => ⟨(keeps hp).halted.trans hi, ?_⟩) fun _ _ hi h => ⟨hi, h.record⟩
  case refine_1 => exact Bool.eq_false_iff.mpr fun ho => hn ((h.isOpen name).mp ho)
  case refine_2 =>
    refine h.of_keeps (keeps hp) ?_
    cases hp
    case fileOpen      => exact h.toOpens.openFile rfl
    case fileOpenError => exact h.toOpens

-- A file that is closed by `file::deinit` is closed without an error.
theorem does_fileClose (hn : name ∉ names) :
    Does Running allowed closesSucceed (fun s => Stands flag (name :: names) s.board)
      (.lfs (.fileClose name))
      fun r s => (name ≠ .counter → r.1.isOk = true) ∧ Stands flag names s.board := by
  refine .lfs (Q := fun r b => (name ≠ .counter → r.1.isOk = true) ∧ Stands flag names b)
    (fun b h => (h.isOpen name).mpr (List.mem_cons_self ..))
    (fun s r b hi h hc hp => ⟨(keeps hp).halted.trans hi, fun hne => ?_, h.of_keeps (keeps hp) ?_⟩)
    fun _ _ hi h => ⟨hi, h.left, h.right.record⟩
  case refine_1 =>
    have hf : s.env.fault = none := hc (decide_eq_true hne)
    cases hp
    case fileClose               => rfl
    case fileCloseErred          => rfl
    case fileCloseError hf'      => exact absurd hf hf'
    case fileCloseCommitted hf' _ => exact absurd hf hf'
  case refine_2 =>
    cases hp
    case fileCloseErred => exact h.toOpens.closeFile hn
    case fileCloseError => exact h.toOpens.closeFile hn
    all_goals exact h.toOpens.commit.closeFile hn

-- A statement that has nothing to do with the file system.
def Neutral : Op → Prop
  | .setInitialized | .resetInitialized | .lfs _ => False
  | _                                            => True

-- What no neutral statement changes.
structure Same (b b' : Board) : Prop where
  mounted       : b'.mounted = b.mounted
  files         : b'.files = b.files
  isInitialized : b'.isInitialized = b.isInitialized
  halted        : b'.halted = b.halted

theorem same_of_neutral {o : Op} {env : Env} {r : sig.Ret o} (ho : Neutral o)
    (h : o.Performs env b r b') : Same b b' := by
  cases h <;> first | exact ho.elim | exact ⟨rfl, rfl, rfl, rfl⟩

theorem Stands.same (h : Stands flag names b) (hs : Same b b') : Stands flag names b' where
  toOpens := h.toOpens.congr hs.mounted hs.files
  flag    := hs.isInitialized.trans h.flag

theorem Idle.same (h : Idle b) (hs : Same b b') : Idle b' :=
  fun hi => (h (hs.isInitialized.symm.trans hi)).same hs

-- A condition that no neutral statement changes.
def Robust (P : Board → Prop) : Prop :=
  ∀ b b', Same b b' → P b → P b'

theorem robust_stands : Robust (Stands flag names) :=
  fun _ _ hs h => h.same hs

theorem robust_idle : Robust Idle :=
  fun _ _ hs h => h.same hs

theorem robust_flag : Robust fun b => b.isInitialized = flag :=
  fun _ _ hs h => hs.isInitialized.trans h

variable {P R : Board → Prop}

theorem does_neutral {o : Op} (ho : Neutral o) (hp : Robust P) :
    Does Running allowed closesSucceed (fun s => P s.board) o fun _ s => P s.board :=
  .of_performs stable_board fun _ _ _ hi h _ _ hm =>
    have hs := same_of_neutral ho hm
    ⟨hs.halted.trans hi, hp _ _ hs h⟩

theorem runs_neutral {o : Op} {R : State → Prop} (ho : Neutral o) (hp : Robust P) :
    Runs Running allowed closesSucceed (fun s => P s.board) (perform o) (fun _ s => P s.board) R :=
  .perform (does_neutral ho hp)

theorem does_mount :
    Does Running allowed closesSucceed (fun s => s.board.isInitialized = false) (.lfs .mount)
      fun r s => if r.1.isOk then Stands false [] s.board else s.board.isInitialized = false := by
  refine .lfs (P := fun b => b.isInitialized = false)
    (Q := fun r b => if r.1.isOk then Stands false [] b else b.isInitialized = false)
    (fun _ _ => trivial) (fun s r b hi h _ hp => ⟨(keeps hp).halted.trans hi, ?_⟩) fun r b hi h => ⟨hi, ?_⟩
  case refine_1 =>
    cases hp
    case mount      => exact ⟨⟨rfl, by simp [Board.lfsInit, Handle.closed]⟩, h⟩
    case mountError => exact h
  case refine_2 =>
    cases hr : r.1.isOk <;> simp only [hr, if_true] at h ⊢
    case false => exact h
    case true  => exact h.record

theorem does_format :
    Does Running allowed closesSucceed (fun s => s.board.isInitialized = false) (.lfs .format)
      fun _ s => s.board.isInitialized = false :=
  .lfs (P := fun b => b.isInitialized = false) (Q := fun _ b => b.isInitialized = false)
    (fun _ _ => trivial)
    (fun _ _ _ hi h _ hp => ⟨(keeps hp).halted.trans hi, (keeps hp).isInitialized.trans h⟩)
    fun _ _ hi h => ⟨hi, h⟩

theorem does_unmount :
    Does Running allowed closesSucceed (fun s => Stands flag names s.board) (.lfs .unmount)
      fun r s => r.1.isOk = true ∧ s.board.isInitialized = flag := by
  refine .lfs (Q := fun r b => r.1.isOk = true ∧ b.isInitialized = flag) (fun _ _ => trivial)
    (fun s r b hi h _ hp => ⟨(keeps hp).halted.trans hi, ?_, (keeps hp).isInitialized.trans h.flag⟩)
    fun _ _ hi h => ⟨hi, h⟩
  cases hp
  rfl

theorem idle_of_flag (h : b.isInitialized = false) : Idle b :=
  fun hi => absurd hi (by simp [h])

theorem Stands.idle (h : Stands false names b) : Idle b :=
  idle_of_flag h.flag

theorem idle_of_stands (h : Stands true [.asconSeed, .password, .pNumbers] b) : Idle b :=
  fun _ => h

-- A program that starts and ends between calls, or that is a part of `file::init`.
abbrev Calm (allowed : Call → Bool) (P : Board → Prop) (p : Driver α) (Q : α → Board → Prop) : Prop :=
  Runs Running allowed closesSucceed (fun s => P s.board) p (fun a s => Q a s.board)
    fun s => Idle s.board

theorem calm_fileOpen (hn : name ∉ names) {err : ErrorT} :
    Calm allowed (Stands false names) (tryLfs (.fileOpen name) err)
      fun _ => Stands false (name :: names) := by
  refine .tryLfs (.weaken (does_fileOpen hn) (fun _ _ h => h) fun r s _ h => ?_)
  cases hr : r.1.isOk
  case false => exact Stands.idle h
  case true  => simpa [hr] using h

theorem calm_use {c : LfsCall} (hc : Using name c) (hn : name ∈ names) {err : ErrorT} :
    Calm allowed (Stands false names) (tryLfs c err) fun _ => Stands false names := by
  refine .tryLfs ((does_use hc hn).weaken (fun _ _ h => h) fun r s _ h => ?_)
  split
  case isTrue  => exact h
  case isFalse => exact Stands.idle h

theorem calm_fileClose (hn : name ∉ names) {err : ErrorT} :
    Calm allowed (Stands false (name :: names)) (tryLfs (.fileClose name) err)
      fun _ => Stands false names := by
  refine .tryLfs ((does_fileClose hn).weaken (fun _ _ h => h) fun r s _ h => ?_)
  split
  case isTrue  => exact h.right
  case isFalse => exact Stands.idle h.right

theorem calm_setupFs :
    Calm allowed (fun b => b.isInitialized = false) setupFs fun _ => Stands false [] := by
  apply Runs.bind (.perform does_mount)
  rintro ⟨r, _⟩
  cases r
  case ok    => exact .pure fun _ h => h
  case error =>
    apply Runs.bind
    case h =>
      refine .tryLfs (.weaken does_format (fun _ _ h => h) fun r s _ h => ?_)
        (Q := fun s => s.board.isInitialized = false)
      split
      case isTrue  => exact h
      case isFalse => exact idle_of_flag h
    intro _
    apply Runs.bind
    case h =>
      refine .tryLfs (.weaken does_mount (fun _ _ h => h) fun r s _ h => ?_)
        (Q := fun s => Stands false [] s.board)
      cases hr : r.1.isOk
      case false => exact idle_of_flag (by simpa [hr] using h)
      case true  => simpa [hr] using h
    exact fun _ => .pure fun _ h => h

theorem calm_readCounter (hn : .counter ∈ names) :
    Calm allowed (Stands false names) readCounter fun _ => Stands false names := by
  apply Runs.bind (.perform (does_use (c := .fileRead .counter 4) rfl hn))
  rintro ⟨ret, bytes⟩
  apply Runs.bind (runs_neutral (o := .storeBootCycleCounter bytes) trivial robust_stands)
  intro _
  dsimp only
  split
  case isTrue  => exact .throw fun _ h => h.idle
  case isFalse => exact .pure fun _ h => h

theorem calm_bumpCounter (firstBoot : Bool) (hp : Robust P) :
    Calm allowed P (bumpCounter firstBoot) fun _ => P := by
  cases firstBoot
  case false => exact runs_neutral (o := .incrementBootCycleCounter) trivial hp
  case true  => exact .pure fun _ h => h

theorem calm_writeCounter (hn : .counter ∈ names) :
    Calm allowed (Stands false names) writeCounter fun _ => Stands false names := by
  apply Runs.bind (runs_neutral (o := .loadBootCycleCounter) trivial robust_stands)
  intro count
  apply Runs.bind (.perform (does_use (c := .fileWrite .counter (counterBytes count)) rfl hn))
  rintro ⟨ret, _⟩
  dsimp only
  split
  case isTrue  => exact .throw fun _ h => h.idle
  case isFalse => exact .pure fun _ h => h

theorem does_isInitialized :
    Does Running allowed closesSucceed (fun s => Idle s.board) .isInitialized
      fun r s => s.board.isInitialized = r ∧ Idle s.board := by
  refine .of_performs stable_board fun s r b hi h _ _ hm => ?_
  cases hm
  exact ⟨hi, rfl, h⟩

theorem does_setInitialized :
    Does Running allowed closesSucceed (fun s => Stands flag names s.board) .setInitialized
      fun _ s => Stands true names s.board := by
  refine .of_performs stable_board fun s r b hi h _ _ hm => ?_
  cases hm
  exact ⟨hi, h.toOpens.congr rfl rfl, rfl⟩

theorem does_resetInitialized :
    Does Running allowed closesSucceed (fun s => P s.board) .resetInitialized fun _ s => Idle s.board := by
  refine .of_performs stable_board fun s r b hi _ _ _ hm => ?_
  cases hm
  exact ⟨hi, idle_of_flag rfl⟩

theorem calm_init : Calm allowed Idle File.init fun _ => Idle := by
  apply Runs.bind (.perform does_isInitialized)
  intro isInitialized
  cases isInitialized
  case true  => exact .throw fun _ h => h.right
  case false =>
    apply Runs.bind ((runs_neutral (o := .createMutex) trivial robust_flag).pre fun _ h => h.left)
    intro _
    apply Runs.bind calm_setupFs
    intro firstBoot
    apply Runs.bind (calm_fileOpen (by simp))
    intro _
    apply Runs.bind (calm_readCounter (by simp))
    intro _
    apply Runs.bind (calm_use (c := .fileSeek .counter 0) rfl (by simp))
    intro _
    apply Runs.bind (calm_bumpCounter firstBoot robust_stands)
    intro _
    apply Runs.bind (calm_writeCounter (by simp))
    intro _
    apply Runs.bind (calm_fileClose (by simp))
    intro _
    apply Runs.bind (calm_fileOpen (by simp))
    intro _
    apply Runs.bind (calm_fileOpen (by simp))
    intro _
    apply Runs.bind (calm_fileOpen (by simp))
    intro _
    exact .perform (does_setInitialized.weaken (fun _ _ h => h) fun _ _ _ h => idle_of_stands h)

-- The files that are open while the module is initialised.
def openedFiles : List Name :=
  [.asconSeed, .password, .pNumbers]

theorem calm_checkInitialized :
    Calm allowed Idle File.checkInitialized fun _ => Stands true openedFiles := by
  apply Runs.bind (.perform does_isInitialized)
  intro isInitialized
  cases isInitialized
  case false => exact .throw fun _ h => h.right
  case true  => exact .pure fun _ h => h.right h.left

theorem calm_checkName {name : Name} (h : ∀ b, P b → Idle b) :
    Calm allowed P (File.checkName name) fun _ b => name.IsOpened ∧ P b := by
  unfold File.checkName
  split
  case isTrue     => exact .throw fun s => h s.board
  case isFalse hn =>
    refine .pure fun _ h => ⟨?_, h⟩
    cases name <;> simp_all [Name.IsOpened]

-- What is done with a file while the mutex is held.
theorem calm_scopedMutex {p : Driver α}
    (h : Runs Running allowed closesSucceed (fun s => Stands true openedFiles s.board) p
      (fun _ s => Stands true openedFiles s.board) fun s => Stands true openedFiles s.board) :
    Calm allowed (Stands true openedFiles) (scopedMutex p) fun _ => Idle :=
  (Runs.scopedMutex (does_neutral (o := .takeMutex) trivial robust_stands) h
    (fun _ => does_neutral (o := .giveMutex) trivial robust_stands)
    (does_neutral (o := .giveMutex) trivial robust_stands)).weaken
    (fun _ h => h) (fun _ _ => idle_of_stands) fun _ => idle_of_stands

theorem runs_use {c : LfsCall} (hc : Using name c) (hn : name ∈ names) {err : ErrorT} :
    Runs Running allowed closesSucceed (fun s => Stands flag names s.board) (tryLfs c err)
      (fun _ s => Stands flag names s.board) fun s => Stands flag names s.board :=
  .tryLfs ((does_use hc hn).weaken (fun _ _ h => h) fun _ _ _ h => by split <;> exact h)

theorem mem_openedFiles (h : name.IsOpened) : name ∈ openedFiles := by
  cases name <;> first | contradiction | decide

theorem runs_writeLocked (hn : name ∈ names) (data : List UInt8) (offset : UInt32) :
    Runs Running allowed closesSucceed (fun s => Stands flag names s.board)
      (File.writeLocked name data offset) (fun _ s => Stands flag names s.board)
      fun s => Stands flag names s.board := by
  apply Runs.bind (runs_use (c := .fileSeek name offset.toNat) rfl hn)
  intro _
  apply Runs.bind (.perform (does_use (c := .fileWrite name data) rfl hn))
  rintro ⟨ret, _⟩
  dsimp only
  split
  case isTrue  => exact .throw fun _ h => h
  case isFalse => exact .pure fun _ h => h

theorem runs_readLocked (hn : name ∈ names) (size : ℕ) (offset : UInt32) :
    Runs Running allowed closesSucceed (fun s => Stands flag names s.board)
      (File.readLocked name size offset) (fun _ s => Stands flag names s.board)
      fun s => Stands flag names s.board := by
  apply Runs.bind (runs_use (c := .fileSeek name offset.toNat) rfl hn)
  intro _
  apply Runs.bind (.perform (does_use (c := .fileRead name size) rfl hn))
  rintro ⟨ret, _⟩
  dsimp only
  split
  case isTrue  => exact .throw fun _ h => h
  case isFalse => exact .pure fun _ h => h

theorem calm_write (name : Name) (data : List UInt8) (offset : UInt32) :
    Calm allowed Idle (File.write name data offset) fun _ => Idle := by
  apply Runs.bind calm_checkInitialized
  intro _
  split
  case isTrue  => exact .throw fun _ => idle_of_stands
  case isFalse =>
    apply Runs.bind (calm_checkName fun _ => idle_of_stands)
    exact fun _ => .and_left fun hn =>
      calm_scopedMutex (runs_writeLocked (mem_openedFiles hn) data offset)

theorem calm_read (name : Name) (size : ℕ) (offset : UInt32) :
    Calm allowed Idle (File.read name size offset) fun _ => Idle := by
  apply Runs.bind calm_checkInitialized
  intro _
  split
  case isTrue  => exact .throw fun _ => idle_of_stands
  case isFalse =>
    apply Runs.bind (calm_checkName fun _ => idle_of_stands)
    exact fun _ => .and_left fun hn =>
      calm_scopedMutex (runs_readLocked (mem_openedFiles hn) size offset)

theorem calm_sync (name : Name) : Calm allowed Idle (File.sync name) fun _ => Idle := by
  apply Runs.bind calm_checkInitialized
  intro _
  apply Runs.bind (calm_checkName fun _ => idle_of_stands)
  exact fun _ => .and_left fun hn =>
    calm_scopedMutex (runs_use (c := .fileSync name) rfl (mem_openedFiles hn))

theorem calm_getBootCycleCount :
    Calm allowed Idle File.getBootCycleCount fun _ => Idle := by
  apply Runs.bind calm_checkInitialized
  intro _
  exact (runs_neutral (o := .loadBootCycleCounter) trivial robust_stands).weaken (fun _ h => h)
    (fun _ _ => idle_of_stands) fun _ h => h

-- A file is closed without an error, so that there is nothing to be said about the case of one.
theorem runs_fileClose (hn : name ≠ .counter) (hm : name ∉ names) {err : ErrorT} :
    Runs Running allowed closesSucceed (fun s => Stands flag (name :: names) s.board)
      (tryLfs (.fileClose name) err) (fun _ s => Stands flag names s.board) fun _ => False := by
  refine .tryLfs ((does_fileClose hm).weaken (fun _ _ h => h) fun r s _ h => ?_)
  rw [if_pos (h.left hn)]
  exact h.right

theorem Stands.reorder {names' : List Name} (h : Stands flag names b)
    (hn : ∀ name, name ∈ names ↔ name ∈ names') : Stands flag names' b :=
  { h with isOpen := fun name => (h.isOpen name).trans (hn name) }

theorem calm_deinit : Calm allowed Idle File.deinit fun _ => Idle := by
  have hb : Runs Running allowed closesSucceed (fun s => Stands true openedFiles s.board)
      (do
        tryLfs (.fileClose .password) .fileFailedToClose
        tryLfs (.fileClose .pNumbers) .fileFailedToClose
        tryLfs (.fileClose .asconSeed) .fileFailedToClose
        tryLfs .unmount .fileFsFailedToUnmount)
      (fun _ s => s.board.isInitialized = true) fun _ => False := by
    have hr : ∀ name, name ∈ openedFiles ↔ name ∈ [.password, .pNumbers, .asconSeed] := by
      simp [openedFiles, or_comm, or_left_comm]
    apply Runs.bind (.pre (runs_fileClose (by decide) (by decide)) fun s (h : Stands true _ _) => h.reorder hr)
    intro _
    apply Runs.bind (runs_fileClose (by decide) (by decide))
    intro _
    apply Runs.bind (runs_fileClose (by decide) (by decide))
    intro _
    refine .tryLfs (does_unmount.weaken (fun _ _ h => h) fun r s _ h => ?_)
    rw [if_pos h.left]
    exact h.right
  apply Runs.bind calm_checkInitialized
  intro _
  apply Runs.bind
  case h =>
    refine (Runs.scopedMutex (does_neutral (o := .takeMutex) trivial robust_stands) hb
      (fun _ => does_neutral (o := .giveMutex) trivial robust_flag)
      (does_neutral (o := .giveMutex) trivial (P := fun _ => False) fun _ _ _ h => h)).weaken (fun _ h => h)
      (fun _ _ h => h) fun _ => False.elim
  intro _
  apply Runs.bind (runs_neutral (o := .deleteMutex) trivial robust_flag)
  exact fun _ => .perform (does_resetInitialized (P := fun b => b.isInitialized = true))

theorem triple_storageRead (size : ℕ) :
    (outline Running).Triple (system allowed) closesSucceed () (fun s => Idle s.board)
      (Rnd.storageRead size) fun _ s => Idle s.board := by
  apply Outline.Triple.bind (does_neutral (o := .recordRead) trivial robust_idle)
  intro _
  apply Outline.Triple.bind (calm_read .asconSeed size 0)
  rintro (_ | _)
  case error => exact .bind (does_neutral (o := .record _) trivial robust_idle) fun _ => .pure fun _ _ h => h
  case ok    => exact .bind (does_neutral (o := .record _) trivial robust_idle) fun _ => .pure fun _ _ h => h

theorem triple_storageWrite (data : List UInt8) :
    (outline Running).Triple (system allowed) closesSucceed () (fun s => Idle s.board)
      (Rnd.storageWrite data) fun _ s => Idle s.board := by
  apply Outline.Triple.bind (does_neutral (o := .record _) trivial robust_idle)
  intro _
  apply Outline.Triple.bind (calm_write .asconSeed data 0)
  rintro (_ | _)
  case error => exact .pure fun _ _ h => h
  case ok    =>
    apply Outline.Triple.bind (calm_sync .asconSeed)
    rintro (_ | _)
    case error => exact .pure fun _ _ h => h
    case ok    => exact .bind (does_neutral (o := .record _) trivial robust_idle) fun _ => .pure fun _ _ h => h

theorem calm_neutral {o : Op} (ho : Neutral o) : Calm allowed Idle (perform o) fun _ => Idle :=
  runs_neutral ho robust_idle

theorem calm_randomLoadSeed : Calm allowed Idle (ExceptT.lift Rnd.randomLoadSeed) fun _ => Idle := by
  apply Runs.lift
  apply Outline.Triple.bind (triple_storageRead _)
  rintro ⟨read, _⟩
  apply Outline.Triple.bind (does_neutral (o := .trngGenerate) trivial robust_idle)
  intro _
  apply Outline.Triple.bind (does_neutral (o := .randomFetch) trivial robust_idle)
  intro seed
  exact .bind (triple_storageWrite seed) fun _ => .pure fun _ _ h => h

theorem calm_seedGenerator : Calm allowed Idle Rnd.seedGenerator fun _ => Idle := by
  apply Runs.bind (calm_neutral (o := .trngGenerate) trivial)
  intro ok
  cases ok
  case false => exact .throw fun _ h => h
  case true  =>
    apply Runs.bind calm_randomLoadSeed
    intro rc
    split
    case isTrue  => exact .throw fun _ h => h
    case isFalse => exact .pure fun _ h => h

theorem calm_awaitJitter (count : UInt32) : Calm allowed Idle (Rnd.awaitJitter count) fun _ => Idle := by
  unfold Rnd.awaitJitter
  split
  case isTrue  => exact calm_neutral (o := .delay) trivial
  case isFalse => exact .pure fun _ h => h

theorem calm_rndInit : Calm allowed Idle Rnd.init fun _ => Idle := by
  apply Runs.bind (calm_neutral (o := .rndIsInitialized) trivial)
  intro isInitialized
  cases isInitialized
  case true  => exact .throw fun _ h => h
  case false =>
    apply Runs.bind (.tryHal (calm_neutral (o := .halInit) trivial) fun _ h => h)
    intro _
    apply Runs.bind (.tryHal (calm_neutral (o := .rtcSetSecondIt) trivial) fun _ h => h)
    intro _
    apply Runs.bind (calm_neutral (o := .enableRtcIrq) trivial)
    intro _
    apply Runs.bind (.tryCatch calm_getBootCycleCount fun _ => .throw fun _ h => h)
    intro count
    apply Runs.bind (calm_awaitJitter count)
    intro _
    apply Runs.bind calm_seedGenerator
    exact fun _ => calm_neutral (o := .rndSetInitialized) trivial

theorem triple_serve (c : Call) :
    (outline Running).Triple (system allowed) closesSucceed () (fun s => Idle s.board) (serve c)
      fun _ s => Idle s.board := by
  have h : Calm allowed Idle (runCall c) fun _ => Idle := by
    cases c
    case init              => exact calm_init.bind fun _ => calm_neutral (o := .recordInitialized) trivial
    case deinit            => exact calm_deinit
    case write             => exact calm_write _ _ _
    case read              => exact (calm_read _ _ _).bind fun _ => .pure fun _ h => h
    case sync              => exact calm_sync _
    case getBootCycleCount => exact calm_getBootCycleCount.bind fun _ => calm_neutral (o := .record _) trivial
    case storageRead       => exact .bind (.lift (triple_storageRead _)) fun _ => .pure fun _ h => h
    case storageWrite      => exact .bind (.lift (triple_storageWrite _)) fun _ => .pure fun _ h => h
    case rndInit           => exact calm_rndInit
  exact Outline.Triple.bind h fun r => .pure fun _ _ hr => by cases r <;> exact hr

end Opened

open Opened

-- As long as `file::deinit` can close the files, the module is only initialised while they are open,
-- and no call of LittleFS finds a file closed.
theorem opens_of_closesSucceed {s₀ : State} {p : Pool sig Unit State}
    (h : (system fun _ => true).Survives State.powerUp closesSucceed (.idle s₀.powerUp) p) :
    p.shared.board.halted = false ∧
      (p.threads () = .pure () → p.shared.board.isInitialized = true →
        p.shared.board.mounted = true ∧
          ∀ name, name.IsOpened → (p.shared.board.files name).isOpen = true) := by
  have hl : ∀ s : State, Running s.powerUp.board ∧ Idle s.powerUp.board :=
    fun _ => ⟨rfl, idle_of_flag rfl⟩
  have hs := Survives.sound h (fun c _ => triple_serve c) stable_board (fun s _ => hl s) (hl s₀)
  refine ⟨hs.inv, fun ht hi => ?_⟩
  have ho := hs.threads ()
  rw [ht] at ho
  have ho : Idle p.shared.board := ho
  exact ⟨(ho hi).mounted, fun name hn => ((ho hi).isOpen name).mpr (mem_openedFiles hn)⟩

theorem opens_of_init : ∃ p : Pool sig Unit State, p.shared.board.isInitialized = true ∧
    p.shared.board.mounted = true ∧
      ∀ name, name.IsOpened → (p.shared.board.files name).isOpen = true := by
  have ⟨p, h, hp⟩ := (system fun _ => true).exists_survives_of_run State.powerUp closesSucceed
    (.idle State.virgin.powerUp)
    (fun p => (p.threads ()).isPure && p.shared.board.isInitialized) firstInit (by decide +kernel)
  have ⟨ht, hi⟩ := (Bool.and_eq_true _ _).mp hp
  refine ⟨p, hi, (opens_of_closesSucceed h).right ?_ hi⟩
  cases hq : p.threads ()
  case pure => rfl
  case op   =>
    rw [hq] at ht
    contradiction

-- After that, `file::deinit` cannot close the first file without an error.
def failedDeinit : List (Option (Pool.Label Unit Call Event)) :=
  firstInit ++ [some (.call () .deinit), some (.op () 0), some (.op () 0),
    some (.event (.fault { error := .noSpc, pos := 0, content := [] })), some (.op () 0),
    some (.op () 0)]

-- The module stays initialised when it is, and the next call finds that file closed.
theorem not_opens_of_fault :
    (∃ p, (system fun _ => true).Survives State.powerUp .any (.idle State.virgin.powerUp) p ∧
      ((p.threads ()).isPure && p.shared.board.isInitialized &&
        !(p.shared.board.files .password).isOpen) = true) ∧
    ∃ p, (system fun _ => true).Survives State.powerUp .any (.idle State.virgin.powerUp) p ∧
      p.shared.board.halted = true :=
  ⟨(system fun _ => true).exists_survives_of_run State.powerUp .any (.idle State.virgin.powerUp) _ failedDeinit
      (by decide +kernel),
    (system fun _ => true).exists_survives_of_run State.powerUp .any (.idle State.virgin.powerUp)
      (·.shared.board.halted)
      (failedDeinit ++ some (.call () (.write .password [0] 0)) :: .replicate 3 (some (.op () 0)))
      (by decide +kernel)⟩

end Boot
