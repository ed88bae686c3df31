import SecureHome.Boot.Rules

open File (Name)

namespace Boot

-- The files that are written by a call other than `file::init`.
def Call.Writes (c : Call) (name : Name) : Prop :=
  match c with
  | .write u _ _                 => u = name
  | .storageWrite _ | .rndInit   => name = .asconSeed
  | _                            => False

-- The calls of LittleFS that a call makes.
def LfsCall.Of (c : Call) : LfsCall → Prop
  | mount | format | fileOpen _       => c = .init
  | unmount                           => c = .deinit
  | fileClose name                    => if name = .counter then c = .init else c = .deinit
  | fileSync name                     => name ≠ .counter
  | fileSeek name _ | fileRead name _ => name = .counter → c = .init
  | fileWrite name _                  => if name = .counter then c = .init else c.Writes name

-- The statements that a call makes.
def Op.Of (c : Call) : Op → Prop
  | .setInitialized | .createMutex | .storeBootCycleCounter _ | .incrementBootCycleCounter
  | .recordInitialized                                      => c = .init
  | .resetInitialized                                       => c = .deinit
  | .lfs l                                                  => l.Of c
  | .recordRead | .record (.loaded _) | .record .notLoaded  =>
    c = .rndInit ∨ ∃ size, c = .storageRead size
  | .record (.write _) | .record (.saved _)                 =>
    c = .rndInit ∨ ∃ data, c = .storageWrite data
  | .record (.counted _)                                    => c = .getBootCycleCount
  | .record _                                               => False
  | .rndIsInitialized | .rndSetInitialized | .halInit | .rtcSetSecondIt | .enableRtcIrq | .delay
  | .trngGenerate | .randomFetch                            => c = .rndInit
  | _                                                       => True

namespace Statements

variable {c : Call} {o : Op} {α : Type} {p : Driver α} {A : Op → Prop}

theorem uses_perform (h : A o) : Fallible.Uses A (perform o) :=
  .lift (.perform h)

theorem uses_tryLfs {l : LfsCall} {err : ErrorT} (h : A (.lfs l)) : Fallible.Uses A (tryLfs l err) := by
  refine .bind (uses_perform h) ?_
  rintro ⟨_ | _, _⟩
  case error => exact .throw
  case ok    => exact .pure

theorem uses_tryHal {q : Driver Hal.Status} (h : Fallible.Uses A q) : Fallible.Uses A (tryHal q) := by
  refine .bind h fun r => ?_
  split
  case isTrue  => exact .throw
  case isFalse => exact .pure

theorem uses_scopedMutex (h : Fallible.Uses (Op.Of c) p) : Fallible.Uses (Op.Of c) (scopedMutex p) :=
  Prog.Uses.bind (.perform trivial) fun _ => Prog.Uses.bind h fun _ =>
    Prog.Uses.bind (.perform trivial) fun _ => .pure

theorem uses_checkInitialized : Fallible.Uses (Op.Of c) File.checkInitialized := by
  refine .bind (uses_perform trivial) fun r => ?_
  cases r
  case false => exact .throw
  case true  => exact .pure

-- What comes after the check of the name is only done with other files than the counter.
theorem uses_checkName {name : Name} (h : name ≠ .counter → Fallible.Uses (Op.Of c) p) :
    Fallible.Uses (Op.Of c) (do File.checkName name; p) := by
  unfold File.checkName
  by_cases hn : name = .counter ∨ name = .count
  case pos => rw [if_pos hn]; exact .throw
  case neg => rw [if_neg hn]; exact h fun he => hn (.inl he)

theorem uses_write {name : Name} {data : List UInt8} {offset : UInt32} (h : c.Writes name) :
    Fallible.Uses (Op.Of c) (File.write name data offset) := by
  refine .bind uses_checkInitialized fun _ => ?_
  split
  case isTrue  => exact .throw
  case isFalse =>
    refine uses_checkName fun hn => uses_scopedMutex (.bind (uses_tryLfs fun he => absurd he hn) fun _ => ?_)
    have hw : Op.Of c (.lfs (.fileWrite name data)) := by
      show ite _ _ _
      rwa [if_neg hn]
    refine .bind (uses_perform hw) ?_
    rintro ⟨r, _⟩
    dsimp only
    split
    case isTrue  => exact .throw
    case isFalse => exact .pure

theorem uses_read {name : Name} {size : ℕ} {offset : UInt32} :
    Fallible.Uses (Op.Of c) (File.read name size offset) := by
  refine .bind uses_checkInitialized fun _ => ?_
  split
  case isTrue  => exact .throw
  case isFalse =>
    refine uses_checkName fun hn => uses_scopedMutex (.bind (uses_tryLfs fun he => absurd he hn) fun _ => ?_)
    refine .bind (uses_perform (o := .lfs (.fileRead name size)) fun he => absurd he hn) ?_
    rintro ⟨r, _⟩
    dsimp only
    split
    case isTrue  => exact .throw
    case isFalse => exact .pure

theorem uses_sync {name : Name} : Fallible.Uses (Op.Of c) (File.sync name) := by
  refine .bind uses_checkInitialized ?_
  exact fun _ => uses_checkName fun hn => uses_scopedMutex (uses_tryLfs hn)

theorem uses_deinit : Fallible.Uses (Op.Of .deinit) File.deinit := by
  refine .bind uses_checkInitialized fun _ => ?_
  apply Fallible.Uses.bind
  case hp =>
    apply uses_scopedMutex
    refine .bind (uses_tryLfs rfl) fun _ => ?_
    refine .bind (uses_tryLfs rfl) fun _ => ?_
    refine .bind (uses_tryLfs rfl) ?_
    exact fun _ => uses_tryLfs rfl
  exact fun _ => .bind (uses_perform trivial) fun _ => uses_perform rfl

theorem uses_setupFs : Fallible.Uses (Op.Of .init) setupFs := by
  refine .bind (uses_perform rfl) ?_
  rintro ⟨_ | _, _⟩
  case ok    => exact .pure
  case error =>
    refine .bind (uses_tryLfs rfl) fun _ => ?_
    exact .bind (uses_tryLfs rfl) fun _ => .pure

theorem uses_readCounter : Fallible.Uses (Op.Of .init) readCounter := by
  refine .bind (uses_perform (o := .lfs (.fileRead .counter 4)) fun _ => rfl) ?_
  rintro ⟨ret, bytes⟩
  refine .bind (uses_perform rfl) fun _ => ?_
  split
  case isTrue  => exact .throw
  case isFalse => exact .pure

theorem uses_bumpCounter (firstBoot : Bool) : Fallible.Uses (Op.Of .init) (bumpCounter firstBoot) := by
  cases firstBoot
  case true  => exact .pure
  case false => exact uses_perform rfl

theorem uses_writeCounter : Fallible.Uses (Op.Of .init) writeCounter := by
  refine .bind (uses_perform (o := .loadBootCycleCounter) trivial) fun count => ?_
  refine .bind (uses_perform (o := .lfs (.fileWrite .counter (counterBytes count))) rfl) ?_
  rintro ⟨ret, _⟩
  dsimp only
  split
  case isTrue  => exact .throw
  case isFalse => exact .pure

theorem uses_getBootCycleCount : Fallible.Uses (Op.Of c) File.getBootCycleCount :=
  .bind uses_checkInitialized fun _ => uses_perform trivial

theorem uses_storageRead {size : ℕ} (h : c = .rndInit ∨ ∃ size, c = .storageRead size) :
    (Rnd.storageRead size).Uses (Op.Of c) := by
  refine .bind (.perform h) fun _ => ?_
  refine .bind uses_read ?_
  rintro (_ | _) <;> exact .bind (.perform h) fun _ => .pure

theorem uses_storageWrite {data : List UInt8} (h : c = .rndInit ∨ ∃ data, c = .storageWrite data) :
    (Rnd.storageWrite data).Uses (Op.Of c) := by
  have hw : c.Writes .asconSeed := by rcases h with rfl | ⟨_, rfl⟩ <;> rfl
  refine .bind (.perform h) fun _ => ?_
  refine .bind (uses_write hw) ?_
  rintro (_ | _)
  case error => exact .pure
  case ok    =>
    refine .bind uses_sync ?_
    rintro (_ | _)
    case error => exact .pure
    case ok    => exact .bind (.perform h) fun _ => .pure

theorem uses_randomLoadSeed : Rnd.randomLoadSeed.Uses (Op.Of .rndInit) := by
  refine .bind (uses_storageRead (.inl rfl)) ?_
  rintro ⟨read, _⟩
  refine .bind (.perform rfl) fun _ => ?_
  refine .bind (.perform rfl) ?_
  exact fun _ => .bind (uses_storageWrite (.inl rfl)) fun _ => .pure

theorem uses_seedGenerator : Fallible.Uses (Op.Of .rndInit) Rnd.seedGenerator := by
  refine .bind (uses_perform rfl) fun ok => ?_
  cases ok
  case false => exact .throw
  case true  =>
    refine .bind (.lift uses_randomLoadSeed) fun rc => ?_
    split
    case isTrue  => exact .throw
    case isFalse => exact .pure

theorem uses_awaitJitter (count : UInt32) :
    Fallible.Uses (Op.Of .rndInit) (Rnd.awaitJitter count) := by
  unfold Rnd.awaitJitter
  split
  case isTrue  => exact uses_perform rfl
  case isFalse => exact .pure

theorem uses_rndInit : Fallible.Uses (Op.Of .rndInit) Rnd.init := by
  refine .bind (uses_perform rfl) fun isInitialized => ?_
  cases isInitialized
  case true  => exact .throw
  case false =>
    refine .bind (uses_tryHal (uses_perform rfl)) fun _ => ?_
    refine .bind (uses_tryHal (uses_perform rfl)) fun _ => ?_
    refine .bind (uses_perform rfl) fun _ => ?_
    refine .bind (.tryCatch uses_getBootCycleCount fun _ => .throw) fun count => ?_
    refine .bind (uses_awaitJitter count) fun _ => ?_
    refine .bind uses_seedGenerator ?_
    exact fun _ => uses_perform rfl

theorem uses_init : Fallible.Uses (Op.Of .init) File.init := by
  refine .bind (uses_perform trivial) fun isInitialized => ?_
  cases isInitialized
  case true  => exact .throw
  case false =>
    refine .bind (uses_perform rfl) fun _ => ?_
    refine .bind uses_setupFs fun firstBoot => ?_
    refine .bind (uses_tryLfs rfl) fun _ => ?_
    refine .bind uses_readCounter fun _ => ?_
    refine .bind (uses_tryLfs fun _ => rfl) fun _ => ?_
    refine .bind (uses_bumpCounter firstBoot) fun _ => ?_
    refine .bind uses_writeCounter fun _ => ?_
    refine .bind (uses_tryLfs rfl) fun _ => ?_
    refine .bind (uses_tryLfs rfl) fun _ => ?_
    refine .bind (uses_tryLfs rfl) fun _ => ?_
    refine .bind (uses_tryLfs rfl) ?_
    exact fun _ => uses_perform rfl

theorem uses_runCall (c : Call) : Fallible.Uses (Op.Of c) (runCall c) := by
  cases c
  case init              => exact .bind uses_init fun _ => uses_perform rfl
  case deinit            => exact uses_deinit
  case write             => exact uses_write rfl
  case read              => exact .bind uses_read fun _ => .pure
  case sync              => exact uses_sync
  case getBootCycleCount => exact .bind uses_getBootCycleCount fun _ => uses_perform rfl
  case storageRead size  => exact .bind (.lift (uses_storageRead (.inr ⟨size, rfl⟩))) fun _ => .pure
  case storageWrite data => exact .bind (.lift (uses_storageWrite (.inr ⟨data, rfl⟩))) fun _ => .pure
  case rndInit           => exact uses_rndInit

end Statements

open Statements

theorem uses_serve (c : Call) : (serve c).Uses (Op.Of c) :=
  Prog.Uses.bind (uses_runCall c) fun _ => .pure

end Boot
