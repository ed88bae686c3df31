import SecureHome.File.Basic
import SecureHome.Lib.Monitor

open Prog

namespace File

-- The statements of LittleFS that are about a file and leave it open.
def OfFile (name : Name) : Op → Prop
  | .assertOpen n | .loadErred n | .load n | .isCached n | .access n _ => n = name
  | .update n f => n = name ∧ ∀ file, (f file).isOpen = file.isOpen
  | _           => False

namespace Statements

variable {α : Type} {name : Name} {f : LfsFile → LfsFile} {p : Lfs α}

theorem uses_perform {o : Op} (h : OfFile name o) :
    Fallible.Uses (OfFile name) (ExceptT.lift (perform o) : Lfs (sig.Ret o)) :=
  .lift (.perform h)

theorem uses_load : Fallible.Uses (OfFile name) (Lfs.load name) :=
  uses_perform (o := .load name) rfl

theorem uses_update (hf : ∀ file, (f file).isOpen = file.isOpen) :
    Fallible.Uses (OfFile name) (Lfs.update name f) :=
  uses_perform (o := .update name f) ⟨rfl, hf⟩

theorem uses_access {a : Access} : Fallible.Uses (OfFile name) (Lfs.access name a) := by
  refine .bind (uses_perform (o := .access name a) rfl) fun e => ?_
  cases e
  case none => exact .pure
  case some => exact .throw

theorem uses_orErred (h : Fallible.Uses (OfFile name) p) :
    Fallible.Uses (OfFile name) (Lfs.orErred name p) :=
  .tryCatch h fun _ => .bind (uses_update fun _ => rfl) fun _ => .throw

theorem uses_asserted (h : Fallible.Uses (OfFile name) p) :
    Fallible.Uses (OfFile name) (Lfs.asserted name p) :=
  .bind (uses_perform (o := .assertOpen name) rfl) fun _ => h

theorem uses_tryLfs {err : ErrorT} (h : Fallible.Uses (OfFile name) p) :
    Fallible.Uses (OfFile name) (tryLfs p err) :=
  .adapt h

theorem uses_writeByte {byte : UInt8} :
    Fallible.Uses (OfFile name) (lfsFileFlushedWriteByte name byte) := by
  have hp : Fallible.Uses (OfFile name) (do
      Lfs.orErred name (Lfs.access name .prog)
      Lfs.update name fun file =>
        { file with branch := file.branch ++ [byte], pos := file.pos + 1 }) :=
    .bind (uses_orErred uses_access) fun _ => uses_update fun _ => rfl
  refine .bind uses_load fun file => ?_
  split
  case isTrue  =>
    exact .bind (uses_orErred uses_access) fun _ => .bind (uses_update fun _ => rfl) fun _ => hp
  case isFalse => exact hp

theorem uses_flushedWrite {data : List UInt8} :
    Fallible.Uses (OfFile name) (lfsFileFlushedWrite name data) := by
  induction data
  case nil          => exact .pure
  case cons byte hi => exact .bind uses_writeByte fun _ => hi

theorem uses_copy {data : List UInt8} : Fallible.Uses (OfFile name) (lfsFileCopy name data) := by
  induction data
  case nil          => exact .pure
  case cons byte hi => exact .bind uses_access fun _ => .bind uses_writeByte fun _ => hi

theorem uses_flush : Fallible.Uses (OfFile name) (lfsFileFlush name) := by
  refine .bind (uses_update fun _ => rfl) fun _ => .bind uses_load fun file => ?_
  split
  case isTrue  => exact .bind uses_copy fun _ => .bind uses_access fun _ => uses_update fun _ => rfl
  case isFalse => exact .pure

theorem uses_sync : Fallible.Uses (OfFile name) (lfsFileSync name) := by
  refine .bind (uses_perform (o := .loadErred name) rfl) fun erred => ?_
  split
  case isTrue  => exact .pure
  case isFalse =>
    refine .bind (uses_orErred uses_flush) fun _ => .bind uses_load fun file => ?_
    split
    case isTrue  =>
      exact .bind uses_access fun _ => .bind (uses_orErred uses_access) fun _ => uses_update fun _ => rfl
    case isFalse => exact .pure

theorem uses_readBytes {bytes : List UInt8} :
    Fallible.Uses (OfFile name) (lfsFileReadBytes name bytes) := by
  induction bytes
  case nil          => exact .pure
  case cons byte hi =>
    have hp : Fallible.Uses (OfFile name) (do
        Lfs.access name .read
        Lfs.update name fun file => { file with pos := file.pos + 1 }
        lfsFileReadBytes name _) :=
      .bind uses_access fun _ => .bind (uses_update fun _ => rfl) fun _ => hi
    refine .bind uses_load fun file => ?_
    split
    case isTrue  => exact .bind uses_access fun _ => .bind (uses_update fun _ => rfl) fun _ => hp
    case isFalse => exact hp

theorem uses_flushedRead {size : ℕ} : Fallible.Uses (OfFile name) (lfsFileFlushedRead name size) := by
  refine .bind uses_load fun file => ?_
  split
  case isTrue  => exact .pure
  case isFalse => exact .bind uses_readBytes fun _ => .pure

theorem uses_read {size : ℕ} : Fallible.Uses (OfFile name) (lfsFileRead name size) := by
  refine .bind uses_load fun file => ?_
  split
  case isTrue  => exact .bind uses_flush fun _ => uses_flushedRead
  case isFalse => exact uses_flushedRead

theorem uses_fillGap : Fallible.Uses (OfFile name) (lfsFileFillGap name) := by
  refine .bind uses_load fun file => ?_
  split
  case isTrue  => exact .bind (uses_update fun _ => rfl) fun _ => uses_flushedWrite
  case isFalse => exact .pure

theorem uses_write {data : List UInt8} : Fallible.Uses (OfFile name) (lfsFileWrite name data) := by
  have hp : Fallible.Uses (OfFile name) (do
      if ((← Lfs.load name).pos + data.length) % 2 ^ 32 > maxFileSizeBytes then
        throw .fBig
      else
        lfsFileFillGap name
        lfsFileFlushedWrite name data
        Lfs.update name ({ · with erred := false })
        return data.length) := by
    refine .bind uses_load fun file => ?_
    split
    case isTrue  => exact .throw
    case isFalse =>
      exact .bind uses_fillGap fun _ => .bind uses_flushedWrite fun _ =>
        .bind (uses_update fun _ => rfl) fun _ => .pure
  refine .bind uses_load fun file => ?_
  split
  case isTrue  => exact .bind uses_flush fun _ => hp
  case isFalse => exact hp

theorem uses_move {npos : ℕ} : Fallible.Uses (OfFile name) (lfsFileMove name npos) := by
  refine .bind (uses_perform (o := .isCached name) rfl) fun isCached => .bind uses_load fun file => ?_
  split
  case isTrue  => exact .bind uses_flush fun _ => uses_update fun _ => rfl
  case isFalse => exact uses_update fun _ => rfl

theorem uses_seek {off : Int32} : Fallible.Uses (OfFile name) (lfsFileSeek name off) := by
  unfold lfsFileSeek
  dsimp only
  split
  case isTrue  => exact .throw
  case isFalse =>
    refine .bind uses_load fun file => ?_
    split
    case isTrue  => exact .bind uses_move fun _ => .pure
    case isFalse => exact .pure

-- What the calls do while they hold the mutex.
theorem uses_writeLocked {data : List UInt8} {offset : UInt32} :
    Fallible.Uses (OfFile name) (writeLocked name data offset) := by
  refine .bind (uses_tryLfs (uses_asserted uses_seek)) fun _ => ?_
  refine .bind (.lift (uses_asserted uses_write)) fun ret => ?_
  split
  case isTrue  => exact .throw
  case isFalse => exact .pure

theorem uses_readLocked {size : ℕ} {offset : UInt32} :
    Fallible.Uses (OfFile name) (readLocked name size offset) := by
  refine .bind (uses_tryLfs (uses_asserted uses_seek)) fun _ => ?_
  refine .bind (.lift (uses_asserted uses_read)) fun ret => ?_
  cases ret
  case error    => exact .throw
  case ok bytes =>
    dsimp only
    split
    case isTrue  => exact .pure
    case isFalse => exact .throw

theorem uses_syncLocked :
    Fallible.Uses (OfFile name) (tryLfs (Lfs.asserted name (lfsFileSync name)) .fileFailedToSync) :=
  uses_tryLfs (uses_asserted uses_sync)

end Statements

-- Whether a task holds the mutex. It takes the mutex once and does not delete it.
def holding : Monitor sig Call Bool where
  idle    := false
  start _ := false
  next
    | _, .takeMutex, _ => true
    | _, .giveMutex, _ => false
    | m, _, _          => m
  allows
    | m, .takeMutex   => m = false
    | m, .giveMutex   => m = true
    | _, .deleteMutex => False
    | _, _            => True

-- The program gives the mutex back if it takes it.
def Returns {α : Type} (p : Fallible sig ErrorT α) : Prop :=
  FallibleObeys holding (· = false) p (fun _ m => m = false) fun _ m => m = false

namespace Returns

open Statements

variable {α β : Type} {name : Name} {p : Fallible sig ErrorT α}

theorem run (h : Returns p) : p.run.Obeys holding (· = false) fun _ m => m = false := by
  refine Obeys.weaken h (fun _ hm => hm) fun r _ hm => ?_
  cases r <;> exact hm

theorem pure {a : α} : Returns (Pure.pure a) :=
  FallibleObeys.pure fun _ h => h

theorem throw {e : ErrorT} : Returns (throw e : Fallible sig ErrorT α) :=
  FallibleObeys.throw fun _ h => h

theorem bind {f : α → Fallible sig ErrorT β} (h : Returns p) (hf : ∀ a, Returns (f a)) :
    Returns (p >>= f) :=
  FallibleObeys.bind h hf

theorem scopedMutex (h : Fallible.Uses (OfFile name) p) : Returns (scopedMutex p) := by
  have ht : (perform .takeMutex).Obeys holding (· = false) fun _ m => m = true :=
    .perform (fun _ hm => hm) fun _ _ _ => rfl
  have hg : (perform .giveMutex).Obeys holding (· = true) fun _ m => m = false :=
    .perform (fun _ hm => hm) fun _ _ _ => rfl
  have hp : p.run.Obeys holding (· = true) fun _ m => m = true := by
    refine .of_uses h (fun o m ho hm => ?_) fun o m r ho hm => ?_
    case refine_1 => cases o <;> trivial
    case refine_2 => cases o <;> first | exact hm | cases ho
  refine Obeys.bind ht fun _ => Obeys.bind hp fun r => Obeys.bind hg fun _ => ?_
  cases r <;> exact .pure fun _ hm => hm

theorem checkInitialized : Returns checkInitialized := by
  have hi : FallibleObeys holding (· = false)
      (ExceptT.lift (perform .isInitialized) : Fallible sig ErrorT Bool) (fun _ m => m = false)
      fun _ m => m = false := .lift (.perform (fun _ _ => trivial) fun _ _ hm => hm)
  refine FallibleObeys.bind hi fun initialized => ?_
  cases initialized
  case false => exact throw
  case true  => exact pure

theorem checkName : Returns (checkName name) := by
  unfold File.checkName
  split
  case isTrue  => exact throw
  case isFalse => exact pure

theorem write {data : List UInt8} {offset : UInt32} : Returns (write name data offset) := by
  refine checkInitialized.bind fun _ => ?_
  split
  case isTrue  => exact throw
  case isFalse => exact checkName.bind fun _ => scopedMutex uses_writeLocked

theorem read {size : ℕ} {offset : UInt32} : Returns (read name size offset) := by
  refine checkInitialized.bind fun _ => ?_
  split
  case isTrue  => exact throw
  case isFalse => exact checkName.bind fun _ => scopedMutex uses_readLocked

theorem sync : Returns (sync name) :=
  checkInitialized.bind fun _ => checkName.bind fun _ => scopedMutex uses_syncLocked

theorem serve {c : Call} (h : c ≠ .deinit) :
    (serve c).Obeys holding (· = false) fun _ m => m = false := by
  have hp {o : Op} (ha : holding.allows false o) (hn : ∀ r, holding.next false o r = false) :
      (perform o).Obeys holding (· = false) fun _ m => m = false :=
    .perform (fun _ hm => hm ▸ ha) fun _ r hm => hm ▸ hn r
  have hr : Returns (runCall c) := by
    cases c
    case deinit => contradiction
    case write  => exact write.bind fun _ => pure
    case read   => exact read
    case sync   => exact sync.bind fun _ => pure
  exact Obeys.bind (hp trivial fun _ => rfl) fun _ => Obeys.bind hr.run fun _ =>
    hp trivial fun _ => rfl

end Returns

end File
