import SecureHome.Boot.Alone
import SecureHome.File.Statements
import SecureHome.Lib.Trace

open File (Lfs LfsError LfsFile Name maxFileSizeBytes)
open File.LfsFile (Has)
open Prog

-- The calls of LittleFS do what the functions for a file do.
namespace Boot.Alone

variable {τ : Type} [DecidableEq τ] {t : τ} {s s' : File.State τ} {name : Name} {file : LfsFile}
  {b b' : Board} {c : LfsCall}

-- The errors that an operation may have.
def faults (s : File.State τ) : File.Op → List (Option LfsError)
  | .access name a => none :: if CanFail (s.files name) a then LfsError.all.map some else []
  | _              => [none]

-- The operations of a task, of which each access to the flash may have an error.
def execFile (t : τ) (o : File.Op) (s : File.State τ) : List (File.sig.Ret o × File.State τ) :=
  (faults s o).flatMap fun fault => File.State.exec t { s with fault } o

def OnFile (name : Name) : File.Op → Prop
  | .assertOpen n | .loadErred n | .load n | .isCached n | .access n _ | .update n _ => n = name
  | _                                                                                => False

theorem onFile_of_ofFile {o : File.Op} (h : File.OfFile name o) : OnFile name o := by
  cases o <;> first
    | exact h.elim
    | exact h.left
    | exact h

omit [DecidableEq τ] in
theorem files_access {a : File.Access} :
    (s.access name a).files name = afterAccess (s.files name) a ∧
      ∀ n ≠ name, (s.access name a).files n = s.files n := by
  cases a
  case commit => exact ⟨Function.update_self .., fun n hn => Function.update_of_ne hn ..⟩
  all_goals exact ⟨rfl, fun _ _ => rfl⟩

theorem exec_of_execFile {o : File.Op} {r : File.sig.Ret o} (ho : OnFile name o)
    (hm : (r, s') ∈ execFile t o s) :
    (r, s'.files name) ∈ exec o (s.files name) ∧ ∀ n ≠ name, s'.files n = s.files n := by
  obtain ⟨fault, hf, hm⟩ := List.mem_flatMap.mp hm
  cases o <;> first
    | exact ho.elim
    | cases ho
  case assertOpen =>
    simp only [File.State.exec] at hm
    split at hm
    case isFalse   => contradiction
    case isTrue hi =>
      cases List.mem_singleton.mp hm
      refine ⟨?_, fun _ _ => rfl⟩
      show _ ∈ if (s.files name).isOpen = true then [((), s.files name)] else []
      rw [if_pos hi]
      exact List.mem_singleton_self _
  case loadErred | load =>
    cases List.mem_singleton.mp hm
    exact ⟨List.mem_singleton_self _, fun _ _ => rfl⟩
  case update f =>
    cases List.mem_singleton.mp hm
    refine ⟨List.mem_singleton.mpr (Prod.ext rfl ?_), fun n hn => Function.update_of_ne hn ..⟩
    exact Function.update_self ..
  case isCached =>
    simp only [File.State.exec, List.mem_cons, List.not_mem_nil, or_false, Prod.mk.injEq] at hm
    rcases hm with ⟨rfl, rfl⟩ | ⟨rfl, rfl⟩
    · exact ⟨List.mem_cons_self, fun _ _ => rfl⟩
    · exact ⟨List.mem_cons_of_mem _ List.mem_cons_self, fun _ _ => rfl⟩
  case access a _ =>
    obtain ⟨ha, hn⟩ := @files_access τ { s with fault := none } name a
    rcases List.mem_cons.mp hf with rfl | hf
    case inl =>
      cases List.mem_singleton.mp hm
      exact ⟨List.mem_cons.mpr (.inl (Prod.ext rfl ha)), hn⟩
    case inr =>
      split at hf
      case isFalse   => contradiction
      case isTrue hc =>
        obtain ⟨e, he, rfl⟩ := List.mem_map.mp hf
        simp only [File.State.exec, List.mem_cons, List.not_mem_nil, or_false, Prod.mk.injEq] at hm
        refine ⟨List.mem_cons_of_mem _ ?_, ?_⟩
        case refine_1 =>
          rw [if_pos hc]
          refine List.mem_flatMap.mpr ⟨e, he, ?_⟩
          rcases hm with ⟨rfl, rfl⟩ | ⟨rfl, rfl⟩
          · exact List.mem_cons_self
          · exact List.mem_cons_of_mem _ (List.mem_singleton.mpr (Prod.ext rfl ha))
        case refine_2 =>
          rcases hm with ⟨rfl, rfl⟩ | ⟨rfl, rfl⟩
          · exact fun _ _ => rfl
          · exact hn

theorem ends_of_execFile {α : Type} {p : Prog File.sig α} {r : α} (hu : p.Uses (OnFile name))
    (h : p.Ends (execFile t) s r s') :
    p.Ends exec (s.files name) r (s'.files name) ∧ ∀ n ≠ name, s'.files n = s.files n := by
  induction p generalizing s
  case pure =>
    obtain ⟨rfl, rfl⟩ := h
    exact ⟨⟨rfl, rfl⟩, fun _ _ => rfl⟩
  case op o k hi =>
    have ⟨r, s₁, hm, h⟩ := h
    have ⟨hm, hn⟩ := exec_of_execFile hu.left hm
    have ⟨h, hn'⟩ := hi r (hu.right r) h
    exact ⟨⟨r, _, hm, h⟩, fun n hne => (hn' n hne).trans (hn n hne)⟩

-- What a call is in terms of the functions for a file, with the value that it returns and the bytes that
-- it copies.
inductive Implements (name : Name) : LfsCall → Lfs (ℕ × List UInt8) → Prop
  | fileClose : Implements name (.fileClose name) do
    File.lfsFileClose name
    return (0, [])
  | fileSync : Implements name (.fileSync name) do
    File.lfsFileSync name
    return (0, [])
  | fileSeek (offset : UInt32) : Implements name (.fileSeek name offset.toNat) do
    return (← File.lfsFileSeek name offset.toInt32, [])
  | fileRead (size : ℕ) : Implements name (.fileRead name size) do
    let bytes ← File.lfsFileRead name size
    return (bytes.length, bytes)
  | fileWrite (data : List UInt8) : Implements name (.fileWrite name data) do
    return (← File.lfsFileWrite name data, [])

-- A call that fails may have copied some bytes.
def Agrees : Except LfsError (ℕ × List UInt8) → LfsResult → Prop
  | .ok (n, bytes), r => r = (.ok n, bytes)
  | .error e, r       => r.1 = .error e

def handleOf (file : LfsFile) : Handle where
  isOpen  := file.isOpen
  pos     := file.pos
  content := file.content
  erred   := file.erred

-- The board has the file, of which it only keeps what is relevant while the file is open.
structure Matches (b : Board) (name : Name) (file : LfsFile) : Prop where
  isOpen : (b.files name).isOpen = file.isOpen
  handle : file.isOpen = true → b.files name = handleOf file
  disk   : b.partition.bytes name = file.disk
  has    : Has file.content file

-- A call leaves the other files alone.
def Elsewhere (name : Name) (b b' : Board) : Prop :=
  ∀ n ≠ name, b'.files n = b.files n ∧ b'.partition.bytes n = b.partition.bytes n

theorem Implements.uses {p : Lfs (ℕ × List UInt8)} (h : Implements name c p) :
    Fallible.Uses (OnFile name) p := by
  have hf {α : Type} {q : Lfs α} (h : Fallible.Uses (File.OfFile name) q) : Fallible.Uses (OnFile name) q :=
    Prog.Uses.weaken h fun _ => onFile_of_ofFile
  have hu {f : LfsFile → LfsFile} : Fallible.Uses (OnFile name) (Lfs.update name f) :=
    .lift (.perform (S := File.sig) (o := .update name f) rfl)
  cases h
  case fileClose =>
    exact .bind (.bind (.tryCatch (hf File.Statements.uses_sync) fun _ => .bind hu fun _ => .throw) fun _ => hu)
      fun _ => .pure
  case fileSync  => exact .bind (hf File.Statements.uses_sync) fun _ => .pure
  case fileSeek  => exact .bind (hf File.Statements.uses_seek) fun _ => .pure
  case fileRead  => exact .bind (hf File.Statements.uses_read) fun _ => .pure
  case fileWrite => exact .bind (hf File.Statements.uses_write) fun _ => .pure

theorem Matches.now (h : Matches b name file) :
    Now file.disk file.isOpen file.erred file.content file :=
  { h.has with disk := rfl, isOpen := rfl, erred := rfl }

variable {disk v : List UInt8} {erred : Bool} {file' : LfsFile} {r : Except LfsError (ℕ × List UInt8)}

theorem Matches.of_now (h : Now disk true erred v file')
    (hf : b'.files name = { isOpen := true, pos := file'.pos, content := v, erred })
    (hd : b'.partition.bytes name = disk) : Matches b' name file' where
  isOpen   := by rw [hf, h.isOpen]
  handle _ := by rw [hf, handleOf, h.content, h.isOpen, h.erred]
  disk     := hd.trans h.disk.symm
  has      := h.content ▸ h.toHas

theorem Matches.of_closed (h : Now disk false erred v file') (hf : b'.files name = .closed)
    (hd : b'.partition.bytes name = disk) : Matches b' name file' where
  isOpen    := by rw [hf, h.isOpen]; rfl
  handle hi := absurd (h.isOpen.symm.trans hi) nofun
  disk      := hd.trans h.disk.symm
  has       := h.content ▸ h.toHas

-- The call can return the result on the board, with the file as given.
def Outcome (b : Board) (c : LfsCall) (name : Name) (r : Except LfsError (ℕ × List UInt8))
    (file : LfsFile) : Prop :=
  ∃ fault x b', (x, b') ∈ c.results fault b ∧ Agrees r x ∧ Matches b' name file ∧ Elsewhere name b b'

theorem files_setFile {h : Handle} : (b.setFile name h).files name = h :=
  Function.update_self ..

theorem bytes_commit : (b.commit name).partition.bytes name = (b.files name).content :=
  Function.update_self ..

theorem elsewhere_setFile {h : Handle} : Elsewhere name b (b.setFile name h) :=
  fun _ hn => ⟨Function.update_of_ne hn .., rfl⟩

theorem elsewhere_commit : Elsewhere name b (b.commit name) :=
  fun _ hn => ⟨rfl, Function.update_of_ne hn ..⟩

theorem Elsewhere.trans {b₁ : Board} (h : Elsewhere name b b₁) (h' : Elsewhere name b₁ b') :
    Elsewhere name b b' :=
  fun n hn => ⟨(h' n hn).left.trans (h n hn).left, (h' n hn).right.trans (h n hn).right⟩

section

variable (hm : Matches b name file) (ho : file.isOpen = true)

include hm ho

theorem Matches.files : b.files name =
    { isOpen := true, pos := file.pos, content := file.content, erred := file.erred } := by
  rw [hm.handle ho, handleOf, ho]

-- An error that only moves the position and may mark the file.
theorem outcome_of_spoilt {e : LfsError} (h : Spoilt file.disk true file.erred file.content file')
    (hr : ∀ erred, erred = file.erred ∨ erred = true →
      ((.error e, []), b.setFile name { b.files name with pos := file'.pos, erred }) ∈
        c.results (some ⟨e, file'.pos, []⟩) b) : Outcome b c name (.error e) file' := by
  have hf := hm.files ho
  have hs {erred : Bool} (he : erred = file.erred ∨ erred = true)
      (h : Now file.disk true erred file.content file') : Outcome b c name (.error e) file' :=
    ⟨_, _, _, hr erred he, rfl, .of_now h (by rw [files_setFile, hf]) hm.disk, elsewhere_setFile⟩
  exact h.elim (hs (.inl rfl)) (hs (.inr rfl))

theorem outcome_fileSync {q : Except LfsError Unit}
    (h : (File.lfsFileSync name).run.Ends exec file q file') :
    Outcome b (.fileSync name) name (q.map fun _ => (0, [])) file' := by
  have hn := hm.now
  rw [ho] at hn
  have hf := hm.files ho
  have h := does_sync hn file q file' rfl h
  cases q
  case ok =>
    cases he : file.erred <;> simp only [he] at h hf
    case true =>
      cases (h : file' = file)
      exact ⟨none, _, b, by simp [LfsCall.results, hf], rfl, hm, fun _ _ => ⟨rfl, rfl⟩⟩
    case false =>
      refine ⟨none, _, b.commit name, by simp [LfsCall.results, hf], rfl, .of_now h.left ?_ ?_,
        elsewhere_commit⟩
      case refine_1 => exact h.right ▸ hf
      case refine_2 => rw [bytes_commit, hf]
  case error e _ =>
    obtain ⟨he, h⟩ := h
    rw [he] at hf
    rcases h with h | h
    case inl =>
      refine outcome_of_spoilt hm ho (he.symm ▸ h) fun erred hr => ?_
      cases erred <;> simp [LfsCall.results, hf]
    case inr =>
      refine ⟨some ⟨e, file'.pos, []⟩, (.error e, []),
        (b.commit name).setFile name { b.files name with pos := file'.pos, erred := true },
        ?_, rfl, .of_now h ?_ ?_, elsewhere_commit.trans elsewhere_setFile⟩
      case refine_1 => simp [LfsCall.results, hf]
      case refine_2 => rw [files_setFile, hf]
      case refine_3 => exact bytes_commit.trans (by rw [hf])

theorem outcome_fileClose {q : Except LfsError Unit}
    (h : (File.lfsFileClose name).run.Ends exec file q file') :
    Outcome b (.fileClose name) name (q.map fun _ => (0, [])) file' := by
  have hn := hm.now
  rw [ho] at hn
  have hf := hm.files ho
  have h := does_close hn file q file' rfl h
  cases q
  case ok =>
    obtain ⟨_, h⟩ := h
    cases he : file.erred <;> simp only [he] at h hf
    case true =>
      exact ⟨none, _, b.setFile name .closed, by simp [LfsCall.results, hf], rfl,
        .of_closed h files_setFile hm.disk, elsewhere_setFile⟩
    case false =>
      exact ⟨none, _, (b.commit name).setFile name .closed, by simp [LfsCall.results, hf], rfl,
        .of_closed h files_setFile (bytes_commit.trans (by rw [hf]; rfl)),
        elsewhere_commit.trans elsewhere_setFile⟩
  case error e _ =>
    obtain ⟨he, h⟩ := h
    rw [he] at hf
    have hc {erred : Bool} (h : Now file.disk false erred file.content file') :
        Outcome b (.fileClose name) name (.error e) file' :=
      ⟨some ⟨e, 0, []⟩, (.error e, []), b.setFile name .closed, by simp [LfsCall.results, hf], rfl,
        .of_closed h files_setFile hm.disk, elsewhere_setFile⟩
    rcases h with (h | h) | h
    case inl.inl => exact hc h
    case inl.inr => exact hc h
    case inr =>
      exact ⟨some ⟨e, 0, []⟩, (.error e, []), (b.commit name).setFile name .closed,
        by simp [LfsCall.results, hf], rfl,
        .of_closed h files_setFile (bytes_commit.trans (by rw [hf])),
        elsewhere_commit.trans elsewhere_setFile⟩

theorem outcome_fileSeek {q : Except LfsError ℕ} {offset : UInt32}
    (h : (File.lfsFileSeek name offset.toInt32).run.Ends exec file q file') :
    Outcome b (.fileSeek name offset.toNat) name (q.map fun n => (n, [])) file' := by
  have hn := hm.now
  rw [ho] at hn
  have hf := hm.files ho
  have h := does_seek hn file q file' rfl h
  rw [UInt32.toUInt32_toInt32] at h
  cases q
  case ok n _ =>
    obtain ⟨rfl, hle, h, hp⟩ := h
    refine ⟨none, _, b.setFile name { b.files name with pos := offset.toNat }, ?_, rfl, .of_now h ?_ hm.disk,
      elsewhere_setFile⟩
    case refine_1 => simp [LfsCall.results, Nat.not_lt.mpr hle]
    case refine_2 => rw [files_setFile, hf, hp]
  case error e _ =>
    rcases h with ⟨hlt, rfl, rfl⟩ | ⟨hle, h⟩
    case inl =>
      exact ⟨none, (.error .inval, []), b, by simp [LfsCall.results, hlt], rfl, hm, fun _ _ => ⟨rfl, rfl⟩⟩
    case inr =>
      refine outcome_of_spoilt hm ho h fun erred hr => ?_
      rcases hr with rfl | rfl <;> simp [LfsCall.results, Nat.not_lt.mpr hle, hf]

theorem outcome_fileRead {q : Except LfsError (List UInt8)} {size : ℕ}
    (h : (File.lfsFileRead name size).run.Ends exec file q file') :
    Outcome b (.fileRead name size) name (q.map fun bytes => (bytes.length, bytes)) file' := by
  have hn := hm.now
  rw [ho] at hn
  have hf := hm.files ho
  have h := does_read hn file q file' rfl h
  cases q
  case ok bytes _ =>
    obtain ⟨rfl, h, hp⟩ := h
    refine ⟨none, _, b.setFile name { b.files name with pos := file'.pos }, ?_, rfl, .of_now h ?_ hm.disk,
      elsewhere_setFile⟩
    case refine_1 => simp [LfsCall.results, hf, hp]
    case refine_2 => rw [files_setFile, hf]
  case error e _ =>
    refine outcome_of_spoilt hm ho h fun erred hr => ?_
    refine List.mem_flatMap.mpr ⟨erred, ?_, List.mem_map.mpr ⟨0, ?_, rfl⟩⟩
    case refine_1 => simpa [hf] using hr
    case refine_2 => exact List.mem_range.mpr (Nat.succ_pos _)

theorem outcome_fileWrite {q : Except LfsError ℕ} {data : List UInt8}
    (h : (File.lfsFileWrite name data).run.Ends exec file q file') :
    Outcome b (.fileWrite name data) name (q.map fun n => (n, [])) file' := by
  have hn := hm.now
  rw [ho] at hn
  have hf := hm.files ho
  have h := does_write hn file q file' rfl h
  cases q
  case ok n _ =>
    obtain ⟨rfl, hle, h, hp⟩ := h
    refine ⟨none, _, b.setFile name ((b.files name).write data), ?_, rfl, .of_now h ?_ hm.disk,
      elsewhere_setFile⟩
    case refine_1 =>
      simp only [LfsCall.results, hf]
      rw [if_neg (Nat.not_lt.mpr hle)]
      exact List.mem_singleton_self _
    case refine_2 => rw [files_setFile, hf, hp]; rfl
  case error e _ =>
    rcases h with ⟨hlt, rfl, h, hp⟩ | ⟨hle, ⟨v', h⟩, hg⟩
    case inl =>
      refine ⟨none, (.error .fBig, []), b, ?_, rfl, .of_now h (hp ▸ hf) hm.disk, fun _ _ => ⟨rfl, rfl⟩⟩
      simp only [LfsCall.results, hf]
      rw [if_pos hlt]
      exact List.mem_singleton_self _
    case inr =>
      have hi : ¬(b.files name).IsInline data.length := by rw [hf]; exact hg
      refine ⟨some ⟨e, file'.pos, v'⟩, (.error e, []),
        b.setFile name { b.files name with pos := file'.pos, content := v', erred := true },
        ?_, rfl, .of_now h ?_ hm.disk, elsewhere_setFile⟩
      case refine_1 =>
        simp only [LfsCall.results, if_neg hi]
        rw [if_neg (by rw [hf]; exact Nat.not_lt.mpr hle)]
        exact List.mem_cons_of_mem _ (List.mem_singleton_self _)
      case refine_2 => rw [files_setFile, hf]

end

theorem ends_map {α β : Type} {p : Lfs α} {f : α → β} {r : Except LfsError β}
    (h : (p >>= fun a => Pure.pure (f a)).run.Ends exec file r file') :
    ∃ q, p.run.Ends exec file q file' ∧ r = q.map f := by
  have ⟨q, file₁, hp, hq⟩ := ends_bind h
  cases q <;> obtain ⟨rfl, rfl⟩ := hq <;> exact ⟨_, hp, rfl⟩

theorem outcome_of_ends {p : Lfs (ℕ × List UInt8)} (hi : Implements name c p) (hm : Matches b name file)
    (ho : file.isOpen = true) (h : p.run.Ends exec file r file') : Outcome b c name r file' := by
  cases hi <;> obtain ⟨q, hq, rfl⟩ := ends_map h
  case fileClose => exact outcome_fileClose hm ho hq
  case fileSync  => exact outcome_fileSync hm ho hq
  case fileSeek  => exact outcome_fileSeek hm ho hq
  case fileRead  => exact outcome_fileRead hm ho hq
  case fileWrite => exact outcome_fileWrite hm ho hq

-- The board has all files.
def Refines (b : Board) (s : File.State τ) : Prop :=
  ∀ name, Matches b name (s.files name)

-- A call for an open file, and what it returns.
def Called (t : τ) (e : LfsCall × Except LfsError (ℕ × List UInt8)) (s s' : File.State τ) : Prop :=
  ∃ name p, Implements name e.1 p ∧ (s.files name).isOpen = true ∧ p.run.Ends (execFile t) s e.2 s'

def Performed (e : LfsCall × Except LfsError (ℕ × List UInt8)) (b b' : Board) : Prop :=
  ∃ fault x, (x, b') ∈ e.1.outcomes fault b ∧ Agrees e.2 x

theorem Implements.asserts {p : Lfs (ℕ × List UInt8)} (h : Implements name c p) (hm : Matches b name file)
    (ho : file.isOpen = true) : c.Asserts b := by
  cases h <;> exact hm.isOpen.trans ho

-- Whatever a call of the functions for a file does, the call on the board may do.
theorem performed_of_called {e : LfsCall × Except LfsError (ℕ × List UInt8)} (hr : Refines b s)
    (h : Called t e s s') : ∃ b', Performed e b b' ∧ Refines b' s' := by
  obtain ⟨name, p, hi, ho, he⟩ := h
  have ⟨he, hn⟩ := ends_of_execFile hi.uses he
  have ⟨fault, x, b', hx, ha, hm, hb⟩ := outcome_of_ends hi (hr name) ho he
  refine ⟨b'.noted fault, ⟨fault, x, ?_, ha⟩, fun n => ?_⟩
  case refine_1 =>
    rw [LfsCall.outcomes, if_pos (hi.asserts (hr name) ho)]
    exact List.mem_map.mpr ⟨(x, b'), hx, rfl⟩
  case refine_2 =>
    have hf : Matches b' n (s'.files n) := by
      by_cases he : n = name
      case pos => exact he ▸ hm
      case neg =>
        rw [hn n he]
        have hb := hb n he
        have h := hr n
        exact ⟨hb.left ▸ h.isOpen, hb.left ▸ h.handle, hb.right ▸ h.disk, h.has⟩
    unfold Board.noted
    split <;> exact ⟨hf.isOpen, hf.handle, hf.disk, hf.has⟩

theorem refines_of_trace {es : List (LfsCall × Except LfsError (ℕ × List UInt8))} (hr : Refines b s)
    (h : Trace (Called t) s es s') : ∃ b', Trace Performed b es b' ∧ Refines b' s' := by
  induction h
  case nil => exact ⟨b, .nil, hr⟩
  case snoc _ hs hi =>
    have ⟨b₁, ht, hr⟩ := hi
    have ⟨b', hp, hr⟩ := performed_of_called hr hs
    exact ⟨b', ht.snoc hp, hr⟩

omit [DecidableEq τ] in
-- The files after `file::init`.
theorem refines_init {flash : File.Flash} (hb : ∀ n, b.partition.bytes n = flash.bytes n ∧
    b.files n = if n.IsOpened then .opened (flash.bytes n) else .closed) :
    Refines b (File.State.init flash : File.State τ) := by
  intro name
  have ⟨hd, hf⟩ := hb name
  have hn : Now (flash.bytes name) name.IsOpened false (flash.bytes name)
      ((File.State.init flash : File.State τ).files name) :=
    { File.LfsFile.has_opened with disk := rfl, isOpen := rfl, erred := rfl }
  by_cases ho : name.IsOpened
  case pos =>
    rw [if_pos ho] at hf
    rw [decide_eq_true ho] at hn
    exact .of_now hn hf hd
  case neg =>
    rw [if_neg ho] at hf
    rw [decide_eq_false ho] at hn
    exact .of_closed hn hf hd

end Boot.Alone
