import SecureHome.Littlefs.Flush

open File (LfsError Name State Access maxFileSizeBytes)

-- Writing to and reading from the blocks of a file does what the functions for a file do that is a list
-- of bytes.
namespace Littlefs

section

variable {τ : Type} [DecidableEq τ]

-- Any access to the flash may have an error.
def execFaulty (t : τ) (o : File.Op) (s : State τ) : List (File.sig.Ret o × State τ) :=
  (none :: LfsError.all.map some).flatMap fun fault => State.exec t { s with fault := fault } o

def withFile (s : State τ) (name : Name) (f : File.LfsFile) : State τ :=
  { s.modify name (fun _ => f) with fault := none }

-- The program may take a file from one state to another.
def Can {α : Type} (t : τ) (s : State τ) (name : Name) (p : File.Lfs α) (f : File.LfsFile) (r : Except LfsError α)
    (f' : File.LfsFile) : Prop :=
  p.run.Ends (execFaulty t) (withFile s name f) r (withFile s name f')

variable {t : τ} {s : State τ} {name : Name} {f f₁ f' : File.LfsFile} {α β : Type}

open Prog

omit [DecidableEq τ] in
theorem files_withFile : (withFile s name f).files name = f :=
  Function.update_self ..

omit [DecidableEq τ] in
theorem modify_withFile {g : File.LfsFile → File.LfsFile} :
    (withFile s name f).modify name g = withFile s name (g f) := by
  simp only [withFile, State.modify, Function.update_self, Function.update_idem]

theorem mem_execFaulty {o : File.Op} {s s' : State τ} {r : File.sig.Ret o} (fault : Option LfsError)
    (h : (r, s') ∈ State.exec t { s with fault := fault } o) : (r, s') ∈ execFaulty t o s := by
  refine List.mem_flatMap.mpr ⟨fault, ?_, h⟩
  cases fault
  case none   => exact List.mem_cons_self
  case some e => exact List.mem_cons_of_mem _ (List.mem_map.mpr ⟨e, LfsError.mem_all e, rfl⟩)

theorem ends_perform {o : File.Op} {s s' : State τ} {r : File.sig.Ret o} (fault : Option LfsError)
    (h : (r, s') ∈ State.exec t { s with fault := fault } o) : (File.perform o).Ends (execFaulty t) s r s' :=
  ⟨r, s', mem_execFaulty fault h, rfl, rfl⟩

namespace Can

theorem pure {a : α} : Can t s name (Pure.pure a) f (.ok a) f :=
  ⟨rfl, rfl⟩

theorem throw {e : LfsError} : Can t s name (MonadExcept.throw e : File.Lfs α) f (.error e) f :=
  ⟨rfl, rfl⟩

theorem bind {p : File.Lfs α} {q : α → File.Lfs β} {a : α} {r : Except LfsError β}
    (hp : Can t s name p f (.ok a) f₁) (hq : Can t s name (q a) f₁ r f') : Can t s name (p >>= q) f r f' :=
  Ends.bind hp hq

theorem bind_error {p : File.Lfs α} {q : α → File.Lfs β} {e : LfsError} (hp : Can t s name p f (.error e) f') :
    Can t s name (p >>= q) f (.error e) f' :=
  Ends.bind hp ⟨rfl, rfl⟩

theorem lift {o : File.Op} {r : File.sig.Ret o} (fault : Option LfsError)
    (h : (r, withFile s name f') ∈ State.exec t { withFile s name f with fault := fault } o) :
    Can t s name (ExceptT.lift (File.perform o)) f (.ok r) f' :=
  Ends.bind (ends_perform fault h) ⟨rfl, rfl⟩

theorem load : Can t s name (File.Lfs.load name) f (.ok f) f :=
  lift none (List.mem_singleton.mpr (Prod.ext files_withFile.symm rfl))

theorem update {g : File.LfsFile → File.LfsFile} : Can t s name (File.Lfs.update name g) f (.ok ()) (g f) :=
  lift none (List.mem_singleton.mpr (Prod.ext rfl modify_withFile.symm))

theorem access {a : Access} (ha : a ≠ .commit) : Can t s name (File.Lfs.access name a) f (.ok ()) f := by
  have he : (withFile s name f).access name a = withFile s name f := by
    cases a <;> first | rfl | exact absurd rfl ha
  have hl : Can t s name (ExceptT.lift (File.perform (.access name a))) f (.ok none) f :=
    lift none (List.mem_singleton.mpr (Prod.ext rfl he.symm))
  exact hl.bind .pure

theorem access_error {a : Access} {e : LfsError} : Can t s name (File.Lfs.access name a) f (.error e) f := by
  have hl : Can t s name (ExceptT.lift (File.perform (.access name a))) f (.ok (some e)) f :=
    lift (some e) List.mem_cons_self
  exact hl.bind .throw

theorem orErred {p : File.Lfs α} {a : α} (h : Can t s name p f (.ok a) f') :
    Can t s name (File.Lfs.orErred name p) f (.ok a) f' :=
  Ends.bind h ⟨rfl, rfl⟩

theorem orErred_error {p : File.Lfs α} {e : LfsError} (h : Can t s name p f (.error e) f') :
    Can t s name (File.Lfs.orErred name p) f (.error e) (marked f') := by
  have hm : Can t s name (do File.Lfs.update name marked; MonadExcept.throw e : File.Lfs α) f' (.error e)
      (marked f') := update.bind .throw
  exact Ends.bind h hm

theorem progByte {b : UInt8} (hw : f.writing = true) :
    Can t s name (do
      File.Lfs.orErred name (File.Lfs.access name .prog)
      File.Lfs.update name fun file => { file with branch := file.branch ++ [b], pos := file.pos + 1 }) f (.ok ())
      (put (started f) [b]) := by
  rw [started_of_writing hw]
  have ha : Can t s name (File.Lfs.orErred name (File.Lfs.access name .prog)) f (.ok ()) f :=
    orErred (access (by decide))
  exact ha.bind update

theorem startWriting (hw : f.writing = false) {p : Unit → File.Lfs α} {r : Except LfsError α}
    (h : Can t s name (p ()) (started f) r f') :
    Can t s name (do
      File.Lfs.orErred name (File.Lfs.access name .extend)
      File.Lfs.update name fun file => { file with branch := file.ctz.take file.pos, writing := true }
      p ()) f r f' := by
  have hs : started f = { f with branch := f.ctz.take f.pos, writing := true } := by simp [started, hw]
  have ha : Can t s name (File.Lfs.orErred name (File.Lfs.access name .extend)) f (.ok ()) f :=
    orErred (access (by decide))
  refine ha.bind (update.bind ?_)
  rwa [← hs]

theorem writeByte {byte : UInt8} :
    Can t s name (File.lfsFileFlushedWriteByte name byte) f (.ok ()) (put (started f) [byte]) := by
  refine load.bind ?_
  cases hw : f.writing
  case true  => exact progByte hw
  case false =>
    refine startWriting (p := fun _ => do
      File.Lfs.orErred name (File.Lfs.access name .prog)
      File.Lfs.update name fun file => { file with branch := file.branch ++ [byte], pos := file.pos + 1 }) hw ?_
    have hp : put (started (started f)) [byte] = put (started f) [byte] := by rw [started_of_writing writing_started]
    rw [← hp]
    exact progByte writing_started

theorem writeByte_error {byte : UInt8} {e : LfsError} :
    Can t s name (File.lfsFileFlushedWriteByte name byte) f (.error e) (marked f) := by
  refine load.bind ?_
  cases f.writing
  case true  => exact (orErred_error access_error).bind_error
  case false => exact (orErred_error access_error).bind_error

theorem writeByte_error_started {byte : UInt8} {e : LfsError} :
    Can t s name (File.lfsFileFlushedWriteByte name byte) f (.error e) (marked (started f)) := by
  cases hw : f.writing
  case true  =>
    rw [started_of_writing hw]
    exact writeByte_error
  case false =>
    refine load.bind ?_
    rw [hw]
    exact startWriting (p := fun _ => do
      File.Lfs.orErred name (File.Lfs.access name .prog)
      File.Lfs.update name fun file => { file with branch := file.branch ++ [byte], pos := file.pos + 1 }) hw
      (orErred_error access_error).bind_error

theorem writeBytes {data : List UInt8} :
    Can t s name (File.lfsFileFlushedWrite name data) f (.ok ()) (wrote f data) := by
  induction data generalizing f
  case nil => exact pure
  case cons byte bytes hi =>
    refine writeByte.bind ?_
    have hp := @wrote_put (started f) (byte :: bytes) 1 writing_started
    rw [wrote, if_neg (List.cons_ne_nil byte bytes), ← hp]
    exact hi

theorem writeBytes_error {data : List UInt8} {e : LfsError} (h : data ≠ []) :
    Can t s name (File.lfsFileFlushedWrite name data) f (.error e) (marked f) := by
  cases data
  case nil  => exact absurd rfl h
  case cons => exact writeByte_error.bind_error

theorem writeBytes_error_put {data : List UInt8} {e : LfsError} {k : ℕ} (hk : k < data.length) :
    Can t s name (File.lfsFileFlushedWrite name data) f (.error e) (marked (put (started f) (data.take k))) := by
  induction data generalizing f k
  case nil => exact absurd hk (Nat.not_lt_zero _)
  case cons byte bytes hi =>
    cases k
    case zero =>
      have hp : put (started f) [] = started f := by simp [put]
      rw [List.take_zero, hp]
      exact writeByte_error_started.bind_error
    case succ k =>
      refine writeByte.bind ?_
      have h := hi (f := put (started f) [byte]) (Nat.lt_of_succ_lt_succ hk)
      rwa [started_of_writing (f := put _ _) writing_started, put_put] at h

theorem findByte {p : Unit → File.Lfs α} {r : Except LfsError α}
    (h : Can t s name (p ()) (skimmed f 0) r f') :
    Can t s name (do
      if !(← File.Lfs.load name).reading then
        File.Lfs.access name .find
        File.Lfs.update name ({ · with reading := true })
      p ()) f r f' := by
  refine load.bind ?_
  cases hr : f.reading
  case true =>
    have hs : skimmed f 0 = f := by rw [skimmed, ← hr]; rfl
    rwa [hs] at h
  case false =>
    have ha : Can t s name (File.Lfs.access name .find) f (.ok ()) f := access (by decide)
    exact ha.bind (update.bind h)

theorem readByte {p : Unit → File.Lfs α} {r : Except LfsError α}
    (h : Can t s name (p ()) (skimmed f 1) r f') :
    Can t s name (do
      if !(← File.Lfs.load name).reading then
        File.Lfs.access name .find
        File.Lfs.update name ({ · with reading := true })
      File.Lfs.access name .read
      File.Lfs.update name fun file => { file with pos := file.pos + 1 }
      p ()) f r f' := by
  refine findByte (p := fun _ => do
    File.Lfs.access name .read
    File.Lfs.update name fun file => { file with pos := file.pos + 1 }
    p ()) ?_
  have ha : Can t s name (File.Lfs.access name .read) (skimmed f 0) (.ok ()) (skimmed f 0) := access (by decide)
  exact ha.bind (update.bind h)

omit [DecidableEq τ] in
theorem skimmed_skimmed {k k' : ℕ} : skimmed (skimmed f k) k' = skimmed f (k + k') := by
  simp only [skimmed, Nat.add_assoc]

theorem readBytes {data : List UInt8} (hd : data ≠ []) :
    Can t s name (File.lfsFileReadBytes name data) f (.ok ()) (skimmed f data.length) := by
  induction data generalizing f
  case nil => exact absurd rfl hd
  case cons byte bytes hi =>
    refine readByte (p := fun _ => File.lfsFileReadBytes name bytes) ?_
    by_cases hb : bytes = []
    case pos => exact hb ▸ pure
    case neg =>
      rw [List.length_cons, Nat.add_comm, ← skimmed_skimmed]
      exact hi hb

-- Reading may fail once the block was found, or at a later byte.
theorem readBytes_error {data : List UInt8} {e : LfsError} {k : ℕ} (hk : k < data.length) :
    Can t s name (File.lfsFileReadBytes name data) f (.error e) (skimmed f k) := by
  induction data generalizing f k
  case nil => exact absurd hk (Nat.not_lt_zero _)
  case cons byte bytes hi =>
    cases k
    case zero =>
      exact findByte (p := fun _ => do
        File.Lfs.access name .read
        File.Lfs.update name fun file => { file with pos := file.pos + 1 }
        File.lfsFileReadBytes name bytes) access_error.bind_error
    case succ k =>
      rw [Nat.add_comm, ← skimmed_skimmed]
      exact readByte (p := fun _ => File.lfsFileReadBytes name bytes) (hi (Nat.lt_of_succ_lt_succ hk))

theorem readBytes_error_find {data : List UInt8} {e : LfsError} (hd : data ≠ []) :
    Can t s name (File.lfsFileReadBytes name data) f (.error e) f := by
  cases data
  case nil => exact absurd rfl hd
  case cons byte bytes =>
    cases hr : f.reading
    case true =>
      have hs : skimmed f 0 = f := by rw [skimmed, ← hr]; rfl
      have h := @readBytes_error τ _ t s name f (byte :: bytes) e 0 (Nat.succ_pos _)
      rwa [hs] at h
    case false =>
      refine load.bind ?_
      rw [hr]
      exact access_error.bind_error

theorem copy {data : List UInt8} (hw : f.writing = true) :
    Can t s name (File.lfsFileCopy name data) f (.ok ()) (put f data) := by
  induction data generalizing f
  case nil => exact put_nil ▸ pure
  case cons byte bytes hi =>
    have ha : Can t s name (File.Lfs.access name .read) f (.ok ()) f := access (by decide)
    have hb : Can t s name (File.lfsFileFlushedWriteByte name byte) f (.ok ()) (put f [byte]) := by
      have h := @writeByte τ _ t s name f byte
      rwa [started_of_writing hw] at h
    refine ha.bind (hb.bind ?_)
    have h := @hi (put f [byte]) hw
    rwa [put_put] at h

theorem copy_error {data : List UInt8} {e : LfsError} {k : ℕ} (hw : f.writing = true) (hk : k < data.length) :
    Can t s name (File.lfsFileCopy name data) f (.error e) (put f (data.take k)) ∧
      Can t s name (File.lfsFileCopy name data) f (.error e) (marked (put f (data.take k))) := by
  induction data generalizing f k
  case nil => exact absurd hk (Nat.not_lt_zero _)
  case cons byte bytes hi =>
    have ha : Can t s name (File.Lfs.access name .read) f (.ok ()) f := access (by decide)
    cases k
    case zero =>
      rw [List.take_zero, put_nil]
      exact ⟨access_error.bind_error, ha.bind writeByte_error.bind_error⟩
    case succ k =>
      have hb : Can t s name (File.lfsFileFlushedWriteByte name byte) f (.ok ()) (put f [byte]) := by
        have h := @writeByte τ _ t s name f byte
        rwa [started_of_writing hw] at h
      have h := @hi (put f [byte]) k hw (Nat.lt_of_succ_lt_succ hk)
      rw [put_put] at h
      exact ⟨ha.bind (hb.bind h.left), ha.bind (hb.bind h.right)⟩

theorem flush (hr : f.writing = true → f.reading = false) :
    Can t s name (File.lfsFileFlush name) f (.ok ()) (afterFlush f) := by
  cases hw : f.writing
  case false =>
    have ha : afterFlush f = { f with reading := false } := if_neg (by simp [hw])
    refine update.bind (load.bind ?_)
    rw [ha, hw]
    exact pure
  case true =>
    have ha : Can t s name (File.Lfs.access name .flush) (put f (f.ctz.drop f.pos)) (.ok ())
        (put f (f.ctz.drop f.pos)) := access (by decide)
    have he : { f with reading := false } = f := by rw [← hr hw]
    refine update.bind (load.bind ?_)
    rw [he, hw, afterFlush, if_pos hw]
    exact (copy hw).bind (ha.bind update)

theorem flush_error {e : LfsError} {k : ℕ} (hw : f.writing = true) (hr : f.reading = false)
    (hk : k ≤ (f.ctz.drop f.pos).length) :
    Can t s name (File.lfsFileFlush name) f (.error e) (put f ((f.ctz.drop f.pos).take k)) := by
  have he : { f with reading := false } = f := by rw [← hr]
  refine update.bind (load.bind ?_)
  rw [he, hw]
  rcases Nat.lt_or_eq_of_le hk with hk | hk
  case inl => exact (copy_error hw hk).left.bind_error
  case inr =>
    rw [hk, List.take_length]
    exact (copy hw).bind access_error.bind_error

theorem flush_error_marked {e : LfsError} {k : ℕ} (hw : f.writing = true) (hr : f.reading = false)
    (hk : k < (f.ctz.drop f.pos).length) :
    Can t s name (File.lfsFileFlush name) f (.error e) (marked (put f ((f.ctz.drop f.pos).take k))) := by
  have he : { f with reading := false } = f := by rw [← hr]
  refine update.bind (load.bind ?_)
  rw [he, hw]
  exact (copy_error hw hk).right.bind_error

end Can

end

end Littlefs
