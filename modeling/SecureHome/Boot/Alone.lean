import SecureHome.Boot.Lfs
import SecureHome.File.Owns
import SecureHome.Lib.Sequential

open File (Access Lfs LfsError LfsFile Name maxFileSizeBytes)
open File.LfsFile (Has At)
open Prog

-- What the functions of LittleFS do to a file if a single task calls them.
namespace Boot.Alone

-- An access for a file that is kept in its directory entry only copies bytes in RAM.
def CanFail (file : LfsFile) : Access → Prop
  | .extend | .prog => ¬max (file.pos + 1) file.content.length ≤ inlineMax
  | _               => True

instance (file : LfsFile) : DecidablePred (CanFail file)
  | .extend | .prog                             => inferInstanceAs (Decidable (¬_ ≤ _))
  | .find | .read | .flush | .sync | .commit    => inferInstanceAs (Decidable True)

def afterAccess (file : LfsFile) : Access → LfsFile
  | .commit => { file with disk := file.ctz }
  | _       => file

-- The operations on one file, each of whose accesses may have an error.
def exec (o : File.Op) (file : LfsFile) : List (File.sig.Ret o × LfsFile) :=
  match o with
  | .assertOpen _ => if file.isOpen then [((), file)] else []
  | .load _       => [(file, file)]
  | .loadErred _  => [(file.erred, file)]
  | .update _ f   => [((), f file)]
  | .isCached _   => [(false, file), (true, file)]
  | .access _ a   =>
    (none, afterAccess file a) ::
      if CanFail file a then
        LfsError.all.flatMap fun e => [(some e, file), (some e, afterAccess file a)]
      else
        []
  | _             => []

abbrev Does {α : Type} (P : LfsFile → Prop) (p : Lfs α) (Q : α → LfsFile → Prop)
    (R : LfsFile → Prop) : Prop :=
  FallibleHoare exec P p Q fun _ => R

variable {α : Type} {name : Name} {file : LfsFile} {P G R R' : LfsFile → Prop} {p : Lfs α}
  {Q : α → LfsFile → Prop}

section

variable {R : LfsError → LfsFile → Prop}

theorem does_of_eq (h : ∀ file, P file → FallibleHoare exec (· = file) p Q R) :
    FallibleHoare exec P p Q R :=
  fun file r file' hf he => h file hf file r file' rfl he

theorem does_at (h : FallibleHoare exec P p Q R) (hf : P file) : FallibleHoare exec (· = file) p Q R :=
  h.weaken (fun _ he => he.symm ▸ hf) (fun _ _ h => h) fun _ _ h => h

theorem does_load {f : LfsFile → Lfs α}
    (h : ∀ file, P file → FallibleHoare exec (· = file) (f file) Q R) :
    FallibleHoare exec P (Lfs.load name >>= f) Q R := by
  refine does_of_eq fun file hf => FallibleHoare.bind (I := fun r file' => r = file ∧ file' = file)
    (.lift (.perform fun _ _ _ he hm => ?_)) fun r => .and_left fun hr => hr ▸ h file hf
  cases List.mem_singleton.mp hm
  exact ⟨he, he⟩

theorem does_update {f : LfsFile → LfsFile} (h : ∀ file, P file → G (f file)) :
    FallibleHoare exec P (Lfs.update name f) (fun _ => G) R :=
  .lift (.perform fun file _ _ hf hm => by cases List.mem_singleton.mp hm; exact h file hf)

end

theorem does_access {a : Access} (ha : a ≠ .commit) :
    Does P (Lfs.access name a) (fun _ => P) fun file => P file ∧ CanFail file a := by
  refine FallibleHoare.bind (I := fun r file => P file ∧ (r ≠ none → CanFail file a))
    (.lift (.perform fun file r file' hf hm => ?_)) fun r => ?_
  case refine_1 =>
    have he : afterAccess file a = file := by cases a <;> first | rfl | contradiction
    rcases List.mem_cons.mp hm with hm | hm
    case inl => cases hm; exact ⟨he.symm ▸ hf, fun hn => absurd rfl hn⟩
    case inr =>
      split at hm
      case isFalse   => contradiction
      case isTrue hc =>
        have ⟨e, _, hm⟩ := List.mem_flatMap.mp hm
        rw [he] at hm
        simp only [List.mem_cons, List.not_mem_nil, or_false, or_self, Prod.mk.injEq] at hm
        exact hm.right ▸ ⟨hf, fun _ => hc⟩
  case refine_2 =>
    cases r
    case none   => exact .pure fun _ hf => hf.left
    case some e => exact .throw fun _ hf => ⟨hf.left, hf.right nofun⟩

theorem does_commit (h : ∀ file, P file → G { file with disk := file.ctz }) :
    Does P (Lfs.access name .commit) (fun _ => G) fun file => P file ∨ G file := by
  refine FallibleHoare.bind (I := fun r file => G file ∨ r ≠ none ∧ P file)
    (.lift (.perform fun file r file' hf hm => ?_)) fun r => ?_
  case refine_1 =>
    rcases List.mem_cons.mp hm with hm | hm
    case inl => cases hm; exact .inl (h _ hf)
    case inr =>
      change (r, file') ∈ LfsError.all.flatMap fun e =>
        [(some e, file), (some e, { file with disk := file.ctz })] at hm
      have ⟨e, _, hm⟩ := List.mem_flatMap.mp hm
      simp only [List.mem_cons, List.not_mem_nil, or_false, Prod.mk.injEq] at hm
      rcases hm with ⟨rfl, rfl⟩ | ⟨rfl, rfl⟩
      · exact .inr ⟨nofun, hf⟩
      · exact .inl (h _ hf)
  case refine_2 =>
    cases r
    case none   => exact .pure fun _ hf => hf.resolve_right fun hn => hn.left rfl
    case some e => exact .throw fun _ hf => hf.symm.imp_left And.right

theorem does_onError {f : LfsFile → LfsFile} (h : Does P p Q R') (hf : ∀ file, R' file → R (f file)) :
    Does P (Lfs.onError name f p) Q R := by
  refine Hoare.bind h fun r => ?_
  cases r
  case ok a    => exact .pure fun _ hs => hs
  case error e => exact (does_update hf).bind fun _ => FallibleHoare.throw fun _ hs => hs

-- A file with the given content, as far as its directory entry and its flags go.
structure Now (disk : List UInt8) (isOpen erred : Bool) (v : List UInt8) (file : LfsFile) : Prop
    extends Has v file where
  disk   : file.disk = disk
  isOpen : file.isOpen = isOpen
  erred  : file.erred = erred

-- A file that is written to at a position.
structure NowAt (disk : List UInt8) (isOpen erred : Bool) (v : List UInt8) (offset : ℕ) (file : LfsFile) :
    Prop extends At v offset file, Now disk isOpen erred v file

variable {disk v data : List UInt8} {isOpen erred : Bool} {offset : ℕ} {byte : UInt8}

-- What an error leaves. Some errors mark the file.
abbrev Spoilt (disk : List UInt8) (isOpen erred : Bool) (v : List UInt8) (file : LfsFile) : Prop :=
  Now disk isOpen erred v file ∨ Now disk isOpen true v file

theorem Now.update {file' : LfsFile} {v' : List UInt8} (h : Now disk isOpen erred v file)
    (hh : Has v' file')
    (he : file'.disk = file.disk ∧ file'.isOpen = file.isOpen ∧ file'.erred = file.erred) :
    Now disk isOpen erred v' file' where
  toHas  := hh
  disk   := he.left.trans h.disk
  isOpen := he.right.left.trans h.isOpen
  erred  := he.right.right.trans h.erred

theorem Now.at {file' : LfsFile} {v' : List UInt8} (h : Now disk isOpen erred v file)
    (ha : At v' offset file')
    (he : file'.disk = file.disk ∧ file'.isOpen = file.isOpen ∧ file'.erred = file.erred) :
    NowAt disk isOpen erred v' offset file' :=
  { h.update ha.toHas he with toAt := ha }

theorem Now.marked (h : Now disk isOpen erred v file) : Now disk isOpen true v { file with erred := true } :=
  { h.withErred with disk := h.disk, isOpen := h.isOpen, erred := rfl }

-- The bytes behind the position are not in the file, or the file does not stay in its directory entry.
def Outgrows (n : ℕ) (v : List UInt8) : Prop :=
  ¬max n v.length ≤ inlineMax

theorem does_writeAccess {a : Access} (ha : a = .extend ∨ a = .prog)
    (h : ∀ file, P file → NowAt disk isOpen erred v offset file) :
    Does P (Lfs.orErred name (Lfs.access name a)) (fun _ => P)
      fun file => Now disk isOpen true v file ∧ Outgrows (offset + 1) v := by
  refine does_onError (does_access (by rcases ha with rfl | rfl <;> decide)) fun file hf => ?_
  have hn := h file hf.left
  have hc : Outgrows (file.pos + 1) file.content := by rcases ha with rfl | rfl <;> exact hf.right
  rw [hn.pos, hn.content] at hc
  exact ⟨hn.toNow.marked, hc⟩

theorem does_writeByte :
    Does (NowAt disk isOpen erred v offset) (File.lfsFileFlushedWriteByte name byte)
      (fun _ file => NowAt disk isOpen erred (v.overlay 0 offset [byte]) (offset + 1) file ∧
        file.writing = true)
      fun file => Now disk isOpen true v file ∧ Outgrows (offset + 1) v := by
  have hp : Does (fun file => NowAt disk isOpen erred v offset file ∧ file.writing = true)
      (do
        Lfs.orErred name (Lfs.access name .prog)
        Lfs.update name fun file =>
          { file with branch := file.branch ++ [byte], pos := file.pos + 1 })
      (fun _ file => NowAt disk isOpen erred (v.overlay 0 offset [byte]) (offset + 1) file ∧
        file.writing = true)
      fun file => Now disk isOpen true v file ∧ Outgrows (offset + 1) v :=
    (does_writeAccess (.inr rfl) fun _ hf => hf.left).bind fun _ =>
      does_update fun _ ⟨hf, hw⟩ => ⟨hf.toNow.at (hf.toAt.writeByte hw) ⟨rfl, rfl, rfl⟩, hw⟩
  refine does_load fun file hf => ?_
  cases hw : file.writing
  case true  => exact does_at hp ⟨hf, hw⟩
  case false =>
    refine .bind (does_writeAccess (.inl rfl) fun _ he => he ▸ hf) fun _ =>
      .bind (does_update fun file' he => ?_) fun _ => hp
    rw [he]
    exact ⟨hf.toNow.at (hf.toAt.startWriting hw) ⟨rfl, rfl, rfl⟩, rfl⟩

theorem Outgrows.mono {n k : ℕ} {v' : List UInt8} (h : Outgrows n v') (hn : n ≤ k)
    (hv : v'.length ≤ max v.length k) : Outgrows k v := by
  unfold Outgrows at *
  omega

theorem does_flushedWrite :
    Does (NowAt disk isOpen erred v offset) (File.lfsFileFlushedWrite name data)
      (fun _ => NowAt disk isOpen erred (v.overlay 0 offset data) (offset + data.length))
      fun file => (∃ v', Now disk isOpen true v' file) ∧ Outgrows (offset + data.length) v := by
  induction data generalizing v offset
  case nil =>
    refine .pure fun _ hf => ?_
    rw [List.overlay_nil hf.inside]
    exact hf
  case cons byte bytes hi =>
    refine .bind (does_writeByte.weaken_error fun _ _ ⟨hf, ho⟩ =>
      ⟨⟨v, hf⟩, ho.mono (by simp) (Nat.le_max_left ..)⟩) fun _ =>
      hi.weaken (fun _ hf => hf.left) (fun _ file hf => ?_) fun _ _ ⟨hf, ho⟩ => ⟨hf, ?_⟩
    case refine_1 =>
      rw [← List.singleton_append, ← List.overlay_append, List.length_append, ← Nat.add_assoc]
      exact hf
    case refine_2 =>
      refine ho.mono (by simp; omega) ?_
      rw [List.length_overlay]
      simp
      omega

-- Copying what is behind the branch does not change the content.
theorem does_copy {bytes : List UInt8} (hb : v.drop offset = bytes) :
    Does (fun file => NowAt disk isOpen erred v offset file ∧ file.writing = true)
      (File.lfsFileCopy name bytes)
      (fun _ file => NowAt disk isOpen erred v v.length file ∧ file.writing = true)
      fun file => Spoilt disk isOpen erred v file := by
  induction bytes generalizing offset
  case nil =>
    refine .pure fun _ ⟨hf, hw⟩ => ?_
    have he : offset = v.length := Nat.le_antisymm hf.inside (List.drop_eq_nil_iff.mp hb)
    exact ⟨he ▸ hf, hw⟩
  case cons byte bytes hi =>
    have hv : v.overlay 0 offset [byte] = v := by
      apply List.overlay_getElem
      rw [← Nat.add_zero offset, ← List.getElem?_drop, hb]
      rfl
    refine .bind ((does_access (by decide)).weaken_error fun _ _ hf => .inl hf.left.left.toNow) fun _ =>
      .bind (does_writeByte.weaken (fun _ hf => hf.left) (fun _ _ h => h)
        fun _ _ hf => .inr hf.left) fun _ => ?_
    rw [hv]
    refine hi ?_
    rw [← List.drop_drop, hb]
    rfl

theorem does_flush (h : Now disk isOpen erred v file) :
    Does (· = file) (File.lfsFileFlush name)
      (fun _ file' => Now disk isOpen erred v file' ∧ file'.pos = file.pos ∧ file'.reading = false ∧
        file'.writing = false)
      fun file' => Spoilt disk isOpen erred v file' := by
  have hs : Does (· = file) (Lfs.update name ({ · with reading := false }))
      (fun _ file' => Now disk isOpen erred v file' ∧ file'.pos = file.pos ∧ file'.reading = false)
      fun file' => Spoilt disk isOpen erred v file' := by
    refine does_update fun _ he => ?_
    rw [he]
    exact ⟨h.update (h.toHas.withReading nofun) ⟨rfl, rfl, rfl⟩, rfl, rfl⟩
  refine hs.bind fun _ => does_load fun file' ⟨hf, hp, hr⟩ => ?_
  cases hw : file'.writing
  case false => exact .pure fun _ he => he ▸ ⟨hf, hp, hr, hw⟩
  case true  =>
    have ha : NowAt disk isOpen erred v file'.pos file' :=
      { hf with notReading := hr, pos := rfl, inside := hf.pos_le hw }
    refine .bind (does_at (does_copy (hf.drop_ctz hw)) ⟨ha, hw⟩) fun _ =>
      .bind ((does_access (by decide)).weaken_error fun _ _ hf => .inl hf.left.left.toNow) fun _ =>
      does_update fun _ ⟨hf, hw⟩ => ?_
    exact ⟨hf.toNow.update (hf.toHas.flushed hw (Nat.le_of_eq hf.pos.symm)) ⟨rfl, rfl, rfl⟩, hp,
      hf.notReading, rfl⟩

-- A file that is marked is left alone. An error of the commit may be found after the commit.
theorem does_sync (h : Now disk isOpen erred v file) :
    Does (· = file) (File.lfsFileSync name)
      (fun _ file' => if erred then file' = file else
        Now v isOpen false v file' ∧ file'.pos = file.pos)
      fun file' => erred = false ∧ (Spoilt disk isOpen false v file' ∨ Now v isOpen true v file') := by
  refine FallibleHoare.bind (I := fun r file' => r = erred ∧ file' = file) (.lift (.perform
    fun _ r _ he hm => ?_)) fun r => .and_left fun hr => ?_
  case refine_1 =>
    cases List.mem_singleton.mp hm
    exact ⟨he ▸ h.erred, he⟩
  subst hr
  cases r
  case true  => exact .pure fun _ he => he
  case false =>
    refine .bind (does_onError (does_flush h) fun _ hf =>
      ⟨rfl, .inl (.inr (hf.elim Now.marked Now.marked))⟩) fun _ => ?_
    refine does_load fun file' ⟨hf, hp, _, hw⟩ => ?_
    cases hd : file'.dirty
    case false =>
      refine .pure fun _ he => ⟨?_, he ▸ hp⟩
      rw [he]
      exact { hf with disk := (hf.clean hd).trans (hf.ctz hw) }
    case true  =>
      refine .bind ((does_access (by decide)).weaken_error fun _ _ ⟨he, _⟩ =>
        ⟨rfl, .inl (.inl (he ▸ hf))⟩) fun _ => ?_
      refine .bind (does_onError (does_commit
        (G := fun file => (Now v isOpen false v file ∧ file.disk = file.ctz) ∧ file.pos = file'.pos)
        fun _ he => ?_) fun file'' he => ⟨rfl, ?_⟩) fun _ => does_update fun _ ⟨⟨hf, hd⟩, hp'⟩ =>
        ⟨hf.update (hf.toHas.synced hd) ⟨rfl, rfl, rfl⟩, hp'.trans hp⟩
      case refine_1 =>
        rw [he]
        exact ⟨⟨{ hf.toHas.committed with disk := hf.ctz hw, isOpen := hf.isOpen, erred := hf.erred }, rfl⟩,
          rfl⟩
      case refine_2 =>
        rcases he with rfl | ⟨⟨hf', _⟩, _⟩
        · exact .inl (.inr hf.marked)
        · exact .inr hf'.marked

theorem Now.closed (h : Now disk isOpen erred v file) :
    Now disk false erred v { file with isOpen := false } :=
  { h.toHas.withOpen with disk := h.disk, isOpen := rfl, erred := h.erred }

-- Closing a file syncs it first.
theorem does_close (h : Now disk isOpen erred v file) :
    Does (· = file) (File.lfsFileClose name)
      (fun _ file' => ∃ erred', Now (if erred then disk else v) false erred' v file')
      fun file' => erred = false ∧
        (Spoilt disk false false v file' ∨ Now v false true v file') := by
  refine .bind (does_onError (does_sync h) fun _ ⟨he, hf⟩ => ⟨he, ?_⟩) fun _ =>
    does_update fun file' hf => ?_
  case refine_1 => exact hf.imp (fun hf => hf.imp Now.closed Now.closed) Now.closed
  case refine_2 =>
    cases erred
    case false => exact ⟨_, hf.left.closed⟩
    case true  => cases (hf : file' = file); exact ⟨_, h.closed⟩

theorem Now.withPos {pos : ℕ} (h : Now disk isOpen erred v file) (hw : file.writing = false) :
    Now disk isOpen erred v { file with pos } :=
  h.update (h.toHas.withPos hw) ⟨rfl, rfl, rfl⟩

theorem does_readBytes {bytes : List UInt8} :
    Does (fun file => Now disk isOpen erred v file ∧ file.writing = false ∧ file.pos = offset)
      (File.lfsFileReadBytes name bytes)
      (fun _ file => Now disk isOpen erred v file ∧ file.pos = offset + bytes.length)
      fun file => Spoilt disk isOpen erred v file := by
  induction bytes generalizing offset
  case nil => exact .pure fun _ hf => ⟨hf.left, hf.right.right⟩
  case cons byte bytes hi =>
    have hp : Does (fun file => Now disk isOpen erred v file ∧ file.writing = false ∧ file.pos = offset)
        (do
          Lfs.access name .read
          Lfs.update name fun file => { file with pos := file.pos + 1 }
          File.lfsFileReadBytes name bytes)
        (fun _ file => Now disk isOpen erred v file ∧ file.pos = offset + (bytes.length + 1))
        fun file => Spoilt disk isOpen erred v file := by
      refine .bind ((does_access (by decide)).weaken_error fun _ _ hf => .inl hf.left.left) fun _ => ?_
      refine .bind (I := fun _ file => Now disk isOpen erred v file ∧ file.writing = false ∧
          file.pos = offset + 1)
        (does_update fun _ ⟨hf, hw, ho⟩ => ⟨hf.withPos hw, hw, congrArg (· + 1) ho⟩) fun _ => ?_
      rw [Nat.add_comm bytes.length, ← Nat.add_assoc]
      exact hi
    refine does_load fun file ⟨hf, hw, ho⟩ => ?_
    cases hr : file.reading
    case true  => exact does_at hp ⟨hf, hw, ho⟩
    case false =>
      refine .bind ((does_access (by decide)).weaken_error fun _ _ he => .inl (he.left ▸ hf)) fun _ =>
        .bind (does_update fun _ he => ?_) fun _ => hp
      rw [he]
      exact ⟨hf.update (hf.toHas.withReading fun _ => hw) ⟨rfl, rfl, rfl⟩, hw, ho⟩

theorem does_flushedRead {size : ℕ} :
    Does (fun file => Now disk isOpen erred v file ∧ file.writing = false ∧ file.pos = offset)
      (File.lfsFileFlushedRead name size)
      (fun bytes file => bytes = (v.drop offset).take size ∧ Now disk isOpen erred v file ∧
        file.pos = offset + bytes.length)
      fun file => Spoilt disk isOpen erred v file := by
  refine does_load fun file ⟨hf, hw, ho⟩ => ?_
  subst ho
  rw [hf.ctz hw]
  split
  case isTrue hp =>
    refine .pure fun _ he => ⟨?_, he ▸ hf, he ▸ rfl⟩
    rw [List.drop_of_length_le hp, List.take_nil]
  case isFalse =>
    exact .bind (does_at does_readBytes ⟨hf, hw, rfl⟩) fun _ => .pure fun _ hf => ⟨rfl, hf⟩

theorem does_read {size : ℕ} (h : Now disk isOpen erred v file) :
    Does (· = file) (File.lfsFileRead name size)
      (fun bytes file' => bytes = (v.drop file.pos).take size ∧ Now disk isOpen erred v file' ∧
        file'.pos = file.pos + bytes.length)
      fun file' => Spoilt disk isOpen erred v file' := by
  refine does_load fun file hf => ?_
  subst hf
  cases hw : file.writing
  case false => exact does_at does_flushedRead ⟨h, hw, rfl⟩
  case true  =>
    exact (does_flush h).bind fun _ => does_flushedRead.weaken (fun _ ⟨hf, hp, _, hw⟩ => ⟨hf, hw, hp⟩)
      (fun _ _ h => h) fun _ _ h => h

theorem does_move {npos : ℕ} (h : Now disk isOpen erred v file) :
    Does (· = file) (File.lfsFileMove name npos)
      (fun _ file' => Now disk isOpen erred v file' ∧ file'.pos = npos)
      fun file' => Spoilt disk isOpen erred v file' := by
  have hp : Does (fun file => Now disk isOpen erred v file ∧ file.writing = false)
      (Lfs.update name ({ · with pos := npos }))
      (fun _ file' => Now disk isOpen erred v file' ∧ file'.pos = npos)
      fun file' => Spoilt disk isOpen erred v file' :=
    does_update fun _ ⟨hf, hw⟩ => ⟨hf.withPos hw, rfl⟩
  have hs : Does (· = file) (do File.lfsFileFlush name; Lfs.update name ({ · with pos := npos }))
      (fun _ file' => Now disk isOpen erred v file' ∧ file'.pos = npos)
      fun file' => Spoilt disk isOpen erred v file' :=
    (does_flush h).bind fun _ => hp.weaken (fun _ ⟨hf, _, _, hw⟩ => ⟨hf, hw⟩) (fun _ _ h => h)
      fun _ _ h => h
  refine FallibleHoare.bind (I := fun _ => (· = file)) (.lift (.perform fun _ _ _ he hm => ?_))
    fun isCached => does_load fun file' he => ?_
  case refine_1 =>
    simp only [exec, List.mem_cons, List.not_mem_nil, or_false, Prod.mk.injEq] at hm
    rcases hm with ⟨_, rfl⟩ | ⟨_, rfl⟩ <;> exact he
  subst he
  cases isCached <;> cases hr : file'.reading
  case true.true =>
    exact does_at hp ⟨h, h.reading hr⟩
  all_goals exact hs

-- A seek does not change the content, whether it fails or not.
theorem does_seek {off : Int32} (h : Now disk isOpen erred v file) :
    FallibleHoare exec (· = file) (File.lfsFileSeek name off)
      (fun n file' => n = off.toUInt32.toNat ∧ n ≤ maxFileSizeBytes ∧ Now disk isOpen erred v file' ∧
        file'.pos = n)
      fun e file' => maxFileSizeBytes < off.toUInt32.toNat ∧ e = .inval ∧ file' = file ∨
        off.toUInt32.toNat ≤ maxFileSizeBytes ∧ Spoilt disk isOpen erred v file' := by
  unfold File.lfsFileSeek
  dsimp only
  split
  case isTrue hm  => exact .throw fun _ he => .inl ⟨hm, rfl, he⟩
  case isFalse hm =>
    have hn := Nat.le_of_not_lt hm
    refine does_load fun file' he => ?_
    subst he
    split
    case isTrue  =>
      exact .bind ((does_move h).weaken_error fun _ _ hf => .inr ⟨hn, hf⟩) fun _ =>
        .pure fun _ hf => ⟨rfl, hn, hf⟩
    case isFalse hp => exact .pure fun _ he => ⟨rfl, hn, he ▸ h, he ▸ not_not.mp hp⟩

-- Filling the gap does not change what is written next.
theorem does_fillGap (h : Now disk isOpen erred v file) (hr : file.reading = false) (data : List UInt8) :
    Does (· = file) (File.lfsFileFillGap name)
      (fun _ file' => ∃ v', NowAt disk isOpen erred v' file.pos file' ∧
        v'.overlay 0 file.pos data = v.overlay 0 file.pos data ∧ v'.length ≤ max v.length file.pos)
      fun file' => (∃ v', Now disk isOpen true v' file') ∧ Outgrows file.pos v := by
  refine does_load fun file' he => ?_
  subst he
  split
  case isTrue hg =>
    have ⟨hw, hp⟩ : file'.writing = false ∧ v.length < file'.pos := by
      simp only [Bool.and_eq_true, Bool.not_eq_true', decide_eq_true_eq] at hg
      exact ⟨hg.left, h.ctz hg.left ▸ hg.right⟩
    rw [h.ctz hw]
    have hs : Does (· = file') (Lfs.update name fun file => { file with pos := file.ctz.length })
        (fun _ => NowAt disk isOpen erred v v.length)
        fun file => (∃ v', Now disk isOpen true v' file) ∧ Outgrows file'.pos v := by
      refine does_update fun _ he => ?_
      rw [he]
      have hn : Now disk isOpen erred v { file' with pos := file'.ctz.length } := h.withPos hw
      exact { hn with notReading := hr, pos := congrArg _ (h.ctz hw), inside := Nat.le_refl _ }
    have hl : v.length + (List.replicate (file'.pos - v.length) (0 : UInt8)).length = file'.pos := by
      rw [List.length_replicate]
      omega
    refine hs.bind fun _ => does_flushedWrite.weaken (fun _ h => h) (fun _ file hf => ?_)
      fun _ _ hf => hl ▸ hf
    rw [hl] at hf
    refine ⟨_, hf, ?_, ?_⟩
    case refine_1 => rw [← List.overlay_gap (Nat.le_of_lt hp), ← List.overlay_append, hl]
    case refine_2 => exact Nat.le_of_eq (by rw [List.length_overlay, hl])
  case isFalse hg =>
    refine .pure fun _ he => ⟨v, ?_, rfl, Nat.le_max_left ..⟩
    rw [he]
    refine { h with notReading := hr, pos := rfl, inside := ?_ }
    cases hw : file'.writing
    case true  => exact h.pos_le hw
    case false => simpa [hw, h.ctz hw] using hg

-- A file that is read from is flushed without an access.
theorem does_flush_reading {R : LfsError → LfsFile → Prop} (h : Now disk isOpen erred v file)
    (hr : file.reading = true) :
    FallibleHoare exec (· = file) (File.lfsFileFlush name)
      (fun _ file' => Now disk isOpen erred v file' ∧ file'.pos = file.pos ∧ file'.reading = false) R := by
  refine .bind (does_update (G := fun file' => Now disk isOpen erred v file' ∧
    (file'.pos = file.pos ∧ file'.reading = false) ∧ file'.writing = false) fun _ he => ?_) fun _ =>
      does_load fun file' ⟨hf, hp, hw⟩ => ?_
  case refine_1 =>
    rw [he]
    exact ⟨h.update (h.toHas.withReading nofun) ⟨rfl, rfl, rfl⟩, ⟨rfl, rfl⟩, h.reading hr⟩
  case refine_2 =>
    rw [if_neg (by simp [hw])]
    exact .pure fun _ he => he ▸ ⟨hf, hp⟩

-- What a write leaves when it fails: it is too large, or the file does not stay in its directory entry.
def WriteFailed (disk : List UInt8) (isOpen erred : Bool) (v : List UInt8) (offset size : ℕ)
    (e : LfsError) (file : LfsFile) : Prop :=
  maxFileSizeBytes < (offset + size) % 2 ^ 32 ∧ e = .fBig ∧ Now disk isOpen erred v file ∧
      file.pos = offset ∨
    (offset + size) % 2 ^ 32 ≤ maxFileSizeBytes ∧ (∃ v', Now disk isOpen true v' file) ∧
      Outgrows (offset + size) v

theorem does_write (h : Now disk isOpen erred v file) :
    FallibleHoare exec (· = file) (File.lfsFileWrite name data)
      (fun n file' => n = data.length ∧ (file.pos + data.length) % 2 ^ 32 ≤ maxFileSizeBytes ∧
        Now disk isOpen false (v.overlay 0 file.pos data) file' ∧ file'.pos = file.pos + data.length)
      (WriteFailed disk isOpen erred v file.pos data.length) := by
  have hp : FallibleHoare exec
      (fun file' => Now disk isOpen erred v file' ∧ file'.pos = file.pos ∧ file'.reading = false)
      (do
        if ((← Lfs.load name).pos + data.length) % 2 ^ 32 > maxFileSizeBytes then
          throw .fBig
        else
          File.lfsFileFillGap name
          File.lfsFileFlushedWrite name data
          Lfs.update name ({ · with erred := false })
          return data.length)
      (fun n file' => n = data.length ∧ (file.pos + data.length) % 2 ^ 32 ≤ maxFileSizeBytes ∧
        Now disk isOpen false (v.overlay 0 file.pos data) file' ∧ file'.pos = file.pos + data.length)
      (WriteFailed disk isOpen erred v file.pos data.length) := by
    refine does_load fun file₁ ⟨h₁, ho, hr⟩ => ?_
    rw [ho]
    split
    case isTrue hm  => exact .throw fun _ he => .inl ⟨hm, rfl, he ▸ h₁, he ▸ ho⟩
    case isFalse hm =>
      have hm := Nat.le_of_not_lt hm
      refine .bind ((does_fillGap h₁ hr data).weaken_error fun _ _ ⟨hf, hg⟩ =>
        .inr ⟨hm, hf, hg.mono (by omega) (Nat.le_max_left ..)⟩) fun _ =>
        .bind (I := fun _ file' => Now disk isOpen erred (v.overlay 0 file.pos data) file' ∧
          file'.pos = file.pos + data.length) (does_of_eq fun file₂ ⟨v', h₂, hv, hl⟩ => ?_) fun _ =>
        .bind (does_update (G := fun file' => Now disk isOpen false (v.overlay 0 file.pos data) file' ∧
          file'.pos = file.pos + data.length) fun _ ⟨hf, hp⟩ => ⟨?_, hp⟩) fun _ =>
        .pure fun _ hf => ⟨rfl, hm, hf⟩
      case refine_1 =>
        rw [ho] at h₂ hv hl
        refine (does_at does_flushedWrite h₂).weaken (fun _ h => h) (fun _ _ hf => ⟨hv ▸ hf.toNow, hf.pos⟩)
          fun _ _ ⟨hf, hg⟩ => .inr ⟨hm, hf, hg.mono (Nat.le_refl _) (by omega)⟩
      case refine_2 => exact { hf.toHas.withErred with disk := hf.disk, isOpen := hf.isOpen, erred := rfl }
  refine does_load fun file' he => ?_
  subst he
  cases hr : file'.reading
  case false => exact does_at hp ⟨h, rfl, hr⟩
  case true  => exact (does_flush_reading h hr).bind fun _ => hp

end Boot.Alone
