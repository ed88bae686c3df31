import SecureHome.File.Owns

namespace File.Owns

variable {τ ω : Type} [DecidableEq τ] {allowed : Call → Bool} {C : Pool.Cond sig τ LfsError (State τ)}
variable {O : Outline τ (State τ) ω} {t : τ} {name : Name} {A : LfsFile → ω → Prop}
variable {Fails : Access → LfsFile → Prop} {Skips : LfsFile → Prop} {v : List UInt8} {offset : ℕ}

open LfsFile (Has At)

-- Some access may fail.
def MayFail (Fails : Access → LfsFile → Prop) : Prop :=
  ∃ a file, Fails a file

-- Some access of a write may fail while the file has the given content.
def MayFailAt (Fails : Access → LfsFile → Prop) (v : List UInt8) : Prop :=
  ∃ a file, (a = .extend ∨ a = .prog) ∧ file.content = v ∧ Fails a file

theorem MayFailAt.mayFail (h : MayFailAt Fails v) : MayFail Fails :=
  have ⟨a, file, _, _, h⟩ := h
  ⟨a, file, h⟩

theorem takes_writeAccess (h : Owns O allowed C t name A Fails Skips) {a : Access}
    (ha : a = .extend ∨ a = .prog) {φ : LfsFile → Prop} (hφ : ∀ file, φ file → Has v file) :
    Takes O allowed C t A φ (Lfs.orErred name (Lfs.access name a)) (fun _ => φ)
      fun file => Has v file ∧ MayFailAt Fails v := by
  apply h.takes_onError (h.takes_access (by cases ha <;> simp_all))
  rintro file ⟨hf, he⟩
  exact ⟨(hφ file hf).withErred, a, file, ha, (hφ file hf).content, he⟩

theorem takes_writeByte (h : Owns O allowed C t name A Fails Skips) {byte : UInt8} :
    Takes O allowed C t A (At v offset) (lfsFileFlushedWriteByte name byte)
      (fun _ file => At (v.overlay 0 offset [byte]) (offset + 1) file ∧ file.writing = true)
      fun file => Has v file ∧ MayFailAt Fails v := by
  apply h.takes_load
  intro file hf
  have hp : Takes O allowed C t A (fun file => At v offset file ∧ file.writing = true)
      (do
        Lfs.orErred name (Lfs.access name .prog)
        Lfs.update name fun file =>
          { file with branch := file.branch ++ [byte], pos := file.pos + 1 })
      (fun _ file => At (v.overlay 0 offset [byte]) (offset + 1) file ∧ file.writing = true)
      fun file => Has v file ∧ MayFailAt Fails v := by
    apply Takes.bind (h.takes_writeAccess (.inr rfl) fun _ hf => hf.left.toHas)
    exact fun _ => h.takes_update fun _ ⟨hf, hw⟩ => ⟨hf.writeByte hw, hw⟩
  cases hw : file.writing
  case true  => exact hp.pre fun _ he => he ▸ ⟨hf, hw⟩
  case false =>
    apply Takes.bind
    case h =>
      exact h.takes_writeAccess (.inl rfl) (φ := (· = file)) fun _ he => he ▸ hf.toHas
    case hf =>
      intro _
      apply Takes.bind (h.takes_update _) fun _ => hp
      exact fun _ he => he ▸ ⟨hf.startWriting hw, rfl⟩

theorem takes_flushedWrite (h : Owns O allowed C t name A Fails Skips) {data : List UInt8} :
    Takes O allowed C t A (At v offset) (lfsFileFlushedWrite name data)
      (fun _ => At (v.overlay 0 offset data) (offset + data.length))
      fun file => ∃ v', Has v' file ∧ MayFailAt Fails v' := by
  induction data generalizing v offset
  case nil =>
    apply Takes.pure
    intro _ hf
    rw [List.overlay_nil hf.inside]
    exact hf
  case cons byte bytes hi =>
    apply Takes.bind
    case h => exact h.takes_writeByte.post fun _ h => ⟨v, h⟩
    case hf =>
      intro _
      apply hi.weaken (fun _ hf => hf.left) (fun _ file hf => ?_) fun _ h => h
      rw [← List.singleton_append, ← List.overlay_append, List.length_append, ← Nat.add_assoc]
      exact hf

-- Copying what is behind the branch does not change the content.
theorem takes_copy (h : Owns O allowed C t name A Fails Skips) {bytes : List UInt8}
    (hb : v.drop offset = bytes) :
    Takes O allowed C t A (fun file => At v offset file ∧ file.writing = true)
      (lfsFileCopy name bytes)
      (fun _ file => At v v.length file ∧ file.writing = true)
      fun file => Has v file ∧ MayFail Fails := by
  induction bytes generalizing offset
  case nil =>
    apply Takes.pure
    rintro _ ⟨hf, hw⟩
    have he : offset = v.length := Nat.le_antisymm hf.inside (List.drop_eq_nil_iff.mp hb)
    exact ⟨he ▸ hf, hw⟩
  case cons byte bytes hi =>
    have hv : v.overlay 0 offset [byte] = v := by
      apply List.overlay_getElem
      rw [← Nat.add_zero offset, ← List.getElem?_drop, hb]
      rfl
    apply Takes.bind
    case h =>
      apply (h.takes_access (by simp)).post
      exact fun file ⟨hf, he⟩ => ⟨hf.left.toHas, _, file, he⟩
    intro _
    apply Takes.bind
    case h =>
      apply h.takes_writeByte.weaken (fun _ hf => hf.left) (fun _ _ h => h)
      exact fun _ ⟨hf, he⟩ => ⟨hf, he.mayFail⟩
    case hf =>
      intro _
      rw [hv]
      apply hi
      rw [← List.drop_drop, hb]
      rfl

theorem takes_flush (h : Owns O allowed C t name A Fails Skips) {file : LfsFile} (hf : Has v file) :
    Takes O allowed C t A (· = file) (lfsFileFlush name)
      (fun _ file' => Has v file' ∧ file'.pos = file.pos ∧ file'.reading = false ∧
        file'.writing = false)
      fun file => Has v file ∧ MayFail Fails := by
  have hs : Takes O allowed C t A (· = file) (Lfs.update name ({ · with reading := false }))
      (fun _ file' => Has v file' ∧ file'.pos = file.pos ∧ file'.reading = false)
      fun file => Has v file ∧ MayFail Fails :=
    h.takes_update fun _ he => he.symm ▸ ⟨hf.withReading nofun, rfl, rfl⟩
  apply Takes.bind hs
  intro _
  apply h.takes_load
  rintro file ⟨hf, hp, hr⟩
  cases hw : file.writing
  case false => exact .pure fun _ he => he ▸ ⟨hf, hp, hr, hw⟩
  case true  =>
    have ha : At v file.pos file := { hf with notReading := hr, pos := rfl, inside := hf.pos_le hw }
    apply Takes.bind
    case h => exact (h.takes_copy (hf.drop_ctz hw)).pre fun _ he => he.symm ▸ ⟨ha, hw⟩
    intro _
    apply Takes.bind
    case h =>
      apply (h.takes_access (by simp)).post
      exact fun file ⟨hf, he⟩ => ⟨hf.left.toHas, _, file, he⟩
    intro _
    apply h.takes_update
    exact fun _ ⟨hf, hw⟩ => ⟨hf.flushed hw (Nat.le_of_eq hf.pos.symm), hp, hf.notReading, rfl⟩

-- After a sync, the content is on the flash, unless the sync was skipped.
theorem takes_sync (h : Owns O allowed C t name A Fails Skips) :
    Takes O allowed C t A (Has v) (lfsFileSync name)
      (fun _ file => Has v file ∧ (file.disk = v ∨ Skips file))
      fun file => Has v file ∧ MayFail Fails := by
  apply Takes.bind h.takes_loadErred
  intro erred
  cases erred
  case true  => exact .pure fun _ ⟨hf, hs⟩ => ⟨hf, .inr (hs rfl)⟩
  case false =>
    apply Takes.intro
    intro file hf
    apply Takes.bind
    case h =>
      apply h.takes_onError (h.takes_flush hf.left)
      exact fun _ ⟨hf, he⟩ => ⟨hf.withErred, he⟩
    intro _
    apply h.takes_load
    rintro file ⟨hf, -, -, hw⟩
    cases hd : file.dirty
    case false =>
      apply Takes.pure
      rintro _ rfl
      exact ⟨hf, .inl ((hf.clean hd).trans (hf.ctz hw))⟩
    case true  =>
      apply Takes.bind
      case h =>
        apply (h.takes_access (by simp)).post
        exact fun file ⟨he, hs⟩ => ⟨he ▸ hf, _, file, hs⟩
      intro _
      apply Takes.bind
      case h =>
        apply h.takes_onError (h.takes_commit (θ := fun file => Has v file ∧ file.disk = v ∧ file.ctz = v) _)
        · rintro _ ⟨rfl | hc, he⟩
          · exact ⟨hf.withErred, he⟩
          · exact ⟨hc.left.withErred, he⟩
        · exact fun _ he => he ▸ ⟨hf.committed, hf.ctz hw, hf.ctz hw⟩
      intro _
      apply h.takes_update
      exact fun _ ⟨hc, hd, ht⟩ => ⟨hc.synced (hd.trans ht.symm), .inl hd⟩

-- Closing a file syncs it first.
theorem takes_close (h : Owns O allowed C t name A Fails Skips) :
    Takes O allowed C t A (Has v) (lfsFileClose name)
      (fun _ file => Has v file ∧
        (file.disk = v ∨ ∃ file', Has v file' ∧ Skips file' ∧ file'.disk = file.disk))
      fun file => Has v file ∧ MayFail Fails := by
  apply Takes.bind (h.takes_onError h.takes_sync fun _ ⟨hf, he⟩ => ⟨hf.withOpen, he⟩)
  intro _
  apply h.takes_update
  rintro file ⟨hf, hd | hs⟩
  · exact ⟨hf.withOpen, .inl hd⟩
  · exact ⟨hf.withOpen, .inr ⟨file, hf, hs, rfl⟩⟩

-- The bytes that are read are those behind the position.
theorem takes_readBytes (h : Owns O allowed C t name A Fails Skips) {bytes : List UInt8} :
    Takes O allowed C t A (fun file => Has v file ∧ file.writing = false)
      (lfsFileReadBytes name bytes)
      (fun _ => Has v)
      fun file => Has v file ∧ MayFail Fails := by
  induction bytes
  case nil => exact .pure fun _ hf => hf.left
  case cons byte bytes hi =>
    have hp : Takes O allowed C t A (fun file => Has v file ∧ file.writing = false)
        (do
          Lfs.access name .read
          Lfs.update name fun file => { file with pos := file.pos + 1 }
          lfsFileReadBytes name bytes)
        (fun _ => Has v)
        fun file => Has v file ∧ MayFail Fails := by
      apply Takes.bind ((h.takes_access (by simp)).post fun _ ⟨hf, he⟩ => ⟨hf.left, _, _, he⟩)
      intro _
      apply Takes.bind (h.takes_update _) fun _ => hi
      exact fun _ ⟨hf, hw⟩ => ⟨hf.withPos hw, hw⟩
    apply h.takes_load
    rintro file ⟨hf, hw⟩
    cases hr : file.reading
    case true  => exact hp.pre fun _ he => he ▸ ⟨hf, hw⟩
    case false =>
      apply Takes.bind
      case h =>
        apply (h.takes_access (by simp)).post
        exact fun file ⟨he, hs⟩ => ⟨he ▸ hf, _, file, hs⟩
      intro _
      apply Takes.bind (h.takes_update _) fun _ => hp
      exact fun _ he => he.symm ▸ ⟨hf.withReading fun _ => hw, hw⟩

theorem takes_flushedRead (h : Owns O allowed C t name A Fails Skips) {size : ℕ} :
    Takes O allowed C t A (fun file => Has v file ∧ file.pos = offset ∧ file.writing = false)
      (lfsFileFlushedRead name size)
      (fun bytes file => Has v file ∧ bytes = (v.drop offset).take size)
      fun file => Has v file ∧ MayFail Fails := by
  apply h.takes_load
  rintro file ⟨hf, rfl, hw⟩
  by_cases hp : file.pos ≥ file.ctz.length
  case pos =>
    rw [if_pos hp]
    apply Takes.pure
    rintro _ rfl
    rw [← hf.ctz hw, List.drop_of_length_le hp, List.take_nil]
    exact ⟨hf.ctz hw ▸ hf, rfl⟩
  case neg =>
    rw [if_neg hp]
    apply Takes.bind (h.takes_readBytes.pre fun _ he => he ▸ ⟨hf, hw⟩)
    intro _
    apply Takes.pure
    rw [hf.ctz hw]
    exact fun _ hf => ⟨hf, rfl⟩

theorem takes_read (h : Owns O allowed C t name A Fails Skips) {size : ℕ} :
    Takes O allowed C t A (fun file => Has v file ∧ file.pos = offset) (lfsFileRead name size)
      (fun bytes file => Has v file ∧ bytes = (v.drop offset).take size)
      fun file => Has v file ∧ MayFail Fails := by
  apply h.takes_load
  rintro file ⟨hf, hp⟩
  cases hw : file.writing
  case false => exact h.takes_flushedRead.pre fun _ he => he ▸ ⟨hf, hp, hw⟩
  case true  =>
    apply Takes.bind (h.takes_flush hf)
    exact fun _ => h.takes_flushedRead.pre fun _ ⟨hf, he, _, hw⟩ => ⟨hf, he.trans hp, hw⟩

theorem takes_move (h : Owns O allowed C t name A Fails Skips) {npos : ℕ} :
    Takes O allowed C t A (Has v) (lfsFileMove name npos)
      (fun _ file => Has v file ∧ file.pos = npos)
      fun file => Has v file ∧ MayFail Fails := by
  have hp : Takes O allowed C t A (fun file => Has v file ∧ file.writing = false)
      (Lfs.update name ({ · with pos := npos }))
      (fun _ file => Has v file ∧ file.pos = npos)
      fun file => Has v file ∧ MayFail Fails :=
    h.takes_update fun _ ⟨hf, hw⟩ => ⟨hf.withPos hw, rfl⟩
  have hs {file : LfsFile} (hf : Has v file) : Takes O allowed C t A (· = file)
      (do
        lfsFileFlush name
        Lfs.update name ({ · with pos := npos }))
      (fun _ file => Has v file ∧ file.pos = npos)
      fun file => Has v file ∧ MayFail Fails :=
    (h.takes_flush hf).bind fun _ => hp.pre fun _ ⟨hf, _, _, hw⟩ => ⟨hf, hw⟩
  apply Takes.bind h.takes_isCached
  intro cached
  apply h.takes_load
  intro file hf
  cases cached <;> cases hr : file.reading
  case true.true => exact hp.pre fun _ he => he ▸ ⟨hf, hf.reading hr⟩
  all_goals exact hs hf

-- A seek does not change the content, whether it fails or not.
theorem takes_seek (h : Owns O allowed C t name A Fails Skips) {off : Int32} :
    Takes O allowed C t A (Has v) (lfsFileSeek name off)
      (fun _ file => off.toUInt32.toNat ≤ maxFileSizeBytes ∧ Has v file ∧
        file.pos = off.toUInt32.toNat)
      fun file => Has v file ∧ (maxFileSizeBytes < off.toUInt32.toNat ∨ MayFail Fails) := by
  unfold lfsFileSeek
  dsimp only
  split
  case isTrue hm  => exact .throw fun _ hf => ⟨hf, .inl hm⟩
  case isFalse hm =>
    have hm := Nat.le_of_not_lt hm
    apply h.takes_load
    intro file hf
    split
    case isTrue =>
      apply Takes.bind (h.takes_move.weaken (fun _ he => he ▸ hf) _ fun _ ⟨hf, he⟩ => ⟨hf, .inr he⟩)
      · exact fun _ => .pure fun _ h => h
      · exact fun _ _ ⟨hf, hp⟩ => ⟨hm, hf, hp⟩
    case isFalse hp => exact .pure fun _ he => he ▸ ⟨hm, hf, Decidable.not_not.mp hp⟩

-- Filling the gap does not change what is written next.
theorem takes_fillGap (h : Owns O allowed C t name A Fails Skips) {file : LfsFile}
    (hf : Has v file) (hr : file.reading = false) (data : List UInt8) :
    Takes O allowed C t A (· = file) (lfsFileFillGap name)
      (fun _ file' => ∃ v', At v' file.pos file' ∧
        v'.overlay 0 file.pos data = v.overlay 0 file.pos data)
      fun file => ∃ v', Has v' file ∧ MayFailAt Fails v' := by
  apply h.takes_load
  rintro file rfl
  split
  case isTrue hg =>
    have ⟨hw, hp⟩ : file.writing = false ∧ v.length < file.pos := by
      simp only [Bool.and_eq_true, Bool.not_eq_true', decide_eq_true_eq] at hg
      exact ⟨hg.left, hf.ctz hg.left ▸ hg.right⟩
    rw [hf.ctz hw]
    have hs : Takes O allowed C t A (· = file)
        (Lfs.update name fun file => { file with pos := file.ctz.length })
        (fun _ => At v v.length) fun file => ∃ v', Has v' file ∧ MayFailAt Fails v' := by
      apply h.takes_update
      rintro _ rfl
      exact { hf.withPos hw with
        notReading := hr, pos := congrArg _ (hf.ctz hw), inside := Nat.le_refl _ }
    apply Takes.bind hs
    intro _
    apply h.takes_flushedWrite.weaken (fun _ h => h) _ fun _ h => h
    intro _ file' hf
    have he : v.length + (List.replicate (file.pos - v.length) (0 : UInt8)).length = file.pos := by
      simp
      omega
    rw [he] at hf
    refine ⟨_, hf, ?_⟩
    rw [← List.overlay_gap (Nat.le_of_lt hp), ← List.overlay_append, he]
  case isFalse hg =>
    apply Takes.pure
    rintro _ rfl
    refine ⟨v, { hf with notReading := hr, pos := rfl, inside := ?_ }, rfl⟩
    cases hw : LfsFile.writing _
    case true  => exact hf.pos_le hw
    case false => simpa [hw, hf.ctz hw] using hg

-- A write that fails only changes the content if one of its accesses fails halfway.
theorem takes_write (h : Owns O allowed C t name A Fails Skips) {data : List UInt8}
    (hd : offset + data.length < 2 ^ 32) :
    Takes O allowed C t A (fun file => Has v file ∧ file.pos = offset) (lfsFileWrite name data)
      (fun n file => n = data.length ∧ offset + data.length ≤ maxFileSizeBytes ∧
        Has (v.overlay 0 offset data) file)
      fun file => (Has v file ∧ (maxFileSizeBytes < offset + data.length ∨ MayFail Fails)) ∨
        ∃ v', Has v' file ∧ MayFailAt Fails v' := by
  have hp : Takes O allowed C t A (fun file => Has v file ∧ file.pos = offset ∧ file.reading = false)
      (do
        if ((← Lfs.load name).pos + data.length) % 2 ^ 32 > maxFileSizeBytes then
          throw .fBig
        else
          lfsFileFillGap name
          lfsFileFlushedWrite name data
          Lfs.update name ({ · with erred := false })
          return data.length)
      (fun n file => n = data.length ∧ offset + data.length ≤ maxFileSizeBytes ∧
        Has (v.overlay 0 offset data) file)
      fun file => (Has v file ∧ (maxFileSizeBytes < offset + data.length ∨ MayFail Fails)) ∨
        ∃ v', Has v' file ∧ MayFailAt Fails v' := by
    apply h.takes_load
    rintro file ⟨hf, rfl, hr⟩
    rw [Nat.mod_eq_of_lt hd]
    split
    case isTrue hm  => exact .throw fun _ he => he.symm ▸ .inl ⟨hf, .inl hm⟩
    case isFalse hm =>
      apply Takes.bind ((h.takes_fillGap hf hr data).post fun _ h => .inr h)
      intro _
      apply Takes.bind
        (ξ := fun _ file' => Has (v.overlay 0 file.pos data) file')
      case h =>
        apply Takes.intro
        rintro file' ⟨v', hf', hv⟩
        exact h.takes_flushedWrite.weaken (fun _ he => he ▸ hf') (fun _ _ hf => hv ▸ hf.toHas)
          fun _ h => .inr h
      intro _
      apply Takes.bind (h.takes_update fun _ hf => hf.withErred)
      exact fun _ => .pure fun _ hf => ⟨rfl, Nat.le_of_not_lt hm, hf⟩
  apply h.takes_load
  rintro file ⟨hf, he⟩
  cases hr : file.reading
  case false => exact hp.pre fun _ h => h ▸ ⟨hf, he, hr⟩
  case true  =>
    apply Takes.bind ((h.takes_flush hf).post fun _ ⟨hf, he⟩ => .inl ⟨hf, .inr he⟩)
    exact fun _ => hp.pre fun _ ⟨hf, hs, hr, _⟩ => ⟨hf, hs.trans he, hr⟩

end File.Owns
