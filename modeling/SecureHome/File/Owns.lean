import SecureHome.File.Basic
import SecureHome.Lib.Overlay

namespace File

-- A file that has the given content.
structure LfsFile.Has (v : List UInt8) (file : LfsFile) : Prop where
  reading : file.reading = true → file.writing = false
  branch  : file.writing = true → file.branch.length = file.pos
  content : file.content = v
  -- A file that is not dirty only differs from the flash in what was written since the last flush.
  clean   : file.dirty = false → file.disk = file.ctz

-- A file that can be written at a position.
structure LfsFile.At (v : List UInt8) (offset : ℕ) (file : LfsFile) : Prop extends Has v file where
  notReading : file.reading = false
  pos        : file.pos = offset
  inside     : offset ≤ v.length

namespace LfsFile

variable {file : LfsFile} {v : List UInt8} {byte : UInt8} {pos offset : ℕ}

theorem has_opened {disk : List UInt8} {isOpen : Bool} :
    Has disk { opened disk with isOpen } where
  reading := nofun
  branch  := nofun
  content := rfl
  clean _ := rfl

namespace Has

theorem ctz (h : Has v file) (hw : file.writing = false) : file.ctz = v := by
  simpa [LfsFile.content, hw] using h.content

theorem withErred {erred : Bool} (h : Has v file) : Has v { file with erred } :=
  ⟨h.reading, h.branch, h.content, h.clean⟩

theorem withOpen {isOpen : Bool} (h : Has v file) : Has v { file with isOpen } :=
  ⟨h.reading, h.branch, h.content, h.clean⟩

theorem withReading {reading : Bool} (h : Has v file) (hr : reading = true → file.writing = false) :
    Has v { file with reading } :=
  ⟨hr, h.branch, h.content, h.clean⟩

theorem withPos (h : Has v file) (hw : file.writing = false) : Has v { file with pos } where
  reading    := h.reading
  branch hw' := absurd hw' (by simp [hw])
  content    := by simpa [LfsFile.content, hw] using h.content
  clean      := h.clean

theorem committed (h : Has v file) : Has v { file with disk := file.ctz } :=
  ⟨h.reading, h.branch, h.content, fun _ => rfl⟩

theorem synced (h : Has v file) (hd : file.disk = file.ctz) : Has v { file with dirty := false } :=
  ⟨h.reading, h.branch, h.content, fun _ => hd⟩

theorem content_of_writing (h : Has v file) (hw : file.writing = true) :
    v = file.branch ++ file.ctz.drop file.pos := by
  rw [← h.content, LfsFile.content, if_pos hw]

-- While a file is written, its position is in the file.
theorem pos_le (h : Has v file) (hw : file.writing = true) : file.pos ≤ v.length := by
  rw [h.content_of_writing hw, List.length_append, h.branch hw]
  exact Nat.le_add_right ..

theorem drop_ctz (h : Has v file) (hw : file.writing = true) :
    v.drop file.pos = file.ctz.drop file.pos := by
  rw [h.content_of_writing hw, ← h.branch hw, List.drop_left]

theorem flushed (h : Has v file) (hw : file.writing = true) (hp : v.length ≤ file.pos) :
    Has v { file with ctz := file.branch, writing := false, dirty := true, pos } where
  reading _ := rfl
  branch    := nofun
  content   := by
    have hd : file.ctz.drop file.pos = [] := by
      rw [← h.drop_ctz hw, List.drop_of_length_le hp]
    rw [h.content_of_writing hw, hd, List.append_nil]
    rfl
  clean     := nofun

end Has

namespace At

theorem startWriting (h : At v offset file) (hw : file.writing = false) :
    At v offset { file with branch := file.ctz.take file.pos, writing := true } where
  reading hr := absurd hr (by simp [h.notReading])
  branch _   := by
    rw [h.ctz hw]
    exact List.length_take_of_le (h.pos ▸ h.inside)
  content    := by
    rw [← h.ctz hw]
    exact List.take_append_drop ..
  clean      := h.clean
  notReading := h.notReading
  pos        := h.pos
  inside     := h.inside

theorem writeByte (h : At v offset file) (hw : file.writing = true) :
    At (v.overlay 0 offset [byte]) (offset + 1)
      { file with branch := file.branch ++ [byte], pos := file.pos + 1 } where
  reading hr := absurd hr (by simp [h.notReading])
  branch _   := by
    rw [List.length_append, h.branch hw]
    rfl
  content    := by
    have ht : v.take file.pos = file.branch := by
      rw [h.content_of_writing hw, ← h.branch hw, List.take_left]
    have hd : v.drop (file.pos + 1) = file.ctz.drop (file.pos + 1) := by
      rw [← List.drop_drop, h.drop_ctz hw, List.drop_drop]
    rw [List.overlay_of_le h.inside, List.length_singleton, ← h.pos, ht, hd]
    simp [LfsFile.content, hw]
  clean      := h.clean
  notReading := h.notReading
  pos        := congrArg (· + 1) h.pos
  inside     := by
    rw [List.length_overlay]
    exact Nat.le_max_right ..

end At

end LfsFile

-- All that can happen in an access to the flash.
theorem mem_exec_access {τ : Type} [DecidableEq τ] {t : τ} {s s' : State τ} {name : Name}
    {a : Access} {r : Option LfsError} (h : (r, s') ∈ s.exec t (.access name a)) :
    r = s.fault ∧ (s' = State.access { s with fault := none } name a ∨
      r ≠ none ∧ s' = { s with fault := none }) := by
  simp only [State.exec] at h
  split at h
  case h_1 hf =>
    cases List.mem_singleton.mp h
    exact ⟨hf.symm, .inl rfl⟩
  case h_2 e hf =>
    simp only [List.mem_cons, List.not_mem_nil, or_false, Prod.mk.injEq] at h
    rcases h with ⟨rfl, rfl⟩ | ⟨rfl, rfl⟩
    · exact ⟨hf.symm, .inr ⟨nofun, rfl⟩⟩
    · exact ⟨hf.symm, .inl rfl⟩

section Owned

variable {τ ω : Type} [DecidableEq τ] {allowed : Call → Bool} {C : Pool.Cond sig τ LfsError (State τ)}

-- The thread is the only one to use the file, whose value the assertion names. An access that may
-- fail does so only in certain cases.
structure Owns (O : Outline τ (State τ) ω) (allowed : Call → Bool)
    (C : Pool.Cond sig τ LfsError (State τ)) (t : τ) (name : Name) (A : LfsFile → ω → Prop)
    (Fails : Access → LfsFile → Prop) (Skips : LfsFile → Prop) : Prop where
  assertOpen file : O.Triple (system τ allowed) C t (A file) (perform (.assertOpen name)) fun _ => A file
  load file : O.Triple (system τ allowed) C t (A file) (perform (.load name))
    fun r w => r = file ∧ A file w
  loadErred file : O.Triple (system τ allowed) C t (A file) (perform (.loadErred name))
    fun r w => A file w ∧ (r = true → Skips file)
  update file f : O.Triple (system τ allowed) C t (A file) (perform (.update name f))
    fun _ => A (f file)
  isCached file : O.Triple (system τ allowed) C t (A file) (perform (.isCached name)) fun _ => A file
  access file a : a ≠ .commit → O.Triple (system τ allowed) C t (A file) (perform (.access name a))
    fun r w => A file w ∧ (r ≠ none → Fails a file)
  commit file : O.Triple (system τ allowed) C t (A file) (perform (.access name .commit))
    fun r w => (A { file with disk := file.ctz } w ∨ r ≠ none ∧ A file w) ∧ (r ≠ none → Fails .commit file)

-- A program takes the file from one condition to another, where the thread owns the file throughout.
def Takes (O : Outline τ (State τ) ω) (allowed : Call → Bool)
    (C : Pool.Cond sig τ LfsError (State τ)) (t : τ) (A : LfsFile → ω → Prop) {ε α : Type}
    (φ : LfsFile → Prop) (p : Fallible sig ε α) (ψ : α → LfsFile → Prop) (χ : LfsFile → Prop) : Prop :=
  O.FallibleTriple (system τ allowed) C t (fun w => ∃ file, A file w ∧ φ file) p
    (fun a w => ∃ file, A file w ∧ ψ a file) fun _ w => ∃ file, A file w ∧ χ file

variable {O : Outline τ (State τ) ω} {t : τ} {name : Name} {A : LfsFile → ω → Prop}
variable {Fails : Access → LfsFile → Prop} {Skips : LfsFile → Prop} {ε α β : Type}
variable {φ φ' χ χ' : LfsFile → Prop} {p : Fallible sig ε α} {ψ ψ' : α → LfsFile → Prop}

namespace Takes

theorem intro (h : ∀ file, φ file → Takes O allowed C t A (· = file) p ψ χ) :
    Takes O allowed C t A φ p ψ χ :=
  fun w hi ⟨file, ha, hf⟩ => h file hf w hi ⟨file, ha, rfl⟩

theorem pure {a : α} (h : ∀ file, φ file → ψ a file) :
    Takes O allowed C t A φ (Pure.pure a : Fallible sig ε α) ψ χ :=
  Outline.FallibleTriple.pure fun _ _ ⟨file, ha, hf⟩ => ⟨file, ha, h file hf⟩

theorem throw {e : ε} (h : ∀ file, φ file → χ file) :
    Takes O allowed C t A φ (MonadExcept.throw e : Fallible sig ε α) ψ χ :=
  Outline.FallibleTriple.throw fun _ _ ⟨file, ha, hf⟩ => ⟨file, ha, h file hf⟩

theorem bind {q : Fallible sig ε β} {f : β → Fallible sig ε α} {ξ : β → LfsFile → Prop}
    (h : Takes O allowed C t A φ q ξ χ) (hf : ∀ b, Takes O allowed C t A (ξ b) (f b) ψ χ) :
    Takes O allowed C t A φ (q >>= f) ψ χ :=
  Outline.FallibleTriple.bind h hf

theorem weaken (h : Takes O allowed C t A φ' p ψ' χ') (hp : ∀ file, φ file → φ' file)
    (hq : ∀ a file, ψ' a file → ψ a file) (hr : ∀ file, χ' file → χ file) :
    Takes O allowed C t A φ p ψ χ :=
  Outline.FallibleTriple.weaken h (fun _ _ ⟨file, ha, hf⟩ => ⟨file, ha, hp file hf⟩)
    (fun a _ _ ⟨file, ha, hf⟩ => ⟨file, ha, hq a file hf⟩)
    fun _ _ _ ⟨file, ha, hf⟩ => ⟨file, ha, hr file hf⟩

theorem pre (h : Takes O allowed C t A φ' p ψ χ) (hp : ∀ file, φ file → φ' file) :
    Takes O allowed C t A φ p ψ χ :=
  h.weaken hp (fun _ _ h => h) fun _ h => h

theorem post (h : Takes O allowed C t A φ p ψ χ') (hr : ∀ file, χ' file → χ file) :
    Takes O allowed C t A φ p ψ χ :=
  h.weaken (fun _ h => h) (fun _ _ h => h) hr

theorem tryLfs {p : Lfs α} {err : ErrorT} (h : Takes O allowed C t A φ p ψ χ) :
    Takes O allowed C t A φ (File.tryLfs p err) ψ χ :=
  Outline.FallibleTriple.adapt h fun _ _ _ h => h

-- The outcome of a program as a value.
theorem run {δ : Type} (h : Takes O allowed C t A φ p ψ χ') :
    Takes O allowed C t A φ (ExceptT.lift p.run : Fallible sig δ (Except ε α))
      (fun r file => match r with
        | .ok a    => ψ a file
        | .error _ => χ' file) χ := by
  apply Outline.FallibleTriple.lift
  apply Outline.Triple.weaken h (fun _ _ h => h)
  intro r w _ hw
  cases r <;> exact hw

end Takes

namespace Owns

theorem takes_load (h : Owns O allowed C t name A Fails Skips) {f : LfsFile → Lfs α}
    (hf : ∀ file, φ file → Takes O allowed C t A (· = file) (f file) ψ χ) :
    Takes O allowed C t A φ (Lfs.load name >>= f) ψ χ := by
  apply Takes.intro
  intro file hφ
  refine Outline.FallibleTriple.bind (I := fun r w => r = file ∧ A file w) (.lift ?_) ?_
  case refine_1 => exact (h.load file).weaken (fun w _ ⟨_, ha, he⟩ => he ▸ ha) fun _ _ _ h => h
  case refine_2 =>
    rintro r w hi ⟨rfl, ha⟩
    exact hf r hφ w hi ⟨r, ha, rfl⟩

theorem takes_update (h : Owns O allowed C t name A Fails Skips) {f : LfsFile → LfsFile}
    {θ : LfsFile → Prop} (hf : ∀ file, φ file → θ (f file)) :
    Takes O allowed C t A φ (Lfs.update name f) (fun _ => θ) χ := by
  apply Takes.intro
  intro file hφ
  apply Outline.FallibleTriple.lift
  apply (h.update file f).weaken
  case hp => exact fun w _ ⟨_, ha, he⟩ => he ▸ ha
  case hq => exact fun _ w _ ha => ⟨f file, ha, hf file hφ⟩

theorem takes_access (h : Owns O allowed C t name A Fails Skips) {a : Access} (ha : a ≠ .commit) :
    Takes O allowed C t A φ (Lfs.access name a) (fun _ => φ)
      fun file => φ file ∧ Fails a file := by
  apply Takes.intro
  intro file hφ
  apply Outline.FallibleTriple.bind (I := fun r w => A file w ∧ (r ≠ none → Fails a file))
  case h => exact .lift ((h.access file a ha).weaken (fun w _ ⟨_, ha, he⟩ => he ▸ ha) fun _ _ _ h => h)
  case hf =>
    intro r
    cases r
    case none   => exact .pure fun w _ hw => ⟨file, hw.left, hφ⟩
    case some e => exact .throw fun w _ hw => ⟨file, hw.left, hφ, hw.right nofun⟩

theorem takes_commit (h : Owns O allowed C t name A Fails Skips) {θ : LfsFile → Prop}
    (hf : ∀ file, φ file → θ { file with disk := file.ctz }) :
    Takes O allowed C t A φ (Lfs.access name .commit) (fun _ => θ)
      fun file => (φ file ∨ θ file) ∧ ∃ a file, Fails a file := by
  apply Takes.intro
  intro file hφ
  apply Outline.FallibleTriple.bind
  case h => exact .lift ((h.commit file).weaken (fun w _ ⟨_, ha, he⟩ => he ▸ ha) fun _ _ _ h => h)
  case hf =>
    intro r
    cases r
    case none =>
      apply Outline.FallibleTriple.pure
      rintro w _ ⟨ha | ⟨hn, _⟩, _⟩
      · exact ⟨_, ha, hf file hφ⟩
      · contradiction
    case some e =>
      apply Outline.FallibleTriple.throw
      rintro w _ ⟨ha | ⟨_, ha⟩, hs⟩
      · exact ⟨_, ha, .inr (hf file hφ), _, _, hs nofun⟩
      · exact ⟨_, ha, .inl hφ, _, _, hs nofun⟩

theorem takes_isCached (h : Owns O allowed C t name A Fails Skips) :
    Takes O allowed C t A φ (ExceptT.lift (perform (.isCached name)) : Lfs Bool) (fun _ => φ) χ := by
  apply Takes.intro
  intro file hφ
  apply Outline.FallibleTriple.lift
  exact (h.isCached file).weaken (fun w _ ⟨_, ha, he⟩ => he ▸ ha) fun _ w _ ha => ⟨file, ha, hφ⟩

theorem takes_loadErred (h : Owns O allowed C t name A Fails Skips) :
    Takes O allowed C t A φ (ExceptT.lift (perform (.loadErred name)) : Lfs Bool)
      (fun r file => φ file ∧ (r = true → Skips file)) χ := by
  apply Takes.intro
  intro file hφ
  apply Outline.FallibleTriple.lift
  apply (h.loadErred file).weaken
  case hp => exact fun w _ ⟨_, ha, he⟩ => he ▸ ha
  case hq => exact fun r w _ ⟨ha, hs⟩ => ⟨file, ha, hφ, hs⟩

theorem takes_asserted {p : Lfs α} (h : Owns O allowed C t name A Fails Skips)
    (hp : Takes O allowed C t A φ p ψ χ) : Takes O allowed C t A φ (Lfs.asserted name p) ψ χ := by
  apply Takes.intro
  intro file hφ
  apply Outline.FallibleTriple.bind
  case h =>
    exact .lift ((h.assertOpen file).weaken (fun w _ ⟨_, ha, he⟩ => he ▸ ha) fun _ _ _ h => h)
  case hf => exact fun _ w hi ha => hp w hi ⟨file, ha, hφ⟩

theorem takes_onError {p : Lfs α} {f : LfsFile → LfsFile}
    (h : Owns O allowed C t name A Fails Skips)
    (hp : Takes O allowed C t A φ p ψ χ') (hf : ∀ file, χ' file → χ (f file)) :
    Takes O allowed C t A φ (Lfs.onError name f p) ψ χ := by
  apply Outline.FallibleTriple.tryCatch hp
  intro e
  apply Takes.bind (h.takes_update hf)
  exact fun _ => Takes.throw fun _ hf => hf

end Owns

end Owned

end File
