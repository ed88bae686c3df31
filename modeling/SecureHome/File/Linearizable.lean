import SecureHome.File.Locked

open Linearizability

namespace File

-- The files as independent byte arrays, where a call returns `none` if it fails.
def Call.apply : Call → (Name → List UInt8) → Option (List UInt8) × (Name → List UInt8)
  | .write name data offset, content =>
    if offset.toNat + data.length ≤ maxFileSizeBytes then
      (some [], Function.update content name ((content name).overlay 0 offset.toNat data))
    else
      (none, content)
  | .read name size offset, content =>
    if offset.toNat + size ≤ (content name).length then
      (some (((content name).drop offset.toNat).take size), content)
    else
      (none, content)
  | .sync _, content => (some [], content)
  | .deinit, content => (none, content)

-- The calls that access an open file.
def Call.isAccess : Call → Bool
  | .write name data _ => name.IsOpened ∧ 0 < data.length ∧ data.length < 2 ^ 31
  | .read name size _  => name.IsOpened ∧ 0 < size ∧ size < 2 ^ 31
  | .sync name         => name.IsOpened
  | .deinit            => false

-- The flash has no errors.
def noFault {τ : Type} : Pool.Cond sig τ LfsError (State τ) where
  op _ _ _  := True
  event _ _ := False

instance {τ : Type} (t : τ) (o : Op) (s : State τ) : Decidable (noFault.op t o s) :=
  inferInstanceAs (Decidable True)

instance {τ : Type} (e : LfsError) (s : State τ) : Decidable (noFault.event e s) :=
  inferInstanceAs (Decidable False)

namespace State

variable {τ : Type}

-- What the tasks observe, without the kinds of errors.
def observed (s : State τ) : List (Event τ Call (Option (List UInt8))) :=
  s.history.map (·.mapResponse Except.toOption)

-- A statement leaves alone what is not in the files.
structure Keeps (s s' : State τ) : Prop where
  initialized : s'.isInitialized = s.isInitialized
  mutex       : s'.mutex = s.mutex
  fault       : s'.fault = s.fault
  history     : s'.history = s.history

theorem Keeps.modify {s : State τ} {name : Name} {f : LfsFile → LfsFile} : Keeps s (s.modify name f) :=
  ⟨rfl, rfl, rfl, rfl⟩

theorem Keeps.access {s : State τ} {name : Name} {a : Access} : Keeps s (s.access name a) := by
  cases a <;> exact ⟨rfl, rfl, rfl, rfl⟩

end State

namespace Atomicity

variable {τ : Type} [DecidableEq τ] {flash : Flash}

-- A state together with the steps of the byte arrays that it corresponds to.
structure World (τ : Type) [DecidableEq τ] (flash : Flash) where
  state : State τ
  trace : Trace τ Call.apply flash.bytes

namespace World

variable (w : World τ flash)

abbrev content : Name → List UInt8 :=
  w.trace.atomic.content

abbrev status (t : τ) : Status Call (Option (List UInt8)) :=
  w.trace.atomic.status t

end World

-- The byte arrays are the contents of the files, unless a task is about to change them.
structure Inv (w : World τ flash) : Prop where
  initialized : w.state.isInitialized = true
  fault       : w.state.fault = none
  observed    : w.state.observed = w.trace.events
  size name   : (w.content name).length ≤ maxFileSizeBytes
  free name   : w.state.mutex = .free → (w.state.files name).Has (w.content name)

-- A task relies on its status and on what it has locked.
structure Rely (t : τ) (w w' : World τ flash) : Prop where
  status  : w'.status t = w.status t
  mutex   : w'.state.mutex = .heldBy t ↔ w.state.mutex = .heldBy t
  files   : w.state.mutex = .heldBy t → w'.state.files = w.state.files
  content : w.state.mutex = .heldBy t → w'.content = w.content

def outline (τ : Type) [DecidableEq τ] (flash : Flash) :
    Outline τ (State τ) (World τ flash) where
  shared := World.state
  inv    := Inv
  rely   := Rely

-- The task is outside of the functions' critical sections.
structure Outside (t : τ) (s : Status Call (Option (List UInt8))) (w : World τ flash) : Prop where
  status : w.status t = s
  mutex  : w.state.mutex ≠ .heldBy t

-- The task is inside of a critical section, in which it may change one of the files.
structure Inside (t : τ) (c : Call) (bytes : Name → List UInt8) (name : Name) (file : LfsFile)
    (w : World τ flash) : Prop where
  status   : w.status t = .pending c
  mutex    : w.state.mutex = .heldBy t
  content  : w.content = bytes
  file     : w.state.files name = file
  others u : u ≠ name → (w.state.files u).Has (bytes u)

variable {t : τ} {c : Call} {w w' : World τ flash} {bytes : Name → List UInt8} {name : Name}
variable {file : LfsFile} {status : Status Call (Option (List UInt8))}

theorem stable_outside : (outline τ flash).Stable t (Outside t status) :=
  fun _ _ ⟨_, _, hr⟩ h => ⟨hr.status.trans h.status, fun hm => h.mutex (hr.mutex.mp hm)⟩

theorem stable_inside : (outline τ flash).Stable t (Inside t c bytes name file) :=
  fun _ _ ⟨_, _, hr⟩ h =>
    have hf := hr.files h.mutex
    { status  := hr.status.trans h.status
      mutex   := hr.mutex.mpr h.mutex
      content := (hr.content h.mutex).trans h.content
      file    := hf ▸ h.file
      others  := hf ▸ h.others }

theorem guar_inside {s : State τ} (hi : Inv w) (h : Inside t c bytes name file w)
    (hk : w.state.Keeps s) : (outline τ flash).Guar t w { w with state := s } where
  left := {
    initialized := hk.initialized.trans hi.initialized
    fault       := hk.fault.trans hi.fault
    observed    := by
      simp only [State.observed, hk.history]
      exact hi.observed
    size        := hi.size
    free _ hm   := by
      rw [hk.mutex, h.mutex] at hm
      contradiction
  }
  right u hu := {
    status  := rfl
    mutex   := by simp only [hk.mutex]
    files   := fun hm => absurd (h.mutex.symm.trans hm) (by simp [hu.symm])
    content := fun _ => rfl
  }

theorem Inside.modify {f : LfsFile → LfsFile} (h : Inside t c bytes name file w) :
    Inside t c bytes name (f file) { w with state := w.state.modify name f } where
  status     := h.status
  mutex      := h.mutex
  content    := h.content
  file       := by simp [State.modify, h.file]
  others u n := by
    simp only [State.modify, Function.update_of_ne n]
    exact h.others u n

-- A statement of the critical section.
theorem triple_inside {o : Op} {Q : sig.Ret o → World τ flash → Prop}
    (h : ∀ w r s, Inv w → Inside t c bytes name file w → (r, s) ∈ w.state.exec t o →
      w.state.Keeps s ∧ Q r { w with state := s }) :
    (outline τ flash).Triple (system τ Call.isAccess) noFault t (Inside t c bytes name file)
      (perform o) Q := by
  apply Outline.Triple.op stable_inside
  case ho =>
    intro w hi hw _ r s hm
    have ⟨hk, hq⟩ := h w r s hi hw hm
    exact ⟨{ w with state := s }, rfl, guar_inside hi hw hk, hq⟩
  case hk => exact fun r => .pure fun _ _ h => h

theorem exec_access {a : Access} {r : Option LfsError} {s s' : State τ} (hf : s.fault = none)
    (h : (r, s') ∈ s.exec t (.access name a)) : r = none ∧ s' = s.access name a := by
  have ⟨hr, hs⟩ := mem_exec_access h
  have hr : r = none := hr.trans hf
  have hs := hs.resolve_right fun he => he.left hr
  have he : { s with fault := none } = s := by rw [← hf]
  exact ⟨hr, he ▸ hs⟩

theorem owns : Owns (outline τ flash) Call.isAccess noFault t name (Inside t c bytes name)
    (fun _ _ => False) fun _ => True where
  assertOpen file := triple_inside fun w r s _ h hm => by
    simp only [State.exec] at hm
    split at hm
    case isTrue  => cases List.mem_singleton.mp hm; exact ⟨⟨rfl, rfl, rfl, rfl⟩, h⟩
    case isFalse => cases hm
  load file := triple_inside fun w r s _ h hm => by
    cases List.mem_singleton.mp hm
    exact ⟨⟨rfl, rfl, rfl, rfl⟩, h.file, h⟩
  loadErred file := triple_inside fun w r s _ h hm => by
    cases List.mem_singleton.mp hm
    exact ⟨⟨rfl, rfl, rfl, rfl⟩, h, fun _ => trivial⟩
  update file f := triple_inside fun w r s _ h hm => by
    cases List.mem_singleton.mp hm
    exact ⟨.modify, h.modify⟩
  isCached file := triple_inside fun w r s _ h hm => by
    have hs : s = w.state := by
      simp only [State.exec, List.mem_cons, List.not_mem_nil, or_false, Prod.mk.injEq] at hm
      exact hm.elim And.right And.right
    exact ⟨hs ▸ ⟨rfl, rfl, rfl, rfl⟩, hs ▸ h⟩
  access file a ha := triple_inside fun w r s hi h hm => by
    obtain ⟨hr, hs⟩ := exec_access hi.fault hm
    refine ⟨hs ▸ .access, ?_, fun hn => hn hr⟩
    cases a <;> first | contradiction | exact hs ▸ h
  commit file := triple_inside fun w r s hi h hm => by
    obtain ⟨hr, hs⟩ := exec_access hi.fault hm
    refine ⟨hs ▸ .access, .inl ?_, fun hn => hn hr⟩
    exact hs ▸ h.modify (f := fun file => { file with disk := file.ctz })

-- A step outside of critical sections, as the others see it.
theorem guar_outside (hi : Inv w') (hs : ∀ u ≠ t, w'.status u = w.status u)
    (hm : ∀ u ≠ t, w'.state.mutex = .heldBy u ↔ w.state.mutex = .heldBy u)
    (hf : ∀ u ≠ t, w.state.mutex = .heldBy u →
      w'.state.files = w.state.files ∧ w'.content = w.content) :
    (outline τ flash).Guar t w w' where
  left := hi
  right u hu := {
    status  := hs u hu
    mutex   := hm u hu
    files   := fun h => (hf u hu h).left
    content := fun h => (hf u hu h).right
  }

theorem triple_takeMutex (name : Name) :
    (outline τ flash).Triple (system τ Call.isAccess) noFault t (Outside t (.pending c))
      (perform .takeMutex) fun _ w => ∃ bytes, (∀ u, (bytes u).length ≤ maxFileSizeBytes) ∧
        ∃ file, Inside t c bytes name file w ∧ file.Has (bytes name) := by
  apply Outline.Triple.op stable_outside
  case hk => exact fun _ => .pure fun _ _ h => h
  intro w hi hw _ r s hm
  simp only [system, State.exec] at hm
  split at hm
  case isFalse => cases hm
  case isTrue hf =>
    cases List.mem_singleton.mp hm
    have hf : w.state.mutex = .free := hf
    refine ⟨{ w with state.mutex := .heldBy t }, rfl, ?_, w.content, hi.size, _, ?_, hi.free name hf⟩
    · apply guar_outside
      case hi => exact { hi with free := fun _ hn => by cases hn }
      case hs => exact fun _ _ => rfl
      case hm => exact fun u hu => by simp [hf, hu.symm]
      case hf => exact fun _ _ _ => ⟨rfl, rfl⟩
    · exact ⟨hw.status, rfl, rfl, rfl, fun u _ => hi.free u hf⟩

-- What a call leaves behind in its file is what it does to the byte arrays.
structure Commits (c : Call) (bytes : Name → List UInt8) (name : Name) (r : Option (List UInt8))
    (v : List UInt8) : Prop where
  apply : c.apply bytes = (r, Function.update bytes name v)
  size  : v.length ≤ maxFileSizeBytes

theorem triple_giveMutex {r : Option (List UInt8)} (hs : ∀ u, (bytes u).length ≤ maxFileSizeBytes) :
    (outline τ flash).Triple (system τ Call.isAccess) noFault t
      (fun w => ∃ file, Inside t c bytes name file w ∧ ∃ v, file.Has v ∧ Commits c bytes name r v)
      (perform .giveMutex) fun _ => Outside t (.done c r) := by
  apply Outline.Triple.intro
  intro file
  apply Outline.Triple.op
  case hp => exact fun w w' hr ⟨hw, hv⟩ => ⟨stable_inside w w' hr hw, hv⟩
  case hk => exact fun _ => .pure fun _ _ h => h
  intro w hi ⟨hw, v, hv, hc⟩ _ _ s hm
  cases List.mem_singleton.mp hm
  have hb : (w.trace.commit hw.status).atomic.content = Function.update bytes name v := by
    simp [hw.content, hc.apply]
  refine ⟨⟨{ w.state with mutex := .free }, w.trace.commit hw.status⟩, rfl, ?_, ?_, nofun⟩
  · apply guar_outside
    case hs => exact fun u hu => Function.update_of_ne hu ..
    case hm => exact fun u hu => by simp [hw.mutex, hu.symm]
    case hf => exact fun u hu hm => absurd (hw.mutex.symm.trans hm) (by simp [hu.symm])
    case hi =>
      refine ⟨hi.initialized, hi.fault, ?_, fun u => ?_, fun u _ => ?_⟩
      · exact hi.observed.trans (Trace.events_commit hw.status).symm
      all_goals
        simp only [World.content, hb]
        by_cases hu : u = name
        case pos => subst hu; simp [hc.size, hw.file, hv]
        case neg => simp [Function.update_of_ne hu, hs u, hw.others u hu]
  · simp [World.status, hw.content, hc.apply]

theorem triple_checkInitialized {R : ErrorT → World τ flash → Prop} :
    (outline τ flash).FallibleTriple (system τ Call.isAccess) noFault t (Outside t status)
      checkInitialized (fun _ => Outside t status) R := by
  apply Outline.FallibleTriple.bind (I := fun r w => r = true ∧ Outside t status w)
  case h =>
    apply Outline.FallibleTriple.lift
    apply Outline.Triple.op stable_outside
    case hk => exact fun _ => .pure fun _ _ h => h
    intro w hi hw _ r s hm
    cases List.mem_singleton.mp hm
    have hr : (outline τ flash).Guar t w w :=
      guar_outside hi (fun _ _ => rfl) (fun _ _ => .rfl) fun _ _ _ => ⟨rfl, rfl⟩
    exact ⟨w, rfl, hr, hi.initialized, hw⟩
  case hf =>
    rintro r w hi ⟨rfl, hw⟩
    exact hw

theorem triple_scopedMutex {α : Type} {body : Fallible sig ErrorT α} {f : α → List UInt8}
    (hb : ∀ bytes, (∀ u, (bytes u).length ≤ maxFileSizeBytes) →
      Takes (outline τ flash) Call.isAccess noFault t (Inside t c bytes name)
        (LfsFile.Has (bytes name)) body
        (fun a file => ∃ v, file.Has v ∧ Commits c bytes name (some (f a)) v)
        (fun file => ∃ v, file.Has v ∧ Commits c bytes name none v)) :
    (outline τ flash).FallibleTriple (system τ Call.isAccess) noFault t (Outside t (.pending c))
      (scopedMutex body) (fun a => Outside t (.done c (some (f a))))
      fun _ => Outside t (.done c none) := by
  apply Outline.Triple.bind (triple_takeMutex name)
  intro _
  apply Outline.Triple.intro
  intro bytes w hi ⟨hs, hw⟩
  apply Outline.Triple.bind (hb bytes hs) _ w hi hw
  intro r
  cases r <;> exact .bind (triple_giveMutex hs) fun _ => .pure fun _ _ h => h

section Commits

variable {data : List UInt8} {offset : UInt32} {size : ℕ}
variable (hs : ∀ u, (bytes u).length ≤ maxFileSizeBytes)

include hs

theorem commits_write (h : offset.toNat + data.length ≤ maxFileSizeBytes) :
    Commits (.write name data offset) bytes name (some [])
      ((bytes name).overlay 0 offset.toNat data) where
  apply := if_pos h
  size  := by
    rw [List.length_overlay]
    exact Nat.max_le.mpr ⟨hs name, h⟩

theorem commits_write_none (h : maxFileSizeBytes < offset.toNat + data.length) :
    Commits (.write name data offset) bytes name none (bytes name) where
  apply := by simp [Call.apply, h]
  size  := hs name

theorem commits_read (h : offset.toNat + size ≤ (bytes name).length) :
    Commits (.read name size offset) bytes name
      (some (((bytes name).drop offset.toNat).take size)) (bytes name) where
  apply := by simp [Call.apply, h]
  size  := hs name

theorem commits_read_none (h : (bytes name).length < offset.toNat + size) :
    Commits (.read name size offset) bytes name none (bytes name) where
  apply := by simp [Call.apply, h]
  size  := hs name

theorem commits_sync : Commits (.sync name) bytes name (some []) (bytes name) where
  apply := by simp [Call.apply]
  size  := hs name

end Commits

theorem checkName_eq (h : name.IsOpened) : checkName name = pure () := by
  cases name <;> first | contradiction | rfl

theorem not_mayFail : ¬Owns.MayFail fun _ _ => False :=
  nofun

-- What an access to one of the open files does, if the flash has no errors.
theorem triple_runCall (h : c.isAccess = true) :
    (outline τ flash).FallibleTriple (system τ Call.isAccess) noFault t (Outside t (.pending c))
      (runCall c) (fun data => Outside t (.done c (some data)))
      fun _ => Outside t (.done c none) := by
  cases c
  case deinit => contradiction
  case write name data offset =>
    have ⟨ho, hl, hd⟩ := of_decide_eq_true h
    apply Outline.FallibleTriple.bind (I := fun _ => Outside t (.done _ (some [])))
    case hf => exact fun _ => .pure fun _ _ h => h
    apply Outline.FallibleTriple.bind triple_checkInitialized
    intro _
    rw [if_neg (Nat.ne_of_gt hl), checkName_eq ho, pure_bind]
    apply triple_scopedMutex (f := fun _ => [])
    intro bytes hs
    apply (owns.takes_writeLocked hd).weaken (fun _ h => h)
    · exact fun _ file ⟨hm, hf⟩ => ⟨_, hf, commits_write hs hm⟩
    · rintro file (⟨hf, hm | he⟩ | ⟨_, _, he⟩)
      · exact ⟨_, hf, commits_write_none hs hm⟩
      · exact absurd he not_mayFail
      · exact absurd he.mayFail not_mayFail
  case read name size offset =>
    have ⟨ho, hl, _⟩ := of_decide_eq_true h
    apply Outline.FallibleTriple.bind triple_checkInitialized
    intro _
    rw [if_neg (Nat.ne_of_gt hl), checkName_eq ho, pure_bind]
    apply triple_scopedMutex (f := id)
    intro bytes hs
    apply owns.takes_readLocked.weaken (fun _ h => h)
    · rintro data file ⟨hf, rfl, hl⟩
      refine ⟨_, hf, commits_read hs ?_⟩
      rw [List.length_take, List.length_drop] at hl
      omega
    · rintro file ⟨hf, hm⟩
      refine ⟨_, hf, commits_read_none hs ?_⟩
      have := hs name
      rcases hm with hm | hm | he
      · omega
      · exact hm
      · exact absurd he not_mayFail
  case sync name =>
    have ho : name.IsOpened := of_decide_eq_true h
    apply Outline.FallibleTriple.bind (I := fun _ => Outside t (.done _ (some [])))
    case hf => exact fun _ => .pure fun _ _ h => h
    apply Outline.FallibleTriple.bind triple_checkInitialized
    intro _
    rw [checkName_eq ho, pure_bind]
    apply triple_scopedMutex (f := fun _ => [])
    intro bytes hs
    apply owns.takes_syncLocked.weaken (fun _ h => h)
    · exact fun _ file ⟨hf, _⟩ => ⟨_, hf, commits_sync hs⟩
    · exact fun _ ⟨_, he⟩ => absurd he not_mayFail

theorem triple_invoke :
    (outline τ flash).Triple (system τ Call.isAccess) noFault t (Outside t .idle)
      (perform (.invoke c)) fun _ => Outside t (.pending c) := by
  apply Outline.Triple.op stable_outside
  case hk => exact fun _ => .pure fun _ _ h => h
  intro w hi hw _ _ s hm
  cases List.mem_singleton.mp hm
  refine ⟨⟨_, w.trace.invoke hw.status⟩, rfl, ?_, Function.update_self .., hw.mutex⟩
  apply guar_outside
  case hi =>
    refine ⟨hi.initialized, hi.fault, ?_, hi.size, hi.free⟩
    rw [Trace.events_invoke, ← hi.observed]
    exact List.map_append
  case hs => exact fun u hu => Function.update_of_ne hu ..
  case hm => exact fun _ _ => .rfl
  case hf => exact fun _ _ _ => ⟨rfl, rfl⟩

theorem triple_respond (r : Result) :
    (outline τ flash).Triple (system τ Call.isAccess) noFault t (Outside t (.done c r.toOption))
      (perform (.respond c r)) fun _ => Outside t .idle := by
  apply Outline.Triple.op stable_outside
  case hk => exact fun _ => .pure fun _ _ h => h
  intro w hi hw _ _ s hm
  cases List.mem_singleton.mp hm
  refine ⟨⟨_, w.trace.respond hw.status⟩, rfl, ?_, Function.update_self .., hw.mutex⟩
  apply guar_outside
  case hi =>
    refine ⟨hi.initialized, hi.fault, ?_, hi.size, hi.free⟩
    rw [Trace.events_respond, ← hi.observed]
    exact List.map_append
  case hs => exact fun u hu => Function.update_of_ne hu ..
  case hm => exact fun _ _ => .rfl
  case hf => exact fun _ _ _ => ⟨rfl, rfl⟩

theorem triple_serve (h : c.isAccess = true) :
    (outline τ flash).Triple (system τ Call.isAccess) noFault t (Outside t .idle) (serve c)
      fun _ => Outside t .idle := by
  apply Outline.Triple.bind triple_invoke
  intro _
  apply Outline.Triple.bind (triple_runCall h)
  intro r
  cases r
  case ok data => exact triple_respond (.ok data)
  case error e => exact triple_respond (.error e)

theorem valid : (outline τ flash).Valid (system τ Call.isAccess) noFault (Outside · .idle) where
  event _ _ _ _ he  := he.elim
  stable _          := stable_outside
  call t c p hp     := by
    simp only [system] at hp
    split at hp <;> cases hp
    case isTrue h => exact triple_serve h

end Atomicity

open Atomicity

-- Between `init` and `deinit`, the files are independent byte arrays.
theorem linearizable_observed {τ : Type} [DecidableEq τ] {flash : Flash} {p : Pool sig τ (State τ)}
    (h : (system τ Call.isAccess).Reaches noFault (.idle (.init flash)) p) :
    Linearizable Call.apply flash.bytes p.shared.observed := by
  have hi : Inv (⟨.init flash, .init flash.bytes⟩ : World τ flash) :=
    ⟨rfl, rfl, rfl, flash.size, fun _ _ => LfsFile.has_opened⟩
  have ⟨w, hw⟩ := valid.sound hi (fun _ => ⟨rfl, nofun⟩) h
  rw [← hw.shared]
  exact hw.inv.observed ▸ w.trace.linearizable

def Flash.empty : Flash where
  bytes _ := []
  size _  := Nat.zero_le _

-- A task reads what another task is writing when it is called.
theorem linearizable_write_read :
    Linearizable (τ := Bool) Call.apply Flash.empty.bytes [
      .invoke false (.write .password [7] 0), .invoke true (.read .password 1 0),
      .respond false (.write .password [7] 0) (some []),
      .respond true (.read .password 1 0) (some [7])] := by
  have ⟨p, hr, hp⟩ := (system Bool Call.isAccess).exists_reaches_of_run noFault
    (.idle (.init .empty)) (·.observed = [
      .invoke false (.write .password [7] 0), .invoke true (.read .password 1 0),
      .respond false (.write .password [7] 0) (some []),
      .respond true (.read .password 1 0) (some [7])])
    ([.call false (.write .password [7] 0)] ++ List.replicate 9 (.op false 0) ++
      [.call true (.read .password 1 0), .op true 0] ++ List.replicate 8 (.op false 0) ++
      List.replicate 21 (.op true 0))
    (by decide)
  exact of_decide_eq_true hp ▸ linearizable_observed hr

end File
