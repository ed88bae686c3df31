import SecureHome.Boot.Statements

open File (Name)

namespace Boot

-- The partition is not formatted again once a seed was written.
def Entry.isWrite : Entry → Bool
  | .write _ => true
  | _        => false

def Op.isFormat : Op → Bool
  | .lfs .format => true
  | _            => false

def notReformatted : Pool.Cond sig Unit Event State where
  op _ o s  := o.isFormat = true → ∀ e ∈ s.board.history, e.isWrite = false
  event _ _ := True

instance (t : Unit) (o : Op) (s : State) : Decidable (notReformatted.op t o s) :=
  inferInstanceAs (Decidable (o.isFormat = true → ∀ e ∈ s.board.history, e.isWrite = false))

instance (e : Event) (s : State) : Decidable (notReformatted.event e s) :=
  inferInstanceAs (Decidable True)

-- The calls that do not write the seed, except for the callbacks. All seeds have the same size.
def seedCalls (n : ℕ) : Call → Bool
  | .write name _ _     => name ≠ .asconSeed
  | .storageRead size   => size = n
  | .storageWrite seed  => seed.length = n
  | .rndInit            => n = Ascon.randomSavedSeedSize
  | _                   => true

-- What the file of the seed may hold.
def MayHold : List Entry → List UInt8 → Prop
  | [], bytes                => bytes = []
  | .write seed :: es, bytes => bytes = seed ∨ MayHold es bytes
  | .saved seed :: _, bytes  => bytes = seed
  | _ :: es, bytes           => MayHold es bytes

-- The seed that was written last, unless it was saved.
def lastWrite : List Entry → Option (List UInt8)
  | []               => none
  | .write seed :: _ => some seed
  | .saved _ :: _    => none
  | _ :: es          => lastWrite es

-- The read callback may fail if the module was not initialised, if a call of LittleFS has failed, or
-- if no seed was saved.
def Excused (es : List Entry) : Prop :=
  ∀ es', es = .read true :: es' → ∀ seed, .saved seed ∉ es'

namespace Seed

-- The callbacks do what they are supposed to do.
def Correct (n : ℕ) : List Entry → Prop
  | []                 => True
  | .write seed :: es  => seed.length = n ∧ Correct n es
  | .saved seed :: es  => lastWrite es = some seed ∧ Correct n es
  | .loaded seed :: es => (seed.length = n ∧ MayHold es seed) ∧ Correct n es
  | .notLoaded :: es   => Excused es ∧ Correct n es
  | _ :: es            => Correct n es

-- The entries that are not about the seed.
def Silent : Entry → Prop
  | .write _ | .saved _ | .loaded _ | .notLoaded => False
  | _                                            => True

variable {n : ℕ} {e : Entry} {es es' : List Entry} {seed bytes : List UInt8}

theorem Correct.silent (he : Silent e) (h : Correct n es) : Correct n (e :: es) := by
  cases e <;> first | contradiction | exact h

theorem mayHold_silent (he : Silent e) (h : MayHold es bytes) : MayHold (e :: es) bytes := by
  cases e <;> first | contradiction | exact h

theorem lastWrite_silent (he : Silent e) : lastWrite (e :: es) = lastWrite es := by
  cases e <;> first | contradiction | rfl

theorem Correct.of_append (h : Correct n (es' ++ es)) : Correct n es := by
  induction es'
  case nil => exact h
  case cons e _ hi =>
    apply hi
    cases e <;> first | exact h | exact h.right

theorem mayHold_of_lastWrite (h : lastWrite es = some seed) : MayHold es seed := by
  induction es
  case nil => contradiction
  case cons e es hi =>
    cases e
    case write => exact .inl (Option.some.inj h).symm
    case saved => contradiction
    all_goals exact hi h

theorem write_mem_of_lastWrite (h : lastWrite es = some seed) : .write seed ∈ es := by
  induction es
  case nil => contradiction
  case cons e es hi =>
    cases e
    case write => exact Option.some.inj h ▸ List.mem_cons_self ..
    case saved => contradiction
    all_goals exact List.mem_cons_of_mem _ (hi h)

theorem write_mem_of_lastWrite_append (h : lastWrite (es' ++ .saved bytes :: es) = some seed) :
    .write seed ∈ es' := by
  induction es'
  case nil => contradiction
  case cons e es' hi =>
    cases e
    case write => exact Option.some.inj h ▸ List.mem_cons_self ..
    case saved => contradiction
    all_goals exact List.mem_cons_of_mem _ (hi h)

-- Only a seed that was written may be there.
theorem write_mem_of_mayHold (hc : Correct n es) (h : MayHold es bytes) :
    bytes = [] ∨ .write bytes ∈ es := by
  induction es
  case nil => exact .inl h
  case cons e es hi =>
    cases e
    case write =>
      rcases h with rfl | h
      · exact .inr (List.mem_cons_self ..)
      · exact (hi hc.right h).imp_right (List.mem_cons_of_mem _)
    case saved =>
      have h : bytes = _ := h
      exact .inr (List.mem_cons_of_mem _ (h ▸ write_mem_of_lastWrite hc.left))
    case loaded | notLoaded => exact (hi hc.right h).imp_right (List.mem_cons_of_mem _)
    all_goals exact (hi hc h).imp_right (List.mem_cons_of_mem _)

-- After a seed was saved, it is there or one that was written later.
theorem mayHold_append (hc : Correct n (es' ++ .saved seed :: es))
    (h : MayHold (es' ++ .saved seed :: es) bytes) : bytes = seed ∨ .write bytes ∈ es' := by
  induction es'
  case nil => exact .inl h
  case cons e es' hi =>
    cases e
    case write =>
      rcases h with rfl | h
      · exact .inr (List.mem_cons_self ..)
      · exact (hi hc.right h).imp_right (List.mem_cons_of_mem _)
    case saved =>
      have h : bytes = _ := h
      exact .inr (List.mem_cons_of_mem _ (h ▸ write_mem_of_lastWrite_append hc.left))
    case loaded | notLoaded => exact (hi hc.right h).imp_right (List.mem_cons_of_mem _)
    all_goals exact (hi hc h).imp_right (List.mem_cons_of_mem _)

theorem length_of_write_mem (hc : Correct n es) (h : .write seed ∈ es) : seed.length = n := by
  have ⟨_, _, he⟩ := List.mem_iff_append.mp h
  subst he
  exact hc.of_append.left

theorem length_of_mayHold (hc : Correct n es) (h : MayHold es bytes) :
    bytes = [] ∨ bytes.length = n :=
  (write_mem_of_mayHold hc h).imp_right (length_of_write_mem hc)

theorem length_of_saved (hc : Correct n es) (h : MayHold es bytes) (hs : .saved seed ∈ es) :
    bytes.length = n := by
  have ⟨_, _, he⟩ := List.mem_iff_append.mp hs
  subst he
  rcases mayHold_append hc h with rfl | hw
  case inl =>
    have hw := write_mem_of_lastWrite hc.of_append.left
    exact length_of_write_mem hc (List.mem_append_right _ (List.mem_cons_of_mem _ hw))
  case inr => exact length_of_write_mem hc (List.mem_append_left _ hw)

theorem mayHold_nil (hc : Correct n es) (hw : ∀ e ∈ es, e.isWrite = false) : MayHold es [] := by
  induction es
  case nil => rfl
  case cons e es hi =>
    have hw' : ∀ e ∈ es, e.isWrite = false := fun e he => hw e (List.mem_cons_of_mem _ he)
    cases e
    case write => exact absurd (hw _ (List.mem_cons_self ..)) nofun
    case saved => exact absurd (hw' _ (write_mem_of_lastWrite hc.left)) nofun
    case loaded | notLoaded => exact hi hc.right hw'
    all_goals exact hi hc hw'

-- The invariant. A file that is open may be committed at any time.
structure Kept (n : ℕ) (b : Board) : Prop where
  correct : Correct n b.history
  disk    : MayHold b.history (b.partition.bytes .asconSeed)
  content : (b.files .asconSeed).isOpen = true → MayHold b.history (b.files .asconSeed).content

variable {b b' : Board} {name : Name} {file : Handle} {fault : Option Fault} {r : LfsResult}

theorem Kept.record (he : Silent e) (h : Kept n b) : Kept n (b.record e) where
  correct    := h.correct.silent he
  disk       := mayHold_silent he h.disk
  content ho := mayHold_silent he (h.content ho)

theorem Kept.setFile (h : Kept n b)
    (hf : name = .asconSeed → file.isOpen = true → MayHold b.history file.content) :
    Kept n (b.setFile name file) where
  correct := h.correct
  disk    := h.disk
  content := by
    by_cases hn : name = .asconSeed
    case pos => subst hn; simpa [Board.setFile] using hf rfl
    case neg => simpa [Board.setFile, Function.update_of_ne (Ne.symm hn)] using h.content

theorem Kept.close (h : Kept n b) : Kept n (b.setFile name .closed) :=
  h.setFile fun _ => nofun

-- A file that stays as it is but for its position and the like.
theorem Kept.move (h : Kept n b) (ho : file.isOpen = (b.files name).isOpen)
    (hc : file.content = (b.files name).content) : Kept n (b.setFile name file) := by
  refine h.setFile fun hn hf => ?_
  subst hn
  exact hc ▸ h.content (ho.symm.trans hf)

theorem Kept.commit (h : Kept n b) (ho : (b.files name).isOpen = true) : Kept n (b.commit name) where
  correct := h.correct
  content := h.content
  disk    := by
    by_cases hn : name = .asconSeed
    case pos => subst hn; simpa [Board.commit] using h.content ho
    case neg => simpa [Board.commit, Function.update_of_ne (Ne.symm hn)] using h.disk

theorem Kept.lfsInit (h : Kept n b) : Kept n b.lfsInit :=
  { h with content := nofun }

-- The calls of LittleFS that do not write the seed.
def Quiet : LfsCall → Prop
  | .fileWrite name _ => name ≠ .asconSeed
  | _                 => True

theorem Kept.performs {c : LfsCall} (hq : Quiet c) (h : Kept n b) (ha : c.Asserts b)
    (hf : c = .format → ∀ e ∈ b.history, e.isWrite = false) (hp : c.Performs fault b r b') : Kept n b' := by
  cases hp
  case mount         => exact { h.lfsInit with }
  case mountError    => exact h.lfsInit
  case unmount       => exact { h with }
  case fileOpenError => exact h
  case fileOpen name _ => exact h.setFile fun hn _ => hn ▸ h.disk
  case format =>
    have hn : MayHold b.history [] := mayHold_nil h.correct (hf rfl)
    exact { h.lfsInit.record (e := .format) trivial with disk := hn }
  case formatError hp =>
    have hn : MayHold b.history [] := mayHold_nil h.correct (hf rfl)
    refine { h.lfsInit.record (e := .format) trivial with disk := ?_ }
    rcases hp with rfl | rfl | rfl
    · exact h.disk
    · exact hn
    · exact hn
  case fileClose | fileCloseCommitted    => exact (h.commit ha).close
  case fileCloseErred | fileCloseError   => exact h.close
  case fileSync                          => exact h.commit ha
  case fileSyncErred                     => exact h
  case fileSyncCommitted                 => exact (h.commit ha).move rfl rfl
  case fileWrite | fileWriteError        => exact h.setFile fun hn => absurd hn hq
  all_goals exact h.move rfl rfl

-- The statements that do not write the seed, nor say that it was saved or loaded.
def Safe : Op → Prop
  | .lfs c    => Quiet c
  | .record e => Silent e
  | _         => True

variable {allowed : Call → Bool} {P P' : Board → Prop} {α : Type}

theorem does {o : Op} {Q : sig.Ret o → Board → Prop}
    (h : ∀ s r b, Kept n s.board → P s.board → notReformatted.op () o s → o.Performs s.env s.board r b →
      b.halted = false → Kept n b ∧ Q r b) :
    Does (Kept n) allowed notReformatted (Live fun s => P s.board) o fun r => Live fun s => Q r s.board :=
  .live stable_board (fun _ hi => { hi with }) fun s r b hi hp hc ho hb => h s r b hi hp hc ho hb

theorem Kept.safe {o : Op} {s : State} {r : sig.Ret o} (hs : Safe o) (h : Kept n s.board)
    (hc : notReformatted.op () o s) (hp : o.Performs s.env s.board r b) : Kept n b := by
  cases hp
  case record  => exact h.record hs
  case halt    => exact { h with }
  case lfs c _ _ ha hl =>
    have h' := h.performs hs ha (fun hf => hc (by subst hf; rfl)) hl
    exact noted_cases (A := Kept n) h' (h'.record (e := .fault) trivial)
  case recordInitialized => exact h.record (e := .initialized _ _) trivial
  case recordRead        => exact h.record (e := .read _) trivial
  case trngGenerate      => exact h.record (e := .seeded _ _) trivial
  all_goals exact { h with }

theorem does_safe {o : Op} (hs : Safe o) :
    Does (Kept n) allowed notReformatted (Live fun _ => True) o fun _ => Live fun _ => True :=
  does (P := fun _ => True) (Q := fun _ _ => True) fun _ _ _ hi _ hc ho _ => ⟨hi.safe hs hc ho, trivial⟩

theorem does_lfs {c : LfsCall} {Q : LfsResult → Board → Prop}
    (h : ∀ fault b r b', Kept n b → P b → c.Asserts b → c.Performs fault b r b' →
      Kept n b' ∧ Q r (b'.noted fault)) :
    Does (Kept n) allowed notReformatted (Live fun s => P s.board) (.lfs c)
      fun r => Live fun s => Q r s.board := by
  refine does fun s r b hi hp _ ho hb => ?_
  cases ho
  case halt      => contradiction
  case lfs ha hl =>
    have ⟨hi, hq⟩ := h s.env.fault s.board r _ hi hp ha hl
    exact ⟨noted_cases (A := Kept n) hi (hi.record (e := .fault) trivial), hq⟩

end Seed

end Boot
