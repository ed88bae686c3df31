import SecureHome.Boot.Seed

open File (Name)

namespace Boot

namespace Seed

variable {n : ℕ} {e : Entry} {es es' : List Entry} {seed bytes : List UInt8} {b b' : Board}
variable {fault : Option Fault} {r : LfsResult} {allowed : Call → Bool} {P P' : Board → Prop} {α : Type}

-- What only depends on the history, the flash and the open files.
structure Same (b b' : Board) : Prop where
  history       : b'.history = b.history
  partition     : b'.partition = b.partition
  files         : b'.files = b.files

theorem does_mutex {o : Op} (ho : o = .takeMutex ∨ o = .giveMutex) (hP : ∀ b b', Same b b' → P b → P b') :
    Does (Kept n) allowed notReformatted (Live fun s => P s.board) o fun _ => Live fun s => P s.board := by
  refine does fun s r b hi hp _ hs _ => ?_
  rcases ho with rfl | rfl <;> cases hs
  all_goals exact ⟨{ hi with }, hP s.board _ ⟨rfl, rfl, rfl⟩ hp⟩

theorem does_isInitialized :
    Does (Kept n) allowed notReformatted (Live fun s => P s.board) .isInitialized
      fun (r : Bool) => Live fun s => s.board.isInitialized = r ∧ P s.board := by
  refine does (o := .isInitialized) (Q := fun (r : Bool) b => b.isInitialized = r ∧ P b) fun s r b hi hp _ hs _ => ?_
  cases hs
  exact ⟨hi, rfl, hp⟩

-- A program of the drivers that satisfies `R` when it stops with an error, unless the board has
-- stopped.
abbrev Seeds (n : ℕ) (allowed : Call → Bool) (P : Board → Prop) (p : Driver α) (Q : α → Board → Prop)
    (R : Board → Prop) : Prop :=
  Runs (Kept n) allowed notReformatted (Live fun s => P s.board) p
    (fun a => Live fun s => Q a s.board) (Live fun s => R s.board)

theorem seeds_scopedMutex {p : Driver α} {Q : α → Board → Prop} {R : Board → Prop}
    (hp : ∀ b b', Same b b' → P b → P b') (h : Seeds n allowed P p Q R)
    (hq : ∀ a b b', Same b b' → Q a b → Q a b') (hr : ∀ b b', Same b b' → R b → R b') :
    Seeds n allowed P (scopedMutex p) Q R :=
  Runs.scopedMutex (does_mutex (.inl rfl) hp) h (fun a => does_mutex (.inr rfl) (hq a))
    (does_mutex (.inr rfl) hr)

theorem checkName_asconSeed {p : Driver α} : (do File.checkName .asconSeed; p) = p := by
  unfold File.checkName
  rw [if_neg (by simp)]
  rfl

-- The seed is about to be written.
def Writing (seed : List UInt8) (b : Board) : Prop :=
  lastWrite b.history = some seed

structure Placed (seed : List UInt8) (b : Board) : Prop where
  writing : Writing seed b
  pos     : (b.files .asconSeed).pos = 0

structure Wrote (seed : List UInt8) (b : Board) : Prop where
  writing : Writing seed b
  content : (b.files .asconSeed).content = seed
  erred   : (b.files .asconSeed).erred = false

structure Synced (seed : List UInt8) (b : Board) : Prop where
  writing : Writing seed b
  content : (b.files .asconSeed).content = seed
  disk    : b.partition.bytes .asconSeed = seed

theorem Writing.noted (h : Writing seed b) : Writing seed (b.noted fault) :=
  noted_cases h ((lastWrite_silent (e := .fault) trivial).trans h)

theorem Wrote.noted (h : Wrote seed b) : Wrote seed (b.noted fault) :=
  noted_cases h { h with writing := (lastWrite_silent (e := .fault) trivial).trans h.writing }

theorem Synced.noted (h : Synced seed b) : Synced seed (b.noted fault) :=
  noted_cases h { h with writing := (lastWrite_silent (e := .fault) trivial).trans h.writing }

theorem Writing.same (hs : Same b b') (h : Writing seed b) : Writing seed b' := by
  rw [Writing, hs.history]
  exact h

theorem Wrote.same (hs : Same b b') (h : Wrote seed b) : Wrote seed b' where
  writing := h.writing.same hs
  content := hs.files ▸ h.content
  erred   := hs.files ▸ h.erred

theorem Synced.same (hs : Same b b') (h : Synced seed b) : Synced seed b' where
  writing := h.writing.same hs
  content := hs.files ▸ h.content
  disk    := hs.partition ▸ h.disk

theorem does_seek : Does (Kept n) allowed notReformatted (Live fun s => Writing seed s.board)
    (.lfs (.fileSeek .asconSeed (0 : UInt32).toNat))
    fun r => Live fun s => r.1.isOk = true → Placed seed s.board := by
  refine does_lfs (Q := fun r b => r.1.isOk = true → Placed seed b) fun fault b r b' hi hp ha hs => ?_
  cases hs
  case fileSeekError => exact ⟨hi.move rfl rfl, nofun⟩
  case fileSeek      => exact ⟨hi.move rfl rfl, fun _ => ⟨Writing.noted hp, by simp⟩⟩

theorem overlay_seed (hl : bytes.length ≤ seed.length) : bytes.overlay 0 0 seed = seed := by
  rw [List.overlay_of_le (Nat.zero_le _)]
  simp [List.drop_of_length_le hl]

theorem does_fileWrite (hn : seed.length = n) (hm : n ≤ inlineMax) :
    Does (Kept n) allowed notReformatted
      (Live fun s => Placed seed s.board)
      (.lfs (.fileWrite .asconSeed seed)) fun r => Live fun s => r.1 = .ok seed.length → Wrote seed s.board := by
  refine does_lfs (Q := fun r b => r.1 = .ok seed.length → Wrote seed b) fun fault b r b' hi ⟨hw, hp⟩ ha hs => ?_
  have hc := hi.content ha
  have hl : (b.files .asconSeed).content.length ≤ n := by
    rcases length_of_mayHold hi.correct hc with hl | hl
    · simp [hl]
    · exact Nat.le_of_eq hl
  cases hs
  case fileWrite =>
    have hs : ((b.files .asconSeed).write seed).content = seed := by
      rw [Handle.write, hp]
      exact overlay_seed (hn ▸ hl)
    refine ⟨hi.setFile fun _ _ => ?_, fun _ => .noted ⟨hw, by simpa using hs, by simp [Handle.write]⟩⟩
    rw [hs]
    exact mayHold_of_lastWrite hw
  -- The file is kept in its directory entry, so that an error leaves its content alone.
  case fileWriteError content _ _ hc' =>
    have hs : (b.files .asconSeed).IsInline seed.length := by
      rw [Handle.IsInline, hp, hn]
      omega
    refine ⟨hi.setFile fun _ _ => ?_, nofun⟩
    exact (hc' hs).symm ▸ hc

theorem does_fileSync :
    Does (Kept n) allowed notReformatted (Live fun s => Wrote seed s.board)
      (.lfs (.fileSync .asconSeed)) fun r => Live fun s => r.1.isOk = true → Synced seed s.board := by
  refine does_lfs (Q := fun r b => r.1.isOk = true → Synced seed b) fun fault b r b' hi hw ha hs => ?_
  cases hs
  case fileSync          =>
    exact ⟨hi.commit ha, fun _ =>
      .noted ⟨hw.writing, hw.content, by simp [Board.commit, hw.content]⟩⟩
  case fileSyncErred he  => rw [hw.erred] at he; contradiction
  case fileSyncError     => exact ⟨hi.move rfl rfl, fun hr => absurd hr Bool.false_ne_true⟩
  case fileSyncCommitted => exact ⟨(hi.commit ha).move rfl rfl, fun hr => absurd hr Bool.false_ne_true⟩

theorem seeds_tryLfs {c : LfsCall} {err : ErrorT} {Q R : Board → Prop} (hd : Does (Kept n) allowed notReformatted
    (Live fun s => P s.board) (.lfs c)
      fun r => Live fun s => (r.1.isOk = true → Q s.board) ∧ (r.1.isOk = false → R s.board)) :
    Seeds n allowed P (tryLfs c err) (fun _ => Q) R := by
  apply Runs.bind (.perform hd)
  rintro ⟨r, _⟩
  cases r
  case ok    => exact .pure fun _ hs hh => (hs hh).left rfl
  case error => exact .throw fun _ hs hh => (hs hh).right rfl

theorem seeds_checkInitialized {R : Board → Prop} (hr : ∀ b, b.isInitialized = false → P b → R b) :
    Seeds n allowed P File.checkInitialized (fun _ => P) R := by
  apply Runs.bind (.perform does_isInitialized)
  intro isInitialized
  cases isInitialized
  case false => exact .throw fun _ hs hh => hr _ (hs hh).left (hs hh).right
  case true  => exact .pure fun _ hs hh => (hs hh).right

theorem seeds_write (hn : seed.length = n) (h₀ : 0 < n) (hm : n ≤ inlineMax) :
    Seeds n allowed (Writing seed) (File.write .asconSeed seed 0) (fun _ => Wrote seed) fun _ => True := by
  refine Runs.bind (seeds_checkInitialized fun _ _ _ => trivial) fun _ => ?_
  rw [if_neg (by omega), checkName_asconSeed]
  apply seeds_scopedMutex (fun _ _ hs h => h.same hs) _ (fun _ _ _ hs h => h.same hs) fun _ _ _ _ => trivial
  refine Runs.bind (seeds_tryLfs (R := fun _ => True) (does_seek.weaken (fun _ _ hs => hs)
    fun _ _ _ hs hh => ⟨hs hh, fun _ => trivial⟩)) fun _ => ?_
  apply Runs.bind (.perform (does_fileWrite hn hm))
  rintro ⟨ret, _⟩
  dsimp only
  split
  case isTrue     => exact .throw fun _ _ _ => trivial
  case isFalse hr => exact .pure fun _ hs hh => hs hh (not_not.mp hr)

theorem seeds_sync :
    Seeds n allowed (Wrote seed) (File.sync .asconSeed) (fun _ => Synced seed) fun _ => True := by
  refine Runs.bind (seeds_checkInitialized fun _ _ _ => trivial) fun _ => ?_
  rw [checkName_asconSeed]
  apply seeds_scopedMutex (fun _ _ hs h => h.same hs) _ (fun _ _ _ hs h => h.same hs) fun _ _ _ _ => trivial
  exact seeds_tryLfs (does_fileSync.weaken (fun _ _ hs => hs) fun _ _ _ hs hh => ⟨hs hh, fun _ => trivial⟩)

abbrev SeedsTriple (n : ℕ) (allowed : Call → Bool) (P : Board → Prop) (q : Prog sig α)
    (Q : α → Board → Prop) : Prop :=
  (outline (Kept n)).Triple (system allowed) notReformatted () (Live fun s => P s.board) q
    fun a => Live fun s => Q a s.board

theorem does_recordWrite (hn : seed.length = n) :
    Does (Kept n) allowed notReformatted (Live fun _ => True) (.record (.write seed))
      fun _ => Live fun s => Writing seed s.board := by
  refine does (P := fun _ => True) (Q := fun _ => Writing seed) fun s r b hi _ _ hs _ => ?_
  cases hs
  exact ⟨⟨⟨hn, hi.correct⟩, .inr hi.disk, fun ho => .inr (hi.content ho)⟩, rfl⟩

theorem does_recordSaved :
    Does (Kept n) allowed notReformatted (Live fun s => Synced seed s.board) (.record (.saved seed))
      fun _ => Live fun _ => True := by
  refine does (Q := fun _ _ => True) fun s r b hi hp _ hs _ => ?_
  cases hs
  exact ⟨⟨⟨hp.writing, hi.correct⟩, hp.disk, fun _ => hp.content⟩, trivial⟩

theorem triple_storageWrite (hn : seed.length = n) (h₀ : 0 < n) (hm : n ≤ inlineMax) :
    SeedsTriple n allowed (fun _ => True) (Rnd.storageWrite seed) fun _ _ => True := by
  refine .bind (does_recordWrite hn) fun _ => .bind (seeds_write hn h₀ hm) fun r => ?_
  cases r
  case error => exact .pure fun _ _ hs => hs
  case ok    =>
    refine .bind seeds_sync fun r => ?_
    cases r
    case error => exact .pure fun _ _ hs => hs
    case ok    => exact .bind does_recordSaved fun _ => .pure fun _ _ hs => hs

-- The read callback was called.
def Asked (b : Board) : Prop :=
  ∀ es, b.history = .read true :: es → b.isInitialized = true

def Rewound (b : Board) : Prop :=
  (b.files .asconSeed).pos = 0

structure Got (n : ℕ) (bytes : List UInt8) (b : Board) : Prop where
  length  : bytes.length = n
  mayHold : MayHold b.history bytes

def MayFail (b : Board) : Prop :=
  Excused b.history

theorem mayFail_noted (h : fault ≠ none) : MayFail (b.noted fault) := by
  unfold MayFail
  rw [history_noted h]
  nofun

theorem Got.same (hs : Same b b') (h : Got n bytes b) : Got n bytes b' where
  length  := h.length
  mayHold := hs.history ▸ h.mayHold

theorem Got.noted (h : Got n bytes b) : Got n bytes (b.noted fault) :=
  noted_cases h ⟨h.length, mayHold_silent (e := .fault) trivial h.mayHold⟩

theorem does_recordRead :
    Does (Kept n) allowed notReformatted (Live fun _ => True) .recordRead
      fun _ => Live fun s => Asked s.board := by
  refine does (P := fun _ => True) (Q := fun _ => Asked) fun s r b hi _ _ hs _ => ?_
  cases hs
  exact ⟨hi.record (e := .read _) trivial, fun _ he => Entry.read.inj (List.cons.inj he).left⟩

theorem does_seek_read :
    Does (Kept n) allowed notReformatted (Live fun _ => True) (.lfs (.fileSeek .asconSeed (0 : UInt32).toNat))
      fun r => Live fun s => (r.1.isOk = true → Rewound s.board) ∧ (r.1.isOk = false → MayFail s.board) := by
  refine does_lfs (P := fun _ => True)
    (Q := fun r b => (r.1.isOk = true → Rewound b) ∧ (r.1.isOk = false → MayFail b))
    fun fault b r b' hi hp ha hs => ?_
  cases hs
  case fileSeek            => exact ⟨hi.move rfl rfl, fun _ => by simp [Rewound], nofun⟩
  case fileSeekError _ _ hf =>
    refine ⟨hi.move rfl rfl, nofun, fun _ => mayFail_noted ?_⟩
    rcases hf with hf | hf
    · exact absurd hf (by decide)
    · exact hf

-- Without a fault, the file that is read has the size of a seed once a seed was saved.
theorem does_fileRead (h₀ : 0 < n) :
    Does (Kept n) allowed notReformatted (Live fun s => Rewound s.board) (.lfs (.fileRead .asconSeed n))
      fun r => Live fun s => (r.1 = .ok n → Got n r.2 s.board) ∧ (r.1 ≠ .ok n → MayFail s.board) := by
  refine does_lfs (Q := fun r b => (r.1 = .ok n → Got n r.2 b) ∧ (r.1 ≠ .ok n → MayFail b))
    fun fault b r b' hi hp ha hs => ?_
  have hp : (b.files .asconSeed).pos = 0 := hp
  have hc := hi.content ha
  have hl := length_of_mayHold hi.correct hc
  cases hs
  case fileReadError hf _ => exact ⟨hi.move rfl rfl, nofun, fun _ => mayFail_noted hf⟩
  case fileRead bytes hf hb =>
    rw [hp, List.drop_zero] at hb
    refine ⟨hi.move rfl rfl, fun hr => .noted ⟨Except.ok.inj hr, ?_⟩, fun hr => ?_⟩
    case refine_1 =>
      have hn : bytes.length = n := Except.ok.inj hr
      rcases hl with hl | hl
      · rw [hb, hl, List.take_nil] at hn
        exact absurd hn (Nat.ne_of_lt h₀)
      · rw [List.take_of_length_le (Nat.le_of_eq hl)] at hb
        exact hb ▸ hc
    case refine_2 =>
      subst hf
      intro es he seed hs
      have hs : .saved seed ∈ b.history := by
        have he : b.history = .read true :: es := he
        exact he ▸ List.mem_cons_of_mem _ hs
      have hn := length_of_saved hi.correct hc hs
      rw [hb, List.take_of_length_le (Nat.le_of_eq hn)] at hr
      exact hr (congrArg Except.ok hn)

theorem seeds_read (h₀ : 0 < n) :
    Seeds n allowed Asked (File.read .asconSeed n 0) (Got n) MayFail := by
  have hr : ∀ b, b.isInitialized = false → Asked b → MayFail b :=
    fun b hf ha es he => absurd (hf.symm.trans (ha es he)) nofun
  have hs : ∀ b b', Same b b' → MayFail b → MayFail b' := fun _ _ hs h => by
    rw [MayFail, hs.history]
    exact h
  refine Runs.bind (seeds_checkInitialized hr) fun _ => ?_
  rw [if_neg (by omega), checkName_asconSeed]
  suffices hd : Seeds n allowed (fun _ => True) _ (Got n) MayFail from hd.pre fun _ _ _ => trivial
  apply seeds_scopedMutex (P := fun _ => True) (fun _ _ _ h => h) _ (fun _ _ _ hs h => h.same hs) hs
  refine Runs.bind (seeds_tryLfs (P := fun _ => True)
    (does_seek_read.weaken (fun _ _ hs => hs) fun _ _ _ hs => hs)) fun _ => ?_
  refine Runs.bind (.perform (does_fileRead h₀)) ?_
  rintro ⟨ret, bytes⟩
  dsimp only
  split
  case isTrue hn  => exact .throw fun _ hs hh => (hs hh).right hn
  case isFalse hn => exact .pure fun _ hs hh => (hs hh).left (not_not.mp hn)

theorem does_recordLoaded :
    Does (Kept n) allowed notReformatted (Live fun s => Got n bytes s.board) (.record (.loaded bytes))
      fun _ => Live fun _ => True := by
  refine does (Q := fun _ _ => True) fun s r b hi hp _ hs _ => ?_
  cases hs
  exact ⟨⟨⟨⟨hp.length, hp.mayHold⟩, hi.correct⟩, hi.disk, hi.content⟩, trivial⟩

theorem does_recordNotLoaded :
    Does (Kept n) allowed notReformatted (Live fun s => MayFail s.board) (.record .notLoaded)
      fun _ => Live fun _ => True := by
  refine does (Q := fun _ _ => True) fun s r b hi hp _ hs _ => ?_
  cases hs
  exact ⟨⟨⟨hp, hi.correct⟩, hi.disk, hi.content⟩, trivial⟩

theorem triple_storageRead (h₀ : 0 < n) :
    SeedsTriple n allowed (fun _ => True) (Rnd.storageRead n) fun _ _ => True := by
  refine .bind does_recordRead fun _ => .bind (seeds_read h₀) fun r => ?_
  cases r
  case error => exact .bind does_recordNotLoaded fun _ => .pure fun _ _ hs => hs
  case ok    => exact .bind does_recordLoaded fun _ => .pure fun _ _ hs => hs

theorem runs_safe {p : Driver α} (hp : Fallible.Uses Safe p) :
    Seeds n allowed (fun _ => True) p (fun _ _ => True) fun _ => True :=
  .of_uses hp fun _ ho => does_safe ho

-- The system seed has the size of the seeds that are saved.
theorem does_randomFetch :
    Does (Kept n) allowed notReformatted (Live fun _ => True) .randomFetch
      fun (seed : List UInt8) _ => seed.length = Ascon.randomSavedSeedSize := by
  refine Does.of_performs (o := .randomFetch) (stable_live (stable_board (P := fun _ => True)))
    fun s r b hi _ _ _ hs => ?_
  cases hs
  exact ⟨hi, s.env.output.length_toList⟩

theorem triple_randomLoadSeed :
    SeedsTriple Ascon.randomSavedSeedSize allowed (fun _ => True) Rnd.randomLoadSeed fun _ _ => True := by
  have h₀ : 0 < Ascon.randomSavedSeedSize := by decide
  refine .bind (triple_storageRead h₀) fun _ => .bind (does_safe (o := .trngGenerate) trivial) fun _ => ?_
  refine .bind does_randomFetch fun seed s hi hn => ?_
  have hw {a : Int} : SeedsTriple _ allowed (fun _ => True) (do let _ ← Rnd.storageWrite seed; return a)
      fun _ _ => True :=
    (triple_storageWrite hn h₀ (by decide)).bind fun _ => .pure fun _ _ hs => hs
  exact hw s hi fun _ => trivial

theorem seeds_seedGenerator :
    Seeds Ascon.randomSavedSeedSize allowed (fun _ => True) Rnd.seedGenerator (fun _ _ => True) fun _ => True := by
  apply Runs.bind (runs_safe (Statements.uses_perform (o := .trngGenerate) trivial))
  intro ok
  cases ok
  case false => exact .throw fun _ hs => hs
  case true  =>
    apply Runs.bind (.lift triple_randomLoadSeed)
    intro rc
    split
    case isTrue  => exact .throw fun _ hs => hs
    case isFalse => exact .pure fun _ hs => hs

-- The calls that do not write the seed and are not callbacks.
def Other : Call → Prop
  | .write name _ _                             => name ≠ .asconSeed
  | .storageRead _ | .storageWrite _ | .rndInit => False
  | _                                           => True

theorem safe_of_other {c : Call} {o : Op} (hc : Other c) (ho : o.Of c) : Safe o := by
  cases o
  case record e => cases e <;> cases c <;> simp_all [Op.Of, Safe, Silent, Other]
  case lfs l =>
    cases l
    case fileWrite name _ =>
      cases c <;> simp_all [Op.Of, LfsCall.Of, Call.Writes, Safe, Quiet, Other]
    all_goals trivial
  all_goals trivial

theorem seeds_rndInit :
    Seeds Ascon.randomSavedSeedSize allowed (fun _ => True) Rnd.init (fun _ _ => True) fun _ => True := by
  have hp {o : Op} (ho : Safe o) : Fallible.Uses Safe (perform o) := Statements.uses_perform ho
  have hg : Fallible.Uses Safe File.getBootCycleCount :=
    (Statements.uses_getBootCycleCount (c := .getBootCycleCount)).weaken fun _ => safe_of_other trivial
  have ha (count : UInt32) : Fallible.Uses Safe (Rnd.awaitJitter count) := by
    unfold Rnd.awaitJitter
    split
    case isTrue  => exact hp (o := .delay) trivial
    case isFalse => exact .pure
  apply Runs.bind (runs_safe (hp (o := .rndIsInitialized) trivial))
  intro isInitialized
  cases isInitialized
  case true  => exact .throw fun _ hs => hs
  case false =>
    apply Runs.bind (runs_safe (Statements.uses_tryHal (hp (o := .halInit) trivial)))
    intro _
    apply Runs.bind (runs_safe (Statements.uses_tryHal (hp (o := .rtcSetSecondIt) trivial)))
    intro _
    apply Runs.bind (runs_safe (hp (o := .enableRtcIrq) trivial))
    intro _
    apply Runs.bind (runs_safe (.tryCatch hg fun _ => .throw))
    intro count
    apply Runs.bind (runs_safe (ha count))
    intro _
    apply Runs.bind seeds_seedGenerator
    exact fun _ => runs_safe (hp (o := .rndSetInitialized) trivial)

theorem triple_serve (h₀ : 0 < n) (hm : n ≤ inlineMax) {c : Call} (hc : seedCalls n c = true) :
    SeedsTriple n allowed (fun _ => True) (serve c) fun _ _ => True := by
  have hl {q : Driver Unit} (hq : Seeds n allowed (fun _ => True) q (fun _ _ => True) fun _ => True) :
      SeedsTriple n allowed (fun _ => True) (do let _ ← q.run) fun _ _ => True :=
    Outline.Triple.bind hq fun r => .pure fun _ _ hr => by cases r <;> exact hr
  have ho (hs : Other c) : SeedsTriple n allowed (fun _ => True) (serve c) fun _ _ => True :=
    hl (runs_safe ((Statements.uses_runCall c).weaken fun _ => safe_of_other hs))
  cases c
  case storageRead size =>
    have hn : size = n := of_decide_eq_true hc
    subst hn
    exact hl (.bind (.lift (triple_storageRead h₀)) fun _ => .pure fun _ hs => hs)
  case storageWrite seed =>
    exact hl (.bind (.lift (triple_storageWrite (of_decide_eq_true hc) h₀ hm)) fun _ => .pure fun _ hs => hs)
  case rndInit =>
    have hn : n = Ascon.randomSavedSeedSize := of_decide_eq_true hc
    subst hn
    exact hl seeds_rndInit
  case write name _ _ =>
    have hn : name ≠ .asconSeed := of_decide_eq_true hc
    exact ho hn
  all_goals exact ho trivial

end Seed

open Seed

-- The read callback returns a seed as a whole: the last one that was saved or one that was written
-- later. When no call of LittleFS fails, it does return one if there is one.
theorem loaded_of_saved {n : ℕ} {s₀ : State} {p : Pool sig Unit State} (h₀ : 0 < n) (hm : n ≤ inlineMax)
    (hh : s₀.board.history = []) (hb : s₀.board.partition.bytes .asconSeed = [])
    (h : (system (seedCalls n)).Survives State.powerUp notReformatted (.idle s₀.powerUp) p) :
    (∀ es' bytes es, p.shared.board.history = es' ++ .loaded bytes :: es →
      .write bytes ∈ es ∧ ∀ xs seed ys, es = xs ++ .saved seed :: ys → bytes = seed ∨ .write bytes ∈ xs) ∧
    ∀ es' es, p.shared.board.history = es' ++ .notLoaded :: .read true :: es → ∀ seed, .saved seed ∉ es := by
  have hi : Kept n s₀.powerUp.board := by
    have hh : s₀.powerUp.board.history = [] := hh
    refine ⟨?_, ?_, nofun⟩ <;> rw [hh]
    · trivial
    · exact hb
  have hs := Survives.sound (J := Live fun _ => True) h (fun c hc => triple_serve h₀ hm hc)
    (stable_live (stable_board (P := fun _ => True))) (fun s hi => ⟨{ hi with content := nofun }, fun _ => trivial⟩)
    ⟨hi, fun _ => trivial⟩
  have hc : Correct n p.shared.board.history := hs.inv.correct
  refine ⟨fun es' bytes es he => ?_, fun es' es he => ?_⟩ <;> rw [he] at hc
  case refine_1 =>
    have ⟨⟨hl, hw⟩, hc⟩ := hc.of_append
    refine ⟨(write_mem_of_mayHold hc hw).resolve_left fun hn => ?_, fun xs seed ys hx => ?_⟩
    · rw [hn] at hl
      exact absurd hl (Nat.ne_of_lt h₀)
    · subst hx
      exact mayHold_append hc hw
  case refine_2 => exact hc.of_append.left es rfl

-- A seed that is loaded after the power was lost, right after it was saved.
def savedAndLoaded (seed : List UInt8) : List (Option (Pool.Label Unit Call Event)) :=
  firstInit ++ some (.call () (.storageWrite seed)) :: .replicate 11 (some (.op () 0)) ++
    none :: some (.call () .init) :: .replicate 16 (some (.op () 0)) ++
      some (.call () (.storageRead seed.length)) :: .replicate 7 (some (.op () 0))

theorem loaded_of_powerLoss : ∃ p : Pool sig Unit State,
    .loaded (.replicate Ascon.randomSavedSeedSize 7) ∈ p.shared.board.history ∧
    (∀ es' bytes es, p.shared.board.history = es' ++ .loaded bytes :: es →
      .write bytes ∈ es ∧ ∀ xs seed ys, es = xs ++ .saved seed :: ys → bytes = seed ∨ .write bytes ∈ xs) ∧
    ∀ es' es, p.shared.board.history = es' ++ .notLoaded :: .read true :: es → ∀ seed, .saved seed ∉ es := by
  have ⟨p, h, hp⟩ := (system (seedCalls Ascon.randomSavedSeedSize)).exists_survives_of_run State.powerUp
    notReformatted (.idle State.virgin.powerUp)
    (fun p => .loaded (.replicate Ascon.randomSavedSeedSize 7) ∈ p.shared.board.history)
    (savedAndLoaded (.replicate Ascon.randomSavedSeedSize 7)) (by decide +kernel)
  exact ⟨p, of_decide_eq_true hp, loaded_of_saved (by decide) (by decide) rfl rfl h⟩

end Boot
