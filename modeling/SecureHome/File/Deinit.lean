import SecureHome.File.Littlefs
import SecureHome.File.Statements
import SecureHome.Lib.Teardown

open Prog Teardown

namespace File

-- What the statements have to do with the files that `deinit` closes.
def act : Bool → (o : Op) → sig.Ret o → Act
  | _, .invoke _, _          => .other
  | _, .respond .., _        => .leave
  | _, .isInitialized, r     => .check r
  | _, .resetInitialized, _  => .reset
  | _, .takeMutex, _         => .take true
  | _, .giveMutex, _         => .give
  | _, .deleteMutex, _       => .delete
  | true, .access .., some _ => .fail
  | true, _, _               => .tear
  | false, _, _              => .use

-- The calls other than `deinit` use files that are open during normal operation, and leave them open.
def Op.Fits : Bool → Op → Prop
  | false, .assertOpen name | false, .loadErred name | false, .load name => name.IsOpened
  | false, .isCached name | false, .access name _ => name.IsOpened
  | false, .update name f => name.IsOpened ∧ ∀ file, (f file).isOpen = file.isOpen
  | _, _                  => True

def usage : Usage sig Call where
  tears c := c = .deinit
  act     := act
  Fits    := Op.Fits

def State.view {τ : Type} (s : State τ) : View τ where
  flag   := s.isInitialized
  owner  :=
    match s.mutex with
    | .heldBy t => some (t, 0)
    | _         => none
  alive  := s.mutex ≠ .deleted
  intact := ∀ name, name.IsOpened → (s.files name).isOpen = true

-- What the statement is about exists. The file system is only unmounted after all files are closed.
def State.Permits {τ : Type} (s : State τ) : Op → Prop
  | .takeMutex | .giveMutex => s.mutex ≠ .deleted
  | .assertOpen name | .loadErred name | .load name | .update name _ | .isCached name | .access name _ =>
    (s.files name).isOpen = true
  | _ => True

instance {τ : Type} [DecidableEq τ] (s : State τ) : DecidablePred s.Permits
  | .takeMutex | .giveMutex => inferInstanceAs (Decidable (s.mutex ≠ .deleted))
  | .assertOpen name | .loadErred name | .load name | .update name _ | .isCached name | .access name _ =>
    inferInstanceAs (Decidable ((s.files name).isOpen = true))
  | .invoke _ | .respond .. | .isInitialized | .resetInitialized | .deleteMutex =>
    inferInstanceAs (Decidable True)

namespace Deinit

variable {α : Type} {name : Name} {p : Fallible sig ErrorT α} {b : Bool}

-- A statement that takes a call from one point to another.
theorem obeys_statement {o : Op} {phase : Phase} {phase' : sig.Ret o → Phase} (hf : o.Fits b)
    (ha : ∀ r, phase.Allows (act b o r)) (hn : ∀ r, phase.next (act b o r) = phase' r) :
    (perform o).Obeys usage.monitor (AtPhase b phase) fun r => AtPhase b (phase' r) :=
  usage.obeys_perform hf ha hn

theorem obeys_isInitialized :
    FallibleObeys usage.monitor (AtPhase b .outside) checkInitialized (fun _ => AtPhase b .checked)
      fun _ => AtPhase b .outside := by
  have hi : (perform .isInitialized).Obeys usage.monitor (AtPhase b .outside)
      fun r => AtPhase b (if r then .checked else .outside) :=
    obeys_statement (by cases b <;> trivial) (fun _ => by cases b <;> trivial) fun r => by
      cases b <;> cases r <;> rfl
  refine .bind (.lift hi) fun r => ?_
  cases r
  case false => exact .throw fun _ hm => hm
  case true  => exact .pure fun _ hm => hm

theorem obeys_scopedMutex {phase phase' : Phase}
    (h : FallibleObeys usage.monitor (AtPhase b (.inside 0)) p (fun _ => AtPhase b phase)
      fun _ => AtPhase b phase') (ha : phase.Allows .give) (ha' : phase'.Allows .give) :
    FallibleObeys usage.monitor (AtPhase b .checked) (scopedMutex p) (fun _ => AtPhase b (phase.next .give))
      fun _ => AtPhase b (phase'.next .give) := by
  have ht : (perform .takeMutex).Obeys usage.monitor (AtPhase b .checked)
      fun _ => AtPhase b (.inside 0) :=
    obeys_statement (by cases b <;> trivial) (fun _ => by cases b <;> trivial) fun _ => by cases b <;> rfl
  have hg {phase : Phase} (ha : phase.Allows .give) : (perform .giveMutex).Obeys usage.monitor
      (AtPhase b phase) fun _ => AtPhase b (phase.next .give) :=
    obeys_statement (by cases b <;> trivial) (fun _ => by cases b <;> exact ha) fun _ => by cases b <;> rfl
  refine Obeys.bind ht fun _ => Obeys.bind h fun r => ?_
  cases r
  case ok    => exact Obeys.bind (hg ha) fun _ => .pure fun _ hm => hm
  case error => exact Obeys.bind (hg ha') fun _ => .pure fun _ hm => hm

-- A call that has not taken the mutex yet.
theorem obeys_checkName :
    FallibleObeys usage.monitor (AtPhase b .checked) (checkName name)
      (fun _ m => AtPhase b .checked m ∧ name.IsOpened) fun _ => AtPhase b .checked := by
  unfold checkName
  split
  case isTrue     => exact .throw fun _ hm => hm
  case isFalse hn =>
    refine .pure fun _ hm => ⟨hm, ?_⟩
    cases name
    case counter | count => simp at hn
    all_goals trivial

theorem act_of_ofFile {o : Op} (ho : OfFile name o) (r : sig.Ret o) : act false o r = .use := by
  cases o <;> first | rfl | cases ho

-- What a call other than `deinit` does with a file while it holds the mutex.
theorem obeys_locked (h : Fallible.Uses (OfFile name) p) (hn : name.IsOpened) :
    FallibleObeys usage.monitor (AtPhase false (.inside 0)) p (fun _ => AtPhase false (.inside 0))
      fun _ => AtPhase false (.inside 0) := by
  have ha (o : Op) (ho : OfFile name o) : Op.Fits false o := by
    cases o <;> first | (cases (ho : _ = name); exact hn) | cases ho
    case update.intro he hf => exact ⟨he ▸ hn, hf⟩
  have hp : p.run.Obeys usage.monitor (AtPhase false (.inside 0)) fun _ => AtPhase false (.inside 0) := by
    refine .of_uses h (fun o m ho hm => hm ▸ ⟨ha o ho, fun r => ?_⟩) fun o m r ho hm => ?_
    case refine_1 =>
      change Phase.Allows _ (act false o r)
      rw [act_of_ofFile ho]
      trivial
    case refine_2 =>
      cases hm
      change (false, Phase.next _ (act false o r)) = _
      rw [act_of_ofFile ho]
      rfl
  refine Obeys.weaken hp (fun _ hm => hm) fun r _ hm => ?_
  cases r <;> exact hm

theorem guards_checkInitialized
    (h : FallibleObeys usage.monitor (AtPhase false .checked) p (fun _ => Returned false)
      fun _ => Returned false) : usage.Guards false (do checkInitialized; p) := by
  refine .bind (obeys_isInitialized.errors fun _ _ => .inl) ?_
  exact fun _ => h

theorem obeys_checkedName (h : Fallible.Uses (OfFile name) p) :
    FallibleObeys usage.monitor (AtPhase false .checked) (do checkName name; scopedMutex p)
      (fun _ => Returned false) fun _ => Returned false := by
  refine .bind (obeys_checkName.errors fun _ _ hm => .inr (.inl hm)) fun _ m hm => ?_
  have hs := obeys_scopedMutex (obeys_locked h hm.right) trivial trivial
  exact hs.weaken (fun _ hm => hm) (fun _ _ hm => .inl hm) (fun _ _ hm => .inl hm) m hm.left

theorem guards_write {data : List UInt8} {offset : UInt32} :
    usage.Guards false (write name data offset) := by
  refine guards_checkInitialized ?_
  split
  case isTrue  => exact .throw fun _ hm => .inr (.inl hm)
  case isFalse => exact obeys_checkedName Statements.uses_writeLocked

theorem guards_read {size : ℕ} {offset : UInt32} :
    usage.Guards false (read name size offset) := by
  refine guards_checkInitialized ?_
  split
  case isTrue  => exact .throw fun _ hm => .inr (.inl hm)
  case isFalse => exact obeys_checkedName Statements.uses_readLocked

theorem guards_sync : usage.Guards false (sync name) :=
  guards_checkInitialized (obeys_checkedName Statements.uses_syncLocked)

-- A program of LittleFS in the teardown, which only has an error if the flash has one.
def Tears (p : Fallible sig χ α) : Prop :=
  FallibleObeys usage.monitor (AtPhase true .torn) p (fun _ => AtPhase true .torn)
    fun _ => AtPhase true .failed

namespace Tears

variable {χ β : Type} {f : LfsFile → LfsFile} {p : Lfs α}

theorem pure {a : α} : Tears (Pure.pure a : Fallible sig χ α) :=
  FallibleObeys.pure fun _ hm => hm

theorem bind {p : Fallible sig χ β} {f : β → Fallible sig χ α} (h : Tears p) (hf : ∀ b, Tears (f b)) :
    Tears (p >>= f) :=
  FallibleObeys.bind h hf

theorem perform {o : Op} (ho : ∀ r, act true o r = .tear) :
    Tears (ExceptT.lift (File.perform o) : Lfs (sig.Ret o)) :=
  .lift (obeys_statement (by cases o <;> trivial) (fun r => by rw [ho]; trivial) fun r => by rw [ho]; rfl)

theorem load : Tears (Lfs.load name) :=
  perform (o := .load name) fun _ => rfl

theorem update : Tears (Lfs.update name f) :=
  perform (o := .update name f) fun _ => rfl

-- The teardown fails when an access to the flash does.
theorem access {a : Access} : Tears (Lfs.access name a) := by
  have ha : (File.perform (.access name a)).Obeys usage.monitor (AtPhase true .torn)
      fun r => AtPhase true (if r.isSome then .failed else .torn) :=
    obeys_statement trivial (fun r => by cases r <;> trivial) fun r => by cases r <;> rfl
  refine FallibleObeys.bind (.lift ha) fun r => ?_
  cases r
  case none   => exact FallibleObeys.pure fun _ hm => hm
  case some e => exact FallibleObeys.throw fun _ hm => hm

theorem onError (h : Tears p) : Tears (Lfs.onError name f p) := by
  refine .tryCatch h fun e => ?_
  have hu : FallibleObeys usage.monitor (AtPhase true .failed) (Lfs.update name f)
      (fun _ => AtPhase true .failed) fun _ => AtPhase true .failed :=
    .lift (obeys_statement trivial (fun _ => trivial) fun _ => rfl)
  exact .bind hu fun _ => .throw fun _ hm => hm

theorem writeByte {byte : UInt8} : Tears (lfsFileFlushedWriteByte name byte) := by
  have hp : Tears (do
      Lfs.orErred name (Lfs.access name .prog)
      Lfs.update name fun file =>
        { file with branch := file.branch ++ [byte], pos := file.pos + 1 }) :=
    access.onError.bind fun _ => update
  refine load.bind fun file => ?_
  split
  case isTrue  => exact access.onError.bind fun _ => update.bind fun _ => hp
  case isFalse => exact hp

theorem copy {data : List UInt8} : Tears (lfsFileCopy name data) := by
  induction data
  case nil          => exact pure
  case cons byte hi => exact access.bind fun _ => writeByte.bind fun _ => hi

theorem flush : Tears (lfsFileFlush name) := by
  refine update.bind fun _ => load.bind fun file => ?_
  split
  case isTrue  => exact copy.bind fun _ => access.bind fun _ => update
  case isFalse => exact pure

theorem sync : Tears (lfsFileSync name) := by
  refine bind (perform (o := .loadErred name) fun _ => rfl) fun erred => ?_
  split
  case isTrue  => exact pure
  case isFalse =>
    refine flush.onError.bind fun _ => load.bind fun file => ?_
    split
    case isTrue  => exact access.bind fun _ => access.onError.bind fun _ => update
    case isFalse => exact pure

theorem close : Tears (lfsFileClose name) :=
  sync.onError.bind fun _ => update

theorem closeFile : Tears (closeFile name) :=
  (bind (perform (o := .assertOpen name) fun _ => rfl) fun _ => close).adapt fun _ _ hm => hm

end Tears

-- The first file that is closed.
theorem obeys_closeFirst :
    FallibleObeys usage.monitor (AtPhase true (.inside 0)) (closeFile name) (fun _ => AtPhase true .torn)
      fun _ => AtPhase true .failed := by
  have ha : FallibleObeys usage.monitor (AtPhase true (.inside 0))
      (ExceptT.lift (perform (.assertOpen name)) : Lfs Unit) (fun _ => AtPhase true .torn)
      fun _ => AtPhase true .failed :=
    .lift (obeys_statement trivial (fun _ => trivial) fun _ => rfl)
  exact (FallibleObeys.bind ha fun _ => Tears.close).adapt fun _ _ hm => hm

theorem guards_deinit : usage.Guards true deinit := by
  have hd {o : Op} {phase phase' : Phase} (ha : ∀ r, phase.Allows (act true o r))
      (hn : ∀ r, phase.next (act true o r) = phase') : FallibleObeys usage.monitor (AtPhase true phase)
      (ExceptT.lift (perform o) : Fallible sig ErrorT (sig.Ret o)) (fun _ => AtPhase true phase')
      fun _ => Returned true :=
    .lift (obeys_statement (by cases o <;> trivial) ha hn)
  refine .bind (obeys_isInitialized.errors fun _ _ => .inl) fun _ => ?_
  have hs := obeys_scopedMutex (b := true) (p := do
      closeFile .password
      closeFile .pNumbers
      closeFile .asconSeed
      tryLfs lfsUnmount .fileFsFailedToUnmount) (.bind obeys_closeFirst fun _ =>
    Tears.closeFile.bind fun _ => Tears.closeFile.bind fun _ => Tears.pure) trivial trivial
  refine .bind (hs.errors fun _ _ hm => .inr (.inr hm)) fun _ => ?_
  refine .bind (hd (o := .deleteMutex) (fun _ => trivial) fun _ => rfl) fun _ => ?_
  refine (hd (o := .resetInitialized) (fun _ => by trivial) fun _ => rfl).weaken (fun _ hm => hm) ?_
    fun _ _ hm => hm
  exact fun _ _ => .inl

theorem guards_runCall (c : Call) : usage.Guards (usage.tears c) (runCall c) := by
  cases c
  case write  => exact guards_write.bind fun _ => .pure fun _ hm => hm
  case read   => exact guards_read
  case sync   => exact guards_sync.bind fun _ => .pure fun _ hm => hm
  case deinit => exact guards_deinit.bind fun _ => .pure fun _ hm => hm

-- Every call ends outside, unless its teardown has failed.
theorem obeys_serve (c : Call) : (serve c).ObeysFrom usage.monitor
    (fun _ m => m.2 = .outside ∨ m.2 = .failed) (usage.monitor.start c) := by
  have hi : (perform (.invoke c)).Obeys usage.monitor (AtPhase (usage.tears c) .outside)
      fun _ => AtPhase (usage.tears c) .outside := by
    generalize usage.tears c = b
    exact obeys_statement (by cases b <;> trivial) (fun _ => by cases b <;> trivial) fun _ => by
      cases b <;> rfl
  have hr (r : Result) : (perform (.respond c r)).Obeys usage.monitor (Returned (usage.tears c))
      fun _ m => m.2 = .outside ∨ m.2 = .failed := by
    generalize usage.tears c = b
    exact usage.obeys_leave (o := .respond c r) (by cases b <;> trivial) fun _ => by cases b <;> rfl
  refine Obeys.bind hi (fun _ => Obeys.bind (I := fun _ => Returned (usage.tears c)) ?_ hr) _ rfl
  exact Obeys.weaken (guards_runCall c) (fun _ hm => hm) fun r _ hm => by cases r <;> exact hm

end Deinit

section View

variable {τ : Type} {s : State τ} {name : Name} {a : Access} {f : LfsFile → LfsFile}

theorem State.view_modify (hf : ∀ file, (f file).isOpen = file.isOpen) :
    (s.modify name f).view = s.view := by
  have hi : (∀ n, n.IsOpened → ((s.modify name f).files n).isOpen = true) =
      ∀ n, n.IsOpened → (s.files n).isOpen = true := by
    refine forall_congr fun n => ?_
    by_cases hn : n = name
    case pos => subst hn; simp [modify, hf]
    case neg => simp [modify, Function.update_of_ne hn]
  exact congrArg (View.mk _ _ _) hi

theorem State.view_access : (s.access name a).view = s.view := by
  cases a
  case commit => exact view_modify fun _ => rfl
  all_goals rfl

variable [DecidableEq τ] {t : τ} {s' : State τ} {o : Op} {r : sig.Ret o} {b : Bool}

omit [DecidableEq τ] in
-- A statement of LittleFS that changes nothing that matters.
theorem State.becomes_same (hv : s'.view = s.view) : s.view.Becomes t s'.view .use ∧
    s.view.Becomes t s'.view .tear ∧ s.view.Becomes t s'.view .fail :=
  ⟨hv, ⟨_, hv⟩, ⟨_, hv⟩⟩

theorem State.view_of_exec_access {e : Option LfsError} (h : (e, s') ∈ s.exec t (.access name a)) :
    s'.view = s.view := by
  rcases (mem_exec_access h).right with he | ⟨_, he⟩ <;> rw [he]
  case inl => exact view_access
  case inr => rfl

-- What a statement does to what matters.
theorem State.becomes (h : (r, s') ∈ s.exec t o) (hf : o.Fits b) :
    s.view.Becomes t s'.view (act b o r) := by
  cases o
  case access name a =>
    have hs := becomes_same (t := t) (view_of_exec_access h)
    cases b
    case false => exact hs.left
    case true  => cases r; exacts [hs.right.left, hs.right.right]
  case takeMutex =>
    simp only [exec] at h
    split at h
    case isFalse   => cases h
    case isTrue hm =>
      cases List.mem_singleton.mp h
      have hb : s.view.Becomes t { s with mutex := .heldBy t }.view (.take true) :=
        ⟨by simp [view, hm], .inl ⟨by simp [view, hm], by simp [view, hm]⟩⟩
      cases b <;> exact hb
  case giveMutex =>
    cases List.mem_singleton.mp h
    have hb : s.view.Becomes t { s with mutex := .free }.view .give := by
      refine ⟨fun ho => ?_, fun n ho => ?_⟩
      all_goals cases hm : s.mutex <;> simp [view, hm] at ho ⊢
    cases b <;> exact hb
  case deleteMutex =>
    cases List.mem_singleton.mp h
    have hb : s.view.Becomes t { s with mutex := .deleted }.view .delete := by
      intro ho
      simpa [view] using ho.symm
    cases b <;> exact hb
  case update name f =>
    cases List.mem_singleton.mp h
    cases b
    case false => exact view_modify hf.right
    case true  => exact ⟨_, rfl⟩
  case assertOpen name =>
    simp only [exec] at h
    split at h
    case isFalse => cases h
    case isTrue  =>
      cases List.mem_singleton.mp h
      cases b
      case false => exact rfl
      case true  => exact ⟨_, rfl⟩
  case isCached name =>
    have hs : s' = s := by
      simp only [exec, List.mem_cons, List.not_mem_nil, or_false, Prod.mk.injEq] at h
      rcases h with h | h <;> exact h.right
    cases hs
    cases b
    case false => exact rfl
    case true  => exact ⟨_, rfl⟩
  case load | loadErred =>
    cases List.mem_singleton.mp h
    cases b
    case false => exact rfl
    case true  => exact ⟨_, rfl⟩
  case isInitialized =>
    cases List.mem_singleton.mp h
    cases b <;> exact ⟨rfl, rfl⟩
  all_goals
    cases List.mem_singleton.mp h
    cases b <;> exact rfl

end View

variable {τ : Type} [DecidableEq τ] {allowed : Call → Bool} {os : List (Occurrence sig τ Call LfsError)}
variable {p : Pool sig τ (State τ)} {flash : Flash}

theorem describes : usage.Describes State.view (system τ allowed) where
  calls t c q h     := by
    simp only [system, Option.ite_none_right_eq_some, Option.some.injEq] at h
    exact h.right ▸ Deinit.obeys_serve c
  exec _ _ _ _ _ _  := State.becomes
  event _ _ _ h     := by
    cases h
    rfl

theorem protected_of_orderly (h : (system τ allowed).History .any (.idle (.init flash)) os p)
    (ho : usage.Orderly os) : Protected usage.tears State.Permits os p := by
  have ha : (State.init flash : State τ).view.alive := by simp [State.view, State.init]
  have hi : (State.init flash : State τ).view.intact := fun name hn => by simp [State.init, hn]
  refine describes.isProtected rfl ha hi h ho fun s o hf hs => ?_
  cases o
  case takeMutex | giveMutex => exact hs ()
  case assertOpen => exact hs () _ hf
  case load name => exact hs (s.files name) _ hf
  case loadErred | isCached => exact hs true _ hf
  case update => exact hs () _ hf.left
  case access => exact hs none _ hf
  all_goals trivial

end File
