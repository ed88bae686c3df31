import SecureHome.File.Locked

open Linearizability

namespace File

-- The calls whose data fits into the address space.
def Call.isSpan : Call → Bool
  | .write _ data _ => data.length < 2 ^ 31
  | .read _ size _  => size < 2 ^ 31
  | _               => true

-- What a call makes of the contents if it succeeds.
def Call.after : Call → (Name → List UInt8) → Name → List UInt8
  | .write name data offset, bytes =>
    Function.update bytes name ((bytes name).overlay 0 offset.toNat data)
  | _, bytes => bytes

-- The files that are committed by a call that succeeds.
def Call.Commits : Call → Name → Prop
  | .sync name, u => u = name
  | .deinit,    u => u.IsOpened
  | _,          _ => False

instance (u : Name) : (c : Call) → Decidable (c.Commits u)
  | .sync name => inferInstanceAs (Decidable (u = name))
  | .deinit    => inferInstanceAs (Decidable u.IsOpened)
  | .write ..  => inferInstanceAs (Decidable False)
  | .read ..   => inferInstanceAs (Decidable False)

def acknowledge (bytes : Name → List UInt8) : Event Unit Call Result → Name → List UInt8
  | .respond _ c (.ok _) => c.after bytes
  | _                    => bytes

namespace State

-- The contents that result from all calls that succeeded so far.
def acknowledged (flash : Flash) (s : State Unit) : Name → List UInt8 :=
  s.history.foldl acknowledge flash.bytes

-- If a call has just reported success, then what it commits is on the flash.
def Durable (flash : Flash) (s : State Unit) : Prop :=
  ∀ c data name, s.history.getLast? = some (.respond () c (.ok data)) → c.Commits name →
    (s.files name).disk = s.acknowledged flash name

end State

-- A failing access finds the content that the file had at the start of the call, as far as it is
-- one of a write, and a file that is not safe to be synced has its content on the flash.
def keepsContent : Pool.Cond sig Unit LfsError (State Unit) where
  op
    | _, .access name a, s => s.fault ≠ none → (a = .extend ∨ a = .prog) →
      (s.files name).content = s.atCall name
    | _, .loadErred name, s => (s.files name).erred = true →
      (s.files name).disk = (s.files name).content
    | _, _, _ => True
  event _ _ := True

instance (t : Unit) (s : State Unit) : (o : Op) → Decidable (keepsContent.op t o s)
  | .access name a  => inferInstanceAs (Decidable (s.fault ≠ none → (a = .extend ∨ a = .prog) →
      (s.files name).content = s.atCall name))
  | .loadErred name => inferInstanceAs (Decidable ((s.files name).erred = true →
      (s.files name).disk = (s.files name).content))
  | .invoke _ | .respond _ _ | .isInitialized | .resetInitialized | .takeMutex | .giveMutex
  | .deleteMutex | .assertOpen _ | .load _ | .update _ _ | .isCached _ =>
    inferInstanceAs (Decidable True)

instance (e : LfsError) (s : State Unit) : Decidable (keepsContent.event e s) :=
  inferInstanceAs (Decidable True)

namespace Durability

-- What a call finds.
structure Running (flash : Flash) (c : Call) (bytes : Name → List UInt8) (s : State Unit) :
    Prop where
  last         : s.history.getLast? = some (.invoke () c)
  acknowledged : s.acknowledged flash = bytes
  atCall       : s.atCall = bytes

-- A file has the given content, which may have to be on the flash.
structure Holds (bytes : Name → List UInt8) (D : Name → Prop) (u : Name) (file : LfsFile) : Prop
    extends file.Has (bytes u) where
  disk : D u → file.disk = bytes u

-- All files have the given contents.
structure Ready (flash : Flash) (c : Call) (acked bytes : Name → List UInt8) (D : Name → Prop)
    (s : State Unit) : Prop extends Running flash c acked s where
  holds u : Holds bytes D u (s.files u)

-- The call may change one of the files.
structure Inside (flash : Flash) (c : Call) (bytes : Name → List UInt8) (D : Name → Prop)
    (name : Name) (file : LfsFile) (s : State Unit) : Prop extends Running flash c bytes s where
  file     : s.files name = file
  others u : u ≠ name → Holds bytes D u (s.files u)

-- An error is going to happen, or it has happened.
structure Same (s s' : State Unit) : Prop where
  files   : s'.files = s.files
  history : s'.history = s.history
  atCall  : s'.atCall = s.atCall

def outline (flash : Flash) : Outline Unit (State Unit) (State Unit) :=
  .direct (State.Durable flash) fun _ => Same

variable {flash : Flash} {c : Call} {acked bytes : Name → List UInt8} {D E : Name → Prop}
variable {name : Name} {file : LfsFile} {s s' : State Unit} {v : List UInt8}

namespace Running

theorem durable (h : Running flash c bytes s) : s.Durable flash := by
  intro c data name hl
  rw [h.last] at hl
  cases hl

theorem congr (h : Running flash c bytes s) (hh : s'.history = s.history)
    (ha : s'.atCall = s.atCall) : Running flash c bytes s' where
  last         := hh ▸ h.last
  acknowledged := by simpa only [State.acknowledged, hh] using h.acknowledged
  atCall       := ha ▸ h.atCall

theorem same (h : Running flash c bytes s) (hs : Same s s') : Running flash c bytes s' :=
  h.congr hs.history hs.atCall

end Running

theorem Ready.same (h : Ready flash c acked bytes D s) (hs : Same s s') :
    Ready flash c acked bytes D s' where
  toRunning := h.toRunning.same hs
  holds     := hs.files ▸ h.holds

theorem Inside.same (h : Inside flash c bytes D name file s) (hs : Same s s') :
    Inside flash c bytes D name file s' where
  toRunning := h.toRunning.same hs
  file      := hs.files ▸ h.file
  others    := hs.files ▸ h.others

theorem Inside.modify {f : LfsFile → LfsFile} (h : Inside flash c bytes D name file s) :
    Inside flash c bytes D name (f file) (s.modify name f) where
  toRunning  := h.congr rfl rfl
  file       := by simp [State.modify, h.file]
  others u n := by
    simp only [State.modify, Function.update_of_ne n]
    exact h.others u n

theorem Ready.inside (h : Ready flash c bytes bytes D s) (name : Name) :
    ∃ file, Inside flash c bytes D name file s ∧ file.Has (bytes name) :=
  ⟨s.files name, ⟨h.toRunning, rfl, fun u _ => h.holds u⟩, (h.holds name).toHas⟩

-- The file has got a new content, or it was committed.
theorem Inside.ready (h : Inside flash c bytes D name file s) (hf : file.Has v)
    (hd : E name → file.disk = v) (hi : ∀ u ≠ name, E u → D u) :
    Ready flash c bytes (Function.update bytes name v) E s where
  toRunning := h.toRunning
  holds u   := by
    by_cases hu : u = name
    case pos =>
      subst hu
      rw [h.file]
      exact ⟨by simpa using hf, by simpa using hd⟩
    case neg =>
      have ho := h.others u hu
      refine ⟨?_, fun hd => ?_⟩ <;> rw [Function.update_of_ne hu]
      · exact ho.toHas
      · exact ho.disk (hi u hu hd)

theorem guar (h : s'.Durable flash) : (outline flash).Guar () s s' :=
  ⟨h, fun _ hu => absurd rfl hu⟩

theorem stable_ready : (outline flash).Stable () (Ready flash c acked bytes D) :=
  fun _ _ ⟨_, _, hs⟩ h => h.same hs

theorem stable_inside : (outline flash).Stable () (Inside flash c bytes D name file) :=
  fun _ _ ⟨_, _, hs⟩ h => h.same hs

-- The cases in which an access fails, and in which a file is not synced.
def Fails (bytes : Name → List UInt8) (name : Name) (a : Access) (file : LfsFile) : Prop :=
  (a = .extend ∨ a = .prog) → file.content = bytes name

def Skips (file : LfsFile) : Prop :=
  file.disk = file.content

theorem triple_inside {o : Op} {Q : sig.Ret o → State Unit → Prop}
    (h : ∀ s r s', Inside flash c bytes D name file s → keepsContent.op () o s →
      (r, s') ∈ s.exec () o → Running flash c bytes s' ∧ Q r s') :
    (outline flash).Triple (system Unit Call.isSpan) keepsContent ()
      (Inside flash c bytes D name file) (perform o) Q :=
  .direct_perform stable_inside fun s r s' _ hs hc hm =>
    have ⟨hr, hq⟩ := h s r s' hs hc hm
    ⟨guar hr.durable, hq⟩

theorem owns : Owns (outline flash) Call.isSpan keepsContent () name
    (Inside flash c bytes D name) (Fails bytes name) Skips where
  assertOpen file := triple_inside fun s r s' h _ hm => by
    simp only [State.exec] at hm
    split at hm
    case isTrue  => cases List.mem_singleton.mp hm; exact ⟨h.toRunning, h⟩
    case isFalse => cases hm
  load file := triple_inside fun s r s' h _ hm => by
    cases List.mem_singleton.mp hm
    exact ⟨h.toRunning, h.file, h⟩
  loadErred file := triple_inside fun s r s' h hc hm => by
    cases List.mem_singleton.mp hm
    exact ⟨h.toRunning, h, h.file ▸ hc⟩
  update file f := triple_inside fun s r s' h _ hm => by
    cases List.mem_singleton.mp hm
    exact ⟨h.modify.toRunning, h.modify⟩
  isCached file := triple_inside fun s r s' h _ hm => by
    simp only [State.exec, List.mem_cons, List.not_mem_nil, or_false, Prod.mk.injEq] at hm
    rw [hm.elim And.right And.right]
    exact ⟨h.toRunning, h⟩
  access file a ha := triple_inside fun s r s' h hc hm => by
    obtain ⟨hr, hs⟩ := mem_exec_access hm
    have hs : s' = { s with fault := none } := by
      cases a <;> first | contradiction | exact hs.elim id And.right
    have h' : Inside flash c bytes D name file s' := hs ▸ h.same ⟨rfl, rfl, rfl⟩
    refine ⟨h'.toRunning, h', fun hn hw => ?_⟩
    have he := hc (hr ▸ hn) hw
    rwa [h.file, h.atCall] at he
  commit file := triple_inside fun s r s' h hc hm => by
    obtain ⟨hr, hs⟩ := mem_exec_access hm
    have h' : Inside flash c bytes D name file { s with fault := none } := h.same ⟨rfl, rfl, rfl⟩
    rcases hs with hs | ⟨hn, hs⟩ <;> subst hs
    · have hm := h'.modify (f := fun file => { file with disk := file.ctz })
      exact ⟨hm.toRunning, .inl hm, fun _ => by simp [Fails]⟩
    · exact ⟨h'.toRunning, .inr ⟨hn, h'⟩, fun _ => by simp [Fails]⟩

-- The statements that concern neither the files nor the calls.
def Neutral : Op → Prop
  | .isInitialized | .resetInitialized | .takeMutex | .giveMutex | .deleteMutex => True
  | _                                                                           => False

theorem Neutral.same {o : Op} {r : sig.Ret o} (h : Neutral o) (hm : (r, s') ∈ s.exec () o) :
    Same s s' := by
  cases o <;> simp only [Neutral] at h
  case takeMutex =>
    simp only [State.exec] at hm
    split at hm
    case isTrue  => cases List.mem_singleton.mp hm; exact ⟨rfl, rfl, rfl⟩
    case isFalse => cases hm
  all_goals
    cases List.mem_singleton.mp hm
    exact ⟨rfl, rfl, rfl⟩

theorem triple_neutral {o : Op} (h : Neutral o) :
    (outline flash).Triple (system Unit Call.isSpan) keepsContent ()
      (Ready flash c acked bytes D) (perform o) fun _ => Ready flash c acked bytes D :=
  .direct_perform stable_ready fun _ _ _ _ hs _ hm =>
    have hr := hs.same (h.same hm)
    ⟨guar hr.durable, hr⟩

-- A call that has not changed any file.
abbrev Unchanged (flash : Flash) (c : Call) (bytes : Name → List UInt8) : State Unit → Prop :=
  Ready flash c bytes bytes fun _ => False

-- A part of a call that leaves the given contents, unless it fails without changing any file.
def Leaves {α : Type} (flash : Flash) (c : Call) (bytes : Name → List UInt8)
    (P : State Unit → Prop) (p : Fallible sig ErrorT α) (bytes' : Name → List UInt8)
    (D : Name → Prop) : Prop :=
  (outline flash).FallibleTriple (system Unit Call.isSpan) keepsContent () P p
    (fun _ => Ready flash c bytes bytes' D) fun _ => Unchanged flash c bytes

theorem leaves_checkInitialized :
    Leaves flash c bytes (Unchanged flash c bytes) checkInitialized bytes fun _ => False := by
  apply Outline.FallibleTriple.bind (.lift (triple_neutral (o := .isInitialized) trivial))
  intro r
  cases r
  case false => exact .throw fun _ _ h => h
  case true  => exact .pure fun _ _ h => h

theorem leaves_checkName :
    Leaves flash c bytes (Unchanged flash c bytes) (checkName name) bytes fun _ => False := by
  unfold checkName
  split
  case isTrue  => exact .throw fun _ _ h => h
  case isFalse => exact .pure fun _ _ h => h

theorem leaves_scopedMutex {α : Type} {body : Fallible sig ErrorT α} {bytes' : Name → List UInt8}
    (hb : Leaves flash c bytes (Unchanged flash c bytes) body bytes' D) :
    Leaves flash c bytes (Unchanged flash c bytes) (scopedMutex body) bytes' D := by
  apply Outline.Triple.bind (triple_neutral (o := .takeMutex) trivial)
  intro _
  apply Outline.Triple.bind hb
  intro r
  cases r <;> exact .bind (triple_neutral (o := .giveMutex) trivial) fun _ => .pure fun _ _ h => h

-- A part of a call that uses one of the files.
theorem leaves_of_takes {α : Type} {p : Fallible sig ErrorT α}
    (h : Takes (outline flash) Call.isSpan keepsContent () (Inside flash c bytes D name)
      (LfsFile.Has (bytes name)) p (fun _ file => file.Has v ∧ (E name → file.disk = v))
      (LfsFile.Has (bytes name)))
    (hi : ∀ u ≠ name, E u → D u) :
    Leaves flash c bytes (Ready flash c bytes bytes D) p (Function.update bytes name v) E := by
  apply Outline.FallibleTriple.weaken h
  · exact fun _ _ hs => hs.inside name
  · exact fun _ _ _ ⟨_, hs, hf, hd⟩ => hs.ready hf hd hi
  · intro _ _ _ ⟨_, hs, hf⟩
    have hr := hs.ready (E := fun _ => False) hf nofun nofun
    rwa [Function.update_eq_self] at hr

theorem leaves_writeLocked {data : List UInt8} {offset : UInt32} (hd : data.length < 2 ^ 31) :
    Leaves flash c bytes (Unchanged flash c bytes) (writeLocked name data offset)
      (Call.after (.write name data offset) bytes) fun _ => False := by
  apply leaves_of_takes _ nofun
  apply (owns.takes_writeLocked hd).weaken (fun _ h => h)
  · exact fun _ _ ⟨_, hf⟩ => ⟨hf, nofun⟩
  · rintro _ (⟨hf, _⟩ | ⟨v, hf, a, file, ha, hv, he⟩)
    · exact hf
    · exact (hv.symm.trans (he ha)) ▸ hf

theorem leaves_of_takes_same {α : Type} (name : Name) {p : Fallible sig ErrorT α}
    (h : Takes (outline flash) Call.isSpan keepsContent () (Inside flash c bytes D name)
      (LfsFile.Has (bytes name)) p
      (fun _ file => file.Has (bytes name) ∧ (E name → file.disk = bytes name))
      (LfsFile.Has (bytes name)))
    (hi : ∀ u ≠ name, E u → D u) :
    Leaves flash c bytes (Ready flash c bytes bytes D) p bytes E := by
  have hl := leaves_of_takes h hi
  rwa [Function.update_eq_self] at hl

theorem leaves_readLocked {size : ℕ} {offset : UInt32} :
    Leaves flash c bytes (Unchanged flash c bytes) (readLocked name size offset) bytes
      fun _ => False := by
  apply leaves_of_takes_same name _ nofun
  exact owns.takes_readLocked.weaken (fun _ h => h) (fun _ _ ⟨hf, _⟩ => ⟨hf, nofun⟩)
    fun _ ⟨hf, _⟩ => hf

theorem leaves_syncLocked :
    Leaves flash c bytes (Unchanged flash c bytes)
      (tryLfs (Lfs.asserted name (lfsFileSync name)) .fileFailedToSync) bytes (· = name) := by
  apply leaves_of_takes_same name _ fun u hu hd => absurd hd hu
  apply owns.takes_syncLocked.weaken (fun _ h => h) _ fun _ ⟨hf, _⟩ => hf
  exact fun _ file ⟨hf, hd⟩ => ⟨hf, fun _ => hd.elim id fun hs => hs.trans hf.content⟩

theorem leaves_closeFile (hi : ∀ u ≠ name, E u → D u) :
    Leaves flash c bytes (Ready flash c bytes bytes D) (closeFile name) bytes E := by
  apply leaves_of_takes_same name _ hi
  apply owns.takes_closeFile.weaken (fun _ h => h) _ fun _ ⟨hf, _⟩ => hf
  rintro _ file ⟨hf, hd | ⟨file', hf', hs, hd⟩⟩
  · exact ⟨hf, fun _ => hd⟩
  · exact ⟨hf, fun _ => hd.symm.trans (hs.trans hf'.content)⟩

theorem leaves_deinit :
    Leaves flash c bytes (Unchanged flash c bytes) deinit bytes Name.IsOpened := by
  apply Outline.FallibleTriple.bind leaves_checkInitialized
  intro _
  apply Outline.FallibleTriple.bind
  case h =>
    apply leaves_scopedMutex
    apply Outline.FallibleTriple.bind
      (leaves_closeFile (E := (· = .password)) fun u hu hd => absurd hd hu)
    intro _
    apply Outline.FallibleTriple.bind
      (leaves_closeFile (E := fun u => u = .password ∨ u = .pNumbers)
        fun u hu hd => hd.resolve_right hu)
    intro _
    apply Outline.FallibleTriple.bind
      (leaves_closeFile (E := Name.IsOpened) fun u hu hd => ?_)
    · exact fun _ => .pure fun _ _ h => h
    · cases u <;> simp_all [Name.IsOpened]
  intro _
  apply Outline.FallibleTriple.bind (.lift (triple_neutral (o := .deleteMutex) trivial))
  exact fun _ => .lift (triple_neutral (o := .resetInitialized) trivial)

theorem leaves_runCall (h : c.isSpan = true) :
    Leaves flash c bytes (Unchanged flash c bytes) (runCall c) (c.after bytes) c.Commits := by
  cases c
  case write name data offset =>
    apply Outline.FallibleTriple.bind
    case hf => exact fun _ => .pure fun _ _ h => h
    apply Outline.FallibleTriple.bind leaves_checkInitialized
    intro _
    split
    case isTrue  => exact .throw fun _ _ h => h
    case isFalse =>
      apply Outline.FallibleTriple.bind leaves_checkName
      exact fun _ => leaves_scopedMutex (leaves_writeLocked (of_decide_eq_true h))
  case read name size offset =>
    apply Outline.FallibleTriple.bind leaves_checkInitialized
    intro _
    split
    case isTrue  => exact .throw fun _ _ h => h
    case isFalse =>
      apply Outline.FallibleTriple.bind leaves_checkName
      exact fun _ => leaves_scopedMutex leaves_readLocked
  case sync name =>
    apply Outline.FallibleTriple.bind
    case hf => exact fun _ => .pure fun _ _ h => h
    apply Outline.FallibleTriple.bind leaves_checkInitialized
    intro _
    apply Outline.FallibleTriple.bind leaves_checkName
    exact fun _ => leaves_scopedMutex leaves_syncLocked
  case deinit =>
    exact .bind leaves_deinit fun _ => .pure fun _ _ h => h

-- Between the calls, the files have the acknowledged contents.
def idle (flash : Flash) (s : State Unit) : Prop :=
  ∀ u, (s.files u).Has (s.acknowledged flash u)

theorem stable_idle : (outline flash).Stable () (idle flash) := by
  intro s s' ⟨_, _, hs⟩ h
  simpa only [idle, State.acknowledged, hs.files, hs.history] using h

theorem triple_invoke :
    (outline flash).Triple (system Unit Call.isSpan) keepsContent () (idle flash)
      (perform (.invoke c)) fun _ s => ∃ bytes, Unchanged flash c bytes s := by
  apply Outline.Triple.direct_perform stable_idle
  intro s _ s' _ h _ hm
  cases List.mem_singleton.mp hm
  have hr : Running flash c (s.acknowledged flash) (s.invoke () c) := {
    last         := List.getLast?_concat
    acknowledged := by simp [State.acknowledged, State.invoke, acknowledge]
    atCall       := funext fun u => (h u).content }
  exact ⟨guar hr.durable, _, hr, fun u => ⟨h u, nofun⟩⟩

theorem triple_respond {r : Result} (hb : acknowledge acked (.respond () c r) = bytes)
    (hd : ∀ data, r = .ok data → ∀ u, c.Commits u → D u) :
    (outline flash).Triple (system Unit Call.isSpan) keepsContent ()
      (Ready flash c acked bytes D) (perform (.respond c r)) fun _ => idle flash := by
  apply Outline.Triple.direct_perform stable_ready
  intro s _ s' _ h _ hm
  cases List.mem_singleton.mp hm
  have ha : (s.respond () c r).acknowledged flash = bytes := by
    rw [← hb, ← h.acknowledged]
    simp [State.acknowledged, State.respond]
  refine ⟨guar fun c' data u hl hc => ?_, fun u => ha ▸ (h.holds u).toHas⟩
  have hl : some (Event.respond () c r) = some (.respond () c' (.ok data)) :=
    List.getLast?_concat.symm.trans hl
  cases hl
  rw [ha]
  exact (h.holds u).disk (hd data rfl u hc)

theorem triple_serve (h : c.isSpan = true) :
    (outline flash).Triple (system Unit Call.isSpan) keepsContent () (idle flash) (serve c)
      fun _ => idle flash := by
  apply Outline.Triple.bind triple_invoke
  intro _
  apply Outline.Triple.intro
  intro bytes
  apply Outline.Triple.bind (leaves_runCall h)
  intro r
  cases r
  case ok data => exact triple_respond rfl fun _ _ _ hc => hc
  case error e => exact triple_respond rfl nofun

theorem valid : (outline flash).Valid (system Unit Call.isSpan) keepsContent fun _ => idle flash where
  event s e s' hi _ he := by
    cases he
    exact ⟨_, rfl, hi, fun _ => ⟨rfl, rfl, rfl⟩⟩
  stable _ := stable_idle
  call t c p hp := by
    simp only [system] at hp
    split at hp <;> cases hp
    case isTrue h => exact triple_serve h

end Durability

open Durability

-- What `sync` and `deinit` report is true as long as writes do not fail halfway and files that are
-- marked by an error are not synced.
theorem durable_of_keepsContent {flash : Flash} {p : Pool sig Unit (State Unit)}
    (h : (system Unit Call.isSpan).Reaches keepsContent (.idle (.init flash)) p) :
    p.shared.Durable flash := by
  have hi : (State.init flash).Durable flash := fun _ _ _ hl => nomatch hl
  have ⟨s, hs⟩ := valid.sound hi (fun _ _ => LfsFile.has_opened) h
  exact hs.shared ▸ hs.inv

def Flash.blank : Flash where
  bytes _ := []
  size _  := Nat.zero_le _

-- A write, and a sync that commits it.
theorem durable_of_sync : ∃ s : State Unit, s.Durable .blank ∧
    s.history.getLast? = some (.respond () (.sync .password) (.ok [])) ∧
    (s.files .password).disk = [1] := by
  have ⟨p, hr, hp⟩ := (system Unit Call.isSpan).exists_reaches_of_run keepsContent
    (.idle (.init .blank))
    (fun s => s.history.getLast? = some (.respond () (.sync .password) (.ok [])) ∧
      (s.files .password).disk = [1])
    ([.call () (.write .password [1] 0)] ++ List.replicate 17 (.op () 0) ++
      [.call () (.sync .password)] ++ List.replicate 15 (.op () 0)) (by decide +kernel)
  exact ⟨p.shared, durable_of_keepsContent hr, of_decide_eq_true hp⟩

-- A write succeeds, and the next one finds no free block. The sync after that reports success,
-- although nothing is on the flash.
theorem not_durable :
    ¬∀ flash p, (system Unit Call.isSpan).Reaches .any (.idle (.init flash)) p →
      p.shared.Durable flash := by
  intro h
  have ⟨p, hr, hp⟩ := (system Unit Call.isSpan).exists_reaches_of_run .any
    (.idle (.init .blank))
    (fun s => s.history.getLast? = some (.respond () (.sync .password) (.ok [])) ∧
      (s.files .password).disk ≠ s.acknowledged .blank .password)
    ([.call () (.write .password [1] 0)] ++ List.replicate 17 (.op () 0) ++
      [.event .noSpc, .call () (.write .password (.replicate 128 2) 1)] ++
      List.replicate 14 (.op () 0) ++
      [.call () (.sync .password)] ++ List.replicate 7 (.op () 0)) (by decide +kernel)
  have ⟨hl, hd⟩ := of_decide_eq_true hp
  exact hd (h _ p hr _ _ .password hl rfl)

end File
