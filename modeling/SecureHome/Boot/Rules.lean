import SecureHome.Boot.Basic

namespace Boot

variable {I : Board → Prop} {C : Pool.Cond sig Unit Event State} {allowed : Call → Bool}
variable {P P' R R' : State → Prop} {α β : Type}

-- A proof outline whose invariant is about the board. The environment does not change the board.
def outline (I : Board → Prop) : Outline Unit State State :=
  .direct (fun s => I s.board) fun _ s s' =>
    s'.board = s.board ∧ (s.env.jitterUpdated = true → s'.env.jitterUpdated = true)

-- What holds of the board only is not changed by the environment.
theorem stable_board {P : Board → Prop} : (outline I).Stable () fun s => P s.board :=
  fun s s' ⟨_, _, hs, _⟩ h => by
    have hs : s'.board = s.board := hs
    show P s'.board
    rw [hs]
    exact h

theorem guar {s s' : State} (h : I s'.board) : (outline I).Guar () s s' :=
  ⟨h, fun _ hu => absurd rfl hu⟩

-- A program of the drivers that satisfies `Q` when it returns and `R` when it stops with an error.
def Runs (I : Board → Prop) (allowed : Call → Bool) (C : Pool.Cond sig Unit Event State)
    (P : State → Prop) (p : Driver α) (Q : α → State → Prop) (R : State → Prop) : Prop :=
  (outline I).FallibleTriple (system allowed) C () P p Q fun _ => R

-- The same for a single statement, which does not stop with an error.
def Does (I : Board → Prop) (allowed : Call → Bool) (C : Pool.Cond sig Unit Event State)
    (P : State → Prop) (o : Op) (Q : sig.Ret o → State → Prop) : Prop :=
  (outline I).Triple (system allowed) C () P (Prog.perform (S := sig) o) Q

-- All that a statement does, by its outcome.
inductive Op.Performs (env : Env) (b : Board) : (o : Op) → sig.Ret o → Board → Prop
  | isInitialized : Performs env b .isInitialized b.isInitialized b
  | setInitialized : Performs env b .setInitialized () { b with isInitialized := true }
  | resetInitialized : Performs env b .resetInitialized () { b with isInitialized := false }
  | createMutex : Performs env b .createMutex () { b with mutex := .free }
  | takeMutex : Performs env b .takeMutex () { b with mutex := .heldBy () }
  | giveMutex : Performs env b .giveMutex () { b with mutex := .free }
  | deleteMutex : Performs env b .deleteMutex () { b with mutex := .deleted }
  | lfs {c r b'} (ha : c.Asserts b) (h : c.Performs env.fault b r b') :
    Performs env b (.lfs c) r (b'.noted env.fault)
  | halt {c} (ha : ¬c.Asserts b) : Performs env b (.lfs c) (.ok 0, []) b.halt
  | loadBootCycleCounter : Performs env b .loadBootCycleCounter b.bootCycleCounter b
  | storeBootCycleCounter {bytes} : Performs env b (.storeBootCycleCounter bytes) ()
    { b with bootCycleCounter := overwrite b.bootCycleCounter bytes }
  | incrementBootCycleCounter : Performs env b .incrementBootCycleCounter ()
    { b with bootCycleCounter := b.bootCycleCounter + 1 }
  | record {e} : Performs env b (.record e) () (b.record e)
  | recordInitialized : Performs env b .recordInitialized ()
    (b.record (.initialized b.bootCycleCounter (b.partition.bytes .counter)))
  | recordRead : Performs env b .recordRead () (b.record (.read b.isInitialized))
  | rndIsInitialized : Performs env b .rndIsInitialized b.rndIsInitialized b
  | rndSetInitialized : Performs env b .rndSetInitialized () { b with rndIsInitialized := true }
  | halInit {r} : Performs env b .halInit r b
  | rtcSetSecondIt {r} : Performs env b .rtcSetSecondIt r b
  | enableRtcIrq : Performs env b .enableRtcIrq () { b with rtcIrqEnabled := true }
  | delay (hj : env.jitterUpdated = true) : Performs env b .delay () b
  | trngGenerate {r} : Performs env b .trngGenerate r (b.record (.seeded env.jitterUpdated b.seedHeld))
  | randomFetch : Performs env b .randomFetch env.output.toList b

theorem Op.performs_of_outcomes {env : Env} {b b' : Board} {o : Op} {r : sig.Ret o}
    (h : (r, b') ∈ b.outcomes env o) : o.Performs env b r b' := by
  cases o <;> simp only [Board.outcomes] at h
  case takeMutex =>
    split at h
    case isTrue  => cases List.mem_singleton.mp h; exact .takeMutex
    case isFalse => contradiction
  case delay =>
    split at h
    case isTrue hj => cases List.mem_singleton.mp h; exact .delay hj
    case isFalse   => contradiction
  case lfs =>
    unfold LfsCall.outcomes at h
    split at h
    case isFalse ha => cases List.mem_singleton.mp h; exact .halt ha
    case isTrue ha  =>
      have ⟨_, hm, he⟩ := List.mem_map.mp h
      cases he
      exact .lfs ha (LfsCall.performs_of_results hm)
  case halInit | rtcSetSecondIt | trngGenerate =>
    simp only [List.mem_cons, List.not_mem_nil, or_false, Prod.mk.injEq] at h
    rcases h with ⟨_, rfl⟩ | ⟨_, rfl⟩ <;> constructor
  all_goals
    cases List.mem_singleton.mp h
    constructor

-- The board only stops at an assertion that does not hold.
theorem Op.Performs.halted {env : Env} {b b' : Board} {o : Op} {r : sig.Ret o}
    (h : o.Performs env b r b') : b'.halted = b.halted ∨ b' = b.halt := by
  cases h
  case lfs h =>
    left
    unfold Board.noted
    split <;> exact h.halted
  case halt => exact .inr rfl
  all_goals exact .inl rfl

theorem Does.of_performs {o : Op} {Q : sig.Ret o → State → Prop} (hp : (outline I).Stable () P)
    (h : ∀ s r b, I s.board → P s → s.board.halted = false → C.op () o s →
      o.Performs s.env s.board r b → I b ∧ Q r { board := b, env := s.env.after o }) :
    Does I allowed C P o Q := by
  apply Outline.Triple.direct_perform hp
  intro s r s' hi hs hc hm
  have hm : (r, s') ∈ s.exec o := hm
  unfold State.exec at hm
  split at hm
  case isTrue     => contradiction
  case isFalse hh =>
    have ⟨⟨_, b⟩, ho, he⟩ := List.mem_map.mp hm
    cases he
    have ⟨hb, hq⟩ := h s r b hi hs (Bool.eq_false_iff.mpr hh) hc (Op.performs_of_outcomes ho)
    exact ⟨guar hb, hq⟩

theorem noted_cases {A : Board → Prop} {b : Board} {fault : Option Fault} (h : A b)
    (hr : A (b.record .fault)) : A (b.noted fault) := by
  unfold Board.noted
  split
  case isTrue  => exact hr
  case isFalse => exact h

@[simp]
theorem files_setFile {b : Board} {name : File.Name} {file : Handle} :
    (b.setFile name file).files name = file :=
  Function.update_self ..

@[simp]
theorem files_noted {b : Board} {fault : Option Fault} : (b.noted fault).files = b.files := by
  unfold Board.noted
  split <;> rfl

theorem history_noted {b : Board} {fault : Option Fault} (h : fault ≠ none) :
    (b.noted fault).history = .fault :: b.history := by
  cases fault
  case none => contradiction
  case some => rfl

-- A call of LittleFS whose assertion holds, where a failure is recorded.
theorem Does.lfs {c : LfsCall} {P : Board → Prop} {Q : LfsResult → Board → Prop}
    (ha : ∀ b, P b → c.Asserts b)
    (h : ∀ s r b, I s.board → P s.board → C.op () (.lfs c) s → c.Performs s.env.fault s.board r b →
      I b ∧ Q r b)
    (hr : ∀ r b, I b → Q r b → I (b.record .fault) ∧ Q r (b.record .fault)) :
    Does I allowed C (fun s => P s.board) (.lfs c) fun r s => Q r s.board := by
  refine .of_performs stable_board fun s r b hi hp _ hc ho => ?_
  cases ho
  case halt hn => exact absurd (ha _ hp) hn
  case lfs hl =>
    have ⟨hi, hq⟩ := h s r _ hi hp hc hl
    exact noted_cases (A := fun b => I b ∧ Q r b) ⟨hi, hq⟩ (hr r _ hi hq)

-- What holds unless the board has stopped. Nothing needs to be said about a call of LittleFS whose
-- assertion does not hold.
def Live (P : State → Prop) (s : State) : Prop :=
  s.board.halted = false → P s

theorem stable_live (h : (outline I).Stable () P) : (outline I).Stable () (Live P) :=
  fun s s' hw hl hh => by
    have hs : s'.board = s.board := hw.right.right.left
    exact h s s' hw (hl (hs ▸ hh))

theorem Does.live {o : Op} {Q : sig.Ret o → State → Prop} (hp : (outline I).Stable () P)
    (hh : ∀ b, I b → I b.halt)
    (h : ∀ s r b, I s.board → P s → C.op () o s → o.Performs s.env s.board r b → b.halted = false →
      I b ∧ Q r { board := b, env := s.env.after o }) :
    Does I allowed C (Live P) o fun r => Live (Q r) := by
  refine .of_performs (stable_live hp) fun s r b hi hs hl hc ho => ?_
  cases hb : b.halted
  case false =>
    have ⟨hi, hq⟩ := h s r b hi (hs hl) hc ho hb
    exact ⟨hi, fun _ => hq⟩
  case true =>
    rcases ho.halted with he | rfl
    · exact absurd (he.symm.trans hb) (by simp [hl])
    · exact ⟨hh _ hi, nofun⟩

namespace Runs

variable {p : Driver α} {Q Q' : α → State → Prop}

theorem pure {a : α} (h : ∀ s, P s → Q a s) : Runs I allowed C P (Pure.pure a) Q R :=
  Outline.FallibleTriple.pure fun s _ hs => h s hs

theorem throw {e : ErrorT} (h : ∀ s, P s → R s) :
    Runs I allowed C P (MonadExcept.throw e : Driver α) Q R :=
  Outline.FallibleTriple.throw fun s _ hs => h s hs

theorem bind {q : Driver β} {f : β → Driver α} {J : β → State → Prop}
    (h : Runs I allowed C P q J R) (hf : ∀ b, Runs I allowed C (J b) (f b) Q R) :
    Runs I allowed C P (q >>= f) Q R :=
  Outline.FallibleTriple.bind h hf

theorem weaken (h : Runs I allowed C P' p Q' R') (hp : ∀ s, P s → P' s)
    (hq : ∀ a s, Q' a s → Q a s) (hr : ∀ s, R' s → R s) : Runs I allowed C P p Q R :=
  Outline.FallibleTriple.weaken h (fun s _ => hp s) (fun a s _ => hq a s) fun _ s _ => hr s

theorem pre (h : Runs I allowed C P' p Q R) (hp : ∀ s, P s → P' s) : Runs I allowed C P p Q R :=
  h.weaken hp (fun _ _ hs => hs) fun _ hs => hs

-- What does not depend on the state can be taken out of the precondition.
theorem and_left {φ : Prop} (h : φ → Runs I allowed C P p Q R) :
    Runs I allowed C (fun s => φ ∧ P s) p Q R :=
  fun s hi hs => h hs.left s hi hs.right

theorem perform {o : Op} {Q : sig.Ret o → State → Prop} (h : Does I allowed C P o Q) :
    Runs I allowed C P (Boot.perform o) Q R :=
  Outline.FallibleTriple.lift h

theorem lift {q : Prog sig α} (h : (outline I).Triple (system allowed) C () P q Q) :
    Runs I allowed C P (ExceptT.lift q) Q R :=
  Outline.FallibleTriple.lift h

theorem tryCatch {f : ErrorT → Driver α} (h : Runs I allowed C P p Q R')
    (hf : ∀ e, Runs I allowed C R' (f e) Q R) : Runs I allowed C P (MonadExcept.tryCatch p f) Q R :=
  Outline.FallibleTriple.tryCatch h hf

-- A program keeps what each of its statements keeps.
theorem of_uses {A : Op → Prop} (hu : Fallible.Uses A p)
    (ho : ∀ o, A o → Does I allowed C P o fun _ => P) : Runs I allowed C P p (fun _ => P) P := by
  refine (Outline.Triple.of_performs hu ho).weaken (fun _ _ hs => hs) fun r _ _ hs => ?_
  cases r <;> exact hs

-- The outcome of a call of LittleFS is an error or it is not.
theorem tryLfs {c : LfsCall} {err : ErrorT} {Q : State → Prop}
    (h : Does I allowed C P (.lfs c) fun r s => if r.1.isOk then Q s else R s) :
    Runs I allowed C P (Boot.tryLfs c err) (fun _ => Q) R := by
  apply Runs.bind (.perform h)
  rintro ⟨r, _⟩
  cases r
  case ok    => exact .pure fun _ hs => hs
  case error => exact .throw fun _ hs => hs

theorem tryHal {q : Driver Hal.Status} {Q : State → Prop}
    (h : Runs I allowed C P q (fun _ => Q) R) (hr : ∀ s, Q s → R s) :
    Runs I allowed C P (Boot.tryHal q) (fun _ => Q) R := by
  apply h.bind
  intro r
  cases r
  case ok => exact .pure fun _ hs => hs
  all_goals exact .throw hr

-- A statement in front of a program and one after it, whatever the outcome.
theorem scopedMutex {p : Driver α} {Q : α → State → Prop} {P' R' : State → Prop} {Q' : α → State → Prop}
    (ht : Does I allowed C P .takeMutex fun _ => P') (h : Runs I allowed C P' p Q' R')
    (hq : ∀ a, Does I allowed C (Q' a) .giveMutex fun _ => Q a)
    (hr : Does I allowed C R' .giveMutex fun _ => R) :
    Runs I allowed C P (Boot.scopedMutex p) Q R := by
  apply Outline.Triple.bind ht
  intro _
  apply Outline.Triple.bind h
  intro r
  cases r
  case ok    => exact (hq _).bind fun _ => .pure fun _ _ hs => hs
  case error => exact hr.bind fun _ => .pure fun _ _ hs => hs

end Runs

-- What holds of the board in each state that is reached, whatever is lost at power-up.
theorem Survives.sound {J : State → Prop} {s₀ : State} {p : Pool sig Unit State}
    (h : (system allowed).Survives State.powerUp C (.idle s₀.powerUp) p)
    (hc : ∀ c, allowed c = true → (outline I).Triple (system allowed) C () J (serve c) fun _ => J)
    (hs : (outline I).Stable () J)
    (hl : ∀ s : State, I s.board → I s.powerUp.board ∧ J s.powerUp)
    (hi : I s₀.powerUp.board ∧ J s₀.powerUp) :
    (outline I).Sound (system allowed) C (fun _ => J) p p.shared := by
  have hv : (outline I).Valid (system allowed) C fun _ => J := {
    event s e s' hi _ he := by
      refine ⟨s', rfl, ?_⟩
      cases e
      case rtcEvent =>
        have ⟨_, he⟩ := Option.ite_none_right_eq_some.mp he
        cases he
        exact ⟨hi, fun _ => ⟨rfl, fun _ => rfl⟩⟩
      all_goals
        cases he
        exact ⟨hi, fun _ => ⟨rfl, id⟩⟩
    stable _ := hs
    call t c q hq := by
      have ⟨ha, hq⟩ := system_calls_eq_some_iff.mp hq
      exact hq ▸ hc c ha }
  have ⟨w, hw⟩ := hv.sound_of_survives (w := s₀.powerUp)
    (fun s hi => ⟨s.powerUp, rfl, (hl s hi).left, fun _ => (hl s hi).right⟩) hi.left
    (fun _ => hi.right) h
  have he : w = p.shared := hw.shared
  exact he ▸ hw

end Boot
