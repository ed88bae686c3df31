import SecureHome.Boot.CounterFile

open File (Name)

namespace Boot

open BootCounter

-- The statement that increments the count.
def Op.isIncrement : Op → Bool
  | .incrementBootCycleCounter => true
  | _                          => false

-- The calls that do not look at the count.
def Call.Other : Call → Prop
  | .init | .getBootCycleCount | .rndInit => False
  | _                                     => True

theorem plain_of_other {c : Call} {o : Op} (hc : c.Other) (ho : o.Of c) : o.Plain := by
  cases o
  case lfs l =>
    cases l
    case fileClose name | fileSync name =>
      cases name <;> cases c <;> simp_all [Op.Of, LfsCall.Of, Op.Plain, LfsCall.Plain, Call.Other]
    case format => cases c <;> simp_all [Op.Of, LfsCall.Of, Call.Other]
    all_goals trivial
  case record e => cases e <;> cases c <;> simp_all [Op.Of, Op.Plain, Entry.Neutral, Call.Other]
  all_goals cases c <;> simp_all [Op.Of, Op.Plain, Call.Other]

-- The initialisation of the generator only looks at the count.
theorem plain_of_rndInit {o : Op} (ho : o.Of .rndInit) : o.Plain ∨ o = .trngGenerate := by
  cases o
  case trngGenerate => exact .inr rfl
  case lfs l =>
    cases l
    case fileClose name | fileSync name => cases name <;> simp_all [Op.Of, LfsCall.Of, Op.Plain, LfsCall.Plain]
    case format => contradiction
    all_goals exact .inl trivial
  case record e => cases e <;> simp_all [Op.Of, Op.Plain, Entry.Neutral]
  all_goals simp_all [Op.Of, Op.Plain]

namespace CounterRule

variable {C : Pool.Cond sig Unit Event State} {I Fresh Bumped Ready : BootCounter → Prop}
variable {allowed : Call → Bool} {α : Type}
variable (h : CounterRule C I Fresh Bumped Ready)

theorem idle_of_down {b : Board} (hb : Down b) : Idle Ready b :=
  fun hi => absurd (hb.symm.trans hi) nofun

theorem does_isInitialized {P : Board → Prop} :
    CountsOp C I allowed P .isInitialized fun r b => b.isInitialized = r ∧ P b := by
  refine does fun s r b hi hp _ hs => ?_
  cases hs
  exact ⟨hi, rfl, hp⟩

theorem does_setInitialized {A : BootCounter → Prop} :
    CountsOp C I allowed (fun b => Down b ∧ A b.counter) .setInitialized fun _ b => A b.counter := by
  refine does fun s r b hi hp _ hs => ?_
  cases hs
  exact ⟨hi, hp.right⟩

include h in
theorem does_recordInitialized :
    CountsOp C I allowed (fun b => Bumped b.counter ∧ Committed b.counter) .recordInitialized
      fun _ => Idle Ready := by
  refine does fun s r b hi hp _ hs => ?_
  cases hs
  have ⟨hi, hr⟩ := h.initialized s.board.counter hi hp.left hp.right
  exact ⟨hi, fun _ => hr⟩

include h in
theorem counts_init :
    Counts C I allowed (Idle Ready) File.init (fun _ b => Bumped b.counter ∧ Committed b.counter)
      (Idle Ready) := by
  have hA := h.bumped.and framed_committed
  apply Runs.bind (.perform does_isInitialized)
  intro isInitialized
  cases isInitialized
  case true  => exact .throw fun _ hs hh => (hs hh).right
  case false =>
    suffices hd : Counts C I allowed (fun b => Down b ∧ True) _
        (fun _ b => Bumped b.counter ∧ Committed b.counter) Down from
      hd.weaken (fun _ hs hh => ⟨(hs hh).left, trivial⟩) (fun _ _ hs => hs) fun _ hs hh => idle_of_down (hs hh)
    apply Runs.bind (.perform (h.does_down framed_true (o := .createMutex) trivial))
    intro _
    apply Runs.bind (h.counts_setupFs.pre fun _ hs hh => (hs hh).left)
    intro firstBoot
    apply Runs.bind (tryLfs (h.does_fileOpen (framed_setup h.fresh)))
    intro _
    apply Runs.bind h.counts_readCounter
    intro _
    apply Runs.bind (tryLfs (h.does_fileSeek ((framed_setup h.fresh).and framed_loaded)))
    intro _
    apply Runs.bind h.counts_bumpCounter
    intro _
    apply Runs.bind h.counts_writeCounter
    intro _
    apply Runs.bind (tryLfs h.does_fileClose)
    intro _
    apply Runs.bind (h.tryLfs_plain (c := .fileOpen _) hA trivial)
    intro _
    apply Runs.bind (h.tryLfs_plain (c := .fileOpen _) hA trivial)
    intro _
    apply Runs.bind (h.tryLfs_plain (c := .fileOpen _) hA trivial)
    exact fun _ => .perform (does_setInitialized (A := fun c => Bumped c ∧ Committed c))

-- A statement that is not about the count.
include h in
theorem idle_of_performs {env : Env} {b b' : Board} {o : Op} {r : sig.Ret o} (ho : o.Plain)
    (hs : o.Performs env b r b') (hb : Idle Ready b) : Idle Ready b' := by
  intro hf
  rcases isInitialized_of_performs hs with he | rfl | rfl
  · exact h.ready.performs ho hs (hb (he.symm.trans hf))
  · contradiction
  · cases hs
    contradiction

include h in
theorem triple_of_other {q : Prog sig α} (hq : q.Uses Op.Plain) :
    (outline fun b => I b.counter).Triple (system allowed) C () (Live fun s => Idle Ready s.board) q
      fun _ => Live fun s => Idle Ready s.board :=
  .of_performs hq fun _ ho => h.does_plain ho fun _ _ _ _ hb hs => h.idle_of_performs ho hs hb

theorem counts_checkInitialized :
    Counts C I allowed (Idle Ready) File.checkInitialized (fun _ b => Idle Ready b ∧ Ready b.counter)
      (Idle Ready) := by
  apply Runs.bind (.perform does_isInitialized)
  intro isInitialized
  cases isInitialized
  case false => exact .throw fun _ hs hh => (hs hh).right
  case true  => exact .pure fun _ hs hh => ⟨(hs hh).right, (hs hh).right (hs hh).left⟩

theorem counts_getBootCycleCount :
    Counts C I allowed (Idle Ready) File.getBootCycleCount
      (fun n b => b.counter.count = n ∧ Idle Ready b ∧ Ready b.counter) (Idle Ready) := by
  have hl : CountsOp C I allowed (fun b => Idle Ready b ∧ Ready b.counter) .loadBootCycleCounter
      fun n b => b.counter.count = n ∧ Idle Ready b ∧ Ready b.counter := by
    refine does fun s r b hi hp _ hs => ?_
    cases hs
    exact ⟨hi, rfl, hp⟩
  exact counts_checkInitialized.bind fun _ => .perform hl

include h in
theorem does_counted {n : UInt32} :
    CountsOp C I allowed (fun b => b.counter.count = n ∧ Idle Ready b ∧ Ready b.counter)
      (.record (.counted n)) fun _ => Idle Ready := by
  refine does fun s r b hi hp _ hs => ?_
  cases hs
  have hc : s.board.counter.count = n := hp.left
  have ⟨hi, hr⟩ := h.counted s.board.counter hi hp.right.right
  rw [hc] at hi hr
  exact ⟨hi, fun _ => hr⟩

-- The generator may be seeded once the count is not zero or the RTC has updated the jitter.
def Awaited (Ready : BootCounter → Prop) (s : State) : Prop :=
  Idle Ready s.board ∧ (s.board.counter.count = 0 → s.env.jitterUpdated = true)

theorem stable_awaited {J : Board → Prop} : (outline J).Stable () (Awaited Ready) :=
  fun s s' hw ha => by
    have hs : s'.board = s.board := hw.right.right.left
    have hj : s.env.jitterUpdated = true → s'.env.jitterUpdated = true := hw.right.right.right
    exact ⟨hs ▸ ha.left, fun hc => hj (ha.right (hs ▸ hc))⟩

theorem jitterUpdated_after {env : Env} {o : Op} : (env.after o).jitterUpdated = env.jitterUpdated := by
  cases o <;> rfl

include h in
theorem does_awaited {o : Op} (ho : o.Of .rndInit) :
    Does (fun b => I b.counter) allowed C (Live (Awaited Ready)) o fun _ => Live (Awaited Ready) := by
  refine .live stable_awaited (fun _ hi => hi) fun s r b hi ha hc hs _ => ?_
  rcases plain_of_rndInit ho with hp | rfl
  case inl =>
    have hn : Framed fun c => c.count = s.board.counter.count := ⟨fun _ _ _ he => he, fun _ he => he⟩
    have he : b.counter.count = s.board.counter.count := hn.performs hp hs rfl
    refine ⟨h.inv.performs hp hs hi, h.idle_of_performs hp hs ha.left, fun hz => ?_⟩
    exact jitterUpdated_after.trans (ha.right (he ▸ hz))
  case inr =>
    cases hs
    have ⟨hi, hr⟩ := h.seeded s.board.counter s.env.jitterUpdated ha.right hi
    exact ⟨hi, fun hf => hr (ha.left hf), ha.right⟩

theorem runs_awaitJitter (n : UInt32) :
    Runs (fun b => I b.counter) allowed C (Live fun s => s.board.counter.count = n ∧ Idle Ready s.board)
      (Rnd.awaitJitter n) (fun _ => Live (Awaited Ready)) (Live (Awaited Ready)) := by
  unfold Rnd.awaitJitter
  split
  case isFalse hn => exact .pure fun _ hs hh => ⟨(hs hh).right, fun hz => absurd ((hs hh).left.symm.trans hz) hn⟩
  case isTrue     =>
    have hs : (outline fun b => I b.counter).Stable () fun s =>
        s.board.counter.count = n ∧ Idle Ready s.board :=
      stable_board (P := fun b => b.counter.count = n ∧ Idle Ready b)
    refine .perform (.live hs (fun _ hi => hi) fun s r b hi hs _ ho _ => ?_)
    cases ho
    case delay hj _ => exact ⟨hi, hs.right, fun _ => ‹_›⟩

include h in
theorem counts_rndInit :
    Counts C I allowed (Idle Ready) Rnd.init (fun _ => Idle Ready) (Idle Ready) := by
  have hp {o : Op} (ho : o.Plain) : CountsOp C I allowed (Idle Ready) o fun _ => Idle Ready :=
    h.does_plain ho fun _ _ _ _ hb hs => h.idle_of_performs ho hs hb
  apply Runs.bind (.perform (hp (o := .rndIsInitialized) trivial))
  intro isInitialized
  cases isInitialized
  case true  => exact .throw fun _ hs => hs
  case false =>
    apply Runs.bind (.tryHal (.perform (hp (o := .halInit) trivial)) fun _ hs => hs)
    intro _
    apply Runs.bind (.tryHal (.perform (hp (o := .rtcSetSecondIt) trivial)) fun _ hs => hs)
    intro _
    apply Runs.bind (.perform (hp (o := .enableRtcIrq) trivial))
    intro _
    apply Runs.bind (.tryCatch counts_getBootCycleCount fun _ => .throw fun _ hs => hs)
    intro n
    have hr : Runs (fun b => I b.counter) allowed C
        (Live fun s => s.board.counter.count = n ∧ Idle Ready s.board)
        (do Rnd.awaitJitter n; Rnd.seedGenerator; perform .rndSetInitialized)
        (fun _ => Live (Awaited Ready)) (Live (Awaited Ready)) := by
      apply Runs.bind (runs_awaitJitter n)
      intro _
      apply Runs.bind (.of_uses Statements.uses_seedGenerator fun _ => h.does_awaited)
      exact fun _ => .perform (h.does_awaited rfl)
    exact hr.weaken (fun _ hs hh => ⟨(hs hh).left, (hs hh).right.left⟩) (fun _ _ hs hh => (hs hh).left)
      fun _ hs hh => (hs hh).left

include h in
theorem triple_serve (c : Call) :
    (outline fun b => I b.counter).Triple (system allowed) C () (Live fun s => Idle Ready s.board)
      (serve c) fun _ => Live fun s => Idle Ready s.board := by
  have hf {p : Driver Unit} (hp : Counts C I allowed (Idle Ready) p (fun _ => Idle Ready) (Idle Ready)) :
      (outline fun b => I b.counter).Triple (system allowed) C () (Live fun s => Idle Ready s.board)
        (do let _ ← p.run) fun _ => Live fun s => Idle Ready s.board :=
    Outline.Triple.bind hp fun r => .pure fun _ _ hr => by cases r <;> exact hr
  cases c
  case init              => exact hf (h.counts_init.bind fun _ => .perform h.does_recordInitialized)
  case getBootCycleCount => exact hf (counts_getBootCycleCount.bind fun _ => .perform h.does_counted)
  case rndInit           => exact hf h.counts_rndInit
  all_goals exact h.triple_of_other ((uses_serve _).weaken fun _ => plain_of_other trivial)

-- What holds of the count in all runs, whenever the power is lost.
include h in
theorem sound {s₀ : State} {p : Pool sig Unit State} (hi : I s₀.powerUp.board.counter)
    (hs : (system fun _ => true).Survives State.powerUp C (.idle s₀.powerUp) p) :
    I p.shared.board.counter ∧ (p.threads () = .pure () → p.shared.board.halted = false →
      p.shared.board.isInitialized = true → Ready p.shared.board.counter) := by
  have hs := Survives.sound (J := Live fun s => Idle Ready s.board) hs (fun c _ => h.triple_serve c)
    (stable_live stable_board) (fun s hi => ⟨h.powerUp s.board.counter hi, fun _ => idle_of_down rfl⟩)
    ⟨hi, fun _ => idle_of_down rfl⟩
  refine ⟨hs.inv, fun ht => ?_⟩
  have ho := hs.threads ()
  rw [ht] at ho
  exact ho

end CounterRule

end Boot
