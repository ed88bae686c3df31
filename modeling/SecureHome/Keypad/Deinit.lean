import SecureHome.Keypad.Steps

open FreeRTOS

namespace Keypad

-- The callback only runs while it has a configuration and an event queue, and the daemon has not
-- used the timer's structure after it was zeroed.
structure State.IntactInUse (s : State) : Prop where
  callback : s.callback ≠ .idle → s.config ≠ .empty ∧ s.eventQueue.isSome
  timers   : s.timers.stale = false

-- The keypad is only deinitialized by a task with a lower priority than the daemon's, and at a
-- moment when the timer is not active.
def deinitsInactive (priority : ℕ) : Pool.Cond sig Thread Event State where
  op
    | _, .enterDeinit, s => priority < configTimerTaskPriority ∧ s.timers.active = false
    | _, _,            _ => True
  event _ _ := True

namespace Deinit

-- Before `deinit` nothing is torn down.
structure Intact (s : State) : Prop where
  config     : s.config ≠ .empty
  eventQueue : s.eventQueue.isSome
  linked     : s.timers.Linked

-- From the start of `deinit` on, nothing calls the callback anymore.
structure Quiet (priority : ℕ) (s : State) : Prop where
  priority : priority < configTimerTaskPriority
  callback : s.callback = .idle
  timers   : s.timers.Quiet

structure Inv (priority : ℕ) (s : State) : Prop where
  stale  : s.timers.stale = false
  intact : s.inDeinit = false → Intact s
  quiet  : s.inDeinit = true → Quiet priority s

variable {N priority : ℕ} {s s' : State}

-- The keypad is about to be torn down, but its timer still exists.
def Entered (s : State) : Prop :=
  s.inDeinit = true ∧ s.timers.zeroed = false

theorem Inv.frame (h : Inv priority s) (hf : Frame s s') : Inv priority s' where
  stale     := hf.timers ▸ h.stale
  intact hd :=
    have ⟨hc, hq, hl⟩ := h.intact (hf.inDeinit ▸ hd)
    ⟨hf.config ▸ hc, hf.eventQueue ▸ hq, hf.timers ▸ hl⟩
  quiet hd  :=
    have ⟨hp, hc, hq⟩ := h.quiet (hf.inDeinit ▸ hd)
    ⟨hp, hf.callback ▸ hc, hf.timers ▸ hq⟩

theorem Inv.not_inDeinit (h : Inv priority s) (hc : s.callback ≠ .idle) : s.inDeinit = false := by
  cases hd : s.inDeinit
  case false => rfl
  case true  => exact absurd (h.quiet hd).callback hc

theorem Inv.withCallback (h : Inv priority s) (hc : s.callback ≠ .idle) (imr : UInt32)
    (callback : Callback) : Inv priority { s with imr, callback } where
  stale     := h.stale
  intact hd := { h.intact hd with }
  quiet hd  := absurd hd (by simp [h.not_inDeinit hc])

theorem Inv.daemonStep {timers : Timer.Service} {called : Bool} (h : Inv priority s)
    (hl : s.timers.Linked → timers.Linked ∧ timers.stale = s.timers.stale)
    (hq : s.timers.Quiet → timers.Quiet ∧ timers.stale = s.timers.stale ∧ called = false) :
    Inv priority { s with timers, callback := if called then .scanning else s.callback } := by
  cases hd : s.inDeinit
  case false =>
    have ⟨hc, he, ht⟩ := h.intact hd
    have ⟨hl, hs⟩ := hl ht
    exact ⟨hs.trans h.stale, fun _ => ⟨hc, he, hl⟩, fun hn => absurd hn (by simp)⟩
  case true =>
    have ⟨hp, hc, ht⟩ := h.quiet hd
    have ⟨hq, hs, hf⟩ := hq ht
    refine ⟨hs.trans h.stale, fun hn => absurd hn (by simp), fun _ => ⟨hp, ?_, hq⟩⟩
    simp [hf, hc]

theorem Inv.withTimers {timers : Timer.Service} (h : Inv priority s) (hs : timers.stale = s.timers.stale)
    (hl : s.timers.Linked → timers.Linked) (hq : s.timers.Quiet → timers.Quiet) :
    Inv priority { s with timers } where
  stale     := hs.trans h.stale
  intact hd :=
    have ⟨hc, he, ht⟩ := h.intact hd
    ⟨hc, he, hl ht⟩
  quiet hd  :=
    have ⟨hp, hc, ht⟩ := h.quiet hd
    ⟨hp, hc, hq ht⟩

theorem Inv.happens {e : Event} (h : Inv priority s) (he : Happens s e s') : Inv priority s' := by
  cases he
  case frame hf => exact h.frame hf
  case irqHandler hd =>
    have ⟨timers, imr, pr, he, ht⟩ := irqHandler_eq (s := s)
    have ⟨hc, hq, hl⟩ := h.intact hd
    rw [he]
    cases ht
    case inl ht => exact ⟨ht ▸ h.stale, fun _ => ⟨hc, hq, ht ▸ hl⟩, fun hn => absurd hn (by simp [hd])⟩
    case inr ht =>
      refine ⟨?_, fun _ => ⟨hc, hq, hl.send ht⟩, fun hn => absurd hn (by simp [hd])⟩
      exact (congrArg (·.stale) (Timer.Service.send_eq ht)).trans h.stale
  case otherCommand ht =>
    refine h.withTimers (congrArg (·.stale) (Timer.Service.send_eq ht)) (·.send ht) fun hq => ?_
    exact hq.send ht nofun fun _ => rfl
  case expire ht =>
    refine h.withTimers (congrArg (·.stale) (Timer.Service.expire_eq ht)) (·.expire ht) fun hq => ?_
    exact absurd ht (by simp [hq.expire])

theorem keeps : DaemonKeeps (Inv priority) where
  frame _ _ hi hf       := hi.frame hf
  unmask s _ hi hs      := hi.withCallback (by simp [hs]) _ _
  leave s hi hs         := hi.withCallback (by simp [hs]) _ _
  receive _ _ _ hi ht   := hi.daemonStep ht.linked ht.quiet
  expire _ _ _ hi ht    := hi.daemonStep ht.linked ht.quiet

def idle : Thread → State → Prop
  | .daemon, s => s.callback = .idle
  | .task,   s => s.inDeinit = true → s.isInitialized = false

theorem stable_inDeinit : (outline (Inv priority)).Stable .task (·.inDeinit = true) :=
  fun _ _ h hd => h.right.right.right.left.trans hd

theorem stable_entered : (outline (Inv priority)).Stable .task Entered :=
  fun _ _ h ⟨hd, hz⟩ => ⟨h.right.right.right.left.trans hd, h.right.right.right.right.trans hz⟩

theorem stable_idle (t : Thread) : (outline (Inv priority)).Stable t (idle t) := by
  intro s s' h hs
  cases t
  case daemon => exact h.right.right.trans hs
  case task   =>
    have ⟨_, _, hi, hd, _⟩ := h
    exact fun hn => hi.trans (hs (hd.symm.trans hn))

-- When the task enters `deinit`, the daemon has nothing left to do.
theorem Inv.enterDeinit (h : Inv priority s) (hi : s.isInitialized = true) (hs : idle .task s)
    (hsch : s.Scheduled priority .task)
    (hc : priority < configTimerTaskPriority ∧ s.timers.active = false) :
    Inv priority s.enterDeinit ∧ Entered s.enterDeinit := by
  have hd : s.inDeinit = false := by
    by_contra hn
    exact absurd (hs (Bool.not_eq_false _ ▸ hn)) (by simp [hi])
  have ⟨_, _, hz, hl, _⟩ := h.intact hd
  have ⟨hb, hq, hdue⟩ := hsch.resolve_left (Nat.not_le.mpr hc.left)
  rw [State.enterDeinit, if_pos hi]
  refine ⟨⟨h.stale, nofun, fun _ => ⟨hc.left, hb, hl.trans hc.right, hdue, ?_, ?_⟩⟩, rfl, hz⟩
  case refine_1 => simp [hq]
  case refine_2 => simp [hq]

theorem triple_enterDeinit :
    (outline (Inv priority)).Triple (system N priority) (deinitsInactive priority) .task (idle .task)
      (perform .enterDeinit)
      fun entered s => (entered = true → Entered s) ∧ (entered = false → idle .task s) := by
  refine .direct_perform (stable_idle .task) fun s _ s' hi hs hc hm => ?_
  have ⟨hsch, hm⟩ := mem_exec hm
  cases List.mem_singleton.mp hm
  have hr : s.enterDeinit.callback = s.callback := by unfold State.enterDeinit; split <;> rfl
  by_cases hn : s.isInitialized = true
  case pos =>
    have ⟨hi, he⟩ := hi.enterDeinit hn hs hsch hc
    exact ⟨guar_task hi hr, fun _ => he, fun h => absurd hn (by simp [h])⟩
  case neg =>
    have he : s.enterDeinit = s := if_neg hn
    exact ⟨guar_task (he.symm ▸ hi) hr, fun h => absurd h hn, fun _ => he.symm ▸ hs⟩

-- The statements of `deinit` that leave the timer alone.
theorem Inv.sameTimers (h : Inv priority s) (hd : s.inDeinit = true)
    (hf : s'.inDeinit = s.inDeinit ∧ s'.callback = s.callback) (ht : s'.timers = s.timers) :
    Inv priority s' where
  stale     := ht ▸ h.stale
  intact hn := absurd (hf.left.trans hd) (by simp [hn])
  quiet _   :=
    have ⟨hp, hc, hq⟩ := h.quiet hd
    ⟨hp, hf.right.trans hc, ht ▸ hq⟩

theorem Inv.send {c : Timer.Command} {u : Unit} (h : Inv priority s) (he : Entered s)
    (hs : (u, s') ∈ s.send c) (hc : c ≠ .start) : Inv priority s' ∧ Entered s' := by
  have ⟨hd, hz⟩ := he
  have ⟨timers, ht, hs⟩ := List.mem_map.mp hs
  cases hs
  have ht := Option.mem_toList.mp ht
  have hs := Timer.Service.send_eq ht
  refine ⟨h.withTimers (congrArg (·.stale) hs) (·.send ht) (·.send ht hc fun hn => ?_), hd, ?_⟩
  case refine_1 => exact absurd hn (by simp [hz])
  case refine_2 => exact (congrArg (·.zeroed) hs).trans hz

-- The statements of `deinit` before the structure of the timer is zeroed.
def BeforeZero (o : Op) : Prop :=
  Deinits o ∧ o ≠ .zeroTimer

theorem Inv.beforeZero {o : Op} {r : sig.Ret o} (h : Inv priority s) (he : Entered s)
    (ho : BeforeZero o) (hs : (r, s') ∈ s.exec N o) : Inv priority s' ∧ Entered s' := by
  have hf := ho.left.frame hs
  cases o <;> simp only [BeforeZero, Deinits, ne_eq, not_true, and_false, false_and] at ho
  case timerStop   => exact h.send (c := .stop) he hs (by simp)
  case timerDelete => exact h.send (c := .delete) he hs (by simp)
  all_goals
    cases List.mem_singleton.mp hs
    exact ⟨h.sameTimers he.left hf rfl, he⟩

theorem triple_beforeZero {α : Type} {p : Prog sig α} (h : p.Uses BeforeZero) :
    (outline (Inv priority)).Triple (system N priority) (deinitsInactive priority) .task Entered p
      fun _ => Entered := by
  refine .direct_uses h stable_entered fun o ho s r s' hi hs _ hm => ?_
  have hm := (mem_exec hm).right
  have ⟨hi, he⟩ := hi.beforeZero hs ho hm
  exact ⟨guar_task hi (ho.left.frame hm).right, he⟩

-- The daemon has processed all commands when the structure is zeroed.
theorem triple_zeroTimer :
    (outline (Inv priority)).Triple (system N priority) (deinitsInactive priority) .task Entered
      (perform .zeroTimer) fun _ s => s.inDeinit = true := by
  refine .direct_perform stable_entered fun s _ s' hi hs _ hm => ?_
  have ⟨hsch, hm⟩ := mem_exec hm
  cases List.mem_singleton.mp hm
  have ⟨hp, hb, hq⟩ := hi.quiet hs.left
  have ⟨_, he, _⟩ := hsch.resolve_left (Nat.not_le.mpr hp)
  refine ⟨guar_task ⟨hi.stale, fun hn => ?_, fun _ => ⟨hp, hb, ?_⟩⟩ rfl, hs.left⟩
  case refine_1 => exact absurd hs.left (by simp [show s.inDeinit = false from hn])
  case refine_2 => exact ⟨hq.listed, hq.due, hq.start, fun _ => by simp [he]⟩

theorem triple_resetTimer :
    (outline (Inv priority)).Triple (system N priority) (deinitsInactive priority) .task
      (·.inDeinit = true) (perform .resetTimer) fun _ s => s.inDeinit = true := by
  refine .direct_perform stable_inDeinit fun s _ s' hi hs _ hm => ?_
  cases List.mem_singleton.mp (mem_exec hm).right
  exact ⟨guar_task (hi.sameTimers hs ⟨rfl, rfl⟩ rfl) rfl, hs⟩

theorem triple_deinitEventQueue :
    (outline (Inv priority)).Triple (system N priority) (deinitsInactive priority) .task Entered
      deinitEventQueue fun _ => Entered := by
  refine triple_beforeZero (.bind (.perform ⟨trivial, nofun⟩) fun queue => ?_)
  cases queue
  case false => trivial
  case true  => exact .bind (.perform ⟨trivial, nofun⟩) fun _ => .perform ⟨trivial, nofun⟩

theorem triple_deinitTimer :
    (outline (Inv priority)).Triple (system N priority) (deinitsInactive priority) .task Entered
      deinitTimer fun _ s => s.inDeinit = true := by
  refine .bind (triple_beforeZero (.perform ⟨trivial, nofun⟩)) fun timer => ?_
  cases timer
  case false => exact .pure fun _ _ h => h.left
  case true  =>
    refine .bind (triple_beforeZero (.perform ⟨trivial, nofun⟩)) fun _ => ?_
    refine .bind (triple_beforeZero (.perform ⟨trivial, nofun⟩)) fun _ => ?_
    exact .bind triple_zeroTimer fun _ => triple_resetTimer

theorem triple_leaveDeinit :
    (outline (Inv priority)).Triple (system N priority) (deinitsInactive priority) .task
      (·.inDeinit = true) (perform .leaveDeinit) fun _ => idle .task := by
  refine .direct_perform stable_inDeinit fun s _ s' hi hs _ hm => ?_
  cases List.mem_singleton.mp (mem_exec hm).right
  exact ⟨guar_task (hi.sameTimers hs ⟨rfl, rfl⟩ rfl) rfl, fun _ => rfl⟩

theorem triple_deinit :
    (outline (Inv priority)).Triple (system N priority) (deinitsInactive priority) .task (idle .task)
      deinit fun _ => idle .task := by
  refine .bind triple_enterDeinit fun entered => ?_
  cases entered
  case false => exact .pure fun _ _ h => h.right rfl
  case true  =>
    refine .weaken ?_ (fun _ _ h => h.left rfl) fun _ _ _ h => h
    refine .bind (triple_beforeZero (.perform ⟨trivial, nofun⟩)) fun _ => ?_
    refine .bind (triple_beforeZero (.perform ⟨trivial, nofun⟩)) fun _ => ?_
    refine .bind (triple_beforeZero (.perform ⟨trivial, nofun⟩)) fun _ => ?_
    refine .bind (triple_beforeZero (.perform ⟨trivial, nofun⟩)) fun _ => ?_
    refine .bind (triple_beforeZero (.perform ⟨trivial, nofun⟩)) fun _ => ?_
    refine .bind triple_deinitEventQueue fun _ => .bind triple_deinitTimer fun _ => ?_
    exact .bind triple_leaveDeinit fun _ => .pure fun _ _ h => h

theorem valid :
    (outline (Inv priority)).Valid (system N priority) (deinitsInactive priority) idle where
  event s e s' hi hc he := by
    have he := happens_of_event he
    exact ⟨s', rfl, hi.happens he, he.rely⟩
  stable := stable_idle
  call t c p hp := by
    cases t <;> cases c <;> cases hp
    case daemon.processReceivedCommand => exact keeps.processReceivedCommand
    case daemon.processExpiredTimer    => exact keeps.processExpiredTimer
    case task.deinit                   => exact .bind triple_deinit fun _ => .pure fun _ _ h => h

theorem inv_of_initialized (h : Initialized s) : Inv priority s where
  stale     := h.timers ▸ rfl
  intact _  := ⟨h.config, h.eventQueue, h.timers ▸ ⟨rfl, rfl, nofun⟩⟩
  quiet hd  := absurd hd (by simp [h.inDeinit])

end Deinit

open Deinit

theorem intactInUse_of_deinitsInactive {N priority : ℕ} {config : Config} {odr imr pr} {s : State}
    {p : Pool sig Thread State} (hs : State.init config odr imr pr = .ok s)
    (h : (system N priority).Reaches (deinitsInactive priority) (.idle s) p) :
    p.shared.IntactInUse := by
  have hi := initialized_of_init hs
  have ht : ∀ t, idle t s
    | .daemon => hi.callback
    | .task   => by simp [idle, hi.inDeinit]
  have ⟨s, hs⟩ := valid.sound (inv_of_initialized hi) ht h
  have hi : Inv priority s := hs.inv
  rw [show s = p.shared from hs.shared] at hi
  exact ⟨fun hc => have h := hi.intact (hi.not_inDeinit hc); ⟨h.config, h.eventQueue⟩, hi.stale⟩

instance {N : ℕ} (t : Thread) (o : Op) (s : State) : Decidable ((deinitsInactive N).op t o s) := by
  cases o
  case enterDeinit => exact inferInstanceAs (Decidable (_ ∧ _))
  all_goals exact inferInstanceAs (Decidable True)

instance {N : ℕ} (e : Event) (s : State) : Decidable ((deinitsInactive N).event e s) :=
  inferInstanceAs (Decidable True)

-- The timer of the keypad expires, and then a task with the lowest priority deinitializes the keypad,
-- for which the daemon stops and deletes the timer.
def deinitRun : List (Pool.Label Thread Call Event) :=
  [.event .irqHandler, .call .daemon .processReceivedCommand, .op .daemon 0,
    .event .expire, .call .daemon .processExpiredTimer] ++ List.replicate 27 (.op .daemon 0) ++
  .call .task .deinit :: List.replicate 11 (.op .task 0) ++
  [.call .daemon .processReceivedCommand, .op .daemon 0, .op .task 0,
    .call .daemon .processReceivedCommand, .op .daemon 0] ++ List.replicate 3 (.op .task 0)

theorem intactInUse_of_idle :
    ∃ p, (system 1 0).Reaches (deinitsInactive 0) (.idle .lowPins) p ∧
      (p.shared.isInitialized = false ∧ p.shared.timers.zeroed = true ∧ p.shared.timers.queue = []) ∧
        p.shared.IntactInUse := by
  have ⟨p, hr, hp⟩ := (system 1 0).exists_reaches_of_run (deinitsInactive 0) (.idle .lowPins)
    (fun s => s.isInitialized = false ∧ s.timers.zeroed = true ∧ s.timers.queue = []) deinitRun
    (by decide +kernel)
  exact ⟨p, hr, of_decide_eq_true hp, intactInUse_of_deinitsInactive State.init_lowPins hr⟩

-- The timer expires after the configuration was cleared.
theorem not_intactInUse :
    ¬∀ N priority config odr imr pr s p, State.init config odr imr pr = .ok s →
      (system N priority).Reaches .any (.idle s) p → p.shared.IntactInUse := by
  intro h
  have ⟨p, hr, hp⟩ := (system 1 0).exists_reaches_of_run .any (.idle .lowPins)
    (fun s => s.callback ≠ .idle ∧ s.config = .empty)
    [.event .irqHandler, .call .daemon .processReceivedCommand, .op .daemon 0,
      .call .task .deinit, .op .task 0, .op .task 0, .op .task 0, .op .task 0,
      .event .expire, .call .daemon .processExpiredTimer, .op .daemon 0] (by decide)
  have ⟨hc, he⟩ := of_decide_eq_true hp
  exact ((h _ _ _ _ _ _ _ p State.init_lowPins hr).callback hc).left he

end Keypad
