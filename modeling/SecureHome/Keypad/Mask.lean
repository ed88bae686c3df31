import SecureHome.Keypad.Steps

open FreeRTOS

namespace Keypad

namespace State

-- The debounce callback is going to unmask the columns, or may still be running.
def Armed (s : State) : Prop :=
  s.timers.Pending ∨ s.callback ≠ .idle

instance (s : State) : Decidable s.Armed := inferInstanceAs (Decidable (_ ∨ _))

def ArmedIfMasked (s : State) : Prop :=
  s.inDeinit = false → s.Masked → s.Armed

instance (s : State) : Decidable s.ArmedIfMasked := inferInstanceAs (Decidable (_ → _))

-- An interrupt finds room in the timer queue, or the columns are going to be unmasked anyway.
def CanRearm (s : State) : Prop :=
  s.timers.queue.length < configTimerQueueLength ∨ s.timers.Pending ∨ s.callback = .scanning

end State

def rearms : Pool.Cond sig Thread Event State where
  op _ _ _ := True
  event
    | .irqHandler, s => s.CanRearm
    | _,           _ => True

namespace Mask

-- Nothing stops the timer, and the columns are only masked as long as the timer is pending or the
-- callback has not unmasked them.
structure Inv (s : State) : Prop where
  hasTimer : s.hasTimer = true
  linked   : s.timers.Linked
  running  : s.timers.Running
  armed    : s.Masked → s.timers.Pending ∨ s.callback = .scanning

def inv (s : State) : Prop :=
  s.inDeinit = false → Inv s

variable {N priority : ℕ} {s s' : State} {timers : Timer.Service} {called : Bool}

theorem Inv.frame (h : Inv s) (hf : Frame s s') : Inv s' where
  hasTimer := hf.hasTimer ▸ h.hasTimer
  linked   := hf.timers ▸ h.linked
  running  := hf.timers ▸ h.running
  armed    := by simpa only [State.Masked, hf.imr, hf.colPins, hf.timers, hf.callback] using h.armed

theorem Inv.withTimers (h : Inv s) (hl : timers.Linked) (hr : timers.Running)
    (hp : s.timers.Pending → timers.Pending) : Inv { s with timers } where
  hasTimer := h.hasTimer
  linked   := hl
  running  := hr
  armed hm := (h.armed hm).imp_left hp

-- A step of the daemon does not lose a pending timer without calling its callback.
theorem Inv.daemonStep (h : Inv s) (hl : timers.Linked)
    (ht : s.timers.Running → timers.Running ∧ (s.timers.Pending → timers.Pending ∨ called)) :
    Inv { s with timers, callback := if called then .scanning else s.callback } := by
  have ⟨hr, hp⟩ := ht h.running
  refine ⟨h.hasTimer, hl, hr, fun hm => ?_⟩
  cases called
  case true  => exact .inr rfl
  case false =>
    cases h.armed hm
    case inl hm => exact .inl (by simpa using hp hm)
    case inr hc => exact .inr hc

-- An interrupt that masks the columns leaves the timer pending, if it can.
theorem Inv.irqHandler (h : Inv s) (hc : s.CanRearm) : Inv s.irqHandler := by
  unfold State.irqHandler
  rw [if_pos h.hasTimer]
  cases hs : s.timers.send .start
  case some timers =>
    refine ⟨h.hasTimer, h.linked.send hs, h.running.send hs nofun nofun, fun _ => .inl (.inl ?_)⟩
    exact (Timer.Service.mem_queue_of_send hs).mpr (.inr rfl)
  case none =>
    refine ⟨h.hasTimer, h.linked, h.running, fun _ => ?_⟩
    cases hc
    case inl hl => simp [Timer.Service.send, hl] at hs
    case inr hc => exact hc

theorem Inv.happens {e : Event} (h : Inv s) (hc : rearms.event e s) (he : Happens s e s') :
    Inv s' := by
  cases he
  case frame hf        => exact h.frame hf
  case irqHandler      => exact h.irqHandler hc
  case otherCommand ht =>
    exact h.withTimers (h.linked.send ht) (h.running.send ht nofun nofun) (·.send ht)
  case expire ht =>
    exact h.withTimers (h.linked.expire ht) (h.running.expire ht) (·.expire ht)

theorem keeps : DaemonKeeps inv where
  frame _ _ hi hf         := fun hd => (hi (hf.inDeinit ▸ hd)).frame hf
  unmask _ _ hi _         := fun hd =>
    have h := hi hd
    { h with armed := fun hm => absurd (UInt32.or_and_self _ _) hm }
  leave _ hi hs           := fun hd =>
    have h := hi hd
    { h with armed := fun hm => .inl ((h.armed hm).resolve_right (by simp [hs])) }
  receive _ _ _ hi ht     := fun hd => (hi hd).daemonStep (ht.linked (hi hd).linked).left ht.running
  expire _ _ _ hi ht      := fun hd => (hi hd).daemonStep (ht.linked (hi hd).linked).left ht.running

def idle : Thread → State → Prop
  | .daemon, s => s.callback = .idle
  | .task,   _ => True

theorem stable_idle : ∀ t, (outline inv).Stable t (idle t)
  | .daemon => stable_callback
  | .task   => fun _ _ _ _ => trivial

theorem triple_enterDeinit :
    (outline inv).Triple (system N priority) rearms .task (fun _ => True) (perform .enterDeinit)
      fun entered s => entered → s.inDeinit = true := by
  refine .direct_perform (fun _ _ _ _ => trivial) fun s _ s' hi _ _ hm => ?_
  cases List.mem_singleton.mp (mem_exec hm).right
  by_cases he : s.isInitialized = true
  case pos =>
    have hs : s.enterDeinit = { s with inDeinit := true } := if_pos he
    exact ⟨hs ▸ guar_task nofun rfl, fun _ => hs ▸ rfl⟩
  case neg =>
    have hs : s.enterDeinit = s := if_neg he
    exact ⟨hs.symm ▸ guar_task hi rfl, fun h => absurd h he⟩

theorem triple_deinits {α : Type} {p : Prog sig α} (h : p.Uses Deinits) :
    (outline inv).Triple (system N priority) rearms .task (·.inDeinit = true) p
      fun _ s => s.inDeinit = true := by
  refine .direct_uses h (fun _ _ hr hs => hr.right.right.right.left.trans hs) ?_
  intro o ho s r s' _ hs _ hm
  have ⟨hd, hc⟩ := ho.frame (mem_exec hm).right
  exact ⟨guar_task (fun hn => absurd (hd.trans hs) (by simp [hn])) hc, hd.trans hs⟩

theorem triple_deinit :
    (outline inv).Triple (system N priority) rearms .task (idle .task) deinit
      fun _ => idle .task := by
  refine .bind triple_enterDeinit fun entered => ?_
  cases entered
  case false => exact .pure fun _ _ _ => trivial
  case true  =>
    refine (triple_deinits ?_).weaken (fun _ _ he => he rfl) fun _ _ _ _ => trivial
    refine .bind (.perform trivial) fun _ => .bind (.perform trivial) fun _ => ?_
    refine .bind (.perform trivial) fun _ => .bind (.perform trivial) fun _ => ?_
    refine .bind (.perform trivial) fun _ => .bind uses_deinitEventQueue fun _ => ?_
    exact .bind uses_deinitTimer fun _ => .bind (.perform trivial) fun _ => .pure

theorem valid : (outline inv).Valid (system N priority) rearms idle where
  event s e s' hi hc he := by
    have he := happens_of_event he
    have hr := he.rely
    exact ⟨s', rfl, fun hd => (hi ((hr .task).right.left ▸ hd)).happens hc he, hr⟩
  stable := stable_idle
  call t c p hp := by
    cases t <;> cases c <;> cases hp
    case daemon.processReceivedCommand => exact keeps.processReceivedCommand
    case daemon.processExpiredTimer    => exact keeps.processExpiredTimer
    case task.deinit                   => exact .bind triple_deinit fun _ => .pure fun _ _ h => h

theorem inv_of_initialized (h : Initialized s) : Inv s where
  hasTimer := h.hasTimer
  linked   := h.timers ▸ ⟨rfl, rfl, nofun⟩
  running  := h.timers ▸ ⟨rfl, nofun, nofun⟩
  armed hm := absurd hm h.masked

-- The columns are unmasked in some continuation of the run.
def CanUnmask (N priority : ℕ) (p : Pool sig Thread State) : Prop :=
  ∃ p', (system N priority).Reaches rearms p p' ∧ p'.shared.inDeinit = false ∧ ¬p'.shared.Masked

section Unmask

variable {p p' : Pool sig Thread State}

theorem CanUnmask.head (hr : (system N priority).Reaches rearms p p')
    (h : CanUnmask N priority p') : CanUnmask N priority p :=
  have ⟨p'', hr', h⟩ := h
  ⟨p'', hr.trans hr', h⟩

theorem CanUnmask.op {o : Op} {k : sig.Ret o → Prog sig Unit} {r : sig.Ret o}
    (ht : p.threads .daemon = .op o k) (hm : (r, s') ∈ p.shared.exec N o)
    (h : ∀ p', p'.threads .daemon = k r → p'.shared = s' → CanUnmask N priority p') :
    CanUnmask N priority p :=
  .head (.op ht trivial (exec_daemon ▸ hm)) (h _ (by simp) rfl)

theorem CanUnmask.call {c : Call} {q : Prog sig Unit} (ht : p.threads .daemon = pure ())
    (hq : (system N priority).calls .daemon c = some q)
    (h : ∀ p', p'.threads .daemon = q → p'.shared = p.shared → CanUnmask N priority p') :
    CanUnmask N priority p :=
  .head (.call ht hq) (h _ (by simp) rfl)

-- The daemon on its own finishes what it does.
theorem CanUnmask.finish {α : Type} {q : Prog sig α} {k : α → Prog sig Unit}
    (ht : p.threads .daemon = q >>= k) (hq : q.Uses Serves) (hd : p.shared.inDeinit = false)
    (h : ∀ p' a, (system N priority).Reaches rearms p p' → p'.threads .daemon = k a →
      p'.shared.inDeinit = false → CanUnmask N priority p') : CanUnmask N priority p := by
  have hs : ∀ o s, Serves o → ∃ r s', (r, s') ∈ (system N priority).exec .daemon o s := by
    intro o s ho
    rw [exec_daemon]
    have ⟨⟨r, s'⟩, hm⟩ := List.exists_mem_of_ne_nil (s.exec N o) ho.ne_nil
    exact ⟨r, s', hm⟩
  have ⟨p', a, hr, ht, hd⟩ := System.Reaches.finish (P := fun s => s.inDeinit = false) (C := rearms)
    ht hq hd (fun _ _ _ => trivial) hs
    fun o s r s' ho hd hm => (ho.inDeinit (mem_exec hm).right).trans hd
  exact .head hr (h p' a hr ht hd)

theorem canUnmask_of_unmaskColumns (ht : p.threads .daemon = unmaskColumns)
    (hd : p.shared.inDeinit = false) : CanUnmask N priority p := by
  refine .finish ht (.perform trivial) hd fun p _ _ ht hd => ?_
  refine .finish ht (.perform trivial) hd fun p _ _ ht hd => ?_
  refine .finish ht (.perform trivial) hd fun p imr _ ht hd => ?_
  refine .op ht (.head _) fun p' _ hs => ⟨p', .refl, hs ▸ hd, hs ▸ fun hm => ?_⟩
  exact hm (UInt32.or_and_self _ _)

theorem canUnmask_of_debounceTimerCb (ht : p.threads .daemon = debounceTimerCb)
    (hd : p.shared.inDeinit = false) : CanUnmask N priority p := by
  refine .finish ht (.perform trivial) hd fun p _ _ ht hd => ?_
  refine .finish ht (uses_scanRows.weaken fun _ h => h.scans.serves) hd fun p key _ ht hd => ?_
  cases key
  case none     => exact canUnmask_of_unmaskColumns ht hd
  case some key =>
    exact .finish ht (.perform trivial) hd fun p _ _ ht hd => canUnmask_of_unmaskColumns ht hd

-- An active timer expires.
theorem canUnmask_of_active (ht : p.threads .daemon = pure ()) (hd : p.shared.inDeinit = false)
    (hl : p.shared.timers.Linked) (ha : p.shared.timers.active = true) :
    CanUnmask N priority p := by
  have he : p.shared.event .expire = some { p.shared with timers.due := true } := by
    simp [State.event, Timer.Service.expire, hl.listed, ha]
  refine .head (.event (C := rearms) (e := .expire) trivial he) ?_
  refine .call (c := .processExpiredTimer) ht rfl fun p' ht hs => ?_
  have hm : (true, { p'.shared with callback := .scanning, timers := { p'.shared.timers with
      listed := false, due := false, active := false } }) ∈ p'.shared.exec N .expireTimer := by
    simp [State.exec, State.daemonStep, Timer.Service.processExpiredTimer, hs, hl.zeroed]
  refine .op ht hm fun p'' ht hs' => canUnmask_of_debounceTimerCb ht ?_
  rw [hs', hs]
  exact hd

-- The daemon gets to a start command by processing the commands before it.
theorem canUnmask_of_mem (ht : p.threads .daemon = pure ()) (hd : p.shared.inDeinit = false)
    (hl : p.shared.timers.Linked) (hr : p.shared.timers.Running)
    (hs : .start ∈ p.shared.timers.queue) : CanUnmask N priority p := by
  obtain ⟨queue, hq⟩ : ∃ queue, p.shared.timers.queue = queue := ⟨_, rfl⟩
  induction queue generalizing p
  case nil => simp [hq] at hs
  case cons c queue hi =>
    obtain ⟨hz, hn, hn'⟩ := hr
    refine .call (c := .processReceivedCommand) ht rfl fun p' ht he => ?_
    cases c
    case stop   => simp [hq] at hn
    case delete => simp [hq] at hn'
    case start  =>
      have hm : (false, { p.shared with timers := { p.shared.timers with
          queue, listed := true, due := false, active := true } }) ∈
          p'.shared.exec N .receiveCommand := by
        simp [State.exec, State.daemonStep, Timer.Service.processReceivedCommand, he, hq, hz]
      refine .op ht hm fun p'' ht he => canUnmask_of_active ht ?_ ?_ ?_ <;> rw [he]
      case refine_1 => exact hd
      case refine_2 => exact ⟨hz, rfl, by simp⟩
    case other  =>
      have hm : (false, { p.shared with timers := { p.shared.timers with queue } }) ∈
          p'.shared.exec N .receiveCommand := by
        simp [State.exec, State.daemonStep, Timer.Service.processReceivedCommand, he, hq]
      simp only [hq, List.mem_cons, reduceCtorEq, false_or] at hs hn hn'
      refine .op ht hm fun p'' ht he => hi ht ?_ ?_ ?_ ?_ ?_ <;> rw [he]
      case refine_1 => exact hd
      case refine_2 => exact ⟨hz, hl.listed, hl.due⟩
      case refine_3 => exact ⟨hz, hn, hn'⟩
      case refine_4 => exact hs

end Unmask

theorem idle_of_initialized (h : Initialized s) : ∀ t, idle t s
  | .daemon => h.callback
  | .task   => trivial

section Run

variable {config : Config} {odr : GpioPort → UInt16} {imr pr : UInt32} {p : Pool sig Thread State}

theorem inv_of_reaches (hs : State.init config odr imr pr = .ok s)
    (h : (system N priority).Reaches rearms (.idle s) p) :
    inv p.shared ∧ (p.threads .daemon = pure () → p.shared.callback = .idle) := by
  have hs := initialized_of_init hs
  have ⟨s', h⟩ := valid.sound (fun _ => inv_of_initialized hs) (idle_of_initialized hs) h
  have he : s' = p.shared := h.shared
  refine ⟨he ▸ h.inv, fun ht => ?_⟩
  have hd := h.threads .daemon
  rw [ht] at hd
  exact he ▸ hd

theorem canUnmask_of_reaches (hs : State.init config odr imr pr = .ok s)
    (h : (system N priority).Reaches rearms (.idle s) p) (hd : p.shared.inDeinit = false) :
    CanUnmask N priority p := by
  refine .finish (Prog.bind_pure _).symm (h.uses fun _ _ => uses_call) hd fun p _ hr ht hd => ?_
  have ⟨hi, hc⟩ := inv_of_reaches hs (h.trans hr)
  by_cases hm : p.shared.Masked
  case neg => exact ⟨p, .refl, hd, hm⟩
  case pos =>
    have hp := ((hi hd).armed hm).resolve_right (by simp [hc ht])
    cases hp
    case inl hq => exact canUnmask_of_mem ht hd (hi hd).linked (hi hd).running hq
    case inr ha => exact canUnmask_of_active ht hd (hi hd).linked ha

end Run

end Mask

open Mask

-- The columns are never left masked in a run whose interrupts find room in the timer queue for as
-- long as nothing else is going to unmask the columns.
theorem armedIfMasked_of_rearms {N priority : ℕ} {config : Config} {odr imr pr} {s : State}
    {p : Pool sig Thread State} (hs : State.init config odr imr pr = .ok s)
    (h : (system N priority).Reaches rearms (.idle s) p) :
    p.shared.ArmedIfMasked ∧ (p.shared.inDeinit = false → CanUnmask N priority p) := by
  refine ⟨fun hd hm => ?_, canUnmask_of_reaches hs h⟩
  exact (((inv_of_reaches hs h).left hd).armed hm).imp_right fun hc => by simp [hc]

-- An interrupt that finds the timer queue empty.
theorem armedIfMasked_of_interrupt : State.lowPins.irqHandler.ArmedIfMasked :=
  have hc : rearms.event .irqHandler State.lowPins := .inl (by decide)
  have hr : (system 1 0).Reaches rearms (.idle .lowPins) (.idle State.lowPins.irqHandler) :=
    .event (e := .irqHandler) hc rfl
  (armedIfMasked_of_rearms State.init_lowPins hr).left

-- An interrupt that finds the timer queue full leaves the columns masked for good.
theorem not_armedIfMasked :
    ¬∀ N priority config odr imr pr s p, State.init config odr imr pr = .ok s →
      (system N priority).Reaches .any (.idle s) p → p.shared.ArmedIfMasked := by
  intro h
  have ⟨p, hr, hp⟩ := (system 1 0).exists_reaches_of_run .any (.idle .lowPins) (¬·.ArmedIfMasked)
    (List.replicate 5 (.event .otherCommand) ++ [.event .irqHandler]) (by decide)
  exact (of_decide_eq_true hp) (h _ _ _ _ _ _ _ p State.init_lowPins hr)

end Keypad
