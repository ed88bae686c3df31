import SecureHome.Keypad.Basic
import SecureHome.Lib.RelyGuarantee

open FreeRTOS

theorem UInt32.or_and_self (a b : UInt32) : (a ||| b) &&& b = b := by
  rw [← UInt32.toBitVec_inj]
  ext i
  simp
  intro h
  simp [h]

namespace Keypad

-- What `init` establishes.
structure Initialized (s : State) : Prop where
  config     : s.config ≠ .empty
  hasTimer   : s.hasTimer = true
  eventQueue : s.eventQueue.isSome = true
  masked     : ¬s.Masked
  timers     : s.timers = .init
  callback   : s.callback = .idle
  inDeinit   : s.inDeinit = false

-- The members that the callback leaves alone before it unmasks the columns.
structure Frame (s s' : State) : Prop where
  isInitialized : s'.isInitialized = s.isInitialized
  config        : s'.config = s.config
  colPins       : s'.colPins = s.colPins
  hasTimer      : s'.hasTimer = s.hasTimer
  eventQueue    : s'.eventQueue.isSome = s.eventQueue.isSome
  imr           : s'.imr = s.imr
  timers        : s'.timers = s.timers
  callback      : s'.callback = s.callback
  inDeinit      : s'.inDeinit = s.inDeinit

-- The statements of the callback before it unmasks the columns.
def Scans : Op → Prop
  | .writeRows _ | .lowerRow _ | .readColumn _ | .queueSend _ | .clearPending | .loadImr => True
  | _ => False

-- The statements with which the callback looks for a key.
def Reads : Op → Prop
  | .lowerRow _ | .readColumn _ => True
  | _                           => False

-- The statements of `deinit` after the first check.
def Deinits : Op → Prop
  | .gpioInitAnalog | .clearConfig | .clearRowPins | .clearColPins => True
  | .loadEventQueue | .deleteEventQueue | .resetEventQueue         => True
  | .loadTimer | .timerStop | .timerDelete | .zeroTimer            => True
  | .resetTimer | .leaveDeinit                                     => True
  | _                                                              => False

variable {N priority : ℕ} {s s' : State}

theorem Frame.writePin {port pins high} : Frame s (s.writePin port pins high) := by
  cases port <;> exact ⟨rfl, rfl, rfl, rfl, rfl, rfl, rfl, rfl, rfl⟩

theorem Initialized.frame (h : Initialized s) (hf : Frame s s') : Initialized s' where
  config     := hf.config ▸ h.config
  hasTimer   := hf.hasTimer ▸ h.hasTimer
  eventQueue := hf.eventQueue ▸ h.eventQueue
  masked     := by simpa only [State.Masked, hf.imr, hf.colPins] using h.masked
  timers     := hf.timers ▸ h.timers
  callback   := hf.callback ▸ h.callback
  inDeinit   := hf.inDeinit ▸ h.inDeinit

theorem initialized_of_init {config : Config} {odr imr pr}
    (h : State.init config odr imr pr = .ok s) : Initialized s := by
  simp only [State.init] at h
  split at h
  case isTrue => cases h
  split at h <;> cases h
  case isFalse hr =>
    refine Initialized.frame ⟨fun he => hr ?_, rfl, rfl, fun h => ?_, rfl, rfl, rfl⟩ .writePin
    case refine_1 => rw [show config = .empty from he]; decide
    case refine_2 => exact h (UInt32.or_and_self _ _)

theorem Scans.frame {o : Op} {r : sig.Ret o} (h : Scans o) (hs : (r, s') ∈ s.exec N o) :
    Frame s s' := by
  cases o <;> simp only [Scans] at h <;> cases List.mem_singleton.mp hs
  case writeRows | lowerRow => exact .writePin
  case queueSend => exact ⟨rfl, rfl, rfl, rfl, Option.isSome_map, rfl, rfl, rfl, rfl⟩
  all_goals exact ⟨rfl, rfl, rfl, rfl, rfl, rfl, rfl, rfl, rfl⟩

-- The statements of the daemon never block.
def Serves : Op → Prop
  | .receiveCommand | .expireTimer | .storeImr _ | .leaveCallback => True
  | o => Scans o

theorem Scans.serves {o : Op} (h : Scans o) : Serves o := by
  cases o <;> trivial

theorem exec_daemon {o : Op} : (system N priority).exec .daemon o s = s.exec N o := by
  simp [system, State.Scheduled]

theorem daemonStep_ne_nil {step : Timer.Service → List (Bool × Timer.Service)}
    (h : step s.timers ≠ []) : s.daemonStep step ≠ [] :=
  (List.map_eq_nil_iff.not).mpr h

theorem Serves.ne_nil {o : Op} (h : Serves o) : s.exec N o ≠ [] := by
  cases o <;> simp only [Serves, Scans] at h
  case receiveCommand => exact daemonStep_ne_nil Timer.Service.processReceivedCommand_ne_nil
  case expireTimer    => exact daemonStep_ne_nil Timer.Service.processExpiredTimer_ne_nil
  all_goals exact nofun

theorem Serves.inDeinit {o : Op} {r : sig.Ret o} (h : Serves o) (hs : (r, s') ∈ s.exec N o) :
    s'.inDeinit = s.inDeinit := by
  cases o <;> simp only [Serves] at h
  case receiveCommand | expireTimer =>
    have ⟨_, _, he⟩ := List.mem_map.mp hs
    cases he
    rfl
  case storeImr | leaveCallback => cases List.mem_singleton.mp hs; rfl
  all_goals exact (Scans.frame h hs).inDeinit

theorem Deinits.frame {o : Op} {r : sig.Ret o} (h : Deinits o) (hs : (r, s') ∈ s.exec N o) :
    s'.inDeinit = s.inDeinit ∧ s'.callback = s.callback := by
  cases o <;> simp only [Deinits] at h
  case timerStop | timerDelete =>
    have ⟨_, _, he⟩ := List.mem_map.mp hs
    cases he
    exact ⟨rfl, rfl⟩
  all_goals
    cases List.mem_singleton.mp hs
    exact ⟨rfl, rfl⟩

theorem mem_exec {t : Thread} {o : Op} {r : sig.Ret o}
    (h : (r, s') ∈ (system N priority).exec t o s) :
    s.Scheduled priority t ∧ (r, s') ∈ s.exec N o := by
  simp only [system] at h
  split at h
  case isTrue hs => exact ⟨hs, h⟩
  case isFalse   => cases h

theorem Reads.scans {o : Op} (h : Reads o) : Scans o := by
  cases o <;> trivial

theorem uses_scanColumns {cols : List (Fin columns)} : (scanColumns cols).Uses Reads := by
  induction cols
  case nil => trivial
  case cons col _ hi =>
    refine .bind (.perform trivial) fun low => ?_
    cases low
    case false => exact hi
    case true  => trivial

theorem uses_scanRows {rs : List (Fin rows)} : (scanRows rs).Uses Reads := by
  induction rs
  case nil => trivial
  case cons row _ hi =>
    refine .bind (.perform trivial) fun _ => .bind uses_scanColumns fun col => ?_
    cases col
    case none => exact hi
    case some => trivial

theorem uses_unmaskColumns : unmaskColumns.Uses Serves := by
  refine .bind (.perform trivial) fun _ => .bind (.perform trivial) fun _ => ?_
  exact .bind (.perform trivial) fun _ => .bind (.perform trivial) fun _ => .perform trivial

theorem uses_debounceTimerCb : debounceTimerCb.Uses Serves := by
  refine .bind (.perform trivial) fun _ => .bind (uses_scanRows.weaken fun _ h => h.scans.serves) ?_
  intro key
  cases key
  case none     => exact uses_unmaskColumns
  case some key => exact .bind (.perform trivial) fun _ => uses_unmaskColumns

theorem uses_call {c : Call} {q : Prog sig Unit} (h : (system N priority).calls .daemon c = some q) :
    q.Uses Serves := by
  cases c <;> cases h
  all_goals
    refine .bind (.perform trivial) fun called => ?_
    cases called
    case false => trivial
    case true  => exact uses_debounceTimerCb

theorem uses_deinitEventQueue : deinitEventQueue.Uses Deinits := by
  refine .bind (.perform trivial) fun queue => ?_
  cases queue
  case false => trivial
  case true  => exact .bind (.perform trivial) fun _ => .perform trivial

theorem uses_deinitTimer : deinitTimer.Uses Deinits := by
  refine .bind (.perform trivial) fun timer => ?_
  cases timer
  case false => trivial
  case true  =>
    refine .bind (.perform trivial) fun _ => .bind (.perform trivial) fun _ => ?_
    exact .bind (.perform trivial) fun _ => .perform trivial

-- The daemon relies on being the only one to run the callback, and the task on being the only one
-- to deinitialize the keypad.
def rely : Thread → State → State → Prop
  | .daemon, s, s' => s'.callback = s.callback
  | .task,   s, s' => s'.isInitialized = s.isInitialized ∧ s'.inDeinit = s.inDeinit ∧
                        s'.timers.zeroed = s.timers.zeroed

def outline (inv : State → Prop) : Outline Thread State State :=
  .direct inv rely

-- An invariant that the daemon keeps.
structure DaemonKeeps (inv : State → Prop) : Prop where
  frame   : ∀ s s', inv s → Frame s s' → inv s'
  unmask  : ∀ s imr, inv s → s.callback = .scanning →
    inv { s with imr := imr ||| s.colPins.toUInt32, callback := .unmasked }
  leave   : ∀ s, inv s → s.callback = .unmasked → inv { s with callback := .idle }
  receive : ∀ s called timers, inv s → s.timers.Received called timers →
    inv { s with timers, callback := if called then .scanning else s.callback }
  expire  : ∀ s called timers, inv s → s.timers.Expired called timers →
    inv { s with timers, callback := if called then .scanning else s.callback }

variable {inv : State → Prop} {C : Pool.Cond sig Thread Event State}

theorem guar_daemon (hi : inv s') (hr : rely .task s s') : (outline inv).Guar .daemon s s' where
  left  := hi
  right := by
    intro u hu
    cases u
    case daemon => contradiction
    case task   => exact hr

theorem guar_task (hi : inv s') (hr : s'.callback = s.callback) :
    (outline inv).Guar .task s s' where
  left  := hi
  right := by
    intro u hu
    cases u
    case daemon => exact hr
    case task   => contradiction

theorem stable_callback {cb : Callback} : (outline inv).Stable .daemon (·.callback = cb) :=
  fun _ _ h hs => h.right.right.trans hs

namespace DaemonKeeps

theorem scan {α : Type} {p : Prog sig α} (hk : DaemonKeeps inv) (h : p.Uses Scans) :
    (outline inv).Triple (system N priority) C .daemon (·.callback = .scanning) p
      fun _ s => s.callback = .scanning := by
  refine .direct_uses h stable_callback fun o ho s r s' hi hs _ hm => ?_
  have hf := ho.frame (mem_exec hm).right
  refine ⟨guar_daemon (hk.frame _ _ hi hf) ⟨hf.isInitialized, hf.inDeinit, ?_⟩, hf.callback.trans hs⟩
  exact congrArg _ hf.timers

theorem storeImr {imr : UInt32} (hk : DaemonKeeps inv) :
    (outline inv).Triple (system N priority) C .daemon (·.callback = .scanning)
      (perform (.storeImr imr)) fun _ s => s.callback = .unmasked := by
  refine .direct_perform stable_callback fun s _ s' hi hs _ hm => ?_
  cases List.mem_singleton.mp (mem_exec hm).right
  exact ⟨guar_daemon (hk.unmask _ _ hi hs) ⟨rfl, rfl, rfl⟩, rfl⟩

theorem leaveCallback (hk : DaemonKeeps inv) :
    (outline inv).Triple (system N priority) C .daemon (·.callback = .unmasked)
      (perform .leaveCallback) fun _ s => s.callback = .idle := by
  refine .direct_perform stable_callback fun s _ s' hi hs _ hm => ?_
  cases List.mem_singleton.mp (mem_exec hm).right
  exact ⟨guar_daemon (hk.leave _ hi hs) ⟨rfl, rfl, rfl⟩, rfl⟩

theorem unmaskColumns (hk : DaemonKeeps inv) :
    (outline inv).Triple (system N priority) C .daemon (·.callback = .scanning) unmaskColumns
      fun _ s => s.callback = .idle := by
  refine .bind (hk.scan (.perform trivial)) fun _ => ?_
  refine .bind (hk.scan (.perform trivial)) fun _ => ?_
  refine .bind (hk.scan (.perform trivial)) fun imr => ?_
  exact .bind hk.storeImr fun _ => hk.leaveCallback

theorem debounceTimerCb (hk : DaemonKeeps inv) :
    (outline inv).Triple (system N priority) C .daemon (·.callback = .scanning) debounceTimerCb
      fun _ s => s.callback = .idle := by
  refine .bind (hk.scan (.perform trivial)) fun _ => ?_
  refine .bind (hk.scan (uses_scanRows.weaken fun _ => Reads.scans)) fun key => ?_
  cases key
  case none     => exact hk.unmaskColumns
  case some key => exact .bind (hk.scan (.perform trivial)) fun _ => hk.unmaskColumns

theorem callback {called : Bool} (hk : DaemonKeeps inv) :
    (outline inv).Triple (system N priority) C .daemon
      (·.callback = if called then .scanning else .idle)
      (if called then Keypad.debounceTimerCb else pure ()) fun _ s => s.callback = .idle := by
  cases called
  case true  => exact hk.debounceTimerCb
  case false => exact .pure fun _ _ h => h

theorem processReceivedCommand (hk : DaemonKeeps inv) :
    (outline inv).Triple (system N priority) C .daemon (·.callback = .idle) processReceivedCommand
      fun _ s => s.callback = .idle := by
  refine .bind (.direct_perform stable_callback fun s called s' hi hs _ hm => ?_) fun _ =>
    hk.callback
  have ⟨⟨_, timers⟩, ht, he⟩ := List.mem_map.mp (mem_exec hm).right
  cases he
  have ht := Timer.Service.mem_processReceivedCommand ht
  exact ⟨guar_daemon (hk.receive _ _ _ hi ht) ⟨rfl, rfl, ht.zeroed⟩, by rw [← hs]⟩

theorem processExpiredTimer (hk : DaemonKeeps inv) :
    (outline inv).Triple (system N priority) C .daemon (·.callback = .idle) processExpiredTimer
      fun _ s => s.callback = .idle := by
  refine .bind (.direct_perform stable_callback fun s called s' hi hs _ hm => ?_) fun _ =>
    hk.callback
  have ⟨⟨_, timers⟩, ht, he⟩ := List.mem_map.mp (mem_exec hm).right
  cases he
  have ht := Timer.Service.mem_processExpiredTimer ht
  exact ⟨guar_daemon (hk.expire _ _ _ hi ht) ⟨rfl, rfl, ht.zeroed⟩, by rw [← hs]⟩

end DaemonKeeps

-- All that can happen by an event.
inductive Happens (s : State) : Event → State → Prop
  | frame {e s'} (hf : Frame s s') : Happens s e s'
  | irqHandler (hd : s.inDeinit = false) : Happens s .irqHandler s.irqHandler
  | otherCommand {timers} (ht : s.timers.send .other = some timers) :
    Happens s .otherCommand { s with timers }
  | expire {timers} (ht : s.timers.expire = some timers) : Happens s .expire { s with timers }

theorem happens_of_event {e : Event} (h : s.event e = some s') : Happens s e s' := by
  cases e <;> simp only [State.event] at h
  case irqHandler =>
    split at h <;> cases h
    case isFalse hd => exact .irqHandler (Bool.not_eq_true _ ▸ hd)
  case otherCommand =>
    have ⟨timers, ht, h⟩ := Option.bind_eq_some_iff.mp h
    cases h
    exact .otherCommand ht
  case expire =>
    have ⟨timers, ht, h⟩ := Option.bind_eq_some_iff.mp h
    cases h
    exact .expire ht
  case receive =>
    cases h
    exact .frame ⟨rfl, rfl, rfl, rfl, Option.isSome_map, rfl, rfl, rfl, rfl⟩
  all_goals
    cases h
    exact .frame ⟨rfl, rfl, rfl, rfl, rfl, rfl, rfl, rfl, rfl⟩

theorem Frame.rely (h : Frame s s') : ∀ t, rely t s s'
  | .daemon => h.callback
  | .task   => ⟨h.isInitialized, h.inDeinit, congrArg _ h.timers⟩

theorem irqHandler_eq :
    ∃ timers imr pr, s.irqHandler = { s with timers, imr, pr } ∧
      (timers = s.timers ∨ s.timers.send .start = some timers) := by
  by_cases ht : s.hasTimer = true
  case neg => exact ⟨_, _, _, if_neg ht, .inl rfl⟩
  case pos =>
    refine ⟨_, _, _, if_pos ht, ?_⟩
    cases s.timers.send .start
    case none   => exact .inl rfl
    case some _ => exact .inr rfl

theorem Happens.rely {e : Event} (h : Happens s e s') (t : Thread) : rely t s s' := by
  cases h
  case frame hf => exact hf.rely t
  case irqHandler =>
    have ⟨_, _, _, he, ht⟩ := irqHandler_eq (s := s)
    rw [he]
    cases t
    case daemon => rfl
    case task   =>
      refine ⟨rfl, rfl, ?_⟩
      cases ht
      case inl ht => exact congrArg (·.zeroed) ht
      case inr ht => exact congrArg (·.zeroed) (Timer.Service.send_eq ht)
  case otherCommand ht =>
    cases t
    case daemon => rfl
    case task   => exact ⟨rfl, rfl, congrArg (·.zeroed) (Timer.Service.send_eq ht)⟩
  case expire ht =>
    cases t
    case daemon => rfl
    case task   => exact ⟨rfl, rfl, congrArg (·.zeroed) (Timer.Service.expire_eq ht)⟩

end Keypad
