import SecureHome.Keypad.Steps
import SecureHome.Lib.Logged
import SecureHome.Lib.Monitor

open FreeRTOS Prog

namespace Keypad

-- A key that the callback has found.
structure FoundKey where
  key     : Char
  -- How many keys were waiting in the event queue, and whether the key was put to them.
  waiting : ℕ
  put     : Bool

structure Log where
  -- The number of calls of `irqHandler`.
  interrupts : ℕ
  scanned    : List FoundKey
  -- The keys that were received from the event queue.
  received   : List Char

namespace Log

def empty : Log where
  interrupts := 0
  scanned    := []
  received   := []

-- The keys that were put into the event queue.
def put (l : Log) : List Char :=
  (l.scanned.filter FoundKey.put).map FoundKey.key

def scan (l : Log) (x : FoundKey) : Log :=
  { l with scanned := l.scanned ++ [x] }

theorem put_scan {l : Log} {x : FoundKey} :
    (l.scan x).put = l.put ++ if x.put then [x.key] else [] := by
  cases hx : x.put <;> simp [put, scan, List.filter_append, hx]

end Log

def logger : Logger sig Thread Event State Log where
  op
    | _, .queueSend key, _, s, s', l => l.scan {
        key
        waiting := (s.eventQueue.getD []).length
        put     := decide (s'.eventQueue ≠ s.eventQueue)
      }
    | _, _, _, _, _, l => l
  event
    | .irqHandler, _, _, l => { l with interrupts := l.interrupts + 1 }
    | .receive, s, _, l    => { l with received := l.received ++ (s.eventQueue.getD []).head?.toList }
    | _, _, _, l           => l

-- A keypad that logs the keys that it finds and gives away.
def logged (queueLength priority : ℕ) : System sig Thread Call Event (Logged State Log) :=
  (system queueLength priority).logged logger

-- What holds of the keys at every moment of a run.
structure KeysInOrder (N : ℕ) (s : State) (l : Log) : Prop where
  -- A key is only put into the event queue after an interrupt of its own.
  interrupts : l.put.length ≤ l.interrupts
  -- The keys are received in the order in which they were put into the queue.
  queue      : ∃ queue, s.eventQueue = some queue ∧ l.received ++ queue = l.put ∧ queue.length ≤ N
  -- No other keys are dropped than those that find the queue full.
  dropped    : ∀ x ∈ l.scanned, x.put = false → x.waiting = N

namespace Events

-- Whether the callback may put a key into the event queue.
def putting : Monitor sig Call Bool where
  idle    := false
  start _ := false
  next
    | _, .receiveCommand, called => called
    | _, .expireTimer, called    => called
    | _, .queueSend _, _         => false
    | m, _, _                    => m
  allows
    | m, .queueSend _ => m = true
    | _, o            => Serves o

-- Whether `deinit` has passed its first check.
def entering : Monitor sig Call Bool where
  idle    := false
  start _ := false
  next
    | _, .enterDeinit, entered => entered
    | m, _, _                  => m
  allows
    | false, o => o = .enterDeinit
    | true, o  => Deinits o

variable {N priority : ℕ} {s s' : State} {l : Log}

theorem putting_perform {o : Op} {P : Bool → Prop} (h : ∀ m, P m → putting.allows m o) :
    (perform o).Obeys putting P fun _ _ => True :=
  .perform h fun _ _ _ => trivial

theorem putting_unmaskColumns {P : Bool → Prop} :
    unmaskColumns.Obeys putting P fun _ _ => True := by
  refine .bind (putting_perform fun _ _ => trivial) fun _ => ?_
  refine .bind (putting_perform fun _ _ => trivial) fun _ => ?_
  refine .bind (putting_perform fun _ _ => trivial) fun imr => ?_
  exact .bind (putting_perform fun _ _ => trivial) fun _ => putting_perform fun _ _ => trivial

-- The callback puts at most one key into the event queue.
theorem putting_debounceTimerCb :
    debounceTimerCb.Obeys putting (· = true) fun _ _ => True := by
  have hw : (perform (.writeRows true)).Obeys putting (· = true) fun _ m => m = true :=
    .perform (fun _ _ => trivial) fun _ _ hm => hm
  refine .bind hw fun _ => ?_
  refine .bind (.of_uses uses_scanRows (fun o m ho _ => ?_) fun o m r ho hm => ?_) fun key => ?_
  case refine_1 => cases o <;> trivial
  case refine_2 => cases o <;> first | exact hm | cases ho
  cases key
  case none     => exact putting_unmaskColumns
  case some key => exact .bind (putting_perform fun _ hm => hm) fun _ => putting_unmaskColumns

theorem putting_call {c : Call} {q : Prog sig Unit}
    (h : (system N priority).calls .daemon c = some q) :
    q.ObeysFrom putting (fun _ _ => True) (putting.start c) := by
  cases c <;> cases h
  all_goals
    refine ⟨trivial, fun called => ?_⟩
    cases called
    case false => trivial
    case true  => exact putting_debounceTimerCb _ rfl

theorem entering_deinit : deinit.Obeys entering (· = false) fun _ _ => True := by
  have he : (perform .enterDeinit).Obeys entering (· = false) fun entered m => m = entered :=
    .perform (fun _ hm => hm ▸ rfl) fun _ _ _ => rfl
  refine .bind he fun entered => ?_
  cases entered
  case false => exact .pure fun _ _ => trivial
  case true  =>
    refine (Obeys.of_uses (B := Deinits) ?_ (fun o m ho hm => ?_) fun o m r ho hm => ?_).weaken
      (fun _ h => h) fun _ _ _ => trivial
    case refine_1 =>
      refine .bind (.perform trivial) fun _ => .bind (.perform trivial) fun _ => ?_
      refine .bind (.perform trivial) fun _ => .bind (.perform trivial) fun _ => ?_
      refine .bind (.perform trivial) fun _ => .bind uses_deinitEventQueue fun _ => ?_
      exact .bind uses_deinitTimer fun _ => .bind (.perform trivial) fun _ => .pure
    case refine_2 => exact hm ▸ ho
    case refine_3 => cases o <;> first | exact hm | cases ho

theorem entering_call {c : Call} {q : Prog sig Unit}
    (h : (system N priority).calls .task c = some q) :
    q.ObeysFrom entering (fun _ _ => True) (entering.start c) := by
  cases c <;> cases h
  exact Obeys.bind entering_deinit (fun _ => .pure fun _ _ => trivial) false rfl

-- At most one key is put into the event queue for each interrupt that started the timer.
structure Inv (N : ℕ) (putting : Bool) (s : State) (l : Log) : Prop where
  due     : s.timers.due = true → s.timers.listed = true
  starts  : l.put.length + s.timers.starts + putting.toNat ≤ l.interrupts
  queue   : ∃ queue, s.eventQueue = some queue ∧ l.received ++ queue = l.put ∧ queue.length ≤ N
  dropped : ∀ x ∈ l.scanned, x.put = false → x.waiting = N

variable {b : Bool}

theorem Inv.idle (h : Inv N b s l) : Inv N false s l :=
  { h with starts := Nat.le_trans (Nat.le_add_right ..) h.starts }

theorem Inv.keysInOrder (h : Inv N b s l) : KeysInOrder N s l where
  interrupts := by
    have hs := h.starts
    omega
  queue      := h.queue
  dropped    := h.dropped

theorem Inv.withTimers {timers : Timer.Service} {callback : Callback} {b' : Bool} (h : Inv N b s l)
    (hd : timers.due = true → timers.listed = true)
    (hs : timers.starts + b'.toNat ≤ s.timers.starts + b.toNat) :
    Inv N b' { s with timers, callback } l where
  due     := hd
  starts  := by
    have hi := h.starts
    show l.put.length + timers.starts + b'.toNat ≤ l.interrupts
    omega
  queue   := h.queue
  dropped := h.dropped

theorem Inv.writePin {port pins high} (h : Inv N b s l) : Inv N b (s.writePin port pins high) l := by
  cases port <;> exact ⟨h.due, h.starts, h.queue, h.dropped⟩

-- A key is dropped if and only if the queue is full.
theorem Inv.queueSend {t : Thread} {key : Char} (h : Inv N true s l) :
    Inv N false (s.queueSend N key)
      (logger.op t (.queueSend key) () s (s.queueSend N key) l) := by
  have ⟨queue, hq, ho, hl⟩ := h.queue
  have hs := h.starts
  rw [Bool.toNat_true] at hs
  by_cases hn : queue.length < N
  case pos =>
    have hq' : (s.queueSend N key).eventQueue = some (queue ++ [key]) := by
      simp [State.queueSend, hq, hn]
    have hp : (logger.op t (.queueSend key) () s (s.queueSend N key) l).put = l.put ++ [key] := by
      simp [logger, Log.put_scan, hq', hq]
    refine ⟨h.due, ?_, ⟨_, hq', ?_, ?_⟩, ?_⟩
    case refine_1 =>
      rw [hp, List.length_append]
      show l.put.length + 1 + s.timers.starts + 0 ≤ l.interrupts
      omega
    case refine_2 => rw [hp, ← ho, List.append_assoc]; rfl
    case refine_3 => rw [List.length_append]; exact hn
    case refine_4 =>
      intro x hx hf
      cases List.mem_append.mp hx
      case inl hx => exact h.dropped x hx hf
      case inr hx => simp [List.mem_singleton.mp hx, hq', hq] at hf
  case neg =>
    have hq' : (s.queueSend N key).eventQueue = some queue := by
      simp [State.queueSend, hq, hn]
    have hp : (logger.op t (.queueSend key) () s (s.queueSend N key) l).put = l.put := by
      simp [logger, Log.put_scan, hq', hq]
    refine ⟨h.due, ?_, ⟨_, hq', hp ▸ ho, hl⟩, ?_⟩
    case refine_1 => exact hp ▸ Nat.le_trans (Nat.le_succ _) hs
    case refine_2 =>
      intro x hx hf
      cases List.mem_append.mp hx
      case inl hx => exact h.dropped x hx hf
      case inr hx =>
        rw [List.mem_singleton.mp hx]
        simp only [hq, Option.getD_some]
        omega

theorem Inv.serves {o : Op} {r : sig.Ret o} (h : Inv N b s l) (ha : putting.allows b o)
    (hm : (r, s') ∈ s.exec N o) :
    Inv N (putting.next b o r) s' (logger.op .daemon o r s s' l) := by
  cases o
  case queueSend key =>
    cases List.mem_singleton.mp hm
    have hb : b = true := ha
    exact (hb ▸ h).queueSend
  case receiveCommand =>
    have ⟨⟨_, timers⟩, ht, he⟩ := List.mem_map.mp hm
    cases he
    have ht := Timer.Service.mem_processReceivedCommand ht
    refine h.withTimers (ht.due h.due) (Nat.le_trans ht.starts (Nat.le_add_right ..))
  case expireTimer =>
    have ⟨⟨_, timers⟩, ht, he⟩ := List.mem_map.mp hm
    cases he
    have ht := Timer.Service.mem_processExpiredTimer ht
    refine h.withTimers (ht.due h.due) (Nat.le_trans (ht.starts h.due) (Nat.le_add_right ..))
  case writeRows | lowerRow => cases List.mem_singleton.mp hm; exact h.writePin
  case readColumn | clearPending | loadImr | storeImr | leaveCallback =>
    cases List.mem_singleton.mp hm
    exact ⟨h.due, h.starts, h.queue, h.dropped⟩
  all_goals cases ha

theorem Inv.event {e : Event} (h : Inv N b s l) (he : s.event e = some s') :
    Inv N b s' (logger.event e s s' l) := by
  cases e <;> simp only [State.event] at he
  case press | release | edge => cases he; exact ⟨h.due, h.starts, h.queue, h.dropped⟩
  case irqHandler =>
    split at he <;> cases he
    obtain ⟨timers, imr, pr, he, ht⟩ := irqHandler_eq (s := s)
    have hs := h.starts
    rw [he]
    cases ht
    case inl ht =>
      refine ⟨ht ▸ h.due, ?_, h.queue, h.dropped⟩
      show l.put.length + timers.starts + b.toNat ≤ l.interrupts + 1
      rw [ht]
      omega
    case inr ht =>
      refine ⟨Timer.Service.send_eq ht ▸ h.due, ?_, h.queue, h.dropped⟩
      show l.put.length + timers.starts + b.toNat ≤ l.interrupts + 1
      rw [Timer.Service.starts_send ht, if_pos rfl]
      omega
  case otherCommand =>
    obtain ⟨timers, ht, he⟩ := Option.bind_eq_some_iff.mp he
    cases he
    refine h.withTimers (Timer.Service.send_eq ht ▸ h.due) ?_
    rw [Timer.Service.starts_send ht, if_neg (by simp)]
    exact Nat.le_refl _
  case expire =>
    obtain ⟨timers, ht, he⟩ := Option.bind_eq_some_iff.mp he
    cases he
    exact h.withTimers (Timer.Service.due_expire ht) (Nat.le_of_eq (by rw [Timer.Service.starts_expire ht]))
  case receive =>
    cases he
    obtain ⟨queue, hq, ho, hl⟩ := h.queue
    refine ⟨h.due, h.starts, ⟨queue.tail, by rw [hq]; rfl, ?_, ?_⟩, h.dropped⟩
    case refine_1 =>
      show l.received ++ (s.eventQueue.getD []).head?.toList ++ queue.tail = l.put
      rw [hq, ← ho, List.append_assoc]
      cases queue <;> rfl
    case refine_2 => exact Nat.le_trans (by simp) hl

theorem inDeinit_of_event {e : Event} (he : s.event e = some s') : s'.inDeinit = s.inDeinit :=
  ((happens_of_event he).rely .task).right.left

theorem inDeinit_of_enterDeinit {r : Bool} (h : (r, s') ∈ s.exec N .enterDeinit) :
    s'.inDeinit = (s.inDeinit || r) ∧ (r = false → s' = s) := by
  cases List.mem_singleton.mp h
  by_cases hi : s.isInitialized = true
  case pos => simp [State.enterDeinit, hi]
  case neg => simp [State.enterDeinit, Bool.not_eq_true _ ▸ hi]

variable {os : List (Occurrence sig Thread Call Event)} {p : Pool sig Thread (Logged State Log)}

-- What is kept in the run of a keypad, where the state of the monitors depends on what happened.
structure Kept (N : ℕ) (os : List (Occurrence sig Thread Call Event)) (s : State) (l : Log) : Prop where
  entered : Occurrence.observed entering .task os = true → s.inDeinit = true
  inv     : s.inDeinit = false → Inv N (Occurrence.observed putting .daemon os) s l

theorem Kept.call {t : Thread} {c : Call} (h : Kept N os s l) : Kept N (.call t c :: os) s l where
  entered := by
    cases t
    case daemon => exact h.entered
    case task   => exact nofun
  inv hd := by
    cases t
    case daemon => exact (h.inv hd).idle
    case task   => exact h.inv hd

theorem Kept.event {e : Event} (h : Kept N os s l) (he : s.event e = some s') :
    Kept N (.event e :: os) s' (logger.event e s s' l) where
  entered ho := (inDeinit_of_event he).trans (h.entered ho)
  inv hd     := (h.inv ((inDeinit_of_event he).symm.trans hd)).event he

theorem serves_of_allows {o : Op} (h : putting.allows b o) : Serves o := by
  cases o <;> trivial

theorem Kept.daemon {o : Op} {r : sig.Ret o} (h : Kept N os s l)
    (ha : putting.allows (Occurrence.observed putting .daemon os) o)
    (hm : (r, s') ∈ s.exec N o) :
    Kept N (.op .daemon o r :: os) s' (logger.op .daemon o r s s' l) where
  entered he := ((serves_of_allows ha).inDeinit hm).trans (h.entered he)
  inv hd     := (h.inv (((serves_of_allows ha).inDeinit hm).symm.trans hd)).serves ha hm

-- The task only tears something down once `deinit` has started.
theorem Kept.task {o : Op} {r : sig.Ret o} (h : Kept N os s l)
    (ha : entering.allows (Occurrence.observed entering .task os) o)
    (hm : (r, s') ∈ s.exec N o) :
    Kept N (.op .task o r :: os) s' (logger.op .task o r s s' l) := by
  cases hb : Occurrence.observed entering .task os <;> rw [hb] at ha
  case false =>
    have ho : o = .enterDeinit := ha
    subst ho
    have ⟨hd, he⟩ := inDeinit_of_enterDeinit hm
    refine ⟨fun hr => ?_, fun hn => ?_⟩
    case refine_1 =>
      have hr : r = true := hr
      rw [hd, hr, Bool.or_true]
    case refine_2 =>
      have ⟨hi, hr⟩ := Bool.or_eq_false_iff.mp (hd.symm.trans hn)
      rw [he hr]
      exact h.inv hi
  case true =>
    have hd := (Deinits.frame ha hm).left.trans (h.entered hb)
    exact ⟨fun _ => hd, fun hn => absurd (hd.symm.trans hn) nofun⟩

theorem kept_of_history {l₀ : Log} (hi : Inv N false s l₀)
    (h : (logged N priority).History .any (.idle ⟨s, l₀⟩) os p) :
    Kept N os p.shared.state p.shared.log := by
  induction h
  case refl => exact ⟨nofun, fun _ => hi⟩
  case call hi => exact hi.call
  case event s' _ _ he hi =>
    have ⟨he, hl⟩ := System.event_logged he
    show Kept N _ s'.state s'.log
    exact hl ▸ hi.event he
  case op os p t o k r s' h ht _ hm hi =>
    have ⟨hm, hl⟩ := System.mem_exec_logged hm
    have he := (mem_exec hm).right
    show Kept N _ s'.state s'.log
    rw [hl]
    cases t
    case daemon =>
      have hc : ∀ c q, (system N priority).calls .daemon c = some q →
          q.ObeysFrom putting (fun _ _ => True) (putting.start c) := fun _ _ => putting_call
      have hp := h.obeys (t := .daemon) trivial hc
      exact hi.daemon (ht ▸ hp).left he
    case task =>
      have hc : ∀ c q, (system N priority).calls .task c = some q →
          q.ObeysFrom entering (fun _ _ => True) (entering.start c) := fun _ _ => entering_call
      have hp := h.obeys (t := .task) trivial hc
      exact hi.task (ht ▸ hp).left he

theorem eventQueue_of_init {config : Config} {odr imr pr} (h : State.init config odr imr pr = .ok s) :
    s.eventQueue = some [] := by
  simp only [State.init] at h
  split at h
  case isTrue => cases h
  split at h <;> cases h
  case isFalse =>
    unfold State.afterInit State.writePin
    cases config.rowPort <;> rfl

theorem inv_of_init {config : Config} {odr imr pr} (h : State.init config odr imr pr = .ok s) :
    Inv N false s .empty := by
  have hi := initialized_of_init h
  refine ⟨fun hd => ?_, ?_, ?_, nofun⟩
  case refine_1 => rw [hi.timers] at hd; cases hd
  case refine_2 => rw [hi.timers]; exact Nat.le_refl _
  case refine_3 => exact ⟨[], eventQueue_of_init h, rfl, Nat.zero_le _⟩

end Events

open Events

-- An initialized keypad gives away each key that it puts into its event queue once and in order.
theorem keysInOrder_of_reaches {N priority : ℕ} {config : Config} {odr imr pr} {s : State}
    {p : Pool sig Thread (Logged State Log)} (hs : State.init config odr imr pr = .ok s)
    (h : (logged N priority).Reaches .any (.idle ⟨s, .empty⟩) p)
    (hd : p.shared.state.inDeinit = false) : KeysInOrder N p.shared.state p.shared.log := by
  have ⟨_, h⟩ := System.History.of_reaches h
  exact ((kept_of_history (inv_of_init hs) h).inv hd).keysInOrder

-- An interrupt and a scan that finds the first key.
theorem keysInOrder_pressed :
    ∃ p, (logged 1 0).Reaches .any (.idle ⟨.lowPins, .empty⟩) p ∧
      p.shared.log.put = ['1'] ∧ KeysInOrder 1 p.shared.state p.shared.log := by
  have ⟨p, hr, hp⟩ := (logged 1 0).exists_reaches_of_run .any (.idle ⟨.lowPins, .empty⟩)
    (fun s => decide (s.log.put = ['1'] ∧ s.state.inDeinit = false))
    [.event (.press ⟨0, by decide⟩ ⟨0, by decide⟩), .event .irqHandler,
      .call .daemon .processReceivedCommand, .op .daemon 0, .event .expire,
      .call .daemon .processExpiredTimer, .op .daemon 0, .op .daemon 0, .op .daemon 0,
      .op .daemon 0, .op .daemon 0] (by decide +kernel)
  have ⟨hl, hd⟩ := of_decide_eq_true hp
  exact ⟨p, hr, hl, keysInOrder_of_reaches State.init_lowPins hr hd⟩

end Keypad
