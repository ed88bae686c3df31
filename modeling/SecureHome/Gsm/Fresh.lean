import SecureHome.Gsm.Rules
import SecureHome.Gsm.Steps

open FreeRTOS Hal

namespace Gsm

variable {τ : Type}

-- The receive events behind the notification that is pending, latest first. Each one comes with
-- the buffer of its reception and the number of bytes in it.
def raised : List (Entry τ) → List (Buffer × ℕ)
  | .rxEvent _ data size :: es => (data, size) :: raised es
  | .take _ :: _ | .wait .. :: _ | [] => []
  | _ :: es => raised es

-- The receive events behind the last notification that was taken.
def taken : List (Entry τ) → List (Buffer × ℕ)
  | .take _ :: es => raised es
  | _ :: es       => taken es
  | []            => []

-- A transaction that succeeds has got its notification from its own reception, and its view is as
-- long as the last receive event says.
def Fresh : List (Entry τ) → Prop
  | .transact _ rxCmd (.ok size) _ :: es =>
    ((∀ e ∈ taken es, e.fst = rxCmd) ∧ (taken es).head? = some (rxCmd, size)) ∧ Fresh es
  | _ :: es => Fresh es
  | []      => True

-- The statements at which no notification is to be pending.
def expectsNothing : Op → Bool
  | .receiveToIdleDma .. | .loadRxIdleLineSize => true
  | _                                          => false

-- No notification is pending when a reception is started, nor when the size of the view is read.
def nothingRaised : Pool.Cond sig Unit (Event Unit) (State Unit) where
  op _ o s  := expectsNothing o = true → raised s.history = []
  event _ _ := True

instance (t : Unit) (o : Op) (s : State Unit) : Decidable (nothingRaised.op t o s) :=
  inferInstanceAs (Decidable (_ → _))

instance (e : Event Unit) (s : State Unit) : Decidable (nothingRaised.event e s) :=
  inferInstanceAs (Decidable True)

def onlyTransact (_ : Unit) : Call → Bool
  | .transact _ => true
  | _           => false

namespace Freshness

structure Inv (s : State Unit) : Prop where
  switches : s.switches = fun _ => none
  fresh    : Fresh s.history
  counted  : raised s.history = [] → (s.notifications ()).value = 0

-- The effect of an event, which may be a receive event.
structure Evolves (s s' : State Unit) : Prop where
  buffer  : s'.huart.pRxBuffPtr = s.huart.pRxBuffPtr
  history : s'.history = s.history ∧ s'.rxIdleLineSize = s.rxIdleLineSize ∨
    ∃ size, s'.history = .rxEvent () s.huart.pRxBuffPtr size :: s.history ∧
      s'.rxIdleLineSize = size

def outline : Outline Unit (State Unit) (State Unit) :=
  .direct Inv fun _ => Evolves

variable {s s' : State Unit} {rxCmd : Buffer} {size : ℕ} {P : State Unit → Prop}

theorem Inv.congr (h : Inv s) (hs : s'.switches = s.switches) (hh : s'.history = s.history)
    (hn : s'.notifications = s.notifications) : Inv s' where
  switches := hs ▸ h.switches
  fresh    := hh ▸ h.fresh
  counted  := hh ▸ hn ▸ h.counted

theorem evolves_rxEventCallback (huart : Uart) (hb : huart.pRxBuffPtr = s.huart.pRxBuffPtr)
    (size : ℕ) : Evolves s ({ s with huart }.rxEventCallback size) := by
  unfold State.rxEventCallback
  split
  case h_1 => exact ⟨hb, .inl ⟨rfl, rfl⟩⟩
  case h_2 => exact ⟨hb, .inr ⟨size, by simp [State.record, State.setNotification, hb], rfl⟩⟩

theorem Inv.rxEventCallback (h : Inv s) (huart : Uart) (size : ℕ) :
    Inv ({ s with huart }.rxEventCallback size) := by
  unfold State.rxEventCallback
  split
  case h_1 => exact h.congr rfl rfl rfl
  case h_2 => exact ⟨h.switches, h.fresh, nofun⟩

theorem Inv.happens {e : Event Unit} (h : Inv s) (he : s.Happens e s') : Inv s' ∧ Evolves s s' := by
  cases he
  case switchIrq hs => simp [h.switches] at hs
  case expire =>
    refine ⟨⟨h.switches, h.fresh, fun hr => ?_⟩, rfl, .inl ⟨rfl, rfl⟩⟩
    simp [State.setNotification, h.counted hr]
  case rxByte =>
    refine ⟨h.congr rfl rfl rfl, ?_, .inl ⟨rfl, rfl⟩⟩
    simp only [State.rxByte, Uart.rxByte]
    split <;> rfl
  case idleIrq | halfIrq | cpltIrq =>
    refine ⟨h.rxEventCallback _ _, evolves_rxEventCallback _ ?_ _⟩
    rfl
  all_goals exact ⟨h.congr rfl rfl rfl, rfl, .inl ⟨rfl, rfl⟩⟩

theorem Inv.performs {o : Op} {r : sig.Ret o} (h : Inv s) (ho : ∀ rxCmd r, o ≠ .transacted rxCmd r)
    (hp : s.Performs () o r s') : Inv s' := by
  cases hp
  case transacted => exact (ho _ _ rfl).elim
  case accept     => exact ⟨h.switches, h.fresh, h.counted⟩
  case notifyTakeEnter =>
    refine ⟨h.switches, h.fresh, fun hr => ?_⟩
    simp [State.setNotification, Notification.notifyTakeEnter, h.counted hr]
  case notifyWaitEnter =>
    refine ⟨h.switches, h.fresh, fun hr => ?_⟩
    have hv := h.counted hr
    simp only [State.setNotification, Function.update_self, Notification.notifyWaitEnter]
    split <;> exact hv
  case notifyWaitTimeout hr =>
    refine ⟨h.switches, h.fresh, fun hh => ?_⟩
    simpa [State.setNotification, Notification.notifyWait, hr] using h.counted hh
  case notifyWait hr =>
    exact ⟨h.switches, h.fresh, by simp [State.record, State.setNotification, Notification.notifyWait, hr]⟩
  case notifyTake | notifyTakeTimeout =>
    refine ⟨h.switches, h.fresh, fun _ => ?_⟩
    simp [State.record, State.setNotification, Notification.notifyTake]
  all_goals exact h.congr rfl rfl rfl

theorem guar (h : Inv s') : outline.Guar () s s' :=
  ⟨h, fun _ hu => absurd rfl hu⟩

theorem does {o : Op} {Q : sig.Ret o → State Unit → Prop} (hp : outline.Stable () P)
    (ho : ∀ rxCmd r, o ≠ .transacted rxCmd r)
    (h : ∀ s r s', Inv s → P s → nothingRaised.op () o s → s.Performs () o r s' → Q r s') :
    Does outline onlyTransact nothingRaised () P o Q :=
  .direct_perform hp fun s r s' hi hs hc hm =>
    have hp := State.performs_of_exec hm
    ⟨guar (hi.performs ho hp), h s r s' hi hs hc hp⟩

-- All pending receive events are of the reception, and the last one has set the size.
structure Receiving (rxCmd : Buffer) (s : State Unit) : Prop where
  buffer : s.huart.pRxBuffPtr = rxCmd
  own    : ∀ e ∈ raised s.history, e.fst = rxCmd
  size   : ∀ e, (raised s.history).head? = some e → s.rxIdleLineSize = e.snd

-- The notification that was taken is of the reception.
def Own (rxCmd : Buffer) (size : ℕ) (s : State Unit) : Prop :=
  (∀ e ∈ taken s.history, e.fst = rxCmd) ∧ (taken s.history).head? = some (rxCmd, size)

-- The size has not changed since, unless there was another receive event.
structure Received (rxCmd : Buffer) (s : State Unit) : Prop where
  own : ∃ size, Own rxCmd size s ∧ (raised s.history = [] → s.rxIdleLineSize = size)

theorem stable_true : outline.Stable () fun _ => True :=
  fun _ _ _ _ => trivial

theorem Evolves.taken (h : Evolves s s') : taken s'.history = Gsm.taken s.history := by
  rcases h.history with ⟨hh, _⟩ | ⟨_, hh, _⟩ <;> rw [hh]
  rfl

theorem stable_own : outline.Stable () (Own rxCmd size) :=
  fun s s' ⟨_, _, (he : Evolves s s')⟩ h => by simpa only [Own, he.taken] using h

theorem stable_receiving : outline.Stable () (Receiving rxCmd) := by
  intro s s' ⟨_, _, he⟩ h
  rcases he.history with ⟨hh, hs⟩ | ⟨size, hh, hs⟩
  case inl => exact ⟨he.buffer.trans h.buffer, hh ▸ h.own, hh ▸ hs ▸ h.size⟩
  case inr =>
    refine ⟨he.buffer.trans h.buffer, ?_, ?_⟩ <;> rw [hh]
    · simpa [raised, h.buffer] using h.own
    · simp [raised, hs]

theorem stable_received : outline.Stable () (Received rxCmd) := by
  intro s s' hi h
  have ⟨size, ho, hs⟩ := h.own
  refine ⟨size, stable_own s s' hi ho, ?_⟩
  rcases hi.right.right.history with ⟨hh, hs'⟩ | ⟨_, hh, _⟩ <;> rw [hh]
  · rwa [hs']
  · nofun

theorem Receiving.notifyTake (h : Receiving rxCmd s) (hi : Inv s)
    (hv : (s.notifications ()).value ≠ 0) :
    Received rxCmd ((s.setNotification () (s.notifications ()).notifyTake.2).record (.take ())) := by
  have ⟨e, es, hr⟩ := List.exists_cons_of_ne_nil (mt hi.counted hv)
  have he : e.fst = rxCmd := h.own e (hr ▸ List.mem_cons_self)
  have hs : s.rxIdleLineSize = e.snd := h.size e (hr ▸ rfl)
  refine ⟨e.snd, ⟨h.own, ?_⟩, fun _ => hs⟩
  show (raised s.history).head? = _
  rw [hr, ← he]
  rfl

theorem exchanges (txCmd : List UInt8) (rxCmd : Buffer) :
    Exchanges outline onlyTransact nothingRaised () txCmd rxCmd (fun _ => True) (fun _ => True)
      (Receiving rxCmd) (Receiving rxCmd) (Receiving rxCmd) (fun _ => True) (Received rxCmd)
      (fun _ => True) (Own rxCmd) where
  setCallingTaskHandle := does stable_true nofun fun _ _ _ _ _ _ _ => trivial
  receiveToIdleDma     := does stable_true nofun fun s r s' _ _ hc hp => by
    cases hp
    case receiveToIdleDma => exact ⟨rfl, by simp [hc rfl], by simp [hc rfl]⟩
    all_goals trivial
  transmitDma          := does stable_receiving nofun fun s r s' _ h _ hp => by
    cases hp
    case transmitDma => exact ⟨h.buffer, h.own, h.size⟩
    all_goals trivial
  notifyTakeEnter      := does stable_receiving nofun fun s r s' _ h _ hp => by
    cases hp
    exact ⟨h.buffer, h.own, h.size⟩
  notifyTake           := does stable_receiving nofun fun s r s' hi h _ hp => by
    cases hp
    case notifyTake _ hv   => rw [if_neg hv]; exact h.notifyTake hi hv
    case notifyTakeTimeout => trivial
  abort                := does stable_true nofun fun _ _ _ _ _ _ _ => trivial
  loadRxIdleLineSize   := does stable_received nofun fun s r s' _ h hc hp => by
    cases hp
    have ⟨size, ho, hs⟩ := h.own
    rwa [hs (hc rfl)]

theorem cleans_own : Cleans outline onlyTransact nothingRaised () (Own rxCmd size) where
  resetRxIdleLineSize    := does stable_own nofun fun s r s' _ h _ hp => by
    cases hp
    exact h
  resetCallingTaskHandle := does stable_own nofun fun s r s' _ h _ hp => by
    cases hp
    exact h

theorem cleans_true : Cleans outline onlyTransact nothingRaised () fun _ => True where
  resetRxIdleLineSize    := does stable_true nofun fun _ _ _ _ _ _ _ => trivial
  resetCallingTaskHandle := does stable_true nofun fun _ _ _ _ _ _ _ => trivial

theorem does_transacted {r : Except ErrorT ℕ} (hp : outline.Stable () P)
    (h : ∀ s, P s → ∀ size, r = .ok size → Own rxCmd size s) :
    Does outline onlyTransact nothingRaised () P (.transacted rxCmd r) fun _ _ => True := by
  apply Outline.Triple.direct_perform hp
  intro s _ s' hi hs _ hm
  cases State.performs_of_exec hm
  refine ⟨guar ⟨hi.switches, ?_, hi.counted⟩, trivial⟩
  cases hr : r
  case ok    => exact ⟨h s hs _ hr, hi.fresh⟩
  case error => exact hi.fresh

theorem runs_transact (txCmd : List UInt8) (rxCmd : Buffer) :
    Runs outline onlyTransact nothingRaised () (fun _ => True) (transact txCmd rxCmd)
      (fun _ _ => True) fun _ => True :=
  .transact (.exchange (exchanges txCmd rxCmd)) (fun _ => cleans_own) cleans_true
    (fun _ => does_transacted stable_own fun _ h _ hr => by cases hr; exact h)
    fun _ => does_transacted stable_true fun _ _ _ hr => nomatch hr

theorem valid : outline.Valid (system onlyTransact) nothingRaised fun _ _ => True where
  event s e s' hi _ he :=
    have ⟨hi', hs⟩ := hi.happens (State.happens_of_event he)
    ⟨s', rfl, hi', fun _ => hs⟩
  stable _ := stable_true
  call t c q hq := by
    have ⟨hc, hq⟩ := system_calls_eq_some_iff.mp hq
    subst hq
    cases c <;> try contradiction
    case transact txCmd =>
      apply Runs.serve
      apply Runs.transactCall (does stable_true nofun fun _ _ _ _ _ _ _ => trivial)
      exact runs_transact txCmd

end Freshness

open Freshness

-- The state of a transaction does not leak into the next one as long as no notification is left.
theorem fresh_of_nothingRaised {p : Pool sig Unit (State Unit)}
    (h : (system onlyTransact).Reaches nothingRaised (.idle (.init fun _ => none)) p) :
    Fresh p.shared.history := by
  have hi : Inv (.init fun _ => none) := ⟨rfl, trivial, fun _ => rfl⟩
  have ⟨s, hs⟩ := valid.sound hi (fun _ => trivial) h
  exact hs.shared ▸ hs.inv.fresh

-- The reply of the module to a command.
theorem fresh_of_reply : ∃ s : State Unit, Fresh s.history ∧
    ∃ contents, s.history.head? = some (.transact () 0 (.ok 2) contents) := by
  have ⟨p, hr, hp⟩ := (system onlyTransact).exists_reaches_of_run nothingRaised
    (.idle (.init fun _ => none))
    (fun s => s.history.head? = some (.transact () 0 (.ok 2)
      ({ char := 79, origin := some 0 } :: { char := 75, origin := some 0 } ::
        List.replicate 62 .zero)))
    ([.call () (.transact CmdT.at.tx)] ++ List.replicate 5 (.op () 0) ++
      [.event .endTransmit, .event (.answer (text "OK")), .event .rxByte, .event .rxByte,
        .event .idleLine, .event .idleIrq] ++ List.replicate 5 (.op () 0)) (by decide +kernel)
  exact ⟨p.shared, fresh_of_nothingRaised hr, _, of_decide_eq_true hp⟩

-- A reply comes after its command has timed out, but before the reception is aborted. The next
-- command takes its notification and returns an empty view.
theorem not_fresh :
    ¬∀ p, (system onlyTransact).Reaches .any (.idle (.init fun _ => none)) p →
      Fresh p.shared.history := by
  intro h
  have ⟨p, hr, hp⟩ := (system onlyTransact).exists_reaches_of_run .any
    (.idle (.init fun _ => none))
    (fun s => s.history.head? = some (.transact () 1 (.ok 0) (List.replicate 64 .zero)) ∧
      taken s.history = [(0, 2)])
    ([.call () (.transact CmdT.at.tx)] ++ List.replicate 5 (.op () 0) ++
      [.event .endTransmit, .event (.expire ()), .op () 0, .event (.answer (text "OK")),
        .event .rxByte, .event .rxByte, .event .idleLine, .event .idleIrq] ++
      List.replicate 4 (.op () 0) ++
      [.call () (.transact CmdT.at.tx)] ++ List.replicate 10 (.op () 0)) (by decide +kernel)
  have ⟨hl, ht⟩ := of_decide_eq_true hp
  have hf := h p hr
  cases hh : p.shared.history <;> rw [hh] at hl ht hf <;> cases hl
  have he := hf.left.left (0, 2) (ht ▸ List.mem_singleton_self _)
  contradiction

end Gsm
