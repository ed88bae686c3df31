import SecureHome.Gsm.Complete

open FreeRTOS Hal

namespace Gsm

namespace HalfTransfer

variable {s s' : State Unit} {reply txCmd : List UInt8} {e : Event Unit} {k : ℕ}

-- The first bytes of the reply have been received.
structure Receives (reply : List UInt8) (k : ℕ) (s : State Unit) : Prop where
  calling  : s.callingTaskHandle = some ()
  rxState  : s.huart.rxState = .busyRx
  size     : s.huart.rxXferSize = uartIdleLineBufByte
  rxCount  : s.huart.rxCount = k
  halfFlag : s.huart.halfFlag = decide (k = 32)
  line     : s.sim800l.line.length + k = reply.length
  value    : (s.notifications ()).value = 0
  history  : s.history = []

-- The task has been notified of a half transfer.
structure Woken (s : State Unit) : Prop where
  size    : s.rxIdleLineSize = 32
  value   : (s.notifications ()).value = 1
  blocked : (s.notifications ()).blocked = false
  history : ∀ rxCmd r contents, .transact () rxCmd r contents ∉ s.history

-- What a task has returned is not more than half of the buffer.
def Short (s : State Unit) : Prop :=
  ∀ rxCmd size contents, .transact () rxCmd (.ok size) contents ∈ s.history → size ≤ 32

theorem Receives.rxByte (h : Receives reply k s) (hk : k < 32) (hn : 32 < reply.length) :
    ∃ s', s.event .rxByte = some s' ∧ Receives reply (k + 1) s' := by
  have hr : s.huart.Receives := by
    refine ⟨h.rxState, ?_⟩
    rw [h.size, h.rxCount, uartIdleLineBufByte]
    omega
  cases hl : s.sim800l.line
  case nil =>
    have := h.line
    rw [hl, List.length_nil] at this
    omega
  case cons c line =>
    refine ⟨s.rxByte c line, by simp only [State.event, hl], ?_⟩
    simp only [State.rxByte, Uart.rxByte, if_pos hr]
    constructor
    case calling  => exact h.calling
    case rxState  => exact h.rxState
    case size     => exact h.size
    case rxCount  => exact congrArg (· + 1) h.rxCount
    case halfFlag =>
      simp only [h.halfFlag, h.rxCount, h.size, uartIdleLineBufByte]
      grind
    case line     =>
      have := h.line
      rw [hl, List.length_cons] at this
      simp only
      omega
    case value    => exact h.value
    case history  => exact h.history

theorem Receives.reaches (h : Receives reply 0 s) (hn : 32 < reply.length)
    (threads : Unit → Prog sig Unit) (hk : k ≤ 32) :
    ∃ s', Receives reply k s' ∧ (system noCalls).Reaches (repliesWith reply)
      { threads, shared := s } { threads, shared := s' } := by
  induction k
  case zero => exact ⟨s, h, .refl⟩
  case succ k hi =>
    have ⟨s₁, h₁, hr⟩ := hi (Nat.le_of_succ_le hk)
    have ⟨s₂, he, h₂⟩ := h₁.rxByte hk hn
    exact ⟨s₂, h₂, hr.trans (.event (e := Event.rxByte) trivial he)⟩

theorem Receives.reaches_woken (h : Receives reply 32 s) (threads : Unit → Prog sig Unit) :
    ∃ s', Woken s' ∧ (system noCalls).Reaches (repliesWith reply)
      { threads, shared := s } { threads, shared := s' } := by
  have he : s.event .dmaIrq =
      some ({ s with huart.halfFlag := false }.rxEventCallback (s.huart.rxXferSize / 2)) := by
    simp [State.event, Uart.dmaIrqHandler, h.halfFlag, State.handled]
  rw [Replying.rxEventCallback_eq h.calling] at he
  refine ⟨_, ?_, .event (e := Event.dmaIrq) trivial he⟩
  constructor
  case size    => exact h.size ▸ rfl
  case value   => exact congrArg (· + 1) h.value
  case blocked => rfl
  case history => simp [State.record, State.setNotification, h.history]

-- The command goes out while the task waits.
structure Transmits (s : State Unit) : Prop where
  gState     : s.huart.gState = .busyTx
  unanswered : s.sim800l.unanswered = []
  receives   : Receives [] 0 s

theorem Transmits.reaches_woken (h : Transmits s) (hn : 32 < reply.length)
    (threads : Unit → Prog sig Unit) :
    ∃ s', Woken s' ∧ (system noCalls).Reaches (repliesWith reply)
      { threads, shared := s } { threads, shared := s' } := by
  have h₁ : s.event .endTransmit =
      some { s with huart.gState := .ready, sim800l.unanswered := [s.huart.txFor] } := by
    simp only [State.event, Uart.endTransmit, if_pos h.gState, h.unanswered, List.nil_append]
    rfl
  have hl : s.sim800l.line = [] := List.length_eq_zero_iff.mp h.receives.line
  have h₃ : Receives reply 0 { s with
      huart.gState := .ready
      sim800l      := {
        unanswered := []
        line       := s.sim800l.line ++ reply.map ({ char := ·, origin := some s.huart.txFor }) } } :=
    { h.receives with line := by simp [hl] }
  obtain ⟨s₃, h₃, hr⟩ := h₃.reaches (k := 32) hn threads le_rfl
  obtain ⟨s₄, h₄, hr'⟩ := h₃.reaches_woken threads
  refine ⟨s₄, h₄, .trans (.event (e := Event.endTransmit) trivial h₁) (.trans ?_ (hr.trans hr'))⟩
  exact .event (e := Event.answer reply) rfl rfl

theorem attains_transmits (hs : Quiet s) (ht : txCmd ≠ []) :
    (system noCalls).Attains () (fun q s => Transmits s ∧ ∀ s', Woken s' →
        (system noCalls).Attains () (fun q s => q = .pure () ∧ Short s) q s')
      (serve (.transact txCmd)) s := by
  open State.Performs in
  refine newBuffer.attains ?_
  refine setCallingTaskHandle.attains ?_
  refine attains (receiveToIdleDma hs.rxState hs.dmaFault (by decide)) ?_
  refine attains (transmitDma hs.gState rfl ht) ?_
  refine notifyTakeEnter.attains (.here ⟨?_, fun s' h => ?_⟩)
  case refine_1 =>
    have hv : (s.notifications ()).notifyTakeEnter.value = 0 := by
      simp [Notification.notifyTakeEnter, hs.value]
    exact ⟨rfl, hs.unanswered, rfl, rfl, rfl, rfl, rfl, by simp [State.setNotification, hs.line], hv, hs.history⟩
  case refine_2 =>
    refine attains (notifyTake h.blocked (by simp [h.value])) ?_
    rw [h.value]
    refine loadRxIdleLineSize.attains ?_
    refine resetRxIdleLineSize.attains ?_
    refine resetCallingTaskHandle.attains ?_
    refine transacted.attains (.here ⟨rfl, ?_⟩)
    intro rxCmd size contents hm
    rcases List.mem_cons.mp hm with hm | hm
    · cases hm
      exact h.size.le
    · rcases List.mem_cons.mp hm with hm | hm
      · contradiction
      · exact (h.history _ _ _ hm).elim

-- The task returns the first half of a reply that is longer.
theorem reaches_short (hs : Quiet s) (ht : txCmd ≠ []) (hn : 32 < reply.length) :
    ∃ p, (system noCalls).Reaches (repliesWith reply)
      { threads := fun _ => serve (.transact txCmd), shared := s } p ∧
        p.threads () = .pure () ∧ Short p.shared := by
  have ⟨p₁, hr₁, h₁, ha⟩ := System.Reaches.attains (C := repliesWith reply) (t := ())
    (p := { threads := fun _ => serve (.transact txCmd), shared := s }) (fun _ _ => trivial)
    (attains_transmits hs ht)
  have ⟨s₂, h₂, hr₂⟩ := h₁.reaches_woken hn p₁.threads
  have ⟨p₃, hr₃, h₃⟩ := System.Reaches.attains (C := repliesWith reply) (t := ())
    (p := { threads := p₁.threads, shared := s₂ }) (fun _ _ => trivial) (ha s₂ h₂)
  exact ⟨p₃, hr₁.trans (hr₂.trans hr₃), h₃⟩

theorem Short.happens (h : Short s) (he : s.Happens e s') : Short s' := by
  intro rxCmd size contents hm
  apply h rxCmd size contents
  cases he
  case switchIrq => simpa [State.record, State.setNotification] using hm
  case idleIrq | halfIrq | cpltIrq =>
    unfold State.rxEventCallback at hm
    split at hm
    · exact hm
    · simpa [State.record, State.setNotification] using hm
  all_goals exact hm

theorem Short.not_returned (h : Short s) (hn : 32 < reply.length) : ¬Returned reply s := by
  rintro ⟨rxCmd, size, contents, hm, rfl⟩
  have := h rxCmd size contents hm
  simp at hn
  omega

theorem not_inevitable (hs : Quiet s) (ht : txCmd ≠ []) (hn : 32 < reply.length) :
    ¬(system noCalls).Inevitable (repliesWith reply) (fun p => Returned reply p.shared)
      { threads := fun _ => serve (.transact txCmd), shared := s } := by
  intro h
  have ⟨p, hr, hp⟩ := reaches_short hs ht hn
  refine (h.of_reaches ?_ hr).not_of_invariant
    (B := fun p => p.threads () = .pure () ∧ Short p.shared) ?_ ?_ hp
  case refine_1 =>
    intro p l p' ⟨rxCmd, size, contents, hm, hr⟩ hs
    refine ⟨rxCmd, size, contents, List.IsSuffix.subset ?_ hm, hr⟩
    cases System.steps_of_step hs
    case call     => exact List.suffix_rfl
    case op hm    => exact (State.performs_of_exec hm).history
    case event he => exact (State.happens_of_event he).history
  case refine_2 => exact fun p hp => hp.right.not_returned hn
  case refine_3 =>
    intro p l p' ⟨ht, hp⟩ hs
    cases System.steps_of_step hs
    case call hq  => simp [system_calls_eq_some_iff, noCalls] at hq
    case op ht' _ => cases ht.symm.trans ht'
    case event he => exact ⟨ht, hp.happens (State.happens_of_event he)⟩

theorem quiet_init : Quiet (.init fun _ => none) :=
  ⟨rfl, rfl, rfl, rfl, rfl, rfl, rfl, rfl, rfl, rfl, rfl⟩

end HalfTransfer

open HalfTransfer

-- A task gets the whole reply, however it is scheduled, if and only if the reply is not longer than
-- half of the buffer.
theorem inevitable_returned_iff {txCmd reply : List UInt8} {s : State Unit} (hs : Quiet s)
    (ht : txCmd ≠ []) (h₁ : 1 ≤ reply.length) :
    (system noCalls).Inevitable (repliesWith reply) (fun p => Returned reply p.shared)
        { threads := fun _ => serve (.transact txCmd), shared := s } ↔
      reply.length ≤ uartIdleLineBufByte / 2 := by
  constructor
  case mpr => exact Replying.inevitable_returned hs ht h₁
  case mp =>
    intro h
    by_contra hn
    exact not_inevitable hs ht (not_le.mp hn) h

-- The reply to the first command after a reset.
theorem inevitable_returned_ok :
    (system noCalls).Inevitable (repliesWith (text "OK")) (fun p => Returned (text "OK") p.shared)
      { threads := fun _ => serve (.transact CmdT.at.tx), shared := .init fun _ => none } :=
  (inevitable_returned_iff quiet_init (by decide) (by decide)).mpr (by decide)

-- A task may get no more than the first half of a reply of 40 bytes.
theorem not_inevitable_returned :
    ¬∀ (txCmd reply : List UInt8) (s : State Unit), Quiet s → txCmd ≠ [] → 1 ≤ reply.length →
      reply.length ≤ uartIdleLineBufByte →
        (system noCalls).Inevitable (repliesWith reply) (fun p => Returned reply p.shared)
          { threads := fun _ => serve (.transact txCmd), shared := s } := by
  intro h
  have hi := h CmdT.at.tx (.replicate 40 65) _ quiet_init (by decide) (by decide) (by decide)
  exact not_inevitable quiet_init (by decide) (by decide) hi

end Gsm
