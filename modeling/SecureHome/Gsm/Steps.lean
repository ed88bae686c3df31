import SecureHome.Gsm.Driver

open FreeRTOS Hal

namespace Gsm.State

variable {τ : Type} [DecidableEq τ]

-- All that can happen in an event.
inductive Happens (s : State τ) : Event τ → State τ → Prop
  | switchIrq {type t} (hs : s.switches type = some t) :
    Happens s (.switchIrq type)
      ((s.setNotification t (Switch.irqHandler type (s.notifications t))).record
        (.switchEvent type))
  | expire {t} (hb : (s.notifications t).blocked = true) :
    Happens s (.expire t) (s.setNotification t { s.notifications t with blocked := false })
  | dmaFault : Happens s .dmaFault { s with dmaFault := true }
  | endTransmit (hg : s.huart.gState = .busyTx) :
    Happens s .endTransmit { s with
      huart.gState       := .ready
      sim800l.unanswered := s.sim800l.unanswered ++ [s.huart.txFor] }
  | answer {text rxCmd rxCmds} (hu : s.sim800l.unanswered = rxCmd :: rxCmds) :
    Happens s (.answer text) { s with sim800l := {
      unanswered := rxCmds
      line       := s.sim800l.line ++ text.map ({ char := ·, origin := some rxCmd }) } }
  | unsolicited {text} :
    Happens s (.unsolicited text) { s with
      sim800l.line := s.sim800l.line ++ text.map ({ char := ·, origin := none }) }
  | rxByte {c line} (hl : s.sim800l.line = c :: line) : Happens s .rxByte (s.rxByte c line)
  | idleLine (ha : s.huart.idleArmed = true) :
    Happens s .idleLine { s with huart.idleFlag := true, huart.idleArmed := false }
  -- Some of the bytes that the buffer has room for were received.
  | idleIrq (hr : s.huart.rxState = .busyRx) (hf : s.huart.idleFlag = true)
    (hp : 0 < s.huart.rxCount) (hl : s.huart.rxCount < s.huart.rxXferSize) :
    Happens s .idleIrq
      ({ s with huart := { s.huart with idleFlag := false }.endRxTransfer }.rxEventCallback
        s.huart.rxCount)
  | ignoredIdleIrq (hr : s.huart.rxState = .busyRx) (hf : s.huart.idleFlag = true)
    (hc : s.huart.rxCount = 0 ∨ s.huart.rxXferSize ≤ s.huart.rxCount) :
    Happens s .idleIrq { s with huart.idleFlag := false }
  | halfIrq (hf : s.huart.halfFlag = true) :
    Happens s .dmaIrq
      ({ s with huart.halfFlag := false }.rxEventCallback (s.huart.rxXferSize / 2))
  | cpltIrq (hh : s.huart.halfFlag = false) (hf : s.huart.cpltFlag = true) :
    Happens s .dmaIrq
      ({ s with huart := s.huart.endRxTransfer }.rxEventCallback s.huart.rxXferSize)
  | errorIrq (hr : s.huart.rxState = .busyRx) :
    Happens s .errorIrq { s with huart := s.huart.endRxTransfer }

-- All that can happen in an operation of a task.
inductive Performs (t : τ) (s : State τ) : (o : Op) → sig.Ret o → State τ → Prop
  | isInitialized : Performs t s .isInitialized s.isInitialized s
  | setInitialized : Performs t s .setInitialized () { s with isInitialized := true }
  | createMutex : Performs t s .createMutex () { s with taskMutex := .free }
  | takeMutex (hm : s.taskMutex = .free) :
    Performs t s .takeMutex true { s with taskMutex := .heldBy t 1 }
  | takeMutexAgain {depth} (hm : s.taskMutex = .heldBy t depth) :
    Performs t s .takeMutex true { s with taskMutex := .heldBy t (depth + 1) }
  | takeMutexTimeout {u depth} (hm : s.taskMutex = .heldBy u depth) (hu : u ≠ t) :
    Performs t s .takeMutex false s
  | giveMutex {u depth} (hm : s.taskMutex = .heldBy u (depth + 1)) :
    Performs t s .giveMutex ()
      { s with taskMutex := if depth = 0 then .free else .heldBy u depth }
  | giveMutexNone (hm : ∀ u depth, s.taskMutex ≠ .heldBy u (depth + 1)) :
    Performs t s .giveMutex () s
  | halInit : Performs t s .halInit .ok { s with huart := .init }
  | halInitError : Performs t s .halInit .error s
  | newBuffer : Performs t s .newBuffer s.nextBuffer { s with
      nextBuffer := s.nextBuffer + 1
      buffers    := Function.update s.buffers s.nextBuffer (.replicate uartIdleLineBufByte .zero) }
  | setCallingTaskHandle :
    Performs t s .setCallingTaskHandle () { s with callingTaskHandle := some t }
  | resetCallingTaskHandle :
    Performs t s .resetCallingTaskHandle () { s with callingTaskHandle := none }
  | loadRxIdleLineSize : Performs t s .loadRxIdleLineSize s.rxIdleLineSize s
  | resetRxIdleLineSize : Performs t s .resetRxIdleLineSize () { s with rxIdleLineSize := 0 }
  | receiveToIdleDma {rxCmd size} (hr : s.huart.rxState = .ready) (hf : s.dmaFault = false)
    (hs : size ≠ 0) :
    Performs t s (.receiveToIdleDma rxCmd size) .ok { s with
      huart    := { s.huart with
        rxState    := .busyRx
        pRxBuffPtr := rxCmd
        rxXferSize := size
        rxCount    := 0
        halfFlag   := false
        cpltFlag   := false
        idleFlag   := false }
      dmaFault := false }
  | receiveToIdleDmaError {rxCmd size} (hr : s.huart.rxState = .ready)
    (hf : size = 0 ∨ s.dmaFault = true) :
    Performs t s (.receiveToIdleDma rxCmd size) .error { s with dmaFault := false }
  | receiveToIdleDmaBusy {rxCmd size} (hr : s.huart.rxState ≠ .ready) :
    Performs t s (.receiveToIdleDma rxCmd size) .busy { s with dmaFault := false }
  | transmitDma {txCmd rxCmd} (hg : s.huart.gState = .ready) (hf : s.dmaFault = false)
    (hs : txCmd ≠ []) :
    Performs t s (.transmitDma txCmd rxCmd) .ok
      { s with huart.gState := .busyTx, huart.txFor := rxCmd, dmaFault := false }
  | transmitDmaError {txCmd rxCmd} (hg : s.huart.gState = .ready)
    (hf : txCmd = [] ∨ s.dmaFault = true) :
    Performs t s (.transmitDma txCmd rxCmd) .error { s with dmaFault := false }
  | transmitDmaBusy {txCmd rxCmd} (hg : s.huart.gState ≠ .ready) :
    Performs t s (.transmitDma txCmd rxCmd) .busy { s with dmaFault := false }
  | abort : Performs t s .abort () { s with huart := s.huart.abort }
  | notifyTakeEnter :
    Performs t s .notifyTakeEnter () (s.setNotification t (s.notifications t).notifyTakeEnter)
  | notifyTake (hb : (s.notifications t).blocked = false) (hv : (s.notifications t).value ≠ 0) :
    Performs t s .notifyTake (s.notifications t).value
      ((s.setNotification t (s.notifications t).notifyTake.2).record (.take t))
  | notifyTakeTimeout (hb : (s.notifications t).blocked = false)
    (hv : (s.notifications t).value = 0) :
    Performs t s .notifyTake 0 (s.setNotification t (s.notifications t).notifyTake.2)
  | notifyWaitEnter :
    Performs t s .notifyWaitEnter () (s.setNotification t (s.notifications t).notifyWaitEnter)
  | notifyWait (hb : (s.notifications t).blocked = false)
    (hr : (s.notifications t).state = .received) :
    Performs t s .notifyWait (true, (s.notifications t).value)
      ((s.setNotification t (s.notifications t).notifyWait.2).record
        (.wait t (s.notifications t).value))
  | notifyWaitTimeout (hb : (s.notifications t).blocked = false)
    (hr : (s.notifications t).state ≠ .received) :
    Performs t s .notifyWait (false, (s.notifications t).value)
      (s.setNotification t (s.notifications t).notifyWait.2)
  | loadView {rxCmd size} :
    Performs t s (.loadView rxCmd size) ((s.buffers rxCmd).take size) s
  | transacted {rxCmd result} :
    Performs t s (.transacted rxCmd result) ()
      (s.record (.transact t rxCmd result (s.buffers rxCmd)))
  | accept {rxCmd reply} :
    Performs t s (.accept rxCmd reply) () (s.record (.accept t rxCmd reply))

variable {s s' : State τ} {t : τ}

theorem happens_of_event {e : Event τ} (h : s.event e = some s') : s.Happens e s' := by
  cases e <;> simp only [event, Option.map_eq_some_iff] at h
  case switchIrq type =>
    have ⟨t, hs, he⟩ := h
    exact he ▸ .switchIrq hs
  case expire t =>
    have ⟨n, hn, he⟩ := h
    simp only [Notification.expire, Option.ite_none_right_eq_some, Option.some.injEq] at hn
    exact he ▸ hn.right ▸ .expire hn.left
  case dmaFault => cases h; exact .dmaFault
  case endTransmit =>
    have ⟨u, hu, he⟩ := h
    simp only [Uart.endTransmit, Option.ite_none_right_eq_some, Option.some.injEq] at hu
    exact he ▸ hu.right ▸ .endTransmit hu.left
  case answer text =>
    split at h <;> cases h
    case h_2 hu => exact .answer hu
  case unsolicited => cases h; exact .unsolicited
  case rxByte =>
    split at h <;> cases h
    case h_2 hl => exact .rxByte hl
  case idleLine =>
    have ⟨u, hu, he⟩ := h
    simp only [Uart.idleLine, Option.ite_none_right_eq_some, Option.some.injEq] at hu
    exact he ▸ hu.right ▸ .idleLine hu.left
  case idleIrq =>
    have ⟨r, hr, he⟩ := h
    simp only [Uart.idleIrqHandler, Option.ite_none_right_eq_some] at hr
    have ⟨⟨hs, hf⟩, hr⟩ := hr
    split at hr <;> cases hr
    case isTrue hc  => exact he ▸ .idleIrq hs hf hc.left hc.right
    case isFalse hc => exact he ▸ .ignoredIdleIrq hs hf (by omega)
  case dmaIrq =>
    have ⟨r, hr, he⟩ := h
    simp only [Uart.dmaIrqHandler] at hr
    split at hr
    case isTrue hh =>
      cases hr
      exact he ▸ .halfIrq hh
    case isFalse hh =>
      split at hr <;> cases hr
      case isTrue hc => exact he ▸ .cpltIrq (by simpa using hh) hc
  case errorIrq =>
    have ⟨u, hu, he⟩ := h
    simp only [Uart.errorIrqHandler, Option.ite_none_right_eq_some, Option.some.injEq] at hu
    exact he ▸ hu.right ▸ .errorIrq hu.left

theorem performs_of_exec {o : Op} {r : sig.Ret o} (h : (r, s') ∈ s.exec t o) :
    s.Performs t o r s' := by
  cases o
  case takeMutex =>
    simp only [exec] at h
    split at h
    case h_1 => cases h
    case h_2 hm => cases List.mem_singleton.mp h; exact .takeMutex hm
    case h_3 u depth hm =>
      split at h <;> cases List.mem_singleton.mp h
      case isTrue hu  => exact .takeMutexAgain (hu ▸ hm)
      case isFalse hu => exact .takeMutexTimeout hm hu
  case giveMutex =>
    simp only [exec] at h
    split at h <;> cases List.mem_singleton.mp h
    case h_1 hm => exact .giveMutex hm
    case h_2 hm => exact .giveMutexNone hm
  case halInit =>
    simp only [exec, List.mem_cons, List.not_mem_nil, or_false, Prod.mk.injEq] at h
    rcases h with ⟨rfl, rfl⟩ | ⟨rfl, rfl⟩
    · exact .halInit
    · exact .halInitError
  case receiveToIdleDma rxCmd size =>
    simp only [exec, Uart.receiveToIdleDma] at h
    split at h
    case isFalse hr =>
      cases List.mem_singleton.mp h
      exact .receiveToIdleDmaBusy hr
    case isTrue hr =>
      split at h <;> cases List.mem_singleton.mp h
      case isTrue hf  => exact .receiveToIdleDmaError hr hf
      case isFalse hf => exact .receiveToIdleDma hr (by simp_all) fun hs => hf (.inl hs)
  case transmitDma txCmd rxCmd =>
    simp only [exec, Uart.transmitDma] at h
    split at h
    case isFalse hg =>
      cases List.mem_singleton.mp h
      exact .transmitDmaBusy hg
    case isTrue hg =>
      simp only [List.length_eq_zero_iff] at h
      split at h <;> cases List.mem_singleton.mp h
      case isTrue hf  => exact .transmitDmaError hg hf
      case isFalse hf => exact .transmitDma hg (by simp_all) fun hs => hf (.inl hs)
  case notifyTake =>
    simp only [exec] at h
    split at h
    case isTrue     => cases h
    case isFalse hb =>
      have hb := Bool.eq_false_iff.mpr hb
      rw [List.mem_singleton] at h
      by_cases hv : (s.notifications t).notifyTake.1 = 0
      case pos =>
        rw [if_pos hv, hv] at h
        cases h
        exact .notifyTakeTimeout hb hv
      case neg =>
        rw [if_neg hv] at h
        cases h
        exact .notifyTake hb hv
  case notifyWait =>
    simp only [exec] at h
    split at h
    case isTrue     => cases h
    case isFalse hb =>
      have hb := Bool.eq_false_iff.mpr hb
      by_cases hr : (s.notifications t).state = .received
      case pos =>
        have hm := Performs.notifyWait hb hr
        simp only [Notification.notifyWait, if_pos hr, List.mem_singleton] at h hm
        cases h
        exact hm
      case neg =>
        have hm := Performs.notifyWaitTimeout hb hr
        simp only [Notification.notifyWait, if_neg hr, List.mem_singleton] at h hm
        cases h
        exact hm
  all_goals
    cases List.mem_singleton.mp h
    constructor

theorem Performs.mem_exec {o : Op} {r : sig.Ret o} (h : s.Performs t o r s') :
    (r, s') ∈ s.exec t o := by
  cases h
  case takeMutexTimeout hm hu                     => simp [exec, hm, hu]
  case receiveToIdleDma hr hf hs                  => simp [exec, Uart.receiveToIdleDma, hr, hf, hs]
  case receiveToIdleDmaError hr hf                => simp [exec, Uart.receiveToIdleDma, hr, hf]
  case receiveToIdleDmaBusy hr                    => simp [exec, Uart.receiveToIdleDma, hr]
  case transmitDma hg hf hs                       => simp [exec, Uart.transmitDma, hg, hf, hs]
  case transmitDmaError hg hf                     => simp [exec, Uart.transmitDma, hg, hf]
  case transmitDmaBusy hg                         => simp [exec, Uart.transmitDma, hg]
  case notifyTake hb hv                           => simp [exec, Notification.notifyTake, hb, hv]
  case notifyTakeTimeout hb hv                    => simp [exec, Notification.notifyTake, hb, hv]
  case notifyWait hb hr                           => simp [exec, Notification.notifyWait, hb, hr]
  case notifyWaitTimeout hb hr                    => simp [exec, Notification.notifyWait, hb, hr]
  case takeMutex hm | takeMutexAgain hm | giveMutex hm => simp [exec, hm]
  all_goals simp [exec]

theorem Performs.attains {allowed : τ → Call → Bool} {P : Prog sig Unit → State τ → Prop} {o : Op}
    {r : sig.Ret o} {k : sig.Ret o → Prog sig Unit} (hp : s.Performs t o r s')
    (h : (system allowed).Attains t P (k r) s') : (system allowed).Attains t P (.op o k) s :=
  .step hp.mem_exec h

theorem history_rxEventCallback (huart : Uart) (size : ℕ) :
    s.history <:+ ({ s with huart }.rxEventCallback size).history := by
  unfold rxEventCallback
  split
  · exact List.suffix_rfl
  · exact List.suffix_cons ..

theorem Happens.nextBuffer {e : Event τ} (h : s.Happens e s') : s'.nextBuffer = s.nextBuffer := by
  cases h
  case idleIrq | halfIrq | cpltIrq =>
    unfold rxEventCallback
    split <;> rfl
  all_goals rfl

-- The history only grows.
theorem Happens.history {e : Event τ} (h : s.Happens e s') : s.history <:+ s'.history := by
  cases h
  case switchIrq                   => exact List.suffix_cons ..
  case idleIrq | halfIrq | cpltIrq => exact history_rxEventCallback ..
  all_goals exact List.suffix_rfl

theorem Performs.history {o : Op} {r : sig.Ret o} (h : s.Performs t o r s') :
    s.history <:+ s'.history := by
  cases h
  case notifyTake | notifyWait | transacted | accept => exact List.suffix_cons ..
  all_goals exact List.suffix_rfl

end Gsm.State
