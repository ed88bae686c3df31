import SecureHome.Gsm.Rules
import SecureHome.Gsm.Steps
import SecureHome.Lib.Inevitable

open FreeRTOS Hal

namespace Gsm

def noCalls (_ : Unit) (_ : Call) : Bool :=
  false

-- The module answers with the given reply, and the line is idle only when all of it has arrived.
-- There is no other traffic, no error and no timeout.
def repliesWith (reply : List UInt8) : Pool.Cond sig Unit (Event Unit) (State Unit) where
  op _ _ _ := True
  event
    | .answer text, _                            => text = reply
    | .idleLine, s                               => s.sim800l.line = []
    | .endTransmit, _ | .rxByte, _ | .idleIrq, _ => True
    | .dmaIrq, _                                 => True
    | _, _                                       => False

-- Nothing is going on before the call.
structure Quiet (s : State Unit) : Prop where
  gState     : s.huart.gState = .ready
  rxState    : s.huart.rxState = .ready
  halfFlag   : s.huart.halfFlag = false
  cpltFlag   : s.huart.cpltFlag = false
  idleArmed  : s.huart.idleArmed = false
  dmaFault   : s.dmaFault = false
  unanswered : s.sim800l.unanswered = []
  line       : s.sim800l.line = []
  value      : (s.notifications ()).value = 0
  blocked    : (s.notifications ()).blocked = false
  history    : s.history = []

-- A call of `transact` has returned a view that is equal to the reply.
def Returned (reply : List UInt8) (s : State Unit) : Prop :=
  ∃ rxCmd size contents, .transact () rxCmd (.ok size) contents ∈ s.history ∧
    (contents.take size).map Symbol.char = reply

namespace Replying

def symbols (rxCmd : Buffer) (text : List UInt8) : List Symbol :=
  text.map ({ char := ·, origin := some rxCmd })

-- How far the reply has got.
inductive Stage (rxCmd : Buffer) (reply : List UInt8) (s : State Unit) : Prop
  | sending (hg : s.huart.gState = .busyTx) (ht : s.huart.txFor = rxCmd)
    (hu : s.sim800l.unanswered = []) (hl : s.sim800l.line = []) (hc : s.huart.rxCount = 0)
  | answering (hg : s.huart.gState = .ready) (hu : s.sim800l.unanswered = [rxCmd])
    (hl : s.sim800l.line = []) (hc : s.huart.rxCount = 0)
  | receiving (hg : s.huart.gState = .ready) (hu : s.sim800l.unanswered = [])
    (hl : s.sim800l.line = symbols rxCmd (reply.drop s.huart.rxCount))
    (hc : s.huart.rxCount ≤ reply.length)

-- The reception goes on, or it has ended with the end of the reply.
structure Listens (rxCmd : Buffer) (reply : List UInt8) (s : State Unit) : Prop where
  calling   : s.callingTaskHandle = some ()
  buffer    : s.huart.pRxBuffPtr = rxCmd
  size      : s.huart.rxXferSize = uartIdleLineBufByte
  contents  : s.buffers rxCmd = symbols rxCmd (reply.take s.huart.rxCount) ++
    .replicate (uartIdleLineBufByte - s.huart.rxCount) .zero
  halfFlag  : s.huart.halfFlag = true → s.huart.rxCount = 32
  cpltFlag  : s.huart.cpltFlag = false
  idleFlag  : s.huart.idleFlag = true → s.huart.rxCount = reply.length
  idleArmed : s.huart.idleArmed = true → 0 < s.huart.rxCount
  idle      : s.huart.rxState = .busyRx → 0 < s.huart.rxCount →
    s.huart.idleArmed = true ∨ s.huart.idleFlag = true
  ended     : s.huart.rxState ≠ .busyRx → s.huart.rxCount = reply.length

structure Arrives (rxCmd : Buffer) (reply : List UInt8) (s : State Unit) : Prop
    extends Listens rxCmd reply s where
  stage : Stage rxCmd reply s

variable {s s' : State Unit} {rxCmd : Buffer} {reply : List UInt8} {e : Event Unit} {size : ℕ}

theorem set_symbols {k n : ℕ} (hk : k < reply.length) (hn : k < n) :
    (symbols rxCmd (reply.take k) ++ .replicate (n - k) .zero).set k
        { char := reply[k], origin := some rxCmd } =
      symbols rxCmd (reply.take (k + 1)) ++ .replicate (n - (k + 1)) .zero := by
  have hl : (symbols rxCmd (reply.take k)).length = k := by simp [symbols, Nat.le_of_lt hk]
  rw [List.set_append_right _ _ hl.le, hl, Nat.sub_self, show n - k = n - (k + 1) + 1 by omega,
    List.replicate_succ, List.set_cons_zero, List.take_succ_eq_append_getElem hk]
  simp only [symbols, List.map_append, List.map_singleton, List.append_assoc, List.singleton_append]

theorem rxEventCallback_eq (h : s.callingTaskHandle = some ()) (huart : Uart) :
    { s with huart }.rxEventCallback size =
      (({ s with huart, rxIdleLineSize := size }.setNotification ()
        (s.notifications ()).notifyGiveFromISR).record (.rxEvent () huart.pRxBuffPtr size)) := by
  simp only [State.rxEventCallback, h]

theorem Stage.congr (h : Stage rxCmd reply s) (hg : s'.huart.gState = s.huart.gState)
    (ht : s'.huart.txFor = s.huart.txFor) (hm : s'.sim800l = s.sim800l)
    (hc : s'.huart.rxCount = s.huart.rxCount) : Stage rxCmd reply s' := by
  cases h
  case sending h₁ h₂ h₃ h₄ h₅ =>
    exact .sending (hg ▸ h₁) (ht ▸ h₂) (hm ▸ h₃) (hm ▸ h₄) (hc ▸ h₅)
  case answering h₁ h₂ h₃ h₄  => exact .answering (hg ▸ h₁) (hm ▸ h₂) (hm ▸ h₃) (hc ▸ h₄)
  case receiving h₁ h₂ h₃ h₄  =>
    exact .receiving (hg ▸ h₁) (hm ▸ h₂) (hm ▸ hc ▸ h₃) (hc ▸ h₄)

namespace Arrives

-- The line is empty again after the end of the reply.
theorem rxCount_of_line (h : Arrives rxCmd reply s) (hp : 0 < s.huart.rxCount)
    (hl : s.sim800l.line = []) : s.huart.rxCount = reply.length := by
  cases h.stage
  case sending | answering => omega
  case receiving hl' hc =>
    have hd : symbols rxCmd (reply.drop s.huart.rxCount) = [] := hl'.symm.trans hl
    simp only [symbols, List.map_eq_nil_iff, List.drop_eq_nil_iff] at hd
    omega

-- A half transfer is the whole reply.
theorem halfTransfer (h : Arrives rxCmd reply s) (h₃₂ : reply.length ≤ 32)
    (hf : s.huart.halfFlag = true) :
    s.huart.rxCount = reply.length ∧ s.huart.rxXferSize / 2 = reply.length := by
  have hc := h.halfFlag hf
  have hs : s.huart.rxXferSize = 64 := h.size
  cases h.stage
  case sending hc' | answering hc' => omega
  case receiving hc' => omega

theorem rxByte {c : Symbol} {line : List Symbol} (h : Arrives rxCmd reply s)
    (h₃₂ : reply.length ≤ 32) (hl : s.sim800l.line = c :: line) :
    Arrives rxCmd reply (s.rxByte c line) ∧ s.huart.rxCount < reply.length := by
  cases h.stage
  case sending hl' _ | answering hl' _ => simp [hl'] at hl
  case receiving hg hu hl' hc =>
    have hk : s.huart.rxCount < reply.length := by
      by_contra hk
      rw [hl', List.drop_of_length_le (Nat.le_of_not_lt hk)] at hl
      contradiction
    have hb : s.huart.rxState = .busyRx := by
      by_contra hb
      exact hk.ne (h.ended hb)
    have hs : s.huart.rxXferSize = 64 := h.size
    have hr : s.huart.Receives := ⟨hb, by omega⟩
    rw [hl', List.drop_eq_getElem_cons hk, symbols, List.map_cons, List.cons.injEq] at hl
    obtain ⟨rfl, rfl⟩ := hl
    refine ⟨⟨?_, ?_⟩, hk⟩
    case refine_1 =>
      simp only [State.rxByte, Uart.rxByte, if_pos hr]
      constructor
      case contents =>
        simp only [h.buffer, Function.update_self, h.contents]
        exact set_symbols hk (by simp [uartIdleLineBufByte]; omega)
      case calling   => exact h.calling
      case buffer    => exact h.buffer
      case size      => exact h.size
      case halfFlag  =>
        intro hf
        simp only [hs, Bool.or_eq_true, beq_iff_eq] at hf
        exact hf.elim (fun hf => by have := h.halfFlag hf; omega) id
      case cpltFlag  =>
        simp only [h.cpltFlag, hs, Bool.false_or, beq_eq_false_iff_ne]
        omega
      case idleFlag  => exact fun hf => (hk.ne (h.idleFlag hf)).elim
      case idleArmed => exact fun _ => Nat.succ_pos _
      case idle      => exact fun _ _ => .inl rfl
      case ended     => exact fun hn => (hn hb).elim
    case refine_2 =>
      simp only [State.rxByte, Uart.rxByte, if_pos hr]
      exact .receiving hg hu rfl hk

theorem happens (h : Arrives rxCmd reply s) (h₁ : 1 ≤ reply.length) (h₃₂ : reply.length ≤ 32)
    (hc : (repliesWith reply).event e s) (he : s.Happens e s') : Arrives rxCmd reply s' := by
  cases he <;> try exact hc.elim
  case endTransmit hg =>
    cases h.stage
    case sending ht hu hl hc =>
      exact { h.toListens with stage := .answering rfl (by simp [hu, ht]) hl hc }
    all_goals simp_all
  case answer text _ _ hu =>
    cases h.stage
    case answering hg hu' hl hc' =>
      obtain rfl : text = reply := hc
      cases hu.symm.trans hu'
      exact { h.toListens with stage := .receiving hg rfl (by simp [hl, hc', symbols]) (by simp [hc']) }
    all_goals simp_all
  case rxByte hl => exact (h.rxByte h₃₂ hl).left
  case idleLine ha =>
    have hn := h.rxCount_of_line (h.idleArmed ha) hc
    exact { h.toListens with
      idleFlag _  := hn
      idleArmed   := nofun
      idle _ _    := .inr rfl
      stage       := h.stage.congr rfl rfl rfl rfl }
  case idleIrq hr hf hp hl =>
    have hn := h.idleFlag hf
    rw [rxEventCallback_eq h.calling]
    exact { h.toListens with
      halfFlag := nofun
      cpltFlag := rfl
      idleFlag := nofun
      idle     := nofun
      ended _  := hn
      stage    := h.stage.congr rfl rfl rfl rfl }
  case ignoredIdleIrq hr hf hc' =>
    have hn := h.idleFlag hf
    have hs := h.size
    simp only [uartIdleLineBufByte] at hs
    omega
  case halfIrq hf =>
    rw [rxEventCallback_eq h.calling]
    exact { h.toListens with
      halfFlag := nofun
      stage    := h.stage.congr rfl rfl rfl rfl }
  case cpltIrq hf => simp [h.cpltFlag] at hf

end Arrives

end Replying

end Gsm
