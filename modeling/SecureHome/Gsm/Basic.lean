import SecureHome.FreeRTOS.Mutex
import SecureHome.Hal.Uart
import SecureHome.Lib.Fallible
import SecureHome.Switch
import SecureHome.Utils.Error

open FreeRTOS Hal

namespace Gsm

def uartIdleLineBufByte := 64

-- A character together with the buffer that is to receive the reply that it belongs to, if any.
structure Symbol where
  char   : UInt8
  origin : Option Buffer
  deriving DecidableEq

-- The buffers are initialised with zeroes.
def Symbol.zero : Symbol where
  char   := 0
  origin := none

-- The module answers the commands that it has received one after the other.
structure Module where
  unanswered : List Buffer
  -- What the module has sent and has not arrived yet.
  line       : List Symbol
  deriving DecidableEq

inductive Entry (τ : Type)
  | switchEvent (type : Switch.TypeT)
  -- A task was notified of a receive event.
  | rxEvent (t : τ) (data : Buffer) (size : ℕ)
  -- A task got a notification by `ulTaskNotifyTake`.
  | take (t : τ)
  -- A task got a notification with the given value by `xTaskNotifyWait`.
  | wait (t : τ) (value : UInt32)
  -- The result of `transact`, with the buffer as it is at this time.
  | transact (t : τ) (rxCmd : Buffer) (result : Except ErrorT ℕ) (contents : List Symbol)
  -- The reply is what was expected.
  | accept (t : τ) (rxCmd : Buffer) (reply : List Symbol)
  deriving DecidableEq

structure State (τ : Type) where
  -- The `calling_task_handle` of the switches whose interrupts are enabled.
  switches           : Switch.TypeT → Option τ
  notifications      : τ → Notification
  isInitialized      : Bool
  taskMutex          : RecursiveMutex τ
  callingTaskHandle  : Option τ
  rxIdleLineSize     : ℕ
  huart              : Uart
  -- The next function that is to start a DMA transfer is going to fail.
  dmaFault           : Bool
  buffers            : Buffer → List Symbol
  nextBuffer         : Buffer
  sim800l            : Module
  -- What has happened so far, latest first.
  history            : List (Entry τ)

-- The statements of the driver.
inductive Op
  | isInitialized
  | setInitialized
  | createMutex
  | takeMutex
  | giveMutex
  | halInit
  | newBuffer
  | setCallingTaskHandle
  | resetCallingTaskHandle
  | loadRxIdleLineSize
  | resetRxIdleLineSize
  | receiveToIdleDma (rxCmd : Buffer) (size : ℕ)
  | transmitDma (txCmd : List UInt8) (rxCmd : Buffer)
  | abort
  | notifyTakeEnter
  | notifyTake
  | notifyWaitEnter
  | notifyWait
  | loadView (rxCmd : Buffer) (size : ℕ)
  | transacted (rxCmd : Buffer) (result : Except ErrorT ℕ)
  | accept (rxCmd : Buffer) (reply : List Symbol)

@[reducible]
def sig : Sig where
  Op  := Op
  Ret
    | .isInitialized | .takeMutex                              => Bool
    | .halInit | .receiveToIdleDma .. | .transmitDma ..         => Status
    | .newBuffer                                                => Buffer
    | .loadRxIdleLineSize                                       => ℕ
    | .notifyTake                                               => UInt32
    | .notifyWait                                               => Bool × UInt32
    | .loadView ..                                              => List Symbol
    | _                                                         => Unit

inductive Event (τ : Type)
  | switchIrq (type : Switch.TypeT)
  -- The timeout of a task that waits for a notification.
  | expire (t : τ)
  | dmaFault
  -- The command has been transmitted.
  | endTransmit
  -- The module answers the first of the commands that it has not answered yet.
  | answer (text : List UInt8)
  -- The module sends something that is not an answer.
  | unsolicited (text : List UInt8)
  | rxByte
  | idleLine
  | idleIrq
  | dmaIrq
  | errorIrq
  deriving DecidableEq

namespace State

variable {τ : Type}

def init (switches : Switch.TypeT → Option τ) : State τ where
  switches          := switches
  notifications _   := .init
  isInitialized     := false
  taskMutex         := .notCreated
  callingTaskHandle := none
  rxIdleLineSize    := 0
  huart             := .init
  dmaFault          := false
  buffers _         := []
  nextBuffer        := 0
  sim800l           := { unanswered := [], line := [] }
  history           := []

def record (s : State τ) (e : Entry τ) : State τ :=
  { s with history := e :: s.history }

variable [DecidableEq τ]

def setNotification (s : State τ) (t : τ) (n : Notification) : State τ :=
  { s with notifications := Function.update s.notifications t n }

-- `HAL_UARTEx_RxEventCallback`
def rxEventCallback (s : State τ) (size : ℕ) : State τ :=
  match s.callingTaskHandle with
  | none   => s
  | some t =>
    { s with rxIdleLineSize := size }
      |>.setNotification t (s.notifications t).notifyGiveFromISR
      |>.record (.rxEvent t s.huart.pRxBuffPtr size)

-- The effect of an interrupt handler of the HAL, which may call the function above.
def handled (s : State τ) : Option ℕ × Uart → State τ
  | (none, huart)      => { s with huart }
  | (some size, huart) => { s with huart }.rxEventCallback size

def rxByte (s : State τ) (c : Symbol) (line : List Symbol) : State τ :=
  { s with
    sim800l.line := line
    huart        := s.huart.rxByte
    buffers      :=
      if s.huart.Receives then
        Function.update s.buffers s.huart.pRxBuffPtr
          ((s.buffers s.huart.pRxBuffPtr).set s.huart.rxCount c)
      else
        s.buffers }

def exec (t : τ) (s : State τ) : (o : Op) → List (sig.Ret o × State τ)
  | .isInitialized          => [(s.isInitialized, s)]
  | .setInitialized         => [((), { s with isInitialized := true })]
  | .createMutex            => [((), { s with taskMutex := .free })]
  | .takeMutex              =>
    match s.taskMutex with
    | .notCreated     => []
    | .free           => [(true, { s with taskMutex := .heldBy t 1 })]
    | .heldBy u depth =>
      if u = t then
        [(true, { s with taskMutex := .heldBy t (depth + 1) })]
      else
        -- The timeout.
        [(false, s)]
  | .giveMutex              =>
    match s.taskMutex with
    | .heldBy u (depth + 1) =>
      [((), { s with taskMutex := if depth = 0 then .free else .heldBy u depth })]
    | _                     => [((), s)]
  | .halInit                => [(.ok, { s with huart := .init }), (.error, s)]
  | .newBuffer              =>
    [(s.nextBuffer, { s with
      nextBuffer := s.nextBuffer + 1
      buffers    := Function.update s.buffers s.nextBuffer (.replicate uartIdleLineBufByte .zero) })]
  | .setCallingTaskHandle   => [((), { s with callingTaskHandle := some t })]
  | .resetCallingTaskHandle => [((), { s with callingTaskHandle := none })]
  | .loadRxIdleLineSize     => [(s.rxIdleLineSize, s)]
  | .resetRxIdleLineSize    => [((), { s with rxIdleLineSize := 0 })]
  | .receiveToIdleDma rxCmd size =>
    let (status, huart) := s.huart.receiveToIdleDma s.dmaFault rxCmd size
    [(status, { s with huart, dmaFault := false })]
  | .transmitDma txCmd rxCmd =>
    let (status, huart) := s.huart.transmitDma s.dmaFault rxCmd txCmd.length
    [(status, { s with huart, dmaFault := false })]
  | .abort                  => [((), { s with huart := s.huart.abort })]
  | .notifyTakeEnter        => [((), s.setNotification t (s.notifications t).notifyTakeEnter)]
  | .notifyTake             =>
    if (s.notifications t).blocked then
      []
    else
      let (value, n) := (s.notifications t).notifyTake
      let s := s.setNotification t n
      [(value, if value = 0 then s else s.record (.take t))]
  | .notifyWaitEnter        => [((), s.setNotification t (s.notifications t).notifyWaitEnter)]
  | .notifyWait             =>
    if (s.notifications t).blocked then
      []
    else
      let ((received, value), n) := (s.notifications t).notifyWait
      let s := s.setNotification t n
      [((received, value), if received then s.record (.wait t value) else s)]
  | .loadView rxCmd size    => [((s.buffers rxCmd).take size, s)]
  | .transacted rxCmd result =>
    [((), s.record (.transact t rxCmd result (s.buffers rxCmd)))]
  | .accept rxCmd reply     => [((), s.record (.accept t rxCmd reply))]

def event (s : State τ) : Event τ → Option (State τ)
  | .switchIrq type =>
    s.switches type |>.map fun t =>
      s.setNotification t (Switch.irqHandler type (s.notifications t))
        |>.record (.switchEvent type)
  | .expire t => (s.notifications t).expire.map (s.setNotification t)
  | .dmaFault => some { s with dmaFault := true }
  | .endTransmit =>
    s.huart.endTransmit.map fun huart =>
      { s with huart, sim800l.unanswered := s.sim800l.unanswered ++ [s.huart.txFor] }
  | .answer text =>
    match s.sim800l.unanswered with
    | []              => none
    | rxCmd :: rxCmds =>
      some { s with sim800l := {
        unanswered := rxCmds
        line       := s.sim800l.line ++ text.map ({ char := ·, origin := some rxCmd }) } }
  | .unsolicited text =>
    some { s with
      sim800l.line := s.sim800l.line ++ text.map ({ char := ·, origin := none }) }
  | .rxByte =>
    match s.sim800l.line with
    | []        => none
    | c :: line => some (s.rxByte c line)
  | .idleLine => s.huart.idleLine.map ({ s with huart := · })
  | .idleIrq  => s.huart.idleIrqHandler.map s.handled
  | .dmaIrq   => s.huart.dmaIrqHandler.map s.handled
  | .errorIrq => s.huart.errorIrqHandler.map ({ s with huart := · })

end State

end Gsm
