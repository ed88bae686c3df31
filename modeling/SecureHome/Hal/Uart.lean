import Mathlib.Data.Nat.Notation
import Mathlib.Tactic.Common

namespace Hal

-- `HAL_StatusTypeDef`
inductive Status
  | ok
  | error
  | busy
  | timeout
  deriving DecidableEq

-- `HAL_UART_StateTypeDef`
inductive UartState
  | ready
  | busyTx
  | busyRx
  deriving DecidableEq

-- The memory that a DMA transfer is from or to.
abbrev Buffer := ℕ

-- A UART whose transmissions and receptions are DMA transfers. A reception ends at the latest when
-- the line gets idle.
structure Uart where
  gState     : UartState
  -- The buffer for the reply to what is transmitted.
  txFor      : Buffer
  rxState    : UartState
  pRxBuffPtr : Buffer
  rxXferSize : ℕ
  -- The number of bytes that were received, which is the difference of `RxXferSize` and the
  -- counter of the DMA channel.
  rxCount    : ℕ
  -- The interrupt flags of the DMA channel for a half and a complete transfer.
  halfFlag   : Bool
  cpltFlag   : Bool
  -- The interrupt flag for an idle line, which is set once after each byte.
  idleFlag   : Bool
  idleArmed  : Bool
  deriving DecidableEq

namespace Uart

def init : Uart where
  gState     := .ready
  txFor      := 0
  rxState    := .ready
  pRxBuffPtr := 0
  rxXferSize := 0
  rxCount    := 0
  halfFlag   := false
  cpltFlag   := false
  idleFlag   := false
  idleArmed  := false

-- `HAL_UARTEx_ReceiveToIdle_DMA`, where the start of the DMA transfer may fail.
def receiveToIdleDma (u : Uart) (fault : Bool) (data : Buffer) (size : ℕ) : Status × Uart :=
  if u.rxState = .ready then
    if size = 0 ∨ fault then
      (.error, u)
    else
      (.ok, { u with
        rxState    := .busyRx
        pRxBuffPtr := data
        rxXferSize := size
        rxCount    := 0
        halfFlag   := false
        cpltFlag   := false
        idleFlag   := false })
  else
    (.busy, u)

-- `HAL_UART_Transmit_DMA`, where the start of the DMA transfer may fail.
def transmitDma (u : Uart) (fault : Bool) (rxData : Buffer) (size : ℕ) : Status × Uart :=
  if u.gState = .ready then
    if size = 0 ∨ fault then
      (.error, u)
    else
      (.ok, { u with gState := .busyTx, txFor := rxData })
  else
    (.busy, u)

-- The DMA transfer of a reception is stopped, which clears the flags of the channel.
def endRxTransfer (u : Uart) : Uart :=
  { u with rxState := .ready, halfFlag := false, cpltFlag := false }

-- `HAL_UART_Abort`
def abort (u : Uart) : Uart :=
  { u.endRxTransfer with gState := .ready }

-- `UART_EndTransmit_IT`, after everything was transmitted.
def endTransmit (u : Uart) : Option Uart :=
  if u.gState = .busyTx then some { u with gState := .ready } else none

-- The DMA transfer takes the next byte.
def Receives (u : Uart) : Prop :=
  u.rxState = .busyRx ∧ u.rxCount < u.rxXferSize

instance (u : Uart) : Decidable u.Receives :=
  inferInstanceAs (Decidable (_ ∧ _))

-- The arrival of a byte, which is lost unless the DMA transfer takes it.
def rxByte (u : Uart) : Uart :=
  if u.Receives then
    { u with
      rxCount   := u.rxCount + 1
      halfFlag  := u.halfFlag || u.rxCount + 1 == u.rxXferSize / 2
      cpltFlag  := u.cpltFlag || u.rxCount + 1 == u.rxXferSize
      idleArmed := true }
  else
    { u with idleArmed := true }

-- The line gets idle.
def idleLine (u : Uart) : Option Uart :=
  if u.idleArmed then some { u with idleFlag := true, idleArmed := false } else none

-- `HAL_UART_IRQHandler` for an idle line, together with the size for which it calls
-- `HAL_UARTEx_RxEventCallback`, if it does.
def idleIrqHandler (u : Uart) : Option (Option ℕ × Uart) :=
  if u.rxState = .busyRx ∧ u.idleFlag then
    let u := { u with idleFlag := false }
    if 0 < u.rxCount ∧ u.rxCount < u.rxXferSize then
      some (some u.rxCount, u.endRxTransfer)
    else
      some (none, u)
  else
    none

-- `HAL_DMA_IRQHandler` for the channel of the reception.
def dmaIrqHandler (u : Uart) : Option (Option ℕ × Uart) :=
  if u.halfFlag then
    some (some (u.rxXferSize / 2), { u with halfFlag := false })
  else if u.cpltFlag then
    some (some u.rxXferSize, u.endRxTransfer)
  else
    none

-- `HAL_UART_IRQHandler` for an error on the line, such as a framing error.
def errorIrqHandler (u : Uart) : Option Uart :=
  if u.rxState = .busyRx then some u.endRxTransfer else none

end Uart

end Hal
