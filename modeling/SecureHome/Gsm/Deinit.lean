import SecureHome.Gsm.Driver

open FreeRTOS Hal

namespace Gsm.Deinit

-- What has become of `g_huart`.
inductive Handle
  | initialized
  -- The states of the handle were reset by `HAL_UART_DeInit`.
  | deinitialized
  | zeroed
  deriving DecidableEq

structure State (τ : Type) where
  driver      : Gsm.State τ
  handle      : Handle
  irqsEnabled : Bool

-- The statements of `deinit`, together with those that it shares with the rest of the driver.
inductive Op
  | driver (o : Gsm.Op)
  -- The mutex is waited for without a timeout.
  | takeMutex
  | disableIrqs
  | dmaDeInitTx
  | dmaDeInitRx
  | uartDeInit
  | clearHandles
  | deleteMutex
  | resetInitialized
  -- The call returns.
  | leave

@[reducible]
def sig : Sig where
  Op  := Op
  Ret
    | .driver o                                  => Gsm.sig.Ret o
    | .dmaDeInitTx | .dmaDeInitRx | .uartDeInit  => Status
    | _                                          => Unit

abbrev perform (o : Op) : Prog sig (sig.Ret o) :=
  Prog.perform (S := sig) o

-- A function that `deinit` shares with the rest of the driver.
def inDriver {α : Type} (p : Driver α) : Fallible sig ErrorT α :=
  .mk (p.run.mapOps (T := sig) .driver fun _ r => r)

-- The scope of a `scoped_mutex_t` with the timeout `portMAX_DELAY`.
def scopedMutex {α : Type} (p : Fallible sig ErrorT α) : Fallible sig ErrorT α := .mk do
  perform .takeMutex
  let r ← p.run
  perform (.driver .giveMutex)
  return r

-- `TRY_HAL`
def tryHal (p : Prog sig Status) : Fallible sig ErrorT Unit := do
  if (← ExceptT.lift p) ≠ .ok then
    throw .errHalFail

def deinitTx :=
  text "AT+CPOWD=1\r"

def deinitRxExpected :=
  text "NORMAL POWER DOWN"

-- `send_cmd_and_compare_result` for the command `DEINIT`
def sendDeinit : Driver Unit := do
  let _ ← request deinitTx (fun rx => (find rx deinitRxExpected).isSome) .errFail

-- What `deinit` does while it holds the mutex.
def deinitLocked : Fallible sig ErrorT Unit := do
  -- An error of the module is ignored.
  let _ ← ExceptT.lift (inDriver sendDeinit).run
  ExceptT.lift (perform .disableIrqs)
  tryHal (perform .dmaDeInitTx)
  tryHal (perform .dmaDeInitRx)
  tryHal (perform .uartDeInit)
  ExceptT.lift (perform .clearHandles)
  ExceptT.lift (perform (.driver .resetRxIdleLineSize))
  ExceptT.lift (perform (.driver .resetCallingTaskHandle))

def deinit : Fallible sig ErrorT Unit := do
  inDriver checkInitialized
  scopedMutex deinitLocked
  ExceptT.lift (perform .deleteMutex)
  ExceptT.lift (perform .resetInitialized)

inductive Call
  | getSimStatus
  | sendSms (sms number : List UInt8) (checkSimStatus : Bool)
  | getImsi
  | deinit
  deriving DecidableEq

def runCall : Call → Fallible sig ErrorT Unit
  | .getSimStatus                      => inDriver getSimStatus
  | .sendSms sms number checkSimStatus => inDriver (sendSms sms number checkSimStatus)
  | .getImsi                           => do let _ ← inDriver getImsi
  | .deinit                            => deinit

def serve (c : Call) : Prog sig Unit := do
  let _ ← (runCall c).run
  perform .leave

namespace State

variable {τ : Type}

-- The state after a successful `init`.
def initialized (driver : Gsm.State τ) : State τ where
  driver      := { driver with isInitialized := true, taskMutex := .free }
  handle      := .initialized
  irqsEnabled := true

variable [DecidableEq τ]

def exec (t : τ) (s : State τ) : (o : Op) → List (sig.Ret o × State τ)
  -- The functions of the HAL are busy unless the states of the handle are those of an initialised UART.
  | .driver (.receiveToIdleDma rxCmd size) =>
    if s.handle = .initialized then
      (s.driver.exec t (.receiveToIdleDma rxCmd size)).map fun (r, driver) => (r, { s with driver })
    else
      [(.busy, s)]
  | .driver (.transmitDma txCmd rxCmd) =>
    if s.handle = .initialized then
      (s.driver.exec t (.transmitDma txCmd rxCmd)).map fun (r, driver) => (r, { s with driver })
    else
      [(.busy, s)]
  -- There is no UART at the null pointer.
  | .driver .abort        =>
    if s.handle = .zeroed then
      []
    else
      (s.driver.exec t .abort).map fun (r, driver) => (r, { s with driver })
  | .driver o             => (s.driver.exec t o).map fun (r, driver) => (r, { s with driver })
  | .takeMutex            =>
    ((s.driver.taskMutex.take t).map fun taskMutex => ((), { s with driver.taskMutex := taskMutex })).toList
  | .disableIrqs          => [((), { s with irqsEnabled := false })]
  -- These functions have no error, but access the UART or a DMA channel by the pointer in its handle.
  | .dmaDeInitTx          => if s.handle = .zeroed then [] else [(.ok, s)]
  | .dmaDeInitRx          =>
    if s.handle = .zeroed then [] else [(.ok, { s with driver.huart := s.driver.huart.endRxTransfer })]
  | .uartDeInit           => if s.handle = .zeroed then [] else [(.ok, { s with handle := .deinitialized })]
  | .clearHandles         => [((), { s with handle := .zeroed })]
  | .deleteMutex          => [((), { s with driver.taskMutex := .notCreated })]
  | .resetInitialized     => [((), { s with driver.isInitialized := false })]
  | .leave                => [((), s)]

-- The events that are interrupts of the UART and its DMA channels.
def IsIrq : Event τ → Prop
  | .endTransmit | .idleIrq | .dmaIrq | .errorIrq => True
  | _                                             => False

instance : DecidablePred (IsIrq (τ := τ))
  | .endTransmit | .idleIrq | .dmaIrq | .errorIrq => inferInstanceAs (Decidable True)
  | .switchIrq _ | .expire _ | .dmaFault | .answer _ | .unsolicited _ | .rxByte | .idleLine =>
    inferInstanceAs (Decidable False)

def event (s : State τ) (e : Event τ) : Option (State τ) :=
  if IsIrq e ∧ !s.irqsEnabled then none else (s.driver.event e).map fun driver => { s with driver }

end State

-- Any tasks make any of the calls.
def system (τ : Type) [DecidableEq τ] : System sig τ Call (Event τ) (State τ) where
  calls _ c  := some (serve c)
  exec t o s := s.exec t o
  event e s  := s.event e

end Gsm.Deinit
