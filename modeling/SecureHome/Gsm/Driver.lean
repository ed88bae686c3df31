import Mathlib.Algebra.Group.Nat.Defs
import Mathlib.Data.List.Infix
import SecureHome.Gsm.Basic

open Hal

namespace Gsm

def maxSmsLen         := 255
def maxPhoneNumberLen := 11

def numOfTimesToPollSignalCheck := 6
def numOfTimesToSendAt          := 10

def text (s : String) : List UInt8 :=
  s.toList.map fun c => c.toNat.toUInt8

-- `std::string_view::find`
def find (s : List UInt8) (pattern : List UInt8) : Option ℕ :=
  s.tails.findIdx? (pattern <+: ·)

-- `std::from_chars` for a `size_t`
def fromChars (s : List UInt8) : Option ℕ :=
  let digits := s.takeWhile fun c => '0'.toUInt8 ≤ c ∧ c ≤ '9'.toUInt8
  let value  := digits.foldl (fun n c => 10 * n + (c - '0'.toUInt8).toNat) 0
  if digits = [] ∨ value ≥ 2 ^ 32 then none else some value

inductive CmdT
  -- Initialization
  | at
  | echoOff
  | textMode
  | setSmsc
  -- Status checks
  | checkSim
  | checkReg
  | checkSignal
  | getImsi
  deriving DecidableEq

namespace CmdT

def tx : CmdT → List UInt8
  | .at          => text "AT\r"
  | .echoOff     => text "ATE0\r"
  | .textMode    => text "AT+CMGF=1\r"
  | .setSmsc     => text "AT+CSCA=\"+2348050020020\"\r"
  | .checkSim    => text "AT+CPIN?\r"
  | .checkReg    => text "AT+CREG?\r"
  | .checkSignal => text "AT+CSQ\r"
  | .getImsi     => text "AT+CIMI\r"

def rxExpected : CmdT → List UInt8
  | .at | .echoOff | .textMode | .setSmsc | .getImsi => text "OK"
  | .checkSim                                        => text "+CPIN: READY"
  | .checkReg                                        => text "+CREG"
  | .checkSignal                                     => text "+CSQ"

-- Whether a reply to the command is what was expected.
def accepts (cmd : CmdT) (rx : List UInt8) : Bool :=
  match cmd with
  | .checkSignal =>
    match find rx (text "+CSQ: ") with
    | none     => false
    | some pos => (fromChars (rx.drop (pos + 6))).any fun rssi => !(rssi == 99 || rssi < 5)
  | .checkReg =>
    match find rx (text ",") with
    | none     => false
    | some pos => (fromChars (rx.drop (pos + 1))).any fun stat => stat == 1 || stat == 5
  | cmd => (find rx cmd.rxExpected).isSome

end CmdT

abbrev Driver (α : Type) :=
  Fallible sig ErrorT α

def perform (o : Op) : Driver (sig.Ret o) :=
  ExceptT.lift (Prog.perform (S := sig) o)

-- The scope of a `cleanup_t`.
def scopedCleanup {α : Type} (p : Driver α) : Driver α := .mk do
  let r ← p.run
  Prog.perform (S := sig) .resetRxIdleLineSize
  Prog.perform (S := sig) .resetCallingTaskHandle
  return r

-- The scope of a `scoped_mutex_t`, which gives up after a timeout.
def scopedMutex {α : Type} (p : Driver α) : Driver α := .mk do
  if ← Prog.perform (S := sig) .takeMutex then
    let r ← p.run
    Prog.perform (S := sig) .giveMutex
    return r
  else
    return .error .errTimeout

-- `TRY_HAL`
def tryHal (p : Driver Status) : Driver Unit := do
  if (← p) ≠ .ok then
    throw .errHalFail

-- `TRY_GSM`
def tryGsm (p : Driver Unit) (err : ErrorT) : Driver Unit :=
  p.adapt fun _ => err

-- `ulTaskNotifyTake`
def taskNotifyTake : Driver UInt32 := do
  perform .notifyTakeEnter
  perform .notifyTake

-- The part of `transact` in the scope of its `auto_cleanup`.
def exchange (txCmd : List UInt8) (rxCmd : Buffer) : Driver ℕ := do
  perform .setCallingTaskHandle
  tryHal (perform (.receiveToIdleDma rxCmd uartIdleLineBufByte))
  tryHal (perform (.transmitDma txCmd rxCmd))
  if (← taskNotifyTake) = 0 then
    perform .abort
    throw .errFail
  else
    perform .loadRxIdleLineSize

-- Returns the size of the view of the buffer. The outcome is recorded.
def transact (txCmd : List UInt8) (rxCmd : Buffer) : Driver ℕ := .mk do
  let r ← (scopedCleanup (exchange txCmd rxCmd)).run
  Prog.perform (S := sig) (.transacted rxCmd r)
  return r

-- The caller of `transact` reads the view and checks the reply, where every reply that it accepts
-- is recorded.
def checkReply (rxCmd : Buffer) (size : ℕ) (accepts : List UInt8 → Bool) (err : ErrorT) :
    Driver (List UInt8) := do
  let rx ← perform (.loadView rxCmd size)
  if accepts (rx.map Symbol.char) then
    perform (.accept rxCmd rx)
    return rx.map Symbol.char
  else
    throw err

-- A call of `transact` as made by its callers, to which all of its errors look the same.
def request (txCmd : List UInt8) (accepts : List UInt8 → Bool) (err : ErrorT) :
    Driver (List UInt8) := do
  let rxBuf ← perform .newBuffer
  let size ← (transact txCmd rxBuf).adapt fun _ => .errFail
  checkReply rxBuf size accepts err

def sendCmdAndCompareResult (cmd : CmdT) : Driver Unit := do
  let _ ← request cmd.tx cmd.accepts .errFail

-- The loop that transmits the `AT` command and returns whether the module has responded.
def sendAt (rxBuf : Buffer) : ℕ → Driver Bool
  | 0         => return false
  | count + 1 => do
    tryHal (perform (.transmitDma CmdT.at.tx rxBuf))
    if (← taskNotifyTake) > 0 then
      return true
    else
      sendAt rxBuf count

-- The `AT` block of `send_init_sequence`.
def checkAlive : Driver Unit := scopedCleanup do
  perform .setCallingTaskHandle
  let rxBuf ← perform .newBuffer
  tryHal (perform (.receiveToIdleDma rxBuf uartIdleLineBufByte))
  if ← sendAt rxBuf numOfTimesToSendAt then
    let size ← perform .loadRxIdleLineSize
    let rx ← perform (.loadView rxBuf size)
    if (find (rx.map Symbol.char) CmdT.at.rxExpected).isNone then
      throw .gsmModuleNotAlive
  else
    perform .abort
    throw .gsmModuleNotAlive

-- Time may pass between any two statements, so the delay between two checks is left out.
def pollSignal : ℕ → Driver Unit
  | 0     => throw .gsmBadNetworkConn
  | i + 1 => tryCatch (sendCmdAndCompareResult .checkSignal) fun _ => pollSignal i

def sendInitSequence : Driver Unit := do
  checkAlive
  tryGsm (sendCmdAndCompareResult .echoOff) .errFail
  tryGsm (sendCmdAndCompareResult .textMode) .errFail
  tryGsm (sendCmdAndCompareResult .setSmsc) .errFail
  tryGsm (sendCmdAndCompareResult .checkSim) .gsmSimNotFound
  tryGsm (sendCmdAndCompareResult .checkReg) .gsmSimNotRegistered
  pollSignal numOfTimesToPollSignalCheck

def init : Driver Unit := do
  if ← perform .isInitialized then
    throw .errInvalidState
  else
    tryHal (perform .halInit)
    sendInitSequence
    perform .createMutex
    perform .setInitialized

def checkInitialized : Driver Unit := do
  if !(← perform .isInitialized) then
    throw .errInvalidState

def getSimStatus : Driver Unit := do
  checkInitialized
  scopedMutex do
    tryGsm (sendCmdAndCompareResult .at) .gsmModuleNotAlive
    tryGsm (sendCmdAndCompareResult .checkSim) .gsmSimNotFound
    tryGsm (sendCmdAndCompareResult .checkReg) .gsmSimNotRegistered
    tryGsm (sendCmdAndCompareResult .checkSignal) .gsmBadNetworkConn

def sendSms (sms number : List UInt8) (checkSimStatus : Bool) : Driver Unit := do
  checkInitialized
  if sms = [] ∨ number = [] ∨ sms.length > maxSmsLen ∨ number.length > maxPhoneNumberLen then
    throw .errInvalidArg
  else
    scopedMutex do
      if checkSimStatus then
        getSimStatus
      let _ ← request (text "AT+CMGS=\"" ++ number ++ text "\"\r")
        (fun rx => (find rx (text ">")).isSome) .errFail
      -- The module has given clearance to send the SMS, followed by CTRL + Z.
      let _ ← request (sms ++ [0x1A]) (fun rx => (find rx (text "+CMGS:")).isSome) .gsmSmsSendFail

-- Where the IMSI starts in a reply.
def findImsi (rx : List UInt8) : Option ℕ := do
  let pos ← find rx (text "\r\n")
  if rx.length < 25 ∨ rx.length < pos + 25 then none else some (pos + 2)

def getImsi : Driver (List UInt8) := do
  checkInitialized
  scopedMutex do
    tryGsm (sendCmdAndCompareResult .at) .gsmModuleNotAlive
    tryGsm (sendCmdAndCompareResult .checkSim) .gsmSimNotFound
    let rx ← request CmdT.getImsi.tx (fun rx => (findImsi rx).isSome) .errFail
    return (rx.drop ((findImsi rx).getD 0)).take 15 ++ [0]

-- `xTaskNotifyWait(0, 0xFFFFFFFF, ..)`
def taskNotifyWait : Driver (Bool × UInt32) := do
  perform .notifyWaitEnter
  perform .notifyWait

inductive Call
  | transact (txCmd : List UInt8)
  | checkAlive
  | init
  | getSimStatus
  | sendSms (sms number : List UInt8) (checkSimStatus : Bool)
  | getImsi
  | notifyWait
  deriving DecidableEq

def runCall : Call → Driver Unit
  | .transact txCmd                   => do let _ ← transact txCmd (← perform .newBuffer)
  | .checkAlive                       => checkAlive
  | .init                             => init
  | .getSimStatus                     => getSimStatus
  | .sendSms sms number checkSimStatus => sendSms sms number checkSimStatus
  | .getImsi                          => do let _ ← getImsi
  | .notifyWait                       => do let _ ← taskNotifyWait

def serve (c : Call) : Prog sig Unit := do
  let _ ← (runCall c).run

-- Tasks that make the calls that they are allowed to make.
def system {τ : Type} [DecidableEq τ] (allowed : τ → Call → Bool) :
    System sig τ Call (Event τ) (State τ) where
  calls t c  := if allowed t c then some (serve c) else none
  exec t o s := s.exec t o
  event e s  := s.event e

theorem system_calls_eq_some_iff {τ : Type} [DecidableEq τ] {allowed : τ → Call → Bool} {t : τ}
    {c : Call} {q : Prog sig Unit} :
    (system allowed).calls t c = some q ↔ allowed t c = true ∧ serve c = q := by
  simp [system]

end Gsm
