import SecureHome.Hal.Uart
import SecureHome.Lcd.Hd44780
import SecureHome.Lib.Sequential
import SecureHome.Lib.Trace
import SecureHome.Utils.Error

open Hal

namespace Lcd

def rows    : UInt8 := 2
def columns : UInt8 := 16

-- Offsets for calculating offset position
def offsets : List UInt8 :=
  [0x00, 0x40]

inductive Op
  | isInitialized
  | setInitialized (value : Bool)
  | i2cInit
  | i2cDeInit
  -- `HAL_I2C_Master_Transmit` to the backpack
  | transmit (data : UInt8)
  | writeLed (on : Bool)

@[reducible]
def sig : Sig where
  Op  := Op
  Ret
    | .isInitialized                        => Bool
    | .i2cInit | .i2cDeInit | .transmit _   => Status
    | _                                     => Unit

abbrev Driver (α : Type) :=
  Fallible sig ErrorT α

def perform (o : Op) : Driver (sig.Ret o) :=
  ExceptT.lift (Prog.perform (S := sig) o)

def transmit (data : UInt8) : Driver Unit := do
  if (← perform (.transmit data)) ≠ .ok then
    throw .errTimeout

-- `TRY_HAL`
def tryHal (p : Driver Status) : Driver Unit := do
  if (← p) ≠ .ok then
    throw .errHalFail

-- The bits for the backlight and EN
def blBit : UInt8 := 0x08
def enBit : UInt8 := 0x04

-- `(D7 D6 D5 D4)` `(BL)` `(EN & RW are 0)` `(RS)`
def frame (nibble rs : UInt8) : UInt8 :=
  nibble <<< 4 ||| blBit ||| rs &&& 1

def sendNibble (nibble rs : UInt8) : Driver Unit := do
  transmit (frame nibble rs)
  -- Pulse the EN bit
  transmit (frame nibble rs ||| enBit)
  transmit ((frame nibble rs ||| enBit) &&& ~~~enBit)

def sendByte (byte rs : UInt8) : Driver Unit := do
  sendNibble (byte >>> 4) rs
  sendNibble (byte &&& 0xF) rs

def sendCmd (cmd : UInt8) : Driver Unit :=
  sendByte cmd 0

def sendData (data : UInt8) : Driver Unit :=
  sendByte data 1

def checkInitialized : Driver Unit := do
  if !(← perform .isInitialized) then
    throw .errInvalidState

-- The commands that bring the controller to the mode of four bits from whatever it is in.
def sendFunctionSet : Driver Unit := do
  sendNibble 0x3 0
  sendNibble 0x3 0
  sendNibble 0x3 0
  sendNibble 0x2 0

def sendInitSequence : Driver Unit := do
  sendFunctionSet
  -- 4 bit, 2 lines, 5x8 dots
  sendCmd 0x28
  -- Display off
  sendCmd 0x08
  -- Display clear
  sendCmd 0x01
  -- Entry mode
  sendCmd 0x06
  -- Display on
  sendCmd 0x0C

def init : Driver Unit := do
  if ← perform .isInitialized then
    throw .errInvalidState
  else
    tryHal (perform .i2cInit)
    sendInitSequence
    perform (.setInitialized true)

def deinit : Driver Unit := do
  checkInitialized
  tryHal (perform .i2cDeInit)
  perform (.setInitialized false)

def putChar (c col line : UInt8) : Driver Unit := do
  checkInitialized
  if col ≥ columns ∨ line ≥ rows then
    throw .errInvalidArg
  else
    let addr := offsets.getD line.toNat 0 + col
    sendCmd (0x80 ||| addr &&& 0x7F)
    sendData c

def sendString : List UInt8 → Driver Unit
  | []      => return
  | c :: cs => do
    sendData c
    sendString cs

def println (str : List UInt8) (line : UInt8) (padToWhitespace : Bool) : Driver Unit := do
  checkInitialized
  if str.length > columns.toNat ∨ line ≥ rows then
    throw .errInvalidArg
  else if str.length = 0 then
    throw .errInvalidArg
  else
    let addr := offsets.getD line.toNat 0
    sendCmd (0x80 ||| addr &&& 0x7F)
    sendString str
    if padToWhitespace then
      sendString (.replicate (columns.toNat - str.length) space)

def clearScreen : Driver Unit := do
  checkInitialized
  sendCmd 0x01

def backlightOn (on : Bool) : Driver Unit := do
  checkInitialized
  perform (.writeLed on)

-- The calls that change what is on the screen.
inductive Print
  | putChar (c col line : UInt8)
  | println (str : List UInt8) (line : UInt8) (padToWhitespace : Bool)
  | clearScreen

inductive Call
  | init
  | deinit
  | print (p : Print)
  | backlightOn (on : Bool)

def runPrint : Print → Driver Unit
  | .putChar c col line               => putChar c col line
  | .println str line padToWhitespace => println str line padToWhitespace
  | .clearScreen                      => clearScreen

def runCall : Call → Driver Unit
  | .init           => init
  | .deinit         => deinit
  | .print p        => runPrint p
  | .backlightOn on => backlightOn on

structure State where
  isInitialized : Bool
  led           : Bool
  display       : Display

-- What becomes of a byte that is transmitted.
inductive Transfer
  | done
  -- The transmission fails before the backpack has put the byte out.
  | lost
  -- The transmission fails after the backpack has put the byte out.
  | late
  deriving DecidableEq

namespace Transfer

def status : Transfer → Status
  | .done         => .ok
  | .lost | .late => .error

def displays (d : Display) (data : UInt8) : Transfer → List Display
  | .done | .late => d.output data
  | .lost         => [d]

end Transfer

-- A restriction on what becomes of the bytes that are transmitted.
abbrev Bus :=
  State → UInt8 → Transfer → Bool

def anyBus : Bus :=
  fun _ _ _ => true

def State.transmit (s : State) (data : UInt8) (tr : Transfer) : List (Status × State) :=
  (tr.displays s.display data).map fun d => (tr.status, { s with display := d })

def exec (bus : Bus) : (o : Op) → State → List (sig.Ret o × State)
  | .isInitialized, s        => [(s.isInitialized, s)]
  | .setInitialized value, s => [((), { s with isInitialized := value })]
  | .i2cInit, s              => [(.ok, s), (.error, s)]
  | .i2cDeInit, s            => [(.ok, s), (.error, s)]
  | .transmit data, s        =>
    ([.done, .lost, .late].filter (bus s data)).flatMap (s.transmit data)
  | .writeLed on, s          => [((), { s with led := on })]

-- A call together with its result.
def Step (bus : Bus) : Call × Except ErrorT Unit → State → State → Prop
  | (c, r), s, s' => (runCall c).run.Ends (exec bus) s r s'

-- The result and the end of a call whose operations have the outcomes at the given indices.
def returns (bus : Bus) (c : Call) (is : List ℕ) (s : State) : Option (Except ErrorT Unit) :=
  ((runCall c).run.follow (exec bus) is s).map Prod.fst

def State.after (bus : Bus) (c : Call) (is : List ℕ) (s : State) : State :=
  ((runCall c).run.follow (exec bus) is s).elim s Prod.snd

theorem step_of_returns {bus : Bus} {c : Call} {is : List ℕ} {s : State} {r : Except ErrorT Unit}
    (h : returns bus c is s = some r) : Step bus (c, r) s (s.after bus c is) := by
  have ⟨⟨r', s'⟩, hf, hr⟩ := Option.map_eq_some_iff.mp h
  rw [State.after, hf]
  exact hr ▸ Prog.ends_of_follow hf

end Lcd
