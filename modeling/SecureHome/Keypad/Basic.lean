import SecureHome.FreeRTOS.Timer
import SecureHome.Lib.Pool
import SecureHome.Utils.Error

open FreeRTOS

namespace Keypad

def rows    := 4
def columns := 4

inductive GpioPort
  | a | b | c | d | e
  deriving DecidableEq

-- A port is `none` if it is the null pointer.
structure Config where
  rowPort : Option GpioPort
  colPort : Option GpioPort
  rowPins : Vector UInt16 rows
  colPins : Vector UInt16 columns
  deriving DecidableEq

-- The clock of a port is enabled, unless the port is not used by the system.
def gpioEnableClk : Option GpioPort → ErrorT
  | some .a | some .b | some .c | some .d => .none
  | _                                     => .errInvalidArg

def Config.empty : Config where
  rowPort := none
  colPort := none
  rowPins := .replicate rows 0
  colPins := .replicate columns 0

-- The rows and the columns on the low pins of two ports.
def Config.lowPins : Config where
  rowPort := some .a
  colPort := some .b
  rowPins := #v[1, 2, 4, 8]
  colPins := #v[1, 2, 4, 8]

def keys : Vector (Vector Char columns) rows :=
  #v[#v['1', '2', '3', 'A'],
     #v['4', '5', '6', 'B'],
     #v['7', '8', '9', 'C'],
     #v['*', '0', '#', 'D']]

-- The progress of the debounce callback.
inductive Callback
  | idle
  | scanning
  -- The callback has unmasked the interrupts of the columns, but not returned.
  | unmasked
  deriving DecidableEq

-- A keypad together with the hardware and the parts of the kernel that it uses.
structure State where
  -- The members of `keypad_t`. A queue is `none` once it was deleted.
  isInitialized : Bool
  config        : Config
  rowPins       : UInt16
  colPins       : UInt16
  hasTimer      : Bool
  hasEventQueue : Bool
  eventQueue    : Option (List Char)
  -- The wiring of the keys and which of them are pressed.
  wiring        : Config
  pressed       : Fin rows → Fin columns → Bool
  -- The registers.
  odr           : GpioPort → UInt16
  imr           : UInt32
  pr            : UInt32
  -- The timer service and its progress in the callback.
  timers        : Timer.Service
  callback      : Callback
  inDeinit      : Bool

namespace State

-- `HAL_GPIO_WritePin`
def writePin (s : State) (port : Option GpioPort) (pins : UInt16) (high : Bool) : State :=
  match port with
  | none      => s
  | some port =>
    let value := if high then s.odr port ||| pins else s.odr port &&& ~~~pins
    { s with odr := Function.update s.odr port value }

-- A column is pulled low by the pressed keys on those rows that are low.
def readsLow (s : State) (port : Option GpioPort) (pin : UInt16) : Bool :=
  port = s.wiring.colPort ∧ ∃ i : Fin rows, ∃ j : Fin columns,
    pin = s.wiring.colPins[j.val] ∧ s.pressed i j ∧
      ∃ p ∈ s.wiring.rowPort, s.odr p &&& s.wiring.rowPins[i.val] = 0

-- Some of the column lines are masked.
def Masked (s : State) : Prop :=
  s.imr &&& s.colPins.toUInt32 ≠ s.colPins.toUInt32

instance (s : State) : Decidable s.Masked := inferInstanceAs (Decidable (_ ≠ _))

-- The state after a successful `init`, for given contents of the registers before it.
def afterInit (config : Config) (odr : GpioPort → UInt16) (imr pr : UInt32) : State :=
  let rowPins := config.rowPins.foldl (· ||| ·) 0
  let colPins := config.colPins.foldl (· ||| ·) 0
  let s : State := {
    isInitialized := true
    config        := config
    rowPins       := rowPins
    colPins       := colPins
    hasTimer      := true
    hasEventQueue := true
    eventQueue    := some []
    wiring        := config
    pressed       := fun _ _ => false
    odr           := odr
    imr           := imr ||| colPins.toUInt32
    pr            := pr
    timers        := .init
    callback      := .idle
    inDeinit      := false
  }
  s.writePin config.rowPort rowPins false

def init (config : Config) (odr : GpioPort → UInt16) (imr pr : UInt32) : Except ErrorT State :=
  if gpioEnableClk config.colPort ≠ .none then
    throw (gpioEnableClk config.colPort)
  else if gpioEnableClk config.rowPort ≠ .none then
    throw (gpioEnableClk config.rowPort)
  else
    return afterInit config odr imr pr

-- A keypad right after its initialization.
def lowPins : State :=
  afterInit .lowPins (fun _ => 0) 0 0

theorem init_lowPins : init .lowPins (fun _ => 0) 0 0 = .ok lowPins :=
  rfl

end State

inductive Thread
  | daemon
  -- The task that calls `deinit`.
  | task
  deriving DecidableEq

inductive Call
  | processReceivedCommand
  | processExpiredTimer
  | deinit

inductive Event
  | press (row : Fin rows) (col : Fin columns)
  | release (row : Fin rows) (col : Fin columns)
  -- Edges on some of the column lines.
  | edge (pins : UInt16)
  | irqHandler
  -- Another timer's command is added to the timer queue.
  | otherCommand
  | expire
  -- A key is received from the event queue.
  | receive

-- The statements of the functions below.
inductive Op
  | receiveCommand
  | expireTimer
  | writeRows (high : Bool)
  | lowerRow (row : Fin rows)
  | readColumn (col : Fin columns)
  | queueSend (key : Char)
  | clearPending
  | loadImr
  | storeImr (imr : UInt32)
  | leaveCallback
  | enterDeinit
  | gpioInitAnalog
  | clearConfig
  | clearRowPins
  | clearColPins
  | loadEventQueue
  | deleteEventQueue
  | resetEventQueue
  | loadTimer
  | timerStop
  | timerDelete
  | zeroTimer
  | resetTimer
  | leaveDeinit

@[reducible]
def sig : Sig where
  Op  := Op
  Ret
    | .receiveCommand | .expireTimer | .readColumn _ | .enterDeinit   => Bool
    | .loadEventQueue | .loadTimer                                    => Bool
    | .loadImr                                                        => UInt32
    | _                                                               => Unit

abbrev perform (o : Op) : Prog sig (sig.Ret o) :=
  Prog.perform (S := sig) o

def scanColumns : List (Fin columns) → Prog sig (Option (Fin columns))
  | []          => return none
  | col :: cols => do
    if ← perform (.readColumn col) then
      return col
    else
      scanColumns cols

def scanRows : List (Fin rows) → Prog sig (Option (Fin rows × Fin columns))
  | []          => return none
  | row :: rows => do
    perform (.lowerRow row)
    match ← scanColumns (List.finRange columns) with
    | some col => return (row, col)
    | none     => scanRows rows

-- The end of the callback, which unmasks the columns.
def unmaskColumns : Prog sig Unit := do
  perform (.writeRows false)
  perform .clearPending
  let imr ← perform .loadImr
  perform (.storeImr imr)
  perform .leaveCallback

def debounceTimerCb : Prog sig Unit := do
  perform (.writeRows true)
  if let some (row, col) ← scanRows (List.finRange rows) then
    perform (.queueSend keys[row.val][col.val])
  unmaskColumns

def processReceivedCommand : Prog sig Unit := do
  if ← perform .receiveCommand then
    debounceTimerCb

def processExpiredTimer : Prog sig Unit := do
  if ← perform .expireTimer then
    debounceTimerCb

-- The parts of `deinit` that tear down the event queue and the timer.
def deinitEventQueue : Prog sig Unit := do
  if ← perform .loadEventQueue then
    perform .deleteEventQueue
    perform .resetEventQueue

def deinitTimer : Prog sig Unit := do
  if ← perform .loadTimer then
    perform .timerStop
    perform .timerDelete
    perform .zeroTimer
    perform .resetTimer

def deinit : Prog sig ErrorT := do
  if !(← perform .enterDeinit) then
    return .errInvalidState
  perform .gpioInitAnalog
  perform .gpioInitAnalog
  perform .clearConfig
  perform .clearRowPins
  perform .clearColPins
  deinitEventQueue
  deinitTimer
  perform .leaveDeinit
  return .none

namespace State

def irqHandler (s : State) : State :=
  let mask := ~~~s.colPins.toUInt32
  let s := { s with pr := s.pr &&& mask, imr := s.imr &&& mask }
  if s.hasTimer then
    { s with timers := (s.timers.send .start).getD s.timers }
  else
    s

def queueSend (s : State) (queueLength : ℕ) (key : Char) : State :=
  let send (queue : List Char) := if queue.length < queueLength then queue ++ [key] else queue
  { s with eventQueue := s.eventQueue.map send }

-- The daemon's steps, where the callback starts if the timer service calls it.
def daemonStep (s : State) (step : Timer.Service → List (Bool × Timer.Service)) :
    List (Bool × State) :=
  (step s.timers).map fun (called, timers) =>
    (called, { s with timers, callback := if called then .scanning else s.callback })

def enterDeinit (s : State) : State :=
  if s.isInitialized then { s with inDeinit := true } else s

-- Sending a command from a task blocks while the queue is full.
def send (s : State) (c : Timer.Command) : List (Unit × State) :=
  (s.timers.send c).toList.map fun timers => ((), { s with timers })

def exec (queueLength : ℕ) (s : State) : (o : Op) → List (sig.Ret o × State)
  | .receiveCommand   => s.daemonStep Timer.Service.processReceivedCommand
  | .expireTimer      => s.daemonStep Timer.Service.processExpiredTimer
  | .writeRows high   => [((), s.writePin s.config.rowPort s.rowPins high)]
  | .lowerRow row     => [((), s.writePin s.config.rowPort s.config.rowPins[row.val] false)]
  | .readColumn col   => [(s.readsLow s.config.colPort s.config.colPins[col.val], s)]
  | .queueSend key    => [((), s.queueSend queueLength key)]
  | .clearPending     => [((), { s with pr := s.pr &&& ~~~s.colPins.toUInt32 })]
  | .loadImr          => [(s.imr, s)]
  | .storeImr imr     => [((), { s with imr := imr ||| s.colPins.toUInt32, callback := .unmasked })]
  | .leaveCallback    => [((), { s with callback := .idle })]
  | .enterDeinit      => [(s.isInitialized, s.enterDeinit)]
  -- The mode of the pins plays no role.
  | .gpioInitAnalog   => [((), s)]
  | .clearConfig      => [((), { s with config := .empty })]
  | .clearRowPins     => [((), { s with rowPins := 0 })]
  | .clearColPins     => [((), { s with colPins := 0 })]
  | .loadEventQueue   => [(s.hasEventQueue, s)]
  | .deleteEventQueue => [((), { s with eventQueue := none })]
  | .resetEventQueue  => [((), { s with hasEventQueue := false })]
  | .loadTimer        => [(s.hasTimer, s)]
  | .timerStop        => s.send .stop
  | .timerDelete      => s.send .delete
  | .zeroTimer        => [((), { s with timers.active := false, timers.zeroed := true })]
  | .resetTimer       => [((), { s with hasTimer := false })]
  | .leaveDeinit      => [((), { s with isInitialized := false })]

def setKey (s : State) (row : Fin rows) (col : Fin columns) (value : Bool) : State :=
  { s with pressed := Function.update s.pressed row (Function.update (s.pressed row) col value) }

def event (s : State) : Event → Option State
  | .press row col   => some (s.setKey row col true)
  | .release row col => some (s.setKey row col false)
  | .edge pins       => some { s with pr := s.pr ||| pins.toUInt32 }
  -- The interrupt handler is not called once `deinit` has started.
  | .irqHandler      => if s.inDeinit then none else some s.irqHandler
  | .otherCommand    => do return { s with timers := ← s.timers.send .other }
  | .expire          => do return { s with timers := ← s.timers.expire }
  | .receive         => some { s with eventQueue := s.eventQueue.map List.tail }

-- The scheduler runs the daemon as soon as it is not blocked, unless the task has its priority.
def Scheduled (s : State) (priority : ℕ) : Thread → Prop
  | .daemon => True
  | .task   => configTimerTaskPriority ≤ priority ∨ (s.callback = .idle ∧ s.timers.Blocked)

instance (s : State) (priority : ℕ) : DecidablePred (s.Scheduled priority)
  | .daemon => inferInstanceAs (Decidable True)
  | .task   => inferInstanceAs (Decidable (_ ∨ _))

end State

-- A keypad with a given length of its event queue, and the priority of the task that deinitializes
-- it.
def system (queueLength priority : ℕ) : System sig Thread Call Event State where
  calls
    | .daemon, .processReceivedCommand => some processReceivedCommand
    | .daemon, .processExpiredTimer    => some processExpiredTimer
    | .task,   .deinit                 => some (do let _ ← deinit)
    | _,       _                       => none
  exec t o s := if s.Scheduled priority t then s.exec queueLength o else []
  event e s  := s.event e

end Keypad
