import Mathlib.Data.Nat.Notation
import Mathlib.Tactic.Common

namespace FreeRTOS

-- `ucNotifyState`
inductive NotifyState
  | notWaiting
  | waiting
  | received
  deriving DecidableEq

-- The only notification that a task has.
structure Notification where
  -- `ulNotifiedValue`
  value   : UInt32
  state   : NotifyState
  -- The task waits in one of the functions below.
  blocked : Bool
  deriving DecidableEq

namespace Notification

def init : Notification where
  value   := 0
  state   := .notWaiting
  blocked := false

-- `xTaskNotifyFromISR` with the action `eSetBits`
def notifyFromISR (n : Notification) (bits : UInt32) : Notification where
  value   := n.value ||| bits
  state   := .received
  blocked := false

-- `vTaskNotifyGiveFromISR`
def notifyGiveFromISR (n : Notification) : Notification where
  value   := n.value + 1
  state   := .received
  blocked := false

-- The timeout of a task that waits.
def expire (n : Notification) : Option Notification :=
  if n.blocked then some { n with blocked := false } else none

-- `ulTaskNotifyTake` up to where the task may block.
def notifyTakeEnter (n : Notification) : Notification :=
  if n.value = 0 then { n with state := .waiting, blocked := true } else n

-- The rest of `ulTaskNotifyTake`, which clears the count on exit.
def notifyTake (n : Notification) : UInt32 × Notification :=
  (n.value, { n with value := 0, state := .notWaiting })

-- `xTaskNotifyWait` up to where the task may block. No bits are cleared on entry.
def notifyWaitEnter (n : Notification) : Notification :=
  if n.state = .received then n else { n with state := .waiting, blocked := true }

-- The rest of `xTaskNotifyWait`, which clears all bits on exit if there was a notification.
def notifyWait (n : Notification) : (Bool × UInt32) × Notification :=
  if n.state = .received then
    ((true, n.value), { n with value := 0, state := .notWaiting })
  else
    ((false, n.value), { n with state := .notWaiting })

end Notification

end FreeRTOS
