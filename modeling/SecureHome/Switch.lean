import SecureHome.FreeRTOS.Notification

namespace Switch

open FreeRTOS

inductive TypeT
  | reed
  | limit
  deriving DecidableEq

def TypeT.toUnderlying : TypeT → UInt32
  | .reed  => 0x01
  | .limit => 0x02

-- What `irq_handler` does to the notification of the calling task.
def irqHandler (type : TypeT) (n : Notification) : Notification :=
  n.notifyFromISR type.toUnderlying

-- The notification value that stands for a set of switches.
def bits (fired : TypeT → Bool) : UInt32 :=
  (if fired .reed then TypeT.reed.toUnderlying else 0) |||
    (if fired .limit then TypeT.limit.toUnderlying else 0)

theorem bits_update (fired : TypeT → Bool) (type : TypeT) :
    bits fired ||| type.toUnderlying = bits fun t => t = type || fired t := by
  cases type <;> cases hr : fired .reed <;> cases hl : fired .limit <;> simp [bits, hr, hl] <;> rfl

end Switch
