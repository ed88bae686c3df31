import SecureHome.Gsm.Driver

open Hal

namespace Gsm

-- The statements that `init` shares with no other function.
def Op.OfInit : Op → Prop
  | .setInitialized | .createMutex | .halInit => True
  | _                                         => False

-- The statements of a transaction, which are not about the mutex or the initialisation.
def Op.OfTransact : Op → Prop
  | .isInitialized | .takeMutex | .giveMutex | .notifyWaitEnter | .notifyWait => False
  | o => ¬o.OfInit

-- A reception into a buffer is not longer than it.
def Op.Fits : Op → Prop
  | .receiveToIdleDma _ size => size ≤ uartIdleLineBufByte
  | _                        => True

namespace Statements

variable {α : Type} {p : Driver α} {A : Op → Prop} (hA : ∀ o : Op, o.OfTransact → o.Fits → A o)

theorem uses_tryHal {p : Driver Status} (h : Fallible.Uses A p) : Fallible.Uses A (tryHal p) := by
  refine .bind h fun status => ?_
  split
  case isTrue  => exact .throw
  case isFalse => exact .pure

include hA

theorem uses_perform {o : Op} (h : o.OfTransact) (hf : o.Fits) : Fallible.Uses A (perform o) :=
  .lift (.perform (hA o h hf))

theorem uses_taskNotifyTake : Fallible.Uses A taskNotifyTake :=
  .bind (uses_perform hA (o := .notifyTakeEnter) id trivial) fun _ =>
    uses_perform hA (o := .notifyTake) id trivial

theorem uses_exchange {txCmd : List UInt8} {rxCmd : Buffer} : Fallible.Uses A (exchange txCmd rxCmd) := by
  refine .bind (uses_perform hA (o := .setCallingTaskHandle) id trivial) fun _ => ?_
  refine .bind (uses_tryHal (uses_perform hA (o := .receiveToIdleDma ..) id (Nat.le_refl _))) fun _ => ?_
  refine .bind (uses_tryHal (uses_perform hA (o := .transmitDma ..) id trivial)) fun _ => ?_
  refine .bind (uses_taskNotifyTake hA) fun value => ?_
  split
  case isTrue  => exact .bind (uses_perform hA (o := .abort) id trivial) fun _ => .throw
  case isFalse => exact uses_perform hA (o := .loadRxIdleLineSize) id trivial

theorem uses_scopedCleanup (h : Fallible.Uses A p) : Fallible.Uses A (scopedCleanup p) :=
  Prog.Uses.bind h fun _ => .bind (.perform (hA .resetRxIdleLineSize id trivial)) fun _ =>
    .bind (.perform (hA .resetCallingTaskHandle id trivial)) fun _ => .pure

theorem uses_transact {txCmd : List UInt8} {rxCmd : Buffer} : Fallible.Uses A (transact txCmd rxCmd) :=
  Prog.Uses.bind (uses_scopedCleanup hA (uses_exchange hA)) fun r =>
    .bind (.perform (hA (.transacted rxCmd r) id trivial)) fun _ => .pure

theorem uses_request {txCmd : List UInt8} {accepts : List UInt8 → Bool} {err : ErrorT} :
    Fallible.Uses A (request txCmd accepts err) := by
  refine .bind (uses_perform hA (o := .newBuffer) id trivial) fun rxBuf => .bind (.adapt (uses_transact hA))
    fun size => ?_
  refine .bind (uses_perform hA (o := .loadView rxBuf size) id trivial) fun rx => ?_
  split
  case isTrue  => exact .bind (uses_perform hA (o := .accept rxBuf rx) id trivial) fun _ => .pure
  case isFalse => exact .throw

theorem uses_sendCmdAndCompareResult {cmd : CmdT} : Fallible.Uses A (sendCmdAndCompareResult cmd) :=
  .bind (uses_request hA) fun _ => .pure

theorem uses_tryGsm {cmd : CmdT} {err : ErrorT} :
    Fallible.Uses A (tryGsm (sendCmdAndCompareResult cmd) err) :=
  .adapt (uses_sendCmdAndCompareResult hA)

end Statements

end Gsm
