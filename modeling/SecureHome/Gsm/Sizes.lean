import SecureHome.Gsm.Statements
import SecureHome.Gsm.Steps

open Hal

namespace Gsm

variable {α τ : Type}

namespace Fits

theorem uses_perform {o : Op} (h : o.Fits) : Fallible.Uses Op.Fits (perform o) :=
  .lift (.perform h)

theorem uses_tryGsm {cmd : CmdT} {err : ErrorT} :
    Fallible.Uses Op.Fits (tryGsm (sendCmdAndCompareResult cmd) err) :=
  Statements.uses_tryGsm fun _ _ h => h

theorem uses_request {txCmd : List UInt8} {accepts : List UInt8 → Bool} {err : ErrorT} :
    Fallible.Uses Op.Fits (request txCmd accepts err) :=
  Statements.uses_request fun _ _ h => h

theorem uses_checkInitialized : Fallible.Uses Op.Fits checkInitialized := by
  refine .bind (uses_perform (o := .isInitialized) trivial) fun isInitialized => ?_
  cases isInitialized
  case false => exact .throw
  case true  => exact .pure

theorem uses_scopedMutex {p : Driver α} (h : Fallible.Uses Op.Fits p) :
    Fallible.Uses Op.Fits (scopedMutex p) := by
  have ht : (Prog.perform (S := sig) .takeMutex).Uses Op.Fits := .perform trivial
  have hg : (Prog.perform (S := sig) .giveMutex).Uses Op.Fits := .perform trivial
  refine Prog.Uses.bind ht fun taken => ?_
  cases taken
  case false => exact .pure
  case true  => exact Prog.Uses.bind h fun _ => .bind hg fun _ => .pure

theorem uses_sendAt {rxBuf : Buffer} (count : ℕ) : Fallible.Uses Op.Fits (sendAt rxBuf count) := by
  induction count
  case zero => exact .pure
  case succ hi =>
    refine .bind (Statements.uses_tryHal (uses_perform (o := .transmitDma ..) trivial)) fun _ => ?_
    refine .bind (Statements.uses_taskNotifyTake fun _ _ h => h) fun value => ?_
    split
    case isTrue  => exact .pure
    case isFalse => exact hi

theorem uses_checkAlive : Fallible.Uses Op.Fits checkAlive := by
  refine Statements.uses_scopedCleanup (fun _ _ h => h) ?_
  refine .bind (uses_perform (o := .setCallingTaskHandle) trivial) fun _ => ?_
  refine .bind (uses_perform (o := .newBuffer) trivial) fun rxBuf => ?_
  refine .bind (Statements.uses_tryHal (uses_perform (o := .receiveToIdleDma ..) (Nat.le_refl _))) fun _ => ?_
  refine .bind (uses_sendAt _) fun responded => ?_
  cases responded
  case false => exact .bind (uses_perform (o := .abort) trivial) fun _ => .throw
  case true  =>
    refine .bind (uses_perform (o := .loadRxIdleLineSize) trivial) fun size => ?_
    refine .bind (uses_perform (o := .loadView rxBuf size) trivial) fun rx => ?_
    split
    case isTrue  => exact .throw
    case isFalse => exact .pure

theorem uses_pollSignal (i : ℕ) : Fallible.Uses Op.Fits (pollSignal i) := by
  induction i
  case zero    => exact .throw
  case succ hi => exact .tryCatch (Statements.uses_sendCmdAndCompareResult fun _ _ h => h) fun _ => hi

theorem uses_init : Fallible.Uses Op.Fits init := by
  refine .bind (uses_perform (o := .isInitialized) trivial) fun isInitialized => ?_
  cases isInitialized
  case true  => exact .throw
  case false =>
    refine .bind (Statements.uses_tryHal (uses_perform (o := .halInit) trivial)) fun _ => ?_
    refine .bind (.bind uses_checkAlive fun _ => ?_) fun _ => ?_
    case refine_1 =>
      exact .bind uses_tryGsm fun _ => .bind uses_tryGsm fun _ => .bind uses_tryGsm fun _ =>
        .bind uses_tryGsm fun _ => .bind uses_tryGsm fun _ => uses_pollSignal _
    case refine_2 =>
      exact .bind (uses_perform (o := .createMutex) trivial) fun _ =>
        uses_perform (o := .setInitialized) trivial

theorem uses_getSimStatus : Fallible.Uses Op.Fits getSimStatus :=
  .bind uses_checkInitialized fun _ => uses_scopedMutex <| .bind uses_tryGsm fun _ =>
    .bind uses_tryGsm fun _ => .bind uses_tryGsm fun _ => uses_tryGsm

theorem uses_getImsi : Fallible.Uses Op.Fits getImsi :=
  .bind uses_checkInitialized fun _ => uses_scopedMutex <| .bind uses_tryGsm fun _ =>
    .bind uses_tryGsm fun _ => .bind uses_request fun _ => .pure

theorem uses_sendSms {sms number : List UInt8} {checkSimStatus : Bool} :
    Fallible.Uses Op.Fits (sendSms sms number checkSimStatus) := by
  refine .bind uses_checkInitialized fun _ => ?_
  split
  case isTrue  => exact .throw
  case isFalse =>
    refine uses_scopedMutex ?_
    cases checkSimStatus
    case false => exact .bind uses_request fun _ => .bind uses_request fun _ => .pure
    case true  =>
      exact .bind uses_getSimStatus fun _ => .bind uses_request fun _ => .bind uses_request fun _ => .pure

-- Each reception of the driver is into all of a buffer.
theorem uses_serve (c : Call) : (serve c).Uses Op.Fits := by
  refine Prog.Uses.bind ?_ fun _ => .pure
  show Fallible.Uses Op.Fits (runCall c)
  cases c
  case transact =>
    exact .bind (uses_perform (o := .newBuffer) trivial) fun _ =>
      .bind (Statements.uses_transact fun _ _ h => h) fun _ => .pure
  case checkAlive   => exact uses_checkAlive
  case init         => exact uses_init
  case getSimStatus => exact uses_getSimStatus
  case sendSms      => exact uses_sendSms
  case getImsi      => exact .bind uses_getImsi fun _ => .pure
  case notifyWait   =>
    exact .bind (.bind (uses_perform (o := .notifyWaitEnter) trivial) fun _ =>
      uses_perform (o := .notifyWait) trivial) fun _ => .pure

end Fits

-- What is received, and what is said to have been received, has room in a buffer.
structure State.Fits (s : State τ) : Prop where
  rxXferSize     : s.huart.rxXferSize ≤ uartIdleLineBufByte
  rxIdleLineSize : s.rxIdleLineSize ≤ uartIdleLineBufByte

namespace State.Fits

variable {switches : Switch.TypeT → Option τ} {s s' : State τ}

theorem init : (init switches).Fits where
  rxXferSize     := Nat.zero_le _
  rxIdleLineSize := Nat.zero_le _

variable [DecidableEq τ]

theorem rxEventCallback {size : ℕ} (h : s.Fits) (hs : size ≤ uartIdleLineBufByte) :
    (s.rxEventCallback size).Fits := by
  unfold State.rxEventCallback
  split
  case h_1 => exact h
  case h_2 => exact ⟨h.rxXferSize, hs⟩

theorem happens {e : Event τ} (h : s.Fits) (he : s.Happens e s') : s'.Fits := by
  have hx := h.rxXferSize
  cases he
  case idleIrq hl => exact rxEventCallback ⟨hx, h.rxIdleLineSize⟩ (by omega)
  case halfIrq    => exact rxEventCallback ⟨hx, h.rxIdleLineSize⟩ (by omega)
  case cpltIrq    => exact rxEventCallback ⟨hx, h.rxIdleLineSize⟩ hx
  case rxByte     =>
    refine ⟨?_, h.rxIdleLineSize⟩
    show s.huart.rxByte.rxXferSize ≤ _
    unfold Uart.rxByte
    split <;> exact hx
  all_goals exact ⟨hx, h.rxIdleLineSize⟩

theorem performs {t : τ} {o : Op} {r : sig.Ret o} (h : s.Fits) (ho : o.Fits) (hp : s.Performs t o r s') :
    s'.Fits := by
  cases hp
  case halInit             => exact ⟨Nat.zero_le _, h.rxIdleLineSize⟩
  case resetRxIdleLineSize => exact ⟨h.rxXferSize, Nat.zero_le _⟩
  case receiveToIdleDma    => exact ⟨ho, h.rxIdleLineSize⟩
  all_goals exact ⟨h.rxXferSize, h.rxIdleLineSize⟩

end State.Fits

variable [DecidableEq τ]

-- No call and no reply makes the size exceed the buffer.
theorem fits_of_reaches {allowed : τ → Call → Bool} {C : Pool.Cond sig τ (Event τ) (State τ)}
    {switches : Switch.TypeT → Option τ} {p : Pool sig τ (State τ)}
    (h : (system allowed).Reaches C (.idle (.init switches)) p) : p.shared.Fits := by
  refine h.invariant (A := fun _ => Op.Fits) .init ?hu ?ho ?he
  case hu =>
    intro t c q hq
    exact (system_calls_eq_some_iff.mp hq).right ▸ Fits.uses_serve c
  case ho => exact fun _ _ _ _ _ ho hs hm => hs.performs ho (State.performs_of_exec hm)
  case he => exact fun _ _ _ hs he => hs.happens (State.happens_of_event he)

end Gsm
