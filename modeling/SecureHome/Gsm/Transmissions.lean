import SecureHome.Gsm.Frames

open Hal Prog

namespace Gsm

-- The frames that a call has transmitted.
def transmissions : Monitor sig Call (List (List UInt8)) where
  idle    := []
  start _ := []
  next sent o r :=
    match o, r with
    | .transmitDma txCmd _, r => if r = Status.ok then sent ++ [txCmd] else sent
    | _, _                    => sent
  allows _ _ := True

variable {α : Type}

-- The program transmits the given frames unless it stops with an error.
def Transmits (fs : List (List UInt8)) (p : Driver α) : Prop :=
  ∀ sent, FallibleObeys transmissions (· = sent) p (fun _ m => m = sent ++ fs) fun _ _ => True

theorem obeys_transmissions {P : List (List UInt8) → Prop} {o : Op}
    (h : ∀ txCmd rxCmd, o ≠ .transmitDma txCmd rxCmd) :
    Obeys transmissions P (Prog.perform (S := sig) o) fun _ => P := by
  refine .perform (fun _ _ => trivial) fun m r hm => ?_
  cases o <;> first
    | exact absurd rfl (h _ _)
    | exact hm

namespace Transmits

variable {β : Type} {p : Driver α} {fs fs' : List (List UInt8)} {e : ErrorT}

theorem perform {o : Op} (h : ∀ txCmd rxCmd, o ≠ .transmitDma txCmd rxCmd) :
    Transmits [] (Gsm.perform o) :=
  fun _ => .lift ((obeys_transmissions h).weaken (fun _ hm => hm)
    fun _ _ hm => hm.trans (List.append_nil _).symm)

theorem pure {a : α} : Transmits [] (Pure.pure a) :=
  fun _ => FallibleObeys.pure fun _ hm => hm.trans (List.append_nil _).symm

theorem throw : Transmits fs (MonadExcept.throw e : Driver α) :=
  fun _ => FallibleObeys.throw fun _ _ => trivial

theorem bind {f : α → Driver β} (h : Transmits fs p) (hf : ∀ a, Transmits fs' (f a)) :
    Transmits (fs ++ fs') (p >>= f) := by
  intro sent
  refine FallibleObeys.bind (h sent) fun a => ?_
  rw [← List.append_assoc]
  exact hf a _

-- A statement that transmits nothing.
theorem after {o : Op} {f : sig.Ret o → Driver β} (h : ∀ txCmd rxCmd, o ≠ .transmitDma txCmd rxCmd)
    (hf : ∀ r, Transmits fs (f r)) : Transmits fs (Gsm.perform o >>= f) :=
  bind (perform h) hf

theorem before {f : α → β} (h : Transmits fs p) : Transmits fs (p >>= fun a => Pure.pure (f a)) := by
  rw [← List.append_nil fs]
  exact bind h fun _ => pure

theorem adapt (h : Transmits fs p) : Transmits fs (p.adapt fun _ => e) :=
  fun sent => (h sent).adapt fun _ _ _ => trivial

theorem tryHal {p : Driver Status} (h : Transmits fs p) : Transmits fs (tryHal p) := by
  intro sent
  refine FallibleObeys.bind (h sent) fun r => ?_
  split
  case isTrue  => exact .throw fun _ _ => trivial
  case isFalse => exact .pure fun _ hm => hm

theorem transmit (txCmd : List UInt8) (rxCmd : Buffer) :
    Transmits [txCmd] (Gsm.tryHal (Gsm.perform (.transmitDma txCmd rxCmd))) := by
  intro sent
  refine FallibleObeys.bind (I := fun r m => r = Status.ok → m = sent ++ [txCmd]) (.lift (.perform
    (fun _ _ => trivial) fun m r hm hr => ?_)) fun r => ?_
  case refine_1 =>
    change (if r = Status.ok then m ++ [txCmd] else m) = sent ++ [txCmd]
    rw [if_pos hr, hm]
  case refine_2 =>
    split
    case isTrue     => exact .throw fun _ _ => trivial
    case isFalse hr => exact .pure fun _ hm => hm (not_not.mp hr)

theorem exchange (txCmd : List UInt8) (rxCmd : Buffer) : Transmits [txCmd] (exchange txCmd rxCmd) := by
  have ht : Transmits [] taskNotifyTake := after nofun fun _ => perform nofun
  have hr : Transmits [] (Gsm.tryHal (Gsm.perform (.receiveToIdleDma rxCmd uartIdleLineBufByte))) :=
    tryHal (perform nofun)
  change Transmits ([] ++ ([] ++ ([txCmd] ++ ([] ++ [])))) (Gsm.exchange txCmd rxCmd)
  refine bind (perform nofun) fun _ => bind hr fun _ => bind (transmit txCmd rxCmd) fun _ =>
    bind ht fun v => ?_
  split
  case isTrue  => exact after nofun fun _ => throw
  case isFalse => exact perform nofun

theorem scopedCleanup (h : Transmits fs p) : Transmits fs (scopedCleanup p) :=
  fun sent => Obeys.bind (h sent) fun _ =>
    (obeys_transmissions (o := .resetRxIdleLineSize) nofun).bind fun _ =>
      (obeys_transmissions (o := .resetCallingTaskHandle) nofun).bind fun _ => .pure fun _ hm => hm

theorem scopedMutex (h : Transmits fs p) : Transmits fs (scopedMutex p) := by
  intro sent
  refine Obeys.bind (obeys_transmissions (o := .takeMutex) nofun) fun taken => ?_
  cases taken
  case false => exact .pure fun _ _ => trivial
  case true  =>
    exact Obeys.bind (h sent) fun _ => (obeys_transmissions (o := .giveMutex) nofun).bind fun _ =>
      .pure fun _ hm => hm

theorem transact (txCmd : List UInt8) (rxCmd : Buffer) : Transmits [txCmd] (transact txCmd rxCmd) :=
  fun sent => Obeys.bind (scopedCleanup (exchange txCmd rxCmd) sent) fun r =>
    (obeys_transmissions (o := .transacted rxCmd r) nofun).bind fun _ => .pure fun _ hm => hm

theorem request (txCmd : List UInt8) (accepts : List UInt8 → Bool) (err : ErrorT) :
    Transmits [txCmd] (request txCmd accepts err) := by
  change Transmits ([] ++ ([txCmd] ++ [])) (Gsm.request txCmd accepts err)
  refine bind (perform nofun) fun _ => bind (adapt (transact _ _)) fun _ => after nofun fun _ => ?_
  split
  case isTrue  => exact after nofun fun _ => pure
  case isFalse => exact throw

theorem tryGsm {err : ErrorT} (cmd : CmdT) : Transmits [cmd.tx] (tryGsm (sendCmdAndCompareResult cmd) err) :=
  adapt (before (request _ _ _))

theorem checkInitialized : Transmits [] checkInitialized := by
  refine after nofun fun isInitialized => ?_
  cases isInitialized
  case false => exact throw
  case true  => exact pure

theorem getSimStatus : Transmits statusFrames getSimStatus :=
  bind checkInitialized fun _ => scopedMutex <| bind (tryGsm .at) fun _ =>
    bind (tryGsm .checkSim) fun _ => bind (tryGsm .checkReg) fun _ => tryGsm .checkSignal

theorem getImsi : Transmits (commandFrames .getImsi) getImsi :=
  bind checkInitialized fun _ => scopedMutex <| bind (tryGsm .at) fun _ =>
    bind (tryGsm .checkSim) fun _ => before (request _ _ _)

theorem sendSms (sms number : List UInt8) (checkSimStatus : Bool) :
    Transmits (commandFrames (.sendSms sms number checkSimStatus)) (sendSms sms number checkSimStatus) := by
  generalize hf : commandFrames (.sendSms sms number checkSimStatus) = fs
  refine bind checkInitialized fun _ => ?_
  split
  case isTrue    => exact throw
  case isFalse h =>
    have hs : Transmits (messageFrames sms number) (do
        let _ ← Gsm.request (text "AT+CMGS=\"" ++ number ++ text "\"\r")
          (fun rx => (find rx (text ">")).isSome) .errFail
        let _ ← Gsm.request (sms ++ [0x1A]) (fun rx => (find rx (text "+CMGS:")).isSome) .gsmSmsSendFail) := by
      have ⟨_, _, hs, hn⟩ : sms ≠ [] ∧ number ≠ [] ∧ sms.length ≤ maxSmsLen ∧
          number.length ≤ maxPhoneNumberLen := by
        simpa only [not_or, Nat.not_lt] using h
      rw [messageFrames, numberCommand_chars hn, smsCommand_chars hs]
      exact bind (request _ _ _) fun _ => before (request _ _ _)
    have hr : ¬Rejected sms number := h
    rw [← hf, commandFrames, if_neg hr]
    refine scopedMutex ?_
    cases checkSimStatus
    case false => exact hs
    case true  => exact bind getSimStatus fun _ => hs

theorem runCall {c : Call} (hc : isApi c = true) : Transmits (commandFrames c) (runCall c) := by
  cases c
  case getSimStatus => exact getSimStatus
  case sendSms      => exact sendSms _ _ _
  case getImsi      => exact before getImsi
  all_goals contradiction

end Transmits

-- A call of the API that returns without an error has transmitted all of its frames.
theorem transmissions_eq_commandFrames {c : Call} (hc : isApi c = true) :
    (runCall c).run.ObeysFrom transmissions (fun r sent => r = .ok () → sent = commandFrames c) [] := by
  refine (Transmits.runCall hc [] [] rfl).weaken fun r sent h hr => ?_
  rw [hr] at h
  exact h

end Gsm
