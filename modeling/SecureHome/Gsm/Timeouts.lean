import SecureHome.Gsm.Frames

open Hal Prog

namespace Gsm

-- Whether a call has failed to get the mutex.
def timeouts : Monitor sig Call Bool where
  idle    := false
  start _ := false
  next failed o r :=
    match o, r with
    | .takeMutex, false => true
    | _, _              => failed
  allows _ _ := True

variable {α : Type}

-- The program does not wait for the mutex.
def Prompt (p : Driver α) : Prop :=
  FallibleObeys timeouts (· = false) p (fun _ m => m = false) fun e m => e ≠ .errTimeout ∧ m = false

-- The program stops with a timeout if and only if it does not get the mutex.
def TimesOut (p : Driver α) : Prop :=
  FallibleObeys timeouts (· = false) p (fun _ m => m = false) fun e m => e = .errTimeout ↔ m = true

theorem obeys_timeouts {P : Bool → Prop} {o : Op} (h : o ≠ .takeMutex) :
    Obeys timeouts P (Prog.perform (S := sig) o) fun _ => P := by
  refine .perform (fun _ _ => trivial) fun m r hm => ?_
  cases o <;> first
    | contradiction
    | exact hm

namespace Prompt

variable {β : Type} {p : Driver α}

theorem perform {o : Op} (h : o ≠ .takeMutex) : Prompt (Gsm.perform o) :=
  .lift (obeys_timeouts h)

theorem pure {a : α} : Prompt (Pure.pure a) :=
  FallibleObeys.pure fun _ h => h

theorem throw {e : ErrorT} (h : e ≠ .errTimeout) : Prompt (MonadExcept.throw e : Driver α) :=
  FallibleObeys.throw fun _ hm => ⟨h, hm⟩

theorem bind {f : α → Driver β} (h : Prompt p) (hf : ∀ a, Prompt (f a)) : Prompt (p >>= f) :=
  FallibleObeys.bind h hf

theorem adapt {e : ErrorT} (h : Prompt p) (he : e ≠ .errTimeout) : Prompt (p.adapt fun _ => e) :=
  FallibleObeys.adapt h fun _ _ hr => ⟨he, hr.right⟩

theorem tryHal {p : Driver Status} (h : Prompt p) : Prompt (tryHal p) := by
  refine h.bind fun r => ?_
  split
  case isTrue  => exact .throw nofun
  case isFalse => exact .pure

theorem taskNotifyTake : Prompt taskNotifyTake :=
  .bind (.perform nofun) fun _ => .perform nofun

theorem exchange (txCmd : List UInt8) (rxCmd : Buffer) : Prompt (exchange txCmd rxCmd) := by
  refine .bind (.perform nofun) fun _ => .bind (.tryHal (.perform nofun)) fun _ =>
    .bind (.tryHal (.perform nofun)) fun _ => .bind .taskNotifyTake fun v => ?_
  split
  case isTrue  => exact .bind (.perform nofun) fun _ => .throw nofun
  case isFalse => exact .perform nofun

theorem transact (txCmd : List UInt8) (rxCmd : Buffer) : Prompt (transact txCmd rxCmd) := by
  have hc : Prompt (scopedCleanup (Gsm.exchange txCmd rxCmd)) :=
    Obeys.bind (exchange txCmd rxCmd) fun _ =>
      (obeys_timeouts (o := .resetRxIdleLineSize) nofun).bind fun _ =>
        (obeys_timeouts (o := .resetCallingTaskHandle) nofun).bind fun _ => .pure fun _ hm => hm
  exact Obeys.bind hc fun r => (obeys_timeouts (o := .transacted rxCmd r) nofun).bind fun _ =>
    .pure fun _ hm => hm

theorem request {err : ErrorT} (txCmd : List UInt8) (accepts : List UInt8 → Bool)
    (he : err ≠ .errTimeout) : Prompt (request txCmd accepts err) := by
  refine .bind (.perform nofun) fun _ => .bind (.adapt (transact _ _) nofun) fun _ =>
    .bind (.perform nofun) fun _ => ?_
  split
  case isTrue  => exact .bind (.perform nofun) fun _ => .pure
  case isFalse => exact .throw he

theorem tryGsm {err : ErrorT} (cmd : CmdT) (he : err ≠ .errTimeout) :
    Prompt (tryGsm (sendCmdAndCompareResult cmd) err) :=
  .adapt (.bind (request _ _ nofun) fun _ => .pure) he

theorem checkInitialized : Prompt checkInitialized := by
  refine .bind (.perform nofun) fun isInitialized => ?_
  cases isInitialized
  case false => exact .throw nofun
  case true  => exact .pure

theorem timesOut (h : Prompt p) : TimesOut p :=
  FallibleObeys.weaken h (fun _ h => h) (fun _ _ h => h) fun _ _ hr =>
    ⟨fun he => (hr.left he).elim, fun hm => nomatch hr.right.symm.trans hm⟩

end Prompt

namespace TimesOut

variable {β : Type} {p : Driver α}

theorem bind {f : α → Driver β} (h : TimesOut p) (hf : ∀ a, TimesOut (f a)) : TimesOut (p >>= f) :=
  FallibleObeys.bind h hf

theorem scopedMutex (h : TimesOut p) : TimesOut (scopedMutex p) := by
  refine Obeys.bind (I := fun (taken : Bool) m => m = !taken) (.perform (fun _ _ => trivial) ?_) fun taken => ?_
  case refine_1 =>
    intro m r hm
    cases r
    case false => rfl
    case true  => exact hm
  case refine_2 =>
    cases taken
    case false => exact .pure fun _ hm => ⟨fun _ => hm, fun _ => rfl⟩
    case true  =>
      exact Obeys.bind h fun _ => (obeys_timeouts (o := .giveMutex) nofun).bind fun _ =>
        .pure fun _ hm => hm

theorem getSimStatus : TimesOut getSimStatus :=
  .bind Prompt.checkInitialized.timesOut fun _ => scopedMutex <| Prompt.timesOut <|
    .bind (.tryGsm .at nofun) fun _ => .bind (.tryGsm .checkSim nofun) fun _ =>
      .bind (.tryGsm .checkReg nofun) fun _ => .tryGsm .checkSignal nofun

theorem sendSms (sms number : List UInt8) (checkSimStatus : Bool) :
    TimesOut (sendSms sms number checkSimStatus) := by
  refine .bind Prompt.checkInitialized.timesOut fun _ => ?_
  split
  case isTrue  => exact Prompt.timesOut (.throw nofun)
  case isFalse =>
    have hs : TimesOut (do
        let _ ← request (text "AT+CMGS=\"" ++ number ++ text "\"\r")
          (fun rx => (find rx (text ">")).isSome) .errFail
        let _ ← request (sms ++ [0x1A]) (fun rx => (find rx (text "+CMGS:")).isSome) .gsmSmsSendFail) :=
      Prompt.timesOut (.bind (.request _ _ nofun) fun _ => .bind (.request _ _ nofun) fun _ => .pure)
    refine scopedMutex ?_
    cases checkSimStatus
    case false => exact hs
    case true  => exact getSimStatus.bind fun _ => hs

theorem getImsi : TimesOut getImsi :=
  .bind Prompt.checkInitialized.timesOut fun _ => scopedMutex <| Prompt.timesOut <|
    .bind (.tryGsm .at nofun) fun _ => .bind (.tryGsm .checkSim nofun) fun _ =>
      .bind (.request _ _ nofun) fun _ => .pure

-- A call of the API returns `ERR_TIMEOUT` if and only if it does not get the mutex.
theorem runCall {c : Call} (hc : isApi c = true) : TimesOut (runCall c) := by
  cases c
  case getSimStatus => exact getSimStatus
  case sendSms      => exact sendSms _ _ _
  case getImsi      => exact getImsi.bind fun _ => Prompt.timesOut .pure
  all_goals contradiction

end TimesOut

end Gsm
