import SecureHome.Gsm.Message
import SecureHome.Lib.Monitor

open Hal Prog

namespace Gsm

-- The frames of the calls, in the order in which they are transmitted.
def statusFrames : List (List UInt8) :=
  [CmdT.at.tx, CmdT.checkSim.tx, CmdT.checkReg.tx, CmdT.checkSignal.tx]

def messageFrames (sms number : List UInt8) : List (List UInt8) :=
  [(numberCommand number).chars, (smsCommand sms).chars]

-- What `send_sms` rejects.
def Rejected (sms number : List UInt8) : Prop :=
  sms = [] ∨ number = [] ∨ sms.length > maxSmsLen ∨ number.length > maxPhoneNumberLen

instance (sms number : List UInt8) : Decidable (Rejected sms number) :=
  inferInstanceAs (Decidable (_ ∨ _))

def commandFrames : Call → List (List UInt8)
  | .getSimStatus                     => statusFrames
  | .sendSms sms number checkSimStatus =>
    if Rejected sms number then []
    else (if checkSimStatus then statusFrames else []) ++ messageFrames sms number
  | .getImsi                          => [CmdT.at.tx, CmdT.checkSim.tx, CmdT.getImsi.tx]
  | _                                 => []

-- How far a call has come.
structure Progress where
  -- How many times the call has taken the mutex and not given it back.
  depth : ℕ
  -- The frames that the call may still transmit.
  todo  : List (List UInt8)

def progress : Monitor sig Call Progress where
  idle    := { depth := 0, todo := [] }
  start c := { depth := 0, todo := commandFrames c }
  next m o r :=
    match o, r with
    | .takeMutex, true     => { m with depth := m.depth + 1 }
    | .takeMutex, false    => if m.depth = 0 then { m with todo := [] } else m
    | .giveMutex, _        => { depth := m.depth - 1, todo := if m.depth = 1 then [] else m.todo }
    | .transmitDma .., r   => { m with todo := if r = Status.ok then m.todo.tail else [] }
    | _, _                 => m
  allows m
    | .takeMutex                                    => m.todo ≠ []
    | .giveMutex | .setCallingTaskHandle            => 0 < m.depth
    | .transmitDma txCmd _                          => 0 < m.depth ∧ m.todo.head? = some txCmd
    | .setInitialized | .createMutex | .halInit     => False
    | _                                             => True

-- The statements that the monitor has no interest in.
def Op.Neutral : Op → Prop
  | .takeMutex | .giveMutex | .setCallingTaskHandle | .transmitDma .. => False
  | .setInitialized | .createMutex | .halInit                         => False
  | _                                                                 => True

variable {α : Type} {d : ℕ} {P : Progress → Prop}

theorem neutral {o : Op} (h : o.Neutral) : Obeys progress P (Prog.perform (S := sig) o) fun _ => P := by
  cases o <;> first
    | exact h.elim
    | exact .perform (fun _ _ => trivial) fun _ _ hm => hm

theorem neutral_perform {R : ErrorT → Progress → Prop} {o : Op} (h : o.Neutral) :
    FallibleObeys progress P (perform o) (fun _ => P) R :=
  .lift (neutral h)

-- The call has taken the mutex and is about to transmit the given frames.
structure Progress.At (d : ℕ) (todo : List (List UInt8)) (m : Progress) : Prop where
  depth : m.depth = d
  todo  : m.todo = todo

variable {rest : List (List UInt8)} {p : Driver α}

theorem transmitDma_obeys (txCmd : List UInt8) (rest : List (List UInt8)) (rxCmd : Buffer)
    {R : ErrorT → Progress → Prop} (hd : 0 < d) :
    FallibleObeys progress (Progress.At d (txCmd :: rest)) (perform (.transmitDma txCmd rxCmd))
      (fun r m => m.depth = d ∧ (r = Status.ok → m.todo = rest)) R := by
  refine .lift (.perform (fun m hm => ?_) fun m r hm => ⟨hm.depth, fun hr => ?_⟩)
  case refine_1 => exact ⟨hm.depth ▸ hd, by rw [hm.todo]; rfl⟩
  case refine_2 =>
    show (if r = Status.ok then m.todo.tail else []) = rest
    rw [if_pos hr, hm.todo, List.tail_cons]

theorem tryHal_obeys {p : Driver Status} {Q : Status → Progress → Prop}
    (h : FallibleObeys progress P p Q fun _ m => m.depth = d) (hq : ∀ r m, Q r m → m.depth = d) :
    FallibleObeys progress P (tryHal p) (fun _ => Q .ok) fun _ m => m.depth = d := by
  refine .bind h fun r => ?_
  by_cases hr : r = .ok
  case pos =>
    subst hr
    exact .pure fun _ hm => hm
  case neg =>
    rw [if_pos hr]
    exact .throw fun m => hq r m

theorem scopedCleanup_obeys {Q : α → Progress → Prop} {R : ErrorT → Progress → Prop}
    (h : FallibleObeys progress P p Q R) : FallibleObeys progress P (scopedCleanup p) Q R := by
  refine Obeys.bind h fun r => ?_
  exact (neutral (o := .resetRxIdleLineSize) trivial).bind fun _ =>
    (neutral (o := .resetCallingTaskHandle) trivial).bind fun _ => .pure fun _ hm => hm

theorem taskNotifyTake_obeys {R : ErrorT → Progress → Prop} :
    FallibleObeys progress P taskNotifyTake (fun _ => P) R :=
  (neutral_perform (o := .notifyTakeEnter) trivial).bind fun _ =>
    neutral_perform (o := .notifyTake) trivial

theorem exchange_obeys {txCmd : List UInt8} {rxCmd : Buffer} (hd : 0 < d) :
    FallibleObeys progress (Progress.At d (txCmd :: rest)) (exchange txCmd rxCmd)
      (fun _ => Progress.At d rest) fun _ m => m.depth = d := by
  have hh : FallibleObeys progress (Progress.At d (txCmd :: rest)) (perform .setCallingTaskHandle)
      (fun _ => Progress.At d (txCmd :: rest)) fun _ m => m.depth = d :=
    .lift (.perform (fun m hm => show 0 < m.depth from hm.depth ▸ hd) fun _ _ hm => hm)
  have hr := tryHal_obeys (d := d) (neutral_perform (P := Progress.At d (txCmd :: rest))
    (o := .receiveToIdleDma rxCmd uartIdleLineBufByte) trivial) fun _ _ hm => hm.depth
  have ht := tryHal_obeys (transmitDma_obeys txCmd rest rxCmd hd) fun _ _ hm => hm.left
  refine hh.bind fun _ => hr.bind fun _ => ht.bind fun _ => taskNotifyTake_obeys.bind fun v => ?_
  have hp : ∀ m : Progress, (m.depth = d ∧ (Status.ok = Status.ok → m.todo = rest)) → m.At d rest :=
    fun m hm => ⟨hm.left, hm.right rfl⟩
  split
  case isTrue  => exact (neutral_perform (o := .abort) trivial).bind fun _ => .throw fun _ hm => hm.left
  case isFalse => exact (neutral_perform (o := .loadRxIdleLineSize) trivial).weaken hp (fun _ _ h => h) fun _ _ h => h

theorem request_obeys {txCmd : List UInt8} {accepts : List UInt8 → Bool} {err : ErrorT} (hd : 0 < d) :
    FallibleObeys progress (Progress.At d (txCmd :: rest)) (request txCmd accepts err)
      (fun _ => Progress.At d rest) fun _ m => m.depth = d := by
  have hn : FallibleObeys progress (Progress.At d (txCmd :: rest)) (perform .newBuffer)
      (fun _ => Progress.At d (txCmd :: rest)) fun _ m => m.depth = d := neutral_perform trivial
  refine hn.bind fun rxBuf => .bind (I := fun _ => Progress.At d rest) (.adapt ?_ fun _ _ h => h) fun size => ?_
  case refine_1 =>
    refine Obeys.bind (scopedCleanup_obeys (exchange_obeys hd)) fun r => ?_
    exact (neutral (o := .transacted rxBuf r) trivial).bind fun _ => .pure fun _ hm => hm
  case refine_2 =>
    refine (neutral_perform (o := .loadView rxBuf size) trivial).bind fun rx => ?_
    split
    case isTrue  => exact (neutral_perform (o := .accept rxBuf rx) trivial).bind fun _ => .pure fun _ hm => hm
    case isFalse => exact .throw fun _ hm => hm.depth

theorem tryGsm_obeys {err : ErrorT} (cmd : CmdT) (hd : 0 < d) :
    FallibleObeys progress (Progress.At d (cmd.tx :: rest)) (tryGsm (sendCmdAndCompareResult cmd) err)
      (fun _ => Progress.At d rest) fun _ m => m.depth = d :=
  .adapt ((request_obeys hd).bind fun _ => .pure fun _ hm => hm) fun _ _ hm => hm

-- When the call gives the mutex back for the last time, it is not going to transmit anything else.
theorem scopedMutex_obeys (todo rest : List (List UInt8)) (ht : todo ≠ [])
    (h : FallibleObeys progress (Progress.At (d + 1) todo) p (fun _ => Progress.At (d + 1) rest)
      fun _ m => m.depth = d + 1) :
    FallibleObeys progress (Progress.At d todo) (scopedMutex p)
      (fun _ m => m.depth = d ∧ (0 < d → m.todo = rest)) fun _ m => m.depth = d := by
  have hg : Obeys progress (fun m => m.depth = d + 1) (Prog.perform (S := sig) .giveMutex)
      fun _ m => m.depth = d :=
    .perform (fun m hm => show 0 < m.depth by omega) fun m _ hm => show m.depth - 1 = d by omega
  refine Obeys.bind
    (I := fun taken : Bool => if taken then Progress.At (d + 1) todo else fun m => m.depth = d)
    (.perform (fun m hm => show m.todo ≠ [] from hm.todo ▸ ht) fun m r hm => ?_) fun taken => ?_
  case refine_1 =>
    cases r
    case false =>
      show (if m.depth = 0 then { m with todo := [] } else m : Progress).depth = d
      split <;> exact hm.depth
    case true => exact ⟨by rw [← hm.depth]; rfl, hm.todo⟩
  case refine_2 =>
    cases taken
    case false => exact .pure fun _ hm => hm
    case true =>
      refine Obeys.bind h fun r => ?_
      cases r
      case error => exact hg.bind fun _ => .pure fun _ hm => hm
      case ok =>
        refine .bind (I := fun _ m => m.depth = d ∧ (0 < d → m.todo = rest))
          (.perform (fun m hm => show 0 < m.depth by have := hm.depth; omega) fun m _ hm => ?_)
          fun _ => .pure fun _ hm => hm
        refine ⟨show m.depth - 1 = d by have := hm.depth; omega, fun hd => ?_⟩
        show (if m.depth = 1 then [] else m.todo) = rest
        rw [if_neg (by have := hm.depth; omega), hm.todo]

theorem checkInitialized_obeys (hp : ∀ m, P m → m.depth = d) :
    FallibleObeys progress P checkInitialized (fun _ => P) fun _ m => m.depth = d := by
  refine (neutral_perform (o := .isInitialized) trivial).bind fun isInitialized => ?_
  cases isInitialized
  case false => exact .throw hp
  case true  => exact .pure fun _ hm => hm

theorem getSimStatus_obeys (rest : List (List UInt8)) :
    FallibleObeys progress (Progress.At d (statusFrames ++ rest)) getSimStatus
      (fun _ m => m.depth = d ∧ (0 < d → m.todo = rest)) fun _ m => m.depth = d := by
  have hd := Nat.succ_pos d
  refine (checkInitialized_obeys fun _ hm => hm.depth).bind fun _ => scopedMutex_obeys _ rest nofun ?_
  exact (tryGsm_obeys .at hd).bind fun _ => (tryGsm_obeys .checkSim hd).bind fun _ =>
    (tryGsm_obeys .checkReg hd).bind fun _ => tryGsm_obeys .checkSignal hd

theorem sendSms_obeys (sms number : List UInt8) (checkSimStatus : Bool) :
    FallibleObeys progress (Progress.At d (commandFrames (.sendSms sms number checkSimStatus)))
      (sendSms sms number checkSimStatus) (fun _ m => m.depth = d) fun _ m => m.depth = d := by
  have hd := Nat.succ_pos d
  refine (checkInitialized_obeys fun _ hm => hm.depth).bind fun _ => ?_
  split
  case isTrue => exact .throw fun _ hm => hm.depth
  case isFalse h =>
    have hs : FallibleObeys progress (Progress.At (d + 1) (messageFrames sms number)) (do
        let _ ← request (text "AT+CMGS=\"" ++ number ++ text "\"\r")
          (fun rx => (find rx (text ">")).isSome) .errFail
        let _ ← request (sms ++ [0x1A]) (fun rx => (find rx (text "+CMGS:")).isSome) .gsmSmsSendFail)
        (fun _ => Progress.At (d + 1) []) fun _ m => m.depth = d + 1 := by
      have ⟨_, _, hs, hn⟩ : sms ≠ [] ∧ number ≠ [] ∧ sms.length ≤ maxSmsLen ∧
          number.length ≤ maxPhoneNumberLen := by
        simpa only [not_or, Nat.not_lt] using h
      rw [messageFrames, numberCommand_chars hn, smsCommand_chars hs]
      exact (request_obeys hd).bind fun _ => (request_obeys hd).bind fun _ => .pure fun _ hm => hm
    have hr : ¬Rejected sms number := h
    rw [commandFrames, if_neg hr]
    refine .weaken (scopedMutex_obeys _ [] ?_ ?_) (fun _ hm => hm) (fun _ _ hm => hm.left)
      fun _ _ hm => hm
    case refine_1 => cases checkSimStatus <;> exact nofun
    case refine_2 =>
      cases checkSimStatus
      case false => exact hs
      case true  =>
        refine (getSimStatus_obeys _).bind fun _ => hs.weaken (fun m hm => ⟨hm.left, hm.right hd⟩)
          (fun _ _ hm => hm) fun _ _ hm => hm

theorem getImsi_obeys :
    FallibleObeys progress (Progress.At d (commandFrames .getImsi)) getImsi (fun _ m => m.depth = d)
      fun _ m => m.depth = d := by
  have hd := Nat.succ_pos d
  refine (checkInitialized_obeys fun _ hm => hm.depth).bind fun _ =>
    .weaken (scopedMutex_obeys (commandFrames .getImsi) [] nofun ?_) (fun _ hm => hm) (fun _ _ hm => hm.left)
      fun _ _ hm => hm
  exact (tryGsm_obeys .at hd).bind fun _ => (tryGsm_obeys .checkSim hd).bind fun _ =>
    (request_obeys hd).bind fun _ => .pure fun _ hm => hm

-- The calls of the API.
def isApi : Call → Bool
  | .getSimStatus | .sendSms .. | .getImsi => true
  | _                                      => false

theorem serve_obeys {c : Call} (hc : isApi c = true) :
    (serve c).ObeysFrom progress (fun _ m => m.depth = 0) (progress.start c) := by
  have h : FallibleObeys progress (Progress.At 0 (commandFrames c)) (runCall c)
      (fun _ m => m.depth = 0) fun _ m => m.depth = 0 := by
    cases c
    case getSimStatus =>
      exact .weaken (getSimStatus_obeys []) (fun _ hm => hm) (fun _ _ hm => hm.left)
        fun _ _ hm => hm
    case sendSms => exact sendSms_obeys _ _ _
    case getImsi => exact getImsi_obeys.bind fun _ => .pure fun _ hm => hm
    all_goals contradiction
  refine Obeys.bind h (fun r => .pure fun m hm => ?_) _ ⟨rfl, rfl⟩
  cases r <;> exact hm

end Gsm
