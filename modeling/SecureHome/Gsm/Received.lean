import SecureHome.Gsm.Driver
import SecureHome.Lib.Monitor

open Hal Prog

namespace Gsm

-- What became of a command.
inductive Reception
  | notSent
  | sent
  | received (rx : List UInt8)
  deriving DecidableEq

-- The text that is taken as the reply to the command is the view that is read after its transmission.
def reception (txCmd : List UInt8) : Monitor sig Call Reception where
  idle    := .notSent
  start _ := .notSent
  next m o r :=
    match o, r, m with
    | .transmitDma txCmd' _, _, m => if txCmd' = txCmd then .sent else m
    | .loadView .., rx, .sent     => .received (rx.map Symbol.char)
    | _, _, m                     => m
  allows _ _ := True

-- The function returns the result after it got the text in reply to the command.
def RepliedBy {α : Type} (txCmd : List UInt8) (p : Driver α) (rx : List UInt8)
    (result : Except ErrorT α) : Prop :=
  p.run.CanReturn (reception txCmd) .notSent result (.received rx)

-- The results of the statements when nothing fails and when the module gives the replies.
def resultsFor (otherReplies reply : List UInt8) (m : Reception) : (o : Op) → sig.Ret o
  | .isInitialized | .takeMutex                                        => true
  | .halInit | .receiveToIdleDma .. | .transmitDma ..                  => Status.ok
  | .newBuffer                                                         => (0 : ℕ)
  | .loadRxIdleLineSize                                                => reply.length
  | .notifyTake                                                        => (1 : UInt32)
  | .notifyWait                                                        => (true, (1 : UInt32))
  | .loadView ..                                                       =>
    (if m = .sent then reply else otherReplies).map ({ char := ·, origin := none })
  | .setInitialized | .createMutex | .giveMutex | .setCallingTaskHandle => ()
  | .resetCallingTaskHandle | .resetRxIdleLineSize | .abort             => ()
  | .notifyTakeEnter | .notifyWaitEnter | .transacted .. | .accept ..   => ()

-- A view of the characters, whoever sent them.
def viewOf (rx : List UInt8) : List Symbol :=
  rx.map ({ char := ·, origin := none })

theorem viewOf_char (rx : List UInt8) : (viewOf rx).map Symbol.char = rx := by
  rw [viewOf, List.map_map]
  exact List.map_id _

-- Every text can be the reply to a command.
theorem repliedBy_request (txCmd : List UInt8) (accepts : List UInt8 → Bool) (err : ErrorT)
    (rx : List UInt8) :
    RepliedBy txCmd (request txCmd accepts err) rx (if accepts rx then .ok rx else .error err) := by
  refine canReturn_of_answered (fun _ => resultsFor [] rx .sent) ?_
  let results (_ : Reception) := resultsFor [] rx .sent
  have hr : (request txCmd accepts err).run.answered (reception txCmd) results .notSent =
      (checkReply 0 rx.length accepts err).run.answered (reception txCmd) results
        (if txCmd = txCmd then .sent else .notSent) := rfl
  have hc : (checkReply 0 rx.length accepts err).run.answered (reception txCmd) results .sent =
      (ExceptT.run (if accepts ((viewOf rx).map Symbol.char) then do
          perform (.accept 0 (viewOf rx))
          return (viewOf rx).map Symbol.char
        else throw err : Driver (List UInt8))).answered (reception txCmd) results
          (.received ((viewOf rx).map Symbol.char)) := rfl
  rw [hr, if_pos rfl, hc, viewOf_char]
  cases accepts rx <;> rfl

theorem repliedBy_sendCmdAndCompareResult (cmd : CmdT) (rx : List UInt8) :
    RepliedBy cmd.tx (sendCmdAndCompareResult cmd) rx
      (if cmd.accepts rx then .ok () else .error .errFail) := by
  refine (repliedBy_request cmd.tx cmd.accepts .errFail rx).bind ?_
  cases cmd.accepts rx <;> exact ⟨rfl, rfl⟩

-- The statements that have nothing to do with the texts.
def Op.Textless : Op → Prop
  | .transmitDma .. | .loadView .. => False
  | _                              => True

variable {α : Type} {txCmd : List UInt8} {P : Reception → Prop} {p : Driver α}

theorem textless {o : Op} (h : o.Textless) :
    Obeys (reception txCmd) P (Prog.perform (S := sig) o) fun _ => P := by
  cases o <;> first
    | exact h.elim
    | exact .perform (fun _ _ => trivial) fun _ _ hm => hm

theorem textless_perform {R : ErrorT → Reception → Prop} {o : Op} (h : o.Textless) :
    FallibleObeys (reception txCmd) P (perform o) (fun _ => P) R :=
  .lift (textless h)

theorem tryHal_reception {p : Driver Status} {I : Reception → Prop}
    (h : FallibleObeys (reception txCmd) P p (fun _ => I) fun _ => I) :
    FallibleObeys (reception txCmd) P (tryHal p) (fun _ => I) fun _ => I := by
  refine .bind h fun r => ?_
  split
  case isTrue  => exact .throw fun _ hm => hm
  case isFalse => exact .pure fun _ hm => hm

theorem scopedCleanup_reception {Q : α → Reception → Prop} {R : ErrorT → Reception → Prop}
    (h : FallibleObeys (reception txCmd) P p Q R) :
    FallibleObeys (reception txCmd) P (scopedCleanup p) Q R := by
  refine Obeys.bind h fun r => ?_
  exact (textless (o := .resetRxIdleLineSize) trivial).bind fun _ =>
    (textless (o := .resetCallingTaskHandle) trivial).bind fun _ => .pure fun _ hm => hm

theorem scopedMutex_reception {Q : α → Reception → Prop} {R : ErrorT → Reception → Prop}
    (h : FallibleObeys (reception txCmd) P p Q R) (hr : ∀ m, P m → R .errTimeout m) :
    FallibleObeys (reception txCmd) P (scopedMutex p) Q R := by
  refine (textless (o := .takeMutex) trivial).bind fun taken => ?_
  cases taken
  case false => exact .pure hr
  case true  =>
    refine Obeys.bind h fun r => ?_
    exact (textless (o := .giveMutex) trivial).bind fun _ => .pure fun _ hm => hm

theorem checkInitialized_reception {R : ErrorT → Reception → Prop}
    (hr : ∀ m, P m → R .errInvalidState m) :
    FallibleObeys (reception txCmd) P checkInitialized (fun _ => P) R := by
  refine (textless_perform (o := .isInitialized) trivial).bind fun isInitialized => ?_
  cases isInitialized
  case false => exact .throw hr
  case true  => exact .pure fun _ hm => hm

-- The text of the reply is still to come, if it is the reply to the transmitted command at all.
def Reception.Open (sent : Bool) (m : Reception) : Prop :=
  m = if sent then .sent else .notSent

theorem transmitDma_reception {txCmd' : List UInt8} (rxCmd : Buffer) {R : ErrorT → Reception → Prop} :
    FallibleObeys (reception txCmd) (Reception.Open false) (perform (.transmitDma txCmd' rxCmd))
      (fun _ => Reception.Open (txCmd' = txCmd)) R := by
  refine .lift (.perform (fun _ _ => trivial) fun m _ hm => ?_)
  show (if txCmd' = txCmd then Reception.sent else m) = _
  by_cases ht : txCmd' = txCmd <;> simp only [ht, if_true, if_false, decide_true, decide_false]
  exact hm

variable {txCmd' : List UInt8} {rxCmd : Buffer} {accepts : List UInt8 → Bool} {err : ErrorT}

-- No reply was taken for the one of the command.
def Reception.Unanswered (m : Reception) : Prop :=
  ∀ rx, m ≠ .received rx

theorem Reception.Open.unanswered {sent : Bool} {m : Reception} (h : m.Open sent) : m.Unanswered := by
  cases sent <;> exact fun _ hm => nomatch hm.symm.trans h

theorem exchange_reception :
    FallibleObeys (reception txCmd) (Reception.Open false) (exchange txCmd' rxCmd)
      (fun _ => Reception.Open (txCmd' = txCmd)) fun _ => Reception.Unanswered := by
  have hr : FallibleObeys (reception txCmd) (Reception.Open false)
      (tryHal (perform (.receiveToIdleDma rxCmd uartIdleLineBufByte)))
      (fun _ => Reception.Open false) fun _ => Reception.Unanswered :=
    (tryHal_reception (textless_perform (o := .receiveToIdleDma ..) trivial)).errors
      fun _ _ h => h.unanswered
  have ht : FallibleObeys (reception txCmd) (Reception.Open false)
      (tryHal (perform (.transmitDma txCmd' rxCmd)))
      (fun _ => Reception.Open (txCmd' = txCmd)) fun _ => Reception.Unanswered :=
    (tryHal_reception (transmitDma_reception rxCmd)).errors
      fun _ _ h => h.unanswered
  refine (textless_perform (o := .setCallingTaskHandle) trivial).bind fun _ => hr.bind fun _ =>
    ht.bind fun _ => (textless_perform (o := .notifyTakeEnter) trivial).bind fun _ =>
    (textless_perform (o := .notifyTake) trivial).bind fun value => ?_
  split
  case isTrue  =>
    exact (textless_perform (o := .abort) trivial).bind fun _ => .throw fun _ h => h.unanswered
  case isFalse => exact textless_perform (o := .loadRxIdleLineSize) trivial

-- What the caller of `transact` makes of the view.
theorem checkReply_reception {size : ℕ} {sent : Bool} :
    FallibleObeys (reception txCmd) (Reception.Open sent) (checkReply rxCmd size accepts err)
      (fun rx m => if sent then m = .received rx ∧ accepts rx = true else m = .notSent)
      fun e m => ∀ rx, m = .received rx → sent = true ∧ accepts rx = false ∧ e = err := by
  have hv : FallibleObeys (reception txCmd) (Reception.Open sent) (perform (.loadView rxCmd size))
      (fun rx m => m = if sent then .received (rx.map Symbol.char) else .notSent)
      fun e m => ∀ rx, m = .received rx → sent = true ∧ accepts rx = false ∧ e = err := by
    refine .lift (.perform (fun _ _ => trivial) fun m rx hm => ?_)
    cases hm
    cases sent <;> rfl
  refine hv.bind fun rx => ?_
  by_cases hrx : accepts (rx.map Symbol.char) = true
  case pos =>
    rw [if_pos hrx]
    refine (textless_perform (o := .accept rxCmd rx) trivial).bind fun _ => .pure fun m hm => ?_
    cases sent
    case false => exact hm
    case true  => exact ⟨hm, hrx⟩
  case neg =>
    rw [if_neg hrx]
    refine .throw fun m hm rx' hm' => ?_
    cases sent
    case false => exact nomatch hm'.symm.trans hm
    case true  =>
      cases hm'.symm.trans hm
      exact ⟨rfl, Bool.eq_false_iff.mpr hrx, rfl⟩

theorem request_reception :
    FallibleObeys (reception txCmd) (Reception.Open false) (request txCmd' accepts err)
      (fun rx m => if txCmd' = txCmd then m = .received rx ∧ accepts rx = true else m = .notSent)
      fun e m => ∀ rx, m = .received rx → txCmd' = txCmd ∧ accepts rx = false ∧ e = err := by
  refine (textless_perform (o := .newBuffer) trivial).bind fun rxBuf => ?_
  refine .bind (I := fun _ => Reception.Open (txCmd' = txCmd)) (.adapt ?_ fun _ _ h => h) fun size => ?_
  case refine_1 =>
    refine Obeys.bind (scopedCleanup_reception exchange_reception) fun r => ?_
    refine (textless (o := .transacted rxBuf r) trivial).bind fun _ => .pure fun m hm => ?_
    cases r
    case ok size => exact hm
    case error e => exact fun rx hrx => (hm rx hrx).elim
  case refine_2 =>
    refine checkReply_reception.weaken (fun _ h => h) (fun _ _ h => ?_) fun _ _ h rx hm => ?_
    case refine_1 => simpa using h
    case refine_2 => simpa using h rx hm

theorem sendCmdAndCompareResult_reception (cmd : CmdT) :
    FallibleObeys (reception cmd.tx) (Reception.Open false) (sendCmdAndCompareResult cmd)
      (fun _ m => ∃ rx, m = .received rx ∧ cmd.accepts rx = true)
      fun e m => ∀ rx, m = .received rx → cmd.accepts rx = false ∧ e = .errFail := by
  refine .weaken (request_reception.bind fun rx => .pure fun m hm => ?_) (fun _ h => h) (fun _ _ h => h)
    fun _ _ h rx hm => (h rx hm).right
  rw [if_pos rfl] at hm
  exact ⟨rx, hm⟩

-- The result is decided by the text.
theorem result_of_repliedBy {cmd : CmdT} {rx : List UInt8} {result : Except ErrorT Unit}
    (h : RepliedBy cmd.tx (sendCmdAndCompareResult cmd) rx result) :
    result = if cmd.accepts rx then .ok () else .error .errFail := by
  have hr := ObeysFrom.of_canReturn (sendCmdAndCompareResult_reception cmd _ rfl) h
  cases result
  case ok =>
    have ⟨rx', hm, ha⟩ := hr
    cases hm
    exact (if_pos ha).symm
  case error e =>
    have ⟨ha, he⟩ := hr rx rfl
    rw [ha, he]
    rfl

-- The replies to other commands are not taken for the one to the command.
theorem tryGsm_reception {cmd : CmdT} {err : ErrorT} (hn : cmd.tx ≠ txCmd) :
    FallibleObeys (reception txCmd) (Reception.Open false) (tryGsm (sendCmdAndCompareResult cmd) err)
      (fun _ => Reception.Open false) fun _ => Reception.Unanswered := by
  refine .adapt (request_reception.bind fun rx => .pure fun m hm => ?_) fun _ _ h rx hm =>
    hn (h rx hm).left
  rwa [if_neg hn] at hm

-- What `get_imsi` returns for a reply.
def imsiOf (rx : List UInt8) : Except ErrorT (List UInt8) :=
  match findImsi rx with
  | none     => .error .errFail
  | some pos => .ok ((rx.drop pos).take 15 ++ [0])

theorem imsiOf_of_find_none {rx : List UInt8} (h : find rx (text "\r\n") = none) :
    imsiOf rx = .error .errFail := by
  rw [imsiOf, findImsi, h]
  rfl

theorem imsiOf_of_find_some {rx : List UInt8} {pos : ℕ} (h : find rx (text "\r\n") = some pos) :
    imsiOf rx =
      if rx.length < 25 ∨ rx.length < pos + 25 then .error .errFail
      else .ok ((rx.drop (pos + 2)).take 15 ++ [0]) := by
  simp only [imsiOf, findImsi, h, Option.bind_eq_bind, Option.bind_some]
  by_cases hl : rx.length < 25 ∨ rx.length < pos + 25
  case pos => simp only [if_pos hl]
  case neg => simp only [if_neg hl]

theorem imsi_of_repliedBy {rx : List UInt8} {result : Except ErrorT (List UInt8)}
    (h : RepliedBy CmdT.getImsi.tx getImsi rx result) : result = imsiOf rx := by
  have hg : FallibleObeys (reception CmdT.getImsi.tx) (Reception.Open false) getImsi
      (fun imsi m => ∃ rx, m = .received rx ∧ imsiOf rx = .ok imsi)
      fun e m => ∀ rx, m = .received rx → imsiOf rx = .error e := by
    refine (checkInitialized_reception fun _ hm rx hrx => (hm.unanswered rx hrx).elim).bind fun _ =>
      scopedMutex_reception ?_ fun _ hm rx hrx => (hm.unanswered rx hrx).elim
    have ht (cmd : CmdT) (err : ErrorT) (hn : cmd.tx ≠ CmdT.getImsi.tx) :
        FallibleObeys (reception CmdT.getImsi.tx) (Reception.Open false)
          (tryGsm (sendCmdAndCompareResult cmd) err) (fun _ => Reception.Open false)
          fun e m => ∀ rx, m = .received rx → imsiOf rx = .error e :=
      (tryGsm_reception hn).errors fun _ _ h rx hm => (h rx hm).elim
    refine (ht .at _ (by decide)).bind fun _ => (ht .checkSim _ (by decide)).bind fun _ =>
      .bind (request_reception.errors fun e m h rx hm => ?_) fun rx =>
      .pure fun m hm => ?_
    case refine_1 =>
      have ⟨_, ha, he⟩ := h rx hm
      rw [imsiOf, Option.not_isSome_iff_eq_none.mp (Bool.eq_false_iff.mp ha), he]
    case refine_2 =>
      rw [if_pos rfl] at hm
      have ⟨pos, hp⟩ := Option.isSome_iff_exists.mp hm.right
      exact ⟨rx, hm.left, by rw [imsiOf, hp]; rfl⟩
  have hr := ObeysFrom.of_canReturn (hg _ rfl) h
  cases result
  case ok imsi =>
    have ⟨rx', hm, hi⟩ := hr
    cases hm
    exact hi.symm
  case error e => exact (hr rx rfl).symm

end Gsm
