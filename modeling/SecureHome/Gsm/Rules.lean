import SecureHome.Gsm.Driver

open Hal

namespace Gsm

variable {τ ω α : Type} [DecidableEq τ] {O : Outline τ (State τ) ω} {allowed : τ → Call → Bool}
variable {C : Pool.Cond sig τ (Event τ) (State τ)} {t : τ}

-- A statement takes the driver from one condition to another.
def Does (O : Outline τ (State τ) ω) (allowed : τ → Call → Bool)
    (C : Pool.Cond sig τ (Event τ) (State τ)) (t : τ) (P : ω → Prop) (o : Op)
    (Q : sig.Ret o → ω → Prop) : Prop :=
  O.Triple (system allowed) C t P (Prog.perform (S := sig) o) Q

-- A program of the driver takes it from one condition to another, whatever the error.
def Runs (O : Outline τ (State τ) ω) (allowed : τ → Call → Bool)
    (C : Pool.Cond sig τ (Event τ) (State τ)) (t : τ) (P : ω → Prop) (p : Driver α)
    (Q : α → ω → Prop) (R : ω → Prop) : Prop :=
  O.FallibleTriple (system allowed) C t P p Q fun _ => R

-- What the statements of `exchange` do.
structure Exchanges (O : Outline τ (State τ) ω) (allowed : τ → Call → Bool)
    (C : Pool.Cond sig τ (Event τ) (State τ)) (t : τ) (txCmd : List UInt8) (rxCmd : Buffer)
    (Idle Ready Armed Sent Waiting Expired Notified Failed : ω → Prop) (Done : ℕ → ω → Prop) :
    Prop where
  setCallingTaskHandle : Does O allowed C t Idle .setCallingTaskHandle fun _ => Ready
  receiveToIdleDma : Does O allowed C t Ready (.receiveToIdleDma rxCmd uartIdleLineBufByte)
    fun status => if status = .ok then Armed else Failed
  transmitDma : Does O allowed C t Armed (.transmitDma txCmd rxCmd)
    fun status => if status = .ok then Sent else Failed
  notifyTakeEnter : Does O allowed C t Sent .notifyTakeEnter fun _ => Waiting
  notifyTake : Does O allowed C t Waiting .notifyTake
    fun value => if value = 0 then Expired else Notified
  abort : Does O allowed C t Expired .abort fun _ => Failed
  loadRxIdleLineSize : Does O allowed C t Notified .loadRxIdleLineSize Done

namespace Runs

variable {P P' R : ω → Prop} {p : Driver α} {Q : α → ω → Prop}

theorem perform {o : Op} {Q : sig.Ret o → ω → Prop} (h : Does O allowed C t P o Q) :
    Runs O allowed C t P (Gsm.perform o) Q R :=
  .lift h

theorem bind {β : Type} {q : Driver β} {f : β → Driver α} {I : β → ω → Prop}
    (h : Runs O allowed C t P q I R) (hf : ∀ b, Runs O allowed C t (I b) (f b) Q R) :
    Runs O allowed C t P (q >>= f) Q R :=
  Outline.FallibleTriple.bind h hf

theorem pure {a : α} (h : ∀ w, O.inv w → P w → Q a w) :
    Runs O allowed C t P (Pure.pure a : Driver α) Q R :=
  Outline.FallibleTriple.pure h

theorem throw {e : ErrorT} (h : ∀ w, O.inv w → P w → R w) :
    Runs O allowed C t P (MonadExcept.throw e : Driver α) Q R :=
  Outline.FallibleTriple.throw h

theorem weaken {Q' : α → ω → Prop} {R' : ω → Prop} (h : Runs O allowed C t P' p Q' R')
    (hp : ∀ w, O.inv w → P w → P' w) (hq : ∀ a w, O.inv w → Q' a w → Q a w)
    (hr : ∀ w, O.inv w → R' w → R w) : Runs O allowed C t P p Q R :=
  Outline.FallibleTriple.weaken h hp hq fun _ => hr

theorem adapt {f : ErrorT → ErrorT} (h : Runs O allowed C t P p Q R) :
    Runs O allowed C t P (p.adapt f) Q R :=
  Outline.FallibleTriple.adapt h fun _ _ _ h => h

theorem tryHal {p : Driver Status} {Q : ω → Prop}
    (h : Runs O allowed C t P p (fun status => if status = .ok then Q else R) R) :
    Runs O allowed C t P (Gsm.tryHal p) (fun _ => Q) R := by
  apply h.bind
  intro status
  by_cases hs : status = .ok <;> simp only [hs, ne_eq, not_true_eq_false, not_false_eq_true, if_true, if_false]
  case pos => exact pure fun _ _ h => h
  case neg => exact throw fun _ _ h => h

theorem taskNotifyTake {I : ω → Prop} {Q : UInt32 → ω → Prop}
    (he : Does O allowed C t P .notifyTakeEnter fun _ => I)
    (ht : Does O allowed C t I .notifyTake Q) : Runs O allowed C t P Gsm.taskNotifyTake Q R :=
  (perform he).bind fun _ => perform ht

theorem exchange {txCmd : List UInt8} {rxCmd : Buffer}
    {Idle Ready Armed Sent Waiting Expired Notified Failed : ω → Prop} {Done : ℕ → ω → Prop}
    (h : Exchanges O allowed C t txCmd rxCmd Idle Ready Armed Sent Waiting Expired Notified Failed
      Done) :
    Runs O allowed C t Idle (Gsm.exchange txCmd rxCmd) Done Failed := by
  apply bind (perform h.setCallingTaskHandle)
  intro _
  apply bind (tryHal (perform h.receiveToIdleDma))
  intro _
  apply bind (tryHal (perform h.transmitDma))
  intro _
  apply bind (taskNotifyTake h.notifyTakeEnter h.notifyTake)
  intro value
  by_cases hv : value = 0 <;> simp only [hv, if_true, if_false]
  case pos => exact (perform h.abort).bind fun _ => throw fun _ _ h => h
  case neg => exact perform h.loadRxIdleLineSize

end Runs

-- What the destructor of a `cleanup_t` leaves alone.
structure Cleans (O : Outline τ (State τ) ω) (allowed : τ → Call → Bool)
    (C : Pool.Cond sig τ (Event τ) (State τ)) (t : τ) (P : ω → Prop) : Prop where
  resetRxIdleLineSize    : Does O allowed C t P .resetRxIdleLineSize fun _ => P
  resetCallingTaskHandle : Does O allowed C t P .resetCallingTaskHandle fun _ => P

namespace Runs

variable {P R : ω → Prop} {p : Driver α} {Q : α → ω → Prop}

theorem scopedCleanup (h : Runs O allowed C t P p Q R) (hq : ∀ a, Cleans O allowed C t (Q a))
    (hr : Cleans O allowed C t R) : Runs O allowed C t P (Gsm.scopedCleanup p) Q R := by
  apply Outline.Triple.bind h
  intro r
  cases r
  case ok a =>
    apply (hq a).resetRxIdleLineSize.bind
    intro _
    exact (hq a).resetCallingTaskHandle.bind fun _ => .pure fun _ _ h => h
  case error e =>
    apply hr.resetRxIdleLineSize.bind
    intro _
    exact hr.resetCallingTaskHandle.bind fun _ => .pure fun _ _ h => h

theorem transact {txCmd : List UInt8} {rxCmd : Buffer} {Q Q' : ℕ → ω → Prop} {R' : ω → Prop}
    (h : Runs O allowed C t P (Gsm.exchange txCmd rxCmd) Q' R')
    (hq : ∀ size, Cleans O allowed C t (Q' size)) (hr : Cleans O allowed C t R')
    (hd : ∀ size, Does O allowed C t (Q' size) (.transacted rxCmd (.ok size)) fun _ => Q size)
    (he : ∀ e, Does O allowed C t R' (.transacted rxCmd (.error e)) fun _ => R) :
    Runs O allowed C t P (Gsm.transact txCmd rxCmd) Q R := by
  apply Outline.Triple.bind (h.scopedCleanup hq hr)
  intro r
  cases r
  case ok size => exact (hd size).bind fun _ => .pure fun _ _ h => h
  case error e => exact (he e).bind fun _ => .pure fun _ _ h => h

theorem transactCall {txCmd : List UInt8} {I : Buffer → ω → Prop} {Q : ω → Prop}
    (hn : Does O allowed C t P .newBuffer I)
    (h : ∀ rxCmd, Runs O allowed C t (I rxCmd) (Gsm.transact txCmd rxCmd) (fun _ => Q) R) :
    Runs O allowed C t P (runCall (.transact txCmd)) (fun _ => Q) R :=
  (perform hn).bind fun rxCmd => (h rxCmd).bind fun _ => pure fun _ _ h => h

theorem request {txCmd : List UInt8} {accepts : List UInt8 → Bool} {err : ErrorT}
    {Open Done : Buffer → ω → Prop} {Viewed : Buffer → List Symbol → ω → Prop} {Q : ω → Prop}
    (hn : Does O allowed C t P .newBuffer Open)
    (ht : ∀ rxCmd, Runs O allowed C t (Open rxCmd) (Gsm.transact txCmd rxCmd)
      (fun _ => Done rxCmd) R)
    (hv : ∀ rxCmd size, Does O allowed C t (Done rxCmd) (.loadView rxCmd size) (Viewed rxCmd))
    (ha : ∀ rxCmd rx, accepts (rx.map Symbol.char) = true →
      Does O allowed C t (Viewed rxCmd rx) (.accept rxCmd rx) fun _ => Q)
    (hr : ∀ rxCmd rx w, O.inv w → Viewed rxCmd rx w → R w) :
    Runs O allowed C t P (Gsm.request txCmd accepts err) (fun _ => Q) R := by
  apply bind (perform hn)
  intro rxCmd
  apply bind (adapt (ht rxCmd))
  intro size
  apply bind (perform (hv rxCmd size))
  intro rx
  split
  case isTrue hrx  => exact (perform (ha rxCmd rx hrx)).bind fun _ => pure fun _ _ h => h
  case isFalse hrx => exact throw (hr rxCmd rx)

theorem serve {c : Call} {Q : ω → Prop} (h : Runs O allowed C t P (runCall c) (fun _ => Q) Q) :
    O.Triple (system allowed) C t P (Gsm.serve c) fun _ => Q := by
  apply Outline.Triple.bind h
  intro r
  cases r <;> exact .pure fun _ _ h => h

end Runs

-- What the statements of `checkAlive` do.
structure Pings (O : Outline τ (State τ) ω) (allowed : τ → Call → Bool)
    (C : Pool.Cond sig τ (Event τ) (State τ)) (t : τ) (Idle Ready Failed : ω → Prop)
    (Open Armed Sent Notified : Buffer → ω → Prop) : Prop where
  setCallingTaskHandle : Does O allowed C t Idle .setCallingTaskHandle fun _ => Ready
  newBuffer : Does O allowed C t Ready .newBuffer Open
  receiveToIdleDma rxBuf : Does O allowed C t (Open rxBuf)
    (.receiveToIdleDma rxBuf uartIdleLineBufByte)
    fun status => if status = .ok then Armed rxBuf else Failed
  transmitDma rxBuf : Does O allowed C t (Armed rxBuf) (.transmitDma CmdT.at.tx rxBuf)
    fun status => if status = .ok then Sent rxBuf else Failed
  notifyTakeEnter rxBuf : Does O allowed C t (Sent rxBuf) .notifyTakeEnter fun _ => Sent rxBuf
  notifyTake rxBuf : Does O allowed C t (Sent rxBuf) .notifyTake
    fun value => if value = 0 then Armed rxBuf else Notified rxBuf
  abort rxBuf : Does O allowed C t (Armed rxBuf) .abort fun _ => Failed
  loadRxIdleLineSize rxBuf : Does O allowed C t (Notified rxBuf) .loadRxIdleLineSize
    fun _ => Notified rxBuf
  loadView rxBuf size : Does O allowed C t (Notified rxBuf) (.loadView rxBuf size) fun _ => Failed

namespace Runs

variable {Idle Ready Failed : ω → Prop} {Open Armed Sent Notified : Buffer → ω → Prop}

theorem sendAt {rxBuf : Buffer}
    (h : Pings O allowed C t Idle Ready Failed Open Armed Sent Notified) (count : ℕ) :
    Runs O allowed C t (Armed rxBuf) (Gsm.sendAt rxBuf count)
      (fun responded => if responded then Notified rxBuf else Armed rxBuf) Failed := by
  induction count
  case zero => exact pure fun _ _ h => h
  case succ hi =>
    apply bind (tryHal (perform (h.transmitDma rxBuf)))
    intro _
    apply bind (taskNotifyTake (h.notifyTakeEnter rxBuf) (h.notifyTake rxBuf))
    intro value
    by_cases hv : value = 0 <;> simp only [hv, if_true, if_false]
    case pos => exact hi
    case neg =>
      rw [if_pos (UInt32.pos_iff_ne_zero.mpr hv)]
      exact pure fun _ _ h => h

-- The part of `checkAlive` in the scope of its `auto_cleanup`.
theorem checkAlive (h : Pings O allowed C t Idle Ready Failed Open Armed Sent Notified)
    (hf : Cleans O allowed C t Failed) :
    Runs O allowed C t Idle Gsm.checkAlive (fun _ => Failed) Failed := by
  apply scopedCleanup _ (fun _ => hf) hf
  apply bind (perform h.setCallingTaskHandle)
  intro _
  apply bind (perform h.newBuffer)
  intro rxBuf
  apply bind (tryHal (perform (h.receiveToIdleDma rxBuf)))
  intro _
  apply bind (sendAt h numOfTimesToSendAt)
  intro responded
  cases responded
  case false => exact (perform (h.abort rxBuf)).bind fun _ => throw fun _ _ h => h
  case true =>
    apply bind (perform (h.loadRxIdleLineSize rxBuf))
    intro size
    apply bind (perform (h.loadView rxBuf size))
    intro rx
    split
    case isTrue  => exact throw fun _ _ h => h
    case isFalse => exact pure fun _ _ h => h

end Runs

end Gsm
