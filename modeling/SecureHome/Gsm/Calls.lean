import SecureHome.Gsm.Rules

namespace Gsm

-- A reply is accepted only if there is something in it.
def NeedsText (accepts : List UInt8 → Bool) : Prop :=
  ∀ rx, accepts rx = true → ∃ c ∈ rx, c ≠ 0

theorem subset_of_find {s pattern : List UInt8} (h : (find s pattern).isSome) : pattern ⊆ s := by
  simp only [find, List.findIdx?_isSome, List.any_eq_true, List.mem_tails, decide_eq_true_eq] at h
  have ⟨l, hl, hp⟩ := h
  exact fun _ hc => hl.subset (hp.subset hc)

theorem needsText_find {pattern : List UInt8} (h : ∃ c ∈ pattern, c ≠ 0) :
    NeedsText fun rx => (find rx pattern).isSome := by
  intro rx hrx
  have ⟨c, hc, hn⟩ := h
  exact ⟨c, subset_of_find hrx hc, hn⟩

theorem needsText_accepts (cmd : CmdT) : NeedsText cmd.accepts := by
  intro rx hrx
  cases cmd
  case checkSignal =>
    apply needsText_find (show ∃ c ∈ text "+CSQ: ", c ≠ 0 by decide) rx
    cases hf : find rx (text "+CSQ: ")
    case none => simp [CmdT.accepts, hf] at hrx
    case some => simp [hf]
  case checkReg =>
    apply needsText_find (show ∃ c ∈ text ",", c ≠ 0 by decide) rx
    cases hf : find rx (text ",")
    case none => simp [CmdT.accepts, hf] at hrx
    case some => simp [hf]
  all_goals exact needsText_find (by decide) rx hrx

theorem needsText_findImsi : NeedsText fun rx => (findImsi rx).isSome := by
  intro rx hrx
  apply needsText_find (show ∃ c ∈ text "\r\n", c ≠ 0 by decide) rx
  cases hf : find rx (text "\r\n")
  case none => simp [findImsi, hf] at hrx
  case some => simp [hf]

variable {τ ω α : Type} [DecidableEq τ] {O : Outline τ (State τ) ω} {allowed : τ → Call → Bool}
variable {C : Pool.Cond sig τ (Event τ) (State τ)} {t : τ} {P : ω → Prop}

-- The transactions of the driver keep a condition.
def Requests (O : Outline τ (State τ) ω) (allowed : τ → Call → Bool)
    (C : Pool.Cond sig τ (Event τ) (State τ)) (t : τ) (P : ω → Prop) : Prop :=
  ∀ txCmd accepts err, NeedsText accepts →
    Runs O allowed C t P (request txCmd accepts err) (fun _ => P) P

namespace Requests

variable (h : Requests O allowed C t P)

include h

theorem sendCmdAndCompareResult (cmd : CmdT) :
    Runs O allowed C t P (Gsm.sendCmdAndCompareResult cmd) (fun _ => P) P :=
  (h cmd.tx cmd.accepts .errFail (needsText_accepts cmd)).bind fun _ => .pure fun _ _ h => h

theorem tryGsm (cmd : CmdT) (err : ErrorT) :
    Runs O allowed C t P (Gsm.tryGsm (Gsm.sendCmdAndCompareResult cmd) err) (fun _ => P) P :=
  (h.sendCmdAndCompareResult cmd).adapt

theorem pollSignal (i : ℕ) : Runs O allowed C t P (Gsm.pollSignal i) (fun _ => P) P := by
  induction i
  case zero    => exact .throw fun _ _ h => h
  case succ hi =>
    exact Outline.FallibleTriple.tryCatch (h.sendCmdAndCompareResult .checkSignal) fun _ => hi

theorem sendInitSequence (ha : Runs O allowed C t P checkAlive (fun _ => P) P) :
    Runs O allowed C t P Gsm.sendInitSequence (fun _ => P) P := by
  apply ha.bind
  intro _
  apply (h.tryGsm .echoOff .errFail).bind
  intro _
  apply (h.tryGsm .textMode .errFail).bind
  intro _
  apply (h.tryGsm .setSmsc .errFail).bind
  intro _
  apply (h.tryGsm .checkSim .gsmSimNotFound).bind
  intro _
  apply (h.tryGsm .checkReg .gsmSimNotRegistered).bind
  intro _
  exact h.pollSignal numOfTimesToPollSignalCheck

end Requests

-- What the statements around the transactions do, where the first condition says how many times the
-- task has taken the mutex.
structure Serves (O : Outline τ (State τ) ω) (allowed : τ → Call → Bool)
    (C : Pool.Cond sig τ (Event τ) (State τ)) (t : τ) (Depth Ready : ℕ → ω → Prop) : Prop where
  isInitialized n : Does O allowed C t (Depth n) .isInitialized
    fun isInitialized => if isInitialized then Ready n else Depth n
  takeMutex n : Does O allowed C t (Ready n) .takeMutex
    fun taken => if taken then Depth (n + 1) else Depth n
  giveMutex n : Does O allowed C t (Depth (n + 1)) .giveMutex fun _ => Depth n
  requests n : Requests O allowed C t (Depth (n + 1))
  ready n w : Ready n w → Depth n w

namespace Serves

variable {Depth Ready : ℕ → ω → Prop} (h : Serves O allowed C t Depth Ready) (n : ℕ)

include h

theorem checkInitialized :
    Runs O allowed C t (Depth n) Gsm.checkInitialized (fun _ => Ready n) (Depth n) := by
  apply Runs.bind (.perform (h.isInitialized n))
  intro isInitialized
  cases isInitialized
  case false => exact .throw fun _ _ h => h
  case true  => exact .pure fun _ _ h => h

theorem scopedMutex {p : Driver α}
    (hp : Runs O allowed C t (Depth (n + 1)) p (fun _ => Depth (n + 1)) (Depth (n + 1))) :
    Runs O allowed C t (Ready n) (Gsm.scopedMutex p) (fun _ => Depth n) (Depth n) := by
  apply Outline.Triple.bind (h.takeMutex n)
  intro taken
  cases taken
  case false => exact .pure fun _ _ h => h
  case true  =>
    apply Outline.Triple.bind hp
    intro r
    cases r <;> exact (h.giveMutex n).bind fun _ => .pure fun _ _ h => h

theorem getSimStatus :
    Runs O allowed C t (Depth n) Gsm.getSimStatus (fun _ => Depth n) (Depth n) := by
  apply (h.checkInitialized n).bind
  intro _
  apply h.scopedMutex n
  apply ((h.requests n).tryGsm .at .gsmModuleNotAlive).bind
  intro _
  apply ((h.requests n).tryGsm .checkSim .gsmSimNotFound).bind
  intro _
  apply ((h.requests n).tryGsm .checkReg .gsmSimNotRegistered).bind
  intro _
  exact (h.requests n).tryGsm .checkSignal .gsmBadNetworkConn

theorem sendSms (sms number : List UInt8) (checkSimStatus : Bool) :
    Runs O allowed C t (Depth n) (Gsm.sendSms sms number checkSimStatus) (fun _ => Depth n)
      (Depth n) := by
  apply (h.checkInitialized n).bind
  intro _
  split
  case isTrue  => exact .throw fun w _ hr => h.ready n w hr
  case isFalse =>
    apply h.scopedMutex n
    have hs : Runs O allowed C t (Depth (n + 1)) (do
        let _ ← request (text "AT+CMGS=\"" ++ number ++ text "\"\r")
          (fun rx => (find rx (text ">")).isSome) .errFail
        let _ ← request (sms ++ [0x1A]) (fun rx => (find rx (text "+CMGS:")).isSome) .gsmSmsSendFail)
        (fun _ => Depth (n + 1)) (Depth (n + 1)) := by
      apply (h.requests n _ _ .errFail (needsText_find (by decide))).bind
      intro _
      apply (h.requests n _ _ .gsmSmsSendFail (needsText_find (by decide))).bind
      exact fun _ => .pure fun _ _ h => h
    cases checkSimStatus
    case false => exact hs
    case true  => exact (h.getSimStatus (n + 1)).bind fun _ => hs

theorem getImsi : Runs O allowed C t (Depth n) Gsm.getImsi (fun _ => Depth n) (Depth n) := by
  apply (h.checkInitialized n).bind
  intro _
  apply h.scopedMutex n
  apply ((h.requests n).tryGsm .at .gsmModuleNotAlive).bind
  intro _
  apply ((h.requests n).tryGsm .checkSim .gsmSimNotFound).bind
  intro _
  apply (h.requests n CmdT.getImsi.tx _ .errFail needsText_findImsi).bind
  exact fun _ => .pure fun _ _ h => h

end Serves

end Gsm
