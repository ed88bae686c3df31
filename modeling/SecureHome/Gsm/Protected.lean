import SecureHome.Gsm.Deinit
import SecureHome.Gsm.Mutex
import SecureHome.Gsm.Statements
import SecureHome.Lib.Teardown

open FreeRTOS Hal Prog Teardown

namespace Gsm

-- What the statements of the driver have to do with the UART that `deinit` takes down.
def Op.act : (o : Op) → sig.Ret o → Act
  | .isInitialized, r                                       => .check r
  | .takeMutex, r                                           => .take r
  | .giveMutex, _                                           => .give
  | .receiveToIdleDma .., _ | .transmitDma .., _ | .abort, _ => .use
  | _, _                                                    => .other

def usage : Usage sig Call where
  tears _  := false
  act _    := Op.act
  Fits _ o := ¬o.OfInit

namespace Deinit

def act : Bool → (o : Op) → sig.Ret o → Act
  | _, .driver o, r         => o.act r
  | _, .takeMutex, _        => .take true
  | _, .clearHandles, _     => .tear
  | _, .deleteMutex, _      => .delete
  | _, .resetInitialized, _ => .reset
  | _, .leave, _            => .leave
  | _, _, _                 => .other

def usage : Usage sig Call where
  tears c := c = .deinit
  act     := act
  Fits
    | _, .driver o => ¬o.OfInit
    | _, _         => True

def State.view {τ : Type} (s : State τ) : View τ where
  flag   := s.driver.isInitialized
  owner  :=
    match s.driver.taskMutex with
    | .heldBy t (depth + 1) => some (t, depth)
    | _                     => none
  alive  := s.driver.taskMutex ≠ .notCreated
  intact := s.handle ≠ .zeroed

-- What the statement is about exists.
def State.Permits {τ : Type} (s : State τ) : Op → Prop
  | .takeMutex | .driver .takeMutex | .driver .giveMutex => s.driver.taskMutex ≠ .notCreated
  | .driver (.receiveToIdleDma ..) | .driver (.transmitDma ..) | .driver .abort => s.handle ≠ .zeroed
  | _ => True

instance {τ : Type} [DecidableEq τ] (s : State τ) : DecidablePred s.Permits
  | .takeMutex => inferInstanceAs (Decidable (s.driver.taskMutex ≠ .notCreated))
  | .driver o  =>
    match o with
    | .takeMutex | .giveMutex => inferInstanceAs (Decidable (s.driver.taskMutex ≠ .notCreated))
    | .receiveToIdleDma .. | .transmitDma .. | .abort => inferInstanceAs (Decidable (s.handle ≠ .zeroed))
    | .isInitialized | .setInitialized | .createMutex | .halInit | .newBuffer | .setCallingTaskHandle
    | .resetCallingTaskHandle | .loadRxIdleLineSize | .resetRxIdleLineSize | .notifyTakeEnter | .notifyTake
    | .notifyWaitEnter | .notifyWait | .loadView .. | .transacted .. | .accept .. =>
      inferInstanceAs (Decidable True)
  | .disableIrqs | .dmaDeInitTx | .dmaDeInitRx | .uartDeInit | .clearHandles | .deleteMutex
  | .resetInitialized | .leave => inferInstanceAs (Decidable True)

end Deinit

namespace Guarded

variable {α : Type} {p : Driver α} {b : Bool} {n : ℕ} {phase after : Phase}

-- The program leaves the call where it is.
def Keeps (b : Bool) (phase : Phase) (p : Driver α) : Prop :=
  FallibleObeys usage.monitor (AtPhase b phase) p (fun _ => AtPhase b phase) fun _ => AtPhase b phase

theorem Keeps.run (h : Keeps b phase p) :
    p.run.Obeys usage.monitor (AtPhase b phase) fun _ => AtPhase b phase :=
  Obeys.weaken h (fun _ hm => hm) fun r _ hm => by cases r <;> exact hm

theorem Keeps.bind {β : Type} {f : α → Driver β} (h : Keeps b phase p) (hf : ∀ a, Keeps b phase (f a)) :
    Keeps b phase (p >>= f) :=
  FallibleObeys.bind h hf

theorem act_of_ofTransact {o : Op} (ho : o.OfTransact) (r : sig.Ret o) :
    o.act r = .use ∨ o.act r = .other := by
  cases o <;> first | exact .inl rfl | exact .inr rfl | exact ho.elim

-- A transaction happens while the mutex is held.
theorem Keeps.of_uses (h : Fallible.Uses Op.OfTransact p) : Keeps b (.inside n) p := by
  have hp : p.run.Obeys usage.monitor (AtPhase b (.inside n)) fun _ => AtPhase b (.inside n) := by
    refine .of_uses h (fun o m ho hm => hm ▸ ⟨?_, fun r => ?_⟩) fun o m r ho hm => ?_
    case refine_1 => cases o <;> first | exact id | exact ho
    case refine_2 =>
      change Phase.Allows _ (o.act r)
      rcases act_of_ofTransact ho r with ha | ha <;> rw [ha] <;> trivial
    case refine_3 =>
      cases hm
      change (b, Phase.next _ (o.act r)) = _
      rcases act_of_ofTransact ho r with ha | ha <;> rw [ha] <;> rfl
  exact Obeys.weaken hp (fun _ hm => hm) fun r _ hm => by cases r <;> exact hm

-- A check goes on if it is passed.
theorem obeys_checkInitialized (ha : ∀ r, phase.Allows (.check r)) (hf : phase.next (.check false) = phase) :
    FallibleObeys usage.monitor (AtPhase b phase) checkInitialized
      (fun _ => AtPhase b (phase.next (.check true))) fun _ => AtPhase b phase := by
  have hi : (Prog.perform (S := sig) .isInitialized).Obeys usage.monitor (AtPhase b phase)
      fun r => AtPhase b (phase.next (.check r)) :=
    usage.obeys_perform id ha fun _ => rfl
  refine .bind (.lift hi) fun r => ?_
  cases r
  case false => exact .throw fun _ hm => hm.trans (congrArg _ hf)
  case true  => exact .pure fun _ hm => hm

theorem obeys_check : FallibleObeys usage.monitor (AtPhase b .outside) checkInitialized
    (fun _ => AtPhase b .checked) fun _ => AtPhase b .outside :=
  obeys_checkInitialized (fun _ => trivial) rfl

theorem obeys_scopedMutex (h : Keeps b (.inside n) p) (ha : ∀ r, phase.Allows (.take r))
    (ht : phase.next (.take true) = .inside n) (hf : phase.next (.take false) = after)
    (hg : (Phase.inside n).next .give = after) :
    FallibleObeys usage.monitor (AtPhase b phase) (scopedMutex p) (fun _ => AtPhase b after)
      fun _ => AtPhase b after := by
  have ht : (Prog.perform (S := sig) .takeMutex).Obeys usage.monitor (AtPhase b phase)
      fun r => AtPhase b (if r then .inside n else after) :=
    usage.obeys_perform id ha fun r => by cases r; exacts [hf, ht]
  have hg : (Prog.perform (S := sig) .giveMutex).Obeys usage.monitor (AtPhase b (.inside n))
      fun _ => AtPhase b after :=
    usage.obeys_perform id (fun _ => by trivial) fun _ => hg
  refine Obeys.bind ht fun r => ?_
  cases r
  case false => exact .pure fun _ hm => hm
  case true  =>
    refine Obeys.bind h.run fun r => Obeys.bind hg fun _ => ?_
    cases r <;> exact .pure fun _ hm => hm

theorem uses_tryGsm {cmd : CmdT} {err : ErrorT} :
    Fallible.Uses Op.OfTransact (tryGsm (sendCmdAndCompareResult cmd) err) :=
  Statements.uses_tryGsm fun _ h _ => h

theorem uses_request {txCmd : List UInt8} {accepts : List UInt8 → Bool} {err : ErrorT} :
    Fallible.Uses Op.OfTransact (request txCmd accepts err) :=
  Statements.uses_request fun _ h _ => h

theorem uses_getSimStatus : Fallible.Uses Op.OfTransact (do
    tryGsm (sendCmdAndCompareResult .at) .gsmModuleNotAlive
    tryGsm (sendCmdAndCompareResult .checkSim) .gsmSimNotFound
    tryGsm (sendCmdAndCompareResult .checkReg) .gsmSimNotRegistered
    tryGsm (sendCmdAndCompareResult .checkSignal) .gsmBadNetworkConn) :=
  .bind uses_tryGsm fun _ => .bind uses_tryGsm fun _ => .bind uses_tryGsm fun _ => uses_tryGsm

-- A call may be made by a call that holds the mutex.
theorem keeps_getSimStatus : Keeps b (.inside n) getSimStatus :=
  .bind (obeys_checkInitialized (fun _ => trivial) rfl) fun _ =>
    obeys_scopedMutex (.of_uses uses_getSimStatus) (fun _ => trivial) rfl rfl rfl

theorem guards_call (h : Keeps b (.inside 0) p) : usage.Guards b (do checkInitialized; scopedMutex p) := by
  have hs : FallibleObeys usage.monitor (AtPhase b .checked) (scopedMutex p) (fun _ => AtPhase b .outside)
      fun _ => AtPhase b .outside := obeys_scopedMutex h (fun _ => trivial) rfl rfl rfl
  exact (obeys_check.bind fun _ => hs).weaken (fun _ hm => hm) (fun _ _ => .inl) fun _ _ => .inl

theorem guards_getSimStatus : usage.Guards b getSimStatus :=
  guards_call (.of_uses uses_getSimStatus)

theorem guards_getImsi : usage.Guards b getImsi :=
  guards_call <| .of_uses <| .bind uses_tryGsm fun _ => .bind uses_tryGsm fun _ =>
    .bind uses_request fun _ => .pure

theorem guards_sendSms {sms number : List UInt8} {checkSimStatus : Bool} :
    usage.Guards b (sendSms sms number checkSimStatus) := by
  by_cases hi : sms = [] ∨ number = [] ∨ sms.length > maxSmsLen ∨ number.length > maxPhoneNumberLen
  case pos =>
    refine (obeys_check.errors fun _ _ => .inl).bind fun _ => ?_
    rw [if_pos hi]
    exact .throw fun _ hm => .inr (.inl hm)
  case neg =>
    have hs : Keeps b (.inside 0) (do
        let _ ← request (text "AT+CMGS=\"" ++ number ++ text "\"\r")
          (fun rx => (find rx (text ">")).isSome) .errFail
        let _ ← request (sms ++ [0x1A]) (fun rx => (find rx (text "+CMGS:")).isSome) .gsmSmsSendFail) :=
      .of_uses (.bind uses_request fun _ => .bind uses_request fun _ => .pure)
    simp only [sendSms, if_neg hi]
    refine guards_call ?_
    cases checkSimStatus
    case false => exact hs
    case true  => exact keeps_getSimStatus.bind fun _ => hs

end Guarded

namespace Deinit

variable {α : Type} {b : Bool}

-- What a function of the driver does is the same in `deinit`.
theorem obeys_inDriver {p : Driver α} {P : Bool × Phase → Prop} {Q : α → Bool × Phase → Prop}
    {R : ErrorT → Bool × Phase → Prop} (h : FallibleObeys Gsm.usage.monitor P p Q R) :
    FallibleObeys usage.monitor P (inDriver p) Q R := by
  intro m hm
  have hp := ObeysFrom.mapOps (B := usage.monitor) (f := Op.driver) (g := fun _ r => r) (R := Eq)
    (h m hm) rfl (fun o m n he ha => he ▸ ha) fun o r m n he _ => he ▸ rfl
  exact hp.weaken fun _ _ ⟨_, hq, he⟩ => he ▸ hq

-- A statement that takes `deinit` from one point to another.
theorem obeys_statement {o : Op} {phase phase' : Phase} (hf : usage.Fits b o)
    (ha : ∀ r, phase.Allows (act b o r)) (hn : ∀ r, phase.next (act b o r) = phase') :
    (perform o).Obeys usage.monitor (AtPhase b phase) fun _ => AtPhase b phase' :=
  usage.obeys_perform hf ha hn

-- A statement that is about neither the mutex nor the UART.
theorem obeys_other {o : Op} {phase : Phase} (hf : usage.Fits b o) (ha : ∀ r, act b o r = .other) :
    (perform o).Obeys usage.monitor (AtPhase b phase) fun _ => AtPhase b phase :=
  obeys_statement hf (fun r => by rw [ha]; cases phase <;> trivial) fun r => by rw [ha]; cases phase <;> rfl

theorem obeys_tryHal {phase : Phase} {p : Prog sig Status}
    (h : p.Obeys usage.monitor (AtPhase b phase) fun _ => AtPhase b phase) :
    FallibleObeys usage.monitor (AtPhase b phase) (tryHal p) (fun _ => AtPhase b phase)
      fun _ => AtPhase b phase := by
  refine .bind (.lift h) fun status => ?_
  split
  case isTrue  => exact .throw fun _ hm => hm
  case isFalse => exact .pure fun _ hm => hm

theorem obeys_deinitLocked :
    FallibleObeys usage.monitor (AtPhase b (.inside 0)) deinitLocked (fun _ => AtPhase b .torn)
      fun _ => AtPhase b (.inside 0) := by
  have hs : (inDriver sendDeinit).run.Obeys usage.monitor (AtPhase b (.inside 0))
      fun _ => AtPhase b (.inside 0) := by
    have hk : Guarded.Keeps b (.inside 0) sendDeinit :=
      .of_uses (.bind Guarded.uses_request fun _ => .pure)
    exact Obeys.weaken (obeys_inDriver hk) (fun _ hm => hm) fun r _ hm => by cases r <;> exact hm
  refine .bind (.lift hs) fun _ => ?_
  refine .bind (.lift (obeys_other (o := .disableIrqs) trivial fun _ => rfl)) fun _ => ?_
  refine .bind (obeys_tryHal (obeys_other (o := .dmaDeInitTx) trivial fun _ => rfl)) fun _ => ?_
  refine .bind (obeys_tryHal (obeys_other (o := .dmaDeInitRx) trivial fun _ => rfl)) fun _ => ?_
  refine .bind (obeys_tryHal (obeys_other (o := .uartDeInit) trivial fun _ => rfl)) fun _ => ?_
  have hc : (perform .clearHandles).Obeys usage.monitor (AtPhase b (.inside 0)) fun _ => AtPhase b .torn :=
    obeys_statement trivial (fun _ => trivial) fun _ => rfl
  refine .bind (.lift hc) fun _ => ?_
  exact .bind (.lift (obeys_other (o := .driver .resetRxIdleLineSize) id fun _ => rfl)) fun _ =>
    .lift (obeys_other (o := .driver .resetCallingTaskHandle) id fun _ => rfl)

theorem guards_deinit : usage.Guards b deinit := by
  have hc : FallibleObeys usage.monitor (AtPhase b .outside) (inDriver checkInitialized)
      (fun _ => AtPhase b .checked) fun _ => AtPhase b .outside :=
    obeys_inDriver Guarded.obeys_check
  have hg {phase phase' : Phase} (ha : phase.Allows .give) (hn : phase.next .give = phase') :
      (perform (.driver .giveMutex)).Obeys usage.monitor (AtPhase b phase) fun _ => AtPhase b phase' :=
    obeys_statement id (fun _ => ha) fun _ => hn
  have hs : FallibleObeys usage.monitor (AtPhase b .checked) (scopedMutex deinitLocked)
      (fun _ => AtPhase b .released) fun _ => AtPhase b .outside := by
    have ht : (perform .takeMutex).Obeys usage.monitor (AtPhase b .checked)
        fun _ => AtPhase b (.inside 0) := obeys_statement trivial (fun _ => trivial) fun _ => rfl
    refine Obeys.bind ht fun _ => Obeys.bind obeys_deinitLocked fun r => ?_
    cases r
    case ok    => exact Obeys.bind (hg trivial rfl) fun _ => .pure fun _ hm => hm
    case error => exact Obeys.bind (hg trivial rfl) fun _ => .pure fun _ hm => hm
  have hd : FallibleObeys usage.monitor (AtPhase b .released)
      (ExceptT.lift (perform .deleteMutex) : Fallible sig ErrorT Unit) (fun _ => AtPhase b .deleted)
      fun _ => AtPhase b .outside :=
    .lift (obeys_statement trivial (fun _ => by trivial) fun _ => rfl)
  have hr : FallibleObeys usage.monitor (AtPhase b .deleted)
      (ExceptT.lift (perform .resetInitialized) : Fallible sig ErrorT Unit) (fun _ => AtPhase b .outside)
      fun _ => AtPhase b .outside :=
    .lift (obeys_statement trivial (fun _ => by trivial) fun _ => rfl)
  exact (FallibleObeys.bind hc fun _ => .bind hs fun _ => .bind hd fun _ => hr).weaken (fun _ hm => hm)
    (fun _ _ => .inl) fun _ _ => .inl

theorem guards_runCall (c : Call) : usage.Guards b (runCall c) := by
  cases c
  case getSimStatus => exact obeys_inDriver Guarded.guards_getSimStatus
  case sendSms      => exact obeys_inDriver Guarded.guards_sendSms
  case getImsi      => exact (obeys_inDriver Guarded.guards_getImsi).bind fun _ => .pure fun _ hm => hm
  case deinit       => exact guards_deinit

theorem obeys_serve (c : Call) : (serve c).ObeysFrom usage.monitor
    (fun _ m => m.2 = .outside ∨ m.2 = .failed) (usage.monitor.start c) := by
  have hl := usage.obeys_leave (b := usage.tears c) (o := .leave) trivial fun _ => rfl
  refine Obeys.bind (P := AtPhase (usage.tears c) .outside) (I := fun _ => Returned (usage.tears c)) ?_
    (fun _ => hl) _ rfl
  exact Obeys.weaken (guards_runCall c) (fun _ hm => hm) fun r _ hm => by cases r <;> exact hm

section View

variable {τ : Type} {s s' : State τ}

theorem State.view_congr (hi : s'.driver.isInitialized = s.driver.isInitialized)
    (hm : s'.driver.taskMutex = s.driver.taskMutex) (hh : s'.handle = s.handle) : s'.view = s.view := by
  simp only [view, hi, hm, hh]

variable [DecidableEq τ] {t : τ} {b : Bool}

-- A statement of the driver does what it does, unless the UART is not initialised anymore.
theorem State.mem_exec_driver {o : Gsm.Op} {r : Gsm.sig.Ret o} (h : (r, s') ∈ s.exec t (.driver o)) :
    o.OfTransact ∧ s' = s ∨ ∃ driver, (r, driver) ∈ s.driver.exec t o ∧ s' = { s with driver } := by
  have hm (h : (r, s') ∈ (s.driver.exec t o).map fun p => (p.1, { s with driver := p.2 })) :
      ∃ driver, (r, driver) ∈ s.driver.exec t o ∧ s' = { s with driver } := by
    obtain ⟨⟨_, driver⟩, hd, he⟩ := List.mem_map.mp h
    cases he
    exact ⟨driver, hd, rfl⟩
  cases o
  case receiveToIdleDma | transmitDma =>
    simp only [exec] at h
    split at h
    case isTrue  => exact .inr (hm h)
    case isFalse => exact .inl ⟨id, (Prod.mk.inj (List.mem_singleton.mp h)).right⟩
  case abort =>
    simp only [exec] at h
    split at h
    case isTrue  => cases h
    case isFalse => exact .inr (hm h)
  all_goals exact .inr (hm h)

theorem State.becomes_take {taskMutex : RecursiveMutex τ}
    (h : s.driver.taskMutex.take t = some taskMutex) :
    s.view.Becomes t { s with driver.taskMutex := taskMutex }.view (.take true) := by
  cases hm : s.driver.taskMutex <;>
    simp only [hm, RecursiveMutex.take, Option.some.injEq, reduceCtorEq] at h
  case free => exact h ▸ ⟨by simp [view, hm], .inl ⟨by simp [view, hm], by simp [view, hm]⟩⟩
  case heldBy u depth =>
    split at h <;> cases h
    case isTrue hu =>
      refine ⟨by simp [view, hm], ?_⟩
      cases depth
      case zero       => exact .inl ⟨by simp [view, hm], by simp [view, hm, hu]⟩
      case succ depth => exact .inr ⟨depth, by simp [view, hm, hu], by simp [view, hm, hu]⟩

theorem State.becomes_driver {o : Gsm.Op} {r : Gsm.sig.Ret o} (h : (r, s') ∈ s.exec t (.driver o))
    (hf : ¬o.OfInit) : s.view.Becomes t s'.view (o.act r) := by
  rcases mem_exec_driver h with ⟨ho, rfl⟩ | ⟨driver, hd, rfl⟩
  case inl => rcases Guarded.act_of_ofTransact ho r with ha | ha <;> rw [ha] <;> rfl
  case inr =>
    have hp := Gsm.State.performs_of_exec hd
    cases hp
    case isInitialized => exact ⟨rfl, rfl⟩
    case setInitialized | createMutex | halInit | halInitError => exact (hf trivial).elim
    case takeMutex hm =>
      exact becomes_take (by rw [hm]; rfl)
    case takeMutexAgain hm =>
      exact becomes_take (by rw [hm]; exact if_pos rfl)
    case takeMutexTimeout => exact rfl
    case giveMutex u depth hm =>
      refine ⟨fun ho => ?_, fun n ho => ?_⟩
      case refine_1 =>
        have ⟨hu, hd⟩ : u = t ∧ depth = 0 := by simpa [view, hm] using ho
        simp [view, hm, hd]
      case refine_2 =>
        have ⟨hu, hd⟩ : u = t ∧ depth = n + 1 := by simpa [view, hm] using ho
        simp [view, hm, hu, hd]
    case giveMutexNone hm =>
      have hn : s.view.owner = none := by simp only [view]
      exact ⟨fun ho => absurd (hn.symm.trans ho) nofun, fun _ ho => absurd (hn.symm.trans ho) nofun⟩
    all_goals exact view_congr rfl rfl rfl

-- What a statement does to what matters.
theorem State.becomes {o : Op} {r : sig.Ret o} (h : (r, s') ∈ s.exec t o) (hf : usage.Fits b o) :
    s.view.Becomes t s'.view (act b o r) := by
  cases o
  case driver o => exact becomes_driver h hf
  case takeMutex =>
    have ⟨taskMutex, hm, he⟩ := Option.map_eq_some_iff.mp (Option.mem_toList.mp h)
    cases he
    exact becomes_take hm
  case clearHandles =>
    cases List.mem_singleton.mp h
    exact ⟨_, rfl⟩
  case deleteMutex =>
    cases List.mem_singleton.mp h
    intro ho
    simpa [view] using ho.symm
  case dmaDeInitTx | dmaDeInitRx | uartDeInit =>
    simp only [exec] at h
    split at h <;> cases h
    case isFalse.head hh =>
      refine (?_ : State.view _ = s.view)
      simp [view, hh]
    case isFalse.tail => contradiction
  all_goals
    cases List.mem_singleton.mp h
    exact rfl

end View

section Runs

variable {τ : Type} [DecidableEq τ] {os : List (Occurrence sig τ Call (Event τ))}
variable {p : Pool sig τ (State τ)} {driver : Gsm.State τ}

theorem describes : usage.Describes State.view (system τ) where
  calls t c q h     := by
    cases h
    exact obeys_serve c
  exec _ _ _ _ _ _  := State.becomes
  event e s s' h    := by
    simp only [system, State.event] at h
    split at h
    case isTrue  => contradiction
    case isFalse =>
      have ⟨driver, hd, he⟩ := Option.map_eq_some_iff.mp h
      have hl := (Gsm.State.happens_of_event hd).locks
      exact he ▸ State.view_congr hl.right hl.left rfl

theorem protected_of_orderly (h : (system τ).History .any (.idle (.initialized driver)) os p)
    (ho : usage.Orderly os) : Protected usage.tears State.Permits os p := by
  have ha : (State.initialized driver).view.alive := by simp [State.view, State.initialized]
  have hi : (State.initialized driver).view.intact := by simp [State.view, State.initialized]
  refine describes.isProtected rfl ha hi h ho fun s o _ hs => ?_
  cases o
  case takeMutex => exact hs ()
  case driver o _ =>
    cases o
    case takeMutex => exact hs true
    case giveMutex => exact hs ()
    case receiveToIdleDma | transmitDma => exact hs .ok
    case abort     => exact hs ()
    all_goals trivial
  all_goals trivial

end Runs

end Deinit

end Gsm
