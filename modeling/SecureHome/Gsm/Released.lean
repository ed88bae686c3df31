import SecureHome.Gsm.Rules
import SecureHome.Gsm.Steps

open FreeRTOS Hal

namespace Gsm

def onlyTransactions (_ : Unit) : Call → Bool
  | .transact _ | .checkAlive => true
  | _                         => false

-- All that can happen while the environment behaves in a certain way.
def within (E : Event Unit → State Unit → Prop) : Pool.Cond sig Unit (Event Unit) (State Unit) where
  op _ _ _ := True
  event    := E

-- No reception is left when the task has returned from a call.
def Released (p : Pool sig Unit (State Unit)) : Prop :=
  p.threads () = .pure () → p.shared.huart.rxState = .ready

-- A transmission only fails if the reception is over, and a notification is only taken then.
def endsReception : Pool.Cond sig Unit (Event Unit) (State Unit) where
  op
    | _, .transmitDma txCmd _, s => s.huart.rxState = .ready ∨
      s.huart.gState = .ready ∧ txCmd ≠ [] ∧ s.dmaFault = false
    | t, .notifyTake, s => (s.notifications t).blocked = false →
      (s.notifications t).value ≠ 0 → s.huart.rxState = .ready
    | _, _, _ => True
  event _ _ := True

namespace Releasing

def Over (s : State Unit) : Prop :=
  s.huart.rxState = .ready

-- No event starts a reception.
def outline : Outline Unit (State Unit) (State Unit) :=
  .direct (fun _ => True) fun _ s s' => Over s → Over s'

variable {s s' : State Unit} {rxCmd : Buffer} {txCmd : List UInt8} {P : State Unit → Prop} {o : Op}

theorem over_rxEventCallback (huart : Uart) (size : ℕ) (h : huart.rxState = .ready) :
    Over ({ s with huart }.rxEventCallback size) := by
  unfold State.rxEventCallback
  split <;> exact h

theorem Over.happens {e : Event Unit} (h : Over s) (he : s.Happens e s') : Over s' := by
  cases he
  case rxByte =>
    simp only [Over, State.rxByte, Uart.rxByte]
    split <;> exact h
  case idleIrq | cpltIrq => exact over_rxEventCallback _ _ rfl
  case halfIrq           => exact over_rxEventCallback _ _ h
  case errorIrq          => rfl
  all_goals exact h

theorem does {Q : sig.Ret o → State Unit → Prop} (hp : outline.Stable () P)
    (h : ∀ s r s', P s → endsReception.op () o s → s.Performs () o r s' → Q r s') :
    Does outline onlyTransactions endsReception () P o Q :=
  .direct_perform hp fun s r s' _ hs hc hm =>
    ⟨⟨trivial, fun _ hu => absurd rfl hu⟩, h s r s' hs hc (State.performs_of_exec hm)⟩

theorem stable_true : outline.Stable () fun _ => True :=
  fun _ _ _ _ => trivial

theorem stable_over : outline.Stable () Over :=
  fun _ _ ⟨_, _, hs⟩ => hs

theorem does_true : Does outline onlyTransactions endsReception () (fun _ => True) o fun _ _ => True :=
  does stable_true fun _ _ _ _ _ _ => trivial

-- The statements that leave the UART alone.
def KeepsUart : Op → Prop
  | .newBuffer | .setCallingTaskHandle | .resetCallingTaskHandle | .loadRxIdleLineSize
  | .resetRxIdleLineSize | .loadView .. | .transacted .. => True
  | _                                                    => False

theorem KeepsUart.huart {r : sig.Ret o} (h : KeepsUart o) (hp : s.Performs () o r s') :
    s'.huart = s.huart := by
  cases hp <;> first | rfl | cases h

theorem does_over (h : KeepsUart o) :
    Does outline onlyTransactions endsReception () Over o fun _ => Over :=
  does stable_over fun s r s' hs _ hp => by rwa [Over, h.huart hp]

theorem cleans_over : Cleans outline onlyTransactions endsReception () Over where
  resetRxIdleLineSize    := does_over trivial
  resetCallingTaskHandle := does_over trivial

theorem does_receiveToIdleDma :
    Does outline onlyTransactions endsReception () Over (.receiveToIdleDma rxCmd uartIdleLineBufByte)
      fun status => if status = .ok then fun _ => True else Over :=
  does stable_over fun s r s' hs _ hp => by
    cases hp
    case receiveToIdleDma => trivial
    all_goals exact hs

theorem does_transmitDma :
    Does outline onlyTransactions endsReception () (fun _ => True) (.transmitDma txCmd rxCmd)
      fun status => if status = .ok then fun _ => True else Over :=
  does stable_true fun s r s' _ hc hp => by
    cases hp
    case transmitDma => trivial
    case transmitDmaError hf =>
      exact hc.elim id fun ⟨_, hn, hd⟩ => (hf.elim hn (by simp [hd])).elim
    case transmitDmaBusy hg => exact hc.elim id fun ⟨hr, _⟩ => (hg hr).elim

theorem does_notifyTake :
    Does outline onlyTransactions endsReception () (fun _ => True) .notifyTake
      fun value => if value = 0 then fun _ => True else Over :=
  does stable_true fun s r s' _ hc hp => by
    cases hp
    case notifyTake hb hv  => rw [if_neg hv]; exact hc hb hv
    case notifyTakeTimeout => trivial

theorem does_abort : Does outline onlyTransactions endsReception () (fun _ => True) .abort fun _ => Over :=
  does stable_true fun s r s' _ _ hp => by
    cases hp
    rfl

theorem exchanges : Exchanges outline onlyTransactions endsReception () txCmd rxCmd Over Over
    (fun _ => True) (fun _ => True) (fun _ => True) (fun _ => True) Over Over fun _ => Over where
  setCallingTaskHandle := does_over trivial
  receiveToIdleDma     := does_receiveToIdleDma
  transmitDma          := does_transmitDma
  notifyTakeEnter      := does_true
  notifyTake           := does_notifyTake
  abort                := does_abort
  loadRxIdleLineSize   := does_over trivial

theorem pings : Pings outline onlyTransactions endsReception () Over Over Over (fun _ => Over)
    (fun _ _ => True) (fun _ _ => True) fun _ => Over where
  setCallingTaskHandle := does_over trivial
  newBuffer            := does_over trivial
  receiveToIdleDma _   := does_receiveToIdleDma
  transmitDma _        := does_transmitDma
  notifyTakeEnter _    := does_true
  notifyTake _         := does_notifyTake
  abort _              := does_abort
  loadRxIdleLineSize _ := does_over trivial
  loadView _ _         := does_over trivial

theorem valid : outline.Valid (system onlyTransactions) endsReception fun _ => Over where
  event s e s' _ _ he := ⟨s', rfl, trivial, fun _ h => h.happens (State.happens_of_event he)⟩
  stable _ := stable_over
  call t c q hq := by
    have ⟨hc, hq⟩ := system_calls_eq_some_iff.mp hq
    subst hq
    cases c <;> try contradiction
    case transact txCmd =>
      refine Runs.serve (.transactCall (does_over trivial) fun rxCmd => ?_)
      exact .transact (.exchange exchanges) (fun _ => cleans_over) cleans_over
        (fun _ => does_over trivial) fun _ => does_over trivial
    case checkAlive => exact Runs.serve (.checkAlive pings cleans_over)

-- The results after which the driver returns without stopping the reception.
def GivesUp : (o : Op) → sig.Ret o → Prop
  | .transmitDma .., status => status ≠ .ok
  | .notifyTake, value      => value ≠ 0
  | _, _                    => False

-- After such a result, the rest of the program leaves the UART alone.
def Returns : Prog sig Unit → Prop
  | .pure _ => True
  | .op o k => (∀ r, GivesUp o r → (k r).Uses KeepsUart) ∧ ∀ r, Returns (k r)

theorem Returns.of_uses {q : Prog sig Unit} (h : q.Uses KeepsUart) : Returns q := by
  induction q
  case pure      => trivial
  case op o _ hi => exact ⟨fun r _ => h.right r, fun r => hi r (h.right r)⟩

section

variable {α : Type} {f : Except ErrorT α → Prog sig Unit}

-- A transmission together with what follows the notification.
theorem returns_transmit {g : UInt32 → Driver α} (he : ∀ e, (f (.error e)).Uses KeepsUart)
    (hn : ∀ value, value ≠ 0 → ((g value).run >>= f).Uses KeepsUart)
    (hz : Returns ((g 0).run >>= f)) :
    Returns ((do
      tryHal (perform (.transmitDma txCmd rxCmd))
      let value ← taskNotifyTake
      g value : Driver α).run >>= f) := by
  refine And.intro (fun status hs => ?_) fun status => ?_
  case refine_1 =>
    cases status
    case ok => exact (hs rfl).elim
    all_goals exact he .errHalFail
  case refine_2 =>
    cases status
    case error | busy | timeout => exact .of_uses (he .errHalFail)
    case ok =>
      refine And.intro nofun fun _ => And.intro hn fun value => ?_
      by_cases hv : value = 0
      case pos => exact hv ▸ hz
      case neg => exact .of_uses (hn value hv)

theorem returns_receive {p : Driver α} (he : ∀ e, (f (.error e)).Uses KeepsUart)
    (hp : Returns (p.run >>= f)) :
    Returns ((do
      tryHal (perform (.receiveToIdleDma rxCmd uartIdleLineBufByte))
      p : Driver α).run >>= f) := by
  refine And.intro nofun fun status => ?_
  cases status
  case error | busy | timeout => exact .of_uses (he .errHalFail)
  case ok                     => exact hp

end

theorem returns_exchange {f : Except ErrorT ℕ → Prog sig Unit} (hf : ∀ r, (f r).Uses KeepsUart) :
    Returns ((exchange txCmd rxCmd).run >>= f) := by
  refine And.intro nofun fun _ => ?_
  apply returns_receive fun e => hf (.error e)
  apply returns_transmit fun e => hf (.error e)
  case hn =>
    intro value hv
    rw [if_neg hv]
    exact ⟨trivial, fun size => hf (.ok size)⟩
  case hz => exact And.intro nofun fun _ => .of_uses (hf (.error .errFail))

theorem returns_sendAt {f : Except ErrorT Bool → Prog sig Unit}
    (he : ∀ e, (f (.error e)).Uses KeepsUart) (ht : (f (.ok true)).Uses KeepsUart)
    (hf : Returns (f (.ok false))) (count : ℕ) :
    Returns ((sendAt rxCmd count).run >>= f) := by
  induction count
  case zero => exact hf
  case succ hi =>
    apply returns_transmit he _ hi
    intro value hv
    rw [if_pos (UInt32.pos_iff_ne_zero.mpr hv)]
    exact ht

theorem returns_transact (txCmd : List UInt8) : Returns (serve (.transact txCmd)) := by
  refine And.intro nofun fun rxCmd => ?_
  change Returns ((transact txCmd rxCmd >>= fun _ => pure () : Driver Unit).run >>= fun _ => pure ())
  simp only [transact, scopedCleanup, ExceptT.run_bind, ExceptT.run_mk, Prog.bind_assoc]
  apply returns_exchange
  intro r
  cases r <;> exact ⟨trivial, fun _ => ⟨trivial, fun _ => ⟨trivial, fun _ => trivial⟩⟩⟩

theorem returns_checkAlive : Returns (serve .checkAlive) := by
  change Returns (checkAlive.run >>= fun _ => pure ())
  simp only [checkAlive, scopedCleanup, ExceptT.run_mk, Prog.bind_assoc]
  refine And.intro nofun fun _ => And.intro nofun fun rxBuf => ?_
  apply returns_receive
  case he => exact fun _ => ⟨trivial, fun _ => ⟨trivial, fun _ => trivial⟩⟩
  rw [ExceptT.run_bind, Prog.bind_assoc]
  apply returns_sendAt
  case he => exact fun _ => ⟨trivial, fun _ => ⟨trivial, fun _ => trivial⟩⟩
  case hf =>
    refine And.intro nofun fun _ => .of_uses ?_
    exact ⟨trivial, fun _ => ⟨trivial, fun _ => trivial⟩⟩
  case ht =>
    refine ⟨trivial, fun size => ⟨trivial, fun rx => ?_⟩⟩
    change ((ite _ _ _ : Driver Unit).run >>= _).Uses KeepsUart
    split <;> exact ⟨trivial, fun _ => ⟨trivial, fun _ => trivial⟩⟩

theorem exists_givesUp (h : ¬endsReception.op () o s) :
    ∃ r s', GivesUp o r ∧ s.Performs () o r s' ∧ ¬Over s' := by
  cases o <;> try exact absurd trivial h
  case transmitDma txCmd rxCmd =>
    have ⟨hr, hs⟩ := not_or.mp h
    by_cases hg : s.huart.gState = .ready
    case neg => exact ⟨.busy, _, nofun, .transmitDmaBusy hg, hr⟩
    case pos =>
      refine ⟨.error, _, nofun, .transmitDmaError hg ?_, hr⟩
      by_contra hf
      have ⟨hc, hf⟩ := not_or.mp hf
      exact hs ⟨hg, hc, by simpa using hf⟩
  case notifyTake =>
    simp only [endsReception, Classical.not_imp] at h
    have ⟨hb, hv, hr⟩ := h
    exact ⟨_, _, hv, .notifyTake hb hv, hr⟩

-- A task that gives up while the reception goes on returns without stopping it.
theorem exists_not_released {E : Event Unit → State Unit → Prop} {p : Pool sig Unit (State Unit)}
    {r : sig.Ret o} {k : sig.Ret o → Prog sig Unit} (hp : p.threads () = .op o k)
    (hr : Returns (.op o k)) (hg : GivesUp o r) (hs : p.shared.Performs () o r s')
    (ho : ¬Over s') :
    ∃ p', (system onlyTransactions).Reaches (within E) p p' ∧ ¬Released p' := by
  have hq : (k r).Uses KeepsUart := hr.left r hg
  have ⟨p', _, hp', ht, ho⟩ := System.Reaches.finish (M := system onlyTransactions) (C := within E)
    (p := { threads := Function.update p.threads () (k r), shared := s' }) (t := ())
    (P := fun s => ¬Over s) (k := pure) (by simp) hq ho (fun _ _ _ => trivial)
    ?_ ?_
  · exact ⟨p', (System.Reaches.op hp trivial hs.mem_exec).trans hp', fun h => ho (h ht)⟩
  · intro o s ho
    cases o <;> first | exact ho.elim | exact ⟨_, _, List.mem_singleton_self _⟩
  · intro o s r s' hk hn hm
    rwa [Over, hk.huart (State.performs_of_exec hm)]

end Releasing

open Releasing

-- In an environment, all receptions are over when their call returns, if and only if every step of
-- the task meets the condition.
theorem released_iff (E : Event Unit → State Unit → Prop) (switches : Switch.TypeT → Option Unit) :
    (∀ p, (system onlyTransactions).Reaches (within E) (.idle (.init switches)) p → Released p) ↔
      ∀ p, (system onlyTransactions).Reaches (within E) (.idle (.init switches)) p →
        endsReception.Next () p.shared (p.threads ()) := by
  constructor
  case mpr =>
    intro h p hr ht
    have hr' : (system onlyTransactions).Reaches endsReception (.idle (.init switches)) p := by
      refine hr.mono fun p l hp _ => ?_
      cases l
      case op => exact h p hp
      all_goals trivial
    have hi : Over (.init switches) := rfl
    have ⟨s, hs⟩ := valid.sound trivial (fun _ => hi) hr'
    have ho := hs.threads ()
    rw [ht] at ho
    exact hs.shared ▸ ho
  case mp =>
    intro h p hr
    have hp : Returns (p.threads ()) := by
      refine hr.program trivial (fun _ _ r hq => hq.right r) fun c q hq => ?_
      have ⟨hc, hq⟩ := system_calls_eq_some_iff.mp hq
      subst hq
      cases c <;> try contradiction
      case transact   => exact returns_transact _
      case checkAlive => exact returns_checkAlive
    cases hq : p.threads ()
    case pure => trivial
    case op o k =>
      by_contra hc
      have ⟨r, s', hg, hs, ho⟩ := exists_givesUp hc
      have ⟨p', hr', hp'⟩ := exists_not_released (E := E) hq (hq ▸ hp) hg hs ho
      exact hp' (h p' (hr.trans hr'))

-- The first half of a longer reply wakes the task up, which returns while the reception goes on.
theorem not_released :
    ¬∀ p, (system onlyTransactions).Reaches .any (.idle (.init fun _ => none)) p → Released p := by
  intro h
  have ⟨p, hr, ht, hp⟩ := (system onlyTransactions).exists_reaches_idle_of_run .any
    (.idle (.init fun _ => none)) () (fun s => s.huart.rxState = .busyRx)
    ([.call () (.transact CmdT.at.tx)] ++ List.replicate 5 (.op () 0) ++
      [.event .endTransmit, .event (.answer (.replicate 40 65))] ++
      List.replicate 32 (.event .rxByte) ++ [.event .dmaIrq] ++ List.replicate 5 (.op () 0))
    (by decide +kernel)
  have hs := h p hr ht
  rw [of_decide_eq_true hp] at hs
  contradiction

end Gsm
