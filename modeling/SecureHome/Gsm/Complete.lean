import SecureHome.Gsm.Reply
import SecureHome.Gsm.Statements

open FreeRTOS Hal

namespace Gsm

namespace Replying

variable {s s' : State Unit} {rxCmd : Buffer} {reply : List UInt8} {e : Event Unit} {w : Bool}

-- While the task does not take its notifications, there is one only if the reply is complete, and
-- not more than one for each of the events that are left.
structure Pending (rxCmd : Buffer) (reply : List UInt8) (waiting : Bool) (s : State Unit) : Prop
    extends Arrives rxCmd reply s where
  told     : (s.notifications ()).value ≠ 0 →
    s.huart.rxCount = reply.length ∧ s.rxIdleLineSize = reply.length
  notified : s.huart.rxState ≠ .busyRx → (s.notifications ()).value ≠ 0
  bound    : (s.notifications ()).value.toNat + s.huart.halfFlag.toNat ≤ 2
  room     : s.huart.rxState = .busyRx → (s.notifications ()).value.toNat + s.huart.halfFlag.toNat ≤ 1
  blocked  : (s.notifications ()).blocked = (waiting && (s.notifications ()).value == 0)

theorem toNat_add_one {v : UInt32} (h : v.toNat ≤ 1) : (v + 1).toNat = v.toNat + 1 := by
  rw [UInt32.toNat_add, UInt32.toNat_one]
  omega

theorem add_one_ne_zero {v : UInt32} (h : v.toNat ≤ 1) : v + 1 ≠ 0 := by
  intro hv
  have := toNat_add_one h
  simp [hv] at this

namespace Pending

theorem value_of_lt (h : Pending rxCmd reply w s) (hc : s.huart.rxCount < reply.length) :
    (s.notifications ()).value = 0 := by
  by_contra hv
  exact hc.ne (h.told hv).left

-- A task that waits for the reply is notified of its end.
theorem happens (h : Pending rxCmd reply w s) (h₁ : 1 ≤ reply.length) (h₃₂ : reply.length ≤ 32)
    (hc : (repliesWith reply).event e s) (he : s.Happens e s') : Pending rxCmd reply w s' := by
  have ha := h.toArrives.happens h₁ h₃₂ hc he
  cases he <;> try exact hc.elim
  case endTransmit | answer | idleLine | ignoredIdleIrq => exact { h with toArrives := ha }
  case rxByte hl =>
    have hk := (h.toArrives.rxByte h₃₂ hl).right
    have hv := h.value_of_lt hk
    have hb := Bool.toNat_le s.huart.rxByte.halfFlag
    exact {
      toArrives   := ha
      told hn     := (hn hv).elim
      notified hn := by
        refine (hk.ne (h.ended ?_)).elim
        simpa [State.rxByte, Uart.rxByte, apply_ite Uart.rxState] using hn
      bound       := by simp only [State.rxByte, hv, UInt32.toNat_zero]; omega
      room _      := by simp only [State.rxByte, hv, UInt32.toNat_zero]; omega
      blocked     := h.blocked }
  case idleIrq hr hf hp hl =>
    have hv : (s.notifications ()).value.toNat ≤ 1 := Nat.le_of_add_right_le (h.room hr)
    rw [rxEventCallback_eq h.calling] at ha ⊢
    exact {
      toArrives  := ha
      told _     := ⟨h.idleFlag hf, h.idleFlag hf⟩
      notified _ := add_one_ne_zero hv
      bound      := (toNat_add_one hv).trans_le (Nat.succ_le_succ hv)
      room hb    := by cases hb
      blocked    := (beq_false_of_ne (add_one_ne_zero hv)).symm ▸ (Bool.and_false w).symm }
  case halfIrq hf =>
    obtain ⟨hn, hs⟩ := h.toArrives.halfTransfer h₃₂ hf
    have hb : (s.notifications ()).value.toNat ≤ 1 := by
      have := h.bound
      rw [hf, Bool.toNat_true] at this
      omega
    have hr (hr : s.huart.rxState = .busyRx) : (s.notifications ()).value.toNat = 0 := by
      have := h.room hr
      rw [hf, Bool.toNat_true] at this
      omega
    rw [rxEventCallback_eq h.calling] at ha ⊢
    exact {
      toArrives  := ha
      told _     := ⟨hn, hs⟩
      notified _ := add_one_ne_zero hb
      bound      := (toNat_add_one hb).trans_le (Nat.succ_le_succ hb)
      room hb'   := (toNat_add_one hb).trans_le (Nat.succ_le_succ (hr hb').le)
      blocked    := (beq_false_of_ne (add_one_ne_zero hb)).symm ▸ (Bool.and_false w).symm }
  case cpltIrq hf => simp [h.cpltFlag] at hf

end Pending

-- Nothing is going to happen.
structure Silent (s : State Unit) : Prop where
  gState     : s.huart.gState = .ready
  halfFlag   : s.huart.halfFlag = false
  cpltFlag   : s.huart.cpltFlag = false
  idleArmed  : s.huart.idleArmed = false
  idle       : s.huart.rxState = .busyRx → s.huart.idleFlag = false
  unanswered : s.sim800l.unanswered = []
  line       : s.sim800l.line = []

theorem Silent.not_happens (h : Silent s) (hc : (repliesWith reply).event e s) :
    ¬s.Happens e s' := by
  intro he
  cases he <;> try exact hc
  case endTransmit hg            => simp [h.gState] at hg
  case answer hu                 => simp [h.unanswered] at hu
  case rxByte hl                 => simp [h.line] at hl
  case idleLine ha               => simp [h.idleArmed] at ha
  case idleIrq hr hf _ _         => simp [h.idle hr] at hf
  case ignoredIdleIrq hr hf _    => simp [h.idle hr] at hf
  case halfIrq hf                => simp [h.halfFlag] at hf
  case cpltIrq hf                => simp [h.cpltFlag] at hf

theorem silent_of_quiet (h : Quiet s) : Silent s where
  gState     := h.gState
  halfFlag   := h.halfFlag
  cpltFlag   := h.cpltFlag
  idleArmed  := h.idleArmed
  idle hr    := nomatch h.rxState.symm.trans hr
  unanswered := h.unanswered
  line       := h.line

-- The task only waits for the end of the reply, while it relies on the module.
def outline (reply : List UInt8) : Outline Unit (State Unit) (State Unit) :=
  .direct
    (fun s => (s.notifications ()).blocked = true → ∃ rxCmd, Pending rxCmd reply true s)
    (fun _ s s' => ∃ e, (repliesWith reply).event e s ∧ s.Happens e s')

structure Open (rxCmd : Buffer) (s : State Unit) : Prop extends Quiet s where
  contents : s.buffers rxCmd = .replicate uartIdleLineBufByte .zero

structure Ready (rxCmd : Buffer) (s : State Unit) : Prop extends Open rxCmd s where
  calling : s.callingTaskHandle = some ()

-- The reception has been started, but not the transmission.
structure Armed (rxCmd : Buffer) (s : State Unit) : Prop extends Silent s where
  calling  : s.callingTaskHandle = some ()
  buffer   : s.huart.pRxBuffPtr = rxCmd
  size     : s.huart.rxXferSize = uartIdleLineBufByte
  contents : s.buffers rxCmd = .replicate uartIdleLineBufByte .zero
  rxState  : s.huart.rxState = .busyRx
  rxCount  : s.huart.rxCount = 0
  idleFlag : s.huart.idleFlag = false
  dmaFault : s.dmaFault = false
  value    : (s.notifications ()).value = 0
  blocked  : (s.notifications ()).blocked = false

-- The task has taken a notification.
structure Notified (rxCmd : Buffer) (reply : List UInt8) (s : State Unit) : Prop
    extends Arrives rxCmd reply s where
  rxCount        : s.huart.rxCount = reply.length
  rxIdleLineSize : s.rxIdleLineSize = reply.length
  blocked        : (s.notifications ()).blocked = false

-- The reply is in the buffer for good.
structure Delivered (rxCmd : Buffer) (reply : List UInt8) (s : State Unit) : Prop where
  gState     : s.huart.gState = .ready
  unanswered : s.sim800l.unanswered = []
  line       : s.sim800l.line = []
  contents   : s.buffers rxCmd =
    symbols rxCmd reply ++ .replicate (uartIdleLineBufByte - reply.length) .zero
  blocked    : (s.notifications ()).blocked = false

theorem not_blocked_rxEventCallback (hb : (s.notifications ()).blocked = false) (huart : Uart)
    (size : ℕ) : (({ s with huart }.rxEventCallback size).notifications ()).blocked = false := by
  cases hc : s.callingTaskHandle <;> simp only [State.rxEventCallback]
  case none   => exact hb
  case some t => rfl

theorem not_blocked_happens (hb : (s.notifications ()).blocked = false)
    (hc : (repliesWith reply).event e s) (he : s.Happens e s') :
    (s'.notifications ()).blocked = false := by
  cases he <;> try exact hc.elim
  case idleIrq | halfIrq | cpltIrq => exact not_blocked_rxEventCallback hb ..
  all_goals exact hb

theorem Notified.happens (h : Notified rxCmd reply s) (h₁ : 1 ≤ reply.length)
    (h₃₂ : reply.length ≤ 32) (hc : (repliesWith reply).event e s) (he : s.Happens e s') :
    Notified rxCmd reply s' := by
  have ha := h.toArrives.happens h₁ h₃₂ hc he
  have hb := not_blocked_happens h.blocked hc he
  cases he <;> try exact hc.elim
  case endTransmit | answer | idleLine | ignoredIdleIrq =>
    exact { toArrives := ha, rxCount := h.rxCount, rxIdleLineSize := h.rxIdleLineSize, blocked := hb }
  case rxByte hl => exact ((h.toArrives.rxByte h₃₂ hl).right.ne h.rxCount).elim
  case idleIrq =>
    rw [rxEventCallback_eq h.calling] at ha hb ⊢
    exact { toArrives := ha, rxCount := h.rxCount, rxIdleLineSize := h.rxCount, blocked := hb }
  case halfIrq hf =>
    have hs := (h.toArrives.halfTransfer h₃₂ hf).right
    rw [rxEventCallback_eq h.calling] at ha hb ⊢
    exact { toArrives := ha, rxCount := h.rxCount, rxIdleLineSize := hs, blocked := hb }
  case cpltIrq hf => simp [h.cpltFlag] at hf

theorem Notified.delivered (h : Notified rxCmd reply s) (h₁ : 1 ≤ reply.length) :
    Delivered rxCmd reply s := by
  have hb := h.contents
  rw [h.rxCount, List.take_length] at hb
  have hn := h.rxCount
  cases h.stage
  case sending | answering => omega
  case receiving hg hu hl _ =>
    rw [hn, List.drop_length] at hl
    exact ⟨hg, hu, hl, hb, h.blocked⟩

theorem Delivered.happens (h : Delivered rxCmd reply s) (hc : (repliesWith reply).event e s)
    (he : s.Happens e s') : Delivered rxCmd reply s' := by
  have hb := not_blocked_happens h.blocked hc he
  cases he <;> try exact hc.elim
  case endTransmit hg => simp [h.gState] at hg
  case answer hu      => simp [h.unanswered] at hu
  case rxByte hl      => simp [h.line] at hl
  case idleIrq | halfIrq | cpltIrq =>
    unfold State.rxEventCallback at hb ⊢
    split at hb <;> exact { h with blocked := hb }
  all_goals exact { h with blocked := hb }

theorem Delivered.returned (h : Delivered rxCmd reply s) :
    Returned reply (s.record (.transact () rxCmd (.ok reply.length) (s.buffers rxCmd))) := by
  refine ⟨rxCmd, reply.length, s.buffers rxCmd, List.mem_cons_self, ?_⟩
  have hl : reply.length = (symbols rxCmd reply).length := (List.length_map _).symm
  rw [h.contents, hl, List.take_left, symbols, List.map_map]
  exact List.map_id _

theorem returned_happens (h : Returned reply s) (he : s.Happens e s') : Returned reply s' := by
  have ⟨rxCmd, size, contents, hm, hr⟩ := h
  exact ⟨rxCmd, size, contents, he.history.subset hm, hr⟩

section Rules

variable {P : State Unit → Prop} {o : Op}

theorem does {Q : sig.Ret o → State Unit → Prop} (hp : (outline reply).Stable () P)
    (h : ∀ s r s', P s → s.Performs () o r s' → (outline reply).inv s' ∧ Q r s') :
    Does (outline reply) noCalls (repliesWith reply) () P o Q :=
  .direct_perform hp fun s r s' _ hs _ hm =>
    have ⟨hi, hq⟩ := h s r s' hs (State.performs_of_exec hm)
    ⟨⟨hi, fun _ hu => absurd rfl hu⟩, hq⟩

theorem not_waiting (h : (s.notifications ()).blocked = false) : (outline reply).inv s := by
  intro hb
  simp [h] at hb

theorem does_false {Q : sig.Ret o → State Unit → Prop} :
    Does (outline reply) noCalls (repliesWith reply) () (fun _ => False) o Q :=
  does (fun _ _ _ h => h) fun _ _ _ h _ => h.elim

theorem stable_of_silent (h : ∀ s, P s → Silent s) : (outline reply).Stable () P :=
  fun s _ ⟨_, _, _, hc, he⟩ hs => ((h s hs).not_happens hc he).elim

theorem stable_of_happens
    (h : ∀ s e s', P s → (repliesWith reply).event e s → s.Happens e s' → P s') :
    (outline reply).Stable () P :=
  fun s s' ⟨_, _, e, hc, he⟩ hs => h s e s' hs hc he

theorem stable_notified (h₁ : 1 ≤ reply.length) (h₃₂ : reply.length ≤ 32) :
    (outline reply).Stable () (Notified rxCmd reply) :=
  stable_of_happens fun _ _ _ h hc he => h.happens h₁ h₃₂ hc he

theorem stable_pending (h₁ : 1 ≤ reply.length) (h₃₂ : reply.length ≤ 32) :
    (outline reply).Stable () (Pending rxCmd reply w) :=
  stable_of_happens fun _ _ _ h hc he => h.happens h₁ h₃₂ hc he

theorem stable_delivered : (outline reply).Stable () (Delivered rxCmd reply) :=
  stable_of_happens fun _ _ _ h hc he => h.happens hc he

theorem stable_done {size : ℕ} :
    (outline reply).Stable () fun s => size = reply.length ∧ Delivered rxCmd reply s :=
  fun s s' hi h => ⟨h.left, stable_delivered s s' hi h.right⟩

theorem stable_returned : (outline reply).Stable () (Returned reply) :=
  stable_of_happens fun _ _ _ h _ he => returned_happens h he

theorem Armed.receiveToIdleDma (h : Ready rxCmd s) : Armed rxCmd { s with
    huart    := { s.huart with
      rxState    := .busyRx
      pRxBuffPtr := rxCmd
      rxXferSize := uartIdleLineBufByte
      rxCount    := 0
      halfFlag   := false
      cpltFlag   := false
      idleFlag   := false }
    dmaFault := false } where
  gState     := h.gState
  halfFlag   := rfl
  cpltFlag   := rfl
  idleArmed  := h.idleArmed
  idle _     := rfl
  unanswered := h.unanswered
  line       := h.line
  calling    := h.calling
  buffer     := rfl
  size       := rfl
  contents   := h.contents
  rxState    := rfl
  rxCount    := rfl
  idleFlag   := rfl
  dmaFault   := rfl
  value      := h.value
  blocked    := h.blocked

theorem Pending.transmitDma (h : Armed rxCmd s) : Pending rxCmd reply false
    { s with huart.gState := .busyTx, huart.txFor := rxCmd, dmaFault := false } where
  calling      := h.calling
  buffer       := h.buffer
  size         := h.size
  contents     := by simpa [h.rxCount, symbols] using h.contents
  halfFlag hf  := by simp [h.halfFlag] at hf
  cpltFlag     := h.cpltFlag
  idleFlag hf  := by simp [h.idleFlag] at hf
  idleArmed ha := by simp [h.idleArmed] at ha
  idle _ hp    := by simp [h.rxCount] at hp
  ended hr     := (hr h.rxState).elim
  stage        := .sending rfl rfl h.unanswered h.line h.rxCount
  told hv      := (hv h.value).elim
  notified hr  := (hr h.rxState).elim
  bound        := by simp [h.value, h.halfFlag]
  room _       := by simp [h.value, h.halfFlag]
  blocked      := h.blocked

theorem Pending.notifyTakeEnter (h : Pending rxCmd reply false s) : Pending rxCmd reply true
    (s.setNotification () (s.notifications ()).notifyTakeEnter) := by
  have hv : (s.notifications ()).notifyTakeEnter.value = (s.notifications ()).value := by
    unfold Notification.notifyTakeEnter
    split <;> rfl
  have hb : (s.notifications ()).notifyTakeEnter.blocked = ((s.notifications ()).value == 0) := by
    unfold Notification.notifyTakeEnter
    split
    case isTrue hv  => simp [hv]
    case isFalse hv => simp [hv, h.blocked]
  exact { h.toListens with
    stage    := h.stage.congr rfl rfl rfl rfl
    told     := hv.symm ▸ h.told
    notified := hv.symm ▸ h.notified
    bound    := hv.symm ▸ h.bound
    room     := hv.symm ▸ h.room
    blocked  := hb.trans (hv ▸ rfl) }

theorem exchanges (txCmd : List UInt8) (ht : txCmd ≠ []) (h₁ : 1 ≤ reply.length)
    (h₃₂ : reply.length ≤ 32) :
    Exchanges (outline reply) noCalls (repliesWith reply) () txCmd rxCmd (Open rxCmd) (Ready rxCmd)
      (Armed rxCmd) (Pending rxCmd reply false) (Pending rxCmd reply true) (fun _ => False)
      (Notified rxCmd reply) (fun _ => False)
      fun size s => size = reply.length ∧ Delivered rxCmd reply s where
  setCallingTaskHandle := does (stable_of_silent fun _ h => silent_of_quiet h.toQuiet) fun s r s' h hp => by
    cases hp
    exact ⟨not_waiting h.blocked, { h with calling := rfl }⟩
  receiveToIdleDma     := does (stable_of_silent fun _ h => silent_of_quiet h.toQuiet) fun s r s' h hp => by
    cases hp
    case receiveToIdleDma => exact ⟨not_waiting h.blocked, .receiveToIdleDma h⟩
    case receiveToIdleDmaError hf => simp [h.dmaFault, uartIdleLineBufByte] at hf
    case receiveToIdleDmaBusy hr => exact (hr h.rxState).elim
  transmitDma          := does (stable_of_silent fun _ h => h.toSilent) fun s r s' h hp => by
    cases hp
    case transmitDma => exact ⟨not_waiting h.blocked, .transmitDma h⟩
    case transmitDmaError hf => simp [h.dmaFault, ht] at hf
    case transmitDmaBusy hg => exact (hg h.gState).elim
  notifyTakeEnter      := does (stable_pending h₁ h₃₂) fun s r s' h hp => by
    cases hp
    exact ⟨fun _ => ⟨rxCmd, h.notifyTakeEnter⟩, h.notifyTakeEnter⟩
  notifyTake           := does (stable_pending h₁ h₃₂) fun s r s' h hp => by
    cases hp
    case notifyTake hb hv =>
      rw [if_neg hv]
      obtain ⟨hn, hs⟩ := h.told hv
      exact ⟨not_waiting hb, { h.toListens with
        stage          := h.stage.congr rfl rfl rfl rfl
        rxCount        := hn
        rxIdleLineSize := hs
        blocked        := hb }⟩
    case notifyTakeTimeout hb hv => simp [h.blocked, hv] at hb
  abort                := does_false
  loadRxIdleLineSize   := does (stable_notified h₁ h₃₂) fun s r s' h hp => by
    cases hp
    exact ⟨not_waiting h.blocked, h.rxIdleLineSize, h.delivered h₁⟩

theorem cleans_done {size : ℕ} : Cleans (outline reply) noCalls (repliesWith reply) ()
    fun s => size = reply.length ∧ Delivered rxCmd reply s where
  resetRxIdleLineSize    := does stable_done fun s r s' h hp => by
    cases hp
    exact ⟨not_waiting h.right.blocked, h.left, { h.right with }⟩
  resetCallingTaskHandle := does stable_done fun s r s' h hp => by
    cases hp
    exact ⟨not_waiting h.right.blocked, h.left, { h.right with }⟩

theorem runs_serve {txCmd : List UInt8} (ht : txCmd ≠ []) (h₁ : 1 ≤ reply.length)
    (h₃₂ : reply.length ≤ 32) :
    (outline reply).Triple (system noCalls) (repliesWith reply) () Quiet (serve (.transact txCmd))
      fun _ => Returned reply := by
  apply Runs.serve
  apply Runs.transactCall (I := Open)
  case hn =>
    refine does (stable_of_silent fun _ => silent_of_quiet) fun s r s' h hp => ?_
    cases hp
    exact ⟨not_waiting h.blocked, { h with contents := Function.update_self .. }⟩
  case h =>
    intro rxCmd
    refine Runs.transact (.exchange (exchanges txCmd ht h₁ h₃₂)) (fun _ => cleans_done) ?_ ?_ ?_
    case refine_1 => exact ⟨does_false, does_false⟩
    case refine_3 => exact fun _ => does_false
    case refine_2 =>
      refine fun size => does stable_done fun s r s' h hp => ?_
      cases hp
      exact ⟨not_waiting h.right.blocked, h.left ▸ h.right.returned⟩

theorem valid (h₁ : 1 ≤ reply.length) (h₃₂ : reply.length ≤ 32) :
    (outline reply).Valid (system noCalls) (repliesWith reply) fun _ => Returned reply where
  stable _ := stable_returned
  call _ _ _ hq := by simp [system_calls_eq_some_iff, noCalls] at hq
  event s e s' hi hc he := by
    have he := State.happens_of_event he
    refine ⟨s', rfl, fun hb => ?_, fun _ => ⟨e, hc, he⟩⟩
    have hb' : (s.notifications ()).blocked = true := by
      by_contra hb'
      have := not_blocked_happens (Bool.eq_false_iff.mpr hb') hc he
      simp [hb] at this
    have ⟨rxCmd, h⟩ := hi hb'
    exact ⟨rxCmd, h.happens h₁ h₃₂ hc he⟩

end Rules

-- What is left to happen.
def weight (reply : List UInt8) (s : State Unit) : ℕ :=
  (if s.huart.gState = .busyTx then 5 * reply.length + 2 else 0) +
    (5 * reply.length + 1) * s.sim800l.unanswered.length + 5 * s.sim800l.line.length +
      s.huart.halfFlag.toNat + s.huart.cpltFlag.toNat + 2 * s.huart.idleArmed.toNat +
        s.huart.idleFlag.toNat

theorem weight_rxEventCallback (huart : Uart) (size : ℕ) :
    weight reply ({ s with huart }.rxEventCallback size) = weight reply { s with huart } := by
  unfold State.rxEventCallback
  split <;> rfl

theorem weight_lt (hc : (repliesWith reply).event e s) (he : s.Happens e s') :
    weight reply s' < weight reply s := by
  cases he <;> try exact hc.elim
  case endTransmit hg =>
    simp only [weight, hg, List.length_append, List.length_singleton, if_true, reduceCtorEq, if_false]
    grind
  case answer text rxCmd rxCmds hu =>
    obtain rfl : text = reply := hc
    simp only [weight, hu, List.length_append, List.length_map, List.length_cons]
    grind
  case rxByte c line hl =>
    have hg : s.huart.rxByte.gState = s.huart.gState := by unfold Uart.rxByte; split <;> rfl
    have hf : s.huart.rxByte.idleFlag = s.huart.idleFlag := by unfold Uart.rxByte; split <;> rfl
    have := Bool.toNat_le s.huart.rxByte.halfFlag
    have := Bool.toNat_le s.huart.rxByte.cpltFlag
    have := Bool.toNat_le s.huart.rxByte.idleArmed
    simp only [weight, State.rxByte, hg, hf, hl, List.length_cons]
    omega
  case idleLine ha => simp [weight, ha]; grind
  case idleIrq hf _ _ =>
    rw [weight_rxEventCallback]
    simp [weight, hf, Uart.endRxTransfer]; grind
  case ignoredIdleIrq hf _ => simp [weight, hf]
  case halfIrq hf =>
    rw [weight_rxEventCallback]
    simp [weight, hf]
  case cpltIrq hh hf =>
    rw [weight_rxEventCallback]
    simp [weight, hf, Uart.endRxTransfer]; grind

-- The operations that do not wait for other events.
def Proceeds : Op → Prop
  | .takeMutex | .notifyWait => False
  | _                        => True

theorem uses_serve (txCmd : List UInt8) : (serve (.transact txCmd)).Uses Proceeds := by
  have hA (o : Op) (ho : o.OfTransact) (_ : o.Fits) : Proceeds o := by cases o <;> trivial
  have hr : Fallible.Uses Proceeds (runCall (.transact txCmd)) :=
    .bind (.lift (.perform trivial)) fun _ => .bind (Statements.uses_transact hA) fun _ => .pure
  exact Prog.Uses.bind hr fun _ => .pure

-- While the task has to wait, there is more of the reply to come.
theorem Pending.exists_event (h : Pending rxCmd reply w s) (h₁ : 1 ≤ reply.length)
    (hv : (s.notifications ()).value = 0) :
    ∃ e, (repliesWith reply).event e s ∧ (s.event e).isSome := by
  have hr : s.huart.rxState = .busyRx := by
    by_contra hr
    exact h.notified hr hv
  cases h.stage
  case sending hg _ _ _ _ =>
    exact ⟨.endTransmit, trivial, by simp [State.event, Uart.endTransmit, hg]⟩
  case answering hu _ _ => exact ⟨.answer reply, rfl, by simp [State.event, hu]⟩
  case receiving hl hc =>
    by_cases hn : s.huart.rxCount < reply.length
    case pos =>
      rw [List.drop_eq_getElem_cons hn, symbols, List.map_cons] at hl
      exact ⟨.rxByte, trivial, by simp [State.event, hl]⟩
    case neg =>
      rw [List.drop_of_length_le (not_lt.mp hn)] at hl
      rcases h.idle hr (by omega) with ha | hf
      · exact ⟨.idleLine, hl, by simp [State.event, Uart.idleLine, ha]⟩
      · refine ⟨.idleIrq, trivial, ?_⟩
        simp only [State.event, Uart.idleIrqHandler, hr, hf, and_self, if_true, Option.isSome_map]
        split <;> rfl

theorem exists_mem_exec {o : Op} (ho : Proceeds o) (hb : (s.notifications ()).blocked = false) :
    ∃ r s', (r, s') ∈ s.exec () o := by
  cases o <;> try exact ho.elim
  case giveMutex => simp only [State.exec]; split <;> exact ⟨_, _, List.mem_singleton_self _⟩
  case halInit => exact ⟨_, _, List.mem_cons_self⟩
  case notifyTake =>
    simp only [State.exec, hb, Bool.false_eq_true, if_false]
    exact ⟨_, _, List.mem_singleton_self _⟩
  all_goals exact ⟨_, _, List.mem_singleton_self _⟩

theorem proceeds {o : Op} (h₁ : 1 ≤ reply.length) (ho : Proceeds o)
    (hi : (outline reply).inv s) :
    (∃ r s', (r, s') ∈ s.exec () o) ∨
      ∃ e s', (repliesWith reply).event e s ∧ s.event e = some s' := by
  by_cases hb : (s.notifications ()).blocked = true
  case neg => exact .inl (exists_mem_exec ho (Bool.eq_false_iff.mpr hb))
  case pos =>
    have ⟨rxCmd, h⟩ := hi hb
    have ⟨e, hc, he⟩ := h.exists_event h₁ (by simpa [hb] using h.blocked)
    have ⟨s', he⟩ := Option.isSome_iff_exists.mp he
    exact .inr ⟨e, s', hc, he⟩

end Replying

open Replying

theorem Replying.inevitable_returned {txCmd reply : List UInt8} {s : State Unit} (hs : Quiet s)
    (ht : txCmd ≠ []) (h₁ : 1 ≤ reply.length) (h₃₂ : reply.length ≤ 32) :
    (system noCalls).Inevitable (repliesWith reply) (fun p => Returned reply p.shared)
      { threads := fun _ => serve (.transact txCmd), shared := s } := by
  have hsound : (outline reply).Sound (system noCalls) (repliesWith reply) (fun _ => Returned reply)
      { threads := fun _ => serve (.transact txCmd), shared := s } s :=
    ⟨rfl, not_waiting hs.blocked, fun _ => runs_serve ht h₁ h₃₂ s (not_waiting hs.blocked) hs⟩
  apply System.Inevitable.mono
  case h =>
    exact hsound.inevitable (A := Proceeds) (weight reply) (valid h₁ h₃₂) (fun _ => rfl)
      (fun e s s' hc he => weight_lt hc (State.happens_of_event he)) (fun _ _ => trivial)
      (fun o w ho hi => proceeds h₁ ho hi) (uses_serve txCmd)
  case hab =>
    rintro p ⟨_, w, hw, h⟩
    exact hw ▸ h

end Gsm
