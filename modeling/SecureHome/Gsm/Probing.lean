import SecureHome.Gsm.Complete
import SecureHome.Lib.Interrupted

open FreeRTOS Hal

namespace Gsm

-- The driver together with the number of probes that the module has reacted to.
structure Probing where
  state   : State Unit
  reacted : ℕ

namespace Probing

open Replying

-- How the module reacts to each of the probes. A reaction without any text is none at all.
abbrev Reactions := ℕ → List UInt8

variable {reactions : Reactions} {prompt : Bool} {p p' : Probing} {s' : State Unit} {e : Event Unit}
variable {rxBuf : Buffer} {k j : ℕ} {reply : List UInt8}

def exec (o : Op) (p : Probing) : List (sig.Ret o × Probing) :=
  (p.state.exec () o).map fun (r, state) => (r, { p with state })

def after (p : Probing) : Event Unit → ℕ
  | .answer _ => p.reacted + 1
  | _         => p.reacted

-- The module reacts as given, and the line is idle only when all of a reply has arrived. A task
-- stops waiting only when the module keeps silent. There is no other traffic and no error.
def Allows (reactions : Reactions) (p : Probing) : Event Unit → Prop
  | .answer text => text = reactions p.reacted
  | .idleLine    => p.state.sim800l.line = []
  | .expire _    =>
    p.state.huart.gState = .ready ∧ p.state.sim800l.unanswered = [] ∧
      ∀ i < p.reacted, reactions i = []
  | .endTransmit | .rxByte | .idleIrq | .dmaIrq => True
  | _                                           => False

-- Nothing happens unless the task waits, and an interrupt is handled as soon as it is due.
def IsPrompt (p : Probing) (e : Event Unit) : Prop :=
  (p.state.notifications ()).blocked = true ∧ (p.state.huart.halfFlag = true → e = .dmaIrq)

def env (reactions : Reactions) (prompt : Bool) (p p' : Probing) : Prop :=
  ∃ e, p.Allows reactions e ∧ (prompt = true → p.IsPrompt e) ∧
    p.state.event e = some p'.state ∧ p'.reacted = p.after e

-- How far the reaction to a probe has got.
inductive Stage (rxBuf : Buffer) (k : ℕ) (reply : List UInt8) (p : Probing) : Prop
  | sending (hg : p.state.huart.gState = .busyTx) (ht : p.state.huart.txFor = rxBuf)
    (hu : p.state.sim800l.unanswered = []) (hl : p.state.sim800l.line = [])
    (hc : p.state.huart.rxCount = 0) (hk : p.reacted = k)
  | answering (hg : p.state.huart.gState = .ready) (hu : p.state.sim800l.unanswered = [rxBuf])
    (hl : p.state.sim800l.line = []) (hc : p.state.huart.rxCount = 0) (hk : p.reacted = k)
  -- Those bytes that the buffer has no room for are lost.
  | receiving (j : ℕ) (hg : p.state.huart.gState = .ready) (hu : p.state.sim800l.unanswered = [])
    (hj : j ≤ reply.length) (hl : p.state.sim800l.line = symbols rxBuf (reply.drop j))
    (hc : p.state.huart.rxCount = min j uartIdleLineBufByte) (hk : p.reacted = k + 1)

-- The reception goes on, or it has ended with the end of the reply or with a full buffer.
structure Hears (rxBuf : Buffer) (k : ℕ) (reply : List UInt8) (p : Probing) : Prop where
  calling   : p.state.callingTaskHandle = some ()
  buffer    : p.state.huart.pRxBuffPtr = rxBuf
  size      : p.state.huart.rxXferSize = uartIdleLineBufByte
  dmaFault  : p.state.dmaFault = false
  contents  : p.state.buffers rxBuf = symbols rxBuf (reply.take p.state.huart.rxCount) ++
    .replicate (uartIdleLineBufByte - p.state.huart.rxCount) .zero
  halfFlag  : p.state.huart.halfFlag = true → 32 ≤ p.state.huart.rxCount
  cpltFlag  : p.state.huart.cpltFlag = true → p.state.huart.rxState = .busyRx ∧
    p.state.huart.rxCount = uartIdleLineBufByte
  idleFlag  : p.state.huart.idleFlag = true → 0 < p.state.huart.rxCount ∧
    p.state.huart.rxCount = min reply.length uartIdleLineBufByte
  idleArmed : p.state.huart.idleArmed = true → 0 < p.state.huart.rxCount
  idle      : p.state.huart.rxState = .busyRx → 0 < p.state.huart.rxCount →
    p.state.huart.rxCount < uartIdleLineBufByte →
      p.state.huart.idleArmed = true ∨ p.state.huart.idleFlag = true
  full      : p.state.huart.rxState = .busyRx → p.state.huart.rxCount = uartIdleLineBufByte →
    p.state.huart.cpltFlag = true
  ended     : p.state.huart.rxState ≠ .busyRx →
    p.state.huart.rxCount = min reply.length uartIdleLineBufByte
  stage     : Stage rxBuf k reply p

theorem Stage.congr {r : ℕ} (h : Stage rxBuf k reply p) (hg : s'.huart.gState = p.state.huart.gState)
    (ht : s'.huart.txFor = p.state.huart.txFor) (hm : s'.sim800l = p.state.sim800l)
    (hc : s'.huart.rxCount = p.state.huart.rxCount) (hr : r = p.reacted) :
    Stage rxBuf k reply ⟨s', r⟩ := by
  subst hr
  cases h
  case sending h₁ h₂ h₃ h₄ h₅ h₆ =>
    exact .sending (hg.trans h₁) (ht.trans h₂) (hm ▸ h₃) (hm ▸ h₄) (hc.trans h₅) h₆
  case answering h₁ h₂ h₃ h₄ h₅ =>
    exact .answering (hg.trans h₁) (hm ▸ h₂) (hm ▸ h₃) (hc.trans h₄) h₅
  case receiving j h₁ h₂ h₃ h₄ h₅ h₆ =>
    exact .receiving j (hg.trans h₁) (hm ▸ h₂) h₃ (hm ▸ h₄) (hc.trans h₅) h₆

namespace Hears

theorem rxCount_le (h : Hears rxBuf k reply p) :
    p.state.huart.rxCount ≤ reply.length ∧ p.state.huart.rxCount ≤ uartIdleLineBufByte := by
  cases h.stage
  case sending hc _ | answering hc _ => omega
  case receiving hj _ hc _ => omega

-- The line is empty again after the end of the reply.
theorem rxCount_of_line (h : Hears rxBuf k reply p) (hp : 0 < p.state.huart.rxCount)
    (hl : p.state.sim800l.line = []) :
    p.state.huart.rxCount = min reply.length uartIdleLineBufByte := by
  cases h.stage
  case sending hc _ | answering hc _ => omega
  case receiving j _ _ hj hl' hc _ =>
    have hd : symbols rxBuf (reply.drop j) = [] := hl'.symm.trans hl
    simp only [symbols, List.map_eq_nil_iff, List.drop_eq_nil_iff] at hd
    omega

-- Once something was received, the module has nothing left to react to.
theorem settled (h : Hears rxBuf k reply p) (hp : 0 < p.state.huart.rxCount) :
    p.state.huart.gState = .ready ∧ p.state.sim800l.unanswered = [] ∧ p.reacted = k + 1 := by
  cases h.stage
  case sending hc _ | answering hc _ => omega
  case receiving hg hu _ _ _ hk => exact ⟨hg, hu, hk⟩

theorem rxByte {c : Symbol} {line : List Symbol} (h : Hears rxBuf k reply p)
    (hl : p.state.sim800l.line = c :: line) :
    Hears rxBuf k reply { p with state := p.state.rxByte c line } := by
  cases h.stage
  case sending hl' _ _ | answering hl' _ _ => simp [hl'] at hl
  case receiving j hg hu hj hl' hc hk =>
    have hj' : j < reply.length := by
      by_contra hj'
      rw [hl', List.drop_of_length_le (Nat.le_of_not_lt hj')] at hl
      contradiction
    rw [hl', List.drop_eq_getElem_cons hj', symbols, List.map_cons, List.cons.injEq] at hl
    obtain ⟨rfl, rfl⟩ := hl
    have hs := h.size
    by_cases hr : p.state.huart.Receives
    case neg =>
      have hn : uartIdleLineBufByte ≤ j := by
        by_contra hn
        by_cases hb : p.state.huart.rxState = .busyRx
        case pos => exact hr ⟨hb, by omega⟩
        case neg => have := h.ended hb; omega
      simp only [State.rxByte, Uart.rxByte, if_neg hr]
      exact { h with
        idleArmed _ := by simp only [hc, uartIdleLineBufByte] at *; omega
        idle _ _ _  := .inl rfl
        stage       := .receiving (j + 1) hg hu hj' rfl (by simp only [hc]; omega) hk }
    case pos =>
      have hb := hr.left
      have hn := hr.right
      have hj₆₄ : j < uartIdleLineBufByte := by omega
      obtain rfl : p.state.huart.rxCount = j := by omega
      have hi : p.state.huart.idleFlag = false := by
        by_contra hi
        have := h.idleFlag (by simpa using hi)
        omega
      have hf : p.state.huart.cpltFlag = false := by
        by_contra hf
        obtain ⟨_, _⟩ := h.cpltFlag (by simpa using hf)
        omega
      simp only [State.rxByte, Uart.rxByte, if_pos hr]
      constructor
      case contents =>
        simp only [h.buffer, Function.update_self, h.contents]
        exact set_symbols hj' hj₆₄
      case calling  => exact h.calling
      case buffer   => exact h.buffer
      case size     => exact h.size
      case dmaFault => exact h.dmaFault
      case halfFlag =>
        intro hf
        simp only [hs, uartIdleLineBufByte, Bool.or_eq_true, beq_iff_eq] at hf
        exact hf.elim (fun hf => Nat.le_succ_of_le (h.halfFlag hf)) fun hf => hf.ge
      case cpltFlag =>
        intro hf'
        exact ⟨hb, by simpa [hf, hs] using hf'⟩
      case idleFlag  => exact fun hi' => by simp [hi] at hi'
      case idleArmed => exact fun _ => Nat.succ_pos _
      case idle      => exact fun _ _ _ => .inl rfl
      case full      => exact fun _ hf => by simpa [hs] using .inr hf
      case ended     => exact fun hn => (hn hb).elim
      case stage     => exact .receiving _ hg hu hj' rfl (by simp only; omega) hk

theorem happens (h : Hears rxBuf k reply p) (hr : reactions k = reply)
    (ha : p.Allows reactions e) (he : p.state.Happens e s') :
    Hears rxBuf k reply ⟨s', p.after e⟩ := by
  cases he <;> try exact ha.elim
  case expire hb => exact { h with stage := h.stage.congr rfl rfl rfl rfl rfl }
  case endTransmit hg =>
    cases h.stage
    case sending ht hu hl hc hk =>
      exact { h with stage := .answering rfl (by simp [hu, ht]) hl hc hk }
    all_goals simp_all
  case answer text _ _ hu =>
    cases h.stage
    case answering hg hu' hl hc hk =>
      obtain rfl : text = reply := ha.trans (hk ▸ hr)
      cases hu.symm.trans hu'
      exact { h with
        stage := .receiving 0 hg rfl (Nat.zero_le _) (by simp [hl, symbols]) (by simp [hc]) (congrArg _ hk) }
    all_goals simp_all
  case rxByte hl => exact h.rxByte hl
  case idleLine hi =>
    have hp := h.idleArmed hi
    exact { h with
      idleFlag _   := ⟨hp, h.rxCount_of_line hp ha⟩
      idleArmed hb := by cases hb
      idle _ _ _   := .inr rfl
      stage        := h.stage.congr rfl rfl rfl rfl rfl }
  case idleIrq hf hp hl =>
    have hn := h.idleFlag hf
    rw [rxEventCallback_eq h.calling]
    exact { h with
      halfFlag hb := by cases hb
      cpltFlag hb := by cases hb
      idleFlag hb := by cases hb
      idle hb     := by cases hb
      full hb     := by cases hb
      ended _     := hn.right
      stage       := h.stage.congr rfl rfl rfl rfl rfl }
  case ignoredIdleIrq hb hf hc =>
    have hn := h.idleFlag hf
    have hs := h.size
    exact { h with
      idleFlag hb := by cases hb
      idle _ _ _  := by simp only at *; omega
      stage       := h.stage.congr rfl rfl rfl rfl rfl }
  case halfIrq hf =>
    rw [rxEventCallback_eq h.calling]
    exact { h with
      halfFlag hb := by cases hb
      stage       := h.stage.congr rfl rfl rfl rfl rfl }
  case cpltIrq hh hf =>
    obtain ⟨_, hn⟩ := h.cpltFlag hf
    have hl := h.rxCount_le.left
    have hm : p.state.huart.rxCount = min reply.length uartIdleLineBufByte := by omega
    rw [rxEventCallback_eq h.calling]
    exact { h with
      halfFlag hb := by cases hb
      cpltFlag hb := by cases hb
      idle hb     := by cases hb
      full hb     := by cases hb
      ended _     := hm
      stage       := h.stage.congr rfl rfl rfl rfl rfl }

end Hears

-- The size that the driver gets to know covers the first half of the buffer, or the whole reply if
-- that is shorter.
structure Sized (prompt : Bool) (reply : List UInt8) (rxCount size : ℕ) : Prop where
  received : 0 < rxCount
  le       : size ≤ rxCount
  ge       : min 32 reply.length ≤ size
  eq       : prompt = true → size = min 32 reply.length

namespace Hears

theorem sized_idle (h : Hears rxBuf k reply p) (hf : p.state.huart.idleFlag = true)
    (hp : prompt = true → p.state.huart.rxCount < 32) :
    Sized prompt reply p.state.huart.rxCount p.state.huart.rxCount := by
  have ⟨hc, hn⟩ := h.idleFlag hf
  refine ⟨hc, Nat.le_refl _, ?_, fun ht => ?_⟩
  · simp only [hn, uartIdleLineBufByte]
    omega
  · have := hp ht
    simp only [uartIdleLineBufByte] at hn
    omega

theorem sized_half (h : Hears rxBuf k reply p) (hf : p.state.huart.halfFlag = true) :
    Sized prompt reply p.state.huart.rxCount (p.state.huart.rxXferSize / 2) := by
  have hc := h.halfFlag hf
  have hl := h.rxCount_le.left
  have hz : p.state.huart.rxXferSize / 2 = 32 := h.size ▸ rfl
  rw [hz]
  exact ⟨Nat.lt_of_lt_of_le (by decide) hc, hc, Nat.min_le_left .., fun _ => by omega⟩

theorem sized_cplt (h : Hears rxBuf k reply p) (hf : p.state.huart.cpltFlag = true)
    (hp : ¬prompt = true) :
    Sized prompt reply p.state.huart.rxCount p.state.huart.rxXferSize := by
  rw [h.size, (h.cpltFlag hf).right]
  exact ⟨by decide, Nat.le_refl _, Nat.le_trans (Nat.min_le_left ..) (by decide), fun ht => (hp ht).elim⟩

end Hears

-- The task has not taken any notification since it has sent the probe.
structure Waits (prompt : Bool) (rxBuf : Buffer) (k : ℕ) (reply : List UInt8) (waiting : Bool)
    (p : Probing) : Prop extends Hears rxBuf k reply p where
  told     : (p.state.notifications ()).value ≠ 0 →
    Sized prompt reply p.state.huart.rxCount p.state.rxIdleLineSize
  notified : p.state.huart.rxState ≠ .busyRx → (p.state.notifications ()).value ≠ 0
  bound    : (p.state.notifications ()).value.toNat + p.state.huart.halfFlag.toNat ≤ 2
  room     : p.state.huart.rxState = .busyRx →
    (p.state.notifications ()).value.toNat + p.state.huart.halfFlag.toNat ≤ 1
  early    : p.state.huart.rxState = .busyRx → p.state.huart.rxCount < 32 →
    (p.state.notifications ()).value = 0 ∧ p.state.huart.halfFlag = false
  blocked  : (p.state.notifications ()).blocked = true →
    waiting = true ∧ (p.state.notifications ()).value = 0
  -- The task has stopped waiting since there is no reply.
  expired  : waiting = true → (p.state.notifications ()).blocked = false →
    (p.state.notifications ()).value = 0 → reply = [] ∧ p.state.huart.gState = .ready ∧
      p.state.sim800l.unanswered = [] ∧ p.reacted = k + 1
  half     : prompt = true → (p.state.notifications ()).value = 0 →
    p.state.huart.rxCount ≤ 32 ∧ (p.state.huart.rxCount = 32 → p.state.huart.halfFlag = true)

namespace Waits

variable {w : Bool}

theorem value_of_isPrompt (h : Waits prompt rxBuf k reply w p)
    (hp : prompt = true → p.IsPrompt e) (he : e ≠ .dmaIrq) (ht : prompt = true) :
    p.state.huart.rxCount < 32 := by
  have ⟨hb, hf⟩ := hp ht
  have ⟨hc, hh⟩ := h.half ht (h.blocked hb).right
  by_contra hn
  exact he (hf (hh (by omega)))

theorem rxByte {c : Symbol} {line : List Symbol} (h : Waits prompt rxBuf k reply w p)
    (hl : p.state.sim800l.line = c :: line) (hc : prompt = true → p.state.huart.rxCount < 32) :
    Waits prompt rxBuf k reply w { p with state := p.state.rxByte c line } := by
  have hh := h.toHears.rxByte hl
  have hx : w = true → (p.state.notifications ()).blocked = false →
      (p.state.notifications ()).value = 0 → False := by
    intro hw hb hv
    obtain ⟨rfl, _, hu, _⟩ := h.expired hw hb hv
    cases h.stage
    case sending hl' _ _ | answering hl' _ _ => simp [hl'] at hl
    case receiving hl' _ _ => simp [hl', symbols] at hl
  have hs := h.size
  by_cases hr : p.state.huart.Receives
  case neg =>
    simp only [State.rxByte, Uart.rxByte, if_neg hr] at hh ⊢
    exact {
      toHears       := hh
      told          := h.told
      notified      := h.notified
      bound         := h.bound
      room          := h.room
      early         := h.early
      blocked       := h.blocked
      expired hw hb := fun hv => (hx hw hb hv).elim
      half          := h.half }
  case pos =>
    simp only [State.rxByte, Uart.rxByte, if_pos hr] at hh ⊢
    have hz : p.state.huart.rxXferSize / 2 = 32 := hs ▸ rfl
    have hn := Bool.toNat_le (p.state.huart.halfFlag || p.state.huart.rxCount + 1 == 32)
    rw [hz] at hh ⊢
    have hm : p.state.huart.rxCount < 32 → (p.state.notifications ()).value.toNat = 0 :=
      fun hc => congrArg UInt32.toNat (h.early hr.left hc).left
    have hf : 32 ≤ p.state.huart.rxCount →
        (p.state.huart.halfFlag || p.state.huart.rxCount + 1 == 32) = p.state.huart.halfFlag := by
      intro hc
      rw [beq_false_of_ne (by omega), Bool.or_false]
    have hl : (p.state.notifications ()).value.toNat +
        (p.state.huart.halfFlag || p.state.huart.rxCount + 1 == 32).toNat ≤ 1 := by
      by_cases hc : p.state.huart.rxCount < 32
      case pos => have := hm hc; omega
      case neg => exact (hf (Nat.le_of_not_lt hc)).symm ▸ h.room hr.left
    exact {
      toHears       := hh
      told hv       := ⟨Nat.succ_pos _, Nat.le_succ_of_le (h.told hv).le, (h.told hv).ge, (h.told hv).eq⟩
      notified hn   := (hn hr.left).elim
      bound         := Nat.le_succ_of_le hl
      room _        := hl
      early _ hc    := by
        obtain ⟨hv, hf⟩ := h.early hr.left (Nat.lt_of_succ_lt hc)
        exact ⟨hv, by simpa [hf] using hc.ne⟩
      blocked       := h.blocked
      expired hw hb := fun hv => (hx hw hb hv).elim
      half ht _     := ⟨hc ht, fun hc => Bool.or_eq_true_iff.mpr (.inr (beq_of_eq hc))⟩ }

-- The task is notified of a receive event.
theorem rxEventCallback {huart : Uart} {size : ℕ} (h : Waits prompt rxBuf k reply w p)
    (hh : Hears rxBuf k reply { p with state := { p.state with huart }.rxEventCallback size })
    (hs : Sized prompt reply huart.rxCount size)
    (hv : (p.state.notifications ()).value.toNat ≤ 1) (hf : huart.halfFlag = false)
    (hr : huart.rxState = .busyRx →
      (p.state.notifications ()).value = 0 ∧ 32 ≤ huart.rxCount) :
    Waits prompt rxBuf k reply w
      { p with state := { p.state with huart }.rxEventCallback size } := by
  rw [rxEventCallback_eq h.calling] at hh ⊢
  have hn := add_one_ne_zero hv
  exact {
    toHears       := hh
    told _        := hs
    notified _    := hn
    bound         := by
      change ((p.state.notifications ()).value + 1).toNat + huart.halfFlag.toNat ≤ 2
      rw [toNat_add_one hv, hf, Bool.toNat_false]
      omega
    room hb       := by
      change ((p.state.notifications ()).value + 1).toNat + huart.halfFlag.toNat ≤ 1
      rw [toNat_add_one hv, hf, (hr hb).left]
      rfl
    early hb hc   := (Nat.not_le_of_lt hc (hr hb).right).elim
    blocked       := nofun
    expired _ _ h := (hn h).elim
    half _ h      := (hn h).elim }

theorem happens (h : Waits prompt rxBuf k reply w p) (hr : reactions k = reply)
    (ha : p.Allows reactions e) (hp : prompt = true → p.IsPrompt e) (he : p.state.Happens e s') :
    Waits prompt rxBuf k reply w ⟨s', p.after e⟩ := by
  have hh := h.toHears.happens hr ha he
  cases he <;> try exact ha.elim
  case expire hb =>
    have ⟨hw, hv⟩ := h.blocked hb
    have ⟨hg, hu, hs⟩ := ha
    cases h.stage
    case sending | answering => simp_all
    case receiving hk =>
      exact { h with
        toHears       := hh
        blocked       := nofun
        expired _ _ _ := ⟨hr.symm.trans (hs k (by omega)), hg, hu, hk⟩ }
  case endTransmit hg =>
    exact { h with
      toHears       := hh
      expired hw hb := fun hv => by simp [(h.expired hw hb hv).right.left] at hg }
  case answer hu =>
    exact { h with
      toHears       := hh
      expired hw hb := fun hv => by simp [(h.expired hw hb hv).right.right.left] at hu }
  case idleLine | ignoredIdleIrq => exact { h with toHears := hh }
  case rxByte hl => exact h.rxByte hl (h.value_of_isPrompt hp nofun)
  case idleIrq hb hf hc hl =>
    exact h.rxEventCallback hh (h.sized_idle hf (h.value_of_isPrompt hp nofun))
      (Nat.le_of_add_right_le (h.room hb)) rfl nofun
  case halfIrq hf =>
    have hv := h.bound
    rw [hf, Bool.toNat_true] at hv
    refine h.rxEventCallback hh (h.sized_half hf) (Nat.le_of_succ_le_succ hv) rfl fun hr => ?_
    have hv := h.room hr
    rw [hf, Bool.toNat_true] at hv
    exact ⟨UInt32.toNat_inj.mp (Nat.le_zero.mp (Nat.le_of_succ_le_succ hv)), h.halfFlag hf⟩
  case cpltIrq hh' hf =>
    have ⟨hb, hc⟩ := h.cpltFlag hf
    have hp (ht : prompt = true) : False := by
      have ⟨hb, _⟩ := hp ht
      have hn := (h.half ht (h.blocked hb).right).left
      rw [hc] at hn
      contradiction
    exact h.rxEventCallback hh (h.sized_cplt hf hp) (Nat.le_of_add_right_le (h.room hb)) rfl nofun

end Waits

-- Apart from timeouts, the events are those of a module that replies with its next reaction.
theorem Allows.repliesWith (ha : p.Allows reactions e) (he : ∀ t, e ≠ .expire t) :
    (repliesWith (reactions p.reacted)).event e p.state := by
  cases e
  case expire t => exact (he t rfl).elim
  all_goals exact ha

theorem blocked_of_happens (ha : p.Allows reactions e) (he : p.state.Happens e s')
    (hb : (p.state.notifications ()).blocked = false) : (s'.notifications ()).blocked = false := by
  by_cases hx : ∃ t, e = .expire t
  case neg => exact not_blocked_happens hb (ha.repliesWith (not_exists.mp hx)) he
  case pos =>
    obtain ⟨t, rfl⟩ := hx
    cases he
    rfl

-- What is left to happen before the module is to react to the next probe.
def weight (reply : List UInt8) (p : Probing) : ℕ :=
  Replying.weight reply p.state + (p.state.notifications ()).blocked.toNat

theorem weight_lt (ha : p.Allows reactions e) (he : p.state.Happens e s')
    (hr : ∀ text, e = .answer text → reactions p.reacted = reply) :
    weight reply ⟨s', p.after e⟩ < weight reply p := by
  by_cases hx : ∃ t, e = .expire t
  case pos =>
    obtain ⟨t, rfl⟩ := hx
    cases he
    case expire hb =>
      simp only [weight, hb, Bool.toNat_true]
      exact Nat.lt_succ_self _
  case neg =>
    have hc := ha.repliesWith (not_exists.mp hx)
    have hc' : (Gsm.repliesWith reply).event e p.state := by
      cases e
      case answer text => exact hr text rfl ▸ hc
      all_goals exact hc
    have hw := Replying.weight_lt hc' he
    have hb : (s'.notifications ()).blocked.toNat ≤ (p.state.notifications ()).blocked.toNat := by
      cases hb : (p.state.notifications ()).blocked
      case true  => exact Bool.toNat_le _
      case false => rw [blocked_of_happens ha he hb]
    simp only [weight]
    omega

theorem Hears.reactions_eq {text : List UInt8} (h : Hears rxBuf k reply p) (hr : reactions k = reply)
    (he : p.state.Happens (.answer text) s') : reactions p.reacted = reply := by
  cases he
  case answer hu =>
    cases h.stage
    case sending hu' _ _ _ | receiving hu' _ _ _ _ => simp [hu'] at hu
    case answering hk => exact hk ▸ hr

-- While the task waits, there is something to happen.
theorem Waits.exists_event (h : Waits prompt rxBuf k reply true p) (hr : reactions k = reply)
    (hs : ∀ i < k, reactions i = []) (hb : (p.state.notifications ()).blocked = true) :
    ∃ e, p.Allows reactions e ∧ p.IsPrompt e ∧ (p.state.event e).isSome := by
  have hv := (h.blocked hb).right
  have hx : p.state.huart.rxState = .busyRx := by
    by_contra hx
    exact h.notified hx hv
  cases hf : p.state.huart.halfFlag
  case true =>
    exact ⟨.dmaIrq, trivial, ⟨hb, fun _ => rfl⟩, by simp [State.event, Uart.dmaIrqHandler, hf]⟩
  case false =>
    have hp (e : Event Unit) : p.IsPrompt e := ⟨hb, fun hf' => by simp [hf] at hf'⟩
    cases h.stage
    case sending hg _ _ _ _ _ =>
      exact ⟨.endTransmit, trivial, hp _, by simp [State.event, Uart.endTransmit, hg]⟩
    case answering hu _ _ hk =>
      exact ⟨.answer (reactions k), by simp [Allows, hk], hp _, by simp [State.event, hu]⟩
    case receiving j hg hu hj hl hc hk =>
      by_cases hj' : j < reply.length
      case pos =>
        rw [List.drop_eq_getElem_cons hj', symbols, List.map_cons] at hl
        exact ⟨.rxByte, trivial, hp _, by simp [State.event, hl]⟩
      case neg =>
        rw [List.drop_of_length_le (not_lt.mp hj'), symbols, List.map_nil] at hl
        by_cases hz : reply = []
        case pos =>
          refine ⟨.expire (), ⟨hg, hu, fun i hi => ?_⟩, hp _, by simp [State.event, Notification.expire, hb]⟩
          obtain hi | rfl := Nat.lt_or_eq_of_le (Nat.le_of_lt_succ (hk ▸ hi))
          · exact hs i hi
          · exact hr.trans hz
        case neg =>
          have hn := List.length_pos_iff.mpr hz
          have hc₀ : 0 < p.state.huart.rxCount := by simp only [uartIdleLineBufByte] at hc; omega
          by_cases hc' : p.state.huart.rxCount < uartIdleLineBufByte
          case neg =>
            have hf' := h.full hx (by omega)
            exact ⟨.dmaIrq, trivial, hp _, by simp [State.event, Uart.dmaIrqHandler, hf, hf']⟩
          case pos =>
            rcases h.idle hx hc₀ hc' with ha | hi
            · exact ⟨.idleLine, hl, hp _, by simp [State.event, Uart.idleLine, ha]⟩
            · refine ⟨.idleIrq, trivial, hp _, ?_⟩
              simp only [State.event, Uart.idleIrqHandler, hx, hi, and_self, if_true, Option.isSome_map]
              split <;> rfl

-- The task has taken a notification.
structure Heard (prompt : Bool) (rxBuf : Buffer) (k : ℕ) (reply : List UInt8) (p : Probing) : Prop
    extends Hears rxBuf k reply p where
  sized   : Sized prompt reply p.state.huart.rxCount p.state.rxIdleLineSize
  blocked : (p.state.notifications ()).blocked = false

-- The task has loaded the size of the view.
structure Loaded (prompt : Bool) (rxBuf : Buffer) (k : ℕ) (reply : List UInt8) (n : ℕ)
    (p : Probing) : Prop extends Hears rxBuf k reply p where
  sized   : Sized prompt reply p.state.huart.rxCount n
  blocked : (p.state.notifications ()).blocked = false

-- The module has nothing left to react to.
structure Settled (p : Probing) : Prop where
  gState     : p.state.huart.gState = .ready
  unanswered : p.state.sim800l.unanswered = []
  blocked    : (p.state.notifications ()).blocked = false

theorem rxCount_le_of_happens (ha : p.Allows reactions e) (he : p.state.Happens e s') :
    p.state.huart.rxCount ≤ s'.huart.rxCount := by
  cases he <;> try exact ha.elim
  case rxByte =>
    simp only [State.rxByte, Uart.rxByte]
    split
    · exact Nat.le_succ _
    · exact Nat.le_refl _
  case idleIrq | halfIrq | cpltIrq =>
    unfold State.rxEventCallback
    split <;> exact Nat.le_refl _
  all_goals exact Nat.le_refl _

theorem Heard.happens (h : Heard prompt rxBuf k reply p) (hr : reactions k = reply)
    (ha : p.Allows reactions e) (hp : prompt = true → p.IsPrompt e) (he : p.state.Happens e s') :
    Heard prompt rxBuf k reply ⟨s', p.after e⟩ := by
  have hh := h.toHears.happens hr ha he
  have hb := blocked_of_happens ha he h.blocked
  have hn (ht : prompt = true) : False :=
    Bool.false_ne_true (h.blocked.symm.trans (hp ht).left)
  cases he <;> try exact ha.elim
  case rxByte hl =>
    have hc := rxCount_le_of_happens (e := .rxByte) ha (.rxByte hl)
    exact {
      toHears := hh
      sized   := { h.sized with
        received := Nat.lt_of_lt_of_le h.sized.received hc
        le       := Nat.le_trans h.sized.le hc }
      blocked := hb }
  case idleIrq hf _ _ =>
    rw [rxEventCallback_eq h.calling] at hh hb ⊢
    exact ⟨hh, h.sized_idle hf fun ht => (hn ht).elim, hb⟩
  case halfIrq hf =>
    rw [rxEventCallback_eq h.calling] at hh hb ⊢
    exact ⟨hh, h.sized_half hf, hb⟩
  case cpltIrq hf =>
    rw [rxEventCallback_eq h.calling] at hh hb ⊢
    exact ⟨hh, h.sized_cplt hf hn, hb⟩
  all_goals exact ⟨hh, h.sized, hb⟩

theorem Loaded.happens {n : ℕ} (h : Loaded prompt rxBuf k reply n p) (hr : reactions k = reply)
    (ha : p.Allows reactions e) (he : p.state.Happens e s') :
    Loaded prompt rxBuf k reply n ⟨s', p.after e⟩ where
  toHears := h.toHears.happens hr ha he
  sized   := { h.sized with
    received := Nat.lt_of_lt_of_le h.sized.received (rxCount_le_of_happens ha he)
    le       := Nat.le_trans h.sized.le (rxCount_le_of_happens ha he) }
  blocked := blocked_of_happens ha he h.blocked

theorem Settled.happens (h : Settled p) (ha : p.Allows reactions e) (he : p.state.Happens e s') :
    Settled ⟨s', p.after e⟩ := by
  have hb := blocked_of_happens ha he h.blocked
  cases he <;> try exact ha.elim
  case endTransmit hg => simp [h.gState] at hg
  case answer hu      => simp [h.unanswered] at hu
  case rxByte =>
    refine ⟨?_, h.unanswered, hb⟩
    simp only [State.rxByte, Uart.rxByte]
    split <;> exact h.gState
  case idleIrq | halfIrq | cpltIrq =>
    unfold State.rxEventCallback at hb ⊢
    split at hb <;> exact ⟨h.gState, h.unanswered, hb⟩
  all_goals exact ⟨h.gState, h.unanswered, hb⟩

end Probing

end Gsm
