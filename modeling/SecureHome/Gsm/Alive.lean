import SecureHome.Gsm.HalfTransfer
import SecureHome.Gsm.Probing

open FreeRTOS Hal

namespace Gsm

namespace Probing

open Replying

variable {reactions : Reactions} {prompt : Bool} {p p' : Probing} {s' : State Unit} {e : Event Unit}
variable {rxBuf : Buffer} {k : ℕ} {reply : List UInt8} {α : Type} {P : Probing → Prop} {o : Op}

-- The part of a reply that the driver has seen contains what it expects.
def hasOk (rx : List UInt8) : Bool :=
  (find rx CmdT.at.rxExpected).isSome

def verdict (alive : Bool) : Except ErrorT Unit :=
  if alive then .ok () else .error .gsmModuleNotAlive

-- A statement takes the driver from one condition to another in any case.
def Does (reactions : Reactions) (prompt : Bool) (P : Probing → Prop) (o : Op)
    (Q : sig.Ret o → Probing → Prop) : Prop :=
  Prog.Total exec (env reactions prompt) P (Prog.perform (S := sig) o) Q

theorem does {Q : sig.Ret o → Probing → Prop} (m : Probing → ℕ)
    (hs : ∀ p e s', P p → p.Allows reactions e → (prompt = true → p.IsPrompt e) →
      p.state.Happens e s' → P ⟨s', p.after e⟩ ∧ m ⟨s', p.after e⟩ < m p)
    (hn : ∀ p, P p → (∃ r s', (r, s') ∈ p.state.exec () o) ∨ ∃ p', env reactions prompt p p')
    (ho : ∀ p r s', P p → p.state.Performs () o r s' → Q r { p with state := s' }) :
    Does reactions prompt P o Q := by
  apply Prog.Total.perform m
  case hs =>
    rintro p ⟨s', r⟩ hp ⟨e, ha, ht, he, rfl⟩
    exact hs p e s' hp ha ht (State.happens_of_event he)
  case hn =>
    intro p hp
    refine (hn p hp).imp_left fun ⟨r, s', hm⟩ => ?_
    exact ⟨r, { p with state := s' }, List.mem_map.mpr ⟨_, hm, rfl⟩⟩
  case ho =>
    intro p r p' hp hr
    have ⟨⟨_, _⟩, hm, he⟩ := List.mem_map.mp hr
    cases he
    exact ho p _ _ hp (State.performs_of_exec hm)

-- The same where nothing can happen.
theorem does_silent {Q : sig.Ret o → Probing → Prop} (hp : Proceeds o)
    (hs : ∀ p, P p → Silent p.state ∧ (p.state.notifications ()).blocked = false)
    (ho : ∀ p r s', P p → p.state.Performs () o r s' → Q r { p with state := s' }) :
    Does reactions prompt P o Q := by
  refine does (fun _ => 0) (fun p e s' h ha _ he => ?_) (fun p h => ?_) ho
  case refine_2 => exact .inl (exists_mem_exec hp (hs p h).right)
  case refine_1 =>
    have ⟨hs, hb⟩ := hs p h
    by_cases hx : ∃ t, e = .expire t
    case neg => exact (hs.not_happens (ha.repliesWith (not_exists.mp hx)) he).elim
    case pos =>
      obtain ⟨t, rfl⟩ := hx
      cases he
      case expire hb' => simp [hb] at hb'

-- The same where the task does not wait.
theorem does_running {Q : sig.Ret o → Probing → Prop} (hp : Proceeds o)
    (hb : ∀ p, P p → (p.state.notifications ()).blocked = false)
    (hr : ∀ p text s', P p → p.state.Happens (.answer text) s' → reactions p.reacted = reply)
    (hs : ∀ p e s', P p → p.Allows reactions e → (prompt = true → p.IsPrompt e) →
      p.state.Happens e s' → P ⟨s', p.after e⟩)
    (ho : ∀ p r s', P p → p.state.Performs () o r s' → Q r { p with state := s' }) :
    Does reactions prompt P o Q := by
  refine does (weight reply) (fun p e s' h ha hi he => ⟨hs p e s' h ha hi he, ?_⟩)
    (fun p h => .inl (exists_mem_exec hp (hb p h))) ho
  apply weight_lt ha he
  rintro text rfl
  exact hr p text s' h he

-- The reception has been started, and the module has not replied to any probe so far.
structure Armed (reactions : Reactions) (rxBuf : Buffer) (k : ℕ) (p : Probing) : Prop where
  armed   : Replying.Armed rxBuf p.state
  reacted : p.reacted = k
  silent  : ∀ i < k, reactions i = []

theorem Armed.waits (h : Armed reactions rxBuf k p) : Waits prompt rxBuf k reply false
    { p with state.huart.gState := .busyTx, state.huart.txFor := rxBuf, state.dmaFault := false } where
  calling       := h.armed.calling
  buffer        := h.armed.buffer
  size          := h.armed.size
  dmaFault      := rfl
  contents      := by simpa [h.armed.rxCount, symbols] using h.armed.contents
  halfFlag hf   := by simp [h.armed.halfFlag] at hf
  cpltFlag hf   := by simp [h.armed.cpltFlag] at hf
  idleFlag hf   := by simp [h.armed.idleFlag] at hf
  idleArmed ha  := by simp [h.armed.idleArmed] at ha
  idle _ hp     := by simp [h.armed.rxCount] at hp
  full _ hc     := by simp [h.armed.rxCount, uartIdleLineBufByte] at hc
  ended hr      := (hr h.armed.rxState).elim
  stage         := .sending rfl rfl h.armed.unanswered h.armed.line h.armed.rxCount h.reacted
  told hv       := (hv h.armed.value).elim
  notified hr   := (hr h.armed.rxState).elim
  bound         := by simp [h.armed.value, h.armed.halfFlag]
  room _        := by simp [h.armed.value, h.armed.halfFlag]
  early _ _     := ⟨h.armed.value, h.armed.halfFlag⟩
  blocked hb    := by simp [h.armed.blocked] at hb
  expired       := nofun
  half _ _      := by simp [h.armed.rxCount]

theorem Waits.notifyTakeEnter (h : Waits prompt rxBuf k reply false p) :
    Waits prompt rxBuf k reply true { p with
      state := p.state.setNotification () (p.state.notifications ()).notifyTakeEnter } := by
  have hb : (p.state.notifications ()).blocked = false := by
    by_contra hb
    exact Bool.false_ne_true (h.blocked (by simpa using hb)).left
  have hv : (p.state.notifications ()).notifyTakeEnter.value = (p.state.notifications ()).value := by
    unfold Notification.notifyTakeEnter
    split <;> rfl
  have hb' : (p.state.notifications ()).notifyTakeEnter.blocked =
      ((p.state.notifications ()).value == 0) := by
    unfold Notification.notifyTakeEnter
    split
    case isTrue hv  => simp [hv]
    case isFalse hv => simp [hv, hb]
  exact { h.toHears with
    stage           := h.stage.congr rfl rfl rfl rfl rfl
    told            := hv.symm ▸ h.told
    notified        := hv.symm ▸ h.notified
    bound           := hv.symm ▸ h.bound
    room            := hv.symm ▸ h.room
    early           := hv.symm ▸ h.early
    half            := hv.symm ▸ h.half
    blocked hb      := ⟨rfl, hv.trans (by simpa using hb'.symm.trans hb)⟩
    expired _ hb hx := (beq_eq_false_iff_ne.mp (hb'.symm.trans hb) (hv.symm.trans hx)).elim }

-- A task that has stopped waiting sends the next probe.
theorem Waits.armed (h : Waits prompt rxBuf k reply true p) (hr : reactions k = reply)
    (hs : ∀ i < k, reactions i = []) (hb : (p.state.notifications ()).blocked = false)
    (hv : (p.state.notifications ()).value = 0) :
    Armed reactions rxBuf (k + 1) { p with
      state := p.state.setNotification () (p.state.notifications ()).notifyTake.2 } := by
  obtain ⟨rfl, hg, hu, hk⟩ := h.expired rfl hb hv
  have hc : p.state.huart.rxCount = 0 := Nat.le_zero.mp h.toHears.rxCount_le.left
  have hx : p.state.huart.rxState = .busyRx := by
    by_contra hx
    exact h.notified hx hv
  have hl : p.state.sim800l.line = [] := by
    cases h.stage
    case sending hl _ _ | answering hl _ _ => exact hl
    case receiving hl _ _                  => simpa [symbols] using hl
  have hi : p.state.huart.idleFlag = false := by
    by_contra hi
    exact (h.idleFlag (by simpa using hi)).left.ne' hc
  have hf : p.state.huart.cpltFlag = false := by
    by_contra hf
    have := (h.cpltFlag (by simpa using hf)).right
    rw [hc] at this
    contradiction
  have ha : p.state.huart.idleArmed = false := by
    by_contra ha
    exact (h.idleArmed (by simpa using ha)).ne' hc
  have hz : p.state.buffers rxBuf = .replicate uartIdleLineBufByte .zero := by
    simpa [hc, symbols] using h.contents
  refine ⟨⟨⟨hg, (h.early hx (by omega)).right, hf, ha, fun _ => hi, hu, hl⟩, h.calling, h.buffer,
    h.size, hz, hx, hc, hi, h.dmaFault, rfl, hb⟩, hk, fun i hi => ?_⟩
  obtain hi | rfl := Nat.lt_or_eq_of_le (Nat.le_of_lt_succ hi)
  · exact hs i hi
  · exact hr

theorem Waits.heard (h : Waits prompt rxBuf k reply true p)
    (hb : (p.state.notifications ()).blocked = false) (hv : (p.state.notifications ()).value ≠ 0) :
    Heard prompt rxBuf k reply { p with
      state := (p.state.setNotification () (p.state.notifications ()).notifyTake.2).record
        (.take ()) } :=
  { h.toHears with
    stage   := h.stage.congr rfl rfl rfl rfl rfl
    sized   := h.told hv
    blocked := hb }

-- What the driver sees of a reply.
theorem Loaded.view {n : ℕ} (h : Loaded prompt rxBuf k reply n p) :
    ((p.state.buffers rxBuf).take n).map Symbol.char = reply.take n := by
  have hl := h.sized.le
  have hc := h.toHears.rxCount_le.left
  have hs : (symbols rxBuf (reply.take p.state.huart.rxCount)).length = p.state.huart.rxCount := by
    simp [symbols, hc]
  rw [h.contents, List.take_append_of_le_length (hl.trans hs.ge), symbols, ← List.map_take, List.take_take,
    Nat.min_eq_left hl, List.map_map]
  exact List.map_id _

theorem Loaded.settled {n : ℕ} (h : Loaded prompt rxBuf k reply n p) : Settled p :=
  have ⟨hg, hu, _⟩ := h.toHears.settled h.sized.received
  ⟨hg, hu, h.blocked⟩

-- The driver may see this of the first reply. Unless it is prompt, it may see more of the reply than
-- the first half of the buffer.
def Viewed (reactions : Reactions) (prompt : Bool) (rx : List UInt8) : Prop :=
  ∃ k < numOfTimesToSendAt, (∀ i < k, reactions i = []) ∧ reactions k ≠ [] ∧
    ∃ n, min 32 (reactions k).length ≤ n ∧
      (prompt = true → n = min 32 (reactions k).length) ∧ rx = (reactions k).take n

-- What the driver makes of the reactions.
def Outcome (reactions : Reactions) (prompt : Bool) (result : Except ErrorT Unit) : Prop :=
  (∀ i < numOfTimesToSendAt, reactions i = []) ∧ result = verdict false ∨
    ∃ rx, Viewed reactions prompt rx ∧ result = verdict (hasOk rx)

def Ends (reactions : Reactions) (prompt : Bool) (result : Except ErrorT Unit) (p : Probing) :
    Prop :=
  Outcome reactions prompt result ∧ Settled p

-- The driver takes a condition to another one, or it stops with an error.
def Runs (reactions : Reactions) (prompt : Bool) (P : Probing → Prop) (q : Driver α)
    (Q : α → Probing → Prop) : Prop :=
  Prog.FallibleTotal exec (env reactions prompt) P q Q fun e => Ends reactions prompt (.error e)

theorem Runs.perform {Q : sig.Ret o → Probing → Prop} (h : Does reactions prompt P o Q) :
    Runs reactions prompt P (Gsm.perform o) Q :=
  .lift h

theorem Runs.tryHal {q : Driver Status} {Q : Probing → Prop}
    (h : Runs reactions prompt P q fun status p => status = .ok ∧ Q p) :
    Runs reactions prompt P (Gsm.tryHal q) fun _ => Q := by
  apply Prog.FallibleTotal.bind h
  intro status
  by_cases hs : status = .ok
  case pos =>
    simp only [hs, true_and, ne_eq, not_true_eq_false, if_false]
    exact .pure fun _ h => h
  case neg => exact fun p h => (hs h.left).elim

-- The task has sent the probe at an index.
structure Sent (reactions : Reactions) (prompt : Bool) (rxBuf : Buffer) (k : ℕ) (waiting : Bool)
    (p : Probing) : Prop where
  waits  : Waits prompt rxBuf k (reactions k) waiting p
  silent : ∀ i < k, reactions i = []

theorem Sent.happens {w : Bool} (h : Sent reactions prompt rxBuf k w p) (ha : p.Allows reactions e)
    (hp : prompt = true → p.IsPrompt e) (he : p.state.Happens e s') :
    Sent reactions prompt rxBuf k w ⟨s', p.after e⟩ :=
  ⟨h.waits.happens rfl ha hp he, h.silent⟩

theorem does_transmitDma : Does reactions prompt (Armed reactions rxBuf k)
    (.transmitDma CmdT.at.tx rxBuf)
    fun status p => status = .ok ∧ Sent reactions prompt rxBuf k false p := by
  apply does_silent (o := .transmitDma _ _) trivial fun p h => ⟨h.armed.toSilent, h.armed.blocked⟩
  intro p r s' h hp
  cases hp
  case transmitDma            => exact ⟨rfl, h.waits, h.silent⟩
  case transmitDmaError hg hf => simp [h.armed.dmaFault, show CmdT.at.tx ≠ [] by decide] at hf
  case transmitDmaBusy hg     => exact (hg h.armed.gState).elim

theorem does_notifyTakeEnter : Does reactions prompt (Sent reactions prompt rxBuf k false)
    .notifyTakeEnter fun _ => Sent reactions prompt rxBuf k true := by
  apply does_running (o := .notifyTakeEnter) trivial
  case hb =>
    intro p h
    by_contra hb
    exact Bool.false_ne_true (h.waits.blocked (by simpa using hb)).left
  case hr => exact fun p text s' h he => h.waits.toHears.reactions_eq rfl he
  case hs => exact fun p e s' h => h.happens
  case ho =>
    intro p r s' h hp
    cases hp
    exact ⟨h.waits.notifyTakeEnter, h.silent⟩

theorem does_notifyTake : Does reactions prompt (Sent reactions prompt rxBuf k true) .notifyTake
    fun value p => if value = 0 then Armed reactions rxBuf (k + 1) p
      else (∀ i < k, reactions i = []) ∧ Heard prompt rxBuf k (reactions k) p := by
  apply does (weight (reactions k))
  case hs =>
    intro p e s' h ha hp he
    refine ⟨h.happens ha hp he, weight_lt ha he ?_⟩
    rintro text rfl
    exact h.waits.toHears.reactions_eq rfl he
  case hn =>
    intro p h
    cases hb : (p.state.notifications ()).blocked
    case false => exact .inl (exists_mem_exec trivial hb)
    case true  =>
      have ⟨e, ha, hp, he⟩ := h.waits.exists_event rfl h.silent hb
      have ⟨s', he⟩ := Option.isSome_iff_exists.mp he
      exact .inr ⟨⟨s', p.after e⟩, e, ha, fun _ => hp, he, rfl⟩
  case ho =>
    intro p r s' h hp
    cases hp
    case notifyTake hb hv =>
      rw [if_neg hv]
      exact ⟨h.silent, h.waits.heard hb hv⟩
    case notifyTakeTimeout hb hv =>
      rw [if_pos rfl]
      exact h.waits.armed rfl h.silent hb hv

-- The loop ends with the first probe that there is a notification for.
theorem runs_sendAt {count : ℕ} (hk : k + count = numOfTimesToSendAt) :
    Runs reactions prompt (Armed reactions rxBuf k) (sendAt rxBuf count) fun responded p =>
      if responded then ∃ k < numOfTimesToSendAt, (∀ i < k, reactions i = []) ∧
        Heard prompt rxBuf k (reactions k) p
      else Armed reactions rxBuf numOfTimesToSendAt p := by
  induction count generalizing k
  case zero =>
    obtain rfl : k = numOfTimesToSendAt := hk
    exact .pure fun _ h => h
  case succ count hi =>
    apply Prog.FallibleTotal.bind (Runs.tryHal (.perform does_transmitDma))
    intro _
    apply Prog.FallibleTotal.bind
    case h =>
      exact Prog.FallibleTotal.bind (Runs.perform does_notifyTakeEnter) fun _ =>
        Runs.perform does_notifyTake
    intro value
    by_cases hv : value = 0
    case pos =>
      simp only [hv, if_true]
      exact hi (by omega)
    case neg =>
      simp only [hv, if_false, gt_iff_lt, UInt32.pos_iff_ne_zero.mpr hv, if_true]
      exact .pure fun _ ⟨hs, h⟩ => ⟨k, by omega, hs, h⟩

theorem does_abort : Does reactions prompt (Armed reactions rxBuf numOfTimesToSendAt) .abort
    fun _ => Ends reactions prompt (.error .gsmModuleNotAlive) := by
  apply does_silent (o := .abort) trivial fun p h => ⟨h.armed.toSilent, h.armed.blocked⟩
  intro p r s' h hp
  cases hp
  exact ⟨.inl ⟨h.silent, rfl⟩, rfl, h.armed.unanswered, h.armed.blocked⟩

theorem does_loadRxIdleLineSize : Does reactions prompt
    (fun p => ∃ k < numOfTimesToSendAt, (∀ i < k, reactions i = []) ∧
      Heard prompt rxBuf k (reactions k) p)
    .loadRxIdleLineSize fun n p => ∃ k < numOfTimesToSendAt, (∀ i < k, reactions i = []) ∧
      Loaded prompt rxBuf k (reactions k) n p := by
  refine Prog.Total.intro fun k => does_running (o := .loadRxIdleLineSize) trivial
    (fun p ⟨_, _, h⟩ => h.blocked) (fun p text s' ⟨_, _, h⟩ he => h.toHears.reactions_eq rfl he)
    (fun p e s' ⟨hk, hs, h⟩ ha hp he => ⟨hk, hs, h.happens rfl ha hp he⟩) fun p r s' ⟨hk, hs, h⟩ hp => ?_
  cases hp
  exact ⟨k, hk, hs, { h with }⟩

theorem does_loadView {n : ℕ} : Does reactions prompt
    (fun p => ∃ k < numOfTimesToSendAt, (∀ i < k, reactions i = []) ∧
      Loaded prompt rxBuf k (reactions k) n p)
    (.loadView rxBuf n) fun rx p => Viewed reactions prompt (rx.map Symbol.char) ∧ Settled p := by
  refine Prog.Total.intro fun k => does_running (o := .loadView rxBuf n) trivial
    (fun p ⟨_, _, h⟩ => h.blocked) (fun p text s' ⟨_, _, h⟩ he => h.toHears.reactions_eq rfl he)
    (fun p e s' ⟨hk, hs, h⟩ ha _ he => ⟨hk, hs, h.happens rfl ha he⟩) fun p r s' ⟨hk, hs, h⟩ hp => ?_
  cases hp
  refine ⟨⟨k, hk, hs, ?_, n, h.sized.ge, h.sized.eq, h.view⟩, h.settled⟩
  have hc := h.sized.received
  have hl := h.toHears.rxCount_le.left
  exact List.length_pos_iff.mp (by omega)

-- A statement that comes after the reply has been checked.
theorem does_settled {r : Except ErrorT Unit} (ho : Proceeds o)
    (hs : ∀ p r s', Settled p → p.state.Performs () o r s' → Settled { p with state := s' }) :
    Does reactions prompt (Ends reactions prompt r) o fun _ => Ends reactions prompt r := by
  have hn : ∀ p text s', Ends reactions prompt r p → p.state.Happens (.answer text) s' →
      reactions p.reacted = [] := by
    intro p text s' h he
    cases he
    case answer hu => simp [h.right.unanswered] at hu
  exact does_running ho (fun p h => h.right.blocked) hn
    (fun p e s' h ha _ he => ⟨h.left, h.right.happens ha he⟩)
    fun p _ s' h hp => ⟨h.left, hs p _ s' h.right hp⟩

theorem Runs.scopedCleanup {q : Driver Unit}
    (h : Runs reactions prompt P q fun _ => Ends reactions prompt (.ok ())) :
    Runs reactions prompt P (Gsm.scopedCleanup q) fun _ => Ends reactions prompt (.ok ()) := by
  have hr (r : Except ErrorT Unit) : Does reactions prompt (Ends reactions prompt r)
      .resetRxIdleLineSize fun _ => Ends reactions prompt r := by
    refine does_settled (o := .resetRxIdleLineSize) trivial fun p _ s' h hp => ?_
    cases hp
    exact { h with }
  have hc (r : Except ErrorT Unit) : Does reactions prompt (Ends reactions prompt r)
      .resetCallingTaskHandle fun _ => Ends reactions prompt r := by
    refine does_settled (o := .resetCallingTaskHandle) trivial fun p _ s' h hp => ?_
    cases hp
    exact { h with }
  apply Prog.Total.bind h
  intro r
  cases r
  case ok a    => exact (hr _).bind fun _ => (hc _).bind fun _ => .pure fun _ h => h
  case error e => exact (hr _).bind fun _ => (hc _).bind fun _ => .pure fun _ h => h

theorem silent_of_quiet (h : Quiet p.state) :
    Silent p.state ∧ (p.state.notifications ()).blocked = false :=
  ⟨Replying.silent_of_quiet h, h.blocked⟩

theorem does_setCallingTaskHandle : Does reactions prompt
    (fun p => Quiet p.state ∧ p.reacted = 0) .setCallingTaskHandle
    fun _ p => (Quiet p.state ∧ p.state.callingTaskHandle = some ()) ∧ p.reacted = 0 := by
  refine does_silent (o := .setCallingTaskHandle) trivial (fun p h => silent_of_quiet h.left)
    fun p r s' h hp => ?_
  cases hp
  exact ⟨⟨{ h.left with }, rfl⟩, h.right⟩

theorem does_newBuffer : Does reactions prompt
    (fun p => (Quiet p.state ∧ p.state.callingTaskHandle = some ()) ∧ p.reacted = 0) .newBuffer
    fun rxBuf p => Ready rxBuf p.state ∧ p.reacted = 0 := by
  refine does_silent (o := .newBuffer) trivial (fun p h => silent_of_quiet h.left.left)
    fun p r s' h hp => ?_
  cases hp
  exact ⟨{ h.left.left with contents := Function.update_self .., calling := h.left.right }, h.right⟩

theorem does_receiveToIdleDma : Does reactions prompt
    (fun p => Ready rxBuf p.state ∧ p.reacted = 0) (.receiveToIdleDma rxBuf uartIdleLineBufByte)
    fun status p => status = .ok ∧ Armed reactions rxBuf 0 p := by
  refine does_silent (o := .receiveToIdleDma _ _) trivial
    (fun p h => silent_of_quiet h.left.toQuiet) fun p r s' h hp => ?_
  cases hp
  case receiveToIdleDma         => exact ⟨rfl, .receiveToIdleDma h.left, h.right, nofun⟩
  case receiveToIdleDmaError hf => simp [h.left.dmaFault, uartIdleLineBufByte] at hf
  case receiveToIdleDmaBusy hr  => exact (hr h.left.rxState).elim

theorem runs_checkAlive :
    Runs reactions prompt (fun p => Quiet p.state ∧ p.reacted = 0) checkAlive
      fun _ => Ends reactions prompt (.ok ()) := by
  open Prog FallibleTotal in
  apply Runs.scopedCleanup
  apply bind (Runs.perform does_setCallingTaskHandle)
  intro _
  apply bind (Runs.perform does_newBuffer)
  intro rxBuf
  apply bind (Runs.tryHal (.perform does_receiveToIdleDma))
  intro _
  apply bind (runs_sendAt (Nat.zero_add _))
  intro responded
  cases responded
  case false => exact (bind (Runs.perform does_abort)) fun _ => throw fun _ h => h
  case true =>
    apply bind (Runs.perform does_loadRxIdleLineSize)
    intro n
    apply bind (Runs.perform does_loadView)
    intro rx
    split
    case isTrue hf =>
      refine throw fun p ⟨hv, hs⟩ => ⟨.inr ⟨_, hv, ?_⟩, hs⟩
      rw [hasOk, Option.isNone_iff_eq_none.mp hf]
      rfl
    case isFalse hf =>
      refine pure fun p ⟨hv, hs⟩ => ⟨.inr ⟨_, hv, ?_⟩, hs⟩
      rw [hasOk, Option.isSome_iff_ne_none.mpr fun hn => hf (Option.isNone_iff_eq_none.mpr hn)]
      rfl

theorem hasOk_iff {rx : List UInt8} : hasOk rx = true ↔ CmdT.at.rxExpected <:+: rx := by
  simp only [hasOk, find, List.findIdx?_isSome, List.any_eq_true, List.mem_tails, decide_eq_true_eq,
    List.infix_iff_prefix_suffix, and_comm]

theorem hasOk_of_prefix {rx rx' : List UInt8} (h : rx <+: rx') (ho : hasOk rx = true) :
    hasOk rx' = true :=
  hasOk_iff.mpr ((hasOk_iff.mp ho).trans h.isInfix)

end Probing

open Probing

-- The driver finds out whether the module answers one of the probes as expected.
def Correct (reactions : Reactions) (result : Except ErrorT Unit) : Prop :=
  (∃ i < numOfTimesToSendAt, hasOk (reactions i) = true) ∧ result = .ok () ∨
    (∀ i < numOfTimesToSendAt, hasOk (reactions i) = false) ∧ result = .error .gsmModuleNotAlive

-- No reply is as expected, or the first half of the first reply is.
def Detectable (reactions : Reactions) : Prop :=
  (∀ i < numOfTimesToSendAt, hasOk (reactions i) = false) ∨
    ∃ k < numOfTimesToSendAt, (∀ i < k, reactions i = []) ∧
      hasOk ((reactions k).take (uartIdleLineBufByte / 2)) = true

namespace Probing

variable {reactions : Reactions} {result : Except ErrorT Unit} {rx : List UInt8} {s : State Unit}

theorem Viewed.correct (h : Viewed reactions false rx) (hd : Detectable reactions) :
    Correct reactions (verdict (hasOk rx)) := by
  obtain ⟨k, hk, hs, hn, n, hl, _, rfl⟩ := h
  obtain hd | ⟨j, hj, hs', ho⟩ := hd
  case inl =>
    have hf : hasOk ((reactions k).take n) = false := by
      by_contra hf
      have ho := hasOk_of_prefix (List.take_prefix n _) (by simpa using hf)
      simp [hd k hk] at ho
    exact .inr ⟨hd, by rw [hf]; rfl⟩
  case inr =>
    obtain rfl : j = k := by
      rcases Nat.lt_trichotomy j k with hlt | he | hlt
      · rw [hs j hlt] at ho
        contradiction
      · exact he
      · exact (hn (hs' k hlt)).elim
    have ht : (reactions j).take (uartIdleLineBufByte / 2) =
        ((reactions j).take n).take (uartIdleLineBufByte / 2) := by
      rw [List.take_take, List.take_eq_take_iff]
      simp only [uartIdleLineBufByte]
      omega
    rw [ht] at ho
    have hf := hasOk_of_prefix (List.take_prefix _ _) ho
    refine .inl ⟨⟨j, hj, hasOk_of_prefix (List.take_prefix n _) hf⟩, ?_⟩
    rw [hf]
    rfl

theorem Viewed.detectable (h : Viewed reactions true rx)
    (hc : Correct reactions (verdict (hasOk rx))) : Detectable reactions := by
  obtain ⟨k, hk, hs, hn, n, _, he, rfl⟩ := h
  have ht : (reactions k).take n = (reactions k).take (uartIdleLineBufByte / 2) := by
    rw [he rfl, List.take_eq_take_iff]
    simp only [uartIdleLineBufByte]
    omega
  rw [ht] at hc
  cases hf : hasOk ((reactions k).take (uartIdleLineBufByte / 2)) <;> rw [hf] at hc
  case true  => exact .inr ⟨k, hk, hs, hf⟩
  case false =>
    obtain ⟨_, hr⟩ | ⟨hd, _⟩ := hc
    · contradiction
    · exact .inl hd

theorem correct_of_silent (h : ∀ i < numOfTimesToSendAt, reactions i = []) :
    Correct reactions (verdict false) :=
  .inr ⟨fun i hi => h i hi ▸ rfl, rfl⟩

theorem Outcome.correct (h : Outcome reactions false result) (hd : Detectable reactions) :
    Correct reactions result := by
  obtain ⟨hs, rfl⟩ | ⟨rx, hv, rfl⟩ := h
  · exact correct_of_silent hs
  · exact hv.correct hd

theorem Outcome.detectable (h : Outcome reactions true result) (hc : Correct reactions result) :
    Detectable reactions := by
  obtain ⟨hs, _⟩ | ⟨rx, hv, rfl⟩ := h
  · exact .inl fun i hi => hs i hi ▸ rfl
  · exact hv.detectable hc

theorem mustReturn (hs : Quiet s) (prompt : Bool) :
    checkAlive.run.MustReturn exec (env reactions prompt)
      (fun result _ => Outcome reactions prompt result) ⟨s, 0⟩ := by
  apply (runs_checkAlive ⟨s, 0⟩ ⟨hs, rfl⟩).weaken
  intro r p h
  cases r <;> exact h.left

theorem mustReturn_of_detectable (hs : Quiet s) (hd : Detectable reactions) :
    checkAlive.run.MustReturn exec (env reactions false) (fun result _ => Correct reactions result)
      ⟨s, 0⟩ :=
  (mustReturn hs false).weaken fun _ _ h => h.correct hd

-- The driver may be prompt.
theorem detectable_of_mustReturn (hs : Quiet s)
    (h : checkAlive.run.MustReturn exec (env reactions false)
      (fun result _ => Correct reactions result) ⟨s, 0⟩) : Detectable reactions := by
  have hr : checkAlive.run.MustReturn exec (env reactions true)
      (fun result _ => Outcome reactions true result) ⟨s, 0⟩ := mustReturn hs true
  have ⟨r, p, hm, ho⟩ := hr.exists_mayReturn
  have hm : checkAlive.run.MayReturn exec (env reactions false) ⟨s, 0⟩ r p :=
    hm.mono fun _ _ ⟨e, ha, _, he⟩ => ⟨e, ha, nofun, he⟩
  exact ho.detectable (h.of_mayReturn hm)

end Probing

-- Whatever the module answers, the driver finds out whether it is alive if and only if no reply is
-- as expected, or the first half of the first reply is.
theorem correct_checkAlive_iff {reactions : Reactions} {s : State Unit} (hs : Quiet s) :
    checkAlive.run.MustReturn Probing.exec (Probing.env reactions false)
        (fun result _ => Correct reactions result) ⟨s, 0⟩ ↔
      Detectable reactions :=
  ⟨detectable_of_mustReturn hs, mustReturn_of_detectable hs⟩

-- The module does not answer the first two probes.
def lateReply : Reactions
  | 2 => text "\r\nOK\r\n"
  | _ => []

theorem correct_checkAlive_lateReply :
    checkAlive.run.MustReturn Probing.exec (Probing.env lateReply false)
      (fun result _ => Correct lateReply result) ⟨.init fun _ => none, 0⟩ :=
  (correct_checkAlive_iff HalfTransfer.quiet_init).mpr
    (.inr ⟨2, by decide, by decide, by decide +kernel⟩)

-- The first reply is garbled, and the second one is as expected.
def garbledReply : Reactions
  | 0 => [0xFF, 0xF8]
  | _ => text "\r\nOK\r\n"

theorem not_correct_checkAlive :
    ¬∀ (reactions : Reactions) (s : State Unit), Quiet s →
      checkAlive.run.MustReturn Probing.exec (Probing.env reactions false)
        (fun result _ => Correct reactions result) ⟨s, 0⟩ := by
  intro h
  obtain hd | ⟨k, _, hs, ho⟩ :=
    detectable_of_mustReturn HalfTransfer.quiet_init (h garbledReply _ HalfTransfer.quiet_init)
  case inl =>
    have := hd 1 (by decide)
    revert this
    decide +kernel
  case inr =>
    cases k
    case zero => revert ho; decide +kernel
    case succ => exact absurd (hs 0 (Nat.succ_pos _)) (by decide)

end Gsm
