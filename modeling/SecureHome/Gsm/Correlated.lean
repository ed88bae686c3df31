import SecureHome.Gsm.Calls
import SecureHome.Gsm.Mutex

open FreeRTOS Hal

namespace Gsm

variable {τ : Type}

-- The module sends nothing but its answers to the commands that it has received.
def answers : Pool.Cond sig τ (Event τ) (State τ) where
  op _ _ _ := True
  event
    | .unsolicited _, _ => False
    | _, _              => True

-- Moreover, all commands have been answered when a reception is started.
def settles : Pool.Cond sig τ (Event τ) (State τ) where
  op
    | _, .receiveToIdleDma .., s =>
      s.huart.gState = .ready ∧ s.sim800l.unanswered = [] ∧ s.sim800l.line = []
    | _, _, _ => True
  event := answers.event

instance (t : τ) (o : Op) (s : State τ) : Decidable (answers.op t o s) :=
  inferInstanceAs (Decidable True)

instance (e : Event τ) (s : State τ) : Decidable (answers.event e s) := by
  unfold answers
  cases e <;> infer_instance

instance (t : τ) (o : Op) (s : State τ) : Decidable (settles.op t o s) := by
  unfold settles
  cases o <;> infer_instance

instance (e : Event τ) (s : State τ) : Decidable (settles.event e s) :=
  inferInstanceAs (Decidable (answers.event e s))

-- What was received is from the answer to the command of the same transaction.
def IsAnswer (rxCmd : Buffer) (reply : List Symbol) : Prop :=
  (∀ c ∈ reply, c = .zero ∨ c.origin = some rxCmd) ∧ ∃ c ∈ reply, c.origin = some rxCmd

def Correlated (es : List (Entry τ)) : Prop :=
  ∀ t rxCmd reply, .accept t rxCmd reply ∈ es → IsAnswer rxCmd reply

namespace Correlation

-- What the owner needs for an operation.
def Permits (s : State τ) : Op → Prop
  | .receiveToIdleDma rxCmd _ => rxCmd < s.nextBuffer
  | .accept rxCmd reply       => IsAnswer rxCmd reply
  | o                         => o.Unlocked

-- The buffer is new.
structure Open (rxCmd : Buffer) (s : State τ) : Prop where
  contents : s.buffers rxCmd = .replicate uartIdleLineBufByte .zero
  lt       : rxCmd < s.nextBuffer
  unused   : s.huart.rxState = .busyRx → s.huart.pRxBuffPtr ≠ rxCmd

-- No other command is in transit than the one of this transaction, and no other reply.
structure Clean (rxCmd : Buffer) (s : State τ) : Prop where
  contents   : ∀ c ∈ s.buffers rxCmd, c = .zero ∨ c.origin = some rxCmd
  line       : ∀ c ∈ s.sim800l.line, c.origin = some rxCmd
  unanswered : ∀ data ∈ s.sim800l.unanswered, data = rxCmd
  txFor      : s.huart.gState = .busyTx → s.huart.txFor = rxCmd

-- The statements that leave the UART, the buffers and the module alone.
def KeepsUart : Op → Prop
  | .setCallingTaskHandle | .resetCallingTaskHandle | .loadRxIdleLineSize | .resetRxIdleLineSize
  | .notifyTakeEnter | .notifyTake | .transacted .. => True
  | _ => False

variable {s s' : State τ} {e : Event τ} {starter t u : τ} {n : ℕ} {o : Op} {r : sig.Ret o}
variable {rxCmd : Buffer} {txCmd : List UInt8} {A : State τ → Prop}

theorem Permits.unlocked (h : Permits s o) : o.Unlocked := by
  cases o <;> first | exact h | trivial

theorem Correlated.cons {es : List (Entry τ)} {x : Entry τ} (h : Correlated es)
    (hx : ∀ t rxCmd reply, x = .accept t rxCmd reply → IsAnswer rxCmd reply) :
    Correlated (x :: es) := by
  intro t rxCmd reply hm
  cases hm
  case head => exact hx t rxCmd reply rfl
  case tail hm => exact h t rxCmd reply hm

theorem KeepsUart.permits (ho : KeepsUart o) (s : State τ) : Permits s o := by
  cases o <;> first | exact ho.elim | trivial

theorem Clean.rxByte {c : Symbol} {line : List Symbol} (h : Clean rxCmd s)
    (hl : s.sim800l.line = c :: line) : Clean rxCmd (s.rxByte c line) := by
  have hc : c.origin = some rxCmd := h.line c (hl ▸ List.mem_cons_self)
  refine ⟨?_, fun d hd => h.line d (hl ▸ List.mem_cons_of_mem _ hd), h.unanswered, ?_⟩
  case refine_1 =>
    intro d hd
    simp only [State.rxByte] at hd
    split at hd
    case isFalse => exact h.contents d hd
    case isTrue =>
      by_cases hb : s.huart.pRxBuffPtr = rxCmd
      case neg =>
        rw [Function.update_of_ne (Ne.symm hb)] at hd
        exact h.contents d hd
      case pos =>
        rw [hb, Function.update_self] at hd
        rcases List.mem_or_eq_of_mem_set hd with hd | rfl
        · exact h.contents d hd
        · exact .inr hc
  case refine_2 =>
    simp only [State.rxByte, Uart.rxByte]
    split <;> exact h.txFor

variable [DecidableEq τ]

structure Inv (s : State τ) : Prop where
  locked     : Locked s
  buffer     : s.huart.rxState = .busyRx → s.huart.pRxBuffPtr < s.nextBuffer
  correlated : Correlated s.history

def outline (starter : τ) : Outline τ (State τ) (State τ) :=
  .direct Inv (Respects answers.event starter)

-- What the owner knows.
abbrev Owning (starter t : τ) (n : ℕ) (A : State τ → Prop) (s : State τ) : Prop :=
  Owns starter t n s ∧ A s

-- A property that no event puts an end to.
def Steady (A : State τ → Prop) : Prop :=
  ∀ s e s', A s → answers.event e s → s.Happens e s' → A s'

theorem Inv.rxEventCallback {huart : Uart} {size : ℕ} (h : Inv { s with huart }) :
    Inv ({ s with huart }.rxEventCallback size) := by
  unfold State.rxEventCallback
  split
  · exact h
  · exact ⟨h.locked, h.buffer, Correlated.cons h.correlated nofun⟩

theorem Inv.happens (h : Inv s) (he : s.Happens e s') : Inv s' := by
  cases he
  case switchIrq => exact ⟨h.locked, h.buffer, Correlated.cons h.correlated nofun⟩
  case idleIrq | cpltIrq => exact .rxEventCallback ⟨h.locked, nofun, h.correlated⟩
  case halfIrq => exact .rxEventCallback ⟨h.locked, h.buffer, h.correlated⟩
  case errorIrq => exact ⟨h.locked, nofun, h.correlated⟩
  case rxByte =>
    refine ⟨h.locked, ?_, h.correlated⟩
    simp only [State.rxByte, Uart.rxByte]
    split <;> exact h.buffer
  all_goals exact ⟨h.locked, h.buffer, h.correlated⟩

theorem Inv.performs (h : Inv s) (ho : Permits s o) (hp : s.Performs t o r s') : Inv s' := by
  cases hp <;> try exact ho.elim
  case receiveToIdleDma => exact ⟨h.locked, fun _ => ho, h.correlated⟩
  case newBuffer        => exact ⟨h.locked, fun hr => Nat.lt_succ_of_lt (h.buffer hr), h.correlated⟩
  case halInit | abort  => exact ⟨h.locked, nofun, h.correlated⟩
  case notifyTake | notifyWait | transacted =>
    exact ⟨h.locked, h.buffer, Correlated.cons h.correlated nofun⟩
  case accept =>
    refine ⟨h.locked, h.buffer, Correlated.cons h.correlated ?_⟩
    rintro _ _ _ ⟨⟩
    exact ho
  all_goals exact ⟨h.locked, h.buffer, h.correlated⟩

section Rules

theorem does {P : State τ → Prop} {Q : sig.Ret o → State τ → Prop}
    (hp : (outline starter).Stable t P)
    (h : ∀ s r s', Inv s → P s → settles.op t o s → s.Performs t o r s' →
      (outline starter).Guar t s s' ∧ Q r s') :
    Does (outline starter) (usesDriver starter) settles t P o Q :=
  .direct_perform hp fun s r s' hi hs hc hm => h s r s' hi hs hc (State.performs_of_exec hm)

theorem stable_owns (ha : Steady A) :
    (outline starter).Stable t (Owning starter t n A) := by
  rintro s s' ⟨_, _, hr⟩ ⟨ho, hs⟩
  rcases hr.owned n ho with rfl | ⟨e, hc, he⟩
  · exact ⟨ho, hs⟩
  · exact ⟨ho.congr he.locks.left he.locks.right, ha s e s' hs hc he⟩

-- A statement of the owner.
theorem does_owns {Q : sig.Ret o → State τ → Prop} (ha : Steady A) (ho : ∀ s, A s → Permits s o)
    (h : ∀ s r s', Inv s → A s → settles.op t o s → s.Performs t o r s' → Owns starter t n s' → Q r s') :
    Does (outline starter) (usesDriver starter) settles t (Owning starter t n A) o Q :=
  does (stable_owns ha) fun s r s' hi ⟨hn, hs⟩ hc hp => by
    have ⟨hm, hz⟩ := hp.locks (ho s hs).unlocked
    refine ⟨⟨hi.performs (ho s hs) hp, fun u hu => ?_⟩, h s r s' hi hs hc hp (hn.congr hm hz)⟩
    exact .of_owner hn hi.locked hu (by rw [hm]) (by rw [hz]; exact id)

theorem Open.rxEventCallback {huart : Uart} {size : ℕ} (h : Open rxCmd { s with huart }) :
    Open rxCmd ({ s with huart }.rxEventCallback size) := by
  unfold State.rxEventCallback
  split
  · exact h
  · exact ⟨h.contents, h.lt, h.unused⟩

theorem Clean.rxEventCallback {huart : Uart} {size : ℕ} (h : Clean rxCmd { s with huart }) :
    Clean rxCmd ({ s with huart }.rxEventCallback size) := by
  unfold State.rxEventCallback
  split
  · exact h
  · exact ⟨h.contents, h.line, h.unanswered, h.txFor⟩

theorem steady_open : Steady (Open (τ := τ) rxCmd) := by
  intro s e s' h hc he
  cases he
  case idleIrq | cpltIrq => exact .rxEventCallback ⟨h.contents, h.lt, nofun⟩
  case halfIrq => exact .rxEventCallback ⟨h.contents, h.lt, h.unused⟩
  case errorIrq => exact ⟨h.contents, h.lt, nofun⟩
  case rxByte =>
    refine ⟨?_, h.lt, ?_⟩ <;> simp only [State.rxByte, Uart.rxByte]
    · split
      case isTrue hr  => rw [Function.update_of_ne (h.unused hr.left).symm]; exact h.contents
      case isFalse hr => exact h.contents
    · split <;> exact h.unused
  all_goals exact ⟨h.contents, h.lt, h.unused⟩

theorem steady_clean : Steady (Clean (τ := τ) rxCmd) := by
  intro s e s' h hc he
  cases he
  case unsolicited => exact hc.elim
  case idleIrq | halfIrq | cpltIrq => exact .rxEventCallback ⟨h.contents, h.line, h.unanswered, h.txFor⟩
  case rxByte hl => exact h.rxByte hl
  case endTransmit hg =>
    refine ⟨h.contents, h.line, ?_, nofun⟩
    simpa [or_imp, forall_and, h.txFor hg] using h.unanswered
  case answer hu =>
    have hd := h.unanswered
    rw [hu, List.forall_mem_cons] at hd
    obtain ⟨rfl, hd⟩ := hd
    refine ⟨h.contents, ?_, hd, h.txFor⟩
    simpa [or_imp, forall_and] using h.line
  all_goals exact ⟨h.contents, h.line, h.unanswered, h.txFor⟩

theorem steady_true : Steady fun _ : State τ => True :=
  fun _ _ _ _ _ _ => trivial

theorem KeepsUart.clean (ho : KeepsUart o) (h : Clean rxCmd s) (hp : s.Performs t o r s') :
    Clean rxCmd s' := by
  cases hp <;> first | exact ho.elim | exact { h with }

theorem does_clean (ho : KeepsUart o) :
    Does (outline starter) (usesDriver starter) settles t (Owning starter t n (Clean rxCmd))
      o fun _ => Owning starter t n (Clean rxCmd) :=
  does_owns steady_clean (fun s _ => ho.permits s) fun _ _ _ _ h _ hp hn => ⟨hn, ho.clean h hp⟩

theorem does_any (ho : ∀ s : State τ, Permits s o) :
    Does (outline starter) (usesDriver starter) settles t (Owns starter t n) o
      fun _ => Owns starter t n :=
  (does_owns steady_true (fun s _ => ho s) fun _ _ _ _ _ _ _ hn => hn).weaken
    (fun _ _ h => ⟨h, trivial⟩) fun _ _ _ h => h

theorem exchanges (txCmd : List UInt8) (rxCmd : Buffer) :
    Exchanges (outline starter) (usesDriver starter) settles t txCmd rxCmd
      (Owning starter t n (Open rxCmd)) (Owning starter t n (Open rxCmd))
      (Owning starter t n (Clean rxCmd)) (Owning starter t n (Clean rxCmd))
      (Owning starter t n (Clean rxCmd)) (Owns starter t n)
      (Owning starter t n (Clean rxCmd)) (Owns starter t n)
      fun _ => Owning starter t n (Clean rxCmd) where
  setCallingTaskHandle := does_owns steady_open (fun _ _ => trivial) fun s r s' _ h _ hp hn => by
    cases hp
    exact ⟨hn, { h with }⟩
  receiveToIdleDma     := does_owns steady_open (fun _ h => h.lt) fun s r s' _ h hc hp hn => by
    cases hp
    case receiveToIdleDma =>
      have ⟨hg, hu, hl⟩ := hc
      refine ⟨hn, ?_, by simp [hl], by simp [hu], fun hb => nomatch hg.symm.trans hb⟩
      simp only [h.contents]
      exact fun c hc => .inl (List.eq_of_mem_replicate hc)
    all_goals exact hn
  transmitDma          := does_owns steady_clean (fun _ _ => trivial) fun s r s' _ h _ hp hn => by
    cases hp
    case transmitDma => exact ⟨hn, h.contents, h.line, h.unanswered, fun _ => rfl⟩
    all_goals exact hn
  notifyTakeEnter      := does_clean trivial
  notifyTake           := does_owns steady_clean (fun _ _ => trivial) fun s r s' _ h _ hp hn => by
    cases hp
    case notifyTake hv    => rw [if_neg hv]; exact ⟨hn, { h with }⟩
    case notifyTakeTimeout => exact hn
  abort                := does_any fun _ => trivial
  loadRxIdleLineSize   := does_clean trivial

theorem runs_transact (txCmd : List UInt8) (rxCmd : Buffer) :
    Runs (outline starter) (usesDriver starter) settles t
      (Owning starter t n (Open rxCmd)) (transact txCmd rxCmd)
      (fun _ => Owning starter t n (Clean rxCmd)) (Owns starter t n) :=
  .transact (.exchange (exchanges txCmd rxCmd)) (fun _ => ⟨does_clean trivial, does_clean trivial⟩)
    ⟨does_any fun _ => trivial, does_any fun _ => trivial⟩ (fun _ => does_clean trivial)
    fun _ => does_any fun _ => trivial

theorem does_newBuffer : Does (outline starter) (usesDriver starter) settles t (Owns starter t n)
    .newBuffer fun rxCmd => Owning starter t n (Open rxCmd) := by
  apply (does_owns (o := .newBuffer) (Q := fun rxCmd => Owning starter t n (Open rxCmd)) steady_true
    (fun _ _ => trivial) _).weaken (fun _ _ h => ⟨h, trivial⟩) fun _ _ _ h => h
  intro s r s' hi _ _ hp hn
  cases hp
  exact ⟨hn, Function.update_self .., Nat.lt_succ_self _, fun hr => (hi.buffer hr).ne⟩

theorem does_loadView {size : ℕ} : Does (outline starter) (usesDriver starter) settles t
    (Owning starter t n (Clean rxCmd)) (.loadView rxCmd size)
    fun rx => Owning starter t n fun _ => ∀ c ∈ rx, c = .zero ∨ c.origin = some rxCmd :=
  does_owns steady_clean (fun _ _ => trivial) fun s r s' _ h _ hp hn => by
    cases hp
    exact ⟨hn, fun c hc => h.contents c (List.mem_of_mem_take hc)⟩

theorem does_accept {accepts : List UInt8 → Bool} {rx : List Symbol} (h : NeedsText accepts)
    (hrx : accepts (rx.map Symbol.char) = true) :
    Does (outline starter) (usesDriver starter) settles t
      (Owning starter t n fun _ => ∀ c ∈ rx, c = .zero ∨ c.origin = some rxCmd) (.accept rxCmd rx)
      fun _ => Owns starter t n := by
  refine does_owns (fun _ _ _ h _ _ => h) (fun s hs => ⟨hs, ?_⟩) fun _ _ _ _ _ _ _ hn => hn
  have ⟨_, hc, hn⟩ := h _ hrx
  have ⟨c, hc, he⟩ := List.mem_map.mp hc
  refine ⟨c, hc, (hs c hc).resolve_left ?_⟩
  rintro rfl
  exact hn he.symm

theorem runs_request {accepts : List UInt8 → Bool} (h : NeedsText accepts) (txCmd : List UInt8)
    (err : ErrorT) :
    Runs (outline starter) (usesDriver starter) settles t (Owns starter t n)
      (request txCmd accepts err) (fun _ => Owns starter t n) (Owns starter t n) :=
  .request does_newBuffer (runs_transact txCmd) (fun _ _ => does_loadView)
    (fun _ _ hrx => does_accept h hrx) fun _ _ _ _ h => h.left

theorem pings : Pings (outline starter) (usesDriver starter) settles t (Owns starter t n)
    (Owns starter t n) (Owns starter t n)
    (fun rxBuf => Owning starter t n fun s => rxBuf < s.nextBuffer) (fun _ => Owns starter t n)
    (fun _ => Owns starter t n) fun _ => Owns starter t n where
  setCallingTaskHandle := does_any fun _ => trivial
  newBuffer            := does_newBuffer.weaken (fun _ _ h => h) fun _ _ _ h => ⟨h.left, h.right.lt⟩
  receiveToIdleDma _   := does_owns (fun s e s' h _ he => he.nextBuffer ▸ h) (fun _ h => h)
    fun _ _ _ _ _ _ _ hn => by split <;> exact hn
  transmitDma rxBuf    := (does_any (o := .transmitDma CmdT.at.tx rxBuf) fun _ => trivial).weaken (fun _ _ h => h)
    fun _ _ _ h => by split <;> exact h
  notifyTakeEnter _    := does_any fun _ => trivial
  notifyTake _         := (does_any (o := .notifyTake) fun _ => trivial).weaken (fun _ _ h => h)
    fun _ _ _ h => by split <;> exact h
  abort _              := does_any fun _ => trivial
  loadRxIdleLineSize _ := does_any fun _ => trivial
  loadView _ _         := does_any fun _ => trivial

theorem requests : Requests (outline starter) (usesDriver starter) settles t (Owns starter t n) :=
  fun txCmd _ err h => runs_request h txCmd err

theorem stable_depth : (outline starter).Stable t fun s => s.taskMutex.depth t = n :=
  fun _ _ ⟨_, _, hr⟩ h => hr.depth.trans h

def Ready (t : τ) (n : ℕ) (s : State τ) : Prop :=
  s.taskMutex.depth t = n ∧ s.isInitialized = true

theorem stable_ready : (outline starter).Stable t (Ready t n) :=
  fun _ _ ⟨_, _, hr⟩ h => ⟨hr.depth.trans h.left, hr.initialized h.right⟩

theorem guar_self (h : Inv s) : (outline starter).Guar t s s :=
  ⟨h, fun u _ => .refl s u⟩

-- The task takes the mutex, and nobody else has it.
theorem Inv.guar_take (h : Inv s) (hz : s.isInitialized = true)
    (hd : ∀ u ≠ t, s.taskMutex.depth u = 0) :
    (outline starter).Guar t s { s with taskMutex := .heldBy t n } := by
  refine ⟨⟨fun hz' => by simp [hz] at hz', h.buffer, h.correlated⟩, fun u hu => ?_⟩
  refine ⟨(RecursiveMutex.depth_heldBy_of_ne hu).trans (hd u hu).symm, id, fun k ho => ?_⟩
  rcases ho.exclusive with hk | ⟨_, hi⟩
  · have := ho.depth.symm.trans (hd u hu)
    omega
  · simp [hz] at hi

-- The mutex is given back.
theorem Inv.guar_give (h : Inv s) (hd : 0 < s.taskMutex.depth t) {m : RecursiveMutex τ}
    (hm : ∀ u ≠ t, m.depth u = 0) :
    (outline starter).Guar t s { s with taskMutex := m } := by
  have hn (u : τ) (hu : u ≠ t) : s.taskMutex.depth u = 0 := RecursiveMutex.depth_of_ne hd hu
  refine ⟨⟨fun hz => ?_, h.buffer, h.correlated⟩, fun u hu => ?_⟩
  · have := h.locked hz t
    omega
  · exact .of_owner ⟨rfl, .inl hd⟩ h.locked hu ((hm u hu).trans (hn u hu).symm) id

theorem serves : Serves (outline starter) (usesDriver starter) settles t
    (fun n s => s.taskMutex.depth t = n) (Ready t) where
  isInitialized n := does stable_depth fun s r s' hi h _ hp => by
    cases hp
    refine ⟨guar_self hi, ?_⟩
    cases hz : s.isInitialized
    · exact h
    · exact ⟨h, hz⟩
  takeMutex n := does stable_ready fun s r s' hi h _ hp => by
    cases hp
    case takeMutex hm =>
      have hn : 0 = n := by simpa [hm] using h.left
      exact ⟨hi.guar_take h.right (by simp [hm]), by simp [hn]⟩
    case takeMutexAgain depth hm =>
      obtain rfl : depth = n := by simpa [hm] using h.left
      refine ⟨hi.guar_take h.right fun u hu => ?_, by simp⟩
      rw [hm, RecursiveMutex.depth_heldBy_of_ne hu]
    case takeMutexTimeout => exact ⟨guar_self hi, h.left⟩
  giveMutex n := does stable_depth fun s r s' hi h _ hp => by
    have hm : s.taskMutex = .heldBy t (n + 1) := h ▸ RecursiveMutex.eq_heldBy (h ▸ Nat.succ_pos n)
    cases hp
    case giveMutexNone hn => exact (hn t n hm).elim
    case giveMutex hm' =>
      cases hm'.symm.trans hm
      refine ⟨hi.guar_give (h ▸ Nat.succ_pos n) fun u hu => ?_, ?_⟩
      · split
        · rfl
        · exact RecursiveMutex.depth_heldBy_of_ne hu
      · split
        case isTrue hn  => simp [hn]
        case isFalse hn => simp
  requests n := fun txCmd accepts err h => by
    apply (requests txCmd accepts err h).weaken
    · exact fun s _ hd => ⟨hd, .inl (Nat.succ_pos n)⟩
    · exact fun _ _ _ h => h.depth
    · exact fun _ _ h => h.depth
  ready n s h := h.left

theorem stable_owns_starter : (outline starter).Stable t (Owns starter t n) :=
  fun s s' hi h => (stable_owns steady_true s s' hi ⟨h, trivial⟩).left

theorem does_createMutex : Does (outline starter) (usesDriver starter) settles starter
    (Owns starter starter 0) .createMutex fun _ => Owns starter starter 0 :=
  does stable_owns_starter fun s r s' hi h _ hp => by
    cases hp
    have hz := (h.exclusive.resolve_left (lt_irrefl 0)).right
    refine ⟨⟨⟨fun _ _ => rfl, hi.buffer, hi.correlated⟩, fun u hu => ?_⟩, rfl, h.exclusive⟩
    exact .of_owner h hi.locked hu (hi.locked hz u).symm id

theorem does_setInitialized : Does (outline starter) (usesDriver starter) settles starter
    (Owns starter starter 0) .setInitialized fun _ s => s.taskMutex.depth starter = 0 :=
  does stable_owns_starter fun s r s' hi h _ hp => by
    cases hp
    refine ⟨⟨⟨nofun, hi.buffer, hi.correlated⟩, fun u hu => ?_⟩, h.depth⟩
    exact .of_owner h hi.locked hu rfl fun _ => rfl

theorem runs_halInit : Runs (outline starter) (usesDriver starter) settles t (Owns starter t n)
    (tryHal (perform .halInit)) (fun _ => Owns starter t n) (Owns starter t n) := by
  apply Runs.tryHal
  apply Runs.perform
  apply (does_any (o := .halInit) fun _ => trivial).weaken (fun _ _ h => h)
  intro status s _ h
  split <;> exact h

theorem runs_sendInitSequence : Runs (outline starter) (usesDriver starter) settles t
    (Owns starter t n) sendInitSequence (fun _ => Owns starter t n) (Owns starter t n) :=
  requests.sendInitSequence (.checkAlive pings ⟨does_any fun _ => trivial, does_any fun _ => trivial⟩)

theorem runs_init : Runs (outline starter) (usesDriver starter) settles starter
    (fun s => s.taskMutex.depth starter = 0) init (fun _ s => s.taskMutex.depth starter = 0)
    fun s => s.taskMutex.depth starter = 0 := by
  apply Runs.bind (I := fun b => if b then fun s => s.taskMutex.depth starter = 0 else Owns starter starter 0)
  case h =>
    refine .perform (does stable_depth fun s r s' hi h _ hp => ?_)
    cases hp
    refine ⟨guar_self hi, ?_⟩
    cases hz : s.isInitialized
    · exact ⟨h, .inr ⟨rfl, hz⟩⟩
    · exact h
  case hf =>
    intro isInitialized
    cases isInitialized
    case true  => exact .throw fun _ _ h => h
    case false =>
      have hw (s : State τ) (_ : Inv s) (h : Owns starter starter 0 s) := h.depth
      apply Runs.bind (runs_halInit.weaken (fun _ _ h => h) (fun _ _ _ h => h) hw)
      intro _
      apply Runs.bind (runs_sendInitSequence.weaken (fun _ _ h => h) (fun _ _ _ h => h) hw)
      intro _
      exact (Runs.perform does_createMutex).bind fun _ => .perform does_setInitialized

theorem valid (starter : τ) : (outline starter).Valid (system (usesDriver starter)) settles
    fun t s => s.taskMutex.depth t = 0 where
  event s e s' hi hc he :=
    have he := State.happens_of_event he
    ⟨s', rfl, hi.happens he, fun t => .of_happens hc he t⟩
  stable _ := stable_depth
  call t c q hq := by
    have ⟨hc, hq⟩ := system_calls_eq_some_iff.mp hq
    subst hq
    apply Runs.serve
    cases c <;> try contradiction
    case init =>
      obtain rfl : t = starter := of_decide_eq_true hc
      exact runs_init
    case getSimStatus => exact serves.getSimStatus 0
    case sendSms sms number checkSimStatus => exact serves.sendSms 0 sms number checkSimStatus
    case getImsi => exact (serves.getImsi 0).bind fun _ => .pure fun _ _ h => h

end Rules

end Correlation

open Correlation

variable [DecidableEq τ]

-- Every reply that is accepted belongs to its command as long as no reception is started while
-- there is a reply to come.
theorem correlated_of_settles {starter : τ} {switches : Switch.TypeT → Option τ}
    {p : Pool sig τ (State τ)}
    (h : (system (usesDriver starter)).Reaches settles (.idle (.init switches)) p) :
    Correlated p.shared.history := by
  have hi : Correlation.Inv (.init switches) := ⟨fun _ _ => rfl, nofun, nofun⟩
  have ⟨s, hs⟩ := (valid starter).sound hi (fun _ => rfl) h
  exact hs.shared ▸ hs.inv.correlated

-- The command after the one that finds out whether the module is alive.
theorem correlated_of_init : ∃ s : State Unit, Correlated s.history ∧
    s.history.head? = some (.accept () 1
      [{ char := 79, origin := some 1 }, { char := 75, origin := some 1 }]) := by
  have ⟨p, hr, hp⟩ := (system (usesDriver ())).exists_reaches_of_run settles
    (.idle (.init fun _ => none))
    (fun s => s.history.head? = some (.accept () 1
      [{ char := 79, origin := some 1 }, { char := 75, origin := some 1 }]))
    ([.call () .init] ++ List.replicate 7 (.op () 0) ++
      [.event .endTransmit, .event (.answer (text "OK")), .event .rxByte, .event .rxByte,
        .event .idleLine, .event .idleIrq] ++ List.replicate 10 (.op () 0) ++
      [.event .endTransmit, .event (.answer (text "OK")), .event .rxByte, .event .rxByte,
        .event .idleLine, .event .idleIrq] ++ List.replicate 7 (.op () 0)) (by decide +kernel)
  exact ⟨p.shared, correlated_of_settles hr, of_decide_eq_true hp⟩

-- The answer to a command that has timed out is taken for that to a later one.
theorem not_correlated :
    ¬∀ p, (system (usesDriver ())).Reaches answers (.idle (.init fun _ => none)) p →
      Correlated p.shared.history := by
  intro h
  have ⟨p, hr, hp⟩ := (system (usesDriver ())).exists_reaches_of_run answers
    (.idle (.init fun _ => none))
    (fun s => s.history.head? = some (.accept () 1
      [{ char := 79, origin := some 0 }, { char := 75, origin := some 0 }]))
    ([.call () .init] ++ List.replicate 7 (.op () 0) ++
      [.event .endTransmit, .event (.expire ())] ++ List.replicate 3 (.op () 0) ++
      [.event .endTransmit, .event (.answer (text "OK")), .event .rxByte, .event .rxByte,
        .event .idleLine, .event .idleIrq] ++ List.replicate 10 (.op () 0) ++
      [.event (.answer (text "OK")), .event .rxByte, .event .rxByte, .event .idleLine,
        .event .idleIrq] ++ List.replicate 7 (.op () 0)) (by decide +kernel)
  have ⟨_, c, hc, ho⟩ := h p hr () 1 _ (List.mem_of_head? (of_decide_eq_true hp))
  simp only [List.mem_cons, List.not_mem_nil, or_false] at hc
  rcases hc with rfl | rfl <;> contradiction

end Gsm
