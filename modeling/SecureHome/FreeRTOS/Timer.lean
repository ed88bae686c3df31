import Mathlib.Data.Nat.Notation
import Mathlib.Tactic.Common

namespace FreeRTOS

def configMaxPriorities     := 16
def configTimerTaskPriority := configMaxPriorities - 1
def configTimerQueueLength  := 5

namespace Timer

-- The commands in the timer queue, where all commands for other timers than the modelled one look
-- the same.
inductive Command
  | start
  | stop
  | delete
  | other
  deriving DecidableEq

-- The timer service with one statically allocated one-shot timer.
structure Service where
  queue  : List Command
  -- One of the lists of active timers contains the timer.
  listed : Bool
  -- The timer is listed and its expiry time has been reached.
  due    : Bool
  -- The flag `tmrSTATUS_IS_ACTIVE` in the timer's structure.
  active : Bool
  -- The memory of the timer's structure has been overwritten with zeroes.
  zeroed : Bool
  -- The daemon has processed a command or an expiry for the structure after it was zeroed.
  stale  : Bool

namespace Service

def init : Service where
  queue  := []
  listed := false
  due    := false
  active := false
  zeroed := false
  stale  := false

-- `xTimerGenericCommand` fails, respectively blocks, if the queue is full.
def send (s : Service) (c : Command) : Option Service :=
  if s.queue.length < configTimerQueueLength then
    some { s with queue := s.queue ++ [c] }
  else
    none

-- The passing of time.
def expire (s : Service) : Option Service :=
  if s.listed then some { s with due := true } else none

-- Processes the first command, if there is one, and returns whether this calls the timer's callback.
-- For a start command this is the case if the timer has expired before it is added to the active timer
-- list.
def processReceivedCommand (s : Service) : List (Bool × Service) :=
  match s.queue with
  | []              => [(false, s)]
  | .other :: queue => [(false, { s with queue })]
  | c :: queue      =>
    if s.zeroed then
      [(false, { s with queue, stale := true })]
    else
      let s := { s with queue, listed := false, due := false }
      match c with
      | .start => [(false, { s with listed := true, active := true }),
                   (true, { s with active := false })]
      | _      => [(false, { s with active := false })]

def processExpiredTimer (s : Service) : List (Bool × Service) :=
  if s.due then
    if s.zeroed then
      [(false, { s with listed := false, due := false, stale := true })]
    else
      [(true, { s with listed := false, due := false, active := false })]
  else
    [(false, s)]

-- The daemon is blocked for as long as there is nothing to do.
def Blocked (s : Service) : Prop :=
  s.queue = [] ∧ s.due = false

instance (s : Service) : Decidable s.Blocked := inferInstanceAs (Decidable (_ ∧ _))

-- The timer will expire after the commands in the queue, as long as none of them stops it.
def Pending (s : Service) : Prop :=
  .start ∈ s.queue ∨ s.active

instance (s : Service) : Decidable s.Pending := inferInstanceAs (Decidable (_ ∨ _))

-- The timer exists, and no command in the queue stops or deletes it.
structure Running (s : Service) : Prop where
  zeroed : s.zeroed = false
  stop   : .stop ∉ s.queue
  delete : .delete ∉ s.queue

variable {s s' : Service} {called : Bool}

-- All that can happen when the daemon processes the first command.
inductive Received (s : Service) : Bool → Service → Prop
  | empty (hq : s.queue = []) : Received s false s
  | other {queue} (hq : s.queue = .other :: queue) : Received s false { s with queue }
  | stale {c queue} (hq : s.queue = c :: queue) (hc : c ≠ .other) (hz : s.zeroed = true) :
    Received s false { s with queue, stale := true }
  | start {queue} (hq : s.queue = .start :: queue) (hz : s.zeroed = false) :
    Received s false { s with queue, listed := true, due := false, active := true }
  -- The timer has expired before it was added to the active timer list.
  | late {queue} (hq : s.queue = .start :: queue) (hz : s.zeroed = false) :
    Received s true { s with queue, listed := false, due := false, active := false }
  | stop {c queue} (hq : s.queue = c :: queue) (hc : c = .stop ∨ c = .delete)
    (hz : s.zeroed = false) :
    Received s false { s with queue, listed := false, due := false, active := false }

theorem mem_processReceivedCommand (h : (called, s') ∈ s.processReceivedCommand) :
    s.Received called s' := by
  simp only [processReceivedCommand] at h
  split at h
  case h_1 hq       => cases List.mem_singleton.mp h; exact .empty hq
  case h_2 queue hq => cases List.mem_singleton.mp h; exact .other hq
  case h_3 c queue hc hq =>
    split at h
    case isTrue hz  => cases List.mem_singleton.mp h; exact .stale hq hc hz
    case isFalse hz =>
      have hz := Bool.not_eq_true _ ▸ hz
      cases c
      case start =>
        simp only [List.mem_cons, List.not_mem_nil, or_false, Prod.mk.injEq] at h
        cases h
        case inl h => exact h.left ▸ h.right ▸ .start hq hz
        case inr h => exact h.left ▸ h.right ▸ .late hq hz
      case other => contradiction
      case stop | delete => cases List.mem_singleton.mp h; exact .stop hq (by simp) hz

theorem processReceivedCommand_ne_nil : s.processReceivedCommand ≠ [] := by
  unfold processReceivedCommand
  split
  case h_3 c _ _ _ => split <;> cases c <;> exact nofun
  all_goals exact nofun

-- All that can happen when the daemon processes an expired timer.
inductive Expired (s : Service) : Bool → Service → Prop
  | none (hd : s.due = false) : Expired s false s
  | stale (hd : s.due = true) (hz : s.zeroed = true) :
    Expired s false { s with listed := false, due := false, stale := true }
  | expired (hd : s.due = true) (hz : s.zeroed = false) :
    Expired s true { s with listed := false, due := false, active := false }

theorem mem_processExpiredTimer (h : (called, s') ∈ s.processExpiredTimer) :
    s.Expired called s' := by
  simp only [processExpiredTimer] at h
  split at h
  case isFalse hd => cases List.mem_singleton.mp h; exact .none (Bool.not_eq_true _ ▸ hd)
  case isTrue hd  =>
    split at h <;> cases List.mem_singleton.mp h
    case isTrue hz  => exact .stale hd hz
    case isFalse hz => exact .expired hd (Bool.not_eq_true _ ▸ hz)

theorem processExpiredTimer_ne_nil : s.processExpiredTimer ≠ [] := by
  unfold processExpiredTimer
  split <;> (try split) <;> exact nofun

theorem Received.zeroed (h : s.Received called s') : s'.zeroed = s.zeroed := by
  cases h <;> rfl

theorem Expired.zeroed (h : s.Expired called s') : s'.zeroed = s.zeroed := by
  cases h <;> rfl

theorem mem_queue_of_send {c c' : Command} (h : s.send c = some s') :
    c' ∈ s'.queue ↔ (c' ∈ s.queue ∨ c' = c) := by
  simp only [send] at h
  split at h <;> cases h
  simp

theorem send_eq {c : Command} (h : s.send c = some s') :
    s' = { s with queue := s.queue ++ [c] } := by
  simp only [send] at h
  split at h <;> cases h
  rfl

theorem Running.send {c : Command} (hr : s.Running) (h : s.send c = some s') (hs : c ≠ .stop)
    (hd : c ≠ .delete) : s'.Running where
  zeroed := send_eq h ▸ hr.zeroed
  stop   := by simp [mem_queue_of_send h, hr.stop, hs.symm]
  delete := by simp [mem_queue_of_send h, hr.delete, hd.symm]

theorem Pending.send {c : Command} (hp : s.Pending) (h : s.send c = some s') : s'.Pending := by
  cases hp
  case inl hq => exact .inl ((mem_queue_of_send h).mpr (.inl hq))
  case inr ha => exact .inr (send_eq h ▸ ha)

theorem expire_eq (h : s.expire = some s') : s' = { s with due := true } := by
  simp only [expire] at h
  split at h <;> cases h
  rfl

theorem Running.expire (hr : s.Running) (h : s.expire = some s') : s'.Running :=
  expire_eq h ▸ ⟨hr.zeroed, hr.stop, hr.delete⟩

theorem Pending.expire (hp : s.Pending) (h : s.expire = some s') : s'.Pending :=
  expire_eq h ▸ hp

-- As long as nothing stops the timer, it remains pending until its callback is called.
theorem Received.running (h : s.Received called s') (hr : s.Running) :
    s'.Running ∧ (s.Pending → s'.Pending ∨ called) := by
  have ⟨hz, hs, hd⟩ := hr
  cases h
  case empty => exact ⟨hr, .inl⟩
  case other queue hq =>
    simp only [hq, List.mem_cons, reduceCtorEq, false_or] at hs hd
    exact ⟨⟨hz, hs, hd⟩, fun hp => .inl (by simpa [Pending, hq] using hp)⟩
  case stale hz' => simp [hz] at hz'
  case start queue hq _ =>
    simp only [hq, List.mem_cons, reduceCtorEq, false_or] at hs hd
    exact ⟨⟨hz, hs, hd⟩, fun _ => .inl (.inr rfl)⟩
  case late queue hq _ =>
    simp only [hq, List.mem_cons, reduceCtorEq, false_or] at hs hd
    exact ⟨⟨hz, hs, hd⟩, fun _ => .inr rfl⟩
  case stop c queue hq hc _ => rcases hc with rfl | rfl <;> simp [hq] at hs hd

theorem Expired.running (h : s.Expired called s') (hr : s.Running) :
    s'.Running ∧ (s.Pending → s'.Pending ∨ called) := by
  have ⟨hz, hs, hd⟩ := hr
  cases h
  case none          => exact ⟨hr, .inl⟩
  case stale _ hz'   => simp [hz] at hz'
  case expired _ _ _ => exact ⟨⟨hz, hs, hd⟩, fun _ => .inr rfl⟩

-- The timer exists, and is listed for as long as it is active.
structure Linked (s : Service) : Prop where
  zeroed : s.zeroed = false
  listed : s.listed = s.active
  due    : s.due = true → s.listed = true

-- The timer does not expire anymore, and is not used anymore once its structure is zeroed.
structure Quiet (s : Service) : Prop where
  listed : s.listed = false
  due    : s.due = false
  start  : .start ∉ s.queue
  zeroed : s.zeroed = true → ∀ c ∈ s.queue, c = .other

theorem Linked.send {c : Command} (hl : s.Linked) (h : s.send c = some s') : s'.Linked :=
  send_eq h ▸ ⟨hl.zeroed, hl.listed, hl.due⟩

theorem Linked.expire (hl : s.Linked) (h : s.expire = some s') : s'.Linked := by
  simp only [Service.expire] at h
  split at h <;> cases h
  case isTrue hs => exact ⟨hl.zeroed, hl.listed, fun _ => hs⟩

theorem Quiet.send {c : Command} (hq : s.Quiet) (h : s.send c = some s') (hs : c ≠ .start)
    (hc : s.zeroed = true → c = .other) : s'.Quiet := by
  rw [send_eq h]
  refine ⟨hq.listed, hq.due, by simp [hq.start, hs.symm], fun hz c' hm => ?_⟩
  cases List.mem_append.mp hm
  case inl hm => exact hq.zeroed hz c' hm
  case inr hm => exact List.mem_singleton.mp hm ▸ hc hz

theorem Quiet.expire (hq : s.Quiet) : s.expire = none := by
  simp [Service.expire, hq.listed]

theorem Received.linked (h : s.Received called s') (hl : s.Linked) :
    s'.Linked ∧ s'.stale = s.stale := by
  have ⟨hz, hl', hd⟩ := hl
  cases h
  case empty       => exact ⟨hl, rfl⟩
  case other       => exact ⟨⟨hz, hl', hd⟩, rfl⟩
  case stale hz'   => simp [hz] at hz'
  case start       => exact ⟨⟨hz, rfl, nofun⟩, rfl⟩
  case late | stop => exact ⟨⟨hz, rfl, nofun⟩, rfl⟩

theorem Expired.linked (h : s.Expired called s') (hl : s.Linked) :
    s'.Linked ∧ s'.stale = s.stale := by
  cases h
  case none        => exact ⟨hl, rfl⟩
  case stale hz    => simp [hl.zeroed] at hz
  case expired     => exact ⟨⟨hl.zeroed, rfl, nofun⟩, rfl⟩

theorem Received.quiet (h : s.Received called s') (hq : s.Quiet) :
    s'.Quiet ∧ s'.stale = s.stale ∧ called = false := by
  have ⟨hl, hd, hs, hz⟩ := hq
  cases h
  case empty => exact ⟨hq, rfl, rfl⟩
  case other he =>
    simp only [he, List.mem_cons, reduceCtorEq, false_or] at hs
    exact ⟨⟨hl, hd, hs, fun h c hc => hz h c (he ▸ .tail _ hc)⟩, rfl, rfl⟩
  case stale he hc hz'            => exact absurd (hz hz' _ (he ▸ .head _)) hc
  case start he _ | late he _     => exact absurd (he ▸ .head _) hs
  case stop he _ hz'              =>
    refine ⟨⟨rfl, rfl, fun h => hs (he ▸ .tail _ h), fun h => ?_⟩, rfl, rfl⟩
    exact absurd h (by simp [hz'])

theorem Expired.quiet (h : s.Expired called s') (hq : s.Quiet) :
    s'.Quiet ∧ s'.stale = s.stale ∧ called = false := by
  cases h
  case none                      => exact ⟨hq, rfl, rfl⟩
  case stale hd _ | expired hd _ => exact absurd hd (by simp [hq.due])

-- How often the callback is still going to be called for the starts so far.
def starts (s : Service) : ℕ :=
  s.queue.count .start + s.listed.toNat

theorem starts_send {c : Command} (h : s.send c = some s') :
    s'.starts = s.starts + if c = .start then 1 else 0 := by
  rw [send_eq h]
  simp only [starts, List.count_append, List.count_singleton, beq_iff_eq]
  omega

theorem starts_expire (h : s.expire = some s') : s'.starts = s.starts :=
  expire_eq h ▸ rfl

theorem due_expire (h : s.expire = some s') : s'.due = true → s'.listed = true := by
  simp only [expire] at h
  split at h <;> cases h
  case isTrue hl => exact fun _ => hl

theorem Received.due (h : s.Received called s') (hd : s.due = true → s.listed = true) :
    s'.due = true → s'.listed = true := by
  cases h
  case empty | other | stale => exact hd
  case start | late | stop   => exact nofun

theorem Expired.due (h : s.Expired called s') (hd : s.due = true → s.listed = true) :
    s'.due = true → s'.listed = true := by
  cases h
  case none            => exact hd
  case stale | expired => exact nofun

-- A start calls the callback at most once.
theorem Received.starts (h : s.Received called s') : s'.starts + called.toNat ≤ s.starts := by
  cases h
  case empty => exact Nat.le_refl _
  case other hq => simp [Service.starts, hq]
  case stale c queue hq _ _ =>
    have hc : queue.count .start ≤ (c :: queue).count .start := List.count_le_count_cons
    simp only [Service.starts, hq]
    exact Nat.add_le_add_right hc _
  case start hq _ | late hq _ => simp [Service.starts, hq]
  case stop c queue hq _ _ =>
    have hc : queue.count .start ≤ (c :: queue).count .start := List.count_le_count_cons
    simp only [Service.starts, hq, Bool.toNat_false]
    omega

theorem Expired.starts (h : s.Expired called s') (hd : s.due = true → s.listed = true) :
    s'.starts + called.toNat ≤ s.starts := by
  cases h
  case none           => exact Nat.le_refl _
  case stale hd' _    => simp [Service.starts, hd hd']
  case expired hd' _  => simp [Service.starts, hd hd']

end Service
end Timer
end FreeRTOS
