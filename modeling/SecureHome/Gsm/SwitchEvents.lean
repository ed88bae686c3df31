import SecureHome.Gsm.Steps

open FreeRTOS Hal Switch

namespace Gsm

-- All tasks may wait for switch events, and some tasks use the driver.
def mayCall {τ : Type} (usesGsm : τ → Bool) (t : τ) (c : Call) : Bool :=
  usesGsm t || c = .notifyWait

variable {τ : Type} [DecidableEq τ] (handle : TypeT → τ)

-- An event of the switch has happened since its task got a notification for the last time.
def isPending (type : TypeT) : List (Entry τ) → Bool
  | []                    => false
  | .switchEvent u :: es  => type = u || isPending type es
  | .take t :: es         => t ≠ handle type && isPending type es
  | .wait t _ :: es       => t ≠ handle type && isPending type es
  | .rxEvent .. :: es     => isPending type es
  | .transact .. :: es    => isPending type es
  | .accept .. :: es      => isPending type es

-- The switches that have notified the task since then.
def fired (t : τ) (es : List (Entry τ)) (type : TypeT) : Bool :=
  handle type = t && isPending handle type es

-- Switch events are not taken by the driver, and the tasks of the switches are told exactly which
-- switches have fired.
def Reported : List (Entry τ) → Prop
  | []                  => True
  | .take t :: es       => (∀ type, fired handle t es type = false) ∧ Reported es
  | .wait t value :: es => (∀ type, handle type = t → value = bits (fired handle t es)) ∧ Reported es
  | _ :: es             => Reported es

-- All switch events so far were reported, or they are going to be reported by the next wait.
structure State.Reports (s : State τ) : Prop where
  reported : Reported handle s.history
  pending type : isPending handle type s.history →
    let n := s.notifications (handle type)
    n.blocked = false ∧ n.notifyWait.1 = (true, bits (fired handle (handle type) s.history))

-- The notification stands for the switches that have fired.
structure Notified (fired : TypeT → Bool) (n : Notification) : Prop where
  value    : n.value = bits fired
  received : n.state = .received ↔ ∃ type, fired type = true
  blocked  : n.state = .received → n.blocked = false

namespace Notified

variable {fired : TypeT → Bool} {n n' : Notification} {type : TypeT}

theorem init : Notified (fun _ => false) .init where
  value    := rfl
  received := by simp [Notification.init]
  blocked  := nofun

theorem irqHandler (h : Notified fired n) (type : TypeT) :
    Notified (fun u => u = type || fired u) (irqHandler type n) where
  value     := by simp [Switch.irqHandler, Notification.notifyFromISR, h.value, bits_update]
  received  := by simp [Switch.irqHandler, Notification.notifyFromISR]
  blocked _ := rfl

theorem expire (h : Notified fired n) : Notified fired { n with blocked := false } where
  value     := h.value
  received  := h.received
  blocked _ := rfl

theorem notifyWaitEnter (h : Notified fired n) : Notified fired n.notifyWaitEnter := by
  unfold Notification.notifyWaitEnter
  split
  case isTrue     => exact h
  case isFalse hs => exact ⟨h.value, by simp [← h.received, hs], nofun⟩

theorem none_of_not_received (h : Notified fired n) (hs : n.state ≠ .received) :
    fired = fun _ => false := by
  funext type
  by_contra hf
  exact hs (h.received.mpr ⟨type, by simpa using hf⟩)

theorem notifyWait (h : Notified fired n) : Notified (fun _ => false) n.notifyWait.2 := by
  unfold Notification.notifyWait
  split
  case isTrue     => exact ⟨rfl, by simp, nofun⟩
  case isFalse hs => exact ⟨h.none_of_not_received hs ▸ h.value, by simp, nofun⟩

end Notified

-- The entries that have nothing to do with the switches.
def Entry.Foreign : Entry τ → Prop
  | .switchEvent _       => False
  | .take t | .wait t _  => ∀ type, handle type ≠ t
  | _                    => True

variable {handle}

theorem Entry.Foreign.isPending {e : Entry τ} {es : List (Entry τ)} (h : e.Foreign handle)
    (type : TypeT) : isPending handle type (e :: es) = Gsm.isPending handle type es := by
  cases e <;> simp_all [Foreign, Gsm.isPending, eq_comm]

theorem Entry.Foreign.fired {e : Entry τ} {es : List (Entry τ)} (h : e.Foreign handle) (t : τ) :
    fired handle t (e :: es) = Gsm.fired handle t es :=
  funext fun type => by rw [Gsm.fired, h.isPending type, Gsm.fired]

theorem Entry.Foreign.reported {e : Entry τ} {es : List (Entry τ)} (h : e.Foreign handle)
    (hr : Reported handle es) : Reported handle (e :: es) := by
  cases e
  case switchEvent => exact h.elim
  case take        => exact ⟨fun type => by simp [Gsm.fired, h type], hr⟩
  case wait        => exact ⟨fun type ht => (h type ht).elim, hr⟩
  all_goals exact hr

namespace SwitchEvents

-- The tasks of the switches do not use the driver.
structure Inv (handle : TypeT → τ) (usesGsm : τ → Bool) (s : State τ) : Prop where
  switches : s.switches = fun type => some (handle type)
  calling  : ∀ t, s.callingTaskHandle = some t → usesGsm t = true
  reported : Reported handle s.history
  notified type : Notified (fired handle (handle type) s.history) (s.notifications (handle type))

variable {usesGsm : τ → Bool} {s s' : State τ} {t : τ} {e : Entry τ} {n : Notification}

namespace Inv

theorem init : Inv handle usesGsm (.init fun type => some (handle type)) where
  switches      := rfl
  calling       := nofun
  reported      := trivial
  notified type := by
    have hf : fired handle (handle type) [] = fun _ => false := by
      funext
      simp [fired, isPending]
    simpa [State.init, hf] using Notified.init

theorem reports (h : Inv handle usesGsm s) : s.Reports handle where
  reported        := h.reported
  pending type hp := by
    have hn := h.notified type
    have hr := hn.received.mpr ⟨type, by simp [fired, hp]⟩
    exact ⟨hn.blocked hr, by simp [Notification.notifyWait, hr, hn.value]⟩

theorem congr (h : Inv handle usesGsm s) (hs : s'.switches = s.switches)
    (hc : s'.callingTaskHandle = s.callingTaskHandle) (hh : s'.history = s.history)
    (hn : s'.notifications = s.notifications) : Inv handle usesGsm s' where
  switches := hs ▸ h.switches
  calling  := hc ▸ h.calling
  reported := hh ▸ h.reported
  notified := hh ▸ hn ▸ h.notified

theorem record (h : Inv handle usesGsm s) (he : e.Foreign handle) :
    Inv handle usesGsm (s.record e) where
  switches      := h.switches
  calling       := h.calling
  reported      := he.reported h.reported
  notified type := by
    have hn := h.notified type
    rwa [← he.fired] at hn

-- The notification of a task may change as long as it still stands for the same switches.
theorem setNotification (h : Inv handle usesGsm s)
    (hn : ∀ type, handle type = t → Notified (fired handle t s.history) n) :
    Inv handle usesGsm (s.setNotification t n) where
  switches      := h.switches
  calling       := h.calling
  reported      := h.reported
  notified type := by
    by_cases ht : handle type = t
    case pos => simpa [State.setNotification, ht] using hn type ht
    case neg => simpa [State.setNotification, ht] using h.notified type

theorem ofForeign (h : Inv handle usesGsm s) (ht : ∀ type, handle type ≠ t) :
    Inv handle usesGsm (s.setNotification t n) :=
  h.setNotification fun type hn => (ht type hn).elim

theorem switchIrq (h : Inv handle usesGsm s) (type : TypeT) :
    Inv handle usesGsm
      ((s.setNotification (handle type) (irqHandler type (s.notifications (handle type)))).record
        (.switchEvent type)) where
  switches   := h.switches
  calling    := h.calling
  reported   := h.reported
  notified u := by
    by_cases hu : handle u = handle type
    case pos =>
      have hf : (fired handle (handle u) (.switchEvent type :: s.history)) =
          fun v => v = type || fired handle (handle u) s.history v := by
        funext v
        by_cases hv : v = type <;> simp [fired, isPending, hv, hu]
      simpa [State.record, State.setNotification, hf, ← hu] using (h.notified u).irqHandler type
    case neg =>
      have hf : fired handle (handle u) (.switchEvent type :: s.history) =
          fired handle (handle u) s.history := by
        funext v
        by_cases hv : v = type
        · simp [fired, hv, Ne.symm hu]
        · simp [fired, isPending, hv]
      simpa [State.record, State.setNotification, hf, hu] using h.notified u

theorem rxEventCallback (h : Inv handle usesGsm s) (hu : ∀ type, usesGsm (handle type) = false)
    (huart : Uart) (size : ℕ) : Inv handle usesGsm ({ s with huart }.rxEventCallback size) := by
  unfold State.rxEventCallback
  split
  case h_1 => exact h.congr rfl rfl rfl rfl
  case h_2 t hc =>
    have ht type : handle type ≠ t := by
      rintro rfl
      simpa [hu type] using h.calling _ hc
    have hs : Inv handle usesGsm { s with huart, rxIdleLineSize := size } := h.congr rfl rfl rfl rfl
    exact (hs.ofForeign ht).record (e := .rxEvent ..) trivial

theorem happens {e : Event τ} (h : Inv handle usesGsm s)
    (hu : ∀ type, usesGsm (handle type) = false) (he : s.Happens e s') : Inv handle usesGsm s' := by
  cases he
  case switchIrq type t hs =>
    rw [h.switches] at hs
    cases hs
    exact h.switchIrq type
  case expire t hb =>
    apply h.setNotification
    rintro type rfl
    exact (h.notified type).expire
  case idleIrq | halfIrq | cpltIrq => exact h.rxEventCallback hu _ _
  all_goals exact h.congr rfl rfl rfl rfl

-- What a task of a switch does.
theorem notifyWait (h : Inv handle usesGsm s) (hr : (s.notifications t).state = .received) :
    Inv handle usesGsm ((s.setNotification t (s.notifications t).notifyWait.2).record
      (.wait t (s.notifications t).value)) where
  switches   := h.switches
  calling    := h.calling
  reported   := by
    refine ⟨?_, h.reported⟩
    rintro type rfl
    exact (h.notified type).value
  notified u := by
    by_cases hu : handle u = t
    case pos =>
      have hf : fired handle t (.wait t (s.notifications t).value :: s.history) = fun _ => false := by
        funext v
        by_cases hv : handle v = t <;> simp [fired, isPending, hv]
      subst hu
      simpa [State.record, State.setNotification, hf] using (h.notified u).notifyWait
    case neg =>
      have hf : fired handle (handle u) (.wait t (s.notifications t).value :: s.history) =
          fired handle (handle u) s.history := by
        funext v
        by_cases hv : handle v = handle u
        · simp [fired, isPending, hv, Ne.symm hu]
        · simp [fired, hv]
      simpa [State.record, State.setNotification, hf, hu] using h.notified u

theorem notifyWaitTimeout (h : Inv handle usesGsm s) (hr : (s.notifications t).state ≠ .received) :
    Inv handle usesGsm (s.setNotification t (s.notifications t).notifyWait.2) := by
  apply h.setNotification
  rintro type rfl
  have hn := h.notified type
  rw [hn.none_of_not_received hr]
  exact hn.notifyWait

theorem performs {o : Op} {r : sig.Ret o} (h : Inv handle usesGsm s)
    (hu : ∀ type, usesGsm (handle type) = false)
    (ho : usesGsm t = true ∨ o = .notifyWaitEnter ∨ o = .notifyWait)
    (hp : s.Performs t o r s') : Inv handle usesGsm s' := by
  have hf (hg : usesGsm t = true) type : handle type ≠ t := by
    rintro rfl
    simp [hu type] at hg
  cases hp
  case notifyWaitEnter =>
    apply h.setNotification
    rintro type rfl
    exact (h.notified type).notifyWaitEnter
  case notifyWait hr        => exact h.notifyWait hr
  case notifyWaitTimeout hr => exact h.notifyWaitTimeout hr
  all_goals
    have ho := ho.resolve_right (by simp)
  case setCallingTaskHandle   => exact ⟨h.switches, by simpa using ho, h.reported, h.notified⟩
  case resetCallingTaskHandle => exact ⟨h.switches, nofun, h.reported, h.notified⟩
  case notifyTakeEnter        => exact h.ofForeign (hf ho)
  case notifyTake             => exact (h.ofForeign (hf ho)).record (hf ho)
  case notifyTakeTimeout      => exact h.ofForeign (hf ho)
  case transacted | accept    => exact h.record trivial
  all_goals exact h.congr rfl rfl rfl rfl

end Inv

-- The tasks that do not use the driver only wait.
theorem uses_of_calls {c : Call} {q : Prog sig Unit}
    (hq : (system (mayCall usesGsm)).calls t c = some q) :
    q.Uses fun o => usesGsm t = true ∨ o = Op.notifyWaitEnter ∨ o = Op.notifyWait := by
  have ⟨hc, hq⟩ := system_calls_eq_some_iff.mp hq
  subst hq
  simp only [mayCall, Bool.or_eq_true, decide_eq_true_eq] at hc
  cases hc
  case inl hu => exact .of_forall (fun _ => .inl hu) _
  case inr hc =>
    subst hc
    exact ⟨.inr (.inl rfl), fun _ => ⟨.inr (.inr rfl), fun _ => trivial⟩⟩

theorem inv_of_reaches {p : Pool sig τ (State τ)} (hu : ∀ type, usesGsm (handle type) = false)
    (h : (system (mayCall usesGsm)).Reaches .any (.idle (.init fun type => some (handle type))) p) :
    Inv handle usesGsm p.shared := by
  refine h.invariant .init (fun _ _ _ hq => uses_of_calls hq) ?ho ?he
  case ho => exact fun _ _ _ _ _ ho hi hm => hi.performs hu ho (State.performs_of_exec hm)
  case he => exact fun _ _ _ hi he => hi.happens hu (State.happens_of_event he)

-- A call of `transact` takes the notification that it finds.
theorem attains_take {allowed : τ → Call → Bool} {txCmd : List UInt8}
    (hr : s.huart.rxState = .ready) (hg : s.huart.gState = .ready) (hf : s.dmaFault = false)
    (hc : txCmd ≠ []) (hv : (s.notifications t).value ≠ 0)
    (hb : (s.notifications t).blocked = false) :
    (system allowed).Attains t (fun _ s' => s'.history = .take t :: s.history)
      (serve (.transact txCmd)) s := by
  open State.Performs in
  refine newBuffer.attains ?_
  refine setCallingTaskHandle.attains ?_
  refine attains (receiveToIdleDma hr hf (by decide)) ?_
  refine attains (transmitDma hg rfl hc) ?_
  refine notifyTakeEnter.attains ?_
  refine attains (notifyTake ?_ ?_) (.here rfl)
  all_goals simp [State.setNotification, Notification.notifyTakeEnter, hv, hb]

-- The event of a switch comes while its task is about to wait for a reply.
theorem exists_not_reports (handle : TypeT → τ) (usesGsm : τ → Bool) (type : TypeT)
    (hu : usesGsm (handle type) = true) :
    ∃ p, (system (mayCall usesGsm)).Reaches .any
      (.idle (.init fun type => some (handle type))) p ∧ ¬p.shared.Reports handle := by
  let s₀ : State τ := .init fun type => some (handle type)
  let s := (s₀.setNotification (handle type) (irqHandler type .init)).record (.switchEvent type)
  have he : (system (mayCall usesGsm)).Reaches .any (.idle s₀) (.idle s) :=
    .event (e := .switchIrq type) trivial rfl
  have hq : (system (mayCall usesGsm)).calls (handle type) (.transact [0]) =
      some (serve (.transact [0])) := by
    simp [system_calls_eq_some_iff, mayCall, hu]
  have hn : s.notifications (handle type) = irqHandler type .init := by
    simp [s, State.record, State.setNotification]
  have hv : (s.notifications (handle type)).value ≠ 0 := by
    rw [hn]
    cases type <;> decide
  have hb : (s.notifications (handle type)).blocked = false := by
    rw [hn]
    rfl
  have ⟨p, hr, hh⟩ := System.Reaches.call_attains (C := .any) (p := .idle s) rfl hq
    (fun _ _ => trivial) (attains_take rfl rfl rfl (by simp) hv hb)
  change p.shared.history = [.take (handle type), .switchEvent type] at hh
  refine ⟨p, he.trans hr, fun h => ?_⟩
  have hf := (hh ▸ h.reported).left type
  simp [fired, isPending] at hf

end SwitchEvents

-- Switch events are reported if and only if the tasks that wait for them do not use the driver.
theorem reports_iff (handle : TypeT → τ) (usesGsm : τ → Bool) :
    (∀ p, (system (mayCall usesGsm)).Reaches .any (.idle (.init fun type => some (handle type))) p →
      p.shared.Reports handle) ↔ ∀ type, usesGsm (handle type) = false := by
  constructor
  case mpr => exact fun hu p h => (SwitchEvents.inv_of_reaches hu h).reports
  case mp =>
    intro h type
    by_contra hu
    have ⟨p, hr, hp⟩ := SwitchEvents.exists_not_reports handle usesGsm type (by simpa using hu)
    exact hp (h p hr)

-- The event of the reed switch is taken for the reply to a command.
theorem not_reports :
    ¬∀ (handle : TypeT → Unit) (usesGsm : Unit → Bool) p,
      (system (mayCall usesGsm)).Reaches .any (.idle (.init fun type => some (handle type))) p →
        p.shared.Reports handle := by
  intro h
  have ⟨p, hr, hp⟩ := (system (τ := Unit) (mayCall fun _ => true)).exists_reaches_of_run .any
    (.idle (.init fun _ => some ())) (fun s => s.history = [.take (), .switchEvent .reed])
    ([.call () (.transact CmdT.at.tx)] ++ List.replicate 4 (.op () 0) ++
      [.event (.switchIrq .reed)] ++ List.replicate 2 (.op () 0)) (by decide +kernel)
  have hh := (h (fun _ => ()) (fun _ => true) p hr).reported
  rw [of_decide_eq_true hp] at hh
  exact absurd (hh.left .reed) (by decide)

end Gsm
