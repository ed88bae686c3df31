import SecureHome.Lcd.Init

open Prog

namespace Lcd

open Controller Display

variable {bus : Bus} {i l : Bool} {byte : UInt8} {scr : Screen} {line col : ℕ}

theorem sendByte_ready {P Q : Controller → Prop} (hp : ∀ c, P c → c.Ready)
    (hq : ∀ c, P c → (c.execute byte l).Ready ∧ Q (c.execute byte l)) :
    FallibleHoare (exec bus) (Idle i P) (sendByte byte (level l)) (fun _ => Idle i Q)
      fun _ => Failed bus i (Idle i Ready) := by
  refine .weaken (sendByte_idle (Q := fun c => c.Ready ∧ Q c) (fun c hc => (hp c hc).synced) ?_)
    (fun _ h => h) (fun _ s hs => hs.weaken fun _ hc => hc.right) fun _ s hs => hs.weaken fun s hs => ?_
  case refine_1 =>
    intro c hc
    rw [(hq c hc).left.withPending]
    exact hq c hc
  case refine_2 =>
    rcases hs with hs | hs
    · exact hs.weaken hp
    · exact hs.weaken fun _ hc => hc.left

theorem sendAddress_spec {addr : UInt8} (hl : line < 2) (hk : col < 16)
    (ha : addr = offsets.getD line 0 + col.toUInt8) :
    FallibleHoare (exec bus) (Idle i (Shows scr)) (sendCmd (0x80 ||| addr &&& 0x7F))
      (fun _ => Idle i (Writes scr line col)) fun _ => Failed bus i (Idle i Ready) := by
  refine sendByte_ready (l := false) (fun c hc => hc.toReady) fun c hc => ?_
  have hd := decode_address ⟨line, hl⟩ ⟨col, hk⟩
  have ⟨hr, hs⟩ := hc.toReady.setDdramAddress (0x40 * line + col : ℕ).toUInt8
  simp only [execute, Bool.false_eq_true, if_false, ha]
  rw [hd]
  exact ⟨hr, ⟨hr, hs.trans hc.screen⟩, rfl, rfl⟩

theorem sendData_spec (hl : line < 2) (hk : col < 16) (data : UInt8) :
    FallibleHoare (exec bus) (Idle i (Writes scr line col)) (sendData data)
      (fun _ => Idle i (Writes (scr.set line col data) line (col + 1)))
      fun _ => Failed bus i (Idle i Ready) := by
  refine sendByte_ready (l := true) (fun c hc => hc.toReady) fun _ hc => ?_
  have ⟨hr, hn, hs⟩ := hc.toReady.put hc.toCursor hl hk data
  exact ⟨hr, ⟨hr, hs.trans (hc.screen ▸ rfl)⟩, hn⟩

theorem sendString_spec {str : List UInt8} (hl : line < 2) (hk : col + str.length ≤ 16) :
    FallibleHoare (exec bus) (Idle i (Writes scr line col)) (sendString str)
      (fun _ => Idle i (Writes (scr.write line col str) line (col + str.length)))
      fun _ => Failed bus i (Idle i Ready) := by
  induction str generalizing scr col
  case nil => exact .pure fun _ h => h
  case cons data str hi =>
    rw [List.length_cons] at hk
    refine .bind (sendData_spec hl (by omega) data) fun _ => .weaken (hi (by omega)) (fun _ h => h) ?_
      fun _ _ h => h
    rw [List.length_cons, Nat.add_comm str.length, ← Nat.add_assoc]
    exact fun _ _ h => h

theorem sendClear_spec :
    FallibleHoare (exec bus) (Idle i (Shows scr)) (sendCmd 0x01) (fun _ => Idle i (Shows .blank))
      fun _ => Failed bus i (Idle i Ready) :=
  sendByte_ready (l := false) (fun _ hc => hc.toReady) fun _ hc =>
    have ⟨hr, hs⟩ := hc.toReady.clear
    ⟨hr, hr, hs⟩

theorem checkInitialized_spec {P : State → Prop} :
    FallibleHoare (exec bus) P checkInitialized (fun _ s => P s ∧ s.isInitialized = true)
      fun _ s => P s ∧ s.isInitialized = false := by
  refine .bind (I := fun b s => P s ∧ s.isInitialized = b) (.lift (.perform ?_)) fun b => ?_
  case refine_1 =>
    intro s r s' hp hm
    cases List.mem_singleton.mp hm
    exact ⟨hp, rfl⟩
  case refine_2 =>
    cases b
    case false => exact .throw fun _ h => h
    case true  => exact .pure fun _ h => h

-- A call that is not rejected for lack of an initialization.
theorem checked {α : Type} {P : State → Prop} {p : Driver α} {Q : α → State → Prop}
    {R : ErrorT → State → Prop} (hp : ∀ s, P s → s.isInitialized = true)
    (h : FallibleHoare (exec bus) P p Q R) :
    FallibleHoare (exec bus) P (checkInitialized >>= fun _ => p) Q R := by
  refine .bind (checkInitialized_spec (P := P) |>.weaken (fun _ h => h) (fun _ _ h => h) ?_) fun _ =>
    h.weaken (fun _ h => h.left) (fun _ _ h => h) fun _ _ h => h
  exact fun _ s hs => nomatch hs.right.symm.trans (hp s hs.left)

theorem Idle.isInitialized {P : Controller → Prop} {s : State} (h : Idle i P s) :
    s.isInitialized = i :=
  have ⟨_, _, hs⟩ := h
  hs.isInitialized

theorem Idle.failed {P : Controller → Prop} {s : State} (h : Idle i P s) (hp : ∀ c, P c → c.Ready) :
    Failed bus i (Idle i Ready) s where
  isInitialized := h.isInitialized
  settled _ _   := h.weaken hp

theorem putChar_spec {c col line : UInt8} :
    FallibleHoare (exec bus) (Idle true (Shows scr)) (putChar c col line)
      (fun _ => Idle true (Shows ((Print.putChar c col line).apply scr)))
      fun _ => Failed bus true (Idle true Ready) := by
  refine checked (fun _ h => h.isInitialized) ?_
  split
  case isTrue => exact .throw fun _ h => h.failed fun _ hc => hc.toReady
  case isFalse h =>
    have ⟨hc, hl⟩ := not_or.mp h
    have hc : col.toNat < 16 := UInt8.lt_iff_toNat_lt.mp (UInt8.not_le.mp hc)
    have hl : line.toNat < 2 := UInt8.lt_iff_toNat_lt.mp (UInt8.not_le.mp hl)
    have ha : offsets.getD line.toNat 0 + col = offsets.getD line.toNat 0 + col.toNat.toUInt8 := by
      rw [Nat.toUInt8_eq, UInt8.ofNat_toNat]
    exact .bind (sendAddress_spec hl hc ha) fun _ => .weaken (sendData_spec hl hc c) (fun _ h => h)
      (fun _ _ h => h.weaken fun _ hc => hc.toShows) fun _ _ h => h

theorem println_spec {str : List UInt8} {line : UInt8} {padToWhitespace : Bool} :
    FallibleHoare (exec bus) (Idle true (Shows scr)) (println str line padToWhitespace)
      (fun _ => Idle true (Shows ((Print.println str line padToWhitespace).apply scr)))
      fun _ => Failed bus true (Idle true Ready) := by
  refine checked (fun _ h => h.isInitialized) ?_
  split
  case isTrue => exact .throw fun _ h => h.failed fun _ hc => hc.toReady
  case isFalse h =>
    split
    case isTrue => exact .throw fun _ h => h.failed fun _ hc => hc.toReady
    case isFalse =>
      have ⟨hk, hl⟩ := not_or.mp h
      have hl : line.toNat < 2 := UInt8.lt_iff_toNat_lt.mp (UInt8.not_le.mp hl)
      have hk : str.length ≤ 16 := Nat.le_of_not_lt hk
      have ha : offsets.getD line.toNat 0 = offsets.getD line.toNat 0 + Nat.toUInt8 0 :=
        (UInt8.add_zero _).symm
      refine .bind (sendAddress_spec hl (by decide) ha) fun _ => .bind (sendString_spec hl (by omega)) fun _ => ?_
      cases padToWhitespace
      case false =>
        refine .pure fun s h => h.weaken fun c hc => ?_
        rw [← Screen.write_println]
        exact hc.toShows
      case true =>
        refine .weaken (sendString_spec hl ?_) (fun _ h => h) (fun _ s h => h.weaken fun c hc => ?_)
          fun _ _ h => h
        case refine_1 =>
          have hc : columns.toNat = 16 := rfl
          rw [List.length_replicate, hc]
          omega
        case refine_2 =>
          rw [← Screen.write_println_padded, Screen.write_append]
          exact hc.toShows

theorem clearScreen_spec :
    FallibleHoare (exec bus) (Idle true (Shows scr)) clearScreen
      (fun _ => Idle true (Shows (Print.clearScreen.apply scr)))
      fun _ => Failed bus true (Idle true Ready) :=
  checked (fun _ h => h.isInitialized) sendClear_spec

-- A call that returns `NONE` has its effect on the screen.
theorem runPrint_spec (p : Print) :
    FallibleHoare (exec bus) (Idle true (Shows scr)) (runPrint p)
      (fun _ => Idle true (Shows (p.apply scr))) fun _ => Failed bus true (Idle true Ready) := by
  cases p
  case putChar     => exact putChar_spec
  case println     => exact println_spec
  case clearScreen => exact clearScreen_spec

theorem tryHal_spec {P : State → Prop} {p : Driver Hal.Status}
    (h : FallibleHoare (exec bus) P p (fun _ => P) fun _ => P) :
    FallibleHoare (exec bus) P (tryHal p) (fun _ => P) fun _ => P := by
  refine .bind h fun r => ?_
  cases r
  case ok => exact .pure fun _ h => h
  all_goals exact .throw fun _ h => h

theorem i2cInit_spec {P : State → Prop} :
    FallibleHoare (exec bus) P (perform .i2cInit) (fun _ => P) fun _ => P := by
  refine .lift (.perform fun s r s' hs hm => ?_)
  rcases List.mem_cons.mp hm with h | h
  · cases h; exact hs
  · cases List.mem_singleton.mp h; exact hs

theorem i2cDeInit_spec {P : State → Prop} :
    FallibleHoare (exec bus) P (perform .i2cDeInit) (fun _ => P) fun _ => P := by
  refine .lift (.perform fun s r s' hs hm => ?_)
  rcases List.mem_cons.mp hm with h | h
  · cases h; exact hs
  · cases List.mem_singleton.mp h; exact hs

theorem init_spec :
    FallibleHoare (exec bus) (fun s => s.isInitialized = false) init
      (fun _ => Idle true (Shows .blank)) fun _ s => s.isInitialized = false := by
  refine .bind (I := fun b s => b = false ∧ s.isInitialized = false) (.lift (.perform ?_)) fun b =>
    .and_left fun hb => ?_
  case refine_1 =>
    intro s r s' hs hm
    cases List.mem_singleton.mp hm
    exact ⟨hs, hs⟩
  case refine_2 =>
    subst hb
    refine .bind (tryHal_spec i2cInit_spec) fun _ => .bind sendInitSequence_spec fun _ =>
      .lift (.perform ?_)
    intro s r s' ⟨c, hc, hs⟩ hm
    cases List.mem_singleton.mp hm
    exact ⟨c, hc, rfl, hs.en, hs.controller⟩

-- An initialized driver is in step with the controller.
def InStep (s : State) : Prop :=
  s.isInitialized = true → Idle true Ready s

theorem InStep.of_not {s : State} (h : s.isInitialized = false) : InStep s :=
  fun hi => nomatch h.symm.trans hi

theorem init_rejected {P : State → Prop} :
    FallibleHoare (exec bus) (fun s => P s ∧ s.isInitialized = true) init (fun _ _ => False)
      fun _ => P := by
  refine .bind (I := fun b s => b = true ∧ P s) (.lift (.perform ?_)) fun b => .and_left fun hb => ?_
  case refine_1 =>
    intro s r s' hs hm
    cases List.mem_singleton.mp hm
    exact hs.symm
  case refine_2 =>
    subst hb
    exact .throw fun _ h => h

-- A call that is rejected for lack of an initialization.
theorem unchecked {α : Type} {p : Driver α} :
    FallibleHoare (exec bus) (fun s => s.isInitialized = false) (checkInitialized >>= fun _ => p)
      (fun _ _ => False) fun _ s => s.isInitialized = false := by
  refine .bind (checkInitialized_spec (P := fun s => s.isInitialized = false) |>.weaken (fun _ h => h)
    (fun _ _ h => h) fun _ _ h => h.left) fun _ => ?_
  exact fun s _ _ hs _ => nomatch hs.left.symm.trans hs.right

theorem runPrint_rejected (p : Print) :
    FallibleHoare (exec bus) (fun s => s.isInitialized = false) (runPrint p) (fun _ _ => False)
      fun _ s => s.isInitialized = false := by
  cases p
  case putChar     => exact unchecked
  case println     => exact unchecked
  case clearScreen => exact unchecked

theorem Idle.shows {s : State} (h : Idle i Ready s) : ∃ scr, Idle i (Shows scr) s :=
  have ⟨c, hc, hs⟩ := h
  ⟨c.screen, c, ⟨hc, rfl⟩, hs⟩

theorem deinit_inStep :
    FallibleHoare (exec bus) InStep deinit (fun _ => InStep) fun _ => InStep := by
  refine .bind (checkInitialized_spec (P := InStep) |>.weaken (fun _ h => h) (fun _ _ h => h.left)
    fun _ _ h => h.left) fun _ => .bind (tryHal_spec i2cDeInit_spec) fun _ => .lift (.perform ?_)
  intro s r s' _ hm
  cases List.mem_singleton.mp hm
  exact .of_not rfl

theorem backlightOn_inStep {on : Bool} :
    FallibleHoare (exec bus) InStep (backlightOn on) (fun _ => InStep) fun _ => InStep := by
  refine .bind (checkInitialized_spec (P := InStep) |>.weaken (fun _ h => h) (fun _ _ h => h.left)
    fun _ _ h => h.left) fun _ => .lift (.perform ?_)
  intro s r s' hs hm
  cases List.mem_singleton.mp hm
  exact fun hi => have ⟨c, hc, hs⟩ := hs hi; ⟨c, hc, hi, hs.en, hs.controller⟩

variable {s s' s₀ : State}

theorem Step.init_inStep {r : Except ErrorT Unit} (h : Step bus (.init, r) s s') (hs : InStep s) :
    InStep s' := by
  cases hi : s.isInitialized
  case false =>
    have h := init_spec s r s' hi h
    cases r
    case ok    => exact fun _ => h.weaken fun _ hc => hc.toReady
    case error => exact .of_not h
  case true =>
    have h := init_rejected s r s' ⟨hs, hi⟩ h
    cases r
    case ok    => exact h.elim
    case error => exact h

theorem Step.print_inStep {p : Print} {r : Except ErrorT Unit} (hb : bus.Settles)
    (h : Step bus (.print p, r) s s') (hs : InStep s) : InStep s' := by
  cases hi : s.isInitialized
  case false =>
    have h := runPrint_rejected p s r s' hi h
    cases r
    case ok    => exact h.elim
    case error => exact .of_not h
  case true =>
    have ⟨_, hc⟩ := (hs hi).shows
    have h := runPrint_spec p s r s' hc h
    cases r
    case ok    => exact fun _ => h.weaken fun _ hc => hc.toReady
    case error => exact fun _ => h.settled hb rfl

theorem Step.inStep {l : Call × Except ErrorT Unit} (hb : bus.Settles) (h : Step bus l s s')
    (hs : InStep s) : InStep s' := by
  rcases l with ⟨c, r⟩
  cases c
  case init    => exact h.init_inStep hs
  case print p => exact h.print_inStep hb hs
  case deinit =>
    have h := deinit_inStep s r s' hs h
    cases r <;> exact h
  case backlightOn =>
    have h := backlightOn_inStep s r s' hs h
    cases r <;> exact h

theorem Idle.screen {scr : Screen} (h : Idle i (Shows scr) s) : s.screen = scr := by
  have ⟨c, hc, hs⟩ := h
  rw [State.screen, hs.controller, hc.screen]

-- A call that returns `NONE` was not rejected.
theorem Step.screen {p : Print} (h : Step bus (.print p, .ok ()) s s') (hs : InStep s) :
    s'.screen = p.apply s.screen := by
  cases hi : s.isInitialized
  case false => exact (runPrint_rejected p s _ s' hi h).elim
  case true  =>
    have ⟨scr, hc⟩ := (hs hi).shows
    have h : Idle true (Shows (p.apply scr)) s' := runPrint_spec p s _ s' hc h
    rw [h.screen, hc.screen]

-- After an initialization, the screen is what the calls make of a blank one.
theorem screen_of_trace {s₁ : State} (ps : List Print) (hi : Step anyBus (.init, .ok ()) s₀ s₁)
    (h : Trace (Step anyBus) s₁ (ps.map fun p => (.print p, .ok ())) s) :
    s.screen = ps.foldl Print.apply .blank := by
  have h₁ : Idle true (Shows .blank) s₁ := by
    cases hn : s₀.isInitialized
    case false => exact init_spec s₀ _ s₁ hn hi
    case true  => exact (init_rejected (P := fun _ => True) s₀ _ s₁ ⟨trivial, hn⟩ hi).elim
  refine Idle.screen (i := true) (h.invariant (fun ls s => ∀ ps : List Print,
    ls = ps.map (fun p => (.print p, .ok ())) → Idle true (Shows (ps.foldl Print.apply .blank)) s)
    ?_ ?_ ps rfl)
  case refine_1 =>
    intro ps hp
    rw [List.map_eq_nil_iff.mp hp.symm]
    exact h₁
  case refine_2 =>
    intro ls l s s' hs hl ps hp
    have ⟨ps', q, hps, hls, hq⟩ := List.append_eq_map_iff.mp hp
    have ⟨p, hqp, hlp⟩ := List.map_eq_singleton_iff.mp hq
    rw [hps, hqp, List.foldl_append]
    subst hlp
    exact runPrint_spec p s _ s' (hs ps' hls.symm) hl

-- A display that was reset in the middle of a byte.
def midByte : State where
  isInitialized := false
  led           := false
  display       :=
    { port       := 0
      controller :=
        { eightBit  := false
          pending   := some (0x4, true)
          twoLines  := false
          displayOn := false
          increment := false
          shifting  := true
          shift     := 7
          ram       := .cgram
          ac        := 0x11
          ddram a   := a } }

theorem screen_of_midByte :
    let p  := Print.println [0x48, 0x69] 1 true
    let s₁ := midByte.after anyBus .init []
    let s₂ := s₁.after anyBus (.print p) []
    s₂.screen = p.apply .blank := by
  intro p s₁ s₂
  have h₁ : Step anyBus (.init, .ok ()) midByte s₁ := step_of_returns (by decide +kernel)
  have h₂ : Step anyBus (.print p, .ok ()) s₁ s₂ := step_of_returns (by decide +kernel)
  exact screen_of_trace [p] h₁ (.single h₂)

-- As long as the faults of the bus are settled, each call finds the controller at the start of a byte
-- and has its effect if it returns `NONE`.
theorem screen_of_settled {ls : List (Call × Except ErrorT Unit)} (h₀ : s₀.isInitialized = false)
    (h : Trace (Step settled) s₀ ls s) :
    (s.isInitialized = true → s.display.controller.Synced ∧ en s.display.port = false) ∧
      ∀ p s', Step settled (.print p, .ok ()) s s' → s'.screen = p.apply s.screen := by
  have hs : InStep s := h.invariant (fun _ => InStep) (.of_not h₀) fun _ _ _ _ hs hl =>
    hl.inStep (fun _ _ _ h => h) hs
  refine ⟨fun hi => ?_, fun _ _ hp => hp.screen hs⟩
  have ⟨c, hc, ha⟩ := hs hi
  exact ⟨ha.controller ▸ hc.synced, ha.en⟩

-- The first transmission of a character fails, after which the character is written.
theorem screen_of_settled_failure :
    let s₁ := midByte.after settled .init []
    let s₂ := s₁.after settled (.print (.putChar 0x41 3 1)) [0, 0, 0, 0, 0, 0, 0, 1]
    let s₃ := s₂.after settled (.print (.putChar 0x41 3 1)) []
    s₃.screen = (Print.putChar 0x41 3 1).apply s₂.screen := by
  intro s₁ s₂ s₃
  have h₁ : Step settled (.init, .ok ()) midByte s₁ := step_of_returns (by decide +kernel)
  have h₂ : Step settled (.print (.putChar 0x41 3 1), .error .errTimeout) s₁ s₂ :=
    step_of_returns (by decide +kernel)
  have h₃ : Step settled (.print (.putChar 0x41 3 1), .ok ()) s₂ s₃ :=
    step_of_returns (by decide +kernel)
  exact (screen_of_settled rfl (.append (.single h₁) (.single h₂))).right _ s₃ h₃

-- A controller that has latched the first nibble of an address takes the next one for the second.
theorem not_screen_of_failure :
    let s₁ := midByte.after anyBus .init []
    let s₂ := s₁.after anyBus (.print (.putChar 0x41 0 0)) [0, 0, 0, 0, 1]
    let s₃ := s₂.after anyBus (.print (.putChar 0x42 0 0)) []
    Step anyBus (.init, .ok ()) midByte s₁ ∧
      Step anyBus (.print (.putChar 0x41 0 0), .error .errTimeout) s₁ s₂ ∧
      Step anyBus (.print (.putChar 0x42 0 0), .ok ()) s₂ s₃ ∧
      s₂.display.controller.pending ≠ none ∧
      s₃.screen ≠ (Print.putChar 0x42 0 0).apply s₂.screen := by
  refine ⟨step_of_returns (by decide +kernel), step_of_returns (by decide +kernel),
    step_of_returns (by decide +kernel), by decide +kernel, fun h => ?_⟩
  have hc : ∀ s : Screen, (Print.putChar 0x42 0 0).apply s 0 0 = 0x42 := fun _ => rfl
  have h := (congrFun (congrFun h 0) 0).trans (hc _)
  revert h
  decide +kernel

end Lcd
