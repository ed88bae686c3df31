import SecureHome.Lcd.Screen
import SecureHome.Lcd.Steps

open Prog

namespace Lcd

open Display

variable {bus : Bus} {i l : Bool} {byte n : UInt8}

-- The controller has the property while EN is low.
def Idle (i : Bool) (P : Controller → Prop) (s : State) : Prop :=
  ∃ c, P c ∧ At i c s

theorem Idle.weaken {P Q : Controller → Prop} {s : State} (h : Idle i P s) (hp : ∀ c, P c → Q c) :
    Idle i Q s :=
  have ⟨c, hc, hs⟩ := h
  ⟨c, hp c hc, hs⟩

theorem sendByte_idle {P Q : Controller → Prop} (hp : ∀ c, P c → c.Synced)
    (hq : ∀ c, P c → Q ((c.execute byte l).withPending none)) :
    FallibleHoare (exec bus) (Idle i P) (sendByte byte (level l)) (fun _ => Idle i Q)
      fun _ => Failed bus i fun s => Idle i P s ∨ Idle i Q s := by
  refine .intro fun c => .and_left fun hc => .weaken (sendByte_spec (hp c hc)) (fun _ h => h) ?_ ?_
  case refine_1 => exact fun _ s hs => ⟨_, hq c hc, hs⟩
  case refine_2 => exact fun _ s hs => hs.weaken fun s hs => hs.imp (⟨c, hc, ·⟩) (⟨_, hq c hc, ·⟩)

namespace Controller

-- All that can come of a falling edge of EN.
inductive Latches (c : Controller) (n : UInt8) (rs : Bool) : Controller → Prop
  | byte {low} (hm : c.eightBit = true) (hl : low ∈ List.range 16) :
    Latches c n rs ((c.execute (n <<< 4 ||| low.toUInt8) rs).withPending none)
  | high (hm : c.eightBit = false) (hp : c.pending = none) :
    Latches c n rs (c.withPending (some (n, rs)))
  | low {high rs' l} (hm : c.eightBit = false) (hp : c.pending = some (high, rs'))
    (hl : l ∈ [rs', rs]) : Latches c n rs ((c.execute (high <<< 4 ||| n) l).withPending none)

theorem latches_of_mem {c c' : Controller} {n : UInt8} {rs : Bool} (h : c' ∈ c.latch n rs) :
    c.Latches n rs c' := by
  unfold latch at h
  split at h
  case isTrue hm =>
    have ⟨_, hl, hc⟩ := List.mem_map.mp h
    exact hc ▸ .byte hm hl
  case isFalse hm =>
    have hm := Bool.eq_false_iff.mpr hm
    split at h
    case h_1 hp => exact List.mem_singleton.mp h ▸ .high hm hp
    case h_2 hp =>
      have ⟨_, hl, hc⟩ := List.mem_map.mp h
      exact hc ▸ .low hm hp hl

-- The nibbles of the function set are understood in the mode of eight bits, whatever the lower lines
-- are.
theorem decode_three {low : ℕ} (h : low ∈ List.range 16) :
    decode ((3 : UInt8) <<< 4 ||| low.toUInt8) = .functionSet true (has low.toUInt8 0x08) := by
  revert low
  decide

theorem decode_two {low : ℕ} (h : low ∈ List.range 16) :
    decode ((2 : UInt8) <<< 4 ||| low.toUInt8) = .functionSet false (has low.toUInt8 0x08) := by
  revert low
  decide

-- What is known of the controller after the first three nibbles of the function set.
def First (c : Controller) : Prop :=
  c.pending = none ∨ c.pending = some (3, false)

def Second (c : Controller) : Prop :=
  c.eightBit = true ∨ c.pending = some (3, false)

def Third (c : Controller) : Prop :=
  c.eightBit = true

variable {c c' : Controller}

theorem first (h : c' ∈ c.latch 3 false) : c'.First := by
  cases latches_of_mem h
  case byte => exact .inl rfl
  case high => exact .inr rfl
  case low  => exact .inl rfl

theorem eightBit_of_byte {low : ℕ} (h : low ∈ List.range 16) :
    ((c.execute ((3 : UInt8) <<< 4 ||| low.toUInt8) false).withPending none).eightBit = true := by
  simp only [withPending_eightBit, execute, Bool.false_eq_true, if_false, decode_three h, instruct]

theorem eightBit_of_low {high : UInt8} {rs l : Bool} (hp : c.pending = some (3, false))
    (h : c.pending = some (high, rs)) (hl : l ∈ [rs, false]) :
    ((c.execute (high <<< 4 ||| 3) l).withPending none).eightBit = true := by
  cases hp.symm.trans h
  have hl : l = false := by simpa using hl
  subst hl
  rfl

theorem First.second (hf : c.First) (h : c' ∈ c.latch 3 false) : c'.Second := by
  cases latches_of_mem h
  case byte hl    => exact .inl (eightBit_of_byte hl)
  case high       => exact .inr rfl
  case low _ hp hl =>
    have hf := hf.resolve_left (hp ▸ nofun)
    exact .inl (eightBit_of_low hf hp hl)

theorem Second.third (hs : c.Second) (h : c' ∈ c.latch 3 false) : c'.Third := by
  cases latches_of_mem h
  case byte hl => exact eightBit_of_byte hl
  case high hm hp =>
    rcases hs with hs | hs
    · exact absurd hs (hm ▸ nofun)
    · exact absurd hs (hp ▸ nofun)
  case low hm hp hl =>
    have hs := hs.resolve_left (hm ▸ nofun)
    exact eightBit_of_low hs hp hl

theorem Third.synced (ht : c.Third) (h : c' ∈ c.latch 2 false) : c'.Synced := by
  cases latches_of_mem h
  case high hm _  => exact nomatch hm.symm.trans ht
  case low hm _ _ => exact nomatch hm.symm.trans ht
  case byte hl    =>
    refine ⟨?_, rfl⟩
    simp only [withPending_eightBit, execute, Bool.false_eq_true, if_false, decode_two hl, instruct]

end Controller

theorem sendNibble_idle {P Q : Controller → Prop} (hn : n < 16)
    (hq : ∀ c c', P c → c' ∈ c.latch n l → Q c') :
    FallibleHoare (exec bus) (Idle i P) (sendNibble n (level l)) (fun _ => Idle i Q)
      fun _ s => s.isInitialized = i := by
  refine .intro fun c => .and_left fun hc => .weaken (sendNibble_spec hn) (fun _ h => h) ?_ ?_
  case refine_1 => exact fun _ s ⟨c', hm, hs⟩ => ⟨c', hq c c' hc hm, hs⟩
  case refine_2 => exact fun _ s hs => hs.isInitialized

-- Whatever the controller is in the middle of, it ends up in the mode of four bits.
theorem sendFunctionSet_spec :
    FallibleHoare (exec bus) (fun s => s.isInitialized = i) sendFunctionSet
      (fun _ => Idle i Controller.Synced) fun _ s => s.isInitialized = i := by
  refine .bind (I := fun _ => Idle i Controller.First) ?_ fun _ =>
    .bind (sendNibble_idle (l := false) (by decide) fun _ _ => Controller.First.second) fun _ =>
    .bind (sendNibble_idle (l := false) (by decide) fun _ _ => Controller.Second.third) fun _ =>
    sendNibble_idle (l := false) (by decide) fun _ _ => Controller.Third.synced
  refine .weaken (sendNibble_spec_of_unknown (l := false) (by decide)) (fun _ h => h) ?_ fun _ _ h => h
  intro _ s ⟨c, c', hm, hs⟩
  exact ⟨c', Controller.first hm, hs⟩

namespace Controller

-- What is visible in the mode that `init` brings the controller to.
structure Shows (screen : Screen) (c : Controller) : Prop extends c.Ready where
  screen : c.screen = screen

structure Writes (screen : Screen) (line col : ℕ) (c : Controller) : Prop
  extends c.Shows screen, c.Cursor line col

theorem Ready.synced {c : Controller} (h : c.Ready) : c.Synced :=
  ⟨h.eightBit, h.pending⟩

theorem Ready.withPending {c : Controller} (h : c.Ready) : c.withPending none = c := by
  rw [← h.pending]
  rfl

-- The controller after the commands of the initialization.
def configured (c : Controller) : Controller :=
  { c with
    eightBit  := false
    pending   := none
    twoLines  := true
    displayOn := true
    increment := true
    shifting  := false
    shift     := 0
    ram       := .ddram
    ac        := 0
    ddram _   := space }

theorem configured_shows (c : Controller) : c.configured.Shows .blank := by
  have hr : c.configured.Ready := ⟨rfl, rfl, rfl, rfl, rfl, rfl, rfl⟩
  refine ⟨hr, ?_⟩
  funext l k
  exact hr.screen_apply l k

end Controller

open Controller

theorem sendCmd_spec {c : Controller} (h : c.Synced) (cmd : UInt8) :
    FallibleHoare (exec bus) (At i c) (sendCmd cmd)
      (fun _ => At i ((c.instruct (decode cmd)).withPending none)) fun _ s => s.isInitialized = i :=
  .weaken (sendByte_spec (l := false) h) (fun _ h => h) (fun _ _ h => h) fun _ _ h => h.isInitialized

theorem sendInitSequence_spec :
    FallibleHoare (exec bus) (fun s => s.isInitialized = i) sendInitSequence
      (fun _ => Idle i (Shows .blank)) fun _ s => s.isInitialized = i := by
  refine .bind sendFunctionSet_spec fun _ => .intro fun c => .and_left fun hc => ?_
  refine .bind (sendCmd_spec hc 0x28) fun _ => .bind (sendCmd_spec ⟨rfl, rfl⟩ 0x08) fun _ =>
    .bind (sendCmd_spec ⟨rfl, rfl⟩ 0x01) fun _ => .bind (sendCmd_spec ⟨rfl, rfl⟩ 0x06) fun _ =>
    .weaken (sendCmd_spec ⟨rfl, rfl⟩ 0x0C) (fun _ h => h) ?_ fun _ _ h => h
  exact fun _ s h => ⟨c.configured, configured_shows c, h⟩

end Lcd
