import SecureHome.Lcd.Driver

open Hal Prog

namespace Lcd

theorem forall_byte {P : UInt8 → Prop} (h : ∀ i : Fin 256, P (.ofNat i)) (byte : UInt8) : P byte :=
  UInt8.ofNat_toNat (x := byte) ▸ h ⟨byte.toNat, byte.toNat_lt⟩

theorem nibbles :
    ∀ byte : UInt8, byte >>> 4 < 16 ∧ byte &&& 0xF < 16 ∧ (byte >>> 4) <<< 4 ||| byte &&& 0xF = byte :=
  forall_byte (by decide +kernel)

-- The level of a line as it is passed to `send_byte`.
def level (rs : Bool) : UInt8 :=
  if rs then 1 else 0

namespace Controller

variable {c : Controller} {byte nibble : UInt8} {rs : Bool}

-- The controller is in the mode of four bits and has latched no part of a byte.
structure Synced (c : Controller) : Prop where
  eightBit : c.eightBit = false
  pending  : c.pending = none

variable {p p' : Option (UInt8 × Bool)}

@[simp]
theorem withPending_eightBit : (c.withPending p).eightBit = c.eightBit :=
  rfl

@[simp]
theorem withPending_pending : (c.withPending p).pending = p :=
  rfl

@[simp]
theorem withPending_withPending : (c.withPending p).withPending p' = c.withPending p' :=
  rfl

theorem store_withPending : (c.withPending p).store byte = (c.store byte).withPending p := by
  cases h : c.ram <;> simp only [store, withPending, h]

theorem put_withPending : (c.withPending p).put byte = (c.put byte).withPending p := by
  simp only [put, store_withPending]
  cases h : c.shifting <;> simp only [withPending, h] <;> rfl

theorem instruct_withPending (i : Instruction) :
    (c.withPending p).instruct i = (c.instruct i).withPending p := by
  cases i <;> rfl

theorem execute_withPending : (c.withPending p).execute byte rs = (c.execute byte rs).withPending p := by
  cases rs
  case false => exact instruct_withPending (decode byte)
  case true  => exact put_withPending

-- The first nibble of a byte is kept.
theorem Synced.latch {c' : Controller} (h : c.Synced) (hc : c' ∈ c.latch nibble rs) :
    c' = c.withPending (some (nibble, rs)) := by
  simpa [Controller.latch, h.eightBit, h.pending] using hc

-- The second nibble completes the byte.
theorem Synced.latch_pending {c' : Controller} {high : UInt8} (h : c.Synced)
    (hc : c' ∈ (c.withPending (some (high, rs))).latch nibble rs) :
    c' = (c.execute (high <<< 4 ||| nibble) rs).withPending none := by
  simpa [Controller.latch, h.eightBit, execute_withPending] using hc

end Controller

namespace Display

-- The levels of the lines during the three parts of a nibble.
structure Pulse (n : UInt8) (level : Bool) (byte : UInt8) : Prop where
  setup      : en byte = false
  rise       : en (byte ||| enBit) = true
  fall       : en ((byte ||| enBit) &&& ~~~enBit) = false
  riseNibble : nibble (byte ||| enBit) = n
  riseRs     : rs (byte ||| enBit) = level
  fallNibble : nibble ((byte ||| enBit) &&& ~~~enBit) = n
  fallRs     : rs ((byte ||| enBit) &&& ~~~enBit) = level

instance (n : UInt8) (l : Bool) (byte : UInt8) : Decidable (Pulse n l byte) :=
  decidable_of_iff (_ ∧ _ ∧ _ ∧ _ ∧ _ ∧ _ ∧ _) ⟨fun ⟨h₁, h₂, h₃, h₄, h₅, h₆, h₇⟩ =>
    ⟨h₁, h₂, h₃, h₄, h₅, h₆, h₇⟩,
    fun ⟨h₁, h₂, h₃, h₄, h₅, h₆, h₇⟩ => ⟨h₁, h₂, h₃, h₄, h₅, h₆, h₇⟩⟩

theorem pulse_of_lt {n : UInt8} {l : Bool} (h : n < 16) : Pulse n l (frame n (level l)) := by
  have hp : ∀ i : Fin 16, ∀ l, Pulse (.ofNat i) l (frame (.ofNat i) (level l)) := by decide
  have hn : n = .ofNat (⟨n.toNat, h⟩ : Fin 16) := UInt8.ofNat_toNat.symm
  exact hn ▸ hp ⟨n.toNat, h⟩ l

variable {d d' : Display} {byte n : UInt8} {l : Bool}

theorem mem_output_of_low (h : d' ∈ d.output byte) (he : en d.port = false) :
    d' = { d with port := byte } := by
  simpa [output, he] using h

theorem mem_output_of_high (h : d' ∈ d.output byte) (he : en byte = true) :
    d' = { d with port := byte } := by
  simpa [output, he] using h

theorem mem_output_of_fall (h : d' ∈ d.output byte) (hl : en d.port = true) (he : en byte = false) :
    d'.port = byte ∧ ∃ port ∈ [d.port, byte],
      d'.controller ∈ d.controller.latch (nibble port) (rs port) := by
  simp only [output, hl, he, Bool.not_false, Bool.and_self, if_true, List.mem_flatMap,
    List.mem_map] at h
  have ⟨port, hp, c, hc, hd⟩ := h
  exact hd ▸ ⟨rfl, port, hp, hc⟩

theorem port_of_mem_output (h : d' ∈ d.output byte) : d'.port = byte := by
  cases he : en d.port
  case false => rw [mem_output_of_low h he]
  case true  =>
    cases hb : en byte
    case false => exact (mem_output_of_fall h he hb).left
    case true  => rw [mem_output_of_high h hb]

end Display

open Display

-- The faults that leave the controller with EN low and at the end of a byte or where it was before
-- the byte. A byte takes six transmissions: the first one may fail in either way, the second one
-- only before it is put out, and the last one only after that.
def settled : Bus := fun s data tr =>
  !s.isInitialized ||
    match s.display.controller.pending, tr with
    | _, .done      => true
    | none, .lost   => !en s.display.port
    | none, .late   => !en s.display.port && !en data
    | some _, .lost => false
    | some _, .late => en s.display.port

-- All faults of the bus are of this kind.
def Bus.Settles (bus : Bus) : Prop :=
  ∀ s data tr, bus s data tr = true → settled s data tr = true

theorem settled_lost {s : State} {data : UInt8} (hi : s.isInitialized = true)
    (h : settled s data .lost = true) :
    s.display.controller.pending = none ∧ en s.display.port = false := by
  cases hp : s.display.controller.pending <;> simp_all [settled]

theorem settled_late {s : State} {data : UInt8} (hi : s.isInitialized = true)
    (h : settled s data .late = true) :
    if s.display.controller.pending = none then en s.display.port = false ∧ en data = false
    else en s.display.port = true := by
  cases hp : s.display.controller.pending <;> simp_all [settled]

-- The backpack has put out a byte.
structure Out (i : Bool) (byte : UInt8) (c : Controller) (s : State) : Prop where
  isInitialized : s.isInitialized = i
  port          : s.display.port = byte
  controller    : s.display.controller = c

-- EN is low.
structure At (i : Bool) (c : Controller) (s : State) : Prop where
  isInitialized : s.isInitialized = i
  en            : en s.display.port = false
  controller    : s.display.controller = c

-- What an error leaves behind.
structure Failed (bus : Bus) (i : Bool) (P : State → Prop) (s : State) : Prop where
  isInitialized : s.isInitialized = i
  settled       : bus.Settles → i = true → P s

variable {bus : Bus} {i l : Bool} {c : Controller} {n byte : UInt8}

theorem Out.at {s : State} (h : Out i byte c s) (he : en byte = false) : At i c s where
  isInitialized := h.isInitialized
  en            := h.port ▸ he
  controller    := h.controller

theorem Failed.weaken {P Q : State → Prop} {s : State} (h : Failed bus i P s) (hp : ∀ s, P s → Q s) :
    Failed bus i Q s where
  isInitialized   := h.isInitialized
  settled hb hi   := hp s (h.settled hb hi)

theorem transmit_spec {data : UInt8} {P Q R : State → Prop}
    (hd : ∀ s d, P s → d ∈ s.display.output data → Q { s with display := d })
    (hl : ∀ s, P s → bus s data .lost = true → R s)
    (ht : ∀ s d, P s → bus s data .late = true → d ∈ s.display.output data →
      R { s with display := d }) :
    FallibleHoare (exec bus) P (transmit data) (fun _ => Q) fun _ => R := by
  refine .bind (I := fun r s => if r = .ok then Q s else R s) (.lift (.perform ?_)) fun r => ?_
  case refine_1 =>
    intro s r s' hp hm
    have ⟨tr, htr, hm⟩ := List.mem_flatMap.mp hm
    have ⟨d, hd', hr⟩ := List.mem_map.mp hm
    have hb := (List.mem_filter.mp htr).right
    cases hr
    cases tr
    case done => exact hd s d hp hd'
    case late => exact ht s d hp hb hd'
    case lost =>
      rw [List.mem_singleton.mp hd']
      exact hl s hp hb
  case refine_2 =>
    cases r
    case ok => exact .pure fun _ h => h
    all_goals exact .throw fun _ h => h

theorem mem_latch_of_fall {s : State} {d : Display} (h : Pulse n l byte)
    (hs : Out i (byte ||| enBit) c s) (hd : d ∈ s.display.output ((byte ||| enBit) &&& ~~~enBit)) :
    ∃ c' ∈ c.latch n l, At i c' { s with display := d } := by
  have ⟨hp, port, hm, hc⟩ := mem_output_of_fall hd (hs.port ▸ h.rise) h.fall
  refine ⟨d.controller, ?_, hs.isInitialized, hp ▸ h.fall, rfl⟩
  have hl : nibble port = n ∧ rs port = l := by
    rcases List.mem_cons.mp hm with hm | hm
    · rw [hm, hs.port]
      exact ⟨h.riseNibble, h.riseRs⟩
    · rw [List.mem_singleton.mp hm]
      exact ⟨h.fallNibble, h.fallRs⟩
  rwa [hl.left, hl.right, hs.controller] at hc

-- A nibble was latched unless it is a high one.
def Partial (i : Bool) (c : Controller) (n : UInt8) (l : Bool) (s : State) : Prop :=
  c.pending = none ∧ At i c s ∨ c.pending ≠ none ∧ ∃ c' ∈ c.latch n l, At i c' s

-- The two transmissions that latch a nibble.
theorem pulse_spec (h : Pulse n l byte) :
    FallibleHoare (exec bus) (Out i byte c)
      (transmit (byte ||| enBit) >>= fun _ => transmit ((byte ||| enBit) &&& ~~~enBit))
      (fun _ s => ∃ c' ∈ c.latch n l, At i c' s)
      fun _ => Failed bus i (Partial i c n l) := by
  refine .bind (I := fun _ => Out i (byte ||| enBit) c) (transmit_spec ?_ ?_ ?_) fun _ =>
    transmit_spec (fun _ _ => mem_latch_of_fall h) ?_ ?_
  case refine_1 =>
    intro s d hs hd
    rw [mem_output_of_high hd h.rise]
    exact ⟨hs.isInitialized, rfl, hs.controller⟩
  case refine_2 =>
    intro s hs hb
    refine ⟨hs.isInitialized, fun hn hi => .inl ⟨?_, hs.at h.setup⟩⟩
    exact hs.controller ▸ (settled_lost (hs.isInitialized.trans hi) (hn _ _ _ hb)).left
  case refine_3 =>
    intro s d hs hb _
    refine ⟨hs.isInitialized, fun hn hi => ?_⟩
    have hf := settled_late (hs.isInitialized.trans hi) (hn _ _ _ hb)
    simp [hs.port, h.setup, h.rise] at hf
  case refine_4 =>
    intro s hs hb
    refine ⟨hs.isInitialized, fun hn hi => ?_⟩
    have hf := (settled_lost (hs.isInitialized.trans hi) (hn _ _ _ hb)).right
    simp [hs.port, h.rise] at hf
  case refine_5 =>
    intro s d hs hb hd
    refine ⟨hs.isInitialized, fun hn hi => .inr ⟨fun hp => ?_, mem_latch_of_fall h hs hd⟩⟩
    have hf := settled_late (hs.isInitialized.trans hi) (hn _ _ _ hb)
    simp [hs.controller, hs.port, hp, h.rise] at hf

theorem sendNibble_spec (h : n < 16) :
    FallibleHoare (exec bus) (At i c) (sendNibble n (level l))
      (fun _ s => ∃ c' ∈ c.latch n l, At i c' s) fun _ => Failed bus i (Partial i c n l) := by
  have hp := pulse_of_lt (l := l) h
  refine .bind (I := fun _ => Out i (frame n (level l)) c) (transmit_spec ?_ ?_ ?_) fun _ => pulse_spec hp
  case refine_1 =>
    intro s d hs hd
    rw [mem_output_of_low hd hs.en]
    exact ⟨hs.isInitialized, rfl, hs.controller⟩
  case refine_2 =>
    intro s hs hb
    refine ⟨hs.isInitialized, fun hn hi => .inl ⟨?_, hs⟩⟩
    exact hs.controller ▸ (settled_lost (hs.isInitialized.trans hi) (hn _ _ _ hb)).left
  case refine_3 =>
    intro s d hs hb hd
    rw [mem_output_of_low hd hs.en]
    refine ⟨hs.isInitialized, fun hn hi => .inl ⟨?_, hs.isInitialized, hp.setup, hs.controller⟩⟩
    by_contra hne
    have hf := settled_late (hs.isInitialized.trans hi) (hn _ _ _ hb)
    simp [hs.controller, hs.en, hne] at hf

-- If EN is high at first, then the first transmission latches something, too.
theorem sendNibble_spec_of_unknown (h : n < 16) :
    FallibleHoare (exec bus) (fun s => s.isInitialized = i) (sendNibble n (level l))
      (fun _ s => ∃ c : Controller, ∃ c' ∈ c.latch n l, At i c' s) fun _ s => s.isInitialized = i := by
  have hp := pulse_of_lt (l := l) h
  refine .bind (I := fun _ s => ∃ c, Out i (frame n (level l)) c s) (transmit_spec ?_ ?_ ?_) fun _ =>
    .intro fun c => .weaken (pulse_spec hp (c := c)) (fun _ h => h) (fun _ _ h => ⟨c, h⟩) ?_
  case refine_1 => exact fun s d hs hd => ⟨d.controller, hs, port_of_mem_output hd, rfl⟩
  case refine_2 => exact fun s hs _ => hs
  case refine_3 => exact fun s d hs _ _ => hs
  case refine_4 => exact fun _ _ h => h.isInitialized

-- A byte that is sent to a controller that has latched no part of another one is executed, and a
-- fault that is settled leaves no part of it behind.
theorem sendByte_spec (h : c.Synced) :
    FallibleHoare (exec bus) (At i c) (sendByte byte (level l))
      (fun _ => At i ((c.execute byte l).withPending none))
      fun _ => Failed bus i fun s => At i c s ∨ At i ((c.execute byte l).withPending none) s := by
  have ⟨hh, hl, hb⟩ := nibbles byte
  refine .bind (I := fun _ => At i (c.withPending (some (byte >>> 4, l))))
    ((sendNibble_spec hh).weaken (fun _ h => h) ?_ ?_) fun _ =>
    (sendNibble_spec hl).weaken (fun _ h => h) ?_ ?_
  case refine_1 =>
    intro _ s ⟨c', hc, hs⟩
    exact h.latch hc ▸ hs
  case refine_2 =>
    intro _ s hs
    refine hs.weaken fun s hs => ?_
    rcases hs with hs | hs
    · exact .inl hs.right
    · exact absurd h.pending hs.left
  case refine_3 =>
    intro _ s ⟨c', hc, hs⟩
    exact hb ▸ h.latch_pending hc ▸ hs
  case refine_4 =>
    intro _ s hs
    refine hs.weaken fun s hs => ?_
    rcases hs with hs | hs
    · exact nomatch hs.left
    · have ⟨_, c', hc, hs⟩ := hs
      exact .inr (hb ▸ h.latch_pending hc ▸ hs)

end Lcd
