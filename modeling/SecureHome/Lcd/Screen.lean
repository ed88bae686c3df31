import SecureHome.Lcd.Driver

namespace Lcd

-- The characters that are visible.
abbrev Screen :=
  Fin 2 → Fin 16 → UInt8

namespace Screen

def blank : Screen :=
  fun _ _ => space

def set (s : Screen) (line col : ℕ) (c : UInt8) : Screen :=
  fun l k => if l = line ∧ k = col then c else s l k

-- A string is written from left to right.
def write (s : Screen) (line col : ℕ) : List UInt8 → Screen
  | []        => s
  | c :: str  => (s.set line col c).write line (col + 1) str

end Screen

-- What the calls are supposed to do to the screen.
def Print.apply (s : Screen) : Print → Screen
  | .putChar c col line => fun l k => if l = line.toNat ∧ k = col.toNat then c else s l k
  | .println str line padToWhitespace => fun l k =>
    if l = line.toNat then
      if h : k < str.length then str[k] else if padToWhitespace then space else s l k
    else
      s l k
  | .clearScreen => fun _ _ => space

namespace Screen

variable {s : Screen} {line col : ℕ} {str : List UInt8}

theorem write_apply (l : Fin 2) (k : Fin 16) :
    s.write line col str l k =
      if l = line ∧ col ≤ k then str.getD (k - col) (s l k) else s l k := by
  induction str generalizing s col
  case nil => simp [write]
  case cons c str hi =>
    rw [write, hi, set]
    by_cases hl : l.val = line
    case neg => simp [hl]
    case pos =>
      rcases Nat.lt_trichotomy k col with hk | hk | hk
      · have h₁ : (k : ℕ) ≠ col := by omega
        have h₂ : ¬col ≤ k := by omega
        have h₃ : ¬col + 1 ≤ k := by omega
        simp [hl, h₁, h₂, h₃]
      · have h₃ : ¬col + 1 ≤ col := by omega
        simp [hl, hk, h₃]
      · have h₁ : (k : ℕ) ≠ col := by omega
        have h₂ : col ≤ k := by omega
        have h₃ : col + 1 ≤ k := by omega
        have hc : (k : ℕ) - col = (k - (col + 1)) + 1 := by omega
        simp [hl, h₁, h₂, h₃, hc]

theorem write_append (str' : List UInt8) :
    s.write line col (str ++ str') = (s.write line col str).write line (col + str.length) str' := by
  induction str generalizing s col
  case nil          => rfl
  case cons c _ hi => rw [List.cons_append, write, hi, write, List.length_cons, Nat.add_assoc, Nat.add_comm 1]

-- A line that is printed, with or without the spaces behind the string.
theorem write_println (line : UInt8) :
    s.write line.toNat 0 str = (Print.println str line false).apply s := by
  funext l k
  rw [write_apply]
  by_cases hk : k < str.length <;> simp [Print.apply, hk]

theorem write_println_padded (line : UInt8) :
    s.write line.toNat 0 (str ++ .replicate (16 - str.length) space) =
      (Print.println str line true).apply s := by
  funext l k
  rw [write_apply]
  by_cases hk : k < str.length
  case pos => simp [Print.apply, hk, List.getElem?_append_left hk]
  case neg =>
    have h : (k : ℕ) - str.length < 16 - str.length := by omega
    simp [Print.apply, hk, List.getElem?_append_right (Nat.le_of_not_lt hk), h]

end Screen

namespace Controller

-- The mode that `init` brings the controller to.
structure Ready (c : Controller) : Prop where
  eightBit  : c.eightBit = false
  pending   : c.pending = none
  twoLines  : c.twoLines = true
  displayOn : c.displayOn = true
  increment : c.increment = true
  shifting  : c.shifting = false
  shift     : c.shift = 0

def screen (c : Controller) : Screen :=
  fun l k => c.cell l k

end Controller

def State.screen (s : State) : Screen :=
  s.display.controller.screen

namespace Controller

-- The next character goes to the given position.
structure Cursor (c : Controller) (line col : ℕ) : Prop where
  ram : c.ram = .ddram
  ac  : c.ac = (0x40 * line + col).toUInt8

variable {c : Controller} {line col : ℕ}

theorem Ready.screen_apply (h : c.Ready) (l : Fin 2) (k : Fin 16) :
    c.screen l k = c.ddram (0x40 * l + k : ℕ).toUInt8 := by
  have hk : ((k : ℕ) : ℤ) % 40 = k := Int.emod_eq_of_lt (by omega) (by omega)
  simp [screen, cell, address, h.displayOn, h.twoLines, h.shift, hk]

theorem address_inj {l k : ℕ} (hl : l < 2) (hk : k < 16) (hline : line < 2) (hcol : col < 16) :
    (0x40 * l + k : ℕ).toUInt8 = (0x40 * line + col).toUInt8 ↔ l = line ∧ k = col := by
  constructor
  case mp =>
    intro h
    have h := congrArg UInt8.toNat h
    simp only [Nat.toUInt8_eq, UInt8.toNat_ofNat'] at h
    omega
  case mpr =>
    rintro ⟨rfl, rfl⟩
    rfl

theorem next_address (l : Fin 2) (k : Fin 16) :
    let a := (0x40 * l + k : ℕ).toUInt8
    (if a = 0x27 then 0x40 else if a = 0x67 then 0x00 else (a + 1) &&& 0x7F) =
      (0x40 * l + (k + 1) : ℕ).toUInt8 := by
  revert l k
  decide

-- A character goes to where the cursor is, which then moves on.
theorem Ready.put (h : c.Ready) (hc : c.Cursor line col) (hl : line < 2) (hk : col < 16)
    (byte : UInt8) :
    (c.put byte).Ready ∧ (c.put byte).Cursor line (col + 1) ∧
      (c.put byte).screen = c.screen.set line col byte := by
  have hp : c.put byte = { c.store byte with ac := (c.store byte).next } := by
    simp [Controller.put, Controller.store, hc.ram, h.shifting, move, h.increment]
  have hr : (c.put byte).Ready := by
    rw [hp, Controller.store, hc.ram]
    exact ⟨h.eightBit, h.pending, h.twoLines, h.displayOn, h.increment, h.shifting, h.shift⟩
  refine ⟨hr, ⟨?_, ?_⟩, ?_⟩
  case refine_1 => rw [hp, Controller.store, hc.ram]
  case refine_2 =>
    rw [hp]
    simp only [next, Controller.store, hc.ram, h.twoLines, hc.ac, if_true]
    exact next_address ⟨line, hl⟩ ⟨col, hk⟩
  case refine_3 =>
    funext l k
    rw [hr.screen_apply, Screen.set, h.screen_apply, hp]
    simp only [Controller.store, hc.ram, hc.ac, address_inj l.isLt k.isLt hl hk]

theorem Ready.setDdramAddress (h : c.Ready) (a : UInt8) :
    (c.instruct (.setDdramAddress a)).Ready ∧
      (c.instruct (.setDdramAddress a)).screen = c.screen := by
  have hr : (c.instruct (.setDdramAddress a)).Ready :=
    ⟨h.eightBit, h.pending, h.twoLines, h.displayOn, h.increment, h.shifting, h.shift⟩
  refine ⟨hr, ?_⟩
  funext l k
  rw [hr.screen_apply, h.screen_apply]
  rfl

theorem Ready.clear (h : c.Ready) :
    (c.instruct .clear).Ready ∧ (c.instruct .clear).screen = .blank := by
  have hr : (c.instruct .clear).Ready :=
    ⟨h.eightBit, h.pending, h.twoLines, h.displayOn, rfl, h.shifting, rfl⟩
  refine ⟨hr, ?_⟩
  funext l k
  exact hr.screen_apply l k

theorem decode_address (line : Fin 2) (col : Fin 16) :
    decode (0x80 ||| (offsets.getD line 0 + .ofNat col) &&& 0x7F) =
      .setDdramAddress (0x40 * line + col : ℕ).toUInt8 := by
  revert line col
  decide

end Controller

end Lcd
