import Mathlib.Data.Nat.Notation
import Mathlib.Data.Int.Notation
import Mathlib.Tactic.Common

namespace Lcd

-- The memory that the address counter refers to.
inductive Ram
  | ddram
  -- The patterns of the user's characters, which are not part of the model.
  | cgram
  deriving DecidableEq

inductive Instruction
  | clear
  | home
  | entryMode (increment shifting : Bool)
  | displayControl (on : Bool)
  | moveCursor (right : Bool)
  | shiftDisplay (right : Bool)
  | functionSet (eightBit twoLines : Bool)
  | setCgramAddress (a : UInt8)
  | setDdramAddress (a : UInt8)
  | nop
  deriving DecidableEq

def has (byte mask : UInt8) : Bool :=
  byte &&& mask ≠ 0

-- An instruction is told by its highest bit.
def decode (byte : UInt8) : Instruction :=
  if has byte 0x80 then .setDdramAddress (byte &&& 0x7F)
  else if has byte 0x40 then .setCgramAddress (byte &&& 0x3F)
  else if has byte 0x20 then .functionSet (has byte 0x10) (has byte 0x08)
  else if has byte 0x10 then
    if has byte 0x08 then .shiftDisplay (has byte 0x04) else .moveCursor (has byte 0x04)
  else if has byte 0x08 then .displayControl (has byte 0x04)
  else if has byte 0x04 then .entryMode (has byte 0x02) (has byte 0x01)
  else if has byte 0x02 then .home
  else if has byte 0x01 then .clear
  else .nop

-- The display controller behind its bus of four lines.
structure Controller where
  eightBit  : Bool
  -- The high nibble of a byte whose low nibble was not latched yet, and the level of RS with it.
  pending   : Option (UInt8 × Bool)
  twoLines  : Bool
  displayOn : Bool
  increment : Bool
  -- Whether a write shifts the display.
  shifting  : Bool
  -- The position in a line at which the visible part starts.
  shift     : ℤ
  ram       : Ram
  ac        : UInt8
  ddram     : UInt8 → UInt8

def space : UInt8 := 0x20

namespace Controller

def next (c : Controller) : UInt8 :=
  match c.ram with
  | .cgram => (c.ac + 1) &&& 0x3F
  | .ddram =>
    if c.twoLines then
      if c.ac = 0x27 then 0x40 else if c.ac = 0x67 then 0x00 else (c.ac + 1) &&& 0x7F
    else
      if c.ac = 0x4F then 0x00 else (c.ac + 1) &&& 0x7F

def prev (c : Controller) : UInt8 :=
  match c.ram with
  | .cgram => (c.ac - 1) &&& 0x3F
  | .ddram =>
    if c.twoLines then
      if c.ac = 0x40 then 0x27 else if c.ac = 0x00 then 0x67 else (c.ac - 1) &&& 0x7F
    else
      if c.ac = 0x00 then 0x4F else (c.ac - 1) &&& 0x7F

def move (c : Controller) (forward : Bool) : Controller :=
  { c with ac := if forward then c.next else c.prev }

-- A display that is shifted to the right shows what is further to the left.
def scroll (c : Controller) (right : Bool) : Controller :=
  { c with shift := if right then c.shift - 1 else c.shift + 1 }

def instruct (c : Controller) : Instruction → Controller
  | .clear                         =>
    { c with ram := .ddram, ac := 0, shift := 0, increment := true, ddram := fun _ => space }
  | .home                          => { c with ram := .ddram, ac := 0, shift := 0 }
  | .entryMode increment shifting  => { c with increment, shifting }
  | .displayControl on             => { c with displayOn := on }
  | .moveCursor right              => c.move right
  | .shiftDisplay right            => c.scroll right
  | .functionSet eightBit twoLines => { c with eightBit, twoLines }
  | .setCgramAddress a             => { c with ram := .cgram, ac := a }
  | .setDdramAddress a             => { c with ram := .ddram, ac := a }
  | .nop                           => c

def store (c : Controller) (byte : UInt8) : Controller :=
  match c.ram with
  | .cgram => c
  | .ddram => { c with ddram := fun a => if a = c.ac then byte else c.ddram a }

def put (c : Controller) (byte : UInt8) : Controller :=
  let c' := (c.store byte).move c.increment
  if c.shifting then c'.scroll !c.increment else c'

def execute (c : Controller) (byte : UInt8) (rs : Bool) : Controller :=
  if rs then c.put byte else c.instruct (decode byte)

def withPending (c : Controller) (p : Option (UInt8 × Bool)) : Controller :=
  { c with pending := p }

-- What can come of a falling edge of EN. In the mode of eight bits the lower lines have some level,
-- and the nibbles of a byte may come with different levels of RS.
def latch (c : Controller) (nibble : UInt8) (rs : Bool) : List Controller :=
  if c.eightBit then
    (List.range 16).map fun low =>
      (c.execute (nibble <<< 4 ||| low.toUInt8) rs).withPending none
  else
    match c.pending with
    | none             => [c.withPending (some (nibble, rs))]
    | some (high, rs') =>
      [rs', rs].map fun rs => (c.execute (high <<< 4 ||| nibble) rs).withPending none

-- The address of the character that is visible at a position.
def address (c : Controller) (line col : ℕ) : UInt8 :=
  let width := if c.twoLines then 40 else 80
  (0x40 * line + ((col + c.shift) % width).toNat).toUInt8

def cell (c : Controller) (line col : ℕ) : UInt8 :=
  if c.displayOn && (c.twoLines || line == 0) then c.ddram (c.address line col) else space

end Controller

-- The controller together with the backpack whose output drives the lines.
structure Display where
  port       : UInt8
  controller : Controller

namespace Display

-- D7 D6 D5 D4 BL EN RW RS
def nibble (port : UInt8) : UInt8 :=
  port >>> 4

def en (port : UInt8) : Bool :=
  port &&& 0x04 ≠ 0

def rs (port : UInt8) : Bool :=
  port &&& 0x01 ≠ 0

-- What can come of a byte that the backpack puts out. A nibble is latched with the levels either
-- before or after the falling edge.
def output (d : Display) (byte : UInt8) : List Display :=
  if en d.port && !en byte then
    [d.port, byte].flatMap fun port =>
      (d.controller.latch (nibble port) (rs port)).map fun c => ⟨byte, c⟩
  else
    [{ d with port := byte }]

end Display

end Lcd
