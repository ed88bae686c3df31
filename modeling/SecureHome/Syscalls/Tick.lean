import Mathlib.Algebra.Group.Nat.Defs
import Mathlib.Tactic.Common

namespace Syscalls

def clockSpeedHz     := 72000000
def configTickRateHz := 1000

-- The SysTick timer, which counts down and interrupts when it gets to zero.
structure SysTick where
  load    : ℕ
  val     : ℕ
  enabled : Bool

-- The timer TIM2, which counts up once in `psc + 1` cycles of its clock.
structure Tim2 where
  psc       : ℕ
  arr       : ℕ
  prescaler : ℕ
  cnt       : ℕ
  -- The flag UIF and whether an interrupt is raised for it.
  uif       : Bool
  uie       : Bool
  cen       : Bool

structure State where
  sysTick    : SysTick
  xTickCount : UInt32
  tim2       : Tim2
  sHalTickMs : UInt32

-- The timers are stopped after a reset.
def State.reset : State where
  sysTick    := { load := 0, val := 0, enabled := false }
  xTickCount := 0
  tim2       := { psc := 0, arr := 0, prescaler := 0, cnt := 0, uif := false, uie := false, cen := false }
  sHalTickMs := 0

-- The prescalers that `system_init` sets for the buses AHB and APB1.
def hpre  := 1
def ppre1 := 2

-- The timers on APB1 run at twice the speed of the bus, unless its prescaler is one.
def tim2ClockHz :=
  let pclk1 := clockSpeedHz / hpre / ppre1
  if ppre1 = 1 then pclk1 else 2 * pclk1

namespace State

-- The register LOAD has 24 bits.
def vPortSetupTimerInterrupt (s : State) : State :=
  { s with sysTick := { load := clockSpeedHz / configTickRateHz % 2 ^ 24, val := 0, enabled := true } }

-- Setting UG resets the counter and the prescaler.
def halInitTick (s : State) : State :=
  let tim2 := { s.tim2 with psc := 71, arr := 999 }
  let tim2 := { tim2 with prescaler := 0, cnt := 0, uif := true }
  { s with tim2 := { tim2 with uif := false, uie := true, cen := true } }

def halGetTick (s : State) : UInt32 :=
  s.sHalTickMs

-- The handler of the port calls `xTaskIncrementTick`.
def xPortSysTickHandler (s : State) : State :=
  { s with xTickCount := s.xTickCount + 1 }

def tim2IrqHandler (s : State) : State :=
  if s.tim2.uif then
    { s with tim2.uif := false, sHalTickMs := s.sHalTickMs + 1 }
  else
    s

def sysTickCycle (s : State) : State :=
  if s.sysTick.enabled = false then
    s
  else if s.sysTick.val = 0 then
    { s with sysTick.val := s.sysTick.load }
  else
    let s := { s with sysTick.val := s.sysTick.val - 1 }
    if s.sysTick.val = 0 then s.xPortSysTickHandler else s

def tim2Cycle (s : State) : State :=
  if s.tim2.cen = false then
    s
  else if s.tim2.prescaler < s.tim2.psc then
    { s with tim2.prescaler := s.tim2.prescaler + 1 }
  else if s.tim2.cnt < s.tim2.arr then
    { s with tim2.prescaler := 0, tim2.cnt := s.tim2.cnt + 1 }
  else
    let s := { s with tim2.prescaler := 0, tim2.cnt := 0, tim2.uif := true }
    if s.tim2.uie then s.tim2IrqHandler else s

-- A cycle of the core, in which the interrupts are serviced at once.
def coreCycle (s : State) : State :=
  Nat.repeat tim2Cycle (tim2ClockHz / clockSpeedHz) s.sysTickCycle

-- The two timers are started together.
def after : ℕ → State
  | 0     => State.reset.vPortSetupTimerInterrupt.halInitTick
  | n + 1 => (after n).coreCycle

-- The SysTick timer is periodic with a period of one cycle more than it is loaded with.
structure SysTicking (n : ℕ) (s : State) : Prop where
  load       : s.sysTick.load = 72000
  val        : s.sysTick.val = (72001 - n % 72001) % 72001
  enabled    : s.sysTick.enabled = true
  xTickCount : s.xTickCount = (n / 72001).toUInt32

structure Tim2Ticking (n : ℕ) (s : State) : Prop where
  psc        : s.tim2.psc = 71
  arr        : s.tim2.arr = 999
  prescaler  : s.tim2.prescaler = n % 72
  cnt        : s.tim2.cnt = n / 72 % 1000
  uie        : s.tim2.uie = true
  cen        : s.tim2.cen = true
  sHalTickMs : s.sHalTickMs = (n / 72000).toUInt32

variable {n : ℕ} {s : State}

theorem toUInt32_succ (n : ℕ) : (n + 1).toUInt32 = n.toUInt32 + 1 :=
  UInt32.ofNat_add n 1

theorem SysTicking.sysTickCycle (h : SysTicking n s) : SysTicking (n + 1) s.sysTickCycle := by
  have ⟨hl, hv, he, hx⟩ := h
  rw [State.sysTickCycle, if_neg (Bool.not_eq_false _ ▸ he)]
  by_cases h₀ : s.sysTick.val = 0
  case pos =>
    rw [if_pos h₀]
    exact ⟨hl, by dsimp only; omega, he, hx.trans (congrArg _ (by omega))⟩
  case neg =>
    rw [if_neg h₀]
    by_cases h₁ : s.sysTick.val - 1 = 0
    case pos =>
      refine if_pos h₁ ▸ ⟨hl, by dsimp only [xPortSysTickHandler]; omega, he, ?_⟩
      rw [show (n + 1) / 72001 = n / 72001 + 1 by omega, toUInt32_succ, ← hx]
      rfl
    case neg =>
      exact if_neg h₁ ▸ ⟨hl, by dsimp only; omega, he, hx.trans (congrArg _ (by omega))⟩

theorem Tim2Ticking.tim2Cycle (h : Tim2Ticking n s) : Tim2Ticking (n + 1) s.tim2Cycle := by
  have ⟨hp, ha, hr, hc, hi, he, hx⟩ := h
  rw [State.tim2Cycle, if_neg (Bool.not_eq_false _ ▸ he)]
  by_cases h₇₁ : s.tim2.prescaler < s.tim2.psc
  case pos =>
    rw [if_pos h₇₁]
    refine ⟨hp, ha, by dsimp only; omega, by dsimp only; omega, hi, he, ?_⟩
    exact hx.trans (congrArg _ (by omega))
  case neg =>
    rw [if_neg h₇₁]
    by_cases h₉₉₉ : s.tim2.cnt < s.tim2.arr
    case pos =>
      rw [if_pos h₉₉₉]
      refine ⟨hp, ha, by dsimp only; omega, by dsimp only; omega, hi, he, ?_⟩
      exact hx.trans (congrArg _ (by omega))
    case neg =>
      refine if_neg h₉₉₉ ▸ if_pos hi ▸ ⟨hp, ha, ?_, ?_, hi, he, ?_⟩
      case refine_1 => change 0 = _; omega
      case refine_2 => change 0 = _; omega
      rw [show (n + 1) / 72000 = n / 72000 + 1 by omega, toUInt32_succ, ← hx]
      rfl

-- Neither timer has an effect on the other.
theorem SysTicking.tim2Cycle (h : SysTicking n s) : SysTicking n s.tim2Cycle := by
  have he : s.tim2Cycle.sysTick = s.sysTick ∧ s.tim2Cycle.xTickCount = s.xTickCount := by
    dsimp only [State.tim2Cycle, tim2IrqHandler]
    split_ifs <;> exact ⟨rfl, rfl⟩
  exact ⟨he.left ▸ h.load, he.left ▸ h.val, he.left ▸ h.enabled, he.right ▸ h.xTickCount⟩

theorem Tim2Ticking.sysTickCycle (h : Tim2Ticking n s) : Tim2Ticking n s.sysTickCycle := by
  have he : s.sysTickCycle.tim2 = s.tim2 ∧ s.sysTickCycle.sHalTickMs = s.sHalTickMs := by
    dsimp only [State.sysTickCycle, xPortSysTickHandler]
    split_ifs <;> exact ⟨rfl, rfl⟩
  have ⟨hp, ha, hr, hc, hi, hn, hx⟩ := h
  rw [← he.left] at hp ha hr hc hi hn
  exact ⟨hp, ha, hr, hc, hi, hn, he.right ▸ hx⟩

theorem after_ticking (n : ℕ) : SysTicking n (after n) ∧ Tim2Ticking n (after n) := by
  induction n
  case zero => exact ⟨⟨rfl, rfl, rfl, rfl⟩, ⟨rfl, rfl, rfl, rfl, rfl, rfl, rfl⟩⟩
  case succ n hi => exact ⟨hi.left.sysTickCycle.tim2Cycle, hi.right.sysTickCycle.tim2Cycle⟩

theorem after_xTickCount (n : ℕ) : (after n).xTickCount = (n / 72001).toUInt32 :=
  (after_ticking n).left.xTickCount

theorem after_halGetTick (n : ℕ) : (after n).halGetTick = (n / 72000).toUInt32 :=
  (after_ticking n).right.sHalTickMs

-- The two tick counts differ by at most one, modulo `2 ^ 32`.
def Close (s : State) : Prop :=
  s.halGetTick - s.xTickCount = 0 ∨ s.halGetTick - s.xTickCount = 1 ∨
    s.xTickCount - s.halGetTick = 1

instance (s : State) : Decidable s.Close := inferInstanceAs (Decidable (_ ∨ _))

-- The number of ticks by which the count of FreeRTOS is behind: one more for each `72001` cycles
-- that the ticks were too long by.
def Behind (n k : ℕ) : Prop :=
  n / 72000 ≤ n % 72000 + 72001 * k ∧ n % 72000 + 72001 * k < n / 72000 + 72001

theorem Behind.eq (h : Behind n k) : n / 72000 = n / 72001 + k := by
  have ⟨h₁, h₂⟩ := h
  omega

theorem Behind.close_iff_mod (h : Behind n k) :
    (after n).Close ↔ k % 2 ^ 32 = 0 ∨ k % 2 ^ 32 = 1 ∨ k % 2 ^ 32 = 2 ^ 32 - 1 := by
  have hg : (after n).halGetTick.toNat = n / 72000 % 2 ^ 32 := by
    rw [after_halGetTick]
    exact UInt32.toNat_ofNat'
  have hx : (after n).xTickCount.toNat = n / 72001 % 2 ^ 32 := by
    rw [after_xTickCount]
    exact UInt32.toNat_ofNat'
  have he := h.eq
  simp only [Close, ← UInt32.toNat_inj, UInt32.toNat_sub, hg, hx, UInt32.toNat_zero, UInt32.toNat_one]
  omega

theorem exists_behind (n : ℕ) : ∃ k, Behind n k := by
  refine ⟨n / 72000 - n / 72001, ?_⟩
  unfold Behind
  omega

-- The tick counts stay together exactly for as long as the one is not behind by more than a tick, or
-- again by so many that they have come around.
theorem close_iff (n : ℕ) :
    (after n).Close ↔
      ∃ k, Behind n k ∧ (k % 2 ^ 32 = 0 ∨ k % 2 ^ 32 = 1 ∨ k % 2 ^ 32 = 2 ^ 32 - 1) := by
  constructor
  case mp =>
    intro hc
    have ⟨k, hk⟩ := exists_behind n
    exact ⟨k, hk, hk.close_iff_mod.mp hc⟩
  case mpr =>
    intro ⟨k, hk, hc⟩
    exact hk.close_iff_mod.mpr hc

-- They are two ticks apart for the first time after 72.002 seconds.
theorem not_close_first : ¬∀ n, (after n).Close := by
  intro h
  have hb : Behind (72000 * 72002) 2 := ⟨by decide, by decide⟩
  have hc := hb.close_iff_mod.mp (h _)
  contradiction

end State

end Syscalls
