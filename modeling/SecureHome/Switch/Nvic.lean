import Mathlib.Logic.Function.Basic
import SecureHome.Lib.Trace
import SecureHome.Switch
import SecureHome.Utils.Error

namespace Switch

-- The address of the registers of a port.
abbrev Port := UInt32

def gpioA : Port := 0x40010800
def gpioB : Port := 0x40010C00
def gpioC : Port := 0x40011000
def gpioD : Port := 0x40011400

def gpioEnableClk (handle : Port) : ErrorT :=
  if handle = gpioA ∨ handle = gpioB ∨ handle = gpioC ∨ handle = gpioD then .none
  else .errInvalidArg

-- Interrupts of devices have numbers from zero on, the exceptions of the core have negative ones.
abbrev IrqN := Int

-- The interrupts that are enabled.
abbrev Nvic := IrqN → Bool

namespace Nvic

def enableIrq (nvic : Nvic) (irq : IrqN) : Nvic :=
  if 0 ≤ irq then Function.update nvic irq true else nvic

def disableIrq (nvic : Nvic) (irq : IrqN) : Nvic :=
  if 0 ≤ irq then Function.update nvic irq false else nvic

variable {nvic : Nvic} {irq irq' : IrqN}

theorem enableIrq_self (h : 0 ≤ irq) : nvic.enableIrq irq irq = true := by
  rw [enableIrq, if_pos h, Function.update_self]

theorem enableIrq_of_enabled (h : nvic irq' = true) : nvic.enableIrq irq irq' = true := by
  unfold enableIrq
  split
  case isFalse => exact h
  case isTrue  =>
    by_cases he : irq' = irq
    case pos => rw [he, Function.update_self]
    case neg => rwa [Function.update_of_ne he]

theorem disableIrq_of_ne (h : irq' ≠ irq) : nvic.disableIrq irq irq' = nvic irq' := by
  unfold disableIrq
  split
  case isFalse => rfl
  case isTrue  => exact Function.update_of_ne h ..

end Nvic

structure ConfigT (τ : Type) where
  port              : Port
  pin               : UInt16
  irqType           : IrqN
  callingTaskHandle : Option τ
  deriving DecidableEq

def ConfigT.empty {τ : Type} : ConfigT τ where
  port              := 0
  pin               := 0
  irqType           := 0
  callingTaskHandle := none

structure SwitchT (τ : Type) where
  isInitialized : Bool
  config        : ConfigT τ

namespace SwitchT

variable {τ : Type}

def empty : SwitchT τ where
  isInitialized := false
  config        := .empty

def init (config : ConfigT τ) (switch : SwitchT τ) (nvic : Nvic) : ErrorT × SwitchT τ × Nvic :=
  if switch.isInitialized then
    (.errInvalidState, switch, nvic)
  else
    let switch := { switch with config := config }
    match gpioEnableClk switch.config.port with
    | .none => (.none, { switch with isInitialized := true }, nvic.enableIrq switch.config.irqType)
    | err   => (err, switch, nvic)

def deinit (switch : SwitchT τ) (nvic : Nvic) : ErrorT × SwitchT τ × Nvic :=
  if switch.isInitialized then
    (.none, empty, nvic.disableIrq switch.config.irqType)
  else
    (.errInvalidState, switch, nvic)

end SwitchT

inductive Call (ι τ : Type)
  | init (i : ι) (config : ConfigT τ)
  | deinit (i : ι)

-- All instances together with the interrupt controller that they share.
structure Switches (ι τ : Type) where
  instances : ι → SwitchT τ
  nvic      : Nvic

namespace Switches

variable {ι τ : Type}

def start (nvic : Nvic) : Switches ι τ where
  instances _ := .empty
  nvic        := nvic

-- The interrupt of every initialized instance is enabled.
def Armed (s : Switches ι τ) : Prop :=
  ∀ i, (s.instances i).isInitialized = true → s.nvic (s.instances i).config.irqType = true

-- Instances are initialized with the interrupts of devices, and no instance is deinitialized while
-- another one uses its interrupt.
def Exclusive (s : Switches ι τ) : Call ι τ → Prop
  | .init _ config => 0 ≤ config.irqType
  | .deinit i      =>
    (s.instances i).isInitialized = true → ∀ j ≠ i, (s.instances j).isInitialized = true →
      (s.instances j).config.irqType ≠ (s.instances i).config.irqType

variable [DecidableEq ι]

def set (s : Switches ι τ) (i : ι) (r : SwitchT τ × Nvic) : Switches ι τ where
  instances := Function.update s.instances i r.1
  nvic      := r.2

def run (s : Switches ι τ) : Call ι τ → ErrorT × Switches ι τ
  | .init i config =>
    let (err, r) := (s.instances i).init config s.nvic
    (err, s.set i r)
  | .deinit i      =>
    let (err, r) := (s.instances i).deinit s.nvic
    (err, s.set i r)

def Step (c : Call ι τ) (s s' : Switches ι τ) : Prop :=
  s' = (s.run c).2

variable {s : Switches ι τ} {i : ι}

theorem Armed.set {r : SwitchT τ × Nvic} (h : s.Armed)
    (hi : r.1.isInitialized = true → r.2 r.1.config.irqType = true)
    (hj : ∀ j ≠ i, (s.instances j).isInitialized = true → s.nvic (s.instances j).config.irqType = true →
      r.2 (s.instances j).config.irqType = true) : (s.set i r).Armed := by
  intro j
  by_cases he : j = i
  case pos =>
    subst he
    simpa only [Switches.set, Function.update_self] using hi
  case neg =>
    simp only [Switches.set, Function.update_of_ne he]
    exact fun hn => hj j he hn (h j hn)

theorem Armed.init {config : ConfigT τ} (h : s.Armed) (hd : 0 ≤ config.irqType) :
    (s.run (.init i config)).2.Armed := by
  simp only [run, SwitchT.init]
  split
  case isTrue hn  => exact h.set (fun _ => h i hn) fun _ _ _ hj => hj
  case isFalse hn =>
    split
    case h_1 =>
      exact h.set (fun _ => Nvic.enableIrq_self hd) fun _ _ _ hj => Nvic.enableIrq_of_enabled hj
    case h_2 => exact h.set (absurd · hn) fun _ _ _ hj => hj

theorem Armed.deinit (h : s.Armed) (he : s.Exclusive (.deinit i)) :
    (s.run (.deinit i)).2.Armed := by
  simp only [run, SwitchT.deinit]
  split
  case isFalse hn => exact h.set (absurd · hn) fun _ _ _ hj => hj
  case isTrue hn  =>
    refine h.set (fun he => nomatch he) fun j hj hjn ha => ?_
    exact (Nvic.disableIrq_of_ne (he hn j hj hjn)).trans ha

theorem Armed.run {c : Call ι τ} (h : s.Armed) (he : s.Exclusive c) : (s.run c).2.Armed := by
  cases c
  case init   => exact h.init he
  case deinit => exact h.deinit he

-- As long as no interrupt is taken away from an instance that still uses it, all of them are armed.
theorem armed_of_exclusive {nvic : Nvic} {cs : List (Call ι τ)}
    (h : Trace (fun c s s' => s.Exclusive c ∧ Step c s s') (start nvic) cs s) : s.Armed := by
  refine h.invariant (fun _ => Armed) (fun _ hi => nomatch hi) ?_
  intro _ c s₁ s₂ hi ⟨he, hs⟩
  rw [hs]
  exact hi.run he

def exti9To5   : IrqN := 23
def exti15To10 : IrqN := 40

-- The switches at pins 12 and 13 share an interrupt.
def reedConfig : ConfigT ι where
  port              := gpioB
  pin               := 0x1000
  irqType           := exti15To10
  callingTaskHandle := none

def tamperConfig : ConfigT ι :=
  { reedConfig with pin := 0x2000 }

-- The reed switch is deinitialized while the limit switch is at a pin with another interrupt.
theorem armed_of_exclusive_deinit :
    ∃ s : Switches TypeT Unit, (s.instances .limit).isInitialized = true ∧ s.Armed := by
  have ⟨s, h, hi⟩ : ∃ s : Switches TypeT Unit, Trace (fun c s s' => s.Exclusive c ∧ Step c s s')
      (start fun _ => false) [.init .reed reedConfig,
        .init .limit { tamperConfig with pin := 0x0200, irqType := exti9To5 }, .deinit .reed] s ∧
      (s.instances .limit).isInitialized = true := by
    have hr : 0 ≤ exti15To10 := by decide
    have hl : 0 ≤ exti9To5 := by decide
    refine ⟨_, .snoc (.snoc (.snoc .nil ⟨hr, rfl⟩) ⟨hl, rfl⟩) ⟨?_, rfl⟩, by decide⟩
    intro _ j hj _
    cases j
    case reed  => contradiction
    case limit => decide
  exact ⟨s, hi, armed_of_exclusive h⟩

-- After the reed switch was deinitialized, the limit switch is not armed anymore.
theorem not_armed_of_shared_irq :
    ∃ s : Switches TypeT Unit, Trace Step (start fun _ => false)
      [.init .reed reedConfig, .init .limit tamperConfig, .deinit .reed] s ∧
      (s.instances .limit).isInitialized = true ∧ s.nvic (s.instances .limit).config.irqType = false :=
  ⟨_, .snoc (.snoc (.snoc .nil rfl) rfl) rfl, by decide, by decide⟩

end Switches

end Switch
