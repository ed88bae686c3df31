import SecureHome.Ascon.Permutation
import SecureHome.Lib.ArmV7M
import Mathlib.Data.Nat.Notation
import Mathlib.Tactic.Common

-- The backend for ARMv7-M, whose permutation is a function in assembly language. The labels `.L0` to
-- `.L12` are their numbers.
namespace Ascon.Asm

open Armv7m Armv7m.Reg

-- The parts of a round. The even halves of the words are in r2, r3, r4, r5, r6 and the odd ones in
-- r7, r8, r9, r10, fp.
def mixIn (c : Word × Word) : List (Instr ℕ) :=
  [ .eor r4 r4 (.imm c.1), .eor r9 r9 (.imm c.2),
    .eors r2 r2 r6, .eor r7 r7 fp,
    .eors r6 r6 r5, .eor fp fp r10,
    .eors r4 r4 r3, .eor r9 r9 r8 ]

def chiEven : List (Instr ℕ) :=
  [ .bic r0 r3 r2, .bic ip r4 r3,
    .bic lr r5 r4, .eor r3 r3 lr,
    .bic lr r2 r6, .eor r2 r2 ip,
    .bic ip r6 r5, .eor r4 r4 ip,
    .eor r5 r5 lr, .eors r6 r6 r0 ]

def chiOdd : List (Instr ℕ) :=
  [ .bic r0 r8 r7, .bic ip r9 r8,
    .bic lr r10 r9, .eor r8 r8 lr,
    .bic lr r7 fp, .eor r7 r7 ip,
    .bic ip fp r10, .eor r9 r9 ip,
    .eor r10 r10 lr, .eor fp fp r0 ]

def mixOut : List (Instr ℕ) :=
  [ .eors r3 r3 r2, .eor r8 r8 r7,
    .eors r2 r2 r6, .eor r7 r7 fp,
    .eors r5 r5 r4, .eor r10 r10 r9,
    .mvn true r4 r4, .mvn false r9 r9 ]

def diffusion : List (Instr ℕ) :=
  [ .eor r0 r2 (r7.ror 4), .eor r1 r7 (r2.ror 5), .eor r7 r7 (r0.ror 10), .eor r2 r2 (r1.ror 9),
    .eor r0 r3 (r3.ror 11), .eor r1 r8 (r8.ror 11), .eor r8 r8 (r0.ror 20), .eor r3 r3 (r1.ror 19),
    .eor r0 r4 (r9.ror 2), .eor r1 r9 (r4.ror 3), .eor r9 r9 (r0.ror 1), .eors r4 r4 r1,
    .eor r0 r5 (r10.ror 3), .eor r1 r10 (r5.ror 4), .eor r5 r5 (r0.ror 5), .eor r10 r10 (r1.ror 5),
    .eor r0 r6 (r6.ror 17), .eor r1 fp (fp.ror 17), .eor fp fp (r0.ror 4), .eor r6 r6 (r1.ror 3) ]

-- The code of the rounds only differs in the constants.
def roundCode (round : ℕ) : List (Instr ℕ) :=
  mixIn (C32.roundConstants.getD round 0) ++ chiEven ++ chiOdd ++ mixOut ++ diffusion

def saved : List Reg :=
  [r4, r5, r6, r7, r8, r9, r10, fp]

-- The offsets of the registers in the state.
def offsets : List (Reg × Word) :=
  [(r2, 0), (r7, 4), (r3, 8), (r8, 12), (r4, 16), (r9, 20), (r5, 24), (r10, 28), (r6, 32), (fp, 36)]

def load : List (Instr ℕ) :=
  offsets.map fun (rt, offset) => .ldr rt r0 offset

def store : List (Instr ℕ) :=
  offsets.map fun (rt, offset) => .str rt r0 offset

-- The jump to the first round. Any other value than the number of a round skips all rounds.
def dispatch : List (Instr ℕ) :=
  [6, 0, 4, 11, 10, 9, 8, 7, 5, 3, 2, 1].flatMap fun r => [.cmp r1 (.imm (.ofNat 32 r)), .beq r]

def rounds (firstRound : ℕ) : List (Line ℕ) :=
  (List.range' firstRound (12 - firstRound)).flatMap fun r => .label r :: (roundCode r).map .instr

def clear : List (Instr ℕ) :=
  [.mov true r1 (.imm 0), .mov true r2 (.imm 0), .mov true r3 (.imm 0), .mov false ip r1]

def enter : List (Instr ℕ) :=
  .push (saved ++ [lr]) :: load ++ [.push [r0]]

def leave : List (Instr ℕ) :=
  .pop [r0] :: store ++ clear

def exit : List (Line ℕ) :=
  (leave ++ [Instr.pop (saved ++ [pc])]).map .instr

def permuteCode : List (Line ℕ) :=
  (enter ++ dispatch ++ [Instr.b 12]).map .instr ++ rounds 0 ++ .label 12 :: exit

-- The state that is held in the registers.
def held (m : Machine) : Sliced where
  even := ⟨m.regs r2, m.regs r3, m.regs r4, m.regs r5, m.regs r6⟩
  odd  := ⟨m.regs r7, m.regs r8, m.regs r9, m.regs r10, m.regs fp⟩

-- The parts of the s-box.
def mixInWords (x : Words 32) : Words 32 :=
  ⟨x.x0 ^^^ x.x4, x.x1, x.x2 ^^^ x.x1, x.x3, x.x4 ^^^ x.x3⟩

def chiWords (x : Words 32) : Words 32 :=
  ⟨x.x0 ^^^ (x.x2 &&& ~~~x.x1), x.x1 ^^^ (x.x3 &&& ~~~x.x2), x.x2 ^^^ (x.x4 &&& ~~~x.x3),
    x.x3 ^^^ (x.x0 &&& ~~~x.x4), x.x4 ^^^ (x.x1 &&& ~~~x.x0)⟩

def mixOutWords (x : Words 32) : Words 32 :=
  ⟨x.x0 ^^^ x.x4, x.x1 ^^^ x.x0, ~~~x.x2, x.x3 ^^^ x.x2, x.x4⟩

theorem sbox_invert {x : Words 32} : x.sbox.invert = mixOutWords (chiWords (mixInWords x)) := by
  simp only [Words.sbox, Words.invert, mixOutWords, chiWords, mixInWords, BitVec.and_comm]

-- A block of the code changes the state in the registers and leaves the memory and the stack pointer.
def Computes (is : List (Instr ℕ)) (f : Sliced → Sliced) : Prop :=
  ∀ m, ∃ m', execAll is m = some m' ∧ held m' = f (held m) ∧ m'.mem = m.mem ∧ m'.regs sp = m.regs sp

namespace Computes

theorem append {is is' : List (Instr ℕ)} {f f' : Sliced → Sliced} (h : Computes is f)
    (h' : Computes is' f') : Computes (is ++ is') (f' ∘ f) := by
  intro m
  obtain ⟨m', he, hh, hm, hs⟩ := h m
  obtain ⟨m'', he', hh', hm', hs'⟩ := h' m'
  refine ⟨m'', ?_, ?_, hm'.trans hm, hs'.trans hs⟩
  case refine_1 => rw [execAll_append, he, Option.bind_some, he']
  case refine_2 => rw [hh', hh, Function.comp]

theorem mixIn {c : Word × Word} : Computes (mixIn c) fun x =>
    let x := x.addConstants c
    ⟨mixInWords x.even, mixInWords x.odd⟩ :=
  fun _ => ⟨_, rfl, rfl, rfl, rfl⟩

theorem chiEven : Computes chiEven fun x => { x with even := chiWords x.even } :=
  fun _ => ⟨_, rfl, rfl, rfl, rfl⟩

theorem chiOdd : Computes chiOdd fun x => { x with odd := chiWords x.odd } :=
  fun _ => ⟨_, rfl, rfl, rfl, rfl⟩

theorem mixOut : Computes mixOut fun x => ⟨mixOutWords x.even, mixOutWords x.odd⟩ :=
  fun _ => ⟨_, rfl, rfl, rfl, rfl⟩

theorem diffusion : Computes diffusion Sliced.diffuse :=
  fun _ => ⟨_, rfl, rfl, rfl, rfl⟩

theorem roundCode {r : ℕ} : Computes (roundCode r) fun x =>
    (x.addConstants (C32.roundConstants.getD r 0)).sbox.invert.diffuse := by
  intro m
  obtain ⟨m', he, hh, hm⟩ := (((mixIn.append chiEven).append chiOdd).append mixOut).append diffusion m
  refine ⟨m', he, hh.trans ?_, hm⟩
  simp only [Function.comp, Sliced.sbox, Sliced.invert, sbox_invert]

theorem round {r : ℕ} {x : Words 64} {m : Machine} (hr : r < 12) (hx : held m = x.slice) :
    ∃ m', execAll (Asm.roundCode r) m = some m' ∧ held m' = (Ascon.round x r).slice ∧ m'.mem = m.mem ∧
      m'.regs sp = m.regs sp := by
  obtain ⟨m', he, hh, hm⟩ := roundCode (r := r) m
  refine ⟨m', he, hh.trans ?_, hm⟩
  rw [hx, C32.roundConstants_eq hr, Ascon.round, Words.slice_diffuse, Words.slice_invert,
    Words.slice_sbox, Words.slice_addConstant]

end Computes

-- The state that is in memory at an address.
def stateAt (mem : Word → Word) (p : Word) : Sliced where
  even := ⟨mem p, mem (p + 8), mem (p + 16), mem (p + 24), mem (p + 32)⟩
  odd  := ⟨mem (p + 4), mem (p + 12), mem (p + 20), mem (p + 28), mem (p + 36)⟩

theorem aligned_add {p k : Word} (hp : Aligned p) (hk : Aligned k) : Aligned (p + k) := by
  simp only [Aligned, BitVec.toNat_add] at *
  omega

variable {m : Machine}

-- The 40 bytes of the state and the 40 bytes below the stack pointer.
def InState (p a : Word) : Prop :=
  ∃ i < 10, a = nth p i

def InStack (s a : Word) : Prop :=
  ∃ i < 10, a = nth (s - 40) i

-- What a caller provides: the state is aligned and not in the free part of the stack.
structure Called (m : Machine) : Prop where
  state    : Aligned (m.regs r0)
  stack    : Aligned (m.regs sp)
  disjoint : ∀ a, InState (m.regs r0) a → ¬InStack (m.regs sp) a

theorem execAll_load (hp : Aligned (m.regs r0)) : ∃ m', execAll load m = some m' ∧
    held m' = stateAt m.mem (m.regs r0) ∧ m'.mem = m.mem ∧ m'.regs sp = m.regs sp ∧
      m'.regs r0 = m.regs r0 ∧ m'.regs r1 = m.regs r1 := by
  have ha : ∀ p ∈ offsets, Aligned (m.regs r0 + p.2) :=
    fun p h => aligned_add hp ((by decide : ∀ p ∈ offsets, Aligned p.2) p h)
  refine ⟨_, execAll_ldr rfl rfl (by decide) ha, ?_, rfl, rfl, rfl, rfl⟩
  simp [held, stateAt, offsets]

-- The tests of the first round jump to its label or fall through.
theorem leads_dispatch (code lines : List (Line ℕ)) {rs : List ℕ} (hr : ∀ r ∈ rs, r < 12) :
    ∃ z, Leads code ((rs.flatMap fun r => [.cmp r1 (.imm (.ofNat 32 r)), .beq r]).map .instr ++ lines) m
      (if (m.regs r1).toNat ∈ rs then target code (m.regs r1).toNat else lines) { m with z } := by
  induction rs generalizing m
  case nil => exact ⟨m.z, .refl⟩
  case cons r rs hi =>
    have hr' : r < 12 := hr r (by simp)
    have hz : (m.regs r1 - .ofNat 32 r == 0) = decide ((m.regs r1).toNat = r) := by
      rw [Bool.eq_iff_iff, beq_iff_eq, decide_eq_true_iff]
      bv_omega
    have hc {lines} : Leads code (.instr (.cmp r1 (.imm (.ofNat 32 r))) :: lines) m lines
        { m with z := decide ((m.regs r1).toNat = r) } :=
      .next (by rw [← hz]; rfl)
    by_cases h : (m.regs r1).toNat = r
    case pos =>
      refine ⟨true, ?_⟩
      rw [h, if_pos (by simp)]
      rw [decide_eq_true h] at hc
      exact hc.trans (.jump rfl)
    case neg =>
      rw [decide_eq_false h] at hc
      obtain ⟨z, hi⟩ := hi (m := { m with z := false }) fun r hr'' => hr r (by simp [hr''])
      refine ⟨z, hc.trans ((Leads.next rfl).trans ?_)⟩
      simp only [List.mem_cons, h, false_or]
      exact hi

theorem not_isLabel_map {is : List (Instr ℕ)} {r : ℕ} : ∀ l ∈ is.map Line.instr, ¬l.IsLabel r := by
  simp [Line.IsLabel]

-- The rounds before another one do not have its label.
theorem not_isLabel_rounds {r k n : ℕ} (hr : r + n ≤ k) :
    ∀ l ∈ (List.range' r n).flatMap fun r => .label r :: (roundCode r).map .instr, ¬Line.IsLabel k l := by
  intro l hl
  obtain ⟨r', hr', hl⟩ := List.mem_flatMap.mp hl
  cases List.mem_cons.mp hl
  case inl h =>
    subst h
    simp [Line.IsLabel] at hr' ⊢
    omega
  case inr h => exact not_isLabel_map l h

theorem target_permuteCode {r : ℕ} (hr : r ≤ 12) :
    target permuteCode r = rounds r ++ .label 12 :: exit := by
  have hs : rounds 0 = (List.range' 0 r).flatMap (fun r => .label r :: (roundCode r).map .instr) ++ rounds r := by
    rw [rounds, rounds, ← List.flatMap_append]
    congr 1
    rw [show 12 - 0 = r + (12 - r) by omega, ← List.range'_append_1, Nat.zero_add]
  have hn : ∀ l ∈ (enter ++ dispatch ++ [Instr.b 12]).map Line.instr ++
      (List.range' 0 r).flatMap fun r => .label r :: (roundCode r).map .instr, ¬Line.IsLabel r l := by
    intro l hl
    exact (List.mem_append.mp hl).elim (not_isLabel_map l) (not_isLabel_rounds (by omega) l)
  rw [permuteCode, hs, ← List.append_assoc, List.append_assoc _ (rounds r)]
  by_cases h : r < 12
  case pos =>
    have hc : ∃ lines, rounds r ++ .label 12 :: exit = .label r :: lines := by
      rw [rounds, show 12 - r = (11 - r) + 1 by omega, List.range'_succ]
      exact ⟨_, rfl⟩
    obtain ⟨lines, hc⟩ := hc
    rw [hc]
    exact target_append hn
  case neg =>
    obtain rfl : r = 12 := by omega
    exact target_append hn

-- Execution from the label of a round on.
theorem leads_rounds (code lines : List (Line ℕ)) {r : ℕ} {x : Words 64} (hx : held m = x.slice) :
    ∃ m', Leads code (rounds r ++ lines) m lines m' ∧ held m' = (Ascon.permute x r).slice ∧
      m'.mem = m.mem ∧ m'.regs sp = m.regs sp := by
  generalize hn : 12 - r = n
  induction n generalizing m r x
  case zero =>
    rw [rounds, Ascon.permute, hn]
    exact ⟨m, .refl, hx, rfl, rfl⟩
  case succ n hi =>
    obtain ⟨m', he, hh, hm, hs⟩ := Computes.round (r := r) (by omega) hx
    obtain ⟨m'', hl, hh', hm', hs'⟩ := hi (r := r + 1) hh (by omega)
    refine ⟨m'', ?_, ?_, hm'.trans hm, hs'.trans hs⟩
    case refine_1 =>
      have hr : rounds r = .label r :: ((roundCode r).map .instr ++ rounds (r + 1)) := by
        rw [rounds, rounds, hn, List.range'_succ, show 12 - (r + 1) = n by omega]
        rfl
      rw [hr, List.cons_append, List.append_assoc]
      exact Leads.label.trans ((Leads.block he).trans hl)
    case refine_2 =>
      rw [hh', Ascon.permute, Ascon.permute, hn, List.range'_succ, show 12 - (r + 1) = n by omega]
      rfl

theorem inState_offset {p : Word} {x : Reg × Word} (hx : x ∈ offsets) : InState p (p + x.2) := by
  have h : ∀ x ∈ offsets, ∃ i < 10, x.2 = 4 * .ofNat 32 i := by decide
  obtain ⟨i, hi, h⟩ := h x hx
  exact ⟨i, hi, h ▸ rfl⟩

theorem stateAt_congr {mem mem' : Word → Word} {p : Word} (h : ∀ a, InState p a → mem a = mem' a) :
    stateAt mem p = stateAt mem' p := by
  have h : ∀ x ∈ offsets, mem (p + x.2) = mem' (p + x.2) := fun x hx => h _ (inState_offset hx)
  simp [offsets] at h
  simp [stateAt, h]

theorem inStack {s : Word} {i : ℕ} (hi : i < 9) : InStack s (nth (s - 36) i) := by
  refine ⟨i + 1, by omega, ?_⟩
  rw [Machine.nth_succ]
  congr 1
  bv_omega

-- The registers that were saved are on the stack.
def Saved (mem : Word → Word) (s : Word) (regs : Reg → Word) : Prop :=
  ∀ i r, (saved ++ [lr])[i]? = some r → mem (nth (s - 36) i) = regs r

-- The dispatch comes to the first round, or behind the rounds when there is no such round.
theorem leads_firstRound (lines : List (Line ℕ)) : ∃ z, Leads permuteCode
    ((dispatch ++ [Instr.b 12]).map .instr ++ lines) m
    (rounds (m.regs r1).toNat ++ .label 12 :: exit) { m with z } := by
  obtain ⟨z, hl⟩ := leads_dispatch (m := m) permuteCode (.instr (.b 12) :: lines)
    (by decide : ∀ r ∈ [6, 0, 4, 11, 10, 9, 8, 7, 5, 3, 2, 1], r < 12)
  refine ⟨z, ?_⟩
  rw [List.map_append, List.append_assoc]
  by_cases hr : (m.regs r1).toNat < 12
  case pos =>
    rw [if_pos ((by decide : ∀ r < 12, r ∈ [6, 0, 4, 11, 10, 9, 8, 7, 5, 3, 2, 1]) _ hr),
      target_permuteCode (Nat.le_of_lt hr)] at hl
    exact hl
  case neg =>
    rw [if_neg fun h => hr ((by decide : ∀ r ∈ [6, 0, 4, 11, 10, 9, 8, 7, 5, 3, 2, 1], r < 12) _ h)] at hl
    have hn : rounds (m.regs r1).toNat = rounds 12 := by
      rw [rounds, rounds, Nat.sub_eq_zero_of_le (Nat.not_lt.mp hr)]
      rfl
    rw [hn, ← target_permuteCode (Nat.le_refl _)]
    exact hl.trans (.jump rfl)

-- The state of the machine behind the code in front of the dispatch.
theorem execAll_enter (h : Called m) : ∃ m', execAll enter m = some m' ∧
    held m' = stateAt m.mem (m.regs r0) ∧ m'.regs r1 = m.regs r1 ∧ m'.regs sp = m.regs sp - 40 ∧
      m'.mem (m.regs sp - 40) = m.regs r0 ∧ Saved m'.mem (m.regs sp) m.regs ∧
        ∀ a, ¬InStack (m.regs sp) a → m'.mem a = m.mem a := by
  have ha {k : Word} (hk : Aligned (-k)) : Aligned (m.regs sp - k) :=
    BitVec.sub_eq_add_neg _ _ ▸ aligned_add h.stack hk
  have hs : m.regs sp - 36 - 4 = m.regs sp - 40 := by bv_omega
  have hs' : m.regs sp - 40 + 4 = m.regs sp - 36 := by bv_omega
  let m₁ := (m.storeAll (m.regs sp - 36) ((saved ++ [lr]).map m.regs)).set sp (m.regs sp - 36)
  have h₁ : Instr.exec m (.push (saved ++ [lr]) : Instr ℕ) = some (m₁, .next) :=
    exec_push rfl (ha (by decide))
  have hp : m₁.regs r0 = m.regs r0 := by simp [m₁]
  obtain ⟨m₂, h₂, hh₂, hm₂, hs₂, hp₂, hr₂⟩ := execAll_load (m := m₁) (hp ▸ h.state)
  let m₃ := (m₂.store (m.regs sp - 40) (m₂.regs r0)).set sp (m.regs sp - 40)
  have hs₁ : m₂.regs sp - 4 * .ofNat 32 [r0].length = m.regs sp - 40 := by
    rw [hs₂, ← hs]
    simp [m₁]
  have h₃ : Instr.exec m₂ (.push [r0] : Instr ℕ) = some (m₃, .next) := exec_push hs₁ (ha (by decide))
  have hm₁ : ∀ a, ¬InStack (m.regs sp) a → m₁.mem a = m.mem a := by
    intro a ha
    rw [Machine.mem_set, Machine.mem_storeAll_of_not_mem]
    refine fun i hi hn => ha ⟨i + 1, ?_, ?_⟩
    case refine_1 =>
      have hi : i < 9 := by simpa [saved] using hi
      omega
    case refine_2 => rw [Machine.nth_succ, hs', hn]
  have hm₃ {a} (ha : a ≠ m.regs sp - 40) : m₃.mem a = m₁.mem a := (if_neg ha).trans (hm₂ ▸ rfl)
  refine ⟨m₃, ?_, ?_, ?_, by simp [m₃], ?_, ?_, ?_⟩
  case refine_1 =>
    rw [enter, List.cons_append, execAll_cons h₁, execAll_append, h₂, Option.bind_some, execAll_cons h₃]
    rfl
  case refine_2 =>
    rw [← stateAt_congr fun a ha => hm₁ a (h.disjoint a ha), ← hp, ← hh₂]
    rfl
  case refine_3 => simpa [m₁, m₃] using hr₂
  case refine_4 => exact (if_pos rfl).trans (hp₂.trans hp)
  case refine_5 =>
    intro i r hi
    have hl : i < 9 := by simpa [saved] using (List.getElem?_eq_some_iff.mp hi).1
    have hn : nth (m.regs sp - 36) i ≠ m.regs sp - 40 := by
      simp only [nth]
      bv_omega
    rw [hm₃ hn]
    refine Machine.mem_storeAll (l := (saved ++ [lr]).map m.regs) (by simp [saved]) ?_
    rw [List.getElem?_map, hi, Option.map_some]
  case refine_6 =>
    intro a ha
    have hn : a ≠ m.regs sp - 40 := fun hn => ha ⟨0, by decide, by simp [nth, hn]⟩
    rw [hm₃ hn, hm₁ a ha]

-- The state that is stored is the one in the registers.
theorem stateAt_foldl_store {p : Word} {x : Machine} :
    stateAt (offsets.foldl (fun m q => m.store (p + q.2) (x.regs q.1)) m).mem p = held x := by
  simp [stateAt, held, offsets]

-- The code behind the rounds up to the return, which reads what the code in front of them saved.
theorem execAll_leave {p s : Word} {regs : Reg → Word} (hp : Aligned p) (hs : Aligned s)
    (hd : ∀ a, InState p a → ¬InStack s a) (hsp : m.regs sp = s - 40) (hr : m.mem (s - 40) = p)
    (hv : Saved m.mem s regs) :
    ∃ m', execAll leave m = some m' ∧ stateAt m'.mem p = held m ∧ m'.regs sp = s - 36 ∧
      (∀ r ∈ [r1, r2, r3, ip], m'.regs r = 0) ∧ Saved m'.mem s regs ∧
        ∀ a, ¬InState p a → m'.mem a = m.mem a := by
  let m₁ := (m.loadAll (m.regs sp) [r0]).set sp (m.regs sp + 4 * .ofNat 32 [r0].length)
  have ha : Aligned (m.regs sp) := hsp ▸ BitVec.sub_eq_add_neg _ _ ▸ aligned_add hs (by decide)
  have h₁ : Instr.exec m (.pop [r0] : Instr ℕ) = some (m₁, .next) := exec_pop ha
  have hp₁ : m₁.regs r0 = p := by rw [← hr, ← hsp]; rfl
  have hs₁ : m₁.regs sp = s - 36 := by
    have hs₁ : m₁.regs sp = m.regs sp + 4 := rfl
    rw [hs₁, hsp]
    bv_omega
  have ho : ∀ q ∈ offsets, Aligned (m₁.regs r0 + q.2) :=
    fun q h => aligned_add (hp₁ ▸ hp) ((by decide : ∀ p ∈ offsets, Aligned p.2) q h)
  let m₂ := offsets.foldl (fun m q => m.store (m₁.regs r0 + q.2) (m₁.regs q.1)) m₁
  have h₂ : execAll store m₁ = some m₂ := execAll_str ho
  have hr₂ : m₂.regs = m₁.regs := regs_foldl_store
  have hm₂ : ∀ a, ¬InState p a → m₂.mem a = m.mem a :=
    fun a ha => mem_foldl_store fun q hq h => ha (by rw [h, hp₁]; exact inState_offset hq)
  obtain ⟨m₃, h₃, hm₃, hs₃, hc₃⟩ : ∃ m₃, execAll clear m₂ = some m₃ ∧ m₃.mem = m₂.mem ∧
      m₃.regs sp = m₂.regs sp ∧ ∀ r ∈ [r1, r2, r3, ip], m₃.regs r = 0 :=
    ⟨_, rfl, rfl, rfl, by simp [Operand.eval]⟩
  refine ⟨m₃, ?_, ?_, ?_, hc₃, ?_, ?_⟩
  case refine_1 =>
    rw [leave, List.cons_append, execAll_cons h₁, execAll_append, h₂, Option.bind_some, h₃]
  case refine_2 => rw [hm₃, ← hp₁]; exact stateAt_foldl_store
  case refine_3 => rw [hs₃, hr₂, hs₁]
  case refine_4 =>
    intro i r hi
    have hl : i < 9 := by simpa [saved] using (List.getElem?_eq_some_iff.mp hi).1
    rw [hm₃, hm₂ _ fun ha => hd _ ha (inStack hl), hv i r hi]
  case refine_5 => exact fun a ha => hm₃ ▸ hm₂ a ha

theorem execAll_leave_pop {s : Word} {regs : Reg → Word} (hs : Aligned s) (hsp : m.regs sp = s - 36)
    (hv : Saved m.mem s regs) :
    ∃ m', (Instr.pop (saved ++ [pc]) : Instr ℕ).exec m = some (m', .leave) ∧ m'.mem = m.mem ∧
      m'.regs sp = s ∧ m'.regs pc = regs lr ∧ (∀ r ∈ saved, m'.regs r = regs r) ∧
        ∀ r ∈ [r1, r2, r3, ip], m'.regs r = m.regs r := by
  have ha : Aligned (m.regs sp) := hsp ▸ BitVec.sub_eq_add_neg _ _ ▸ aligned_add hs (by decide)
  have hv' : ∀ i r, (saved ++ [pc])[i]? = some r →
      m.mem (nth (m.regs sp) i) = if r = pc then regs lr else regs r := by
    intro i r hi
    rw [hsp]
    by_cases hl : i < 8
    case pos =>
      have hi : saved[i]? = some r := by rwa [List.getElem?_append_left hl] at hi
      have hn : r ≠ pc := (by decide : ∀ r ∈ saved, r ≠ pc) r (List.mem_of_getElem? hi)
      rw [if_neg hn, hv i r (by rwa [List.getElem?_append_left hl])]
    case neg =>
      have hl' : i < 9 := by simpa [saved] using (List.getElem?_eq_some_iff.mp hi).1
      obtain rfl : i = 8 := by omega
      obtain rfl : r = pc := (Option.some.inj hi).symm
      rw [if_pos rfl, hv 8 lr rfl]
  have hr {r} (hr : r ∈ saved ++ [pc]) := Machine.regs_loadAll hv' hr
  refine ⟨_, exec_pop ha, ?_, ?_, ?_, ?_, ?_⟩
  case refine_1 => simp
  case refine_2 =>
    rw [Machine.regs_set, if_pos rfl, hsp]
    simp [saved]
  case refine_3 =>
    rw [Machine.regs_set, if_neg (by decide), hr (by decide), if_pos rfl]
  case refine_4 =>
    intro r h
    have hn : r ≠ sp ∧ r ≠ pc := (by decide : ∀ r ∈ saved, r ≠ sp ∧ r ≠ pc) r h
    rw [Machine.regs_set, if_neg hn.left, hr (List.mem_append_left _ h), if_neg hn.right]
  case refine_5 =>
    intro r h
    have hn : r ≠ sp ∧ r ∉ saved ++ [pc] :=
      (by decide : ∀ r ∈ [r1, r2, r3, ip], r ≠ sp ∧ r ∉ saved ++ [pc]) r h
    rw [Machine.regs_set, if_neg hn.left, Machine.regs_loadAll_of_not_mem hn.right]

-- A call returns with the permuted state in memory, and besides only writes below the stack pointer.
theorem permute_returns (h : Called m) : ∃ m', Returns permuteCode m m' ∧
    stateAt m'.mem (m.regs r0) =
      (Ascon.permute (stateAt m.mem (m.regs r0)).join (m.regs r1).toNat).slice ∧
    m'.regs pc = m.regs lr ∧ m'.regs sp = m.regs sp ∧ (∀ r ∈ saved, m'.regs r = m.regs r) ∧
    (∀ r ∈ [r1, r2, r3, ip], m'.regs r = 0) ∧
    ∀ a, ¬InState (m.regs r0) a → ¬InStack (m.regs sp) a → m'.mem a = m.mem a := by
  obtain ⟨m₁, h₁, hh₁, hr₁, hs₁, hp₁, hv₁, hm₁⟩ := execAll_enter h
  obtain ⟨z, h₂⟩ := leads_firstRound (m := m₁) (rounds 0 ++ .label 12 :: exit)
  obtain ⟨m₃, h₃, hh₃, hm₃, hs₃⟩ := leads_rounds (m := { m₁ with z }) permuteCode (.label 12 :: exit)
    (r := (m₁.regs r1).toNat) (hh₁.trans Words.slice_join.symm)
  obtain ⟨m₄, h₄, hh₄, hs₄, hc₄, hv₄, hm₄⟩ := execAll_leave (m := m₃) h.state h.stack h.disjoint
    (hs₃.trans hs₁) (by rw [hm₃]; exact hp₁) (hm₃ ▸ hv₁)
  obtain ⟨m₅, h₅, hm₅, hs₅, hp₅, hv₅, hc₅⟩ := execAll_leave_pop h.stack hs₄ hv₄
  refine ⟨m₅, ?_, ?_, hp₅, hs₅, hv₅, ?_, ?_⟩
  case refine_1 =>
    have hl : Leads permuteCode permuteCode m ([Instr.pop (saved ++ [pc])].map .instr) m₄ := by
      refine Leads.trans ?_ ((h₂.trans h₃).trans (Leads.label.trans ?_))
      case refine_1 =>
        rw [permuteCode, List.append_assoc enter, List.map_append, List.append_assoc, List.append_assoc]
        exact .block h₁
      case refine_2 => rw [exit, List.map_append]; exact .block h₄
    exact hl.returns h₅
  case refine_2 => rw [hm₅, hh₄, hh₃, hr₁]
  case refine_3 => exact fun r hr => (hc₅ r hr).trans (hc₄ r hr)
  case refine_4 => exact fun a ha hs => by rw [hm₅, hm₄ a ha, hm₃]; exact hm₁ a hs

-- The assembly code computes the same permutation as the portable code does on words of 64 bits.
theorem permute_eq_c64 (h : Called m) : ∃ m', Returns permuteCode m m' ∧
    (stateAt m'.mem (m.regs r0)).join =
      C64.permute (stateAt m.mem (m.regs r0)).join (m.regs r1).toNat ∧
    m'.regs pc = m.regs lr ∧ m'.regs sp = m.regs sp ∧ (∀ r ∈ saved, m'.regs r = m.regs r) ∧
    (∀ r ∈ [r1, r2, r3, ip], m'.regs r = 0) ∧
    ∀ a, ¬InState (m.regs r0) a → ¬InStack (m.regs sp) a → m'.mem a = m.mem a := by
  obtain ⟨m', hr, hs, hm⟩ := permute_returns h
  refine ⟨m', hr, ?_, hm⟩
  rw [hs, Words.join_slice, C64.permute_eq_permute]

-- A call with the state at the start of the memory and the stack pointer at the end of it.
def call (x : Sliced) (firstRound : UInt8) : Machine where
  regs
    | .r0 => 0x20000000
    | .r1 => .ofNat 32 firstRound.toNat
    | .sp => 0x20005000
    | _   => 0
  z := false
  mem a :=
    match (a - 0x20000000).toNat with
    | 0  => x.even.x0
    | 4  => x.odd.x0
    | 8  => x.even.x1
    | 12 => x.odd.x1
    | 16 => x.even.x2
    | 20 => x.odd.x2
    | 24 => x.even.x3
    | 28 => x.odd.x3
    | 32 => x.even.x4
    | 36 => x.odd.x4
    | _  => 0

theorem called_call (x : Sliced) (firstRound : UInt8) : Called (call x firstRound) where
  state := by simp [Aligned, call]
  stack := by simp [Aligned, call]
  disjoint := by
    rintro a ⟨i, hi, rfl⟩ ⟨j, hj, h⟩
    exact (by decide : ∀ i < 10, ∀ j < 10, nth 0x20000000 i ≠ nth (0x20005000 - 40) j) i hi j hj h

theorem permute_eq_c64_call : ∃ m', Returns permuteCode (call (Words.slice ⟨1, 2, 3, 4, 5⟩) 0) m' ∧
    (stateAt m'.mem 0x20000000).join = C64.permute ⟨1, 2, 3, 4, 5⟩ 0 := by
  obtain ⟨m', hr, hs, _⟩ := permute_eq_c64 (called_call (Words.slice ⟨1, 2, 3, 4, 5⟩) 0)
  exact ⟨m', hr, hs.trans (congrArg (C64.permute · 0) Words.join_slice)⟩

theorem stateAt_call {x : Sliced} {firstRound : UInt8} :
    stateAt (call x firstRound).mem 0x20000000 = x := rfl

theorem returns_call {x : Sliced} {firstRound : UInt8} :
    ∃ m', Returns permuteCode (call x firstRound) m' := by
  obtain ⟨m', hr, _⟩ := permute_returns (called_call x firstRound)
  exact ⟨m', hr⟩

-- The assembly code as a function on states.
def permute (x : Sliced) (firstRound : UInt8) : Sliced :=
  stateAt (exec permuteCode (call x firstRound) returns_call).mem 0x20000000

theorem permute_eq {x : Sliced} {firstRound : UInt8} :
    permute x firstRound = (Ascon.permute x.join firstRound.toNat).slice := by
  obtain ⟨m', hr, hs, _⟩ := permute_returns (called_call x firstRound)
  have hr₁ : ((call x firstRound).regs r1).toNat = firstRound.toNat :=
    Nat.mod_eq_of_lt (Nat.lt_trans firstRound.toNat_lt (by decide))
  have hp : (call x firstRound).regs r0 = 0x20000000 := rfl
  rw [hp, stateAt_call, hr₁] at hs
  rw [permute, hr.exec_eq, hs]

end Ascon.Asm
