import Mathlib.Algebra.Group.Nat.Defs
import Mathlib.Data.Nat.Find
import Mathlib.Data.Nat.Notation
import Mathlib.Tactic.Common

-- The part of the ARMv7-M instruction set that straight code with forward branches needs.
namespace Armv7m

inductive Reg
  | r0 | r1 | r2 | r3 | r4 | r5 | r6 | r7 | r8 | r9 | r10 | fp | ip | sp | lr | pc
  deriving DecidableEq

abbrev Word := BitVec 32

-- The second operand of an instruction, where a register may be rotated.
inductive Operand
  | imm (value : Word)
  | reg (rm : Reg)
  | ror (rm : Reg) (shift : ℕ)

instance : Coe Reg Operand where
  coe := .reg

abbrev Reg.ror : Reg → ℕ → Operand :=
  .ror

inductive Op
  | eor | bic

-- The flag `s` tells the forms of an instruction which set the flags from those which do not.
inductive Instr (Label : Type)
  | op   (op : Op) (s : Bool) (rd rn : Reg) (src : Operand)
  | mov  (s : Bool) (rd : Reg) (src : Operand)
  | mvn  (s : Bool) (rd : Reg) (src : Operand)
  | ldr  (rt rn : Reg) (offset : Word)
  | str  (rt rn : Reg) (offset : Word)
  | push (regs : List Reg)
  | pop  (regs : List Reg)
  | cmp  (rn : Reg) (src : Operand)
  | beq  (label : Label)
  | b    (label : Label)

abbrev Instr.eor {Label} (rd rn : Reg) (src : Operand) : Instr Label :=
  op .eor false rd rn src

abbrev Instr.eors {Label} (rd rn : Reg) (src : Operand) : Instr Label :=
  op .eor true rd rn src

abbrev Instr.bic {Label} (rd rn : Reg) (src : Operand) : Instr Label :=
  op .bic false rd rn src

inductive Line (Label : Type)
  | label (label : Label)
  | instr (instr : Instr Label)

-- Memory consists of the words at the addresses that are multiples of four. Of the flags only the
-- one that `beq` tests is kept.
structure Machine where
  regs : Reg → Word
  z    : Bool
  mem  : Word → Word

-- Where execution goes on after an instruction.
inductive Next (Label : Type)
  | next
  | jump (label : Label)
  | leave

def Op.eval : Op → Word → Word → Word
  | eor, x, y => x ^^^ y
  | bic, x, y => x &&& ~~~y

def Aligned (a : Word) : Prop :=
  a.toNat % 4 = 0

instance {a : Word} : Decidable (Aligned a) :=
  inferInstanceAs (Decidable (_ = _))

-- The address of a word behind another one.
def nth (a : Word) (i : ℕ) : Word :=
  a + 4 * .ofNat 32 i

namespace Machine

def set (m : Machine) (rd : Reg) (x : Word) : Machine :=
  { m with regs := fun r => if r = rd then x else m.regs r }

def setFlags (m : Machine) (s : Bool) (x : Word) : Machine :=
  { m with z := if s then x == 0 else m.z }

def store (m : Machine) (a x : Word) : Machine :=
  { m with mem := fun b => if b = a then x else m.mem b }

def storeAll (m : Machine) (a : Word) : List Word → Machine
  | []      => m
  | x :: xs => (m.store a x).storeAll (a + 4) xs

def loadAll (m : Machine) (a : Word) : List Reg → Machine
  | []      => m
  | r :: rs => (m.set r (m.mem a)).loadAll (a + 4) rs

end Machine

def Operand.eval (m : Machine) : Operand → Word
  | imm value    => value
  | reg rm       => m.regs rm
  | ror rm shift => (m.regs rm).rotateRight shift

variable {L : Type}

-- A store or a load at an address that is not aligned is a fault.
def Instr.exec (m : Machine) : Instr L → Option (Machine × Next L)
  | op f s rd rn src =>
    let x := f.eval (m.regs rn) (src.eval m)
    some ((m.set rd x).setFlags s x, .next)
  | mov s rd src =>
    let x := src.eval m
    some ((m.set rd x).setFlags s x, .next)
  | mvn s rd src =>
    let x := ~~~src.eval m
    some ((m.set rd x).setFlags s x, .next)
  | ldr rt rn offset =>
    let a := m.regs rn + offset
    if Aligned a then some (m.set rt (m.mem a), .next) else none
  | str rt rn offset =>
    let a := m.regs rn + offset
    if Aligned a then some (m.store a (m.regs rt), .next) else none
  | push rs =>
    let a := m.regs .sp - 4 * BitVec.ofNat 32 rs.length
    if Aligned a then some ((m.storeAll a (rs.map m.regs)).set .sp a, .next) else none
  | pop rs =>
    let a := m.regs .sp
    if Aligned a then
      some ((m.loadAll a rs).set .sp (a + 4 * BitVec.ofNat 32 rs.length),
        if .pc ∈ rs then .leave else .next)
    else
      none
  | cmp rn src => some (m.setFlags true (m.regs rn - src.eval m), .next)
  | beq label  => some (m, if m.z then .jump label else .next)
  | b label    => some (m, .jump label)

def Line.IsLabel (label : L) : Line L → Prop
  | .label l => l = label
  | .instr _ => False

instance [DecidableEq L] {label : L} : DecidablePred (Line.IsLabel label)
  | .label _ => inferInstanceAs (Decidable (_ = _))
  | .instr _ => inferInstanceAs (Decidable False)

variable [DecidableEq L] {code lines lines' lines'' : List (Line L)} {m m' m'' : Machine}

-- The lines from a label on.
def target (code : List (Line L)) (label : L) : List (Line L) :=
  code.dropWhile (¬Line.IsLabel label ·)

-- The state of the machine when the code is left, for at most the given number of steps. The lines
-- that are still to be executed play the role of the program counter.
def run (code : List (Line L)) : ℕ → List (Line L) → Machine → Option Machine
  | 0, _, _                    => none
  | _ + 1, [], _               => none
  | n + 1, .label _ :: lines, m => run code n lines m
  | n + 1, .instr i :: lines, m =>
    match i.exec m with
    | some (m, .next)       => run code n lines m
    | some (m, .jump label) => run code n (target code label) m
    | some (m, .leave)      => some m
    | none                  => none

namespace Machine

variable {m : Machine} {a b x : Word} {r rd : Reg} {s : Bool}

@[simp] theorem regs_set : (m.set rd x).regs r = if r = rd then x else m.regs r := rfl
@[simp] theorem mem_set : (m.set rd x).mem = m.mem := rfl
@[simp] theorem regs_setFlags : (m.setFlags s x).regs = m.regs := rfl
@[simp] theorem mem_setFlags : (m.setFlags s x).mem = m.mem := rfl
@[simp] theorem regs_store : (m.store a x).regs = m.regs := rfl
@[simp] theorem mem_store : (m.store a x).mem b = if b = a then x else m.mem b := rfl

@[simp]
theorem regs_storeAll {xs : List Word} : (m.storeAll a xs).regs = m.regs := by
  induction xs generalizing m a
  case nil          => rfl
  case cons x xs hi => exact hi

theorem regs_loadAll_of_not_mem {rs : List Reg} (h : r ∉ rs) : (m.loadAll a rs).regs r = m.regs r := by
  induction rs generalizing m a
  case nil => rfl
  case cons r' rs hi =>
    simp only [List.mem_cons, not_or] at h
    rw [loadAll, hi h.right, regs_set, if_neg h.left]

@[simp]
theorem mem_loadAll {rs : List Reg} : (m.loadAll a rs).mem = m.mem := by
  induction rs generalizing m a
  case nil          => rfl
  case cons r rs hi => exact hi

theorem nth_succ {i : ℕ} : nth a (i + 1) = nth (a + 4) i := by
  simp only [nth]
  bv_omega

theorem mem_storeAll_of_not_mem {xs : List Word} (h : ∀ i < xs.length, b ≠ nth a i) :
    (m.storeAll a xs).mem b = m.mem b := by
  induction xs generalizing m a
  case nil => rfl
  case cons x xs hi =>
    have hb : b ≠ a := fun hb => h 0 (by simp) (by simpa [nth] using hb)
    rw [storeAll, hi fun i hl => nth_succ ▸ h (i + 1) (by simpa using hl), mem_store, if_neg hb]

theorem mem_storeAll {l : List Word} {i : ℕ} (hl : l.length < 2 ^ 30) (hi : l[i]? = some x) :
    (m.storeAll a l).mem (nth a i) = x := by
  induction l generalizing m a i
  case nil => simp at hi
  case cons y xs hi' =>
    have hl : xs.length < 2 ^ 30 := Nat.lt_of_succ_lt hl
    cases i
    case zero =>
      have hn : ∀ i < xs.length, nth a 0 ≠ nth (a + 4) i := by
        intro i _
        simp only [nth]
        bv_omega
      obtain rfl : y = x := by simpa using hi
      rw [storeAll, mem_storeAll_of_not_mem hn, mem_store, if_pos (by simp [nth])]
    case succ i =>
      rw [nth_succ]
      exact hi' hl (by simpa using hi)

-- Registers that are loaded from where their values were stored have these values.
theorem regs_loadAll {rs : List Reg} {f : Reg → Word}
    (h : ∀ i r, rs[i]? = some r → m.mem (nth a i) = f r) (hr : r ∈ rs) :
    (m.loadAll a rs).regs r = f r := by
  induction rs generalizing m a
  case nil => simp at hr
  case cons r' rs hi =>
    have hm : ∀ i r, rs[i]? = some r → (m.set r' (m.mem a)).mem (nth (a + 4) i) = f r :=
      fun i r hr => nth_succ ▸ h (i + 1) r (by simpa using hr)
    by_cases hr' : r ∈ rs
    case pos => exact hi hm hr'
    case neg =>
      obtain rfl : r = r' := by simpa [hr'] using hr
      have h0 : m.mem a = f r := by simpa [nth] using h 0 r rfl
      rw [loadAll, regs_loadAll_of_not_mem hr', regs_set, if_pos rfl, h0]

end Machine

-- The code is left in a state of the machine when execution starts at its first line.
def Returns (code : List (Line L)) (m m' : Machine) : Prop :=
  ∃ n, run code n code m = some m'

-- Execution comes from some lines to others.
def Leads (code lines : List (Line L)) (m : Machine) (lines' : List (Line L)) (m' : Machine) : Prop :=
  ∃ k, ∀ n, run code (n + k) lines m = run code n lines' m'

namespace Leads

theorem refl : Leads code lines m lines m :=
  ⟨0, fun _ => rfl⟩

theorem trans (h : Leads code lines m lines' m') (h' : Leads code lines' m' lines'' m'') :
    Leads code lines m lines'' m'' := by
  obtain ⟨k, h⟩ := h
  obtain ⟨k', h'⟩ := h'
  refine ⟨k' + k, fun n => ?_⟩
  rw [← Nat.add_assoc, h, h']

theorem label {l : L} : Leads code (.label l :: lines) m lines m :=
  ⟨1, fun _ => rfl⟩

theorem next {i : Instr L} (h : i.exec m = some (m', .next)) :
    Leads code (.instr i :: lines) m lines m' :=
  ⟨1, fun n => by rw [run, h]⟩

theorem jump {i : Instr L} {l : L} (h : i.exec m = some (m', .jump l)) :
    Leads code (.instr i :: lines) m (target code l) m' :=
  ⟨1, fun n => by rw [run, h]⟩

theorem returns {i : Instr L} (h : Leads code code m (.instr i :: lines) m')
    (hi : i.exec m' = some (m'', .leave)) : Returns code m m'' := by
  obtain ⟨k, h⟩ := h
  refine ⟨1 + k, ?_⟩
  rw [h, run, hi]

end Leads

-- There is only one state in which the code is left.
theorem run_mono {n k : ℕ} (h : run code n lines m = some m') : run code (n + k) lines m = some m' := by
  induction n generalizing lines m
  case zero => simp [run] at h
  case succ n hi =>
    rw [Nat.add_right_comm]
    match lines with
    | []              => simp [run] at h
    | .label _ :: _   => exact hi h
    | .instr i :: ls =>
      rw [run] at h ⊢
      split at h
      case h_1 => exact hi h
      case h_2 => exact hi h
      case h_3 => exact h
      case h_4 => cases h

theorem Returns.unique (h : Returns code m m') (h' : Returns code m m'') : m' = m'' := by
  obtain ⟨n, h⟩ := h
  obtain ⟨k, h'⟩ := h'
  have h := run_mono (k := k) h
  have h' := run_mono (k := n) h'
  rw [Nat.add_comm] at h'
  exact Option.some.inj (h.symm.trans h')

theorem Returns.isSome (h : ∃ m', Returns code m m') : ∃ n, (run code n code m).isSome := by
  obtain ⟨m', n, h⟩ := h
  exact ⟨n, Option.isSome_iff_exists.mpr ⟨m', h⟩⟩

-- The state in which code is left that is known to be left.
def exec (code : List (Line L)) (m : Machine) (h : ∃ m', Returns code m m') : Machine :=
  (run code (Nat.find (Returns.isSome h)) code m).get (Nat.find_spec (Returns.isSome h))

theorem Returns.exec_eq (h : Returns code m m') : exec code m ⟨m', h⟩ = m' := by
  have hf := Option.some_get (Nat.find_spec (Returns.isSome ⟨m', h⟩))
  exact Returns.unique ⟨_, hf.symm⟩ h

-- Execution of straight code.
def execAll : List (Instr L) → Machine → Option Machine
  | [], m => some m
  | i :: is, m =>
    match i.exec m with
    | some (m, .next) => execAll is m
    | _               => none

omit [DecidableEq L] in
theorem execAll_append {is is' : List (Instr L)} :
    execAll (is ++ is') m = (execAll is m).bind (execAll is') := by
  induction is generalizing m
  case nil => rfl
  case cons i is hi =>
    rw [List.cons_append, execAll, execAll]
    split
    case h_1 => exact hi
    case h_2 => rfl

theorem Leads.block {is : List (Instr L)} (h : execAll is m = some m') :
    Leads code (is.map .instr ++ lines) m lines m' := by
  induction is generalizing m
  case nil => cases h; exact .refl
  case cons i is hi =>
    rw [execAll] at h
    split at h
    case h_1 he => exact (Leads.next he).trans (hi h)
    case h_2    => cases h

-- The lines in front of a label are skipped when they do not have it.
theorem target_append {pre : List (Line L)} {l : L} (h : ∀ x ∈ pre, ¬x.IsLabel l) :
    target (pre ++ .label l :: lines) l = .label l :: lines := by
  induction pre
  case nil => simp [target, Line.IsLabel]
  case cons x pre hi =>
    have hx : ¬x.IsLabel l := h x (by simp)
    rw [List.cons_append, target, List.dropWhile_cons_of_pos (by simpa using hx)]
    exact hi fun y hy => h y (by simp [hy])

-- Loads and stores of several registers at offsets from an address in another register.
section

omit [DecidableEq L]

variable {rn : Reg} {ps : List (Reg × Word)}

theorem execAll_cons {i : Instr L} {is : List (Instr L)} (h : i.exec m = some (m', .next)) :
    execAll (i :: is) m = execAll is m' := by
  rw [execAll, h]

theorem exec_ldr {rt : Reg} {k : Word} (ha : Aligned (m.regs rn + k)) :
    (Instr.ldr rt rn k : Instr L).exec m = some (m.set rt (m.mem (m.regs rn + k)), .next) :=
  if_pos ha

theorem exec_str {rt : Reg} {k : Word} (ha : Aligned (m.regs rn + k)) :
    (Instr.str rt rn k : Instr L).exec m = some (m.store (m.regs rn + k) (m.regs rt), .next) :=
  if_pos ha

theorem exec_push {rs : List Reg} {a : Word} (ha : m.regs .sp - 4 * .ofNat 32 rs.length = a)
    (h : Aligned a) : (Instr.push rs : Instr L).exec m =
      some ((m.storeAll a (rs.map m.regs)).set .sp a, .next) := by
  subst ha
  exact if_pos h

theorem exec_pop {rs : List Reg} (h : Aligned (m.regs .sp)) : (Instr.pop rs : Instr L).exec m =
    some ((m.loadAll (m.regs .sp) rs).set .sp (m.regs .sp + 4 * .ofNat 32 rs.length),
      if .pc ∈ rs then .leave else .next) :=
  if_pos h

theorem execAll_ldr {base : Word} {mem : Word → Word} (hb : m.regs rn = base) (hm : m.mem = mem)
    (hn : ∀ p ∈ ps, rn ≠ p.1) (ha : ∀ p ∈ ps, Aligned (base + p.2)) :
    execAll (ps.map fun p => (.ldr p.1 rn p.2 : Instr L)) m =
      some (ps.foldl (fun m p => m.set p.1 (mem (base + p.2))) m) := by
  induction ps generalizing m
  case nil => rfl
  case cons p ps hi =>
    have he : (Instr.ldr p.1 rn p.2 : Instr L).exec m = some (m.set p.1 (m.mem (m.regs rn + p.2)), .next) :=
      exec_ldr (hb ▸ ha p (by simp))
    have hb' : (m.set p.1 (mem (base + p.2))).regs rn = base := (if_neg (hn p (by simp))).trans hb
    rw [hb, hm] at he
    rw [List.map_cons, execAll_cons he, List.foldl_cons]
    exact hi hb' hm (fun q hq => hn q (by simp [hq])) fun q hq => ha q (by simp [hq])

theorem execAll_str (ha : ∀ p ∈ ps, Aligned (m.regs rn + p.2)) :
    execAll (ps.map fun p => (.str p.1 rn p.2 : Instr L)) m =
      some (ps.foldl (fun m' p => m'.store (m.regs rn + p.2) (m.regs p.1)) m) := by
  induction ps generalizing m
  case nil => rfl
  case cons p ps hi =>
    rw [List.map_cons, execAll_cons (exec_str (ha p (by simp))), List.foldl_cons]
    exact hi (m := m.store (m.regs rn + p.2) (m.regs p.1)) fun q hq => ha q (by simp [hq])

omit rn in
theorem regs_foldl_store {base : Word} {f : Reg → Word} :
    (ps.foldl (fun m p => m.store (base + p.2) (f p.1)) m).regs = m.regs := by
  induction ps generalizing m
  case nil          => rfl
  case cons p ps hi => exact hi

omit rn in
theorem mem_foldl_store {base a : Word} {f : Reg → Word} (h : ∀ p ∈ ps, a ≠ base + p.2) :
    (ps.foldl (fun m p => m.store (base + p.2) (f p.1)) m).mem a = m.mem a := by
  induction ps generalizing m
  case nil => rfl
  case cons p ps hi =>
    rw [List.foldl_cons, hi fun q hq => h q (by simp [hq]), Machine.mem_store, if_neg (h p (by simp))]

end

end Armv7m
