import SecureHome.Hal.Uart
import SecureHome.Lib.Memory
import SecureHome.Lib.Sequential

namespace Hal

-- `FLASH_PAGE_SIZE`
def flashPageSize := 1024

-- `FLASH_EraseInitTypeDef` for an erase of pages of the first bank.
structure FlashEraseInit where
  pageAddress : UInt32
  nbPages     : ℕ

namespace FlashEraseInit

-- The addresses on the pages that are to be erased.
def covers (init : FlashEraseInit) (x : ℕ) : Bool :=
  init.pageAddress.toNat / flashPageSize ≤ x / flashPageSize ∧
    x / flashPageSize < init.pageAddress.toNat / flashPageSize + init.nbPages

-- The address of a page that `HAL_FLASHEx_Erase` reports as faulty.
def faulty (init : FlashEraseInit) (page : ℕ) : UInt32 :=
  init.pageAddress + page.toUInt32 * flashPageSize.toUInt32

end FlashEraseInit

structure Flash where
  memory : Memory UInt8
  -- The lock bit of the control register.
  lock   : Bool
  -- The flag for a programming error.
  pgerr  : Bool

namespace Flash

-- The functions of the HAL for the flash, and the access to the memory it is mapped to.
inductive Op
  | unlock
  | program (address : UInt32) (data : UInt16)
  -- The last argument is the memory that the address of a faulty page is returned in.
  | erase (init : FlashEraseInit) (pageError : UInt32)
  | clearPgerr
  | lock
  | memcpy (address size : UInt32)

def sig : Sig where
  Op := Op
  Ret
    | .unlock | .program .. | .lock => Status
    | .erase ..                     => Status × UInt32
    | .clearPgerr                   => Unit
    | .memcpy ..                    => List UInt8

-- The bytes of a halfword in memory.
def bytes (data : UInt16) : List UInt8 :=
  [data.toUInt8, (data >>> 8).toUInt8]

-- The FPEC programs an erased halfword, and zeroes over anything. Otherwise, it leaves the halfword
-- as it is and sets the error flag.
def Programmable (f : Flash) (address : UInt32) (data : UInt16) : Prop :=
  address.toNat % 2 = 0 ∧ (f.memory.load address.toNat 2 = [0xFF, 0xFF] ∨ data = 0)

instance (f : Flash) (address : UInt32) (data : UInt16) : Decidable (f.Programmable address data) :=
  inferInstanceAs (Decidable (_ ∧ _))

-- The functions of the HAL start nothing unless the control register is unlocked and there is no
-- error left from an earlier operation.
def Ready (f : Flash) : Prop :=
  f.lock = false ∧ f.pgerr = false

instance (f : Flash) : Decidable f.Ready :=
  inferInstanceAs (Decidable (_ ∧ _))

-- The outcomes of a function of the HAL that fails in a state.
def failures (f : Flash) : List (Status × Flash) :=
  [(.error, f), (.error, { f with pgerr := true }), (.error, { f with pgerr := false }), (.busy, f),
    (.timeout, f)]

-- The outcomes of the operations, any of which may fail. An erase that fails on some page leaves
-- `residue` on the pages.
def exec (residue : Memory UInt8) : (o : Op) → Flash → List (sig.Ret o × Flash)
  | .unlock, f               => [(Status.ok, { f with lock := false })]
  | .program address data, f =>
    let programmed := { f with memory := f.memory.store address.toNat (bytes data) }
    (if f.Ready ∧ f.Programmable address data then [(Status.ok, programmed)] else []) ++ f.failures
  | .erase init pageError, f =>
    let erased := { f with memory := f.memory.replace (fun _ => 0xFF) init.covers }
    let torn   := { f with memory := f.memory.replace residue init.covers }
    (if f.Ready then
      ((Status.ok, (0xFFFFFFFF : UInt32)), erased) ::
        (List.range init.nbPages).flatMap fun page =>
          torn.failures.map fun (ret, f) => ((ret, init.faulty page), f)
    else []) ++ f.failures.map fun (ret, f) => ((ret, pageError), f)
  | .clearPgerr, f           => [((), { f with pgerr := false })]
  | .lock, f                 => [(Status.ok, { f with lock := true })]
  | .memcpy address size, f  => [(f.memory.load address.toNat size.toNat, f)]

variable {residue : Memory UInt8} {f f' : Flash} {r : Status}

theorem of_mem_failures (h : (r, f') ∈ f.failures) :
    r ≠ .ok ∧ f'.memory = f.memory ∧ f'.lock = f.lock := by
  simp only [failures, List.mem_cons, Prod.mk.injEq, List.not_mem_nil, or_false] at h
  obtain ⟨rfl, rfl⟩ | ⟨rfl, rfl⟩ | ⟨rfl, rfl⟩ | ⟨rfl, rfl⟩ | ⟨rfl, rfl⟩ := h <;> simp

theorem program_cases {address : UInt32} {data : UInt16}
    (h : (r, f') ∈ exec residue (.program address data) f) :
    f'.lock = f.lock ∧
      (r = .ok ∧ f'.memory = f.memory.store address.toNat (bytes data) ∨
        r ≠ .ok ∧ f'.memory = f.memory) := by
  obtain h | h := List.mem_append.mp h
  case inr =>
    have ⟨hr, hm, hl⟩ := of_mem_failures h
    exact ⟨hl, .inr ⟨hr, hm⟩⟩
  case inl =>
    split at h
    case isFalse => contradiction
    case isTrue  =>
      cases List.mem_singleton.mp h
      exact ⟨rfl, .inl ⟨rfl, rfl⟩⟩

theorem erase_cases {init : FlashEraseInit} {pageError pageError' : UInt32}
    (h : ((r, pageError'), f') ∈ exec residue (.erase init pageError) f) :
    f'.lock = f.lock ∧ (∀ x, init.covers x = false → f'.memory x = f.memory x) ∧
      (r = .ok → pageError' = 0xFFFFFFFF ∧ ∀ x, init.covers x = true → f'.memory x = 0xFF) := by
  obtain h | h := List.mem_append.mp h
  case inr =>
    have ⟨_, hf, he⟩ := List.mem_map.mp h
    cases he
    have ⟨hr, hm, hl⟩ := of_mem_failures hf
    exact ⟨hl, fun x _ => congrFun hm x, fun h => absurd h hr⟩
  case inl =>
    split at h
    case isFalse => contradiction
    case isTrue  =>
      obtain h | h := List.mem_cons.mp h
      case inl =>
        cases h
        exact ⟨rfl, fun x hx => by simp [Memory.replace, hx], fun _ => ⟨rfl, fun x hx => by
          simp [Memory.replace, hx]⟩⟩
      case inr =>
        have ⟨_, _, h⟩ := List.mem_flatMap.mp h
        have ⟨_, hf, he⟩ := List.mem_map.mp h
        cases he
        have ⟨hr, hm, hl⟩ := of_mem_failures hf
        refine ⟨hl, fun x hx => ?_, fun h => absurd h hr⟩
        rw [hm]
        simp [Memory.replace, hx]

end Flash

end Hal
