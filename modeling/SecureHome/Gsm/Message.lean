import Mathlib.Data.List.TakeWhile
import SecureHome.Gsm.Driver

namespace Gsm

-- `etl::string`, which drops what it has no room for.
structure EtlString (capacity : ℕ) where
  chars     : List UInt8
  length_le : chars.length ≤ capacity

namespace EtlString

variable {capacity : ℕ}

def ofList (str : List UInt8) : EtlString capacity where
  chars     := str.take capacity
  length_le := List.length_take_le ..

def append (s : EtlString capacity) (str : List UInt8) : EtlString capacity where
  chars     := (s.chars ++ str).take capacity
  length_le := List.length_take_le ..

theorem ofList_chars {str : List UInt8} (h : str.length ≤ capacity) :
    (ofList str : EtlString capacity).chars = str :=
  List.take_of_length_le h

theorem append_chars {s : EtlString capacity} {str : List UInt8}
    (h : s.chars.length + str.length ≤ capacity) : (s.append str).chars = s.chars ++ str :=
  List.take_of_length_le (List.length_append.trans_le h)

end EtlString

def numBegin := text "AT+CMGS=\""
def numEnd   := text "\"\r"

def numberCommand (number : List UInt8) :
    EtlString (numBegin.length + maxPhoneNumberLen + numEnd.length) :=
  EtlString.ofList numBegin |>.append number |>.append numEnd

def smsCommand (sms : List UInt8) : EtlString (maxSmsLen + 1) :=
  EtlString.ofList sms |>.append [0x1A]

-- The strings have room for all that is not rejected.
theorem numberCommand_chars {number : List UInt8} (h : number.length ≤ maxPhoneNumberLen) :
    (numberCommand number).chars = numBegin ++ number ++ numEnd := by
  have h₁ : (EtlString.ofList numBegin :
      EtlString (numBegin.length + maxPhoneNumberLen + numEnd.length)).chars = numBegin :=
    EtlString.ofList_chars (by omega)
  have h₂ : ((EtlString.ofList numBegin :
      EtlString (numBegin.length + maxPhoneNumberLen + numEnd.length)).append number).chars =
        numBegin ++ number := by
    rw [EtlString.append_chars (by rw [h₁]; omega), h₁]
  rw [numberCommand, EtlString.append_chars (by rw [h₂, List.length_append]; omega), h₂]

theorem smsCommand_chars {sms : List UInt8} (h : sms.length ≤ maxSmsLen) :
    (smsCommand sms).chars = sms ++ [0x1A] := by
  have h₁ : (EtlString.ofList sms : EtlString (maxSmsLen + 1)).chars = sms :=
    EtlString.ofList_chars (by omega)
  rw [smsCommand, EtlString.append_chars (by rw [h₁, List.length_singleton]; omega), h₁]

-- How the module reads the first frame: a command line ends at the first carriage return, and the
-- number is the text between the quotes. Nothing may be left for another command.
def decodeNumber (frame : List UInt8) : Option (List UInt8) :=
  let line   := frame.takeWhile (· ≠ 0x0D)
  let number := (line.drop numBegin.length).takeWhile (· ≠ 0x22)
  if line = numBegin ++ number ++ [0x22] ∧ frame = line ++ [0x0D] then some number else none

-- How the module reads the second frame: the text is ended by the first 0x1A and cancelled by 0x1B.
def decodeText (frame : List UInt8) : Option (List UInt8) :=
  let sms := frame.takeWhile (· ≠ 0x1A)
  if 0x1B ∉ sms ∧ frame = sms ++ [0x1A] then some sms else none

def decode (numberFrame smsFrame : List UInt8) : Option (List UInt8 × List UInt8) := do
  return (← decodeNumber numberFrame, ← decodeText smsFrame)

theorem takeWhile_append_singleton {p : UInt8 → Bool} {l : List UInt8} {c : UInt8}
    (hl : ∀ a ∈ l, p a = true) (hc : p c = false) : (l ++ [c]).takeWhile p = l := by
  rw [List.takeWhile_append_of_pos hl, List.takeWhile_cons_of_neg (by simp [hc]), List.append_nil]

theorem not_mem_takeWhile (c : UInt8) (l : List UInt8) : c ∉ l.takeWhile (· ≠ c) := by
  intro h
  simpa using List.mem_takeWhile_imp (p := (· ≠ c)) h

theorem decodeText_eq_some_iff {frame sms : List UInt8} :
    decodeText frame = some sms ↔ frame = sms ++ [0x1A] ∧ 0x1A ∉ sms ∧ 0x1B ∉ sms := by
  constructor
  case mp =>
    intro h
    simp only [decodeText, Option.ite_none_right_eq_some, Option.some.injEq] at h
    have ⟨⟨hc, hf⟩, hs⟩ := h
    rw [hs] at hc hf
    refine ⟨hf, fun hm => ?_, hc⟩
    exact not_mem_takeWhile 0x1A frame (hs ▸ hm)
  case mpr =>
    rintro ⟨rfl, ha, hc⟩
    have ht : (sms ++ [0x1A]).takeWhile (· ≠ 0x1A) = sms :=
      takeWhile_append_singleton (fun a hm => decide_eq_true fun he => ha (he ▸ hm)) rfl
    simp only [decodeText, ht, hc, not_false_eq_true, and_self, if_true]

theorem decodeNumber_eq_some_iff {frame number : List UInt8} :
    decodeNumber frame = some number ↔
      frame = numBegin ++ number ++ numEnd ∧ 0x22 ∉ number ∧ 0x0D ∉ number := by
  constructor
  case mp =>
    intro h
    simp only [decodeNumber, Option.ite_none_right_eq_some, Option.some.injEq] at h
    have ⟨⟨hl, hf⟩, hn⟩ := h
    rw [hn] at hl
    refine ⟨by rw [hf, hl, List.append_assoc]; rfl, fun hm => ?_, fun hm => ?_⟩
    case refine_1 => exact not_mem_takeWhile 0x22 _ (hn ▸ hm)
    case refine_2 =>
      have hm : (0x0D : UInt8) ∈ frame.takeWhile (· ≠ 0x0D) := by
        rw [hl]
        simp [hm]
      exact not_mem_takeWhile 0x0D frame hm
  case mpr =>
    rintro ⟨rfl, hq, hr⟩
    have hl : (numBegin ++ number ++ numEnd).takeWhile (· ≠ 0x0D) = numBegin ++ number ++ [0x22] := by
      have hs : numBegin ++ number ++ numEnd = numBegin ++ number ++ [0x22] ++ [0x0D] := by
        rw [List.append_assoc _ [0x22]]; rfl
      rw [hs]
      refine takeWhile_append_singleton (fun a hm => decide_eq_true fun he => ?_) rfl
      subst he
      simp only [List.mem_append, hr, or_false] at hm
      revert hm
      decide
    have hn : (number ++ [0x22]).takeWhile (· ≠ 0x22) = number :=
      takeWhile_append_singleton (fun a hm => decide_eq_true fun he => hq (he ▸ hm)) rfl
    have hd : (numBegin ++ number ++ [0x22]).drop numBegin.length = number ++ [0x22] := by
      rw [List.append_assoc, List.drop_left]
    have hf : numBegin ++ number ++ numEnd = numBegin ++ number ++ [0x22] ++ [0x0D] := by
      rw [List.append_assoc _ [0x22]]; rfl
    unfold decodeNumber
    dsimp only
    rw [hl, hd, hn, if_pos ⟨rfl, hf⟩]

-- The characters that the frames have another use for.
structure Plain (number sms : List UInt8) : Prop where
  quote  : 0x22 ∉ number
  cr     : 0x0D ∉ number
  ctrlZ  : 0x1A ∉ sms
  escape : 0x1B ∉ sms

theorem decode_eq_some_iff {number sms : List UInt8} (hn : number.length ≤ maxPhoneNumberLen)
    (hs : sms.length ≤ maxSmsLen) :
    decode (numberCommand number).chars (smsCommand sms).chars = some (number, sms) ↔
      Plain number sms := by
  rw [numberCommand_chars hn, smsCommand_chars hs]
  have hd : ∀ f g, decode f g = some (number, sms) ↔
      decodeNumber f = some number ∧ decodeText g = some sms := by
    intro f g
    cases hf : decodeNumber f <;> cases hg : decodeText g <;> simp [decode, hf, hg]
  rw [hd, decodeNumber_eq_some_iff, decodeText_eq_some_iff]
  constructor
  case mp  => exact fun ⟨⟨_, hq, hr⟩, _, hz, he⟩ => ⟨hq, hr, hz, he⟩
  case mpr => exact fun h => ⟨⟨rfl, h.quote, h.cr⟩, rfl, h.ctrlZ, h.escape⟩

end Gsm
