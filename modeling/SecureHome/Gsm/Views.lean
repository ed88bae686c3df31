import SecureHome.Gsm.Received
import SecureHome.Gsm.Sizes
import SecureHome.Gsm.Texts
import SecureHome.Lib.Always
import SecureHome.Lib.Memory

namespace Gsm

-- A part of the memory.
structure Region where
  first : ℕ
  size  : ℕ

def Region.Within (r r' : Region) : Prop :=
  r'.first ≤ r.first ∧ r.first + r.size ≤ r'.first + r'.size

-- The code that processes a reply does nothing to the memory but read regions of it.
@[reducible]
def reading : Sig where
  Op    := Region
  Ret r := Vector UInt8 r.size

inductive Fault
  -- `std::out_of_range`
  | outOfRange

abbrev Reading (α : Type) :=
  Fallible reading Fault α

def read (r : Region) : Reading (List UInt8) := do
  let bytes ← ExceptT.lift (Prog.perform (S := reading) r)
  return bytes.toList

-- What is read from a memory.
def contents (m : Memory UInt8) : (r : reading.Op) → reading.Ret r :=
  fun r => .ofFn fun i => m (r.first + i)

-- `std::string_view`, with the address of its first character.
structure StringView where
  data : ℕ
  size : UInt32

namespace StringView

def region (s : StringView) : Region where
  first := s.data
  size  := s.size.toNat

def npos : UInt32 := 0xFFFFFFFF

def find (s : StringView) (pattern : List UInt8) : Reading UInt32 := do
  match Gsm.find (← read s.region) pattern with
  | none     => return npos
  | some pos => return pos.toUInt32

def contains (s : StringView) (pattern : List UInt8) : Reading Bool := do
  return (← s.find pattern) != npos

def substr (s : StringView) (pos : UInt32) : Reading StringView :=
  if pos > s.size then
    throw .outOfRange
  else
    return { data := s.data + pos.toNat, size := s.size - pos }

end StringView

open StringView

-- `std::from_chars` for the characters between two addresses.
def fromCharsBetween (first last : ℕ) : Reading (Option ℕ) := do
  return fromChars (← read { first, size := last - first })

-- The view that `transact` returns of its buffer for the size that the HAL has reported.
def transactView (rxCmd : ℕ) (rxIdleLineSize : UInt16) : StringView where
  data := rxCmd
  size := rxIdleLineSize.toUInt32

-- The part of `send_cmd_and_compare_result` that interprets the view.
def compareResult (cmd : CmdT) (rxStr : StringView) : Reading (Except ErrorT Unit) :=
  match cmd with
  | .checkSignal => do
    let pos ← rxStr.find (text "+CSQ: ")
    if pos = npos then
      return .error .errFail
    else
      let rssiStr ← rxStr.substr (pos + 6)
      match ← fromCharsBetween rssiStr.data (rssiStr.data + rssiStr.size.toNat) with
      | none      => return .error .errFail
      | some rssi => return if rssi = 99 ∨ rssi < 5 then .error .errFail else .ok ()
  | .checkReg => do
    let pos ← rxStr.find (text ",")
    if pos = npos then
      return .error .errFail
    else
      let statStr ← rxStr.substr (pos + 1)
      match ← fromCharsBetween statStr.data (statStr.data + statStr.size.toNat) with
      | none      => return .error .errFail
      | some stat => return if ¬stat = 1 ∧ ¬stat = 5 then .error .errFail else .ok ()
  | cmd => do
    if ← rxStr.contains cmd.rxExpected then
      return .ok ()
    else
      return .error .errFail

-- The part of `get_imsi` that copies the IMSI from the view.
def copyImsi (rxStr : StringView) : Reading (Except ErrorT (List UInt8)) :=
  if rxStr.size < 25 then
    return .error .errFail
  else do
    let pos ← rxStr.find (text "\r\n")
    if pos = npos ∨ rxStr.size < pos + 25 then
      return .error .errFail
    else
      let imsi ← read { first := rxStr.data + pos.toNat + 2, size := 15 }
      return .ok (imsi ++ [0])

-- All that is read is in the view, and no part of the view begins outside of it.
def StringView.Confines {α : Type} (s : StringView) (p : Reading α) : Prop :=
  Fallible.Always (S := reading) (fun r : Region => r.Within s.region) p fun _ => True

variable {s : StringView} {pattern : List UInt8} {r : Region}

theorem Region.within_refl : r.Within r :=
  ⟨Nat.le_refl _, Nat.le_refl _⟩

theorem always_read {A : Region → Prop} {Q : List UInt8 → Prop} (ha : A r)
    (h : ∀ bytes, bytes.length = r.size → Q bytes) : Fallible.Always (S := reading) A (read r) Q := by
  have hp : Fallible.Always A (ExceptT.lift (Prog.perform (S := reading) r) : Reading _) fun bytes =>
      Q bytes.toList := .perform ha fun bytes => h _ bytes.length_toList
  exact hp.bind fun _ hq => .pure hq

-- There is room for the pattern behind the position at which it is found.
theorem find_add_le {s : List UInt8} {n : ℕ} (h : Gsm.find s pattern = some n) :
    n + pattern.length ≤ s.length := by
  have ⟨a, b, hf, ha⟩ := find_eq_some_iff.mp h
  rw [hf.eq, List.length_append, List.length_append, ha]
  omega

namespace StringView

-- No sum of a position and the length of a line overflows.
def Short (s : StringView) : Prop :=
  s.size.toNat < 2 ^ 16

theorem toNat_add_of_le {pos n : UInt32} (hs : s.Short) (h : pos.toNat ≤ s.size.toNat)
    (hn : n.toNat < 2 ^ 16) : (pos + n).toNat = pos.toNat + n.toNat := by
  unfold Short at hs
  rw [UInt32.toNat_add, Nat.mod_eq_of_lt (by omega)]

theorem toNat_toUInt32 {pos : ℕ} (hs : s.Short) (h : pos ≤ s.size.toNat) : pos.toUInt32.toNat = pos := by
  have hp : pos < 2 ^ 32 := by
    unfold Short at hs
    omega
  exact UInt32.toNat_ofNat_of_lt' hp

-- The position is within the view, whatever is in the view.
theorem always_find (hs : s.Short) :
    Fallible.Always (S := reading) (fun r : Region => r.Within s.region) (s.find pattern) fun pos =>
      pos ≠ npos → pos.toNat + pattern.length ≤ s.size.toNat := by
  refine .bind (always_read Region.within_refl fun _ hl => hl) fun bytes hl => ?_
  cases hf : Gsm.find bytes pattern
  case none     => exact .pure fun hn => (hn rfl).elim
  case some pos =>
    refine .pure fun _ => ?_
    have hp := find_add_le hf
    have hl : bytes.length = s.size.toNat := hl
    rw [toNat_toUInt32 hs (by omega)]
    omega

theorem always_substr {A : Region → Prop} {pos : UInt32} (h : pos.toNat ≤ s.size.toNat) :
    Fallible.Always (S := reading) A (s.substr pos) fun t => t.region.Within s.region := by
  have hn : ¬pos > s.size := UInt32.not_lt.mpr h
  rw [substr, if_neg hn]
  refine .pure ⟨Nat.le_add_right _ _, ?_⟩
  show s.data + pos.toNat + (s.size - pos).toNat ≤ s.data + s.size.toNat
  rw [UInt32.toNat_sub_of_le _ _ h]
  omega

theorem confines_contains (hs : s.Short) : s.Confines (s.contains pattern) :=
  .bind (always_find hs) fun _ _ => .pure trivial

-- The number is read from the rest of the view.
theorem confines_fromChars {t : StringView} (ht : t.region.Within s.region) :
    s.Confines (fromCharsBetween t.data (t.data + t.size.toNat)) := by
  refine .bind (always_read ?_ fun _ _ => trivial) fun _ _ => .pure trivial
  rw [Nat.add_sub_cancel_left]
  exact ht

-- The part of the view behind the pattern is read.
theorem confines_behind {n : UInt32} {p : Option ℕ → Reading (Except ErrorT Unit)} (hs : s.Short)
    (hl : pattern.length = n.toNat) (hn : n.toNat < 2 ^ 16) (hp : ∀ value, s.Confines (p value)) :
    s.Confines (do
      let pos ← s.find pattern
      if pos = npos then
        return .error .errFail
      else
        let t ← s.substr (pos + n)
        p (← fromCharsBetween t.data (t.data + t.size.toNat))) := by
  refine .bind (always_find hs) fun pos hpos => ?_
  split
  case isTrue => exact .pure trivial
  case isFalse hne =>
    have hpos := hpos hne
    have ha : (pos + n).toNat = pos.toNat + n.toNat := toNat_add_of_le hs (by omega) hn
    refine .bind (always_substr (by omega)) fun t ht => ?_
    exact .bind (confines_fromChars ht) fun value _ => hp value

end StringView

theorem confines_compareResult (hs : s.Short) (cmd : CmdT) : s.Confines (compareResult cmd s) := by
  cases cmd
  case checkSignal | checkReg =>
    apply confines_behind hs
    case hl => rfl
    case hn => decide
    case hp =>
      intro value
      cases value <;> exact .pure trivial
  all_goals
    refine .bind (confines_contains hs) fun found _ => ?_
    cases found <;> exact .pure trivial

theorem confines_copyImsi (hs : s.Short) : s.Confines (copyImsi s) := by
  unfold copyImsi
  split
  case isTrue => exact .pure trivial
  case isFalse =>
    refine .bind (always_find hs) fun pos hpos => ?_
    split
    case isTrue => exact .pure trivial
    case isFalse hne =>
      have ⟨hne, hl⟩ := not_or.mp hne
      have hpos := hpos hne
      have ha : (pos + 25).toNat = pos.toNat + 25 := toNat_add_of_le hs (by omega) (by decide)
      have hl : (pos + 25).toNat ≤ s.size.toNat := UInt32.not_lt.mp hl
      refine .bind (always_read ⟨?_, ?_⟩ fun _ _ => trivial) fun _ _ => .pure trivial
      case refine_1 => show s.data ≤ s.data + pos.toNat + 2; omega
      case refine_2 =>
        show s.data + pos.toNat + 2 + 15 ≤ s.data + s.size.toNat
        omega

theorem short_transactView {rxCmd : ℕ} {size : UInt16} : (transactView rxCmd size).Short := by
  show size.toUInt32.toNat < 2 ^ 16
  rw [UInt16.toNat_toUInt32]
  exact size.toNat_lt

theorem within_transactView (rxCmd : ℕ) {size : UInt16} (h : size.toNat ≤ uartIdleLineBufByte) :
    (transactView rxCmd size).region.Within { first := rxCmd, size := uartIdleLineBufByte } := by
  refine ⟨Nat.le_refl _, ?_⟩
  show rxCmd + size.toUInt32.toNat ≤ rxCmd + uartIdleLineBufByte
  rw [UInt16.toNat_toUInt32]
  omega

-- The view of a buffer is within the buffer in all states of a run.
theorem within_of_reaches {τ : Type} [DecidableEq τ] {allowed : τ → Call → Bool}
    {C : Pool.Cond sig τ (Event τ) (State τ)} {switches : Switch.TypeT → Option τ} {p : Pool sig τ (State τ)}
    (h : (system allowed).Reaches C (.idle (.init switches)) p) (rxCmd : ℕ) :
    (transactView rxCmd p.shared.rxIdleLineSize.toUInt16).region.Within
      { first := rxCmd, size := uartIdleLineBufByte } := by
  have hs : p.shared.rxIdleLineSize ≤ uartIdleLineBufByte := (fits_of_reaches h).rxIdleLineSize
  exact within_transactView rxCmd (Nat.le_trans (Nat.mod_le _ _) hs)

-- Whatever the HAL reports and whatever is in the buffer, the processing of the reply stays within the
-- view, which is within the buffer.
theorem confined (rxCmd : ℕ) {size : UInt16} (h : size.toNat ≤ uartIdleLineBufByte) :
    (transactView rxCmd size).region.Within { first := rxCmd, size := uartIdleLineBufByte } ∧
      (∀ cmd, (transactView rxCmd size).Confines (compareResult cmd (transactView rxCmd size))) ∧
      (∀ pattern, (transactView rxCmd size).Confines ((transactView rxCmd size).contains pattern)) ∧
      (transactView rxCmd size).Confines (copyImsi (transactView rxCmd size)) := by
  have hs : (transactView rxCmd size).Short := short_transactView
  exact ⟨within_transactView rxCmd h, confines_compareResult hs, fun _ => confines_contains hs,
    confines_copyImsi hs⟩

-- A reply that fills the buffer.
theorem confined_fullBuffer :
    (transactView 0 64).region.Within { first := 0, size := uartIdleLineBufByte } ∧
      (∀ cmd, (transactView 0 64).Confines (compareResult cmd (transactView 0 64))) ∧
      (∀ pattern, (transactView 0 64).Confines ((transactView 0 64).contains pattern)) ∧
      (transactView 0 64).Confines (copyImsi (transactView 0 64)) :=
  confined 0 (by decide)

variable {m : Memory UInt8}

theorem eval_read : Fallible.eval (contents m) (read r) = .ok (m.load r.first r.size) := by
  rw [read, Fallible.eval_bind Fallible.eval_perform]
  exact congrArg Except.ok Vector.toList_ofFn

namespace StringView

-- The text of the view.
def text (s : StringView) (m : Memory UInt8) : List UInt8 :=
  m.load s.data s.size.toNat

theorem length_text : (s.text m).length = s.size.toNat := by
  rw [text, Memory.load, List.length_ofFn]

theorem eval_find_none (h : Gsm.find (s.text m) pattern = none) :
    Fallible.eval (contents m) (s.find pattern) = .ok npos := by
  have h : Gsm.find (m.load s.region.first s.region.size) pattern = none := h
  rw [StringView.find, Fallible.eval_bind eval_read, h, Fallible.eval_pure]

theorem eval_find_some {pos : ℕ} (h : Gsm.find (s.text m) pattern = some pos) :
    Fallible.eval (contents m) (s.find pattern) = .ok pos.toUInt32 := by
  have h : Gsm.find (m.load s.region.first s.region.size) pattern = some pos := h
  rw [StringView.find, Fallible.eval_bind eval_read, h, Fallible.eval_pure]

theorem toUInt32_ne_npos {pos : ℕ} (hs : s.Short) (h : pos ≤ s.size.toNat) : pos.toUInt32 ≠ npos := by
  intro he
  have ht := toNat_toUInt32 hs h
  rw [he] at ht
  unfold Short at hs
  have hn : npos.toNat = 4294967295 := rfl
  omega

theorem eval_contains (hs : s.Short) :
    Fallible.eval (contents m) (s.contains pattern) = .ok (Gsm.find (s.text m) pattern).isSome := by
  cases hf : Gsm.find (s.text m) pattern
  case none => rw [contains, Fallible.eval_bind (eval_find_none hf)]; rfl
  case some pos =>
    have hp := length_text ▸ find_add_le hf
    rw [contains, Fallible.eval_bind (eval_find_some hf), Fallible.eval_pure,
      bne_iff_ne.mpr (toUInt32_ne_npos hs (by omega))]
    rfl

theorem eval_substr {pos : UInt32} (h : pos.toNat ≤ s.size.toNat) :
    Fallible.eval (contents m) (s.substr pos) = .ok { data := s.data + pos.toNat, size := s.size - pos } := by
  rw [substr, if_neg (UInt32.not_lt.mpr h), Fallible.eval_pure]

theorem eval_fromChars :
    Fallible.eval (contents m) (fromCharsBetween s.data (s.data + s.size.toNat)) =
      .ok (fromChars (s.text m)) := by
  rw [fromCharsBetween, Fallible.eval_bind eval_read, Nat.add_sub_cancel_left, Fallible.eval_pure]
  rfl

-- The number behind the pattern decides whether the reply is accepted.
theorem eval_behind {n : UInt32} {bad : ℕ → Prop} [DecidablePred bad] {good : ℕ → Bool} (hs : s.Short)
    (hl : pattern.length = n.toNat) (hn : n.toNat < 2 ^ 16) (hg : ∀ value, good value = !decide (bad value)) :
    Fallible.eval (contents m) (do
      let pos ← s.find pattern
      if pos = npos then
        return .error .errFail
      else
        let t ← s.substr (pos + n)
        match ← fromCharsBetween t.data (t.data + t.size.toNat) with
        | none       => return .error .errFail
        | some value => return if bad value then .error .errFail else .ok ()) =
      .ok (if
        (match Gsm.find (s.text m) pattern with
        | none     => false
        | some pos => (fromChars ((s.text m).drop (pos + n.toNat))).any good)
        then .ok () else .error .errFail : Except ErrorT Unit) := by
  cases hf : Gsm.find (s.text m) pattern
  case none     => rw [Fallible.eval_bind (eval_find_none hf), if_pos rfl, Fallible.eval_pure]; rfl
  case some pos =>
    have hp := length_text ▸ find_add_le hf
    have ht : pos.toUInt32.toNat = pos := toNat_toUInt32 hs (by omega)
    have ha : (pos.toUInt32 + n).toNat = pos + n.toNat := by
      rw [toNat_add_of_le hs (by omega) hn, ht]
    have hle : (pos.toUInt32 + n).toNat ≤ s.size.toNat := by omega
    have hd : ({ data := s.data + (pos.toUInt32 + n).toNat, size := s.size - (pos.toUInt32 + n) } :
        StringView).text m = (s.text m).drop (pos + n.toNat) := by
      rw [text, text, Memory.drop_load, UInt32.toNat_sub_of_le _ _ hle, ha]
    rw [Fallible.eval_bind (eval_find_some hf), if_neg (toUInt32_ne_npos hs (by omega)),
      Fallible.eval_bind (eval_substr hle), Fallible.eval_bind eval_fromChars, hd]
    cases hv : fromChars ((s.text m).drop (pos + n.toNat))
    case none       => simp [hv]
    case some value => by_cases hb : bad value <;> simp [hv, hg, hb]

end StringView

-- What the code returns is decided by the text of the view.
theorem eval_compareResult (hs : s.Short) (cmd : CmdT) :
    Fallible.eval (contents m) (compareResult cmd s) =
      .ok (if cmd.accepts (s.text m) then .ok () else .error .errFail) := by
  cases cmd
  case checkSignal => exact eval_behind (n := 6) hs rfl (by decide) fun _ => by simp [beq_eq_decide]
  case checkReg    => exact eval_behind (n := 1) hs rfl (by decide) fun _ => by simp [beq_eq_decide]
  all_goals
    refine (Fallible.eval_bind (eval_contains hs)).trans ?_
    show _ = Except.ok (if (Gsm.find (s.text m) _).isSome then _ else _)
    cases (Gsm.find (s.text m) _).isSome <;> rfl

-- A reply with a sufficient signal.
theorem eval_compareResult_csq :
    StringView.Short ⟨0, 8⟩ ∧ Fallible.eval (contents fun i => (text "+CSQ: 31").getD i 0)
      (compareResult .checkSignal ⟨0, 8⟩) = .ok (.ok ()) := by
  have ha : CmdT.accepts .checkSignal
      (StringView.text ⟨0, 8⟩ fun i => (text "+CSQ: 31").getD i 0) = true := by decide +kernel
  have hs : StringView.Short ⟨0, 8⟩ := show 8 < 2 ^ 16 by decide
  refine ⟨hs, (eval_compareResult hs .checkSignal).trans ?_⟩
  rw [if_pos ha]

theorem eval_copyImsi (hs : s.Short) :
    Fallible.eval (contents m) (copyImsi s) = .ok (imsiOf (s.text m)) := by
  have hl : (s.text m).length = s.size.toNat := length_text
  have h25 : s.size < 25 ↔ (s.text m).length < 25 := by
    rw [hl]
    exact UInt32.lt_iff_toNat_lt
  cases hf : Gsm.find (s.text m) (Gsm.text "\r\n")
  case none =>
    rw [imsiOf_of_find_none hf, copyImsi]
    split
    case isTrue  => rfl
    case isFalse => rw [Fallible.eval_bind (eval_find_none hf), if_pos (.inl rfl)]; rfl
  case some pos =>
    have hp := length_text ▸ find_add_le hf
    have ht : pos.toUInt32.toNat = pos := toNat_toUInt32 hs (by omega)
    have ha : (pos.toUInt32 + 25).toNat = pos + 25 := by
      rw [toNat_add_of_le hs (by omega) (by decide), ht]
      rfl
    have hb : pos.toUInt32 = npos ∨ s.size < pos.toUInt32 + 25 ↔ (s.text m).length < pos + 25 := by
      rw [or_iff_right (toUInt32_ne_npos hs (by omega)), hl, ← ha]
      exact UInt32.lt_iff_toNat_lt
    rw [imsiOf_of_find_some hf, copyImsi]
    by_cases h₁ : (s.text m).length < 25
    case pos => rw [if_pos (h25.mpr h₁), if_pos (.inl h₁)]; rfl
    case neg =>
      rw [if_neg (h25.not.mpr h₁), Fallible.eval_bind (eval_find_some hf)]
      by_cases h₂ : (s.text m).length < pos + 25
      case pos => rw [if_pos (hb.mpr h₂), if_pos (.inr h₂)]; rfl
      case neg =>
        have hm : ((s.text m).drop (pos + 2)).take 15 = m.load (s.data + pos.toUInt32.toNat + 2) 15 := by
          rw [StringView.text, Memory.drop_load, Memory.take_load (by omega), ht, Nat.add_assoc]
        rw [if_neg (hb.not.mpr h₂), if_neg (not_or.mpr ⟨h₁, h₂⟩), hm, Fallible.eval_bind eval_read,
          Fallible.eval_pure]

theorem eval_copyImsi_digits :
    StringView.Short ⟨0, 25⟩ ∧
      Fallible.eval (contents fun i => (text "\r\n123456789012345\r\n\r\nOK\r\n").getD i 0)
        (copyImsi ⟨0, 25⟩) = .ok (.ok (text "123456789012345" ++ [0])) := by
  have hi : imsiOf (StringView.text ⟨0, 25⟩
      fun i => (text "\r\n123456789012345\r\n\r\nOK\r\n").getD i 0) =
      .ok (text "123456789012345" ++ [0]) := by decide +kernel
  have hs : StringView.Short ⟨0, 25⟩ := show 25 < 2 ^ 16 by decide
  refine ⟨hs, (eval_copyImsi hs).trans ?_⟩
  rw [hi]

end Gsm
