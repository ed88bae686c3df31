import SecureHome.Gsm.Received
import SecureHome.Gsm.Texts

open Hal

namespace Gsm

variable {rx : List UInt8}

-- The text after the first `+CSQ: ` begins with a number that fits into a `size_t` and stands for a
-- strength that is known and not too weak.
def GoodSignal (rx : List UInt8) : Prop :=
  ∃ a b digits rest, FirstAt rx (text "+CSQ: ") a b ∧ LeadingNumber b digits rest ∧
    decimal digits < 2 ^ 32 ∧ 5 ≤ decimal digits ∧ decimal digits ≠ 99

-- Somewhere in the text is a report of the form `+CREG: <n>,<stat>` with a status of 1 or 5.
def Registered (rx : List UInt8) : Prop :=
  ∃ a n b digits rest, rx = a ++ text "+CREG: " ++ n ++ text "," ++ b ∧
    n ≠ [] ∧ (∀ c ∈ n, IsDigit c) ∧ LeadingNumber b digits rest ∧
      (decimal digits = 1 ∨ decimal digits = 5)

-- Somewhere in the text is a line that consists of the 15 digits.
def ImsiLine (rx imsi : List UInt8) : Prop :=
  ∃ a b, rx = a ++ text "\r\n" ++ imsi ++ text "\r\n" ++ b ∧ imsi.length = 15 ∧ ∀ c ∈ imsi, IsDigit c

theorem any_fromChars_iff {s : List UInt8} {q : ℕ → Bool} :
    (fromChars s).any q = true ↔
      ∃ digits rest, LeadingNumber s digits rest ∧ decimal digits < 2 ^ 32 ∧ q (decimal digits) = true := by
  rw [Option.any_eq_true]
  constructor
  case mp =>
    intro ⟨v, hv, hq⟩
    have ⟨digits, rest, h, he, hl⟩ := fromChars_eq_some_iff.mp hv
    subst he
    exact ⟨digits, rest, h, hl, hq⟩
  case mpr =>
    intro ⟨digits, rest, h, hl, hq⟩
    exact ⟨_, fromChars_eq_some_iff.mpr ⟨digits, rest, h, rfl, hl⟩, hq⟩

theorem accepts_checkSignal_iff : CmdT.accepts .checkSignal rx = true ↔ GoodSignal rx := by
  cases hf : find rx (text "+CSQ: ") <;> simp only [CmdT.accepts, hf]
  case none =>
    refine ⟨nofun, fun ⟨a, b, _, _, h, _⟩ => ?_⟩
    exact (find_eq_none_iff.mp hf _ _ h.eq).elim
  case some pos =>
    have ⟨a, b, h, ha⟩ := find_eq_some_iff.mp hf
    have hd : rx.drop (pos + 6) = b := ha ▸ h.drop
    rw [hd, any_fromChars_iff]
    constructor
    case mp =>
      intro ⟨digits, rest, hn, hl, hq⟩
      refine ⟨a, b, digits, rest, h, hn, hl, ?_⟩
      simpa [and_comm] using hq
    case mpr =>
      intro ⟨a', b', digits, rest, h', hn, hl, hq⟩
      obtain ⟨rfl, rfl⟩ := h.unique h'
      exact ⟨digits, rest, hn, hl, by simpa [and_comm] using hq⟩

-- `CHECK_SIGNAL` accepts exactly the texts in which a good signal strength is reported.
theorem checkSignal_iff {result : Except ErrorT Unit}
    (h : RepliedBy CmdT.checkSignal.tx (sendCmdAndCompareResult .checkSignal) rx result) :
    (result = .ok () ↔ GoodSignal rx) ∧ (¬GoodSignal rx → result = .error .errFail) := by
  rw [result_of_repliedBy h, ← accepts_checkSignal_iff]
  by_cases ha : CmdT.accepts .checkSignal rx = true <;> simp [ha]

-- A signal that is strong enough.
def strongSignal : List UInt8 :=
  text "\r\n+CSQ: 21,0\r\n\r\nOK\r\n"

theorem checkSignal_strong :
    RepliedBy CmdT.checkSignal.tx (sendCmdAndCompareResult .checkSignal) strongSignal (.ok ()) ∧
      GoodSignal strongSignal := by
  have h := repliedBy_sendCmdAndCompareResult .checkSignal strongSignal
  have ha : CmdT.accepts .checkSignal strongSignal = true := by decide +kernel
  rw [if_pos ha] at h
  exact ⟨h, (checkSignal_iff h).left.mp rfl⟩

-- If a number 1 or 5 comes right after the first comma, then the comma is the one of a report, or the
-- text after it contains a report of its own.
def FirstCommaReports (rx : List UInt8) : Prop :=
  ∀ a b digits rest, FirstAt rx (text ",") a b → LeadingNumber b digits rest →
    decimal digits = 1 ∨ decimal digits = 5 →
    (∃ a' n, a = a' ++ text "+CREG: " ++ n ∧ n ≠ [] ∧ ∀ c ∈ n, IsDigit c) ∨ Registered b

theorem accepts_checkReg_iff :
    CmdT.accepts .checkReg rx = true ↔ ∃ a b digits rest, FirstAt rx (text ",") a b ∧
      LeadingNumber b digits rest ∧ (decimal digits = 1 ∨ decimal digits = 5) := by
  cases hf : find rx (text ",") <;> simp only [CmdT.accepts, hf]
  case none =>
    refine ⟨nofun, fun ⟨a, b, _, _, h, _⟩ => ?_⟩
    exact (find_eq_none_iff.mp hf _ _ h.eq).elim
  case some pos =>
    have ⟨a, b, h, ha⟩ := find_eq_some_iff.mp hf
    have hd : rx.drop (pos + 1) = b := ha ▸ h.drop
    rw [hd, any_fromChars_iff]
    constructor
    case mp =>
      intro ⟨digits, rest, hn, _, hq⟩
      exact ⟨a, b, digits, rest, h, hn, by simpa using hq⟩
    case mpr =>
      intro ⟨a', b', digits, rest, h', hn, hq⟩
      obtain ⟨rfl, rfl⟩ := h.unique h'
      exact ⟨digits, rest, hn, by omega, by simpa using hq⟩

theorem Registered.append {b : List UInt8} (h : Registered b) (a : List UInt8) : Registered (a ++ b) := by
  have ⟨a', n, b', digits, rest, hb, h⟩ := h
  exact ⟨a ++ a', n, b', digits, rest, by simp only [hb, List.append_assoc], h⟩

theorem text_comma : text "," = [0x2C] :=
  rfl

-- There is no comma inside of a report but its own.
theorem Registered.of_firstAt {a b : List UInt8} (h : Registered rx) (hf : FirstAt rx (text ",") a b) :
    (∃ a' n, a = a' ++ text "+CREG: " ++ n ∧ n ≠ [] ∧ ∀ c ∈ n, IsDigit c) ∨ Registered b := by
  have ⟨a', n, b', digits, rest, he, hn, hd, h⟩ := h
  rw [text_comma] at hf he
  have ⟨hs, hc⟩ := FirstAt.singleton_iff.mp hf
  have hp : 0x2C ∉ text "+CREG: " ++ n := by
    intro hm
    rcases List.mem_append.mp hm with hm | hm
    · exact absurd hm (by decide)
    · exact absurd (hd _ hm) (by decide)
  have he' : a ++ ([0x2C] ++ b) = a' ++ (text "+CREG: " ++ n ++ [0x2C] ++ b') := by
    rw [← List.append_assoc, ← hs, he]
    simp only [List.append_assoc]
  rcases List.append_eq_append_iff.mp he' with ⟨c, ha', hb⟩ | ⟨c, ha, hb⟩
  case inl =>
    -- The report is behind the first comma.
    cases c
    case nil      => exact absurd (List.cons_eq_cons.mp hb).left (by decide)
    case cons c cs =>
      have hb : b = cs ++ (text "+CREG: " ++ n ++ [0x2C] ++ b') := (List.cons_eq_cons.mp hb).right
      refine .inr ⟨cs, n, b', digits, rest, ?_, hn, hd, h⟩
      simp only [hb, text_comma, List.append_assoc]
  case inr =>
    -- The first comma is the one of the report.
    have hc' : 0x2C ∉ c := fun hm => hc (ha ▸ List.mem_append_right _ hm)
    have hu := (FirstAt.singleton_iff.mpr ⟨hb.trans (List.append_assoc ..).symm, hc'⟩).unique
      (FirstAt.singleton_iff.mpr ⟨rfl, hp⟩)
    exact .inl ⟨a', n, by rw [ha, hu.left, List.append_assoc], hn, hd⟩

theorem registered_iff {result : Except ErrorT Unit}
    (h : RepliedBy CmdT.checkReg.tx (sendCmdAndCompareResult .checkReg) rx result) :
    (result = .ok () → Registered rx) ↔ FirstCommaReports rx := by
  have hr : result = .ok () ↔ CmdT.accepts .checkReg rx = true := by
    rw [result_of_repliedBy h]
    by_cases ha : CmdT.accepts .checkReg rx = true <;> simp [ha]
  rw [hr, accepts_checkReg_iff]
  constructor
  case mp =>
    intro hp a b digits rest hf hn hs
    exact (hp ⟨a, b, digits, rest, hf, hn, hs⟩).of_firstAt hf
  case mpr =>
    intro hc ⟨a, b, digits, rest, hf, hn, hs⟩
    rw [hf.eq]
    rcases hc a b digits rest hf hn hs with ⟨a', n, rfl, hne, hd⟩ | hb
    · exact ⟨a', n, b, digits, rest, rfl, hne, hd, hn, hs⟩
    · exact hb.append _

-- An unsolicited report with a comma is taken for a registration.
def ussdReply : List UInt8 :=
  text "\r\n+CUSD: 0,1\r\n\r\nERROR\r\n"

theorem repliedBy_ussdReply :
    RepliedBy CmdT.checkReg.tx (sendCmdAndCompareResult .checkReg) ussdReply (.ok ()) :=
  Prog.canReturn_of_answered (resultsFor [] ussdReply) (by decide +kernel)

theorem not_registered_ussdReply : ¬Registered ussdReply := by
  intro ⟨a, n, b, _, _, h, _⟩
  have hi : text "+CREG: " <:+: ussdReply := ⟨a, n ++ text "," ++ b, by simp only [h, List.append_assoc]⟩
  exact absurd hi (by decide)

theorem not_firstCommaReports_ussdReply : ¬FirstCommaReports ussdReply := fun h =>
  not_registered_ussdReply ((registered_iff repliedBy_ussdReply).mpr h rfl)

theorem not_registered_of_accepted :
    ¬∀ rx result, RepliedBy CmdT.checkReg.tx (sendCmdAndCompareResult .checkReg) rx result →
      result = .ok () → Registered rx :=
  fun h => not_registered_ussdReply (h _ _ repliedBy_ussdReply rfl)

-- If there are 23 characters after the first line break, then the first 15 of them are the digits of
-- an IMSI on a line of their own.
def FirstLineIsImsi (rx : List UInt8) : Prop :=
  ∀ a b, FirstAt rx (text "\r\n") a b → 23 ≤ b.length → ImsiLine rx (b.take 15)

theorem imsiOf_eq_ok_iff {imsi : List UInt8} :
    imsiOf rx = .ok imsi ↔
      ∃ a b, FirstAt rx (text "\r\n") a b ∧ 23 ≤ b.length ∧ imsi = b.take 15 ++ [0] := by
  cases hf : find rx (text "\r\n")
  case none =>
    rw [imsiOf_of_find_none hf]
    constructor
    case mp => exact fun he => by cases he
    case mpr =>
      rintro ⟨a, b, h, _⟩
      exact (find_eq_none_iff.mp hf _ _ h.eq).elim
  case some pos =>
    obtain ⟨a, b, h, ha⟩ := find_eq_some_iff.mp hf
    have hd : rx.drop (pos + 2) = b := ha ▸ h.drop
    have hl : rx.length = pos + 2 + b.length := by
      rw [h.eq, List.length_append, List.length_append, ha]
      rfl
    have hi : imsiOf rx = if 23 ≤ b.length then .ok (b.take 15 ++ [0]) else .error .errFail := by
      rw [imsiOf_of_find_some hf, hd, ← ite_not]
      congr 1
      exact propext (by omega)
    rw [hi]
    constructor
    case mp =>
      intro he
      split at he <;> cases he
      case isTrue hb => exact ⟨a, b, h, hb, rfl⟩
    case mpr =>
      rintro ⟨a', b', h', hb, he⟩
      obtain ⟨rfl, rfl⟩ := h.unique h'
      rw [if_pos hb, he]

theorem imsiOf_eq_error_iff : imsiOf rx = .error .errFail ↔ ∀ imsi, imsiOf rx ≠ .ok imsi := by
  unfold imsiOf
  cases findImsi rx <;> simp

theorem imsi_iff {result : Except ErrorT (List UInt8)}
    (h : RepliedBy CmdT.getImsi.tx getImsi rx result) :
    ((∀ imsi, result = .ok imsi → ∃ digits, ImsiLine rx digits ∧ imsi = digits ++ [0]) ∧
      ((∀ digits, ¬ImsiLine rx digits) → result = .error .errFail)) ↔ FirstLineIsImsi rx := by
  rw [imsi_of_repliedBy h]
  constructor
  case mp =>
    intro ⟨hp, _⟩ a b hf hb
    have ⟨digits, hl, he⟩ := hp _ (imsiOf_eq_ok_iff.mpr ⟨a, b, hf, hb, rfl⟩)
    exact List.append_cancel_right he ▸ hl
  case mpr =>
    intro hc
    have hp : ∀ imsi, imsiOf rx = .ok imsi → ∃ digits, ImsiLine rx digits ∧ imsi = digits ++ [0] := by
      intro imsi hi
      have ⟨a, b, hf, hb, he⟩ := imsiOf_eq_ok_iff.mp hi
      exact ⟨_, hc a b hf hb, he⟩
    refine ⟨hp, fun hn => imsiOf_eq_error_iff.mpr fun imsi hi => ?_⟩
    have ⟨digits, hl, _⟩ := hp imsi hi
    exact hn digits hl

-- The two lines that the module sends of its own accord once it is ready.
def readyLines : List UInt8 :=
  text "\r\nCall Ready\r\n\r\nSMS Ready\r\n"

theorem repliedBy_readyLines :
    RepliedBy CmdT.getImsi.tx getImsi readyLines (.ok (text "Call Ready\r\n\r\nS" ++ [0])) :=
  Prog.canReturn_of_answered (resultsFor (text "\r\n+CPIN: READY\r\n\r\nOK\r\n") readyLines)
    (by decide +kernel)

theorem not_imsiLine_readyLines : ¬ImsiLine readyLines (text "Call Ready\r\n\r\nS") :=
  fun ⟨_, _, _, _, hd⟩ => absurd hd (by decide)

theorem not_firstLineIsImsi_readyLines : ¬FirstLineIsImsi readyLines := by
  intro h
  have ⟨digits, hl, he⟩ := ((imsi_iff repliedBy_readyLines).mpr h).left _ rfl
  exact not_imsiLine_readyLines (List.append_cancel_right he ▸ hl)

-- They are taken for an IMSI.
theorem not_imsiLine_of_returned :
    ¬∀ rx result, RepliedBy CmdT.getImsi.tx getImsi rx result →
      (∀ imsi, result = .ok imsi → ∃ digits, ImsiLine rx digits ∧ imsi = digits ++ [0]) ∧
        ((∀ digits, ¬ImsiLine rx digits) → result = .error .errFail) := by
  intro h
  have ⟨digits, hl, he⟩ := (h _ _ repliedBy_readyLines).left _ rfl
  exact not_imsiLine_readyLines (List.append_cancel_right he ▸ hl)

end Gsm
