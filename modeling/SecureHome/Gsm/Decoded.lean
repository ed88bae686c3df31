import SecureHome.Gsm.Serialized

open Occurrence

namespace Gsm

variable {τ : Type} [DecidableEq τ] {os : Occurrences τ} {s₀ : State τ} {p : Pool sig τ (State τ)}
variable {x : τ × ℕ} {sms number numberFrame smsFrame : List UInt8} {checkSimStatus : Bool}

-- What a call of `send_sms` transmits, once it has transmitted everything.
theorem transmitted (h : Happened s₀ os p) (hc : callAt x os = some (.sendSms sms number checkSimStatus))
    (hf : Grouped.of x (frames os) =
      (if checkSimStatus then statusFrames else []) ++ [numberFrame, smsFrame]) :
    ¬Rejected sms number ∧ [numberFrame, smsFrame] = messageFrames sms number := by
  have hp : _ <+: commandFrames _ := h.serial.inOrder x _ hc
  rw [hf] at hp
  by_cases hr : Rejected sms number
  case pos =>
    rw [commandFrames, if_pos hr] at hp
    simpa using hp.length_le
  case neg =>
    rw [commandFrames, if_neg hr] at hp
    exact ⟨hr, ((List.prefix_append_right_inj _).mp hp).eq_of_length rfl⟩

-- The module gets what the call was given if and only if there is nothing in it that the frames have
-- another use for.
theorem decode_transmitted_iff (h : Happened s₀ os p)
    (hc : callAt x os = some (.sendSms sms number checkSimStatus))
    (hf : Grouped.of x (frames os) =
      (if checkSimStatus then statusFrames else []) ++ [numberFrame, smsFrame]) :
    decode numberFrame smsFrame = some (number, sms) ↔ Plain number sms := by
  have ⟨hr, he⟩ := transmitted h hc hf
  have ⟨_, _, hs, hn⟩ : sms ≠ [] ∧ number ≠ [] ∧ sms.length ≤ maxSmsLen ∧
      number.length ≤ maxPhoneNumberLen := by
    simpa only [Rejected, not_or, Nat.not_lt] using hr
  cases he
  exact decode_eq_some_iff hn hs

-- A run in which a call transmits both frames.
def messageRun (sms number : List UInt8) : List (Pool.Label Bool Call (Event Bool)) :=
  .call true (.sendSms sms number false) :: List.replicate 7 (.op true 0) ++
    [.event .endTransmit, .event (.answer (text ">")), .event .rxByte, .event .idleLine, .event .idleIrq] ++
    List.replicate 11 (.op true 0)

theorem decode_transmitted_plain :
    ∃ (os : Occurrences Bool) (p : Pool sig Bool (State Bool)), Happened (.initialized Bool) os p ∧
      ∃ numberFrame smsFrame, Grouped.of (true, 1) (frames os) = [numberFrame, smsFrame] ∧
        decode numberFrame smsFrame = some (text "08012345678", text "Intruder!") := by
  have ⟨os, p, h, hc⟩ := System.History.exists_of_record (apiSystem Bool) (.idle (.initialized Bool))
    (fun os _ => decide (callAt (true, 1) os = some (.sendSms (text "Intruder!") (text "08012345678") false) ∧
      Grouped.of (true, 1) (frames os) =
        [text "AT+CMGS=\"08012345678\"\r", text "Intruder!" ++ [0x1A]]))
    (messageRun (text "Intruder!") (text "08012345678")) (by decide +kernel)
  have ⟨hc, hf⟩ := of_decide_eq_true hc
  refine ⟨os, p, h, _, _, hf, (decode_transmitted_iff h hc hf).mpr ?_⟩
  constructor <;> decide +kernel

-- The text is ended by the first 0x1A in it, and what comes after that is taken as a command.
theorem decode_transmitted_ctrlZ :
    ∃ (os : Occurrences Bool) (p : Pool sig Bool (State Bool)), Happened (.initialized Bool) os p ∧
      callAt (true, 1) os =
        some (.sendSms (text "Hi" ++ [0x1A] ++ text "AT+CPOWD=1\r") (text "08012345678") false) ∧
      ∃ numberFrame smsFrame, Grouped.of (true, 1) (frames os) = [numberFrame, smsFrame] ∧
        decode numberFrame smsFrame ≠
          some (text "08012345678", text "Hi" ++ [0x1A] ++ text "AT+CPOWD=1\r") := by
  have ⟨os, p, h, hc⟩ := System.History.exists_of_record (apiSystem Bool) (.idle (.initialized Bool))
    (fun os _ => decide (callAt (true, 1) os =
        some (.sendSms (text "Hi" ++ [0x1A] ++ text "AT+CPOWD=1\r") (text "08012345678") false) ∧
      Grouped.of (true, 1) (frames os) =
        [text "AT+CMGS=\"08012345678\"\r", text "Hi" ++ [0x1A] ++ text "AT+CPOWD=1\r" ++ [0x1A]]))
    (messageRun (text "Hi" ++ [0x1A] ++ text "AT+CPOWD=1\r") (text "08012345678")) (by decide +kernel)
  have ⟨hc, hf⟩ := of_decide_eq_true hc
  exact ⟨os, p, h, hc, _, _, hf, by decide +kernel⟩

end Gsm
