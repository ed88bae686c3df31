import Mathlib.Data.List.TakeDrop
import Mathlib.Tactic.Common

namespace List

variable {α : Type} {zero a : α} {bytes data data' : List α} {offset i : ℕ}

-- The bytes after data was written at an offset. A gap in front of the data is filled with zeroes.
def overlay (zero : α) (bytes : List α) (offset : ℕ) (data : List α) : List α :=
  bytes.takeD offset zero ++ data ++ bytes.drop (offset + data.length)

theorem overlay_of_le (h : offset ≤ bytes.length) :
    overlay zero bytes offset data =
      bytes.take offset ++ data ++ bytes.drop (offset + data.length) := by
  rw [overlay, takeD_eq_take zero h]

theorem takeD_of_length_le (h : bytes.length ≤ offset) :
    bytes.takeD offset zero = bytes ++ replicate (offset - bytes.length) zero := by
  induction bytes generalizing offset
  case nil => simp
  case cons b bytes hi =>
    obtain ⟨n, rfl⟩ : ∃ n, offset = n + 1 := ⟨offset - 1, by simp at h; omega⟩
    simp_all

-- The gap may as well be filled before the data is written.
theorem overlay_gap (h : bytes.length ≤ offset) :
    overlay zero bytes bytes.length (replicate (offset - bytes.length) zero ++ data) =
      overlay zero bytes offset data := by
  rw [overlay_of_le (Nat.le_refl _), overlay, takeD_of_length_le h]
  simp [drop_of_length_le]
  omega

theorem overlay_append :
    overlay zero (overlay zero bytes offset data) (offset + data.length) data' =
      overlay zero bytes offset (data ++ data') := by
  have hl : offset + data.length ≤ (overlay zero bytes offset data).length := by
    simp [overlay, takeD_length]
  have ht : (overlay zero bytes offset data).take (offset + data.length) =
      bytes.takeD offset zero ++ data := by
    simp [overlay, takeD_length, take_append]
  have hp : (bytes.takeD offset zero ++ data).length = offset + data.length := by
    rw [length_append, takeD_length]
  have hd : (overlay zero bytes offset data).drop (offset + data.length + data'.length) =
      bytes.drop (offset + (data ++ data').length) := by
    rw [overlay, ← hp, drop_length_add_append, drop_drop, hp, length_append, Nat.add_assoc]
  rw [overlay_of_le hl, ht, hd, overlay, append_assoc _ data]

@[simp]
theorem overlay_nil (h : offset ≤ bytes.length) : overlay zero bytes offset [] = bytes := by
  simp [overlay_of_le h]

theorem length_overlay :
    (overlay zero bytes offset data).length = max bytes.length (offset + data.length) := by
  simp [overlay, takeD_length]
  omega

-- Writing the byte that is there already.
theorem overlay_getElem (h : bytes[i]? = some a) : overlay zero bytes i [a] = bytes := by
  have ⟨hl, ha⟩ := getElem?_eq_some_iff.mp h
  rw [overlay_of_le (Nat.le_of_lt hl), ← ha, length_singleton, append_assoc, singleton_append,
    getElem_cons_drop, take_append_drop]

end List
