import SecureHome.File.Littlefs

namespace File.Owns

variable {τ ω : Type} [DecidableEq τ] {allowed : Call → Bool} {C : Pool.Cond sig τ LfsError (State τ)}
variable {O : Outline τ (State τ) ω} {t : τ} {name : Name} {A : LfsFile → ω → Prop}
variable {Fails : Access → LfsFile → Prop} {Skips : LfsFile → Prop} {v : List UInt8}

open LfsFile (Has)

theorem takes_seekOffset (h : Owns O allowed C t name A Fails Skips) {offset : UInt32} :
    Takes O allowed C t A (Has v)
      (tryLfs (Lfs.asserted name (lfsFileSeek name offset.toInt32)) .fileFailedToSeek)
      (fun _ file => offset.toNat ≤ maxFileSizeBytes ∧ Has v file ∧ file.pos = offset.toNat)
      fun file => Has v file ∧ (maxFileSizeBytes < offset.toNat ∨ MayFail Fails) :=
  .tryLfs (h.takes_asserted h.takes_seek)

-- A call of `write` writes all of its data, or it changes nothing unless the flash fails.
theorem takes_writeLocked (h : Owns O allowed C t name A Fails Skips) {data : List UInt8}
    {offset : UInt32} (hd : data.length < 2 ^ 31) :
    Takes O allowed C t A (Has v) (writeLocked name data offset)
      (fun _ file => offset.toNat + data.length ≤ maxFileSizeBytes ∧
        Has (v.overlay 0 offset.toNat data) file)
      fun file =>
        (Has v file ∧ (maxFileSizeBytes < offset.toNat + data.length ∨ MayFail Fails)) ∨
          ∃ v', Has v' file ∧ MayFailAt Fails v' := by
  apply Takes.bind
  case h =>
    apply h.takes_seekOffset.post
    exact fun _ ⟨hf, he⟩ => .inl ⟨hf, he.imp_left fun hm => Nat.lt_add_right _ hm⟩
  intro _
  apply Takes.intro
  rintro file ⟨hm, hf, hp⟩
  have hl : offset.toNat + data.length < 2 ^ 32 := by
    simp only [maxFileSizeBytes] at hm
    omega
  apply Takes.bind
  case h =>
    apply (Takes.run (h.takes_asserted (h.takes_write (v := v) hl))).pre
    exact fun _ he => he ▸ ⟨hf, hp⟩
  intro ret
  cases ret
  case error e => exact .throw fun _ hf => hf
  case ok n    =>
    apply Takes.intro
    rintro file ⟨rfl, hm, hf⟩
    rw [if_neg (by simp)]
    exact .pure fun _ he => he ▸ ⟨hm, hf⟩

-- A call of `read` returns the bytes at the offset, if there are enough of them.
theorem takes_readLocked (h : Owns O allowed C t name A Fails Skips) {size : ℕ} {offset : UInt32} :
    Takes O allowed C t A (Has v) (readLocked name size offset)
      (fun bytes file => Has v file ∧ bytes = (v.drop offset.toNat).take size ∧ bytes.length = size)
      fun file => Has v file ∧
        (maxFileSizeBytes < offset.toNat ∨ v.length < offset.toNat + size ∨ MayFail Fails) := by
  apply Takes.bind
  case h => exact h.takes_seekOffset.post fun _ ⟨hf, he⟩ => ⟨hf, he.imp_right .inr⟩
  intro _
  apply Takes.bind
  case h => exact (Takes.run (h.takes_asserted h.takes_read)).pre fun _ ⟨_, hf⟩ => hf
  intro ret
  cases ret
  case error e => exact .throw fun _ ⟨hf, he⟩ => ⟨hf, .inr (.inr he)⟩
  case ok bytes =>
    apply Takes.intro
    rintro file ⟨hf, hb⟩
    dsimp only
    split
    case isTrue hl  => exact .pure fun _ he => he ▸ ⟨hf, hb, hl⟩
    case isFalse hl =>
      apply Takes.throw
      rintro _ rfl
      refine ⟨hf, .inr (.inl ?_)⟩
      rw [hb, List.length_take, List.length_drop] at hl
      omega

theorem takes_syncLocked (h : Owns O allowed C t name A Fails Skips) :
    Takes O allowed C t A (Has v) (tryLfs (Lfs.asserted name (lfsFileSync name)) .fileFailedToSync)
      (fun _ file => Has v file ∧ (file.disk = v ∨ Skips file))
      fun file => Has v file ∧ MayFail Fails :=
  .tryLfs (h.takes_asserted h.takes_sync)

theorem takes_closeFile (h : Owns O allowed C t name A Fails Skips) :
    Takes O allowed C t A (Has v) (closeFile name)
      (fun _ file => Has v file ∧
        (file.disk = v ∨ ∃ file', Has v file' ∧ Skips file' ∧ file'.disk = file.disk))
      fun file => Has v file ∧ MayFail Fails :=
  .tryLfs (h.takes_asserted h.takes_close)

end File.Owns
