import SecureHome.Lib.Trace
import SecureHome.Littlefs.Calls

open File (LfsError Name State maxFileSizeBytes)

-- Any sequence of calls for an open file.
namespace Littlefs

inductive Request
  | write (data : List UInt8)
  | read (size : ℕ)
  | seek (off : Int32)
  | sync

inductive Reply
  | count (n : ℕ)
  | bytes (data : List UInt8)
  | done
  deriving DecidableEq

abbrev Outcome :=
  Except LfsError Reply

def serve (cfg : Config) : Request → Lfs Reply
  | .write data => do return .count (← fileWrite cfg data)
  | .read size  => do return .bytes (← fileRead cfg size)
  | .seek off   => do return .count (← fileSeek cfg off)
  | .sync       => do fileSync cfg; return .done

-- LittleFS returns the number of bytes as a signed one.
def Request.Allowed : Request → Prop
  | .write data => data.length < 2 ^ 31
  | _           => True

instance : DecidablePred Request.Allowed
  | .write _ => inferInstanceAs (Decidable (_ < _))
  | .read _  => .isTrue trivial
  | .seek _  => .isTrue trivial
  | .sync    => .isTrue trivial

def Called (cfg : Config) (faults : Faults) (e : Request × Outcome) (v v' : Volume) : Prop :=
  e.1.Allowed ∧ (serve cfg e.1).run.Ends (exec cfg faults) v e.2 v'

-- A run ends with a call that fails, unless that was not an error of the flash and has left all as it was.
def Served (cfg : Config) (faults : Faults) (e : Request × Outcome) (v v' : Volume) : Prop :=
  Called cfg faults e v v' ∧ match e.2 with
    | .ok _    => True
    | .error _ => Called cfg { faults with errors := fun _ _ => [] } e v v' ∧ v' = v

-- What `lfs_file_opencfg_` loads from the directory entry of a file.
def opened (v : Volume) : Volume :=
  match v.entry with
  | .inline data   => { v with
    bytes  := Function.update v.bytes blockInline (data.getD · 0)
    caches := Function.update v.caches .file (some (blockInline, 0))
    file   := {
      head := blockInline, size := data.length, pos := 0, block := 0, off := 0, isInline := true
      reading := false, writing := false, dirty := false, erred := false } }
  | .ctz head size => { v with
    caches := Function.update v.caches .file none
    file   := {
      head := head, size := size, pos := 0, block := 0, off := 0, isInline := false
      reading := false, writing := false, dirty := false, erred := false } }

variable {cfg : Config} {faults : Faults} {v v₀ : Volume} {f : File.LfsFile} {bytes : List UInt8}

open Prog

-- A volume with a file that is not open.
structure Closed (cfg : Config) (v : Volume) (bytes : List UInt8) : Prop where
  stored   : Stored cfg v bytes v.entry
  length   : bytes.length ≤ maxFileSizeBytes
  inlined  : ∀ data, v.entry = .inline data → data.length ≤ cfg.inlineMax
  others   : ∀ b ∈ v.others, v.Tracked cfg b
  inv      : v.allocator.Inv cfg.toAllocConfig
  pcache   : v.caches .pcache = none
  asserted : v.asserted = true

theorem Closed.steady (h : Closed cfg v bytes) : Steady cfg (opened v) (.opened bytes) := by
  have hag {n : ℕ} {file : LfsFile} (hn : n = bytes.length)
      (hf : file.pos = 0 ∧ file.size = n ∧ file.reading = false ∧
      file.writing = false ∧ file.dirty = false ∧ file.erred = false) : Agrees file (.opened bytes) := by
    obtain ⟨hp, hs, hr, hw, hd, he⟩ := hf
    exact ⟨hp, hs.trans hn, hr, hw, hd, he, Nat.zero_le _, h.length, h.length,
      fun hw' => absurd hw' (by simp [File.LfsFile.opened])⟩
  have hs := h.stored
  have ho := h.others
  unfold opened
  cases hv : v.entry
  case inline data =>
    rw [hv] at hs
    obtain rfl : data = bytes := hs
    refine .of_not_writing (K := Any) ⟨h.asserted, h.inv, ho, hag rfl ⟨rfl, rfl, rfl, rfl, rfl, rfl⟩, ?_,
      fun _ => ⟨rfl, ?_, h.inlined data hv, ?_, ?_, trivial⟩, fun hi' => absurd hi' (by simp),
      fun hi' => absurd hi' (by simp)⟩ rfl (.of_inline h.pcache rfl rfl)
    case refine_1 => exact rfl
    case refine_2 =>
      intro i a ha
      have ha : data[i]? = some a := ha
      refine (congrFun (Function.update_self blockInline (data.getD · 0) v.bytes) i).trans ?_
      rw [List.getD_eq_getElem?_getD, ha]
      rfl
    case refine_3 => exact fun h => absurd h (by simp [File.LfsFile.opened])
    case refine_4 => exact fun h => absurd h (by simp [File.LfsFile.opened])
  case ctz head size =>
    rw [hv] at hs
    obtain ⟨rfl, pre, off, hh, hb⟩ := hs
    refine .of_not_writing (K := Any) ⟨h.asserted, h.inv, ho, hag rfl ⟨rfl, rfl, rfl, rfl, rfl, rfl⟩, ?_,
      fun hi' => absurd hi' (by simp), fun _ => .inl ⟨pre, off, ?_, fun hd b hm => ⟨(hb hd b hm).left, ?_⟩,
        fun _ => rfl, fun _ hd b hm => (hb hd b hm).right.right.symm, ?_, trivial⟩,
      fun _ h => absurd h (by simp [File.LfsFile.opened])⟩ rfl (.of_none h.pcache rfl rfl rfl)
    case refine_1 => exact ⟨rfl, pre, off, hh, hb⟩
    case refine_2 => exact hh.congr fun hd b hm => (hb hd b hm).right.right
    case refine_3 => exact fun h => absurd h (by simp [File.LfsFile.opened])
    case refine_4 => exact fun h => absurd h (by simp [File.LfsFile.opened])

section

variable {τ : Type} [DecidableEq τ] {t : τ} {s : State τ} {name : Name} {es : List (Request × Outcome)}

theorem Follows.map {α : Type} {q : File.Lfs α} {r : Except LfsError α} {g : α → Reply}
    (h : Follows cfg t s name q f r v) :
    Follows cfg t s name (do return g (← q)) f (r.map g) v := by
  obtain ⟨f', hc, h'⟩ := h
  refine ⟨f', ?_, h'.map⟩
  cases r
  case ok    => exact hc.bind .pure
  case error => exact hc.bind_error

theorem Served.steady {e : Request × Outcome} {f' : File.LfsFile} (hs : Served cfg faults e v₀ v)
    (h : Steady cfg v₀ f) (hl : Leaves cfg e.2 v f') : Steady cfg v f' := by
  obtain ⟨q, r⟩ := e
  cases r
  case ok    => exact hl.steady
  case error =>
    obtain rfl : v = v₀ := hs.right.right
    have hw : f'.writing = f.writing := hl.represents.agrees.writing.symm.trans h.represents.agrees.writing
    exact ⟨hl.represents, fun h' => h.filled (hw ▸ h'), h.cached⟩

end

end Littlefs
