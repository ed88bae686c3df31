import SecureHome.Littlefs.Writes

open File (LfsError maxFileSizeBytes)

-- Reading a file returns the bytes its blocks stand for.
namespace Littlefs

-- The bytes of a file that is read from.
structure Readable (cfg : Config) (pre : List ℕ) (v : Volume) (file : LfsFile) (bytes : List UInt8) : Prop where
  size    : file.size = bytes.length
  lt      : bytes.length < 2 ^ 32
  inlined : file.isInline = true → bytes.length ≤ cfg.inlineMax ∧
    (∀ i a, bytes[i]? = some a → v.bytes blockInline i = a) ∧
    (file.reading = true → file.block = blockInline ∧ file.off = file.pos)
  chained : file.isInline = false → ∃ off, Holds cfg v.bytes pre file.head off bytes ∧
    (file.reading = true → file.off = cfg.blockSize ∨
      ∃ i, Located cfg.blockSize file.pos i file.off ∧ (pre ++ [file.head])[i]? = some file.block)

-- A file after some of its bytes were read.
def readTo (k block off : ℕ) (file : LfsFile) : LfsFile :=
  { file with pos := file.pos + k, block := block, off := off, reading := true }

-- The bytes at the offset are those at the position.
structure Reached (cfg : Config) (pre : List ℕ) (v : Volume) (file : LfsFile) (bytes : List UInt8) : Prop where
  readable : Readable cfg pre v file bytes
  reading  : file.reading = true
  off_lt   : file.off < cfg.blockSize

-- What is read of a file with blocks may be left in its cache.
def Fetches (w : Which) (v : Volume) (c : Option (ℕ × ℕ)) : Prop :=
  w = .orig ∨ (v.get w).isInline = true → c = v.caches .file

variable {cfg : Config} {faults : Faults} {v v₀ : Volume} {w : Which} {bytes : List UInt8} {pre : List ℕ}
  {nsize n k : ℕ} {cache : Cache} {c : Option (ℕ × ℕ)}

open Prog

theorem Readable.modify {g : LfsFile → LfsFile} {file : LfsFile} (h : Readable cfg pre v file bytes) :
    Readable cfg pre (v.modify g w) file bytes := by
  cases w <;> exact { h with }

theorem Readable.setCache {file : LfsFile} (h : Readable cfg pre v file bytes) :
    Readable cfg pre (v.setCache cache c) file bytes :=
  { h with }

@[simp]
theorem get_setCache : (v.setCache cache c).get w = v.get w := by
  cases w <;> rfl

@[simp]
theorem setCache_self : v.setCache cache (v.caches cache) = v := by
  rw [Volume.setCache, Function.update_eq_self]

@[simp]
theorem setCache_setCache {c' : Option (ℕ × ℕ)} : (v.setCache cache c).setCache cache c' = v.setCache cache c' := by
  rw [Volume.setCache, Volume.setCache, Function.update_idem]
  rfl

theorem setCache_modify {g : LfsFile → LfsFile} :
    (v.modify g w).setCache cache c = (v.setCache cache c).modify g w := by
  cases w <;> rfl

@[simp]
theorem caches_modify {g : LfsFile → LfsFile} : (v.modify g w).caches = v.caches := by
  cases w <;> rfl

theorem fetches_self : Fetches w v (v.caches .file) :=
  fun _ => rfl

theorem modify_congr {g g' : LfsFile → LfsFile} (h : g (v.get w) = g' (v.get w)) :
    v.modify g w = v.modify g' w := by
  cases w
  case file => exact congrArg (fun file => { v with file := file }) h
  case orig => exact congrArg (fun file => { v with orig := file }) h

@[simp]
theorem get_modify {g : LfsFile → LfsFile} : (v.modify g w).get w = g (v.get w) := by
  cases w <;> rfl

@[simp]
theorem modify_modify {g g' : LfsFile → LfsFile} :
    (v.modify g w).modify g' w = v.modify (fun file => g' (g file)) w := by
  cases w <;> rfl

theorem modify_of_eq {g : LfsFile → LfsFile} (h : g (v.get w) = v.get w) : v.modify g w = v := by
  cases w
  case file => exact congrArg (fun file => { v with file := file }) h
  case orig => exact congrArg (fun file => { v with orig := file }) h

theorem readTo_self {file : LfsFile} (h : file.reading = true) : readTo 0 file.block file.off file = file := by
  rw [readTo, ← h]
  rfl

theorem Readable.off_lt {file : LfsFile} (h : Readable cfg pre v file bytes) (hr : file.reading = true)
    (hne : file.off ≠ cfg.blockSize) (hp : file.pos < bytes.length) : file.off < cfg.blockSize := by
  cases hi : file.isInline
  case true =>
    obtain ⟨hl, -, hb⟩ := h.inlined hi
    have ho := (hb hr).right
    have hB := cfg.le_blockSize
    have hm := cfg.inlineMax_le
    omega
  case false =>
    obtain ⟨_, -, hl⟩ := h.chained hi
    obtain ⟨_, hl, -⟩ := (hl hr).resolve_left hne
    exact hl.lt

theorem does_readBlock (h : Readable cfg pre v₀ (v₀.get w) bytes) (hp : (v₀.get w).pos < bytes.length) :
    FallibleHoare (exec cfg faults) (fun v => v = v₀) (readBlock cfg w)
      (fun _ v => ∃ c, Fetches w v₀ c ∧ ∃ block off, v = (v₀.setCache .file c).modify (readTo 0 block off) w ∧
        Reached cfg pre v₀ (readTo 0 block off (v₀.get w)) bytes)
      fun _ v => ∃ c, Fetches w v₀ c ∧ v = v₀.setCache .file c := by
  refine FallibleHoare.bind (I := fun file v => file = v₀.get w ∧ v = v₀)
    (does_load fun v hv => ⟨by rw [hv], hv⟩) fun file => .and_left fun he => ?_
  subst he
  have hlt := h.lt
  cases hi : (v₀.get w).isInline
  case false =>
    obtain ⟨off, hh, -⟩ := h.chained hi
    have hne : bytes ≠ [] := List.ne_nil_of_length_pos (by omega)
    have ⟨hb, ho⟩ := hh.resolve_left fun he => hne he.left
    refine FallibleHoare.bind (I := fun _ v => ∃ c, Fetches w v₀ c ∧ v = v₀.setCache .file c)
      (does_cacheFetch fun v c hv hc => ⟨c, ?_, by rw [hv]⟩) fun _ => does_of_eq fun v₁ ⟨c, hc, hv₁⟩ => ?_
    case refine_1 =>
      subst hv
      exact fun hor => hc (hor.resolve_right (by simp [hi]))
    refine FallibleHoare.bind (I := fun r v => v = v₁ ∧ ∃ j, Located cfg.blockSize (v₀.get w).pos j r.2 ∧
      (pre ++ [(v₀.get w).head])[j]? = some r.1) ?_ fun r => ?_
    case refine_1 =>
      have hchain : ∀ v, v = v₁ → Chain cfg v.bytes (pre ++ [(v₀.get w).head]) bytes := by
        rintro v rfl
        rw [hv₁]
        exact hb.chain
      rw [h.size]
      exact (does_ctzFind hchain h.lt (hb.located ho) (by simp) hp).weaken_error fun _ _ hv => ⟨c, hc, hv.trans hv₁⟩
    refine does_update fun v ⟨hv, j, hl, hj⟩ => ⟨c, hc, r.1, r.2, ?_, ?_⟩
    case refine_1 => rw [hv, hv₁]; rfl
    case refine_2 =>
      refine ⟨⟨h.size, h.lt, fun hi' => absurd (hi.symm.trans hi') (by simp), fun _ => ?_⟩, rfl, hl.lt⟩
      exact ⟨off, hh, fun _ => .inr ⟨j, hl, hj⟩⟩
  case true =>
    have hl := (h.inlined hi).left
    have hB := cfg.le_blockSize
    have hm := cfg.inlineMax_le
    refine does_update fun v hv => ⟨_, fetches_self, blockInline, (v₀.get w).pos, ?_,
      ⟨h.size, h.lt, fun _ => ?_, fun hi' => ?_⟩, rfl, ?_⟩
    case refine_1 => rw [hv, setCache_self]; exact modify_congr rfl
    case refine_2 => exact ⟨hl, (h.inlined hi).right.left, fun _ => ⟨rfl, rfl⟩⟩
    case refine_3 => exact absurd (hi.symm.trans hi') (by simp)
    case refine_4 =>
      change (v₀.get w).pos < cfg.blockSize
      omega

-- The next bytes are all in the same block.
theorem Reached.view {d : ℕ} {file : LfsFile} (h : Reached cfg pre v file bytes)
    (hd : d ≤ cfg.blockSize - file.off) (hp : file.pos + d ≤ bytes.length) :
    v.view file.block file.off d = (bytes.drop file.pos).take d := by
  refine List.ext_getElem? fun i => ?_
  rcases Nat.lt_or_ge i d with hi | hi
  case inr =>
    rw [List.getElem?_eq_none (by simpa [Volume.view] using hi), List.getElem?_eq_none (by simp; omega)]
  case inl =>
    have ha : bytes[file.pos + i]? = some bytes[file.pos + i] := List.getElem?_eq_getElem (by omega)
    rw [List.getElem?_take_of_lt hi, List.getElem?_drop, ha, Volume.view, List.getElem?_map,
      List.getElem?_range hi, Option.map_some]
    refine congrArg some ?_
    have hr := h.readable
    have hoff := h.off_lt
    cases hc : file.isInline
    case true =>
      obtain ⟨-, hb, hblock⟩ := hr.inlined hc
      rw [(hblock h.reading).left, (hblock h.reading).right]
      exact hb _ _ ha
    case false =>
      obtain ⟨off, hh, hl⟩ := hr.chained hc
      have hne : bytes ≠ [] := List.ne_nil_of_length_pos (by omega)
      obtain ⟨hb, -⟩ := hh.resolve_left fun he => hne he.left
      obtain ⟨j, hl, hj⟩ := (hl h.reading).resolve_left (by omega)
      obtain ⟨b, hb', ha'⟩ := hb.chain.content _ _ _ _ ha (hl.add (d := i) (by omega))
      obtain rfl := Option.some.inj (hj.symm.trans hb')
      exact ha'

theorem Reached.readTo {d : ℕ} {file : LfsFile} (h : Reached cfg pre v file bytes)
    (hd : d ≤ cfg.blockSize - file.off) :
    Readable cfg pre v (readTo d file.block (file.off + d) file) bytes := by
  have hr := h.readable
  have hoff := h.off_lt
  refine ⟨hr.size, hr.lt, fun hc => ?_, fun hc => ?_⟩
  case refine_1 =>
    obtain ⟨hl, hb, hblock⟩ := hr.inlined hc
    have ⟨he, ho⟩ := hblock h.reading
    exact ⟨hl, hb, fun _ => ⟨he, congrArg (· + d) ho⟩⟩
  case refine_2 =>
    obtain ⟨off, hh, hl⟩ := hr.chained hc
    obtain ⟨j, hl, hj⟩ := (hl h.reading).resolve_left (by omega)
    refine ⟨off, hh, fun _ => ?_⟩
    rcases Nat.lt_or_ge (file.off + d) cfg.blockSize with hlt | hge
    case inl => exact .inr ⟨j, hl.add hlt, hj⟩
    case inr => exact .inl (show file.off + d = cfg.blockSize by omega)

theorem does_locateBlock (h : Readable cfg pre v₀ (v₀.get w) bytes) (hp : (v₀.get w).pos < bytes.length) :
    FallibleHoare (exec cfg faults) (fun v => v = v₀) (locateBlock cfg w)
      (fun _ v => ∃ c, Fetches w v₀ c ∧ ∃ block off, v = (v₀.setCache .file c).modify (readTo 0 block off) w ∧
        Reached cfg pre v₀ (readTo 0 block off (v₀.get w)) bytes)
      fun _ v => ∃ c, Fetches w v₀ c ∧ v = v₀.setCache .file c := by
  refine FallibleHoare.bind (I := fun file v => file = v₀.get w ∧ v = v₀)
    (does_load fun v hv => ⟨by rw [hv], hv⟩) fun file => .and_left fun he => ?_
  subst he
  split
  case isTrue  => exact does_readBlock h hp
  case isFalse hc =>
    rw [Bool.or_eq_true, Bool.not_eq_true', decide_eq_true_eq, not_or, Bool.not_eq_false] at hc
    have hf : readTo 0 (v₀.get w).block (v₀.get w).off (v₀.get w) = v₀.get w := readTo_self hc.left
    refine .pure fun v hv => ⟨_, fetches_self, (v₀.get w).block, (v₀.get w).off, ?_, ?_⟩
    case refine_1 => rw [hv, setCache_self, modify_of_eq hf]
    case refine_2 =>
      rw [hf]
      exact ⟨h, hc.left, h.off_lt hc.left hc.right hp⟩

-- The bytes from the position on were read.
structure Advanced (cfg : Config) (pre : List ℕ) (v₀ : Volume) (w : Which) (bytes : List UInt8) (k : ℕ)
    (v : Volume) : Prop where
  readable : Readable cfg pre v (v.get w) bytes
  eq       : ∃ c, Fetches w v₀ c ∧ (k = 0 ∧ v = v₀.setCache .file c ∨
    ∃ block off, v = (v₀.setCache .file c).modify (readTo k block off) w)

namespace Advanced

theorem of_setCache (h : Readable cfg pre v₀ (v₀.get w) bytes) (hc : Fetches w v₀ c)
    (he : v = v₀.setCache .file c) : Advanced cfg pre v₀ w bytes 0 v := by
  subst he
  refine ⟨?_, c, hc, .inl ⟨rfl, rfl⟩⟩
  rw [get_setCache]
  exact h.setCache

theorem of_eq (h : Readable cfg pre v₀ (v₀.get w) bytes) (he : v = v₀) : Advanced cfg pre v₀ w bytes 0 v :=
  of_setCache h fetches_self (he.trans setCache_self.symm)

theorem caches_file (h : Advanced cfg pre v₀ w bytes k v) : Fetches w v₀ (v.caches .file) := by
  obtain ⟨c, hc, ⟨-, rfl⟩ | ⟨b, o, rfl⟩⟩ := h.eq
  case inl => rwa [setCache_caches]
  case inr => rwa [caches_modify, setCache_caches]

theorem isInline (h : Advanced cfg pre v₀ w bytes k v) : (v.get w).isInline = (v₀.get w).isInline := by
  obtain ⟨c, hc, ⟨-, rfl⟩ | ⟨b, o, rfl⟩⟩ := h.eq
  case inl => rw [get_setCache]
  case inr => rw [get_modify, get_setCache]; rfl

theorem pos (h : Advanced cfg pre v₀ w bytes k v) : (v.get w).pos = (v₀.get w).pos + k := by
  obtain ⟨c, hc, ⟨rfl, rfl⟩ | ⟨b, o, rfl⟩⟩ := h.eq
  case inl => rw [get_setCache, Nat.add_zero]
  case inr => rw [get_modify, get_setCache]; rfl

theorem eq_orig (h : Advanced cfg pre v₀ .orig bytes k v) :
    k = 0 ∧ v = v₀ ∨ ∃ block off, v = v₀.modify (readTo k block off) .orig := by
  obtain ⟨c, hc, he⟩ := h.eq
  rwa [hc (.inl rfl), setCache_self] at he

theorem trans {k' : ℕ} {v₁ : Volume} (h : Advanced cfg pre v₀ w bytes k v₁)
    (h' : Advanced cfg pre v₁ w bytes k' v) :
    Advanced cfg pre v₀ w bytes (k + k') v := by
  have hcache := h.caches_file
  have hin := h.isInline
  obtain ⟨c', hc', he'⟩ := h'.eq
  obtain ⟨c, hc, he⟩ := h.eq
  refine ⟨h'.readable, c', fun ho => (hc' (hin ▸ ho)).trans (hcache ho), ?_⟩
  rcases he' with ⟨rfl, rfl⟩ | ⟨b', o', rfl⟩ <;> rcases he with ⟨rfl, rfl⟩ | ⟨b, o, rfl⟩
  case inl.inl => exact .inl ⟨rfl, setCache_setCache⟩
  case inl.inr => exact .inr ⟨b, o, by rw [setCache_modify, setCache_setCache, Nat.add_zero]⟩
  case inr.inl => exact .inr ⟨b', o', by rw [setCache_setCache, Nat.zero_add]⟩
  case inr.inr =>
    refine .inr ⟨b', o', ?_⟩
    rw [setCache_modify, setCache_setCache, modify_modify]
    exact modify_congr (by simp only [readTo, Nat.add_assoc])

end Advanced

-- Only the cache of a file that is marked as one that is read from is in use.
theorem Cached.advanced (hc : Cached cfg v₀) (hw : v₀.file.writing = false)
    (h : Advanced cfg pre v₀ .file bytes k v) (hk : 0 < k) : Cached cfg v := by
  obtain ⟨c, hf, ⟨rfl, -⟩ | ⟨block, off, rfl⟩⟩ := h.eq
  case inl => exact absurd hk (Nat.lt_irrefl 0)
  case inr =>
    exact {
      pcache      := hc.pcache
      inlined hi  := (hf (.inr hi)).trans (hc.inlined hi)
      writing _ h := absurd (hw.symm.trans h) (by simp)
      idle _ _ h  := absurd h (by simp [Volume.modify, readTo]) }

-- The bytes of a block are read through the cache of the file.
theorem does_readData {d : ℕ} {file : LfsFile} (h : Reached cfg pre v₀ file bytes) (he : file = v₀.get w) :
    FallibleHoare (exec cfg faults) (fun v => v = v₀)
      (if file.isInline then
        readInline file.off d
      else do
        cacheFetch w
        bdRead file.block file.off d)
      (fun data v => data = v₀.view file.block file.off d ∧ ∃ c, Fetches w v₀ c ∧ v = v₀.setCache .file c)
      fun _ v => ∃ c, Fetches w v₀ c ∧ v = v₀.setCache .file c := by
  cases hi : file.isInline
  case true =>
    obtain ⟨hl, hb, hblock⟩ := h.readable.inlined hi
    rw [(hblock h.reading).left]
    exact does_readInline fun v hv => ⟨by rw [hv], _, fetches_self, hv.trans setCache_self.symm⟩
  case false =>
    refine FallibleHoare.bind (I := fun _ v => ∃ c, Fetches w v₀ c ∧ v = v₀.setCache .file c)
      (does_cacheFetch fun v c hv hc => ⟨c, ?_, by rw [hv]⟩) fun _ => does_read ?_ fun _ _ hv => hv
    case refine_1 =>
      subst hv
      exact fun ho => hc (ho.resolve_right (by simp [← he, hi]))
    case refine_2 =>
      rintro v ⟨c, hc, hv⟩
      exact ⟨by rw [hv]; rfl, c, hc, hv⟩

theorem does_readChunk (h : Readable cfg pre v₀ (v₀.get w) bytes) (hp : (v₀.get w).pos + nsize ≤ bytes.length)
    (hn : 0 < nsize) :
    FallibleHoare (exec cfg faults) (fun v => v = v₀) (readChunk cfg w nsize)
      (fun data v => 0 < data.length ∧ data.length ≤ nsize ∧
        data = (bytes.drop (v₀.get w).pos).take data.length ∧ Advanced cfg pre v₀ w bytes data.length v)
      fun _ v => Advanced cfg pre v₀ w bytes 0 v := by
  refine FallibleHoare.bind ((does_locateBlock h (by omega)).weaken_error fun _ v hv => ?_) fun _ =>
    does_of_eq fun v₁ hv₁ => ?_
  case refine_1 =>
    obtain ⟨c, hc, hv⟩ := hv
    exact .of_setCache h hc hv
  obtain ⟨c, hc, block, off, hv₁, hr⟩ := hv₁
  refine FallibleHoare.bind (I := fun file v => file = v₁.get w ∧ v = v₁)
    (does_load fun v hv => ⟨by rw [hv], hv⟩) fun file => .and_left fun he => ?_
  have hf : file = readTo 0 block off (v₀.get w) := by rw [he, hv₁, get_modify, get_setCache]
  have hr₁ : Reached cfg pre v₁ file bytes := by
    rw [hf, hv₁]
    exact ⟨hr.readable.setCache.modify, hr.reading, hr.off_lt⟩
  have hoff := hr₁.off_lt
  have hpos : file.pos = (v₀.get w).pos := by rw [hf]; rfl
  generalize hm : min nsize (cfg.blockSize - file.off) = d
  have hview := hr₁.view (d := d) (by omega) (by omega)
  have hlen : (v₁.view file.block file.off d).length = d := by simp [Volume.view]
  have ha : Advanced cfg pre v₀ w bytes 0 v₁ := by
    refine ⟨?_, c, hc, .inr ⟨block, off, hv₁⟩⟩
    rw [← he]
    exact hr₁.readable
  refine FallibleHoare.bind ((does_readData hr₁ he).weaken_error fun _ v hv => ?_) fun data => .and_left fun hd => ?_
  case refine_1 =>
    obtain ⟨c, hc, hv⟩ := hv
    exact ha.trans (.of_setCache ha.readable hc hv)
  subst hd
  refine does_of_eq fun v₂ hv₂ => ?_
  obtain ⟨c', hc', hv₂⟩ := hv₂
  have hget : v₂.get w = file := by rw [hv₂, get_setCache, he]
  refine FallibleHoare.bind (I := fun _ v => v = v₂.modify (readTo d file.block (file.off + d)) w)
    (does_update fun v hv => ?_) fun _ => .pure fun v hv => ?_
  case refine_1 =>
    subst hv
    refine modify_congr ?_
    rw [hget, readTo, ← hr₁.reading]
  case refine_2 =>
    rw [hlen]
    refine ⟨by omega, by omega, by rw [hview, hpos], ?_⟩
    rw [← Nat.zero_add d]
    refine ha.trans ⟨?_, c', hc', .inr ⟨_, _, hv₂ ▸ hv⟩⟩
    rw [hv, get_modify, hget, hv₂]
    exact (hr₁.readTo (by omega)).setCache.modify

theorem does_readBytes (h : Readable cfg pre v₀ (v₀.get w) bytes) (hp : (v₀.get w).pos + nsize ≤ bytes.length)
    (hn : nsize ≤ n) :
    FallibleHoare (exec cfg faults) (fun v => v = v₀) (readBytes cfg w n nsize)
      (fun data v => data = (bytes.drop (v₀.get w).pos).take nsize ∧ Advanced cfg pre v₀ w bytes nsize v ∧
        (nsize = 0 → v = v₀))
      fun _ v => ∃ k < nsize, Advanced cfg pre v₀ w bytes k v := by
  induction n generalizing v₀ nsize
  case zero =>
    obtain rfl := Nat.le_zero.mp hn
    exact .pure fun v hv => ⟨rfl, Advanced.of_eq h hv, fun _ => hv⟩
  case succ n hi =>
    cases nsize
    case zero => exact .pure fun v hv => ⟨rfl, Advanced.of_eq h hv, fun _ => hv⟩
    case succ nsize =>
      refine FallibleHoare.bind ((does_readChunk h hp (Nat.succ_pos _)).weaken_error
        fun _ v ha => ⟨0, Nat.succ_pos _, ha⟩) fun data => does_of_eq ?_
      rintro v₁ ⟨hz, hle, hd, ha⟩
      have hpos := ha.pos
      refine FallibleHoare.bind ((hi ha.readable ?_ ?_).weaken_error fun _ v hv => ?_)
        fun data' => .pure fun v hv => ?_
      case refine_1 => omega
      case refine_2 => omega
      case refine_3 =>
        obtain ⟨k, hk, hv⟩ := hv
        exact ⟨_, by omega, ha.trans hv⟩
      case refine_4 =>
        obtain ⟨rfl, hv, -⟩ := hv
        have hs : nsize + 1 = data.length + (nsize + 1 - data.length) := by omega
        refine ⟨?_, by rw [hs]; exact ha.trans hv, fun hz => absurd hz (Nat.succ_ne_zero _)⟩
        calc
          data ++ (bytes.drop (v₁.get w).pos).take (nsize + 1 - data.length) =
              (bytes.drop (v₀.get w).pos).take data.length ++
                ((bytes.drop (v₀.get w).pos).drop data.length).take (nsize + 1 - data.length) := by
            rw [← hd, hpos, List.drop_drop]
          _ = (bytes.drop (v₀.get w).pos).take (nsize + 1) := by
            rw [← List.take_add, ← hs]

theorem does_fileFlushedRead {size : ℕ} (h : Readable cfg pre v₀ (v₀.get w) bytes) :
    FallibleHoare (exec cfg faults) (fun v => v = v₀) (fileFlushedRead cfg w size)
      (fun data v => data = (bytes.drop (v₀.get w).pos).take size ∧ Advanced cfg pre v₀ w bytes data.length v ∧
        (data = [] → v = v₀))
      fun _ v => ∃ k < ((bytes.drop (v₀.get w).pos).take size).length, Advanced cfg pre v₀ w bytes k v := by
  refine FallibleHoare.bind (I := fun file v => file = v₀.get w ∧ v = v₀)
    (does_load fun v hv => ⟨by rw [hv], hv⟩) fun file => .and_left fun he => ?_
  subst he
  rw [h.size]
  split
  case isTrue hc =>
    refine .pure fun v hv => ⟨?_, Advanced.of_eq h hv, fun _ => hv⟩
    rw [List.drop_eq_nil_of_le hc, List.take_nil]
  case isFalse hc =>
    have hl : ((bytes.drop (v₀.get w).pos).take size).length = min size (bytes.length - (v₀.get w).pos) := by simp
    refine (does_readBytes h ?_ le_rfl).weaken (fun _ h => h) (fun data v hv => ?_) fun _ v hv => ?_
    case refine_1 => omega
    case refine_2 =>
      obtain ⟨hd, ha, hz⟩ := hv
      have ht : (bytes.drop (v₀.get w).pos).take (min size (bytes.length - (v₀.get w).pos)) =
          (bytes.drop (v₀.get w).pos).take size := by
        rw [List.take_eq_take_iff, List.length_drop, Nat.min_assoc, Nat.min_self]
      refine ⟨hd.trans ht, by rwa [hd, ht, hl], fun hn => hz ?_⟩
      rw [← hl, ← hd.trans ht, hn, List.length_nil]
    case refine_3 => rwa [hl]

section

variable {K : Along} {f : File.LfsFile}

-- The file after a number of its bytes were read.
def skimmed (f : File.LfsFile) (k : ℕ) : File.LfsFile :=
  { f with pos := f.pos + k, reading := true }

theorem content_of_not_writing (hw : f.writing = false) : f.content = f.ctz := by
  simp [File.LfsFile.content, hw]

theorem Represents.readable (h : Represents cfg K v f) (hw : f.writing = false) :
    ∃ pre, Readable cfg pre v v.file f.ctz ∧ (v.file.isInline = false → ∃ off, Chained cfg K v f pre off) := by
  have hlt : f.ctz.length < 2 ^ 32 := Nat.lt_of_le_of_lt h.agrees.size_le (by decide)
  cases hi : v.file.isInline
  case true =>
    have hin := h.inlined hi
    have hc := content_of_not_writing hw
    refine ⟨[], ⟨h.agrees.size, hlt, fun _ => ⟨?_, ?_, fun hr => ?_⟩,
      fun hi' => absurd (hi.symm.trans hi') (by simp)⟩,
      fun hi' => absurd hi' (by simp)⟩
    case refine_1 => exact hc ▸ hin.length
    case refine_2 => exact hc ▸ hin.content
    case refine_3 =>
      obtain ⟨hb, ho⟩ := hin.block (.inr (h.agrees.reading.symm.trans hr))
      exact ⟨hb, ho.trans h.agrees.pos.symm⟩
  case false =>
    obtain ⟨pre, off, hc⟩ := (h.chained hi).resolve_right fun hd => absurd (hw.symm.trans hd.writing) (by simp)
    refine ⟨pre, ⟨h.agrees.size, hlt, fun hi' => absurd (hi.symm.trans hi') (by simp), fun _ =>
      ⟨off, hc.holds, fun hr => ?_⟩⟩, fun _ => ⟨off, hc⟩⟩
    rw [h.agrees.pos]
    exact hc.reading (h.agrees.reading.symm.trans hr)

theorem Represents.advanced (h : Represents cfg K v₀ f) (hw : f.writing = false)
    (hc : v₀.file.isInline = false → ∃ off, Chained cfg K v₀ f pre off)
    (ha : Advanced cfg pre v₀ .file f.ctz k v)
    (hk : f.pos + k ≤ f.ctz.length) :
    k = 0 ∧ Represents cfg K v f ∨ Represents cfg K v (skimmed f k) := by
  obtain ⟨c, -, he⟩ := ha.eq
  replace h : Represents cfg K (v₀.setCache .file c) f := h.setCache
  rcases he with ⟨rfl, rfl⟩ | ⟨block, off, hv⟩
  case inl => exact .inl ⟨rfl, h⟩
  case inr =>
    have hr := ha.readable
    have hpos := ha.pos
    subst hv
    refine .inr ⟨h.asserted, h.inv, h.others, ?_, h.entry.modify, fun hi => ?_, fun hi => .inl ?_,
      fun _ hw' => ?_⟩
    case refine_1 =>
      exact { h.agrees with
        pos     := congrArg (· + k) h.agrees.pos
        reading := rfl
        pos_le  := hk.trans h.agrees.size_le
        branch  := fun hw' => absurd (hw.symm.trans hw') (by simp) }
    case refine_2 =>
      have hin := h.inlined hi
      obtain ⟨-, -, hb⟩ := hr.inlined hi
      have hs : (skimmed f k).content = f.content :=
        (content_of_not_writing (f := skimmed f k) hw).trans (content_of_not_writing hw).symm
      refine ⟨hin.head, fun i a ha => hin.content i a (hs ▸ ha), hs ▸ hin.length,
        fun _ => ⟨(hb rfl).left, (hb rfl).right.trans
        (congrArg (· + k) h.agrees.pos)⟩, fun _ => ?_, hin.along⟩
      have hB := cfg.le_blockSize
      have hm := cfg.inlineMax_le
      have hl := hin.length
      rw [content_of_not_writing hw] at hl
      change f.pos + k < cfg.blockSize
      omega
    case refine_3 =>
      obtain ⟨off', hc⟩ := hc hi
      obtain ⟨_, -, hl⟩ := hr.chained hi
      refine ⟨pre, off', hc.holds, fun hd b hb => ⟨(hc.tracked hd b hb).left, fun hw' => ?_⟩, hc.clean,
        hc.flushed, fun _ => ?_, hc.along⟩
      case refine_1 => exact absurd (hw.symm.trans hw') (by simp)
      case refine_2 =>
        have hl := hl rfl
        rw [hpos] at hl
        rw [skimmed, ← h.agrees.pos]
        exact hl
    case refine_4 => exact absurd (hw.symm.trans hw') (by simp)

end

end Littlefs
