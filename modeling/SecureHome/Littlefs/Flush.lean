import SecureHome.Littlefs.Reads

open File (LfsError maxFileSizeBytes)

-- A flush keeps what the blocks stand for and brings it to the flash.
namespace Littlefs

variable {cfg : Config} {K K' : Along} {faults : Faults} {v v₀ : Volume} {f : File.LfsFile} {n : ℕ}

open Prog

abbrev Any : Along :=
  fun _ _ => True

theorem Represents.mono (h : Represents cfg K v f) (hk : ∀ o blocks, K o blocks → K' o blocks) :
    Represents cfg K' v f :=
  { h with
    inlined := fun hi => { h.inlined hi with along := hk _ _ (h.inlined hi).along }
    chained := fun hi => (h.chained hi).imp
      (fun ⟨pre, off, hc⟩ => ⟨pre, off, { hc with along := hk _ _ hc.along }⟩)
      fun hd => { hd with along := hk _ _ hd.along } }

theorem Represents.any (h : Represents cfg K v f) : Represents cfg Any v f :=
  h.mono fun _ _ _ => trivial

theorem Represents.stopped (h : Represents cfg K v f) :
    Represents cfg K (v.modify ({ · with reading := false }) .file) { f with reading := false } where
  asserted    := h.asserted
  inv         := h.inv
  others      := h.others
  agrees      := { h.agrees with
    reading := rfl
    branch  := fun hw => ⟨(h.agrees.branch hw).left, rfl⟩ }
  entry       := h.entry.modify
  inlined hi  := { h.inlined hi with
    block  := fun hw => (h.inlined hi).block (hw.imp_right fun hr => absurd hr (by simp))
    pos_lt := fun hr => absurd hr (by simp) }
  chained hi  := (h.chained hi).imp
    (fun ⟨pre, off, hc⟩ => ⟨pre, off, { hc with reading := fun hr => absurd hr (by simp) }⟩)
    fun hd => { hd with }
  branched hi hw := (h.branched hi hw).imp fun _ hb => { hb with }

-- What was programmed so far has reached the flash.
theorem Represents.synced (h : Represents cfg K v f) : Represents cfg K { v with flash := v.bytes } f where
  asserted := h.asserted
  inv      := h.inv
  others   := h.others
  agrees   := h.agrees
  entry    := by
    have he := h.entry
    unfold Stored at he ⊢
    cases hs : v.entry
    case inline => rwa [hs] at he
    case ctz    =>
      rw [hs] at he
      obtain ⟨hl, pre, off, hh, hb⟩ := he
      exact ⟨hl, pre, off, hh.congr fun hd b hm => (hb hd b hm).right.right, fun hd b hm =>
        ⟨(hb hd b hm).left, (hb hd b hm).right.left, rfl⟩⟩
  inlined hi  := { h.inlined hi with }
  chained hi  :=
    (h.chained hi).imp (fun ⟨pre, off, hc⟩ => ⟨pre, off, { hc with flushed := fun _ _ _ _ => rfl }⟩)
    fun hd => { hd with }
  branched hi hw := (h.branched hi hw).imp fun _ hb => { hb with }

-- A file that refers to the blocks as of the last flush and was read up to a position.
def Copies (cfg : Config) (bytes : List UInt8) (pos : ℕ) : Along :=
  fun o blocks => o.isInline = false ∧ o.size = bytes.length ∧ o.pos = pos ∧ ∃ pre, blocks = pre ++ [o.head] ∧
    (o.reading = true →
      o.off = cfg.blockSize ∨ ∃ i, Located cfg.blockSize pos i o.off ∧ blocks[i]? = some o.block)

theorem Represents.modify_orig {g : LfsFile → LfsFile} {pre : List ℕ} {off : ℕ} (h : Represents cfg K v f)
    (hi : v.file.isInline = false) (hc : Chained cfg K v f pre off)
    (hk : K' (g v.orig) (pre ++ [v.file.head])) : Represents cfg K' (v.modify g .orig) f :=
  { h with
    entry   := h.entry.modify
    inlined := fun hi' => absurd (hi.symm.trans hi') (by simp)
    chained := fun _ => .inl ⟨pre, off, { hc with along := hk }⟩
    branched := fun hi hw => (h.branched hi hw).imp fun _ hb => { hb with } }

theorem Represents.copies {p : ℕ} (h : Represents cfg (Copies cfg f.ctz p) v f) :
    v.file.isInline = false ∧ ∃ pre off, Chained cfg (Copies cfg f.ctz p) v f pre off ∧
      Readable cfg pre v v.orig f.ctz ∧ v.orig.pos = p ∧ v.orig.head = v.file.head ∧ v.orig.isInline = false := by
  have hn : ¬ Copies cfg f.ctz p v.orig [] := fun ⟨_, _, _, pre, he, _⟩ => by simp at he
  have hi : v.file.isInline = false := Bool.eq_false_of_not_eq_true fun hi => hn (h.inlined hi).along
  obtain ⟨pre, off, hc⟩ := (h.chained hi).resolve_right fun hd => hn hd.along
  obtain ⟨ho, hs, hp, pre', he, hr⟩ := hc.along
  obtain ⟨rfl, hh⟩ := List.append_inj' he rfl
  have hh : v.file.head = v.orig.head := List.singleton_inj.mp hh
  refine ⟨hi, pre, off, hc,
    ⟨hs, ?_, fun ho' => absurd (ho.symm.trans ho') (by simp), fun _ => ⟨off, ?_, ?_⟩⟩, hp,
    hh.symm, ho⟩
  case refine_1 => exact Nat.lt_of_le_of_lt h.agrees.size_le (by decide)
  case refine_2 => exact hh ▸ hc.holds
  case refine_3 =>
    rw [hp, ← hh]
    exact hr

theorem Represents.copied {p k : ℕ} {pre : List ℕ} (h : Represents cfg (Copies cfg f.ctz p) v₀ f)
    (hi : v₀.file.isInline = false) {off : ℕ} (hc : Chained cfg (Copies cfg f.ctz p) v₀ f pre off)
    (hh : v₀.orig.head = v₀.file.head) (ho : v₀.orig.isInline = false) (hp : v₀.orig.pos = p)
    (ha : Advanced cfg pre v₀ .orig f.ctz k v) :
    Represents cfg (Copies cfg f.ctz (p + k)) v f ∧ v.file = v₀.file := by
  have hr := ha.readable
  have hpos := ha.pos
  rcases ha.eq_orig with ⟨rfl, rfl⟩ | ⟨block, off', rfl⟩
  case inl => exact ⟨h, rfl⟩
  case inr =>
    refine ⟨h.modify_orig hi hc ⟨ho, hr.size, ?_, pre, ?_, fun hr' => ?_⟩, rfl⟩
    case refine_1 => rw [← hp]; rfl
    case refine_2 => rw [← hh]; rfl
    case refine_3 =>
      obtain ⟨_, -, hl⟩ := hr.chained ho
      have hl := hl hr'
      rw [hpos] at hl
      rw [← hp, ← hh]
      exact hl

theorem Advanced.filled {pre : List ℕ} {bytes : List UInt8} {k : ℕ} (h : Advanced cfg pre v₀ .orig bytes k v)
    (hf : Filled cfg v₀) : Filled cfg v := by
  rcases h.eq_orig with ⟨-, rfl⟩ | ⟨block, off, rfl⟩
  case inl => exact hf
  case inr => exact hf

theorem Advanced.cached_orig {pre : List ℕ} {bytes : List UInt8} {k : ℕ} (h : Advanced cfg pre v₀ .orig bytes k v)
    (hc : Cached cfg v₀) : Cached cfg v := by
  rcases h.eq_orig with ⟨-, rfl⟩ | ⟨block, off, rfl⟩
  case inl => exact hc
  case inr => exact { hc with }

theorem put_nil : put f [] = f := by
  simp [put]

-- The byte at the position is copied with the program that may be stopped by errors.
theorem does_copyByte (hs : faults.Spares cfg) (h : Represents cfg (Copies cfg f.ctz f.pos) v₀ f)
    (hw : f.writing = true) (hlt : f.pos < f.ctz.length) (hf : Filled cfg v₀) (hcached : Cached cfg v₀) :
    FallibleHoare (exec cfg faults) (fun v => v = v₀) (copyByte cfg)
      (fun _ v => Represents cfg (Copies cfg f.ctz (f.pos + 1)) v (put f ((f.ctz.drop f.pos).take 1)) ∧
        Filled cfg v ∧ Cached cfg v)
      fun _ v => Represents cfg Any v f ∨ Represents cfg Any v (marked f) := by
  obtain ⟨hin, pre, off, hc, hr, hp, hh, ho⟩ := h.copies
  have hl : ((f.ctz.drop f.pos).take 1).length = 1 := by
    rw [List.length_take, List.length_drop]
    omega
  have hne : (f.ctz.drop f.pos).take 1 ≠ [] := List.ne_nil_of_length_pos (by omega)
  have hwr : wrote f ((f.ctz.drop f.pos).take 1) = put f ((f.ctz.drop f.pos).take 1) := by
    rw [wrote, if_neg hne, started_of_writing hw]
  refine FallibleHoare.bind ((does_fileFlushedRead (w := .orig) hr).weaken_error
    fun _ v hv => ?_) fun data => does_of_eq fun v₁ hv₁ => ?_
  case refine_1 =>
    obtain ⟨k, hk, ha⟩ := hv
    exact .inl (h.copied hin hc hh ho hp ha).left.any
  obtain ⟨hd, ha, _⟩ := hv₁
  obtain rfl : data = (f.ctz.drop f.pos).take 1 := by rw [hd, ← hp]; rfl
  obtain ⟨h₁, -⟩ := h.copied hin hc hh ho hp ha
  rw [hl] at h₁
  refine (does_fileFlushedWrite hs h₁ (fun _ => ha.filled hf) (ha.cached_orig hcached)
    (h.agrees.branch hw).right (fun hw' => absurd (hw.symm.trans hw') (by simp)) ?_).weaken (fun _ h => h)
    (fun _ v hv => ?_) fun _ v hv => ?_
  case refine_1 =>
    have := h.agrees.size_le
    omega
  case refine_2 =>
    rw [hwr] at hv
    exact ⟨hv.left, hv.right.left hw, hv.right.right⟩
  case refine_3 =>
    rcases hv.right with hv | ⟨k, hk, hv⟩
    case inl => exact .inr hv.any
    case inr =>
      obtain rfl : k = 0 := by omega
      rw [List.take_zero, started_of_writing hw, put_nil] at hv
      exact .inr hv.any

-- What is behind the branch is copied byte by byte.
theorem does_copyTail (hs : faults.Spares cfg) (h : Represents cfg (Copies cfg f.ctz f.pos) v₀ f)
    (hw : f.writing = true) (hn : f.pos + n ≤ f.ctz.length) (hf : Filled cfg v₀) (hcached : Cached cfg v₀) :
    FallibleHoare (exec cfg faults) (fun v => v = v₀) (copyTail cfg n)
      (fun _ v => Represents cfg Any v (put f ((f.ctz.drop f.pos).take n)) ∧ v.file.isInline = false ∧
        Filled cfg v ∧ Cached cfg v)
      fun _ v => ∃ k < n, Represents cfg Any v (put f ((f.ctz.drop f.pos).take k)) ∨
        Represents cfg Any v (marked (put f ((f.ctz.drop f.pos).take k))) := by
  induction n generalizing f v₀
  case zero =>
    refine .pure fun v hv => ?_
    subst hv
    rw [List.take_zero, put_nil]
    exact ⟨h.any, h.copies.left, hf, hcached⟩
  case succ n hi =>
    refine FallibleHoare.bind ((does_copyByte hs h hw (by omega) hf hcached).weaken_error fun _ v hv =>
      ⟨0, Nat.succ_pos n, ?_⟩) fun _ => does_of_eq fun v₁ hv₁ => ?_
    case refine_1 =>
      rw [List.take_zero, put_nil]
      exact hv
    obtain ⟨h₁, hf₁, hc₁⟩ := hv₁
    generalize hd : (f.ctz.drop f.pos).take 1 = data at h₁
    have hl : data.length = 1 := by
      rw [← hd, List.length_take, List.length_drop]
      omega
    have hpos : f.pos + 1 = (put f data).pos := by rw [put, hl]
    have htake : ∀ k, put (put f data) (((put f data).ctz.drop (put f data).pos).take k) =
        put f ((f.ctz.drop f.pos).take (k + 1)) := by
      intro k
      have hdrop : (put f data).ctz.drop (put f data).pos = (f.ctz.drop f.pos).drop 1 := by
        rw [List.drop_drop, put, hl]
      rw [put_put, hdrop, ← hd, ← List.take_add, Nat.add_comm]
    rw [hpos] at h₁
    refine (@hi v₁ (put f data) h₁ hw ?_ hf₁ hc₁).weaken (fun _ h => h) (fun _ v hv => ?_) fun _ v hv => ?_
    case refine_1 =>
      rw [← hpos]
      change f.pos + 1 + n ≤ f.ctz.length
      omega
    case refine_2 =>
      rw [htake] at hv
      exact hv
    case refine_3 =>
      obtain ⟨k, hk, hv⟩ := hv
      rw [htake] at hv
      exact ⟨k + 1, Nat.succ_lt_succ hk, hv⟩

theorem does_flushBlock (h : Represents cfg K v₀ f) (hw : f.writing = true) (hi : v₀.file.isInline = false)
    (hf : Filled cfg v₀) (hp : v₀.caches .pcache = none) (hn : v₀.available cfg < n) :
    FallibleHoare (exec cfg faults) (fun v => v = v₀) (flushBlock cfg n)
      (fun _ v => Represents cfg K v f ∧ v.file.isInline = false ∧ Filled cfg v ∧ v.flash = v.bytes ∧
        v.caches .file = none ∧ v.caches .pcache = none)
      fun _ v => Represents cfg K v f := by
  induction n generalizing v₀
  case zero => exact absurd hn (Nat.not_lt_zero _)
  case succ n ih =>
    refine FallibleHoare.bind (I := fun ok v => if ok = true then
        Represents cfg K v f ∧ v.file.isInline = false ∧ Filled cfg v ∧ v.flash = v.bytes ∧
          v.caches .file = none ∧ v.caches .pcache = none
      else v = v₀)
      (does_orRelocate (F := fun _ v => v = v₀) (does_flush ?_ fun _ _ hv => hv) (fun _ hv => hv) ?_) fun ok => ?_
    case refine_1 => rintro v rfl; exact ⟨h.synced.setCache, hi, hf, rfl, setCache_caches, by simpa using hp⟩
    case refine_2 => rintro _ v rfl; exact h
    cases ok
    case true  => exact .pure fun v hv => hv
    case false =>
      refine FallibleHoare.bind ((does_fileRelocate (h.accounted fun _ => hf) (h.off_le hi hw)
        (fun hi ho => h.kept_block (fun _ => hf) hi hw ho) hp available_le).weaken_error
        fun _ v hv => h.frame (fun _ => hf) hv) fun _ => does_of_eq ?_
      rintro _ ⟨v₁, nblock, hm, rfl⟩
      have hfile := hm.frame.file
      refine ih (h.moved (fun _ => hf) hi hw hm) ?_ (fun _ => ⟨hm.tracked, ?_⟩) hm.pcache
        (Nat.lt_of_lt_of_le hm.available_lt (Nat.le_of_lt_succ hn))
      case refine_1 =>
        change v₁.file.isInline = false
        rw [hfile]
        exact hi
      case refine_2 =>
        change HasData cfg { v₁.file with block := nblock, writing := true }
        rw [hfile]
        exact (hf hi).right

-- The file after a flush, which goes back to the position.
def settled (f : File.LfsFile) (pos : ℕ) : File.LfsFile :=
  { f with ctz := f.branch, writing := false, dirty := true, pos := pos }

theorem Represents.flushed {pos : ℕ} (h : Represents cfg K v f) (hw : f.writing = true)
    (hi : v.file.isInline = false) (hf : Filled cfg v) (hs : v.flash = v.bytes) (hp : pos ≤ maxFileSizeBytes) :
    Represents cfg Any (v.modify (fun file =>
      { file with head := file.block, size := file.pos, writing := false, dirty := true, pos := pos }) .file)
      (settled f pos) := by
  obtain ⟨hl, hr⟩ := h.agrees.branch hw
  have hpos := h.agrees.pos
  have hle := h.agrees.pos_le
  obtain ⟨pre, hb⟩ := h.branched hi hw
  have hh := hb.holds (hl.trans hpos.symm) (lt_of_le_maxFileSizeBytes (hl.trans_le hle)) (hf hi).right
  refine ⟨h.asserted, h.inv, h.others, ?_, h.entry.modify, fun hi' => absurd (hi.symm.trans hi') (by simp),
    fun _ => .inl ⟨pre, v.file.off, hh,
      fun hd b hm => ⟨hb.tracked hd b hm, fun hw' => absurd hw' (by simp [settled])⟩,
      fun hd => absurd hd (by simp [settled]), fun _ _ b _ => congrFun hs b,
      fun hr' => absurd (hr.symm.trans hr') (by simp), trivial⟩, fun _ hw' => ?_⟩
  case refine_1 =>
    exact { h.agrees with
      pos     := rfl
      size    := hpos.trans hl.symm
      writing := rfl
      dirty   := rfl
      pos_le  := hp
      size_le := hl.trans_le hle
      branch  := fun hw' => absurd hw' (by simp [settled]) }
  case refine_2 => exact absurd hw' (by simp [settled])

theorem Represents.flushed_inline (h : Represents cfg K v f) (hw : f.writing = true)
    (hi : v.file.isInline = true) :
    Represents cfg Any (v.modify (fun file =>
      { file with head := file.block, size := max file.pos file.size, writing := false, dirty := true }) .file)
      (settled (put f (f.ctz.drop f.pos)) f.pos) := by
  obtain ⟨hl, hr⟩ := h.agrees.branch hw
  have hin := h.inlined hi
  have hc : (settled (put f (f.ctz.drop f.pos)) f.pos).content = f.content := by
    rw [content_of_not_writing (f := settled _ _) rfl, File.LfsFile.content, if_pos hw]
    rfl
  have hlen : (f.branch ++ f.ctz.drop f.pos).length = max f.pos f.ctz.length := by
    rw [List.length_append, List.length_drop, hl]
    omega
  have hp := h.agrees.pos_le
  have hz := h.agrees.size_le
  refine ⟨h.asserted, h.inv, h.others, ?_, h.entry.modify,
    fun _ => ⟨(hin.block (.inl hw)).left, ?_, ?_, fun hw' => ?_, fun hr' => ?_,
    trivial⟩, fun hi' => absurd (hi.symm.trans hi') (by simp), fun hi' => absurd (hi.symm.trans hi') (by simp)⟩
  case refine_1 =>
    exact { h.agrees with
      size    := by
        change max v.file.pos v.file.size = _
        rw [h.agrees.pos, h.agrees.size]
        exact hlen.symm
      writing := rfl
      dirty   := rfl
      size_le := hlen.trans_le (by omega)
      branch  := fun hw' => absurd hw' (by simp [settled]) }
  case refine_2 => exact hc ▸ hin.content
  case refine_3 => exact hc ▸ hin.length
  case refine_4 => exact absurd hw' (by simp [settled, put, hr])
  case refine_5 => exact absurd (hr.symm.trans hr') (by simp)

theorem Represents.any_orig {g : LfsFile → LfsFile} (h : Represents cfg K v f) :
    Represents cfg Any (v.modify g .orig) f :=
  { h with
    entry   := h.entry.modify
    inlined := fun hi => { h.inlined hi with along := trivial }
    chained := fun hi => (h.chained hi).imp
      (fun ⟨pre, off, hc⟩ => ⟨pre, off, { hc with along := trivial }⟩) fun hd => { hd with along := trivial }
    branched := fun hi hw => (h.branched hi hw).imp fun _ hb => { hb with } }

theorem does_fetch_orig {P : Volume → Prop} {Q : Unit → Volume → Prop} {R : LfsError → Volume → Prop}
    (h : ∀ v, P v → Q () v) : FallibleHoare (exec cfg faults) P (cacheFetch .orig) Q R :=
  does_cacheFetch fun v c hv hc => by
    rw [hc rfl, setCache_self]
    exact h v hv

-- There is no block that an inline file could be read from.
theorem does_read_dangling (hi : v₀.orig.isInline = false) (hr : v₀.orig.reading = false)
    (hh : v₀.orig.head = blockInline) (hs : v₀.orig.size ≤ cfg.inlineMax) (hp : v₀.orig.pos < v₀.orig.size) :
    FallibleHoare (exec cfg faults) (fun v => v = v₀) (fileFlushedRead cfg .orig 1) (fun _ _ => False)
      fun _ v => ∃ g, v = v₀.modify g .orig := by
  have hB := cfg.le_blockSize
  have hm := cfg.inlineMax_le
  have hfind : ctzFind cfg blockInline v₀.orig.size v₀.orig.pos =
      (return (blockInline, v₀.orig.pos) : Lfs (ℕ × ℕ)) := by
    have hseek : ctzSeek 0 0 blockInline = return blockInline := by rw [ctzSeek, if_neg (Nat.lt_irrefl 0)]
    rw [ctzFind, if_neg (by omega), index_of_lt (by omega), index_of_lt (by omega)]
    exact congrArg (· >>= fun block => return (block, v₀.orig.pos)) hseek
  have hblock : FallibleHoare (exec cfg faults) (fun v => v = v₀) (readBlock cfg .orig)
      (fun _ v => v = v₀.modify (readTo 0 blockInline v₀.orig.pos) .orig)
      fun _ v => ∃ g, v = v₀.modify g .orig := by
    refine FallibleHoare.bind (I := fun file v => file = v₀.orig ∧ v = v₀)
      (does_load fun v hv => ⟨by rw [hv]; rfl, hv⟩) fun file => .and_left fun he => ?_
    subst he
    rw [hi, hh, hfind]
    refine FallibleHoare.bind (I := fun _ v => v = v₀) (does_fetch_orig fun _ h => h) fun _ => ?_
    exact does_update fun v hv => by rw [hv]; rfl
  have hloc : FallibleHoare (exec cfg faults) (fun v => v = v₀) (locateBlock cfg .orig)
      (fun _ v => v = v₀.modify (readTo 0 blockInline v₀.orig.pos) .orig)
      fun _ v => ∃ g, v = v₀.modify g .orig := by
    refine FallibleHoare.bind (I := fun file v => file = v₀.orig ∧ v = v₀)
      (does_load fun v hv => ⟨by rw [hv]; rfl, hv⟩) fun file => .and_left fun he => ?_
    subst he
    rw [hr]
    exact hblock
  refine FallibleHoare.bind (I := fun file v => file = v₀.orig ∧ v = v₀)
    (does_load fun v hv => ⟨by rw [hv]; rfl, hv⟩) fun file => .and_left fun he => ?_
  subst he
  rw [if_neg (by omega)]
  have hmin : min 1 (v₀.orig.size - v₀.orig.pos) = 1 := by omega
  simp only [hmin]
  refine FallibleHoare.bind (I := fun _ _ => False) ?_ fun _ _ _ _ hv => False.elim hv
  refine FallibleHoare.bind hloc fun _ => ?_
  refine FallibleHoare.bind (I := fun file v => file = readTo 0 blockInline v₀.orig.pos v₀.orig ∧
    v = v₀.modify (readTo 0 blockInline v₀.orig.pos) .orig)
    (does_load fun v hv => ⟨by rw [hv]; rfl, hv⟩) fun file => .and_left fun he => ?_
  subst he
  have hi' : (readTo 0 blockInline v₀.orig.pos v₀.orig).isInline = false := hi
  rw [hi']
  refine FallibleHoare.bind (I := fun _ _ => False) ?_ fun _ _ _ _ hv => False.elim hv
  refine FallibleHoare.bind (I := fun _ v => v = v₀.modify (readTo 0 blockInline v₀.orig.pos) .orig)
    (does_fetch_orig fun _ h => h) fun _ => ?_
  refine Hoare.perform (S := sig) (o := .read blockInline v₀.orig.pos _) fun v r v' hv hm => ?_
  have hout := cfg.blockCount_lt
  rw [exec, if_pos (.inr hout)] at hm
  cases List.mem_singleton.mp hm
  exact ⟨_, hv⟩

-- A flush that has failed has copied some of what is behind the branch.
def Interrupted (cfg : Config) (f : File.LfsFile) (v : Volume) : Prop :=
  (∃ k ≤ (f.ctz.drop f.pos).length, Represents cfg Any v (put f ((f.ctz.drop f.pos).take k))) ∨
    ∃ k < (f.ctz.drop f.pos).length, Represents cfg Any v (marked (put f ((f.ctz.drop f.pos).take k)))

-- The branch with all that is behind it in a block of its own.
def Copied (cfg : Config) (f : File.LfsFile) (v : Volume) : Prop :=
  Represents cfg Any v (put f (f.ctz.drop f.pos)) ∧ v.file.isInline = false ∧ Filled cfg v ∧ Cached cfg v

theorem does_copyBranch (hs : faults.Spares cfg) (h : Represents cfg K v₀ f) (hw : f.writing = true)
    (hi : v₀.file.isInline = false) (hf : Filled cfg v₀) (hcached : Cached cfg v₀) (ho : v₀.orig = {
      head := v₀.file.head, size := v₀.file.size, pos := v₀.file.pos, block := 0, off := 0
      isInline := false, reading := false, writing := false, dirty := false, erred := false }) :
    FallibleHoare (exec cfg faults) (fun v => v = v₀) (copyTail cfg (v₀.file.size - v₀.file.pos))
      (fun _ => Copied cfg f) fun _ => Interrupted cfg f := by
  have hpos := h.agrees.pos
  have hsize := h.agrees.size
  have hlen : (f.ctz.drop f.pos).length = v₀.file.size - v₀.file.pos := by rw [List.length_drop, hpos, hsize]
  rcases Nat.lt_or_ge f.pos f.ctz.length with hlt | hge
  case inr =>
    have hz : v₀.file.size - v₀.file.pos = 0 := by omega
    have hn : f.ctz.drop f.pos = [] := List.drop_eq_nil_of_le hge
    rw [hz]
    refine .pure fun v hv => ?_
    subst hv
    refine ⟨?_, hi, hf, hcached⟩
    rw [hn, put_nil]
    exact h.any
  case inl =>
    rcases h.chained hi with ⟨pre, off, hc⟩ | hd
    case inl =>
      have hk : Copies cfg f.ctz f.pos v₀.orig (pre ++ [v₀.file.head]) := by
        rw [ho]
        exact ⟨rfl, hsize, hpos, pre, rfl, fun hr => absurd hr (by simp)⟩
      have h' : Represents cfg (Copies cfg f.ctz f.pos) v₀ f := h.modify_orig (g := id) hi hc hk
      rw [← hlen]
      refine (does_copyTail hs h' hw ?_ hf hcached).weaken (fun _ h => h) (fun _ v hv => ?_) fun _ v hv => ?_
      case refine_1 =>
        rw [List.length_drop]
        omega
      case refine_2 =>
        rw [List.take_length] at hv
        exact hv
      case refine_3 =>
        obtain ⟨k, hk, hv | hv⟩ := hv
        case inl => exact .inl ⟨k, hk.le, hv⟩
        case inr => exact .inr ⟨k, hk, hv⟩
    case inr =>
      obtain ⟨n, hn⟩ := Nat.exists_eq_succ_of_ne_zero (show v₀.file.size - v₀.file.pos ≠ 0 by omega)
      rw [hn]
      refine FallibleHoare.bind (I := fun _ _ => False) ?_ fun _ _ _ _ hv => False.elim hv
      refine FallibleHoare.bind (I := fun _ _ => False) ((does_read_dangling ?_ ?_ ?_ ?_ ?_).weaken_error
        fun _ v hv => ?_) fun _ _ _ _ hv => False.elim hv
      case refine_1 => rw [ho]
      case refine_2 => rw [ho]
      case refine_3 => rw [ho]; exact hd.head
      case refine_4 => rw [ho]; exact hsize.trans_le hd.length
      case refine_5 =>
        rw [ho]
        change v₀.file.pos < v₀.file.size
        omega
      case refine_6 =>
        obtain ⟨g, rfl⟩ := hv
        refine .inl ⟨0, Nat.zero_le _, ?_⟩
        rw [List.take_zero, put_nil]
        exact h.any_orig

theorem does_flushBranch (hs : faults.Spares cfg) (h : Represents cfg K v₀ f) (hw : f.writing = true)
    (hf : Filled cfg v₀) (hc : Cached cfg v₀) :
    FallibleHoare (exec cfg faults) (fun v => v = v₀) (flushBranch cfg)
      (fun _ v => Represents cfg Any v (settled (put f (f.ctz.drop f.pos)) f.pos) ∧ Cached cfg v)
      fun _ => Interrupted cfg f := by
  refine FallibleHoare.bind (I := fun file v => file = v₀.file ∧ v = v₀)
    (does_load fun v hv => ⟨by rw [hv]; rfl, hv⟩) fun file => .and_left fun he => ?_
  subst he
  cases hi : v₀.file.isInline
  case true =>
    refine FallibleHoare.bind (I := fun _ v => v = v₀.modify (fun file =>
      { file with pos := max file.pos file.size }) .file) (does_update fun v hv => by rw [hv]) fun _ => ?_
    refine does_update fun v hv => ?_
    subst hv
    have h' := h.flushed_inline hw hi
    exact ⟨h', .of_inline hc.pcache hi (hc.inlined hi)⟩
  case false =>
    refine FallibleHoare.bind (I := fun _ v => v = v₀.modify (fun _ => {
      head := v₀.file.head, size := v₀.file.size, pos := v₀.file.pos, block := 0, off := 0
      isInline := false, reading := false, writing := false, dirty := false, erred := false }) .orig)
      (does_update fun v hv => by rw [hv]) fun _ => ?_
    refine FallibleHoare.bind (does_copyBranch hs (h.any_orig (g := fun _ => {
      head := v₀.file.head, size := v₀.file.size, pos := v₀.file.pos, block := 0, off := 0
      isInline := false, reading := false, writing := false, dirty := false, erred := false })) hw hi hf
      { hc with } rfl) fun _ => does_of_eq fun v₁ ⟨h₁, hi₁, hf₁, hc₁⟩ => ?_
    refine FallibleHoare.bind ((does_flushBlock h₁ hw hi₁ hf₁ hc₁.pcache available_le).weaken_error
      fun _ v hv => .inl ⟨_, le_rfl, ?_⟩) fun _ => does_update fun v ⟨h₂, hi₂, hf₂, hfl, hfile, hpcache⟩ => ?_
    case refine_1 =>
      rw [List.take_length]
      exact hv
    case refine_2 =>
      rw [h.agrees.pos]
      exact ⟨h₂.flushed hw hi₂ hf₂ hfl h.agrees.pos_le, .of_none hpcache hi₂ rfl hfile⟩

def afterFlush (f : File.LfsFile) : File.LfsFile :=
  if f.writing then settled (put f (f.ctz.drop f.pos)) f.pos else { f with reading := false }

theorem does_stopReading (h : Represents cfg K v₀ f) (hf : f.writing = true → Filled cfg v₀) (hc : Cached cfg v₀) :
    FallibleHoare (exec cfg faults) (fun v => v = v₀) stopReading
      (fun _ v => Represents cfg K v { f with reading := false } ∧ (f.writing = true → Filled cfg v) ∧ Cached cfg v)
      fun _ _ => False := by
  refine FallibleHoare.bind (I := fun file v => file = v₀.file ∧ v = v₀)
    (does_load fun v hv => ⟨by rw [hv]; rfl, hv⟩) fun file => .and_left fun he => ?_
  subst he
  rw [h.agrees.reading]
  cases hr : f.reading
  case false =>
    have he : { f with reading := false } = f := by rw [← hr]
    exact .pure fun v hv => hv ▸ ⟨he.symm ▸ h, hf, hc⟩
  case true =>
    have hw : f.writing = false := Bool.eq_false_of_not_eq_true fun hw =>
      absurd ((h.agrees.branch hw).right.symm.trans hr) (by simp)
    cases hi : v₀.file.isInline
    case true =>
      refine does_update fun v hv => ?_
      subst hv
      exact ⟨h.stopped, hf, .of_inline hc.pcache hi (hc.inlined hi)⟩
    case false =>
      refine FallibleHoare.bind (I := fun _ v => v = v₀.setCache .file none)
        (does_cacheDrop fun v hv => by rw [hv]) fun _ => does_update fun v hv => ?_
      subst hv
      exact ⟨h.setCache.stopped, fun hw' => absurd (hw.symm.trans hw') (by simp),
        .of_none hc.pcache hi (h.agrees.writing.trans hw) rfl⟩

theorem does_fileFlush (hs : faults.Spares cfg) (h : Represents cfg K v₀ f)
    (hf : f.writing = true → Filled cfg v₀) (hc : Cached cfg v₀) :
    FallibleHoare (exec cfg faults) (fun v => v = v₀) (fileFlush cfg)
      (fun _ v => Represents cfg Any v (afterFlush f) ∧ Cached cfg v)
      fun _ v => f.writing = true ∧ Interrupted cfg f v := by
  refine FallibleHoare.bind ((does_stopReading h hf hc).weaken_error fun _ _ h => h.elim) fun _ =>
    does_of_eq fun v₁ ⟨h₁, hf₁, hc₁⟩ => ?_
  refine FallibleHoare.bind (I := fun file v => file = v₁.file ∧ v = v₁)
    (does_load fun v hv => ⟨by rw [hv]; rfl, hv⟩) fun file => .and_left fun he => ?_
  subst he
  have hw₁ : v₁.file.writing = f.writing := h₁.agrees.writing
  rw [hw₁]
  cases hw : f.writing
  case false =>
    refine .pure fun v hv => ?_
    have ha : afterFlush f = { f with reading := false } := if_neg (by simp [hw])
    rw [hv, ha]
    exact ⟨h₁.any, hc₁⟩
  case true =>
    have he : { f with reading := false } = f := by rw [← (h.agrees.branch hw).right]
    rw [he] at h₁
    have ha : afterFlush f = settled (put f (f.ctz.drop f.pos)) f.pos := if_pos hw
    rw [ha]
    exact (does_flushBranch hs h₁ hw (hf₁ hw) hc₁).weaken_error fun _ _ h => ⟨rfl, h⟩

end Littlefs
