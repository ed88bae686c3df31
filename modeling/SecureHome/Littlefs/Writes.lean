import SecureHome.Littlefs.Represents

open File (LfsError maxFileSizeBytes)

-- What writing to a file does to what its blocks stand for.
namespace Littlefs

variable {cfg : Config} {K : Along} {faults : Faults} {v v₀ : Volume} {f : File.LfsFile} {data : List UInt8} {n : ℕ}

open Prog

-- What becomes of a volume if data is programmed at the offset of the file.
structure Programmed (cfg : Config) (K : Along) (f : File.LfsFile) (data : List UInt8) (v₀ v : Volume) : Prop where
  represents : Represents cfg K (v.modify (advance data.length) .file) (put f data)
  isInline   : v.file.isInline = v₀.file.isInline
  off        : v.file.off = v₀.file.off
  tracked    : v.file.isInline = false → v.Tracked cfg v.file.block
  cached     : Cached cfg (v.modify (advance data.length) .file)

-- What is left of it if the block is a bad one.
structure Unprogrammed (cfg : Config) (K : Along) (f : File.LfsFile) (v₀ v : Volume) : Prop where
  represents : Represents cfg K v f
  isInline   : v₀.file.isInline = false
  file       : v.file = v₀.file
  allocator  : v.allocator = v₀.allocator
  hasData    : HasData cfg v₀.file
  pcache     : v.caches .pcache = none

theorem does_progBlock (hs : faults.Spares cfg) (h : Represents cfg K v₀ f) (hw : f.writing = true)
    (ht : v₀.file.isInline = false → v₀.Tracked cfg v₀.file.block) (hc : Cached cfg v₀)
    (hle : v₀.file.off + data.length ≤ cfg.blockSize)
    (hfit : v₀.file.isInline = true → max (f.pos + data.length) f.ctz.length ≤ cfg.inlineMax)
    (hl : f.pos + data.length ≤ maxFileSizeBytes) :
    FallibleHoare (exec cfg faults) (fun v => v = v₀) (orRelocate (bdProg .file v₀.file.block v₀.file.off data))
      (fun ok v => if ok = true then Programmed cfg K f data v₀ v else Unprogrammed cfg K f v₀ v)
      fun _ v => Represents cfg K v f := by
  cases hin : v₀.file.isInline
  case true =>
    obtain ⟨hb, ho⟩ := (h.inlined hin).block (.inl hw)
    rw [hb]
    refine does_orRelocate (F := fun _ _ => False) (does_prog_inline ?_ ?_ ?_) (fun _ h => h.elim)
      fun _ _ h => h.elim
    case refine_1 =>
      have := hfit hin
      omega
    case refine_2 => rintro v rfl; exact hc.inlined hin
    case refine_3 =>
      rintro v rfl
      exact ⟨h.wrote_inline hin hw (hfit hin) hl, rfl, rfl, ht, .of_inline hc.pcache hin (hc.inlined hin)⟩
  case false =>
    obtain ⟨pre, hb⟩ := h.branched hin hw
    have hm : v₀.file.block ∈ pre ++ [v₀.file.block] := List.mem_append_right _ (List.mem_singleton.mpr rfl)
    refine does_orRelocate (F := fun e v => Represents cfg K v f ∧
      (e = .corrupt → Unprogrammed cfg K f v₀ v)) (does_prog ?_ ?_ ?_ ?_)
      (fun _ h => h.right rfl) fun _ _ h => h.left
    case refine_1 => rintro v rfl; exact ⟨hb.fresh, hb.branch.chain.lt _ hm, hle⟩
    case refine_2 => rintro v rfl; exact hc.writing hin (h.agrees.writing.trans hw)
    case refine_3 =>
      rintro v flashRow rfl
      have h' : Represents cfg K (v.setCache .file (cfg.caught v.file.block (v.file.off + data.length))) f :=
        h.setCache
      refine ⟨h'.wrote hin hw (ht hin) hle hl, rfl, rfl, ht, .written ?_ hin ?_ ?_⟩
      case refine_1 => simpa using hc.pcache
      case refine_2 => exact (congrFun setBlock_caches _).trans setCache_caches
      case refine_3 => exact h.agrees.writing.trans hw
    case refine_4 =>
      rintro v e c row flashRow rfl he
      have hc' : Represents cfg K (v.setCache .file c) f := h.setCache
      have h' : Represents cfg K ((v.setCache .file c).setBlock v.file.block
          (spoil (v.bytes v.file.block) v.file.off data.length row) flashRow) f :=
        hc'.setBlock hin hw fun j hj => spoil_of_lt hj
      refine ⟨h', ?_⟩
      rintro rfl
      exact ⟨h', hin, rfl, rfl, hs _ data (h.agrees.writing.trans hw) hin he, by simpa using hc.pcache⟩

-- A block that turns out to be bad is replaced, and what is behind the offset is programmed again.
theorem does_progBytes (hs : faults.Spares cfg) (h : Represents cfg K v₀ f) (hw : f.writing = true)
    (ht : v₀.file.isInline = false → v₀.Tracked cfg v₀.file.block) (hc : Cached cfg v₀)
    (hle : v₀.file.off + data.length ≤ cfg.blockSize)
    (hfit : v₀.file.isInline = true → max (f.pos + data.length) f.ctz.length ≤ cfg.inlineMax)
    (hl : f.pos + data.length ≤ maxFileSizeBytes) (hn : v₀.available cfg < n) :
    FallibleHoare (exec cfg faults) (fun v => v = v₀) (progBytes cfg data n)
      (fun _ => Programmed cfg K f data v₀) fun _ v => Represents cfg K v f := by
  induction n generalizing v₀
  case zero => exact absurd hn (Nat.not_lt_zero _)
  case succ n hi =>
    refine FallibleHoare.bind (I := fun file v => file = v₀.file ∧ v = v₀)
      (does_load fun v hv => ⟨by rw [hv]; rfl, hv⟩) fun file => .and_left fun he => ?_
    subst he
    refine FallibleHoare.bind (does_progBlock hs h hw ht hc hle hfit hl) fun ok => ?_
    cases ok
    case true  => exact .pure fun v hv => hv
    case false =>
      refine does_of_eq fun v₁ hu => ?_
      replace hu : Unprogrammed cfg K f v₀ v₁ := hu
      have h₁ := hu.represents
      have hin₁ : v₁.file.isInline = false := hu.file ▸ hu.isInline
      have hfill (_ : f.writing = true) : Filled cfg v₁ := fun _ => by
        have ht := ht hu.isInline
        rw [Volume.Tracked, ← hu.allocator] at ht
        rw [hu.file]
        exact ⟨ht, hu.hasData⟩
      refine FallibleHoare.bind ((does_fileRelocate (h₁.accounted hfill) (h₁.off_le hin₁ hw)
        (fun hi ho => h₁.kept_block hfill hi hw ho) hu.pcache available_le).weaken_error
        fun _ _ hv => h₁.frame hfill hv) fun _ => does_of_eq ?_
      rintro _ ⟨v₂, nblock, hm, rfl⟩
      have hf₂ : v₂.file = v₀.file := hm.frame.file.trans hu.file
      have hin₂ : v₂.file.isInline = v₀.file.isInline := congrArg LfsFile.isInline hf₂
      have ho₂ : v₂.file.off = v₀.file.off := congrArg LfsFile.off hf₂
      have hav := hm.available_lt
      have hav' : v₁.available cfg = v₀.available cfg := by rw [Volume.available, Volume.available, hu.allocator]
      have hcache : v₂.caches .file = cfg.caught nblock v₂.file.off := hm.frame.file ▸ hm.cache
      refine (hi (h₁.moved hfill hin₁ hw hm) (fun _ => hm.tracked)
        (.written hm.pcache (hin₂.trans hu.isInline) hcache rfl) ?_ (fun hin => hfit (hin₂.symm.trans hin))
        ?_).weaken (fun _ h => h) (fun _ v hv => ?_) fun _ _ h => h
      case refine_1 => exact (congrArg (· + data.length) ho₂).trans_le hle
      case refine_2 => exact Nat.lt_of_lt_of_le (hav.trans_eq hav') (Nat.le_of_lt_succ hn)
      case refine_3 =>
        exact ⟨hv.represents, hv.isInline.trans hin₂, hv.off.trans ho₂, hv.tracked, hv.cached⟩

theorem put_put {data' : List UInt8} : put (put f data) data' = put f (data ++ data') := by
  simp [put, Nat.add_assoc]

theorem started_of_writing (hw : f.writing = true) : started f = f :=
  if_pos hw

-- The file after a write.
def wrote (f : File.LfsFile) (data : List UInt8) : File.LfsFile :=
  if data = [] then f else put (started f) data

-- The file after a write that has failed.
def Spoiled (cfg : Config) (K : Along) (f : File.LfsFile) (data : List UInt8) (v : Volume) : Prop :=
  data ≠ [] ∧ (Represents cfg K v (marked f) ∨
    ∃ k < data.length, Represents cfg K v (marked (put (started f) (data.take k))))

theorem wrote_put {d : ℕ} (hw : f.writing = true) :
    wrote (put f (data.take d)) (data.drop d) = put f data := by
  unfold wrote
  split
  case isTrue h =>
    rw [List.drop_eq_nil_iff] at h
    rw [List.take_of_length_le h]
  case isFalse h => rw [started_of_writing (f := put f _) hw, put_put, List.take_append_drop]

theorem Spoiled.of_put {d : ℕ} (hf : (started f).writing = true)
    (h : Spoiled cfg K (put (started f) (data.take d)) (data.drop d) v) : Spoiled cfg K f data v := by
  obtain ⟨hne, h⟩ := h
  have hlt : d < data.length := Nat.lt_of_not_le fun hle => hne (List.drop_eq_nil_iff.mpr hle)
  refine ⟨List.ne_nil_of_length_pos (by omega), .inr ?_⟩
  rcases h with h | ⟨k, hk, h⟩
  case inl => exact ⟨d, hlt, h⟩
  case inr =>
    rw [List.length_drop] at hk
    refine ⟨d + k, by omega, ?_⟩
    rw [started_of_writing (f := put _ _) hf, put_put, ← List.take_add] at h
    exact h

theorem does_prepareBlock (h : Represents cfg K v₀ f) (hfill : f.writing = true → Filled cfg v₀)
    (hcached : Cached cfg v₀) (hr : f.reading = false) (hp : f.writing = false → f.pos ≤ f.ctz.length) :
    FallibleHoare (exec cfg faults) (fun v => v = v₀) (prepareBlock cfg)
      (fun _ v => Represents cfg K v (started f) ∧ v.file.off < cfg.blockSize ∧
        v.file.isInline = v₀.file.isInline ∧ (v.file.isInline = false → v.Tracked cfg v.file.block) ∧ Cached cfg v)
      fun _ v => Represents cfg K v (marked f) := by
  refine FallibleHoare.bind (I := fun file v => file = v₀.file ∧ v = v₀)
    (does_load fun v hv => ⟨by rw [hv]; rfl, hv⟩) fun file => .and_left fun he => ?_
  subst he
  split
  case isTrue hc =>
    refine does_writeBlock h hfill hcached hr hp fun hw => ?_
    simpa [h.agrees.writing, hw] using hc
  case isFalse hc =>
    refine .pure fun v hv => ?_
    subst hv
    rw [h.agrees.writing, Bool.or_eq_true, Bool.not_eq_true', decide_eq_true_eq, not_or,
      Bool.not_eq_false] at hc
    refine ⟨by rwa [started_of_writing hc.left], ?_, rfl, fun hi => (hfill hc.left hi).left, hcached⟩
    cases hi : v.file.isInline
    case false => exact Nat.lt_of_le_of_ne (h.off_le hi hc.left) hc.right
    case true  =>
      rw [((h.inlined hi).block (.inl hc.left)).right]
      exact pos_lt h hi hp

theorem hasData_advance {file : LfsFile} {d i : ℕ} (hl : Located cfg.blockSize file.pos i file.off) (hd : 0 < d)
    (hle : file.off + d ≤ cfg.blockSize) : HasData cfg (advance d file) := by
  refine .inr ?_
  rcases Nat.lt_or_eq_of_le hle with hlt | he
  case inl => exact .inr ⟨i, hl.add hlt, Nat.lt_of_le_of_lt hl.le (Nat.lt_add_of_pos_right hd)⟩
  case inr => exact .inl he

-- Once there is data in the block, it is one of those that a traversal finds.
theorem does_finishChunk {d : ℕ} (h : Represents cfg K (v₀.modify (advance d) .file) f) (hw : f.writing = true)
    (hd : Filled cfg (v₀.modify (advance d) .file)) (hc : Cached cfg (v₀.modify (advance d) .file)) (hz : 0 < d) :
    FallibleHoare (exec cfg faults) (fun v => v = v₀) (do
      update .file (advance d)
      lfsAllocCkpoint
      return d)
      (fun r v => r = d ∧ Represents cfg K v f ∧ v.file.isInline = v₀.file.isInline ∧ Filled cfg v ∧ Cached cfg v)
      fun _ _ => False := by
  refine FallibleHoare.bind (I := fun _ v => v = v₀.modify (advance d) .file)
    (does_update fun v hv => by rw [hv]) fun _ => ?_
  obtain ⟨h', hd'⟩ := h.ckpoint (fun _ => hd) fun _ _ => Nat.add_pos_right _ hz
  have hf := (h.accounted fun _ => hd).frame_ckpoint
  refine FallibleHoare.bind (does_ckpoint fun v hv => ?_) fun _ => .pure fun v hv => ⟨rfl, hv⟩
  subst hv
  exact ⟨h', (congrArg LfsFile.isInline hf.file :), hd' hw, hc.ckpoint⟩

theorem does_writeChunk (hs : faults.Spares cfg) (h : Represents cfg K v₀ f)
    (hfill : f.writing = true → Filled cfg v₀) (hc : Cached cfg v₀) (hr : f.reading = false)
    (hp : f.writing = false → f.pos ≤ f.ctz.length)
    (hfit : v₀.file.isInline = true → max (f.pos + data.length) f.ctz.length ≤ cfg.inlineMax)
    (hl : f.pos + data.length ≤ maxFileSizeBytes) (hd : data ≠ []) :
    FallibleHoare (exec cfg faults) (fun v => v = v₀) (writeChunk cfg data)
      (fun d v => 0 < d ∧ d ≤ data.length ∧ Represents cfg K v (put (started f) (data.take d)) ∧
        v.file.isInline = v₀.file.isInline ∧ Filled cfg v ∧ Cached cfg v)
      fun _ v => Spoiled cfg K f data v := by
  have hlen := List.length_pos_of_ne_nil hd
  refine FallibleHoare.bind ((does_prepareBlock h hfill hc hr hp).weaken_error
    fun _ v hv => ⟨hd, .inl hv⟩) fun _ => does_of_eq fun v₁ hv₁ => ?_
  obtain ⟨h₁, hoff, hin, ht, hc₁⟩ := hv₁
  refine FallibleHoare.bind (I := fun file v => file = v₁.file ∧ v = v₁)
    (does_load fun v hv => ⟨by rw [hv]; rfl, hv⟩) fun file => .and_left fun he => ?_
  subst he
  generalize hm : min data.length (cfg.blockSize - v₁.file.off) = d
  have htake : (data.take d).length = d := by rw [List.length_take]; omega
  refine FallibleHoare.bind (does_orErred (does_progBytes hs h₁ writing_started ht hc₁ ?_ ?_ ?_ available_le)
    fun _ _ hv => ⟨hd, .inr ⟨0, hlen, by simpa [put] using hv.marked⟩⟩) fun _ => ?_
  case refine_1 => omega
  case refine_2 =>
    rw [hin, pos_started, ctz_started, htake]
    intro hi
    have := hfit hi
    omega
  case refine_3 =>
    rw [pos_started, htake]
    omega
  case refine_4 =>
    refine does_of_eq fun v₂ hv₂ => ?_
    obtain ⟨h₂, hi₂, ho₂, ht₂, hc₂⟩ := hv₂
    rw [htake] at h₂ hc₂
    have hfilled : Filled cfg (v₂.modify (advance d) .file) := fun hi => by
      have hi : v₂.file.isInline = false := hi
      obtain ⟨pre, hb⟩ := h₁.branched (hi₂.symm.trans hi) writing_started
      have hpos : v₂.file.pos = v₁.file.pos := by
        have hp₂ : v₂.file.pos + d = (started f).pos + (data.take d).length := h₂.agrees.pos
        rw [h₁.agrees.pos]
        omega
      have hl₁ : Located cfg.blockSize v₂.file.pos pre.length v₂.file.off := by
        refine ⟨?_, ho₂ ▸ hb.branch.le, ho₂ ▸ hoff⟩
        rw [ho₂, hpos, h₁.agrees.pos, ← (h₁.agrees.branch writing_started).left]
        exact hb.branch.eq
      exact ⟨ht₂ hi, hasData_advance hl₁ (by omega) (by omega)⟩
    refine (does_finishChunk h₂ writing_started hfilled hc₂ (by omega)).weaken (fun _ h => h) (fun r v hv => ?_)
      fun _ _ h => h.elim
    obtain ⟨rfl, h₃, hi₃, hf₃, hc₃⟩ := hv
    exact ⟨by omega, by omega, h₃, hi₃.trans (hi₂.trans hin), hf₃, hc₃⟩

-- The loop writes all bytes, as many as fit in a block at a time.
theorem does_writeBytes (hs : faults.Spares cfg) (h : Represents cfg K v₀ f)
    (hfill : f.writing = true → Filled cfg v₀) (hc : Cached cfg v₀) (hr : f.reading = false)
    (hp : f.writing = false → f.pos ≤ f.ctz.length)
    (hfit : v₀.file.isInline = true → max (f.pos + data.length) f.ctz.length ≤ cfg.inlineMax)
    (hl : f.pos + data.length ≤ maxFileSizeBytes) (hn : data.length ≤ n) :
    FallibleHoare (exec cfg faults) (fun v => v = v₀) (writeBytes cfg n data)
      (fun _ v => Represents cfg K v (wrote f data) ∧ ((wrote f data).writing = true → Filled cfg v) ∧ Cached cfg v)
      fun _ v => Spoiled cfg K f data v := by
  induction n generalizing v₀ f data
  case zero =>
    rw [List.length_eq_zero_iff.mp (Nat.le_zero.mp hn), writeBytes]
    exact .pure fun v hv => by subst hv; exact ⟨h, hfill, hc⟩
  case succ n hi =>
    by_cases hd : data = []
    case pos =>
      subst hd
      exact .pure fun v hv => by subst hv; exact ⟨h, hfill, hc⟩
    case neg =>
      rw [writeBytes.eq_3 _ _ _ hd]
      refine FallibleHoare.bind (does_writeChunk hs h hfill hc hr hp hfit hl hd) fun d => does_of_eq ?_
      rintro v₁ ⟨hz, hle, h₁, hin, hf₁, hc₁⟩
      have hw : (put (started f) (data.take d)).writing = true := writing_started
      have htake : (data.take d).length = d := by rw [List.length_take]; omega
      have hp' : (put (started f) (data.take d)).writing = false →
          (put (started f) (data.take d)).pos ≤ (put (started f) (data.take d)).ctz.length :=
        fun h => absurd (hw.symm.trans h) (by simp)
      refine (hi h₁ (fun _ => hf₁) hc₁ (reading_started.trans hr) hp' ?_ ?_ ?_).weaken (fun _ h => h)
        (fun _ v hv => ?_) fun _ v hv => ?_
      case refine_1 =>
        simp only [hin, put, pos_started, ctz_started, htake, List.length_drop]
        intro hi
        have := hfit hi
        omega
      case refine_2 =>
        simp only [put, pos_started, htake, List.length_drop]
        omega
      case refine_3 =>
        rw [List.length_drop]
        omega
      case refine_4 =>
        rw [wrote_put writing_started] at hv
        rwa [wrote, if_neg hd]
      case refine_5 => exact hv.of_put writing_started

theorem Represents.max_le (h : Represents cfg K v f) (hi : v.file.isInline = true)
    (hp : f.writing = false → f.pos ≤ f.ctz.length) : max f.pos f.ctz.length ≤ cfg.inlineMax := by
  refine le_trans ?_ (h.inlined hi).length
  unfold File.LfsFile.content
  split
  case isTrue hw =>
    have := (h.agrees.branch hw).left
    rw [List.length_append, List.length_drop]
    omega
  case isFalse hw =>
    have := hp (Bool.eq_false_of_not_eq_true hw)
    omega

theorem filled_of_inline (hi : v.file.isInline = true) : Filled cfg v :=
  fun hi' => absurd (hi.symm.trans hi') (by simp)

-- The contents of an inline file fit in the first block.
theorem hasData_of_inline (h : Represents cfg K v f) (hi : v.file.isInline = true)
    (hp : f.writing = false → f.pos ≤ f.ctz.length) {file : LfsFile} (hpos : file.pos = f.pos)
    (hoff : file.off = f.pos) : HasData cfg file := by
  rcases Nat.eq_zero_or_pos f.pos with hz | hz
  case inl => exact .inl (hpos.trans hz)
  case inr =>
    refine .inr (.inr ⟨0, ⟨?_, ?_, hoff ▸ pos_lt h hi hp⟩, ?_⟩)
    case refine_1 => rw [hpos, hoff, start_zero]; simp [pointers]
    case refine_2 => simp [pointers]
    case refine_3 => rw [hoff]; simpa [pointers] using hz

-- An inline file is moved to a block if it does not fit any more.
theorem does_fileOutline (h : Represents cfg K v₀ f) (hc : Cached cfg v₀) (hi : v₀.file.isInline = true)
    (hr : f.reading = false) (hp : f.writing = false → f.pos ≤ f.ctz.length) :
    FallibleHoare (exec cfg faults) (fun v => v = v₀) (fileOutline cfg)
      (fun _ v => Represents cfg K v (started f) ∧ v.file.isInline = false ∧ Filled cfg v ∧ Cached cfg v)
      fun _ v => Represents cfg K v f := by
  have hin := h.inlined hi
  have h₁ : Represents cfg K (v₀.modify (fun file => { file with off := file.pos }) .file) f :=
    { h with
      agrees  := { h.agrees with }
      entry   := h.entry.modify
      inlined := fun _ => { hin with block := fun hw => ⟨(hin.block hw).left, h.agrees.pos⟩ }
      chained := fun hi' => absurd (hi.symm.trans hi') (by simp)
      branched := fun hi' => absurd (hi.symm.trans hi') (by simp) }
  refine FallibleHoare.bind (I := fun _ v => v = v₀.modify (fun file => { file with off := file.pos }) .file)
    (does_update fun v hv => by rw [hv]) fun _ => ?_
  have hf := (h₁.accounted fun _ => filled_of_inline hi).frame_ckpoint
  have h₂ := h₁.frame (fun _ => filled_of_inline hi) hf
  have hfile := hf.file
  refine FallibleHoare.bind (I := fun _ v => v =
    (v₀.modify (fun file => { file with off := file.pos }) .file).ckpoint cfg)
    (does_ckpoint fun v hv => by rw [hv]) fun _ => ?_
  have hp₂ : ((v₀.modify (fun file => { file with off := file.pos }) .file).ckpoint cfg).caches .pcache = none :=
    hc.pcache
  generalize Volume.ckpoint _ _ = v₂ at h₂ hfile hp₂
  have hi₂ : v₂.file.isInline = true := by rw [hfile]; exact hi
  have ho₂ : v₂.file.off = f.pos := by rw [hfile]; exact h.agrees.pos
  refine FallibleHoare.bind ((does_fileRelocate (h₂.accounted fun _ => filled_of_inline hi₂) ?_
    (fun hi' => absurd (hi₂.symm.trans hi') (by simp)) hp₂ available_le).weaken_error
    fun _ _ hv => h₂.frame (fun _ => filled_of_inline hi₂) hv) fun _ => ?_
  case refine_1 => exact ho₂.trans_le (pos_lt h hi hp).le
  refine does_update ?_
  rintro _ ⟨v₁, nblock, hm, rfl⟩
  have hfile₁ : v₁.file = v₂.file := hm.frame.file
  have hcache : v₁.caches .file = cfg.caught nblock v₁.file.off := hfile₁ ▸ hm.cache
  refine ⟨h₂.outlined hi₂ hr hp ho₂ hm, rfl, fun _ => ⟨hm.tracked, ?_⟩, .written hm.pcache rfl hcache rfl⟩
  exact hasData_of_inline h hi hp ((congrArg LfsFile.pos hfile₁ :).trans h₂.agrees.pos)
    ((congrArg LfsFile.off hfile₁ :).trans ho₂)

theorem does_fileFlushedWrite (hs : faults.Spares cfg) (h : Represents cfg K v₀ f)
    (hfill : f.writing = true → Filled cfg v₀) (hcached : Cached cfg v₀) (hr : f.reading = false)
    (hp : f.writing = false → f.pos ≤ f.ctz.length) (hl : f.pos + data.length ≤ maxFileSizeBytes) :
    FallibleHoare (exec cfg faults) (fun v => v = v₀) (fileFlushedWrite cfg data)
      (fun _ v => Represents cfg K v (wrote f data) ∧ ((wrote f data).writing = true → Filled cfg v) ∧ Cached cfg v)
      fun _ v => Spoiled cfg K f data v := by
  refine FallibleHoare.bind (I := fun file v => file = v₀.file ∧ v = v₀)
    (does_load fun v hv => ⟨by rw [hv]; rfl, hv⟩) fun file => .and_left fun he => ?_
  subst he
  rw [h.agrees.pos, h.agrees.size]
  split
  case isTrue hc =>
    rw [Bool.and_eq_true, decide_eq_true_eq] at hc
    have hne : data ≠ [] := by
      rintro rfl
      have := h.max_le hc.left hp
      simp only [List.length_nil] at hc
      omega
    refine FallibleHoare.bind (does_orErred (does_fileOutline h hcached hc.left hr hp)
      fun _ _ hv => ⟨hne, .inl hv.marked⟩) fun _ => does_of_eq fun v₁ ⟨h₁, hi₁, hf₁, hc₁⟩ => ?_
    have hw : (started f).writing = true := writing_started
    refine (does_writeBytes hs h₁ (fun _ => hf₁) hc₁ (reading_started.trans hr)
      (fun h => absurd (hw.symm.trans h) (by simp)) (fun hi => absurd (hi₁.symm.trans hi) (by simp))
      (by rwa [pos_started]) le_rfl).weaken (fun _ h => h) (fun _ v hv => ?_) fun _ v hv => ?_
    case refine_1 =>
      rw [wrote, if_neg hne] at hv ⊢
      rwa [started_of_writing hw] at hv
    case refine_2 =>
      have hp : put (started f) (data.take 0) = started f := by simp [put]
      refine Spoiled.of_put (d := 0) hw ?_
      rwa [hp]
  case isFalse hc =>
    refine does_writeBytes hs h hfill hcached hr hp (fun hi => ?_) hl le_rfl
    simpa [hi] using hc

end Littlefs
