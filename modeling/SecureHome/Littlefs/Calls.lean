import SecureHome.Littlefs.Refines

open File (LfsError Name State Access maxFileSizeBytes)

-- The calls for an open file do what those do that the rest of the firmware relies on.
namespace Littlefs

variable {cfg : Config} {K : Along} {faults : Faults} {v v₀ : Volume} {f f' : File.LfsFile}

open Prog

theorem Stored.unfreshed {bytes : List UInt8} {e : Struct} (h : Stored cfg v bytes e) :
    Stored cfg { v with fresh := [] } bytes e := by
  cases e
  case inline => exact h
  case ctz    =>
    obtain ⟨hl, pre, off, hh, hb⟩ := h
    exact ⟨hl, pre, off, hh, fun hd b hm => ⟨(hb hd b hm).left, by simp, (hb hd b hm).right.right⟩⟩

-- The directory may have been moved to other blocks.
theorem Represents.relocated (h : Represents cfg K v₀ f) (hw : f.writing = false) (hr : Relocated cfg v₀ v) :
    Represents cfg K { v with fresh := [] } f := by
  have h' := h.frame (fun hw' => absurd (hw.symm.trans hw') (by simp)) hr.frame
  exact {
    asserted := h'.asserted
    inv      := h'.inv
    others   := hr.tracked
    agrees   := h'.agrees
    entry    := h'.entry.unfreshed
    inlined  := fun hi => { h'.inlined hi with }
    chained  := fun hi =>
      (h'.chained hi).imp (fun ⟨pre, off, hc⟩ => ⟨pre, off, { hc with }⟩) fun hd => { hd with }
    branched := fun _ hw' => absurd (hw.symm.trans hw') (by simp) }

-- The directory entry refers to the file as of its last flush.
theorem Represents.committed (h : Represents cfg K v f) (hw : f.writing = false) (hn : v.fresh = []) :
    Represents cfg K v.commit { f with disk := f.ctz } where
  asserted := h.asserted
  inv      := h.inv
  others   := h.others
  agrees   := { h.agrees with disk_le := h.agrees.size_le }
  entry    := by
    have hs := h.agrees.size
    change Stored cfg v.commit f.ctz
      (if v.file.isInline then .inline (v.view blockInline 0 v.file.size) else .ctz v.file.head v.file.size)
    cases hi : v.file.isInline
    case true =>
      have hin := h.inlined hi
      have hc := content_of_not_writing hw
      refine List.ext_getElem? fun i => ?_
      rw [hs]
      rcases Nat.lt_or_ge i f.ctz.length with hlt | hge
      case inr =>
        rw [List.getElem?_eq_none (by simpa [Volume.view] using hge), List.getElem?_eq_none hge]
      case inl =>
        have ha : f.ctz[i]? = some f.ctz[i] := List.getElem?_eq_getElem hlt
        rw [ha, Volume.view, List.getElem?_map, List.getElem?_range hlt, Option.map_some, Nat.zero_add]
        exact congrArg some (hin.content _ _ (by rw [hc]; exact ha))
    case false =>
      obtain ⟨pre, off, hc⟩ := (h.chained hi).resolve_right fun hd => absurd (hw.symm.trans hd.writing) (by simp)
      refine ⟨hs, pre, off, hc.holds.congr fun hd b hm => hc.flushed hw hd b hm, fun hd b hm =>
        ⟨(hc.tracked hd b hm).left, ?_, (hc.flushed hw hd b hm).symm⟩⟩
      change b ∉ v.fresh
      simp [hn]
  inlined hi  := { h.inlined hi with }
  chained hi  := by
    refine (h.chained hi).imp ?_ fun hd => { hd with }
    rintro ⟨pre, off, hc⟩
    refine ⟨pre, off, { hc with clean := fun _ => ?_ }⟩
    exact if_neg (by simp [show v.file.isInline = false from hi])
  branched _ hw' := absurd (hw.symm.trans hw') (by simp)

theorem Represents.cleaned (h : Represents cfg K v f) (he : v.entry = v.struct) :
    Represents cfg K (v.modify ({ · with dirty := false }) .file) { f with dirty := false } where
  asserted    := h.asserted
  inv         := h.inv
  others      := h.others
  agrees      := { h.agrees with dirty := rfl }
  entry       := h.entry.modify
  inlined hi  := { h.inlined hi with }
  chained hi  := by
    refine (h.chained hi).imp ?_ fun hd => { hd with }
    rintro ⟨pre, off, hc⟩
    refine ⟨pre, off, { hc with clean := fun _ => ?_ }⟩
    exact he.trans (if_neg (by simp [show v.file.isInline = false from hi]))
  branched hi hw := (h.branched hi hw).imp fun _ hb => { hb with }

theorem Represents.unmarked (h : Represents cfg K v f) :
    Represents cfg K (v.modify ({ · with erred := false }) .file) { f with erred := false } where
  asserted    := h.asserted
  inv         := h.inv
  others      := h.others
  agrees      := { h.agrees with erred := rfl }
  entry       := h.entry.modify
  inlined hi  := { h.inlined hi with }
  chained hi  := (h.chained hi).imp (fun ⟨pre, off, hc⟩ => ⟨pre, off, { hc with }⟩) fun hd => { hd with }
  branched hi hw := (h.branched hi hw).imp fun _ hb => { hb with }

-- A file that is neither read nor written may be positioned anywhere.
theorem Represents.positioned {pos : ℕ} (h : Represents cfg K v f) (hw : f.writing = false)
    (hr : f.reading = false) (hp : pos ≤ maxFileSizeBytes) :
    Represents cfg K (v.modify ({ · with pos := pos }) .file) { f with pos := pos } where
  asserted    := h.asserted
  inv         := h.inv
  others      := h.others
  agrees      := { h.agrees with
    pos    := rfl
    pos_le := hp
    branch := fun hw' => absurd (hw.symm.trans hw') (by simp) }
  entry       := h.entry.modify
  inlined hi  := by
    have hin := h.inlined hi
    have hc : { f with pos := pos }.content = f.content :=
      (content_of_not_writing (f := { f with pos := pos }) hw).trans (content_of_not_writing hw).symm
    exact ⟨hin.head, hc ▸ hin.content, hc ▸ hin.length, fun h => absurd h (by simp [hw, hr]), fun h =>
      absurd (hr.symm.trans h) (by simp), hin.along⟩
  chained hi  := (h.chained hi).imp (fun ⟨pre, off, hc⟩ => ⟨pre, off, { hc with
    reading := fun h => absurd (hr.symm.trans h) (by simp) }⟩) fun hd => { hd with }
  branched _ hw' := absurd (hw.symm.trans hw') (by simp)

-- A file where a block that is written to has data.
structure Steady (cfg : Config) (v : Volume) (f : File.LfsFile) : Prop where
  represents : Represents cfg Any v f
  filled     : f.writing = true → Filled cfg v
  cached     : Cached cfg v

theorem Steady.of_not_writing (h : Represents cfg K v f) (hw : f.writing = false) (hc : Cached cfg v) :
    Steady cfg v f :=
  ⟨h.any, fun hw' => absurd (hw.symm.trans hw') (by simp), hc⟩

-- The file that a program leaves, which may be one with an empty block if the program has failed.
structure Leaves {α : Type} (cfg : Config) (r : Except LfsError α) (v : Volume) (f : File.LfsFile) : Prop where
  represents : Represents cfg Any v f
  filled     : r.isOk = true → f.writing = true → Filled cfg v
  cached     : r.isOk = true → Cached cfg v

section

variable {α : Type} {r : Except LfsError α}

theorem Steady.leaves (h : Steady cfg v f) : Leaves cfg r v f :=
  ⟨h.represents, fun _ => h.filled, fun _ => h.cached⟩

theorem Represents.leaves {e : LfsError} (h : Represents cfg K v f) :
    Leaves cfg (.error e : Except LfsError α) v f :=
  have hr : (.error e : Except LfsError α).isOk ≠ true := by simp [Except.isOk, Except.toBool]
  ⟨h.any, fun h => absurd h hr, fun h => absurd h hr⟩

theorem Leaves.steady {a : α} (h : Leaves cfg (.ok a : Except LfsError α) v f) : Steady cfg v f :=
  ⟨h.represents, h.filled rfl, h.cached rfl⟩

theorem Leaves.map {β : Type} {g : α → β} (h : Leaves cfg r v f) : Leaves cfg (r.map g) v f := by
  cases r
  case ok    => exact h.steady.leaves
  case error => exact h.represents.leaves

end

section

variable {τ : Type} [DecidableEq τ] {t : τ} {s : State τ} {name : Name} {α β : Type}

-- Whatever a program does, the other one can do with a file that the volume still represents.
def Follows (cfg : Config) (t : τ) (s : State τ) (name : Name) (q : File.Lfs α) (f : File.LfsFile)
    (r : Except LfsError α) (v : Volume) : Prop :=
  ∃ f', Can t s name q f r f' ∧ Leaves cfg r v f'

theorem Can.loadErred : Can t s name (ExceptT.lift (File.perform (.loadErred name))) f (.ok f.erred) f := by
  refine lift none ?_
  have h : (withFile s name f).files name = f := files_withFile
  exact List.mem_singleton.mpr (Prod.ext (congrArg File.LfsFile.erred h).symm rfl)

theorem Can.commit : Can t s name (File.Lfs.access name .commit) f (.ok ()) { f with disk := f.ctz } := by
  have hl : Can t s name (ExceptT.lift (File.perform (.access name .commit))) f (.ok none)
      { f with disk := f.ctz } :=
    lift none (List.mem_singleton.mpr
      (Prod.ext rfl (modify_withFile (g := fun f => { f with disk := f.ctz })).symm))
  exact hl.bind .pure

theorem Can.commit_error {e : LfsError} :
    Can t s name (File.Lfs.access name .commit) f (.error e) { f with disk := f.ctz } := by
  have hl : Can t s name (ExceptT.lift (File.perform (.access name .commit))) f (.ok (some e))
      { f with disk := f.ctz } :=
    lift (some e) (List.mem_cons_of_mem _ (List.mem_singleton.mpr
      (Prod.ext rfl (modify_withFile (g := fun f => { f with disk := f.ctz })).symm)))
  exact hl.bind .throw

theorem Can.orErred_flush {e : LfsError} (hr : f.writing = true → f.reading = false) (hw : f.writing = true)
    (hi : Interrupted cfg f v) :
    ∃ f', Can t s name (File.Lfs.orErred name (File.lfsFileFlush name)) f (.error e) f' ∧
      Represents cfg Any (v.modify ({ · with erred := true }) .file) f' := by
  rcases hi with ⟨k, hk, h⟩ | ⟨k, hk, h⟩
  case inl => exact ⟨_, (flush_error hw (hr hw) hk).orErred_error, h.marked⟩
  case inr => exact ⟨_, (flush_error_marked hw (hr hw) hk).orErred_error, h.marked⟩

theorem writing_afterFlush : (afterFlush f).writing = false := by
  unfold afterFlush
  split
  case isTrue  => rfl
  case isFalse hw => exact Bool.eq_false_of_not_eq_true hw

theorem reading_afterFlush (hr : f.writing = true → f.reading = false) : (afterFlush f).reading = false := by
  unfold afterFlush
  split
  case isTrue hw => exact hr hw
  case isFalse   => rfl

-- What a sync of a dirty file does once the file was flushed.
theorem does_commitFile (h : Represents cfg Any v₀ f) (hw : f.writing = false) (hcached : Cached cfg v₀) :
    FallibleHoare (exec cfg faults) (fun v => v = v₀)
      (do orErred dirCommit; update .file ({ · with dirty := false }))
      (fun r v => Follows cfg t s name (do
        File.Lfs.orErred name (File.Lfs.access name .commit)
        File.Lfs.update name ({ · with dirty := false })) f (.ok r) v)
      fun e v => Follows cfg t s name (do
        File.Lfs.orErred name (File.Lfs.access name .commit)
        File.Lfs.update name ({ · with dirty := false })) f (.error e) v := by
  refine FallibleHoare.bind (does_orErred (R := fun e v => ∃ f',
    Can t s name (File.Lfs.access name .commit) f (.error e) f' ∧ Represents cfg Any v f') (Q := fun _ v =>
    Represents cfg Any v { f with disk := f.ctz } ∧ v.entry = v.struct ∧ Cached cfg v)
    (does_commit ?_ ?_ ?_ ?_ ?_) ?_) fun _ => ?_
  case refine_1 =>
    rintro v rfl
    exact h.accounted fun hw' => absurd (hw.symm.trans hw') (by simp)
  case refine_2 => rintro v rfl; exact hcached.pcache
  case refine_3 =>
    rintro _ v rfl hr
    exact ⟨(h.relocated hw hr).committed hw rfl, rfl, hcached.congr hr.frame.file hr.caches⟩
  case refine_4 => rintro _ v e c rfl hr; exact ⟨f, .access_error, (h.relocated hw hr).setCache⟩
  case refine_5 =>
    rintro _ v e c rfl hr
    exact ⟨{ f with disk := f.ctz }, .commit_error, ((h.relocated hw hr).committed hw rfl).setCache⟩
  case refine_6 =>
    rintro e v ⟨f', hc, h'⟩
    exact ⟨_, hc.orErred_error.bind_error, h'.marked.leaves⟩
  case refine_7 =>
    refine does_update fun v ⟨hv, he, hc⟩ => ⟨_, Can.commit.orErred.bind .update, ?_⟩
    exact (Steady.of_not_writing (hv.cleaned he) hw { hc with }).leaves

-- The part of a sync behind the flush.
abbrev syncRest (name : Name) : File.Lfs Unit := do
  if (← File.Lfs.load name).dirty then
    File.Lfs.access name .sync
    File.Lfs.orErred name (File.Lfs.access name .commit)
    File.Lfs.update name ({ · with dirty := false })

theorem does_syncRest (h : Represents cfg Any v₀ f) (hw : f.writing = false) (hcached : Cached cfg v₀) :
    FallibleHoare (exec cfg faults) (fun v => v = v₀) (do
      let file ← load .file
      if file.dirty then
        if !file.isInline then
          bdSync
        orErred dirCommit
        update .file ({ · with dirty := false }))
      (fun r v => Follows cfg t s name (syncRest name) f (.ok r) v)
      fun e v => Follows cfg t s name (syncRest name) f (.error e) v := by
  refine FallibleHoare.bind (I := fun file v => file = v₀.file ∧ v = v₀)
    (does_load fun v hv => ⟨by rw [hv]; rfl, hv⟩) fun file => .and_left fun he => ?_
  subst he
  rw [h.agrees.dirty]
  cases hd : f.dirty
  case false =>
    refine .pure fun v hv => ⟨f, Can.load.bind ?_, hv ▸ (Steady.of_not_writing h hw hcached).leaves⟩
    rw [hd]
    exact .pure
  case true =>
    have hfinish {r : Except LfsError Unit} {v : Volume} (hc : Follows cfg t s name (do
        File.Lfs.orErred name (File.Lfs.access name .commit)
        File.Lfs.update name ({ · with dirty := false })) f r v) :
        Follows cfg t s name (syncRest name) f r v := by
      obtain ⟨f', hc, h'⟩ := hc
      refine ⟨f', Can.load.bind ?_, h'⟩
      rw [hd]
      have hs : Can t s name (File.Lfs.access name .sync) f (.ok ()) f := Can.access (by decide)
      exact hs.bind hc
    have hcommit := (@does_commitFile cfg faults v₀ f τ _ t s name h hw hcached).weaken (fun _ h => h)
      (fun _ _ h => hfinish h) fun _ _ h => hfinish h
    cases v₀.file.isInline
    case true  => exact hcommit
    case false =>
      refine FallibleHoare.bind (I := fun _ v => v = v₀)
        (does_sync (fun _ hv => hv) fun v e hv => ⟨_, Can.load.bind ?_, hv ▸ h.leaves⟩) fun _ => hcommit
      rw [hd]
      exact Can.access_error.bind_error

theorem does_fileSync (hs : faults.Spares cfg) (h : Steady cfg v₀ f) :
    FallibleHoare (exec cfg faults) (fun v => v = v₀) (fileSync cfg)
      (fun r v => Follows cfg t s name (File.lfsFileSync name) f (.ok r) v)
      fun e v => Follows cfg t s name (File.lfsFileSync name) f (.error e) v := by
  have ha := h.represents.agrees
  have hr : f.writing = true → f.reading = false := fun hw => (ha.branch hw).right
  refine FallibleHoare.bind (I := fun file v => file = v₀.file ∧ v = v₀)
    (does_load fun v hv => ⟨by rw [hv]; rfl, hv⟩) fun file => .and_left fun he => ?_
  subst he
  rw [ha.erred]
  cases he : f.erred
  case true =>
    refine .pure fun v hv => ⟨f, ?_, hv ▸ h.leaves⟩
    refine Can.loadErred.bind ?_
    rw [he]
    exact .pure
  case false =>
    have hgo {r : Except LfsError Unit} {f'} (hc : Can t s name (do
        File.Lfs.orErred name (File.lfsFileFlush name)
        syncRest name) f r f') : Can t s name (File.lfsFileSync name) f r f' := by
      refine Can.loadErred.bind ?_
      rw [he]
      exact hc
    refine FallibleHoare.bind (does_orErred (does_fileFlush hs h.represents h.filled h.cached)
      fun e v ⟨hw, hi⟩ => ?_) fun _ => does_of_eq fun v₁ ⟨h₁, hc₁⟩ => ?_
    case refine_1 =>
      obtain ⟨f', hc, h'⟩ := Can.orErred_flush (t := t) (s := s) (e := e) hr hw hi
      exact ⟨f', hgo hc.bind_error, h'.leaves⟩
    have hflush : Can t s name (File.Lfs.orErred name (File.lfsFileFlush name)) f (.ok ()) (afterFlush f) :=
      (Can.flush hr).orErred
    have hrest {r : Except LfsError Unit} {v : Volume}
        (hc : Follows cfg t s name (syncRest name) (afterFlush f) r v) :
        Follows cfg t s name (File.lfsFileSync name) f r v := by
      obtain ⟨f', hc, h'⟩ := hc
      exact ⟨f', hgo (hflush.bind hc), h'⟩
    exact (does_syncRest h₁ writing_afterFlush hc₁).weaken (fun _ h => h) (fun _ _ h => hrest h)
      fun _ _ h => hrest h

theorem does_readFile {size : ℕ} (h : Represents cfg Any v₀ f) (hw : f.writing = false) (hcached : Cached cfg v₀) :
    FallibleHoare (exec cfg faults) (fun v => v = v₀) (fileFlushedRead cfg .file size)
      (fun r v => Follows cfg t s name (File.lfsFileFlushedRead name size) f (.ok r) v)
      fun e v => Follows cfg t s name (File.lfsFileFlushedRead name size) f (.error e) v := by
  obtain ⟨pre, hr, hc⟩ := h.readable hw
  have hpos : (v₀.get .file).pos = f.pos := h.agrees.pos
  have hgo {r : Except LfsError Unit} {f'} (hlt : f.pos < f.ctz.length)
      (hb : Can t s name (File.lfsFileReadBytes name ((f.ctz.drop f.pos).take size)) f r f') :
      Can t s name (File.lfsFileFlushedRead name size) f (r.map fun _ => (f.ctz.drop f.pos).take size) f' := by
    refine Can.load.bind ?_
    rw [if_neg (Nat.not_le.mpr hlt)]
    cases r
    case ok    => exact hb.bind .pure
    case error => exact hb.bind_error
  have hlt : ∀ k < ((f.ctz.drop f.pos).take size).length, f.pos < f.ctz.length := by
    intro k hk
    rw [List.length_take, List.length_drop] at hk
    omega
  refine (does_fileFlushedRead (w := .file) hr).weaken (fun _ h => h) (fun data v ⟨hd, ha, hz⟩ => ?_)
    fun e v ⟨k, hk, ha⟩ => ?_
  case refine_1 =>
    rw [hpos] at hd
    by_cases hn : data = []
    case pos =>
      rw [hz hn]
      refine ⟨f, ?_, (Steady.of_not_writing h hw hcached).leaves⟩
      rcases Nat.lt_or_ge f.pos f.ctz.length with hlt | hge
      case inl =>
        rw [hd]
        refine hgo (r := .ok ()) hlt ?_
        rw [← hd, hn]
        exact .pure
      case inr =>
        refine Can.load.bind ?_
        rw [if_pos hge, hn]
        exact .pure
    case neg =>
      have hl := List.length_pos_of_ne_nil hn
      have hk : f.pos + data.length ≤ f.ctz.length := by
        have := congrArg List.length hd
        rw [List.length_take, List.length_drop] at this
        omega
      obtain ⟨hz', -⟩ | h' := h.advanced hw hc ha hk
      case inl => omega
      case inr =>
        have hc' := hcached.advanced (h.agrees.writing.trans hw) ha hl
        refine ⟨_, ?_, (Steady.of_not_writing h' hw hc').leaves⟩
        rw [hd] at hn ⊢
        exact hgo (r := .ok ()) (hlt 0 (List.length_pos_of_ne_nil hn)) (Can.readBytes hn)
  case refine_2 =>
    rw [hpos] at hk
    have hl := hlt k hk
    have hk' : f.pos + k ≤ f.ctz.length := by
      rw [List.length_take, List.length_drop] at hk
      omega
    obtain ⟨-, h'⟩ | h' := h.advanced hw hc ha hk'
    case inl =>
      have hn : (f.ctz.drop f.pos).take size ≠ [] := List.ne_nil_of_length_pos (Nat.zero_lt_of_lt hk)
      exact ⟨f, hgo (r := .error e) hl (Can.readBytes_error_find hn), h'.leaves⟩
    case inr => exact ⟨_, hgo (r := .error e) hl (Can.readBytes_error hk), h'.leaves⟩

theorem does_flushFile (hs : faults.Spares cfg) (h : Steady cfg v₀ f) :
    FallibleHoare (exec cfg faults) (fun v => v = v₀) (fileFlush cfg)
      (fun _ v => Represents cfg Any v (afterFlush f) ∧ Cached cfg v)
      fun e v => Follows cfg t s name (File.lfsFileFlush name) f (.error e) v := by
  refine (does_fileFlush hs h.represents h.filled h.cached).weaken_error fun e v ⟨hw, hi⟩ => ?_
  have hr := (h.represents.agrees.branch hw).right
  rcases hi with ⟨k, hk, h'⟩ | ⟨k, hk, h'⟩
  case inl => exact ⟨_, Can.flush_error hw hr hk, h'.leaves⟩
  case inr => exact ⟨_, Can.flush_error_marked hw hr hk, h'.leaves⟩

theorem does_fileRead {size : ℕ} (hs : faults.Spares cfg) (h : Steady cfg v₀ f) :
    FallibleHoare (exec cfg faults) (fun v => v = v₀) (fileRead cfg size)
      (fun r v => Follows cfg t s name (File.lfsFileRead name size) f (.ok r) v)
      fun e v => Follows cfg t s name (File.lfsFileRead name size) f (.error e) v := by
  have ha := h.represents.agrees
  refine FallibleHoare.bind (I := fun file v => file = v₀.file ∧ v = v₀)
    (does_load fun v hv => ⟨by rw [hv]; rfl, hv⟩) fun file => .and_left fun hv => ?_
  subst hv
  rw [ha.writing]
  cases hw : f.writing
  case false =>
    have hgo {r : Except LfsError (List UInt8)} {v : Volume}
        (hf : Follows cfg t s name (File.lfsFileFlushedRead name size) f r v) :
        Follows cfg t s name (File.lfsFileRead name size) f r v := by
      obtain ⟨f', hc, h'⟩ := hf
      refine ⟨f', Can.load.bind ?_, h'⟩
      rw [hw]
      exact hc
    exact (does_readFile h.represents hw h.cached).weaken (fun _ h => h) (fun _ _ h => hgo h) fun _ _ h => hgo h
  case true =>
    have hr := (ha.branch hw).right
    have hgo {r : Except LfsError (List UInt8)} {f'} (hc : Can t s name (do
        File.lfsFileFlush name
        File.lfsFileFlushedRead name size) f r f') : Can t s name (File.lfsFileRead name size) f r f' := by
      refine Can.load.bind ?_
      rw [hw]
      exact hc
    refine FallibleHoare.bind ((does_flushFile hs h).weaken_error
      fun _ v ⟨f', hc, h'⟩ => ⟨f', hgo hc.bind_error, h'.represents.leaves⟩) fun _ =>
      does_of_eq fun v₁ ⟨h₁, hc₁⟩ => ?_
    have hread {r : Except LfsError (List UInt8)} {v : Volume}
        (hf : Follows cfg t s name (File.lfsFileFlushedRead name size) (afterFlush f) r v) :
        Follows cfg t s name (File.lfsFileRead name size) f r v := by
      obtain ⟨f', hc, h'⟩ := hf
      exact ⟨f', hgo ((Can.flush fun _ => hr).bind hc), h'⟩
    exact (does_readFile h₁ writing_afterFlush hc₁).weaken (fun _ h => h) (fun _ _ h => hread h)
      fun _ _ h => hread h

variable {data : List UInt8} {n : ℕ}

theorem Can.spoiled {e : LfsError} (h : Spoiled cfg Any f data v) :
    ∃ f', Can t s name (File.lfsFileFlushedWrite name data) f (.error e) f' ∧ Represents cfg Any v f' := by
  obtain ⟨hne, h | ⟨k, hk, h⟩⟩ := h
  case inl => exact ⟨_, writeBytes_error hne, h⟩
  case inr => exact ⟨_, writeBytes_error_put hk, h⟩

theorem does_writeZeroes (hs : faults.Spares cfg) (h : Steady cfg v₀ f) (hr : f.reading = false)
    (hp : f.writing = false → f.pos ≤ f.ctz.length) (hl : f.pos + n ≤ maxFileSizeBytes) :
    FallibleHoare (exec cfg faults) (fun v => v = v₀) (writeZeroes cfg n)
      (fun _ v => Steady cfg v (wrote f (.replicate n 0)))
      fun _ v => Spoiled cfg Any f (.replicate n 0) v := by
  induction n generalizing v₀ f
  case zero => exact .pure fun v hv => hv ▸ h
  case succ n hi =>
    have hz : wrote f [0] = put (started f) ((List.replicate (n + 1) (0 : UInt8)).take 1) := if_neg (by simp)
    refine FallibleHoare.bind ((does_fileFlushedWrite hs h.represents h.filled h.cached hr hp ?_).weaken_error
      fun _ v hv => ?_) fun _ => does_of_eq fun v₁ ⟨h₁, hf₁, hc₁⟩ => ?_
    case refine_1 => exact (Nat.add_le_add_left (Nat.succ_le_succ (Nat.zero_le n)) _).trans hl
    case refine_2 =>
      refine ⟨by simp, hv.right.imp_right fun ⟨k, hk, hv⟩ => ⟨0, by simp, ?_⟩⟩
      obtain rfl : k = 0 := Nat.lt_one_iff.mp hk
      exact hv
    rw [hz] at h₁ hf₁
    have hdrop : (List.replicate (n + 1) (0 : UInt8)).drop 1 = .replicate n 0 := by simp
    have hw : (put (started f) ((List.replicate (n + 1) (0 : UInt8)).take 1)).writing = true := writing_started
    have hi := hi ⟨h₁, hf₁, hc₁⟩ (reading_started.trans hr) (fun hw' => absurd (hw.symm.trans hw') (by simp)) (by
      change (started f).pos + 1 + n ≤ _
      rw [pos_started]
      omega)
    rw [← hdrop] at hi
    refine hi.weaken (fun _ h => h) (fun _ v hv => ?_) fun _ v hv => hv.of_put writing_started
    rw [wrote_put writing_started] at hv
    rwa [wrote, if_neg (by simp)]

theorem pos_wrote : (wrote f data).pos = f.pos + data.length := by
  unfold wrote
  split
  case isTrue h => rw [h]; rfl
  case isFalse  => exact congrArg (· + data.length) pos_started

theorem reading_wrote : (wrote f data).reading = f.reading := by
  unfold wrote
  split
  case isTrue  => rfl
  case isFalse => exact reading_started

theorem writing_wrote (h : data ≠ []) : (wrote f data).writing = true := by
  rw [wrote, if_neg h]
  exact writing_started

-- The file after the gap was filled.
def bridged (f : File.LfsFile) : File.LfsFile :=
  if !f.writing && f.pos > f.ctz.length then
    wrote { f with pos := f.ctz.length } (.replicate (f.pos - f.ctz.length) 0)
  else
    f

theorem pos_bridged : (bridged f).pos = f.pos := by
  unfold bridged
  split
  case isTrue h =>
    rw [Bool.and_eq_true, decide_eq_true_eq] at h
    rw [pos_wrote, List.length_replicate]
    exact Nat.add_sub_cancel' h.right.le
  case isFalse => rfl

theorem reading_bridged : (bridged f).reading = f.reading := by
  unfold bridged
  split
  case isTrue  => exact reading_wrote
  case isFalse => rfl

theorem pos_le_bridged (hw : (bridged f).writing = false) : (bridged f).pos ≤ (bridged f).ctz.length := by
  unfold bridged at hw ⊢
  split at hw
  case isTrue h =>
    rw [Bool.and_eq_true, decide_eq_true_eq] at h
    have hne : List.replicate (f.pos - f.ctz.length) (0 : UInt8) ≠ [] := by
      rw [ne_eq, List.replicate_eq_nil_iff]
      omega
    exact absurd ((writing_wrote hne).symm.trans hw) (by simp)
  case isFalse h =>
    rw [if_neg h]
    simpa [hw] using h

theorem Can.fillGap : Can t s name (File.lfsFileFillGap name) f (.ok ()) (bridged f) := by
  refine load.bind ?_
  unfold bridged
  cases !f.writing && decide (f.pos > f.ctz.length)
  case false => exact .pure
  case true  => exact update.bind writeBytes

theorem does_fillGap (hs : faults.Spares cfg) (h : Steady cfg v₀ f) (hr : f.reading = false) :
    FallibleHoare (exec cfg faults) (fun v => v = v₀) (fillGap cfg) (fun _ v => Steady cfg v (bridged f))
      fun e v => ∃ f', Can t s name (File.lfsFileFillGap name) f (.error e) f' ∧ Represents cfg Any v f' := by
  have ha := h.represents.agrees
  refine FallibleHoare.bind (I := fun file v => file = v₀.file ∧ v = v₀)
    (does_load fun v hv => ⟨by rw [hv]; rfl, hv⟩) fun file => .and_left fun hv => ?_
  subst hv
  rw [ha.writing, ha.pos, ha.size]
  cases hgap : !f.writing && decide (f.pos > f.ctz.length)
  case false =>
    refine .pure fun v hv => ?_
    rwa [bridged, hgap, hv]
  case true =>
    have hgap' := hgap
    rw [Bool.and_eq_true, Bool.not_eq_true', decide_eq_true_eq] at hgap'
    obtain ⟨hw, hgt⟩ := hgap'
    have h₁ := h.represents.positioned hw hr ha.size_le
    have hv₁ : v₀.modify (fun file => { file with pos := file.size }) .file =
        v₀.modify ({ · with pos := f.ctz.length }) .file := by
      refine modify_congr ?_
      rw [Volume.get, ha.size]
    refine FallibleHoare.bind (I := fun _ v => v = v₀.modify ({ · with pos := f.ctz.length }) .file)
      (does_update fun v hv => by rw [hv, hv₁]) fun _ => ?_
    refine (does_writeZeroes hs (.of_not_writing h₁ hw { h.cached with }) hr (fun _ => le_rfl) ?_).weaken
      (fun _ h => h) (fun _ v hv => ?_) fun e v hv => ?_
    case refine_1 =>
      have hpos := ha.pos_le
      change f.ctz.length + (f.pos - f.ctz.length) ≤ maxFileSizeBytes
      omega
    case refine_2 => rwa [bridged, hgap]
    case refine_3 =>
      obtain ⟨f', hc, h'⟩ := Can.spoiled (t := t) (s := s) (e := e) hv
      refine ⟨f', Can.load.bind ?_, h'⟩
      rw [hgap]
      exact Can.update.bind hc

-- What a write does to a file that is not read from.
abbrev writeRest (name : Name) (data : List UInt8) : File.Lfs ℕ := do
  if ((← File.Lfs.load name).pos + data.length) % 2 ^ 32 > maxFileSizeBytes then
    throw .fBig
  else
    File.lfsFileFillGap name
    File.lfsFileFlushedWrite name data
    File.Lfs.update name ({ · with erred := false })
    return data.length

theorem does_writeRest (hs : faults.Spares cfg) (h : Steady cfg v₀ f) (hr : f.reading = false)
    (hl : data.length < 2 ^ 31) :
    FallibleHoare (exec cfg faults) (fun v => v = v₀) (do
      if ((← load .file).pos + data.length) % 2 ^ 32 > maxFileSizeBytes then
        throw .fBig
      else
        fillGap cfg
        fileFlushedWrite cfg data
        update .file ({ · with erred := false })
        return data.length)
      (fun r v => Follows cfg t s name (writeRest name data) f (.ok r) v)
      fun e v => Follows cfg t s name (writeRest name data) f (.error e) v := by
  have ha := h.represents.agrees
  have hmod : (f.pos + data.length) % 2 ^ 32 = f.pos + data.length := by
    have hpos := ha.pos_le
    have hmax : maxFileSizeBytes = 4096 := rfl
    exact Nat.mod_eq_of_lt (by omega)
  refine FallibleHoare.bind (I := fun file v => file = v₀.file ∧ v = v₀)
    (does_load fun v hv => ⟨by rw [hv]; rfl, hv⟩) fun file => .and_left fun hv => ?_
  subst hv
  rw [ha.pos, hmod]
  by_cases hc : f.pos + data.length > maxFileSizeBytes
  case pos =>
    rw [if_pos hc]
    refine FallibleHoare.throw fun v hv => ⟨f, Can.load.bind ?_, hv ▸ h.leaves⟩
    rw [hmod, if_pos hc]
    exact .throw
  case neg =>
    have hgo {r : Except LfsError ℕ} {f'} (hf : Can t s name (do
        File.lfsFileFillGap name
        File.lfsFileFlushedWrite name data
        File.Lfs.update name ({ · with erred := false })
        return data.length) f r f') : Can t s name (writeRest name data) f r f' := by
      refine Can.load.bind ?_
      rwa [hmod, if_neg hc]
    rw [if_neg hc]
    have hgap := @does_fillGap cfg faults v₀ f τ _ t s name hs h hr
    refine FallibleHoare.bind (hgap.weaken_error fun e v ⟨f', hg, h'⟩ => ⟨f', hgo hg.bind_error, h'.leaves⟩)
      fun _ => does_of_eq fun v₁ h₁ => ?_
    refine FallibleHoare.bind ((does_fileFlushedWrite hs h₁.represents h₁.filled h₁.cached
      (reading_bridged.trans hr) pos_le_bridged ?_).weaken_error fun e v hv => ?_) fun _ =>
      does_of_eq fun v₂ ⟨h₂, hf₂, hc₂⟩ => ?_
    case refine_1 =>
      rw [pos_bridged]
      exact Nat.le_of_not_lt hc
    case refine_2 =>
      obtain ⟨f', hw, h'⟩ := Can.spoiled (t := t) (s := s) (e := e) hv
      exact ⟨f', hgo (Can.fillGap.bind hw.bind_error), h'.leaves⟩
    refine FallibleHoare.bind (I := fun _ v => v = v₂.modify ({ · with erred := false }) .file)
      (does_update fun v hv => by rw [hv]) fun _ => .pure fun v hv => ?_
    refine ⟨_, hgo (Can.fillGap.bind (Can.writeBytes.bind (Can.update.bind .pure))), ?_⟩
    subst hv
    exact (Steady.mk h₂.unmarked hf₂ { hc₂ with }).leaves

theorem does_fileWrite (hs : faults.Spares cfg) (h : Steady cfg v₀ f) (hl : data.length < 2 ^ 31) :
    FallibleHoare (exec cfg faults) (fun v => v = v₀) (fileWrite cfg data)
      (fun r v => Follows cfg t s name (File.lfsFileWrite name data) f (.ok r) v)
      fun e v => Follows cfg t s name (File.lfsFileWrite name data) f (.error e) v := by
  have ha := h.represents.agrees
  refine FallibleHoare.bind (I := fun file v => file = v₀.file ∧ v = v₀)
    (does_load fun v hv => ⟨by rw [hv]; rfl, hv⟩) fun file => .and_left fun hv => ?_
  subst hv
  rw [ha.reading]
  cases hr : f.reading
  case false =>
    have hgo {r : Except LfsError ℕ} {v : Volume} (hf : Follows cfg t s name (writeRest name data) f r v) :
        Follows cfg t s name (File.lfsFileWrite name data) f r v := by
      obtain ⟨f', hc, h'⟩ := hf
      refine ⟨f', Can.load.bind ?_, h'⟩
      rw [hr]
      exact hc
    exact (does_writeRest hs h hr hl).weaken (fun _ h => h) (fun _ _ h => hgo h) fun _ _ h => hgo h
  case true =>
    -- There is nothing to be flushed in a file that is read from.
    have hw : f.writing = false := Bool.eq_false_of_not_eq_true fun hw =>
      absurd ((ha.branch hw).right.symm.trans hr) (by simp)
    have hw' : f.writing = true → f.reading = false := fun hw => (ha.branch hw).right
    have hgo {r : Except LfsError ℕ} {v : Volume}
        (hf : Follows cfg t s name (writeRest name data) (afterFlush f) r v) :
        Follows cfg t s name (File.lfsFileWrite name data) f r v := by
      obtain ⟨f', hc, h'⟩ := hf
      refine ⟨f', Can.load.bind ?_, h'⟩
      rw [hr]
      exact (Can.flush hw').bind hc
    refine FallibleHoare.bind ((does_fileFlush hs h.represents h.filled h.cached).weaken
      (fun _ h => h) (fun _ _ h => h) fun _ _ hv => absurd (hw.symm.trans hv.left) (by simp)) fun _ =>
      does_of_eq fun v₁ ⟨h₁, hc₁⟩ => ?_
    exact (does_writeRest hs (.of_not_writing h₁ writing_afterFlush hc₁) (reading_afterFlush hw') hl).weaken
      (fun _ h => h) (fun _ _ h => hgo h) fun _ _ h => hgo h

variable {npos : ℕ}

-- A reader may go to another position of its block.
theorem Represents.turned (h : Represents cfg K v f) (hr : f.reading = true) (ho : v.file.off ≠ cfg.blockSize)
    (hn : npos ≤ maxFileSizeBytes) (hi : (cfg.index f.pos).1 = (cfg.index npos).1) :
    Represents cfg K (v.modify ({ · with pos := npos, off := (cfg.index npos).2 }) .file)
      { f with pos := npos } := by
  have hw : f.writing = false := Bool.eq_false_of_not_eq_true fun hw =>
    absurd ((h.agrees.branch hw).right.symm.trans hr) (by simp)
  have hl := (cfg.located_index (Nat.lt_of_le_of_lt h.agrees.pos_le (by decide))).right
  have hl' := (cfg.located_index (Nat.lt_of_le_of_lt hn (by decide))).right
  refine ⟨h.asserted, h.inv, h.others, ?_, h.entry.modify, fun hin => ?_, fun hin => ?_, fun _ hw' => ?_⟩
  case refine_1 =>
    exact { h.agrees with
      pos    := rfl
      pos_le := hn
      branch := fun hw' => absurd (hw.symm.trans hw') (by simp) }
  case refine_2 =>
    have h := h.inlined hin
    have hc : { f with pos := npos }.content = f.content :=
      (content_of_not_writing (f := { f with pos := npos }) hw).trans (content_of_not_writing hw).symm
    rw [index_of_lt (h.pos_lt hr)] at hi
    rw [← hi] at hl'
    have hoff : (cfg.index npos).2 = npos := by
      have heq := hl'.eq
      rw [start_zero] at heq
      simpa [pointers] using heq
    have hlt := hl'.lt
    rw [hoff] at hlt
    exact ⟨h.head, hc ▸ h.content, hc ▸ h.length, fun _ => ⟨(h.block (.inr hr)).left, hoff⟩,
      fun _ => hlt, h.along⟩
  case refine_3 =>
    refine .inl ?_
    obtain ⟨pre, off, hc⟩ := (h.chained hin).resolve_right fun hd => absurd (hw.symm.trans hd.writing) (by simp)
    obtain ⟨i, hi', hb⟩ := (hc.reading hr).resolve_left ho
    refine ⟨pre, off, { hc with reading := fun _ => .inr ⟨i, ?_, hb⟩ }⟩
    rw [(hi'.unique hl).left, hi]
    exact hl'
  case refine_4 => exact absurd (hw.symm.trans hw') (by simp)

theorem Cached.turned {off : ℕ} (h : Cached cfg v) (hr : v.file.reading = true) (hw : v.file.writing = false) :
    Cached cfg (v.modify ({ · with pos := npos, off := off }) .file) where
  pcache        := h.pcache
  inlined       := h.inlined
  writing _ hw' := absurd (hw.symm.trans hw') (by simp)
  idle _ _ hr'  := absurd (hr.symm.trans hr') (by simp)

theorem does_seekInBlock (h : Represents cfg K v₀ f) (hcached : Cached cfg v₀) (hn : npos ≤ maxFileSizeBytes) :
    FallibleHoare (exec cfg faults) (fun v => v = v₀) (seekInBlock cfg npos)
      (fun ok v =>
        if ok = true then f.reading = true ∧ Represents cfg K v { f with pos := npos } ∧ Cached cfg v else v = v₀)
      fun _ _ => False := by
  refine FallibleHoare.bind (I := fun file v => file = v₀.file ∧ v = v₀)
    (does_load fun v hv => ⟨by rw [hv]; rfl, hv⟩) fun file => .and_left fun hv => ?_
  subst hv
  rw [h.agrees.reading, h.agrees.pos]
  split
  case isFalse => exact .pure fun v hv => hv
  case isTrue hc =>
    rw [Bool.and_eq_true, decide_eq_true_eq] at hc
    obtain ⟨hr, ho⟩ := hc
    have hw : v₀.file.writing = false := Bool.eq_false_of_not_eq_true fun hw =>
      absurd ((h.agrees.branch (h.agrees.writing.symm.trans hw)).right.symm.trans hr) (by simp)
    have ht := h.turned hr ho hn
    generalize cfg.index f.pos = o at ht ⊢
    generalize cfg.index npos = n at ht ⊢
    obtain ⟨oindex, _⟩ := o
    obtain ⟨nindex, noff⟩ := n
    refine FallibleHoare.bind (I := fun _ v => v = v₀) (does_isCached fun _ _ hv => hv) fun isCached => ?_
    split
    case isFalse => exact .pure fun v hv => hv
    case isTrue hi =>
      rw [Bool.and_eq_true, decide_eq_true_eq] at hi
      refine FallibleHoare.bind (I := fun _ v => v = v₀.modify ({ · with pos := npos, off := noff }) .file)
        (does_update fun v hv => by rw [hv]) fun _ => .pure fun v hv => ?_
      rw [hv]
      exact ⟨hr, ht hi.left, hcached.turned (h.agrees.reading.trans hr) hw⟩

theorem Can.move (hw : f.writing = true → f.reading = false) :
    Can t s name (File.lfsFileMove name npos) f (.ok ()) { afterFlush f with pos := npos } := by
  have hl : Can t s name (ExceptT.lift (File.perform (.isCached name))) f (.ok false) f :=
    lift none List.mem_cons_self
  exact hl.bind (load.bind ((flush hw).bind update))

theorem Can.move_error {e : LfsError} (h : Can t s name (File.lfsFileFlush name) f (.error e) f') :
    Can t s name (File.lfsFileMove name npos) f (.error e) f' := by
  have hl : Can t s name (ExceptT.lift (File.perform (.isCached name))) f (.ok false) f :=
    lift none List.mem_cons_self
  exact hl.bind (load.bind h.bind_error)

theorem Can.move_cached (hr : f.reading = true) :
    Can t s name (File.lfsFileMove name npos) f (.ok ()) { f with pos := npos } := by
  have hl : Can t s name (ExceptT.lift (File.perform (.isCached name))) f (.ok true) f :=
    lift none (List.mem_cons_of_mem _ (List.mem_singleton.mpr rfl))
  have hu : Can t s name (File.Lfs.update name ({ · with pos := npos })) f (.ok ()) { f with pos := npos } := update
  have hc : (!(true && f.reading)) = false := by simp [hr]
  refine hl.bind (load.bind ?_)
  rw [hc]
  exact hu

theorem does_fileSeek {off : Int32} (hf : faults.Spares cfg) (h : Steady cfg v₀ f) :
    FallibleHoare (exec cfg faults) (fun v => v = v₀) (fileSeek cfg off)
      (fun r v => Follows cfg t s name (File.lfsFileSeek name off) f (.ok r) v)
      fun e v => Follows cfg t s name (File.lfsFileSeek name off) f (.error e) v := by
  have hs := h.represents
  have ha := hs.agrees
  have hw : f.writing = true → f.reading = false := fun hw => (ha.branch hw).right
  unfold fileSeek File.lfsFileSeek
  generalize off.toUInt32.toNat = npos
  by_cases hn : npos > maxFileSizeBytes
  case pos =>
    simp only [if_pos hn]
    exact FallibleHoare.throw fun v hv => ⟨f, .throw, hv ▸ h.leaves⟩
  case neg =>
    simp only [if_neg hn]
    refine FallibleHoare.bind (I := fun file v => file = v₀.file ∧ v = v₀)
      (does_load fun v hv => ⟨by rw [hv]; rfl, hv⟩) fun file => .and_left fun hv => ?_
    subst hv
    rw [ha.pos]
    by_cases hp : f.pos = npos
    case pos =>
      rw [if_pos hp]
      refine .pure fun v hv => ⟨f, Can.load.bind ?_, hv ▸ h.leaves⟩
      rw [if_neg (not_not.mpr hp)]
      exact .pure
    case neg =>
      have hgo {r : Except LfsError Unit} {f'} (hc : Can t s name (File.lfsFileMove name npos) f r f') :
          Can t s name (do
            if (← File.Lfs.load name).pos ≠ npos then
              File.lfsFileMove name npos
            return npos) f (r.map fun _ => npos) f' := by
        refine Can.load.bind ?_
        rw [if_pos hp]
        cases r
        case ok    => exact hc.bind .pure
        case error => exact hc.bind_error
      rw [if_neg hp]
      refine FallibleHoare.bind ((does_seekInBlock hs h.cached (Nat.le_of_not_lt hn)).weaken_error
        fun _ _ hv => hv.elim) fun ok => ?_
      cases ok
      case true =>
        refine .pure fun v hv => ?_
        obtain ⟨hr, h', hc'⟩ := hv
        have hw' : f.writing = false := Bool.eq_false_of_not_eq_true fun hw' =>
          absurd ((hw hw').symm.trans hr) (by simp)
        exact ⟨_, hgo (r := .ok ()) (Can.move_cached hr), (Steady.of_not_writing h' hw' hc').leaves⟩
      case false =>
        refine FallibleHoare.bind ((does_flushFile hf h).weaken_error
          fun e v ⟨f', hc, h'⟩ => ⟨f', hgo (r := .error e) (Can.move_error hc), h'.represents.leaves⟩)
          fun _ => does_of_eq fun v₁ ⟨h₁, hc₁⟩ => ?_
        have h₂ := h₁.positioned writing_afterFlush (reading_afterFlush hw) (Nat.le_of_not_lt hn)
        refine FallibleHoare.bind (I := fun _ v => v = v₁.modify ({ · with pos := npos }) .file)
          (does_update fun v hv => by rw [hv]) fun _ => .pure fun v hv => ?_
        subst hv
        have hs₂ : Steady cfg _ _ := .of_not_writing h₂ writing_afterFlush { hc₁ with }
        exact ⟨_, hgo (r := .ok ()) (Can.move hw), hs₂.leaves⟩

end

end Littlefs
