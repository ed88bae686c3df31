import SecureHome.Boot.CounterCalls

namespace Boot

open BootCounter

-- The generator is only seeded when the RTC has updated the jitter or there was a seed to load.
def Entry.IsSeeded : Entry → Prop
  | .seeded jitter held => jitter = true ∨ held = true
  | _                   => True

-- The count of an existing file system is only incremented after a seed was saved.
def seedFirst : Pool.Cond sig Unit Event State where
  op _ o s  := o.isIncrement = true → s.board.seedHeld = true
  event _ _ := True

instance (t : Unit) (o : Op) (s : State) : Decidable (seedFirst.op t o s) :=
  inferInstanceAs (Decidable (o.isIncrement = true → s.board.seedHeld = true))

instance (e : Event) (s : State) : Decidable (seedFirst.event e s) :=
  inferInstanceAs (Decidable True)

namespace Jitter

def Zero (bytes : List UInt8) : Prop :=
  ∀ x ∈ bytes, x = 0

variable {bytes bytes' : List UInt8} {c : BootCounter} {e : Entry}

theorem zero_nil : Zero [] :=
  List.forall_mem_nil _

theorem zero_counterBytes : Zero (counterBytes 0) := by
  simp [Zero, counterBytes]

theorem Zero.append (h : Zero bytes) (h' : Zero bytes') : Zero (bytes ++ bytes') :=
  fun x hx => (List.mem_append.mp hx).elim (h x) (h' x)

theorem Zero.of_subset (h : Zero bytes) (hs : bytes' ⊆ bytes) : Zero bytes' :=
  fun x hx => h x (hs hx)

theorem countOf_zero (h : Zero bytes) : countOf bytes = 0 := by
  have hn : bytes.foldr (fun byte n => byte.toNat + 2 ^ 8 * n) 0 = 0 := by
    induction bytes
    case nil => rfl
    case cons x bytes hi =>
      have hx : x = 0 := h x (List.mem_cons_self ..)
      rw [List.foldr_cons, hi (h.of_subset (List.subset_cons_self ..)), hx]
      rfl
  rw [countOf, hn]
  rfl

theorem overwrite_zero (h : Zero bytes) : overwrite 0 bytes = 0 :=
  countOf_zero (h.append (zero_counterBytes.of_subset (List.drop_subset ..)))

theorem zero_withCount (h : Zero bytes) : Zero (withCount bytes 0) := by
  rw [withCount, List.overlay_of_le (Nat.zero_le _)]
  exact (zero_nil.append zero_counterBytes).append (h.of_subset (List.drop_subset ..))

-- The invariant. The count is zero, in memory and on the flash, until a seed was saved.
structure Held (c : BootCounter) : Prop where
  seeded : ∀ e ∈ c.history, e.IsSeeded
  count  : c.held = false → c.count = 0
  bytes  : c.held = false → Zero c.bytes

theorem Held.note (he : e.IsSeeded) (h : Held c) : Held (c.note e) :=
  { h with seeded := List.forall_mem_cons.mpr ⟨he, h.seeded⟩ }

theorem rule : CounterRule seedFirst Held (fun _ => True) (fun _ => True) (fun _ => True) where
  inv    := ⟨fun _ e he h => h.note (by cases e <;> trivial), fun _ h => ⟨h.seeded, nofun, nofun⟩⟩
  fresh  := framed_true
  bumped := framed_true
  ready  := framed_true
  powerUp _ h := { h with count := fun _ => rfl }
  format c bytes hb h := {
    seeded := List.forall_mem_cons.mpr ⟨trivial, h.seeded⟩
    count  := h.count
    bytes hh := by
      rcases hb with rfl | rfl
      · exact h.bytes hh
      · nofun }
  formatted _ _ := trivial
  load c bytes hb h := by
    refine ⟨{ h with count := fun hh => ?_ }, fun _ => trivial⟩
    show overwrite c.count bytes = 0
    rw [h.count hh]
    exact overwrite_zero ((h.bytes hh).of_subset hb.subset)
  bump s hc h _ := by
    have hh : s.board.counter.held = true := hc rfl
    refine ⟨⟨h.seeded, fun hf => ?_, fun hf => ?_⟩, trivial⟩ <;> exact absurd (hh.symm.trans hf) nofun
  first _ _ _ := trivial
  close c h _ := by
    refine ⟨{ h with bytes := fun hh => ?_ }, trivial⟩
    show Zero (withCount c.bytes c.count)
    rw [h.count hh]
    exact zero_withCount (h.bytes hh)
  initialized _ h _ _ := ⟨h.note trivial, trivial⟩
  counted _ h _       := ⟨h.note trivial, trivial⟩
  seeded c jitter hj h := by
    refine ⟨h.note ?_, fun _ => trivial⟩
    cases hh : c.held
    case true  => exact .inr rfl
    case false => exact .inl (hj (h.count hh))

end Jitter

-- If no count is incremented before a seed was saved, the generator is never seeded with neither the
-- jitter nor a seed.
theorem seeded_of_seedFirst {p : Pool sig Unit State}
    (h : (system fun _ => true).Survives State.powerUp seedFirst (.idle State.virgin.powerUp) p) :
    ∀ e ∈ p.shared.board.history, e.IsSeeded := by
  have hi : Jitter.Held State.virgin.powerUp.board.counter :=
    ⟨List.forall_mem_nil _, fun _ => rfl, fun _ => Jitter.zero_nil⟩
  exact (Jitter.rule.sound hi h).left.seeded

-- In the first boot, the generator is seeded after the wait for the RTC.
theorem seeded_of_firstInit : ∃ p : Pool sig Unit State,
    .seeded true false ∈ p.shared.board.history ∧ ∀ e ∈ p.shared.board.history, e.IsSeeded := by
  have ⟨p, h, hp⟩ := (system fun _ => true).exists_survives_of_run State.powerUp seedFirst
    (.idle State.virgin.powerUp) (fun p => .seeded true false ∈ p.shared.board.history)
    (firstInit ++ some (.call () .rndInit) :: .replicate 6 (some (.op () 0)) ++
      [some (.event .rtcEvent), some (.op () 0), some (.op () 0)]) (by decide +kernel)
  exact ⟨p, of_decide_eq_true hp, seeded_of_seedFirst h⟩

-- The power is lost before a seed is saved. The next boot has the count one, so that `rnd::init`
-- does not wait.
theorem not_seeded_of_reboot : ¬∀ p : Pool sig Unit State,
    (system fun _ => true).Survives State.powerUp .any (.idle State.virgin.powerUp) p →
      ∀ e ∈ p.shared.board.history, e.IsSeeded := by
  intro hn
  have ⟨p, h, hp⟩ := (system fun _ => true).exists_survives_of_run State.powerUp .any
    (.idle State.virgin.powerUp) (fun p => .seeded false false ∈ p.shared.board.history)
    (firstInit ++ none :: some (.call () .init) :: .replicate 16 (some (.op () 0)) ++
      some (.call () .rndInit) :: .replicate 7 (some (.op () 0))) (by decide +kernel)
  have hs : Entry.IsSeeded (.seeded false false) := hn p h _ (of_decide_eq_true hp)
  simp [Entry.IsSeeded] at hs

end Boot
