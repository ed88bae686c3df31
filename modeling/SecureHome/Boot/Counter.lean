import SecureHome.Boot.CounterCalls

namespace Boot

open BootCounter

-- The counts of the successful initialisations since the last format, latest first.
def counts : List Entry → List UInt32
  | []                      => []
  | .format :: _            => []
  | .initialized count _ :: es => count :: counts es
  | _ :: es                 => counts es

-- A successful initialisation has a larger count than those before it.
def Increasing : List Entry → Prop
  | []                         => True
  | .initialized count _ :: es => (∀ n ∈ counts es, n < count) ∧ Increasing es
  | _ :: es                    => Increasing es

-- The count that is returned is the one of the last successful initialisation.
def Returned : List Entry → Prop
  | []                  => True
  | .counted count :: es => (counts es).head? = some count ∧ Returned es
  | _ :: es             => Returned es

-- The count of a successful initialisation is the one that is on the flash.
def Durable (es : List Entry) : Prop :=
  ∀ count bytes, .initialized count bytes ∈ es → committed bytes = some count

-- The counter does not wrap.
def noWrap : Pool.Cond sig Unit Event State where
  op _ o s  := o.isIncrement = true → s.board.bootCycleCounter ≠ 0xFFFFFFFF
  event _ _ := True

instance (t : Unit) (o : Op) (s : State) : Decidable (noWrap.op t o s) :=
  inferInstanceAs (Decidable (o.isIncrement = true → s.board.bootCycleCounter ≠ 0xFFFFFFFF))

instance (e : Event) (s : State) : Decidable (noWrap.event e s) :=
  inferInstanceAs (Decidable True)

namespace Counter

-- The invariant. No count is larger than the one on the flash.
structure Counting (c : BootCounter) : Prop where
  increasing : Increasing c.history
  returned   : Returned c.history
  durable    : Durable c.history
  bounded    : ∀ n ∈ counts c.history, ∃ m, committed c.bytes = some m ∧ n ≤ m

def Bumped (c : BootCounter) : Prop :=
  ∀ n ∈ counts c.history, n < c.count

def Ready (c : BootCounter) : Prop :=
  (counts c.history).head? = some c.count

def Fresh (c : BootCounter) : Prop :=
  counts c.history = []

variable {e : Entry} {es : List Entry} {c : BootCounter}

theorem counts_neutral (he : e.Neutral) : counts (e :: es) = counts es := by
  cases e <;> first | contradiction | rfl

theorem durable_cons (he : ∀ count bytes, e = .initialized count bytes → committed bytes = some count)
    (h : Durable es) : Durable (e :: es) := by
  intro count bytes hm
  rcases List.mem_cons.mp hm with heq | hm
  case inl => exact he count bytes heq.symm
  case inr => exact h count bytes hm

theorem Counting.note (he : e.Neutral) (h : Counting c) : Counting (c.note e) where
  increasing := by cases e <;> first | contradiction | exact h.increasing
  returned   := by cases e <;> first | contradiction | exact h.returned
  durable    := durable_cons (by cases e <;> first | contradiction | nofun) h.durable
  bounded    := by
    show ∀ n ∈ counts (e :: c.history), _
    rw [counts_neutral he]
    exact h.bounded

theorem lt_add_one {n m : UInt32} (h : n ≤ m) (hm : m ≠ 0xFFFFFFFF) : n < m + 1 := by
  have hn : m.toNat ≠ 0xFFFFFFFF := fun he => hm (UInt32.toNat_inj.mp he)
  have hl := m.toNat_lt
  rw [UInt32.le_iff_toNat_le] at h
  rw [UInt32.lt_iff_toNat_lt, UInt32.toNat_add, Nat.mod_eq_of_lt]
  all_goals simp; omega

theorem rule : CounterRule noWrap Counting Fresh Bumped Ready where
  inv    := ⟨fun _ _ => .note, fun _ h => { h with }⟩
  fresh  := ⟨fun _ _ he h => (counts_neutral he).trans h, fun _ h => h⟩
  bumped := ⟨fun _ _ he h n hn => h n (counts_neutral he ▸ hn), fun _ h => h⟩
  ready  := ⟨fun c e he h => by rw [Ready, BootCounter.note, counts_neutral he]; exact h, fun _ h => h⟩
  powerUp _ h := { h with }
  format c bytes _ h := {
    increasing := h.increasing
    returned   := h.returned
    durable    := durable_cons nofun h.durable
    bounded    := nofun }
  formatted _ _ := rfl
  load _ _ _ h := ⟨{ h with }, id⟩
  bump s hc h hl := by
    refine ⟨{ h with }, fun n hn => ?_⟩
    have ⟨m, hm, hle⟩ := h.bounded n hn
    rcases hl with he | he
    case inl => rw [he] at hm; contradiction
    case inr =>
      rw [he] at hm
      cases hm
      exact lt_add_one hle (hc rfl)
  first c _ hf n hn := by
    rw [hf] at hn
    contradiction
  close c h hb := ⟨{ h with
    bounded := fun n hn => ⟨c.count, committed_withCount, UInt32.le_of_lt (hb n hn)⟩ }, hb⟩
  initialized c h hb hc := by
    refine ⟨⟨⟨hb, h.increasing⟩, h.returned, durable_cons ?_ h.durable,
      fun n hn => ⟨c.count, hc, ?_⟩⟩, rfl⟩
    case refine_1 =>
      rintro _ _ ⟨rfl, rfl⟩
      exact hc
    case refine_2 =>
      rcases List.mem_cons.mp hn with rfl | hn
      · exact UInt32.le_refl _
      · exact UInt32.le_of_lt (hb n hn)
  counted c h hr := ⟨⟨h.increasing, ⟨hr, h.returned⟩, durable_cons nofun h.durable, h.bounded⟩, hr⟩
  seeded c _ _ h := ⟨⟨h.increasing, h.returned, durable_cons nofun h.durable, h.bounded⟩, id⟩

end Counter

open Counter

-- Between two formats, no two successful initialisations see the same boot count, and a count that
-- was seen is on the flash.
theorem counts_increase {s₀ : State} {p : Pool sig Unit State} (h : s₀.board.history = [])
    (hs : (system fun _ => true).Survives State.powerUp noWrap (.idle s₀.powerUp) p) :
    Increasing p.shared.board.history ∧ Returned p.shared.board.history ∧
      Durable p.shared.board.history := by
  have hc : s₀.powerUp.board.counter.history = [] := h
  have hi : Counting s₀.powerUp.board.counter := by
    constructor <;> rw [hc]
    case increasing => trivial
    case returned   => trivial
    case durable    => nofun
    case bounded    => nofun
  have ⟨hi, _⟩ := rule.sound hi hs
  exact ⟨hi.increasing, hi.returned, hi.durable⟩

-- The power is lost after the first boot, and the count is returned in the second one.
theorem counts_increase_of_reboot : ∃ p : Pool sig Unit State,
    p.shared.board.history = [.counted 1, .initialized 1 [1, 0, 0, 0], .initialized 0 [0, 0, 0, 0], .format] ∧
      Increasing p.shared.board.history ∧ Returned p.shared.board.history ∧
        Durable p.shared.board.history := by
  have ⟨p, hs, hp⟩ := (system fun _ => true).exists_survives_of_run State.powerUp noWrap
    (.idle State.virgin.powerUp)
    (fun p => p.shared.board.history =
      [.counted 1, .initialized 1 [1, 0, 0, 0], .initialized 0 [0, 0, 0, 0], .format])
    (firstInit ++ none :: some (.call () .init) :: .replicate 16 (some (.op () 0)) ++
      some (.call () .getBootCycleCount) :: .replicate 3 (some (.op () 0))) (by decide +kernel)
  exact ⟨p, of_decide_eq_true hp, counts_increase rfl hs⟩

end Boot
