import Mathlib.Data.Fintype.Basic
import SecureHome.Lib.Monitor

variable {S : Sig} {τ κ ε σ : Type}

-- A resource that is protected by a mutex and a flag. The users of the resource check the flag before
-- they take the mutex. One of the calls tears the resource down, deletes the mutex and resets the flag.
namespace Teardown

-- What an operation has to do with the resource.
inductive Act
  | check (passed : Bool)
  | take (taken : Bool)
  | give
  | use
  | tear
  -- A part of the teardown has failed.
  | fail
  | delete
  | reset
  -- The call returns.
  | leave
  | other
  deriving DecidableEq

-- Where a thread is in its call.
inductive Phase
  | outside
  -- The flag was checked.
  | checked
  -- The mutex was taken, and that many times more.
  | inside (more : ℕ)
  | torn
  | failed
  -- The mutex was given back after the teardown.
  | released
  | deleted
  deriving DecidableEq

namespace Phase

def next : Phase → Act → Phase
  | outside, .check true    => checked
  | checked, .take true     => inside 0
  | checked, .take false    => outside
  | checked, .leave         => outside
  | inside n, .take true    => inside (n + 1)
  | inside 0, .give         => outside
  | inside (n + 1), .give   => inside n
  | inside 0, .tear         => torn
  | torn, .fail             => failed
  | torn, .give             => released
  | released, .delete       => deleted
  | deleted, .reset         => outside
  | phase, _                => phase

-- What a thread may do, unless its teardown has failed.
def Allows : Phase → Act → Prop
  | _, .other | failed, _                                                 => True
  | outside, .check _ | outside, .leave                                   => True
  | checked, .take _ | checked, .leave                                    => True
  | inside _, .check _ | inside _, .take _ | inside _, .give | inside _, .use => True
  | inside 0, .tear                                                       => True
  | torn, .tear | torn, .fail | torn, .give                               => True
  | released, .delete                                                     => True
  | deleted, .reset                                                       => True
  | _, _                                                                  => False

-- How many times more than once the thread has taken the mutex, if it has.
def holds : Phase → Option ℕ
  | inside n => some n
  | torn     => some 0
  | _        => none

-- The mutex was given back, but the flag was not reset yet.
def Closing : Phase → Prop
  | released | deleted => True
  | _                  => False

instance : DecidablePred Closing
  | released | deleted                                => inferInstanceAs (Decidable True)
  | outside | checked | inside _ | torn | failed      => inferInstanceAs (Decidable False)

-- The resource was torn down.
def Torn : Phase → Prop
  | torn | released | deleted => True
  | _                         => False

end Phase

-- The part of the state that matters.
structure View (τ : Type) where
  flag   : Bool
  -- The thread that holds the mutex, and how many times more than once.
  owner  : Option (τ × ℕ)
  -- The mutex exists.
  alive  : Prop
  intact : Prop

-- What a thread does to the state.
def View.Becomes (v : View τ) (t : τ) (v' : View τ) : Act → Prop
  | .check passed           => passed = v.flag ∧ v' = v
  | .take true              => v.alive ∧ (v.owner = none ∧ v' = { v with owner := some (t, 0) } ∨
    ∃ n, v.owner = some (t, n) ∧ v' = { v with owner := some (t, n + 1) })
  | .give                   => (v.owner = some (t, 0) → v' = { v with owner := none }) ∧
    ∀ n, v.owner = some (t, n + 1) → v' = { v with owner := some (t, n) }
  | .tear | .fail           => ∃ intact, v' = { v with intact }
  | .delete                 => v.owner = none → v' = { v with alive := False }
  | .reset                  => v' = { v with flag := false }
  | .take false | .use | .leave | .other => v' = v

-- The mutex exists when it is used, and so does the resource.
def Act.Safe (v : View τ) : Act → Prop
  | .take _ | .give => v.alive
  | .use            => v.intact
  | _               => True

-- The condition under which the mutex and the flag do protect the resource: when the mutex is given
-- back after the teardown, no other thread is between its check and its take, no thread makes its check
-- between that and the reset of the flag, and the teardown does not fail.
def Smooth (phases : τ → Phase) (t : τ) : Act → Prop
  | .give    => phases t = .torn → ∀ u, u ≠ t → phases u ≠ .checked
  | .check _ => ∀ u, ¬(phases u).Closing
  | .fail    => phases t ≠ .torn
  | _        => True

-- The invariant.
structure Inv (phases : τ → Phase) (v : View τ) : Prop where
  notFailed t : phases t ≠ .failed
  owner t n   : v.owner = some (t, n) ↔ (phases t).holds = some n
  alone t     : (phases t).Closing → ∀ u, u ≠ t → phases u = .outside
  alive       : ¬v.alive → (∃ t, phases t = .deleted) ∨ v.flag = false ∧ ∀ t, phases t = .outside
  intact      : ¬v.intact → (∃ t, (phases t).Torn) ∨ v.flag = false ∧ ∀ t, phases t = .outside

namespace Inv

variable {phases : τ → Phase} {v v' : View τ} {t u : τ} {n : ℕ}

theorem start (hf : v.owner = none) (ha : v.alive) (hi : v.intact) :
    Inv (fun _ : τ => .outside) v where
  notFailed _ := nofun
  owner t n   := by simp [hf, Phase.holds]
  alone _     := False.elim
  alive h     := absurd ha h
  intact h    := absurd hi h

-- While a thread is in its call and not at the end of a teardown, there is a mutex.
theorem alive_of (h : Inv phases v) (ho : phases t ≠ .outside) (hd : phases t ≠ .deleted) : v.alive := by
  by_contra ha
  rcases h.alive ha with ⟨u, hu⟩ | ⟨_, hn⟩
  case inr => exact ho (hn t)
  case inl =>
    by_cases hut : t = u
    case pos => exact hd (hut ▸ hu)
    case neg => exact ho (h.alone u (hu ▸ trivial) t hut)

-- While a thread holds the mutex and has not torn anything down, the resource is there.
theorem intact_of (h : Inv phases v) (ht : phases t = .inside n) : v.intact := by
  by_contra hi
  have hw : v.owner = some (t, n) := (h.owner t n).mpr (by rw [ht]; rfl)
  rcases h.intact hi with ⟨u, hu⟩ | ⟨_, hn⟩
  case inr => exact absurd (ht.symm.trans (hn t)) nofun
  case inl =>
    have hut : t ≠ u := fun he => by rw [← he, ht] at hu; exact hu
    cases hp : phases u <;> rw [hp] at hu
    case torn =>
      have hw' := (h.owner u 0).mpr (by rw [hp]; rfl)
      exact hut (Prod.mk.inj (Option.some.inj (hw.symm.trans hw'))).left
    case released => exact absurd (ht.symm.trans (h.alone u (hp ▸ trivial) t hut)) nofun
    case deleted  => exact absurd (ht.symm.trans (h.alone u (hp ▸ trivial) t hut)) nofun
    all_goals exact hu

-- What is known of the others when a thread is in its call.
theorem deleted_of (h : Inv phases v) (ho : phases t ≠ .outside ∨ v.flag = true) (hd : phases t ≠ .deleted)
    (ha : ¬v.alive) : ∃ u, u ≠ t ∧ phases u = .deleted := by
  rcases h.alive ha with ⟨u, hu⟩ | ⟨hf, hn⟩
  case inl => exact ⟨u, fun he => hd (he ▸ hu), hu⟩
  case inr =>
    rcases ho with ho | ho
    · exact absurd (hn t) ho
    · exact absurd (hf.symm.trans ho) nofun

theorem torn_of (h : Inv phases v) (ho : phases t ≠ .outside ∨ v.flag = true) (hd : ¬(phases t).Torn)
    (hi : ¬v.intact) : ∃ u, u ≠ t ∧ (phases u).Torn := by
  rcases h.intact hi with ⟨u, hu⟩ | ⟨hf, hn⟩
  case inl => exact ⟨u, fun he => hd (he ▸ hu), hu⟩
  case inr =>
    rcases ho with ho | ho
    · exact absurd (hn t) ho
    · exact absurd (hf.symm.trans ho) nofun

theorem not_closing_of (h : Inv phases v) (ho : phases t ≠ .outside) (hu : u ≠ t) : ¬(phases u).Closing :=
  fun hc => ho (h.alone u hc t hu.symm)

theorem owner_of (h : Inv phases v) (hn : (phases t).holds = none) : v.owner ≠ some (t, n) := by
  intro ho
  have hs := (h.owner t n).mp ho
  rw [hn] at hs
  contradiction

-- There is one owner at most.
theorem owner_other (h : Inv phases v) (ht : (phases t).holds = some n) (hu : u ≠ t) (k : ℕ) :
    v.owner ≠ some (u, k) := by
  intro ho
  have hs := ((h.owner t n).mpr ht).symm.trans ho
  exact hu (Prod.mk.inj (Option.some.inj hs)).left.symm

-- Every step that a thread is allowed to make is safe.
theorem safe {a : Act} (h : Inv phases v) (ha : (phases t).Allows a) : a.Safe v := by
  have hf := h.notFailed t
  cases a
  case take | give =>
    refine h.alive_of (t := t) (fun hp => ?_) fun hp => ?_
    all_goals
      rw [hp] at ha
      exact ha
  case use =>
    cases hp : phases t <;> rw [hp] at ha
    case inside n => exact h.intact_of hp
    case failed   => exact absurd hp hf
    all_goals exact ha.elim
  all_goals trivial

variable [DecidableEq τ] {a : Act} {phase : Phase}

-- The other threads are not concerned by a step that changes the phase of one thread.
theorem update (h : Inv phases v) (hf : phase ≠ .failed)
    (ho : ∀ n, v'.owner = some (t, n) ↔ phase.holds = some n)
    (hou : ∀ u, u ≠ t → ∀ n, v'.owner = some (u, n) ↔ v.owner = some (u, n))
    (hc : phase.Closing → ∀ u, u ≠ t → phases u = .outside)
    (hcu : phase ≠ .outside → ∀ u, u ≠ t → ¬(phases u).Closing)
    (ha : ¬v'.alive → phase = .deleted ∨ (∃ u, u ≠ t ∧ phases u = .deleted) ∨
      v'.flag = false ∧ phase = .outside ∧ ∀ u, u ≠ t → phases u = .outside)
    (hi : ¬v'.intact → phase.Torn ∨ (∃ u, u ≠ t ∧ (phases u).Torn) ∨
      v'.flag = false ∧ phase = .outside ∧ ∀ u, u ≠ t → phases u = .outside) :
    Inv (Function.update phases t phase) v' := by
  have hall (P : Phase → Prop) (ht : P phase) (hu : ∀ u, u ≠ t → P (phases u)) (u : τ) :
      P (Function.update phases t phase u) := by
    by_cases he : u = t
    case pos => rw [he, Function.update_self]; exact ht
    case neg => rw [Function.update_of_ne he]; exact hu u he
  have hex (P : Phase → Prop) (he : P phase ∨ ∃ u, u ≠ t ∧ P (phases u)) :
      ∃ u, P (Function.update phases t phase u) := by
    rcases he with he | ⟨u, hu, he⟩
    · exact ⟨t, by rwa [Function.update_self]⟩
    · exact ⟨u, by rwa [Function.update_of_ne hu]⟩
  constructor
  case notFailed => exact hall (· ≠ .failed) hf fun u _ => h.notFailed u
  case owner =>
    intro u n
    by_cases he : u = t
    case pos => rw [he, Function.update_self]; exact ho n
    case neg => rw [Function.update_of_ne he]; exact (hou u he n).trans (h.owner u n)
  case alone =>
    intro u hu w hw
    by_cases he : u = t
    case pos =>
      rw [he, Function.update_self] at hu
      rw [he] at hw
      rw [Function.update_of_ne hw]
      exact hc hu w hw
    case neg =>
      rw [Function.update_of_ne he] at hu
      by_cases hwt : w = t
      case pos =>
        rw [hwt, Function.update_self]
        by_contra hp
        exact hcu hp u he hu
      case neg =>
        rw [Function.update_of_ne hwt]
        exact h.alone u hu w hw
  case alive =>
    intro hn
    rcases ha hn with hp | hp | ⟨hf, hp, hu⟩
    · exact .inl (hex (· = .deleted) (.inl hp))
    · exact .inl (hex (· = .deleted) (.inr hp))
    · exact .inr ⟨hf, hall (· = .outside) hp hu⟩
  case intact =>
    intro hn
    rcases hi hn with hp | hp | ⟨hf, hp, hu⟩
    · exact .inl (hex Phase.Torn (.inl hp))
    · exact .inl (hex Phase.Torn (.inr hp))
    · exact .inr ⟨hf, hall (· = .outside) hp hu⟩

-- A step of a thread to another phase, where the mutex may change its owner.
theorem move (h : Inv phases v) (hp : phases t ≠ .outside) (ht : ¬(phases t).Torn) (hf : phase ≠ .failed)
    (hc : ¬phase.Closing) {owner : Option (τ × ℕ)} (ho : ∀ n, owner = some (t, n) ↔ phase.holds = some n)
    (hou : ∀ u, u ≠ t → ∀ n, owner = some (u, n) ↔ v.owner = some (u, n)) :
    Inv (Function.update phases t phase) { v with owner } := by
  refine h.update hf ho hou (fun hn => absurd hn hc) (fun _ u => h.not_closing_of hp)
    (fun hn => .inr (.inl (h.deleted_of (.inl hp) ?_ hn))) fun hn => .inr (.inl (h.torn_of (.inl hp) ht hn))
  exact fun hd => ht (hd ▸ trivial)

theorem check (h : Inv phases v) (hp : phases t = .outside) (hf : v.flag = true)
    (hs : ∀ u, ¬(phases u).Closing) : Inv (Function.update phases t .checked) v := by
  refine h.update nofun (fun n => ?_) (fun _ _ _ => .rfl) nofun (fun _ u _ => hs u)
    (fun hn => .inr (.inl (h.deleted_of (.inr hf) ?_ hn))) fun hn => .inr (.inl (h.torn_of (.inr hf) ?_ hn))
  · rw [h.owner t n, hp]
    rfl
  · rw [hp]
    nofun
  · rw [hp]
    exact id

-- A step that changes nothing that matters.
theorem stay (h : Inv phases v) (hp : phase = phases t) : Inv (Function.update phases t phase) v := by
  rw [hp, Function.update_eq_self]
  exact h

theorem take (h : Inv phases v) (hp : phases t = .checked) (ho : v.owner = none) :
    Inv (Function.update phases t (.inside 0)) { v with owner := some (t, 0) } := by
  refine h.move (by rw [hp]; nofun) (by rw [hp]; exact id) (by nofun) (by nofun) (fun n => ?_)
    fun u hu n => ?_
  · simp [Phase.holds]
  · simp [ho, hu.symm]

theorem takeMore (h : Inv phases v) (hp : phases t = .inside n) :
    Inv (Function.update phases t (.inside (n + 1))) { v with owner := some (t, n + 1) } := by
  refine h.move (by rw [hp]; nofun) (by rw [hp]; exact id) (by nofun) (by nofun) (fun k => ?_)
    fun u hu k => ?_
  · simp [Phase.holds]
  · simp [h.owner_other (t := t) (n := n) (by rw [hp]; rfl) hu k, hu.symm]

theorem giveOnce (h : Inv phases v) (hp : phases t = .inside (n + 1)) :
    Inv (Function.update phases t (.inside n)) { v with owner := some (t, n) } := by
  refine h.move (by rw [hp]; nofun) (by rw [hp]; exact id) (by nofun) (by nofun) (fun k => ?_)
    fun u hu k => ?_
  · simp [Phase.holds]
  · simp [h.owner_other (t := t) (n := n + 1) (by rw [hp]; rfl) hu k, hu.symm]

theorem give (h : Inv phases v) (hp : phases t = .inside 0) :
    Inv (Function.update phases t .outside) { v with owner := none } := by
  refine h.move (by rw [hp]; nofun) (by rw [hp]; exact id) (by nofun) (by nofun) (fun k => ?_)
    fun u hu k => ?_
  · simp [Phase.holds]
  · simp [h.owner_other (t := t) (n := 0) (by rw [hp]; rfl) hu k]

-- A call returns without having taken the mutex.
theorem leave (h : Inv phases v) (hp : phases t = .checked) :
    Inv (Function.update phases t .outside) v := by
  have hm (hs : ∀ n, v.owner = some (t, n) ↔ Phase.outside.holds = some n) :
      Inv (Function.update phases t .outside) { v with owner := v.owner } :=
    h.move (by rw [hp]; nofun) (by rw [hp]; exact id) (by nofun) (by nofun) hs fun _ _ _ => .rfl
  refine hm fun n => ?_
  rw [h.owner t n, hp]
  rfl

theorem tear (h : Inv phases v) (hp : phases t = .inside 0 ∨ phases t = .torn) (intact : Prop) :
    Inv (Function.update phases t .torn) { v with intact } := by
  have ho : phases t ≠ .outside := by rcases hp with hp | hp <;> simp [hp]
  have hd : phases t ≠ .deleted := by rcases hp with hp | hp <;> simp [hp]
  refine h.update nofun (fun n => ?_) (fun _ _ _ => .rfl) nofun (fun _ u => h.not_closing_of ho)
    (fun hn => .inr (.inl (h.deleted_of (.inl ho) hd hn))) fun _ => .inl trivial
  rw [h.owner t n]
  rcases hp with hp | hp <;> simp [hp, Phase.holds]

-- The mutex is given back after the teardown, when no other thread is about to take it.
theorem release (h : Inv phases v) (hp : phases t = .torn) (hs : ∀ u, u ≠ t → phases u ≠ .checked) :
    Inv (Function.update phases t .released) { v with owner := none } := by
  have hh : (phases t).holds = some 0 := by rw [hp]; rfl
  have hu (u : τ) (hu : u ≠ t) : phases u = .outside := by
    have ho (n : ℕ) : (phases u).holds ≠ some n := fun hn =>
      h.owner_other hh hu n ((h.owner u n).mpr hn)
    have hc := h.not_closing_of (by rw [hp]; nofun) hu
    cases hq : phases u <;> rw [hq] at ho hc
    case checked  => exact absurd hq (hs u hu)
    case inside n => exact absurd rfl (ho n)
    case torn     => exact absurd rfl (ho 0)
    case failed   => exact absurd hq (h.notFailed u)
    case released => exact absurd trivial hc
    case deleted  => exact absurd trivial hc
  refine h.update nofun (fun n => ?_) (fun u hu n => ?_) (fun _ => hu) (fun _ u => ?_) (fun hn => ?_)
    fun _ => .inl trivial
  · simp [Phase.holds]
  · simp [h.owner_other hh hu n]
  · exact h.not_closing_of (by rw [hp]; nofun)
  · exact .inr (.inl (h.deleted_of (.inl (by rw [hp]; nofun)) (by rw [hp]; nofun) hn))

theorem delete (h : Inv phases v) (hp : phases t = .released) :
    v.owner = none ∧ Inv (Function.update phases t .deleted) { v with alive := False } := by
  have hu := h.alone t (hp ▸ trivial)
  have ho : v.owner = none := by
    rw [Option.eq_none_iff_forall_ne_some]
    rintro ⟨u, n⟩ ho
    have hn := (h.owner u n).mp ho
    by_cases he : u = t
    case pos => rw [he, hp] at hn; contradiction
    case neg => rw [hu u he] at hn; contradiction
  refine ⟨ho, h.update nofun (fun n => ?_) (fun _ _ _ => .rfl) (fun _ => hu) (fun _ u he => ?_)
    (fun _ => .inl rfl) fun _ => .inl trivial⟩
  · simp [Phase.holds, ho]
  · rw [hu u he]
    exact id

theorem reset (h : Inv phases v) (hp : phases t = .deleted) :
    Inv (Function.update phases t .outside) { v with flag := false } := by
  have hu := h.alone t (hp ▸ trivial)
  refine h.update nofun (fun n => ?_) (fun _ _ _ => .rfl) nofun nofun (fun _ => .inr (.inr ⟨rfl, rfl, hu⟩))
    fun _ => .inr (.inr ⟨rfl, rfl, hu⟩)
  rw [h.owner t n, hp]
  rfl

-- Every step that a thread is allowed to make keeps the invariant, if it is smooth.
theorem step_check {passed : Bool} (h : Inv phases v) (ha : (phases t).Allows (.check passed))
    (hv : passed = v.flag) (hs : Smooth phases t (.check passed)) :
    Inv (Function.update phases t ((phases t).next (.check passed))) v := by
  cases hp : phases t <;> rw [hp] at ha
  case outside =>
    cases passed
    case false => exact h.stay hp.symm
    case true  => exact h.check hp hv.symm hs
  case inside => cases passed <;> exact h.stay hp.symm
  case failed => exact absurd hp (h.notFailed t)
  all_goals exact ha.elim

theorem step_take {taken : Bool} (h : Inv phases v) (ha : (phases t).Allows (.take taken))
    (hb : v.Becomes t v' (.take taken)) :
    Inv (Function.update phases t ((phases t).next (.take taken))) v' := by
  cases hp : phases t <;> rw [hp] at ha
  case checked =>
    cases taken
    case false => cases (hb : v' = v); exact h.leave hp
    case true  =>
      rcases hb.right with ⟨ho, rfl⟩ | ⟨n, ho, _⟩
      case inl => exact h.take hp ho
      case inr => exact absurd ho (h.owner_of (by rw [hp]; rfl))
  case inside n =>
    have ho : v.owner = some (t, n) := (h.owner t n).mpr (by rw [hp]; rfl)
    cases taken
    case false => cases (hb : v' = v); exact h.stay hp.symm
    case true  =>
      rcases hb.right with ⟨hn, _⟩ | ⟨k, hk, rfl⟩
      case inl => exact absurd (hn.symm.trans ho) nofun
      case inr =>
        cases (Prod.mk.inj (Option.some.inj (ho.symm.trans hk))).right
        exact h.takeMore hp
  case failed => exact absurd hp (h.notFailed t)
  all_goals exact ha.elim

theorem step_give (h : Inv phases v) (ha : (phases t).Allows .give) (hb : v.Becomes t v' .give)
    (hs : Smooth phases t .give) : Inv (Function.update phases t ((phases t).next .give)) v' := by
  have ⟨hb₀, hb₁⟩ := hb
  cases hp : phases t <;> rw [hp] at ha
  case inside n =>
    have ho : v.owner = some (t, n) := (h.owner t n).mpr (by rw [hp]; rfl)
    cases n
    case zero   => rw [hb₀ ho]; exact h.give hp
    case succ n => rw [hb₁ n ho]; exact h.giveOnce hp
  case torn =>
    rw [hb₀ ((h.owner t 0).mpr (by rw [hp]; rfl))]
    exact h.release hp (hs hp)
  case failed => exact absurd hp (h.notFailed t)
  all_goals exact ha.elim

theorem step_tear (h : Inv phases v) (ha : (phases t).Allows .tear) (hb : v.Becomes t v' .tear) :
    Inv (Function.update phases t ((phases t).next .tear)) v' := by
  have ⟨intact, hb⟩ := hb
  rw [hb]
  cases hp : phases t <;> rw [hp] at ha
  case inside n =>
    cases n
    case zero => exact h.tear (.inl hp) intact
    case succ => exact ha.elim
  case torn   => exact h.tear (.inr hp) intact
  case failed => exact absurd hp (h.notFailed t)
  all_goals exact ha.elim

theorem step (h : Inv phases v) (ha : (phases t).Allows a) (hb : v.Becomes t v' a)
    (hs : Smooth phases t a) : Inv (Function.update phases t ((phases t).next a)) v' := by
  have hf := h.notFailed t
  cases a
  case other | use =>
    cases (hb : v' = v)
    cases hp : phases t <;> exact h.stay hp.symm
  case check => exact hb.right ▸ h.step_check ha hb.left hs
  case take  => exact h.step_take ha hb
  case give  => exact h.step_give ha hb hs
  case tear  => exact h.step_tear ha hb
  case fail  =>
    cases hp : phases t <;> rw [hp] at ha
    case torn   => exact absurd hp hs
    case failed => exact absurd hp hf
    all_goals exact ha.elim
  case delete =>
    cases hp : phases t <;> rw [hp] at ha
    case released => rw [hb (h.delete hp).left]; exact (h.delete hp).right
    case failed   => exact absurd hp hf
    all_goals exact ha.elim
  case reset =>
    rw [show v' = _ from hb]
    cases hp : phases t <;> rw [hp] at ha
    case deleted => exact h.reset hp
    case failed  => exact absurd hp hf
    all_goals exact ha.elim
  case leave =>
    cases (hb : v' = v)
    cases hp : phases t <;> rw [hp] at ha
    case outside => exact h.stay hp.symm
    case checked => exact h.leave hp
    case failed  => exact absurd hp hf
    all_goals exact ha.elim

end Inv

-- What the operations of the calls have to do with the resource.
structure Usage (S : Sig) (κ : Type) where
  -- The call tears the resource down.
  tears : κ → Bool
  act   : Bool → (o : S.Op) → S.Ret o → Act
  -- What the operations of the calls have in common.
  Fits  : Bool → S.Op → Prop

-- The call is at a certain point.
abbrev AtPhase (b : Bool) (phase : Phase) (m : Bool × Phase) : Prop :=
  m = (b, phase)

-- Where a call may be when it returns. It has either given the mutex back or not taken it.
def Returned (b : Bool) (m : Bool × Phase) : Prop :=
  AtPhase b .outside m ∨ AtPhase b .checked m ∨ AtPhase b .failed m

namespace Usage

variable (U : Usage S κ)

-- Whether the call of a thread tears the resource down, and where the thread is in its call.
def monitor : Monitor S κ (Bool × Phase) where
  idle         := (false, .outside)
  start c      := (U.tears c, .outside)
  next m o r   := (m.1, m.2.next (U.act m.1 o r))
  allows m o   := U.Fits m.1 o ∧ ∀ r, m.2.Allows (U.act m.1 o r)

theorem obeys_perform {b : Bool} {o : S.Op} {phase : Phase} {phase' : S.Ret o → Phase} (hf : U.Fits b o)
    (ha : ∀ r, phase.Allows (U.act b o r)) (hn : ∀ r, phase.next (U.act b o r) = phase' r) :
    (Prog.perform o).Obeys U.monitor (AtPhase b phase) fun r => AtPhase b (phase' r) :=
  .perform (fun _ hm => hm ▸ ⟨hf, ha⟩) fun _ r hm => hm ▸ congrArg (b, ·) (hn r)

-- A program that a call starts with.
def Guards (b : Bool) {χ α : Type} (p : Fallible S χ α) : Prop :=
  Prog.FallibleObeys U.monitor (AtPhase b .outside) p (fun _ => Returned b) fun _ => Returned b

-- The last operation of a call.
theorem obeys_leave {b : Bool} {o : S.Op} (hf : U.Fits b o) (ha : ∀ r, U.act b o r = .leave) :
    (Prog.perform o).Obeys U.monitor (Returned b) fun _ m => m.2 = .outside ∨ m.2 = .failed := by
  refine .perform (fun m hm => ?_) fun m r hm => ?_
  case refine_1 => rcases hm with rfl | rfl | rfl <;> exact ⟨hf, fun r => by rw [ha]; trivial⟩
  case refine_2 =>
    have hn : U.monitor.next m o r = (m.1, m.2.next .leave) := by
      rw [← ha r]
      rcases hm with rfl | rfl | rfl <;> rfl
    rw [hn]
    rcases hm with rfl | rfl | rfl
    · exact .inl rfl
    · exact .inl rfl
    · exact .inr rfl

-- The usage describes what the calls, the operations and the events of the system do.
structure Describes (view : σ → View τ) (M : System S τ κ ε σ) : Prop where
  calls t c q      : M.calls t c = some q →
    q.ObeysFrom U.monitor (fun _ m => m.2 = .outside ∨ m.2 = .failed) (U.monitor.start c)
  exec t o s r s' b : (r, s') ∈ M.exec t o s → U.Fits b o →
    (view s).Becomes t (view s') (U.act b o r)
  event e s s'     : M.event e s = some s' → view s' = view s

variable [DecidableEq τ]

def phases (os : List (Occurrence S τ κ ε)) (t : τ) : Phase :=
  (Occurrence.observed U.monitor t os).2

-- The call of the thread tears the resource down.
def tearing (os : List (Occurrence S τ κ ε)) (t : τ) : Bool :=
  (Occurrence.observed U.monitor t os).1

-- All steps of a run were smooth.
def Orderly : List (Occurrence S τ κ ε) → Prop
  | []              => True
  | .op t o r :: os => Smooth (U.phases os) t (U.act (U.tearing os t) o r) ∧ Orderly os
  | .call .. :: os  => Orderly os
  | .event _ :: os  => Orderly os

instance [Fintype τ] {phases : τ → Phase} {t : τ} : (a : Act) → Decidable (Smooth phases t a)
  | .give    => inferInstanceAs (Decidable (phases t = .torn → ∀ u, u ≠ t → phases u ≠ .checked))
  | .check _ => inferInstanceAs (Decidable (∀ u, ¬(phases u).Closing))
  | .fail    => inferInstanceAs (Decidable (phases t ≠ .torn))
  | .take _ | .use | .tear | .delete | .reset | .leave | .other => inferInstanceAs (Decidable True)

instance decidableOrderly [Fintype τ] : (os : List (Occurrence S τ κ ε)) → Decidable (U.Orderly os)
  | []              => inferInstanceAs (Decidable True)
  | .op t o r :: os =>
    have := decidableOrderly os
    inferInstanceAs (Decidable (Smooth (U.phases os) t (U.act (U.tearing os t) o r) ∧ U.Orderly os))
  | .call .. :: os  => decidableOrderly os
  | .event _ :: os  => decidableOrderly os

variable {U} {view : σ → View τ} {M : System S τ κ ε σ} {os : List (Occurrence S τ κ ε)}
variable {p : Pool S τ σ} {s₀ : σ} {t : τ}

theorem tearing_eq (os : List (Occurrence S τ κ ε)) (t : τ) :
    U.tearing os t = (Occurrence.latest t os).any U.tears := by
  induction os
  case nil => rfl
  case cons o os hi =>
    cases o
    case call u c =>
      by_cases hu : u = t
      case pos => simp [tearing, Occurrence.observed, Occurrence.latest, hu, monitor]
      case neg => simpa [tearing, Occurrence.observed, Occurrence.latest, hu] using hi
    case op u o r =>
      by_cases hu : u = t
      case pos => simpa [tearing, Occurrence.observed, Occurrence.latest, hu, monitor] using hi
      case neg => simpa [tearing, Occurrence.observed, Occurrence.latest, hu] using hi
    case event => exact hi

theorem Describes.obeys (hd : U.Describes view M) (h : M.History .any (.idle s₀) os p) (t : τ) :
    (p.threads t).ObeysFrom U.monitor (fun _ m => m.2 = .outside ∨ m.2 = .failed)
      (Occurrence.observed U.monitor t os) :=
  System.History.obeys (Q := fun _ (m : Bool × Phase) => m.2 = .outside ∨ m.2 = .failed) (.inl rfl)
    (hd.calls t) h

theorem phases_op {o : S.Op} {r : S.Ret o} :
    U.phases (.op (ε := ε) t o r :: os) =
      Function.update (U.phases os) t ((U.phases os t).next (U.act (U.tearing os t) o r)) := by
  funext u
  by_cases hu : u = t
  case pos => subst hu; simp [phases, tearing, Occurrence.observed, monitor]
  case neg => simp [phases, Occurrence.observed, Function.update_of_ne hu, Ne.symm hu]

-- While all steps are smooth, the invariant holds.
theorem Describes.inv (hd : U.Describes view M) (hf : (view s₀).owner = none) (ha : (view s₀).alive)
    (hi : (view s₀).intact) (h : M.History .any (.idle s₀) os p) (ho : U.Orderly os) :
    Inv (U.phases os) (view p.shared) := by
  induction h
  case refl => exact .start hf ha hi
  case call t c q hh ht _ hs =>
    have hs := hs ho
    have hq := hd.obeys hh t
    rw [ht] at hq
    have hp : U.phases _ t = .outside := hq.resolve_right (hs.notFailed t)
    refine (congrArg (Inv · _) (funext fun u => ?_)).mpr hs
    by_cases hu : u = t
    case pos => subst hu; simp [phases, Occurrence.observed, monitor] at hp ⊢; exact hp.symm
    case neg => simp [phases, Occurrence.observed, Ne.symm hu]
  case op t o k r s hh ht _ hm hs =>
    obtain ⟨hsm, ho⟩ := ho
    have hq := hd.obeys hh t
    rw [ht] at hq
    rw [phases_op]
    exact (hs ho).step (hq.left.right r) (hd.exec t o _ r s _ hm hq.left.left) hsm
  case event hh _ he hs =>
    rw [hd.event _ _ _ he]
    exact hs ho

-- While all steps are smooth, the next operation of a thread is safe.
theorem Describes.safe (hd : U.Describes view M) (hf : (view s₀).owner = none) (ha : (view s₀).alive)
    (hi : (view s₀).intact) (h : M.History .any (.idle s₀) os p) (ho : U.Orderly os) {o : S.Op}
    {k : S.Ret o → Prog S Unit} (ht : p.threads t = .op o k) :
    U.Fits (U.tearing os t) o ∧ ∀ r, (U.act (U.tearing os t) o r).Safe (view p.shared) := by
  have hq := hd.obeys h t
  rw [ht] at hq
  exact ⟨hq.left.left, fun r => (hd.inv hf ha hi h ho).safe (hq.left.right r)⟩

end Usage

section Protected

variable [DecidableEq τ]

-- The next operation of a call that tears nothing down is one that the state permits.
def Protected (tears : κ → Bool) (permits : σ → S.Op → Prop) (os : List (Occurrence S τ κ ε))
    (p : Pool S τ σ) : Prop :=
  ∀ t c o k, Occurrence.latest t os = some c → tears c = false → p.threads t = .op o k → permits p.shared o

theorem Usage.Describes.isProtected {U : Usage S κ} {view : σ → View τ} {M : System S τ κ ε σ}
    {permits : σ → S.Op → Prop} {os : List (Occurrence S τ κ ε)} {p : Pool S τ σ} {s₀ : σ}
    (hd : U.Describes view M) (hf : (view s₀).owner = none) (ha : (view s₀).alive)
    (hi : (view s₀).intact) (h : M.History .any (.idle s₀) os p) (ho : U.Orderly os)
    (hp : ∀ s o, U.Fits false o → (∀ r, (U.act false o r).Safe (view s)) → permits s o) :
    Protected U.tears permits os p := by
  intro t c o k hc ht hk
  have hn := hd.safe hf ha hi h ho hk
  have hb : U.tearing os t = false := by simpa [U.tearing_eq, hc] using ht
  rw [hb] at hn
  exact hp _ _ hn.left hn.right

-- That an operation is not permitted can be checked by evaluation.
def touches (tears : κ → Bool) (permits : σ → S.Op → Prop) [∀ s o, Decidable (permits s o)] (t : τ)
    (os : List (Occurrence S τ κ ε)) (p : Pool S τ σ) : Bool :=
  (Occurrence.latest t os).any (!tears ·) &&
    match p.threads t with
    | .pure _ => false
    | .op o _ => !decide (permits p.shared o)

theorem not_protected_of_touches {tears : κ → Bool} {permits : σ → S.Op → Prop}
    [∀ s o, Decidable (permits s o)] {t : τ} {os : List (Occurrence S τ κ ε)} {p : Pool S τ σ}
    (h : touches tears permits t os p = true) : ¬Protected tears permits os p := by
  intro hp
  have ⟨hc, hk⟩ := (Bool.and_eq_true _ _).mp h
  cases hl : Occurrence.latest t os <;> rw [hl] at hc
  case none   => contradiction
  case some c =>
    cases ht : p.threads t <;> rw [ht] at hk
    case pure    => contradiction
    case op o k  =>
      have hn : ¬permits p.shared o := by simpa using hk
      exact hn (hp t c o k hl (by simpa using hc) ht)

end Protected

end Teardown
