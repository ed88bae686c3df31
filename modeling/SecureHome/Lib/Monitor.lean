import SecureHome.Lib.Fallible

variable {S : Sig} {τ κ ε σ α β χ ψ μ : Type}

-- What can happen in a run.
inductive Occurrence (S : Sig) (τ κ ε : Type)
  | call (t : τ) (c : κ)
  | op (t : τ) (o : S.Op) (r : S.Ret o)
  | event (e : ε)

-- What has happened in a run, latest first.
inductive System.History [DecidableEq τ] (M : System S τ κ ε σ) (C : Pool.Cond S τ ε σ)
    (p₀ : Pool S τ σ) : List (Occurrence S τ κ ε) → Pool S τ σ → Prop
  | refl : History M C p₀ [] p₀
  | call {os p t c q} : History M C p₀ os p → p.threads t = .pure () → M.calls t c = some q →
    History M C p₀ (.call t c :: os) { p with threads := Function.update p.threads t q }
  | op {os p t o k r s} : History M C p₀ os p → p.threads t = .op o k → C.op t o p.shared →
    (r, s) ∈ M.exec t o p.shared →
    History M C p₀ (.op t o r :: os) { threads := Function.update p.threads t (k r), shared := s }
  | event {os p e s} : History M C p₀ os p → C.event e p.shared → M.event e p.shared = some s →
    History M C p₀ (.event e :: os) { p with shared := s }

-- A monitor observes the operations of a thread during a call.
structure Monitor (S : Sig) (κ μ : Type) where
  idle   : μ
  start  : κ → μ
  next   : μ → (o : S.Op) → S.Ret o → μ
  allows : μ → S.Op → Prop

namespace Occurrence

variable [DecidableEq τ]

-- The number of calls of a thread.
def calls (t : τ) : List (Occurrence S τ κ ε) → ℕ
  | []              => 0
  | .call u _ :: os => if u = t then calls t os + 1 else calls t os
  | .op .. :: os    => calls t os
  | .event _ :: os  => calls t os

-- The call of a thread with the given number.
def callAt (x : τ × ℕ) : List (Occurrence S τ κ ε) → Option κ
  | []              => none
  | .call t c :: os => if x = (t, calls t os + 1) then some c else callAt x os
  | .op .. :: os    => callAt x os
  | .event _ :: os  => callAt x os

-- The call that a thread has made last.
def latest (t : τ) : List (Occurrence S τ κ ε) → Option κ
  | []              => none
  | .call u c :: os => if u = t then some c else latest t os
  | .op .. :: os    => latest t os
  | .event _ :: os  => latest t os

-- The state of a monitor of a thread.
def observed (A : Monitor S κ μ) (t : τ) : List (Occurrence S τ κ ε) → μ
  | []              => A.idle
  | .call u c :: os => if u = t then A.start c else observed A t os
  | .op u o r :: os => if u = t then A.next (observed A t os) o r else observed A t os
  | .event _ :: os  => observed A t os

variable {t u : τ} {n : ℕ} {c : κ} {os : List (Occurrence S τ κ ε)}

theorem callAt_eq_none (h : calls t os < n) : callAt (t, n) os = none := by
  induction os
  case nil => rfl
  case cons x os hi =>
    cases x
    case op    => exact hi h
    case event => exact hi h
    case call u c =>
      by_cases hu : u = t
      case pos =>
        subst hu
        simp only [calls, if_true] at h
        rw [callAt, if_neg (by simp; omega)]
        exact hi (by omega)
      case neg =>
        simp only [calls, hu, if_false] at h
        rw [callAt, if_neg (by simp [Ne.symm hu])]
        exact hi h

end Occurrence

namespace Prog

-- All operations of the program are allowed by the monitor, and the program only ends in states of
-- the monitor that satisfy `Q`.
def ObeysFrom (A : Monitor S κ μ) (Q : α → μ → Prop) : Prog S α → μ → Prop
  | pure a, m => Q a m
  | op o k, m => A.allows m o ∧ ∀ r, (k r).ObeysFrom A Q (A.next m o r)

def Obeys (A : Monitor S κ μ) (P : μ → Prop) (p : Prog S α) (Q : α → μ → Prop) : Prop :=
  ∀ m, P m → p.ObeysFrom A Q m

-- The program can return the value and leave the monitor in the given state.
def CanReturn (A : Monitor S κ μ) : Prog S α → μ → α → μ → Prop
  | pure a, m, a', m' => a' = a ∧ m' = m
  | op o k, m, a', m' => ∃ r, (k r).CanReturn A (A.next m o r) a' m'

variable {A : Monitor S κ μ} {P P' : μ → Prop}

theorem ObeysFrom.weaken {p : Prog S α} {Q Q' : α → μ → Prop} {m : μ} (h : p.ObeysFrom A Q m)
    (hq : ∀ a m, Q a m → Q' a m) : p.ObeysFrom A Q' m := by
  induction p generalizing m
  case pure a    => exact hq a m h
  case op o k hi => exact ⟨h.left, fun r => hi r (h.right r)⟩

theorem ObeysFrom.bind {p : Prog S α} {f : α → Prog S β} {Q : α → μ → Prop} {Q' : β → μ → Prop}
    {m : μ} (h : p.ObeysFrom A Q m) (hf : ∀ a m, Q a m → (f a).ObeysFrom A Q' m) :
    (p >>= f).ObeysFrom A Q' m := by
  induction p generalizing m
  case pure a    => exact hf a m h
  case op o k hi => exact ⟨h.left, fun r => hi r (h.right r)⟩

theorem ObeysFrom.of_canReturn {p : Prog S α} {Q : α → μ → Prop} {a : α} {m m' : μ}
    (h : p.ObeysFrom A Q m) (hr : p.CanReturn A m a m') : Q a m' := by
  induction p generalizing m
  case pure      => exact hr.left ▸ hr.right ▸ h
  case op o k hi =>
    have ⟨r, hr⟩ := hr
    exact hi r (h.right r) hr

theorem CanReturn.bind {p : Prog S α} {f : α → Prog S β} {a : α} {b : β} {m m' m'' : μ}
    (h : p.CanReturn A m a m') (hf : (f a).CanReturn A m' b m'') : (p >>= f).CanReturn A m b m'' := by
  induction p generalizing m
  case pure      => exact h.left ▸ h.right ▸ hf
  case op o k hi =>
    have ⟨r, hr⟩ := h
    exact ⟨r, hi r hr⟩

-- A monitor of a program also serves the same program in a system with other operations.
theorem ObeysFrom.mapOps {T : Sig} {κ' ν : Type} {f : S.Op → T.Op}
    {g : ∀ o, T.Ret (f o) → S.Ret o} {B : Monitor T κ' ν} {p : Prog S α} {Q : α → μ → Prop}
    {R : μ → ν → Prop} {m : μ} {n : ν} (h : p.ObeysFrom A Q m) (hm : R m n)
    (ha : ∀ o m n, R m n → A.allows m o → B.allows n (f o))
    (hn : ∀ o r m n, R m n → A.allows m o → R (A.next m o (g o r)) (B.next n (f o) r)) :
    (p.mapOps f g).ObeysFrom B (fun a n => ∃ m, Q a m ∧ R m n) n := by
  induction p generalizing m n
  case pure      => exact ⟨m, h, hm⟩
  case op o k hi =>
    exact ⟨ha o m n hm h.left, fun r => hi _ (h.right _) (hn o r m n hm h.left)⟩

-- What the program returns if its operations have the given results.
def answered (A : Monitor S κ μ) (answer : μ → (o : S.Op) → S.Ret o) : Prog S α → μ → α × μ
  | pure a, m => (a, m)
  | op o k, m => (k (answer m o)).answered A answer (A.next m o (answer m o))

theorem canReturn_of_answered {p : Prog S α} (answer : μ → (o : S.Op) → S.Ret o) {a : α} {m m' : μ}
    (h : p.answered A answer m = (a, m')) : p.CanReturn A m a m' := by
  induction p generalizing m
  case pure      => cases h; exact ⟨rfl, rfl⟩
  case op o k hi => exact ⟨_, hi _ h⟩

namespace Obeys

variable {p : Prog S α} {Q Q' : α → μ → Prop}

theorem pure {a : α} (h : ∀ m, P m → Q a m) : Obeys A P (Pure.pure a) Q :=
  h

theorem perform {o : S.Op} {Q : S.Ret o → μ → Prop} (ha : ∀ m, P m → A.allows m o)
    (h : ∀ m r, P m → Q r (A.next m o r)) : Obeys A P (.perform o) Q :=
  fun m hm => ⟨ha m hm, fun r => h m r hm⟩

theorem bind {f : α → Prog S β} {I : α → μ → Prop} {Q : β → μ → Prop} (h : Obeys A P p I)
    (hf : ∀ a, Obeys A (I a) (f a) Q) : Obeys A P (p >>= f) Q :=
  fun m hm => (h m hm).bind hf

-- A program keeps what each of its operations keeps.
theorem of_uses {B : S.Op → Prop} (hu : p.Uses B) (ha : ∀ o m, B o → P m → A.allows m o)
    (hn : ∀ o m r, B o → P m → P (A.next m o r)) : Obeys A P p fun _ => P := by
  induction p
  case pure       => exact .pure fun _ h => h
  case op o k hi  => exact fun m hm =>
    ⟨ha o m hu.left hm, fun r => hi r (hu.right r) _ (hn o m r hu.left hm)⟩

theorem weaken (h : Obeys A P' p Q') (hp : ∀ m, P m → P' m) (hq : ∀ a m, Q' a m → Q a m) :
    Obeys A P p Q :=
  fun m hm => (h m (hp m hm)).weaken hq

end Obeys

-- The program satisfies `Q` when it returns and `R` when it stops with an error.
def FallibleObeys (A : Monitor S κ μ) (P : μ → Prop) (p : Fallible S χ α) (Q : α → μ → Prop)
    (R : χ → μ → Prop) : Prop :=
  Obeys A P p.run fun
    | .ok a    => Q a
    | .error e => R e

namespace FallibleObeys

variable {p : Fallible S χ α} {Q Q' : α → μ → Prop} {R R' : χ → μ → Prop}

theorem pure {a : α} (h : ∀ m, P m → Q a m) :
    FallibleObeys A P (Pure.pure a : Fallible S χ α) Q R :=
  h

theorem throw {e : χ} (h : ∀ m, P m → R e m) :
    FallibleObeys A P (MonadExcept.throw e : Fallible S χ α) Q R :=
  h

theorem lift {q : Prog S α} (h : Obeys A P q Q) :
    FallibleObeys A P (ExceptT.lift q : Fallible S χ α) Q R :=
  Obeys.bind h fun _ => .pure fun _ hm => hm

theorem bind {q : Fallible S χ β} {f : β → Fallible S χ α} {I : β → μ → Prop}
    (h : FallibleObeys A P q I R) (hf : ∀ b, FallibleObeys A (I b) (f b) Q R) :
    FallibleObeys A P (q >>= f) Q R := by
  refine Obeys.bind h fun r => ?_
  cases r
  case ok b    => exact hf b
  case error e => exact .pure fun _ hm => hm

theorem tryCatch {f : χ → Fallible S χ α} (h : FallibleObeys A P p Q R')
    (hf : ∀ e, FallibleObeys A (R' e) (f e) Q R) :
    FallibleObeys A P (MonadExcept.tryCatch p f) Q R := by
  refine Obeys.bind h fun r => ?_
  cases r
  case ok a    => exact .pure fun _ hm => hm
  case error e => exact hf e

theorem adapt {f : χ → ψ} {R' : ψ → μ → Prop} (h : FallibleObeys A P p Q R)
    (hf : ∀ e m, R e m → R' (f e) m) : FallibleObeys A P (ExceptT.adapt f p) Q R' := by
  unfold FallibleObeys ExceptT.adapt
  rw [ExceptT.run_mk, map_eq_pure_bind]
  refine Obeys.bind h fun r => .pure fun m hr => ?_
  cases r
  case ok a    => exact hr
  case error e => exact hf e m hr

theorem weaken (h : FallibleObeys A P' p Q' R') (hp : ∀ m, P m → P' m)
    (hq : ∀ a m, Q' a m → Q a m) (hr : ∀ e m, R' e m → R e m) : FallibleObeys A P p Q R := by
  refine Obeys.weaken h hp fun r m => ?_
  cases r
  case ok a    => exact hq a m
  case error e => exact hr e m

theorem errors (h : FallibleObeys A P p Q R') (hr : ∀ e m, R' e m → R e m) : FallibleObeys A P p Q R :=
  h.weaken (fun _ hm => hm) (fun _ _ hm => hm) hr

end FallibleObeys

end Prog

namespace System.History

open Occurrence

variable [DecidableEq τ] {M : System S τ κ ε σ} {C : Pool.Cond S τ ε σ} {p p' p₀ : Pool S τ σ}
variable {os : List (Occurrence S τ κ ε)} {s : σ} {A : Monitor S κ μ} {Q : Unit → μ → Prop}

theorem reaches (h : M.History C p₀ os p) : M.Reaches C p₀ p := by
  induction h
  case refl => exact .refl
  case call ht hq hi     => exact hi.trans (.call ht hq)
  case op ht hc hm hi    => exact hi.trans (.op ht hc hm)
  case event hc he hi    => exact hi.trans (.event hc he)

theorem of_reaches (h : M.Reaches C p₀ p) : ∃ os, M.History C p₀ os p := by
  induction h
  case refl => exact ⟨[], .refl⟩
  case step hc hs hi =>
    have ⟨os, h⟩ := hi
    cases System.steps_of_step hs
    case call ht hq  => exact ⟨_, h.call ht hq⟩
    case event he    => exact ⟨_, h.event hc he⟩
    case op ht hm    =>
      exact ⟨_, h.op ht (by simpa only [Pool.Cond.Meets, Pool.Cond.Next, ht] using hc) hm⟩

-- The step that a label stands for, with what happens in it.
def occur (M : System S τ κ ε σ) (p : Pool S τ σ) :
    Pool.Label τ κ ε → Option (Occurrence S τ κ ε × Pool S τ σ)
  | .call t c =>
    match p.threads t with
    | .pure _ => do return (.call t c, { p with threads := Function.update p.threads t (← M.calls t c) })
    | .op ..  => none
  | .op t i =>
    match p.threads t with
    | .pure _ => none
    | .op o k => do
      let (r, s) ← (M.exec t o p.shared)[i]?
      return (.op t o r, { threads := Function.update p.threads t (k r), shared := s })
  | .event e => do return (.event e, { p with shared := ← M.event e p.shared })

-- A run together with what happens in it.
def record (M : System S τ κ ε σ) (os : List (Occurrence S τ κ ε)) (p : Pool S τ σ) :
    List (Pool.Label τ κ ε) → Option (List (Occurrence S τ κ ε) × Pool S τ σ)
  | []      => some (os, p)
  | l :: ls => do
    let (o, p) ← occur M p l
    record M (o :: os) p ls

theorem of_occur {o : Occurrence S τ κ ε} {l : Pool.Label τ κ ε} (h : M.History .any p₀ os p)
    (ho : occur M p l = some (o, p')) : M.History .any p₀ (o :: os) p' := by
  cases l <;> simp only [occur] at ho
  case call t c =>
    split at ho
    case h_2 => contradiction
    case h_1 ht =>
      obtain ⟨q, hq, ho⟩ := Option.bind_eq_some_iff.mp ho
      cases ho
      exact h.call ht hq
  case op t i =>
    split at ho
    case h_1 => contradiction
    case h_2 o k ht =>
      obtain ⟨⟨r, s⟩, hm, ho⟩ := Option.bind_eq_some_iff.mp ho
      cases ho
      exact h.op ht trivial (List.mem_of_getElem? hm)
  case event e =>
    obtain ⟨s, he, ho⟩ := Option.bind_eq_some_iff.mp ho
    cases ho
    exact h.event trivial he

theorem of_record {os' : List (Occurrence S τ κ ε)} {ls : List (Pool.Label τ κ ε)}
    (h : M.History .any p₀ os p) (hr : record M os p ls = some (os', p')) :
    M.History .any p₀ os' p' := by
  induction ls generalizing os p
  case nil => cases hr; exact h
  case cons l ls hi =>
    have ⟨⟨o, q⟩, ho, hr⟩ := Option.bind_eq_some_iff.mp hr
    exact hi (h.of_occur ho) hr

-- What happens in a run can be checked by evaluation.
theorem exists_of_record (M : System S τ κ ε σ) (p₀ : Pool S τ σ)
    (q : List (Occurrence S τ κ ε) → Pool S τ σ → Bool) (ls : List (Pool.Label τ κ ε))
    (h : (record M [] p₀ ls).any (fun r => q r.1 r.2) = true) :
    ∃ os p, M.History .any p₀ os p ∧ q os p = true := by
  cases hr : record M [] p₀ ls <;> rw [hr] at h
  case none   => contradiction
  case some r => exact ⟨r.1, r.2, of_record .refl hr, h⟩

-- A thread obeys the monitor if the programs of its calls do.
theorem obeys {t : τ} (hi : Q () A.idle)
    (hc : ∀ c q, M.calls t c = some q → q.ObeysFrom A Q (A.start c))
    (h : M.History C (.idle s) os p) : (p.threads t).ObeysFrom A Q (observed A t os) := by
  induction h
  case refl => exact hi
  case event hi => exact hi
  case call u c q _ _ hq hi =>
    by_cases hu : t = u
    case pos =>
      subst hu
      simp only [Function.update_self, observed, if_true]
      exact hc c q hq
    case neg =>
      simp only [Function.update_of_ne hu, observed, Ne.symm hu, if_false]
      exact hi
  case op u o k r _ _ ht _ _ hi =>
    by_cases hu : t = u
    case pos =>
      subst hu
      simp only [Function.update_self, observed, if_true]
      exact (ht ▸ hi).right r
    case neg =>
      simp only [Function.update_of_ne hu, observed, Ne.symm hu, if_false]
      exact hi

end System.History
