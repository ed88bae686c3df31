import Mathlib.Logic.Function.Basic
import Mathlib.Tactic.Common

namespace Linearizability

-- What threads observe of an object that they share.
inductive Event (τ κ ρ : Type)
  | invoke (t : τ) (c : κ)
  | respond (t : τ) (c : κ) (r : ρ)
  deriving DecidableEq

def Event.mapResponse {τ κ ρ ρ' : Type} (f : ρ → ρ') : Event τ κ ρ → Event τ κ ρ'
  | .invoke t c    => .invoke t c
  | .respond t c r => .respond t c (f r)

-- The steps of an object whose operations take effect atomically, at some point between the
-- invocation and the response.
inductive Action (τ κ ρ : Type)
  | invoke (t : τ) (c : κ)
  | commit (t : τ)
  | respond (t : τ) (c : κ) (r : ρ)

def Action.event {τ κ ρ : Type} : Action τ κ ρ → Option (Event τ κ ρ)
  | .invoke t c    => some (.invoke t c)
  | .commit _      => none
  | .respond t c r => some (.respond t c r)

inductive Status (κ ρ : Type)
  | idle
  | pending (c : κ)
  | done (c : κ) (r : ρ)
  deriving DecidableEq

structure Atomic (τ κ ρ σ : Type) where
  content : σ
  status  : τ → Status κ ρ

variable {τ κ ρ σ : Type} [DecidableEq τ] (apply : κ → σ → ρ × σ)

namespace Atomic

def init (content : σ) : Atomic τ κ ρ σ where
  content  := content
  status _ := .idle

def withStatus (a : Atomic τ κ ρ σ) (t : τ) (s : Status κ ρ) : Atomic τ κ ρ σ :=
  { a with status := Function.update a.status t s }

def commit (a : Atomic τ κ ρ σ) (t : τ) (c : κ) : Atomic τ κ ρ σ :=
  let (r, content) := apply c a.content
  { a.withStatus t (.done c r) with content }

@[simp]
theorem content_withStatus {a : Atomic τ κ ρ σ} {t : τ} {s : Status κ ρ} :
    (a.withStatus t s).content = a.content :=
  rfl

@[simp]
theorem status_withStatus {a : Atomic τ κ ρ σ} {t : τ} {s : Status κ ρ} :
    (a.withStatus t s).status = Function.update a.status t s :=
  rfl

@[simp]
theorem content_commit {a : Atomic τ κ ρ σ} {t : τ} {c : κ} :
    (a.commit apply t c).content = (apply c a.content).snd :=
  rfl

@[simp]
theorem status_commit {a : Atomic τ κ ρ σ} {t : τ} {c : κ} :
    (a.commit apply t c).status = Function.update a.status t (.done c (apply c a.content).fst) :=
  rfl

variable [DecidableEq κ] [DecidableEq ρ]

def step (a : Atomic τ κ ρ σ) : Action τ κ ρ → Option (Atomic τ κ ρ σ)
  | .invoke t c =>
    match a.status t with
    | .idle => some (a.withStatus t (.pending c))
    | _     => none
  | .commit t =>
    match a.status t with
    | .pending c => some (a.commit apply t c)
    | _          => none
  | .respond t c r => if a.status t = .done c r then some (a.withStatus t .idle) else none

end Atomic

variable [DecidableEq κ] [DecidableEq ρ]

-- The events are those of an atomic object.
def Linearizable (content : σ) (h : List (Event τ κ ρ)) : Prop :=
  ∃ as : List (Action τ κ ρ), as.filterMap Action.event = h ∧
    (as.foldlM (Atomic.step apply) (.init content)).isSome

-- The steps of an atomic object so far.
structure Trace (τ : Type) {κ ρ σ : Type} [DecidableEq τ] [DecidableEq κ] [DecidableEq ρ]
    (apply : κ → σ → ρ × σ) (content : σ) where
  actions : List (Action τ κ ρ)
  atomic  : Atomic τ κ ρ σ
  run     : actions.foldlM (Atomic.step apply) (.init content) = some atomic

namespace Trace

variable {apply} {content : σ} {t : τ} {c : κ} {r : ρ}

def init (content : σ) : Trace τ apply content where
  actions := []
  atomic  := .init content
  run     := rfl

variable (a : Trace τ apply content)

def events : List (Event τ κ ρ) :=
  a.actions.filterMap Action.event

def extend (x : Action τ κ ρ) (atomic : Atomic τ κ ρ σ) (h : a.atomic.step apply x = some atomic) :
    Trace τ apply content where
  actions := a.actions ++ [x]
  atomic  := atomic
  run     := by simpa [List.foldlM_append, a.run] using h

def invoke (h : a.atomic.status t = .idle) : Trace τ apply content :=
  a.extend (.invoke t c) (a.atomic.withStatus t (.pending c)) (by simp only [Atomic.step, h])

def commit (h : a.atomic.status t = .pending c) : Trace τ apply content :=
  a.extend (.commit t) (a.atomic.commit apply t c) (by simp only [Atomic.step, h])

def respond (h : a.atomic.status t = .done c r) : Trace τ apply content :=
  a.extend (.respond t c r) (a.atomic.withStatus t .idle) (by simp only [Atomic.step, h, if_true])

variable {a}

@[simp]
theorem atomic_invoke (h : a.atomic.status t = .idle) :
    (a.invoke (c := c) h).atomic = a.atomic.withStatus t (.pending c) :=
  rfl

@[simp]
theorem atomic_commit (h : a.atomic.status t = .pending c) :
    (a.commit h).atomic = a.atomic.commit apply t c :=
  rfl

@[simp]
theorem atomic_respond (h : a.atomic.status t = .done c r) :
    (a.respond h).atomic = a.atomic.withStatus t .idle :=
  rfl

theorem events_invoke (h : a.atomic.status t = .idle) :
    (a.invoke (c := c) h).events = a.events ++ [.invoke t c] := by
  simp [events, invoke, extend, Action.event]

theorem events_commit (h : a.atomic.status t = .pending c) : (a.commit h).events = a.events := by
  simp [events, commit, extend, Action.event]

theorem events_respond (h : a.atomic.status t = .done c r) :
    (a.respond h).events = a.events ++ [.respond t c r] := by
  simp [events, respond, extend, Action.event]

theorem linearizable : Linearizable apply content a.events :=
  ⟨a.actions, rfl, by simp [a.run]⟩

end Trace

end Linearizability
