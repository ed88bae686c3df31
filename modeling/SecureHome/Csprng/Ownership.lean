import SecureHome.Csprng.Tasks
import SecureHome.File.Statements
import SecureHome.Lib.LockOrder

open FreeRTOS Prog

namespace Csprng

variable {τ : Type} {X : Xof} {α β : Type}

-- What a task has of the locks, and whether it is saving the seed.
structure Held where
  rnd    : ℕ
  file   : Bool
  saving : Bool
  deriving DecidableEq

def Held.none : Held where
  rnd    := 0
  file   := false
  saving := false

-- The order of the locks. The entropy task only uses files while it holds the mutex of the generator.
def locking (X : Xof) (isEntropyTask : Bool) : Monitor (sig X) Call Held where
  idle    := .none
  start _ := .none
  next
    | m, .takeMutex, _       => { m with rnd := m.rnd + 1 }
    | m, .giveMutex, _       => { m with rnd := m.rnd - 1 }
    | m, .file .takeMutex, _ => { m with file := true }
    | m, .file .giveMutex, _ => { m with file := false }
    | m, .enterSaveSeed, _   => { m with saving := true }
    | m, .leaveSaveSeed, _   => { m with saving := false }
    | m, _, _                => m
  allows
    | m, .takeMutex         => m.file = false
    | m, .giveMutex         => 0 < m.rnd ∧ (m.file = true ∨ m.saving = true → 1 < m.rnd)
    | m, .file .takeMutex   => m.file = false ∧ (isEntropyTask = true → 0 < m.rnd)
    | m, .file .giveMutex   => m.file = true
    | _, .file .deleteMutex => False
    | m, .enterSaveSeed     => isEntropyTask = true ∧ 0 < m.rnd
    | _, .leaveSaveSeed     => isEntropyTask = true
    | m, .deleteEntropyTask => isEntropyTask = false ∧ 0 < m.rnd
    | _, _                  => True

-- The statements that are not about the locks.
def Op.Unlocked : Op X → Prop
  | .file (.takeMutex) | .file (.giveMutex) | .file (.deleteMutex)                    => False
  | .takeMutex | .giveMutex | .enterSaveSeed | .leaveSaveSeed | .deleteEntropyTask    => False
  | _                                                                                 => True

-- The program leaves the locks as they are.
def Keeps (e : Bool) (m : Held) (p : Prog (sig X) α) : Prop :=
  p.Obeys (locking X e) (· = m) fun _ n => n = m

namespace Keeps

variable {e : Bool} {m : Held} {p : Prog (sig X) α} {o : Op X}

theorem allows_of_unlocked (h : o.Unlocked) : (locking X e).allows m o := by
  cases o
  case file o => cases o <;> trivial
  all_goals trivial

theorem next_of_unlocked {r : (sig X).Ret o} (h : o.Unlocked) : (locking X e).next m o r = m := by
  cases o
  case file o => cases o <;> first | rfl | cases h
  all_goals first | rfl | cases h

theorem pure {a : α} : Keeps (X := X) e m (Pure.pure a) :=
  Obeys.pure fun _ h => h

theorem perform (h : o.Unlocked) : Keeps e m (perform o) :=
  Obeys.perform (fun _ _ => allows_of_unlocked h) fun _ _ hn => (next_of_unlocked h).trans hn

theorem bind {f : α → Prog (sig X) β} (h : Keeps e m p) (hf : ∀ a, Keeps e m (f a)) :
    Keeps e m (p >>= f) :=
  Obeys.bind h hf

theorem lift (h : Keeps e m p) : Keeps e m (ExceptT.lift p : Fallible (sig X) ErrorT α).run :=
  h.bind fun _ => pure

theorem bindRun {p : Fallible (sig X) ErrorT α} {f : α → Fallible (sig X) ErrorT β}
    (h : Keeps e m p.run) (hf : ∀ a, Keeps e m (f a).run) : Keeps e m (p >>= f).run := by
  refine Obeys.bind h fun r => ?_
  cases r
  case ok a    => exact hf a
  case error e => exact pure

-- A task that uses no file takes and gives the mutex of the generator, also while it holds it.
theorem scopedMutex (hf : m.file = false) (hs : m.saving = true → 0 < m.rnd)
    (h : Keeps e { m with rnd := m.rnd + 1 } p) : Keeps e m (scopedMutex p) := by
  have ht : (Csprng.perform .takeMutex).Obeys (locking X e) (· = m)
      fun _ n => n = { m with rnd := m.rnd + 1 } :=
    .perform (fun _ hm => hm ▸ hf) fun _ _ hm => hm ▸ rfl
  have hg : (Csprng.perform .giveMutex).Obeys (locking X e) (· = { m with rnd := m.rnd + 1 })
      fun _ n => n = m := by
    refine .perform (fun _ hm => hm ▸ ⟨Nat.succ_pos _, ?_⟩) fun _ _ hm => hm ▸ rfl
    rintro (hf' | hs')
    case inl => exact absurd (hf.symm.trans hf') nofun
    case inr => exact Nat.succ_lt_succ (hs hs')
  exact Obeys.bind ht fun _ => Obeys.bind h fun _ => Obeys.bind hg fun _ => pure

theorem inFile {p : Prog File.sig α} (hf : m.file = false) (he : e = true → 0 < m.rnd)
    (h : p.Obeys File.holding (· = false) fun _ b => b = false) : Keeps (X := X) e m (inFile p) := by
  intro n hn
  have hp := ObeysFrom.mapOps (B := locking X e) (f := Op.file) (g := fun _ r => r)
    (R := fun b n => n = { m with file := b }) (h false rfl) (n := n) (by rw [hn, ← hf]) ?_ ?_
  case refine_1 =>
    rintro o b _ rfl ha
    cases o <;> first | exact ⟨ha, he⟩ | exact ha
  case refine_2 =>
    rintro o r b _ rfl ha
    cases o <;> rfl
  refine hp.weaken fun _ n ⟨b, hb, hn⟩ => ?_
  rw [hn, hb, ← hf]

theorem getEntropyMixture (hf : m.file = false) (hs : m.saving = true → 0 < m.rnd) :
    Keeps (X := X) e m getEntropyMixtureLocked :=
  scopedMutex hf hs (perform trivial)

theorem getBytes (hf : m.file = false) (hs : m.saving = true → 0 < m.rnd) {n : ℕ} :
    Keeps (X := X) e m (getBytes n) := by
  induction n
  case zero      => exact pure
  case succ n hi => exact (getEntropyMixture hf hs).bind fun _ => hi.bind fun _ => pure

theorem asconRandomFetch (hf : m.file = false) (hs : m.saving = true → 0 < m.rnd) {outlen : ℕ} :
    Keeps (X := X) e m (asconRandomFetch outlen) := by
  refine (perform (o := .loadCounter) trivial).bind fun counter => ?_
  split
  case isTrue  => exact (getBytes hf hs).bind fun _ => perform trivial
  case isFalse => exact perform trivial

theorem storageWrite (hf : m.file = false) (he : e = true → 0 < m.rnd) {data : List UInt8} :
    Keeps (X := X) e m (storageWrite data) := by
  refine (inFile hf he File.Returns.write.run).bind fun r => ?_
  cases r
  case error => exact pure
  case ok    =>
    refine (inFile hf he File.Returns.sync.run).bind fun r => ?_
    cases r
    case error => exact pure
    case ok    => exact pure

end Keeps

namespace Locking

open Keeps

variable {e : Bool} {m : Held}

-- The entropy task saves the seed while it holds the mutex of the generator.
theorem asconRandomSaveSeed :
    Keeps (X := X) true { rnd := 1, file := false, saving := false } asconRandomSaveSeed := by
  have he : (Csprng.perform .enterSaveSeed).Obeys (locking X true)
      (· = { rnd := 1, file := false, saving := false })
      fun _ n => n = { rnd := 1, file := false, saving := true } :=
    .perform (fun _ hm => hm ▸ ⟨rfl, Nat.one_pos⟩) fun _ _ hm => hm ▸ rfl
  have hl : (Csprng.perform .leaveSaveSeed).Obeys (locking X true)
      (· = { rnd := 1, file := false, saving := true })
      fun _ n => n = { rnd := 1, file := false, saving := false } :=
    .perform (fun _ _ => rfl) fun _ _ hm => hm ▸ rfl
  refine Obeys.bind he fun _ => Obeys.bind (Keeps.asconRandomFetch rfl fun _ => Nat.one_pos) ?_
  intro seed
  refine Obeys.bind (Keeps.storageWrite rfl fun _ => Nat.one_pos) fun _ => ?_
  exact Obeys.bind hl fun _ => Keeps.pure

theorem gatherEntropy {n : ℕ} : Keeps (X := X) e .none (gatherEntropy n) := by
  induction n
  case zero      => exact Keeps.pure
  case succ n hi =>
    refine (Keeps.getEntropyMixture rfl (by decide)).bind fun _ => ?_
    exact (Keeps.perform (o := .delay) trivial).bind fun _ => hi.bind fun _ => Keeps.pure

theorem countErrors {retVal : Int} : Keeps (X := X) e .none (countErrors retVal) := by
  unfold Csprng.countErrors
  split
  case isTrue =>
    refine (Keeps.perform (o := .loadErrors) trivial).bind fun _ => ?_
    refine (Keeps.perform (o := .storeErrors _) trivial).bind fun _ => ?_
    split
    case isTrue  => exact Keeps.perform trivial
    case isFalse => exact Keeps.pure
  case isFalse => exact Keeps.perform trivial

theorem entropyCycle : Keeps (X := X) true .none entropyCycle := by
  refine gatherEntropy.bind fun entropy => ?_
  have hs : Keeps (X := X) true .none (saveEntropy entropy) := by
    refine Keeps.scopedMutex rfl (by decide) ?_
    exact (Keeps.perform (o := .randomFeed _) trivial).bind fun _ =>
      asconRandomSaveSeed
  exact hs.bind fun _ => countErrors.bind fun _ => Keeps.perform trivial

theorem checkInitialized : Keeps (X := X) e .none checkInitialized.run := by
  refine (Keeps.perform (o := .isInitialized) trivial).lift.bindRun fun initialized => ?_
  cases initialized
  case false => exact Keeps.pure
  case true  => exact Keeps.pure

theorem tryHal {c : HalCall} : Keeps (X := X) e m (tryHal c).run := by
  refine (Keeps.perform (o := .hal c) trivial).lift.bindRun fun status => ?_
  cases status <;> exact Keeps.pure

-- The task is only deleted while the mutex of the generator is held.
theorem deinitLocked :
    Keeps (X := X) false { rnd := 1, file := false, saving := false } deinitLocked.run := by
  have hd : Keeps (X := X) false { rnd := 1, file := false, saving := false }
      (Csprng.perform .deleteEntropyTask) :=
    Obeys.perform (fun _ hm => hm ▸ ⟨rfl, Nat.one_pos⟩) fun _ _ hm => hm
  refine tryHal.bindRun fun _ => tryHal.bindRun fun _ => tryHal.bindRun fun _ => ?_
  exact tryHal.bindRun fun _ => hd.lift.bindRun fun _ =>
    (Keeps.perform (o := .randomFree) trivial).lift

theorem deinit : Keeps (X := X) false .none deinit.run := by
  refine checkInitialized.bindRun fun _ => ?_
  refine Keeps.bindRun (Keeps.scopedMutex rfl (by decide) deinitLocked) fun _ => ?_
  refine (Keeps.perform (o := .deleteMutex) trivial).lift.bindRun fun _ => ?_
  exact (Keeps.perform (o := .resetInitialized) trivial).lift

theorem getRandomNumbers {size : ℕ} : Keeps (X := X) false .none (getRandomNumbers size).run := by
  refine checkInitialized.bindRun fun _ => ?_
  split
  case isTrue  => exact Keeps.pure
  case isFalse =>
    refine (Keeps.scopedMutex rfl (by decide) ?_).lift
    exact Keeps.asconRandomFetch rfl (by decide)

variable [DecidableEq τ]

theorem call {t : Thread τ} {c : Call} {q : Prog (sig X) Unit} (h : (system τ X).calls t c = some q) :
    q.ObeysFrom (locking X (t = .entropyTask)) (fun _ m => m = .none)
      ((locking X (t = .entropyTask)).start c) := by
  cases t <;> cases c <;> simp only [system, reduceCtorEq, Option.some.injEq] at h
  case entropyTask.entropyCycle   => exact h ▸ entropyCycle _ rfl
  case task.deinit                => exact h ▸ deinit.bind (fun _ => Keeps.pure) _ rfl
  case task.getRandomNumbers size => exact h ▸ getRandomNumbers.bind (fun _ => Keeps.pure) _ rfl
  case task.file c                =>
    split at h <;> cases h
    case isFalse hc =>
      exact Keeps.inFile (m := .none) rfl (fun he => absurd (of_decide_eq_true he) nofun)
        (File.Returns.serve hc) _ rfl

end Locking

-- What each task holds in a state.
structure Agrees [DecidableEq τ] (held : Thread τ → Held) (s : State τ X) : Prop where
  rnd t  : s.taskMutex.depth t = (held t).rnd
  file t : s.file.mutex = .heldBy t ↔ (held t).file = true

-- The entropy task only holds the mutex of the files and saves the seed while it holds the mutex of the
-- generator. Once it is deleted, it holds nothing.
structure Sheltered (m : Held) (s : State τ X) : Prop where
  saving  : s.saving = m.saving
  nested  : m.file = true ∨ m.saving = true → 0 < m.rnd
  deleted : s.entropyTaskDeleted = true → m = .none

section Steps

variable [DecidableEq τ] {held : Thread τ → Held} {s s' : State τ X} {t : Thread τ} {m : Held}
variable {o : Op X} {r : (sig X).Ret o}

-- What the statements that are not about the locks leave alone.
structure SameLocks (s s' : State τ X) : Prop where
  taskMutex : s'.taskMutex = s.taskMutex
  file      : s'.file.mutex = s.file.mutex
  saving    : s'.saving = s.saving
  deleted   : s'.entropyTaskDeleted = s.entropyTaskDeleted

theorem SameLocks.agrees (h : SameLocks s s') (ha : Agrees held s) : Agrees held s' :=
  ⟨fun t => h.taskMutex ▸ ha.rnd t, fun t => h.file ▸ ha.file t⟩

omit [DecidableEq τ] in
theorem SameLocks.sheltered (h : SameLocks s s') (hs : Sheltered m s) : Sheltered m s' :=
  ⟨h.saving.trans hs.saving, hs.nested, fun hd => hs.deleted (h.deleted ▸ hd)⟩

omit [DecidableEq τ] in
theorem mutex_access {s : File.State (Thread τ)} {name : File.Name} {a : File.Access} :
    (s.access name a).mutex = s.mutex := by
  cases a <;> rfl

theorem mem_exec_file {o : File.Op} {r : File.sig.Ret o} (h : (r, s') ∈ s.exec t (.file o)) :
    ∃ file, (r, file) ∈ s.file.exec t o ∧ s' = { s with file } := by
  have ⟨⟨_, file⟩, hm, he⟩ := List.mem_map.mp h
  cases he
  exact ⟨file, hm, rfl⟩

theorem mutex_of_exec_file {s s' : File.State (Thread τ)} {o : File.Op} {r : File.sig.Ret o}
    (ho : (Op.file o : Op X).Unlocked) (h : (r, s') ∈ s.exec t o) : s'.mutex = s.mutex := by
  cases o <;> simp only [File.State.exec] at h
  case takeMutex | giveMutex | deleteMutex => cases ho
  case access =>
    split at h <;> simp only [List.mem_cons, List.not_mem_nil, or_false, Prod.mk.injEq] at h
    case h_1 => exact h.right ▸ mutex_access
    case h_2 => rcases h with h | h <;> rw [h.right]; exact mutex_access
  case isCached =>
    simp only [List.mem_cons, List.not_mem_nil, or_false, Prod.mk.injEq] at h
    rcases h with h | h <;> rw [h.right]
  case assertOpen =>
    split at h
    case isTrue  => cases List.mem_singleton.mp h; rfl
    case isFalse => cases h
  all_goals cases List.mem_singleton.mp h; rfl

theorem sameLocks_of_exec (ho : o.Unlocked) (h : (r, s') ∈ s.exec t o) : SameLocks s s' := by
  cases o
  case file o =>
    have ⟨file, hm, he⟩ := mem_exec_file h
    exact he ▸ ⟨rfl, mutex_of_exec_file ho hm, rfl, rfl⟩
  case panic => cases h
  case hal   =>
    simp only [State.exec, List.mem_cons, List.not_mem_nil, or_false, Prod.mk.injEq] at h
    rcases h with h | h | h <;> exact h.right ▸ ⟨rfl, rfl, rfl, rfl⟩
  case takeMutex | giveMutex | enterSaveSeed | leaveSaveSeed | deleteEntropyTask => cases ho
  all_goals cases List.mem_singleton.mp h; exact ⟨rfl, rfl, rfl, rfl⟩

-- The locks of the others are as before.
theorem Agrees.update (h : Agrees held s) (hr : s'.taskMutex.depth t = m.rnd)
    (hru : ∀ u, u ≠ t → s'.taskMutex.depth u = s.taskMutex.depth u)
    (hf : s'.file.mutex = .heldBy t ↔ m.file = true)
    (hfu : ∀ u, u ≠ t → (s'.file.mutex = .heldBy u ↔ s.file.mutex = .heldBy u)) :
    Agrees (Function.update held t m) s' := by
  constructor
  case rnd =>
    intro u
    by_cases hu : u = t
    case pos => rw [hu, Function.update_self]; exact hr
    case neg => rw [Function.update_of_ne hu, hru u hu]; exact h.rnd u
  case file =>
    intro u
    by_cases hu : u = t
    case pos => rw [hu, Function.update_self]; exact hf
    case neg => rw [Function.update_of_ne hu]; exact (hfu u hu).trans (h.file u)

variable {e : Bool}

theorem Agrees.op (h : Agrees held s) (ha : (locking X e).allows (held t) o)
    (hm : (r, s') ∈ s.exec t o) :
    Agrees (Function.update held t ((locking X e).next (held t) o r)) s' := by
  by_cases ho : o.Unlocked
  case pos =>
    rw [Keeps.next_of_unlocked ho, Function.update_eq_self]
    exact (sameLocks_of_exec ho hm).agrees h
  case neg =>
    cases o
    case takeMutex =>
      have ⟨taskMutex, ht, he⟩ := Option.map_eq_some_iff.mp (Option.mem_toList.mp hm)
      cases he
      have ⟨hd, hu⟩ := RecursiveMutex.depth_take ht
      exact h.update (hd.trans (congrArg (· + 1) (h.rnd t))) hu (h.file t) fun _ _ => .rfl
    case giveMutex =>
      cases List.mem_singleton.mp hm
      have hp : 0 < s.taskMutex.depth t := h.rnd t ▸ ha.left
      have ⟨hd, hu⟩ := RecursiveMutex.depth_give hp
      refine h.update ?_ hu (h.file t) fun _ _ => .rfl
      show (s.taskMutex.give t).depth t = (held t).rnd - 1
      have := h.rnd t
      omega
    case enterSaveSeed | leaveSaveSeed | deleteEntropyTask =>
      cases List.mem_singleton.mp hm
      exact h.update (h.rnd t) (fun _ _ => rfl) (h.file t) fun _ _ => .rfl
    case file o =>
      have ⟨file, hx, he⟩ := mem_exec_file hm
      subst he
      cases o
      case takeMutex =>
        simp only [File.State.exec] at hx
        split at hx
        case isFalse => cases hx
        case isTrue hf =>
          cases List.mem_singleton.mp hx
          refine h.update (h.rnd t) (fun _ _ => rfl) ⟨fun _ => rfl, fun _ => rfl⟩ fun u hu => ?_
          exact ⟨fun he => absurd (File.Mutex.heldBy.inj he).symm hu, fun he => absurd (hf ▸ he) nofun⟩
      case giveMutex =>
        cases List.mem_singleton.mp hx
        have hf := (h.file t).mpr ha
        refine h.update (h.rnd t) (fun _ _ => rfl) ⟨nofun, nofun⟩ fun u hu => ⟨nofun, fun he => ?_⟩
        exact absurd (File.Mutex.heldBy.inj (hf.symm.trans he)).symm hu
      case deleteMutex => cases ha
      all_goals exact absurd trivial ho
    all_goals exact absurd trivial ho

-- A task that holds the mutex of the generator keeps the entropy task from holding anything.
theorem Agrees.eq_none (h : Agrees held s) (hs : Sheltered (held .entropyTask) s)
    (ht : t ≠ .entropyTask) (hp : 0 < (held t).rnd) : held .entropyTask = .none := by
  have hr : (held .entropyTask).rnd = 0 := by
    rw [← h.rnd, RecursiveMutex.depth_of_ne (h.rnd t ▸ hp) ht.symm]
  have hn : ¬((held .entropyTask).file = true ∨ (held .entropyTask).saving = true) :=
    fun hn => Nat.ne_of_gt (hs.nested hn) hr
  cases hm : held .entropyTask
  case mk rnd file saving =>
    rw [hm] at hr hn
    have hr : rnd = 0 := hr
    subst hr
    cases file
    case true => exact absurd (.inl rfl) hn
    case false =>
      cases saving
      case true  => exact absurd (.inr rfl) hn
      case false => rfl

-- The entropy task is not deleted at a step of its own.
theorem Sheltered.own (h : Sheltered m s) (hd : s.entropyTaskDeleted ≠ true)
    (ha : (locking X true).allows m o) (hm : (r, s') ∈ s.exec .entropyTask o) :
    Sheltered ((locking X true).next m o r) s' := by
  by_cases ho : o.Unlocked
  case pos =>
    rw [Keeps.next_of_unlocked ho]
    exact (sameLocks_of_exec ho hm).sheltered h
  case neg =>
    cases o
    case takeMutex =>
      have ⟨taskMutex, _, he⟩ := Option.map_eq_some_iff.mp (Option.mem_toList.mp hm)
      cases he
      exact ⟨h.saving, fun _ => Nat.succ_pos _, fun hn => absurd hn hd⟩
    case giveMutex =>
      cases List.mem_singleton.mp hm
      exact ⟨h.saving, fun hn => Nat.sub_pos_of_lt (ha.right hn), fun hn => absurd hn hd⟩
    case enterSaveSeed =>
      cases List.mem_singleton.mp hm
      exact ⟨rfl, fun _ => ha.right, fun hn => absurd hn hd⟩
    case leaveSaveSeed =>
      cases List.mem_singleton.mp hm
      exact ⟨rfl, fun hn => h.nested (hn.imp_right nofun), fun hn => absurd hn hd⟩
    case deleteEntropyTask => exact absurd ha.left nofun
    case file o =>
      have ⟨file, _, he⟩ := mem_exec_file hm
      subst he
      cases o
      case takeMutex   => exact ⟨h.saving, fun _ => ha.right rfl, fun hn => absurd hn hd⟩
      case giveMutex   =>
        exact ⟨h.saving, fun hn => h.nested (hn.imp_left nofun), fun hn => absurd hn hd⟩
      case deleteMutex => cases ha
      all_goals exact absurd trivial ho
    all_goals exact absurd trivial ho

-- Only a task that holds the mutex of the generator deletes the entropy task.
theorem Sheltered.other {n : Held} (h : Sheltered m s) (ha : (locking X false).allows n o)
    (hn : 0 < n.rnd → m = .none) (hm : (r, s') ∈ s.exec t o) : Sheltered m s' := by
  by_cases ho : o.Unlocked
  case pos => exact (sameLocks_of_exec ho hm).sheltered h
  case neg =>
    cases o
    case takeMutex =>
      have ⟨taskMutex, _, he⟩ := Option.map_eq_some_iff.mp (Option.mem_toList.mp hm)
      cases he
      exact ⟨h.saving, h.nested, h.deleted⟩
    case giveMutex =>
      cases List.mem_singleton.mp hm
      exact ⟨h.saving, h.nested, h.deleted⟩
    case deleteEntropyTask =>
      cases List.mem_singleton.mp hm
      exact ⟨h.saving, h.nested, fun _ => hn ha.right⟩
    case enterSaveSeed => exact absurd ha.left nofun
    case leaveSaveSeed => exact absurd ha nofun
    case file o =>
      have ⟨file, _, he⟩ := mem_exec_file hm
      subst he
      exact ⟨h.saving, h.nested, h.deleted⟩
    all_goals exact absurd trivial ho

end Steps

-- What the tasks hold after what has happened.
def heldAfter [DecidableEq τ] (os : List (Occurrence (sig X) (Thread τ) Call Event)) (t : Thread τ) :
    Held :=
  Occurrence.observed (locking X (t = .entropyTask)) t os

section Run

variable [DecidableEq τ] {s : State τ X} {p : Pool (sig X) (Thread τ) (State τ X)}
variable {os : List (Occurrence (sig X) (Thread τ) Call Event)} {t : Thread τ}

theorem heldAfter_op {o : Op X} {r : (sig X).Ret o} :
    heldAfter (.op t o r :: os) =
      Function.update (heldAfter os) t ((locking X (t = .entropyTask)).next (heldAfter os t) o r) := by
  funext u
  by_cases hu : u = t
  case pos => subst hu; simp only [heldAfter, Occurrence.observed, if_true, Function.update_self]
  case neg =>
    simp only [heldAfter, Occurrence.observed, Ne.symm hu, if_false, Function.update_of_ne hu]

theorem obeys_of_history (h : (system τ X).History .any (.idle s) os p) (t : Thread τ) :
    (p.threads t).ObeysFrom (locking X (t = .entropyTask)) (fun _ m => m = .none) (heldAfter os t) :=
  h.obeys rfl fun _ _ => Locking.call

theorem heldAfter_call {c : Call} (h : (system τ X).History .any (.idle s) os p)
    (ht : p.threads t = .pure ()) : heldAfter (.call t c :: os) = heldAfter os := by
  funext u
  by_cases hu : u = t
  case pos =>
    have ho := obeys_of_history h t
    rw [ht] at ho
    subst hu
    simp only [heldAfter, Occurrence.observed, if_true]
    exact ho.symm
  case neg => simp only [heldAfter, Occurrence.observed, Ne.symm hu, if_false]

theorem agrees_of_history {flash : File.Flash} {rng : Ascon.RandomState X} {mixture : Mixture}
    {sources : Sources}
    (h : (system τ X).History .any (.idle (.initialized flash rng mixture sources)) os p) :
    Agrees (heldAfter os) p.shared ∧ Sheltered (heldAfter os .entropyTask) p.shared := by
  induction h
  case refl => exact ⟨⟨fun _ => rfl, fun _ => ⟨nofun, nofun⟩⟩, ⟨rfl, nofun, nofun⟩⟩
  case call h ht hq hi => rw [heldAfter_call h ht]; exact hi
  case event os p e s _ _ he hi =>
    have hl : SameLocks p.shared s := by
      cases e <;> cases he <;> exact ⟨rfl, rfl, rfl, rfl⟩
    exact ⟨hl.agrees hi.left, hl.sheltered hi.right⟩
  case op os p t o k r s h ht _ hm hi =>
    have ⟨hi, hs⟩ := hi
    have ha := obeys_of_history h t
    rw [ht] at ha
    have hd : ¬(t = .entropyTask ∧ p.shared.entropyTaskDeleted = true) := by
      intro hd
      simp only [system, if_pos hd, List.not_mem_nil] at hm
    simp only [system, if_neg hd] at hm
    rw [heldAfter_op]
    refine ⟨hi.op ha.left hm, ?_⟩
    by_cases hn : t = .entropyTask
    case pos =>
      subst hn
      rw [Function.update_self]
      exact hs.own (fun he => hd ⟨rfl, he⟩) ha.left hm
    case neg =>
      rw [Function.update_of_ne (Ne.symm hn)]
      have ha := ha.left
      rw [decide_eq_false hn] at ha
      exact hs.other ha (hi.eq_none hs hn) hm

end Run

inductive Lock
  | rnd
  | file
  deriving DecidableEq

-- The mutex of the generator is taken before the one of the files.
def Lock.rank : Lock → ℕ
  | rnd  => 0
  | file => 1

section Locks

variable [DecidableEq τ]

def State.Holds (s : State τ X) (t : Thread τ) : Lock → Prop
  | .rnd  => 0 < s.taskMutex.depth t
  | .file => s.file.mutex = .heldBy t

-- The task is blocked as it tries to take the lock.
def State.Blocks (s : State τ X) (t : Thread τ) : Prog (sig X) Unit → Lock → Prop
  | .op .takeMutex _, .rnd          => s.taskMutex.take t = none
  | .op (.file .takeMutex) _, .file => s.file.mutex ≠ .free
  | _, _                            => False

def locks (p : Pool (sig X) (Thread τ) (State τ X)) : LockGraph (Thread τ) Lock where
  holds := p.shared.Holds
  wants t := p.shared.Blocks t (p.threads t)

variable {s : State τ X} {p : Pool (sig X) (Thread τ) (State τ X)} {held : Thread τ → Held}
variable {t : Thread τ}

theorem Agrees.not_holds (h : Agrees held s) (ht : held t = .none) : ∀ l, ¬s.Holds t l
  | .rnd  => fun hl => Nat.ne_of_gt hl ((h.rnd t).trans (congrArg Held.rnd ht))
  | .file => fun hl => absurd (((h.file t).mp hl).symm.trans (congrArg Held.file ht)) nofun

-- The programs take the locks in their order.
theorem Agrees.rank_lt {e : Bool} {q : Prog (sig X) Unit} {i j : Lock} (h : Agrees held s)
    (ha : q.ObeysFrom (locking X e) (fun _ m => m = .none) (held t)) (hi : s.Blocks t q i)
    (hj : s.Holds t j) : j.rank < i.rank := by
  cases q
  case pure    => cases hi
  case op o k  =>
    replace ha := ha.left
    cases o
    case takeMutex =>
      cases i
      case file => cases hi
      case rnd  =>
        cases j
        case rnd  => exact absurd (RecursiveMutex.depth_of_take_eq_none hi) (Nat.ne_of_gt hj)
        case file => exact absurd (ha.symm.trans ((h.file t).mp hj)) nofun
    case file o =>
      cases o
      case takeMutex =>
        cases i
        case rnd  => cases hi
        case file =>
          cases j
          case rnd  => exact Nat.zero_lt_one
          case file => exact absurd (ha.left.symm.trans ((h.file t).mp hj)) nofun
      all_goals cases hi
    all_goals cases hi

end Locks

-- When the entropy task is deleted, it holds no lock and does not save the seed. It never holds a lock
-- after that, and no tasks wait for each other in a cycle.
theorem lockSafe_of_reaches [DecidableEq τ] {flash : File.Flash} {rng : Ascon.RandomState X}
    {mixture : Mixture} {sources : Sources} {p : Pool (sig X) (Thread τ) (State τ X)}
    (h : (system τ X).Reaches .any (.idle (.initialized flash rng mixture sources)) p) :
    (∀ t k, p.threads t = .op .deleteEntropyTask k →
      (∀ l, ¬p.shared.Holds .entropyTask l) ∧ p.shared.saving = false) ∧
    (p.shared.entropyTaskDeleted = true → ∀ l, ¬p.shared.Holds .entropyTask l) ∧
    ∀ t, ¬Relation.TransGen (locks p).Waits t t := by
  have ⟨os, h⟩ := System.History.of_reaches h
  have ⟨ha, hs⟩ := agrees_of_history h
  refine ⟨fun t k ht => ?_, fun hd => ha.not_holds (hs.deleted hd), ?_⟩
  case refine_1 =>
    have ho := (ht ▸ obeys_of_history h t).left
    have hn : t ≠ .entropyTask := of_decide_eq_false ho.left
    have he := ha.eq_none hs hn ho.right
    exact ⟨ha.not_holds he, hs.saving.trans (congrArg Held.saving he)⟩
  case refine_2 =>
    have hl : (locks p).Ordered Lock.rank := fun t _ _ hi hj => ha.rank_lt (obeys_of_history h t) hi hj
    exact hl.not_cycle

-- One task besides the entropy task, right after the initialization.
def State.fresh : State Unit .trivial :=
  .initialized { bytes := fun _ => [], size := fun _ => Nat.zero_le _ } { xof := (), counter := 0 }
    .boot .zero

-- The task is deleted while it waits for the mutex of the generator.
theorem lockSafe_deinit :
    ∃ p, (system Unit .trivial).Reaches .any (.idle .fresh) p ∧
      p.shared.entropyTaskDeleted = true ∧ ∀ l, ¬p.shared.Holds .entropyTask l := by
  have ⟨p, hr, hp⟩ := (system Unit .trivial).exists_reaches_of_run .any (.idle .fresh)
    State.entropyTaskDeleted
    (.call .entropyTask .entropyCycle :: .call (.task ()) .deinit ::
      .replicate 7 (.op (.task ()) 0)) (by decide +kernel)
  exact ⟨p, hr, hp, (lockSafe_of_reaches hr).right.left hp⟩

end Csprng
