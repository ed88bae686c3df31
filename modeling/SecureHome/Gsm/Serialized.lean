import SecureHome.Gsm.Mutex
import SecureHome.Gsm.Timeouts
import SecureHome.Lib.Grouped

open FreeRTOS Hal Occurrence

namespace Gsm

variable {τ : Type}

-- Any tasks make any calls of the API.
def apiSystem (τ : Type) [DecidableEq τ] : System sig τ Call (Event τ) (State τ) :=
  system fun _ => isApi

abbrev Occurrences (τ : Type) :=
  List (Occurrence sig τ Call (Event τ))

-- A frame that is put on the UART, with the call that it is from.
def sent (x : τ × ℕ) : (o : Op) → sig.Ret o → List ((τ × ℕ) × List UInt8)
  | .transmitDma txCmd _, r => if r = Status.ok then [(x, txCmd)] else []
  | _, _                    => []

-- A call that does not get the mutex.
def gaveUp (x : τ × ℕ) : (o : Op) → sig.Ret o → List (τ × ℕ)
  | .takeMutex, false => [x]
  | _, _              => []

theorem eq_of_mem_gaveUp {x y : τ × ℕ} {o : Op} {r : sig.Ret o} (h : y ∈ gaveUp x o r) : y = x := by
  unfold gaveUp at h
  split at h
  · exact List.mem_singleton.mp h
  · contradiction

variable [DecidableEq τ]

-- The frames on the UART in the order in which they were transmitted.
def frames : Occurrences τ → List ((τ × ℕ) × List UInt8)
  | []              => []
  | .call .. :: os  => frames os
  | .event _ :: os  => frames os
  | .op t o r :: os => frames os ++ sent (t, calls t os) o r

-- The calls that did not get the mutex.
def timedOut : Occurrences τ → List (τ × ℕ)
  | []              => []
  | .call .. :: os  => timedOut os
  | .event _ :: os  => timedOut os
  | .op t o r :: os => gaveUp (t, calls t os) o r ++ timedOut os

-- How far the current call of a task has come.
def progressOf (t : τ) (os : Occurrences τ) : Progress :=
  observed progress t os

-- What holds of the current call of a task, which has the label `x`.
structure Current (x : τ × ℕ) (m : Progress) (fs : List ((τ × ℕ) × List UInt8)) (xs : List (τ × ℕ))
    (c : Option Call) : Prop where
  -- A call that does not hold the mutex either has transmitted nothing so far or is not going to.
  silent    : m.depth = 0 → m.todo ≠ [] → x ∉ fs.map Prod.fst
  last      : 0 < m.depth → m.todo ≠ [] → Grouped.Last x fs
  todo      : m.todo ≠ [] → ∃ c', c = some c' ∧ Grouped.of x fs ++ m.todo = commandFrames c'
  exhausted : x ∈ xs → m.todo = []

-- What holds of the frames and the mutex, which was taken `d₀ t` times at first.
structure Serial (d₀ : τ → ℕ) (os : Occurrences τ) (s : State τ) : Prop where
  depth t     : s.taskMutex.depth t = d₀ t + (progressOf t os).depth
  grouped     : Grouped (frames os)
  known a     : a ∈ frames os → ∃ c, callAt a.1 os = some c
  inOrder x c : callAt x os = some c → Grouped.of x (frames os) <+: commandFrames c
  timedOut x  : x ∈ timedOut os → x ∉ (frames os).map Prod.fst ∧ x.2 ≤ calls x.1 os
  current t   : Current (t, calls t os) (progressOf t os) (frames os) (Gsm.timedOut os)
    (callAt (t, calls t os) os)

variable {d₀ : τ → ℕ} {os : Occurrences τ} {s s' : State τ} {t u : τ} {c : Call} {o : Op}
variable {r : sig.Ret o} {x y : τ × ℕ} {m : Progress} {fs fs' : List ((τ × ℕ) × List UInt8)}
variable {xs xs' : List (τ × ℕ)} {c' : Option Call}

theorem Current.last_of_todo (h : Current x m fs xs c') (hg : Grouped fs) (ht : m.todo ≠ []) :
    Grouped.Last x fs := by
  cases hd : m.depth
  case zero => exact hg.last (h.silent hd ht)
  case succ => exact h.last (hd ▸ Nat.succ_pos _) ht

-- The frames and timeouts of other calls are of no concern to a call that does not hold the mutex.
theorem Current.of_other (h : Current x m fs xs c') (hd : fs' = [] ∨ m.depth = 0)
    (hf : ∀ a ∈ fs', a.1 ≠ x) (hx : x ∉ xs') : Current x m (fs ++ fs') (xs' ++ xs) c' where
  silent h₀ ht := by
    rw [List.map_append, List.mem_append, not_or]
    refine ⟨h.silent h₀ ht, fun hm => ?_⟩
    have ⟨a, ha, he⟩ := List.mem_map.mp hm
    exact hf a ha he
  last hp ht := by
    rcases hd with hd | hd
    · rw [hd, List.append_nil]
      exact h.last hp ht
    · omega
  todo ht := by
    have ho : Grouped.of x fs' = [] := Grouped.of_eq_nil fun hm =>
      have ⟨a, ha, he⟩ := List.mem_map.mp hm
      hf a ha he
    rw [Grouped.of_append, ho, List.append_nil]
    exact h.todo ht
  exhausted hm := h.exhausted ((List.mem_append.mp hm).resolve_left hx)

namespace Serial

theorem known_le (h : Serial d₀ os s) (hx : x ∈ (frames os).map Prod.fst) : x.2 ≤ calls x.1 os := by
  have ⟨a, ha, hax⟩ := List.mem_map.mp hx
  have ⟨c, hc⟩ := h.known a ha
  by_contra hn
  rw [hax, callAt_eq_none (Nat.lt_of_not_le hn)] at hc
  contradiction

theorem event {e : Event τ} (h : Serial d₀ os s) (hs : s'.taskMutex = s.taskMutex) :
    Serial d₀ (.event e :: os) s' :=
  { h with depth := hs ▸ h.depth }

theorem calls_call_self : calls t (.call t c :: os : Occurrences τ) = calls t os + 1 :=
  if_pos rfl

theorem calls_call_of_ne (h : t ≠ u) : calls u (.call t c :: os : Occurrences τ) = calls u os :=
  if_neg h

theorem le_calls_call : calls u os ≤ calls u (.call t c :: os : Occurrences τ) := by
  by_cases hu : t = u
  case pos => subst hu; rw [calls_call_self]; omega
  case neg => rw [calls_call_of_ne hu]

theorem progressOf_call_self : progressOf t (.call t c :: os) = progress.start c :=
  if_pos rfl

theorem progressOf_call_of_ne (h : t ≠ u) : progressOf u (.call t c :: os) = progressOf u os :=
  if_neg h

theorem callAt_call_self :
    callAt (t, calls t os + 1) (.call t c :: os : Occurrences τ) = some c :=
  if_pos rfl

theorem callAt_call_of_ne (h : x ≠ (t, calls t os + 1)) :
    callAt x (.call t c :: os : Occurrences τ) = callAt x os :=
  if_neg h

theorem call (h : Serial d₀ os s) (hd : (progressOf t os).depth = 0) :
    Serial d₀ (.call t c :: os) s := by
  have hx : (t, calls t os + 1) ∉ (frames os).map Prod.fst := fun hm => by
    have := h.known_le hm
    dsimp only at this
    omega
  have hk : ∀ x ∈ (frames os).map Prod.fst, x ≠ (t, calls t os + 1) := fun x hm he => hx (he ▸ hm)
  refine ⟨fun u => ?_, h.grouped, fun a ha => ?_, fun x c' hc => ?_, fun x hm => ?_, fun u => ?_⟩
  case refine_1 =>
    by_cases hu : t = u
    case pos => subst hu; rw [progressOf_call_self, h.depth, hd]; rfl
    case neg => rw [progressOf_call_of_ne hu, h.depth]
  case refine_2 =>
    rw [callAt_call_of_ne (hk a.1 (List.mem_map_of_mem ha))]
    exact h.known a ha
  case refine_3 =>
    by_cases he : x = (t, calls t os + 1)
    case pos => subst he; exact Grouped.of_eq_nil hx ▸ List.nil_prefix
    case neg => exact h.inOrder x c' (callAt_call_of_ne he ▸ hc)
  case refine_4 => exact ⟨(h.timedOut x hm).left, (h.timedOut x hm).right.trans le_calls_call⟩
  case refine_5 =>
    by_cases hu : t = u
    case neg =>
      rw [calls_call_of_ne hu, progressOf_call_of_ne hu, callAt_call_of_ne (by simp [Ne.symm hu])]
      exact h.current u
    case pos =>
      subst hu
      rw [calls_call_self, progressOf_call_self, callAt_call_self]
      refine ⟨fun _ _ => hx, fun hp => absurd hp (Nat.lt_irrefl 0), fun _ => ⟨c, rfl, ?_⟩, fun hm => ?_⟩
      case refine_1 => exact (Grouped.of_eq_nil hx).symm ▸ rfl
      case refine_2 =>
        have := (h.timedOut _ hm).right
        dsimp only at this
        omega

theorem progressOf_op_self :
    progressOf t (.op t o r :: os) = progress.next (progressOf t os) o r :=
  if_pos rfl

theorem progressOf_op_of_ne (h : t ≠ u) : progressOf u (.op t o r :: os) = progressOf u os :=
  if_neg h

theorem frames_op_of_sent (h : sent (t, calls t os) o r = []) :
    frames (.op t o r :: os) = frames os := by
  rw [frames, h, List.append_nil]

-- A step that puts nothing on the UART.
theorem quiet (h : Serial d₀ os s) (hs : sent (t, calls t os) o r = [])
    (hm : progress.next (progressOf t os) o r = m)
    (hd : s'.taskMutex.depth t + (progressOf t os).depth = s.taskMutex.depth t + m.depth)
    (hu : ∀ u ≠ t, s'.taskMutex.depth u = s.taskMutex.depth u)
    (ht : m.todo ≠ [] →
      m.todo = (progressOf t os).todo ∧ (m.depth = 0 → (progressOf t os).depth = 0))
    (hg : gaveUp (t, calls t os) o r = [] ∨
      (progressOf t os).depth = 0 ∧ (progressOf t os).todo ≠ [] ∧ m.todo = []) :
    Serial d₀ (.op t o r :: os) s' := by
  have hf := frames_op_of_sent hs
  refine ⟨fun u => ?_, hf ▸ h.grouped, fun a ha => h.known a (hf ▸ ha),
    fun x c hc => hf ▸ h.inOrder x c hc, fun x hx => hf ▸ ?_, fun u => ?_⟩
  case refine_1 =>
    by_cases he : t = u
    case pos =>
      subst he
      have := h.depth t
      rw [progressOf_op_self, hm]
      omega
    case neg => rw [progressOf_op_of_ne he, hu u (Ne.symm he), h.depth]
  case refine_2 =>
    rcases List.mem_append.mp hx with hx | hx
    · rw [eq_of_mem_gaveUp hx]
      refine ⟨?_, Nat.le_refl _⟩
      rcases hg with hg | hg
      · rw [hg] at hx
        contradiction
      · exact (h.current t).silent hg.left hg.right.left
    · exact h.timedOut x hx
  case refine_3 =>
    show Current (u, calls u os) _ _ (gaveUp _ o r ++ Gsm.timedOut os) (callAt (u, calls u os) os)
    by_cases hu : t = u
    case neg =>
      rw [progressOf_op_of_ne hu, frames, hs]
      refine (h.current u).of_other (.inl rfl) nofun fun hx => hu ?_
      exact (congrArg Prod.fst (eq_of_mem_gaveUp hx)).symm
    case pos =>
      subst hu
      rw [progressOf_op_self, hm, hf]
      have hc := h.current t
      refine ⟨fun h₀ hn => ?_, fun _ hn => ?_, fun hn => ?_, fun hx => ?_⟩
      case refine_1 => exact hc.silent ((ht hn).right h₀) ((ht hn).left ▸ hn)
      case refine_2 => exact hc.last_of_todo h.grouped ((ht hn).left ▸ hn)
      case refine_3 =>
        have he := (ht hn).left
        rw [he]
        exact hc.todo (he ▸ hn)
      case refine_4 =>
        by_contra hn
        rcases hg with hg | hg
        · rw [hg, List.nil_append] at hx
          exact hn ((ht hn).left.trans (hc.exhausted hx))
        · exact hn hg.right.right

-- A frame is put on the UART by the call that holds the mutex.
theorem transmit {txCmd : List UInt8} {rxCmd : Buffer} (h : Serial d₀ os s)
    (hm : s'.taskMutex = s.taskMutex) (hd : 0 < (progressOf t os).depth)
    (ht : (progressOf t os).todo.head? = some txCmd) :
    Serial d₀ (.op t (.transmitDma txCmd rxCmd) Status.ok :: os) s' := by
  obtain ⟨rest, hr⟩ : ∃ rest, (progressOf t os).todo = txCmd :: rest := by
    cases hl : (progressOf t os).todo <;> rw [hl] at ht
    case nil  => contradiction
    case cons => exact ⟨_, by rw [Option.some.inj ht]⟩
  have hn : (progressOf t os).todo ≠ [] := hr ▸ List.cons_ne_nil _ _
  have hc := h.current t
  obtain ⟨c, hk, ho⟩ := hc.todo hn
  have hl := hc.last hd hn
  have hp : progressOf t (.op t (.transmitDma txCmd rxCmd) Status.ok :: os) =
      { progressOf t os with todo := rest } := by
    rw [progressOf_op_self]
    show ({ progressOf t os with todo := (progressOf t os).todo.tail } : Progress) = _
    rw [hr, List.tail_cons]
  have hf : frames (.op t (.transmitDma txCmd rxCmd) Status.ok :: os) =
      frames os ++ [((t, calls t os), txCmd)] := rfl
  refine ⟨fun u => ?_, hf ▸ (hl.append txCmd).grouped, fun a ha => ?_, fun x c' hx => ?_, fun x hx => ?_,
    fun u => ?_⟩
  case refine_1 =>
    rw [hm, h.depth]
    by_cases hu : t = u
    case pos => subst hu; rw [hp]
    case neg => rw [progressOf_op_of_ne hu]
  case refine_2 =>
    rcases List.mem_append.mp (hf ▸ ha) with ha | ha
    · exact h.known a ha
    · rw [List.mem_singleton.mp ha]
      exact ⟨c, hk⟩
  case refine_3 =>
    rw [hf, Grouped.of_append]
    by_cases he : (t, calls t os) = x
    case pos =>
      subst he
      cases hk.symm.trans hx
      rw [Grouped.of_singleton_self, ← ho, hr]
      exact ⟨rest, by simp⟩
    case neg =>
      rw [Grouped.of_singleton_of_ne he, List.append_nil]
      exact h.inOrder x c' hx
  case refine_4 =>
    refine ⟨fun hm => ?_, (h.timedOut x hx).right⟩
    rw [hf, List.map_append] at hm
    rcases List.mem_append.mp hm with hm | hm
    · exact (h.timedOut x hx).left hm
    · rw [List.mem_singleton.mp hm] at hx
      exact hn (hc.exhausted hx)
  case refine_5 =>
    by_cases hu : t = u
    case pos =>
      subst hu
      rw [hp, hf]
      refine ⟨fun h₀ => absurd h₀ hd.ne', fun _ _ => hl.append txCmd, fun _ => ⟨c, hk, ?_⟩,
        fun hx => absurd (hc.exhausted hx) hn⟩
      show Grouped.of (t, calls t os) (frames os ++ [((t, calls t os), txCmd)]) ++ rest = _
      rw [Grouped.of_append, Grouped.of_singleton_self, ← ho, hr, List.append_assoc]
      rfl
    case neg =>
      have hdu : (progressOf u os).depth = 0 := by
        have ht := h.depth t
        have hu := h.depth u
        rw [RecursiveMutex.depth_of_ne (by omega : 0 < s.taskMutex.depth t) (Ne.symm ‹¬t = u›)] at hu
        omega
      rw [progressOf_op_of_ne hu]
      show Current _ _ (frames os ++ [((t, calls t os), txCmd)]) ([] ++ Gsm.timedOut os) _
      refine (h.current u).of_other (.inr hdu) (fun a ha he => ?_) (by simp)
      rw [List.mem_singleton.mp ha] at he
      exact hu (congrArg Prod.fst he)

-- A step that neither takes nor gives the mutex.
theorem unlocked (h : Serial d₀ os s) (hs : sent (t, calls t os) o r = [])
    (hl : s'.taskMutex = s.taskMutex) (hg : gaveUp (t, calls t os) o r = [])
    (hd : (progress.next (progressOf t os) o r).depth = (progressOf t os).depth)
    (ht : (progress.next (progressOf t os) o r).todo ≠ [] →
      (progress.next (progressOf t os) o r).todo = (progressOf t os).todo) :
    Serial d₀ (.op t o r :: os) s' :=
  h.quiet hs rfl (by rw [hl, hd]) (fun u _ => by rw [hl]) (fun hn => ⟨ht hn, fun h₀ => hd ▸ h₀⟩)
    (.inl hg)

-- Each step of a task keeps the order of the frames.
theorem op (h : Serial d₀ os s) (ha : progress.allows (progressOf t os) o)
    (hp : s.Performs t o r s') : Serial d₀ (.op t o r :: os) s' := by
  cases hp
  case setInitialized => exact ha.elim
  case createMutex    => exact ha.elim
  case halInit        => exact ha.elim
  case halInitError   => exact ha.elim
  case takeMutex hm =>
    refine h.quiet rfl rfl ?_ (fun u hu => ?_) (fun _ => ⟨rfl, nofun⟩) (.inl rfl)
    case refine_1 =>
      show _ = _ + ((progressOf t os).depth + 1)
      rw [hm, RecursiveMutex.depth_heldBy_self, RecursiveMutex.depth_free]
      omega
    case refine_2 => rw [hm]; exact RecursiveMutex.depth_heldBy_of_ne hu
  case takeMutexAgain depth hm =>
    refine h.quiet rfl rfl ?_ (fun u hu => ?_) (fun _ => ⟨rfl, nofun⟩) (.inl rfl)
    case refine_1 =>
      show _ = _ + ((progressOf t os).depth + 1)
      rw [hm, RecursiveMutex.depth_heldBy_self, RecursiveMutex.depth_heldBy_self]
      omega
    case refine_2 =>
      rw [hm, RecursiveMutex.depth_heldBy_of_ne hu]
      exact (RecursiveMutex.depth_heldBy_of_ne hu).symm
  case takeMutexTimeout u depth hm hu =>
    have hd : (progressOf t os).depth = 0 := by
      have := h.depth t
      rw [hm, RecursiveMutex.depth_heldBy_of_ne (Ne.symm hu)] at this
      omega
    have hn : progress.next (progressOf t os) .takeMutex false = { progressOf t os with todo := [] } :=
      if_pos hd
    exact h.quiet rfl hn rfl (fun _ _ => rfl) (absurd rfl) (.inr ⟨hd, ha, rfl⟩)
  case giveMutex u depth hm =>
    have hd : 0 < (progressOf t os).depth := ha
    have hu : u = t := by
      by_contra hu
      have := h.depth t
      rw [hm, RecursiveMutex.depth_heldBy_of_ne (Ne.symm hu)] at this
      omega
    subst hu
    have hg : (if depth = 0 then .free else .heldBy u depth : RecursiveMutex τ).depth u = depth := by
      split
      case isTrue h₀ => rw [h₀, RecursiveMutex.depth_free]
      case isFalse   => exact RecursiveMutex.depth_heldBy_self
    refine h.quiet rfl rfl ?_ (fun v hv => ?_) (fun hn => ?_) (.inl rfl)
    case refine_1 =>
      show (if depth = 0 then .free else .heldBy u depth : RecursiveMutex τ).depth u + _ =
        _ + ((progressOf u os).depth - 1)
      rw [hm, hg, RecursiveMutex.depth_heldBy_self]
      omega
    case refine_2 =>
      rw [hm, RecursiveMutex.depth_heldBy_of_ne hv]
      dsimp only
      split
      · exact RecursiveMutex.depth_free
      · exact RecursiveMutex.depth_heldBy_of_ne hv
    case refine_3 =>
      have hn : (if (progressOf u os).depth = 1 then [] else (progressOf u os).todo) ≠ [] := hn
      have h₁ : (progressOf u os).depth ≠ 1 := fun h₁ => hn (if_pos h₁)
      refine ⟨if_neg h₁, fun h₀ => ?_⟩
      have h₀ : (progressOf u os).depth - 1 = 0 := h₀
      omega
  case giveMutexNone hm =>
    have hd : 0 < (progressOf t os).depth := ha
    have hp : 0 < s.taskMutex.depth t := by have := h.depth t; omega
    refine absurd (RecursiveMutex.eq_heldBy hp) ?_
    rw [← Nat.succ_pred_eq_of_pos hp]
    exact hm t _
  case transmitDma hg hf hs => exact h.transmit rfl ha.left ha.right
  case transmitDmaError => exact h.unlocked rfl rfl rfl rfl (absurd rfl)
  case transmitDmaBusy => exact h.unlocked rfl rfl rfl rfl (absurd rfl)
  all_goals exact h.unlocked rfl rfl rfl rfl fun _ => rfl

theorem start (s : State τ) : Serial (fun t => s.taskMutex.depth t) [] s where
  depth _       := rfl
  grouped       := .nil
  known _       := nofun
  inOrder _ _   := nofun
  timedOut _    := nofun
  current _     := ⟨fun _ hn => (hn rfl).elim, nofun, fun hn => (hn rfl).elim, nofun⟩

end Serial

-- What has happened so far when the pool is reached.
abbrev Happened (s₀ : State τ) (os : Occurrences τ) (p : Pool sig τ (State τ)) : Prop :=
  (apiSystem τ).History .any (.idle s₀) os p

variable {s₀ : State τ} {p : Pool sig τ (State τ)}

theorem Happened.obeys (h : Happened s₀ os p) (t : τ) :
    (p.threads t).ObeysFrom progress (fun _ m => m.depth = 0) (progressOf t os) := by
  refine System.History.obeys (Q := fun _ (m : Progress) => m.depth = 0) rfl (fun c q hq => ?_) h
  have ⟨hc, hq⟩ := system_calls_eq_some_iff.mp hq
  exact hq ▸ serve_obeys hc

theorem Happened.serial (h : Happened s₀ os p) : Serial (fun t => s₀.taskMutex.depth t) os p.shared := by
  induction h
  case refl => exact .start s₀
  case event hh _ he hi => exact hi.event (State.happens_of_event he).locks.left
  case call t _ _ hh ht _ hi =>
    have ho := Happened.obeys hh t
    rw [ht] at ho
    exact hi.call ho
  case op t _ _ _ _ hh ht _ hm hi =>
    have ho := Happened.obeys hh t
    rw [ht] at ho
    exact hi.op ho.left (State.performs_of_exec hm)

-- The frames of each call stand together on the UART, only the owner of the mutex becomes the calling
-- task, a call that returns `ERR_TIMEOUT` as it does not get the mutex transmits nothing, and a call
-- gives back what it takes.
theorem serialized (h : Happened s₀ os p) :
    (∃ gs : List ((τ × ℕ) × List (List UInt8)), (gs.map Prod.fst).Nodup ∧
      frames os = gs.flatMap (fun g => g.2.map (g.1, ·)) ∧
      ∀ g ∈ gs, ∃ c, callAt g.1 os = some c ∧ g.2 <+: commandFrames c) ∧
    (∀ t k, p.threads t = .op .setCallingTaskHandle k →
      ∃ depth, p.shared.taskMutex = .heldBy t (depth + 1)) ∧
    (∀ x ∈ timedOut os, x ∉ (frames os).map Prod.fst) ∧
    (∀ c, isApi c = true → (runCall c).run.ObeysFrom timeouts
      (fun r failed => r = .error .errTimeout ↔ failed = true) false) ∧
    ∀ t, p.threads t = .pure () → p.shared.taskMutex.depth t = s₀.taskMutex.depth t := by
  have hs := h.serial
  refine ⟨?_, fun t k ht => ?_, fun x hx => (hs.timedOut x hx).left, fun c hc => ?_, fun t ht => ?_⟩
  case refine_1 =>
    have ⟨gs, hn, hf, hg⟩ := hs.grouped.exists_groups
    refine ⟨gs, hn, hf, fun g hm => ?_⟩
    have ⟨a, ha, hag⟩ := List.mem_map.mp (hg g hm).left
    have ⟨c, hc⟩ := hs.known a ha
    rw [hag] at hc
    exact ⟨c, hc, (hg g hm).right ▸ hs.inOrder g.1 c hc⟩
  case refine_2 =>
    have ho := h.obeys t
    rw [ht] at ho
    have hd : 0 < (progressOf t os).depth := ho.left
    have hp : 0 < p.shared.taskMutex.depth t := by have := hs.depth t; omega
    exact ⟨_, (Nat.succ_pred_eq_of_pos hp).symm ▸ RecursiveMutex.eq_heldBy hp⟩
  case refine_3 =>
    refine (TimesOut.runCall hc false rfl).weaken fun r failed hr => ?_
    cases r
    case ok    => simpa using hr
    case error => simpa using hr
  case refine_4 =>
    have ho := h.obeys t
    rw [ht] at ho
    have hd : (progressOf t os).depth = 0 := ho
    have := hs.depth t
    omega

-- The driver after its initialization.
def State.initialized (τ : Type) : State τ :=
  { State.init fun _ => none with isInitialized := true, taskMutex := .free }

-- While a task transmits its first command, the call of another task times out.
theorem serialized_timeout :
    ∃ (os : Occurrences Bool) (p : Pool sig Bool (State Bool)), Happened (.initialized Bool) os p ∧
      (timedOut os = [(false, 1)] ∧ frames os = [((true, 1), text "AT\r")]) ∧
        ∀ x ∈ timedOut os, x ∉ (frames os).map Prod.fst := by
  have ⟨os, p, h, hq⟩ := System.History.exists_of_record (apiSystem Bool) (.idle (.initialized Bool))
    (fun os _ => decide (timedOut os = [(false, 1)] ∧ frames os = [((true, 1), text "AT\r")]))
    ([.call true .getSimStatus] ++ List.replicate 6 (.op true 0) ++
      [.call false .getImsi, .op false 0, .op false 0]) (by decide +kernel)
  exact ⟨os, p, h, of_decide_eq_true hq, (serialized h).right.right.left⟩

end Gsm
