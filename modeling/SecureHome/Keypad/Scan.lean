import SecureHome.Keypad.Steps
import SecureHome.Lib.Sequential

open Prog

namespace Keypad

abbrev Keys := Fin rows → Fin columns → Bool

-- The callback together with the number of statements that it has performed.
structure Scan where
  state : State
  time  : ℕ

-- Keys are pressed and released at any time. What counts for a statement is which keys are pressed at
-- the moment of the statement.
def execAt (N : ℕ) (keys : ℕ → Keys) (o : Op) (c : Scan) : List (sig.Ret o × Scan) :=
  ({ c.state with pressed := keys c.time }.exec N o).map fun (r, state) =>
    (r, { state, time := c.time + 1 })

-- No two rows and no two columns share a pin.
structure Config.Distinct (config : Config) : Prop where
  ne_zero : ∀ i : Fin rows, config.rowPins.get i ≠ 0
  rows    : ∀ i j : Fin rows, i ≠ j → config.rowPins.get i &&& config.rowPins.get j = 0
  columns : ∀ i j : Fin columns, config.colPins.get i = config.colPins.get j → i = j

-- The keypad is wired as it is configured.
structure Wired (s : State) : Prop where
  distinct : s.config.Distinct
  rowPort  : s.config.rowPort.isSome
  wiring   : s.wiring = s.config
  rowPins  : s.rowPins = s.config.rowPins.foldl (· ||| ·) 0

def keyAt (row : Fin rows) (col : Fin columns) : Char :=
  (Keypad.keys.get row).get col

-- The moment at which the callback reads the column for the row, if it gets there.
def moment (row : Fin rows) (col : Fin columns) : ℕ :=
  5 * row + col + 2

-- At this moment there is a pressed key of the column on the row or on one that was scanned before.
def SeenLow (keys : ℕ → Keys) (row : Fin rows) (col : Fin columns) : Prop :=
  ∃ row' ≤ row, keys (moment row col) row' col = true

-- The row is driven low.
def Low (s : State) (row : Fin rows) : Prop :=
  ∃ p ∈ s.wiring.rowPort, s.odr p &&& s.wiring.rowPins.get row = 0

theorem and_not_self (x p : UInt16) : x &&& ~~~p &&& p = 0 := by
  rw [← UInt16.toBitVec_inj]
  ext i
  simp

theorem and_not_of_disjoint {x p q : UInt16} (h : p &&& q = 0) : x &&& ~~~p &&& q = x &&& q := by
  rw [← UInt16.toBitVec_inj] at h ⊢
  ext i hi
  have hb : (p.toBitVec &&& q.toBitVec)[i] = false := by
    rw [← UInt16.toBitVec_and, h]
    simp
  simp only [UInt16.toBitVec_and, UInt16.toBitVec_not, BitVec.getElem_and, BitVec.getElem_not] at hb ⊢
  cases hp : p.toBitVec[i] <;> simp_all

theorem or_and_ne_zero {x p q : UInt16} (h : q &&& p = q) (hq : q ≠ 0) : (x ||| p) &&& q ≠ 0 := by
  intro hx
  refine hq (h ▸ ?_)
  rw [← UInt16.toBitVec_inj] at hx ⊢
  ext i hi
  have hb : ((x ||| p) &&& q).toBitVec[i] = false := by
    rw [hx]
    simp
  simp only [UInt16.toBitVec_and, UInt16.toBitVec_or, BitVec.getElem_and, BitVec.getElem_or] at hb ⊢
  cases hp : p.toBitVec[i] <;> simp_all

variable {N : ℕ} {keys : ℕ → Keys} {s : State} {row : Fin rows} {col : Fin columns} {key : Char}

theorem and_or_of_and {x p q : UInt16} (h : x &&& p = x) : x &&& (p ||| q) = x := by
  rw [← UInt16.toBitVec_inj] at h ⊢
  ext i hi
  have hb : (x.toBitVec &&& p.toBitVec)[i] = x.toBitVec[i] := by rw [← UInt16.toBitVec_and, h]
  simp only [UInt16.toBitVec_and, UInt16.toBitVec_or, BitVec.getElem_and, BitVec.getElem_or] at hb ⊢
  cases hp : p.toBitVec[i] <;> simp_all

-- The mask of all pins contains each of them.
theorem and_foldl_or {l : List UInt16} {x mask : UInt16} (h : x ∈ l ∨ x &&& mask = x) :
    x &&& l.foldl (· ||| ·) mask = x := by
  induction l generalizing mask
  case nil => exact h.resolve_left List.not_mem_nil
  case cons y l hi =>
    refine hi (h.elim (fun hx => (List.mem_cons.mp hx).symm.imp_right fun hx => ?_) fun hx => .inr ?_)
    case refine_1 =>
      subst hx
      show x &&& (mask ||| x) = x
      rw [UInt16.or_comm]
      exact and_or_of_and UInt16.and_self
    case refine_2 => exact and_or_of_and hx

namespace Wired

theorem writePin (h : Wired s) {port : Option GpioPort} {pins : UInt16} {high : Bool} :
    Wired (s.writePin port pins high) := by
  cases port <;> exact ⟨h.distinct, h.rowPort, h.wiring, h.rowPins⟩

theorem low_iff (h : Wired s) {p : GpioPort} (hp : s.config.rowPort = some p) :
    Low s row ↔ s.odr p &&& s.config.rowPins.get row = 0 := by
  rw [Low, h.wiring]
  exact ⟨fun ⟨q, hq, hl⟩ => Option.mem_unique hq hp ▸ hl, fun hl => ⟨p, hp, hl⟩⟩

theorem low_writePin_iff (h : Wired s) {p : GpioPort} (hp : s.config.rowPort = some p) {pins : UInt16}
    {high : Bool} :
    Low (s.writePin s.config.rowPort pins high) row ↔
      (if high then s.odr p ||| pins else s.odr p &&& ~~~pins) &&& s.config.rowPins.get row = 0 := by
  have hw : Wired (s.writePin (some p) pins high) := h.writePin
  rw [hp, hw.low_iff hp]
  simp only [State.writePin, Function.update_self]

theorem of_init {config : Config} {odr : GpioPort → UInt16} {imr pr : UInt32} (hd : config.Distinct)
    (h : State.init config odr imr pr = .ok s) : Wired s := by
  simp only [State.init] at h
  split at h
  case isTrue => cases h
  split at h <;> cases h
  case isFalse hr =>
    refine writePin ⟨hd, ?_, rfl, rfl⟩
    cases hp : config.rowPort
    case none   => exact (hr (by rw [hp]; decide)).elim
    case some p => rfl

-- All rows are high at the beginning of the scan.
theorem not_low_writeRows (h : Wired s) : ¬Low (s.writePin s.config.rowPort s.rowPins true) row := by
  have ⟨p, hp⟩ := Option.isSome_iff_exists.mp h.rowPort
  rw [h.low_writePin_iff hp, if_pos rfl, h.rowPins]
  rw [← Vector.foldl_toList]
  have hm : s.config.rowPins.get row ∈ s.config.rowPins.toList :=
    Vector.mem_toList_iff.mpr (Vector.getElem_mem row.isLt)
  exact or_and_ne_zero (and_foldl_or (.inl hm)) (h.distinct.ne_zero row)

-- Driving a row low leaves the other rows as they are, also those that are low already.
theorem low_lowerRow_iff (h : Wired s) {i : Fin rows} :
    Low (s.writePin s.config.rowPort (s.config.rowPins.get i) false) row ↔ row = i ∨ Low s row := by
  have ⟨p, hp⟩ := Option.isSome_iff_exists.mp h.rowPort
  rw [h.low_writePin_iff hp, if_neg Bool.false_ne_true, h.low_iff hp]
  by_cases hr : row = i
  case pos =>
    subst hr
    simp only [and_not_self, true_or]
  case neg =>
    rw [and_not_of_disjoint (h.distinct.rows i row (Ne.symm hr))]
    simp only [hr, false_or]

theorem readsLow_iff (h : Wired s) :
    s.readsLow s.config.colPort (s.config.colPins.get col) = true ↔
      ∃ row, Low s row ∧ s.pressed row col = true := by
  rw [State.readsLow, decide_eq_true_eq, h.wiring]
  constructor
  case mp =>
    intro ⟨_, row, col', hc, hp, q, hq, hl⟩
    cases h.distinct.columns _ _ hc
    exact ⟨row, (h.low_iff hq).mpr hl, hp⟩
  case mpr =>
    intro ⟨row, hl, hp⟩
    have ⟨p, hr⟩ := Option.isSome_iff_exists.mp h.rowPort
    exact ⟨rfl, row, col, rfl, hp, p, hr, (h.low_iff hr).mp hl⟩

end Wired

-- What stays the same during the callback, apart from the rows.
structure Scanning (queue : List Char) (c : Scan) : Prop where
  wired      : Wired c.state
  eventQueue : c.state.eventQueue = some queue

-- No column was low so far, and the next one to be read is given.
structure Searching (keys : ℕ → Keys) (queue : List Char) (row col : ℕ) (c : Scan) : Prop
    extends Scanning queue c where
  time   : c.time = 5 * row + col + 2
  low    : ∀ r, Low c.state r ↔ r.val ≤ row
  missed : ∀ r j, moment r j < 5 * row + col + 2 → ¬SeenLow keys r j

-- The first column that was low.
structure FirstLow (keys : ℕ → Keys) (row : Fin rows) (col : Fin columns) : Prop where
  seen   : SeenLow keys row col
  missed : ∀ r j, moment r j < moment row col → ¬SeenLow keys r j

variable {queue : List Char} {P : Scan → Prop} {c : Scan}

-- What a statement does with a state in which other keys may be pressed.
theorem hoare_perform {o : Op} {Q : sig.Ret o → Scan → Prop}
    (h : ∀ c r s', P c → (r, s') ∈ { c.state with pressed := keys c.time }.exec N o →
      Q r { state := s', time := c.time + 1 }) :
    Hoare (execAt N keys) P (perform o) Q := by
  refine .perform fun c r c' hp hm => ?_
  have ⟨⟨_, s'⟩, hs, he⟩ := List.mem_map.mp hm
  cases he
  exact h c _ s' hp hs

theorem moment_inj {r r' : Fin rows} {j j' : Fin columns} (h : moment r j = moment r' j') :
    r = r' ∧ j = j' := by
  have hj : j.val < 4 := j.isLt
  have hj' : j'.val < 4 := j'.isLt
  simp only [moment] at h
  exact ⟨Fin.ext (by omega), Fin.ext (by omega)⟩

theorem Scanning.press (h : Scanning queue c) (k : Keys) : Wired { c.state with pressed := k } :=
  ⟨h.wired.distinct, h.wired.rowPort, h.wired.wiring, h.wired.rowPins⟩

-- A column reads low if one of its keys is pressed on the row or on an earlier one.
theorem Searching.readsLow_iff {c : Scan} (h : Searching keys queue row col c) :
    { c.state with pressed := keys c.time }.readsLow c.state.config.colPort
        (c.state.config.colPins.get col) = true ↔ SeenLow keys row col := by
  refine (h.press (keys c.time)).readsLow_iff.trans ?_
  simp only [SeenLow, moment, ← h.time]
  exact exists_congr fun r => and_congr_left fun _ => h.low r

theorem Searching.next {c c' : Scan} (h : Searching keys queue row col c) (hs : Scanning queue c')
    (hl : ∀ r, Low c'.state r ↔ Low c.state r) (ht : c'.time = c.time + 1) (hn : ¬SeenLow keys row col) :
    Searching keys queue row (col + 1) c' where
  toScanning := hs
  time       := by rw [ht, h.time]; omega
  low r      := (hl r).trans (h.low r)
  missed r j hm := by
    by_cases he : moment r j = moment row col
    case pos =>
      obtain ⟨rfl, rfl⟩ := moment_inj he
      exact hn
    case neg =>
      refine h.missed r j ?_
      simp only [moment] at hm he ⊢
      omega

-- The outcome of reading the columns of a row.
def Searched (keys : ℕ → Keys) (queue : List Char) (row : Fin rows) : Option (Fin columns) → Scan → Prop
  | none,   c => Searching keys queue row columns c
  | some j, c => Scanning queue c ∧ FirstLow keys row j

theorem scanColumns_hoare (row : Fin rows) (cols : List (Fin columns)) (col : ℕ) (hl : col ≤ columns)
    (hc : (List.finRange columns).drop col = cols) :
    Hoare (execAt N keys) (Searching keys queue row col) (scanColumns cols)
      (Searched keys queue row) := by
  induction cols generalizing col
  case nil =>
    have hl' : columns ≤ col := by simpa using hc
    obtain rfl : col = columns := Nat.le_antisymm hl hl'
    exact .pure fun _ h => h
  case cons j cols hi =>
    have hl' : col < (List.finRange columns).length := by
      by_contra hl'
      rw [List.drop_eq_nil_of_le (Nat.le_of_not_lt hl')] at hc
      contradiction
    rw [List.drop_eq_getElem_cons hl', List.cons.injEq, List.getElem_finRange] at hc
    have hj : j.val = col := hc.left ▸ rfl
    subst hj
    have hr : Hoare (execAt N keys) (Searching keys queue row j) (perform (.readColumn j))
        fun low c => if low then Scanning queue c ∧ FirstLow keys row j
          else Searching keys queue row (j + 1) c := by
      refine hoare_perform fun c low s' h hm => ?_
      have hw := h.readsLow_iff
      cases List.mem_singleton.mp hm
      split
      case isTrue hb =>
        exact ⟨⟨h.press _, h.eventQueue⟩, hw.mp hb, fun r k hm => h.missed r k hm⟩
      case isFalse hb =>
        exact h.next ⟨h.press _, h.eventQueue⟩ (fun _ => Iff.rfl) rfl (hb ∘ hw.mpr)
    refine hr.bind fun low => ?_
    cases low
    case false => exact hi _ j.isLt hc.right
    case true  => exact .pure fun _ h => h

-- Between two rows.
structure Between (keys : ℕ → Keys) (queue : List Char) (row : ℕ) (c : Scan) : Prop
    extends Scanning queue c where
  time   : c.time = 5 * row + 1
  low    : ∀ r, Low c.state r ↔ r.val < row
  missed : ∀ r j, r.val < row → ¬SeenLow keys r j

theorem Searching.between {row : Fin rows} (h : Searching keys queue row columns c) :
    Between keys queue (row + 1) c where
  toScanning := h.toScanning
  time       := by rw [h.time]; show 5 * row.val + 4 + 2 = _; omega
  low r      := (h.low r).trans Nat.lt_succ_iff.symm
  missed r j hr := by
    refine h.missed r j ?_
    have hj : j.val < 4 := j.isLt
    show 5 * r.val + j.val + 2 < 5 * row.val + 4 + 2
    omega

theorem eventQueue_writePin {port : Option GpioPort} {pins : UInt16} {high : Bool} :
    (s.writePin port pins high).eventQueue = s.eventQueue := by
  cases port <;> rfl

theorem lowerRow_hoare (row : Fin rows) :
    Hoare (execAt N keys) (Between keys queue row) (perform (.lowerRow row))
      fun _ => Searching keys queue row 0 := by
  refine hoare_perform fun c _ s' h hm => ?_
  have hw := h.press (keys c.time)
  cases List.mem_singleton.mp hm
  refine ⟨⟨hw.writePin, ?_⟩, by rw [h.time], fun r => ?_, fun r j hr => h.missed r j ?_⟩
  case refine_1 => rw [eventQueue_writePin, h.eventQueue]
  case refine_2 =>
    refine (hw.low_lowerRow_iff (i := row)).trans ((or_congr Iff.rfl (h.low r)).trans ?_)
    rw [Fin.ext_iff]
    omega
  case refine_3 =>
    have hj : j.val < 4 := j.isLt
    simp only [moment] at hr
    omega

-- The outcome of the scan.
def Scanned (keys : ℕ → Keys) (queue : List Char) : Option (Fin rows × Fin columns) → Scan → Prop
  | none,          c => Scanning queue c ∧ ∀ row col, ¬SeenLow keys row col
  | some (row, col), c => Scanning queue c ∧ FirstLow keys row col

theorem scanRows_hoare (rs : List (Fin rows)) (row : ℕ) (hl : row ≤ rows)
    (hr : (List.finRange rows).drop row = rs) :
    Hoare (execAt N keys) (Between keys queue row) (scanRows rs) (Scanned keys queue) := by
  induction rs generalizing row
  case nil =>
    have hl' : rows ≤ row := by simpa using hr
    exact .pure fun c h => ⟨h.toScanning, fun r j => h.missed r j (Nat.lt_of_lt_of_le r.isLt hl')⟩
  case cons r rs hi =>
    have hl' : row < (List.finRange rows).length := by
      by_contra hl'
      rw [List.drop_eq_nil_of_le (Nat.le_of_not_lt hl')] at hr
      contradiction
    rw [List.drop_eq_getElem_cons hl', List.cons.injEq, List.getElem_finRange] at hr
    have hj : r.val = row := hr.left ▸ rfl
    subst hj
    refine (lowerRow_hoare r).bind fun _ => (scanColumns_hoare r _ 0 (Nat.zero_le _) rfl).bind fun col => ?_
    cases col
    case none   => exact (hi _ r.isLt hr.right).weaken (fun _ h => h.between) fun _ _ h => h
    case some j => exact .pure fun _ h => h

-- The queue after the callback: the first key of a column that was low has been sent to it.
def Sent (N : ℕ) (keys : ℕ → Keys) (queue queue' : List Char) : Prop :=
  ((∀ row col, ¬SeenLow keys row col) ∧ queue' = queue) ∨
    ∃ row col, FirstLow keys row col ∧
      queue' = if queue.length < N then queue ++ [keyAt row col] else queue

theorem unmaskColumns_hoare :
    Hoare (execAt N keys) (fun c => c.state.eventQueue = some queue) unmaskColumns
      fun _ c => c.state.eventQueue = some queue := by
  have hu {o : Op} (ho : ∀ s r s', (r, s') ∈ State.exec N s o → s'.eventQueue = s.eventQueue) :
      Hoare (execAt N keys) (fun c => c.state.eventQueue = some queue) (perform o)
        fun _ c => c.state.eventQueue = some queue :=
    hoare_perform fun c r s' h hm => (ho _ r s' hm).trans h
  have hw : ∀ s r s', (r, s') ∈ State.exec N s (.writeRows false) → s'.eventQueue = s.eventQueue := by
    intro s r s' hm
    cases List.mem_singleton.mp hm
    exact eventQueue_writePin
  refine (hu hw).bind fun _ => (hu (o := .clearPending) fun s r s' hm => ?_).bind fun _ =>
    (hu (o := .loadImr) fun s r s' hm => ?_).bind fun imr =>
    (hu (o := .storeImr imr) fun s r s' hm => ?_).bind fun _ =>
    hu (o := .leaveCallback) fun s r s' hm => ?_
  all_goals
    cases List.mem_singleton.mp hm
    rfl

theorem queueSend_hoare (key : Char) :
    Hoare (execAt N keys) (Scanning queue) (perform (.queueSend key))
      fun _ c => c.state.eventQueue = some (if queue.length < N then queue ++ [key] else queue) := by
  refine hoare_perform fun c r s' h hm => ?_
  cases List.mem_singleton.mp hm
  show (c.state.eventQueue).map _ = _
  rw [h.eventQueue]
  rfl

theorem debounceTimerCb_hoare :
    Hoare (execAt N keys) (fun c => Scanning queue c ∧ c.time = 0) debounceTimerCb
      fun _ c => ∃ queue', c.state.eventQueue = some queue' ∧ Sent N keys queue queue' := by
  have hw : Hoare (execAt N keys) (fun c => Scanning queue c ∧ c.time = 0) (perform (.writeRows true))
      fun _ => Between keys queue 0 := by
    refine hoare_perform fun c r s' ⟨h, ht⟩ hm => ?_
    have hp := h.press (keys c.time)
    cases List.mem_singleton.mp hm
    refine ⟨⟨hp.writePin, eventQueue_writePin.trans h.eventQueue⟩, by rw [ht], fun r => ?_, nofun⟩
    exact ⟨fun hl => (hp.not_low_writeRows hl).elim, nofun⟩
  refine hw.bind fun _ => (scanRows_hoare _ 0 (Nat.zero_le _) rfl).bind fun found => ?_
  match found with
  | none =>
    refine fun c _ c' ⟨h, hn⟩ he => ⟨queue, ?_, .inl ⟨hn, rfl⟩⟩
    exact unmaskColumns_hoare c _ c' h.eventQueue he
  | some (row, col) =>
    refine fun c _ c' ⟨h, hf⟩ he => ⟨_, ?_, .inr ⟨row, col, hf, rfl⟩⟩
    exact ((queueSend_hoare _).bind fun _ => unmaskColumns_hoare) c _ c' h he

-- A key that is pressed on a row that was scanned before is seen on a later row, unless the scan is
-- over by then, only if the key on the later row is pressed, too.
def SeenOnOwnRow (keys : ℕ → Keys) : Prop :=
  ∀ row col, (∃ row' < row, keys (moment row col) row' col = true) →
    keys (moment row col) row col = true ∨
      ∃ r j, moment r j < moment row col ∧ SeenLow keys r j

theorem FirstLow.unique {row' : Fin rows} {col' : Fin columns} (h : FirstLow keys row col)
    (h' : FirstLow keys row' col') : row = row' ∧ col = col' := by
  rcases Nat.lt_trichotomy (moment row col) (moment row' col') with hl | he | hl
  · exact (h'.missed _ _ hl h.seen).elim
  · exact moment_inj he
  · exact (h.missed _ _ hl h'.seen).elim

theorem keyAt_inj : ∀ {row row' : Fin rows} {col col' : Fin columns},
    keyAt row col = keyAt row' col' → row = row' ∧ col = col' := by
  decide

-- The callback never blocks.
theorem exists_ends_debounceTimerCb (c : Scan) : ∃ c', debounceTimerCb.Ends (execAt N keys) c () c' := by
  have hn (o : Op) (c : Scan) (ho : Serves o) : execAt N keys o c ≠ [] :=
    List.map_eq_nil_iff.not.mpr ho.ne_nil
  have ⟨_, c', h⟩ := exists_ends (s := c) uses_debounceTimerCb hn
  exact ⟨c', h⟩

-- If what the callback sees first is seen on its own row, then the first key that is seen is pressed.
theorem FirstLow.pressed (h : FirstLow keys row col) (hs : SeenOnOwnRow keys) :
    keys (moment row col) row col = true := by
  have ⟨row', hr, hk⟩ := h.seen
  rcases Fin.lt_or_eq_of_le hr with hl | he
  · rcases hs row col ⟨row', hl, hk⟩ with ho | ⟨r, j, hm, hr⟩
    · exact ho
    · exact (h.missed r j hm hr).elim
  · exact he ▸ hk

theorem Sent.append_iff {queue' : List Char} (h : Sent N keys queue queue') :
    queue' = queue ++ [keyAt row col] ↔ queue.length < N ∧ FirstLow keys row col := by
  rcases h with ⟨hn, hq⟩ | ⟨row', col', hf, hq⟩
  case inl =>
    refine ⟨fun he => ?_, fun ⟨_, hf⟩ => (hn row col hf.seen).elim⟩
    simp [hq] at he
  case inr =>
    by_cases hl : queue.length < N <;> simp only [hl, if_true, if_false] at hq <;> rw [hq]
    case pos =>
      refine ⟨fun he => ⟨hl, ?_⟩, fun ⟨_, hf'⟩ => ?_⟩
      case refine_1 =>
        obtain ⟨rfl, rfl⟩ := keyAt_inj (List.singleton_inj.mp (List.append_cancel_left he))
        exact hf
      case refine_2 =>
        obtain ⟨rfl, rfl⟩ := hf.unique hf'
        rfl
    case neg => exact ⟨fun he => by simp at he, fun h => (hl h.left).elim⟩

-- Every pushed key was pressed when its column was read, if and only if no key is seen on the row of
-- another, or if there is no room for a key.
theorem pushed_iff {c c' : Scan} (hw : Wired c.state) (hq : c.state.eventQueue = some queue)
    (ht : c.time = 0) (h : debounceTimerCb.Ends (execAt N keys) c () c') :
    (∀ row col, c'.state.eventQueue = some (queue ++ [keyAt row col]) →
      keys (moment row col) row col = true) ↔ N ≤ queue.length ∨ SeenOnOwnRow keys := by
  have ⟨queue', hq', hs⟩ := debounceTimerCb_hoare c () c' ⟨⟨hw, hq⟩, ht⟩ h
  simp only [hq', Option.some.injEq, hs.append_iff]
  constructor
  case mp =>
    intro hp
    refine (Nat.lt_or_ge queue.length N).symm.imp_right fun hl row col ⟨row', hr, hk⟩ => ?_
    by_cases he : ∃ r j, moment r j < moment row col ∧ SeenLow keys r j
    case pos => exact .inr he
    case neg =>
      refine .inl (hp row col ⟨hl, ⟨row', Nat.le_of_lt hr, hk⟩, fun r j hm hs => he ⟨r, j, hm, hs⟩⟩)
  case mpr =>
    intro hc row col ⟨hl, hf⟩
    exact hf.pressed (hc.resolve_left (Nat.not_le_of_lt hl))

theorem wired_lowPins : Wired .lowPins where
  distinct := ⟨by decide, by decide, by decide⟩
  rowPort  := rfl
  wiring   := rfl
  rowPins  := rfl

def firstRow    : Fin rows    := ⟨0, by decide⟩
def secondRow   : Fin rows    := ⟨1, by decide⟩
def firstColumn : Fin columns := ⟨0, by decide⟩

-- The key '1' is pressed right after its row was scanned.
def lateKey (n : ℕ) : Keys :=
  fun row col => decide (7 ≤ n ∧ row = firstRow ∧ col = firstColumn)

-- The key '4' below it is pushed instead.
theorem ends_lateKey :
    ∃ c', debounceTimerCb.Ends (execAt 1 lateKey) { state := .lowPins, time := 0 } () c' ∧
      c'.state.eventQueue = some [keyAt secondRow firstColumn] := by
  have h : ∃ a c', debounceTimerCb.Ends (execAt 1 lateKey) { state := .lowPins, time := 0 } a c' ∧
      decide (c'.state.eventQueue = some [keyAt secondRow firstColumn]) = true :=
    exists_ends_of_follow [] (fun _ (c : Scan) => decide (c.state.eventQueue = some [keyAt secondRow firstColumn]))
      (by decide +kernel)
  have ⟨_, c', h, hq⟩ := h
  exact ⟨c', h, of_decide_eq_true hq⟩

theorem not_seenOnOwnRow_lateKey : ¬(1 ≤ ([] : List Char).length ∨ SeenOnOwnRow lateKey) := by
  intro hc
  have ⟨c', h, hq⟩ := ends_lateKey
  exact absurd ((pushed_iff wired_lowPins rfl rfl h).mpr hc secondRow firstColumn hq) (by decide)

theorem not_pressed_of_pushed :
    ¬∀ (N : ℕ) (keys : ℕ → Keys) (queue : List Char) (c c' : Scan), Wired c.state →
      c.state.eventQueue = some queue → c.time = 0 → debounceTimerCb.Ends (execAt N keys) c () c' →
        ∀ row col, c'.state.eventQueue = some (queue ++ [keyAt row col]) →
          keys (moment row col) row col = true := by
  intro hp
  have ⟨c', h, hq⟩ := ends_lateKey
  exact absurd (hp _ _ _ _ c' wired_lowPins rfl rfl h secondRow firstColumn hq) (by decide)

end Keypad
