import MailExpert.MailNode.SeatSteps

/-!
# A mailbox has a seat exactly while it works

Every step keeps the seats (`Inv.step`), and an action that was refused or threw before its commit changed nothing
(`Kept`). An action reads its mailbox back after its commit: when that fails it throws although the change stands.
-/

namespace MailExpert.MailboxActions

open Seats (Row.liveOf_iff lookup_of_without)

variable {w w' : World} {i : Nat} {x : Action} {l : Label}

theorem getElem?_mark {j : Nat} {y : Action} (h : (mark w l w').actions[j]? = some y) :
    ∃ y₀ c, w'.actions[j]? = some y₀ ∧ y = { y₀ with changed := c } := by
  unfold mark at h
  cases hl : l.action? with
  | none =>
    simp only [hl, Option.elim_none] at h
    exact ⟨y, y.changed, h, rfl⟩
  | some i =>
    simp only [hl, Option.elim_some, List.getElem?_modify, Option.map_eq_map, Option.map_eq_some_iff] at h
    obtain ⟨y₀, hy₀, rfl⟩ := h
    refine ⟨y₀, if i = j then y₀.changed || !unchanged y₀.reserved w w' else y₀.changed, hy₀, ?_⟩
    split <;> rfl

theorem Inv.mark (h : Inv w') : Inv (mark w l w') := by
  refine ⟨h.ledger, h.swept, fun b row hrow => (h.boxes b row hrow).congr id Iff.rfl, fun y hy => ?_,
    fun j k y z b hj hk hy hz => ?_, fun j k y z hj hk hy hz => ?_⟩
  · obtain ⟨j, hj⟩ := List.mem_iff_getElem?.mp hy
    obtain ⟨y₀, c, hj₀, rfl⟩ := getElem?_mark hj
    have hready := h.ready y₀ (List.mem_of_getElem? hj₀)
    exact ⟨hready.now, hready.holder, hready.found⟩
  · obtain ⟨y₀, c, hj₀, rfl⟩ := getElem?_mark hj
    obtain ⟨z₀, c', hk₀, rfl⟩ := getElem?_mark hk
    exact h.apart j k y₀ z₀ b hj₀ hk₀ hy hz
  · obtain ⟨y₀, c, hj₀, rfl⟩ := getElem?_mark hj
    obtain ⟨z₀, c', hk₀, rfl⟩ := getElem?_mark hk
    exact h.alone j k y₀ z₀ hj₀ hk₀ hy hz

theorem Inv.step (h : Inv w) (hs : MailboxActions.step w l = some w') : Inv w' := by
  obtain ⟨w₁, hmove, rfl⟩ := Option.map_eq_some_iff.mp hs
  exact (h.move hmove).mark

theorem Inv.invariant : system.Invariant TransitionSystem.anyStep Inv where
  init {w} hw := by
    obtain ⟨hledger, hactions, hboxes⟩ := hw
    have hnone : ∀ {j : Nat} {y : Action}, w.actions[j]? ≠ some y := by simp [hactions]
    exact ⟨Seats.inv.init hledger, .of_none hledger.free, hboxes, fun x hx => by simp [hactions] at hx,
      fun _ _ _ _ _ hj => absurd hj hnone, fun _ _ _ _ hj => absurd hj hnone⟩
  step h _ hs := h.step hs

/-! ## What an action left as it was -/

def Phase.settled : Phase → Bool
  | .committed | .over .done | .over .threwLate => true
  | _ => false

def Kept (w : World) : Prop := ∀ x ∈ w.actions, x.changed = true → x.phase.settled = true

theorem keeps_iff {ρ : Type} [DecidableEq ρ] {skip : Nat → ρ → Bool} {t t' : Table Nat ρ} :
    keeps skip t t' = true ↔ ∀ id r, t.lookup id = some r → skip id r = true ∨ t'.lookup id = some r := by
  rw [keeps, List.all_eq_true]
  constructor
  · intro h id r hr
    simpa using h ⟨id, r⟩ (Table.mem_entries.mpr hr)
  · rintro h ⟨id, r⟩ he
    simpa using h id r (Table.mem_entries.mp he)

theorem keeps_self {ρ : Type} [DecidableEq ρ] {skip : Nat → ρ → Bool} {t : Table Nat ρ} : keeps skip t t = true :=
  keeps_iff.mpr fun _ _ hr => .inr hr

theorem passing_iff {own : Option Nat} {now id : Nat} {r : Seats.Row} :
    passing own now id r = true ↔ r.pending = true ∧ (r.expired now = true ∨ own = some id) := by
  simp [passing]

theorem unchanged_of {own : Option Nat} (hboxes : w'.boxes = w.boxes)
    (hold : ∀ id r, w.ledger.rows.lookup id = some r → passing own w.ledger.clock id r = true ∨ w'.ledger.rows.lookup id = some r)
    (hnew : ∀ id r, w'.ledger.rows.lookup id = some r → passing own w.ledger.clock id r = true ∨ w.ledger.rows.lookup id = some r) :
    unchanged own w w' = true := by
  simp only [unchanged, hboxes, keeps_self, keeps_iff.mpr hold, keeps_iff.mpr hnew, Bool.and_self]

theorem unchanged_of_eq {own : Option Nat} (hboxes : w'.boxes = w.boxes) (hrows : w'.ledger.rows = w.ledger.rows) :
    unchanged own w w' = true :=
  unchanged_of hboxes (fun _ _ hr => .inr (hrows ▸ hr)) fun _ _ hr => .inr (hrows ▸ hr)

/-- Action `i` goes on as `x'`: settled for good, or with nothing changed. -/
structure Leaves (w : World) (i : Nat) (x x' : Action) (w' : World) : Prop where
  actions : w'.actions = w.actions.set i x'
  changed : x'.changed = x.changed
  settled : x.phase.settled = true → x'.phase.settled = true
  kept : x'.phase.settled = true ∨ unchanged x'.reserved w w' = true

theorem Leaves.set {x' : Action} (hchanged : x'.changed = x.changed) (hsettled : x.phase.settled = true → x'.phase.settled = true) :
    Leaves w i x x' (w.set i x') :=
  ⟨rfl, hchanged, hsettled, .inr (unchanged_of_eq rfl rfl)⟩

/-- The action's change is committed by this step. -/
theorem Leaves.commit {x' : Action} (hactions : w'.actions = w.actions.set i x') (hchanged : x'.changed = x.changed)
    (hsettled : x'.phase.settled = true) : Leaves w i x x' w' :=
  ⟨hactions, hchanged, fun _ => hsettled, .inl hsettled⟩

theorem leaves_change (hphase : x.phase = .changing) (hs : changeStep w i x = some w') : ∃ x', Leaves w i x x' w' := by
  have hrefused : ∀ {error}, ∃ x', Leaves w i x x' (w.refused i x error) :=
    ⟨_, .set rfl fun hset => by simp [hphase, Phase.settled] at hset⟩
  unfold changeStep at hs
  split at hs
  next =>
    cases hs
    split
    · exact hrefused
    split
    · exact hrefused
    · exact ⟨_, .commit rfl rfl rfl⟩
  next =>
    cases hs
    split
    · exact hrefused
    split
    · exact ⟨_, .commit rfl rfl rfl⟩
    · exact hrefused
  · cases hs
  · cases hs
  · cases hs

theorem leaves_lockSeats (hphase : x.phase = .changing) (hs : lockSeatsStep w i x = some w') : ∃ x', Leaves w i x x' w' := by
  have hnot : ∀ {p : Prop}, x.phase.settled = true → p := fun hset => by simp [hphase, Phase.settled] at hset
  have hrefused : ∀ {error}, ∃ x', Leaves w i x x' (w.refused i x error) := ⟨_, .set rfl hnot⟩
  unfold lockSeatsStep at hs
  split at hs
  next =>
    obtain ⟨op, -, rfl⟩ := Option.map_eq_some_iff.mp hs
    split
    · split
      · exact hrefused
      split
      · exact hrefused
      split
      · exact hrefused
      split
      · exact ⟨_, .commit rfl rfl rfl⟩
      · exact ⟨{ x with phase := .seating }, rfl, rfl, hnot, .inr (unchanged_of_eq rfl rfl)⟩
    · exact ⟨{ x with phase := .seating }, rfl, rfl, hnot, .inr (unchanged_of_eq rfl rfl)⟩
  · cases hs

/-- A refusal under the seats lock commits the sweep: what is gone had expired. -/
theorem unchanged_seen {tx : Seats.Tx} {own : Option Nat} (h : Swept w.ledger) (htx : w.ledger.tx = some tx) (hboxes : w'.boxes = w.boxes)
    (hrows : w'.ledger.rows = w.ledger.seen tx) : unchanged own w w' = true := by
  refine unchanged_of hboxes (fun id r hr => ?_) fun id r hr => .inr (lookup_of_without (hrows ▸ hr)).2
  by_cases hid : id ∈ tx.gone
  · obtain ⟨hp, hexp⟩ := h tx id r htx hid hr
    exact .inl (passing_iff.mpr ⟨hp, .inl hexp⟩)
  · exact .inr (by rw [hrows, Seats.Ledger.seen, Seats.lookup_without, if_neg hid, hr])

/-- A reservation adds its own row to what the sweep left. -/
theorem unchanged_reserved {tx : Seats.Tx} {row : Seats.Row} (h : Inv w) (htx : w.ledger.tx = some tx)
    (hpending : row.pending = true) (hboxes : w'.boxes = w.boxes) (hrows : w'.ledger.rows = (w.ledger.seen tx).insert w.ledger.nextId row) :
    unchanged (some w.ledger.nextId) w w' = true := by
  refine unchanged_of hboxes (fun id r hr => ?_) fun id r hr => ?_
  · by_cases hid : id ∈ tx.gone
    · obtain ⟨hp, hexp⟩ := h.swept tx id r htx hid hr
      exact .inl (passing_iff.mpr ⟨hp, .inl hexp⟩)
    · refine .inr ?_
      rw [hrows, AList.lookup_insert_ne (h.ledger.ids hr).ne, Seats.Ledger.seen, Seats.lookup_without, if_neg hid, hr]
  · rw [hrows, Table.lookup_insert'] at hr
    split at hr
    next heq =>
      cases hr
      exact .inl (passing_iff.mpr ⟨hpending, .inr (by rw [heq])⟩)
    next => exact .inr (lookup_of_without hr).2

theorem leaves_seat {l : Seats.Label} (h : Inv w) (hi : w.actions[i]? = some x) (hphase : x.phase = .seating)
    (hs : seatStep w i x l = some w') : ∃ x', Leaves w i x x' w' := by
  obtain ⟨tx, htx, hop⟩ := (h.ready x (List.mem_of_getElem? hi)).holder hphase
  obtain ⟨ledger, hbind, hs⟩ := Option.bind_eq_some_iff.mp hs
  obtain ⟨tx', htx', hstep⟩ := Option.bind_eq_some_iff.mp hbind
  cases htx.symm.trans htx'
  have hstep := Seats.stepTx_cases hstep
  have hnot : ∀ {p : Prop}, x.phase.settled = true → p := fun hset => by simp [hphase, Phase.settled] at hset
  have hself := (set_self hi).symm
  have hstays : ∀ {ledger' : Seats.Ledger}, ledger'.rows = w.ledger.rows → ∃ x', Leaves w i x x' { w with ledger := ledger' } :=
    fun hrows => ⟨x, hself, rfl, id, .inr (unchanged_of_eq rfl hrows)⟩
  cases hstep with
  | own =>
    cases hs
    exact hstays rfl
  | noOwn =>
    cases hs
    exact hstays rfl
  | sweep =>
    cases hs
    exact hstays rfl
  | number =>
    cases hs
    exact hstays rfl
  | count =>
    cases hs
    exact hstays rfl
  | unknown =>
    cases hs
    exact ⟨{ x with phase := .over (.refused .seatsUnknown) }, rfl, rfl, hnot, .inr (unchanged_of_eq rfl rfl)⟩
  | full =>
    cases hs
    exact ⟨{ x with phase := .over (.refused .noFreeSeats) }, rfl, rfl, hnot, .inr (unchanged_seen h.swept htx rfl rfl)⟩
  | reclaim hown =>
    cases hs
    split
    next boxes phase hseated =>
      -- only a mailbox's own seat is taken back
      refine ⟨_, .commit rfl rfl ?_⟩
      obtain ⟨a, email, purchased, r, hop', -⟩ := (h.ledger.tx htx).own hown
      unfold seated at hseated
      split at hseated
      next hkind =>
        rw [hkind] at hop
        cases (Option.some.inj hop).trans hop'
      next =>
        cases hseated
        rfl
      next =>
        split at hseated
        · cases hseated
          rfl
        · cases hseated
      · cases hseated
      · cases hseated
    next => exact ⟨{ x with phase := .over .threw }, rfl, rfl, hnot, .inr (unchanged_of_eq rfl rfl)⟩
  | insert hnumber hrow =>
    cases hs
    split
    next boxes phase hseated =>
      unfold seated at hseated
      split at hseated
      next hkind =>
        cases hseated
        rw [hkind] at hop
        rw [← Option.some.inj hop] at hrow
        cases hrow
        exact ⟨{ x with phase := .provisioning, reserved := some w.ledger.nextId }, rfl, rfl, hnot,
          .inr (unchanged_reserved h htx rfl rfl rfl)⟩
      next =>
        cases hseated
        exact ⟨_, .commit rfl rfl rfl⟩
      next =>
        split at hseated
        · cases hseated
          exact ⟨_, .commit rfl rfl rfl⟩
        · cases hseated
      · cases hseated
      · cases hseated
    next => exact ⟨{ x with phase := .over .threw }, rfl, rfl, hnot, .inr (unchanged_of_eq rfl rfl)⟩
  | redate => cases hs
  | abort => cases hs

theorem leaves_fail (hs : failStep w i x = some w') : ∃ x', Leaves w i x x' w' := by
  unfold failStep at hs
  split at hs
  next hphase =>
    cases hs
    exact ⟨_, .set rfl fun hset => by simp [hphase, Phase.settled] at hset⟩
  next hphase =>
    cases hs
    exact ⟨_, .set rfl fun hset => by simp [hphase, Phase.settled] at hset⟩
  next hphase =>
    cases hs
    exact ⟨_, .set rfl fun hset => by simp [hphase, Phase.settled] at hset⟩
  next hphase =>
    cases hs
    exact ⟨_, .set rfl fun hset => by simp [hphase, Phase.settled] at hset⟩
  next hphase =>
    cases hs
    exact ⟨{ x with phase := .over .threw }, rfl, rfl, fun hset => by simp [hphase, Phase.settled] at hset,
      .inr (unchanged_of_eq rfl rfl)⟩
  next hphase =>
    cases hs
    exact ⟨_, .set rfl fun hset => by simp [hphase, Phase.settled] at hset⟩
  all_goals cases hs

theorem leaves_insert {id accountId : Nat} (hphase : x.phase = .inserting) (hs : insertStep w i x id accountId = some w') :
    ∃ x', Leaves w i x x' w' := by
  unfold insertStep at hs
  split at hs
  · cases hs
  split at hs
  · cases hs
    exact ⟨_, .commit rfl rfl rfl⟩
  · cases hs
    exact ⟨_, .set rfl fun hset => by simp [hphase, Phase.settled] at hset⟩

theorem leaves_giveBack {id : Nat} {outcome : Outcome} {ok : Bool} (hphase : x.phase = .undoing outcome) (hreserved : x.reserved = some id)
    (hs : giveBackStep w i x id outcome ok = some w') : ∃ x', Leaves w i x x' w' := by
  have hnot : ∀ {p : Prop}, x.phase.settled = true → p := fun hset => by simp [hphase, Phase.settled] at hset
  cases ok with
  | true =>
    simp only [giveBackStep] at hs
    split at hs
    · cases hs
    cases hs
    refine ⟨{ x with phase := .over outcome }, rfl, rfl, hnot, .inr (unchanged_of rfl (fun id' r hr => ?_)
      fun id' r hr => .inr (Seats.dropPendingSeat_cases hr))⟩
    by_cases hp : id' = id ∧ r.pending = true
    · exact .inl (passing_iff.mpr ⟨hp.2, .inr (by rw [hreserved, hp.1])⟩)
    · refine .inr ?_
      simp only [Seats.dropPendingSeat, Table.lookup_delete, hr]
      simpa [Option.filter] using fun hid => by simpa using fun hpend => hp ⟨hid, hpend⟩
  | false =>
    cases hs
    exact ⟨_, .set rfl hnot⟩

theorem leaves_action (h : Inv w) (hi : w.actions[i]? = some x) (hs : actionStep w i x l = some w') :
    ∃ x', Leaves w i x x' w' := by
  have hset : ∀ {x' : Action}, x.phase.settled = false → x'.changed = x.changed → ∃ x', Leaves w i x x' (w.set i x') :=
    fun hphase hchanged => ⟨_, .set hchanged fun hsettled => by simp [hphase] at hsettled⟩
  unfold actionStep at hs
  split at hs
  next hphase =>
    cases hs
    exact ⟨_, .set rfl fun hset => by simp [hphase, Phase.settled] at hset⟩
  next hphase =>
    split at hs
    · split at hs
      · cases hs
        exact ⟨_, .set rfl fun hset => by simp [hphase, Phase.settled] at hset⟩
      · split at hs
        · cases hs
        · cases hs
          exact ⟨_, .set rfl fun hset => by simp [hphase, Phase.settled] at hset⟩
    · cases hs
  next hphase =>
    cases hs
    split
    · exact ⟨_, .set rfl fun hset => by simp [hphase, Phase.settled] at hset⟩
    · exact ⟨_, .set rfl fun hset => by simp [hphase, Phase.settled] at hset⟩
  next hphase =>
    cases hs
    exact ⟨_, .set rfl fun hset => by simp [hphase, Phase.settled] at hset⟩
  next hphase =>
    cases hs
    exact ⟨_, .set rfl fun hset => by simp [hphase, Phase.settled] at hset⟩
  next hphase => exact leaves_change hphase hs
  next hphase => exact leaves_lockSeats hphase hs
  next hphase => exact leaves_seat h hi hphase hs
  next => exact leaves_fail hs
  next hphase =>
    cases hs
    exact ⟨_, .set rfl fun hset => by simp [hphase, Phase.settled] at hset⟩
  next hphase =>
    cases hs
    exact ⟨_, .set rfl fun hset => by simp [hphase, Phase.settled] at hset⟩
  next hphase =>
    obtain ⟨id, -, hs⟩ := Option.bind_eq_some_iff.mp hs
    exact leaves_insert hphase hs
  next hphase =>
    obtain ⟨id, hreserved, hs⟩ := Option.bind_eq_some_iff.mp hs
    exact leaves_giveBack hphase hreserved hs
  next =>
    cases hs
    exact ⟨_, .set rfl fun _ => rfl⟩
  next =>
    split at hs
    · cases hs
      exact ⟨_, .set rfl fun _ => rfl⟩
    · cases hs
  next => cases hs

/-- What is not an action's step changes no action. -/
theorem move_other (hl : l.action? = none) (hs : move w l = some w') :
    w'.actions = w.actions ∨ ∃ kind, w'.actions = w.actions ++ [{ kind := kind }] := by
  have hjob : ∀ {box f}, jobStep w box f = some w' → w'.actions = w.actions := by
    intro box f hs
    unfold jobStep at hs
    split at hs
    · cases hs
    · obtain ⟨row, -, hs⟩ := Option.bind_eq_some_iff.mp hs
      obtain ⟨row', -, rfl⟩ := Option.map_eq_some_iff.mp hs
      rfl
  cases l with
  | tick time =>
    simp only [move] at hs
    split at hs
    · cases hs
      exact .inl rfl
    · cases hs
  | start kind =>
    cases hs
    exact .inr ⟨kind, rfl⟩
  | jobClaim box => exact .inl (hjob hs)
  | jobFail box startedAt attempts code => exact .inl (hjob hs)
  | jobRemove box startedAt =>
    simp only [move] at hs
    split at hs
    · cases hs
      exact .inl rfl
    · cases hs
  | jobKeep box => exact .inl (hjob hs)
  | _ => cases hl

theorem move_action (hl : l.action? = some i) (hs : move w l = some w') :
    ∃ x, w.actions[i]? = some x ∧ actionStep w i x l = some w' := by
  cases l <;> cases hl <;> exact Option.bind_eq_some_iff.mp hs

theorem Kept.step (h : Kept w) (hinv : Inv w) (hs : MailboxActions.step w l = some w') : Kept w' := by
  obtain ⟨w₁, hmove, rfl⟩ := Option.map_eq_some_iff.mp hs
  intro y hy hchanged
  cases hl : l.action? with
  | none =>
    simp only [mark, hl, Option.elim_none] at hy
    rcases move_other hl hmove with hactions | ⟨kind, hactions⟩
    · exact h y (hactions ▸ hy) hchanged
    · rw [hactions] at hy
      rcases List.mem_append.mp hy with hy | hy
      · exact h y hy hchanged
      · cases List.mem_singleton.mp hy
        cases hchanged
  | some i =>
    obtain ⟨x, hi, hact⟩ := move_action hl hmove
    obtain ⟨x', hleaves⟩ := leaves_action hinv hi hact
    obtain ⟨j, hj⟩ := List.mem_iff_getElem?.mp hy
    simp only [mark, hl, Option.elim_some, List.getElem?_modify, Option.map_eq_map, Option.map_eq_some_iff, hleaves.actions] at hj
    obtain ⟨y₀, hy₀, rfl⟩ := hj
    obtain ⟨rfl, rfl⟩ | ⟨hne, hy₀⟩ := (Agents.getElem?_set_some hi).mp hy₀
    · simp only [↓reduceIte, Bool.or_eq_true, Bool.not_eq_true', hleaves.changed] at hchanged ⊢
      rcases hchanged with hold | hnew
      · exact hleaves.settled (h x (List.mem_of_getElem? hi) hold)
      · rcases hleaves.kept with hsettled | hkept
        · exact hsettled
        · rw [hkept] at hnew
          cases hnew
    · rw [if_neg hne] at hchanged ⊢
      exact h y₀ (List.mem_of_getElem? hy₀) hchanged

theorem Kept.invariant : system.Invariant TransitionSystem.anyStep fun w => Inv w ∧ Kept w :=
  Inv.invariant.strengthen (fun w hw x hx => by simp [hw.2.1] at hx) fun _ _ _ hinv h _ hs => h.step hinv hs

/-- The answers of an action whose transaction did not commit a change. -/
def Outcome.rolledBack : Outcome → Bool
  | .refused _ | .threw => true
  | .done | .threwLate => false

structure Sound (w : World) : Prop where
  /-- a mailbox that works has exactly one live seat, a confirmed one -/
  working : ∀ box row, w.boxes.lookup box = some row → isWorking row = true →
    ∃! id, ∃ r, w.ledger.rows.lookup id = some r ∧ r.liveOf box = true ∧ r.pending = false
  /-- any other has none -/
  closed : ∀ box row, w.boxes.lookup box = some row → isWorking row = false →
    ∀ id r, w.ledger.rows.lookup id = some r → r.liveOf box = false
  /-- no two rows share a live seat -/
  apart : ∀ id id' r r', w.ledger.rows.lookup id = some r → w.ledger.rows.lookup id' = some r' → r.live = true → r'.live = true →
    r.seat_no = r'.seat_no → id = id'
  /-- what was refused or rolled back changed nothing -/
  kept : ∀ x ∈ w.actions, ∀ outcome, x.phase = .over outcome → outcome.rolledBack = true → x.changed = false

theorem Inv.sound (h : Inv w) (hkept : Kept w) : Sound w where
  working box row hrow hworks := by
    obtain ⟨id, r, hr, hl⟩ := (h.boxes box row hrow).seated.mpr hworks
    refine ⟨id, ⟨r, hr, hl, not_pending_of_liveOf h.ledger.sane hr hl⟩, ?_⟩
    rintro id' ⟨r', hr', hl', -⟩
    exact h.ledger.sane.mailbox hr' hr hl' hl
  closed box row hrow hclosed :=
    alone_iff.mpr fun hseated => by simp [(h.boxes box row hrow).seated.mp hseated] at hclosed
  apart id id' r r' hr hr' hl hl' hseat :=
    Seats.isLatest_unique hr hr' (h.ledger.sane.latest id r hr hl) (h.ledger.sane.latest id' r' hr' hl') hseat
  kept x hx outcome hphase hrolled := by
    by_contra hchanged
    have := hkept x hx (by simpa using hchanged)
    rw [hphase] at this
    cases outcome <;> simp [Phase.settled, Outcome.rolledBack] at this hrolled

/-- In every state that the actions and the job lead to, a mailbox has a seat exactly while it works. -/
theorem seated_while_working (h : system.Reachable w) : Sound w := by
  obtain ⟨hinv, hkept⟩ := Kept.invariant.reachable h
  exact hinv.sound hkept

def noMailboxes : World := { ledger := Seats.emptyLedger, boxes := ∅, actions := [] }

theorem noMailboxes_init : system.init noMailboxes := by
  refine ⟨Seats.emptyLedger_init, rfl, fun box row hrow => ?_⟩
  have hrow : (∅ : Table Nat Mailbox).lookup box = some row := hrow
  simp at hrow

/-- Mailbox 7 is created by action 0, with the one seat there is. -/
def creating : List Label :=
  [.start (.create "a@example.com" (some 1)), .lock 0 0, .lockSeats 0, .seat 0 .sweep, .seat 0 .count, .seat 0 .number, .seat 0 .insert,
    .provision 0 true, .insertRow 0 7, .answer 0 true]

/-- A mailbox is made, a second one refused for want of a seat, and the first one deactivated. -/
theorem seated_while_working_deactivated : ∃ w : World, Sound w ∧
    (w.boxes.lookup 7).any (fun row => !isWorking row) = true ∧ (w.ledger.rows.lookup 1).any (·.live) = false ∧
    w.actions.map (·.phase) = [.over .done, .over (.refused .noFreeSeats), .over .done] := by
  have htrace : ((system.exec TransitionSystem.anyStep noMailboxes (creating ++
      [.start (.create "b@example.com" (some 1)), .lock 1 0, .lockSeats 1, .seat 1 .sweep, .seat 1 .count,
        .start (.deactivate 7 90), .lock 2 0, .read 2 .same, .ask 2 true, .change 2, .answer 2 true])).any fun w =>
      (w.boxes.lookup 7).any (fun row => !isWorking row) && !(w.ledger.rows.lookup 1).any (·.live) &&
        decide (w.actions.map (·.phase) = [.over .done, .over (.refused .noFreeSeats), .over .done])) = true := by decide
  obtain ⟨w, hw, hp⟩ := TransitionSystem.reaches_of_exec noMailboxes_init htrace
  rw [Bool.and_eq_true, Bool.and_eq_true, Bool.not_eq_true', decide_eq_true_eq] at hp
  exact ⟨w, seated_while_working hw, hp.1.1, hp.1.2, hp.2⟩

/-- The deactivation commits, the row cannot be read back, and the action throws. -/
theorem deactivation_threw_late : ¬ ∀ w : World, system.Reachable w →
    ∀ x ∈ w.actions, x.phase = .over .threw ∨ x.phase = .over .threwLate → x.changed = false := by
  have htrace : ((system.exec TransitionSystem.anyStep noMailboxes (creating ++
      [.start (.deactivate 7 90), .lock 1 0, .read 1 .same, .ask 1 true, .change 1, .answer 1 false])).any fun w =>
      w.actions.any fun x => decide (x.phase = .over .threwLate) && x.changed) = true := by decide +kernel
  intro h
  obtain ⟨w, hw, hp⟩ := TransitionSystem.reaches_of_exec noMailboxes_init htrace
  obtain ⟨x, hx, hp⟩ := List.any_eq_true.mp hp
  rw [Bool.and_eq_true, decide_eq_true_eq] at hp
  have := h w hw x hx (.inr hp.1)
  rw [hp.2] at this
  cases this

end MailExpert.MailboxActions
