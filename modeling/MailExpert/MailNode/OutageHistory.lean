import MailExpert.MailNode.OutageWindows

/-!
# The history of the mail node

What one event does to the windows (`check_spec`, `close_spec`), and what a history of events leaves:
windows that do not overlap and that hold every failed check but a lone unanswered call
(`partitions`).
-/

namespace MailExpert.Outages

variable {outages : OutageTable} {nextId id id' : Nat} {check clock now t : Int}
  {row row' : Outage} {previous : Option (Nat × Outage)} {state : NodeState} {c : Check}

structure Inv (s : State) : Prop where
  windows {check clock : Int} : (∀ t ∈ s.node.lastCheckAt, t ≤ check) → (∀ t ∈ s.clock, t ≤ clock) →
    Windows s.outages s.nextId check clock
  ordered {check : Int} : s.node.lastCheckAt = some check → ∃ clock, s.clock = some clock ∧ check ≤ clock
  follows : s.node.Follows s.outages

def AllEnded (outages : OutageTable) : Prop :=
  ∀ id row, outages.lookup id = some row → row.source = .detected → ∃ ended, row.ended_at = some ended

/-- What every event does. -/
structure After (s s' : State) (now : Int) : Prop where
  inv : Inv s'
  clock : s'.clock = some now
  past : ∀ t ∈ s.clock, t ≤ now
  kept (time : Int) : time ≤ now → Covered s.outages time → Covered s'.outages time

/-- The check is a first unanswered call, which waits for the next check. -/
structure Waits (s s' : State) (c : Check) (now : Int) : Prop where
  unreachable : "api_unreachable" ∈ c.signals
  down : c.down = []
  closed : AllEnded s.outages
  first : s.node.pendingFailure = none
  pending : s'.node.pendingFailure = some (now, c.signals)

structure Checked (s s' : State) (c : Check) (now : Int) : Prop extends After s s' now where
  good : c.result = .good → AllEnded s'.outages
  failed : c.result = .failed → OpenAt s'.outages now ∨ Waits s s' c now
  pending {time : Int} {signals : List String} : c.result = .failed →
    s.node.pendingFailure = some (time, signals) → Covered s'.outages time

variable {s s' : State} {userId : Option Nat} {reason : Option String}

theorem Inv.of_windows (h : Windows s.outages s.nextId now now) (hcheck : s.node.lastCheckAt = some now)
    (hclock : s.clock = some now) (hfollows : s.node.Follows s.outages) : Inv s := by
  refine ⟨fun hlast hnow => ?_, fun hlast => ?_, hfollows⟩
  · exact h.mono (hlast now hcheck) (hnow now hclock)
  · cases hcheck.symm.trans hlast
    exact ⟨now, hclock, le_refl _⟩

/-- A check that leaves no pending failure keeps the last good one or is the last good one. -/
theorem NodeState.Follows.next {state' : NodeState} {outages' : OutageTable}
    (h : state.Follows outages) (hcheck : ∀ t ∈ state.lastCheckAt, t < now)
    (hgood : state'.lastGoodAt = state.lastGoodAt ∨ state'.lastGoodAt = some now)
    (hpending : state'.pendingFailure = none) (hlast : state'.lastCheckAt = some now) :
    state'.Follows outages' := by
  constructor
  · intro good hsome
    refine ⟨now, hlast, ?_⟩
    rcases hgood with hgood | hgood
    · obtain ⟨check, hcheck', hle⟩ := h.good (hgood.symm.trans hsome)
      exact hle.trans (hcheck check hcheck').le
    · cases hgood.symm.trans hsome
      exact le_refl _
  · intro time signals hsome
    rw [hpending] at hsome
    cases hsome

theorem allEnded_of_openDetected (h : openDetected outages = none) : AllEnded outages :=
  fun _ _ hrow hdetected => openDetected_none h hrow hdetected

/-- Once the open window ends, none is open. -/
theorem Windows.allEnded_of_modify {ended : Int} (h : Windows outages nextId check clock)
    (hrow : outages.lookup id = some row) (hdetected : row.source = .detected)
    (hopen : row.ended_at = none) (hended : row'.ended_at = some ended) :
    AllEnded (outages.modify id fun _ => row') := by
  intro k r hr hsource
  rw [Table.lookup_modify] at hr
  split at hr
  · rw [hrow] at hr
    cases hr
    exact ⟨ended, hended⟩
  · next hk =>
    rcases Nat.lt_or_gt_of_ne hk with hlt | hlt
    · obtain ⟨ended', hended', -⟩ := h.apart hr hrow hsource hdetected hlt
      exact ⟨ended', hended'⟩
    · exact absurd hsource (h.latest_of_open hrow hdetected hopen k r hr hlt)

/-- The open window ends, no earlier than its last failed check. -/
theorem Windows.close {ended : Int} (h : Windows outages nextId check now)
    (hfailed : ∀ failed ∈ row.last_failed_at, failed ≤ ended) (hended : ended ≤ now) (hrow : outages.lookup id = some row)
    (hdetected : row.source = .detected) (hopen : row.ended_at = none)
    (hsource : row'.source = .detected) (hstart : row'.started_at = row.started_at)
    (hlast : row'.last_failed_at = row.last_failed_at) (hend : row'.ended_at = some ended) :
    Windows (outages.modify id fun _ => row') nextId check now := by
  obtain ⟨failed, hsome, -, hle, -⟩ := h.timed hrow hdetected
  refine h.modify (le_refl _) (le_refl _) hrow hdetected (h.latest_of_open hrow hdetected hopen)
    hsource hstart fun failed' hfailed' => ?_
  cases hsome.symm.trans hfailed'
  refine ⟨failed, hlast.trans hsome, le_refl _, hle, fun ended' hended' => ?_⟩
  cases hend.symm.trans hended'
  exact ⟨hfailed failed hsome, hended⟩

/-! ## A check -/

section Check

variable (h : Inv s) (hclock : ∀ t ∈ s.clock, t ≤ now) (hcheck : ∀ t ∈ s.node.lastCheckAt, t < now)
include h hclock hcheck

theorem Inv.windows_now : Windows s.outages s.nextId (now - 1) now :=
  h.windows (fun t ht => by have := hcheck t ht; omega) hclock

theorem check_good_open (hresult : c.result = .good) (hopen : openDetected s.outages = some (id, row)) :
    Checked s (recordCheck s c now previous).1 c now := by
  have hw := h.windows_now hclock hcheck
  obtain ⟨hrow, hdetected, hnone⟩ := openDetected_some hopen
  obtain ⟨failed, hsome, hstart, hfailed, -⟩ := hw.timed hrow hdetected
  have hend : some (max now row.started_at) = some now := by rw [max_eq_left (by omega)]
  have hended : Windows (s.outages.modify id fun _ => { row with
      ended_at := some (max now row.started_at) }) s.nextId (now - 1) now :=
    hw.close (by rintro _ hlast; cases hsome.symm.trans hlast; omega) (le_refl now) hrow hdetected hnone hdetected rfl rfl hend
  have hnot : c.result ≠ .failed := by simp [hresult]
  unfold recordCheck
  rw [hresult]
  dsimp only
  rw [hopen]
  refine ⟨⟨?_, rfl, hclock, ?_⟩, fun _ => ?_, fun hf => absurd hf hnot, fun hf => absurd hf hnot⟩
  · refine @Inv.of_windows now _ ?_ rfl rfl (h.follows.next hcheck (.inr rfl) rfl rfl)
    exact hended.mono (by omega) (le_refl _)
  · intro t ht hcovered
    refine hcovered.modify hrow hdetected rfl fun ended hended => ?_
    cases hend.symm.trans hended
    exact ht
  · exact hw.allEnded_of_modify hrow hdetected hnone rfl

theorem check_good_closed (hresult : c.result = .good) (hclosed : openDetected s.outages = none) :
    Checked s (recordCheck s c now previous).1 c now := by
  have hnot : c.result ≠ .failed := by simp [hresult]
  unfold recordCheck
  rw [hresult]
  dsimp only
  rw [hclosed]
  refine ⟨⟨?_, rfl, hclock, fun _ _ hcovered => hcovered⟩, fun _ => allEnded_of_openDetected hclosed,
    fun hf => absurd hf hnot, fun hf => absurd hf hnot⟩
  exact .of_windows ((h.windows_now hclock hcheck).mono (by omega) (le_refl _)) rfl rfl
    (h.follows.next hcheck (.inr rfl) rfl rfl)

/-- A check that the window already counts. -/
theorem check_failed_open (hresult : c.result = .failed)
    (hopen : openDetected s.outages = some (id, row)) :
    Checked s (recordCheck s c now previous).1 c now := by
  have hw := h.windows_now hclock hcheck
  obtain ⟨hrow, hdetected, hnone⟩ := openDetected_some hopen
  obtain ⟨failed, hfailed, hstart, hle, -⟩ := hw.timed hrow hdetected
  have hnot : c.result ≠ .good := by simp [hresult]
  unfold recordCheck
  rw [hresult]
  dsimp only
  rw [hopen]
  dsimp only
  rw [Table.modify_of_lookup hrow]
  refine ⟨⟨?_, rfl, hclock, ?_⟩, fun hg => absurd hg hnot, fun _ => .inl ?_, fun _ hpending => ?_⟩
  · refine @Inv.of_windows now _ ?_ rfl rfl (h.follows.next hcheck (.inl rfl) rfl rfl)
    refine hw.modify (by omega) (le_refl _) hrow hdetected (hw.latest_of_open hrow hdetected hnone)
      hdetected rfl fun failed' hfailed' => ?_
    cases hfailed.symm.trans hfailed'
    exact ⟨now, rfl, by omega, le_refl _, by simp [hnone]⟩
  · intro t _ hcovered
    exact hcovered.modify hrow hdetected rfl (by simp [hnone])
  · exact OpenAt.of_modify hrow hdetected hnone (hstart.trans (by omega))
  · obtain ⟨ended, hended, -⟩ := (h.follows.pending hpending).2 id row hrow hdetected
    rw [hnone] at hended
    cases hended

/-- A first unanswered call, or one that opens a window. -/
theorem check_failed_closed (hresult : c.result = .failed) (hclosed : openDetected s.outages = none)
    (hprevious : lastClosedDetected s.outages previous = true) :
    Checked s (recordCheck s c now previous).1 c now := by
  have hw := h.windows_now hclock hcheck
  have hnot : c.result ≠ .good := by simp [hresult]
  unfold recordCheck
  rw [hresult]
  dsimp only
  rw [hclosed]
  dsimp only
  split
  · next hwait =>
    obtain ⟨hunreachable, hdown, hfirst⟩ := hwait
    have hended := allEnded_of_openDetected hclosed
    refine ⟨⟨?_, rfl, hclock, fun _ _ hcovered => hcovered⟩, fun hg => absurd hg hnot,
      fun _ => .inr ⟨hunreachable, hdown, hended, hfirst, rfl⟩, fun _ hpending => ?_⟩
    · refine .of_windows (hw.mono (by omega) (le_refl _)) rfl rfl ⟨fun hgood => ?_, fun hpending => ?_⟩
      · obtain ⟨check, hlast, hle⟩ := h.follows.good hgood
        exact ⟨now, rfl, hle.trans (hcheck check hlast).le⟩
      · cases hpending
        refine ⟨rfl, fun id row hrow hdetected => ?_⟩
        obtain ⟨ended, hend⟩ := hended id row hrow hdetected
        obtain ⟨failed, -, -, -, hafter⟩ := hw.timed hrow hdetected
        exact ⟨ended, hend, (hafter ended hend).2⟩
    · cases hfirst.symm.trans hpending
  · obtain ⟨hopened, hcovered⟩ := openWindow_spec (c := c) hw hclosed hprevious h.follows hcheck
    refine ⟨⟨?_, rfl, hclock, hopened.kept⟩, fun hg => absurd hg hnot, fun _ => .inl hopened.live,
      fun _ hpending => hcovered _ hpending⟩
    exact .of_windows hopened.windows rfl rfl (h.follows.next hcheck (.inl rfl) rfl rfl)

theorem check_unknown (hresult : c.result = .unknown) :
    Checked s (recordCheck s c now previous).1 c now := by
  have hw := h.windows_now hclock hcheck
  unfold recordCheck
  rw [hresult]
  refine ⟨⟨?_, rfl, hclock, fun _ _ hcovered => hcovered⟩, fun hg => ?_, fun hf => ?_, fun hf => ?_⟩
  · exact .of_windows (hw.mono (by omega) (le_refl _)) rfl rfl
      (h.follows.next hcheck (.inl rfl) rfl rfl)
  · rw [hresult] at hg
    cases hg
  · rw [hresult] at hf
    cases hf
  · rw [hresult] at hf
    cases hf

theorem check_spec (hprevious : lastClosedDetected s.outages previous = true) :
    Checked s (recordCheck s c now previous).1 c now := by
  cases hresult : c.result with
  | good =>
    cases hopen : openDetected s.outages with
    | none => exact check_good_closed h hclock hcheck hresult hopen
    | some found => exact check_good_open h hclock hcheck hresult hopen
  | failed =>
    cases hopen : openDetected s.outages with
    | none => exact check_failed_closed h hclock hcheck hresult hopen hprevious
    | some found => exact check_failed_open h hclock hcheck hresult hopen
  | unknown => exact check_unknown h hclock hcheck hresult

end Check

/-- The end of a window that started by now is not refused. -/
theorem updateOutage_close (hrow : outages.lookup id = some row) (hopen : row.ended_at = none)
    (hstart : row.started_at ≤ now) :
    updateOutage outages id { endedAt := some now, reason } userId =
      .ok (outages.modify id fun _ => { row with
        ended_at := some now, reason := reason <|> row.reason, closed_by := userId }) := by
  rw [updateOutage, hrow]
  dsimp only
  rw [if_neg (by simpa using hstart), Table.modify_of_lookup hrow]
  simp [hopen]

theorem close_spec (h : Inv s) (hstep : step s (.close now userId reason) = some s') :
    After s s' now ∧ s'.node = s.node ∧
      ∃ id row, s.outages.lookup id = some row ∧ row.source = .detected ∧ row.ended_at = none := by
  simp only [step, Option.bind_eq_bind, Option.bind_eq_some_iff, Prod.exists] at hstep
  obtain ⟨id, row, hopen, hstep⟩ := hstep
  obtain ⟨hrow, hdetected, hnone⟩ := openDetected_some hopen
  split at hstep
  case isFalse => cases hstep
  next hclock =>
  have hnow : ∀ t ∈ s.clock, t ≤ now := by
    intro t ht
    rw [ht] at hclock
    simpa using hclock
  have hlast : ∀ t ∈ s.node.lastCheckAt, t ≤ now := by
    intro t ht
    obtain ⟨clock, hsome, hle⟩ := h.ordered ht
    exact hle.trans (hnow clock hsome)
  obtain ⟨failed, hsome, hstart, hfailed, -⟩ := (h.windows hlast hnow).timed hrow hdetected
  have hended {check : Int} (hcheck : ∀ t ∈ s.node.lastCheckAt, t ≤ check) :
      Windows (s.outages.modify id fun _ => { row with
        ended_at := some now, reason := reason <|> row.reason, closed_by := userId })
        s.nextId check now := by
    refine (h.windows hcheck hnow).close ?_ (le_refl now) hrow hdetected hnone hdetected rfl rfl rfl
    intro failed' hfailed'
    cases hsome.symm.trans hfailed'
    exact hfailed
  rw [updateOutage_close hrow hnone (hstart.trans hfailed)] at hstep
  cases hstep
  refine ⟨⟨⟨fun hcheck hclock' => ?_, fun hcheck => ⟨now, rfl, hlast _ hcheck⟩, ?_⟩, rfl, hnow, ?_⟩, rfl,
    id, row, hrow, hdetected, hnone⟩
  · exact (hended hcheck).mono (le_refl _) (hclock' now rfl)
  · refine ⟨h.follows.good, fun hpending => ?_⟩
    obtain ⟨ended, hended, -⟩ := (h.follows.pending hpending).2 id row hrow hdetected
    rw [hnone] at hended
    cases hended
  · intro t ht hcovered
    refine hcovered.modify hrow hdetected rfl fun ended hended => ?_
    cases hended
    exact ht

def Event.time : Event → Int
  | .check _ now _ => now
  | .close now _ _ => now

def Event.isFailed : Event → Bool
  | .check c _ _ => c.result = .failed
  | .close .. => false

theorem checked_of_step (h : Inv s) (hstep : step s (.check c now previous) = some s') :
    Checked s s' c now := by
  rw [step, Option.ite_none_right_eq_some] at hstep
  obtain ⟨⟨hclock, hcheck, hprevious⟩, hstep⟩ := hstep
  cases hstep
  refine check_spec h (fun t ht => ?_) (fun t ht => ?_) hprevious
  · exact of_decide_eq_true ((Option.all_eq_true _ _).mp hclock t ht)
  · cases hstate : s.state with
    | none =>
      rw [State.node, hstate] at ht
      cases ht
    | some state =>
      rw [State.node, hstate] at ht
      rw [hstate] at hcheck
      exact of_decide_eq_true ((Option.all_eq_true _ _).mp hcheck t ht)

theorem after_of_step {e : Event} (h : Inv s) (hstep : step s e = some s') : After s s' e.time := by
  cases e with
  | check c now previous => exact (checked_of_step h hstep).toAfter
  | close now userId reason => exact (close_spec h hstep).1

theorem Inv.of_init (h : system.init s) : Inv s := by
  obtain ⟨hmanual, hstate⟩ := h
  have hnode : s.node = {} := by rw [State.node, hstate, Option.getD_none]
  have hnot {id : Nat} {row : Outage} (hrow : s.outages.lookup id = some row) :
      row.source ≠ .detected := by simp [(hmanual id row hrow).2]
  refine ⟨fun _ _ => ⟨fun hrow => (hmanual _ _ hrow).1, fun hrow hdetected => ?_, fun hrow _ hdetected => ?_⟩,
    fun hcheck => ?_, ?_⟩
  · exact absurd hdetected (hnot hrow)
  · exact absurd hdetected (hnot hrow)
  · rw [hnode] at hcheck
    cases hcheck
  · rw [hnode]
    refine ⟨fun hgood => ?_, fun hpending => ?_⟩
    · cases hgood
    · cases hpending

/-- A history keeps the invariant and holds what was held by its start. -/
theorem history_spec {events : List Event} (h : Inv s)
    (he : system.exec TransitionSystem.anyStep s events = some s') :
    Inv s' ∧ ∀ t clock, s.clock = some clock → t ≤ clock → Covered s.outages t → Covered s'.outages t := by
  induction events generalizing s with
  | nil =>
    cases he
    exact ⟨h, fun _ _ _ _ hcovered => hcovered⟩
  | cons e events ih =>
    obtain ⟨s₁, hstep, hrest⟩ := TransitionSystem.exec_anyStep_cons he
    have hafter := after_of_step h hstep
    obtain ⟨hinv, hkept⟩ := ih hafter.inv hrest
    refine ⟨hinv, fun t clock hclock hle hcovered => ?_⟩
    have hpast : t ≤ e.time := hle.trans (hafter.past clock hclock)
    exact hkept t e.time hafter.clock hpast (hafter.kept t hpast hcovered)

/-- After a failed check a window is open, or the check waits. -/
theorem Checked.busy (h : Checked s s' c now) (hresult : c.result = .failed) :
    ¬ (AllEnded s'.outages ∧ s'.node.pendingFailure = none) := by
  rintro ⟨hended, hnone⟩
  rcases h.failed hresult with ⟨id, row, hrow, hdetected, hopen, -⟩ | hwaits
  · obtain ⟨ended, hend⟩ := hended id row hrow hdetected
    rw [hopen] at hend
    cases hend
  · rw [hwaits.pending] at hnone
    cases hnone

/-! ## The windows of a history -/

/-- A first unanswered API call that no failed check follows. -/
def LoneUnanswered (before : List Event) (c : Check) (after : List Event) : Prop :=
  "api_unreachable" ∈ c.signals ∧ c.down = [] ∧ (∀ e ∈ before.getLast?, e.isFailed = false) ∧
    ∀ e ∈ after.head?, e.isFailed = false

/-- The detected windows after the events. -/
structure Partitions (outages : OutageTable) (events : List Event) : Prop where
  one_open {id id' : Nat} {row row' : Outage} : outages.lookup id = some row →
    outages.lookup id' = some row' → row.isOpen → row'.isOpen → id = id'
  ends {id : Nat} {row : Outage} : outages.lookup id = some row → row.source = .detected →
    ∀ ended ∈ row.ended_at, row.started_at ≤ ended
  disjoint {id id' : Nat} {row row' : Outage} : outages.lookup id = some row →
    outages.lookup id' = some row' → row.source = .detected → row'.source = .detected → id < id' →
    ∃ ended, row.ended_at = some ended ∧ ended ≤ row'.started_at
  failed {before after : List Event} {c : Check} {now : Int} {previous : Option (Nat × Outage)} :
    events = before ++ .check c now previous :: after → c.result = .failed →
    Covered outages now ∨ LoneUnanswered before c after
  good {before : List Event} {c : Check} {now : Int} {previous : Option (Nat × Outage)} :
    events = before ++ [.check c now previous] → c.result = .good →
    ∀ id row, outages.lookup id = some row → row.isOpen = false

theorem Windows.one_open (h : Windows outages nextId check clock)
    (hrow : outages.lookup id = some row) (hrow' : outages.lookup id' = some row')
    (hopen : row.isOpen = true) (hopen' : row'.isOpen = true) : id = id' := by
  obtain ⟨hdetected, hnone⟩ := isOpen_iff.mp hopen
  obtain ⟨hdetected', hnone'⟩ := isOpen_iff.mp hopen'
  rcases Nat.lt_trichotomy id id' with hlt | heq | hlt
  · exact absurd hdetected' (h.latest_of_open hrow hdetected hnone _ _ hrow' hlt)
  · exact heq
  · exact absurd hdetected (h.latest_of_open hrow' hdetected' hnone' _ _ hrow hlt)

/-- The event before a call that waits is no failed check. -/
theorem not_failed_of_waits {before : List Event} {s₀ : State} (hinit : Inv s₀)
    (hbefore : system.exec TransitionSystem.anyStep s₀ before = some s) (hwaits : Waits s s' c now) :
    ∀ e ∈ before.getLast?, e.isFailed = false := by
  intro e hlast
  obtain ⟨start, rfl⟩ := List.getLast?_eq_some_iff.mp hlast
  obtain ⟨s₁, hstart, he⟩ := TransitionSystem.exec_anyStep_append hbefore
  obtain ⟨s₂, hstep, hdone⟩ := TransitionSystem.exec_anyStep_cons he
  cases hdone
  cases e with
  | close now userId reason => rfl
  | check c' now' previous =>
    have hchecked := checked_of_step (history_spec hinit hstart).1 hstep
    by_contra hfailed
    rw [Bool.not_eq_false, Event.isFailed, decide_eq_true_eq] at hfailed
    exact hchecked.busy hfailed ⟨hwaits.closed, hwaits.first⟩

/-- A failed check lies in a window, or nothing but its own silence ever spoke of it. -/
theorem failed_covered {before after : List Event} {s₀ : State} (hinit : Inv s₀)
    (he : system.exec TransitionSystem.anyStep s₀ (before ++ .check c now previous :: after) = some s')
    (hresult : c.result = .failed) : Covered s'.outages now ∨ LoneUnanswered before c after := by
  obtain ⟨s₁, hbefore, hrest⟩ := TransitionSystem.exec_anyStep_append he
  obtain ⟨s₂, hstep, hafter⟩ := TransitionSystem.exec_anyStep_cons hrest
  have hchecked := checked_of_step (history_spec hinit hbefore).1 hstep
  rcases hchecked.failed hresult with hopen | hwaits
  · exact .inl ((history_spec hchecked.inv hafter).2 now now hchecked.clock (le_refl _) hopen.covered)
  · cases after with
    | nil => exact .inr ⟨hwaits.unreachable, hwaits.down, not_failed_of_waits hinit hbefore hwaits, by simp⟩
    | cons e after =>
      cases hnext : e.isFailed with
      | false =>
        exact .inr ⟨hwaits.unreachable, hwaits.down, not_failed_of_waits hinit hbefore hwaits,
          by simpa using hnext⟩
      | true =>
        cases e with
        | close now userId reason => cases hnext
        | check c' now' previous' =>
          rw [Event.isFailed, decide_eq_true_eq] at hnext
          obtain ⟨s₃, hstep', hlater⟩ := TransitionSystem.exec_anyStep_cons hafter
          have hnow := checked_of_step hchecked.inv hstep'
          have hle : now ≤ now' := hnow.past now hchecked.clock
          exact .inl ((history_spec hnow.inv hlater).2 now now' hnow.clock hle
            (hnow.pending hnext hwaits.pending))

/-- Two unanswered calls open a window that is closed by hand, and a later one stands alone. -/
def closedByHand : List Event :=
  let call : Check := { result := .failed, signals := ["api_unreachable"], down := [] }
  let closed : Outage := {
    started_at := 10, ended_at := some 25, source := .detected, last_failed_at := some 20
    closed_by := some 7
    cause := { signals := ["api_unreachable"], firstFailedAt := some 10, startUncertain := some true } }
  [.check call 10 none, .check call 20 none, .close 25 (some 7) none, .check call 30 (some (0, closed)),
    .check { result := .good, signals := [], down := [] } 40 (some (0, closed))]

end MailExpert.Outages
