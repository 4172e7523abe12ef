import MailExpert.MailNode.Outages

/-!
# The detected windows of an outage history

Windows are found one after another: a later one starts no earlier than the end of each earlier one
(`Windows`). A failed check lies in a window from then on, unless it is a first unanswered call that
no failed check follows.
-/

namespace MailExpert.Outages

/-- The window holds the time, up to now when it is open. -/
def Outage.Covers (row : Outage) (t : Int) : Prop :=
  row.source = .detected ∧ row.started_at ≤ t ∧ ∀ ended ∈ row.ended_at, t ≤ ended

def Covered (outages : OutageTable) (t : Int) : Prop :=
  ∃ id row, outages.lookup id = some row ∧ row.Covers t

def OpenAt (outages : OutageTable) (t : Int) : Prop :=
  ∃ id row, outages.lookup id = some row ∧ row.source = .detected ∧ row.ended_at = none ∧
    row.started_at ≤ t

/-- A window, after a last check no later than `check` and a last event no later than `clock`. -/
def Outage.Timed (check clock : Int) (row : Outage) : Prop :=
  ∃ failed, row.last_failed_at = some failed ∧ row.started_at ≤ failed ∧ failed ≤ check ∧
    ∀ ended ∈ row.ended_at, failed ≤ ended ∧ ended ≤ clock

/-- The earlier of two windows has ended when the later one starts. One that may open again has ended
before the later one's last failed check. -/
def Outage.Before (row later : Outage) : Prop :=
  ∃ ended, row.ended_at = some ended ∧ ended ≤ later.started_at ∧
    (row.closed_by = none → later.last_failed_at.any (ended < ·) = true)

/-- The detected windows in the order in which they were found. -/
structure Windows (outages : OutageTable) (nextId : Nat) (check clock : Int) : Prop where
  fresh {id : Nat} {row : Outage} : outages.lookup id = some row → id < nextId
  timed {id : Nat} {row : Outage} : outages.lookup id = some row → row.source = .detected → row.Timed check clock
  apart {id id' : Nat} {row later : Outage} : outages.lookup id = some row →
    outages.lookup id' = some later → row.source = .detected → later.source = .detected → id < id' →
    row.Before later

/-- No window was found after this one. -/
def Latest (outages : OutageTable) (id : Nat) : Prop :=
  ∀ id' row, outages.lookup id' = some row → id < id' → row.source ≠ .detected

variable {outages : OutageTable} {nextId id id' : Nat} {check clock check' clock' t now : Int}
  {row row' : Outage} {previous : Option (Nat × Outage)}

theorem isOpen_iff : row.isOpen = true ↔ row.source = .detected ∧ row.ended_at = none := by
  simp [Outage.isOpen]

theorem isClosed_iff : row.isClosed = true ↔
    row.source = .detected ∧ ∃ ended, row.ended_at = some ended := by
  simp [Outage.isClosed, Option.isSome_iff_exists]

theorem openDetected_some (h : openDetected outages = some (id, row)) :
    outages.lookup id = some row ∧ row.source = .detected ∧ row.ended_at = none := by
  obtain ⟨hrow, hopen⟩ := Table.find?_some h
  exact ⟨hrow, isOpen_iff.mp hopen⟩

/-- Where no window is open each one has ended. -/
theorem openDetected_none (h : openDetected outages = none) (hrow : outages.lookup id = some row)
    (hdetected : row.source = .detected) : ∃ ended, row.ended_at = some ended := by
  have hclosed := Table.find?_none h hrow
  apply Option.ne_none_iff_exists'.mp
  intro hnone
  rw [isOpen_iff.mpr ⟨hdetected, hnone⟩] at hclosed
  cases hclosed

theorem lastClosedDetected_some (h : lastClosedDetected outages (some (id, row)) = true) :
    outages.lookup id = some row ∧ row.source = .detected ∧ ∃ ended, row.ended_at = some ended ∧
      ∀ id' row' ended', outages.lookup id' = some row' → row'.source = .detected →
        row'.ended_at = some ended' → ended' ≤ ended := by
  simp only [lastClosedDetected, Bool.and_eq_true, decide_eq_true_eq] at h
  obtain ⟨⟨hrow, hclosed⟩, hlast⟩ := h
  obtain ⟨hdetected, ended, hended⟩ := isClosed_iff.mp hclosed
  refine ⟨hrow, hdetected, ended, hended, fun id' row' ended' hrow' hdetected' hended' => ?_⟩
  have hmem : (id', row') ∈ outages.select fun _ row => row.isClosed :=
    Table.mem_select.mpr ⟨hrow', isClosed_iff.mpr ⟨hdetected', ended', hended'⟩⟩
  simpa [hended, hended'] using List.all_eq_true.mp hlast _ hmem

theorem lastClosedDetected_none (h : lastClosedDetected outages none = true)
    (hrow : outages.lookup id = some row) (hdetected : row.source = .detected) :
    row.ended_at = none := by
  by_contra hsome
  obtain ⟨ended, hended⟩ := Option.ne_none_iff_exists'.mp hsome
  have hmem : (id, row) ∈ outages.select fun _ row => row.isClosed :=
    Table.mem_select.mpr ⟨hrow, isClosed_iff.mpr ⟨hdetected, ended, hended⟩⟩
  rw [lastClosedDetected, List.isEmpty_iff] at h
  rw [h] at hmem
  simp at hmem

/-! ## Writes to the table -/

theorem Outage.Timed.mono (h : row.Timed check clock) (hcheck : check ≤ check')
    (hclock : clock ≤ clock') : row.Timed check' clock' := by
  obtain ⟨failed, hfailed, hstart, hle, hended⟩ := h
  refine ⟨failed, hfailed, hstart, hle.trans hcheck, fun ended hmem => ?_⟩
  obtain ⟨hafter, hbefore⟩ := hended ended hmem
  exact ⟨hafter, hbefore.trans hclock⟩

theorem Windows.mono (h : Windows outages nextId check clock) (hcheck : check ≤ check')
    (hclock : clock ≤ clock') : Windows outages nextId check' clock' where
  fresh := h.fresh
  timed hrow hdetected := (h.timed hrow hdetected).mono hcheck hclock
  apart := h.apart

theorem Windows.latest_of_open (h : Windows outages nextId check clock)
    (hrow : outages.lookup id = some row) (hdetected : row.source = .detected)
    (hopen : row.ended_at = none) : Latest outages id := by
  intro id' later hlater hlt hdetected'
  obtain ⟨ended, hended, -⟩ := h.apart hrow hlater hdetected hdetected' hlt
  rw [hopen] at hended
  cases hended

/-- The latest window is written: it keeps its start, and its last failed check does not go back. -/
theorem Windows.modify (h : Windows outages nextId check clock) (hcheck : check ≤ check')
    (hclock : clock ≤ clock') (hrow : outages.lookup id = some row)
    (hdetected : row.source = .detected) (hlatest : Latest outages id)
    (hsource : row'.source = .detected) (hstart : row'.started_at = row.started_at)
    (hfailed : ∀ failed ∈ row.last_failed_at, ∃ failed', row'.last_failed_at = some failed' ∧
      failed ≤ failed' ∧ failed' ≤ check' ∧ ∀ ended ∈ row'.ended_at, failed' ≤ ended ∧ ended ≤ clock') :
    Windows (outages.modify id fun _ => row') nextId check' clock' := by
  obtain ⟨failed, hold, hstarted, -⟩ := h.timed hrow hdetected
  obtain ⟨failed', hnew, hle, hbound, hended⟩ := hfailed failed hold
  have hmodified {k : Nat} {r : Outage}
      (hr : (Table.modify outages id fun _ => row').lookup k = some r) :
      k = id ∧ r = row' ∨ k ≠ id ∧ outages.lookup k = some r := by
    rw [Table.lookup_modify] at hr
    split at hr
    · next hk =>
      rw [hrow] at hr
      exact .inl ⟨hk, (Option.some.inj hr).symm⟩
    · next hk => exact .inr ⟨hk, hr⟩
  constructor
  · intro k r hr
    rcases hmodified hr with ⟨rfl, -⟩ | ⟨-, hr⟩
    · exact h.fresh hrow
    · exact h.fresh hr
  · intro k r hr hsource'
    rcases hmodified hr with ⟨-, rfl⟩ | ⟨-, hr⟩
    · exact ⟨failed', hnew, hstart ▸ hstarted.trans hle, hbound, hended⟩
    · exact (h.timed hr hsource').mono hcheck hclock
  · intro k k' r later hr hlater hr' hlater' hlt
    rcases hmodified hlater with ⟨rfl, rfl⟩ | ⟨-, hlater₀⟩
    · rcases hmodified hr with ⟨rfl, -⟩ | ⟨-, hr₀⟩
      · exact absurd hlt (lt_irrefl _)
      · obtain ⟨ended, hend, hbefore, hagain⟩ := h.apart hr₀ hrow hr' hdetected hlt
        refine ⟨ended, hend, hstart ▸ hbefore, fun hnone => ?_⟩
        have hlast := hagain hnone
        rw [hold, Option.any_some, decide_eq_true_eq] at hlast
        rw [hnew, Option.any_some, decide_eq_true_eq]
        omega
    · rcases hmodified hr with ⟨rfl, -⟩ | ⟨-, hr₀⟩
      · exact absurd hlater' (hlatest _ _ hlater₀ hlt)
      · exact h.apart hr₀ hlater₀ hr' hlater' hlt

theorem Windows.insert (h : Windows outages nextId check clock) (hcheck : check ≤ now)
    (hclock : clock ≤ now) (hfailed : row.last_failed_at = some now) (hopen : row.ended_at = none)
    (hstart : row.started_at ≤ now)
    (hbefore : ∀ id' row', outages.lookup id' = some row' → row'.source = .detected → row'.Before row) :
    Windows (outages.insert nextId row) (nextId + 1) now now := by
  have hinserted {k : Nat} {r : Outage} (hr : (outages.insert nextId row).lookup k = some r) :
      k = nextId ∧ r = row ∨ outages.lookup k = some r := by
    rw [Table.lookup_insert'] at hr
    split at hr
    · next hk => exact .inl ⟨hk, (Option.some.inj hr).symm⟩
    · exact .inr hr
  constructor
  · intro k r hr
    rcases hinserted hr with ⟨rfl, -⟩ | hr
    · exact Nat.lt_succ_self _
    · exact Nat.lt_succ_of_lt (h.fresh hr)
  · intro k r hr hsource
    rcases hinserted hr with ⟨-, rfl⟩ | hr
    · exact ⟨now, hfailed, hstart, le_refl _, fun ended hended => by simp [hopen] at hended⟩
    · exact (h.timed hr hsource).mono hcheck hclock
  · intro k k' r later hr hlater hr' hlater' hlt
    rcases hinserted hlater with ⟨rfl, rfl⟩ | hlater₀
    · rcases hinserted hr with ⟨rfl, -⟩ | hr₀
      · exact absurd hlt (lt_irrefl _)
      · exact hbefore k r hr₀ hr'
    · rcases hinserted hr with ⟨rfl, -⟩ | hr₀
      · exact absurd (h.fresh hlater₀) (by omega)
      · exact h.apart hr₀ hlater₀ hr' hlater' hlt

theorem Covered.modify (h : Covered outages t) (hrow : outages.lookup id = some row)
    (hsource : row'.source = .detected) (hstart : row'.started_at = row.started_at)
    (hended : ∀ ended ∈ row'.ended_at, t ≤ ended) : Covered (outages.modify id fun _ => row') t := by
  obtain ⟨k, r, hr, hcovers⟩ := h
  by_cases hk : k = id
  · subst hk
    rw [hrow] at hr
    cases hr
    refine ⟨k, row', ?_, hsource, hstart ▸ hcovers.2.1, hended⟩
    rw [Table.lookup_modify_self, hrow, Option.map_some]
  · exact ⟨k, r, (Table.lookup_modify_ne hk).trans hr, hcovers⟩

theorem Covered.insert (h : Covered outages t) (hfresh : outages.lookup nextId = none) :
    Covered (outages.insert nextId row) t := by
  obtain ⟨k, r, hr, hcovers⟩ := h
  refine ⟨k, r, ?_, hcovers⟩
  rw [Table.lookup_insert', if_neg]
  · exact hr
  · rintro rfl
    rw [hfresh] at hr
    cases hr

theorem OpenAt.covered (h : OpenAt outages t) : Covered outages t := by
  obtain ⟨id, row, hrow, hdetected, hopen, hstart⟩ := h
  exact ⟨id, row, hrow, hdetected, hstart, by simp [hopen]⟩

theorem OpenAt.of_modify (hrow : outages.lookup id = some row) (hsource : row'.source = .detected)
    (hopen : row'.ended_at = none) (hstart : row'.started_at ≤ t) :
    OpenAt (outages.modify id fun _ => row') t := by
  refine ⟨id, row', ?_, hsource, hopen, hstart⟩
  rw [Table.lookup_modify_self, hrow, Option.map_some]

/-! ## Opening a window -/

theorem windowStart_le {lastGood floor : Option Int} {firstFailed : Int}
    (h : ∀ good ∈ lastGood, good ≤ firstFailed) : windowStart lastGood firstFailed floor ≤ firstFailed := by
  have hstart : lastGood.getD firstFailed ≤ firstFailed := by
    cases lastGood with
    | none => exact le_refl _
    | some good => exact h good rfl
  cases floor with
  | none => exact hstart
  | some floor =>
    simp only [windowStart]
    split
    · exact min_le_right _ _
    · exact hstart

theorem le_windowStart {lastGood : Option Int} {firstFailed floor : Int} (h : floor ≤ firstFailed) :
    floor ≤ windowStart lastGood firstFailed (some floor) := by
  simp only [windowStart]
  split
  · exact le_min (le_refl _) h
  · omega

/-- The window that ended last may open again only as the latest. -/
theorem Windows.latest_of_previous (h : Windows outages nextId check clock)
    (hclosed : openDetected outages = none)
    (hprevious : lastClosedDetected outages (some (id, row)) = true) (hagain : row.closed_by = none) :
    Latest outages id := by
  obtain ⟨hrow, hdetected, ended, hended, hlast⟩ := lastClosedDetected_some hprevious
  intro id' later hlater hlt hdetected'
  obtain ⟨ended₀, hended₀, -, hbefore⟩ := h.apart hrow hlater hdetected hdetected' hlt
  obtain ⟨failed, hfailed, -, -, hafter⟩ := h.timed hlater hdetected'
  obtain ⟨ended', hended'⟩ := openDetected_none hclosed hlater hdetected'
  have hfirst := hbefore hagain
  rw [hfailed, Option.any_some, decide_eq_true_eq] at hfirst
  have hthen := (hafter ended' hended').1
  have hmax := hlast id' later ended' hlater hdetected' hended'
  cases hended.symm.trans hended₀
  omega

/-- A window that ended just now, and was not opened again, was not the job's to open again. -/
theorem Windows.ended_lt (h : Windows outages nextId (now - 1) now)
    (hprevious : lastClosedDetected outages previous = true)
    (hreopen : ∀ id row, previous = some (id, row) → row.closed_by = none →
      ∀ ended ∈ row.ended_at, ¬ now - ended < REOPEN_MS)
    (hrow : outages.lookup id = some row) (hdetected : row.source = .detected) {ended : Int}
    (hended : row.ended_at = some ended) (hagain : row.closed_by = none) : ended < now := by
  obtain ⟨failed, -, hstart, hfailed, hafter⟩ := h.timed hrow hdetected
  obtain ⟨hle, hnow⟩ := hafter ended hended
  refine lt_of_le_of_ne hnow ?_
  rintro rfl
  cases previous with
  | none =>
    rw [lastClosedDetected_none hprevious hrow hdetected] at hended
    cases hended
  | some answer =>
    obtain ⟨k, last⟩ := answer
    obtain ⟨hlast, hdetected', endedLast, hendedLast, hmax⟩ := lastClosedDetected_some hprevious
    obtain ⟨failedLast, hfailedLast, hstartLast, hleLast, hafterLast⟩ := h.timed hlast hdetected'
    obtain ⟨-, hnowLast⟩ := hafterLast endedLast hendedLast
    have hsame : endedLast = ended := le_antisymm hnowLast (hmax id row ended hrow hdetected hended)
    subst hsame
    rcases Nat.lt_trichotomy id k with hlt | rfl | hlt
    · obtain ⟨ended₀, hended₀, -, hbefore⟩ := h.apart hrow hlast hdetected hdetected' hlt
      cases hended.symm.trans hended₀
      have hfirst := hbefore hagain
      rw [hfailedLast, Option.any_some, decide_eq_true_eq] at hfirst
      omega
    · cases hrow.symm.trans hlast
      have hlate := hreopen id row rfl hagain endedLast hended
      rw [REOPEN_MS] at hlate
      omega
    · obtain ⟨ended₀, hended₀, hbefore, -⟩ := h.apart hlast hrow hdetected' hdetected hlt
      cases hendedLast.symm.trans hended₀
      omega

/-- A failed check opened a window, and each time that a window held is held. -/
structure Opened (outages outages' : OutageTable) (nextId' : Nat) (now : Int) : Prop where
  windows : Windows outages' nextId' now now
  live : OpenAt outages' now
  kept (time : Int) : time ≤ now → Covered outages time → Covered outages' time

theorem Windows.succ (h : Windows outages nextId check clock) :
    Windows outages (nextId + 1) check clock where
  fresh hrow := Nat.lt_succ_of_lt (h.fresh hrow)
  timed := h.timed
  apart := h.apart

theorem Windows.lookup_nextId (h : Windows outages nextId check clock) :
    outages.lookup nextId = none := by
  by_contra hsome
  obtain ⟨row, hrow⟩ := Option.ne_none_iff_exists'.mp hsome
  exact absurd (h.fresh hrow) (lt_irrefl _)

theorem Windows.reopen (h : Windows outages nextId (now - 1) now)
    (hclosed : openDetected outages = none)
    (hprevious : lastClosedDetected outages (some (id, row)) = true) (hagain : row.closed_by = none)
    (hsource : row'.source = row.source) (hstarted : row'.started_at = row.started_at)
    (hended : row'.ended_at = none) (hlast : row'.last_failed_at = some now) :
    Opened outages (outages.modify id fun _ => row') (nextId + 1) now := by
  obtain ⟨hrow, hdetected, -⟩ := lastClosedDetected_some hprevious
  obtain ⟨failed, hfailed, hstart, hle, -⟩ := h.timed hrow hdetected
  have hopen (t : Int) : ∀ ended ∈ row'.ended_at, t ≤ ended := by simp [hended]
  refine ⟨?_, ?_, ?_⟩
  · refine (h.modify (by omega) (le_refl _) hrow hdetected
      (h.latest_of_previous hclosed hprevious hagain) (hsource.trans hdetected) hstarted ?_).succ
    intro failed' hfailed'
    cases hfailed.symm.trans hfailed'
    exact ⟨now, hlast, by omega, le_refl _, by simp [hended]⟩
  · exact OpenAt.of_modify hrow (hsource.trans hdetected) hended (by omega)
  · intro t _ hcovered
    exact hcovered.modify hrow (hsource.trans hdetected) hstarted (hopen t)

theorem Windows.opens {firstFailed : Int} {lastGood : Option Int} {cause : Cause}
    (h : Windows outages nextId (now - 1) now) (hclosed : openDetected outages = none)
    (hprevious : lastClosedDetected outages previous = true)
    (hreopen : ∀ id row, previous = some (id, row) → row.closed_by = none →
      ∀ ended ∈ row.ended_at, ¬ now - ended < REOPEN_MS)
    (hfirst : firstFailed ≤ now) (hgood : ∀ good ∈ lastGood, good ≤ firstFailed)
    (hended : ∀ id row ended, outages.lookup id = some row → row.source = .detected →
      row.ended_at = some ended → ended ≤ firstFailed) :
    Opened outages (outages.insert nextId {
      started_at := windowStart lastGood firstFailed (floorOf previous)
      source := .detected, last_failed_at := some now, cause }) (nextId + 1) now := by
  have hstart : windowStart lastGood firstFailed (floorOf previous) ≤ now :=
    (windowStart_le hgood).trans hfirst
  refine ⟨h.insert (by omega) (le_refl _) rfl rfl hstart ?_, ?_, ?_⟩
  · intro k r hr hdetected
    obtain ⟨ended, hend⟩ := openDetected_none hclosed hr hdetected
    refine ⟨ended, hend, ?_, fun hagain => ?_⟩
    · cases previous with
      | none =>
        rw [lastClosedDetected_none hprevious hr hdetected] at hend
        cases hend
      | some answer =>
        obtain ⟨id, last⟩ := answer
        obtain ⟨hlast, hdetected', endedLast, hendedLast, hmax⟩ := lastClosedDetected_some hprevious
        rw [floorOf, Option.bind_some, hendedLast]
        exact (hmax k r ended hr hdetected hend).trans
          (le_windowStart (hended id last endedLast hlast hdetected' hendedLast))
    · exact decide_eq_true (h.ended_lt hprevious hreopen hr hdetected hend hagain)
  · exact ⟨nextId, _, AList.lookup_insert _, rfl, rfl, hstart⟩
  · intro t _ hcovered
    exact hcovered.insert h.lookup_nextId

def State.node (s : State) : NodeState := s.state.getD {}

/-- No check is later than the last one, and a pending failure is the last check itself, with no window
open since. -/
structure NodeState.Follows (state : NodeState) (outages : OutageTable) : Prop where
  good {good : Int} : state.lastGoodAt = some good → ∃ check, state.lastCheckAt = some check ∧ good ≤ check
  pending {time : Int} {signals : List String} : state.pendingFailure = some (time, signals) →
    state.lastCheckAt = some time ∧ ∀ id row, outages.lookup id = some row → row.source = .detected →
      ∃ ended, row.ended_at = some ended ∧ ended ≤ time

variable {state : NodeState} {c : Check}

/-- After `openWindow` the failed check and the pending one lie in a window. -/
theorem openWindow_spec (h : Windows outages nextId (now - 1) now)
    (hclosed : openDetected outages = none) (hprevious : lastClosedDetected outages previous = true)
    (hfollows : state.Follows outages) (hcheck : ∀ t ∈ state.lastCheckAt, t < now) :
    Opened outages (openWindow outages nextId c state now previous).1 (nextId + 1) now ∧
      ∀ failure ∈ state.pendingFailure,
        Covered (openWindow outages nextId c state now previous).1 failure.1 := by
  unfold openWindow
  dsimp only
  split
  · next id row hreopen =>
    obtain ⟨rfl, hagain⟩ := Option.filter_eq_some_iff.mp hreopen
    simp only [Bool.and_eq_true, Option.isNone_iff_eq_none] at hagain
    refine ⟨h.reopen hclosed hprevious hagain.1 rfl rfl rfl rfl, ?_⟩
    rintro ⟨time, signals⟩ hfailure
    obtain ⟨hrow, hdetected, -⟩ := lastClosedDetected_some hprevious
    obtain ⟨-, hbefore⟩ := hfollows.pending hfailure
    obtain ⟨ended, hended, hle⟩ := hbefore id row hrow hdetected
    obtain ⟨failed, -, hstart, -, hafter⟩ := h.timed hrow hdetected
    have hend := (hafter ended hended).1
    apply OpenAt.covered
    refine OpenAt.of_modify hrow hdetected ?_ ?_
    · rfl
    · show row.started_at ≤ time
      omega
  · next hreopen =>
    rw [hclosed]
    have hnot : ∀ id row, previous = some (id, row) → row.closed_by = none →
        ∀ ended ∈ row.ended_at, ¬ now - ended < REOPEN_MS := by
      rintro id row rfl hagain ended hended hlate
      rw [Option.filter_eq_none_iff] at hreopen
      apply hreopen (id, row) rfl
      rw [hagain, hended]
      simpa using hlate
    cases hpending : state.pendingFailure with
    | none =>
      refine ⟨h.opens hclosed hprevious hnot (le_refl _) ?_ ?_, by simp⟩
      · intro good hgood
        obtain ⟨check, hlast, hle⟩ := hfollows.good hgood
        exact hle.trans (hcheck check hlast).le
      · intro id row ended hrow hdetected hended
        obtain ⟨failed, -, -, -, hafter⟩ := h.timed hrow hdetected
        exact (hafter ended hended).2
    | some failure =>
      obtain ⟨time, signals⟩ := failure
      obtain ⟨hlast, hbefore⟩ := hfollows.pending hpending
      have htime : time < now := hcheck time hlast
      have hgood : ∀ good ∈ state.lastGoodAt, good ≤ time := by
        intro good hgood
        obtain ⟨check, hcheck', hle⟩ := hfollows.good hgood
        cases hlast.symm.trans hcheck'
        exact hle
      refine ⟨h.opens hclosed hprevious hnot htime.le hgood ?_, ?_⟩
      · intro id row ended hrow hdetected hended
        obtain ⟨ended', hended', hle⟩ := hbefore id row hrow hdetected
        cases hended.symm.trans hended'
        exact hle
      · rintro _ ⟨⟩
        exact ⟨nextId, _, AList.lookup_insert _, rfl, windowStart_le hgood,
          fun ended hended => by simp at hended⟩

end MailExpert.Outages
