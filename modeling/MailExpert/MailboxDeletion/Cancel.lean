import MailExpert.Lib.Agents
import MailExpert.MailboxDeletion.Job

/-!
# A cancelled deletion leaves the mailbox whole

A run keeps its claim from the moment it may ask the node to delete until it has an answer, and a cancel is refused
while a claim exists. What breaks this is a failure recorded after the node deleted the mailbox: it releases the claim.
`cancelled_leaves_whole` is about the runs in which no failure does so (`KeepsClaim`), with node calls that end before
their claim counts as stale (`InTime`).
-/

namespace MailExpert.MailboxDeletion

def Event.isDecision : Event → Bool
  | .requested _ | .cancelled => true
  | .deleted _ | .removed _ => false

/-- The last request or cancel. -/
def lastDecision (log : List Event) : Option Event := log.find? Event.isDecision

/-- A cancel was accepted of a mailbox that the node still had, and what was deleted or removed was asked for then, its
date come. -/
structure Whole (log : List Event) : Prop where
  cancels : ∀ later earlier, log = later ++ .cancelled :: earlier → ∀ t, .deleted t ∉ earlier
  deletes : ∀ later e earlier t, log = later ++ e :: earlier → e = .deleted t ∨ e = .removed t →
    ∃ d ≤ t, lastDecision earlier = some (.requested d)

theorem Whole.cons {log : List Event} {e : Event} (h : Whole log) (hcancel : e = .cancelled → ∀ t, .deleted t ∉ log)
    (hdelete : ∀ t, e = .deleted t ∨ e = .removed t → ∃ d ≤ t, lastDecision log = some (.requested d)) :
    Whole (e :: log) where
  cancels later earlier heq := by
    cases later with
    | nil =>
      obtain ⟨rfl, rfl⟩ := List.cons.inj heq
      exact hcancel rfl
    | cons first later => exact h.cancels later earlier (List.cons.inj heq).2
  deletes later e' earlier t heq he := by
    cases later with
    | nil =>
      obtain ⟨rfl, rfl⟩ := List.cons.inj heq
      exact hdelete t he
    | cons first later => exact h.deletes later e' earlier t (List.cons.inj heq).2 he

/-- The claim under which the run may still act on the row or the node, or that it saw. -/
def Run.claim? (r : Run) : Option Nat :=
  match r.phase with
  | .batched startedAt _ | .failing startedAt _ _ => startedAt
  | .claimed t _ | .prepared t _ | .calling t _ | .deleted t => some t
  | .keeping | .over => r.out

def State.startedAt (s : State) : Option Nat := s.row.bind Row.startedAt

/-- Every run's claim is the row's and its own, or stale. -/
def State.Held (s : State) : Prop :=
  ∀ i r t, s.runs[i]? = some r → r.claim? = some t → (s.holder = some i ∧ s.startedAt = some t) ∨ t + STALE_CLAIM_MS < s.now

/-- A deletion is asked for and its date has come. -/
def State.Asked (s : State) : Prop := ∃ d ≤ s.now, lastDecision s.log = some (.requested d)

/-- The node carries out a delete before the claim it was asked under is stale. -/
def InTime (s : State) : Label → Prop
  | .nodeDeletes i => (s.runs[i]?.bind Run.out).all (fun t => decide (s.now ≤ t + STALE_CLAIM_MS)) = true
  | _ => True

/-- What run `i` does next releases the row's claim. -/
def State.releasesNext (s : State) (i : Nat) : Bool :=
  match s.runs[i]?.map Run.phase with
  | some (.failing startedAt _ _) => s.releases startedAt
  | _ => false

/-- No failure releases the claim of a mailbox that the node deleted. -/
def KeepsClaim (s : State) : Label → Prop
  | .fail i => s.gone = true → s.releasesNext i = false
  | _ => True

instance (s : State) (l : Label) : Decidable (InTime s l) := by
  cases l <;> unfold InTime <;> infer_instance

instance (s : State) (l : Label) : Decidable (KeepsClaim s l) := by
  cases l <;> unfold KeepsClaim <;> infer_instance

/-- A delete is at the node while its run waits for the answer, or died. -/
def Run.Ok (r : Run) : Prop := ∀ t, r.out = some t → (∃ attempts, r.phase = .calling t attempts) ∨ r.phase = .over

structure Inv (s : State) : Prop where
  asked : ∀ row d, s.row = some row → row.deleteAfter = some d → lastDecision s.log = some (.requested d)
  due : ∀ row, s.row = some row → row.startedAt.isSome → due s.now row = true
  removed : s.row = none → s.Asked
  held : s.Held
  runs : ∀ r ∈ s.runs, r.Ok
  gone : s.gone = true → ∀ row, s.row = some row → row.startedAt.isSome
  deleted : ∀ t, .deleted t ∈ s.log → s.gone = true
  whole : Whole s.log

theorem due_iff {now : Nat} {row : Row} : due now row = true ↔ ∃ d, row.deleteAfter = some d ∧ d ≤ now := by
  simp [due, Option.any_eq_true]

/-- A claimed row, and one removed, was asked for and its date had come. -/
theorem Inv.asked_of_claim {s : State} (h : Inv s) (hrow : ∀ row, s.row = some row → row.startedAt.isSome) : s.Asked := by
  cases hs : s.row with
  | none => exact h.removed hs
  | some row =>
    obtain ⟨d, hd, hle⟩ := due_iff.mp (h.due row hs (hrow row hs))
    exact ⟨d, hle, h.asked row d hs hd⟩

/-- A row without a claim is that of a mailbox the node still has. -/
theorem Inv.present {s : State} {row : Row} (h : Inv s) (hs : s.row = some row) (hrow : row.startedAt = none) :
    s.gone = false := by
  by_contra hgone
  have := h.gone (by simpa using hgone) row hs
  simp [hrow] at this

theorem Inv.startedAt_none {s : State} {row : Row} (h : Inv s) (hs : s.row = some row) (hrow : row.deleteAfter = none) :
    row.startedAt = none := by
  by_contra hstarted
  obtain ⟨d, hd, -⟩ := due_iff.mp (h.due row hs (Option.isSome_iff_ne_none.mpr hstarted))
  simp [hrow] at hd

/-! ## Steps -/

theorem State.Held.setRun {s : State} {i : Nat} {r r' : Run} (h : s.Held) (hi : s.runs[i]? = some r)
    (hclaim : ∀ t, r'.claim? = some t → r.claim? = some t) : (s.setRun i r').Held := by
  intro j q t hj hq
  obtain ⟨rfl, rfl⟩ | ⟨-, hj⟩ := (Agents.getElem?_set_some hi).mp hj
  · exact h i r t hi (hclaim t hq)
  · exact h j q t hj hq

/-- A run that goes on with its claim, or without one. -/
theorem Inv.setRun {s : State} {i : Nat} {r q : Run} (h : Inv s) (hi : s.runs[i]? = some r)
    (hclaim : ∀ t, q.claim? = some t → r.claim? = some t) (hok : q.Ok) :
    Inv (s.setRun i q) where
  asked := h.asked
  due := h.due
  removed := h.removed
  held := h.held.setRun hi hclaim
  runs q hq := by
    rcases List.mem_or_eq_of_mem_set hq with hq | rfl
    · exact h.runs q hq
    · exact hok
  gone := h.gone
  deleted := h.deleted
  whole := h.whole

/-- A step that leaves the claim and the date of the row as they are. -/
theorem Inv.setRow {s : State} {row row' : Row} (h : Inv s) (hs : s.row = some row)
    (hdate : row'.deleteAfter = row.deleteAfter) (hclaim : row'.startedAt = row.startedAt) :
    Inv { s with row := some row' } where
  asked r d hr hd := by
    cases hr
    exact h.asked row d hs (hdate ▸ hd)
  due r hr hstarted := by
    cases hr
    have := h.due row hs (hclaim ▸ hstarted)
    rwa [MailboxDeletion.due, hdate]
  removed hr := by cases hr
  held i r t hi hr := by
    have := h.held i r t hi hr
    simp only [State.startedAt, hs, Option.bind_some] at this
    simpa only [State.startedAt, Option.bind_some, hclaim] using this
  runs := h.runs
  gone hgone r hr := by
    cases hr
    exact hclaim ▸ h.gone hgone row hs
  deleted := h.deleted
  whole := h.whole

theorem Inv.tick {s : State} {ms : Nat} (h : Inv s) : Inv { s with now := s.now + ms } where
  asked := h.asked
  due row hrow hstarted := by
    obtain ⟨d, hd, hle⟩ := due_iff.mp (h.due row hrow hstarted)
    exact due_iff.mpr ⟨d, hd, by dsimp only; omega⟩
  removed hrow := by
    obtain ⟨d, hd, hlast⟩ := h.removed hrow
    exact ⟨d, by dsimp only; omega, hlast⟩
  held i r t hi hr := by
    rcases h.held i r t hi hr with hown | hstale
    · exact .inl hown
    · exact .inr (by dsimp only; omega)
  runs := h.runs
  gone := h.gone
  deleted := h.deleted
  whole := h.whole

theorem Inv.request {s : State} {row row' : Row} {delay : Nat} (h : Inv s) (hs : s.row = some row)
    (hrow : requestDeletion s.now delay row = some row') :
    Inv { s with row := some row', log := .requested (s.now + delay) :: s.log } := by
  unfold requestDeletion at hrow
  split at hrow
  next hnone =>
    have hstarted := h.startedAt_none hs hnone
    have hgone := h.present hs hstarted
    cases hrow
    refine ⟨fun r d hr hd => ?_, fun r hr hstarted => ?_, fun hr => absurd hr (by simp), fun i r t hi hr => ?_, h.runs, fun hg => ?_,
      fun t ht => h.deleted t ((List.mem_cons.mp ht).resolve_left fun heq => by cases heq),
      h.whole.cons (fun heq => by cases heq) fun t heq => by rcases heq with heq | heq <;> cases heq⟩
    · cases hr
      cases hd
      rfl
    · cases hr
      cases hstarted
    · rcases h.held i r t hi hr with ⟨-, hclaim⟩ | hstale
      · simp [State.startedAt, hs, hstarted] at hclaim
      · exact .inr hstale
    · rw [hgone] at hg
      cases hg
  next => cases hrow

theorem cancelDeletion_eq_some {seat : Bool} {row row' : Row} (h : cancelDeletion seat row = some row') :
    row.startedAt = none ∧ row'.deleteAfter = none ∧ row'.startedAt = none := by
  unfold cancelDeletion at h
  split at h
  · cases h
  split at h
  · cases h
  next hstarted =>
    split at h
    · cases h
    cases h
    have : row.startedAt = none := by simpa using hstarted
    exact ⟨this, rfl, this⟩

theorem Inv.cancel {s : State} {row row' : Row} {seat : Bool} (h : Inv s) (hs : s.row = some row)
    (hrow : cancelDeletion seat row = some row') : Inv { s with row := some row', log := .cancelled :: s.log } := by
  obtain ⟨hstarted, hdate', hstarted'⟩ := cancelDeletion_eq_some hrow
  have hgone := h.present hs hstarted
  have hnone : ∀ t, .deleted t ∉ s.log := fun t ht => by
    have := h.deleted t ht
    rw [hgone] at this
    cases this
  refine ⟨fun r d hr hd => ?_, fun r hr hclaim => ?_, fun hr => absurd hr (by simp), fun i r t hi hr => ?_, h.runs, fun hg => ?_,
    fun t ht => h.deleted t ((List.mem_cons.mp ht).resolve_left fun heq => by cases heq),
    h.whole.cons (fun _ => hnone) fun t heq => by rcases heq with heq | heq <;> cases heq⟩
  · cases hr
    rw [hdate'] at hd
    cases hd
  · cases hr
    rw [hstarted'] at hclaim
    cases hclaim
  · rcases h.held i r t hi hr with ⟨-, hclaim⟩ | hstale
    · simp [State.startedAt, hs, hstarted] at hclaim
    · exact .inr hstale
  · rw [hgone] at hg
    cases hg

theorem stale_iff {now : Nat} {startedAt : Option Nat} :
    stale now startedAt = true ↔ ∀ t, startedAt = some t → t + STALE_CLAIM_MS < now := by
  rw [stale, Option.all_eq_true]
  exact forall₂_congr fun t _ => decide_eq_true_iff

/-- A run starts from a row whose claim, when it has one, is stale. -/
theorem Inv.start {s : State} {row : Row} (h : Inv s) (hbatch : inBatch s.now row = true) :
    Inv { s with runs := s.runs ++ [{ phase := .batched row.startedAt row.attempts }] } := by
  have hstale : stale s.now row.startedAt = true := by
    simp only [inBatch, Bool.and_eq_true] at hbatch
    exact hbatch.2
  refine ⟨h.asked, h.due, h.removed, fun i r t hi hr => ?_, fun r hr => ?_, h.gone, h.deleted, h.whole⟩
  · rcases Agents.getElem?_append_some.mp hi with hi | ⟨-, rfl⟩
    · exact h.held i r t hi hr
    · exact .inr (stale_iff.mp hstale t hr)
  · rcases List.mem_append.mp hr with hr | hr
    · exact h.runs r hr
    · cases List.mem_singleton.mp hr
      exact fun t ht => by cases ht

theorem Run.Ok.claim? {r : Run} {t : Nat} (h : r.Ok) (ht : r.out = some t) : r.claim? = some t := by
  rcases h t ht with ⟨attempts, hphase⟩ | hphase
  · simp [Run.claim?, hphase]
  · simp [Run.claim?, hphase, ht]

/-- Outside a call and after its end nothing of a run is at the node. -/
theorem Run.Ok.out_none {r : Run} (h : r.Ok) (hcalling : ∀ t attempts, r.phase ≠ .calling t attempts)
    (hover : r.phase ≠ .over) : r.out = none := by
  by_contra hout
  obtain ⟨t, ht⟩ := Option.ne_none_iff_exists'.mp hout
  rcases h t ht with ⟨attempts, hphase⟩ | hphase
  · exact hcalling t attempts hphase
  · exact hover hphase

theorem Run.Ok.of_none {r : Run} (h : r.out = none) : r.Ok := fun t ht => by simp [h] at ht

theorem claim_eq_some {now : Nat} {row row' : Row} (h : claim now row = some row') :
    due now row = true ∧ stale now row.startedAt = true ∧ row' = { row with startedAt := some now } := by
  unfold claim at h
  split at h
  next hclaim =>
    cases h
    rw [Bool.and_eq_true] at hclaim
    exact ⟨hclaim.1, hclaim.2, rfl⟩
  next => cases h

/-- A run takes the row, whose claim is stale when it has one. -/
theorem Inv.claimStep {s : State} {i attempts : Nat} {r : Run} (h : Inv s) (hi : s.runs[i]? = some r) (hout : r.out = none) :
    Inv (claimStep s i r attempts) := by
  unfold MailboxDeletion.claimStep
  split
  next row' hbind =>
    obtain ⟨row, hs, hclaim⟩ := Option.bind_eq_some_iff.mp hbind
    obtain ⟨hdue, hstale, rfl⟩ := claim_eq_some hclaim
    refine ⟨fun q d hq hd => ?_, fun q hq _ => ?_, fun hq => absurd hq (by simp), fun j q t hj hq => ?_, fun q hq => ?_,
      fun _ q hq => ?_, h.deleted, h.whole⟩
    · cases hq
      exact h.asked row d hs hd
    · cases hq
      exact hdue
    · obtain ⟨rfl, rfl⟩ | ⟨-, hj⟩ := (Agents.getElem?_set_some hi).mp hj
      · cases hq
        exact .inl ⟨rfl, rfl⟩
      · rcases h.held j q t hj hq with ⟨-, hown⟩ | hold
        · simp only [State.startedAt, hs, Option.bind_some] at hown
          exact .inr (stale_iff.mp hstale t hown)
        · exact .inr hold
    · rcases List.mem_or_eq_of_mem_set hq with hq | rfl
      · exact h.runs q hq
      · exact .of_none hout
    · cases hq
      rfl
  next => exact h.setRun hi (fun t ht => by simp [Run.claim?, hout] at ht) (.of_none hout)

theorem Inv.nodeDeletes {s : State} {i : Nat} {r : Run} (h : Inv s) (hi : s.runs[i]? = some r) (hout : r.out.isSome)
    (htime : InTime s (.nodeDeletes i)) : Inv { s with gone := true, log := .deleted s.now :: s.log } := by
  obtain ⟨t, ht⟩ := Option.isSome_iff_exists.mp hout
  have hfresh : s.now ≤ t + STALE_CLAIM_MS := by simpa [InTime, hi, ht] using htime
  have hstarted : s.startedAt = some t := by
    rcases h.held i r t hi ((h.runs r (List.mem_of_getElem? hi)).claim? ht) with ⟨-, hown⟩ | hold
    · exact hown
    · omega
  have hclaimed : ∀ row, s.row = some row → row.startedAt.isSome := fun row hrow => by
    simp only [State.startedAt, hrow, Option.bind_some] at hstarted
    simp [hstarted]
  obtain ⟨d, hle, hlast⟩ := h.asked_of_claim hclaimed
  refine ⟨fun row d hrow hd => h.asked row d hrow hd, h.due, fun _ => ⟨d, hle, hlast⟩, h.held, h.runs, fun _ => hclaimed,
    fun _ _ => rfl, h.whole.cons (fun heq => by cases heq) fun time heq => ?_⟩
  rcases heq with heq | heq
  · cases heq
    exact ⟨d, hle, hlast⟩
  · cases heq

theorem releases_iff {s : State} {row : Row} {startedAt : Option Nat} (hs : s.row = some row) :
    s.releases startedAt = true ↔ row.deleteAfter.isSome ∧ row.startedAt = startedAt := by
  simp [State.releases, hs]

/-- A failure is recorded: the claim the run knows is released, unless the row has another. -/
theorem Inv.failStep {s : State} {i attempts : Nat} {r : Run} {startedAt : Option Nat} {code : Code} (h : Inv s)
    (hi : s.runs[i]? = some r) (hphase : r.phase = .failing startedAt attempts code) (hkeeps : KeepsClaim s (.fail i)) :
    Inv (failStep s i r startedAt attempts code) := by
  have hout : r.out = none :=
    (h.runs r (List.mem_of_getElem? hi)).out_none (fun t a heq => by simp [hphase] at heq) (by simp [hphase])
  have hnext : s.releasesNext i = s.releases startedAt := by simp [State.releasesNext, hi, hphase]
  have hset := h.setRun (q := { r with phase := .over }) hi (fun t ht => by simp [Run.claim?, hout] at ht) (.of_none hout)
  unfold MailboxDeletion.failStep
  cases hs : s.row with
  | none => simpa [State.releases, State.setRun, hs] using hset
  | some row =>
    by_cases hrel : s.releases startedAt = true
    · obtain ⟨hdate, hown⟩ := (releases_iff hs).mp hrel
      have hgone : s.gone = false := by
        by_contra hgone
        have := hkeeps (by simpa using hgone)
        rw [hnext, hrel] at this
        cases this
      simp only [Option.map_some, recordFailure, hdate, hown, and_self, ↓reduceIte, hrel]
      refine ⟨fun q d hq hd => ?_, fun q hq hstarted => ?_, fun hq => absurd hq (by simp), fun j q t hj hq => ?_,
        hset.runs, fun hg => ?_, h.deleted, h.whole⟩
      · cases hq
        exact h.asked row d hs hd
      · cases hq
        cases hstarted
      · obtain ⟨rfl, rfl⟩ | ⟨hne, hj⟩ := (Agents.getElem?_set_some hi).mp hj
        · simp [Run.claim?, hout] at hq
        · -- another run with this claim saw it stale, for it is the row's
          rcases h.held j q t hj hq with ⟨hholder, hclaim⟩ | hold
          · simp only [State.startedAt, hs, Option.bind_some, hown] at hclaim
            have hmine : r.claim? = some t := by simp [Run.claim?, hphase, hclaim]
            rcases h.held i r t hi hmine with ⟨hholder', -⟩ | hold
            · exact absurd (Option.some.inj (hholder'.symm.trans hholder)) hne
            · exact .inr hold
          · exact .inr hold
      · simp only [State.setRun, hgone] at hg
        cases hg
    · have hkept : recordFailure s.now startedAt attempts code row = row := by
        unfold recordFailure
        rw [releases_iff hs] at hrel
        exact if_neg hrel
      simpa [hkept, hrel, State.setRun, hs] using hset

/-- The row is removed under the claim of the run, or kept for another. -/
theorem Inv.removeStep {s : State} {i t : Nat} {r : Run} (h : Inv s) (hi : s.runs[i]? = some r) (hout : r.out = none)
    (hphase : r.phase = .deleted t) : Inv (removeStep s i r t) := by
  unfold MailboxDeletion.removeStep
  split
  next hrow =>
    obtain ⟨row, hs, hown⟩ := (Option.any_eq_true _ _).mp hrow
    have hclaim : row.startedAt = some t := by simpa using hown
    obtain ⟨d, hle, hlast⟩ := h.asked_of_claim fun row' hs' => by
      cases hs.symm.trans hs'
      simp [hclaim]
    refine ⟨fun q d hq _ => absurd hq (by simp), fun q hq _ => absurd hq (by simp), fun _ => ⟨d, hle, hlast⟩,
      fun j q t' hj hq => ?_, fun q hq => ?_, fun _ q hq => absurd hq (by simp),
      fun time htime => h.deleted time ((List.mem_cons.mp htime).resolve_left fun heq => by cases heq),
      h.whole.cons (fun heq => by cases heq) fun time heq => ?_⟩
    · obtain ⟨rfl, rfl⟩ | ⟨hne, hj⟩ := (Agents.getElem?_set_some hi).mp hj
      · simp [Run.claim?, hout] at hq
      · rcases h.held j q t' hj hq with ⟨hholder, hclaim'⟩ | hold
        · simp only [State.startedAt, hs, Option.bind_some, hclaim, Option.some.injEq] at hclaim'
          subst hclaim'
          rcases h.held i r t hi (by simp [Run.claim?, hphase]) with ⟨hholder', -⟩ | hold
          · exact absurd (Option.some.inj (hholder'.symm.trans hholder)) hne
          · exact .inr hold
        · exact .inr hold
    · rcases List.mem_or_eq_of_mem_set hq with hq | rfl
      · exact h.runs q hq
      · exact .of_none hout
    · rcases heq with heq | heq
      · cases heq
      · cases heq
        exact ⟨d, hle, hlast⟩
  next => exact h.setRun hi (fun t ht => by simp [Run.claim?, hout] at ht) (.of_none hout)

theorem claim?_afterAnswer {t t' attempts : Nat} {answer : Answer}
    (h : Run.claim? { phase := afterAnswer t attempts answer, out := none } = some t') : t' = t := by
  cases answer with
  | done => exact (Option.some.inj h).symm
  | refused absent => cases absent <;> exact (Option.some.inj h).symm
  | lost => exact (Option.some.inj h).symm

theorem Inv.runStep {s s' : State} {i : Nat} {r : Run} {l : Label} (h : Inv s) (hi : s.runs[i]? = some r) (hl : l.run? = some i)
    (hg : InTime s l ∧ KeepsClaim s l) (hs : runStep s i r l = some s') : Inv s' := by
  have hok := h.runs r (List.mem_of_getElem? hi)
  unfold MailboxDeletion.runStep at hs
  split at hs
  next startedAt attempts hphase =>
    cases hs
    have hout := hok.out_none (by simp [hphase]) (by simp [hphase])
    exact h.setRun hi (fun t ht => by simpa [Run.claim?, hphase] using ht) (.of_none hout)
  next startedAt attempts hphase =>
    cases hs
    exact h.claimStep hi (hok.out_none (by simp [hphase]) (by simp [hphase]))
  next t attempts hphase =>
    cases hs
    have hout := hok.out_none (by simp [hphase]) (by simp [hphase])
    exact h.setRun hi (fun t ht => by simpa [Run.claim?, hphase] using ht) (.of_none hout)
  next code t attempts hphase =>
    cases hs
    have hout := hok.out_none (by simp [hphase]) (by simp [hphase])
    exact h.setRun hi (fun t ht => by simpa [Run.claim?, hphase] using ht) (.of_none hout)
  next t attempts hphase =>
    cases hs
    exact h.setRun hi (fun t ht => by simpa [Run.claim?, hphase] using ht)
      fun t' ht' => .inl ⟨attempts, by cases ht'; rfl⟩
  next =>
    split at hs
    next hnode =>
      cases hs
      cases hl
      exact h.nodeDeletes hi hnode.1 hg.1
    next => cases hs
  next answer t attempts hphase =>
    cases hs
    refine h.setRun hi (fun t' ht' => ?_) (.of_none rfl)
    simp [claim?_afterAnswer ht', Run.claim?, hphase]
  next startedAt attempts code hphase =>
    cases hs
    cases hl
    exact h.failStep hi hphase hg.2
  next t hphase =>
    cases hs
    exact h.removeStep hi (hok.out_none (by simp [hphase]) (by simp [hphase])) hphase
  next hphase =>
    cases hs
    have hout := hok.out_none (by simp [hphase]) (by simp [hphase])
    have hset := h.setRun (q := { r with phase := .over }) hi (fun t ht => by simp [Run.claim?, hout] at ht) (.of_none hout)
    cases hrow : s.row with
    | none => simpa [State.setRun, hrow] using hset
    | some row => exact hset.setRow hrow rfl rfl
  next =>
    cases hs
    refine h.setRun hi (fun t ht => hok.claim? ht) fun t ht => .inr rfl
  next => cases hs

theorem Inv.step {s s' : State} {l : Label} (h : Inv s) (hg : InTime s l ∧ KeepsClaim s l)
    (hs : MailboxDeletion.step s l = some s') : Inv s' := by
  have hrun : ∀ {i : Nat}, l.run? = some i → (s.runs[i]?.bind fun r => MailboxDeletion.runStep s i r l) = some s' → Inv s' := by
    intro i hl hstep
    obtain ⟨r, hi, hstep⟩ := Option.bind_eq_some_iff.mp hstep
    exact h.runStep hi hl hg hstep
  cases l with
  | request delay =>
    obtain ⟨row', hbind, rfl⟩ := Option.map_eq_some_iff.mp hs
    obtain ⟨row, hrow, hreq⟩ := Option.bind_eq_some_iff.mp hbind
    exact h.request hrow hreq
  | cancel seat =>
    obtain ⟨row', hbind, rfl⟩ := Option.map_eq_some_iff.mp hs
    obtain ⟨row, hrow, hcancel⟩ := Option.bind_eq_some_iff.mp hbind
    exact h.cancel hrow hcancel
  | deactivate =>
    obtain ⟨row, hfilter, rfl⟩ := Option.map_eq_some_iff.mp hs
    exact h.setRow (Option.filter_eq_some_iff.mp hfilter).1 rfl rfl
  | activate =>
    obtain ⟨row, hfilter, rfl⟩ := Option.map_eq_some_iff.mp hs
    exact h.setRow (Option.filter_eq_some_iff.mp hfilter).1 rfl rfl
  | tick ms =>
    cases hs
    exact h.tick
  | start =>
    obtain ⟨row, hfilter, rfl⟩ := Option.map_eq_some_iff.mp hs
    exact h.start (Option.filter_eq_some_iff.mp hfilter).2
  | notConfigured i | claim i | prepare i failure | call i | nodeDeletes i | answer i answer | fail i | remove i | keep i | die i =>
    exact hrun rfl hs

theorem Inv.init {s : State} (h : system.init s) : Inv s := by
  obtain ⟨⟨row, hrow, hdate, hstarted⟩, hruns, hgone, -, hlog⟩ := h
  refine ⟨fun q d hq hd => ?_, fun q hq hclaim => ?_, fun hq => by simp [hrow] at hq, fun i r t hi _ => by simp [hruns] at hi,
    fun r hr => by simp [hruns] at hr, fun hg => by simp [hgone] at hg, fun t ht => by simp [hlog] at ht, ?_⟩
  · cases hrow.symm.trans hq
    simp [hdate] at hd
  · cases hrow.symm.trans hq
    simp [hstarted] at hclaim
  · rw [hlog]
    exact ⟨fun later earlier heq => by simp at heq, fun later e earlier t heq => by simp at heq⟩

theorem Inv.invariant : system.Invariant (fun s l => InTime s l ∧ KeepsClaim s l) Inv where
  init := Inv.init
  step h hg hs := h.step hg hs

/-- While no failure releases the claim of a mailbox the node deleted, a cancel is accepted only before the deletion, and
nothing is deleted or removed but at a date asked for since. -/
theorem cancelled_leaves_whole {s : State} (h : system.ReachesUnder (fun s l => InTime s l ∧ KeepsClaim s l) s) :
    Whole s.log := (Inv.invariant.reachesUnder h).whole

theorem init_new : system.init {} := ⟨⟨{}, rfl, rfl, rfl⟩, rfl, rfl, rfl, rfl⟩

/-- A deletion fails before the node is asked and is cancelled, another goes through. -/
theorem cancelled_leaves_whole_deleted : ∃ s : State,
    s.log = [.removed 100, .deleted 100, .requested 100, .cancelled, .requested 50] ∧ Whole s.log := by
  have htrace : ((system.exec (fun s l => InTime s l ∧ KeepsClaim s l) {}
      [.request 50, .tick 50, .start, .claim 0, .prepare 0 (some .stepFailed), .fail 0, .cancel true, .request 50, .tick 50,
        .start, .claim 1, .prepare 1 none, .call 1, .nodeDeletes 1, .answer 1 .done, .remove 1]).any fun s =>
      decide (s.log = [.removed 100, .deleted 100, .requested 100, .cancelled, .requested 50])) = true := by decide
  obtain ⟨s, hs, hp⟩ := TransitionSystem.reaches_of_exec init_new htrace
  exact ⟨s, of_decide_eq_true hp, cancelled_leaves_whole hs⟩

/-- The node deletes the mailbox and its answer is lost: the failure releases the claim and a cancel is accepted. -/
theorem cancelled_after_lost_answer : ¬ ∀ s : State, system.ReachesUnder InTime s → Whole s.log := by
  have htrace : ((system.exec InTime {}
      [.request 50, .tick 50, .start, .claim 0, .prepare 0 none, .call 0, .nodeDeletes 0, .answer 0 .lost, .fail 0,
        .cancel true]).any fun s => decide (s.log = [.cancelled, .deleted 50, .requested 50])) = true := by decide
  intro h
  obtain ⟨s, hs, hp⟩ := TransitionSystem.reaches_of_exec init_new htrace
  have hlog : s.log = [.cancelled, .deleted 50, .requested 50] := of_decide_eq_true hp
  exact (h s hs).cancels [] _ hlog 50 (by simp)

end MailExpert.MailboxDeletion
