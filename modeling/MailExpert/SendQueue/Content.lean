import MailExpert.SendQueue.Steps

/-!
# A letter's content follows its job

A letter has its content exactly while it is listed under Scheduled: waiting, going out or kept
after a failure. Every statement on the job alone keeps it listed or unlisted
(`Writes.listed`), and whatever finishes it takes the content along (`Finishes.unlisted`). The one
write that could break this is the plain `ctx.complete()` of `runJob` after the handler returned:
it finishes a job without deleting anything. It never applies, since the handler returns without
having completed the job only once its claim is gone (`Inv.lost`), and no later claim brings the
same token back (`Inv.lost_step`).
-/

namespace MailExpert.SendQueue

open JobQueue

variable {s s' : State} {l : Label} {id : Nat} {t : ClaimToken}

/-- The letter is waiting, going out or kept. -/
def Listed (j : Job) : Prop := j.kind = SEND_JOB_KIND ∧ j.status ∈ LISTED_STATUSES

structure Inv (s : State) : Prop where
  rows : ∀ {id j}, s.db.jobs.lookup id = some j → id < s.db.nextJobId
  content : ∀ id, (s.db.outgoing.lookup id).isSome ↔ ∃ j, s.db.jobs.lookup id = some j ∧ Listed j
  drawn : ∀ {t r}, s.runs.lookup t = some r → t.uuid ∈ s.uuids ∧ t.id < s.db.nextJobId
  letters : ∀ {t r j}, s.runs.lookup t = some r → s.db.jobs.lookup t.id = some j →
    j.kind = SEND_JOB_KIND
  lost : ∀ {t r}, s.runs.lookup t = some r →
    r.pc = .returned ∨ (∃ again, r.pc = .settlingSwept again) → Lost s.db t

theorem Writes.kind {f : Job → Option Job} {j j' : Job} (hw : Writes s l id f)
    (hf : f j = some j') : j'.kind = j.kind := by
  cases hw <;>
    simp only [Job.claim, Job.releaseClaim, Job.renewLease, Job.markEffectStarted,
      Job.markEffectDone, Job.complete, Job.settleFailure, Job.sweep, Job.reschedule,
      Job.failOfDeletedAccount, Option.ite_none_right_eq_some] at hf <;>
    grind

theorem Finishes.kind {f : Job → Option Job} {j j' : Job} (hw : Finishes s l id f)
    (hf : f j = some j') : j'.kind = j.kind := by
  cases hw with
  | complete =>
    simp only [completeKeeping, Job.complete, Option.map_eq_some_iff,
      Option.ite_none_right_eq_some, Option.some.injEq] at hf
    obtain ⟨_, ⟨-, rfl⟩, rfl⟩ := hf
    rfl
  | settleSwept =>
    simp only [SendQueue.settleSwept, Option.ite_none_right_eq_some, Option.some.injEq] at hf
    obtain ⟨-, rfl⟩ := hf
    rfl
  | cancel =>
    simp only [Job.cancel, Option.ite_none_right_eq_some, Option.some.injEq] at hf
    obtain ⟨-, rfl⟩ := hf
    rfl

/-- What finishes a letter leaves it done or cancelled. -/
theorem Finishes.finished {f : Job → Option Job} {j j' : Job} (hw : Finishes s l id f)
    (hf : f j = some j') : j'.status = .done ∨ j'.status = .cancelled := by
  cases hw with
  | complete =>
    simp only [completeKeeping, Job.complete, Option.map_eq_some_iff,
      Option.ite_none_right_eq_some, Option.some.injEq] at hf
    obtain ⟨_, ⟨-, rfl⟩, rfl⟩ := hf
    exact .inl rfl
  | settleSwept =>
    simp only [SendQueue.settleSwept, Option.ite_none_right_eq_some, Option.some.injEq] at hf
    obtain ⟨-, rfl⟩ := hf
    exact .inl rfl
  | cancel =>
    simp only [Job.cancel, Option.ite_none_right_eq_some, Option.some.injEq] at hf
    obtain ⟨-, rfl⟩ := hf
    exact .inr rfl

theorem Finishes.unlisted {f : Job → Option Job} {j j' : Job} (hw : Finishes s l id f)
    (hf : f j = some j') : ¬Listed j' := by
  intro hl
  rcases hw.finished hf with h | h <;> simp [Listed, LISTED_STATUSES, h] at hl

/-- A statement on a letter alone keeps it listed, and never brings it back. -/
theorem Writes.listed {f : Job → Option Job} {j j' : Job} (hs : Inv s) (hw : Writes s l id f)
    (hj : s.db.jobs.lookup id = some j) (hf : f j = some j') : Listed j' ↔ Listed j := by
  have hk := hw.kind hf
  cases hw with
  | completeReturned hr hpc hid =>
    subst hid
    simp only [Job.complete, Option.ite_none_right_eq_some] at hf
    exact absurd hf.1 (hs.lost hr (.inl hpc) j hj)
  | _ =>
    simp only [Job.claim, Job.releaseClaim, Job.renewLease, Job.markEffectStarted,
      Job.markEffectDone, Job.settleFailure, Job.sweep, Job.reschedule,
      Job.failOfDeletedAccount, Option.ite_none_right_eq_some] at hf
    grind [Listed, LISTED_STATUSES, CANCELLABLE_STATUSES, Job.ClaimedBy]

/-- No statement hands a claim to a token drawn before. -/
theorem Writes.claimedBy {f : Job → Option Job} {j j' : Job} (hw : Writes s l id f)
    (hf : f j = some j') (ht : t.uuid ∈ s.uuids) (hc : j'.ClaimedBy t) : j.ClaimedBy t := by
  cases hw <;>
    simp only [Job.claim, Job.releaseClaim, Job.renewLease, Job.markEffectStarted,
      Job.markEffectDone, Job.complete, Job.settleFailure, Job.sweep, Job.reschedule,
      Job.failOfDeletedAccount, Option.ite_none_right_eq_some] at hf <;>
    grind [Job.ClaimedBy]

/-- A letter's row stays a letter's row. -/
theorem kind_step (h : step s l = some s') (hid : id < s.db.nextJobId)
    (hk : ∀ j, s.db.jobs.lookup id = some j → j.kind = SEND_JOB_KIND) {j' : Job}
    (hj' : s'.db.jobs.lookup id = some j') : j'.kind = SEND_JOB_KIND := by
  cases step_letter h id with
  | same hj | cleaned hj => exact hk j' (hj ▸ hj')
  | write hj hw hf hnew =>
    obtain rfl := Option.some.inj (hnew.symm.trans hj')
    exact (hw.kind hf).trans (hk _ hj)
  | finish hj hw hf hnew =>
    obtain rfl := Option.some.inj (hnew.symm.trans hj')
    exact (hw.kind hf).trans (hk _ hj)
  | enqueued he | enqueuedOther he => omega
  | otherKind hj hne => exact absurd (hk _ hj) hne
  | deleted hnew => exact absurd (hnew.symm.trans hj') nofun

/-- A claim that is gone stays gone. -/
theorem Inv.lost_step (hs : Inv s) (h : SendQueue.step s l = some s') {r : Run}
    (hr : s.runs.lookup t = some r) (hl : Lost s.db t) : Lost s'.db t := by
  intro j' hj' hc
  obtain ⟨ht, hid⟩ := hs.drawn hr
  cases step_letter h t.id with
  | same hj | cleaned hj => exact hl j' (hj ▸ hj') hc
  | write hj hw hf hnew =>
    obtain rfl := Option.some.inj (hnew.symm.trans hj')
    exact hl _ hj (hw.claimedBy hf ht hc)
  | finish hj hw hf hnew =>
    obtain rfl := Option.some.inj (hnew.symm.trans hj')
    rcases hw.finished hf with h | h <;> exact absurd (hc.1.symm.trans h) nofun
  | enqueued he | enqueuedOther he => omega
  | otherKind hj hne => exact absurd (hs.letters hr hj) hne
  | deleted hnew => exact absurd (hnew.symm.trans hj') nofun

/-- The content rows after a step are those of the listed letters. -/
theorem Inv.content_step (hs : Inv s) (h : SendQueue.step s l = some s') (id : Nat) :
    (s'.db.outgoing.lookup id).isSome ↔ ∃ j, s'.db.jobs.lookup id = some j ∧ Listed j := by
  cases step_letter h id with
  | same hj ho =>
    rw [hj, ho]
    exact hs.content id
  | @write j f j' hj hw hf hj' ho =>
    have hl := hw.listed hs hj hf
    rw [ho, hs.content id]
    simp [hj, hj', hl]
  | finish hj hw hf hj' ho =>
    simp [ho, hj', hw.unlisted hf]
  | enqueued _ _ hj' hq hk ho =>
    simp [ho, hj', Listed, LISTED_STATUSES, hq, hk]
  | enqueuedOther hid _ hj' _ hk ho =>
    rw [ho, hs.content id]
    have hnone : s.db.jobs.lookup id = none := by
      cases hj : s.db.jobs.lookup id with
      | none => rfl
      | some j => exact absurd (hs.rows hj) (by omega)
    simp [hj', Listed, hk, hnone]
  | otherKind hj hne hk hj' ho =>
    rw [ho, hs.content id]
    simp [hj, hj', Listed, hk, hne]
  | cleaned hj' hj hd ho =>
    rcases hd with hd | hd <;> simp [ho, hj', hj, Listed, LISTED_STATUSES, hd]
  | deleted hj' ho => simp [hj', ho]

/-- A run gets past recording its delivery only when its claim is gone. -/
theorem Moves.lost {pc pc' : Pc} (h : Moves s t pc pc')
    (hpc : pc' = .returned ∨ ∃ again, pc' = .settlingSwept again)
    (hl : (∃ again, pc = .settlingSwept again) → Lost s.db t) : Lost s.db t := by
  cases h with
  | claimGone hgone => exact hgone
  | settlingFailed | returned => exact hl ⟨_, rfl⟩
  | @recordingFailed again => cases again <;> simp [SendQueue.recordingFailed] at hpc
  | _ => simp at hpc

theorem Inv.step (hs : Inv s) (h : SendQueue.step s l = some s') : Inv s' := by
  obtain ⟨hu, hn, -, -, -, -⟩ := step_frame h
  refine { rows := ?_, content := hs.content_step h, drawn := ?_, letters := ?_, lost := ?_ }
  · intro id j' hj'
    have hold {j : Job} (hj : s.db.jobs.lookup id = some j) : id < s'.db.nextJobId :=
      Nat.lt_of_lt_of_le (hs.rows hj) hn
    cases step_letter h id with
    | same hj | cleaned hj => exact hold (hj ▸ hj')
    | write hj | finish hj | otherKind hj => exact hold hj
    | enqueued _ hid | enqueuedOther _ hid => exact hid
    | deleted hnew => exact absurd (hnew.symm.trans hj') nofun
  · intro t r' hr'
    cases step_run h hr' with
    | same hr | moved hr => exact ⟨hu (hs.drawn hr).1, Nat.lt_of_lt_of_le (hs.drawn hr).2 hn⟩
    | new _ _ _ hmem hj => exact ⟨hmem, Nat.lt_of_lt_of_le (hs.rows hj) hn⟩
  · intro t r' j' hr' hj'
    cases step_run h hr' with
    | same hr | moved hr => exact kind_step h (hs.drawn hr).2 (fun _ => hs.letters hr) hj'
    | new _ _ _ _ hj hk =>
      refine kind_step h (hs.rows hj) (fun j hj₁ => ?_) hj'
      exact Option.some.inj (hj.symm.trans hj₁) ▸ hk
  · intro t r' hr' hpc
    cases step_run h hr' with
    | same hr => exact hs.lost_step h hr (hs.lost hr hpc)
    | new _ hpc' =>
      rw [hpc'] at hpc
      rcases hpc with hpc | ⟨_, hpc⟩ <;> cases hpc
    | moved hr hm =>
      exact hs.lost_step h hr (hm.lost hpc fun hpc => hs.lost hr (.inr hpc))

theorem inv : system.Invariant TransitionSystem.anyStep Inv where
  init := by
    rintro s rfl
    constructor <;> simp [State.empty]
  step hs _ h := hs.step h

/-- **A letter's content follows its job.** -/
theorem content_follows_job (hs : system.Reachable s) :
    (∀ id j, s.db.jobs.lookup id = some j → j.kind = SEND_JOB_KIND →
      j.status = .queued ∨ j.status = .running ∨ j.status = .failed ∨ j.status = .needsAttention →
      ∃ content, s.db.outgoing.lookup id = some content) ∧
    (∀ id j, s.db.jobs.lookup id = some j → j.status = .done ∨ j.status = .cancelled →
      s.db.outgoing.lookup id = none) ∧
    ∀ id content, s.db.outgoing.lookup id = some content → ∃ j, s.db.jobs.lookup id = some j := by
  have hi := inv.reachable hs
  refine ⟨fun id j hj hk hst => ?_, fun id j hj hd => ?_, fun id content ho => ?_⟩
  · refine Option.isSome_iff_exists.mp ((hi.content id).mpr ⟨j, hj, hk, ?_⟩)
    simpa [LISTED_STATUSES] using hst
  · refine Option.not_isSome_iff_eq_none.mp fun ho => ?_
    obtain ⟨j', hj', hl⟩ := (hi.content id).mp ho
    obtain rfl := Option.some.inj (hj.symm.trans hj')
    rcases hd with hd | hd <;> simp [Listed, LISTED_STATUSES, hd] at hl
  · obtain ⟨j, hj, -⟩ := (hi.content id).mp (Option.isSome_iff_exists.mpr ⟨content, ho⟩)
    exact ⟨j, hj⟩

/-- One letter went out, the other still waits. -/
theorem content_follows_job_two_letters : ∃ (s : State) (j₁ j₂ : Job),
    s.db.jobs.lookup 1 = some j₁ ∧ s.db.jobs.lookup 2 = some j₂ ∧
    s.db.outgoing.lookup 1 = none ∧ ∃ content, s.db.outgoing.lookup 2 = some content := by
  let letter : NewLetter :=
    { userId := 1, accountId := 1, messageId := "<a@b>", content := ⟨"{}", "{}", []⟩ }
  let t : ClaimToken := ⟨7, 1⟩
  have htrace : (system.exec TransitionSystem.anyStep State.empty
      [.enqueueOutgoingSend letter 0, .enqueueOutgoingSend letter 9,
        .claimDueJobs 7 [1] [SEND_JOB_KIND] 5000 JOB_LEASE_MS true, .markEffectStarted t 5001 true,
        .serverTook t, .markEffectDone t 5002 true, .complete t [] 5003 .resolved]).any
      (fun s => (s.db.jobs.lookup 1).any (·.status = .done) ∧
        (s.db.jobs.lookup 2).any (fun j => j.status = .queued ∧ j.kind = SEND_JOB_KIND)) = true := by
    decide
  obtain ⟨s, hs, hp⟩ := TransitionSystem.reaches_of_exec rfl htrace
  simp only [decide_eq_true_eq, Option.any_eq_true] at hp
  obtain ⟨⟨j₁, hj₁, hd⟩, j₂, hj₂, hq, hk⟩ := hp
  obtain ⟨hlisted, hdone, -⟩ := content_follows_job hs
  exact ⟨s, j₁, j₂, hj₁, hj₂, hdone 1 j₁ hj₁ (.inl hd), hlisted 2 j₂ hj₂ hk (.inl hq)⟩

end MailExpert.SendQueue
