import MailExpert.JobQueue.Worker

/-!
# At most once

`Writes` lists the statements a step can run on a row and `step_row` says a step does nothing
else to it. Two facts about these statements carry everything here: none of them matches a job
that is done or cancelled (`Writes.finished`), and none of them, but for the write of the run
that holds the claim, makes claimable a job whose irreversible step has been marked
(`Writes.reserved`). Over runs the second becomes `Inv.safe`: a busy run's job is out of reach of
every other run, so a second run can never become busy (`Inv.sole`) and the step takes effect at
most once (`Inv.counted`).
-/

namespace MailExpert.JobQueue

/-- No run but that of `t` can begin the effect of the job: it is finished, kept, or running under
`t` with its effect marked. -/
def Job.Reserved (t : ClaimToken) (j : Job) : Prop :=
  (j.status ≠ .queued ∧ j.status ≠ .running) ∨ (j.ClaimedBy t ∧ j.effectStartedAt.isSome)

namespace Worker

variable {s s' : State} {id : Nat}

/-- The statements a step from `s` can run on the row `id`. -/
inductive Writes (s : State) (id : Nat) : (Job → Option Job) → Prop
  | claim : uuid ∉ s.uuids → Writes s id (Job.claim now ⟨uuid, id⟩ leaseMs registered)
  | releaseClaim : Writes s id (Job.releaseClaim now tokens)
  | renewLease : Writes s id (Job.renewLease now t leaseMs)
  | markEffectStarted : s.runs.lookup t = some r → ¬r.Busy → t.id = id →
    Writes s id (Job.markEffectStarted now t)
  | markEffectDone : Writes s id (Job.markEffectDone now code)
  | complete : Writes s id (Job.complete now t)
  | settleFailure : s.runs.lookup t = some r → r.pc = .settling err → t.id = id →
    Writes s id
      (Job.settleFailure now t r.job.attempts r.job.maxAttempts err r.effectStarted)
  | sweep : Writes s id (Job.sweep now)
  | cancel : Writes s id (Job.cancel now [.queued])
  | reschedule : Writes s id (Job.reschedule now runAt [.queued] scheduled except)
  | failOfDeletedAccount : Writes s id (Job.failOfDeletedAccount now accountId)

/-- What became of the row `id`: nothing, one statement, or it is new. -/
inductive RowStep (s s' : State) (id : Nat) (j' : Job) : Prop
  | same : s.db.jobs.lookup id = some j' → RowStep s s' id j'
  | write : s.db.jobs.lookup id = some j → Writes s id f → f j = some j' → RowStep s s' id j'
  | new : id = s.db.nextJobId → id < s'.db.nextJobId → RowStep s s' id j'

theorem RowStep.of_updateJobs {g : Nat → Job → Option Job} {j' : Job}
    (hg : ∀ id j, g id j = none ∨ ∃ f, Writes s id f ∧ g id j = f j)
    (h : (s.db.updateJobs g).jobs.lookup id = some j') : RowStep s s' id j' := by
  simp only [Db.updateJobs_jobs, Option.map_eq_some_iff] at h
  obtain ⟨j, hj, rfl⟩ := h
  rcases hg id j with hn | ⟨f, hw, hf⟩
  · rw [hn]
    exact .same hj
  · cases hr : g id j with
    | none => exact .same hj
    | some r => exact .write hj hw (hf ▸ hr)

theorem RowStep.of_writeJob {f : Job → Option Job} {j' : Job} (hw : Writes s k f)
    (h : (s.db.writeJob k f).jobs.lookup id = some j') : RowStep s s' id j' := by
  rw [Db.writeJob_jobs] at h
  split at h
  · next hk =>
    subst hk
    obtain ⟨j, hj, rfl⟩ := Option.map_eq_some_iff.mp h
    cases hf : f j with
    | none => exact .same hj
    | some r => exact .write hj hw hf
  · exact .same h

theorem complete_db (s : State) (t : ClaimToken) (r : Run) (now : Nat) (answered : Bool) :
    (complete s t r now answered).db = s.db.writeJob t.id (Job.complete now t) := by
  unfold complete Db.writeJob
  cases h : s.db.updateJob t.id (Job.complete now t) with
  | none => rfl
  | some p => cases answered <;> rfl

theorem markEffectStarted_db (s : State) (t : ClaimToken) (r : Run) (now : Nat) (answered : Bool) :
    (markEffectStarted s t r now answered).db =
      s.db.writeJob t.id (Job.markEffectStarted now t) := by
  unfold markEffectStarted Db.writeJob
  cases h : s.db.updateJob t.id (Job.markEffectStarted now t) with
  | none => cases answered <;> rfl
  | some p => cases answered <;> rfl

/-- **What a step does to a row.** -/
theorem step_row {l : Label} (h : step s l = some s') {id : Nat} {j' : Job}
    (hj : s'.db.jobs.lookup id = some j') : RowStep s s' id j' := by
  cases l with
  | enqueueJob new now =>
    cases h
    rcases s.db.enqueueJob_cases new now with ⟨_, he⟩ | ⟨he, -⟩
    · rw [he] at hj
      exact .same hj
    · rw [he] at hj
      simp only [Table.lookup_insert'] at hj
      split at hj
      · next hk =>
        exact .new hk (by simp [he, hk])
      · exact .same hj
  | claimDueJobs uuid ids registered now leaseMs answered =>
    simp only [step, Option.ite_none_left_eq_some, Option.some.injEq] at h
    obtain ⟨hu, rfl⟩ := h
    refine .of_updateJobs (fun id j => ?_) hj
    simp only [Job.claimAmong]
    split
    · exact .inr ⟨_, .claim hu, rfl⟩
    · exact .inl rfl
  | startRun t =>
    obtain ⟨r, -, -, rfl⟩ := found h
    exact .same hj
  | releaseClaims tokens now =>
    cases h
    exact .of_updateJobs (fun id j => .inr ⟨_, .releaseClaim, rfl⟩) hj
  | renewLease t now leaseMs =>
    cases h
    exact .of_writeJob .renewLease hj
  | markEffectStarted t now answered =>
    obtain ⟨r, hr, ⟨-, hb⟩, rfl⟩ := found h
    rw [markEffectStarted_db] at hj
    exact .of_writeJob (.markEffectStarted hr hb rfl) hj
  | takeStep t result =>
    obtain ⟨r, -, -, rfl⟩ := found h
    exact .same hj
  | markEffectDone t code now =>
    obtain ⟨r, -, -, rfl⟩ := found h
    exact .of_writeJob .markEffectDone hj
  | complete t now answered =>
    obtain ⟨r, -, -, rfl⟩ := found h
    rw [complete_db] at hj
    exact .of_writeJob .complete hj
  | handlerThrows t err =>
    obtain ⟨r, -, -, rfl⟩ := found h
    exact .same hj
  | settleFailure t now answered =>
    simp only [step, Option.bind_eq_some_iff] at h
    obtain ⟨r, hr, h⟩ := h
    split at h
    · next err hpc =>
      simp only [Option.some.injEq] at h
      subst h
      have hw : Writes s t.id (Job.settleFailure now t r.job.attempts r.job.maxAttempts err
          r.effectStarted) := .settleFailure hr hpc rfl
      refine .of_writeJob hw ?_
      cases answered <;> exact hj
    · cases h
  | halt t =>
    simp only [step, Option.bind_eq_some_iff, Option.some.injEq] at h
    obtain ⟨r, -, rfl⟩ := h
    exact .same hj
  | sweepExpiredLeases now =>
    cases h
    exact .of_updateJobs (fun id j => .inr ⟨_, .sweep, rfl⟩) hj
  | cancelJob id now =>
    cases h
    exact .of_writeJob .cancel hj
  | rescheduleJob id runAt scheduled except now =>
    cases h
    exact .of_writeJob .reschedule hj
  | failJobsOfDeletedAccount accountId now =>
    cases h
    exact .of_updateJobs (fun id j => .inr ⟨_, .failOfDeletedAccount, rfl⟩) hj
  | cleanupFinishedJobs now retentionMs keptFailedMs =>
    cases h
    simp only [Db.deleteExpiredJobs, Db.deleteFinishedContent, Table.lookup_delete,
      Option.filter_eq_some_iff] at hj
    exact .same hj.1

/-! ## Runs -/

/-- What became of the run of `t`: nothing, or one call of its own. -/
inductive RunStep (s s' : State) (t : ClaimToken) (r' : Run) : Prop
  | same : s.runs.lookup t = some r' → RunStep s s' t r'
  | new : r'.step = .untouched → t.uuid ∉ s.uuids → t.uuid ∈ s'.uuids →
    (s.db.jobs.lookup t.id).isSome → RunStep s s' t r'
  | marked : s.runs.lookup t = some r → ¬r.Busy → s.db.jobs.lookup t.id = some j →
    j.ClaimedBy t → s'.db.jobs.lookup t.id = some j' → j'.Reserved t → r.pc = .handling →
    r' = { r with effectStarted := true, step := .due } → RunStep s s' t r'
  | taken : s.runs.lookup t = some r → r.step = .due → r.pc = .handling →
    r' = { r with step := result } → RunStep s s' t r'
  | moved : s.runs.lookup t = some r → r'.step = r.step → r'.effectStarted = r.effectStarted →
    (∀ err, r'.pc = .settling err →
      r.pc = .settling err ∨ (r.Busy → err.jobOutcome ≠ some .retry)) → RunStep s s' t r'

theorem RunStep.of_setRun {u : ClaimToken} {r₀ r' : Run}
    (hr : (s.runs.insert u r₀).lookup t = some r') (hu : RunStep s s' u r₀) :
    RunStep s s' t r' := by
  rw [Table.lookup_insert'] at hr
  split at hr
  · next h =>
    cases hr
    exact h ▸ hu
  · exact .same hr

/-- **What a step does to a run.** -/
theorem step_run {l : Label} (h : step s l = some s') {t : ClaimToken} {r' : Run}
    (hr' : s'.runs.lookup t = some r') : RunStep s s' t r' := by
  cases l with
  | claimDueJobs uuid ids registered now leaseMs answered =>
    simp only [step, Option.ite_none_left_eq_some, Option.some.injEq] at h
    obtain ⟨hu, rfl⟩ := h
    cases answered with
    | false => exact .same hr'
    | true =>
      rcases Table.mem_of_lookup_insertAll hr' with hm | hr
      · simp only [newRuns, List.mem_map, Prod.exists, Prod.mk.injEq, Db.mem_updatedJobs] at hm
        obtain ⟨id, row, ⟨j, hj, -⟩, rfl, rfl⟩ := hm
        exact .new rfl hu List.mem_cons_self (by simp [hj])
      · exact .same hr
  | startRun u =>
    obtain ⟨r, hr, -, rfl⟩ := found h
    refine .of_setRun hr' ?_
    exact .moved hr rfl rfl nofun
  | releaseClaims tokens now =>
    cases h
    simp only [Table.lookup_update, Option.map_eq_some_iff] at hr'
    obtain ⟨r, hr, rfl⟩ := hr'
    split
    · exact .moved hr rfl rfl nofun
    · exact .same hr
  | markEffectStarted u now answered =>
    obtain ⟨r, hr, ⟨hpc, hb⟩, rfl⟩ := found h
    unfold markEffectStarted at hr' ⊢
    cases hu : s.db.updateJob u.id (Job.markEffectStarted now u) with
    | none =>
      cases answered with
      | false => exact .same (by simpa [hu] using hr')
      | true =>
        simp only [hu] at hr'
        refine .of_setRun hr' ?_
        exact .moved hr rfl rfl nofun
    | some p =>
      obtain ⟨row, db⟩ := p
      cases answered with
      | false => exact .same (by simpa [hu] using hr')
      | true =>
        obtain ⟨⟨j, hj, hm⟩, rfl⟩ := Db.updateJob_some.mp hu
        simp only [Job.markEffectStarted, Option.ite_none_right_eq_some, Option.some.injEq] at hm
        obtain ⟨hc, rfl⟩ := hm
        simp only [hu] at hr'
        refine .of_setRun hr' ?_
        exact .marked hr hb hj hc (AList.lookup_insert _) (.inr ⟨hc, rfl⟩) hpc rfl
  | takeStep u result =>
    obtain ⟨r, hr, ⟨hpc, hd, -⟩, rfl⟩ := found h
    refine .of_setRun hr' ?_
    exact .taken hr hd hpc rfl
  | markEffectDone u code now =>
    obtain ⟨r, -, -, rfl⟩ := found h
    exact .same hr'
  | complete u now answered =>
    obtain ⟨r, hr, ⟨hpc, -⟩, rfl⟩ := found h
    unfold complete at hr' ⊢
    cases hu : s.db.updateJob u.id (Job.complete now u) with
    | none => exact .same (by simpa [hu] using hr')
    | some p =>
      cases answered with
      | false => exact .same (by simpa [hu] using hr')
      | true =>
        simp only [hu] at hr'
        refine .of_setRun hr' ?_
        exact .moved hr rfl rfl fun _ he => absurd (hpc.symm.trans he) nofun
  | handlerThrows u err =>
    obtain ⟨r, hr, ⟨-, -, hretry⟩, rfl⟩ := found h
    refine .of_setRun hr' ?_
    unfold caught
    split
    · exact .moved hr rfl rfl nofun
    · refine .moved hr rfl rfl fun err' he => .inr ?_
      cases he
      exact hretry
  | settleFailure u now answered =>
    simp only [step, Option.bind_eq_some_iff] at h
    obtain ⟨r, hr, h⟩ := h
    split at h
    · simp only [Option.some.injEq] at h
      subst h
      cases answered with
      | false => exact .same hr'
      | true =>
        refine .of_setRun hr' ?_
        exact .moved hr rfl rfl nofun
    · cases h
  | halt u =>
    simp only [step, Option.bind_eq_some_iff, Option.some.injEq] at h
    obtain ⟨r, hr, rfl⟩ := h
    refine .of_setRun hr' ?_
    exact .moved hr rfl rfl nofun
  | _ =>
    cases h
    exact .same hr'

/-- No step forgets a run. -/
theorem step_keeps_run {l : Label} (h : step s l = some s') {t : ClaimToken} {r : Run}
    (hr : s.runs.lookup t = some r) : ∃ r', s'.runs.lookup t = some r' := by
  have hset (u : ClaimToken) (r₀ : Run) : ∃ r', (s.runs.insert u r₀).lookup t = some r' := by
    rw [Table.lookup_insert']
    split
    · exact ⟨_, rfl⟩
    · exact ⟨_, hr⟩
  cases l with
  | claimDueJobs uuid ids registered now leaseMs answered =>
    simp only [step, Option.ite_none_left_eq_some, Option.some.injEq] at h
    obtain ⟨-, rfl⟩ := h
    cases answered with
    | false => exact ⟨_, hr⟩
    | true => exact Table.lookup_insertAll_of_some hr
  | releaseClaims tokens now =>
    cases h
    simp [hr]
  | markEffectStarted u now answered =>
    obtain ⟨r₀, -, -, rfl⟩ := found h
    unfold markEffectStarted
    split
    · exact hset _ _
    · exact ⟨_, hr⟩
    · exact hset _ _
    · exact ⟨_, hr⟩
  | complete u now answered =>
    obtain ⟨r₀, -, -, rfl⟩ := found h
    unfold complete
    split
    · exact hset _ _
    · exact ⟨_, hr⟩
    · exact ⟨_, hr⟩
  | settleFailure u now answered =>
    simp only [step, Option.bind_eq_some_iff] at h
    obtain ⟨r₀, -, h⟩ := h
    split at h
    · simp only [Option.some.injEq] at h
      subst h
      cases answered with
      | false => exact ⟨_, hr⟩
      | true => exact hset _ _
    · cases h
  | startRun u | takeStep u result | handlerThrows u err | markEffectDone u code now =>
    obtain ⟨r₀, -, -, rfl⟩ := found h
    first | exact hset _ _ | exact ⟨_, hr⟩
  | halt u =>
    simp only [step, Option.bind_eq_some_iff, Option.some.injEq] at h
    obtain ⟨r₀, -, rfl⟩ := h
    exact hset _ _
  | _ =>
    cases h
    exact ⟨_, hr⟩

/-- The UUIDs drawn and the ids given out only grow. -/
theorem step_grows {l : Label} (h : step s l = some s') :
    s.uuids ⊆ s'.uuids ∧ s.db.nextJobId ≤ s'.db.nextJobId := by
  cases l with
  | claimDueJobs uuid ids registered now leaseMs answered =>
    simp only [step, Option.ite_none_left_eq_some, Option.some.injEq] at h
    obtain ⟨-, rfl⟩ := h
    exact ⟨List.subset_cons_self _ _, Nat.le_refl _⟩
  | enqueueJob new now =>
    cases h
    rcases s.db.enqueueJob_cases new now with ⟨_, he⟩ | ⟨he, -⟩ <;> simp [he]
  | markEffectStarted u now answered =>
    obtain ⟨r, -, -, rfl⟩ := found h
    rw [markEffectStarted_db]
    refine ⟨?_, by simp⟩
    unfold markEffectStarted
    split <;> exact List.Subset.refl _
  | complete u now answered =>
    obtain ⟨r, -, -, rfl⟩ := found h
    rw [complete_db]
    refine ⟨?_, by simp⟩
    unfold complete
    split <;> exact List.Subset.refl _
  | settleFailure u now answered =>
    simp only [step, Option.bind_eq_some_iff] at h
    obtain ⟨r, -, h⟩ := h
    split at h
    · simp only [Option.some.injEq] at h
      subst h
      cases answered <;> simp [State.setRun]
    · cases h
  | startRun u | takeStep u result | handlerThrows u err | markEffectDone u code now =>
    obtain ⟨r, -, -, rfl⟩ := found h
    simp [State.setRun]
  | halt u =>
    simp only [step, Option.bind_eq_some_iff, Option.some.injEq] at h
    obtain ⟨r, -, rfl⟩ := h
    simp [State.setRun]
  | _ =>
    cases h
    simp [Db.sweepExpiredLeases, Db.failJobsOfDeletedAccount, Db.deleteExpiredJobs,
      Db.deleteFinishedContent]

/-- An effect is counted only when a run whose step is due takes it. -/
theorem step_effects {l : Label} (h : step s l = some s') (id : Nat) :
    s'.effects id = s.effects id ∨
      ∃ t r r', t.id = id ∧ s.runs.lookup t = some r ∧ r.step = .due ∧
        s'.runs.lookup t = some r' ∧ r'.step = .took ∧ s'.effects id = s.effects id + 1 := by
  cases l with
  | takeStep u result =>
    obtain ⟨r, hr, ⟨-, hd, -⟩, rfl⟩ := found h
    by_cases hu : result = .took ∧ u.id = id
    · obtain ⟨rfl, rfl⟩ := hu
      exact .inr ⟨u, r, _, rfl, hr, hd, AList.lookup_insert _, rfl, by simp⟩
    · refine .inl ?_
      dsimp only
      split
      · next ht => exact Function.update_of_ne (fun he => hu ⟨ht, he.symm⟩) _ _
      · rfl
  | claimDueJobs uuid ids registered now leaseMs answered =>
    simp only [step, Option.ite_none_left_eq_some, Option.some.injEq] at h
    obtain ⟨-, rfl⟩ := h
    exact .inl rfl
  | markEffectStarted u now answered =>
    obtain ⟨r, -, -, rfl⟩ := found h
    unfold markEffectStarted
    split <;> exact .inl rfl
  | complete u now answered =>
    obtain ⟨r, -, -, rfl⟩ := found h
    unfold complete
    split <;> exact .inl rfl
  | settleFailure u now answered =>
    simp only [step, Option.bind_eq_some_iff] at h
    obtain ⟨r, -, h⟩ := h
    split at h
    · simp only [Option.some.injEq] at h
      subst h
      cases answered <;> exact .inl rfl
    · cases h
  | startRun u | handlerThrows u err | markEffectDone u code now =>
    obtain ⟨r, -, -, rfl⟩ := found h
    exact .inl rfl
  | halt u =>
    simp only [step, Option.bind_eq_some_iff, Option.some.injEq] at h
    obtain ⟨r, -, rfl⟩ := h
    exact .inl rfl
  | _ =>
    cases h
    exact .inl rfl

/-- No statement matches a finished job. -/
theorem Writes.finished {f : Job → Option Job} {j j' : Job} (hw : Writes s id f)
    (h : f j = some j') : j.status ≠ .done ∧ j.status ≠ .cancelled := by
  cases hw <;>
    simp only [Job.claim, Job.releaseClaim, Job.renewLease, Job.markEffectStarted,
      Job.markEffectDone, Job.complete, Job.settleFailure, Job.sweep, Job.cancel, Job.reschedule,
      Job.failOfDeletedAccount, Option.ite_none_right_eq_some, Job.ClaimedBy,
      List.mem_singleton] at h <;>
    grind

/-- `outcomeOf` answers `retry` after the effect was marked only for an error that says so. -/
theorem outcomeOf_ne_retry {err : Thrown} (h : err.jobOutcome ≠ some .retry) :
    outcomeOf attempts maxAttempts err true ≠ .retry := by
  unfold outcomeOf
  cases ho : err.jobOutcome with
  | none => simp
  | some o => cases o <;> simp_all

/-- No statement but the settle of `t` itself makes a job that `t` reserved claimable. -/
theorem Writes.reserved {f : Job → Option Job} {j j' : Job} {t : ClaimToken} (hw : Writes s id f)
    (hf : f j = some j') (hj : j.Reserved t)
    (hs : ∀ r err, s.runs.lookup t = some r → r.pc = .settling err →
      r.effectStarted = true ∧ err.jobOutcome ≠ some .retry) : j'.Reserved t := by
  have hq : j.status ≠ .queued := by
    rcases hj with h | h
    · exact h.1
    · exact fun hq => nomatch hq.symm.trans h.1.1
  cases hw with
  | settleFailure hr hpc _ =>
    simp only [Job.settleFailure, Option.ite_none_right_eq_some] at hf
    obtain ⟨hc, hf⟩ := hf
    rcases hj with h | ⟨hct, -⟩
    · exact absurd hc.1 h.2
    · obtain rfl := Option.some.inj (hct.2.symm.trans hc.2)
      obtain ⟨he, ho⟩ := hs _ _ hr hpc
      rw [he] at hf
      split at hf
      · next hretry => exact absurd hretry (outcomeOf_ne_retry ho)
      · cases hf
        exact .inl ⟨nofun, nofun⟩
      · cases hf
        exact .inl ⟨nofun, nofun⟩
  | _ =>
    simp only [Job.claim, Job.releaseClaim, Job.renewLease, Job.markEffectStarted,
      Job.markEffectDone, Job.complete, Job.sweep, Job.cancel, Job.reschedule,
      Job.failOfDeletedAccount, Option.ite_none_right_eq_some, List.mem_singleton] at hf
    grind [Job.Reserved, Job.ClaimedBy]

/-! ## The invariant -/

structure Inv (s : State) : Prop where
  rows : ∀ {id j}, s.db.jobs.lookup id = some j → id < s.db.nextJobId
  drawn : ∀ {t r}, s.runs.lookup t = some r → t.uuid ∈ s.uuids ∧ t.id < s.db.nextJobId
  started : ∀ {t r}, s.runs.lookup t = some r → r.Busy → r.effectStarted = true
  settling : ∀ {t r err}, s.runs.lookup t = some r → r.Busy → r.pc = .settling err →
    err.jobOutcome ≠ some .retry
  safe : ∀ {t r j}, s.runs.lookup t = some r → r.Busy → s.db.jobs.lookup t.id = some j → j.Reserved t
  sole : ∀ {t t' r r'}, s.runs.lookup t = some r → s.runs.lookup t' = some r' → r.Busy → r'.Busy →
    t.id = t'.id → t = t'
  counted : ∀ id, s.effects id = 0 ∨ s.effects id = 1 ∧
    ∃ t r, t.id = id ∧ s.runs.lookup t = some r ∧ r.step = .took

/-- A busy run was busy before, or has just marked the effect of a job it holds. -/
theorem RunStep.busy {t : ClaimToken} {r' : Run} (h : RunStep s s' t r') (hb : r'.Busy) :
    (∃ r, s.runs.lookup t = some r ∧ r.Busy ∧ r'.effectStarted = r.effectStarted ∧
      ∀ err, r'.pc = .settling err → r.pc = .settling err ∨ err.jobOutcome ≠ some .retry) ∨
    (∃ j j', s.db.jobs.lookup t.id = some j ∧ j.ClaimedBy t ∧
      s'.db.jobs.lookup t.id = some j' ∧ j'.Reserved t ∧ r'.effectStarted = true ∧
      r'.pc = .handling) := by
  cases h with
  | same hr => exact .inl ⟨r', hr, hb, rfl, fun _ h => .inl h⟩
  | new hu => simp [Run.Busy, hu] at hb
  | marked hr _ hj hc hj' hres hpc he =>
    subst he
    exact .inr ⟨_, _, hj, hc, hj', hres, rfl, hpc⟩
  | taken hr hd hpc he =>
    subst he
    exact .inl ⟨_, hr, .inl hd, rfl, fun err h => absurd (hpc.symm.trans h) nofun⟩
  | @moved r hr hstep he hpc =>
    have hbr : r.Busy := by
      rw [Run.Busy, hstep] at hb
      exact hb
    refine .inl ⟨r, hr, hbr, he, fun err h => ?_⟩
    exact (hpc err h).imp id fun h => h hbr

theorem Inv.step {l : Label} (hs : Inv s) (h : step s l = some s') : Inv s' := by
  obtain ⟨hu, hn⟩ := step_grows h
  -- the row that a newly busy run holds is claimed, so no other run of the job is busy
  have halone {t t' : ClaimToken} {r : Run} {j : Job} (hj : s.db.jobs.lookup t.id = some j)
      (hc : j.ClaimedBy t) (hr : s.runs.lookup t' = some r) (hb : r.Busy) (hid : t'.id = t.id) :
      t' = t := by
    rcases hs.safe hr hb (hid ▸ hj) with hres | ⟨hc', -⟩
    · exact absurd hc.1 hres.2
    · exact Option.some.inj (hc'.2.symm.trans hc.2)
  refine { rows := ?_, drawn := ?_, started := ?_, settling := ?_, safe := ?_, sole := ?_,
           counted := ?_ }
  · intro id j hj
    cases step_row h hj with
    | same hj => exact Nat.lt_of_lt_of_le (hs.rows hj) hn
    | write hj => exact Nat.lt_of_lt_of_le (hs.rows hj) hn
    | new _ hid => exact hid
  · intro t r' hr'
    have hold {r : Run} (hr : s.runs.lookup t = some r) :
        t.uuid ∈ s'.uuids ∧ t.id < s'.db.nextJobId :=
      ⟨hu (hs.drawn hr).1, Nat.lt_of_lt_of_le (hs.drawn hr).2 hn⟩
    cases step_run h hr' with
    | new _ _ hmem hj =>
      obtain ⟨j, hj⟩ := Option.isSome_iff_exists.mp hj
      exact ⟨hmem, Nat.lt_of_lt_of_le (hs.rows hj) hn⟩
    | same hr | marked hr | taken hr | moved hr => exact hold hr
  · intro t r' hr' hb
    rcases (step_run h hr').busy hb with ⟨r, hr, hbr, he, -⟩ | ⟨_, _, _, _, _, _, he, _⟩
    · exact he.trans (hs.started hr hbr)
    · exact he
  · intro t r' err hr' hb hpc
    rcases (step_run h hr').busy hb with ⟨r, hr, hbr, -, hset⟩ | ⟨_, _, _, _, _, _, _, hh⟩
    · exact (hset err hpc).elim (hs.settling hr hbr) id
    · exact absurd (hh.symm.trans hpc) nofun
  · intro t r' j' hr' hb hj'
    rcases (step_run h hr').busy hb with ⟨r, hr, hbr, -, -⟩ | ⟨_, j₁, _, _, hj₁, hres, _, _⟩
    · cases step_row h hj' with
      | same hj => exact hs.safe hr hbr hj
      | write hj hw hf =>
        refine hw.reserved hf (hs.safe hr hbr hj) fun r₁ err hr₁ hpc => ?_
        obtain rfl := Option.some.inj (hr.symm.trans hr₁)
        exact ⟨hs.started hr hbr, hs.settling hr hbr hpc⟩
      | new hid => exact absurd (hs.drawn hr).2 (by omega)
    · exact Option.some.inj (hj₁.symm.trans hj') ▸ hres
  · intro t r₁ t' r₂ hr₁ hr₂ hb₁ hb₂ hid
    rcases (step_run h hr₁).busy hb₁ with ⟨r, hr, hbr, -, -⟩ | ⟨j, _, hj, hc, -, -, -, -⟩
    · rcases (step_run h hr₂).busy hb₂ with ⟨r', hr', hbr', -, -⟩ | ⟨j, _, hj, hc, -, -, -, -⟩
      · exact hs.sole hr hr' hbr hbr' hid
      · exact halone hj hc hr hbr hid
    · rcases (step_run h hr₂).busy hb₂ with ⟨r', hr', hbr', -, -⟩ | ⟨j', _, hj', hc', -, -, -, -⟩
      · exact (halone hj hc hr' hbr' hid.symm).symm
      · obtain rfl := Option.some.inj (hj.symm.trans (hid ▸ hj'))
        exact Option.some.inj (hc.2.symm.trans hc'.2)
  · intro id
    have hkeep {t : ClaimToken} {r : Run} (hr : s.runs.lookup t = some r) (ht : r.step = .took) :
        ∃ r', s'.runs.lookup t = some r' ∧ r'.step = .took := by
      obtain ⟨r', hr'⟩ := step_keeps_run h hr
      refine ⟨r', hr', ?_⟩
      have hsame {r₁ : Run} (hr₁ : s.runs.lookup t = some r₁) : r₁.step = .took :=
        Option.some.inj (hr.symm.trans hr₁) ▸ ht
      cases step_run h hr' with
      | same hr₁ => exact hsame hr₁
      | new _ hfresh => exact absurd (hs.drawn hr).1 hfresh
      | marked hr₁ hb => exact absurd (.inr (.inl (hsame hr₁))) hb
      | taken hr₁ hd => exact nomatch hd.symm.trans (hsame hr₁)
      | moved hr₁ he => exact he.trans (hsame hr₁)
    rcases step_effects h id with he | ⟨t, r, r', hid, hr, hd, hr', ht, he⟩
    · rw [he]
      rcases hs.counted id with h0 | ⟨h1, t, r, hid, hr, ht⟩
      · exact .inl h0
      · obtain ⟨r', hr', ht'⟩ := hkeep hr ht
        exact .inr ⟨h1, t, r', hid, hr', ht'⟩
    · rcases hs.counted id with h0 | ⟨-, t₁, r₁, hid₁, hr₁, ht₁⟩
      · exact .inr ⟨by omega, t, r', hid, hr', ht⟩
      · have heq := hs.sole hr hr₁ (.inl hd) (.inr (.inl ht₁)) (hid.trans hid₁.symm)
        obtain rfl := heq
        obtain rfl := Option.some.inj (hr.symm.trans hr₁)
        exact nomatch hd.symm.trans ht₁

theorem inv : system.Invariant TransitionSystem.anyStep Inv where
  init := by
    rintro s ⟨hj, hr, he⟩
    constructor <;> simp [hj, hr, he]
  step hs _ h := hs.step h

/-- A finished job keeps its status for as long as its row lives; its id names no other job. -/
def Finished (id : Nat) (status : JobStatus) (s : State) : Prop :=
  id < s.db.nextJobId ∧ ∀ j, s.db.jobs.lookup id = some j → j.status = status

theorem finished_stable (hst : status = .done ∨ status = .cancelled) :
    system.Stable TransitionSystem.anyStep (Finished id status) := by
  intro s l s' ⟨hid, hs⟩ _ h
  refine ⟨Nat.lt_of_lt_of_le hid (step_grows h).2, fun j' hj' => ?_⟩
  cases step_row h hj' with
  | same hj => exact hs _ hj
  | write hj hw hf =>
    have hne := hw.finished hf
    rw [hs _ hj] at hne
    exact absurd hst (by simp [hne])
  | new he => omega

/-- **At most once.** The irreversible step of a job takes effect at most once, and a job that is
done or cancelled never has another status. -/
theorem at_most_once (hs : system.Reachable s) :
    (∀ id, s.effects id ≤ 1) ∧
    ∀ id j, s.db.jobs.lookup id = some j → j.status = .done ∨ j.status = .cancelled →
      ∀ s', system.Run TransitionSystem.anyStep s s' →
        ∀ j', s'.db.jobs.lookup id = some j' → j'.status = j.status := by
  have hi := inv.reachable hs
  constructor
  · intro id
    rcases hi.counted id with h | ⟨h, -⟩ <;> omega
  · intro id j hj hst s' hr
    have hf : Finished id j.status s := by
      refine ⟨hi.rows hj, fun j' hj' => ?_⟩
      exact congrArg Job.status (Option.some.inj (hj'.symm.trans hj))
    exact ((finished_stable hst).run hf hr).2

def State.empty : State where
  db := { jobs := ∅, outgoing := ∅, nextJobId := 1 }
  runs := ∅
  uuids := []
  effects _ := 0

theorem at_most_once_one_run : ∃ s j, s.effects 1 = 1 ∧ s.db.jobs.lookup 1 = some j ∧
    j.status = .done ∧ (∀ id, s.effects id ≤ 1) ∧
    ∀ s', system.Run TransitionSystem.anyStep s s' →
      ∀ j', s'.db.jobs.lookup 1 = some j' → j'.status = j.status := by
  let t : ClaimToken := ⟨7, 1⟩
  have hinit : system.init State.empty := ⟨rfl, rfl, fun _ => rfl⟩
  have htrace : (system.exec TransitionSystem.anyStep State.empty [.enqueueJob { kind := "send_message" } 0,
      .claimDueJobs 7 [1] ["send_message"] 5 JOB_LEASE_MS true, .startRun t,
      .markEffectStarted t 6 true, .takeStep t .took, .markEffectDone t "delivered" 8,
      .complete t 9 true]).any
        (fun s => s.effects 1 = 1 ∧ (s.db.jobs.lookup 1).any (·.status = .done)) = true := by
    decide
  obtain ⟨s, hs, hp⟩ := TransitionSystem.reaches_of_exec hinit htrace
  simp only [decide_eq_true_eq, Option.any_eq_true] at hp
  obtain ⟨he, j, hj, hd⟩ := hp
  obtain ⟨heff, hfin⟩ := at_most_once hs
  exact ⟨s, j, he, hj, hd, heff, hfin 1 j hj (.inl hd)⟩

end Worker
end MailExpert.JobQueue
