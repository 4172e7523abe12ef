import MailExpert.SendQueue.System

/-!
# What a step of the send queue can do

`step_letter` says what a step does to one job and its content: nothing, one of the statements of
`Writes` on the job alone, one of `Finishes` on the job while its content goes, or the row is new
or deleted. `step_run` says where a step moves a run, and `step_frame` what it leaves of the rest.
The invariants of the queue are proved from these, not from the step function.
-/

namespace MailExpert.SendQueue

open JobQueue

variable {s s' : State} {l : Label} {id : Nat}

/-- The statements on a job that leave its content alone. -/
inductive Writes (s : State) (l : Label) (id : Nat) : (Job → Option Job) → Prop
  | claim : uuid ∉ s.uuids → Writes s l id (Job.claim now ⟨uuid, id⟩ leaseMs registered)
  | releaseClaim : Writes s l id (Job.releaseClaim now tokens)
  | renewLease : Writes s l id (Job.renewLease now t leaseMs)
  | markEffectStarted : s.runs.lookup t = some r → r.pc = .handling → t.id = id →
    Writes s l id (Job.markEffectStarted now t)
  | markEffectDone : s.runs.lookup t = some r → r.pc = .delivered → t.id = id →
    Writes s l id (Job.markEffectDone now DELIVERED_UNRECORDED)
  | settleFailure : s.runs.lookup t = some r → r.pc = .settling err → t.id = id →
    Writes s l id
      (Job.settleFailure now t r.job.attempts r.job.maxAttempts err r.effectStarted)
  | completeReturned : s.runs.lookup t = some r → r.pc = .returned → t.id = id →
    Writes s l id (Job.complete now t)
  | sweep : Writes s l id (Job.sweep now)
  | reschedule {resend : Bool} : l = .rescheduleScheduled id who sendAt resend now →
    (managedJob s.db id who).isSome → Writes s l id (Job.reschedule now sendAt
      (if resend then CANCELLABLE_STATUSES else [.queued]) scheduled NO_RESEND_CODES)
  | failOfDeletedAccount : Writes s l id (Job.failOfDeletedAccount now accountId)

/-- The statements that finish a job whose content goes with them. -/
inductive Finishes (s : State) (l : Label) (id : Nat) : (Job → Option Job) → Prop
  | complete : s.runs.lookup t = some r → r.pc = .recording again → t.id = id →
    Finishes s l id (completeKeeping t rejected now)
  | settleSwept : s.runs.lookup t = some r → r.pc = .settlingSwept again → t.id = id →
    Finishes s l id (settleSwept rejected now)
  | cancel : l = .cancelScheduled id who reason now → Finishes s l id (Job.cancel now CANCELLABLE_STATUSES)

/-- What became of the job `id` and of its content. -/
inductive LetterStep (s : State) (l : Label) (s' : State) (id : Nat) : Prop
  | same : s'.db.jobs.lookup id = s.db.jobs.lookup id →
    s'.db.outgoing.lookup id = s.db.outgoing.lookup id → LetterStep s l s' id
  | write : s.db.jobs.lookup id = some j → Writes s l id f → f j = some j' →
    s'.db.jobs.lookup id = some j' → s'.db.outgoing.lookup id = s.db.outgoing.lookup id →
    LetterStep s l s' id
  | finish : s.db.jobs.lookup id = some j → Finishes s l id f → f j = some j' →
    s'.db.jobs.lookup id = some j' → s'.db.outgoing.lookup id = none → LetterStep s l s' id
  | enqueued : id = s.db.nextJobId → id < s'.db.nextJobId → s'.db.jobs.lookup id = some j' →
    j'.status = .queued → j'.kind = SEND_JOB_KIND → (s'.db.outgoing.lookup id).isSome →
    LetterStep s l s' id
  | enqueuedOther : id = s.db.nextJobId → id < s'.db.nextJobId → s'.db.jobs.lookup id = some j' →
    j'.status = .queued → j'.kind ≠ SEND_JOB_KIND →
    s'.db.outgoing.lookup id = s.db.outgoing.lookup id → LetterStep s l s' id
  | otherKind : s.db.jobs.lookup id = some j → j.kind ≠ SEND_JOB_KIND → j'.kind = j.kind →
    s'.db.jobs.lookup id = some j' → s'.db.outgoing.lookup id = s.db.outgoing.lookup id →
    LetterStep s l s' id
  | cleaned : s'.db.jobs.lookup id = s.db.jobs.lookup id → s.db.jobs.lookup id = some j →
    j.status = .done ∨ j.status = .cancelled → s'.db.outgoing.lookup id = none →
    LetterStep s l s' id
  | deleted : s'.db.jobs.lookup id = none → s'.db.outgoing.lookup id = none → LetterStep s l s' id

theorem LetterStep.of_db_eq (h : s'.db = s.db) : LetterStep s l s' id :=
  .same (by rw [h]) (by rw [h])

theorem LetterStep.of_updateJobs {g : Nat → Job → Option Job}
    (hg : ∀ j, g id j = none ∨ ∃ f, Writes s l id f ∧ g id j = f j)
    (h : s'.db = s.db.updateJobs g) : LetterStep s l s' id := by
  have ho : s'.db.outgoing.lookup id = s.db.outgoing.lookup id := by rw [h]; rfl
  have hj' : s'.db.jobs.lookup id = (s.db.jobs.lookup id).map fun j => (g id j).getD j := by
    rw [h, Db.updateJobs_jobs]
  cases hj : s.db.jobs.lookup id with
  | none => exact .same (by rw [hj', hj]; rfl) ho
  | some j =>
    rw [hj] at hj'
    cases hr : g id j with
    | none => exact .same (by simp [hj', hj, hr]) ho
    | some j' =>
      rcases hg j with hn | ⟨f, hw, hf⟩
      · exact absurd (hn.symm.trans hr) nofun
      · exact .write hj hw (hf ▸ hr) (by simp [hj', hr]) ho

theorem LetterStep.of_writeJob {f : Job → Option Job} {k : Nat} (hw : Writes s l k f)
    (h : s'.db = s.db.writeJob k f) : LetterStep s l s' id := by
  have ho : s'.db.outgoing.lookup id = s.db.outgoing.lookup id := by simp [h]
  have hj' : s'.db.jobs.lookup id = if id = k then (s.db.jobs.lookup k).map fun j => (f j).getD j
      else s.db.jobs.lookup id := by
    rw [h, Db.writeJob_jobs]
  split at hj'
  · next hk =>
    subst hk
    cases hj : s.db.jobs.lookup id with
    | none => exact .same (by rw [hj', hj]; rfl) ho
    | some j =>
      rw [hj] at hj'
      cases hr : f j with
      | none => exact .same (by simp [hj', hj, hr]) ho
      | some j' => exact .write hj hw hr (by simp [hj', hr]) ho
  · exact .same hj' ho

theorem LetterStep.of_updateJob {f : Job → Option Job} {k : Nat} {row : Job} {db : Db}
    (hw : Writes s l k f) (hu : s.db.updateJob k f = some (row, db)) (h : s'.db = db) :
    LetterStep s l s' id := by
  refine .of_writeJob hw ?_
  rw [h, Db.writeJob, hu]
  rfl

theorem LetterStep.of_finishLetter {f : Job → Option Job} {k : Nat} {row : Job} {db : Db}
    (hw : Finishes s l k f) (hu : finishLetter s.db k f = some (row, db)) (h : s'.db = db) :
    LetterStep s l s' id := by
  obtain ⟨⟨j, hj, hf⟩, rfl⟩ := finishLetter_some.mp hu
  by_cases hk : id = k
  · subst hk
    exact .finish hj hw hf (by rw [h, AList.lookup_insert]) (by rw [h, AList.lookup_erase])
  · exact .same (by rw [h, AList.lookup_insert_ne hk]) (by rw [h, AList.lookup_erase_ne hk])

theorem LetterStep.of_enqueueOutgoingSend {letter : NewLetter} {now : Nat}
    (h : s'.db = (enqueueOutgoingSend s.db letter now).2) : LetterStep s l s' id := by
  rcases s.db.enqueueJob_cases letter.job now with ⟨k, he⟩ | ⟨he, -⟩
  · exact .of_db_eq (by simp [h, enqueueOutgoingSend, he])
  · simp only [enqueueOutgoingSend, he, if_true] at h
    by_cases hk : id = s.db.nextJobId
    · subst hk
      exact .enqueued rfl (by rw [h]; exact Nat.lt_succ_self _) (by rw [h, AList.lookup_insert])
        rfl rfl (by rw [h, AList.lookup_insert]; rfl)
    · exact .same (by rw [h, AList.lookup_insert_ne hk]) (by rw [h, AList.lookup_insert_ne hk])

/-- **What a step does to a letter.** -/
theorem step_letter (h : step s l = some s') (id : Nat) : LetterStep s l s' id := by
  cases l with
  | enqueueOutgoingSend letter now =>
    simp only [step, Option.some.injEq] at h
    exact .of_enqueueOutgoingSend (by rw [← h])
  | enqueueOther new now =>
    simp only [step, Option.ite_none_left_eq_some, Option.some.injEq] at h
    obtain ⟨hk, rfl⟩ := h
    rcases s.db.enqueueJob_cases new now with ⟨k, he⟩ | ⟨he, -⟩
    · exact .of_db_eq (by simp [he])
    · by_cases hid : id = s.db.nextJobId
      · subst hid
        exact .enqueuedOther rfl (by rw [he]; exact Nat.lt_succ_self _)
          (by rw [he, AList.lookup_insert]) rfl hk (by rw [he])
      · exact .same (by rw [he, AList.lookup_insert_ne hid]) (by rw [he])
  | otherKind k row =>
    obtain ⟨j, hj, ⟨hk, hrow⟩, rfl⟩ := found h
    by_cases hid : id = k
    · subst hid
      exact .otherKind hj hk hrow (AList.lookup_insert _) rfl
    · exact .same (AList.lookup_insert_ne hid) rfl
  | claimDueJobs uuid ids registered now leaseMs answered =>
    simp only [step, Option.ite_none_left_eq_some, Option.some.injEq] at h
    obtain ⟨hu, rfl⟩ := h
    refine .of_updateJobs (fun j => ?_) rfl
    simp only [Job.claimAmong]
    split
    · exact .inr ⟨_, .claim hu, rfl⟩
    · exact .inl rfl
  | releaseClaims tokens now =>
    cases h
    exact .of_updateJobs (fun j => .inr ⟨_, .releaseClaim, rfl⟩) rfl
  | renewLease t now leaseMs =>
    cases h
    exact .of_writeJob .renewLease rfl
  | markEffectStarted t now answered =>
    obtain ⟨r, hr, hpc, rfl⟩ := found h
    have hw : Writes s (.markEffectStarted t now answered) t.id (Job.markEffectStarted now t) := .markEffectStarted hr hpc rfl
    unfold markEffectStarted
    split
    · next hu => exact .of_updateJob hw hu rfl
    · next hu => exact .of_updateJob hw hu rfl
    · exact .of_db_eq rfl
    · exact .of_db_eq rfl
  | handlerThrows t err | serverTook t =>
    obtain ⟨r, -, -, rfl⟩ := found h
    exact .of_db_eq rfl
  | markEffectDone t now ran =>
    obtain ⟨r, hr, hpc, rfl⟩ := found h
    cases ran with
    | false => exact .of_db_eq rfl
    | true => exact .of_writeJob (.markEffectDone hr hpc rfl) rfl
  | complete t rejected now answer =>
    simp only [step, Option.bind_eq_some_iff] at h
    obtain ⟨r, hr, h⟩ := h
    split at h
    · next again hpc =>
      simp only [Option.some.injEq] at h
      subst h
      unfold complete
      split
      · next hu =>
        obtain ⟨p, hp, rfl⟩ := Option.map_eq_some_iff.mp hu
        exact .of_finishLetter (.complete hr hpc rfl) hp rfl
      · next hu =>
        obtain ⟨p, hp, rfl⟩ := Option.map_eq_some_iff.mp hu
        exact .of_finishLetter (.complete hr hpc rfl) hp rfl
      · exact .of_db_eq rfl
      · exact .of_db_eq rfl
    · cases h
  | settleSweptDelivery t rejected now answer =>
    simp only [step, Option.bind_eq_some_iff] at h
    obtain ⟨r, hr, h⟩ := h
    split at h
    · next again hpc =>
      simp only [Option.some.injEq] at h
      subst h
      unfold settleSweptRow
      split
      · next hu =>
        obtain ⟨p, hp, rfl⟩ := Option.map_eq_some_iff.mp hu
        exact .of_finishLetter (.settleSwept hr hpc rfl) hp rfl
      · next hu =>
        obtain ⟨p, hp, rfl⟩ := Option.map_eq_some_iff.mp hu
        exact .of_finishLetter (.settleSwept hr hpc rfl) hp rfl
      · exact .of_db_eq rfl
      · exact .of_db_eq rfl
    · cases h
  | completeReturned t now =>
    obtain ⟨r, hr, hpc, rfl⟩ := found h
    exact .of_writeJob (.completeReturned hr hpc rfl) rfl
  | settleFailure t now answered =>
    simp only [step, Option.bind_eq_some_iff] at h
    obtain ⟨r, hr, h⟩ := h
    split at h
    · next err hpc =>
      simp only [Option.some.injEq] at h
      subst h
      have hw : Writes s (.settleFailure t now answered) t.id (Job.settleFailure now t
          r.job.attempts r.job.maxAttempts err r.effectStarted) := .settleFailure hr hpc rfl
      cases answered <;> exact .of_writeJob hw rfl
    · cases h
  | halt t =>
    simp only [step, Option.bind_eq_some_iff, Option.some.injEq] at h
    obtain ⟨r, -, rfl⟩ := h
    exact .of_db_eq rfl
  | sweepExpiredLeases now =>
    cases h
    exact .of_updateJobs (g := fun _ => Job.sweep now) (fun j => .inr ⟨_, .sweep, rfl⟩) rfl
  | cancelScheduled k who reason now =>
    simp only [step, Option.map_eq_some_iff, cancelScheduled, Option.bind_eq_bind,
      Option.bind_eq_some_iff, Prod.exists, Option.some.injEq, Prod.mk.injEq] at h
    obtain ⟨_, db, ⟨j, -, row, db', hu, -, rfl⟩, rfl⟩ := h
    exact .of_finishLetter (.cancel rfl) hu rfl
  | rescheduleScheduled k who sendAt resend now =>
    simp only [step, Option.map_eq_some_iff, rescheduleScheduled, Option.bind_eq_bind,
      Option.bind_eq_some_iff, Option.some.injEq] at h
    obtain ⟨db, ⟨j, hj, ⟨row, db'⟩, hu, rfl⟩, rfl⟩ := h
    exact .of_updateJob (.reschedule rfl (by simp [hj])) hu rfl
  | failJobsOfDeletedAccount accountId now =>
    cases h
    exact .of_updateJobs (g := fun _ => Job.failOfDeletedAccount now accountId)
      (fun j => .inr ⟨_, .failOfDeletedAccount, rfl⟩) rfl
  | deleteFinishedContent =>
    cases h
    have ho := s.db.deleteFinishedContent_outgoing id
    split at ho
    · next hd =>
      simp only [Option.any_eq_true, decide_eq_true_eq] at hd
      obtain ⟨j, hj, hd⟩ := hd
      exact .cleaned rfl hj hd ho
    · exact .same rfl ho
  | deleteExpiredJobs now retentionMs keptFailedMs =>
    cases h
    have ho := s.db.deleteExpiredJobs_outgoing id now retentionMs keptFailedMs
    have hjobs := s.db.deleteExpiredJobs_jobs id now retentionMs keptFailedMs
    cases hj : s.db.jobs.lookup id with
    | none => exact .same (by simp [hjobs, hj]) (by simpa [hj] using ho)
    | some j =>
      by_cases hd : j.Expired now retentionMs keptFailedMs
      · exact .deleted (by simp [hjobs, hj, hd]) (by simpa [hj, hd] using ho)
      · exact .same (by simp [hjobs, hj, hd]) (by simpa [hj, hd] using ho)

/-! ## Runs -/

/-- The claim of `t` is gone: settled, swept or given to another run. -/
def Lost (db : Db) (t : ClaimToken) : Prop :=
  ∀ j, db.jobs.lookup t.id = some j → ¬j.ClaimedBy t

/-- The label claims a job under `t`. -/
def Label.claims : Label → ClaimToken → Bool
  | .claimDueJobs uuid ids _ _ _ _, t => t.uuid = uuid ∧ t.id ∈ ids
  | _, _ => false

/-- Where one step can take the run of `t`. -/
inductive Moves (s : State) (t : ClaimToken) : Pc → Pc → Prop
  | stop : Moves s t pc .ended
  | effectStarted : Moves s t .handling .sending
  | throws : pc = .handling ∨ pc = .sending → Moves s t pc (.settling err)
  | took : Moves s t .sending .delivered
  | effectDone : Moves s t .delivered (.recording false)
  | claimGone : Lost s.db t → Moves s t (.recording again) (.settlingSwept again)
  | recordingFailed : Moves s t (.recording again) (recordingFailed again)
  | settlingFailed : Moves s t (.settlingSwept again) (SendQueue.recordingFailed again)
  | returned : Moves s t (.settlingSwept again) .returned

/-- What became of the run of `t`. -/
inductive RunStep (s : State) (l : Label) (s' : State) (t : ClaimToken) (r' : Run) : Prop
  | same : s.runs.lookup t = some r' → RunStep s l s' t r'
  | new : l.claims t = true → r'.pc = .handling → t.uuid ∉ s.uuids → t.uuid ∈ s'.uuids →
    s.db.jobs.lookup t.id = some j → j.kind = SEND_JOB_KIND → RunStep s l s' t r'
  | moved : s.runs.lookup t = some r → Moves s t r.pc r'.pc → RunStep s l s' t r'

theorem RunStep.of_setRun {u : ClaimToken} {r₀ r' : Run}
    (hr : (s.runs.insert u r₀).lookup t = some r') (hu : RunStep s l s' u r₀) :
    RunStep s l s' t r' := by
  rw [Table.lookup_insert'] at hr
  split at hr
  · next h =>
    cases hr
    exact h ▸ hu
  · exact .same hr

theorem lost_of_completeLetter_none (h : completeLetter s.db t rejected now = none) :
    Lost s.db t := by
  intro j hj hc
  simp only [completeLetter, finishLetter, Db.updateJob, hj, completeKeeping, Job.complete, hc,
    Option.bind_some, if_true, Option.map_some] at h
  cases h

/-- **Where a step takes a run.** -/
theorem step_run (h : step s l = some s') {t : ClaimToken} {r' : Run}
    (hr' : s'.runs.lookup t = some r') : RunStep s l s' t r' := by
  cases l with
  | claimDueJobs uuid ids registered now leaseMs answered =>
    simp only [step, Option.ite_none_left_eq_some, Option.some.injEq] at h
    obtain ⟨hu, rfl⟩ := h
    cases answered with
    | false => exact .same hr'
    | true =>
      rcases Table.mem_of_lookup_insertAll hr' with hm | hr
      · simp only [newRuns, List.mem_map, List.mem_filter, Prod.exists, Prod.mk.injEq,
          Db.mem_updatedJobs, Job.claimAmong, Job.claim, Option.ite_none_right_eq_some,
          Option.some.injEq, decide_eq_true_eq] at hm
        obtain ⟨id, row, ⟨⟨j, hj, hid, -, rfl⟩, hk⟩, rfl, rfl⟩ := hm
        exact .new (by simp [Label.claims, hid]) rfl hu List.mem_cons_self hj hk
      · exact .same hr
  | releaseClaims tokens now =>
    cases h
    simp only [Table.lookup_update, Option.map_eq_some_iff] at hr'
    obtain ⟨r, hr, rfl⟩ := hr'
    split
    · exact .moved hr .stop
    · exact .same hr
  | markEffectStarted u now answered =>
    obtain ⟨r, hr, hpc, rfl⟩ := found h
    unfold markEffectStarted at hr' ⊢
    split at hr'
    · refine .of_setRun hr' ?_
      exact .moved hr (hpc ▸ .effectStarted)
    · exact .same hr'
    · refine .of_setRun hr' ?_
      exact .moved hr .stop
    · exact .same hr'
  | handlerThrows u err =>
    obtain ⟨r, hr, hpc, rfl⟩ := found h
    refine .of_setRun hr' ?_
    split
    · exact .moved hr .stop
    · exact .moved hr (.throws hpc)
  | serverTook u =>
    obtain ⟨r, hr, hpc, rfl⟩ := found h
    refine .of_setRun hr' ?_
    exact .moved hr (hpc ▸ .took)
  | markEffectDone u now ran =>
    obtain ⟨r, hr, hpc, rfl⟩ := found h
    refine .of_setRun hr' ?_
    exact .moved hr (hpc ▸ .effectDone)
  | complete u rejected now answer =>
    simp only [step, Option.bind_eq_some_iff] at h
    obtain ⟨r, hr, h⟩ := h
    split at h
    · next again hpc =>
      simp only [Option.some.injEq] at h
      subst h
      unfold complete at hr' ⊢
      split at hr'
      · refine .of_setRun hr' ?_
        exact .moved hr .stop
      · refine .of_setRun hr' ?_
        exact .moved hr (hpc ▸ .recordingFailed)
      · next hn =>
        refine .of_setRun hr' ?_
        exact .moved hr (hpc ▸ .claimGone (lost_of_completeLetter_none hn))
      · refine .of_setRun hr' ?_
        exact .moved hr (hpc ▸ .recordingFailed)
    · cases h
  | settleSweptDelivery u rejected now answer =>
    simp only [step, Option.bind_eq_some_iff] at h
    obtain ⟨r, hr, h⟩ := h
    split at h
    · next again hpc =>
      simp only [Option.some.injEq] at h
      subst h
      unfold settleSweptRow at hr' ⊢
      split at hr'
      · refine .of_setRun hr' ?_
        exact .moved hr (hpc ▸ .returned)
      · refine .of_setRun hr' ?_
        exact .moved hr (hpc ▸ .settlingFailed)
      · refine .of_setRun hr' ?_
        cases again with
        | false => exact .moved hr (hpc ▸ .settlingFailed)
        | true => exact .moved hr (hpc ▸ .returned)
      · refine .of_setRun hr' ?_
        exact .moved hr (hpc ▸ .settlingFailed)
    · cases h
  | completeReturned u now =>
    obtain ⟨r, hr, hpc, rfl⟩ := found h
    refine .of_setRun hr' ?_
    exact .moved hr .stop
  | settleFailure u now answered =>
    simp only [step, Option.bind_eq_some_iff] at h
    obtain ⟨r, hr, h⟩ := h
    split at h
    · simp only [Option.some.injEq] at h
      subst h
      cases answered with
      | false => exact .same hr'
      | true =>
        refine .of_setRun hr' ?_
        exact .moved hr .stop
    · cases h
  | halt u =>
    simp only [step, Option.bind_eq_some_iff, Option.some.injEq] at h
    obtain ⟨r, hr, rfl⟩ := h
    refine .of_setRun hr' ?_
    exact .moved hr .stop
  | cancelScheduled k who reason now =>
    simp only [step, Option.map_eq_some_iff] at h
    obtain ⟨p, -, rfl⟩ := h
    exact .same hr'
  | rescheduleScheduled k who sendAt resend now =>
    simp only [step, Option.map_eq_some_iff] at h
    obtain ⟨p, -, rfl⟩ := h
    exact .same hr'
  | enqueueOther new now =>
    simp only [step, Option.ite_none_left_eq_some, Option.some.injEq] at h
    obtain ⟨-, rfl⟩ := h
    exact .same hr'
  | otherKind k row =>
    obtain ⟨j, -, -, rfl⟩ := found h
    exact .same hr'
  | _ =>
    cases h
    exact .same hr'

/-! ## Everything else -/

/-- What a step leaves of the rest: names are used once, and each ghost has its one label. -/
structure Frame (s : State) (l : Label) (s' : State) : Prop where
  uuids : s.uuids ⊆ s'.uuids
  nextJobId : s.db.nextJobId ≤ s'.db.nextJobId
  marked : s'.marked = s.marked ∨ ∃ t now ran, l = .markEffectDone t now ran
  resent : s'.resent = s.resent ∨
    ∃ id who sendAt resend now, l = .rescheduleScheduled id who sendAt resend now
  givenBack : s'.givenBack = s.givenBack ∨
    ∃ id who reason now, l = .cancelScheduled id who reason now
  runs : ∀ {t r}, s.runs.lookup t = some r → ∃ r', s'.runs.lookup t = some r'

theorem Frame.of_db {db : Db} (h : s.db.nextJobId ≤ db.nextJobId) : Frame s l { s with db } :=
  ⟨List.Subset.refl _, h, .inl rfl, .inl rfl, .inl rfl, fun hr => ⟨_, hr⟩⟩

theorem Frame.refl : Frame s l s := .of_db (Nat.le_refl _)

theorem lookup_setRun {t u : ClaimToken} {r r₀ : Run} (hr : s.runs.lookup t = some r) :
    ∃ r', (s.runs.insert u r₀).lookup t = some r' := by
  rw [Table.lookup_insert']
  split
  · exact ⟨_, rfl⟩
  · exact ⟨_, hr⟩

theorem Frame.of_setRun {db : Db} {t : ClaimToken} {r : Run}
    (h : s.db.nextJobId ≤ db.nextJobId) : Frame s l ({ s with db }.setRun t r) :=
  ⟨List.Subset.refl _, h, .inl rfl, .inl rfl, .inl rfl, lookup_setRun⟩

theorem step_frame (h : step s l = some s') : Frame s l s' := by
  cases l with
  | enqueueOutgoingSend letter now =>
    cases h
    refine Frame.of_db ?_
    rcases s.db.enqueueJob_cases letter.job now with ⟨_, he⟩ | ⟨he, -⟩ <;>
      simp [enqueueOutgoingSend, he]
  | enqueueOther new now =>
    simp only [step, Option.ite_none_left_eq_some, Option.some.injEq] at h
    obtain ⟨-, rfl⟩ := h
    refine Frame.of_db ?_
    rcases s.db.enqueueJob_cases new now with ⟨_, he⟩ | ⟨he, -⟩ <;> simp [he]
  | otherKind k row =>
    obtain ⟨j, -, -, rfl⟩ := found h
    exact .of_db (Nat.le_refl _)
  | claimDueJobs uuid ids registered now leaseMs answered =>
    simp only [step, Option.ite_none_left_eq_some, Option.some.injEq] at h
    obtain ⟨-, rfl⟩ := h
    refine ⟨List.subset_cons_self _ _, Nat.le_refl _, .inl rfl, .inl rfl, .inl rfl, fun hr => ?_⟩
    cases answered with
    | false => exact ⟨_, hr⟩
    | true => exact Table.lookup_insertAll_of_some hr
  | releaseClaims tokens now =>
    cases h
    refine ⟨List.Subset.refl _, Nat.le_refl _, .inl rfl, .inl rfl, .inl rfl, fun hr => ?_⟩
    simp [hr]
  | markEffectStarted u now answered =>
    obtain ⟨r, -, -, rfl⟩ := found h
    unfold markEffectStarted
    split
    · next hu =>
      obtain ⟨-, rfl⟩ := Db.updateJob_some.mp hu
      exact .of_setRun (Nat.le_refl _)
    · next hu =>
      obtain ⟨-, rfl⟩ := Db.updateJob_some.mp hu
      exact .of_db (Nat.le_refl _)
    · exact .of_setRun (Nat.le_refl _)
    · exact .refl
  | handlerThrows u err | serverTook u =>
    obtain ⟨r, -, -, rfl⟩ := found h
    exact .of_setRun (Nat.le_refl _)
  | markEffectDone u now ran =>
    obtain ⟨r, -, -, rfl⟩ := found h
    refine ⟨List.Subset.refl _, ?_, .inr ⟨u, now, ran, rfl⟩, .inl rfl, .inl rfl,
      lookup_setRun⟩
    cases ran <;> simp
  | complete u rejected now answer =>
    simp only [step, Option.bind_eq_some_iff] at h
    obtain ⟨r, -, h⟩ := h
    split at h
    · simp only [Option.some.injEq] at h
      subst h
      unfold complete
      split
      · next hu => exact .of_setRun (Nat.le_of_eq (finishLetter_nextJobId hu).symm)
      · next hu => exact .of_setRun (Nat.le_of_eq (finishLetter_nextJobId hu).symm)
      · exact .of_setRun (Nat.le_refl _)
      · exact .of_setRun (Nat.le_refl _)
    · cases h
  | settleSweptDelivery u rejected now answer =>
    simp only [step, Option.bind_eq_some_iff] at h
    obtain ⟨r, -, h⟩ := h
    split at h
    · simp only [Option.some.injEq] at h
      subst h
      unfold settleSweptRow
      split
      · next hu => exact .of_setRun (Nat.le_of_eq (finishLetter_nextJobId hu).symm)
      · next hu => exact .of_setRun (Nat.le_of_eq (finishLetter_nextJobId hu).symm)
      · exact .of_setRun (Nat.le_refl _)
      · exact .of_setRun (Nat.le_refl _)
    · cases h
  | completeReturned u now =>
    obtain ⟨r, -, -, rfl⟩ := found h
    exact .of_setRun (Nat.le_of_eq Db.writeJob_nextJobId.symm)
  | settleFailure u now answered =>
    simp only [step, Option.bind_eq_some_iff] at h
    obtain ⟨r, -, h⟩ := h
    split at h
    · simp only [Option.some.injEq] at h
      subst h
      cases answered with
      | false => exact .of_db (Nat.le_of_eq Db.writeJob_nextJobId.symm)
      | true => exact .of_setRun (Nat.le_of_eq Db.writeJob_nextJobId.symm)
    · cases h
  | halt u =>
    simp only [step, Option.bind_eq_some_iff, Option.some.injEq] at h
    obtain ⟨r, -, rfl⟩ := h
    exact .of_setRun (Nat.le_refl _)
  | cancelScheduled k who reason now =>
    simp only [step, Option.map_eq_some_iff, cancelScheduled, Option.bind_eq_bind,
      Option.bind_eq_some_iff, Prod.exists, Option.some.injEq, Prod.mk.injEq] at h
    obtain ⟨_, db, ⟨j, -, row, db', hu, -, rfl⟩, rfl⟩ := h
    obtain ⟨-, rfl⟩ := finishLetter_some.mp hu
    exact ⟨List.Subset.refl _, Nat.le_refl _, .inl rfl, .inl rfl, .inr ⟨k, who, reason, now, rfl⟩,
      fun hr => ⟨_, hr⟩⟩
  | rescheduleScheduled k who sendAt resend now =>
    simp only [step, Option.map_eq_some_iff, rescheduleScheduled, Option.bind_eq_bind,
      Option.bind_eq_some_iff, Option.some.injEq] at h
    obtain ⟨db, ⟨j, -, ⟨row, db'⟩, hu, rfl⟩, rfl⟩ := h
    obtain ⟨-, rfl⟩ := Db.updateJob_some.mp hu
    exact ⟨List.Subset.refl _, Nat.le_refl _, .inl rfl, .inr ⟨k, who, sendAt, resend, now, rfl⟩,
      .inl rfl, fun hr => ⟨_, hr⟩⟩
  | _ =>
    cases h
    refine Frame.of_db ?_
    simp [Db.sweepExpiredLeases, Db.failJobsOfDeletedAccount, Db.deleteExpiredJobs,
      Db.deleteFinishedContent]

end MailExpert.SendQueue
