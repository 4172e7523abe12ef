import MailExpert.NodeAgent.Jobs

/-!
# What holds of the agent's jobs

Every statement but the insert keeps a row's kind and parameters, and moves active rows only (`Keeps`), so a finished job never changes and
no class of jobs gets a second active one. A token that ended never comes back, and with it nobody moves a job any more. What the panel
queues itself is checked in one statement and queued in another: one automatic update per commit holds in the runs where no other pass
queued it in between.
-/

namespace MailExpert.NodeAgent

open TransitionSystem

variable {s s' t : State} {l : Label} {jobs jobs' : List Job}

/-- What a statement leaves of a row: one that is not active stays as it is. -/
structure KeepsRow (job job' : Job) : Prop where
  kind : job'.kind = job.kind
  params : job'.params = job.params
  final : job.state.active = false → job' = job

theorem KeepsRow.refl (job : Job) : KeepsRow job job := ⟨rfl, rfl, fun _ => rfl⟩

/-- No statement but the insert makes a job active. -/
theorem KeepsRow.active {job job' : Job} (h : KeepsRow job job') (ha : job'.state.active = true) : job.state.active = true := by
  by_contra hne
  rw [h.final (by simpa using hne)] at ha
  exact hne ha

/-- The rows after a statement that inserts none. -/
def Keeps : List Job → List Job → Prop := List.Forall₂ KeepsRow

theorem Keeps.refl (jobs : List Job) : Keeps jobs jobs := List.forall₂_same.mpr fun job _ => .refl job

theorem Keeps.length_eq (h : Keeps jobs jobs') : jobs'.length = jobs.length := (List.Forall₂.length_eq h).symm

theorem Keeps.row (h : Keeps jobs jobs') {id : Nat} {job' : Job} (hj : jobs'[id]? = some job') :
    ∃ job, jobs[id]? = some job ∧ KeepsRow job job' := by
  obtain ⟨hid, rfl⟩ := List.getElem?_eq_some_iff.mp hj
  have hid' : id < jobs.length := h.length_eq ▸ hid
  exact ⟨jobs[id], List.getElem?_eq_getElem hid', (List.forall₂_iff_get.mp h).2 id hid' hid⟩

theorem Keeps.row' (h : Keeps jobs jobs') {id : Nat} {job : Job} (hj : jobs[id]? = some job) :
    ∃ job', jobs'[id]? = some job' ∧ KeepsRow job job' := by
  obtain ⟨hid, rfl⟩ := List.getElem?_eq_some_iff.mp hj
  have hid' : id < jobs'.length := h.length_eq ▸ hid
  exact ⟨jobs'[id], List.getElem?_eq_getElem hid', (List.forall₂_iff_get.mp h).2 id hid hid'⟩

/-- Rows of a kind, and what they ask for, are as many as before; the active ones of them are no more. -/
theorem Keeps.countP_le (h : Keeps jobs jobs') {p q : Job → Bool} (hpq : ∀ job job', KeepsRow job job' → q job' = true → p job = true) :
    jobs'.countP q ≤ jobs.countP p := by
  induction h with
  | nil => simp
  | cons hrow _ ih =>
    rename_i job job' _ _ _
    simp only [List.countP_cons]
    by_cases hq : q job' = true
    · simp only [hq, hpq job job' hrow hq, if_true]
      omega
    · simp only [hq]
      grind

theorem keeps_updateJobs {where_ : Nat → Job → Bool} {set_ : Job → Job}
    (hwhere : ∀ id job, jobs[id]? = some job → where_ id job = true → job.state.active = true)
    (hset : ∀ job, (set_ job).kind = job.kind ∧ (set_ job).params = job.params) : Keeps jobs (updateJobs where_ set_ jobs) := by
  refine List.forall₂_iff_get.mpr ⟨by simp [updateJobs], fun id h₁ h₂ => ?_⟩
  simp only [updateJobs, List.get_eq_getElem, List.getElem_mapIdx]
  split
  next hw =>
    refine ⟨(hset _).1, (hset _).2, fun hidle => ?_⟩
    rw [hwhere id _ (List.getElem?_eq_getElem h₁) hw] at hidle
    cases hidle
  next => exact .refl _

/-! ## One step -/

inductive Asks (s : State) : Label → Kind → Params → Prop
  | request (kind : Kind) (sha : Option Text) : Asks s (.enqueueJob kind sha) kind { sha }
  | behind (i rows : Nat) (pass : Pass) (hpass : s.passes[i]? = some pass) (hstage : pass.stage = .checked rows) :
    Asks s (.queueBehind i) .update { sha := some pass.sha, automatic := true }

inductive Moves (s : State) (l : Label) (s' : State) : Prop
  | kept (h : Keeps s.jobs s'.jobs)
  /-- A job was queued. -/
  | queued (kind : Kind) (params : Params) (hasks : Asks s l kind params) (haccepts : s.accepts kind = true)
      (h : s'.jobs = s.jobs ++ [{ kind, params, createdAt := s.now, updatedAt := s.now }])

theorem keeps_failActiveJobs {error : JobError} : Keeps s.jobs (s.failActiveJobs error).jobs :=
  keeps_updateJobs (fun _ _ _ h => h) fun _ => ⟨rfl, rfl⟩

/-- Nothing is active after `failActiveJobs`. -/
theorem idle_failActiveJobs {error : JobError} {id : Nat} {job : Job} (h : (s.failActiveJobs error).jobs[id]? = some job) :
    job.state.active = false := by
  simp only [State.failActiveJobs, updateJobs, List.getElem?_mapIdx, Option.map_eq_some_iff] at h
  obtain ⟨job₀, -, rfl⟩ := h
  split
  next => rfl
  next hidle => simpa using hidle

theorem keeps_issueToken : Keeps s.jobs s.issueToken.jobs := by
  simp only [State.issueToken]
  split
  · exact keeps_failActiveJobs (s := { s with tokenHash := some s.issued, lastSeenAt := none, issued := s.issued + 1 })
  · exact .refl _

theorem keeps_running {where_ : Nat → Job → Bool} {set_ : Job → Job}
    (hwhere : ∀ id job, where_ id job = true → job.state = .running)
    (hset : ∀ job, (set_ job).kind = job.kind ∧ (set_ job).params = job.params) : Keeps jobs (updateJobs where_ set_ jobs) :=
  keeps_updateJobs (fun id job _ h => by simp [hwhere id job h, JobState.active]) hset

theorem keeps_reportJob {token id : Nat} {body : Report} : Keeps s.jobs (s.reportJob token id body).jobs := by
  simp only [State.reportJob]
  split
  · exact .refl _
  · refine keeps_running (fun _ _ h => ?_) fun _ => ⟨rfl, rfl⟩
    simp only [Bool.and_eq_true, decide_eq_true_eq] at h
    exact h.1.2

theorem keeps_failOrphanedJobs {token : Nat} : Keeps s.jobs (s.failOrphanedJobs token).jobs := by
  refine keeps_running (fun _ _ h => ?_) fun _ => ⟨rfl, rfl⟩
  simp only [Bool.and_eq_true, decide_eq_true_eq] at h
  exact h.1.1

theorem keeps_claimJob {id : Nat} : Keeps s.jobs (s.claimJob id).jobs := by
  refine keeps_updateJobs (fun _ job _ h => ?_) fun _ => ⟨rfl, rfl⟩
  simp only [Bool.and_eq_true, decide_eq_true_eq] at h
  simp [h.2, JobState.active]

theorem keeps_unclaimJob {id : Nat} : Keeps s.jobs (s.unclaimJob id).jobs := by
  refine keeps_running (fun _ _ h => ?_) fun _ => ⟨rfl, rfl⟩
  simp only [Bool.and_eq_true, decide_eq_true_eq] at h
  exact h.2

theorem moves_enqueueJob {kind : Kind} {params : Params} (hasks : Asks s l kind params)
    (hjobs : s'.jobs = ((s.enqueueJob kind params).getD s).jobs) : Moves s l s' := by
  simp only [State.enqueueJob] at hjobs
  split at hjobs
  next h => exact .queued kind params hasks h hjobs
  next => exact .kept (hjobs ▸ .refl _)

theorem Poll.step_keeps {i : Nat} {poll : Poll} (h : poll.step s i l = some s') : Keeps s.jobs s'.jobs := by
  cases l <;> simp only [Poll.step, reduceCtorEq] at h
  case seen =>
    split at h <;> cases h
    exact .refl _
  case failOrphanedJobs =>
    split at h <;> cases h
    exact keeps_failOrphanedJobs
  case claimNextJob =>
    split at h
    · split at h <;> cases h
      · exact .refl _
      · exact keeps_claimJob
    · cases h
  case unclaimJob =>
    split at h <;> cases h
    exact keeps_unclaimJob

/-- The step lemma of the table. -/
theorem step_moves (h : step s l = some s') : Moves s l s' := by
  cases l with
  | clock | readBehind =>
    simp only [step, Option.some.injEq] at h
    subst h
    exact .kept (by first | exact .refl _ | (split <;> exact .refl _))
  | issueToken => cases h; exact .kept keeps_issueToken
  | revokeToken => cases h; exact .kept (keeps_failActiveJobs (s := { s with tokenHash := none, lastSeenAt := none }))
  | recordStatus =>
    simp only [step, State.recordStatus, Option.some.injEq] at h
    subst h
    exact .kept (by split <;> exact .refl _)
  | expireQueued =>
    cases h
    refine .kept (keeps_updateJobs (fun _ job _ h => ?_) fun _ => ⟨rfl, rfl⟩)
    simp only [Bool.and_eq_true, decide_eq_true_eq] at h
    simp [h.1, JobState.active]
  | expireSilent =>
    cases h
    refine .kept (keeps_running (fun _ _ h => ?_) fun _ => ⟨rfl, rfl⟩)
    simp only [Bool.and_eq_true, decide_eq_true_eq] at h
    exact h.1.1
  | expireRunning =>
    cases h
    refine .kept (keeps_running (fun _ _ h => ?_) fun _ => ⟨rfl, rfl⟩)
    simp only [Bool.and_eq_true, decide_eq_true_eq] at h
    exact h.1.1
  | enqueueJob => cases h; exact moves_enqueueJob (.request _ _) rfl
  | authenticate =>
    simp only [step] at h
    split at h <;> cases h
    exact .kept (.refl _)
  | seen | failOrphanedJobs | claimNextJob | unclaimJob =>
    obtain ⟨poll, -, hstep⟩ := Option.bind_eq_some_iff.mp h
    exact .kept (Poll.step_keeps hstep)
  | reportJob => cases h; exact .kept keeps_reportJob
  | lookUp =>
    obtain ⟨pass, -, hstep⟩ := Option.bind_eq_some_iff.mp h
    simp only [Pass.step] at hstep
    split at hstep <;> cases hstep
    exact .kept (.refl _)
  | queueBehind =>
    obtain ⟨pass, hpass, hstep⟩ := Option.bind_eq_some_iff.mp h
    simp only [Pass.step] at hstep
    split at hstep
    next hstage => cases hstep; exact moves_enqueueJob (.behind _ _ _ hpass hstage) rfl
    next => cases hstep

/-- A finished job is the same in every later state. -/
theorem final_step (h : step s l = some s') {id : Nat} {job : Job} (hj : s.jobs[id]? = some job) (hfinal : job.state.active = false) :
    s'.jobs[id]? = some job := by
  cases step_moves h with
  | kept hkeeps =>
    obtain ⟨job', hj', hrow⟩ := hkeeps.row' hj
    rw [hj', hrow.final hfinal]
  | queued _ _ _ _ hjobs => rw [hjobs]; exact Agents.getElem?_append_some.mpr (.inl hj)

theorem final_run (h : system.Run anyStep s t) {id : Nat} {job : Job} (hj : s.jobs[id]? = some job) (hfinal : job.state.active = false) :
    t.jobs[id]? = some job := by
  induction h with
  | refl => exact hj
  | tail _ _ hstep ih => exact final_step hstep ih hfinal

def Job.activeOf (kinds : List Kind) (job : Job) : Bool := kinds.contains job.kind && job.state.active

/-- At most one job of the kinds that exclude each other is active. -/
def Single (s : State) : Prop := ∀ kind : Kind, s.jobs.countP (Job.activeOf kind.kinds) ≤ 1

theorem Kind.kinds_eq {kind kind' : Kind} (h : kind.kinds.contains kind' = true) : kind'.kinds = kind.kinds := by
  cases kind <;> cases kind' <;> first | rfl | cases h

theorem single_step (hs : Single s) (h : step s l = some s') : Single s' := by
  intro kind
  cases step_moves h with
  | kept hkeeps =>
    refine (hkeeps.countP_le fun job job' hrow hq => ?_).trans (hs kind)
    simp only [Job.activeOf, Bool.and_eq_true, hrow.kind] at hq ⊢
    exact ⟨hq.1, hrow.active hq.2⟩
  | queued kind' params _ haccepts hjobs =>
    rw [hjobs, List.countP_append, List.countP_singleton]
    split
    next hof =>
      -- the new job is of the class: the insert saw no active one
      have hsame : kind'.kinds = kind.kinds := Kind.kinds_eq (Bool.and_eq_true _ _ ▸ hof).1
      have hnone : s.jobs.countP (Job.activeOf kind.kinds) = 0 := by
        rw [List.countP_eq_zero]
        intro job hjob hactive
        simp only [State.accepts, Bool.and_eq_true, Bool.not_eq_true', List.any_eq_false] at haccepts
        refine haccepts.2 job hjob ?_
        rw [hsame]
        exact Bool.and_eq_true _ _ ▸ hactive
      omega
    next => exact hs kind

theorem single_invariant : system.Invariant anyStep Single where
  init := by
    rintro s rfl kind
    exact Nat.zero_le 1
  step hs _ h := single_step hs h

/-! ## Tokens -/

/-- A job that was in the table is in it after the step, active only if it was. -/
theorem Moves.row (h : Moves s l s') {id : Nat} {job : Job} (hj : s.jobs[id]? = some job) :
    ∃ job', s'.jobs[id]? = some job' ∧ (job'.state.active = true → job.state.active = true) := by
  cases h with
  | kept hkeeps =>
    obtain ⟨job', hj', hrow⟩ := hkeeps.row' hj
    exact ⟨job', hj', hrow.active⟩
  | queued _ _ _ _ hjobs => exact ⟨job, hjobs ▸ Agents.getElem?_append_some.mpr (.inl hj), fun ha => ha⟩

/-- A poll's token was issued, and while the job it holds is active its token is the agent's. -/
structure HoldsWith (s : State) (poll : Poll) : Prop where
  issued : poll.tokenHash < s.issued
  held : ∀ id, poll.stage = .claimed id → ∃ job, s.jobs[id]? = some job ∧ (job.state.active = true → s.tokenHash = some poll.tokenHash)

structure Tokens (s : State) : Prop where
  current : ∀ token, s.tokenHash = some token → token < s.issued
  polls : ∀ (i : Nat) poll, s.polls[i]? = some poll → HoldsWith s poll

/-- A poll that does not move keeps what it holds while the tokens stay. -/
theorem HoldsWith.frame {poll : Poll} (h : HoldsWith s poll) (htoken : s'.tokenHash = s.tokenHash) (hissued : s'.issued = s.issued)
    (hmoves : Moves s l s') : HoldsWith s' poll where
  issued := hissued ▸ h.issued
  held id hid := by
    obtain ⟨job, hj, hactive⟩ := h.held id hid
    obtain ⟨job', hj', hkept⟩ := hmoves.row hj
    exact ⟨job', hj', fun ha => htoken ▸ hactive (hkept ha)⟩

theorem Tokens.frame (h : Tokens s) (htoken : s'.tokenHash = s.tokenHash) (hissued : s'.issued = s.issued) (hpolls : s'.polls = s.polls)
    (hmoves : Moves s l s') : Tokens s' where
  current token hs := hissued ▸ h.current token (htoken ▸ hs)
  polls i poll hpoll := (h.polls i poll (hpolls ▸ hpoll)).frame htoken hissued hmoves

theorem Tokens.setPoll (h : Tokens s) {i : Nat} {poll poll' : Poll} (hpoll : s.polls[i]? = some poll) (htoken : s'.tokenHash = s.tokenHash)
    (hissued : s'.issued = s.issued) (hpolls : s'.polls = s.polls.set i poll') (hmoves : Moves s l s') (hholds : HoldsWith s' poll') :
    Tokens s' where
  current token hs := hissued ▸ h.current token (htoken ▸ hs)
  polls j other hother := by
    rw [hpolls] at hother
    obtain ⟨-, rfl⟩ | ⟨-, hsame⟩ := (Agents.getElem?_set_some hpoll).mp hother
    · exact hholds
    · exact (h.polls j other hsame).frame htoken hissued hmoves

/-- When no job is active that a token guards, any token may follow. -/
theorem Tokens.idle (h : Tokens s) (hissued : s.issued ≤ s'.issued) (hcurrent : ∀ token, s'.tokenHash = some token → token < s'.issued)
    (hpolls : s'.polls = s.polls) (hmoves : Moves s l s')
    (hidle : ∀ (id : Nat) job, s'.jobs[id]? = some job → job.state.active = true → s.tokenHash = none) : Tokens s' where
  current := hcurrent
  polls i poll hpoll := by
    obtain ⟨hlt, hheld⟩ := h.polls i poll (hpolls ▸ hpoll)
    refine ⟨by omega, fun id hid => ?_⟩
    obtain ⟨job, hj, hactive⟩ := hheld id hid
    obtain ⟨job', hj', hkept⟩ := hmoves.row hj
    refine ⟨job', hj', fun ha => ?_⟩
    cases (hidle id job' hj' ha).symm.trans (hactive (hkept ha))

theorem polls_reportJob {token id : Nat} {body : Report} :
    (s.reportJob token id body).polls = s.polls ∧ (s.reportJob token id body).tokenHash = s.tokenHash ∧
      (s.reportJob token id body).issued = s.issued := by
  simp only [State.reportJob]
  split <;> exact ⟨rfl, rfl, rfl⟩

theorem polls_enqueueJob {kind : Kind} {params : Params} :
    ((s.enqueueJob kind params).getD s).polls = s.polls ∧ ((s.enqueueJob kind params).getD s).tokenHash = s.tokenHash ∧
      ((s.enqueueJob kind params).getD s).issued = s.issued ∧ ((s.enqueueJob kind params).getD s).passes = s.passes := by
  simp only [State.enqueueJob]
  split <;> exact ⟨rfl, rfl, rfl, rfl⟩

theorem claimable_some {token id : Nat} (h : s.claimable token = some id) :
    s.tokenHash = some token ∧ ∃ job, s.jobs[id]? = some job ∧ job.state = .queued := by
  simp only [State.claimable] at h
  split at h
  next hcurrent =>
    obtain ⟨hid, hqueued, -⟩ := List.findIdx?_eq_some_iff_getElem.mp h
    exact ⟨of_decide_eq_true hcurrent, _, List.getElem?_eq_getElem hid, of_decide_eq_true hqueued⟩
  next => cases h

theorem Poll.step_tokens (hs : Tokens s) {i : Nat} {poll : Poll} (hpoll : s.polls[i]? = some poll) (hmoves : Moves s l s')
    (h : poll.step s i l = some s') : Tokens s' := by
  have hlt := (hs.polls i poll hpoll).issued
  cases l <;> simp only [Poll.step, reduceCtorEq] at h
  case seen =>
    split at h <;> cases h
    exact hs.setPoll hpoll rfl rfl rfl hmoves ⟨hlt, fun id hid => by cases hid⟩
  case failOrphanedJobs =>
    split at h <;> cases h
    exact hs.setPoll hpoll rfl rfl rfl hmoves ⟨hlt, fun id hid => by cases hid⟩
  case claimNextJob =>
    split at h
    · split at h
      next => cases h; exact hs
      next id hclaim =>
        cases h
        obtain ⟨hcurrent, job, hj, -⟩ := claimable_some hclaim
        refine hs.setPoll hpoll rfl rfl rfl hmoves ⟨hlt, fun id' hid => ?_⟩
        cases hid
        obtain ⟨job', hj', -⟩ := hmoves.row hj
        exact ⟨job', hj', fun _ => hcurrent⟩
    · cases h
  case unclaimJob =>
    split at h <;> cases h
    exact hs.setPoll hpoll rfl rfl rfl hmoves ⟨hlt, fun id hid => by cases hid⟩

theorem tokens_step (hs : Tokens s) (h : step s l = some s') : Tokens s' := by
  have hmoves := step_moves h
  cases l with
  | clock | expireQueued | expireSilent | expireRunning => cases h; exact hs.frame rfl rfl rfl hmoves
  | readBehind | recordStatus =>
    simp only [step, State.recordStatus, Option.some.injEq] at h
    subst h
    split at hmoves
    next hif => rw [if_pos hif]; exact hs.frame rfl rfl rfl hmoves
    next hif => rw [if_neg hif]; exact hs
  | issueToken =>
    cases h
    have hnew : s.issueToken.tokenHash = some s.issued ∧ s.issueToken.issued = s.issued + 1 ∧ s.issueToken.polls = s.polls := by
      simp only [State.issueToken]
      split <;> exact ⟨rfl, rfl, rfl⟩
    refine hs.idle (by omega) (fun token htoken => ?_) hnew.2.2 hmoves fun id job hj hactive => ?_
    · rw [hnew.1] at htoken
      cases htoken
      omega
    · simp only [State.issueToken] at hj
      split at hj
      next => simp [idle_failActiveJobs hj] at hactive
      next hnone => simpa using hnone
  | revokeToken =>
    cases h
    refine hs.idle le_rfl (fun token htoken => by cases htoken) rfl hmoves fun id job hj hactive => ?_
    simp [idle_failActiveJobs hj] at hactive
  | enqueueJob =>
    cases h
    exact hs.frame polls_enqueueJob.2.1 polls_enqueueJob.2.2.1 polls_enqueueJob.1 hmoves
  | authenticate token =>
    simp only [step] at h
    split at h
    next hcurrent =>
      cases h
      refine ⟨hs.current, fun i poll hpoll => ?_⟩
      obtain hold | ⟨-, rfl⟩ := Agents.getElem?_append_some.mp hpoll
      · exact (hs.polls i poll hold).frame rfl rfl hmoves
      · exact ⟨hs.current token (of_decide_eq_true hcurrent), fun id hid => by cases hid⟩
    next => cases h
  | seen | failOrphanedJobs | claimNextJob | unclaimJob =>
    obtain ⟨poll, hpoll, hstep⟩ := Option.bind_eq_some_iff.mp h
    exact Poll.step_tokens hs hpoll hmoves hstep
  | reportJob =>
    cases h
    exact hs.frame polls_reportJob.2.1 polls_reportJob.2.2 polls_reportJob.1 hmoves
  | lookUp =>
    obtain ⟨pass, -, hstep⟩ := Option.bind_eq_some_iff.mp h
    simp only [Pass.step] at hstep
    split at hstep <;> cases hstep
    exact hs.frame rfl rfl rfl hmoves
  | queueBehind =>
    obtain ⟨pass, hpass, hstep⟩ := Option.bind_eq_some_iff.mp h
    simp only [Pass.step] at hstep
    split at hstep <;> cases hstep
    exact hs.frame polls_enqueueJob.2.1 polls_enqueueJob.2.2.1 polls_enqueueJob.1 hmoves

theorem tokens_invariant : system.Invariant anyStep Tokens where
  init := by
    rintro s rfl
    refine ⟨fun token h => ?_, fun i poll h => ?_⟩
    · cases h
    · simp at h
  step hs _ h := tokens_step hs h

/-! ### A token that ended -/

/-- The first `n` tokens are none of the agent's any more. -/
def Past (n : Nat) (s : State) : Prop := n ≤ s.issued ∧ ∀ token, s.tokenHash = some token → n ≤ token

/-- What a step does to the agent's token. -/
theorem step_token (h : step s l = some s') :
    (s'.tokenHash = s.tokenHash ∧ s'.issued = s.issued) ∨ (s'.tokenHash = some s.issued ∧ s'.issued = s.issued + 1) ∨
      (s'.tokenHash = none ∧ s'.issued = s.issued) := by
  cases l with
  | clock | expireQueued | expireSilent | expireRunning => cases h; exact .inl ⟨rfl, rfl⟩
  | readBehind | recordStatus =>
    simp only [step, State.recordStatus, Option.some.injEq] at h
    subst h
    split <;> exact .inl ⟨rfl, rfl⟩
  | issueToken =>
    cases h
    simp only [State.issueToken]
    split <;> exact .inr (.inl ⟨rfl, rfl⟩)
  | revokeToken => cases h; exact .inr (.inr ⟨rfl, rfl⟩)
  | enqueueJob => cases h; exact .inl ⟨polls_enqueueJob.2.1, polls_enqueueJob.2.2.1⟩
  | authenticate =>
    simp only [step] at h
    split at h <;> cases h
    exact .inl ⟨rfl, rfl⟩
  | seen | failOrphanedJobs | unclaimJob =>
    obtain ⟨poll, -, hstep⟩ := Option.bind_eq_some_iff.mp h
    simp only [Poll.step] at hstep
    split at hstep <;> cases hstep
    exact .inl ⟨rfl, rfl⟩
  | claimNextJob =>
    obtain ⟨poll, -, hstep⟩ := Option.bind_eq_some_iff.mp h
    simp only [Poll.step] at hstep
    split at hstep
    · split at hstep <;> cases hstep <;> exact .inl ⟨rfl, rfl⟩
    · cases hstep
  | reportJob => cases h; exact .inl ⟨polls_reportJob.2.1, polls_reportJob.2.2⟩
  | lookUp =>
    obtain ⟨pass, -, hstep⟩ := Option.bind_eq_some_iff.mp h
    simp only [Pass.step] at hstep
    split at hstep <;> cases hstep
    exact .inl ⟨rfl, rfl⟩
  | queueBehind =>
    obtain ⟨pass, hpass, hstep⟩ := Option.bind_eq_some_iff.mp h
    simp only [Pass.step] at hstep
    split at hstep <;> cases hstep
    exact .inl ⟨polls_enqueueJob.2.1, polls_enqueueJob.2.2.1⟩

theorem past_step {n : Nat} (hs : Past n s) (h : step s l = some s') : Past n s' := by
  obtain ⟨htoken, hissued⟩ | ⟨htoken, hissued⟩ | ⟨htoken, hissued⟩ := step_token h
  · exact ⟨hissued ▸ hs.1, fun token ht => hs.2 token (htoken ▸ ht)⟩
  · refine ⟨by have := hs.1; omega, fun token ht => ?_⟩
    rw [htoken] at ht
    cases ht
    exact hs.1
  · refine ⟨hissued ▸ hs.1, fun token ht => ?_⟩
    rw [htoken] at ht
    cases ht

theorem past_run {n : Nat} (hs : Past n s) (h : system.Run anyStep s t) : Past n t := by
  induction h with
  | refl => exact hs
  | tail _ _ hstep ih => exact past_step ih hstep

inductive UsesToken (s : State) (token : Nat) : Label → Prop
  | failOrphanedJobs (i : Nat) (poll : Poll) (hpoll : s.polls[i]? = some poll) (htoken : poll.tokenHash = token) :
    UsesToken s token (.failOrphanedJobs i)
  | claimNextJob (i : Nat) (poll : Poll) (hpoll : s.polls[i]? = some poll) (htoken : poll.tokenHash = token) :
    UsesToken s token (.claimNextJob i)
  | unclaimJob (i : Nat) (poll : Poll) (hpoll : s.polls[i]? = some poll) (htoken : poll.tokenHash = token) :
    UsesToken s token (.unclaimJob i)
  | reportJob (id : Nat) (body : Report) : UsesToken s token (.reportJob token id body)

/-- A statement whose condition no row meets. -/
theorem updateJobs_eq {where_ : Nat → Job → Bool} {set_ : Job → Job}
    (h : ∀ (id : Nat) job, jobs[id]? = some job → where_ id job = false) : updateJobs where_ set_ jobs = jobs := by
  refine List.ext_getElem (by simp [updateJobs]) fun id h₁ h₂ => ?_
  simp only [updateJobs, List.getElem_mapIdx, h id _ (List.getElem?_eq_getElem h₂)]
  rfl

theorem UsesToken.jobs_eq {token : Nat} (hs : Tokens s) (hended : s.tokenHash ≠ some token) (huses : UsesToken s token l)
    (h : step s l = some s') : s'.jobs = s.jobs := by
  have hnot : s.tokenCurrent token = false := by simpa [State.tokenCurrent] using hended
  cases huses with
  | failOrphanedJobs i poll hpoll htoken =>
    subst htoken
    simp only [step, hpoll, Option.bind_some, Poll.step] at h
    split at h <;> cases h
    exact updateJobs_eq fun id job _ => by simp [hnot]
  | claimNextJob i poll hpoll htoken =>
    subst htoken
    simp only [step, hpoll, Option.bind_some, Poll.step] at h
    split at h
    · split at h
      next => cases h; rfl
      next hclaim => exact absurd (claimable_some hclaim).1 hended
    · cases h
  | unclaimJob i poll hpoll htoken =>
    subst htoken
    simp only [step, hpoll, Option.bind_some, Poll.step] at h
    split at h
    next id hstage =>
      cases h
      -- the job the poll claimed is active only under the poll's own token
      obtain ⟨job, hj, hactive⟩ := (hs.polls i poll hpoll).held id hstage
      refine updateJobs_eq fun id' job' hj' => ?_
      by_contra hmoves
      simp only [Bool.not_eq_false, Bool.and_eq_true, decide_eq_true_eq] at hmoves
      obtain ⟨rfl, hrunning⟩ := hmoves
      cases hj.symm.trans hj'
      exact hended (hactive (by simp [hrunning, JobState.active]))
    next => cases h
  | reportJob id body =>
    cases h
    simp only [State.reportJob]
    split
    · rfl
    · exact updateJobs_eq fun id job _ => by simp [hnot]

def Ends (s : State) : Label → Prop
  | .issueToken => s.tokenHash.isSome = true
  | .revokeToken => True
  | _ => False

/-- No job that was there is active after its step, and the tokens so far are past. -/
theorem Ends.spec (hs : Tokens s) (hends : Ends s l) (h : step s l = some s') :
    (∀ (id : Nat) job, s'.jobs[id]? = some job → job.state.active = false) ∧
      ∃ n, Past n s' ∧ ∀ token, s.tokenHash = some token → token < n := by
  cases l <;> try exact hends.elim
  case issueToken =>
    cases h
    have hrotated : s.tokenHash.isSome = true := hends
    simp only [State.issueToken, hrotated, if_true]
    refine ⟨fun id job hj => idle_failActiveJobs hj, s.issued, ⟨Nat.le_succ _, fun token ht => ?_⟩, hs.current⟩
    cases ht
    exact le_rfl
  case revokeToken =>
    cases h
    refine ⟨fun id job hj => idle_failActiveJobs hj, s.issued, ⟨le_rfl, fun token ht => ?_⟩, hs.current⟩
    cases ht

/-! ## One automatic update -/

/-- What a pass read: no update to its commit was among the rows there were. -/
def PassOk (s : State) (pass : Pass) : Prop :=
  ∀ rows, pass.stage = .checked rows →
    rows ≤ s.jobs.length ∧ ∀ (id : Nat) job, id < rows → s.jobs[id]? = some job → job.updates pass.sha = false

theorem KeepsRow.updates {job job' : Job} (h : KeepsRow job job') (sha : Text) : job'.updates sha = job.updates sha := by
  simp [Job.updates, h.kind, h.params]

theorem KeepsRow.automaticTo {job job' : Job} (h : KeepsRow job job') (sha : Text) : job'.automaticTo sha = job.automaticTo sha := by
  simp [Job.automaticTo, h.updates sha, h.params]

theorem PassOk.frame {pass : Pass} (h : PassOk s pass) (hmoves : Moves s l s') : PassOk s' pass := by
  intro rows hstage
  obtain ⟨hle, hnone⟩ := h rows hstage
  cases hmoves with
  | kept hkeeps =>
    refine ⟨hkeeps.length_eq ▸ hle, fun id job' hid hj' => ?_⟩
    obtain ⟨job, hj, hrow⟩ := hkeeps.row hj'
    rw [hrow.updates]
    exact hnone id job hid hj
  | queued _ _ _ _ hjobs =>
    rw [hjobs]
    refine ⟨by simp only [List.length_append]; omega, fun id job hid hj => ?_⟩
    obtain hold | ⟨rfl, -⟩ := Agents.getElem?_append_some.mp hj
    · exact hnone id job hid hold
    · omega

/-- The passes after a step: each was there, or looked no row up, or looked all of them up just now. -/
theorem step_passes (h : step s l = some s') {i : Nat} {pass : Pass} (hpass : s'.passes[i]? = some pass) :
    s.passes[i]? = some pass ∨ (∀ rows, pass.stage ≠ .checked rows) ∨
      (s'.jobs = s.jobs ∧ pass.stage = .checked s.jobs.length ∧ s.jobs.any (·.updates pass.sha) = false) := by
  cases l with
  | clock | expireQueued | expireSilent | expireRunning | revokeToken => cases h; exact .inl hpass
  | recordStatus =>
    simp only [step, State.recordStatus, Option.some.injEq] at h
    subst h
    split at hpass <;> exact .inl hpass
  | issueToken =>
    cases h
    simp only [State.issueToken] at hpass
    split at hpass <;> exact .inl hpass
  | readBehind =>
    simp only [step, Option.some.injEq] at h
    subst h
    split at hpass
    · obtain hold | ⟨-, rfl⟩ := Agents.getElem?_append_some.mp hpass
      · exact .inl hold
      · exact .inr (.inl fun rows hstage => by cases hstage)
    · exact .inl hpass
  | enqueueJob => cases h; exact .inl (polls_enqueueJob.2.2.2 ▸ hpass)
  | authenticate =>
    simp only [step] at h
    split at h <;> cases h
    exact .inl hpass
  | seen | failOrphanedJobs | unclaimJob =>
    obtain ⟨poll, -, hstep⟩ := Option.bind_eq_some_iff.mp h
    simp only [Poll.step] at hstep
    split at hstep <;> cases hstep
    exact .inl hpass
  | claimNextJob =>
    obtain ⟨poll, -, hstep⟩ := Option.bind_eq_some_iff.mp h
    simp only [Poll.step] at hstep
    split at hstep
    · split at hstep <;> cases hstep <;> exact .inl hpass
    · cases hstep
  | reportJob =>
    cases h
    simp only [State.reportJob] at hpass
    split at hpass <;> exact .inl hpass
  | lookUp j =>
    obtain ⟨was, hwas, hstep⟩ := Option.bind_eq_some_iff.mp h
    simp only [Pass.step] at hstep
    split at hstep <;> cases hstep
    obtain ⟨-, rfl⟩ | ⟨-, hsame⟩ := (Agents.getElem?_set_some hwas).mp hpass
    · by_cases hfound : s.jobs.any (·.updates was.sha) = true
      · exact .inr (.inl fun rows hstage => by simp [hfound] at hstage)
      · refine .inr (.inr ⟨rfl, by simp [hfound], by simpa using hfound⟩)
    · exact .inl hsame
  | queueBehind j =>
    obtain ⟨was, hwas, hstep⟩ := Option.bind_eq_some_iff.mp h
    simp only [Pass.step] at hstep
    split at hstep <;> cases hstep
    simp only [State.setPass, polls_enqueueJob.2.2.2] at hpass
    obtain ⟨-, rfl⟩ | ⟨-, hsame⟩ := (Agents.getElem?_set_some hwas).mp hpass
    · exact .inr (.inl fun rows hstage => by cases hstage)
    · exact .inl hsame

/-- Every pass read what it says it read. -/
def PassesOk (s : State) : Prop := ∀ (i : Nat) pass, s.passes[i]? = some pass → PassOk s pass

theorem passesOk_step (hs : PassesOk s) (h : step s l = some s') : PassesOk s' := by
  intro i pass hpass
  obtain hold | hnot | ⟨hjobs, hstage, hnone⟩ := step_passes h hpass
  · exact (hs i pass hold).frame (step_moves h)
  · exact fun rows hstage => absurd hstage (hnot rows)
  · intro rows hrows
    cases hstage.symm.trans hrows
    rw [hjobs]
    refine ⟨le_rfl, fun id job _ hj => ?_⟩
    simpa using List.any_eq_false.mp hnone job (List.mem_of_getElem? hj)

/-- When a pass's insert goes through, the panel has queued no update to its commit since the pass looked. -/
def lookedLast (s : State) : Label → Prop
  | .queueBehind i =>
    ∀ pass, s.passes[i]? = some pass → ∀ rows, pass.stage = .checked rows → s.accepts .update = true →
      ∀ job ∈ s.jobs.drop rows, job.automaticTo pass.sha = false
  | _ => True

/-- The panel itself queued at most one update to a commit. -/
def OneUpdate (s : State) : Prop := ∀ sha : Text, s.jobs.countP (Job.automaticTo sha) ≤ 1

theorem oneUpdate_step (hpasses : PassesOk s) (hs : OneUpdate s) (hlast : lookedLast s l) (h : step s l = some s') : OneUpdate s' := by
  intro sha
  cases step_moves h with
  | kept hkeeps => exact (hkeeps.countP_le fun job job' hrow hq => hrow.automaticTo sha ▸ hq).trans (hs sha)
  | queued kind params hasks haccepts hjobs =>
    rw [hjobs, List.countP_append, List.countP_singleton]
    cases hasks with
    | request => simpa [Job.automaticTo] using hs sha
    | behind i rows pass hpass hstage =>
      by_cases hsha : pass.sha = sha
      · subst hsha
        -- neither the rows the pass looked at nor those after them hold one
        have hnone : s.jobs.countP (Job.automaticTo pass.sha) = 0 := by
          rw [List.countP_eq_zero]
          intro job hjob
          obtain ⟨id, hj⟩ := List.getElem?_of_mem hjob
          by_cases hid : id < rows
          · simp [Job.automaticTo, (hpasses i pass hpass rows hstage).2 id job hid hj]
          · have hmem : job ∈ s.jobs.drop rows :=
              List.mem_of_getElem? (i := id - rows) (by rw [List.getElem?_drop, Nat.add_sub_cancel' (by omega), hj])
            simp [hlast pass hpass rows hstage haccepts job hmem]
        rw [hnone]
        split <;> omega
      · have hother := hs sha
        simp only [Job.automaticTo, Job.updates, Option.some.injEq, hsha]
        simpa [Job.automaticTo, Job.updates] using hother

theorem automatic_invariant : system.Invariant lookedLast fun s => PassesOk s ∧ OneUpdate s where
  init := by
    rintro s rfl
    refine ⟨fun i pass h => ?_, fun sha => Nat.zero_le 1⟩
    simp at h
  step hs hlast h := ⟨passesOk_step hs.1 h, oneUpdate_step hs.1 hs.2 hlast h⟩

/-- In every run at most one backup or update and at most one status job is active, a finished job stays as it is, and with a token's end
the jobs before it are over and nothing done with it changes a job. Where each pass that queues looked last, the panel queues one update to
a commit. -/
theorem node_agent_jobs (s : State) :
    (system.Reachable s →
      s.jobs.countP (fun job => job.kind.exclusive && job.state.active) ≤ 1 ∧
        s.jobs.countP (fun job => job.kind = .status && job.state.active) ≤ 1) ∧
    (system.Reachable s → ∀ t, system.Run anyStep s t → ∀ (id : Nat) job, s.jobs[id]? = some job → job.state.active = false →
      t.jobs[id]? = some job) ∧
    (system.Reachable s → ∀ l s', Ends s l → system.step s l = some s' → ∀ t, system.Run anyStep s' t →
      (∀ (id : Nat) job, id < s.jobs.length → t.jobs[id]? = some job → job.state.active = false) ∧
        ∀ token, s.tokenHash = some token → ∀ l' t', UsesToken t token l' → system.step t l' = some t' → t'.jobs = t.jobs) ∧
    (system.ReachesUnder lookedLast s → OneUpdate s) := by
  refine ⟨fun hs => ?_, fun _ t ht id job hj hfinal => final_run ht hj hfinal, ?_, fun hs => (automatic_invariant.reachesUnder hs).2⟩
  · have hsingle := single_invariant.reachable hs
    constructor
    · refine le_of_eq_of_le (List.countP_congr fun job _ => ?_) (hsingle .backup)
      cases hkind : job.kind <;> simp [Job.activeOf, Kind.kinds, Kind.exclusive, hkind]
    · refine le_of_eq_of_le (List.countP_congr fun job _ => ?_) (hsingle .status)
      cases hkind : job.kind <;> simp [Job.activeOf, Kind.kinds, Kind.exclusive, hkind]
  · intro hs l s' hends hstep t ht
    have htokens := tokens_invariant.reachable hs
    obtain ⟨hidle, n, hpast, hlt⟩ := hends.spec htokens hstep
    constructor
    · intro id job hid hj
      obtain ⟨job', hj', -⟩ := (step_moves hstep).row (List.getElem?_eq_getElem hid)
      rw [final_run ht hj' (hidle id job' hj')] at hj
      cases hj
      exact hidle id _ hj'
    · intro token htoken l' t' huses hstep'
      have htokens' := tokens_invariant.run (tokens_step htokens hstep) ht
      refine huses.jobs_eq htokens' (fun hcurrent => ?_) hstep'
      have := (past_run hpast ht).2 token hcurrent
      have := hlt token htoken
      omega

namespace Sample

/-- The commit of the panel's build, and the one the node reports. -/
def panel : Text := List.replicate 40 97
def node : Text := List.replicate 40 98

/-- The agent connects and reports its commit; two processes see that the node is behind. -/
def connect : List Label :=
  [.issueToken, .authenticate 0, .seen 0, .recordStatus 0 (some node), .failOrphanedJobs 0, .readBehind panel, .readBehind panel]

/-- The first process queues the update, the agent claims it and reports that it failed. -/
def failedOnce : List Label :=
  [.queueBehind 0, .claimNextJob 0, .reportJob 0 0 { state := some .failed }]

instance (s : State) (l : Label) : Decidable (lookedLast s l) :=
  match l with
  | .queueBehind i =>
    match hpass : s.passes[i]? with
    | none => .isTrue fun pass h => by simp [hpass] at h
    | some pass =>
      match hstage : pass.stage with
      | .checked rows =>
        decidable_of_iff (s.accepts .update = true → ∀ job ∈ s.jobs.drop rows, job.automaticTo pass.sha = false) <| by
          simp only [lookedLast, hpass, Option.some.injEq, forall_eq', hstage, PassStage.checked.injEq]
      | .behind => .isTrue fun pass' h => by simp only [hpass, Option.some.injEq] at h; subst h; simp [hstage]
      | .over_ => .isTrue fun pass' h => by simp only [hpass, Option.some.injEq] at h; subst h; simp [hstage]
  | .clock _ | .issueToken | .revokeToken | .recordStatus .. | .expireQueued | .expireSilent | .expireRunning _ | .enqueueJob ..
  | .authenticate _ | .seen _ | .failOrphanedJobs _ | .claimNextJob _ | .unclaimJob _ | .reportJob .. | .readBehind _ | .lookUp _ => .isTrue trivial

end Sample

/-- The second process looks after the first one's update was queued, and leaves it at that. -/
theorem node_agent_jobs_in_turn : ∃ s, system.ReachesUnder lookedLast s ∧ s.jobs.length = 1 ∧ OneUpdate s := by
  have hrun : (system.exec lookedLast {} (Sample.connect ++ [.lookUp 0] ++ Sample.failedOnce ++ [.lookUp 1])).any
      (fun s => s.jobs.length = 1) = true := by decide
  obtain ⟨s, hs, hlength⟩ := reaches_of_exec (M := system) rfl hrun
  exact ⟨s, hs, of_decide_eq_true hlength, (node_agent_jobs s).2.2.2 hs⟩

/-- Both looked before either queued: the second one's update follows the first one's failure. -/
theorem node_agent_jobs_two_updates : ¬∀ s, system.Reachable s → OneUpdate s := by
  intro h
  have hrun : (system.exec anyStep {} (Sample.connect ++ [.lookUp 0, .lookUp 1] ++ Sample.failedOnce ++ [.queueBehind 1])).any
      (fun s => s.jobs.countP (Job.automaticTo Sample.panel) = 2) = true := by decide
  obtain ⟨s, hs, htwo⟩ := reaches_of_exec (M := system) rfl hrun
  have hone := h s hs Sample.panel
  rw [of_decide_eq_true htwo] at hone
  omega

end MailExpert.NodeAgent
