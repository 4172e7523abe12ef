import MailExpert.SendQueue.Content

/-!
# After a recorded delivery

A stored `markEffectDone` says that the mail server took the letter. `rescheduleScheduled` and
`cancelScheduled` refuse to send such a letter again, or to give it back, by its `error_code`
alone. That code is written by whoever settles the job *after* the mark; when the lease sweep comes
first it writes `lease_expired`, the mark that follows changes the payload only, and both requests
let the letter go (`not_at_most_once_after_mark`).

`unlabelled` is that state of the job. In every run in which no request meets it the guarantee
holds (`at_most_once_after_mark`), and a resend that does meet it breaks it
(`resend_of_unlabelled`).
-/

namespace MailExpert.SendQueue

open JobQueue

variable {s s' : State} {l : Label} {id : Nat} {t : ClaimToken}

/-- The letter has one run: no claim takes it while a run of it is known. -/
def oneRun (id : Nat) (s : State) : Label → Bool
  | .claimDueJobs _ ids _ _ _ _ => id ∈ ids → ∀ t ∈ s.runs.keys, t.id ≠ id
  | _ => true

/-- Swept before its delivery was marked: it needs attention under another code than the mark's. -/
def unlabelled (s : State) (id : Nat) : Bool :=
  (s.db.jobs.lookup id).any fun j => j.status = .needsAttention ∧
    j.payload.effectDoneCode.isSome ∧ j.errorCode ≠ some DELIVERED_UNRECORDED

/-- No request to send it again, or to have it back, is served while the letter is unlabelled. -/
def labelledFirst (id : Nat) (s : State) : Label → Bool
  | .rescheduleScheduled k who _ resend _ =>
    k = id → resend = true → (managedJob s.db id who).isSome → ¬unlabelled s id
  | .cancelScheduled k who reason _ =>
    k = id → reason ≠ .discard → (managedJob s.db id who).isSome → ¬unlabelled s id
  | _ => true

/-- What a step of a run of one letter may be, and the requests it may meet. -/
def Careful (id : Nat) (s : State) (l : Label) : Prop :=
  oneRun id s l = true ∧ labelledFirst id s l = true

instance : Decidable (Careful id s l) := inferInstanceAs (Decidable (_ ∧ _))

/-- A run that has sent its `markEffectDone`. -/
def AfterMark : Pc → Prop
  | .recording _ | .settlingSwept _ | .returned | .ended => True
  | .settling err => err = deliveredUnrecorded
  | .handling | .sending | .delivered => False

/-- The job of a letter whose delivery is marked. -/
def Kept (j : Job) : Prop :=
  (j.status = .running ∧ j.effectStartedAt.isSome ∧
    j.payload.effectDoneCode = some DELIVERED_UNRECORDED) ∨
  (j.status = .needsAttention ∧ j.payload.effectDoneCode.isSome) ∨
  j.status = .done ∨ j.status = .cancelled

structure MarkInv (id : Nat) (s : State) : Prop where
  sole : ∀ {t t' r r'}, s.runs.lookup t = some r → s.runs.lookup t' = some r' → t.id = id →
    t'.id = id → t = t'
  after : id ∈ s.marked → ∀ {t r}, s.runs.lookup t = some r → t.id = id → AfterMark r.pc
  known : id ∈ s.marked → id < s.db.nextJobId ∧ ∃ t r, s.runs.lookup t = some r ∧ t.id = id
  kept : id ∈ s.marked → ∀ {j}, s.db.jobs.lookup id = some j → Kept j
  resent : id ∉ s.resent
  givenBack : id ∉ s.givenBack

theorem step_marked (h : step s l = some s') (hm : id ∈ s'.marked) : id ∈ s.marked ∨
    ∃ t r j j' now, t.id = id ∧ s.runs.lookup t = some r ∧ r.pc = .delivered ∧
      s.db.jobs.lookup id = some j ∧ j.markEffectDone now DELIVERED_UNRECORDED = some j' ∧
      s'.db.jobs.lookup id = some j' ∧ s'.runs.lookup t = some (r.goto (.recording false)) := by
  rcases (step_frame h).marked with he | ⟨t, now, ran, rfl⟩
  · exact .inl (he ▸ hm)
  · obtain ⟨r, hr, hpc, rfl⟩ := found h
    dsimp only at hm
    split at hm
    · next hst =>
      rcases List.mem_cons.mp hm with hid | hm
      · simp only [Bool.and_eq_true, Option.isSome_iff_exists, Option.bind_eq_some_iff] at hst
        obtain ⟨rfl, j', j, hj, hf⟩ := hst
        subst hid
        refine .inr ⟨t, r, j, j', now, rfl, hr, hpc, hj, hf, ?_, AList.lookup_insert _⟩
        simp [Db.writeJob_jobs, hj, hf]
      · exact .inl hm
    · exact .inl hm

theorem step_resent (h : step s l = some s') (hm : id ∈ s'.resent) : id ∈ s.resent ∨
    id ∈ s.marked ∧ ∃ who sendAt resend now j j', l = .rescheduleScheduled id who sendAt resend now ∧
      (managedJob s.db id who).isSome ∧ s.db.jobs.lookup id = some j ∧ j.reschedule now sendAt
        (if resend = true then CANCELLABLE_STATUSES else [.queued])
        (if resend = true then none else some true) NO_RESEND_CODES = some j' := by
  rcases (step_frame h).resent with he | ⟨k, who, sendAt, resend, now, rfl⟩
  · exact .inl (he ▸ hm)
  · simp only [step, Option.map_eq_some_iff, rescheduleScheduled, Option.bind_eq_bind,
      Option.bind_eq_some_iff, Option.some.injEq] at h
    obtain ⟨db, ⟨j, hmanaged, ⟨row, db'⟩, hu, rfl⟩, rfl⟩ := h
    dsimp only at hm
    split at hm
    · next hk =>
      rcases List.mem_cons.mp hm with rfl | hm
      · obtain ⟨⟨j, hj, hf⟩, -⟩ := Db.updateJob_some.mp hu
        exact .inr ⟨hk, who, sendAt, resend, now, j, row, rfl, by simp [hmanaged], hj, hf⟩
      · exact .inl hm
    · exact .inl hm

theorem step_givenBack (h : step s l = some s') (hm : id ∈ s'.givenBack) : id ∈ s.givenBack ∨
    id ∈ s.marked ∧ ∃ who reason now j j', l = .cancelScheduled id who reason now ∧
      (managedJob s.db id who).isSome ∧ s.db.jobs.lookup id = some j ∧ j.cancel now CANCELLABLE_STATUSES = some j' ∧
      reason ≠ .discard ∧ ¬∃ code ∈ j'.errorCode, code ∈ NO_RESEND_CODES := by
  rcases (step_frame h).givenBack with he | ⟨k, who, reason, now, rfl⟩
  · exact .inl (he ▸ hm)
  · simp only [step, Option.map_eq_some_iff, cancelScheduled, Option.bind_eq_bind,
      Option.bind_eq_some_iff, Prod.exists, Option.some.injEq, Prod.mk.injEq] at h
    obtain ⟨back, db, ⟨_, hmanaged, row, db', hu, hback, rfl⟩, rfl⟩ := h
    dsimp only at hm
    split at hm
    · next hk =>
      rcases List.mem_cons.mp hm with rfl | hm
      · obtain ⟨⟨j, hj, hf⟩, -⟩ := finishLetter_some.mp hu
        refine .inr ⟨hk.1, who, reason, now, j, row, rfl, by simp [hmanaged], hj, hf, ?_,
          fun hc => ?_⟩
        · rintro rfl
          simp [← hback] at hk
        · rw [if_pos hc, if_pos rfl] at hback
          simp [← hback] at hk
      · exact .inl hm
    · exact .inl hm

/-! ## The invariant of careful runs -/

theorem Moves.afterMark {pc pc' : Pc} (h : Moves s t pc pc') (hpc : AfterMark pc) :
    AfterMark pc' := by
  cases h with
  | @recordingFailed again | @settlingFailed again => cases again <;> simp [AfterMark, SendQueue.recordingFailed]
  | throws hpc' => rcases hpc' with rfl | rfl <;> cases hpc
  | effectStarted | took => cases hpc
  | _ => trivial

theorem outcomeOf_deliveredUnrecorded {attempts maxAttempts : Nat} {effectStarted : Bool} :
    outcomeOf attempts maxAttempts deliveredUnrecorded effectStarted = .needsAttention := rfl

theorem Kept.status_ne (hk : Kept j) : j.status ≠ .queued ∧ j.status ≠ .failed := by
  rcases hk with ⟨h, -⟩ | ⟨h, -⟩ | h | h <;> simp [h]

/-- A marked letter that a request could take is one that needs attention. -/
theorem Kept.cancellable (hk : Kept j) (hst : j.status ∈ CANCELLABLE_STATUSES) :
    j.status = .needsAttention ∧ j.payload.effectDoneCode.isSome := by
  rcases hk with ⟨h, -⟩ | h | h | h
  · simp [CANCELLABLE_STATUSES, h] at hst
  · exact h
  · simp [CANCELLABLE_STATUSES, h] at hst
  · simp [CANCELLABLE_STATUSES, h] at hst

/-- Once labelled, it has the code that refuses such requests. -/
theorem Kept.refused (hk : Kept j) (hst : j.status ∈ CANCELLABLE_STATUSES)
    (hj : s.db.jobs.lookup id = some j) (hl : ¬unlabelled s id = true) :
    ∃ code ∈ j.errorCode, code ∈ NO_RESEND_CODES := by
  obtain ⟨hn, hd⟩ := hk.cancellable hst
  refine ⟨DELIVERED_UNRECORDED, ?_, List.mem_singleton_self _⟩
  by_contra hne
  exact hl (by simpa [unlabelled, hj, hn, hd] using hne)

theorem Kept.not_rescheduled {resend : Bool} {scheduled : Option Bool} (hk : Kept j)
    (hj : s.db.jobs.lookup id = some j) (hl : resend = true → ¬unlabelled s id = true) :
    j.reschedule now sendAt (if resend = true then CANCELLABLE_STATUSES else [.queued]) scheduled
      NO_RESEND_CODES = none := by
  refine if_neg fun ⟨hst, hcode⟩ => ?_
  cases resend with
  | false => exact hk.status_ne.1 (List.mem_singleton.mp hst)
  | true =>
    obtain ⟨code, hc, hno⟩ := hk.refused hst hj (hl rfl)
    exact hcode code hc hno

/-- No statement but a request brings a marked letter back to the queue. -/
theorem Kept.write {f : Job → Option Job} {j j' : Job} (hk : Kept j) (hw : Writes s l id f)
    (hf : f j = some j') (hj : s.db.jobs.lookup id = some j)
    (hafter : ∀ {t r}, s.runs.lookup t = some r → t.id = id → AfterMark r.pc)
    (hl : labelledFirst id s l = true) : Kept j' := by
  cases hw with
  | markEffectStarted hr hpc hid | markEffectDone hr hpc hid =>
    have ha := hafter hr hid
    rw [hpc] at ha
    cases ha
  | settleFailure hr hpc hid =>
    have ha := hafter hr hid
    rw [hpc] at ha
    obtain rfl := ha
    simp only [Job.settleFailure, Option.ite_none_right_eq_some,
      outcomeOf_deliveredUnrecorded, Option.some.injEq] at hf
    obtain ⟨hc, rfl⟩ := hf
    rcases hk with ⟨-, -, he⟩ | ⟨hst, -⟩ | hst | hst
    · exact .inr (.inl ⟨rfl, by simp [he]⟩)
    all_goals cases hc.1.symm.trans hst
  | @reschedule _ _ _ _ resend hreq hmanaged =>
    subst hreq
    have hl (hr : resend = true) : ¬unlabelled s id = true := by
      simpa [labelledFirst, hr, hmanaged] using hl
    cases (hk.not_rescheduled hj hl).symm.trans hf
  | _ =>
    simp only [Job.claim, Job.releaseClaim, Job.renewLease, Job.complete, Job.sweep,
      Job.failOfDeletedAccount, Option.ite_none_right_eq_some] at hf
    grind [Kept, Job.ClaimedBy]

theorem Finishes.kept {f : Job → Option Job} {j j' : Job} (hw : Finishes s l id f)
    (hf : f j = some j') : Kept j' :=
  .inr (.inr (hw.finished hf))

theorem slice_deliveredUnrecorded : some (slice 64 DELIVERED_UNRECORDED) = some DELIVERED_UNRECORDED := by
  decide

/-- The mark is stored on a job that is running or needs attention. -/
theorem Kept.of_markEffectDone {j j' : Job}
    (h : j.markEffectDone now DELIVERED_UNRECORDED = some j') : Kept j' := by
  simp only [Job.markEffectDone, Option.ite_none_right_eq_some, Option.some.injEq] at h
  obtain ⟨⟨he, hst⟩, rfl⟩ := h
  rcases hst with hst | hst
  · exact .inl ⟨hst, he, slice_deliveredUnrecorded⟩
  · exact .inr (.inl ⟨hst, rfl⟩)

theorem MarkInv.step (hi : Inv s) (hs : MarkInv id s) (hg : Careful id s l)
    (h : SendQueue.step s l = some s') : MarkInv id s' := by
  obtain ⟨hone, hl⟩ := hg
  have hn := (step_frame h).nextJobId
  -- a run of the letter is new only when there was none
  have hnew {t u : ClaimToken} {r : Run} (hc : l.claims t = true) (ht : t.id = id)
      (hr : s.runs.lookup u = some r) (hu : u.id = id) : False := by
    cases l with
    | claimDueJobs uuid ids registered now leaseMs answered =>
      simp only [Label.claims, decide_eq_true_eq] at hc
      simp only [oneRun, decide_eq_true_eq] at hone
      exact hone (ht ▸ hc.2) u (AList.lookup_isSome.mp (by simp [hr])) hu
    | _ => cases hc
  have hsole {t t' : ClaimToken} {r r' : Run} (hr : s'.runs.lookup t = some r)
      (hr' : s'.runs.lookup t' = some r') (ht : t.id = id) (ht' : t'.id = id) : t = t' := by
    have hold {u : ClaimToken} {r : Run} (hru : RunStep s l s' u r) :
        (∃ r₀, s.runs.lookup u = some r₀) ∨ l.claims u = true := by
      cases hru with
      | same hr | moved hr => exact .inl ⟨_, hr⟩
      | new hc => exact .inr hc
    rcases hold (step_run h hr) with ⟨r₀, hr₀⟩ | hc
    · rcases hold (step_run h hr') with ⟨r₁, hr₁⟩ | hc'
      · exact hs.sole hr₀ hr₁ ht ht'
      · exact (hnew hc' ht' hr₀ ht).elim
    · rcases hold (step_run h hr') with ⟨r₁, hr₁⟩ | hc'
      · exact (hnew hc ht hr₁ ht').elim
      · cases l with
        | claimDueJobs uuid ids registered now leaseMs answered =>
          simp only [Label.claims, decide_eq_true_eq] at hc hc'
          obtain ⟨u, k⟩ := t
          obtain ⟨u', k'⟩ := t'
          simp only at ht ht' hc hc'
          rw [hc.1, hc'.1, ht, ht']
        | _ => cases hc
  refine { sole := hsole, after := ?_, known := ?_, kept := ?_, resent := ?_, givenBack := ?_ }
  · intro hm t r' hr' ht
    rcases step_marked h hm with hm | ⟨t₀, r, j, j', now, ht₀, hr, hpc, -, -, -, hr₀⟩
    · cases step_run h hr' with
      | same hr => exact hs.after hm hr ht
      | new hc =>
        obtain ⟨-, u, r, hr, hu⟩ := hs.known hm
        exact (hnew hc ht hr hu).elim
      | moved hr hmove => exact hmove.afterMark (hs.after hm hr ht)
    · obtain rfl := hsole hr' hr₀ ht ht₀
      obtain rfl := Option.some.inj (hr₀.symm.trans hr')
      trivial
  · intro hm
    rcases step_marked h hm with hm | ⟨t, r, j, j', now, ht, -, -, hj, -, -, hr⟩
    · obtain ⟨hid, t, r, hr, ht⟩ := hs.known hm
      obtain ⟨r', hr'⟩ := (step_frame h).runs hr
      exact ⟨Nat.lt_of_lt_of_le hid hn, t, r', hr', ht⟩
    · exact ⟨Nat.lt_of_lt_of_le (hi.rows hj) hn, t, _, hr, ht⟩
  · intro hm j' hj'
    rcases step_marked h hm with hm | ⟨t, r, j, j₁, now, -, -, -, -, hf, hj₁, -⟩
    · obtain ⟨hid, -⟩ := hs.known hm
      cases step_letter h id with
      | same hj | cleaned hj => exact hs.kept hm (hj ▸ hj')
      | write hj hw hf hnew =>
        obtain rfl := Option.some.inj (hnew.symm.trans hj')
        exact (hs.kept hm hj).write hw hf hj (hs.after hm) hl
      | finish hj hw hf hnew =>
        obtain rfl := Option.some.inj (hnew.symm.trans hj')
        exact hw.kept hf
      | enqueued he | enqueuedOther he => omega
      | otherKind hj hne =>
        obtain ⟨-, t, r, hr, ht⟩ := hs.known hm
        exact absurd (hi.letters hr (ht ▸ hj)) hne
      | deleted hnew => cases hnew.symm.trans hj'
    · obtain rfl := Option.some.inj (hj₁.symm.trans hj')
      exact .of_markEffectDone hf
  · intro hm
    rcases step_resent h hm with hm | ⟨hm, who, sendAt, resend, now, j, j', rfl, hmanaged, hj, hf⟩
    · exact hs.resent hm
    · have hl (hr : resend = true) : ¬unlabelled s id = true := by
        simpa [labelledFirst, hr, hmanaged] using hl
      cases ((hs.kept hm hj).not_rescheduled hj hl).symm.trans hf
  · intro hm
    rcases step_givenBack h hm with hm | ⟨hm, who, reason, now, j, j', rfl, hmanaged, hj, hf, hr, hcode⟩
    · exact hs.givenBack hm
    · have hl : ¬unlabelled s id = true := by
        simpa [labelledFirst, hr, hmanaged] using hl
      simp only [Job.cancel, Option.ite_none_right_eq_some, Option.some.injEq] at hf
      obtain ⟨hst, rfl⟩ := hf
      exact hcode ((hs.kept hm hj).refused hst hj hl)

theorem markInv (id : Nat) : system.Invariant (Careful id) fun s => Inv s ∧ MarkInv id s := by
  refine inv.strengthen ?_ fun s l s' hi hs hg h => MarkInv.step hi hs hg h
  rintro s rfl
  constructor <;> simp [State.empty]

/-- **At most once after a recorded delivery**, in every run of a letter in which no request is
served while it is swept and not labelled. -/
theorem at_most_once_after_mark (id : Nat) (hs : system.ReachesUnder (Careful id) s) :
    id ∉ s.resent ∧ id ∉ s.givenBack ∧
      (id ∈ s.marked → ∀ j, s.db.jobs.lookup id = some j → j.status ≠ .queued) := by
  obtain ⟨-, hm⟩ := (markInv id).reachesUnder hs
  exact ⟨hm.resent, hm.givenBack, fun h j hj => (hm.kept h hj).status_ne.1⟩

def letter : NewLetter :=
  { userId := 1, accountId := 1, messageId := "<a@b>", content := ⟨"{}", "{}", []⟩ }

/-- Swept after the mark, the letter is labelled: its writer can dismiss it, and gets nothing back. -/
theorem at_most_once_after_mark_labelled : ∃ s : State, 1 ∈ s.marked ∧ 1 ∉ s.resent ∧
    1 ∉ s.givenBack ∧ ∃ j : Job, s.db.jobs.lookup 1 = some j ∧ j.status ≠ .queued := by
  let t : ClaimToken := ⟨7, 1⟩
  have htrace : (system.exec (Careful 1) State.empty
      [.enqueueOutgoingSend letter 0, .claimDueJobs 7 [1] [SEND_JOB_KIND] 5000 JOB_LEASE_MS true,
        .markEffectStarted t 5001 true, .serverTook t, .markEffectDone t 5002 true, .halt t,
        .sweepExpiredLeases 70000, .cancelScheduled 1 { userId := 1 } .edit 70001]).any
      (fun s => 1 ∈ s.marked ∧ (s.db.jobs.lookup 1).isSome) = true := by
    decide
  obtain ⟨s, hs, hp⟩ := TransitionSystem.reaches_of_exec rfl htrace
  simp only [decide_eq_true_eq, Option.isSome_iff_exists] at hp
  obtain ⟨hm, j, hj⟩ := hp
  obtain ⟨hresent, hback, hst⟩ := at_most_once_after_mark 1 hs
  exact ⟨s, hm, hresent, hback, j, hj, hst hm j hj⟩

/-- A resend served meanwhile queues the delivered letter again. -/
theorem resend_of_unlabelled {who : Requester} {sendAt now : Nat} (hm : id ∈ s.marked)
    (hwho : (managedJob s.db id who).isSome) (hu : unlabelled s id = true) :
    ∃ s', step s (.rescheduleScheduled id who sendAt true now) = some s' ∧ id ∈ s'.resent := by
  obtain ⟨job, hjob⟩ := Option.isSome_iff_exists.mp hwho
  simp only [unlabelled, Option.any_eq_true, decide_eq_true_eq] at hu
  obtain ⟨j, hj, hst, -, hcode⟩ := hu
  have hfrom : j.status ∈ CANCELLABLE_STATUSES := by simp [CANCELLABLE_STATUSES, hst]
  have hexcept : ∀ code ∈ j.errorCode, code ∉ NO_RESEND_CODES := by
    intro code hc hno
    exact hcode (List.mem_singleton.mp hno ▸ hc)
  obtain ⟨row, hf⟩ : ∃ row, j.reschedule now sendAt CANCELLABLE_STATUSES none NO_RESEND_CODES =
      some row := ⟨_, if_pos ⟨hfrom, hexcept⟩⟩
  refine ⟨{ s with
    db := { s.db with jobs := s.db.jobs.insert id row }, resent := id :: s.resent }, ?_,
    List.mem_cons_self⟩
  simp only [step, rescheduleScheduled, hjob, Db.updateJob, hj, Option.bind_some, if_true, hf, hm,
    Option.bind_eq_bind, Option.map_some]

/-- The worker stalls past its lease with the letter accepted, is swept, and stores the mark. -/
def stalledDelivery : List Label :=
  let t : ClaimToken := ⟨7, 1⟩
  [.enqueueOutgoingSend letter 0, .claimDueJobs 7 [1] [SEND_JOB_KIND] 5000 JOB_LEASE_MS true,
    .markEffectStarted t 5001 true, .serverTook t, .sweepExpiredLeases 70000,
    .markEffectDone t 70001 true, .halt t]

/-- **A marked letter is moved** by its manager's resend while it is unlabelled, and by no other
request. -/
theorem rescheduled_iff {who : Requester} {sendAt now : Nat} {resend : Bool}
    (hs : system.ReachesUnder (Careful id) s) (hm : id ∈ s.marked) :
    (step s (.rescheduleScheduled id who sendAt resend now)).isSome ↔
      (managedJob s.db id who).isSome ∧ resend = true ∧ unlabelled s id = true := by
  obtain ⟨-, hinv⟩ := (markInv id).reachesUnder hs
  constructor
  · intro h
    simp only [step, rescheduleScheduled, Option.isSome_map, Option.bind_eq_bind,
      Option.isSome_iff_exists, Option.bind_eq_some_iff] at h
    obtain ⟨-, j, hwho, ⟨row, db⟩, hu, -⟩ := h
    obtain ⟨⟨j', hj, hf⟩, -⟩ := Db.updateJob_some.mp hu
    refine ⟨Option.isSome_of_eq_some hwho, by_contra fun hl => ?_⟩
    cases ((hinv.kept hm hj).not_rescheduled hj (not_and.mp hl)).symm.trans hf
  · rintro ⟨hwho, rfl, hu⟩
    obtain ⟨s', h, -⟩ := resend_of_unlabelled hm hwho hu
    exact Option.isSome_of_eq_some h

theorem rescheduled_iff_stalled : ∃ s : State, unlabelled s 1 = true ∧
    ∃ s', step s (.rescheduleScheduled 1 { userId := 1 } 80000 true 79000) = some s' := by
  have htrace : (system.exec (Careful 1) State.empty stalledDelivery).any (fun s => 1 ∈ s.marked ∧
      unlabelled s 1 = true ∧ (managedJob s.db 1 { userId := 1 }).isSome) = true := by
    decide
  obtain ⟨s, hs, hp⟩ := TransitionSystem.reaches_of_exec rfl htrace
  obtain ⟨hm, hu, hwho⟩ := of_decide_eq_true hp
  exact ⟨s, hu, Option.isSome_iff_exists.mp ((rescheduled_iff hs hm).mpr ⟨hwho, rfl, hu⟩)⟩

/-- A letter whose delivery is recorded is queued to be sent again, and one is given back to be
sent again by its writer. -/
theorem not_at_most_once_after_mark :
    (∃ s, system.ReachesUnder (fun s l => oneRun 1 s l = true) s ∧ 1 ∈ s.marked ∧ 1 ∈ s.resent ∧
      ∃ j ∈ s.db.jobs.lookup 1, j.status = .queued) ∧
    ∃ s, system.ReachesUnder (fun s l => oneRun 1 s l = true) s ∧ 1 ∈ s.marked ∧
      1 ∈ s.givenBack := by
  have hresent : (system.exec (fun s l => oneRun 1 s l = true) State.empty
      (stalledDelivery ++ [.rescheduleScheduled 1 { userId := 1 } 80000 true 79000])).any
        (fun s => 1 ∈ s.marked ∧ 1 ∈ s.resent ∧
          ∃ j ∈ s.db.jobs.lookup 1, j.status = .queued) = true := by
    decide
  have hback : (system.exec (fun s l => oneRun 1 s l = true) State.empty
      (stalledDelivery ++ [.cancelScheduled 1 { userId := 1 } .edit 79000])).any
        (fun s => 1 ∈ s.marked ∧ 1 ∈ s.givenBack) = true := by
    decide
  obtain ⟨s, hs, hp⟩ := TransitionSystem.reaches_of_exec rfl hresent
  obtain ⟨s', hs', hp'⟩ := TransitionSystem.reaches_of_exec rfl hback
  exact ⟨⟨s, hs, of_decide_eq_true hp⟩, s', hs', of_decide_eq_true hp'⟩

end MailExpert.SendQueue
