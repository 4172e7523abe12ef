import MailExpert.TraceBudget.Budgets

/-!
# What is sent in five minutes

A request of a job moves a reserved token to the sent ones, and a reservation moves one out of the bucket: what is sent, reserved and in the
bucket grows only as the bucket fills (`traceSum_step`). A pass spends at its end what it has sent, so what it has sent so far is missing from
the bucket already (`outageSum_step`).
-/

namespace MailExpert.TraceBudget

open TransitionSystem (anyStep)

variable {s s' : State} {l : Label} {job : Job} {pass : Pass} {i n : Nat} {bucket : TokenBucket ℚ} {now : ℚ}

/-- What a step finds that looks something up and refuses some of it. -/
theorem found {α β : Type*} {o : Option α} {p : α → Prop} [DecidablePred p] {f : α → β} {b : β}
    (h : (o.bind fun a => if p a then none else some (f a)) = some b) : ∃ a, o = some a ∧ ¬p a ∧ f a = b := by
  obtain ⟨a, ha, h⟩ := Option.bind_eq_some_iff.mp h
  rw [Option.ite_none_left_eq_some, Option.some.injEq] at h
  exact ⟨a, ha, h⟩

theorem refill_pos : 0 < BUCKET_REFILL_MS := by norm_num [BUCKET_REFILL_MS, MINUTE_MS]

/-- What holds of a job: one that found less than a request has reserved none. -/
structure Job.Ok (job : Job) : Prop where
  used : job.used ≤ job.allowed
  none : job.found < 1 → job.allowed = 0

/-- What holds of a pass while the bucket holds `level`. -/
structure Pass.Ok (pass : Pass) (level : ℚ) : Prop where
  used : pass.used ≤ pass.allowed
  allowed : (pass.allowed : ℚ) ≤ level

structure Inv (s : State) : Prop where
  trace : s.trace.Sound MessageTrace.BUCKET_SIZE s.now
  outage : s.outage.Sound OutageTrace.BUCKET_SIZE s.now
  jobs : ∀ job ∈ s.jobs, job.Ok
  pass : ∀ pass ∈ s.pass, pass.Ok s.outageLevel

/-! ## The operations on the buckets -/

namespace MessageTrace

theorem availableTraceRequests_le (h : bucket.Sound BUCKET_SIZE now) : (availableTraceRequests bucket now : ℚ) ≤ (refill bucket now).tokens := by
  have hfloor : 0 ≤ ⌊(refill bucket now).tokens⌋ := Int.floor_nonneg.mpr (h.level_nonneg refill_pos)
  calc (availableTraceRequests bucket now : ℚ) = ((⌊(refill bucket now).tokens⌋ : ℤ) : ℚ) := by
        rw [availableTraceRequests, ← Int.cast_natCast, Int.toNat_of_nonneg hfloor]
    _ ≤ _ := Int.floor_le _

theorem availableTraceRequests_eq_zero (h : (refill bucket now).tokens < 1) : availableTraceRequests bucket now = 0 := by
  have hfloor : ⌊(refill bucket now).tokens⌋ < 1 := Int.floor_lt.mpr (by exact_mod_cast h)
  rw [availableTraceRequests]
  omega

/-- A reservation is taken out of the level. -/
theorem reserveTraceRequests_spec (h : bucket.Sound BUCKET_SIZE now) :
    (reserveTraceRequests n bucket now).1.Sound BUCKET_SIZE now ∧
      (refill (reserveTraceRequests n bucket now).1 now).tokens = (refill bucket now).tokens - (reserveTraceRequests n bucket now).2 := by
  have hle : ((min n (availableTraceRequests bucket now) : ℕ) : ℚ) ≤ (refill bucket now).tokens :=
    le_trans (by exact_mod_cast min_le_right _ _) (availableTraceRequests_le h)
  exact ⟨(h.refill refill_pos).take (by positivity) hle, TokenBucket.level_take rfl (by positivity) TokenBucket.level_le_size⟩

theorem refundTraceRequests_spec (h : bucket.Sound BUCKET_SIZE now) :
    (refundTraceRequests n bucket now).Sound BUCKET_SIZE now ∧
      (refill (refundTraceRequests n bucket now) now).tokens ≤ (refill bucket now).tokens + n := by
  unfold refundTraceRequests
  split
  · refine ⟨(h.refill refill_pos).put (by positivity), ?_⟩
    calc (refill ((refill bucket now).put BUCKET_SIZE n) now).tokens = min BUCKET_SIZE ((refill bucket now).tokens + n) :=
          TokenBucket.level_put rfl
      _ ≤ _ := min_le_right _ _
  · exact ⟨h, le_add_of_nonneg_right (by positivity)⟩

end MessageTrace

namespace OutageTrace

theorem availableRequests_le (h : bucket.Sound BUCKET_SIZE now) : (availableRequests bucket now : ℚ) ≤ (refill bucket now).tokens := by
  have hfloor : 0 ≤ ⌊(refill bucket now).tokens⌋ := Int.floor_nonneg.mpr (h.level_nonneg refill_pos)
  calc (availableRequests bucket now : ℚ) = ((⌊(refill bucket now).tokens⌋ : ℤ) : ℚ) := by
        rw [availableRequests, ← Int.cast_natCast, Int.toNat_of_nonneg hfloor]
    _ ≤ _ := Int.floor_le _

/-- What the bucket holds is spent whole. -/
theorem spendRequests_spec (h : bucket.Sound BUCKET_SIZE now) (hn : (n : ℚ) ≤ (refill bucket now).tokens) :
    (spendRequests n bucket now).Sound BUCKET_SIZE now ∧
      (refill (spendRequests n bucket now) now).tokens = (refill bucket now).tokens - n := by
  have htake : spendRequests n bucket now = (refill bucket now).take n := by
    rw [spendRequests, max_eq_right (sub_nonneg.mpr hn)]
    rfl
  rw [htake]
  exact ⟨(h.refill refill_pos).take (by positivity) hn, TokenBucket.level_take rfl (by positivity) TokenBucket.level_le_size⟩

end OutageTrace

theorem handleTraceJob_spec (h : bucket.Sound MessageTrace.BUCKET_SIZE now) :
    (handleTraceJob bucket now).1.Sound MessageTrace.BUCKET_SIZE now ∧ (handleTraceJob bucket now).2.Ok ∧
      (MessageTrace.refill (handleTraceJob bucket now).1 now).tokens + (handleTraceJob bucket now).2.left = (MessageTrace.refill bucket now).tokens := by
  obtain ⟨hsound, hlevel⟩ := MessageTrace.reserveTraceRequests_spec (n := MessageTrace.MAX_REQUESTS_PER_RUN) h
  have hnone : (MessageTrace.refill bucket now).tokens < 1 →
      (MessageTrace.reserveTraceRequests MessageTrace.MAX_REQUESTS_PER_RUN bucket now).2 = 0 := fun hlt => by
    simp [MessageTrace.reserveTraceRequests, MessageTrace.availableTraceRequests_eq_zero hlt]
  simp only [handleTraceJob]
  split
  · refine ⟨hsound, ⟨Nat.zero_le _, hnone⟩, ?_⟩
    rw [hlevel, show (MessageTrace.reserveTraceRequests MessageTrace.MAX_REQUESTS_PER_RUN bucket now).2 = 0 by omega]
    simp [Job.left]
  · refine ⟨hsound, ⟨Nat.zero_le _, hnone⟩, ?_⟩
    rw [hlevel]
    simp [Job.left]

theorem mem_set_ok {jobs : List Job} (h : ∀ job ∈ jobs, job.Ok) (hjob : job.Ok) : ∀ x ∈ jobs.set i job, x.Ok := fun x hx => by
  rcases List.mem_or_eq_of_mem_set hx with hx | rfl
  · exact h x hx
  · exact hjob

theorem Pass.Ok.mono {level level' : ℚ} (h : pass.Ok level) (hle : level ≤ level') : pass.Ok level' := ⟨h.used, h.allowed.trans hle⟩

/-- Spending what the pass has sent: the rest of what it was allowed was never counted. -/
theorem Pass.Ok.spent {level : ℚ} (h : pass.Ok level) :
    pass.allowed - (pass.allowed - pass.used) = pass.used ∧ (pass.used : ℚ) ≤ level :=
  ⟨Nat.sub_sub_self h.used, le_trans (by exact_mod_cast h.used) h.allowed⟩

theorem invariant : system.Invariant anyStep Inv where
  init {s} h := by
    refine ⟨⟨h.trace.2, ?_, ?_⟩, ⟨h.outage.2, ?_, ?_⟩, ?_, ?_⟩
    · simp [h.trace.1, MessageTrace.BUCKET_SIZE]
    · exact h.trace.1.le
    · simp [h.outage.1, OutageTrace.BUCKET_SIZE]
    · exact h.outage.1.le
    · simp [h.jobs]
    · simp [h.pass]
  step {s l s'} hs _ hstep := by
    cases l with
    | clock now =>
      simp only [system, step, Option.ite_none_right_eq_some, Option.some.injEq] at hstep
      obtain ⟨hle, rfl⟩ := hstep
      refine ⟨hs.trace.later hle, hs.outage.later hle, hs.jobs, fun pass hpass => (hs.pass pass hpass).mono ?_⟩
      exact TokenBucket.level_mono (by norm_num [OutageTrace.BUCKET_SIZE]) refill_pos hle
    | startJob =>
      simp only [system, step, Option.some.injEq] at hstep
      subst hstep
      obtain ⟨hsound, hjob, -⟩ := handleTraceJob_spec hs.trace
      refine ⟨hsound, hs.outage, fun job hmem => ?_, hs.pass⟩
      rcases List.mem_append.mp hmem with hmem | hmem
      · exact hs.jobs job hmem
      · exact List.mem_singleton.mp hmem ▸ hjob
    | request i =>
      obtain ⟨job, hget, hopen, rfl⟩ := found hstep
      have hjob := hs.jobs job (List.mem_of_getElem? hget)
      refine ⟨hs.trace, hs.outage, mem_set_ok hs.jobs ⟨?_, hjob.none⟩, hs.pass⟩
      simp at hopen
      exact hopen.2
    | endJob i throttled =>
      obtain ⟨job, hget, -, rfl⟩ := found hstep
      have hjob := hs.jobs job (List.mem_of_getElem? hget)
      exact ⟨(MessageTrace.refundTraceRequests_spec hs.trace).1, hs.outage, mem_set_ok hs.jobs ⟨hjob.used, hjob.none⟩, hs.pass⟩
    | startPass =>
      simp only [system, step] at hstep
      split at hstep
      · cases hstep
      · cases hstep
        refine ⟨hs.trace, hs.outage.refill refill_pos, hs.jobs, fun pass hpass => ?_⟩
        obtain rfl := Option.some.inj hpass
        refine ⟨Nat.zero_le _, ?_⟩
        calc ((min OutageTrace.MAX_REQUESTS_PER_PASS (OutageTrace.availableRequests s.outage s.now) : ℕ) : ℚ)
            ≤ OutageTrace.availableRequests s.outage s.now := by exact_mod_cast min_le_right _ _
          _ ≤ s.outageLevel := OutageTrace.availableRequests_le hs.outage
          _ = _ := TokenBucket.level_refill.symm
    | passRequest =>
      obtain ⟨pass, hpass, hopen, rfl⟩ := found hstep
      refine ⟨hs.trace, hs.outage, hs.jobs, fun pass' hpass' => ?_⟩
      obtain rfl := Option.some.inj hpass'
      exact ⟨not_le.mp hopen, (hs.pass pass hpass).allowed⟩
    | passLost =>
      obtain ⟨pass, hpass, hopen, rfl⟩ := found hstep
      exact ⟨hs.trace, hs.outage, hs.jobs, hs.pass⟩
    | endPass =>
      simp only [system, step, Option.bind_eq_bind, Option.bind_eq_some_iff, Option.some.injEq] at hstep
      obtain ⟨pass, hpass, rfl⟩ := hstep
      obtain ⟨hspent, hle⟩ := (hs.pass pass hpass).spent
      rw [hspent]
      exact ⟨hs.trace, (OutageTrace.spendRequests_spec hs.outage hle).1, hs.jobs, by simp⟩

/-! ## What is sent, reserved and in the bucket -/

theorem reserved_set {job' : Job} (h : s.jobs[i]? = some job) (hjobs : s'.jobs = s.jobs.set i job') :
    (s'.reserved : ℚ) + job.left = s.reserved + job'.left := by
  have hsum := Agents.sum_map_set (f := Job.left) (b := job') h
  rw [State.reserved, hjobs]
  exact_mod_cast hsum

/-- What the jobs have sent and can send, less what the bucket got by the clock. -/
def State.traceSum (s : State) : ℚ :=
  s.traceSent + s.reserved + s.traceLevel - s.now * MessageTrace.BUCKET_SIZE / BUCKET_REFILL_MS

/-- What the running pass has sent and not spent. -/
def State.unspent (s : State) : Nat := (s.pass.map Pass.used).getD 0

def State.outageSum (s : State) : ℚ :=
  s.outageSent - s.unspent + s.outageLevel - s.now * OutageTrace.BUCKET_SIZE / BUCKET_REFILL_MS

theorem fill_eq {now' size : ℚ} : (now' - now) * size / BUCKET_REFILL_MS = now' * size / BUCKET_REFILL_MS - now * size / BUCKET_REFILL_MS := by
  ring

theorem traceSum_step (hs : Inv s) (hstep : system.step s l = some s') : s'.traceSum ≤ s.traceSum := by
  cases l with
  | clock now =>
    simp only [system, step, Option.ite_none_right_eq_some, Option.some.injEq] at hstep
    obtain ⟨hle, rfl⟩ := hstep
    have hfill : ({ s with now } : State).traceLevel ≤ s.traceLevel + (now - s.now) * MessageTrace.BUCKET_SIZE / BUCKET_REFILL_MS :=
      TokenBucket.level_le_add (by norm_num [MessageTrace.BUCKET_SIZE]) refill_pos hle
    rw [fill_eq] at hfill
    have hreserved : ({ s with now } : State).reserved = s.reserved := rfl
    simp only [State.traceSum, hreserved]
    linarith
  | startJob =>
    simp only [system, step, Option.some.injEq] at hstep
    subst hstep
    have hlevel := (handleTraceJob_spec hs.trace).2.2
    simp only [State.traceSum, State.reserved, State.traceLevel, List.map_append, List.map_cons, List.map_nil, List.sum_append, List.sum_cons,
      List.sum_nil, Nat.cast_add] at hlevel ⊢
    linarith
  | request i =>
    obtain ⟨job, hget, hopen, rfl⟩ := found hstep
    simp at hopen
    have hset := @reserved_set s { s with jobs := s.jobs.set i { job with used := job.used + 1 }, traceSent := s.traceSent + 1 } job i _ hget rfl
    have hleft : job.left = Job.left { job with used := job.used + 1 } + 1 := by
      simp only [Job.left, hopen.1]
      simp
      omega
    rw [hleft, Nat.cast_add, Nat.cast_one] at hset
    simp only [State.traceSum, State.traceLevel, Nat.cast_add, Nat.cast_one]
    linarith
  | endJob i throttled =>
    obtain ⟨job, hget, hopen, hstep⟩ := found hstep
    have hjob := hs.jobs job (List.mem_of_getElem? hget)
    have hleft : job.left = job.allowed - job.used := by simp [Job.left, hopen]
    -- what goes back is at most what was left of the reservation
    have hback : job.allowed - min (if throttled then job.allowed else job.used) job.allowed ≤ job.left := by
      rw [hleft]
      split
      · simp
      · rw [min_eq_left hjob.used]
    have hrefund := (MessageTrace.refundTraceRequests_spec
      (n := job.allowed - min (if throttled then job.allowed else job.used) job.allowed) hs.trace).2
    have hback' : ((job.allowed - min (if throttled then job.allowed else job.used) job.allowed : ℕ) : ℚ) ≤ job.left := by exact_mod_cast hback
    have hset : (s'.reserved : ℚ) + job.left = s.reserved + Job.left { job with ended := true } := reserved_set hget (by rw [← hstep])
    rw [show Job.left { job with ended := true } = 0 from rfl, Nat.cast_zero] at hset
    have hlevel : s'.traceLevel ≤ s.traceLevel + job.left := by
      rw [← hstep]
      exact hrefund.trans (by rw [State.traceLevel]; linarith)
    have hsent : s'.traceSent = s.traceSent := by rw [← hstep]
    have hnow : s'.now = s.now := by rw [← hstep]
    rw [State.traceSum, State.traceSum, hsent, hnow]
    linarith
  | startPass =>
    simp only [system, step] at hstep
    split at hstep <;> cases hstep
    exact le_rfl
  | passRequest =>
    obtain ⟨pass, hpass, hopen, rfl⟩ := found hstep
    exact le_rfl
  | passLost =>
    obtain ⟨pass, hpass, hopen, rfl⟩ := found hstep
    exact le_rfl
  | endPass =>
    simp only [system, step, Option.bind_eq_bind, Option.bind_eq_some_iff, Option.some.injEq] at hstep
    obtain ⟨pass, hpass, rfl⟩ := hstep
    exact le_rfl

theorem outageSum_step (hs : Inv s) (hstep : system.step s l = some s') : s'.outageSum ≤ s.outageSum := by
  cases l with
  | clock now =>
    simp only [system, step, Option.ite_none_right_eq_some, Option.some.injEq] at hstep
    obtain ⟨hle, rfl⟩ := hstep
    have hfill : ({ s with now } : State).outageLevel ≤ s.outageLevel + (now - s.now) * OutageTrace.BUCKET_SIZE / BUCKET_REFILL_MS :=
      TokenBucket.level_le_add (by norm_num [OutageTrace.BUCKET_SIZE]) refill_pos hle
    rw [fill_eq] at hfill
    have hunspent : ({ s with now } : State).unspent = s.unspent := rfl
    simp only [State.outageSum, hunspent]
    linarith
  | startJob =>
    simp only [system, step, Option.some.injEq] at hstep
    subst hstep
    exact le_rfl
  | request i =>
    obtain ⟨job, hget, hopen, rfl⟩ := found hstep
    exact le_rfl
  | endJob i throttled =>
    obtain ⟨job, hget, hopen, rfl⟩ := found hstep
    exact le_rfl
  | startPass =>
    simp only [system, step] at hstep
    split at hstep
    · cases hstep
    · rename_i hpass
      cases hstep
      have hlevel : (OutageTrace.refill (OutageTrace.refill s.outage s.now) s.now).tokens = s.outageLevel := TokenBucket.level_refill
      simp only [State.outageSum, State.unspent, State.outageLevel, hpass, hlevel]
      simp
  | passRequest =>
    obtain ⟨pass, hpass, hopen, rfl⟩ := found hstep
    simp only [State.outageSum, State.unspent, State.outageLevel, hpass, Option.map_some, Option.getD_some, Nat.cast_add, Nat.cast_one]
    linarith
  | passLost =>
    obtain ⟨pass, hpass, hopen, rfl⟩ := found hstep
    exact le_rfl
  | endPass =>
    simp only [system, step, Option.bind_eq_bind, Option.bind_eq_some_iff, Option.some.injEq] at hstep
    obtain ⟨pass, hpass, rfl⟩ := hstep
    obtain ⟨hspent, hle⟩ := (hs.pass pass hpass).spent
    rw [hspent]
    have hlevel := (OutageTrace.spendRequests_spec hs.outage hle).2
    simp only [State.outageSum, State.unspent, State.outageLevel, hpass, hlevel, Option.map_some, Option.map_none, Option.getD_some, Option.getD_none,
      Nat.cast_zero]
    linarith

/-- What no step raises is not higher at the end of a run. -/
theorem run_le {f : State → ℚ} (hf : ∀ {s l s'}, Inv s → system.step s l = some s' → f s' ≤ f s) (hs : Inv s) (hrun : system.Run anyStep s s') :
    f s' ≤ f s := by
  induction hrun with
  | refl => exact le_rfl
  | tail hrun _ hstep ih => exact (hf (invariant.run hs hrun) hstep).trans ih

theorem Inv.traceLevel_nonneg (hs : Inv s) : 0 ≤ s.traceLevel := hs.trace.level_nonneg refill_pos

theorem Inv.outageLevel_nonneg (hs : Inv s) : 0 ≤ s.outageLevel := hs.outage.level_nonneg refill_pos

theorem Inv.unspent_le (hs : Inv s) : (s.unspent : ℚ) ≤ s.outageLevel := by
  cases hpass : s.pass with
  | none => simpa [State.unspent, hpass] using hs.outageLevel_nonneg
  | some pass =>
    obtain ⟨-, hle⟩ := (hs.pass pass hpass).spent
    simpa [State.unspent, hpass] using hle

/-- In a time `d` the bucket of a `size` gets `d * size / BUCKET_REFILL_MS`, which is `size` at most in five minutes. -/
theorem fill_le {now' size : ℚ} (hsize : 0 ≤ size) (h : now' ≤ now + BUCKET_REFILL_MS) :
    now' * size / BUCKET_REFILL_MS - now * size / BUCKET_REFILL_MS ≤ size := by
  rw [← fill_eq, div_le_iff₀ refill_pos, mul_comm size]
  exact mul_le_mul_of_nonneg_right (by linarith) hsize

/-- What a run sends from a reachable state to one at most five minutes later. -/
structure Bounded (s s' : State) : Prop where
  trace : (s'.traceSent : ℚ) - s.traceSent ≤ s.traceLevel + s.reserved + MessageTrace.BUCKET_SIZE
  outage : (s'.outageSent : ℚ) - s.outageSent ≤ s.outageLevel + OutageTrace.BUCKET_SIZE
  traceLevel : 0 ≤ s'.traceLevel ∧ s'.traceLevel ≤ MessageTrace.BUCKET_SIZE
  outageLevel : 0 ≤ s'.outageLevel ∧ s'.outageLevel ≤ OutageTrace.BUCKET_SIZE
  none : ∀ job ∈ s'.jobs, job.found < 1 → job.used = 0

theorem budgets_bound (hreach : system.Reachable s) (hrun : system.Run anyStep s s') (hwindow : s'.now ≤ s.now + BUCKET_REFILL_MS) :
    Bounded s s' := by
  have hs : Inv s := invariant.reachable hreach
  have hs' : Inv s' := invariant.run hs hrun
  refine ⟨?_, ?_, ⟨hs'.traceLevel_nonneg, TokenBucket.level_le_size⟩, ⟨hs'.outageLevel_nonneg, TokenBucket.level_le_size⟩, fun job hjob hfound => ?_⟩
  · have hsum : s'.traceSum ≤ s.traceSum := run_le traceSum_step hs hrun
    have hsize : (0 : ℚ) ≤ MessageTrace.BUCKET_SIZE := by norm_num [MessageTrace.BUCKET_SIZE]
    have hfill := fill_le hsize hwindow
    have hreserved : (0 : ℚ) ≤ s'.reserved := Nat.cast_nonneg _
    have hlevel := hs'.traceLevel_nonneg
    simp only [State.traceSum] at hsum
    linarith
  · have hsum : s'.outageSum ≤ s.outageSum := run_le outageSum_step hs hrun
    have hsize : (0 : ℚ) ≤ OutageTrace.BUCKET_SIZE := by norm_num [OutageTrace.BUCKET_SIZE]
    have hfill := fill_le hsize hwindow
    have hunspent := hs'.unspent_le
    have hstart : (0 : ℚ) ≤ s.unspent := Nat.cast_nonneg _
    simp only [State.outageSum] at hsum
    linarith
  · have hok := hs'.jobs job hjob
    have := hok.used
    have := hok.none hfound
    omega

def full : State where
  now := 0
  trace := ⟨MessageTrace.BUCKET_SIZE, 0⟩
  outage := ⟨OutageTrace.BUCKET_SIZE, 0⟩

theorem full_reachable : system.Reachable full := .init ⟨⟨rfl, le_rfl⟩, ⟨rfl, le_rfl⟩, rfl, rfl⟩

def runJob (i n : Nat) : List Label := [.startJob] ++ List.replicate n (.request i) ++ [.endJob i false]

def runPass (n : Nat) : List Label := [.startPass] ++ List.replicate n .passRequest ++ [.endPass]

/-- Both buckets emptied, and what they have got after a minute. -/
def burst : List Label :=
  runJob 0 10 ++ runJob 1 10 ++ runPass 40 ++ runPass 40 ++ [.clock MINUTE_MS] ++ runJob 2 4 ++ runPass 16

theorem burst_sent :
    (system.exec anyStep full burst).map (fun s => (s.now, s.traceSent, s.outageSent)) = some (60000, 24, 96) := by
  decide +kernel

theorem burst_run : ∃ s, system.Run anyStep full s ∧ s.now = 60000 ∧ s.traceSent = 24 ∧ s.outageSent = 96 := by
  obtain ⟨s, hexec, hs⟩ := Option.map_eq_some_iff.mp burst_sent
  simp only [Prod.mk.injEq] at hs
  exact ⟨s, TransitionSystem.run_of_exec hexec, hs⟩

theorem budgets_bound_burst : ∃ s, s.traceSent = 24 ∧ s.outageSent = 96 ∧ Bounded full s := by
  obtain ⟨s, hrun, hnow, htrace, houtage⟩ := burst_run
  exact ⟨s, htrace, houtage, budgets_bound full_reachable hrun (by rw [hnow]; norm_num [full, BUCKET_REFILL_MS, MINUTE_MS])⟩

theorem budgets_not_under_limit :
    ¬∀ s s' : State, system.Reachable s → system.Run anyStep s s' → s'.now ≤ s.now + BUCKET_REFILL_MS →
      s'.traceSent + s'.outageSent ≤ s.traceSent + s.outageSent + 100 := fun h => by
  obtain ⟨s, hrun, hnow, htrace, houtage⟩ := burst_run
  have hle := h full s full_reachable hrun (by rw [hnow]; norm_num [full, BUCKET_REFILL_MS, MINUTE_MS])
  rw [htrace, houtage] at hle
  exact absurd hle (by decide)

end MailExpert.TraceBudget
