import MailExpert.Lib.TransitionSystem
import MailExpert.JobQueue.Database

/-!
# Workers of the job queue

Any number of processes claim jobs, run their handlers and sweep. A *run* is one `runJob` call: the
row as its claim returned it and where the call stands. Runs are kept under their claim tokens,
which `randomUUID` makes fresh. Every statement is one step, so a worker that stalls is a run
whose next step comes late and a worker that dies one whose next step never comes.

The handlers are those of an at-most-once kind: `ctx.markEffectStarted` resolves immediately
before each attempt of the irreversible step, and a failure is reported as `retry` only when the
step certainly did nothing. The ghost `effects` counts how often the step of a job took effect.
-/

namespace MailExpert.JobQueue

inductive IrreversibleStep
  | untouched
  | due      -- `markEffectStarted` resolved, the step comes next
  | took     -- it took effect
  | unknown  -- it did not, but the handler cannot know
  | nothing  -- it certainly did nothing
deriving DecidableEq, Repr

inductive Pc
  | inHand               -- claimed, `runJob` not called yet
  | handling             -- the handler runs
  | settling (err : Thrown)  -- the handler threw, `settleWithRetry` runs
  | ended
deriving DecidableEq, Repr

structure Run where
  job : Job
  pc : Pc := .inHand
  effectStarted : Bool := false
  completed : Bool := false
  step : IrreversibleStep := .untouched

/-- The step is due, or it was taken and the handler cannot report that nothing happened. -/
def Run.Busy (r : Run) : Prop := r.step = .due ∨ r.step = .took ∨ r.step = .unknown

instance : DecidablePred Run.Busy := fun _ => inferInstanceAs (Decidable (_ ∨ _))

namespace Worker

structure State where
  db : Db
  runs : Table ClaimToken Run
  /-- The UUIDs drawn by claim statements. -/
  uuids : List Nat
  effects : Nat → Nat

def State.setRun (s : State) (t : ClaimToken) (r : Run) : State :=
  { s with runs := s.runs.insert t r }

/-- `answered`: whether the statement's answer reached the worker. -/
inductive Label
  | enqueueJob (new : NewJob) (now : Nat)
  | claimDueJobs (uuid : Nat) (ids : List Nat) (registered : List String) (now leaseMs : Nat)
      (answered : Bool)
  | startRun (t : ClaimToken)
  | releaseClaims (tokens : List ClaimToken) (now : Nat)
  | renewLease (t : ClaimToken) (now leaseMs : Nat)
  | markEffectStarted (t : ClaimToken) (now : Nat) (answered : Bool)
  | takeStep (t : ClaimToken) (result : IrreversibleStep)
  | markEffectDone (t : ClaimToken) (code : String) (now : Nat)
  | complete (t : ClaimToken) (now : Nat) (answered : Bool)
  | handlerThrows (t : ClaimToken) (err : Thrown)
  | settleFailure (t : ClaimToken) (now : Nat) (answered : Bool)
  | halt (t : ClaimToken)
  | sweepExpiredLeases (now : Nat)
  | cancelJob (id now : Nat)
  | rescheduleJob (id runAt : Nat) (scheduled : Option Bool) (except : List String) (now : Nat)
  | failJobsOfDeletedAccount (accountId now : Nat)
  | cleanupFinishedJobs (now retentionMs keptFailedMs : Nat)

def newRuns (uuid : Nat) (rows : List (Nat × Job)) : List (ClaimToken × Run) :=
  rows.map fun e => (⟨uuid, e.1⟩, { job := e.2 })

/-- `ctx.markEffectStarted`: no row means the claim is lost, and the handler goes no further. -/
def markEffectStarted (s : State) (t : ClaimToken) (r : Run) (now : Nat) (answered : Bool) :
    State :=
  match s.db.updateJob t.id (Job.markEffectStarted now t), answered with
  | some (_, db), true => { s with db }.setRun t { r with effectStarted := true, step := .due }
  | some (_, db), false => { s with db }
  | none, true => s.setRun t { r with pc := .ended }
  | none, false => s

/-- `ctx.complete`, called by the handler or by `runJob` when the handler returned. -/
def complete (s : State) (t : ClaimToken) (r : Run) (now : Nat) (answered : Bool) : State :=
  match s.db.updateJob t.id (Job.complete now t), answered with
  | some (_, db), true => { s with db }.setRun t { r with completed := true }
  | some (_, db), false => { s with db }
  | none, _ => s

/-- The `catch` of `runJob`. -/
def caught (r : Run) (err : Thrown) : Run :=
  if r.completed ∨ err.code = some "claim_lost" then { r with pc := .ended }
  else { r with pc := .settling err }

def step (s : State) : Label → Option State
  | .enqueueJob new now => some { s with db := (s.db.enqueueJob new now).2 }
  | .claimDueJobs uuid ids registered now leaseMs answered =>
    let f := Job.claimAmong now uuid ids registered leaseMs
    if uuid ∈ s.uuids then none
    else some { s with
      db := s.db.updateJobs f
      runs := if answered then s.runs.insertAll (newRuns uuid (s.db.updatedJobs f)) else s.runs
      uuids := uuid :: s.uuids }
  | .startRun t => (s.runs.lookup t).bind fun r =>
    if r.pc = .inHand then some (s.setRun t { r with pc := .handling }) else none
  -- The process is stopping: what the claim brought is given back and never started.
  | .releaseClaims tokens now => some { s with
      db := s.db.updateJobs fun _ => Job.releaseClaim now tokens
      runs := s.runs.update (fun t r => t ∈ tokens ∧ r.pc = .inHand) fun _ r =>
        { r with pc := .ended } }
  | .renewLease t now leaseMs =>
    some { s with db := s.db.writeJob t.id (Job.renewLease now t leaseMs) }
  | .markEffectStarted t now answered => (s.runs.lookup t).bind fun r =>
    if r.pc = .handling ∧ ¬r.Busy then some (markEffectStarted s t r now answered) else none
  | .takeStep t result => (s.runs.lookup t).bind fun r =>
    if r.pc = .handling ∧ r.step = .due ∧ (result = .took ∨ result = .unknown ∨ result = .nothing)
    then some { s.setRun t { r with step := result } with
      effects := if result = .took then Function.update s.effects t.id (s.effects t.id + 1)
        else s.effects }
    else none
  | .markEffectDone t code now => (s.runs.lookup t).bind fun r =>
    if r.pc = .handling ∧ r.step ≠ .due then
      some { s with db := s.db.writeJob t.id (Job.markEffectDone now code) }
    else none
  | .complete t now answered => (s.runs.lookup t).bind fun r =>
    if r.pc = .handling ∧ r.step ≠ .due then some (complete s t r now answered) else none
  | .handlerThrows t err => (s.runs.lookup t).bind fun r =>
    if r.pc = .handling ∧ r.step ≠ .due ∧ (r.Busy → err.jobOutcome ≠ some .retry) then
      some (s.setRun t (caught r err))
    else none
  | .settleFailure t now answered => (s.runs.lookup t).bind fun r =>
    match r.pc with
    | .settling err =>
      let f := Job.settleFailure now t r.job.attempts r.job.maxAttempts err r.effectStarted
      let s' := { s with db := s.db.writeJob t.id f }
      some (if answered then s'.setRun t { r with pc := .ended } else s')
    | _ => none
  | .halt t => (s.runs.lookup t).bind fun r => some (s.setRun t { r with pc := .ended })
  | .sweepExpiredLeases now => some { s with db := s.db.sweepExpiredLeases now }
  | .cancelJob id now => some { s with db := s.db.writeJob id (Job.cancel now [.queued]) }
  | .rescheduleJob id runAt scheduled except now => some { s with
      db := s.db.writeJob id (Job.reschedule now runAt [.queued] scheduled except) }
  | .failJobsOfDeletedAccount accountId now =>
    some { s with db := s.db.failJobsOfDeletedAccount accountId now }
  | .cleanupFinishedJobs now retentionMs keptFailedMs =>
    some { s with db := s.db.deleteFinishedContent.deleteExpiredJobs now retentionMs keptFailedMs }

end Worker

/-- The queue before its first job: no row, no claim. -/
def Worker.system : TransitionSystem Worker.State Worker.Label where
  init s := s.db.jobs = ∅ ∧ s.runs = ∅ ∧ ∀ id, s.effects id = 0
  step := Worker.step

end MailExpert.JobQueue
