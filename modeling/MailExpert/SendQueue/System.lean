import MailExpert.Lib.TransitionSystem
import MailExpert.SendQueue.Letter

/-!
# The send queue at work

Any number of workers run `send_message` jobs while users enqueue, cancel and move letters. A run
is one `runJob` call with `handleSendJob` in it, cut into the statements it sends: each statement
or transaction is one step, and a worker may stop (`halt`) or stall between any two. Jobs of other
kinds are there too; what they do to their own rows is arbitrary (`otherKind`).

The ghosts record what the log of a run would show: `marked` the letters whose delivery a
`markEffectDone` call has stored, `resent` those a reschedule has moved after that, `givenBack`
those a cancel has handed back to the composer after that.
-/

namespace MailExpert.SendQueue

open JobQueue

/-- Where the run of a letter stands. `again`: the second try of recording a delivery. -/
inductive Pc
  | handling                       -- before the letter goes to the mail server
  | sending                        -- `markEffectStarted` resolved
  | delivered                      -- the server took it, `markEffectDone` comes next
  | recording (again : Bool)       -- `complete()` comes next
  | settlingSwept (again : Bool)   -- the claim was gone, `settleSweptDelivery` comes next
  | returned                       -- the handler returned and the job is not completed
  | settling (err : Thrown)        -- the handler threw, `settleWithRetry` runs
  | ended
deriving DecidableEq, Repr

structure Run where
  job : Job
  pc : Pc := .handling
  effectStarted : Bool := false

/-- How a transaction ended for the worker that sent it. -/
inductive Answer
  | resolved   -- it committed and the answer arrived
  | failed     -- it was rolled back, and threw
  | lost       -- it committed, but the connection broke: it threw
deriving DecidableEq, Repr

structure State where
  db : Db
  runs : Table ClaimToken Run
  uuids : List Nat
  marked : List Nat
  resent : List Nat
  givenBack : List Nat

inductive Label
  | enqueueOutgoingSend (letter : NewLetter) (now : Nat)
  | enqueueOther (new : NewJob) (now : Nat)
  | otherKind (id : Nat) (row : Job)
  | claimDueJobs (uuid : Nat) (ids : List Nat) (registered : List String) (now leaseMs : Nat)
      (answered : Bool)
  | releaseClaims (tokens : List ClaimToken) (now : Nat)
  | renewLease (t : ClaimToken) (now leaseMs : Nat)
  | markEffectStarted (t : ClaimToken) (now : Nat) (answered : Bool)
  | handlerThrows (t : ClaimToken) (err : Thrown)
  | serverTook (t : ClaimToken)
  | markEffectDone (t : ClaimToken) (now : Nat) (ran : Bool)
  | complete (t : ClaimToken) (rejected : List String) (now : Nat) (answer : Answer)
  | settleSweptDelivery (t : ClaimToken) (rejected : List String) (now : Nat) (answer : Answer)
  | completeReturned (t : ClaimToken) (now : Nat)
  | settleFailure (t : ClaimToken) (now : Nat) (answered : Bool)
  | halt (t : ClaimToken)
  | sweepExpiredLeases (now : Nat)
  | cancelScheduled (id : Nat) (who : Requester) (reason : CancelReason) (now : Nat)
  | rescheduleScheduled (id : Nat) (who : Requester) (sendAt : Nat) (resend : Bool) (now : Nat)
  | failJobsOfDeletedAccount (accountId now : Nat)
  | deleteFinishedContent
  | deleteExpiredJobs (now retentionMs keptFailedMs : Nat)

def State.setRun (s : State) (t : ClaimToken) (r : Run) : State :=
  { s with runs := s.runs.insert t r }

def newRuns (uuid : Nat) (rows : List (Nat × Job)) : List (ClaimToken × Run) :=
  (rows.filter fun e => e.2.kind = SEND_JOB_KIND).map fun e => (⟨uuid, e.1⟩, { job := e.2 })

/-- What comes after recording a delivery threw: the second try, then giving it up. -/
def recordingFailed (again : Bool) : Pc :=
  if again then .settling deliveredUnrecorded else .recording true

def Run.goto (r : Run) (pc : Pc) : Run := { r with pc }

/-- `ctx.markEffectStarted`: a lost claim (`claim_lost`) ends the run unsettled. -/
def markEffectStarted (s : State) (t : ClaimToken) (r : Run) (now : Nat) (answered : Bool) :
    State :=
  match s.db.updateJob t.id (Job.markEffectStarted now t), answered with
  | some (_, db), true =>
    { s with db }.setRun t { r with effectStarted := true, pc := .sending }
  | some (_, db), false => { s with db }
  | none, true => s.setRun t (r.goto .ended)
  | none, false => s

/-- `complete()` of the handler; once it applied, nothing the run still does writes the job. -/
def complete (s : State) (t : ClaimToken) (r : Run) (again : Bool) (rejected : List String)
    (now : Nat) (answer : Answer) : State :=
  match completeLetter s.db t rejected now, answer with
  | some db, .resolved => { s with db }.setRun t (r.goto .ended)
  | some db, .lost => { s with db }.setRun t (r.goto (recordingFailed again))
  | none, .resolved => s.setRun t (r.goto (.settlingSwept again))
  | _, _ => s.setRun t (r.goto (recordingFailed again))

/-- `settleSweptDelivery`; without a row the first try is followed by the second. -/
def settleSweptRow (s : State) (t : ClaimToken) (r : Run) (again : Bool) (rejected : List String)
    (now : Nat) (answer : Answer) : State :=
  match settleSweptDelivery s.db t.id rejected now, answer with
  | some db, .resolved => { s with db }.setRun t (r.goto .returned)
  | some db, .lost => { s with db }.setRun t (r.goto (recordingFailed again))
  | none, .resolved => s.setRun t (r.goto (if again then .returned else .recording true))
  | _, _ => s.setRun t (r.goto (recordingFailed again))

def step (s : State) : Label → Option State
  | .enqueueOutgoingSend letter now =>
    some { s with db := (enqueueOutgoingSend s.db letter now).2 }
  | .enqueueOther new now =>
    if new.kind = SEND_JOB_KIND then none else some { s with db := (s.db.enqueueJob new now).2 }
  | .otherKind id row => (s.db.jobs.lookup id).bind fun j =>
    if j.kind ≠ SEND_JOB_KIND ∧ row.kind = j.kind then
      some { s with db := { s.db with jobs := s.db.jobs.insert id row } }
    else none
  | .claimDueJobs uuid ids registered now leaseMs answered =>
    let f := Job.claimAmong now uuid ids registered leaseMs
    if uuid ∈ s.uuids then none
    else some { s with
      db := s.db.updateJobs f
      runs := if answered then s.runs.insertAll (newRuns uuid (s.db.updatedJobs f)) else s.runs
      uuids := uuid :: s.uuids }
  -- Claimed rows of a stopping process: `runJob` is never called on them.
  | .releaseClaims tokens now => some { s with
      db := s.db.updateJobs fun _ => Job.releaseClaim now tokens
      runs := s.runs.update (fun t _ => t ∈ tokens) fun _ r => r.goto .ended }
  | .renewLease t now leaseMs =>
    some { s with db := s.db.writeJob t.id (Job.renewLease now t leaseMs) }
  | .markEffectStarted t now answered => (s.runs.lookup t).bind fun r =>
    if r.pc = .handling then some (markEffectStarted s t r now answered) else none
  | .handlerThrows t err => (s.runs.lookup t).bind fun r =>
    if r.pc = .handling ∨ r.pc = .sending then
      some (s.setRun t (r.goto (if err.code = some "claim_lost" then .ended else .settling err)))
    else none
  | .serverTook t => (s.runs.lookup t).bind fun r =>
    if r.pc = .sending then some (s.setRun t (r.goto .delivered)) else none
  | .markEffectDone t now ran => (s.runs.lookup t).bind fun r =>
    if r.pc = .delivered then
      let f := Job.markEffectDone now DELIVERED_UNRECORDED
      let stored := ran && ((s.db.jobs.lookup t.id).bind f).isSome
      some { s.setRun t (r.goto (.recording false)) with
        db := if ran then s.db.writeJob t.id f else s.db
        marked := if stored then t.id :: s.marked else s.marked }
    else none
  | .complete t rejected now answer => (s.runs.lookup t).bind fun r =>
    match r.pc with
    | .recording again => some (complete s t r again rejected now answer)
    | _ => none
  | .settleSweptDelivery t rejected now answer => (s.runs.lookup t).bind fun r =>
    match r.pc with
    | .settlingSwept again => some (settleSweptRow s t r again rejected now answer)
    | _ => none
  | .completeReturned t now => (s.runs.lookup t).bind fun r =>
    if r.pc = .returned then
      some { s.setRun t (r.goto .ended) with db := s.db.writeJob t.id (Job.complete now t) }
    else none
  | .settleFailure t now answered => (s.runs.lookup t).bind fun r =>
    match r.pc with
    | .settling err =>
      let f := Job.settleFailure now t r.job.attempts r.job.maxAttempts err r.effectStarted
      let s' := { s with db := s.db.writeJob t.id f }
      some (if answered then s'.setRun t (r.goto .ended) else s')
    | _ => none
  | .halt t => (s.runs.lookup t).bind fun r => some (s.setRun t (r.goto .ended))
  | .sweepExpiredLeases now => some { s with db := s.db.sweepExpiredLeases now }
  | .cancelScheduled id who reason now =>
    (cancelScheduled s.db id who reason now).map fun (back, db) => { s with
      db
      givenBack := if id ∈ s.marked ∧ back.isSome then id :: s.givenBack else s.givenBack }
  | .rescheduleScheduled id who sendAt resend now =>
    (rescheduleScheduled s.db id who sendAt resend now).map fun db => { s with
      db
      resent := if id ∈ s.marked then id :: s.resent else s.resent }
  | .failJobsOfDeletedAccount accountId now =>
    some { s with db := s.db.failJobsOfDeletedAccount accountId now }
  | .deleteFinishedContent => some { s with db := s.db.deleteFinishedContent }
  | .deleteExpiredJobs now retentionMs keptFailedMs =>
    some { s with db := s.db.deleteExpiredJobs now retentionMs keptFailedMs }

def State.empty : State where
  db := { jobs := ∅, outgoing := ∅, nextJobId := 1 }
  runs := ∅
  uuids := []
  marked := []
  resent := []
  givenBack := []

def system : TransitionSystem State Label where
  init s := s = State.empty
  step := step

end MailExpert.SendQueue
