import Mathlib

/-!
# The rows of `jobs` and the statements on one of them

`services/jobQueue.js` writes a job only through single `UPDATE` statements (migration 0087).
Each is a partial function on the row here: `none` when its `WHERE` clause does not hold, else
the row as the statement leaves it. `now` is the database's clock when the statement runs, in
milliseconds.
-/

namespace MailExpert.JobQueue

inductive JobStatus
  | queued | running | done | failed | cancelled | needsAttention
deriving DecidableEq, Repr

/-- `$1 || '-' || id`: a fresh UUID per claim statement, with the job's id. -/
structure ClaimToken where
  uuid : Nat
  id : Nat
deriving DecidableEq, Repr

/-- The payload keys that the queue and the `send_message` kind read or write. -/
structure Payload where
  scheduled : Bool := false
  messageId : Option String := none
  requestedAt : Option Nat := none
  effectDoneCode : Option String := none
  rejected : List String := []
deriving DecidableEq, Repr

/-- A row of `jobs`; its `id` is the key it is stored under. -/
structure Job where
  kind : String
  payload : Payload := {}
  runAt : Nat
  status : JobStatus := .queued
  attempts : Nat := 0
  maxAttempts : Nat := 5
  lastError : Option String := none
  errorCode : Option String := none
  claimToken : Option ClaimToken := none
  claimedAt : Option Nat := none
  leaseUntil : Option Nat := none
  effectStartedAt : Option Nat := none
  dedupeKey : Option String := none
  createdBy : Option Nat := none
  accountId : Option Nat := none
  finishedAt : Option Nat := none
  createdAt : Nat := 0
  updatedAt : Nat := 0
deriving DecidableEq, Repr

def JOB_LEASE_MS : Nat := 60 * 1000
def JOB_DEFAULT_MAX_ATTEMPTS : Nat := 5
def JOB_RETRY_BASE_MS : Nat := 60 * 1000
def JOB_RETRY_MAX_MS : Nat := 30 * 60 * 1000
def JOB_RETENTION_MS : Nat := 7 * 24 * 60 * 60 * 1000
def JOB_KEPT_FAILED_MS : Nat := 30 * 24 * 60 * 60 * 1000
def ERROR_TEXT_MAX : Nat := 500

def jobRetryDelayMs (attempts : Nat) : Nat :=
  min JOB_RETRY_MAX_MS (JOB_RETRY_BASE_MS * 2 ^ (attempts - 1))

/-- `text.slice(0, n)`. -/
def slice (n : Nat) (text : String) : String := .ofList (text.toList.take n)

def clip (text : String) : String :=
  if text.length > ERROR_TEXT_MAX then slice (ERROR_TEXT_MAX - 1) text ++ "…" else text

inductive Outcome
  | retry | fail | needsAttention
deriving DecidableEq, Repr

/-- A thrown value: a `JobError` names its outcome, anything else does not. -/
structure Thrown where
  message : String
  jobOutcome : Option Outcome := none
  code : Option String := none
  name : Option String := none
  causeCode : Option String := none
  delayMs : Option Nat := none
deriving DecidableEq, Repr

def JobError (message : String) (outcome : Outcome := .retry) (code : Option String := none)
    (delayMs : Option Nat := none) : Thrown :=
  { message, jobOutcome := some outcome, code, name := some "JobError", delayMs }

/-- The first non-empty string of `message`, `code` and `name`, with the cause's code. -/
def errorText (err : Thrown) : String :=
  let text := if err.message ≠ "" then err.message
    else if err.code.getD "" ≠ "" then err.code.getD ""
    else if err.name.getD "" ≠ "" then err.name.getD "" else "Job failed"
  match err.causeCode with
  | some cause => if cause.toList <:+: text.toList then text else text ++ " (" ++ cause ++ ")"
  | none => text

/-- `outcomeOf`: `attempts` and `maxAttempts` are those of the row as it was claimed. -/
def outcomeOf (attempts maxAttempts : Nat) (err : Thrown) (effectStarted : Bool) : Outcome :=
  let outcome := err.jobOutcome.getD (if effectStarted then .needsAttention else .retry)
  if outcome = .retry ∧ attempts ≥ maxAttempts then .fail else outcome

namespace Job

variable (now : Nat) (token : ClaimToken)

/-- The row is claimed under `token`: what every write about a claim tests. -/
def ClaimedBy (j : Job) (token : ClaimToken) : Prop :=
  j.status = .running ∧ j.claimToken = some token

instance (j : Job) : Decidable (j.ClaimedBy token) := inferInstanceAs (Decidable (_ ∧ _))

/-- `claimDueJobs` on a due job of a registered kind. -/
def claim (leaseMs : Nat) (registered : List String) (j : Job) : Option Job :=
  if j.status = .queued ∧ j.runAt ≤ now ∧ j.kind ∈ registered then
    some { j with
      status := .running, attempts := j.attempts + 1, claimToken := some token
      claimedAt := some now, leaseUntil := some (now + leaseMs)
      effectStartedAt := none, updatedAt := now }
  else none

/-- The claim statement over the table; `ids` are the rows its subselect locked. -/
def claimAmong (uuid : Nat) (ids : List Nat) (registered : List String) (leaseMs : Nat)
    (id : Nat) (j : Job) : Option Job :=
  if id ∈ ids then j.claim now ⟨uuid, id⟩ leaseMs registered else none

def renewLease (leaseMs : Nat) (j : Job) : Option Job :=
  if j.ClaimedBy token then
    some { j with leaseUntil := some (now + leaseMs), updatedAt := now }
  else none

/-- `ctx.markEffectStarted`. -/
def markEffectStarted (j : Job) : Option Job :=
  if j.ClaimedBy token then some { j with effectStartedAt := some now, updatedAt := now } else none

/-- `ctx.markEffectDone(code)`: no claim check, any run's mark counts. -/
def markEffectDone (code : String) (j : Job) : Option Job :=
  if j.effectStartedAt.isSome ∧ (j.status = .running ∨ j.status = .needsAttention) then
    some { j with
      payload := { j.payload with effectDoneCode := some (slice 64 code) }, updatedAt := now }
  else none

/-- The `UPDATE` of `ctx.complete`. -/
def complete (j : Job) : Option Job :=
  if j.ClaimedBy token then
    some { j with
      status := .done, finishedAt := some now, claimToken := none, leaseUntil := none
      lastError := none, errorCode := none, updatedAt := now }
  else none

/-- `settleFailure`: `attempts` and `maxAttempts` are those of the claimed row. -/
def settleFailure (attempts maxAttempts : Nat) (err : Thrown) (effectStarted : Bool)
    (j : Job) : Option Job :=
  let lastError := some (clip (errorText err))
  let code := err.code.map (slice 64)
  if j.ClaimedBy token then
    match outcomeOf attempts maxAttempts err effectStarted with
    | .retry =>
      some { j with
        status := .queued, runAt := now + err.delayMs.getD (jobRetryDelayMs attempts), lastError
        errorCode := code, claimToken := none, leaseUntil := none, effectStartedAt := none
        updatedAt := now }
    | .fail =>
      some { j with
        status := .failed, lastError, errorCode := code, claimToken := none, leaseUntil := none
        updatedAt := now }
    | .needsAttention =>
      some { j with
        status := .needsAttention, lastError, errorCode := code, claimToken := none
        leaseUntil := none, updatedAt := now }
  else none

/-- `releaseClaims` on a job claimed under one of `tokens`. -/
def releaseClaim (tokens : List ClaimToken) (j : Job) : Option Job :=
  if j.status = .running ∧ (∃ t ∈ tokens, j.claimToken = some t) ∧ j.effectStartedAt = none then
    some { j with
      status := .queued, attempts := j.attempts - 1, claimToken := none, leaseUntil := none
      claimedAt := none, updatedAt := now }
  else none

/-- `sweepExpiredLeases` on a running job whose lease ran out. -/
def sweep (j : Job) : Option Job :=
  if j.status = .running ∧ (∃ t ∈ j.leaseUntil, t < now) then
    let labelled := j.effectStartedAt.isSome ∧ j.payload.effectDoneCode.isSome
    some { j with
      status := if j.effectStartedAt.isSome then .needsAttention
        else if j.attempts ≥ j.maxAttempts then .failed else .queued
      runAt := if j.effectStartedAt = none then now else j.runAt
      lastError := some (if labelled then "The work was done, but the worker stopped before recording it"
        else "The worker running the job stopped before it finished")
      errorCode := if labelled then j.payload.effectDoneCode else some "lease_expired"
      claimToken := none, leaseUntil := none, updatedAt := now }
  else none

/-- `cancelJob(id, { from })`. -/
def cancel («from» : List JobStatus) (j : Job) : Option Job :=
  if j.status ∈ «from» then
    some { j with
      status := .cancelled, finishedAt := some now, updatedAt := now, claimToken := none
      leaseUntil := none }
  else none

/-- `rescheduleJob(id, { runAt, from, payloadPatch, exceptErrorCodes })`; the only key a caller
patches is `scheduled`. -/
def reschedule (runAt : Nat) («from» : List JobStatus) (scheduled : Option Bool)
    (exceptErrorCodes : List String) (j : Job) : Option Job :=
  if j.status ∈ «from» ∧ (∀ code ∈ j.errorCode, code ∉ exceptErrorCodes) then
    some { j with
      runAt, status := .queued, updatedAt := now
      payload := { j.payload with
        effectDoneCode := none, scheduled := scheduled.getD j.payload.scheduled }
      attempts := if j.status = .queued then j.attempts else 0
      lastError := if j.status = .queued then j.lastError else none
      errorCode := if j.status = .queued then j.errorCode else none
      effectStartedAt := none, claimToken := none, leaseUntil := none }
  else none

/-- `failJobsOfDeletedAccount` on a waiting job of the mailbox. -/
def failOfDeletedAccount (accountId : Nat) (j : Job) : Option Job :=
  if j.accountId = some accountId ∧ j.status = .queued then
    some { j with
      status := .failed, errorCode := some "account_missing"
      lastError := some "The mailbox was deleted.", claimToken := none, leaseUntil := none
      updatedAt := now }
  else none

/-- The rows the second statement of `cleanupFinishedJobs` deletes. -/
def Expired (retentionMs keptFailedMs : Nat) (j : Job) : Prop :=
  ((j.status = .done ∨ j.status = .cancelled) ∧ ∃ t ∈ j.finishedAt, t + retentionMs < now) ∨
    ((j.status = .failed ∨ j.status = .needsAttention) ∧ j.updatedAt + keptFailedMs < now)

instance (retentionMs keptFailedMs : Nat) : DecidablePred (Expired now retentionMs keptFailedMs) :=
  fun _ => inferInstanceAs (Decidable (_ ∨ _))

end Job

end MailExpert.JobQueue
