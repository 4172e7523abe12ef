import MailExpert.JobQueue.Database

/-!
# Letters of the send queue

A letter waiting to go out is a `send_message` job with its content in `outgoing_messages`
(`services/sendQueue.js`). Each definition here is one transaction of that file on both tables:
`none` when it changes nothing.
-/

namespace MailExpert.SendQueue

open JobQueue

def SEND_JOB_KIND : String := "send_message"
def SEND_UNDO_WINDOW_MS : Nat := 5000
def SEND_MAX_ATTEMPTS : Nat := 5
def LISTED_STATUSES : List JobStatus := [.queued, .running, .failed, .needsAttention]
def CANCELLABLE_STATUSES : List JobStatus := [.queued, .failed, .needsAttention]
def DELIVERED_UNRECORDED : String := "delivered_unrecorded"
def NO_RESEND_CODES : List String := [DELIVERED_UNRECORDED]

/-- The arguments of `enqueueOutgoingSend`; `content` is the row built of `compose` and `mail`. -/
structure NewLetter where
  userId : Nat
  accountId : Nat
  dedupeKey : Option String := none
  sendAt : Option Nat := none
  messageId : String
  content : OutgoingMessage

def NewLetter.job (letter : NewLetter) : NewJob where
  kind := SEND_JOB_KIND
  payload := {
    scheduled := letter.sendAt.isSome
    messageId := some letter.messageId
    requestedAt := letter.sendAt }
  runAt := letter.sendAt
  delayMs := if letter.sendAt.isSome then 0 else SEND_UNDO_WINDOW_MS
  createdBy := some letter.userId
  accountId := some letter.accountId
  dedupeKey := letter.dedupeKey
  maxAttempts := SEND_MAX_ATTEMPTS

/-- Who asks: `managedJob` lets the author of a letter and administrators change it. -/
structure Requester where
  userId : Nat
  isAdmin : Bool := false

inductive CancelReason
  | undo | edit | discard
deriving DecidableEq, Repr

/-- `none`: the letter is gone, or is not theirs to change. -/
def managedJob (db : Db) (id : Nat) (who : Requester) : Option Job :=
  (db.jobs.lookup id).filter fun job =>
    job.kind = SEND_JOB_KIND ∧ (who.isAdmin ∨ job.createdBy = some who.userId)

/-- A write of the job after which its content goes, in the same transaction. -/
def finishLetter (db : Db) (id : Nat) (f : Job → Option Job) : Option (Job × Db) :=
  (db.updateJob id f).map fun p => (p.1, { p.2 with outgoing := p.2.outgoing.erase id })

/-- The job's id, and whether this call created it. -/
def enqueueOutgoingSend (db : Db) (letter : NewLetter) (now : Nat) : (Nat × Bool) × Db :=
  let enqueued := db.enqueueJob letter.job now
  if enqueued.1.2 then
    (enqueued.1, { enqueued.2 with
      outgoing := enqueued.2.outgoing.insert enqueued.1.1 letter.content })
  else enqueued

/-- What the composer is given back (nothing on a discard), and the tables. -/
def cancelScheduled (db : Db) (id : Nat) (who : Requester) (reason : CancelReason) (now : Nat) :
    Option (Option OutgoingMessage × Db) := do
  let _ ← managedJob db id who
  let (cancelled, db') ← finishLetter db id (Job.cancel now CANCELLABLE_STATUSES)
  let outcome := if ∃ code ∈ cancelled.errorCode, code ∈ NO_RESEND_CODES then .discard else reason
  some (if outcome = .discard then none else db.outgoing.lookup id, db')

def rescheduleScheduled (db : Db) (id : Nat) (who : Requester) (sendAt : Nat) (resend : Bool)
    (now : Nat) : Option Db := do
  let _ ← managedJob db id who
  let «from» := if resend then CANCELLABLE_STATUSES else [.queued]
  let scheduled := if resend then none else some true
  let moved ← db.updateJob id (Job.reschedule now sendAt «from» scheduled NO_RESEND_CODES)
  some moved.2

/-- The refused recipients stay with the job, when there are any. -/
def keepRejected (rejected : List String) (p : Payload) : Payload :=
  if rejected = [] then p else { p with rejected }

/-- The `UPDATE` of `settleSweptDelivery`. -/
def settleSwept (rejected : List String) (now : Nat) (j : Job) : Option Job :=
  if j.status = .needsAttention ∧
      (j.errorCode = some "lease_expired" ∨ j.errorCode = some DELIVERED_UNRECORDED) then
    some { j with
      status := .done, finishedAt := some now, errorCode := none, lastError := none
      updatedAt := now, payload := keepRejected rejected j.payload }
  else none

def settleSweptDelivery (db : Db) (id : Nat) (rejected : List String) (now : Nat) : Option Db :=
  (finishLetter db id (settleSwept rejected now)).map (·.2)

/-- The two `UPDATE`s of the job in the transaction of `complete()`. -/
def completeKeeping (token : ClaimToken) (rejected : List String) (now : Nat) (j : Job) :
    Option Job :=
  (j.complete now token).map fun row =>
    { row with payload := keepRejected rejected row.payload }

/-- `ctx.complete` as the send handler calls it: the letter's content goes and the refused
recipients are kept, in the transaction that finishes the job. -/
def completeLetter (db : Db) (token : ClaimToken) (rejected : List String) (now : Nat) :
    Option Db :=
  (finishLetter db token.id (completeKeeping token rejected now)).map (·.2)

/-- The error of a letter the server took whose recording failed twice. -/
def deliveredUnrecorded : Thrown :=
  JobError "The mail server accepted the letter, but recording it as sent failed. Do not send it again."
    .needsAttention (some DELIVERED_UNRECORDED)

variable {db db' : Db} {id : Nat} {f : Job → Option Job} {row : Job}

theorem finishLetter_some :
    finishLetter db id f = some (row, db') ↔
      (∃ j, db.jobs.lookup id = some j ∧ f j = some row) ∧
        db' = { db with jobs := db.jobs.insert id row, outgoing := db.outgoing.erase id } := by
  simp only [finishLetter, Option.map_eq_some_iff, Prod.exists, Db.updateJob_some, Prod.mk.injEq]
  constructor
  · rintro ⟨r, _, ⟨h, rfl⟩, rfl, rfl⟩
    exact ⟨h, rfl⟩
  · rintro ⟨h, rfl⟩
    exact ⟨row, _, ⟨h, rfl⟩, rfl, rfl⟩

theorem finishLetter_nextJobId
    (h : (finishLetter db id f).map (·.2) = some db') : db'.nextJobId = db.nextJobId := by
  obtain ⟨⟨row, d⟩, hf, rfl⟩ := Option.map_eq_some_iff.mp h
  obtain ⟨-, rfl⟩ := finishLetter_some.mp hf
  rfl

end MailExpert.SendQueue
