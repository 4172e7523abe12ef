import MailExpert.Lib.Table
import MailExpert.JobQueue.Job

/-!
# The tables `jobs` and `outgoing_messages`

`Db` holds both tables under their primary keys. A statement on one job (`Db.updateJob`) or on
every job that meets its `WHERE` clause (`Db.updateJobs`) is a row function of
`MailExpert.JobQueue.Job` lifted to the table; the lemmas here say what each leaves of the other
rows.
-/

namespace MailExpert.JobQueue

/-- A row of `outgoing_messages`, under the id of its job. -/
structure OutgoingMessage where
  compose : String
  summary : String
  mail : List UInt8
deriving DecidableEq, Repr

structure Db where
  jobs : Table Nat Job
  outgoing : Table Nat OutgoingMessage
  /-- The sequence of `jobs.id`. -/
  nextJobId : Nat

/-- The arguments of `enqueueJob`. -/
structure NewJob where
  kind : String
  payload : Payload := {}
  runAt : Option Nat := none
  delayMs : Nat := 0
  createdBy : Option Nat := none
  accountId : Option Nat := none
  dedupeKey : Option String := none
  maxAttempts : Nat := JOB_DEFAULT_MAX_ATTEMPTS

def NewJob.row (new : NewJob) (now : Nat) : Job where
  kind := new.kind
  payload := new.payload
  runAt := new.runAt.getD (now + new.delayMs)
  maxAttempts := new.maxAttempts
  createdBy := new.createdBy
  accountId := new.accountId
  dedupeKey := new.dedupeKey
  createdAt := now
  updatedAt := now

namespace Db

/-- `UPDATE jobs SET … WHERE id = $1 AND … RETURNING *`: the row as written, or `none`. -/
def updateJob (db : Db) (id : Nat) (f : Job → Option Job) : Option (Job × Db) :=
  ((db.jobs.lookup id).bind f).map fun row => (row, { db with jobs := db.jobs.insert id row })

/-- The same statement when its answer is not used. -/
def writeJob (db : Db) (id : Nat) (f : Job → Option Job) : Db :=
  (db.updateJob id f).elim db (·.2)

/-- `UPDATE jobs SET … WHERE …` over every row. -/
def updateJobs (db : Db) (f : Nat → Job → Option Job) : Db :=
  { db with jobs := db.jobs.update (fun id j => (f id j).isSome) fun id j => (f id j).getD j }

/-- The rows that statement returns (`RETURNING *`). -/
def updatedJobs (db : Db) (f : Nat → Job → Option Job) : List (Nat × Job) :=
  (db.jobs.select fun id j => (f id j).isSome).map fun e => (e.1, (f e.1 e.2).getD e.2)

/-- The unique index `idx_jobs_dedupe`. -/
def dedupeConflict (db : Db) (new : NewJob) : Option (Nat × Job) :=
  db.jobs.find? fun _ j => j.kind = new.kind ∧ new.dedupeKey.isSome ∧ j.dedupeKey = new.dedupeKey

/-- `enqueueJob`: the job's id, and whether it was created (else the job that holds the key). -/
def enqueueJob (db : Db) (new : NewJob) (now : Nat) : (Nat × Bool) × Db :=
  match db.dedupeConflict new with
  | some (id, _) => ((id, false), db)
  | none =>
    ((db.nextJobId, true),
      { db with jobs := db.jobs.insert db.nextJobId (new.row now), nextJobId := db.nextJobId + 1 })

def sweepExpiredLeases (db : Db) (now : Nat) : Db := db.updateJobs fun _ => Job.sweep now

def failJobsOfDeletedAccount (db : Db) (accountId now : Nat) : Db :=
  db.updateJobs fun _ => Job.failOfDeletedAccount now accountId

/-- The first statement of `cleanupFinishedJobs`. -/
def deleteFinishedContent (db : Db) : Db :=
  { db with outgoing := db.outgoing.delete fun id _ =>
      (db.jobs.lookup id).any fun j => j.status = .done ∨ j.status = .cancelled }

/-- The second statement of `cleanupFinishedJobs`; `outgoing_messages.job_id` is
`ON DELETE CASCADE`. -/
def deleteExpiredJobs (db : Db) (now retentionMs keptFailedMs : Nat) : Db :=
  { db with
    jobs := db.jobs.delete fun _ j => j.Expired now retentionMs keptFailedMs
    outgoing := db.outgoing.delete fun id _ =>
      (db.jobs.lookup id).any fun j => j.Expired now retentionMs keptFailedMs }

variable {db db' : Db} {id : Nat} {f : Job → Option Job} {g : Nat → Job → Option Job} {row : Job}

theorem updateJob_some :
    db.updateJob id f = some (row, db') ↔
      (∃ j, db.jobs.lookup id = some j ∧ f j = some row) ∧
        db' = { db with jobs := db.jobs.insert id row } := by
  simp only [updateJob, Option.map_eq_some_iff, Option.bind_eq_some_iff, Prod.mk.injEq]
  constructor
  · rintro ⟨r, h, rfl, rfl⟩
    exact ⟨h, rfl⟩
  · rintro ⟨h, rfl⟩
    exact ⟨row, h, rfl, rfl⟩

theorem writeJob_jobs {k : Nat} :
    (db.writeJob id f).jobs.lookup k =
      if k = id then (db.jobs.lookup id).map fun j => (f j).getD j else db.jobs.lookup k := by
  unfold writeJob updateJob
  cases hj : db.jobs.lookup id with
  | none => simp; rintro rfl; exact hj
  | some j =>
    cases hf : f j with
    | none => simp [hf]; rintro rfl; exact hj
    | some r => simp [hf, Table.lookup_insert']

@[simp] theorem writeJob_outgoing : (db.writeJob id f).outgoing = db.outgoing := by
  unfold writeJob updateJob
  cases (db.jobs.lookup id).bind f <;> rfl

@[simp] theorem writeJob_nextJobId : (db.writeJob id f).nextJobId = db.nextJobId := by
  unfold writeJob updateJob
  cases (db.jobs.lookup id).bind f <;> rfl

@[simp] theorem updateJobs_jobs {k : Nat} :
    (db.updateJobs g).jobs.lookup k = (db.jobs.lookup k).map fun j => (g k j).getD j := by
  simp only [updateJobs, Table.lookup_update]
  congr 1
  funext j
  cases g k j <;> rfl

@[simp] theorem updateJobs_outgoing : (db.updateJobs g).outgoing = db.outgoing := rfl

@[simp] theorem updateJobs_nextJobId : (db.updateJobs g).nextJobId = db.nextJobId := rfl

theorem deleteFinishedContent_outgoing (db : Db) (id : Nat) :
    db.deleteFinishedContent.outgoing.lookup id =
      if (db.jobs.lookup id).any (fun j => j.status = .done ∨ j.status = .cancelled) = true
      then none else db.outgoing.lookup id :=
  Table.lookup_delete_key

theorem deleteExpiredJobs_outgoing (db : Db) (id now retentionMs keptFailedMs : Nat) :
    (db.deleteExpiredJobs now retentionMs keptFailedMs).outgoing.lookup id =
      if (db.jobs.lookup id).any (fun j => j.Expired now retentionMs keptFailedMs) = true
      then none else db.outgoing.lookup id :=
  Table.lookup_delete_key

theorem deleteExpiredJobs_jobs (db : Db) (id now retentionMs keptFailedMs : Nat) :
    (db.deleteExpiredJobs now retentionMs keptFailedMs).jobs.lookup id =
      (db.jobs.lookup id).filter fun j => !j.Expired now retentionMs keptFailedMs :=
  Table.lookup_delete

theorem mem_updatedJobs :
    (id, row) ∈ db.updatedJobs g ↔ ∃ j, db.jobs.lookup id = some j ∧ g id j = some row := by
  simp only [updatedJobs, List.mem_map, Prod.exists, Table.mem_select, Prod.mk.injEq,
    Option.isSome_iff_exists]
  constructor
  · rintro ⟨id, j, ⟨hj, r, hr⟩, rfl, rfl⟩
    exact ⟨j, hj, by rw [hr]; rfl⟩
  · rintro ⟨j, hj, hr⟩
    exact ⟨id, j, ⟨hj, row, hr⟩, rfl, by rw [hr]; rfl⟩

theorem enqueueJob_cases (db : Db) (new : NewJob) (now : Nat) :
    (∃ id, db.enqueueJob new now = ((id, false), db)) ∨
    (db.enqueueJob new now = ((db.nextJobId, true), { db with
        jobs := db.jobs.insert db.nextJobId (new.row now), nextJobId := db.nextJobId + 1 }) ∧
      db.dedupeConflict new = none) := by
  unfold enqueueJob
  cases h : db.dedupeConflict new with
  | none => exact .inr ⟨rfl, rfl⟩
  | some p => exact .inl ⟨p.1, rfl⟩

end Db

/-- What a step finds that looks a row up and checks it. -/
theorem found {α β : Type*} {o : Option α} {p : α → Prop} [DecidablePred p] {f : α → β} {b : β}
    (h : (o.bind fun a => if p a then some (f a) else none) = some b) : ∃ a, o = some a ∧ p a ∧ f a = b := by
  obtain ⟨a, ha, h⟩ := Option.bind_eq_some_iff.mp h
  rw [Option.ite_none_right_eq_some, Option.some.injEq] at h
  exact ⟨a, ha, h⟩

end MailExpert.JobQueue
