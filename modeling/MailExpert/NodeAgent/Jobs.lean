import MailExpert.Lib.Agents
import MailExpert.Lib.TransitionSystem

/-!
# The jobs of the mail node's agent

`services/mailNode/nodeAgent.js`: the rows of `node_agent_jobs` and the one row of `node_agent`, with the polls, the reports and the passes
of `queueNodeUpdateIfBehind` that move them. Every label of the system is one SQL statement or one transaction; the processes of the panel
share nothing else that a job depends on. The throttle of `expireStaleJobs` is a process's own and only leaves statements out, so its
statements may come at any time here.

A job's id is its place in the table (`BIGSERIAL`, no row is deleted), and a token is the number of its issue: tokens are random, none comes
twice. `createdBy` and the rest of the status report are kept by the source and read by none of this.
-/

namespace MailExpert.NodeAgent

abbrev Text := List Nat

def MINUTE_MS : Nat := 60 * 1000
def CONNECTED_WITHIN_MS : Nat := 3 * 60 * 1000
def QUEUED_TIMEOUT_MS : Nat := 30 * 60 * 1000
def UPDATE_HEARTBEAT_MS : Nat := 5 * MINUTE_MS

/-- Fetch, backup, the wait for its lock, setup, its rollback, mailcow, its restart, and the checks. -/
def UPDATE_STEP_BOUNDS_MS : List Nat := [5, 6 * 60, 60, 30, 30, 30, 10, 10].map (· * MINUTE_MS)

def UPDATE_CEILING_MS : Nat := UPDATE_STEP_BOUNDS_MS.sum

def MAX_LOG_TAIL : Nat := 8000
def MAX_STEP : Nat := 200
def MAX_ERROR : Nat := 500

inductive Kind
  | status | backup | update
  deriving DecidableEq

def RUNNING_TIMEOUT_MS : Kind → Nat
  | .status => 15 * MINUTE_MS
  | .backup => 6 * 60 * MINUTE_MS
  | .update => UPDATE_CEILING_MS

/-- `EXCLUSIVE_KINDS` -/
def Kind.exclusive : Kind → Bool
  | .backup | .update => true
  | .status => false

/-- The kinds of which none may be active when a job of this kind is queued. -/
def Kind.kinds (kind : Kind) : List Kind := if kind.exclusive then [.backup, .update] else [kind]

inductive JobState
  | queued | running | succeeded | failed
  deriving DecidableEq

/-- `state IN ('queued', 'running')` -/
def JobState.active : JobState → Bool
  | .queued | .running => true
  | .succeeded | .failed => false

/-- Why a job failed: a code of the panel's, or what the agent told. -/
inductive JobError
  | agentTokenRotated | agentRevoked | notPickedUp | updateSilent | timedOut | agentRestarted | failed
  | told (text : Text)
  deriving DecidableEq

structure Params where
  sha : Option Text := none
  automatic : Bool := false
  deriving DecidableEq

structure Job where
  kind : Kind
  params : Params
  state : JobState := .queued
  step : Option Text := none
  logTail : Option Text := none
  error : Option JobError := none
  createdAt : Nat
  startedAt : Option Nat := none
  updatedAt : Nat
  finishedAt : Option Nat := none
  deriving DecidableEq

namespace Job

/-- `SET state = 'failed', error = …, finished_at = now(), updated_at = now()` -/
def fail (error : JobError) (now : Nat) (job : Job) : Job :=
  { job with state := .failed, error := some error, finishedAt := some now, updatedAt := now }

def start (now : Nat) (job : Job) : Job := { job with state := .running, startedAt := some now, updatedAt := now }

def requeue (now : Nat) (job : Job) : Job := { job with state := .queued, startedAt := none, updatedAt := now }

/-- An update to the commit (`kind = 'update' AND params->>'sha' = $1`). -/
def updates (sha : Text) (job : Job) : Bool := job.kind = .update && job.params.sha = some sha

/-- An update to the commit that the panel queued itself. -/
def automaticTo (sha : Text) (job : Job) : Bool := job.updates sha && job.params.automatic

end Job

structure Report where
  state : Option JobState := none
  step : Option Text := none
  log : Option Text := none
  error : Option Text := none

def capText (value : Option Text) (max : Nat) : Option Text := (value.filter (· ≠ [])).map (·.take max)

def capTail (value : Option Text) (max : Nat) : Option Text := (value.filter (· ≠ [])).map fun text => text.drop (text.length - max)

/-- The row after a report that names `state`. -/
def Job.report (body : Report) (state : JobState) (now : Nat) (job : Job) : Job :=
  { job with
    state := state
    step := (capText body.step MAX_STEP).or job.step
    logTail := (capTail body.log MAX_LOG_TAIL).or job.logTail
    error := if state = .failed then some ((((capText body.error MAX_ERROR).map .told).or job.error).getD .failed) else job.error
    finishedAt := if state.active then job.finishedAt else some now
    updatedAt := now }

/-- `UPDATE node_agent_jobs SET … WHERE …` -/
def updateJobs (where_ : Nat → Job → Bool) (set_ : Job → Job) (jobs : List Job) : List Job :=
  jobs.mapIdx fun id job => if where_ id job then set_ job else job

/-- How far a long poll is. -/
inductive PollStage
  | authenticated | seen | waiting
  /-- `waitForJob` holds a job it claimed. -/
  | claimed (id : Nat)
  | answered
  deriving DecidableEq

structure Poll where
  tokenHash : Nat
  stage : PollStage
  deriving DecidableEq

/-- How far a pass of `queueNodeUpdateIfBehind` is. -/
inductive PassStage
  /-- The agent is connected, and names another commit. -/
  | behind
  /-- No update to the commit was in the table, which had `rows` rows. -/
  | checked (rows : Nat)
  | over_
  deriving DecidableEq

structure Pass where
  sha : Text
  stage : PassStage
  deriving DecidableEq

structure State where
  now : Nat := 0
  /-- How many tokens were issued. -/
  issued : Nat := 0
  tokenHash : Option Nat := none
  lastSeenAt : Option Nat := none
  scriptsCommit : Option Text := none
  jobs : List Job := []
  polls : List Poll := []
  passes : List Pass := []
  deriving DecidableEq

/-- `SHA_PATTERN` -/
def isSha (text : Text) : Bool := text.length = 40 && text.all fun c => (48 ≤ c && c ≤ 57) || (97 ≤ c && c ≤ 102)

namespace State

variable (s : State)

def failActiveJobs (error : JobError) : State :=
  { s with jobs := updateJobs (fun _ job => job.state.active) (.fail error s.now) s.jobs }

def issueToken : State :=
  let issued := { s with tokenHash := some s.issued, lastSeenAt := none, issued := s.issued + 1 }
  if s.tokenHash.isSome then issued.failActiveJobs .agentTokenRotated else issued

def revokeToken : State := { s with tokenHash := none, lastSeenAt := none }.failActiveJobs .agentRevoked

def expireQueued : State :=
  { s with
    jobs := updateJobs (fun _ job => job.state = .queued && job.createdAt + QUEUED_TIMEOUT_MS < s.now) (.fail .notPickedUp s.now) s.jobs }

def expireSilent : State :=
  { s with
    jobs := updateJobs (fun _ job => job.state = .running && job.kind = .update && job.updatedAt + UPDATE_HEARTBEAT_MS < s.now)
      (.fail .updateSilent s.now) s.jobs }

def expireRunning (kind : Kind) : State :=
  { s with
    jobs := updateJobs (fun _ job => job.state = .running && job.kind = kind && job.startedAt.any (· + RUNNING_TIMEOUT_MS kind < s.now))
      (.fail .timedOut s.now) s.jobs }

/-- Nothing refuses a job of the kind: a token is set, and no job of its kinds is active. -/
def accepts (kind : Kind) : Bool :=
  s.tokenHash.isSome && !s.jobs.any fun job => kind.kinds.contains job.kind && job.state.active

/-- The transaction of `enqueueJob`; `none` when it refuses. -/
def enqueueJob (kind : Kind) (params : Params) : Option State :=
  if s.accepts kind then some { s with jobs := s.jobs ++ [{ kind, params, createdAt := s.now, updatedAt := s.now }] } else none

/-- `TOKEN_CURRENT` -/
def tokenCurrent (token : Nat) : Bool := s.tokenHash = some token

def failOrphanedJobs (token : Nat) : State :=
  { s with
    jobs := updateJobs
      (fun _ job => job.state = .running && s.tokenCurrent token &&
        !(job.kind = .update && s.now < job.updatedAt + UPDATE_HEARTBEAT_MS))
      (.fail .agentRestarted s.now) s.jobs }

/-- The job that a poll with the token takes: the oldest one queued. -/
def claimable (token : Nat) : Option Nat :=
  if s.tokenCurrent token then s.jobs.findIdx? fun job => job.state = .queued else none

def claimJob (id : Nat) : State :=
  { s with jobs := updateJobs (fun id' job => id' = id && job.state = .queued) (.start s.now) s.jobs }

def unclaimJob (id : Nat) : State :=
  { s with jobs := updateJobs (fun id' job => id' = id && job.state = .running) (.requeue s.now) s.jobs }

/-- `reportJob`; a report that names the state `queued` is refused before its statement. -/
def reportJob (token id : Nat) (body : Report) : State :=
  let state := body.state.getD .running
  if state = .queued then s else
    { s with
      jobs := updateJobs (fun id' job => id' = id && job.state = .running && s.tokenCurrent token) (.report body state s.now) s.jobs }

/-- `recordStatus`, with what `capText` keeps of the commit. -/
def recordStatus (token : Nat) (scriptsCommit : Option Text) : State :=
  if s.tokenCurrent token then { s with scriptsCommit := capText scriptsCommit 64 } else s

/-- What `queueNodeUpdateIfBehind` asks of the agent's state: connected, and on another commit. -/
def isBehind (sha : Text) : Bool :=
  s.tokenHash.isSome && s.lastSeenAt.any (fun at_ => s.now < at_ + CONNECTED_WITHIN_MS) &&
    s.scriptsCommit.any fun commit => isSha commit && commit ≠ sha

def setPoll (i : Nat) (poll : Poll) : State := { s with polls := s.polls.set i poll }

def setPass (i : Nat) (pass : Pass) : State := { s with passes := s.passes.set i pass }

end State

inductive Label
  | clock (ms : Nat)
  | issueToken
  | revokeToken
  | recordStatus (token : Nat) (scriptsCommit : Option Text)
  | expireQueued
  | expireSilent
  | expireRunning (kind : Kind)
  /-- A request of an administrator, or of any other caller. -/
  | enqueueJob (kind : Kind) (sha : Option Text)
  /-- `authenticateAgent` read the stored hash, and the token matches it. -/
  | authenticate (token : Nat)
  /-- `authenticateAgent` writes `last_seen_at`. -/
  | seen (poll : Nat)
  | failOrphanedJobs (poll : Nat)
  | claimNextJob (poll : Nat)
  /-- The agent went away before the answer. -/
  | unclaimJob (poll : Nat)
  | reportJob (token id : Nat) (body : Report)
  /-- `queueNodeUpdateIfBehind` of a build of the commit read the agent's state. -/
  | readBehind (sha : Text)
  /-- It looks for an update to its commit. -/
  | lookUp (pass : Nat)
  /-- It queues the update. -/
  | queueBehind (pass : Nat)

def Poll.step (s : State) (i : Nat) (poll : Poll) : Label → Option State
  | .seen _ => if poll.stage = .authenticated then some ({ s with lastSeenAt := some s.now }.setPoll i { poll with stage := .seen }) else none
  | .failOrphanedJobs _ =>
    if poll.stage = .seen then some ((s.failOrphanedJobs poll.tokenHash).setPoll i { poll with stage := .waiting }) else none
  | .claimNextJob _ =>
    if poll.stage = .waiting then
      match s.claimable poll.tokenHash with
      | none => some s
      | some id => some ((s.claimJob id).setPoll i { poll with stage := .claimed id })
    else none
  | .unclaimJob _ =>
    match poll.stage with
    | .claimed id => some ((s.unclaimJob id).setPoll i { poll with stage := .answered })
    | _ => none
  | _ => none

def Pass.step (s : State) (i : Nat) (pass : Pass) : Label → Option State
  | .lookUp _ =>
    if pass.stage = .behind then
      some (s.setPass i { pass with stage := if s.jobs.any (·.updates pass.sha) then .over_ else .checked s.jobs.length })
    else none
  | .queueBehind _ =>
    match pass.stage with
    | .checked _ => some (((s.enqueueJob .update { sha := some pass.sha, automatic := true }).getD s).setPass i { pass with stage := .over_ })
    | _ => none
  | _ => none

def step (s : State) : Label → Option State
  | .clock ms => some { s with now := s.now + ms }
  | .issueToken => some s.issueToken
  | .revokeToken => some s.revokeToken
  | .recordStatus token scriptsCommit => some (s.recordStatus token scriptsCommit)
  | .expireQueued => some s.expireQueued
  | .expireSilent => some s.expireSilent
  | .expireRunning kind => some (s.expireRunning kind)
  | .enqueueJob kind sha => some ((s.enqueueJob kind { sha }).getD s)
  | .authenticate token => if s.tokenCurrent token then some { s with polls := s.polls ++ [⟨token, .authenticated⟩] } else none
  | .seen i => s.polls[i]?.bind fun poll => poll.step s i (.seen i)
  | .failOrphanedJobs i => s.polls[i]?.bind fun poll => poll.step s i (.failOrphanedJobs i)
  | .claimNextJob i => s.polls[i]?.bind fun poll => poll.step s i (.claimNextJob i)
  | .unclaimJob i => s.polls[i]?.bind fun poll => poll.step s i (.unclaimJob i)
  | .reportJob token id body => some (s.reportJob token id body)
  | .readBehind sha => some (if s.isBehind sha then { s with passes := s.passes ++ [⟨sha, .behind⟩] } else s)
  | .lookUp i => s.passes[i]?.bind fun pass => pass.step s i (.lookUp i)
  | .queueBehind i => s.passes[i]?.bind fun pass => pass.step s i (.queueBehind i)

/-- A panel whose tables are empty. -/
def system : TransitionSystem State Label where
  init s := s = {}
  step := step

end MailExpert.NodeAgent
