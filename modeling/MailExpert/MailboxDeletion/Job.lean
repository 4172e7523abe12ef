import MailExpert.Lib.TransitionSystem

/-!
# The deletion job and the cancel

`services/mailNode/mailboxDeletion.js` on one node mailbox: requests, cancels and runs of the job, each run taking its
statements and calls one at a time, with other steps between any two of them. A run may die anywhere; the node may
carry out a delete whose run died. Times are in milliseconds.

Who asked for a deletion and why is left out, and so are the read-only filter and the seat, of which a cancel only says
whether they were to be had. `State.log`, `State.holder` and `Run.out` record what happened.
-/

namespace MailExpert.MailboxDeletion

def STALE_CLAIM_MS : Nat := 10 * 60 * 1000

def FIRST_RETRY_MS : Nat := 15 * 60 * 1000

def MAX_RETRY_MS : Nat := 24 * 60 * 60 * 1000

/-- `retryDelaySeconds`, in milliseconds. -/
def retryDelay (attempts : Nat) : Nat := min (FIRST_RETRY_MS * 2 ^ attempts) MAX_RETRY_MS

inductive Code
  | hostMismatch | notConfigured | stepFailed | nodeRefused | nodeFailed | rowKept
  deriving DecidableEq, Repr

structure Row where
  deleteAfter : Option Nat := none
  startedAt : Option Nat := none
  attempts : Nat := 0
  nextAttemptAt : Option Nat := none
  lastError : Option Code := none
  deactivatedAt : Option Nat := none
  deriving DecidableEq, Repr

/-- `requestDeletion`; `none` when a deletion is requested already. -/
def requestDeletion (now delay : Nat) (row : Row) : Option Row :=
  if row.deleteAfter = none then
    some { row with deleteAfter := some (now + delay), attempts := 0, nextAttemptAt := none, lastError := none, startedAt := none }
  else none

/-- `cancelDeletion`; `none` when it is refused. -/
def cancelDeletion (seat : Bool) (row : Row) : Option Row :=
  if row.deleteAfter = none then none
  else if row.startedAt.isSome then none
  else if row.deactivatedAt = none ∧ seat = false then none
  else some { row with deleteAfter := none, attempts := 0, nextAttemptAt := none, lastError := none }

/-- A claim left by a run that stopped. -/
def stale (now : Nat) (startedAt : Option Nat) : Bool := startedAt.all fun t => decide (t + STALE_CLAIM_MS < now)

def due (now : Nat) (row : Row) : Bool := row.deleteAfter.any fun date => decide (date ≤ now)

/-- A row of the batch of `runDueDeletions`. -/
def inBatch (now : Nat) (row : Row) : Bool :=
  due now row && row.nextAttemptAt.all (fun t => decide (t ≤ now)) && stale now row.startedAt

def claim (now : Nat) (row : Row) : Option Row :=
  if due now row && stale now row.startedAt then some { row with startedAt := some now } else none

/-- `recordFailure`, by the claim and the attempts the run knows; a row whose claim is another stays as it is. -/
def recordFailure (now : Nat) (startedAt : Option Nat) (attempts : Nat) (code : Code) (row : Row) : Row :=
  if row.deleteAfter.isSome ∧ row.startedAt = startedAt then
    { row with
      attempts := row.attempts + 1
      nextAttemptAt := some (now + retryDelay attempts)
      lastError := some code
      startedAt := none }
  else row

/-! ## Runs -/

/-- What the node says to a delete. -/
inductive Answer
  | done
  /-- it refused, and was asked for the mailbox then: whether that showed it has none -/
  | refused (absent : Bool)
  /-- no answer came, or another error -/
  | lost
  deriving DecidableEq, Repr

inductive Phase
  | batched (startedAt : Option Nat) (attempts : Nat)
  | claimed (t attempts : Nat)
  | prepared (t attempts : Nat)
  | calling (t attempts : Nat)
  | failing (startedAt : Option Nat) (attempts : Nat) (code : Code)
  | deleted (t : Nat)
  | keeping
  | over
  deriving DecidableEq, Repr

structure Run where
  phase : Phase
  /-- the claim under which a delete is at the node -/
  out : Option Nat := none
  deriving DecidableEq, Repr

inductive Event
  | requested (date : Nat)
  | cancelled
  /-- the node deleted the mailbox -/
  | deleted (time : Nat)
  /-- the row was removed -/
  | removed (time : Nat)
  deriving DecidableEq, Repr

structure State where
  now : Nat := 0
  row : Option Row := some {}
  runs : List Run := []
  /-- the node has no such mailbox any more -/
  gone : Bool := false
  /-- the run whose claim the row has -/
  holder : Option Nat := none
  log : List Event := []
  deriving DecidableEq, Repr

inductive Label
  | request (delay : Nat)
  | cancel (seat : Bool)
  | deactivate
  | activate
  | tick (ms : Nat)
  /-- a run reads the rows due -/
  | start
  /-- it finds no settings of the node -/
  | notConfigured (i : Nat)
  | claim (i : Nat)
  /-- the row's host and the steps before the delete -/
  | prepare (i : Nat) (failure : Option Code)
  | call (i : Nat)
  /-- the node deletes the mailbox -/
  | nodeDeletes (i : Nat)
  | answer (i : Nat) (answer : Answer)
  | fail (i : Nat)
  | remove (i : Nat)
  | keep (i : Nat)
  | die (i : Nat)
  deriving DecidableEq, Repr

def Label.run? : Label → Option Nat
  | .notConfigured i | .claim i | .prepare i _ | .call i | .nodeDeletes i | .answer i _ | .fail i | .remove i | .keep i | .die i =>
    some i
  | .request _ | .cancel _ | .deactivate | .activate | .tick _ | .start => none

def State.setRun (s : State) (i : Nat) (r : Run) : State := { s with runs := s.runs.set i r }

/-- What an answer of the node leads to: done, or gone already, or a failure. -/
def afterAnswer (t attempts : Nat) : Answer → Phase
  | .done | .refused true => .deleted t
  | .refused false => .failing (some t) attempts .nodeRefused
  | .lost => .failing (some t) attempts .nodeFailed

def claimStep (s : State) (i : Nat) (r : Run) (attempts : Nat) : State :=
  match s.row.bind (claim s.now) with
  | some row => { s.setRun i { r with phase := .claimed s.now attempts } with row := some row, holder := some i }
  | none => s.setRun i { r with phase := .over }

/-- The failure is recorded while the row's claim is the one the run knows. -/
def State.releases (s : State) (startedAt : Option Nat) : Bool :=
  s.row.any fun row => row.deleteAfter.isSome && row.startedAt == startedAt

def failStep (s : State) (i : Nat) (r : Run) (startedAt : Option Nat) (attempts : Nat) (code : Code) : State :=
  { s.setRun i { r with phase := .over } with
    row := s.row.map (recordFailure s.now startedAt attempts code)
    holder := if s.releases startedAt then none else s.holder }

def removeStep (s : State) (i : Nat) (r : Run) (t : Nat) : State :=
  if s.row.any fun row => row.startedAt == some t then
    { s.setRun i { r with phase := .over } with row := none, holder := none, log := .removed s.now :: s.log }
  else s.setRun i { r with phase := .keeping }

def runStep (s : State) (i : Nat) (r : Run) (l : Label) : Option State :=
  match l, r.phase with
  | .notConfigured _, .batched startedAt attempts => some (s.setRun i { r with phase := .failing startedAt attempts .notConfigured })
  | .claim _, .batched _ _ => some (claimStep s i r (s.row.elim 0 (·.attempts)))
  | .prepare _ none, .claimed t attempts => some (s.setRun i { r with phase := .prepared t attempts })
  | .prepare _ (some code), .claimed t attempts => some (s.setRun i { r with phase := .failing (some t) attempts code })
  | .call _, .prepared t attempts => some (s.setRun i { phase := .calling t attempts, out := some t })
  | .nodeDeletes _, _ =>
    if r.out.isSome ∧ s.gone = false then some { s with gone := true, log := .deleted s.now :: s.log } else none
  | .answer _ answer, .calling t attempts => some (s.setRun i { phase := afterAnswer t attempts answer, out := none })
  | .fail _, .failing startedAt attempts code => some (failStep s i r startedAt attempts code)
  | .remove _, .deleted t => some (removeStep s i r t)
  | .keep _, .keeping =>
    some { s.setRun i { r with phase := .over } with row := s.row.map fun row => { row with lastError := some .rowKept } }
  | .die _, _ => some (s.setRun i { r with phase := .over })
  | _, _ => none

def step (s : State) (l : Label) : Option State :=
  match l with
  | .request delay =>
    (s.row.bind (requestDeletion s.now delay)).map fun row =>
      { s with row := some row, log := .requested (s.now + delay) :: s.log }
  | .cancel seat => (s.row.bind (cancelDeletion seat)).map fun row => { s with row := some row, log := .cancelled :: s.log }
  | .deactivate =>
    (s.row.filter fun row => row.deactivatedAt.isNone && row.deleteAfter.isNone).map fun row =>
      { s with row := some { row with deactivatedAt := some s.now } }
  | .activate =>
    (s.row.filter fun row => row.deleteAfter.isNone).map fun row => { s with row := some { row with deactivatedAt := none } }
  | .tick ms => some { s with now := s.now + ms }
  | .start =>
    (s.row.filter (inBatch s.now)).map fun row =>
      { s with runs := s.runs ++ [{ phase := .batched row.startedAt row.attempts }] }
  | l => l.run?.bind fun i => s.runs[i]?.bind fun r => runStep s i r l

/-- A mailbox that nobody asked to delete. -/
def system : TransitionSystem State Label where
  init s := (∃ row, s.row = some row ∧ row.deleteAfter = none ∧ row.startedAt = none) ∧ s.runs = [] ∧ s.gone = false ∧
    s.holder = none ∧ s.log = []
  step := step

end MailExpert.MailboxDeletion
