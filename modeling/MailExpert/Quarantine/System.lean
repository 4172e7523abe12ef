import MailExpert.Lib.TransitionSystem
import MailExpert.Quarantine.Message

/-!
# Overlapping release runs

Any number of runs handle one message. A run reads the message's row when it starts (`stored`), the message some time
later, and then makes one statement or call at a time; between any two of its steps other runs take theirs, time
passes, and it may die. The tenant applies a release call at any time after it was made, or never, and only while the
message is not released; somebody else may release the message too.

`State.log`, `State.claimer` and the flags of a `Run` record what happened, for the properties to speak of.
-/

namespace MailExpert.Quarantine

inductive Phase
  | reading (stored : Option Row) (domains : List String) (ruleOk : Bool)
  | next (next : Next)
  | claimed (f : Facts) (attempts : Nat)
  | calling (f : Facts) (attempts : Nat)
  /-- it ended, or died -/
  | over (outcome : Option Outcome)
  deriving DecidableEq, Repr

structure Run where
  phase : Phase
  hasClaimed : Bool := false
  hasCalled : Bool := false
  /-- its call was answered as throttled -/
  wasThrottled : Bool := false
  /-- it gave the attempt of its claim back -/
  gaveBack : Bool := false
  deriving DecidableEq, Repr

inductive Event
  | claimed (run time : Nat)
  | called (run time : Nat)
  /-- a run that had made its call recorded a failure -/
  | failed (run : Nat)
  deriving DecidableEq, Repr

inductive Releaser
  | panel
  /-- somebody else, after a release call of the panel was made or before any -/
  | other (afterCall : Bool)
  deriving DecidableEq, Repr

structure State where
  now : Nat := 0
  row : Option Row := none
  runs : List Run := []
  /-- what the tenant holds -/
  released : Option Releaser := none
  /-- the entries `tenant.quarantine_released` -/
  journal : List Facts := []
  /-- the run that claimed last -/
  claimer : Option Nat := none
  log : List Event := []
  deriving DecidableEq, Repr

inductive Label
  | start (domains : List String) (ruleOk : Bool)
  | read (i : Nat) (answer : Except Thrown (Option Message))
  | write (i : Nat)
  | claim (i : Nat)
  | call (i : Nat)
  | answer (i : Nat) (answer : Except Thrown Unit)
  | die (i : Nat)
  | apply (i : Nat)
  | releaseElsewhere
  | tick (ms : Nat)

def isThrottled : Except Thrown Unit → Bool
  | .ok () => false
  | .error e => e.failure == .throttled

/-- Where what comes next leaves a run: nothing may come. -/
def Phase.of : Next → Phase
  | .ends outcome => .over outcome
  | n => .next n

def State.setRun (s : State) (i : Nat) (r : Run) : State := { s with runs := s.runs.set i r }

def Write.row (w : Write) (now : Nat) (row : Option Row) : Option Row :=
  match w with
  | .touch error => Quarantine.touch now error row
  | .record state f reason error delta => some (Quarantine.record now state f reason error delta row)
  | .markReleased f byPanel => some (Quarantine.markReleased now f byPanel row).1

def Write.entries (w : Write) (now : Nat) (row : Option Row) : List Facts :=
  match w with
  | .markReleased f byPanel => if (Quarantine.markReleased now f byPanel row).2 && byPanel then [f] else []
  | _ => []

def Write.recordsFailure : Write → Bool
  | .record state _ _ _ _ => state == .failed
  | _ => false

def Write.attemptsDelta : Write → Int
  | .record _ _ _ _ delta => delta
  | _ => 0

def Run.written (r : Run) (w : Write) (outcome : Option Outcome) : Run :=
  { r with phase := .over outcome, gaveBack := r.gaveBack || decide (w.attemptsDelta < 0) }

def Run.granted (r : Run) (f : Facts) (attempts : Nat) : Run := { r with phase := .claimed f attempts, hasClaimed := true }

def writeStep (s : State) (i : Nat) (r : Run) (w : Write) (outcome : Option Outcome) : State :=
  { s with
    row := w.row s.now s.row
    runs := s.runs.set i (r.written w outcome)
    journal := w.entries s.now s.row ++ s.journal
    log := if r.hasCalled && w.recordsFailure then .failed i :: s.log else s.log }

def claimStep (s : State) (i : Nat) (r : Run) (f : Facts) : State :=
  match claim s.now f s.row with
  | some row =>
    { s with
      row := some row
      runs := s.runs.set i (r.granted f row.attempts)
      claimer := some i
      log := .claimed i s.now :: s.log }
  | none => s.setRun i { r with phase := .over (some .busy) }

def runStep (s : State) (i : Nat) (r : Run) : Label → Option State
  | .read _ answer =>
    match r.phase with
    | .reading stored domains ruleOk => some (s.setRun i { r with phase := .of (afterRead stored domains ruleOk answer) })
    | _ => none
  | .write _ =>
    match r.phase with
    | .next (.writes w outcome) => some (writeStep s i r w outcome)
    | _ => none
  | .claim _ =>
    match r.phase with
    | .next (.claims f) => some (claimStep s i r f)
    | _ => none
  | .call _ =>
    match r.phase with
    | .claimed f attempts =>
      some { s.setRun i { r with phase := .calling f attempts, hasCalled := true } with log := .called i s.now :: s.log }
    | _ => none
  | .answer _ answer =>
    match r.phase with
    | .calling f attempts =>
      some (s.setRun i { r with phase := .of (afterCall f attempts answer), wasThrottled := isThrottled answer })
    | _ => none
  | .die _ => some (s.setRun i { r with phase := .over none })
  | .apply _ => if r.hasCalled ∧ s.released = none then some { s with released := some .panel } else none
  | _ => none

def Label.run? : Label → Option Nat
  | .read i _ | .write i | .claim i | .call i | .answer i _ | .die i | .apply i => some i
  | .start _ _ | .releaseElsewhere | .tick _ => none

def step (s : State) (l : Label) : Option State :=
  match l with
  | .start domains ruleOk =>
    if takesUp s.now s.row then some { s with runs := s.runs ++ [{ phase := .reading s.row domains ruleOk }] } else none
  | .releaseElsewhere =>
    if s.released = none then some { s with released := some (.other (s.runs.any (·.hasCalled))) } else none
  | .tick ms => some { s with now := s.now + ms }
  | l => l.run?.bind fun i => s.runs[i]?.bind fun r => runStep s i r l

/-- A message that no run has met yet. -/
def system : TransitionSystem State Label where
  init s := s.row = none ∧ s.runs = [] ∧ s.released = none ∧ s.journal = [] ∧ s.claimer = none ∧ s.log = []
  step := step

end MailExpert.Quarantine
