import MailExpert.Lib.Table
import MailExpert.Lib.TransitionSystem

/-!
# Outages of the mail node

`recordCheck`, `openWindow` and `updateOutage` of `services/mailNode/outages.js`, over the table
`mail_node_outages` and the state of the last check. An administrator acts on the open window only by
closing it. The query for the window that ended last has no order among windows with one end, so the
label of a check says which of them it answers.
-/

namespace MailExpert.Outages

inductive Result
  | good | failed | unknown
deriving DecidableEq, Repr

structure Down where
  name : String
  state : String
deriving DecidableEq, Repr

/-- What `classifyCheck` makes of one check. -/
structure Check where
  result : Result
  signals : List String
  down : List Down
deriving DecidableEq, Repr

inductive Source
  | detected | manual
deriving DecidableEq, Repr

structure Cause where
  signals : List String := []
  down : List Down := []
  firstFailedAt : Option Int := none
  startUncertain : Option Bool := none
  reopened : Option Nat := none
deriving DecidableEq, Repr

/-- A row of `mail_node_outages`. Times are milliseconds. -/
structure Outage where
  started_at : Int
  ended_at : Option Int := none
  source : Source
  reason : Option String := none
  cause : Cause := {}
  last_failed_at : Option Int := none
  closed_by : Option Nat := none
deriving DecidableEq, Repr

abbrev OutageTable := Table Nat Outage

/-- The state of the last check; `pendingFailure` is a first unanswered call, with its signals. -/
structure NodeState where
  lastCheckAt : Option Int := none
  lastResult : Option Result := none
  signals : List String := []
  lastGoodAt : Option Int := none
  pendingFailure : Option (Int × List String) := none
deriving DecidableEq, Repr

def CHECK_GAP_MS : Int := 15 * 60 * 1000
def REOPEN_MS : Int := 15 * 60 * 1000

def Outage.isOpen (row : Outage) : Bool := row.source = .detected && row.ended_at.isNone

def Outage.isClosed (row : Outage) : Bool := row.source = .detected && row.ended_at.isSome

def openDetected (outages : OutageTable) : Option (Nat × Outage) := outages.find? fun _ row => row.isOpen

/-- `previous` is an answer of `lastClosedDetected`. -/
def lastClosedDetected (outages : OutageTable) (previous : Option (Nat × Outage)) : Bool :=
  match previous with
  | none => (outages.select fun _ row => row.isClosed).isEmpty
  | some (id, row) => outages.lookup id = some row && row.isClosed &&
    (outages.select fun _ row => row.isClosed).all fun other =>
      other.2.ended_at.getD 0 ≤ row.ended_at.getD 0

/-- `[...new Set(signals)]`. -/
def distinct (signals : List String) : List String := signals.eraseDups

/-- The end of the last detected window. -/
def floorOf (previous : Option (Nat × Outage)) : Option Int := previous.bind (·.2.ended_at)

/-- Where a new window starts: at the last good check, but not before the last window's end. -/
def windowStart (lastGood : Option Int) (firstFailed : Int) (floor : Option Int) : Int :=
  let start := lastGood.getD firstFailed
  match floor with
  | some floor => if floor > start then min floor firstFailed else start
  | none => start

/-- The table, the row that is open now, and whether it was opened again. -/
def openWindow (outages : OutageTable) (nextId : Nat) (check : Check) (state : NodeState) (now : Int)
    (previous : Option (Nat × Outage)) : OutageTable × Option (Nat × Outage) × Bool :=
  let reopen := previous.filter fun (_, row) =>
    row.closed_by.isNone && row.ended_at.any fun ended => now - ended < REOPEN_MS
  match reopen with
  | some (id, row) =>
    let row := { row with
      ended_at := none
      last_failed_at := some now
      cause := { row.cause with
        reopened := some (row.cause.reopened.getD 0 + 1)
        down := if check.down ≠ [] then check.down else row.cause.down } }
    (outages.modify id fun _ => row, some (id, row), true)
  | none =>
    let firstFailed := (state.pendingFailure.map (·.1)).getD now
    let lastGood := state.lastGoodAt
    let start := windowStart lastGood firstFailed (floorOf previous)
    let startUncertain := lastGood.all fun lastGood => firstFailed - lastGood > CHECK_GAP_MS
    let signals := distinct ((state.pendingFailure.map (·.2)).getD [] ++ check.signals)
    if (openDetected outages).isSome then (outages, none, false)  -- ON CONFLICT DO NOTHING
    else
      let row : Outage := {
        started_at := start, source := .detected, last_failed_at := some now
        cause := {
          signals, down := check.down, firstFailedAt := some firstFailed
          startUncertain := some startUncertain } }
      (outages.insert nextId row, some (nextId, row), false)

structure State where
  outages : OutageTable
  nextId : Nat
  state : Option NodeState
  /-- The time of the last event. -/
  clock : Option Int

/-- The table and the state after a check, with the windows it opened and closed. -/
def recordCheck (s : State) (check : Check) (now : Int) (previous : Option (Nat × Outage)) :
    State × Option (Nat × Outage) × Option (Nat × Outage) :=
  let state := s.state.getD {}
  let keep (state : NodeState) : Option NodeState := some { state with
    lastCheckAt := some now, lastResult := some check.result, signals := check.signals }
  let s := { s with clock := some now }
  match check.result, openDetected s.outages with
  | .good, some (id, row) =>
    let row := { row with ended_at := some (max now row.started_at) }
    ({ s with
      outages := s.outages.modify id fun _ => row
      state := keep { state with lastGoodAt := some now, pendingFailure := none } },
      none, some (id, row))
  | .good, none =>
    ({ s with state := keep { state with lastGoodAt := some now, pendingFailure := none } }, none, none)
  | .failed, some (id, _) =>
    ({ s with
      outages := s.outages.modify id fun row => { row with
        last_failed_at := some now
        cause := { row.cause with
          signals := distinct (row.cause.signals ++ check.signals)
          down := if check.down ≠ [] then check.down else row.cause.down } }
      state := keep { state with pendingFailure := none } }, none, none)
  | .failed, none =>
    if "api_unreachable" ∈ check.signals ∧ check.down = [] ∧ state.pendingFailure = none then
      ({ s with state := keep { state with pendingFailure := some (now, check.signals) } }, none, none)
    else
      let (outages, opened, _) := openWindow s.outages s.nextId check state now previous
      ({ s with
        outages, nextId := s.nextId + 1, state := keep { state with pendingFailure := none } },
        opened, none)
  | .unknown, _ => ({ s with state := keep { state with pendingFailure := none } }, none, none)

/-- The fields a change of a window sends. -/
structure OutageValues where
  startedAt : Option Int := none
  endedAt : Option Int := none
  reason : Option String := none

def updateOutage (outages : OutageTable) (id : Nat) (values : OutageValues) (userId : Option Nat) :
    Except String OutageTable :=
  match outages.lookup id with
  | none => .error "outage_not_found"
  | some current =>
    let started := values.startedAt.getD current.started_at
    let ended := values.endedAt <|> current.ended_at
    if ended.any (· < started) then .error "outage_end_before_start"
    else .ok <| outages.modify id fun row => { row with
      started_at := started
      ended_at := ended
      reason := values.reason <|> current.reason
      closed_by := if row.ended_at.isNone && ended.isSome then userId else row.closed_by }

inductive Event
  | check (check : Check) (now : Int) (previous : Option (Nat × Outage))
  | close (now : Int) (userId : Option Nat) (reason : Option String)

/-- The clock does not run back, and two checks are not at one time. -/
def step (s : State) : Event → Option State
  | .check check now previous =>
    if s.clock.all (· ≤ now) ∧ (s.state.bind (·.lastCheckAt)).all (· < now) ∧
        lastClosedDetected s.outages previous then
      some (recordCheck s check now previous).1
    else none
  | .close now userId reason => do
    let (id, _) ← openDetected s.outages
    if s.clock.all (· ≤ now) then
      match updateOutage s.outages id { endedAt := some now, reason } userId with
      | .ok outages => some { s with outages, clock := some now }
      | .error _ => some { s with clock := some now }
    else none

/-- No window was detected yet, and no check was kept. -/
def system : TransitionSystem State Event where
  init s := (∀ id row, s.outages.lookup id = some row → id < s.nextId ∧ row.source = .manual) ∧
    s.state = none
  step := step

end MailExpert.Outages
