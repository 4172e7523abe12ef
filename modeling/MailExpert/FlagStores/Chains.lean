import MailExpert.Lib.TransitionSystem

/-!
# Flag stores and their chains

`setFlags` and `setFlagsGroups` of `imapManager.js` for one account. A call cuts its letters into *units*,
one STORE each, and reserves them all before it runs the first: a unit remembers the tail of each of its
letters and becomes their tail (`reserveUnit`). The call then runs its units one after another, each once the
tails it remembers have resolved, and skips what is left of a group, or of all groups, after a failure.

A unit settles when its turn is over, run or skipped. Its tail resolves then, unless its STORE went out over
the persistent session and nobody waits for it any more: that one is waited for, up to a bound.
-/

namespace MailExpert.FlagStores

/-- A letter of the account: its folder and its uid there. -/
abbrev Letter := String × Nat

/-- The attempt over the persistent session: none yet, waiting for the lock, its STORE on the wire, over. -/
inductive Flight
  | none
  | pending
  | sent
  | settled
deriving DecidableEq

/-- `done`: `settle` was called. `resolved`: the tail has resolved. -/
inductive Phase
  | reserved
  | running
  | done
  | resolved
deriving DecidableEq

/-- A unit, named by its place in the order of the reservations. -/
structure FlagUnit where
  call : Nat
  group : Nat
  folder : String
  uidSet : List Nat
  /-- the units whose tails it waits for -/
  prevs : List Nat
  phase : Phase := .reserved
  /-- its store has begun -/
  started : Bool := false
  flight : Flight := .none
  /-- the store has given up on its attempt over the persistent session -/
  expired : Bool := false
  /-- the late wait for the attempt is over and the attempt is not -/
  outlived : Bool := false
  /-- the tail is off the chains -/
  cleared : Bool := false
deriving DecidableEq

def FlagUnit.keys (u : FlagUnit) : List Letter := u.uidSet.map (u.folder, ·)

/-- `settle` was called. -/
def FlagUnit.over (u : FlagUnit) : Prop := u.phase = .done ∨ u.phase = .resolved

/-- A store of the unit is running: the call waits for it, or it is still on the wire. -/
def FlagUnit.storing (u : FlagUnit) : Prop :=
  u.phase = .running ∨ (u.flight = .sent ∧ u.outlived = false)

/-- What `_runFlagStores` answers for a group. -/
inductive Result
  | stored
  | error
  | skipped
deriving DecidableEq

/-- A call: the units from `next` to `stop` are left. -/
structure Call where
  flag : String
  value : Bool
  next : Nat
  stop : Nat
  results : List Result
  stopped : Bool
deriving DecidableEq

structure State where
  units : List FlagUnit
  calls : List Call
  chains : Letter → Option Nat

def flagStoreUidChunk : Nat := 500

def uidChunks (uids : List Nat) : List (List Nat) :=
  let set := uids.dedup.insertionSort (· ≤ ·)
  (List.range ((set.length + flagStoreUidChunk - 1) / flagStoreUidChunk)).map fun i =>
    (set.drop (i * flagStoreUidChunk)).take flagStoreUidChunk

structure Chunk where
  group : Nat
  folder : String
  uids : List Nat

def chunks (groups : List (String × List Nat)) : List Chunk :=
  groups.zipIdx.flatMap fun ((folder, uids), group) =>
    (uidChunks uids).map fun chunk => { group := group, folder := folder, uids := chunk }

def Chunk.keys (c : Chunk) : List Letter := c.uids.map (c.folder, ·)

def Chunk.unit (c : Chunk) (call : Nat) (chains : Letter → Option Nat) : FlagUnit :=
  { call := call, group := c.group, folder := c.folder, uidSet := c.uids, prevs := c.keys.filterMap chains }

/-- Reads the tails of the unit's letters and installs its own. -/
def reserveUnit (call : Nat) (s : State) (c : Chunk) : State :=
  { s with
    units := s.units ++ [c.unit call s.chains]
    chains := fun k => if k ∈ c.keys then some s.units.length else s.chains k }

def reserveFlagStores (s : State) (call : Nat) (groups : List (String × List Nat)) : State :=
  (chunks groups).foldl (reserveUnit call) s

/-- The part of a call before its first await. -/
def setFlagsGroups (s : State) (groups : List (String × List Nat)) (flag : String) (value : Bool) : State :=
  let t := reserveFlagStores s s.calls.length groups
  { t with calls := s.calls ++ [{
      flag := flag, value := value, next := s.units.length, stop := t.units.length
      results := List.replicate groups.length .stored, stopped := false }] }

/-! ## Running -/

/-- How a store ends. `stopsFlagStores` tells whether a failure ends the call's later groups too. -/
inductive Outcome
  | stored
  | failed (stops : Bool)
deriving DecidableEq

/-- What happens inside one store and to its tail. -/
inductive UnitLabel
  | attempt
  | send
  | settleAttempt
  | giveUp
  | tail
  | tailTimeout
deriving DecidableEq

def FlagUnit.step (u : FlagUnit) : UnitLabel → Option FlagUnit
  | .attempt =>
    if u.phase = .running ∧ u.folder = "INBOX" ∧ u.flight = .none then some { u with flight := .pending }
    else none
  -- a lock that is granted after the store gave up is released, and nothing is sent
  | .send => if u.flight = .pending ∧ u.expired = false then some { u with flight := .sent } else none
  | .settleAttempt =>
    if u.flight = .pending ∨ u.flight = .sent then some { u with flight := .settled } else none
  | .giveUp =>
    if u.phase = .running ∧ (u.flight = .pending ∨ u.flight = .sent) ∧ u.expired = false then
      some { u with expired := true }
    else none
  | .tail => if u.phase = .done ∧ u.flight ≠ .sent then some { u with phase := .resolved } else none
  | .tailTimeout =>
    if u.phase = .done ∧ u.flight = .sent then some { u with phase := .resolved, outlived := true } else none

/-- One call, or one stretch of code between two awaits. -/
inductive Label
  | call (groups : List (String × List Nat)) (flag : String) (value : Bool)
  | start (i : Nat)
  | skip (i : Nat)
  | answer (i : Nat) (outcome : Outcome)
  | inside (i : Nat) (l : UnitLabel)
  | clear (i : Nat)
deriving DecidableEq

def State.resolved (s : State) (i : Nat) : Bool := s.units[i]?.any (·.phase = .resolved)

/-- `results[unit.group].error || results[unit.group].skipped`, or the call has stopped. -/
def Call.skips (c : Call) (group : Nat) : Bool := c.results[group]? != some .stored || c.stopped

def Call.skip (c : Call) (group : Nat) : Call :=
  { c with
    next := c.next + 1
    results := if c.results[group]? = some .stored then c.results.set group .skipped else c.results }

def Call.answer (c : Call) (group : Nat) : Outcome → Call
  | .stored => { c with next := c.next + 1 }
  | .failed stops =>
    { c with next := c.next + 1, results := c.results.set group .error, stopped := c.stopped || stops }

def State.turn (s : State) (i : Nat) : Option (FlagUnit × Call) :=
  s.units[i]?.bind fun u => (s.calls[u.call]?).bind fun c => if c.next = i then some (u, c) else none

def State.step (s : State) : Label → Option State
  | .call groups flag value => some (setFlagsGroups s groups flag value)
  | .start i => (s.turn i).bind fun (u, c) =>
    if u.phase = .reserved ∧ c.skips u.group = false ∧ u.prevs.all s.resolved then
      some { s with units := s.units.set i { u with phase := .running, started := true } }
    else none
  | .skip i => (s.turn i).bind fun (u, c) =>
    if u.phase = .reserved ∧ c.skips u.group then
      some { s with
        units := s.units.set i { u with phase := .done }
        calls := s.calls.set u.call (c.skip u.group) }
    else none
  | .answer i outcome => (s.turn i).bind fun (u, c) =>
    if u.phase = .running ∧ (u.flight = .none ∨ u.flight = .settled ∨ u.expired) then
      some { s with
        units := s.units.set i { u with phase := .done }
        calls := s.calls.set u.call (c.answer u.group outcome) }
    else none
  | .inside i l => s.units[i]?.bind fun u => (u.step l).map fun u' => { s with units := s.units.set i u' }
  | .clear i => s.units[i]?.bind fun u =>
    if u.phase = .resolved ∧ u.cleared = false then
      some { s with
        units := s.units.set i { u with cleared := true }
        chains := fun k => if k ∈ u.keys ∧ s.chains k = some i then none else s.chains k }
    else none

def system : TransitionSystem State Label where
  init s := s.units = [] ∧ s.calls = [] ∧ s.chains = fun _ => none
  step := State.step

/-- Anything but a new call. -/
def Label.internal : Label → Bool
  | .call .. => false
  | _ => true

end MailExpert.FlagStores
