import MailExpert.Lib.TransitionSystem
import MailExpert.MoveQueue.Tables

/-!
# The move queue at work

Requests of users, the worker's runs and destination syncs act on the two tables, one statement or
transaction a step, in any order. A run and a `claimArrival` act on moves they read while these
were in flight: `held` lists them. What became of such a move meanwhile is found out by the
transaction itself.

`flagPush` is the flag-push queue of the mail engine, in memory. The ghosts follow one read or star
change: `accepted` is the last value `deferFlags` took for a row and flag, and `given` the value
handed to `setFlags` for the letter's server location since.
-/

namespace MailExpert.MoveQueue

inductive Store
  | stored    -- `setFlags` succeeded
  | failed    -- it threw: the value goes to the flag-push queue
  | cutOff    -- the run ended before it reached `_storeSettledFlags`
deriving DecidableEq, Repr

abbrev FlagTable := Table (Nat × Flag) Bool

structure State where
  db : Db
  held : List Nat
  flagPush : FlagTable
  accepted : FlagTable
  given : FlagTable

inductive Label
  | syncInsert (id : Nat) (m : Message)
  | storeFlag (rowId : Nat) (flag : Flag) (value ok : Bool)
  | enqueueRows (account : Nat) (rowIds : List Nat) (target : Target) (now : Nat)
  | cancelPending (account rowId : Nat) (dest : String)
  | retargetPending (account rowId : Nat) (target : Target) (now : Nat)
  | followPending (account rowId : Nat) (target : Target) (now : Nat)
  | absorbFlagPush (rowId : Nat) (flag : Flag)
  | deferFlags (rowIds : List Nat) (flag : Flag) (value : Bool)
  | claim (ids : List Nat) (now : Nat)
  | pick (n : Nat)
  | markSent (ids : List Nat) (now : Nat)
  | release (ids : List Nat) (now : Nat)
  | recover (ids : List Nat) (delayMs now : Nat)
  | markAwaiting (n now : Nat)
  | retryLater (n attempts : Nat) (error : String) (unclear : Bool) (now : Nat)
  | requeueAwaiting (n attempts now : Nat)
  | lookAgainLater (n now : Nat)
  | settle (n : Nat) (newUid : Int) (folder : Option String) (store : Store) (now : Nat)
  | revert (n now : Nat)
  | drop (n : Nat)

/-- `_enqueueFlagPush` of the flag changes on a move, for its row. -/
def pushFlags (push : FlagTable) (rowId : Nat) (op : Move) : FlagTable :=
  let push := op.setSeen.elim push fun value => push.insert (rowId, .seen) value
  op.setFlagged.elim push fun value => push.insert (rowId, .flagged) value

/-- `_resolveFlagPush` of the same. -/
def resolveFlags (push : FlagTable) (rowId : Nat) (op : Move) : FlagTable :=
  let push := if op.setSeen.isSome then push.erase (rowId, .seen) else push
  if op.setFlagged.isSome then push.erase (rowId, .flagged) else push

/-- `deferFlags` took the value for the row. -/
def State.accept (s : State) (db : Db) (rowId : Nat) (flag : Flag) (value : Bool) : State :=
  { s with
    db, accepted := s.accepted.insert (rowId, flag) value, given := s.given.erase (rowId, flag) }

/-- `deferFlags` on one row. -/
def deferFlag (s : State) (rowId : Nat) (flag : Flag) (value : Bool) : State :=
  match s.db.deferFlag rowId flag value with
  | some db => s.accept db rowId flag value
  | none => s

/-- `_storeSettledFlags` on one settled row. -/
def storeSettledFlags (s : State) (rowId : Nat) (op : Move) : Store → State
  | .stored => { s with
      given := pushFlags s.given rowId op, flagPush := resolveFlags s.flagPush rowId op }
  | .failed => { s with
      given := pushFlags s.given rowId op, flagPush := pushFlags s.flagPush rowId op }
  | .cutOff => s

def cancelPending (s : State) (account rowId : Nat) (dest : String) : Option State :=
  (s.db.cancelPending account rowId dest).map fun (op, db) => { s with
    db
    flagPush := if op.srcUid.isSome then pushFlags s.flagPush rowId op else s.flagPush }

/-- `_settle` and the flag store that follows it. -/
def settle (s : State) (n : Nat) (newUid : Int) (folder : Option String) (store : Store)
    (now : Nat) : Option State :=
  (s.db.settle n newUid folder now).map fun (out, db) =>
    if out.row.isSome then storeSettledFlags { s with db } out.op.messageRowId out.op store
    else { s with db }

def revert (s : State) (n now : Nat) : Option State :=
  (s.db.revert n now).map fun (out, db) => { s with
    db
    flagPush := if out.row.isSome then pushFlags s.flagPush out.op.messageRowId out.op
      else s.flagPush }

/-- `_drop`; a row that goes with its letter has no change left to keep. -/
def drop (s : State) (n : Nat) : Option State :=
  (s.db.drop n).map fun db => { s with
    db
    accepted := s.accepted.delete fun k _ => (db.messages.lookup k.1).isNone ∧
      (s.db.messages.lookup k.1).isSome }

def step (s : State) : Label → Option State
  -- A sync finds a letter it does not know; message ids are UUIDs.
  | .syncInsert id m =>
    if s.db.messages.lookup id = none ∧ m.uid > 0 ∧
        ¬s.db.placeTaken m.account m.folder m.uid id ∧
        (s.db.moves.select fun _ mv => mv.messageRowId = id) = [] then
      some { s with db := { s.db with messages := s.db.messages.insert id m } }
    else none
  -- A change on a letter at its server location supersedes what was deferred.
  | .storeFlag rowId flag value ok => (s.db.messages.lookup rowId).bind fun m =>
    if m.uid > 0 then
      some { s with
        accepted := s.accepted.erase (rowId, flag), given := s.given.erase (rowId, flag)
        flagPush := if ok then s.flagPush.erase (rowId, flag)
          else s.flagPush.insert (rowId, flag) value }
    else none
  | .enqueueRows account rowIds target now =>
    some { s with db := s.db.enqueueRows account rowIds target now }
  | .cancelPending account rowId dest => cancelPending s account rowId dest
  | .retargetPending account rowId target now =>
    (s.db.retargetPending account rowId target now).map fun db => { s with db }
  | .followPending account rowId target now =>
    (s.db.followPending account rowId target now).map fun db => { s with db }
  | .absorbFlagPush rowId flag => do
    let value ← s.flagPush.lookup (rowId, flag)
    let db ← s.db.deferFlag rowId flag value
    some { s.accept db rowId flag value with flagPush := s.flagPush.erase (rowId, flag) }
  | .deferFlags rowIds flag value =>
    some (rowIds.foldl (fun s rowId => deferFlag s rowId flag value) s)
  | .claim ids now =>
    let db := s.db.claim ids now
    some { s with
      db
      held := ids.filter (fun n => (db.moves.lookup n).any (·.state = .moving)) ++ s.held }
  | .pick n =>
    if (s.db.moves.lookup n).any (·.state ≠ .queued) then some { s with held := n :: s.held }
    else none
  | .markSent ids now => some { s with db := s.db.markSent ids now }
  | .release ids now => some { s with db := s.db.release ids now }
  | .recover ids delayMs now => some { s with db := s.db.recover ids delayMs now }
  | .markAwaiting n now => some { s with db := s.db.markAwaiting n now }
  | .retryLater n attempts error unclear now =>
    some { s with db := s.db.retryLater n attempts error unclear now }
  | .requeueAwaiting n attempts now => some { s with db := s.db.requeueAwaiting n attempts now }
  | .lookAgainLater n now => some { s with db := s.db.lookAgainLater n now }
  | .settle n newUid folder store now =>
    if n ∈ s.held ∧ newUid > 0 then settle s n newUid folder store now else none
  | .revert n now => if n ∈ s.held then revert s n now else none
  | .drop n => if n ∈ s.held then drop s n else none

/-- Any letters at their server locations, and nothing pending. -/
def Initial (s : State) : Prop :=
  (∀ id m, s.db.messages.lookup id = some m → m.uid > 0) ∧ s.db.moves = ∅ ∧
    s.db.nextMoveId > 0 ∧ s.held = [] ∧ s.flagPush = ∅ ∧ s.accepted = ∅ ∧ s.given = ∅

/-- Some letters at their server locations. -/
def State.ofRows (rows : List (Nat × Message)) : State where
  db := { messages := Table.insertAll ∅ rows, moves := ∅, nextMoveId := 1 }
  held := []
  flagPush := ∅
  accepted := ∅
  given := ∅

theorem Initial.ofRows {rows : List (Nat × Message)} (h : ∀ e ∈ rows, e.2.uid > 0) :
    Initial (.ofRows rows) := by
  refine ⟨fun id m hm => ?_, rfl, Nat.one_pos, rfl, rfl, rfl, rfl⟩
  rcases Table.mem_of_lookup_insertAll hm with hmem | hnone
  · exact h (id, m) hmem
  · exact absurd hnone nofun

def system : TransitionSystem State Label where
  init := Initial
  step := step

end MailExpert.MoveQueue
