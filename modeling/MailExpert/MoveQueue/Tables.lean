import MailExpert.Lib.Table

/-!
# The tables `messages` and `message_moves`

Each definition here is one statement or transaction of `services/moveQueue.js` on both tables
(migration 0075): `none` when it writes nothing. A message row whose move is pending holds the
placeholder uid `-n`, `n` the id of the move; uids the server gave are positive.

A move's `message_row_id` and `account_id` never change, so the copy of a move a worker holds is
represented by its id.
-/

namespace MailExpert.MoveQueue

def MOVE_MAX_ATTEMPTS : Nat := 8
def MOVE_RETRY_BASE_MS : Nat := 15 * 1000
def MOVE_RETRY_MAX_MS : Nat := 10 * 60 * 1000
def MOVE_AWAITING_RETRY_MS : Nat := 15 * 1000

def moveRetryDelayMs (attempts : Nat) : Nat :=
  min MOVE_RETRY_MAX_MS (MOVE_RETRY_BASE_MS * 2 ^ (attempts - 1))

def placeholderUid (moveId : Nat) : Int := -(moveId : Int)

def isPendingUid (uid : Int) : Bool := uid < 0

inductive Flag
  | seen | flagged
deriving DecidableEq, Repr

inductive MoveState
  | queued | moving | awaitingUid
deriving DecidableEq, Repr

/-- A row of `messages`, under its id. -/
structure Message where
  account : Nat
  folder : String
  uid : Int
  messageId : Option String := none
  isRead : Bool := false
  expungeClaim : Bool := false
  providerMessageId : Option String := none
  syncedAt : Nat := 0
  readChangedAt : Option Nat := none
  starChangedAt : Option Nat := none
deriving DecidableEq, Repr

/-- A row of `message_moves`, under its id. -/
structure Move where
  account : Nat
  messageRowId : Nat
  messageIdHeader : Option String := none
  srcFolder : String
  srcUid : Option Int := none
  destFolder : String
  predecessorId : Option Nat := none
  dropRow : Bool := false
  movedBy : Option Nat := none
  setSeen : Option Bool := none
  setFlagged : Option Bool := none
  state : MoveState := .queued
  attempts : Nat := 0
  nextAttemptAt : Nat := 0
  claimedAt : Option Nat := none
  sentAt : Option Nat := none
  awaitingSince : Option Nat := none
  lastError : Option String := none
  createdAt : Nat := 0
  updatedAt : Nat := 0
deriving DecidableEq, Repr

/-- The column of a flag (`FLAG_COLUMNS`). -/
def Move.flag (mv : Move) : Flag → Option Bool
  | .seen => mv.setSeen
  | .flagged => mv.setFlagged

def Move.setFlag (mv : Move) : Flag → Bool → Move
  | .seen, value => { mv with setSeen := some value }
  | .flagged, value => { mv with setFlagged := some value }

/-- Both flag columns of `older` where this move has none: `COALESCE(mine, older's)`. -/
def Move.coalesceFlags (mv older : Move) : Move :=
  { mv with setSeen := mv.setSeen <|> older.setSeen, setFlagged := mv.setFlagged <|> older.setFlagged }

/-- The predecessor of a cancelled move keeps its flag changes; the newer value wins. -/
def Move.handFlags (op pred : Move) : Move :=
  { pred with setSeen := op.setSeen <|> pred.setSeen, setFlagged := op.setFlagged <|> pred.setFlagged }

/-- What a user's request asks of a row: `dest`, `dropRow` and `movedBy` of `enqueue`. -/
structure Target where
  dest : String
  dropRow : Bool := false
  movedBy : Option Nat := none

/-- A queued move takes a new destination. -/
def Move.retarget (mv : Move) (target : Target) (now : Nat) : Move :=
  { mv with
    destFolder := target.dest, dropRow := target.dropRow, movedBy := target.movedBy
    updatedAt := now }

structure Db where
  messages : Table Nat Message
  moves : Table Nat Move
  /-- The sequence of `message_moves.id`. -/
  nextMoveId : Nat

namespace Db

/-- `UNIQUE (account_id, uid, folder)`: another row holds the place. -/
def placeTaken (db : Db) (account : Nat) (folder : String) (uid : Int) (rowId : Nat) : Bool :=
  (db.messages.find? fun id m =>
    id ≠ rowId ∧ m.account = account ∧ m.folder = folder ∧ m.uid = uid).isSome

/-- `DELETE FROM messages` of the rows holding the place, but for `rowId`. -/
def freePlace (messages : Table Nat Message) (account : Nat) (folder : String) (uid : Int)
    (rowId : Nat) : Table Nat Message :=
  messages.delete fun id m => id ≠ rowId ∧ m.account = account ∧ m.folder = folder ∧ m.uid = uid

/-- The pending move of a row: the one whose placeholder the row holds. -/
def pendingMove (db : Db) (account rowId : Nat) : Option (Message × Nat × Move) := do
  let m ← (db.messages.lookup rowId).filter fun m => m.account = account ∧ m.uid < 0
  let mv ← (db.moves.lookup m.uid.natAbs).filter fun mv => mv.messageRowId = rowId
  some (m, m.uid.natAbs, mv)

/-- The move `enqueue` inserts for a row at a server location. -/
def newMove (account rowId : Nat) (m : Message) (target : Target) (now : Nat) : Move where
  account := account
  messageRowId := rowId
  messageIdHeader := m.messageId
  srcFolder := m.folder
  srcUid := some m.uid
  destFolder := target.dest
  dropRow := target.dropRow
  movedBy := target.movedBy
  nextAttemptAt := now
  createdAt := now
  updatedAt := now

/-- The move that follows `prev`, which is in flight under the id `n`. -/
def nextMove (n : Nat) (prev : Move) (target : Target) (now : Nat) : Move where
  account := prev.account
  messageRowId := prev.messageRowId
  messageIdHeader := prev.messageIdHeader
  srcFolder := prev.destFolder
  destFolder := target.dest
  predecessorId := some n
  dropRow := target.dropRow
  movedBy := target.movedBy
  nextAttemptAt := now
  createdAt := now
  updatedAt := now

/-- One row of the first statement of `enqueue`: the move and the placeholder. -/
def enqueueRow (db : Db) (account rowId : Nat) (target : Target) (now : Nat) : Option (Nat × Db) := do
  let m ← (db.messages.lookup rowId).filter fun m =>
    m.account = account ∧ m.uid > 0 ∧ m.folder ≠ target.dest ∧ ¬m.expungeClaim
  let n := db.nextMoveId
  some (n, {
    messages := db.messages.insert rowId { m with folder := target.dest, uid := placeholderUid n }
    moves := db.moves.insert n (newMove account rowId m target now)
    nextMoveId := n + 1 })

/-- The first statement of `enqueue`, over its rows in id order. -/
def enqueueRows (db : Db) (account : Nat) (rowIds : List Nat) (target : Target) (now : Nat) : Db :=
  rowIds.foldl (fun db rowId => ((db.enqueueRow account rowId target now).map (·.2)).getD db) db

/-- `_enqueuePending`, cancel: a queued move back to its own source is dropped. -/
def cancelPending (db : Db) (account rowId : Nat) (dest : String) : Option (Move × Db) := do
  let (m, n, op) ← db.pendingMove account rowId
  let backUid ← op.srcUid <|> op.predecessorId.map placeholderUid
  if op.state = .queued ∧ op.srcFolder = dest ∧
      ¬db.placeTaken account op.srcFolder backUid rowId then
    some (op, { db with
      messages := db.messages.insert rowId { m with folder := op.srcFolder, uid := backUid }
      moves := Table.update (db.moves.erase n) (fun p _ => op.predecessorId = some p) fun _ =>
        op.handFlags })
  else none

/-- `_enqueuePending`, retarget: a queued move takes the new destination. -/
def retargetPending (db : Db) (account rowId : Nat) (target : Target) (now : Nat) : Option Db := do
  let (m, n, op) ← db.pendingMove account rowId
  if op.state = .queued ∧ m.folder ≠ target.dest then
    some { db with
      messages := db.messages.insert rowId { m with folder := target.dest }
      moves := db.moves.insert n (op.retarget target now) }
  else none

/-- `_enqueuePending`, follow: a move in flight is followed by a second one. -/
def followPending (db : Db) (account rowId : Nat) (target : Target) (now : Nat) : Option Db := do
  let (m, n, prev) ← db.pendingMove account rowId
  if prev.state ≠ .queued ∧ m.folder ≠ target.dest then
    let next := db.nextMoveId
    some {
      messages := db.messages.insert rowId
        { m with folder := target.dest, uid := placeholderUid next }
      moves := db.moves.insert next (nextMove n prev target now)
      nextMoveId := next + 1 }
  else none

/-- `deferFlags` on one row: whether its pending move took the value. -/
def deferFlag (db : Db) (rowId : Nat) (flag : Flag) (value : Bool) : Option Db := do
  let m ← (db.messages.lookup rowId).filter fun m => m.uid < 0
  let mv ← (db.moves.lookup m.uid.natAbs).filter fun mv => mv.messageRowId = rowId
  some { db with moves := db.moves.insert m.uid.natAbs (mv.setFlag flag value) }

/-! ## The worker -/

/-- `UPDATE message_moves SET … WHERE id = ANY(ids) AND …`. -/
def updateMoves (db : Db) (ids : List Nat) (p : Move → Bool) (f : Move → Move) : Db :=
  { db with moves := db.moves.update (fun n mv => n ∈ ids ∧ p mv) fun _ => f }

def claim (db : Db) (ids : List Nat) (now : Nat) : Db :=
  db.updateMoves ids (fun mv => mv.state = .queued ∧ mv.srcUid.isSome ∧ mv.nextAttemptAt ≤ now)
    fun mv => { mv with state := .moving, claimedAt := some now, sentAt := none, updatedAt := now }

/-- The write right before a `MOVE` is sent. -/
def markSent (db : Db) (ids : List Nat) (now : Nat) : Db :=
  db.updateMoves ids (fun mv => mv.state = .moving) fun mv =>
    { mv with claimedAt := some now, sentAt := some now }

/-- `_release`. -/
def release (db : Db) (ids : List Nat) (now : Nat) : Db :=
  db.updateMoves ids (fun mv => mv.state = .moving) fun mv =>
    { mv with state := .queued, updatedAt := now }

/-- `_recover`, and with `delayMs` 0 the statements of `sweep` and `resume`; `ids` are the moves
the `WHERE` clause picks. -/
def recover (db : Db) (ids : List Nat) (delayMs now : Nat) : Db :=
  db.updateMoves ids (fun mv => mv.state = .moving) fun mv =>
    { mv with
      state := if mv.sentAt = none then .queued else .awaitingUid
      awaitingSince := if mv.sentAt = none then none else some now
      nextAttemptAt := now + delayMs, updatedAt := now }

/-- `_markAwaiting`. -/
def markAwaiting (db : Db) (n now : Nat) : Db :=
  db.updateMoves [n] (fun mv => mv.state = .moving) fun mv =>
    { mv with
      state := .awaitingUid, awaitingSince := some now
      nextAttemptAt := now + MOVE_AWAITING_RETRY_MS, updatedAt := now }

/-- The `UPDATE` of `_retryLater`; `attempts` counts this one. -/
def retryLater (db : Db) (n attempts : Nat) (error : String) (unclear : Bool) (now : Nat) : Db :=
  db.updateMoves [n] (fun mv => mv.state = .moving) fun mv =>
    { mv with
      state := if unclear then .awaitingUid else .queued
      attempts, lastError := some (.ofList (error.toList.take 500))
      awaitingSince := if unclear then some now else none
      nextAttemptAt := now + moveRetryDelayMs attempts, updatedAt := now }

/-- `_resolveAwaiting`: the letter is still at its source, the move is queued again. -/
def requeueAwaiting (db : Db) (n attempts now : Nat) : Db :=
  db.updateMoves [n] (fun mv => mv.state = .awaitingUid) fun mv =>
    { mv with
      state := .queued, sentAt := none, updatedAt := now
      nextAttemptAt := now + if attempts > 0 then moveRetryDelayMs attempts else 0 }

def lookAgainLater (db : Db) (n now : Nat) : Db :=
  db.updateMoves [n] (fun _ => true) fun mv =>
    { mv with nextAttemptAt := now + MOVE_AWAITING_RETRY_MS }

/-- The move that waits for `n` to name its source. -/
def follower (db : Db) (n : Nat) : Option (Nat × Move) :=
  db.moves.find? fun _ mv => mv.predecessorId = some n

/-- The row of a move, while it holds the move's placeholder. -/
def rowAt (db : Db) (n : Nat) (cur : Move) : Option Message :=
  (db.messages.lookup cur.messageRowId).filter fun m => m.uid = placeholderUid n

/-- What `_settle` returns: the move, and the row that took the uid, if one did. -/
structure Settled where
  op : Move
  next : Option (Nat × Move)
  row : Option Message
  uid : Int
  folder : String

/-- The follower of a settled move starts where the letter is now. -/
def startFrom (cur : Move) (folder : String) (newUid : Int) (now : Nat) (next : Move) : Move :=
  { next.coalesceFlags cur with
    srcFolder := folder, srcUid := some newUid, predecessorId := none, updatedAt := now }

/-- `_settle`: the server moved the letter to `newUid`, in the destination or in `folder`. -/
def settle (db : Db) (n : Nat) (newUid : Int) (folder : Option String) (now : Nat) :
    Option (Settled × Db) := do
  let cur ← db.moves.lookup n
  let place := folder.getD cur.destFolder
  let next := db.follower n
  let moves := Table.update (db.moves.erase n) (fun _ mv => mv.predecessorId = some n) fun _ =>
    startFrom cur place newUid now
  let out := { op := cur, next, row := none, uid := newUid, folder := place }
  match next, db.rowAt n cur with
  | some _, _ => some (out, { db with moves })
  | none, none => some (out, { db with moves })
  | none, some row =>
    if cur.dropRow ∧ place = cur.destFolder then
      some (out, { db with moves, messages := db.messages.erase cur.messageRowId })
    else
      some ({ out with row := some row }, { db with
        moves
        messages := (freePlace db.messages cur.account place newUid cur.messageRowId).insert
          cur.messageRowId { row with
            uid := newUid, folder := place, syncedAt := now
            readChangedAt := if cur.setSeen = none then row.readChangedAt else some now
            starChangedAt := if cur.setFlagged = none then row.starChangedAt else some now } })

/-- What `_revert` returns: the move, and the row that went back, if one did. -/
structure Reverted where
  op : Move
  next : Option (Nat × Move)
  row : Option Message

/-- `_revert`: the row goes back, or the follower starts from the source of `n` instead. -/
def revert (db : Db) (n now : Nat) : Option (Reverted × Db) := do
  let cur ← db.moves.lookup n
  let next := db.follower n
  let moves := Table.update (db.moves.erase n) (fun _ mv => mv.predecessorId = some n) fun _ mv =>
    { mv with
      srcFolder := cur.srcFolder, srcUid := cur.srcUid, predecessorId := cur.predecessorId
      updatedAt := now }
  let out := { op := cur, next, row := none }
  match next, db.rowAt n cur with
  | some _, _ => some (out, { db with moves })
  | none, none => some (out, { db with moves })
  | none, some row => do
    let backUid ← cur.srcUid <|> cur.predecessorId.map placeholderUid
    some ({ out with row := some row }, { db with
      moves
      messages := (freePlace db.messages cur.account cur.srcFolder backUid cur.messageRowId).insert
        cur.messageRowId { row with folder := cur.srcFolder, uid := backUid, syncedAt := now } })

/-- `_drop`: the move goes, with those that follow it and the row at one of their placeholders. -/
def drop (db : Db) (n : Nat) : Option Db := do
  let cur ← db.moves.lookup n
  let gone := fun k (mv : Move) => k = n ∨ mv.predecessorId = some n
  let atPlaceholder := (db.messages.lookup cur.messageRowId).any fun m =>
    ((db.moves.select fun k mv => gone k mv).any fun e => m.uid = placeholderUid e.1)
  some { db with
    moves := db.moves.delete fun k mv => gone k mv
    messages := if atPlaceholder then db.messages.erase cur.messageRowId else db.messages }

end Db

end MailExpert.MoveQueue
