import Mathlib
import MailExpert.Lib.TransitionSystem
import MailExpert.Threading.ThreadId

/-!
# Recomputing the thread keys of a mailbox

`services/threading/recompute.js`, with the `thread_recompute` row of
`services/threading/recomputeStore.js`. One batch is two steps, the write of its keys and the saved
cursor; a pass may stop before each of them, asked to by `shouldContinue` or with its process. The
rows of a query without ORDER BY come in an order that the label of the step says.
-/

namespace MailExpert.Threading

/-- `(date, id)`. No cursor is `-infinity` with the zero uuid, before every row. -/
abbrev Cursor := Nat ×ₗ Nat

def Row.cursor (row : Row) : Option Cursor := row.date.map fun date => toLex (date, row.id)

/-- Where a row that has a date stands in the order of the walk. -/
def Row.position (row : Row) : Cursor := toLex (row.date.getD 0, row.id)

/-- `(date, id) > (cursor_date, cursor_id)`: not so without a date. -/
def Row.isAfter (cursor : Option Cursor) (row : Row) : Bool :=
  match row.cursor, cursor with
  | none, _ => false
  | some _, none => true
  | some c, some cursor => cursor < c

/-- `(date, id) <= (cursor_date, cursor_id)`. -/
def Row.isUpTo (cursor : Option Cursor) (row : Row) : Bool :=
  match row.cursor, cursor with
  | some c, some cursor => c ≤ cursor
  | _, _ => false

structure Mailbox where
  rows : List Row
  distinct : (rows.map (·.id)).Nodup

/-- `thread_id` and `threading_reason` by the id of the row. -/
abbrev Columns := Nat → ThreadKey

namespace Mailbox

variable (mailbox : Mailbox)

def walk : List Row :=
  (mailbox.rows.filter fun row => !row.is_deleted && row.date.isSome).insertionSort
    fun a b => a.position ≤ b.position

def selectBatch (cursor : Option Cursor) (batchSize : Nat) : List Row :=
  (mailbox.walk.filter (·.isAfter cursor)).take batchSize

def selectUndated : List Row :=
  (mailbox.rows.filter fun row => !row.is_deleted && row.date.isNone).insertionSort
    fun a b => a.id ≤ b.id

/-- What `resolveAncestors` selects, in the order of the table. -/
def resolveAncestors (columns : Columns) (candidateIds : List String) (cursor : Option Cursor) :
    List (String × String) :=
  (mailbox.rows.filter fun row => !row.is_deleted && row.isUpTo cursor).filterMap fun row =>
    match row.message_id, (columns row.id).threadId with
    | some messageId, some threadId =>
      if messageId ∈ candidateIds then some (messageId, threadId) else none
    | _, _ => none

end Mailbox

def collectCandidateIds (batch : List Row) : List String := (batch.flatMap (·.candidates)).dedup

/-- The keys that the database answered; of two answers for one Message-ID the last one stays. -/
def Keys.ofResolved (resolved : List (String × String)) : Keys :=
  resolved.foldl (fun keys (id, threadId) => keys.set id (some threadId)) []

/-- The loop of `rekeyBatch`: the key of each row, from those before it. -/
def rekeyRows (targetMode : Mode) : Keys → List Row → List (Row × ThreadKey)
  | _, [] => []
  | ancestorKeys, row :: rows =>
    let key := threadingForRow row targetMode ancestorKeys
    (row, key) :: rekeyRows targetMode (match row.messageId with
      | some messageId => ancestorKeys.set messageId key.threadId
      | none => ancestorKeys) rows

/-- `writeBatch`: the columns after it, and how many rows changed. -/
def writeBatch (columns : Columns) (updates : List (Nat × ThreadKey)) : Columns × Nat :=
  (fun id => (updates.lookup id).getD (columns id),
    (updates.filter fun (id, key) => columns id ≠ key).length)

def rekeyBatch (targetMode : Mode) (columns : Columns) (batch : List Row)
    (resolved : List (String × String)) : Columns × Nat :=
  writeBatch columns <| ((rekeyRows targetMode (.ofResolved resolved) batch).filter fun (row, key) =>
    columns row.id ≠ key).map fun (row, key) => (row.id, key)

/-- A row of `thread_recompute`. -/
structure Recompute where
  target_mode : Mode
  total : Nat
  processed : Nat := 0
  changed : Nat := 0
  cursor : Option Cursor := none
  finished : Bool := false
deriving DecidableEq

/-- Where a pass is in its program. -/
inductive Stage
  | walking
  | batchWritten (next : Option Cursor)
  | tailWritten
  | tailSaved
deriving DecidableEq

structure Pass where
  batchSize : Nat
  cursor : Option Cursor
  processed : Nat
  changed : Nat
  total : Nat
  stage : Stage := .walking

structure State where
  columns : Columns
  recompute : Option Recompute
  pass : Option Pass

inductive Label
  | start (batchSize : Nat)
  | batch (resolved : List (String × String))
  | saveCursor
  | tail (resolved : List (String × String))
  | saveTail
  | finish
  | stop  -- `shouldContinue` says no, or the process ends

def Recompute.resuming (targetMode : Mode) (recompute : Recompute) : Bool :=
  recompute.target_mode = targetMode && !recompute.finished

variable (mailbox : Mailbox) (targetMode : Mode)

/-- The rows of a batch or of the tail get their keys. -/
def rekey (s : State) (pass : Pass) (batch : List Row) (resolved : List (String × String))
    (stage : Stage) : Option State :=
  if resolved.Perm (mailbox.resolveAncestors s.columns (collectCandidateIds batch) pass.cursor) then
    let (columns, changed) := rekeyBatch targetMode s.columns batch resolved
    some { s with
      columns
      pass := some { pass with
        processed := pass.processed + batch.length, changed := pass.changed + changed, stage } }
  else none

/-- `saveRecomputeCursor`. -/
def saveRecomputeCursor (s : State) (pass : Pass) : State :=
  { s with
    recompute := s.recompute.map fun recompute => { recompute with
      cursor := pass.cursor, processed := pass.processed, changed := pass.changed }
    pass := some pass }

/-- `runRecompute`, step by step. -/
def step (s : State) : Label → Option State
  | .start batchSize =>
    if s.pass.isSome ∨ batchSize = 0 then none
    else match s.recompute.filter (·.resuming targetMode) with
      | some existing => some { s with pass := some {
          batchSize, cursor := existing.cursor, processed := existing.processed
          changed := existing.changed, total := existing.total } }
      | none =>
        let total := (mailbox.rows.filter fun row => !row.is_deleted).length
        some { s with
          recompute := some { target_mode := targetMode, total }
          pass := some { batchSize, cursor := none, processed := 0, changed := 0, total } }
  | .batch resolved => do
    let pass ← s.pass.filter (·.stage = .walking)
    let batch := mailbox.selectBatch pass.cursor pass.batchSize
    let last ← batch.getLast?
    rekey mailbox targetMode s pass batch resolved (.batchWritten last.cursor)
  | .saveCursor => do
    let pass ← s.pass
    let .batchWritten next := pass.stage | none
    some (saveRecomputeCursor s { pass with cursor := next, stage := .walking })
  | .tail resolved => do
    let pass ← s.pass.filter (·.stage = .walking)
    if mailbox.selectBatch pass.cursor pass.batchSize ≠ [] then none
    else
      let undated := mailbox.selectUndated
      rekey mailbox targetMode s pass undated resolved
        (if undated = [] then .tailSaved else .tailWritten)
  | .saveTail => do
    let pass ← s.pass.filter (·.stage = .tailWritten)
    some (saveRecomputeCursor s { pass with stage := .tailSaved })
  | .finish => do
    let _ ← s.pass.filter (·.stage = .tailSaved)
    some { s with
      recompute := s.recompute.map fun recompute => { recompute with finished := true }
      pass := none }
  | .stop => some { s with pass := none }

/-- Runs of passes with one target mode, over rows that do not change. The first pass begins anew. -/
def system : TransitionSystem State Label where
  init s := s.pass = none ∧ s.recompute.all (!·.resuming targetMode) = true
  step := step mailbox targetMode

/-- A pass has finished and none has begun since. -/
def State.Finished (s : State) : Prop := s.pass = none ∧ s.recompute.any (·.finished) = true

end MailExpert.Threading
