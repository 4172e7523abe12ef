import MailExpert.Lib.Table
import MailExpert.Lib.TransitionSystem

/-!
# The seat ledger

The table `mail_node_seat_assignments` of `eopSeats.js` and the operations on it. The takes
(`reserveSeat`, `returnSeat`) and `setHoldDays` run one at a time, under the seats lock, and each of their
statements is a step; the transaction's own deletions are its alone until it commits (`Ledger.seen`).
`confirmSeat`, `dropPendingSeat` and `releaseSeat` take no lock and fall between any two of these steps.

A transaction's `NOW()` is the time it began, before it waited for the lock. Times are in microseconds.
-/

namespace MailExpert.Seats

/-- A row of `mail_node_seat_assignments`. -/
structure Row where
  seat_no : Nat
  account_id : Option Nat
  email : String
  released_at : Option Nat
  release_reason : Option String
  free_from : Option Nat
  pending_until : Option Nat
deriving DecidableEq

abbrev Rows := Table Nat Row

def pendingMinutes : Nat := 10
def minute : Nat := 60000000
def day : Nat := 1440 * minute

def Row.live (r : Row) : Bool := r.released_at.isNone
def Row.pending (r : Row) : Bool := r.pending_until.isSome

/-- `released_at IS NOT NULL AND free_from > NOW()` -/
def Row.held (now : Nat) (r : Row) : Bool := r.released_at.isSome && r.free_from.any (now < ·)

/-- `released_at IS NULL AND (pending_until IS NULL OR pending_until > NOW())` -/
def Row.used (now : Nat) (r : Row) : Bool := r.live && r.pending_until.all (now < ·)

/-- `pending_until IS NOT NULL AND pending_until < NOW()` -/
def Row.expired (now : Nat) (r : Row) : Bool := r.pending_until.any (· < now)

/-- Row `id` is the latest row of its seat. -/
def isLatest (rows : Rows) (id : Nat) (r : Row) : Bool :=
  rows.entries.all fun e => e.2.seat_no != r.seat_no || decide (e.1 ≤ id)

/-- `LATEST` -/
def latest (rows : Rows) : List (Nat × Row) := rows.select (isLatest rows)

def seatCounts (rows : Rows) (now : Nat) : Nat × Nat :=
  ((latest rows).countP (Row.used now ·.2), (latest rows).countP (Row.held now ·.2))

def taken (rows : Rows) (now : Nat) : List Nat :=
  ((latest rows).filter fun e => e.2.live || e.2.held now).map (·.2.seat_no)

def maxSeat (rows : Rows) : Nat := rows.entries.foldr (fun e n => max e.2.seat_no n) 0

/-- The lowest seat number that is neither live nor on hold. -/
def freeSeatNumber (rows : Rows) (now : Nat) : Option Nat :=
  (List.range' 1 (maxSeat rows + 1)).find? fun n => !(taken rows now).contains n

/-- Binds the pending row to the new account; `false` when the row is gone. -/
def confirmSeat (rows : Rows) (assignmentId accountId : Nat) : Rows × Bool :=
  (rows.update (fun id r => id == assignmentId && r.pending)
    fun _ r => { r with account_id := some accountId, pending_until := none },
   (rows.lookup assignmentId).any Row.pending)

def dropPendingSeat (rows : Rows) (assignmentId : Nat) : Rows :=
  rows.delete fun id r => id == assignmentId && r.pending

def Row.liveOf (accountId : Nat) (r : Row) : Bool := r.account_id == some accountId && r.live

/-- Releases the live seat into hold: the new rows, and the seat with the time it is free from. -/
def releaseSeat (rows : Rows) (accountId : Nat) (reason : String) (holdDays now : Nat) :
    Rows × Option (Nat × Nat) :=
  (rows.update (fun _ r => r.liveOf accountId) fun _ r =>
    { r with released_at := some now, release_reason := some reason,
             free_from := some (now + holdDays * day) },
   (rows.find? fun _ r => r.liveOf accountId).map fun e => (e.2.seat_no, now + holdDays * day))

/-- The re-dating of `setHoldDays`. -/
def redate (rows : Rows) (days : Nat) : Rows :=
  rows.update (fun id r => isLatest rows id r && r.released_at.isSome) fun _ r =>
    { r with free_from := r.released_at.map (· + days * day) }

/-- The mailbox's own seat while it is on hold. -/
def ownHeld (rows : Rows) (accountId now id : Nat) (r : Row) : Bool :=
  isLatest rows id r && r.account_id == some accountId && r.held now

inductive Op
  | reserveSeat (email : String) (purchased : Option Int)
  | returnSeat (accountId : Nat) (email : String) (purchased : Option Int)
  | setHoldDays (days : Nat)
deriving DecidableEq

/-- The number of purchased seats the operation was given. -/
def Op.purchased : Op → Option Int
  | .reserveSeat _ purchased => purchased
  | .returnSeat _ _ purchased => purchased
  | .setHoldDays _ => none

/-- How far the holder of the lock is. -/
inductive Phase
  | locked
  | own (id : Nat)
  | taking
  | swept
  | counted
  | numbered (seat : Nat)
deriving DecidableEq

/-- The transaction that holds the lock; `gone` are the rows it has deleted. -/
structure Tx where
  op : Op
  now : Nat
  phase : Phase
  gone : List Nat
deriving DecidableEq

structure Ledger where
  rows : Rows
  nextId : Nat
  clock : Nat
  holdDays : Nat
  /-- every account a mailbox was made for -/
  accounts : List Nat
  tx : Option Tx
deriving DecidableEq

/-- The rows a transaction sees: the committed ones less those it deleted. -/
def without (rows : Rows) (gone : List Nat) : Rows := rows.delete fun id _ => gone.contains id

def Ledger.seen (w : Ledger) (tx : Tx) : Rows := without w.rows tx.gone

def Op.row (op : Op) (seat now : Nat) : Option Row :=
  match op with
  | .reserveSeat email _ => some
    { seat_no := seat, account_id := none, email := email.toLower, released_at := none,
      release_reason := none, free_from := none, pending_until := some (now + pendingMinutes * minute) }
  | .returnSeat accountId email _ => some
    { seat_no := seat, account_id := some accountId, email := email.toLower, released_at := none,
      release_reason := none, free_from := none, pending_until := none }
  | .setHoldDays _ => none

/-- A mailbox that takes its seat back exists and holds none. -/
def Op.allowed (w : Ledger) : Op → Bool
  | .returnSeat accountId _ _ =>
    w.accounts.contains accountId && !w.rows.entries.any fun e => e.2.liveOf accountId
  | _ => true

def Op.start : Op → Phase
  | .reserveSeat .. => .taking
  | _ => .locked

/-- One statement of the holder of the lock, one call without the lock, or time passing. -/
inductive Label
  | tick (time : Nat)
  | lock (op : Op) (now : Nat)
  | own (id : Nat)
  | noOwn
  | reclaim
  | redate
  | unknown
  | sweep
  | count
  | number
  | insert
  | abort
  | confirmSeat (assignmentId accountId : Nat)
  | dropPendingSeat (assignmentId : Nat)
  | releaseSeat (accountId : Nat) (reason : String) (holdDays now : Nat)
deriving DecidableEq

/-- Whether the holder has deleted the row: another statement on it then waits for the commit. -/
def Ledger.deleting (w : Ledger) (id : Nat) : Bool := w.tx.any fun tx => tx.gone.contains id

def Ledger.commit (w : Ledger) (rows : Rows) : Ledger := { w with rows := rows, tx := none }

/-- `if (purchased - used - held < 1) return { error: 'no_free_seats' }` -/
def noFreeSeats (rows : Rows) (purchased : Int) (now : Nat) : Bool :=
  purchased - (seatCounts rows now).1 - (seatCounts rows now).2 < 1

/-- The statements of the transaction that holds the lock. -/
def Ledger.stepTx (w : Ledger) (tx : Tx) : Label → Option Ledger
  | .own id =>
    match tx.op, tx.phase with
    | .returnSeat accountId .., .locked =>
      if (w.rows.lookup id).any (ownHeld w.rows accountId tx.now id) then
        some { w with tx := some { tx with phase := .own id } }
      else none
    | _, _ => none
  | .noOwn =>
    match tx.op, tx.phase with
    | .returnSeat accountId .., .locked =>
      if w.rows.entries.any fun e => ownHeld w.rows accountId tx.now e.1 e.2 then none
      else some { w with tx := some { tx with phase := .taking } }
    | _, _ => none
  | .reclaim =>
    match tx.phase with
    | .own id => some <| w.commit <| w.rows.modify id fun r =>
      { r with released_at := none, release_reason := none, free_from := none }
    | _ => none
  | .redate =>
    match tx.op with
    | .setHoldDays days => some { w.commit (redate w.rows days) with holdDays := days }
    | _ => none
  | .unknown =>
    if tx.phase = .taking ∧ tx.op.purchased = none then some (w.commit w.rows) else none
  | .sweep =>
    if tx.phase = .taking ∧ tx.op.purchased.isSome then
      some { w with tx := some { tx with
        phase := .swept, gone := (w.rows.select fun _ r => r.expired tx.now).map (·.1) } }
    else none
  | .count =>
    match tx.phase, tx.op.purchased with
    | .swept, some purchased =>
      if noFreeSeats (w.seen tx) purchased tx.now then some (w.commit (w.seen tx))
      else some { w with tx := some { tx with phase := .counted } }
    | _, _ => none
  | .number =>
    match tx.phase, freeSeatNumber (w.seen tx) tx.now with
    | .counted, some seat => some { w with tx := some { tx with phase := .numbered seat } }
    | _, _ => none
  | .insert =>
    match tx.phase with
    | .numbered seat => (tx.op.row seat tx.now).map fun row =>
      { w.commit ((w.seen tx).insert w.nextId row) with nextId := w.nextId + 1 }
    | _ => none
  | .abort => some (w.commit w.rows)
  | _ => none

def Ledger.step (w : Ledger) : Label → Option Ledger
  | .tick time => if w.clock ≤ time then some { w with clock := time } else none
  | .lock op now =>
    if w.tx = none ∧ now ≤ w.clock ∧ op.allowed w then
      some { w with tx := some { op := op, now := now, phase := op.start, gone := [] } }
    else none
  | .confirmSeat assignmentId accountId =>
    if w.deleting assignmentId ∨ accountId ∈ w.accounts then none
    else
      let (rows, ok) := confirmSeat w.rows assignmentId accountId
      -- a confirmation that finds no row fails the creation, which rolls back
      if ok then some { w with rows := rows, accounts := accountId :: w.accounts } else none
  | .dropPendingSeat assignmentId =>
    if w.deleting assignmentId then none
    else some { w with rows := dropPendingSeat w.rows assignmentId }
  | .releaseSeat accountId reason holdDays now =>
    if now ≤ w.clock then some { w with rows := (releaseSeat w.rows accountId reason holdDays now).1 }
    else none
  | l => w.tx.bind fun tx => w.stepTx tx l

/-- The ledger as migration 0095 leaves it: at most one row a seat and one a mailbox, none pending. -/
structure Ledger.Migrated (w : Ledger) : Prop where
  free : w.tx = none
  ids {id : Nat} {r : Row} : w.rows.lookup id = some r → id < w.nextId
  pending {id : Nat} {r : Row} : w.rows.lookup id = some r → r.pending_until = none
  seats {id id' : Nat} {r r' : Row} : w.rows.lookup id = some r → w.rows.lookup id' = some r' →
    r.seat_no = r'.seat_no → id = id'
  mailboxes {id id' : Nat} {r r' : Row} : w.rows.lookup id = some r → w.rows.lookup id' = some r' →
    r.account_id = r'.account_id → id = id'
  accounts {id a : Nat} {r : Row} : w.rows.lookup id = some r → r.account_id = some a → a ∈ w.accounts

/-- The ledger with everything that happens to it. -/
def system : TransitionSystem Ledger Label where
  init := Ledger.Migrated
  step := Ledger.step

end MailExpert.Seats
