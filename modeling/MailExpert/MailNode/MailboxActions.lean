import MailExpert.MailNode.Seats
import MailExpert.MailboxDeletion.Job

/-!
# The actions on node mailboxes

Creating a node mailbox, asking to delete it, cancelling that, deactivating and activating it (`mailboxActions.js`), with
the seat ledger of `Seats` and the deletion job of `MailboxDeletion`. Each action on a mailbox runs in one transaction
that takes the mailbox lock first; the job takes no such lock. What a transaction writes is written with its commit, since
nobody sees it before: its row locks and the locks it holds keep the rows it read.

The checks of an action before its transaction are one step, `Label.refuse`. The node's calls only answer or fail, and so
do the statements. The ledger's clock is in microseconds, the dates of a mailbox are in milliseconds.
-/

namespace MailExpert.MailboxActions

abbrev Mailbox := MailboxDeletion.Row

def isWorking (row : Mailbox) : Bool := row.deleteAfter.isNone && row.deactivatedAt.isNone

inductive Error
  | accountNotFound
  | deletionAlreadyRequested
  | deletionNotRequested
  | deletionInProgress
  | alreadyDeactivated
  | mailboxPendingDeletion
  | notDeactivated
  | deletionPending
  | mailNodeNotConfigured
  | mailNodeHostMismatch
  | seatsUnknown
  | noFreeSeats
  | mailboxCreateFailed
  /-- a check before the transaction -/
  | notAccepted
  deriving DecidableEq, Repr

/-- What is asked for; `purchased` is the number of seats read before the transaction. -/
inductive Kind
  | create (email : String) (purchased : Option Int)
  | request (box delay holdDays : Nat)
  | cancel (box : Nat) (email : String) (purchased : Option Int)
  | deactivate (box holdDays : Nat)
  | activate (box : Nat) (email : String) (purchased : Option Int)
  deriving DecidableEq

def Kind.box? : Kind → Option Nat
  | .create _ _ => none
  | .request box _ _ | .cancel box _ _ | .deactivate box _ | .activate box _ _ => some box

/-- What it asks of the ledger under the seats lock. -/
def Kind.op? : Kind → Option Seats.Op
  | .create email purchased => some (.reserveSeat email purchased)
  | .cancel box email purchased | .activate box email purchased => some (.returnSeat box email purchased)
  | .request _ _ _ | .deactivate _ _ => none

inductive Outcome
  | done
  | refused (error : Error)
  | threw
  /-- it threw after its transaction had committed -/
  | threwLate
  deriving DecidableEq

inductive Phase
  | checking
  /-- the mailbox lock is held -/
  | locked
  /-- the row was read; the node is asked -/
  | asking
  /-- the change of the row is next -/
  | changing
  /-- the seats lock is held -/
  | seating
  /-- a creation has its reservation -/
  | provisioning
  | inserting
  /-- a creation failed and gives its reservation back -/
  | undoing (outcome : Outcome)
  | committed
  | over (outcome : Outcome)
  deriving DecidableEq

structure Action where
  kind : Kind
  phase : Phase := .checking
  /-- `NOW()` of its transaction -/
  now : Nat := 0
  /-- the row of its reservation -/
  reserved : Option Nat := none
  /-- one of its steps changed the mailboxes, or the ledger beyond its own reservation and expired ones -/
  changed : Bool := false
  deriving DecidableEq

/-- The phases between `lockMailbox` and the end of the transaction. -/
def Phase.inTransaction : Phase → Bool
  | .locked | .asking | .changing | .seating => true
  | .checking | .provisioning | .inserting | .undoing _ | .committed | .over _ => false

def Action.holds (box : Nat) (x : Action) : Bool := x.kind.box? == some box && x.phase.inTransaction

structure World where
  ledger : Seats.Ledger
  boxes : Table Nat Mailbox
  actions : List Action

inductive Settings
  | same | missing | otherHost
  deriving DecidableEq

inductive Label
  | tick (time : Nat)
  | start (kind : Kind)
  | refuse (i : Nat) (error : Error)
  | lock (i now : Nat)
  | read (i : Nat) (settings : Settings)
  | ask (i : Nat) (ok : Bool)
  | change (i : Nat)
  | lockSeats (i : Nat)
  /-- a statement under the seats lock; the last one commits -/
  | seat (i : Nat) (statement : Seats.Label)
  | fail (i : Nat)
  | provision (i : Nat) (ok : Bool)
  | insertRow (i accountId : Nat)
  | giveBack (i : Nat) (ok : Bool)
  | answer (i : Nat) (ok : Bool)
  | jobClaim (box : Nat)
  | jobFail (box : Nat) (startedAt : Option Nat) (attempts : Nat) (code : MailboxDeletion.Code)
  | jobRemove (box startedAt : Nat)
  | jobKeep (box : Nat)
  deriving DecidableEq

def Label.action? : Label → Option Nat
  | .refuse i _ | .lock i _ | .read i _ | .ask i _ | .change i | .lockSeats i | .seat i _ | .fail i | .provision i _ | .insertRow i _
  | .giveBack i _ | .answer i _ => some i
  | .tick _ | .start _ | .jobClaim _ | .jobFail _ _ _ _ | .jobRemove _ _ | .jobKeep _ => none

def World.set (w : World) (i : Nat) (x : Action) : World := { w with actions := w.actions.set i x }

def World.ms (w : World) : Nat := w.ledger.clock / 1000

def seatAvailableFor (rows : Seats.Rows) (accountId : Nat) (purchased : Option Int) (now : Nat) : Option Error :=
  if rows.entries.any fun e => Seats.ownHeld rows accountId now e.1 e.2 then none
  else match purchased with
    | none => some .seatsUnknown
    | some purchased => if Seats.noFreeSeats rows purchased now then some .noFreeSeats else none

/-- The checks of `cancelMailboxDeletion` and `activateNodeMailbox` before the node is asked. -/
def mayOpen (w : World) (box : Nat) (purchased : Option Int) (now : Nat) : Settings → Except Error Phase
  | .missing => .error .mailNodeNotConfigured
  | .otherHost => .error .mailNodeHostMismatch
  | .same => match seatAvailableFor w.ledger.rows box purchased now with
    | some error => .error error
    | none => .ok .asking

/-- What the mailbox as the action reads it under its lock leads to. -/
def afterRead (w : World) (x : Action) (settings : Settings) : Except Error Phase :=
  match x.kind, x.kind.box?.bind w.boxes.lookup with
  | .create _ _, _ => .ok .changing
  | .request _ _ _, none => .error .accountNotFound
  | .request _ _ _, some row => if row.deleteAfter.isSome then .error .deletionAlreadyRequested else .ok .asking
  | .cancel _ _ _, none => .ok .changing
  | .cancel box _ purchased, some row =>
    if row.deleteAfter.isNone || row.deactivatedAt.isSome then .ok .changing else mayOpen w box purchased x.now settings
  | .deactivate _ _, none => .error .accountNotFound
  | .deactivate _ _, some row =>
    if row.deactivatedAt.isSome then .error .alreadyDeactivated
    else if row.deleteAfter.isSome then .error .mailboxPendingDeletion
    else .ok .asking
  | .activate _ _ _, none => .error .accountNotFound
  | .activate box _ purchased, some row =>
    if row.deactivatedAt.isNone then .error .notDeactivated
    else if row.deleteAfter.isSome then .error .deletionPending
    else mayOpen w box purchased x.now settings

/-! ## The changes -/

/-- The commit of `requestDeletion`, `deactivateNodeMailbox`: the row and its seat. -/
def World.close (w : World) (i : Nat) (x : Action) (box : Nat) (row : Mailbox) (reason : String) (holdDays : Nat) : World :=
  { w.set i { x with phase := .committed } with
    boxes := w.boxes.modify box fun _ => row
    ledger := { w.ledger with rows := (Seats.releaseSeat w.ledger.rows box reason holdDays x.now).1 } }

def World.refused (w : World) (i : Nat) (x : Action) (error : Error) : World := w.set i { x with phase := .over (.refused error) }

/-- A change that takes no seat, with its commit. -/
def changeStep (w : World) (i : Nat) (x : Action) : Option World :=
  match x.kind with
  | .request box delay holdDays => some <| match w.boxes.lookup box with
    | none => w.refused i x .accountNotFound
    | some row => match MailboxDeletion.requestDeletion w.ms delay row with
      | none => w.refused i x .deletionAlreadyRequested
      | some row => w.close i x box row "deletion_requested" holdDays
  | .deactivate box holdDays => some <| match w.boxes.lookup box with
    | none => w.refused i x .accountNotFound
    | some row =>
      if row.deactivatedAt.isNone && row.deleteAfter.isNone then
        w.close i x box { row with deactivatedAt := some w.ms } "deactivated" holdDays
      else w.refused i x .accountNotFound
  | .create _ _ | .cancel _ _ _ | .activate _ _ _ => none

/-- The seats lock and, of a cancel, the row read under it. -/
def lockSeatsStep (w : World) (i : Nat) (x : Action) : Option World :=
  if w.ledger.tx = none then
    x.kind.op?.map fun op =>
      let taken : World := { w.set i { x with phase := .seating } with
        ledger := { w.ledger with tx := some { op := op, now := x.now, phase := op.start, gone := [] } } }
      match x.kind with
      | .cancel box _ _ => match w.boxes.lookup box with
        | none => w.refused i x .accountNotFound
        | some row =>
          if row.deleteAfter.isNone then w.refused i x .deletionNotRequested
          else if row.startedAt.isSome then w.refused i x .deletionInProgress
          else if row.deactivatedAt.isSome then
            { w.set i { x with phase := .committed } with
              boxes := w.boxes.modify box fun row =>
                { row with deleteAfter := none, attempts := 0, nextAttemptAt := none, lastError := none } }
          else taken
      | _ => taken
  else none

/-- The row's change after its seat was taken, and what the action goes on with; `none` throws. -/
def seated (w : World) (x : Action) : Option (Table Nat Mailbox × Phase) :=
  match x.kind with
  | .create _ _ => some (w.boxes, .provisioning)
  | .cancel box _ _ => some (w.boxes.modify box fun row =>
      { row with deleteAfter := none, attempts := 0, nextAttemptAt := none, lastError := none }, .committed)
  | .activate box _ _ =>
    if (w.boxes.lookup box).any fun row => row.deactivatedAt.isSome && row.deleteAfter.isNone then
      some (w.boxes.modify box fun row => { row with deactivatedAt := none }, .committed)
    else none
  | .request _ _ _ | .deactivate _ _ => none

/-- A statement under the seats lock. The last one that takes a seat commits with the row. -/
def seatStep (w : World) (i : Nat) (x : Action) (l : Seats.Label) : Option World :=
  (w.ledger.tx.bind fun tx => w.ledger.stepTx tx l).bind fun ledger =>
    match l with
    | .own _ | .noOwn | .sweep | .number => some { w with ledger := ledger }
    | .unknown => some { w.refused i x .seatsUnknown with ledger := ledger }
    | .count => some (if ledger.tx = none then { w.refused i x .noFreeSeats with ledger := ledger } else { w with ledger := ledger })
    | .reclaim | .insert => some <| match seated w x with
      | some (boxes, phase) =>
        { w.set i { x with phase := phase, reserved := if l = .insert then some w.ledger.nextId else none } with
          ledger := ledger, boxes := boxes }
      | none => { w.set i { x with phase := .over .threw } with ledger := w.ledger.commit w.ledger.rows }
    | _ => none

/-- A statement fails, or the process ends: the transaction rolls back. -/
def failStep (w : World) (i : Nat) (x : Action) : Option World :=
  match x.phase with
  | .checking | .locked | .asking | .changing => some (w.set i { x with phase := .over .threw })
  | .seating => some { w.set i { x with phase := .over .threw } with ledger := w.ledger.commit w.ledger.rows }
  | .inserting => some (w.set i { x with phase := .undoing (.refused .mailboxCreateFailed) })
  | .provisioning | .undoing _ | .committed | .over _ => none

/-- The insert of the row and `confirmSeat`, with their commit. -/
def insertStep (w : World) (i : Nat) (x : Action) (id accountId : Nat) : Option World :=
  if w.ledger.deleting id ∨ accountId ∈ w.ledger.accounts then none
  else if (Seats.confirmSeat w.ledger.rows id accountId).2 then
    some { w.set i { x with phase := .committed } with
      boxes := w.boxes.insert accountId {}
      ledger := { w.ledger with
        rows := (Seats.confirmSeat w.ledger.rows id accountId).1, accounts := accountId :: w.ledger.accounts } }
  else some (w.set i { x with phase := .undoing (.refused .mailboxCreateFailed) })

def giveBackStep (w : World) (i : Nat) (x : Action) (id : Nat) (outcome : Outcome) : Bool → Option World
  | true =>
    if w.ledger.deleting id then none
    else some { w.set i { x with phase := .over outcome } with
      ledger := { w.ledger with rows := Seats.dropPendingSeat w.ledger.rows id } }
  | false => some (w.set i { x with phase := .over outcome })

def actionStep (w : World) (i : Nat) (x : Action) (l : Label) : Option World :=
  match l, x.phase with
  | .refuse _ error, .checking => some (w.refused i x error)
  | .lock _ now, .checking =>
    if now ≤ w.ledger.clock then
      match x.kind.box? with
      | none => some (w.set i { x with phase := .changing, now := now })
      | some box =>
        if w.actions.any (·.holds box) then none else some (w.set i { x with phase := .locked, now := now })
    else none
  | .read _ settings, .locked => some <| match afterRead w x settings with
    | .ok phase => w.set i { x with phase := phase }
    | .error error => w.refused i x error
  | .ask _ true, .asking => some (w.set i { x with phase := .changing })
  | .ask _ false, .asking => some (w.set i { x with phase := .over .threw })
  | .change _, .changing => changeStep w i x
  | .lockSeats _, .changing => lockSeatsStep w i x
  | .seat _ statement, .seating => seatStep w i x statement
  | .fail _, _ => failStep w i x
  | .provision _ true, .provisioning => some (w.set i { x with phase := .inserting })
  | .provision _ false, .provisioning => some (w.set i { x with phase := .undoing .threw })
  | .insertRow _ accountId, .inserting => x.reserved.bind fun id => insertStep w i x id accountId
  | .giveBack _ ok, .undoing outcome => x.reserved.bind fun id => giveBackStep w i x id outcome ok
  | .answer _ true, .committed => some (w.set i { x with phase := .over .done })
  -- a creation reads nothing after its commit
  | .answer _ false, .committed => if x.kind.box?.isSome then some (w.set i { x with phase := .over .threwLate }) else none
  | _, _ => none

/-- A cancel holds the mailbox's row from its read under the seats lock on. -/
def World.rowLocked (w : World) (box : Nat) : Bool :=
  w.actions.any fun x => x.phase == .seating && match x.kind with
    | .cancel box' _ _ => box' == box
    | _ => false

def jobStep (w : World) (box : Nat) (f : Mailbox → Option Mailbox) : Option World :=
  if w.rowLocked box then none
  else (w.boxes.lookup box).bind fun row => (f row).map fun row => { w with boxes := w.boxes.modify box fun _ => row }

def move (w : World) : Label → Option World
  | .tick time => if w.ledger.clock ≤ time then some { w with ledger := { w.ledger with clock := time } } else none
  | .start kind => some { w with actions := w.actions ++ [{ kind := kind }] }
  | .jobClaim box => jobStep w box (MailboxDeletion.claim w.ms)
  | .jobFail box startedAt attempts code => jobStep w box fun row => some (MailboxDeletion.recordFailure w.ms startedAt attempts code row)
  | .jobRemove box startedAt =>
    if !w.rowLocked box && (w.boxes.lookup box).any (·.startedAt == some startedAt) then
      some { w with boxes := w.boxes.erase box }
    else none
  | .jobKeep box => jobStep w box fun row => some { row with lastError := some .rowKept }
  | l => l.action?.bind fun i => w.actions[i]?.bind fun x => actionStep w i x l

/-- Every row of `t`, but those to skip, is in `t'` as it is. -/
def keeps {ρ : Type} [DecidableEq ρ] (skip : Nat → ρ → Bool) (t t' : Table Nat ρ) : Bool :=
  t.entries.all fun e => skip e.1 e.2 || t'.lookup e.1 == some e.2

/-- An expired reservation, or the action's own. -/
def passing (own : Option Nat) (now id : Nat) (r : Seats.Row) : Bool := r.pending && (r.expired now || own == some id)

/-- The step changed no mailbox, and no row of the ledger but the action's own reservation and expired ones. -/
def unchanged (own : Option Nat) (w w' : World) : Bool :=
  keeps (fun _ _ => false) w.boxes w'.boxes && keeps (fun _ _ => false) w'.boxes w.boxes &&
    keeps (passing own w.ledger.clock) w.ledger.rows w'.ledger.rows &&
    keeps (passing own w.ledger.clock) w'.ledger.rows w.ledger.rows

/-- Notes on the action of a step whether it changed anything. -/
def mark (w : World) (l : Label) (w' : World) : World :=
  { w' with actions := l.action?.elim w'.actions fun i =>
      w'.actions.modify i fun x => { x with changed := x.changed || !unchanged x.reserved w w' } }

def step (w : World) (l : Label) : Option World := (move w l).map (mark w l)

def Seated (rows : Seats.Rows) (accountId : Nat) : Prop := ∃ id r, rows.lookup id = some r ∧ r.liveOf accountId = true

/-- A row the job claims is one asked to be deleted, and a mailbox has a seat exactly while it works. -/
structure Rightful (w : World) (box : Nat) (row : Mailbox) : Prop where
  known : box ∈ w.ledger.accounts
  claimed : row.startedAt.isSome → row.deleteAfter.isSome
  seated : Seated w.ledger.rows box ↔ isWorking row = true

/-- The mailboxes and the ledger as migration 0095 leaves them. -/
def system : TransitionSystem World Label where
  init w := w.ledger.Migrated ∧ w.actions = [] ∧ ∀ box row, w.boxes.lookup box = some row → Rightful w box row
  step := step

end MailExpert.MailboxActions
